import OcreRuntime.Lib.RingBuffer

/-!
# The event queue

The functions of `core_eventq.c`, on items of any type. What locking returns is
ignored by the source, so the lock is only recorded as initialised or not. An access
to the buffer is undefined when there is none, or when the item has never been
written.
-/

namespace OcreRuntime

/-- A mutex with its condition variable; static objects start out as zeros. -/
inductive LockState
  | zeroed
  | ready
  | destroyed
  deriving DecidableEq, Repr

/-- `core_eventq_t`; the size of an item is that of the type. -/
structure CoreEventq (Item : Type) where
  buffer : Option (ℕ → Option Item)
  maxItems : ℕ
  count : ℕ
  head : ℕ
  tail : ℕ
  lock : LockState

section Queue

open Function (update)

variable {Item : Type}

/-- A static queue before anything has been done with it. -/
def CoreEventq.static : CoreEventq Item := ⟨none, 0, 0, 0, 0, .zeroed⟩

/-- `core_eventq_init`, when the allocation succeeds or not. -/
def coreEventqInit (malloc : Bool) (maxItems : ℕ) (q : CoreEventq Item) :
    Int × CoreEventq Item :=
  if malloc then (0, ⟨some fun _ ↦ none, maxItems, 0, 0, 0, .ready⟩)
  else (-12, { q with buffer := none })

def coreEventqPeek (q : CoreEventq Item) : Option (Except Int Item) :=
  if q.count = 0 then some (.error (-42))
  else q.buffer.bind fun cells ↦ (cells q.head).map .ok

def coreEventqGet (q : CoreEventq Item) : Option (Except Int Item × CoreEventq Item) :=
  if q.count = 0 then some (.error (-2), q)
  else q.buffer.bind fun cells ↦ (cells q.head).map fun item ↦
    (.ok item, { q with head := (q.head + 1) % q.maxItems, count := q.count - 1 })

def coreEventqPut (item : Item) (q : CoreEventq Item) : Option (Int × CoreEventq Item) :=
  if q.count ≥ q.maxItems then some (-12, q)
  else q.buffer.map fun cells ↦ (0, { q with
    buffer := some (update cells q.tail (some item))
    tail := (q.tail + 1) % q.maxItems
    count := q.count + 1 })

def coreEventqDestroy (q : CoreEventq Item) : CoreEventq Item :=
  { q with buffer := none, lock := .destroyed }

/-- The queue has a buffer that holds the items in `l`. -/
def CoreEventq.Holds (q : CoreEventq Item) (l : List Item) : Prop :=
  ∃ cells, q.buffer = some cells ∧
    RingBuffer.Holds ⟨cells, q.maxItems, q.count, q.head, q.tail⟩ l

variable {q : CoreEventq Item} {l : List Item} {item : Item}

theorem coreEventqInit_holds {maxItems : ℕ} (h : 0 < maxItems) (q : CoreEventq Item) :
    (coreEventqInit true maxItems q).2.Holds [] :=
  ⟨fun _ ↦ none, rfl, .nil h rfl rfl rfl⟩

theorem buffer_of_coreEventqGet {q' : CoreEventq Item} {r : Except Int Item}
    (h : coreEventqGet q = some (r, q')) : q'.buffer = q.buffer := by
  unfold coreEventqGet at h
  split at h
  · cases h
    rfl
  · obtain ⟨cells, hbuffer, hcell⟩ := Option.bind_eq_some_iff.mp h
    obtain ⟨item, -, heq⟩ := Option.map_eq_some_iff.mp hcell
    cases heq
    rfl

theorem buffer_of_coreEventqPut {q' : CoreEventq Item} {rc : Int}
    (h : coreEventqPut item q = some (rc, q')) : q'.buffer = none ↔ q.buffer = none := by
  unfold coreEventqPut at h
  split at h
  · cases h
    rfl
  · obtain ⟨cells, hbuffer, heq⟩ := Option.map_eq_some_iff.mp h
    cases heq
    simp [hbuffer]

namespace CoreEventq.Holds

theorem count_eq (h : q.Holds l) : q.count = l.length := by
  obtain ⟨cells, -, hring⟩ := h
  exact hring.count_eq

theorem unique {l' : List Item} (h : q.Holds l) (h' : q.Holds l') : l = l' := by
  obtain ⟨cells, hbuffer, hring⟩ := h
  obtain ⟨cells', hbuffer', hring'⟩ := h'
  obtain rfl := Option.some.inj (hbuffer.symm.trans hbuffer')
  exact hring.unique hring'

theorem peek_nil (h : q.Holds []) : coreEventqPeek q = some (.error (-42)) := by
  simp [coreEventqPeek, h.count_eq]

theorem peek_cons (h : q.Holds (item :: l)) : coreEventqPeek q = some (.ok item) := by
  have hcount := h.count_eq
  obtain ⟨cells, hbuffer, hring⟩ := h
  have hfront : cells q.head = some item := hring.front
  simp [coreEventqPeek, hcount, hbuffer, hfront]

theorem get_nil (h : q.Holds []) : coreEventqGet q = some (.error (-2), q) := by
  simp [coreEventqGet, h.count_eq]

theorem get_cons (h : q.Holds (item :: l)) :
    ∃ q', coreEventqGet q = some (.ok item, q') ∧ q'.maxItems = q.maxItems ∧ q'.Holds l := by
  have hcount := h.count_eq
  obtain ⟨cells, hbuffer, hring⟩ := h
  refine ⟨{ q with head := (q.head + 1) % q.maxItems, count := q.count - 1 }, ?_, rfl, cells,
    hbuffer, hring.pop⟩
  have hfront : cells q.head = some item := hring.front
  simp [coreEventqGet, hcount, hbuffer, hfront]

theorem put_of_lt (h : q.Holds l) (hlt : l.length < q.maxItems) (item : Item) :
    ∃ q', coreEventqPut item q = some (0, q') ∧ q'.maxItems = q.maxItems ∧
      q'.Holds (l ++ [item]) := by
  have hcount := h.count_eq
  obtain ⟨cells, hbuffer, hring⟩ := h
  refine ⟨{ q with
    buffer := some (update cells q.tail (some item))
    tail := (q.tail + 1) % q.maxItems
    count := q.count + 1 }, ?_, rfl, _, rfl, hring.push hlt item⟩
  rw [coreEventqPut, if_neg (by omega), hbuffer]
  rfl

theorem put_of_full (h : q.Holds l) (hfull : q.maxItems ≤ l.length) (item : Item) :
    coreEventqPut item q = some (-12, q) := by
  rw [coreEventqPut, if_pos (by rw [h.count_eq]; exact hfull)]

end CoreEventq.Holds

end Queue

end OcreRuntime
