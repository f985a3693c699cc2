import OcreRuntime.Lib.Block
import OcreRuntime.OcreApi.EventQueue
import Mathlib.Algebra.Group.Nat.Defs

/-!
# The event queue in memory

The functions of `core_eventq.c` once more, now with the buffer as the block of bytes
that was allocated and with the places of the items computed as the code does, in
`size_t` arithmetic. A copy that passes the end of the block is undefined. As long as
the size of the whole buffer fits in a `size_t`, this is the queue of typed items.
-/

namespace OcreRuntime

/-- `core_eventq_t` when `item_size` is given; the block is the one behind `buffer`. -/
structure EventqBytes (itemSize : ℕ) where
  buffer : List UInt8
  maxItems : ℕ
  count : ℕ
  head : ℕ
  tail : ℕ

namespace EventqBytes

variable {w itemSize maxItems : ℕ}

/-- `core_eventq_init` for a `size_t` of `w` bits. An allocation that succeeds returns a
block of the size asked for that may hold anything. -/
def init (w itemSize maxItems : ℕ) (malloc : Bool) (garbage : ℕ → UInt8) :
    Int × Option (EventqBytes itemSize) :=
  if malloc then
    (0, some ⟨(List.range (itemSize * maxItems % 2 ^ w)).map garbage, maxItems, 0, 0, 0⟩)
  else (-12, none)

def peek (w : ℕ) (q : EventqBytes itemSize) : Option (Except Int (List.Vector UInt8 itemSize)) :=
  if q.count = 0 then some (.error (-42))
  else (Block.read q.buffer (q.head * itemSize % 2 ^ w) itemSize).map .ok

def get (w : ℕ) (q : EventqBytes itemSize) :
    Option (Except Int (List.Vector UInt8 itemSize) × EventqBytes itemSize) :=
  if q.count = 0 then some (.error (-2), q)
  else (Block.read q.buffer (q.head * itemSize % 2 ^ w) itemSize).map fun event ↦
    (.ok event, { q with head := (q.head + 1) % q.maxItems, count := q.count - 1 })

def put (w : ℕ) (event : List.Vector UInt8 itemSize) (q : EventqBytes itemSize) :
    Option (Int × EventqBytes itemSize) :=
  if q.count ≥ q.maxItems then some (-12, q)
  else (Block.write q.buffer (q.tail * itemSize % 2 ^ w) event).map fun buffer ↦
    (0, { q with
      buffer := buffer
      tail := (q.tail + 1) % q.maxItems
      count := q.count + 1 })

end EventqBytes

/-- The calls on a queue, with the bytes of the item that is put. -/
inductive EventqCall (Item : Type)
  | put (event : Item)
  | get
  | peek
  deriving DecidableEq, Repr

/-- What a call answers: its return value and the item it copied out. -/
abbrev EventqAnswer (Item : Type) := Int × Option Item

def EventqAnswer.ofExcept {Item : Type} : Except Int Item → EventqAnswer Item
  | .ok event => (0, some event)
  | .error rc => (rc, none)

section Fifo

variable {Item : Type}

/-- What a call does to a list of at most `maxItems` items that is first in, first out. -/
def fifoCall (maxItems : ℕ) : EventqCall Item → List Item → EventqAnswer Item × List Item
  | .put event, l => if l.length < maxItems then ((0, none), l ++ [event]) else ((-12, none), l)
  | .get, [] => ((-2, none), [])
  | .get, event :: l => ((0, some event), l)
  | .peek, [] => ((-42, none), [])
  | .peek, event :: l => ((0, some event), event :: l)

def fifoCalls (maxItems : ℕ) :
    List (EventqCall Item) → List Item → List (EventqAnswer Item) × List Item
  | [], l => ([], l)
  | c :: cs, l =>
    let (answer, l) := fifoCall maxItems c l
    let (answers, l) := fifoCalls maxItems cs l
    (answer :: answers, l)

end Fifo

namespace EventqBytes

variable {w itemSize maxItems : ℕ}

def call (w : ℕ) :
    EventqCall (List.Vector UInt8 itemSize) → EventqBytes itemSize →
      Option (EventqAnswer (List.Vector UInt8 itemSize) × EventqBytes itemSize)
  | .put event, q => (q.put w event).map fun (rc, q) ↦ ((rc, none), q)
  | .get, q => (q.get w).map fun (r, q) ↦ (.ofExcept r, q)
  | .peek, q => (q.peek w).map fun r ↦ (.ofExcept r, q)

def calls (w : ℕ) :
    List (EventqCall (List.Vector UInt8 itemSize)) → EventqBytes itemSize →
      Option (List (EventqAnswer (List.Vector UInt8 itemSize)) × EventqBytes itemSize)
  | [], q => some ([], q)
  | c :: cs, q => (q.call w c).bind fun (answer, q) ↦
      (q.calls w cs).map fun (answers, q) ↦ (answer :: answers, q)

/-- The queue agrees with its counters and refuses calls without a change when it is
full or empty; a peek never changes it. -/
structure Invariant (w : ℕ) (q : EventqBytes itemSize) : Prop where
  head_lt : q.head < q.maxItems
  tail_lt : q.tail < q.maxItems
  count_le : q.count ≤ q.maxItems
  tail_eq : q.tail = (q.head + q.count) % q.maxItems
  full : q.count = q.maxItems → ∀ event, q.call w (.put event) = some ((-12, none), q)
  empty_get : q.count = 0 → q.call w .get = some ((-2, none), q)
  empty_peek : q.count = 0 → q.call w .peek = some ((-42, none), q)
  peek_same : ∀ r q', q.call w .peek = some (r, q') → q' = q

/-- The calls are all answered as by a list that is first in, first out and keeps at
most `maxItems` items, and keep the queue's invariant. -/
def BehavesAsFifo (w maxItems : ℕ) (q : EventqBytes itemSize)
    (cs : List (EventqCall (List.Vector UInt8 itemSize))) : Prop :=
  ∃ q', q.calls w cs = some ((fifoCalls maxItems cs []).1, q') ∧ q'.Invariant w ∧
    q'.maxItems = maxItems ∧ q'.count = (fifoCalls maxItems cs []).2.length

/-- The queue of typed items that lie in the block. -/
def toCoreEventq (q : EventqBytes itemSize) : CoreEventq (List.Vector UInt8 itemSize) where
  buffer := some fun i ↦
    if i < q.maxItems then Block.read q.buffer (i * itemSize) itemSize else none
  maxItems := q.maxItems
  count := q.count
  head := q.head
  tail := q.tail
  lock := .ready

/-- The block has the size of all items, and a `size_t` can hold it. -/
structure Sized (w : ℕ) (q : EventqBytes itemSize) : Prop where
  length_eq : q.buffer.length = itemSize * q.maxItems
  fits : itemSize * q.maxItems < 2 ^ w

variable {q q' : EventqBytes itemSize} {event : List.Vector UInt8 itemSize}
  {l : List (List.Vector UInt8 itemSize)}

theorem Sized.end_le (h : q.Sized w) {i : ℕ} (hi : i < q.maxItems) :
    i * itemSize + itemSize ≤ q.buffer.length := by
  rw [h.length_eq, ← Nat.succ_mul, Nat.mul_comm itemSize]
  exact Nat.mul_le_mul_right itemSize hi

/-- The place of an item is computed without overflow. -/
theorem Sized.mod_eq (h : q.Sized w) {i : ℕ} (hi : i < q.maxItems) :
    i * itemSize % 2 ^ w = i * itemSize := by
  have hend := h.end_le hi
  have hfits := h.fits
  rw [h.length_eq] at hend
  exact Nat.mod_eq_of_lt (by omega)

theorem coreEventqPeek_toCoreEventq (h : q.Sized w) (hhead : q.head < q.maxItems) :
    coreEventqPeek q.toCoreEventq = q.peek w := by
  simp [coreEventqPeek, peek, toCoreEventq, hhead, h.mod_eq hhead]

theorem coreEventqGet_toCoreEventq (h : q.Sized w) (hhead : q.head < q.maxItems) :
    coreEventqGet q.toCoreEventq = (q.get w).map (Prod.map id toCoreEventq) := by
  unfold coreEventqGet get
  change (if q.count = 0 then _ else _) = _
  split
  · rfl
  · simp [toCoreEventq, hhead, h.mod_eq hhead, Function.comp_def]

/-- A write at one item leaves the items at all other places. -/
theorem read_of_write_item {buffer : List UInt8} {i j : ℕ}
    (h : Block.write q.buffer (i * itemSize) event = some buffer) (hne : j ≠ i) :
    Block.read buffer (j * itemSize) itemSize = Block.read q.buffer (j * itemSize) itemSize := by
  apply Block.read_of_write_ne h
  rcases Nat.lt_or_gt_of_ne hne with hlt | hgt
  · left
    rw [← Nat.succ_mul]
    exact Nat.mul_le_mul_right itemSize hlt
  · right
    rw [← Nat.succ_mul]
    exact Nat.mul_le_mul_right itemSize hgt

theorem coreEventqPut_toCoreEventq (h : q.Sized w) (htail : q.tail < q.maxItems) :
    coreEventqPut event q.toCoreEventq = (q.put w event).map (Prod.map id toCoreEventq) := by
  unfold coreEventqPut put
  change (if q.count ≥ q.maxItems then _ else _) = _
  split
  · rfl
  · obtain ⟨buffer, hbuffer⟩ : ∃ buffer,
        Block.write q.buffer (q.tail * itemSize) event = some buffer :=
      ⟨_, Block.write_eq_some.mpr ⟨h.end_le htail, rfl⟩⟩
    have hcells : (Function.update (fun i ↦ if i < q.maxItems then
          Block.read q.buffer (i * itemSize) itemSize else none) q.tail (some event)) =
        fun i ↦ if i < q.maxItems then Block.read buffer (i * itemSize) itemSize else none := by
      funext i
      by_cases hi : i = q.tail
      · rw [hi, Function.update_self, if_pos htail, Block.read_of_write_self hbuffer]
      · rw [Function.update_of_ne hi, read_of_write_item hbuffer hi]
    rw [h.mod_eq htail, hbuffer]
    simp [toCoreEventq, hcells]

/-- The block is large enough, and the items in it are those of the list. -/
structure Holds (w : ℕ) (q : EventqBytes itemSize) (l : List (List.Vector UInt8 itemSize)) :
    Prop where
  sized : q.Sized w
  items : q.toCoreEventq.Holds l

namespace Holds

theorem count_eq (h : q.Holds w l) : q.count = l.length :=
  h.items.count_eq

theorem head_lt (h : q.Holds w l) : q.head < q.maxItems := by
  obtain ⟨cells, -, hring⟩ := h.items
  exact hring.head_lt

theorem count_le (h : q.Holds w l) : q.count ≤ q.maxItems := by
  obtain ⟨cells, -, hring⟩ := h.items
  exact hring.count_le

theorem tail_eq (h : q.Holds w l) : q.tail = (q.head + q.count) % q.maxItems := by
  obtain ⟨cells, -, hring⟩ := h.items
  exact hring.tail_eq

theorem tail_lt (h : q.Holds w l) : q.tail < q.maxItems := by
  rw [h.tail_eq]
  exact Nat.mod_lt _ (Nat.zero_lt_of_lt h.head_lt)

theorem init (hpos : 0 < maxItems) (hfits : itemSize * maxItems < 2 ^ w)
    (garbage : ℕ → UInt8) :
    (⟨(List.range (itemSize * maxItems % 2 ^ w)).map garbage, maxItems, 0, 0, 0⟩ :
      EventqBytes itemSize).Holds w [] where
  sized := ⟨by simpa using Nat.mod_eq_of_lt hfits, hfits⟩
  items := ⟨_, rfl, .nil hpos rfl rfl rfl⟩

theorem peek_nil (h : q.Holds w []) : q.peek w = some (.error (-42)) := by
  rw [← coreEventqPeek_toCoreEventq h.sized h.head_lt, h.items.peek_nil]

theorem peek_cons (h : q.Holds w (event :: l)) : q.peek w = some (.ok event) := by
  rw [← coreEventqPeek_toCoreEventq h.sized h.head_lt, h.items.peek_cons]

theorem get_nil (h : q.Holds w []) : q.get w = some (.error (-2), q) := by
  simp [get, h.count_eq]

theorem get_cons (h : q.Holds w (event :: l)) :
    ∃ q', q.get w = some (.ok event, q') ∧ q'.maxItems = q.maxItems ∧ q'.Holds w l := by
  obtain ⟨u, hget, hmax, hholds⟩ := h.items.get_cons
  rw [coreEventqGet_toCoreEventq h.sized h.head_lt] at hget
  obtain ⟨⟨r, q'⟩, hq', heq⟩ := Option.map_eq_some_iff.mp hget
  cases heq
  refine ⟨q', hq', hmax, ?_, hholds⟩
  unfold EventqBytes.get at hq'
  split at hq'
  · cases hq'
  · obtain ⟨item, -, heq⟩ := Option.map_eq_some_iff.mp hq'
    cases heq
    exact ⟨h.sized.length_eq, h.sized.fits⟩

theorem put_of_full (h : q.Holds w l) (hfull : q.maxItems ≤ l.length)
    (event : List.Vector UInt8 itemSize) : q.put w event = some (-12, q) := by
  rw [put, if_pos (by rw [h.count_eq]; exact hfull)]

theorem put_of_lt (h : q.Holds w l) (hlt : l.length < q.maxItems)
    (event : List.Vector UInt8 itemSize) :
    ∃ q', q.put w event = some (0, q') ∧ q'.maxItems = q.maxItems ∧
      q'.Holds w (l ++ [event]) := by
  obtain ⟨u, hput, hmax, hholds⟩ := h.items.put_of_lt hlt event
  rw [coreEventqPut_toCoreEventq h.sized h.tail_lt] at hput
  obtain ⟨⟨rc, q'⟩, hq', heq⟩ := Option.map_eq_some_iff.mp hput
  cases heq
  refine ⟨q', hq', hmax, ?_, hholds⟩
  unfold EventqBytes.put at hq'
  split at hq'
  · cases hq'
  · obtain ⟨buffer, hbuffer, heq⟩ := Option.map_eq_some_iff.mp hq'
    cases heq
    exact ⟨(Block.length_of_write hbuffer).trans h.sized.length_eq, h.sized.fits⟩

/-- A call is answered as by the list, and leaves what the list becomes. -/
theorem call (h : q.Holds w l) (c : EventqCall (List.Vector UInt8 itemSize)) :
    ∃ q', q.call w c = some ((fifoCall q.maxItems c l).1, q') ∧ q'.maxItems = q.maxItems ∧
      q'.Holds w (fifoCall q.maxItems c l).2 := by
  cases c with
  | put event =>
      by_cases hlt : l.length < q.maxItems
      · obtain ⟨q', hput, hmax, hholds⟩ := h.put_of_lt hlt event
        exact ⟨q', by simp [EventqBytes.call, hput, fifoCall, hlt], hmax,
          by simpa [fifoCall, hlt] using hholds⟩
      · have hput := h.put_of_full (Nat.le_of_not_lt hlt) event
        exact ⟨q, by simp [EventqBytes.call, hput, fifoCall, hlt], rfl,
          by simpa [fifoCall, hlt] using h⟩
  | get =>
      cases l with
      | nil => exact ⟨q, by rw [EventqBytes.call, h.get_nil]; rfl, rfl, h⟩
      | cons event l =>
          obtain ⟨q', hget, hmax, hholds⟩ := h.get_cons
          exact ⟨q', by rw [EventqBytes.call, hget]; rfl, hmax, hholds⟩
  | peek =>
      cases l with
      | nil => exact ⟨q, by rw [EventqBytes.call, h.peek_nil]; rfl, rfl, h⟩
      | cons event l => exact ⟨q, by rw [EventqBytes.call, h.peek_cons]; rfl, rfl, h⟩

theorem calls (h : q.Holds w l) (cs : List (EventqCall (List.Vector UInt8 itemSize))) :
    ∃ q', q.calls w cs = some ((fifoCalls q.maxItems cs l).1, q') ∧
      q'.maxItems = q.maxItems ∧ q'.Holds w (fifoCalls q.maxItems cs l).2 := by
  induction cs generalizing q l with
  | nil => exact ⟨q, rfl, rfl, h⟩
  | cons c cs ih =>
      obtain ⟨u, hu, hmax, hcall⟩ := h.call c
      obtain ⟨q', hq', hmax', hcalls⟩ := ih hcall
      rw [hmax] at hq' hmax' hcalls
      exact ⟨q', by simp [EventqBytes.calls, hu, hq', fifoCalls], hmax', hcalls⟩

theorem invariant (h : q.Holds w l) : q.Invariant w where
  head_lt := h.head_lt
  tail_lt := h.tail_lt
  count_le := h.count_le
  tail_eq := h.tail_eq
  full hfull event := by
    rw [EventqBytes.call, h.put_of_full (by rw [← h.count_eq, hfull]) event]
    rfl
  empty_get hzero := by
    obtain rfl := List.eq_nil_of_length_eq_zero (h.count_eq ▸ hzero)
    rw [EventqBytes.call, h.get_nil]
    rfl
  empty_peek hzero := by
    obtain rfl := List.eq_nil_of_length_eq_zero (h.count_eq ▸ hzero)
    rw [EventqBytes.call, h.peek_nil]
    rfl
  peek_same r q' hcall := by
    obtain ⟨answer, -, heq⟩ := Option.map_eq_some_iff.mp hcall
    exact (Prod.ext_iff.mp heq).2.symm

end Holds

/-- An item that is put into a queue with room lies inside the block. -/
theorem exists_of_calls_put {cs : List (EventqCall (List.Vector UInt8 itemSize))}
    (hlt : q.count < q.maxItems) (h : (q.calls w (.put event :: cs)).isSome) :
    q.tail * itemSize % 2 ^ w + itemSize ≤ q.buffer.length ∧
      ∃ q' : EventqBytes itemSize, q'.buffer.length = q.buffer.length ∧
        q'.maxItems = q.maxItems ∧ q'.count = q.count + 1 ∧
        q'.tail = (q.tail + 1) % q.maxItems ∧ (q'.calls w cs).isSome := by
  obtain ⟨r, hcalls⟩ := Option.isSome_iff_exists.mp h
  obtain ⟨⟨answer, q'⟩, hcall, hrest⟩ := Option.bind_eq_some_iff.mp hcalls
  obtain ⟨⟨rc, u⟩, hput, heq⟩ := Option.map_eq_some_iff.mp hcall
  obtain ⟨-, rfl⟩ := Prod.ext_iff.mp heq
  obtain ⟨r', hcalls', -⟩ := Option.map_eq_some_iff.mp hrest
  rw [put, if_neg (by omega)] at hput
  obtain ⟨buffer, hbuffer, heq⟩ := Option.map_eq_some_iff.mp hput
  obtain ⟨-, rfl⟩ := Prod.ext_iff.mp heq
  exact ⟨(Block.write_eq_some.mp hbuffer).1,
    { q with buffer := buffer, tail := (q.tail + 1) % q.maxItems, count := q.count + 1 },
    Block.length_of_write hbuffer, rfl, rfl, rfl, Option.isSome_of_mem hcalls'⟩

/-- When `k + 1` items can be put one after the other, the last of them lies inside the
block, too. -/
theorem end_le_of_calls_puts (k : ℕ) (htail : q.tail = q.count)
    (hlt : q.count + k < q.maxItems)
    (h : (q.calls w (List.replicate (k + 1) (.put event))).isSome) :
    (q.count + k) * itemSize % 2 ^ w + itemSize ≤ q.buffer.length := by
  induction k generalizing q with
  | zero =>
      rw [Nat.add_zero, ← htail]
      exact (exists_of_calls_put hlt h).1
  | succ k ih =>
      obtain ⟨-, u, hlen, hmax, hcount, htail', hrest⟩ := exists_of_calls_put (by omega) h
      have hnext : u.tail = u.count := by
        rw [htail', htail, hcount, Nat.mod_eq_of_lt (by omega)]
      have hlast := ih hnext (by omega) hrest
      rwa [hcount, hlen, Nat.add_assoc, Nat.add_comm 1 k] at hlast

/-- When the size of all items does not fit in a `size_t`, the block is so small that
some item can not be put. -/
theorem fits_of_behavesAsFifo (hitem : 0 < itemSize) {garbage : ℕ → UInt8}
    (hinit : (init w itemSize maxItems true garbage).2 = some q)
    (h : ∀ cs, q.BehavesAsFifo w maxItems cs) : itemSize * maxItems < 2 ^ w := by
  obtain rfl := Option.some.inj hinit
  by_contra hge
  -- the first item that does not lie wholly inside the block
  let size := itemSize * maxItems % 2 ^ w
  have hsize : size < 2 ^ w := Nat.mod_lt _ (Nat.two_pow_pos w)
  have hk : size / itemSize < maxItems := by
    rw [Nat.div_lt_iff_lt_mul hitem, Nat.mul_comm maxItems]
    omega
  obtain ⟨q', hcalls, -⟩ :=
    h (List.replicate (size / itemSize + 1) (.put (List.Vector.replicate itemSize 0)))
  have hend := end_le_of_calls_puts (size / itemSize) rfl
    (by simpa using hk) (Option.isSome_of_mem hcalls)
  have hle : size / itemSize * itemSize ≤ size := Nat.div_mul_le_self size itemSize
  have hgt : size < size / itemSize * itemSize + itemSize := by
    have := Nat.lt_div_mul_add (a := size) hitem
    omega
  rw [Nat.zero_add, Nat.mod_eq_of_lt (by omega), List.length_map, List.length_range] at hend
  exact absurd hend (Nat.not_le_of_lt hgt)

/-- After an initialisation that succeeds, a queue is a bounded first-in first-out list
for every sequence of calls exactly if the size of its buffer fits in a `size_t`. -/
theorem behavesAsFifo_iff (hpos : 0 < maxItems) (hitem : 0 < itemSize) (garbage : ℕ → UInt8)
    (hinit : init w itemSize maxItems true garbage = (0, some q)) :
    (∀ cs, q.BehavesAsFifo w maxItems cs) ↔ itemSize * maxItems < 2 ^ w := by
  refine ⟨fits_of_behavesAsFifo hitem (Prod.ext_iff.mp hinit).2, fun hfits cs ↦ ?_⟩
  obtain rfl := Option.some.inj (Prod.ext_iff.mp hinit).2
  obtain ⟨q', hcalls, hmax, hholds⟩ := (Holds.init hpos hfits garbage).calls cs
  exact ⟨q', hcalls, hholds.invariant, hmax, hholds.count_eq⟩

/-- A queue of three items of two bytes, one of them put and taken. -/
theorem behavesAsFifo_of_threeItems :
    (⟨(List.range 6).map fun _ ↦ 0, 3, 0, 0, 0⟩ : EventqBytes 2).BehavesAsFifo 32 3
      [.peek, .put (List.Vector.replicate 2 7), .peek, .get, .get] :=
  (behavesAsFifo_iff (by decide) (by decide) (fun _ ↦ 0) rfl).mpr (by decide) _

/-- The product wraps round, the block has room for one item, and the second put of the
run writes behind it. -/
theorem not_behavesAsFifo_of_overflow :
    ∃ q : EventqBytes 16,
      init 64 16 (2 ^ 60 + 1) true (fun _ ↦ 0) = (0, some q) ∧
      ¬ q.BehavesAsFifo 64 (2 ^ 60 + 1)
        [.put (List.Vector.replicate 16 1), .put (List.Vector.replicate 16 2)] := by
  refine ⟨_, rfl, ?_⟩
  rintro ⟨q', hcalls, -⟩
  cases hcalls

end EventqBytes

end OcreRuntime
