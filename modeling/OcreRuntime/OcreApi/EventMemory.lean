import OcreRuntime.OcreApi.Events

/-!
# What get_event writes

The native `ocre_get_event` has the signature `(iiiiii)i`, so WAMR checks none of its six
offsets. The function converts each of them to an address, which fails only if it does not
start in the linear memory of the caller, and writes a word of four bytes there.
-/

namespace OcreRuntime

/-- The six offsets that a module passes. -/
structure EventOffsets where
  type : UInt32
  id : UInt32
  port : UInt32
  state : UInt32
  extra : UInt32
  payloadLen : UInt32

def EventOffsets.toList (offsets : EventOffsets) : List UInt32 :=
  [offsets.type, offsets.id, offsets.port, offsets.state, offsets.extra, offsets.payloadLen]

/-- The words in the order in which they are written. -/
def EventWords.toList (words : EventWords) : List UInt32 :=
  [words.type, words.id, words.port, words.state, words.extra, words.payloadLen]

/-- `wasm_runtime_addr_app_to_native`; an address is counted from the start of the linear
memory. -/
def addrAppToNative (size : ℕ) (offset : UInt32) : Option ℕ :=
  if offset.toNat < size then some offset.toNat else none

/-- The bytes, each with its address, that an assignment to a `uint32_t` writes. -/
def storeWord (address : ℕ) (word : UInt32) : List (ℕ × UInt8) :=
  (List.range 4).map fun k ↦ (address + k, (word >>> (8 * k).toUInt32).toUInt8)

structure GetEventReturn where
  ret : Int
  written : List (ℕ × UInt8)
  events : EventApi

/-- `ocre_get_event`, called by a module with a linear memory of some size. -/
def EventApi.ocreGetEventInto (size : ℕ) (module : Option ℕ) (offsets : EventOffsets)
    (s : EventApi) : Option GetEventReturn :=
  let natives := offsets.toList.map (addrAppToNative size)
  (s.ocreGetEvent module (natives.all Option.isSome)).map fun r ↦
    match r.1 with
    | .error code => ⟨code, [], r.2⟩
    | .ok none => ⟨0, [], r.2⟩
    | .ok (some words) =>
        ⟨0, (natives.reduceOption.zip words.toList).flatMap fun p ↦ storeWord p.1 p.2, r.2⟩

namespace EventOffsets

variable (size : ℕ) (offsets : EventOffsets)

/-- All words start in the linear memory. -/
def Start : Prop := ∀ offset ∈ offsets.toList, offset.toNat < size

/-- All words fit in the linear memory. -/
def Fit : Prop := ∀ offset ∈ offsets.toList, offset.toNat + 4 ≤ size

instance : Decidable (offsets.Start size) :=
  List.decidableBAll (fun offset : UInt32 ↦ offset.toNat < size) offsets.toList

instance : Decidable (offsets.Fit size) :=
  List.decidableBAll (fun offset : UInt32 ↦ offset.toNat + 4 ≤ size) offsets.toList

end EventOffsets

namespace EventApi

variable {s : EventApi} {l : List OcreEvent} {size : ℕ} {module : Option ℕ}
  {offsets : EventOffsets}

/-- Each byte that the call writes lies in the linear memory. If some word does not fit, the
call returns an error, writes nothing and leaves the events. -/
def WritesInside (size : ℕ) (module : Option ℕ) (offsets : EventOffsets) (l : List OcreEvent)
    (s : EventApi) : Prop :=
  ∃ x, s.ocreGetEventInto size module offsets = some x ∧
    (∀ byte ∈ x.written, byte.1 < size) ∧
      (¬ offsets.Fit size → x.ret < 0 ∧ x.written = [] ∧ x.events.Serves l)

theorem all_isSome_natives :
    (offsets.toList.map (addrAppToNative size)).all Option.isSome =
      decide (offsets.Start size) := by
  rw [Bool.eq_iff_iff, List.all_map, List.all_eq_true, decide_eq_true_eq, EventOffsets.Start]
  refine forall₂_congr fun offset _ ↦ ?_
  by_cases hlt : offset.toNat < size <;> simp [addrAppToNative, hlt]

theorem reduceOption_natives (h : offsets.Start size) :
    (offsets.toList.map (addrAppToNative size)).reduceOption = offsets.toList.map UInt32.toNat := by
  have hmap : offsets.toList.map (addrAppToNative size) =
      (offsets.toList.map UInt32.toNat).map some := by
    rw [List.map_map]
    apply List.map_congr_left
    intro offset hoffset
    exact if_pos (h offset hoffset)
  rw [hmap]
  change ((offsets.toList.map UInt32.toNat).map some).filterMap id = _
  rw [List.filterMap_map]
  exact List.filterMap_some

theorem mem_storeWord {address : ℕ} {word : UInt32} {byte : ℕ × UInt8}
    (h : byte ∈ storeWord address word) : byte.1 < address + 4 := by
  obtain ⟨k, hk, rfl⟩ := List.mem_map.mp h
  exact Nat.add_lt_add_left (List.mem_range.mp hk) address

/-- A call that fails and leaves the queue is as it should be. -/
theorem writesInside_of_error {code : Int} (hs : s.Serves l) (hcode : code < 0)
    (h : s.ocreGetEvent module (decide (offsets.Start size)) = some (.error code, s)) :
    s.WritesInside size module offsets l := by
  refine ⟨⟨code, [], s⟩, ?_, by simp, fun _ ↦ ⟨hcode, rfl, hs⟩⟩
  rw [ocreGetEventInto, all_isSome_natives, h]
  rfl

/-- A call that takes an event writes into each word, if the event has words at all. -/
theorem exists_of_ok {words : Except Int (Option EventWords)} {s' : EventApi}
    (hstart : offsets.Start size) (h : s.ocreGetEvent module true = some (words, s')) :
    ∃ x, s.ocreGetEventInto size module offsets = some x ∧ x.events = s' ∧
      ∀ byte ∈ x.written, ∃ offset ∈ offsets.toList, byte.1 < offset.toNat + 4 := by
  rw [ocreGetEventInto, all_isSome_natives, decide_eq_true hstart, h]
  refine ⟨_, rfl, ?_, ?_⟩
  · rcases words with code | _ | words <;> rfl
  · intro byte hbyte
    rcases words with code | _ | words
    · cases hbyte
    · cases hbyte
    · obtain ⟨⟨address, word⟩, hmem, hbyte⟩ := List.mem_flatMap.mp hbyte
      rw [reduceOption_natives hstart] at hmem
      obtain ⟨offset, hoffset, rfl⟩ := List.mem_map.mp (List.of_mem_zip hmem).1
      exact ⟨offset, hoffset, mem_storeWord hbyte⟩

theorem Serves.unique {l' : List OcreEvent} (h : s.Serves l) (h' : s.Serves l') : l = l' :=
  h.holds.unique h'.holds

/-- The call is as it should be exactly if all words fit, or it is refused: for an offset
outside, or because there is no event or one of another module. -/
theorem writesInside_iff (hs : s.Serves l) :
    s.WritesInside size module offsets l ↔ offsets.Fit size ∨ ¬ offsets.Start size ∨
      ∀ event ∈ l.head?, module ≠ some event.owner := by
  by_cases hstart : offsets.Start size
  swap
  · refine iff_of_true ?_ (.inr (.inl hstart))
    refine writesInside_of_error hs (by decide : (-22 : Int) < 0) ?_
    rw [decide_eq_false hstart]
    cases module <;> rfl
  have herror {code : Int} (hcode : code < 0)
      (h : s.ocreGetEvent module true = some (.error code, s)) :
      s.WritesInside size module offsets l :=
    writesInside_of_error hs hcode (decide_eq_true hstart ▸ h)
  cases module with
  | none => exact iff_of_true (herror (by decide : (-22 : Int) < 0) rfl) (.inr (.inr (by simp)))
  | some module =>
      cases l with
      | nil =>
          refine iff_of_true ?_ (.inr (.inr (by simp)))
          exact herror (by decide : (-42 : Int) < 0) (hs.ocreGetEvent_nil module)
      | cons event l =>
          by_cases howner : event.owner = module
          swap
          · refine iff_of_true ?_ (.inr (.inr (by simp [Ne.symm howner])))
            exact herror (by decide : (-1 : Int) < 0) (hs.ocreGetEvent_of_ne howner)
          obtain ⟨s', hget, hs'⟩ := hs.ocreGetEvent_of_eq howner
          obtain ⟨x, hx, rfl, hwritten⟩ := exists_of_ok hstart hget
          constructor
          · rintro ⟨y, hy, -, hleaves⟩
            obtain rfl := Option.some.inj (hx.symm.trans hy)
            by_contra hnot
            -- the event is gone
            have hsame := (hleaves fun hfit ↦ hnot (.inl hfit)).2.2.unique hs'
            exact List.cons_ne_self event l hsame
          · rintro (hfit | hout | hother)
            · refine ⟨x, hx, ?_, fun hnot ↦ absurd hfit hnot⟩
              intro byte hbyte
              obtain ⟨offset, hoffset, hlt⟩ := hwritten byte hbyte
              exact Nat.lt_of_lt_of_le hlt (hfit offset hoffset)
            · exact absurd hstart hout
            · exact absurd (congrArg some howner.symm) (hother event rfl)

/-- A timer event for module 1 is pending. -/
def timerPending : EventApi := ((initial.put ⟨.timer 5, 1⟩).map Prod.snd).getD initial

theorem timerPending_serves : timerPending.Serves [⟨.timer 5, 1⟩] := by
  obtain ⟨s', hput, hs'⟩ := initial_serves.put ⟨.timer 5, 1⟩
  rw [timerPending, hput]
  exact hs'

theorem writesInside_of_timerPending :
    timerPending.WritesInside 4096 (some 1) ⟨0, 4, 8, 12, 16, 4092⟩ [⟨.timer 5, 1⟩] :=
  (writesInside_iff timerPending_serves).mpr (.inl (by decide))

/-- The last word starts two bytes before the end of the memory. -/
theorem not_writesInside_of_last :
    ¬ ∀ (size : ℕ) (module : Option ℕ) (offsets : EventOffsets) (l : List OcreEvent)
        (s : EventApi), s.Serves l → s.WritesInside size module offsets l := by
  intro h
  obtain ⟨x, hx, hinside, -⟩ :=
    h 4096 (some 1) ⟨0, 4, 8, 12, 16, 4094⟩ [⟨.timer 5, 1⟩] timerPending timerPending_serves
  obtain rfl := Option.some.inj hx
  exact absurd (hinside (4096, 0) (by decide)) (by decide)

end EventApi

end OcreRuntime
