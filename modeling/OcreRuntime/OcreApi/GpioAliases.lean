import OcreRuntime.Lib.MemoTable
import OcreRuntime.Lib.StringScan
import OcreRuntime.OcreApi.Gpio

/-!
# GPIO aliases

The functions by name have the signature `$` for the name, for which WAMR checks that a
string starts in the linear memory of the caller and ends there. `resolve_gpio_alias` keeps
the port and the pin of each name that it has resolved, with the pointer to the name and not
its characters, so that a later call compares with what the memory holds by then.

The devices are initialised at boot, and a linear memory stays where it is until its module
is unloaded.
-/

namespace OcreRuntime

/-- The aliases of the device tree that the code knows. -/
inductive DtAlias
  | led0
  | led1
  | led2
  | sw0
  | sw1
  deriving DecidableEq

namespace DtAlias

def all : List DtAlias := [led0, led1, led2, sw0, sw1]

def name : DtAlias → CString
  | led0 => cstring "led0"
  | led1 => cstring "led1"
  | led2 => cstring "led2"
  | sw0 => cstring "sw0"
  | sw1 => cstring "sw1"

/-- The comparisons with the known names, in order. -/
def ofName (chars : CString) : Option DtAlias := all.find? fun dtAlias ↦ chars = dtAlias.name

end DtAlias

/-- The type `struct gpio_dt_spec` without the flags. -/
structure GpioDtSpec where
  port : Option ℕ
  pin : UInt8
  deriving DecidableEq

/-- What the device tree says about ports and aliases, and the devices that are ready. -/
structure GpioDeviceTree where
  gpioPorts : List (Option ℕ)
  deviceIsReady : ℕ → Bool
  spec : DtAlias → Option GpioDtSpec

/-- A port with its index, and a pin of it. -/
structure GpioPlace where
  port : ℕ
  pin : UInt8
  portIdx : Int

/-- What the callers of `resolve_gpio_alias` are told. -/
def GpioPlace.position (place : GpioPlace) : Int × UInt8 := (place.portIdx, place.pin)

namespace GpioDeviceTree

variable (dt : GpioDeviceTree)

/-- The ports that the initialisation finds ready. -/
def readyPorts : List Bool := dt.gpioPorts.map fun port ↦ port.any dt.deviceIsReady

def findPortIndex (portReady : List Bool) : Option ℕ → Int
  | none => -22
  | some port =>
      match (portReady.zip dt.gpioPorts).findIdx? fun p ↦ p.1 ∧ p.2 = some port with
      | some i => i
      | none => -1

/-- What the device tree has for a name. -/
def specOf (chars : CString) : Option GpioDtSpec := (DtAlias.ofName chars).bind dt.spec

/-- The part of `resolve_gpio_alias` after the names that have been kept. -/
def lookUp (portReady : List Bool) (chars : CString) : Except Int GpioPlace :=
  match DtAlias.ofName chars with
  | none => .error (-22)
  | some dtAlias =>
      match dt.spec dtAlias with
      | none | some ⟨none, _⟩ => .error (-19)
      | some ⟨some port, pin⟩ =>
          if ¬ dt.deviceIsReady port then .error (-19)
          else if dt.findPortIndex portReady (some port) < 0 then .error (-19)
          else .ok ⟨port, pin, dt.findPortIndex portReady (some port)⟩

end GpioDeviceTree

/-- A pointer into the linear memory of a module. -/
structure GuestPointer where
  module : ℕ
  offset : UInt32
  deriving DecidableEq

/-- The linear memories of the modules, in the order in which the modules were loaded. -/
abbrev LinearMemories := List (Option (List UInt8))

namespace LinearMemories

variable (memories : LinearMemories)

/-- The bytes of the linear memory from a pointer on; none if the module has been unloaded. -/
def bytesFrom (pointer : GuestPointer) : Option (List UInt8) :=
  memories[pointer.module]?.join.map (·.drop pointer.offset.toNat)

/-- The string at a pointer, if it ends in the linear memory. -/
def stringFrom (pointer : GuestPointer) : Option CString :=
  (memories.bytesFrom pointer).bind fun bytes ↦
    if 0 ∈ bytes then some (bytes.takeWhile (· ≠ 0)) else none

/-- Whether `strcmp` of a pointer with a name is 0. -/
def strcmpEq (name : CString) (pointer : GuestPointer) : Option Bool :=
  (memories.bytesFrom pointer).bind (StringScan.equals 0 · name)

end LinearMemories

/-- The type `gpio_alias_t`. -/
structure GpioAlias extends GpioPlace where
  name : GuestPointer

/-- How `resolve_gpio_alias` returns, with the port index and the pin if it returns 0. -/
structure AliasReturn where
  result : Except Int (Int × UInt8)
  aliases : List GpioAlias

def resolveGpioAlias (cfg : GpioConfig) (dt : GpioDeviceTree) (memories : LinearMemories)
    (table : GpioTable) (aliases : List GpioAlias) (name : Option GuestPointer) :
    Option AliasReturn :=
  match name with
  | none => some ⟨.error (-22), aliases⟩
  | some name =>
      if ¬ table.initialized then some ⟨.error (-19), aliases⟩
      else (memories.stringFrom name).bind fun chars ↦
        (MemoTable.find (fun kept : GpioAlias ↦ memories.strcmpEq chars kept.name) aliases).map
          fun
          | some kept => ⟨.ok kept.position, aliases⟩
          | none =>
              match dt.lookUp table.portReady chars with
              | .error code => ⟨.error code, aliases⟩
              | .ok place =>
                  ⟨.ok place.position,
                    if aliases.length < cfg.maxPins then aliases ++ [⟨place, name⟩] else aliases⟩

/-- The state of the program, and the strings for which the aliases were entered. -/
structure AliasWorld where
  memories : LinearMemories
  table : GpioTable
  aliases : List GpioAlias
  enteredFor : List CString

inductive AliasAct
  | init
  | load (bytes : List UInt8)
  | write (module : ℕ) (bytes : List UInt8)
  | unload (module : ℕ)
  | byName (name : GuestPointer)

namespace AliasWorld

variable (cfg : GpioConfig) (dt : GpioDeviceTree) (w : AliasWorld)

/-- A function by name, as far as the aliases go. -/
def byName (name : GuestPointer) : Option AliasWorld :=
  (resolveGpioAlias cfg dt w.memories w.table w.aliases (some name)).map fun r ↦
    { w with
      aliases := r.aliases
      enteredFor :=
        if w.aliases.length < r.aliases.length
        then w.enteredFor ++ (w.memories.stringFrom name).toList
        else w.enteredFor }

/-- A module writes what it likes into its linear memory, which may have grown; a name is
checked before the function is called. -/
def next (a : AliasAct) : Option (Option AliasWorld) :=
  match a with
  | .init => some (some { w with table := (w.table.ocreGpioInit dt.readyPorts).2 })
  | .load bytes => some (some { w with memories := w.memories ++ [some bytes] })
  | .write module bytes =>
      match w.memories[module]?.join with
      | some old =>
          if old.length ≤ bytes.length
          then some (some { w with memories := w.memories.set module (some bytes) }) else none
      | none => none
  | .unload module =>
      if w.memories[module]?.join.isSome
      then some (some { w with memories := w.memories.set module none }) else none
  | .byName name =>
      if (w.memories.stringFrom name).isSome then some (w.byName cfg dt name) else none

/-- The aliases, each with the string for which it was entered. -/
def entered : List (CString × GpioAlias) := w.enteredFor.zip w.aliases

def initial (cfg : GpioConfig) : AliasWorld := ⟨[], .static cfg, [], []⟩

end AliasWorld

/-- Runs of calls by name; there is no world after an undefined call. -/
def aliasSystem (cfg : GpioConfig) (dt : GpioDeviceTree) :
    StepSystem (Option AliasWorld) AliasAct where
  init := (· = some (.initial cfg))
  next a s := s.bind fun w ↦ w.next cfg dt a

/-- A call by name resolves the name as it would if no alias had been kept. -/
def AgreesWithDeviceTree (cfg : GpioConfig) (dt : GpioDeviceTree) (a : AliasAct)
    (s _s' : Option AliasWorld) : Prop :=
  ∀ w name, s = some w → a = .byName name →
    ∃ r uncached, resolveGpioAlias cfg dt w.memories w.table w.aliases (some name) = some r ∧
      resolveGpioAlias cfg dt w.memories w.table [] (some name) = some uncached ∧
      r.result = uncached.result

/-- The condition on a call. The comparisons with the names kept stay in the linear memories
of modules that are loaded, and the first of these names that now reads as the one passed
was entered for a string for which the device tree has the same pin. -/
def NamesStand (dt : GpioDeviceTree) (a : AliasAct) (s : Option AliasWorld) : Prop :=
  match a, s with
  | .byName name, some w =>
      (w.memories.stringFrom name).all fun chars ↦
        (MemoTable.find (fun kept ↦ w.memories.strcmpEq chars kept.2.name) w.entered).any fun hit ↦
          hit.all fun kept ↦ dt.specOf chars = dt.specOf kept.1
  | _, _ => True

instance (dt : GpioDeviceTree) (a : AliasAct) (s : Option AliasWorld) :
    Decidable (NamesStand dt a s) :=
  match a, s with
  | .byName _, some _ => inferInstanceAs (Decidable (_ = true))
  | .byName _, none | .init, _ | .load _, _ | .write _ _, _ | .unload _, _ => .isTrue trivial

theorem exists_of_map_ok {α β ε : Type} {f : α → β} {x : Except ε α} {b : β}
    (h : x.map f = .ok b) : ∃ a, x = .ok a ∧ f a = b := by
  cases x with
  | error e => cases h
  | ok a => exact ⟨a, rfl, Except.ok.inj h⟩

namespace GpioDeviceTree

variable {dt : GpioDeviceTree} {portReady : List Bool} {chars was : CString} {place : GpioPlace}

theorem exists_of_findPortIndex {port : ℕ} (h : 0 ≤ dt.findPortIndex portReady (some port)) :
    ∃ i : ℕ, dt.findPortIndex portReady (some port) = i ∧ portReady[i]? = some true ∧
      dt.gpioPorts[i]? = some (some port) := by
  rw [findPortIndex] at h ⊢
  split at h
  next i hfind =>
    obtain ⟨hlt, hhit, -⟩ := List.findIdx?_eq_some_iff_getElem.mp hfind
    simp only [List.getElem_zip, decide_eq_true_eq] at hhit
    obtain ⟨hready, hport⟩ := Nat.lt_min.mp (List.length_zip ▸ hlt)
    refine ⟨i, rfl, ?_, ?_⟩
    · rw [List.getElem?_eq_getElem hready, hhit.1]
    · rw [List.getElem?_eq_getElem hport, hhit.2]
  next => exact absurd h (by decide)

theorem lookUp_eq_ok_iff :
    dt.lookUp portReady chars = .ok place ↔
      dt.specOf chars = some ⟨some place.port, place.pin⟩ ∧ dt.deviceIsReady place.port = true ∧
        dt.findPortIndex portReady (some place.port) = place.portIdx ∧ 0 ≤ place.portIdx := by
  rw [lookUp, specOf]
  cases DtAlias.ofName chars with
  | none => simp
  | some dtAlias =>
      rcases hspec : dt.spec dtAlias with _ | ⟨_ | port, pin⟩
      · simp [hspec]
      · simp [hspec]
      · obtain ⟨port', pin', portIdx⟩ := place
        simp only [hspec, Option.bind_some, Option.some.injEq, GpioDtSpec.mk.injEq]
        split
        next hready => grind
        next hready =>
          split
          next hneg => grind
          next hfound => grind

/-- A name that is resolved is at the position of another one exactly if the device tree
has the same for both. -/
theorem position_lookUp_iff (h : dt.lookUp portReady was = .ok place) :
    (dt.lookUp portReady chars).map GpioPlace.position =
        (dt.lookUp portReady was).map GpioPlace.position ↔
      dt.specOf chars = dt.specOf was := by
  obtain ⟨hspec, hready, hfound, hnonneg⟩ := lookUp_eq_ok_iff.mp h
  constructor
  · intro hsame
    rw [h] at hsame
    cases hchars : dt.lookUp portReady chars with
    | error code =>
        rw [hchars] at hsame
        cases hsame
    | ok other =>
        rw [hchars] at hsame
        obtain ⟨hidx, hpin⟩ := Prod.mk.inj (Except.ok.inj hsame)
        obtain ⟨hspec', -, hfound', -⟩ := lookUp_eq_ok_iff.mp hchars
        obtain ⟨i, hi, -, hport⟩ := exists_of_findPortIndex (hfound.symm ▸ hnonneg)
        obtain ⟨j, hj, -, hport'⟩ := exists_of_findPortIndex (hfound'.symm ▸ hidx.symm ▸ hnonneg)
        have hij : i = j := by omega
        subst hij
        have hsamePort : other.port = place.port := by
          simpa using hport'.symm.trans hport
        rw [hspec, hspec', hpin, hsamePort]
  · intro hsame
    rw [lookUp_eq_ok_iff.mpr ⟨hsame.trans hspec, hready, hfound, hnonneg⟩, h]

end GpioDeviceTree

section Resolve

variable {cfg : GpioConfig} {dt : GpioDeviceTree} {memories : LinearMemories} {table : GpioTable}
  {aliases : List GpioAlias} {name : GuestPointer} {chars : CString} {r : AliasReturn}

theorem resolveGpioAlias_of_not_initialized (h : table.initialized = false) :
    resolveGpioAlias cfg dt memories table aliases (some name) = some ⟨.error (-19), aliases⟩ := by
  simp [resolveGpioAlias, h]

theorem resolveGpioAlias_eq (h : table.initialized = true)
    (hchars : memories.stringFrom name = some chars) :
    resolveGpioAlias cfg dt memories table aliases (some name) =
      (MemoTable.find (fun kept : GpioAlias ↦ memories.strcmpEq chars kept.name) aliases).map fun
        | some kept => ⟨.ok kept.position, aliases⟩
        | none =>
            match dt.lookUp table.portReady chars with
            | .error code => ⟨.error code, aliases⟩
            | .ok place =>
                ⟨.ok place.position,
                  if aliases.length < cfg.maxPins then aliases ++ [⟨place, name⟩]
                  else aliases⟩ := by
  simp only [resolveGpioAlias, h, hchars, Option.bind_some, not_true_eq_false, if_false]

/-- What is returned is the answer of a search in the names kept. -/
theorem map_result_resolveGpioAlias (h : table.initialized = true)
    (hchars : memories.stringFrom name = some chars) :
    (resolveGpioAlias cfg dt memories table aliases (some name)).map AliasReturn.result =
      MemoTable.answer (fun kept : GpioAlias ↦ kept.position)
        (fun kept ↦ memories.strcmpEq chars kept.name) aliases
        ((dt.lookUp table.portReady chars).map GpioPlace.position) := by
  rw [resolveGpioAlias_eq h hchars, MemoTable.answer, Option.map_map]
  congr 1
  funext hit
  cases hit with
  | some kept => rfl
  | none => cases dt.lookUp table.portReady chars <;> simp [Except.map]

theorem exists_uncached (cfg : GpioConfig) (dt : GpioDeviceTree) (h : table.initialized = true)
    (hchars : memories.stringFrom name = some chars) :
    ∃ uncached, resolveGpioAlias cfg dt memories table [] (some name) = some uncached ∧
      uncached.result = (dt.lookUp table.portReady chars).map GpioPlace.position :=
  Option.map_eq_some_iff.mp (map_result_resolveGpioAlias h hchars)

/-- A call leaves the names kept, or it adds the name that it has looked up. -/
theorem aliases_of_resolveGpioAlias
    (h : resolveGpioAlias cfg dt memories table aliases (some name) = some r)
    (hchars : memories.stringFrom name = some chars) :
    r.aliases = aliases ∨ ∃ place, table.initialized = true ∧
      dt.lookUp table.portReady chars = .ok place ∧ r.aliases = aliases ++ [⟨place, name⟩] := by
  cases hinit : table.initialized with
  | false =>
      rw [resolveGpioAlias_of_not_initialized hinit] at h
      exact .inl (by rw [← Option.some.inj h])
  | true =>
      rw [resolveGpioAlias_eq hinit hchars] at h
      obtain ⟨hit, -, rfl⟩ := Option.map_eq_some_iff.mp h
      cases hit with
      | some kept => exact .inl rfl
      | none =>
          cases hplace : dt.lookUp table.portReady chars with
          | error code => exact .inl (by simp)
          | ok place =>
              by_cases hroom : aliases.length < cfg.maxPins
              · exact .inr ⟨place, rfl, rfl, by simp [hroom]⟩
              · exact .inl (by simp [hroom])

end Resolve

namespace AliasWorld

variable {cfg : GpioConfig} {dt : GpioDeviceTree} {w w' : AliasWorld} {a : AliasAct}
  {name : GuestPointer} {chars : CString}

/-- Every name kept has the position that the device tree gave for the string for which it
was entered, and none is kept before the initialisation. -/
structure Recorded (dt : GpioDeviceTree) (w : AliasWorld) : Prop where
  length : w.enteredFor.length = w.aliases.length
  empty : w.table.initialized = false → w.aliases = []
  remembers : MemoTable.Remembers
    (fun chars ↦ (dt.lookUp w.table.portReady chars).map GpioPlace.position)
    (fun kept : GpioAlias ↦ kept.position) w.entered

theorem Recorded.map_snd (h : w.Recorded dt) : w.entered.map Prod.snd = w.aliases :=
  List.map_snd_zip h.length.ge

/-- The initialisation changes the ports only before there are aliases. -/
theorem Recorded.init (h : w.Recorded dt) (ready : List Bool) :
    ({ w with table := (w.table.ocreGpioInit ready).2 } : AliasWorld).Recorded dt := by
  cases hinit : w.table.initialized with
  | true =>
      have hsame : (w.table.ocreGpioInit ready).2 = w.table := by
        simp [GpioTable.ocreGpioInit, hinit]
      rw [hsame]
      exact h
  | false =>
      have hnil : w.aliases = [] := h.empty hinit
      refine ⟨h.length, fun _ ↦ hnil, ?_⟩
      intro entry hentry
      simp [entered, hnil] at hentry

theorem Recorded.byName (h : w.Recorded dt) (hchars : w.memories.stringFrom name = some chars)
    (hnext : w.byName cfg dt name = some w') : w'.Recorded dt := by
  obtain ⟨r, hr, rfl⟩ := Option.map_eq_some_iff.mp hnext
  rcases aliases_of_resolveGpioAlias hr hchars with hsame | ⟨place, hinit, hplace, hadd⟩
  · rw [hsame, if_neg (Nat.lt_irrefl _)]
    exact h
  · have hroom : w.aliases.length < r.aliases.length := by simp [hadd]
    rw [if_pos hroom, hadd, hchars, Option.toList_some]
    refine ⟨by simp [h.length], fun hnot ↦ ?_, ?_⟩
    · rw [hinit] at hnot
      cases hnot
    · rw [entered, List.zip_append h.length]
      exact h.remembers.concat (by simp [hplace, Except.map])

theorem Recorded.next (h : w.Recorded dt) (hnext : w.next cfg dt a = some (some w')) :
    w'.Recorded dt := by
  cases a with
  | init =>
      obtain rfl := Option.some.inj (Option.some.inj hnext)
      exact h.init _
  | load bytes =>
      obtain rfl := Option.some.inj (Option.some.inj hnext)
      exact ⟨h.length, h.empty, h.remembers⟩
  | write module bytes =>
      simp only [AliasWorld.next] at hnext
      split at hnext
      · obtain ⟨-, hw⟩ := Option.ite_none_right_eq_some.mp hnext
        obtain rfl := Option.some.inj (Option.some.inj hw)
        exact ⟨h.length, h.empty, h.remembers⟩
      · cases hnext
  | unload module =>
      obtain ⟨-, hw⟩ := Option.ite_none_right_eq_some.mp hnext
      obtain rfl := Option.some.inj (Option.some.inj hw)
      exact ⟨h.length, h.empty, h.remembers⟩
  | byName name =>
      obtain ⟨hsome, hw⟩ := Option.ite_none_right_eq_some.mp hnext
      obtain ⟨chars, hchars⟩ := Option.isSome_iff_exists.mp hsome
      exact h.byName hchars (Option.some.inj hw)

theorem namesStand_iff (hchars : w.memories.stringFrom name = some chars) :
    NamesStand dt (.byName name) (some w) ↔
      ∃ hit, MemoTable.find (fun kept ↦ w.memories.strcmpEq chars kept.2.name) w.entered =
          some hit ∧ ∀ kept, hit = some kept → dt.specOf chars = dt.specOf kept.1 := by
  simp only [NamesStand, hchars, Option.all_some, Option.any_eq_true, Option.all_eq_true,
    decide_eq_true_eq]

/-- A call resolves a name as without the names kept exactly if these stand. -/
theorem Recorded.agrees_iff (h : w.Recorded dt)
    (hchars : w.memories.stringFrom name = some chars) (s' : Option AliasWorld) :
    AgreesWithDeviceTree cfg dt (.byName name) (some w) s' ↔
      NamesStand dt (.byName name) (some w) := by
  have hagrees : AgreesWithDeviceTree cfg dt (.byName name) (some w) s' ↔
      ∃ r uncached,
        resolveGpioAlias cfg dt w.memories w.table w.aliases (some name) = some r ∧
        resolveGpioAlias cfg dt w.memories w.table [] (some name) = some uncached ∧
        r.result = uncached.result := by
    refine ⟨fun hall ↦ hall w name rfl rfl, ?_⟩
    rintro hsame _ _ ⟨rfl⟩ ⟨rfl⟩
    exact hsame
  rw [hagrees, namesStand_iff hchars]
  cases hinit : w.table.initialized with
  | false =>
      have hnil : w.aliases = [] := h.empty hinit
      refine iff_of_true ⟨_, _, resolveGpioAlias_of_not_initialized hinit,
        resolveGpioAlias_of_not_initialized hinit, rfl⟩ ⟨none, ?_, nofun⟩
      simp [entered, hnil, MemoTable.find]
  | true =>
      obtain ⟨uncached, huncached, hresult⟩ := exists_uncached cfg dt hinit hchars
      calc (∃ r uncached,
              resolveGpioAlias cfg dt w.memories w.table w.aliases (some name) = some r ∧
              resolveGpioAlias cfg dt w.memories w.table [] (some name) = some uncached ∧
              r.result = uncached.result) ↔
            (resolveGpioAlias cfg dt w.memories w.table w.aliases (some name)).map
              AliasReturn.result = some uncached.result := by
              simp [huncached, Option.map_eq_some_iff]
        _ ↔ ∃ hit, MemoTable.find (fun kept ↦ w.memories.strcmpEq chars kept.2.name) w.entered =
              some hit ∧ ∀ kept, hit = some kept →
                (dt.lookUp w.table.portReady chars).map GpioPlace.position =
                  (dt.lookUp w.table.portReady kept.1).map GpioPlace.position := by
              rw [map_result_resolveGpioAlias hinit hchars, hresult]
              nth_rewrite 1 [← h.map_snd]
              exact MemoTable.answer_eq_iff h.remembers chars
        _ ↔ _ := by
              refine exists_congr fun hit ↦ and_congr_right fun hfind ↦
                forall₂_congr fun kept hkept ↦ ?_
              subst hkept
              have hkept := h.remembers kept (MemoTable.mem_of_find hfind).1
              obtain ⟨place, hplace, -⟩ := exists_of_map_ok hkept
              exact GpioDeviceTree.position_lookUp_iff hplace

theorem recorded_of_reachable {s : Option AliasWorld} (h : (aliasSystem cfg dt).Reachable s) :
    ∀ w, s = some w → w.Recorded dt := by
  refine h.invariant (I := fun s ↦ ∀ w, s = some w → w.Recorded dt) ?_ ?_
  · rintro s rfl w ⟨rfl⟩
    exact ⟨rfl, fun _ ↦ rfl, nofun⟩
  · rintro a s s' hs - hnext w' rfl
    obtain ⟨w, rfl, hw⟩ := Option.bind_eq_some_iff.mp hnext
    exact (hs w rfl).next hw

/-- In a run from the start of the program, each call by name resolves the name as without
the names kept exactly if at each call these stand. -/
theorem runKeeps_agrees_iff (cfg : GpioConfig) (dt : GpioDeviceTree) {as : List AliasAct}
    {s : Option AliasWorld} (hrun : (aliasSystem cfg dt).run (some (initial cfg)) as = some s) :
    (aliasSystem cfg dt).RunKeeps (AgreesWithDeviceTree cfg dt) (some (initial cfg)) as ↔
      (aliasSystem cfg dt).RunMeets (NamesStand dt) (some (initial cfg)) as := by
  refine StepSystem.ReachableWhere.runKeeps_iff_runMeets ?_ (.start rfl) hrun
  intro a s s' hs hnext
  obtain ⟨w, rfl, hw⟩ := Option.bind_eq_some_iff.mp hnext
  have hrecorded := recorded_of_reachable (hs.mono fun _ _ _ ↦ trivial) w rfl
  cases a with
  | byName name =>
      obtain ⟨hsome, -⟩ := Option.ite_none_right_eq_some.mp hw
      obtain ⟨chars, hchars⟩ := Option.isSome_iff_exists.mp hsome
      exact hrecorded.agrees_iff hchars s'
  | init | load | write | unload => exact iff_of_true nofun trivial

/-- A module leaves the names as they are that have been kept of its memory. -/
def KeepsNames (a : AliasAct) (s : Option AliasWorld) : Prop :=
  match a, s with
  | .write module bytes, some w => ∀ kept ∈ w.aliases,
      LinearMemories.stringFrom (w.memories.set module (some bytes)) kept.name =
        w.memories.stringFrom kept.name
  | .unload module, some w => ∀ kept ∈ w.aliases, kept.name.module ≠ module
  | _, _ => True

/-- Every pointer kept leads to the string for which it was entered. -/
def ReadsAsEntered (w : AliasWorld) : Prop :=
  ∀ kept ∈ w.entered, w.memories.stringFrom kept.2.name = some kept.1

theorem ReadsAsEntered.of_memories {memories : LinearMemories} (h : w.ReadsAsEntered)
    (hsame : ∀ kept ∈ w.entered, memories.stringFrom kept.2.name =
      w.memories.stringFrom kept.2.name) :
    ({ w with memories := memories } : AliasWorld).ReadsAsEntered :=
  fun kept hkept ↦ (hsame kept hkept).trans (h kept hkept)

theorem mem_aliases_of_mem_entered {kept : CString × GpioAlias} (h : kept ∈ w.entered) :
    kept.2 ∈ w.aliases :=
  (List.of_mem_zip h).2

theorem stringFrom_append {memories : LinearMemories} (bytes : Option (List UInt8))
    (h : memories.stringFrom name = some chars) :
    LinearMemories.stringFrom (memories ++ [bytes]) name = some chars := by
  have hlt : name.module < memories.length := by
    by_contra hnot
    have hnone : memories[name.module]? = none := List.getElem?_eq_none (Nat.le_of_not_lt hnot)
    simp [LinearMemories.stringFrom, LinearMemories.bytesFrom, hnone] at h
  rw [← h, LinearMemories.stringFrom, LinearMemories.bytesFrom, List.getElem?_append_left hlt]
  rfl

theorem ReadsAsEntered.byName (h : w.ReadsAsEntered) (hrecorded : w.Recorded dt)
    (hchars : w.memories.stringFrom name = some chars)
    (hnext : w.byName cfg dt name = some w') : w'.ReadsAsEntered := by
  obtain ⟨r, hr, rfl⟩ := Option.map_eq_some_iff.mp hnext
  rcases aliases_of_resolveGpioAlias hr hchars with hsame | ⟨place, -, -, hadd⟩
  · rw [hsame, if_neg (Nat.lt_irrefl _)]
    exact h
  · have hroom : w.aliases.length < r.aliases.length := by simp [hadd]
    rw [if_pos hroom, hadd, hchars, Option.toList_some]
    intro kept hkept
    rw [entered, List.zip_append hrecorded.length] at hkept
    rcases List.mem_append.mp hkept with hold | hnew
    · exact h kept hold
    · obtain rfl := List.mem_singleton.mp hnew
      exact hchars

theorem ReadsAsEntered.next (h : w.ReadsAsEntered) (hrecorded : w.Recorded dt)
    (ha : KeepsNames a (some w)) (hnext : w.next cfg dt a = some (some w')) :
    w'.ReadsAsEntered := by
  cases a with
  | init =>
      obtain rfl := Option.some.inj (Option.some.inj hnext)
      exact h
  | load bytes =>
      obtain rfl := Option.some.inj (Option.some.inj hnext)
      exact fun kept hkept ↦ stringFrom_append _ (h kept hkept)
  | write module bytes =>
      simp only [AliasWorld.next] at hnext
      split at hnext
      · obtain ⟨-, hw⟩ := Option.ite_none_right_eq_some.mp hnext
        obtain rfl := Option.some.inj (Option.some.inj hw)
        exact h.of_memories fun kept hkept ↦ ha kept.2 (mem_aliases_of_mem_entered hkept)
      · cases hnext
  | unload module =>
      obtain ⟨-, hw⟩ := Option.ite_none_right_eq_some.mp hnext
      obtain rfl := Option.some.inj (Option.some.inj hw)
      refine h.of_memories fun kept hkept ↦ ?_
      have hne := ha kept.2 (mem_aliases_of_mem_entered hkept)
      simp only [LinearMemories.stringFrom, LinearMemories.bytesFrom,
        List.getElem?_set_ne (Ne.symm hne)]
  | byName name =>
      obtain ⟨hsome, hw⟩ := Option.ite_none_right_eq_some.mp hnext
      obtain ⟨chars, hchars⟩ := Option.isSome_iff_exists.mp hsome
      exact h.byName hrecorded hchars (Option.some.inj hw)

theorem exists_of_stringFrom {memories : LinearMemories}
    (h : memories.stringFrom name = some chars) :
    ∃ bytes, memories.bytesFrom name = some bytes ∧ 0 ∈ bytes ∧
      bytes.takeWhile (· ≠ 0) = chars := by
  obtain ⟨bytes, hbytes, hread⟩ := Option.bind_eq_some_iff.mp h
  obtain ⟨hmem, hchars⟩ := Option.ite_none_right_eq_some.mp hread
  exact ⟨bytes, hbytes, hmem, Option.some.inj hchars⟩

theorem strcmpEq_of_stringFrom {memories : LinearMemories} {kept : GuestPointer} {was : CString}
    (hkept : memories.stringFrom kept = some was) (hchars : memories.stringFrom name = some chars) :
    memories.strcmpEq chars kept = some (decide (was = chars)) := by
  have hnul : 0 ∉ chars := by
    obtain ⟨bytes, -, -, rfl⟩ := exists_of_stringFrom hchars
    exact fun hmem ↦ by simpa using List.mem_takeWhile_imp hmem
  obtain ⟨bytes, hbytes, hmem, rfl⟩ := exists_of_stringFrom hkept
  rw [LinearMemories.strcmpEq, hbytes]
  exact StringScan.equals_eq hmem hnul

theorem ReadsAsEntered.namesStand (h : w.ReadsAsEntered)
    (hchars : w.memories.stringFrom name = some chars) :
    NamesStand dt (.byName name) (some w) := by
  rw [namesStand_iff hchars]
  have hreads : ∀ kept ∈ w.entered,
      w.memories.strcmpEq chars kept.2.name = some (decide (kept.1 = chars)) :=
    fun kept hkept ↦ strcmpEq_of_stringFrom (h kept hkept) hchars
  have hsome : ∀ kept ∈ w.entered, (w.memories.strcmpEq chars kept.2.name).isSome :=
    fun kept hkept ↦ by simp [hreads kept hkept]
  obtain ⟨hit, hhit⟩ := Option.isSome_iff_exists.mp (MemoTable.find_isSome hsome)
  refine ⟨hit, hhit, ?_⟩
  rintro kept rfl
  obtain ⟨hmem, htest⟩ := MemoTable.mem_of_find hhit
  have hsame : kept.1 = chars := by simpa [hreads kept hmem] using htest
  rw [hsame]

theorem readsAsEntered_of_reachableWhere {s : Option AliasWorld}
    (h : (aliasSystem cfg dt).ReachableWhere KeepsNames s) :
    ∀ w, s = some w → w.ReadsAsEntered := by
  refine h.invariant_of (I := fun s ↦ ∀ w, s = some w → w.ReadsAsEntered)
    (fun s hs ↦ recorded_of_reachable (hs.mono fun _ _ _ ↦ trivial)) ?_ ?_
  · rintro s rfl w ⟨rfl⟩
    exact nofun
  · rintro a s s' hrecorded hs ha hnext w' rfl
    obtain ⟨w, rfl, hw⟩ := Option.bind_eq_some_iff.mp hnext
    exact (hs w rfl).next (hrecorded w rfl) ha hw

/-- As long as the modules leave the names alone that they have passed, every call by name
agrees with the device tree. -/
theorem runKeeps_agrees_of_keepsNames {as : List AliasAct}
    (hmeets : (aliasSystem cfg dt).RunMeets KeepsNames (some (initial cfg)) as) :
    (aliasSystem cfg dt).RunKeeps (AgreesWithDeviceTree cfg dt) (some (initial cfg)) as := by
  refine StepSystem.ReachableWhere.runKeeps ?_ (.start rfl) hmeets
  intro a s s' hs ha hnext
  obtain ⟨w, rfl, hw⟩ := Option.bind_eq_some_iff.mp hnext
  have hreads := readsAsEntered_of_reachableWhere hs w rfl
  have hrecorded := recorded_of_reachable (hs.mono fun _ _ _ ↦ trivial) w rfl
  cases a with
  | byName name =>
      obtain ⟨hsome, -⟩ := Option.ite_none_right_eq_some.mp hw
      obtain ⟨chars, hchars⟩ := Option.isSome_iff_exists.mp hsome
      exact (hrecorded.agrees_iff hchars s').mpr (hreads.namesStand hchars)
  | init | load | write | unload => exact nofun

end AliasWorld

/-- A device tree with the first LED at pin 5 of the first port and the second LED at pin 3
of the second port. -/
def twoLeds : GpioDeviceTree where
  gpioPorts := [some 70, some 71]
  deviceIsReady := fun _ ↦ true
  spec
    | .led0 => some ⟨some 70, 5⟩
    | .led1 => some ⟨some 71, 3⟩
    | _ => none

def twoPorts : GpioConfig := ⟨32, 2, 16⟩

/-- Two modules pass names from their memories. The first one writes beside the name that
has been kept. -/
def writesBeside : List AliasAct :=
  [.init, .load (cstring "led0" ++ [0, 0]), .byName ⟨0, 0⟩, .write 0 (cstring "led0" ++ [0, 1]),
    .load (cstring "led1" ++ [0]), .byName ⟨1, 0⟩, .byName ⟨0, 0⟩, .byName ⟨0, 4⟩, .unload 1]

theorem runKeeps_agrees_of_writesBeside :
    (aliasSystem twoPorts twoLeds).RunKeeps (AgreesWithDeviceTree twoPorts twoLeds)
      (some (.initial twoPorts)) writesBeside :=
  (AliasWorld.runKeeps_agrees_iff twoPorts twoLeds rfl).mpr (by decide)

/-- A module turns `"led0"` into `"led1"` in the buffer that it has passed. -/
def writesOver : List AliasAct :=
  [.init, .load (cstring "led0" ++ [0]), .byName ⟨0, 0⟩, .write 0 (cstring "led1" ++ [0]),
    .byName ⟨0, 0⟩]

/-- The second call is told the pin of the first LED. -/
theorem not_runKeeps_agrees_of_writesOver :
    ((aliasSystem twoPorts twoLeds).run (some (.initial twoPorts)) writesOver).isSome ∧
      ¬ (aliasSystem twoPorts twoLeds).RunKeeps (AgreesWithDeviceTree twoPorts twoLeds)
        (some (.initial twoPorts)) writesOver := by
  refine ⟨by decide, fun hkeeps ↦ ?_⟩
  have hlast := (((hkeeps _ rfl).2 _ rfl).2 _ rfl).2 _ rfl |>.2 _ rfl
  obtain ⟨r, uncached, hr, huncached, hsame⟩ := hlast.1 _ _ rfl rfl
  obtain rfl := Option.some.inj hr
  obtain rfl := Option.some.inj huncached
  exact absurd hsame (by decide)

end OcreRuntime
