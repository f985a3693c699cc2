import Mathlib.Algebra.Group.Nat.Defs
import OcreRuntime.Lib.PartialMap
import OcreRuntime.Lib.SlotTable
import OcreRuntime.OcreApi.GpioCalls

/-!
# The pin table and the hardware

The driver keeps the flags that it last applied to a pin, and a module context counts the
pins of its module. A configuration calls the driver before its last check, tests the
direction twice and counts a pin again that is in use. Apart from that the table, the
hardware and the counters agree.
-/

namespace OcreRuntime

open Function (update)
open GpioTable (defaultConfig)

/-- The pin table, the flags of each pin of each port, and the counters of the modules that
are registered. -/
structure HardwareWorld where
  table : GpioTable
  flags : ℕ × ℕ → Option GpioFlags
  resourceCount : ℕ → Option UInt32

/-- What a driver call does to the flags; a configuration that fails applies nothing. -/
def applyFlags (r : DriverResults) (flags : ℕ × ℕ → Option GpioFlags) (call : DriverCall) :
    ℕ × ℕ → Option GpioFlags :=
  match call.op with
  | .configure new =>
      if r.configure = 0 then update flags (call.port, call.pin) (some new) else flags
  | _ => flags

namespace HardwareWorld

variable (cfg : GpioConfig) (w : HardwareWorld)

/-- A call of a native function. A configuration counts the pin that it has written, which
is when it returns 0. -/
def nativeCall (native : GpioNative) (r : DriverResults) (route : GpioRoute) :
    Option HardwareWorld :=
  (w.table.nativeCall cfg native r route).map fun x ↦
    { table := x.table
      flags := x.driver.foldl (applyFlags r) w.flags
      resourceCount := match native with
        | .configure (some module) _ =>
            if x.ret = 0 then PartialMap.modify w.resourceCount module (· + 1)
            else w.resourceCount
        | _ => w.resourceCount }

/-- One iteration of the clean-up; to unregister a callback configures no pin. -/
def cleanupPin (r : DriverResults) (module : ℕ) (pin : ℕ) : Option HardwareWorld :=
  (w.table.cleanupPin cfg r module pin).map fun t ↦
    { w with
      table := t
      resourceCount :=
        if w.table.gpioPins[pin]?.any fun gpio ↦ gpio.inUse ∧ gpio.owner = some module then
          PartialMap.modify w.resourceCount module fun count ↦
            if count > 0 then count - 1 else count
        else w.resourceCount }

def ocreGpioCleanupContainer (results : ℕ → DriverResults) (module : Option ℕ) :
    Option HardwareWorld :=
  match module with
  | none => some w
  | some module =>
      if ¬ w.table.initialized then some w
      else (List.range cfg.maxPins).foldlM (fun w pin ↦ w.cleanupPin cfg (results pin) module pin) w

def perform (a : GpioAct) : Option HardwareWorld :=
  match a with
  | .init ready => some { w with table := (w.table.ocreGpioInit ready).2 }
  | .wasm native port pin r => w.nativeCall cfg native r (.number port pin)
  | .byName native port pin r => w.nativeCall cfg native r (.name port pin)
  | .cleanup module results => w.ocreGpioCleanupContainer cfg results module

end HardwareWorld

/-- The table with the hardware under it. The modules that are registered stay so. -/
def hardwareSystem (cfg : GpioConfig) : StepSystem (Option HardwareWorld) GpioAct where
  init s := ∃ w, s = some w ∧ w.table = .static cfg ∧
    ∀ module count, w.resourceCount module = some count → count = 0
  next a s := s.bind fun w ↦ if w.table.enables cfg a then some (w.perform cfg a) else none

/-- A record but for its callback. -/
def GpioPinOcre.bare (gpio : GpioPinOcre) : GpioPinOcre := { gpio with cb := none }

namespace GpioTable

variable {cfg : GpioConfig} {t t' : GpioTable} {r : DriverResults} {native : GpioNative}
  {g : Int} {x : GpioReturn} {module : ℕ}

/-- The number of pins that a module has in use. -/
def heldBy (t : GpioTable) (module : ℕ) : ℕ :=
  SlotTable.count GpioPinOcre.inUse GpioPinOcre.owner (some module) t.gpioPins

def bare (t : GpioTable) : List GpioPinOcre := t.gpioPins.map GpioPinOcre.bare

theorem heldBy_of_bare (h : t'.bare = t.bare) (module : ℕ) :
    t'.heldBy module = t.heldBy module := by
  have hmap (pins : List GpioPinOcre) :
      SlotTable.count GpioPinOcre.inUse GpioPinOcre.owner (some module)
        (pins.map GpioPinOcre.bare) =
      SlotTable.count GpioPinOcre.inUse GpioPinOcre.owner (some module) pins := List.countP_map
  rw [heldBy, heldBy, ← hmap, ← hmap t.gpioPins]
  exact congrArg _ h

theorem heldBy_setPin {i : ℕ} {old new : GpioPinOcre} (hold : t.gpioPins[i]? = some old) :
    (t.setPin i new).heldBy module +
        (if SlotTable.Held GpioPinOcre.inUse GpioPinOcre.owner (some module) old then 1 else 0) =
      t.heldBy module +
        if SlotTable.Held GpioPinOcre.inUse GpioPinOcre.owner (some module) new then 1 else 0 :=
  SlotTable.count_set hold

theorem exists_of_bare (h : t'.bare = t.bare) {i : ℕ} {gpio : GpioPinOcre}
    (hgpio : t'.gpioPins[i]? = some gpio) :
    ∃ old, t.gpioPins[i]? = some old ∧ old.bare = gpio.bare := by
  have hget : t.bare[i]? = some gpio.bare := by
    rw [← h, bare, List.getElem?_map, hgpio, Option.map_some]
  rw [bare, List.getElem?_map] at hget
  exact Option.map_eq_some_iff.mp hget

/-- The functions on a record change callbacks only. -/
theorem bare_atPin (hx : t.atPin cfg native r g = some x) : x.table.bare = t.bare := by
  rcases table_atPin hx with hsame | ⟨i, gpio, cb, rfl, hget, -, htable⟩
  · rw [hsame]
  · obtain ⟨hlt, rfl⟩ := List.getElem?_eq_some_iff.mp hget
    rw [htable, bare, setPin, List.map_set, Int.toNat_natCast]
    apply List.ext_getElem?
    intro j
    by_cases hj : i = j
    · subst hj
      rw [List.getElem?_set_self (by simpa using hlt)]
      simp [bare, GpioPinOcre.bare, hlt]
    · rw [List.getElem?_set_ne hj, bare]

theorem op_atPin (hx : t.atPin cfg native r g = some x) {call : DriverCall}
    (hcall : call ∈ x.driver) (flags : GpioFlags) : call.op ≠ .configure flags := by
  cases native with
  | configure module direction =>
      obtain rfl := Option.some.inj hx
      cases hcall
  | set | get | toggle =>
      rcases withPin_cases hx with rfl | ⟨i, gpio, -, -, -, -, rfl⟩
      · cases hcall
      · obtain rfl := List.mem_singleton.mp hcall
        simp
  | registerCallback =>
      rcases withPin_cases hx with rfl | ⟨i, gpio, -, -, -, -, rfl⟩
      · cases hcall
      · cases hcb : gpio.cb.or r.calloc with
        | none => simp [hcb] at hcall
        | some cb =>
            simp only [hcb] at hcall
            split_ifs at hcall
            all_goals
              simp only [List.mem_cons, List.not_mem_nil, or_false] at hcall
              rcases hcall with rfl | rfl <;> simp
  | unregisterCallback =>
      rcases withPin_cases hx with rfl | ⟨i, gpio, -, -, -, -, rfl⟩
      · cases hcall
      · dsimp only at hcall
        split_ifs at hcall
        all_goals
          simp only [List.mem_cons, List.not_mem_nil, or_false] at hcall
          rcases hcall with rfl | rfl <;> simp

end GpioTable

theorem foldl_applyFlags {r : DriverResults} {calls : List DriverCall}
    (h : ∀ call ∈ calls, ∀ flags, call.op ≠ .configure flags) (flags : ℕ × ℕ → Option GpioFlags) :
    calls.foldl (applyFlags r) flags = flags := by
  induction calls with
  | nil => rfl
  | cons call calls ih =>
      have hsame : applyFlags r flags call = flags := by
        unfold applyFlags
        split
        next new hop => exact absurd hop (h call List.mem_cons_self new)
        · rfl
      rw [List.foldl_cons, hsame]
      exact ih fun call hcall ↦ h call (List.mem_cons_of_mem _ hcall)

namespace HardwareWorld

variable {cfg : GpioConfig} {w : HardwareWorld} {r : DriverResults} {native : GpioNative}
  {route : GpioRoute}

/-- The table goes its own way. -/
theorem table_perform (a : GpioAct) :
    (w.perform cfg a).map HardwareWorld.table = w.table.perform cfg a := by
  cases a with
  | init ready => rfl
  | wasm native port pin r => simp [perform, HardwareWorld.nativeCall, GpioTable.perform,
      GpioTable.nativeCall, Function.comp_def]
  | byName native port pin r => simp [perform, HardwareWorld.nativeCall, GpioTable.perform,
      GpioTable.nativeCall, Function.comp_def]
  | cleanup module results =>
      cases module with
      | none => rfl
      | some module =>
          simp only [perform, ocreGpioCleanupContainer, GpioTable.perform,
            GpioTable.ocreGpioCleanupContainer]
          split
          · rfl
          · apply OptionLoop.map_see
            intro w pin
            simp [HardwareWorld.cleanupPin, Function.comp_def]

/-- The flags for a recorded direction. -/
def flagsOf (gpio : GpioPinOcre) : GpioFlags := if gpio.direction then .output else .inputPullUp

/-- Each pin in use has the flags of its direction, and each counter is the number of pins
that its module has in use. -/
structure Agrees (w : HardwareWorld) : Prop where
  direction : ∀ (i : ℕ) (gpio : GpioPinOcre), w.table.gpioPins[i]? = some gpio →
    gpio.inUse = true → w.flags gpio.position = some (flagsOf gpio)
  counts : ∀ module count, w.resourceCount module = some count →
    count.toNat = w.table.heldBy module

/-- The agreement, with records at the indices of their pins. -/
structure Inv (cfg : GpioConfig) (w : HardwareWorld) : Prop extends w.Agrees where
  sound : w.table.Sound cfg
  indexed : ∀ (i : ℕ) (gpio : GpioPinOcre), w.table.gpioPins[i]? = some gpio →
    gpio.inUse = true → gpio.portIdx * cfg.pinsPerPort + gpio.pinNumber = i

/-- No module that is registered has the record at an index in use. -/
def FreeAt (w : HardwareWorld) (g : Int) : Prop :=
  ∀ gpio ∈ elementAt w.table.gpioPins g, gpio.inUse = true →
    ∀ owner ∈ gpio.owner, w.resourceCount owner = none

instance (g : Int) : Decidable (w.FreeAt g) :=
  inferInstanceAs (Decidable (∀ gpio ∈ elementAt w.table.gpioPins g, gpio.inUse = true →
    ∀ owner ∈ gpio.owner, w.resourceCount owner = none))

/-- A configuration that comes to the hardware has one of the two directions, and a pin that
fits in its record, at an index of the table; and no module that is registered has the
record there in use. -/
def Conforms (cfg : GpioConfig) (native : GpioNative) (r : DriverResults) (w : HardwareWorld)
    (route : GpioRoute) : Prop :=
  GpioTable.Defined cfg native w.table route ∧
    match native with
    | .configure (some _) direction =>
        w.table.configures cfg route = true → r.configure = 0 →
          (direction = 0 ∨ direction = 1) ∧ route.pin8 < 64 ∧ route.index8 cfg < cfg.maxPins ∧
            w.FreeAt (route.index8 cfg)
    | _ => True

theorem Inv.of_bare (h : w.Inv cfg) {t : GpioTable} (hsound : t.Sound cfg)
    (hbare : t.bare = w.table.bare) : Inv cfg { w with table := t } := by
  have hsame {i : ℕ} {gpio : GpioPinOcre} (hgpio : t.gpioPins[i]? = some gpio) :
      ∃ old, w.table.gpioPins[i]? = some old ∧ old.inUse = gpio.inUse ∧
        old.position = gpio.position ∧ flagsOf old = flagsOf gpio := by
    obtain ⟨old, hold, heq⟩ := GpioTable.exists_of_bare hbare hgpio
    have hinUse : old.bare.inUse = gpio.bare.inUse := congrArg _ heq
    have hposition : old.bare.position = gpio.bare.position := congrArg _ heq
    have hflags : flagsOf old.bare = flagsOf gpio.bare := congrArg _ heq
    exact ⟨old, hold, hinUse, hposition, hflags⟩
  refine ⟨⟨?_, ?_⟩, hsound, ?_⟩
  · intro i gpio hgpio huse
    obtain ⟨old, hold, hinUse, hposition, hflags⟩ := hsame hgpio
    rw [← hposition, ← hflags]
    exact h.direction i old hold (hinUse.trans huse)
  · intro module count hcount
    rw [GpioTable.heldBy_of_bare hbare]
    exact h.counts module count hcount
  · intro i gpio hgpio huse
    obtain ⟨old, hold, hinUse, hposition, -⟩ := hsame hgpio
    have hpair := Prod.mk.inj hposition
    rw [← hpair.1, ← hpair.2]
    exact h.indexed i old hold (hinUse.trans huse)

/-- The counters follow a module that comes to hold a pin that no other one counts. -/
theorem Agrees.counts_take (h : w.Agrees) (hmax : w.table.gpioPins.length < 2 ^ 32)
    {i module : ℕ} {old new : GpioPinOcre} (hold : w.table.gpioPins[i]? = some old)
    (hfree : old.inUse = true → ∀ owner ∈ old.owner, w.resourceCount owner = none)
    (hinUse : new.inUse = true) (howner : new.owner = some module) {other : ℕ} {count : UInt32}
    (hcount : PartialMap.modify w.resourceCount module (· + 1) other = some count) :
    count.toNat = (w.table.setPin i new).heldBy other := by
  have hset := @GpioTable.heldBy_setPin w.table other i old new hold
  have hnot (count : UInt32) (hcount : w.resourceCount other = some count) :
      ¬ SlotTable.Held GpioPinOcre.inUse GpioPinOcre.owner (some other) old := by
    rintro ⟨huse, howner⟩
    cases (hfree huse other howner).symm.trans hcount
  by_cases hmodule : other = module
  · subst hmodule
    rw [PartialMap.modify_self] at hcount
    obtain ⟨before, hbefore, rfl⟩ := Option.map_eq_some_iff.mp hcount
    rw [if_neg (hnot before hbefore), if_pos ⟨hinUse, howner⟩, Nat.add_zero] at hset
    have hle : (w.table.setPin i new).heldBy other ≤ w.table.gpioPins.length := by
      rw [← @List.length_set _ w.table.gpioPins i new]
      exact List.countP_le_length
    have hcounts := h.counts other before hbefore
    have hone : (1 : UInt32).toNat = 1 := rfl
    have hfits : before.toNat + 1 < 2 ^ 32 := by omega
    calc (before + 1).toNat = before.toNat + 1 := by
          rw [UInt32.toNat_add, hone]
          exact Nat.mod_eq_of_lt hfits
      _ = (w.table.setPin i new).heldBy other := by rw [hcounts, hset]
  · rw [PartialMap.modify_of_ne hmodule] at hcount
    have hnew : ¬ SlotTable.Held GpioPinOcre.inUse GpioPinOcre.owner (some other) new := by
      rintro ⟨-, hother⟩
      exact hmodule (Option.some.inj (hother.symm.trans howner))
    rw [if_neg (hnot count hcount), if_neg hnew, Nat.add_zero, Nat.add_zero] at hset
    exact (h.counts other count hcount).trans hset.symm

/-- The counters follow a module that no longer holds a pin. -/
theorem Agrees.counts_leave (h : w.Agrees) {i module : ℕ} {old new : GpioPinOcre}
    (hold : w.table.gpioPins[i]? = some old)
    (hown : old.inUse = true ∧ old.owner = some module) (hfree : ¬ new.inUse = true)
    {other : ℕ} {count : UInt32}
    (hcount : PartialMap.modify w.resourceCount module
      (fun count ↦ if count > 0 then count - 1 else count) other = some count) :
    count.toNat = (w.table.setPin i new).heldBy other := by
  have hset := @GpioTable.heldBy_setPin w.table other i old new hold
  rw [if_neg fun hheld : SlotTable.Held _ _ _ new ↦ hfree hheld.1, Nat.add_zero] at hset
  by_cases hmodule : other = module
  · subst hmodule
    rw [PartialMap.modify_self] at hcount
    obtain ⟨before, hbefore, rfl⟩ := Option.map_eq_some_iff.mp hcount
    have hheld : SlotTable.Held GpioPinOcre.inUse GpioPinOcre.owner (some other) old := hown
    rw [if_pos hheld] at hset
    have hcounts := h.counts other before hbefore
    have hone : (1 : UInt32).toNat = 1 := rfl
    have hzero : (0 : UInt32).toNat = 0 := rfl
    have hpos : before > 0 := by
      rw [gt_iff_lt, UInt32.lt_iff_toNat_lt, hzero]
      omega
    have hle : (1 : UInt32) ≤ before := by
      rw [UInt32.le_iff_toNat_le, hone]
      omega
    calc (if before > 0 then before - 1 else before).toNat = before.toNat - 1 := by
          rw [if_pos hpos, UInt32.toNat_sub_of_le _ _ hle, hone]
      _ = (w.table.setPin i new).heldBy other := by rw [hcounts, ← hset, Nat.add_sub_cancel]
  · rw [PartialMap.modify_of_ne hmodule] at hcount
    have hnot : ¬ SlotTable.Held GpioPinOcre.inUse GpioPinOcre.owner (some other) old := by
      rintro ⟨-, howner⟩
      exact hmodule (Option.some.inj (howner.symm.trans hown.2))
    rw [if_neg hnot, Nat.add_zero] at hset
    exact (h.counts other count hcount).trans hset.symm

/-- A new pin at a free index, with the flags of its direction. -/
theorem Inv.write (h : w.Inv cfg) (hmax : cfg.maxPins < 2 ^ 32) {i module : ℕ}
    {old new : GpioPinOcre} (hold : w.table.gpioPins[i]? = some old)
    (hfree : old.inUse = true → ∀ owner ∈ old.owner, w.resourceCount owner = none)
    (hinUse : new.inUse = true) (howner : new.owner = some module)
    (hready : w.table.portReady[new.portIdx]? = some true)
    (hindex : new.portIdx * cfg.pinsPerPort + new.pinNumber = i) {flags : GpioFlags}
    (hflags : flags = flagsOf new) :
    Inv cfg
      { table := w.table.setPin i new
        flags := update w.flags new.position (some flags)
        resourceCount := PartialMap.modify w.resourceCount module (· + 1) } := by
  refine ⟨⟨?_, ?_⟩, h.sound.setPin fun _ ↦ hready, ?_⟩
  · intro j gpio hgpio huse
    dsimp only
    rcases GpioTable.getElem?_setPin_cases hgpio with ⟨-, rfl⟩ | ⟨hj, hgpio⟩
    · rw [Function.update_self, hflags]
    · -- two records in use have different pins, since these give their indices
      have hne : gpio.position ≠ new.position := by
        intro heq
        have hpair := Prod.mk.inj heq
        have hindexed := h.indexed j gpio hgpio huse
        rw [hpair.1, hpair.2, hindex] at hindexed
        exact hj hindexed
      rw [Function.update_of_ne hne]
      exact h.direction j gpio hgpio huse
  · intro other count hcount
    have hlength : w.table.gpioPins.length < 2 ^ 32 := by rwa [h.sound.gpioPins]
    exact h.counts_take hlength hold hfree hinUse howner hcount
  · intro j gpio hgpio huse
    rcases GpioTable.getElem?_setPin_cases hgpio with ⟨rfl, rfl⟩ | ⟨-, hgpio⟩
    · exact hindex
    · exact h.indexed j gpio hgpio huse

/-- A configuration that passes its checks and goes through at the driver. -/
theorem Inv.configured (h : w.Inv cfg) (hports : cfg.maxPorts ≤ 16) (hmax : cfg.maxPins < 2 ^ 32)
    (module : ℕ) {direction : Int} (hready : w.table.isReady route.port = true)
    (hdirection : direction = 0 ∨ direction = 1) (hpin : route.pin8 < 64)
    (hindex : route.index8 cfg < cfg.maxPins)
    (hfree : w.FreeAt (route.index8 cfg)) :
    Inv cfg
      { table := w.table.setPin (route.index8 cfg) {
          inUse := true
          direction := direction = 1
          pinNumber := route.pin8 % 64
          portIdx := route.port.toNat % 16
          cb := none
          owner := some module }
        flags := update w.flags (route.port.toNat, route.pin8) (some (.ofDirection direction))
        resourceCount := PartialMap.modify w.resourceCount module (· + 1) } := by
  obtain ⟨p, hp, hready'⟩ := GpioTable.isReady_iff.mp hready
  have hlt := (h.sound.ready_lt hready).2
  have hport : route.port.toNat = p ∧ route.port.toNat % 16 = p := by omega
  obtain ⟨i, hi⟩ := Int.eq_ofNat_of_zero_le
    (GpioRoute.index8_nonneg cfg (h.sound.ready_lt hready).1)
  rw [hi] at hindex hfree ⊢
  obtain ⟨old, hold⟩ := h.sound.exists_record (Int.ofNat_lt.mp hindex)
  rw [FreeAt, elementAt_natCast] at hfree
  rw [Nat.mod_eq_of_lt hpin, hport.2, hport.1]
  have hflat : p * cfg.pinsPerPort + route.pin8 = i := by
    rw [GpioRoute.index8, hp] at hi
    exact_mod_cast hi
  refine h.write hmax hold (hfree old hold) rfl rfl hready' hflat ?_
  rcases hdirection with rfl | rfl <;> rfl

theorem nativeCall_of_refuse
    (h : w.table.nativeCall cfg native r route = some w.table.refuse) :
    w.nativeCall cfg native r route = some w := by
  rw [HardwareWorld.nativeCall, h]
  cases native with
  | configure module direction => cases module <;> rfl
  | _ => rfl

/-- A call that conforms is defined and keeps the agreement, and a configuration that fails
changes nothing. -/
theorem Inv.nativeCall (h : w.Inv cfg) (hports : cfg.maxPorts ≤ 16)
    (hpins : cfg.pinsPerPort ≤ 64) (hmax : cfg.maxPins < 2 ^ 32)
    (henables : w.table.enables cfg (route.act native r) = true)
    (hconforms : w.Conforms cfg native r route) :
    ∃ x w', w.table.nativeCall cfg native r route = some x ∧
      w.nativeCall cfg native r route = some w' ∧ w'.Inv cfg ∧
        ((∃ module direction, native = .configure module direction) → x.ret ≠ 0 →
          w'.table = w.table ∧ w'.flags = w.flags) := by
  obtain ⟨hdefined, hconforms⟩ := hconforms
  by_cases hconfigure : ∃ module direction, native = .configure module direction
  · obtain ⟨module, direction, rfl⟩ := hconfigure
    cases module with
    | none =>
        have hx : w.table.nativeCall cfg (.configure none direction) r route =
            some w.table.refuse := by
          cases route <;> rfl
        exact ⟨w.table.refuse, w, hx, nativeCall_of_refuse hx, h, fun _ _ ↦ ⟨rfl, rfl⟩⟩
    | some module =>
        have hx := h.sound.configure_eq hports hpins henables hdefined
        by_cases hpass : w.table.configures cfg route = true
        swap
        · rw [if_neg hpass] at hx
          exact ⟨w.table.refuse, w, hx, nativeCall_of_refuse hx, h, fun _ _ ↦ ⟨rfl, rfl⟩⟩
        rw [if_pos hpass] at hx
        have hready := GpioTable.isReady_of_configures hpass
        unfold GpioTable.configured at hx
        by_cases hfail : r.configure ≠ 0
        · rw [if_pos hfail] at hx
          refine ⟨_, w, hx, ?_, h, fun _ _ ↦ ⟨rfl, rfl⟩⟩
          rw [HardwareWorld.nativeCall, hx]
          simp [applyFlags, hfail]
        · obtain ⟨hdirection, hpin, hindex, hfree⟩ := hconforms hpass (not_not.mp hfail)
          rw [if_neg hfail, if_neg (Int.not_le.mpr hindex)] at hx
          refine ⟨_, _, hx, ?_,
            h.configured hports hmax module hready hdirection hpin hindex hfree, fun _ hret ↦ ?_⟩
          · rw [HardwareWorld.nativeCall, hx]
            simp [applyFlags, not_not.mp hfail]
          · exact absurd rfl hret
  · push Not at hconfigure
    obtain ⟨x, hx, -⟩ := h.sound.nativeCall_comes hports hpins henables hdefined
    obtain ⟨hbare, hops⟩ : x.table.bare = w.table.bare ∧
        ∀ call ∈ x.driver, ∀ flags, call.op ≠ .configure flags := by
      rw [(h.sound.nativeCall_eq hports hpins henables hconfigure hdefined).1] at hx
      split_ifs at hx
      · exact ⟨GpioTable.bare_atPin hx, fun call hcall ↦ GpioTable.op_atPin hx hcall⟩
      · obtain rfl := Option.some.inj hx
        exact ⟨rfl, nofun⟩
    have hsound := h.sound.nativeCall hports hpins henables hx
    refine ⟨x, { w with table := x.table }, hx, ?_, h.of_bare hsound hbare, ?_⟩
    · rw [HardwareWorld.nativeCall, hx, Option.map_some, foldl_applyFlags hops]
      cases native with
      | configure module direction => exact absurd rfl (hconfigure module direction)
      | _ => rfl
    · rintro ⟨module, direction, rfl⟩
      exact absurd rfl (hconfigure module direction)

/-- The clean-up of one pin. -/
theorem Inv.cleanupPin (h : w.Inv cfg) (r : DriverResults) (module : ℕ) {pin : ℕ}
    (hpin : pin < cfg.maxPins) :
    ∃ w', w.cleanupPin cfg r module pin = some w' ∧ w'.Inv cfg := by
  obtain ⟨gpio, hgpio⟩ := h.sound.exists_record hpin
  by_cases hown : gpio.inUse = true ∧ gpio.owner = some module
  swap
  · refine ⟨w, ?_, h⟩
    rw [HardwareWorld.cleanupPin, GpioTable.cleanupPin_of_not_owned hgpio hown, hgpio]
    simp [hown]
  have hcleaned := h.sound.cleanupPin_of_owned (r := r) hgpio hown
  generalize hnew : { gpio with
    inUse := false, cb := GpioTable.cleanedCb r gpio, owner := none } = new at hcleaned
  have hfree : ¬ new.inUse = true := by simp [← hnew]
  refine ⟨{ w with
    table := w.table.setPin pin new
    resourceCount := PartialMap.modify w.resourceCount module fun count ↦
      if count > 0 then count - 1 else count }, ?_, ?_⟩
  · rw [HardwareWorld.cleanupPin, hcleaned, hgpio, Option.map_some, Option.any_some,
      if_pos (decide_eq_true hown)]
  have hother {i : ℕ} {old : GpioPinOcre}
      (hold : (w.table.setPin pin new).gpioPins[i]? = some old) (huse : old.inUse = true) :
      w.table.gpioPins[i]? = some old := by
    rcases GpioTable.getElem?_setPin_cases hold with ⟨-, rfl⟩ | ⟨-, hold⟩
    · exact absurd huse hfree
    · exact hold
  refine ⟨⟨?_, ?_⟩, h.sound.setPin fun huse ↦ absurd huse hfree, ?_⟩
  · intro i old hold huse
    exact h.direction i old (hother hold huse) huse
  · intro other count hcount
    exact h.counts_leave hgpio hown hfree hcount
  · intro i old hold huse
    exact h.indexed i old (hother hold huse) huse

theorem Inv.ocreGpioCleanupContainer (h : w.Inv cfg) (results : ℕ → DriverResults)
    (module : Option ℕ) :
    ∃ w', w.ocreGpioCleanupContainer cfg results module = some w' ∧ w'.Inv cfg := by
  cases module with
  | none => exact ⟨w, rfl, h⟩
  | some module =>
      dsimp only [HardwareWorld.ocreGpioCleanupContainer]
      by_cases hinit : w.table.initialized = true
      · rw [if_neg (not_not.mpr hinit)]
        apply OptionLoop.exists_of_steps (P := Inv cfg) ?_ h
        intro w pin hpin hinv
        exact hinv.cleanupPin (results pin) module (List.mem_range.mp hpin)
      · rw [if_pos hinit]
        exact ⟨w, rfl, h⟩

/-- A configuration that returns an error has changed neither the table nor the hardware. -/
def FailsClean (cfg : GpioConfig) (a : GpioAct) (w w' : HardwareWorld) : Prop :=
  ∀ route module direction r x, a = GpioRoute.act (.configure module direction) r route →
    w.table.nativeCall cfg (.configure module direction) r route = some x → x.ret ≠ 0 →
      w'.table = w.table ∧ w'.flags = w.flags

/-- The act is defined, the table, the hardware and the counters agree after it, and it has
changed nothing if it is a configuration that returns an error. -/
def KeepsAgreement (cfg : GpioConfig) (a : GpioAct) (s s' : Option HardwareWorld) : Prop :=
  ∃ w', s' = some w' ∧ w'.Agrees ∧ ∀ w ∈ s, FailsClean cfg a w w'

/-- The act conforms, if it is a call. -/
def CallConforms (cfg : GpioConfig) (a : GpioAct) (s : Option HardwareWorld) : Prop :=
  match a with
  | .wasm native port pin r => ∀ w ∈ s, w.Conforms cfg native r (.number port pin)
  | .byName native port pin r => ∀ w ∈ s, w.Conforms cfg native r (.name port pin)
  | _ => True

instance : Decidable (w.Conforms cfg native r route) :=
  match native with
  | .configure (some _) _ =>
      inferInstanceAs (Decidable (GpioTable.Defined .. ∧
        (_ = true → _ = _ → (_ = _ ∨ _ = _) ∧ _ < _ ∧ _ < _ ∧ FreeAt ..)))
  | .configure none _ | .set _ | .get | .toggle | .registerCallback | .unregisterCallback =>
      inferInstanceAs (Decidable (GpioTable.Defined .. ∧ True))

instance (a : GpioAct) (s : Option HardwareWorld) : Decidable (CallConforms cfg a s) :=
  match a, s with
  | .wasm native port pin r, some w =>
      decidable_of_iff (w.Conforms cfg native r (.number port pin)) (by simp [CallConforms])
  | .byName native port pin r, some w =>
      decidable_of_iff (w.Conforms cfg native r (.name port pin)) (by simp [CallConforms])
  | .wasm .., none | .byName .., none => .isTrue (by simp [CallConforms])
  | .init _, _ | .cleanup .., _ => .isTrue trivial

theorem Inv.call (h : w.Inv cfg) (hports : cfg.maxPorts ≤ 16) (hpins : cfg.pinsPerPort ≤ 64)
    (hmax : cfg.maxPins < 2 ^ 32)
    (henables : w.table.enables cfg (route.act native r) = true)
    (hconforms : w.Conforms cfg native r route) :
    ∃ w', w.nativeCall cfg native r route = some w' ∧ w'.Inv cfg ∧
      FailsClean cfg (route.act native r) w w' := by
  obtain ⟨x, w', hx, hw', hinv, hclean⟩ := h.nativeCall hports hpins hmax henables hconforms
  refine ⟨w', hw', hinv, ?_⟩
  intro route' module direction r' y ha hy hret
  obtain ⟨rfl, rfl, rfl⟩ : native = .configure module direction ∧ r = r' ∧ route = route' := by
    cases route <;> cases route' <;> simp_all [GpioRoute.act]
  obtain rfl := Option.some.inj (hx.symm.trans hy)
  exact hclean ⟨module, direction, rfl⟩ hret

theorem Inv.perform (h : w.Inv cfg) (hports : cfg.maxPorts ≤ 16) (hpins : cfg.pinsPerPort ≤ 64)
    (hmax : cfg.maxPins < 2 ^ 32) {a : GpioAct} (henables : w.table.enables cfg a = true)
    (hconforms : CallConforms cfg a (some w)) :
    ∃ w', w.perform cfg a = some w' ∧ w'.Inv cfg ∧ FailsClean cfg a w w' := by
  have hcall (native : GpioNative) (r : DriverResults) (route : GpioRoute) :=
    @Inv.call cfg w r native route h hports hpins hmax
  cases a with
  | init ready =>
      refine ⟨_, rfl, h.of_bare (h.sound.ocreGpioInit (of_decide_eq_true henables)) ?_, ?_⟩
      · unfold GpioTable.ocreGpioInit
        split_ifs <;> rfl
      · intro route module direction r x ha
        cases route <;> cases ha
  | wasm native port pin r => exact hcall native r (.number port pin) henables (hconforms w rfl)
  | byName native port pin r => exact hcall native r (.name port pin) henables (hconforms w rfl)
  | cleanup module results =>
      obtain ⟨w', hw', hinv⟩ := h.ocreGpioCleanupContainer results module
      refine ⟨w', hw', hinv, ?_⟩
      intro route module direction r x ha
      cases route <;> cases ha

variable {s s' : Option HardwareWorld} {a : GpioAct}

theorem Inv.initial (htable : w.table = .static cfg)
    (hcount : ∀ module count, w.resourceCount module = some count → count = 0) : w.Inv cfg := by
  have hfree (i : ℕ) (gpio : GpioPinOcre) (hgpio : w.table.gpioPins[i]? = some gpio)
      (huse : gpio.inUse = true) : False := by
    rw [htable] at hgpio
    obtain rfl := List.eq_of_mem_replicate (List.mem_of_getElem? hgpio)
    cases huse
  refine ⟨⟨?_, ?_⟩, htable ▸ GpioTable.sound_static cfg, ?_⟩
  · exact fun i gpio hgpio huse ↦ (hfree i gpio hgpio huse).elim
  · intro module count hmodule
    obtain rfl := hcount module count hmodule
    rw [htable]
    symm
    apply List.countP_eq_zero.mpr
    intro gpio hgpio hheld
    obtain rfl := List.eq_of_mem_replicate hgpio
    exact Bool.false_ne_true (of_decide_eq_true hheld).1
  · exact fun i gpio hgpio huse ↦ (hfree i gpio hgpio huse).elim

theorem inv_of_reachableWhere (hports : cfg.maxPorts ≤ 16) (hpins : cfg.pinsPerPort ≤ 64)
    (hmax : cfg.maxPins < 2 ^ 32)
    (hs : (hardwareSystem cfg).ReachableWhere (CallConforms cfg) s) :
    ∃ w, s = some w ∧ w.Inv cfg := by
  refine StepSystem.ReachableWhere.invariant
    (I := fun s : Option HardwareWorld ↦ ∃ w, s = some w ∧ w.Inv cfg) ?_ ?_ hs
  · rintro s ⟨w, rfl, htable, hcount⟩
    exact ⟨w, rfl, .initial htable hcount⟩
  · rintro a s s' ⟨w, heq, hinv⟩ hconforms hnext
    obtain ⟨w, rfl, henables, rfl⟩ := StepSystem.eq_some_of_enabled hnext
    obtain rfl := Option.some.inj heq
    obtain ⟨w', hw', hinv', -⟩ := hinv.perform hports hpins hmax henables hconforms
    exact ⟨w', hw', hinv'⟩

/-- In a run whose calls conform, the table, the hardware and the counters agree after each
step, and a configuration that fails has changed nothing. -/
theorem runKeeps_keepsAgreement (hports : cfg.maxPorts ≤ 16) (hpins : cfg.pinsPerPort ≤ 64)
    (hmax : cfg.maxPins < 2 ^ 32) (hinit : (hardwareSystem cfg).init s) {as : List GpioAct}
    (hmeets : (hardwareSystem cfg).RunMeets (CallConforms cfg) s as) :
    (hardwareSystem cfg).RunKeeps (KeepsAgreement cfg) s as := by
  refine StepSystem.ReachableWhere.runKeeps ?_ (.start hinit) hmeets
  intro a s s' hs hconforms hnext
  obtain ⟨w, heq, hinv⟩ := inv_of_reachableWhere hports hpins hmax hs
  obtain ⟨w, rfl, henables, rfl⟩ := StepSystem.eq_some_of_enabled hnext
  obtain rfl := Option.some.inj heq
  obtain ⟨w', hw', hinv', hclean⟩ := hinv.perform hports hpins hmax henables hconforms
  refine ⟨w', hw', hinv'.toAgrees, ?_⟩
  intro w hw
  exact Option.some.inj hw ▸ hclean

/-- Modules 7 and 8 are registered. -/
def twoRegistered : HardwareWorld where
  table := .static defaultConfig
  flags _ := none
  resourceCount module := if module = 7 ∨ module = 8 then some 0 else none

theorem init_twoRegistered : (hardwareSystem defaultConfig).init (some twoRegistered) := by
  refine ⟨twoRegistered, rfl, rfl, ?_⟩
  intro module count hcount
  exact (Option.some.inj (Option.ite_none_right_eq_some.mp hcount).2).symm

/-- Pins of two ports are configured, one of them in vain, and one is configured again after
the clean-up of its module. -/
theorem runKeeps_keepsAgreement_of_twoRegistered :
    (hardwareSystem defaultConfig).RunKeeps (KeepsAgreement defaultConfig) (some twoRegistered)
      [.init [true, true, false, false, false, false, false, false],
        .wasm (.configure (some 7) 1) 1 5 { calloc := none },
        .byName (.configure (some 8) 0) 0 3 { calloc := none },
        .wasm .registerCallback 0 3 { calloc := some 1 },
        .wasm (.configure (some 7) 0) 1 6 { configure := -5, calloc := none },
        .cleanup (some 8) fun _ ↦ { calloc := none },
        .wasm (.configure (some 7) 1) 0 3 { calloc := none }] :=
  runKeeps_keepsAgreement (by decide) (by decide) (by decide) init_twoRegistered
    (by decide +kernel)

/-- Direction 2 is neither of the two: the hardware has an output and the table an input. -/
theorem not_runKeeps_keepsAgreement_of_direction :
    ¬ ∀ s as, (hardwareSystem defaultConfig).init s →
      (hardwareSystem defaultConfig).RunKeeps (KeepsAgreement defaultConfig) s as := by
  intro h
  have hkeeps := h (some twoRegistered)
    [.init [true, true, false, false, false, false, false, false],
      .wasm (.configure (some 7) 2) 1 5 { calloc := none }] init_twoRegistered
  obtain ⟨w, hw, hagrees, -⟩ := ((hkeeps _ rfl).2 _ rfl).1
  obtain rfl := Option.some.inj hw
  have hflags := hagrees.direction 21 ⟨true, false, 5, 1, none, some 7⟩ rfl rfl
  exact absurd hflags (by decide)

end HardwareWorld

end OcreRuntime
