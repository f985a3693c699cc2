import OcreRuntime.OcreApi.GpioCalls

/-!
# Pins of other modules

The table has an owner for each pin in use, but no native function compares it with the
caller. A call leaves the pins of the other modules alone if and only if it is defined and,
when it comes to the driver, neither the pin nor the record is one of theirs.
-/

namespace OcreRuntime

/-- The native functions that act on a pin. -/
inductive PinNative
  | configure (direction : Int)
  | set (state : Int)
  | toggle
  | registerCallback
  | unregisterCallback
  deriving DecidableEq

/-- The call by a module, which only a configuration looks at. -/
def PinNative.calledBy (module : ℕ) : PinNative → GpioNative
  | configure direction => .configure (some module) direction
  | set state => .set state
  | toggle => .toggle
  | registerCallback => .registerCallback
  | unregisterCallback => .unregisterCallback

/-- A pin that another module has in use. -/
def GpioPinOcre.Foreign (module : ℕ) (gpio : GpioPinOcre) : Prop :=
  gpio.inUse = true ∧ gpio.owner ≠ some module

instance (module : ℕ) (gpio : GpioPinOcre) : Decidable (gpio.Foreign module) :=
  inferInstanceAs (Decidable (_ ∧ _))

namespace GpioTable

variable {cfg : GpioConfig} {t : GpioTable} {r : DriverResults} {module : ℕ}
  {route : GpioRoute}

/-- The call of a module is defined, leaves the records of the other modules and the pins
that they stand for, and is refused when it is for such a record. -/
def Isolated (cfg : GpioConfig) (module : ℕ) (native : GpioNative) (r : DriverResults)
    (t : GpioTable) (route : GpioRoute) : Prop :=
  ∃ x, t.nativeCall cfg native r route = some x ∧
    ∀ (i : ℕ) (gpio : GpioPinOcre), t.gpioPins[i]? = some gpio → gpio.Foreign module →
      x.table.gpioPins[i]? = some gpio ∧
        (∀ call ∈ x.driver, (call.port, call.pin) ≠ gpio.position) ∧
        ((i : Int) = route.written cfg native → x.ret < 0 ∧ x.driver = [])

/-- When the call comes to the driver, no other module has the pin, or the record of the
call, in use. -/
def OnOwnPins (cfg : GpioConfig) (module : ℕ) (native : GpioNative) (r : DriverResults)
    (t : GpioTable) (route : GpioRoute) : Prop :=
  ∀ p ∈ t.driven cfg native r route, ∀ (i : ℕ) (gpio : GpioPinOcre),
    t.gpioPins[i]? = some gpio → gpio.Foreign module →
      gpio.position ≠ p ∧ (i : Int) ≠ route.written cfg native

/-- A call with its outcome. -/
theorem Comes.isolated_iff {native : GpioNative} {x : GpioReturn} {driven : Option (ℕ × ℕ)}
    (h : t.Comes (route.written cfg native) x driven) :
    (∀ (i : ℕ) (gpio : GpioPinOcre), t.gpioPins[i]? = some gpio → gpio.Foreign module →
      x.table.gpioPins[i]? = some gpio ∧
        (∀ call ∈ x.driver, (call.port, call.pin) ≠ gpio.position) ∧
        ((i : Int) = route.written cfg native → x.ret < 0 ∧ x.driver = [])) ↔
      ∀ p ∈ driven, ∀ (i : ℕ) (gpio : GpioPinOcre), t.gpioPins[i]? = some gpio →
        gpio.Foreign module → gpio.position ≠ p ∧ (i : Int) ≠ route.written cfg native := by
  cases driven with
  | none =>
      obtain ⟨hret, hdriver, htable⟩ := h
      refine iff_of_true ?_ nofun
      intro i gpio hgpio _
      refine ⟨htable ▸ hgpio, ?_, fun _ ↦ ⟨hret, hdriver⟩⟩
      simp [hdriver]
  | some p =>
      obtain ⟨hnonempty, hdriver, hframe⟩ := h
      constructor
      · rintro hisolated p' hp' i gpio hgpio hforeign
        obtain rfl := Option.some.inj hp'
        obtain ⟨-, hcalls, hrefused⟩ := hisolated i gpio hgpio hforeign
        obtain ⟨call, hcall⟩ := List.exists_mem_of_ne_nil _ hnonempty
        constructor
        · rw [← hdriver call hcall]
          exact (hcalls call hcall).symm
        · exact fun hi ↦ hnonempty (hrefused hi).2
      · intro hown i gpio hgpio hforeign
        obtain ⟨hposition, hi⟩ := hown p rfl i gpio hgpio hforeign
        refine ⟨(hframe i hi).trans hgpio, ?_, fun hwritten ↦ absurd hwritten hi⟩
        intro call hcall
        rw [hdriver call hcall]
        exact hposition.symm

theorem Sound.isolated_iff (h : t.Sound cfg) (hports : cfg.maxPorts ≤ 16)
    (hpins : cfg.pinsPerPort ≤ 64) {native : GpioNative}
    (henables : t.enables cfg (route.act native r) = true) :
    Isolated cfg module native r t route ↔
      Defined cfg native t route ∧ OnOwnPins cfg module native r t route := by
  constructor
  · rintro ⟨x, hx, hisolated⟩
    have hdefined := h.defined_of_nativeCall hx
    obtain ⟨y, hy, hcomes⟩ := h.nativeCall_comes hports hpins henables hdefined
    obtain rfl := Option.some.inj (hx.symm.trans hy)
    exact ⟨hdefined, hcomes.isolated_iff.mp hisolated⟩
  · rintro ⟨hdefined, hown⟩
    obtain ⟨x, hx, hcomes⟩ := h.nativeCall_comes hports hpins henables hdefined
    exact ⟨x, hx, hcomes.isolated_iff.mpr hown⟩

/-- In every reachable table, a native call of a module leaves the pins of the others alone
if and only if it is defined and stays on pins of its own. -/
theorem isolated_iff_of_reachable (hports : cfg.maxPorts ≤ 16) (hpins : cfg.pinsPerPort ≤ 64)
    (ht : (gpioSystem cfg).Reachable (some t)) (module : ℕ) (native : PinNative)
    (henables : t.enables cfg (route.act (native.calledBy module) r) = true) :
    Isolated cfg module (native.calledBy module) r t route ↔
      Defined cfg (native.calledBy module) t route ∧
        OnOwnPins cfg module (native.calledBy module) r t route :=
  (sound_of_reachable hports hpins ht t rfl).isolated_iff hports hpins henables

/-- Module 7 has configured pin 5 of port 1 as an output. -/
def configuredTable : GpioTable where
  initialized := true
  portReady := [true, true, false, false, false, false, false, false]
  gpioPins := (List.replicate 32 {}).set 21 ⟨true, true, 5, 1, none, some 7⟩

theorem reachable_configuredTable :
    (gpioSystem defaultConfig).Reachable (some configuredTable) :=
  @StepSystem.Reachable.run _ _ _ _ _ (.start rfl)
    [.init [true, true, false, false, false, false, false, false],
      .wasm (.configure (some 7) 1) 1 5 { calloc := none }] rfl

/-- Module 8 configures the next pin. -/
theorem isolated_of_next_pin :
    Isolated defaultConfig 8 (PinNative.calledBy 8 (.configure 0)) { calloc := none }
      configuredTable (.number 1 6) := by
  apply (isolated_iff_of_reachable (by decide) (by decide) reachable_configuredTable 8
    (.configure 0) (by decide)).mpr
  refine ⟨by decide, ?_⟩
  intro p hp i gpio hgpio
  obtain rfl : (1, 6) = p := Option.some.inj hp
  have hall : ∀ i : ℕ, i < 32 → ∀ gpio ∈ configuredTable.gpioPins[i]?, gpio.Foreign 8 →
      gpio.position ≠ (1, 6) ∧ i ≠ 22 := by decide
  intro hforeign
  obtain ⟨hposition, hi⟩ := hall i (List.getElem?_eq_some_iff.mp hgpio).1 gpio hgpio hforeign
  exact ⟨hposition, fun hwritten ↦ hi (Int.ofNat.inj hwritten)⟩

/-- Module 8 sets the pin that module 7 has configured. -/
theorem not_isolated_of_set :
    ¬ ∀ (t : GpioTable) (module : ℕ) (native : PinNative) (r : DriverResults) (route : GpioRoute),
      (gpioSystem defaultConfig).Reachable (some t) →
      t.enables defaultConfig (route.act (native.calledBy module) r) = true →
        Isolated defaultConfig module (native.calledBy module) r t route := by
  intro h
  obtain ⟨x, hx, hisolated⟩ := h configuredTable 8 (.set 0) { calloc := none } (.number 1 5)
    reachable_configuredTable (by decide)
  obtain ⟨-, -, hrefused⟩ := hisolated 21 ⟨true, true, 5, 1, none, some 7⟩ rfl (by decide)
  have hdriver : ((configuredTable.nativeCall defaultConfig (.set 0) { calloc := none }
      (.number 1 5)).map GpioReturn.driver) = some [⟨.set 0, 1, 5⟩] := rfl
  simp only [PinNative.calledBy] at hx
  rw [hx, Option.map_some, (hrefused rfl).2] at hdriver
  cases hdriver

end GpioTable

end OcreRuntime
