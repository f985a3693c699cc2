import OcreRuntime.OcreApi.Gpio

/-!
# Ports and pins of the GPIO functions

A port and a pin are flattened to one index of the pin table, and the record there is
flattened back to a port and a pin. A record in use stands at its own index; then a call
is on the device that its arguments name exactly if the arguments pass all checks that
have to be made, or are refused before a driver call.
-/

namespace OcreRuntime

variable {cfg : GpioConfig} {t : GpioTable} {r : DriverResults} {port pin g : Int}

namespace GpioTable

/-- A record in use stands where its port and pin say, and both are in range. -/
structure Placed (cfg : GpioConfig) (t : GpioTable) : Prop where
  portReady : t.portReady.length = cfg.maxPorts
  gpioPins : t.gpioPins.length = cfg.maxPins
  initialized : ∀ p : ℕ, t.portReady[p]? = some true → t.initialized = true
  record : ∀ (i : ℕ) (gpio : GpioPinOcre), t.gpioPins[i]? = some gpio → gpio.inUse = true →
    gpio.portIdx < cfg.maxPorts ∧ gpio.pinNumber < cfg.pinsPerPort ∧
      gpio.portIdx * cfg.pinsPerPort + gpio.pinNumber = i

/-- No access outside an array and no overflow; and an error without a driver call, or
driver calls for the port and the pin, which are in range. -/
def Addressed (cfg : GpioConfig) (port pin : Int) (result : Option GpioReturn) : Prop :=
  ∃ x, result = some x ∧ ((x.ret < 0 ∧ x.driver = []) ∨
    (0 ≤ port ∧ port < cfg.maxPorts ∧ 0 ≤ pin ∧ pin < cfg.pinsPerPort ∧
      x.driver ≠ [] ∧ ∀ call ∈ x.driver, (call.port : Int) = port ∧ (call.pin : Int) = pin))

end GpioTable

/-- What a function asks of a record in use before it calls the driver. -/
def GpioNative.accepts (native : GpioNative) (r : DriverResults) (gpio : GpioPinOcre) : Bool :=
  match native with
  | .set _ | .toggle => gpio.direction
  | .registerCallback => !gpio.direction && (gpio.cb.or r.calloc).isSome
  | .unregisterCallback => gpio.cb.isSome
  | .configure .. | .get => true

namespace GpioTable

def isReady (t : GpioTable) (port : Int) : Bool := elementAt t.portReady port = some true

/-- The call comes to the driver with the record at an index of the table. -/
def reaches (native : GpioNative) (r : DriverResults) (t : GpioTable) (g : Int) : Bool :=
  match elementAt t.gpioPins g with
  | none => false
  | some gpio => gpio.inUse && native.accepts r gpio && t.isReady gpio.portIdx

/-- The index of a pin in a ready port is refused as too large, or lies in the table; and
if the record there leads to the driver, the pin is one of its port. -/
def PinConforms (cfg : GpioConfig) (native : GpioNative) (r : DriverResults) (t : GpioTable)
    (port pin : Int) : Prop :=
  let g := port * cfg.pinsPerPort + pin
  t.isReady port → g < cfg.maxPins →
    0 ≤ g ∧ (t.reaches native r g → 0 ≤ pin ∧ pin < cfg.pinsPerPort)

/-- The condition on the arguments and the table before the call, function by function:
configuring lacks the lower bounds, registering a callback looks at the index first, and
the others use the port before any check. -/
def Conforms (cfg : GpioConfig) (native : GpioNative) (r : DriverResults) (t : GpioTable)
    (port pin : Int) : Prop :=
  let g := port * cfg.pinsPerPort + pin
  match native with
  | .configure module _ =>
      module = none ∨ cfg.maxPorts ≤ port ∨ cfg.pinsPerPort ≤ pin ∨
        (0 ≤ port ∧ (t.isReady port → g < cfg.maxPins → 0 ≤ pin))
  | .registerCallback =>
      cIntFits (port * cfg.pinsPerPort) ∧ cIntFits g ∧
        (cfg.maxPins ≤ g ∨
          (0 ≤ port ∧ port < cfg.maxPorts ∧ PinConforms cfg native r t port pin))
  | .set _ | .get | .toggle | .unregisterCallback =>
      cIntFits (port * cfg.pinsPerPort) ∧ cIntFits g ∧
        0 ≤ port ∧ port < cfg.maxPorts ∧ PinConforms cfg native r t port pin

instance (native : GpioNative) : Decidable (PinConforms cfg native r t port pin) :=
  inferInstanceAs (Decidable (t.isReady port = true → port * cfg.pinsPerPort + pin < cfg.maxPins →
    0 ≤ port * cfg.pinsPerPort + pin ∧
      (t.reaches native r (port * cfg.pinsPerPort + pin) = true →
        0 ≤ pin ∧ pin < cfg.pinsPerPort)))

instance (native : GpioNative) : Decidable (Conforms cfg native r t port pin) :=
  match native with
  | .configure _ _ =>
      inferInstanceAs (Decidable (_ ∨ _ ≤ _ ∨ _ ≤ _ ∨ (_ ≤ _ ∧ (_ → _ < _ → _ ≤ _))))
  | .registerCallback =>
      inferInstanceAs (Decidable (_ = true ∧ _ = true ∧ (_ ≤ _ ∨ (_ ≤ _ ∧ _ < _ ∧ PinConforms ..))))
  | .set _ | .get | .toggle | .unregisterCallback =>
      inferInstanceAs (Decidable (_ = true ∧ _ = true ∧ _ ≤ _ ∧ _ < _ ∧ PinConforms ..))

end GpioTable

/-- Two ways to write an index as a port and a pin in range are the same. -/
theorem eq_of_flatten_eq {n a b c d : ℕ} (hb : b < n) (hd : d < n)
    (h : a * n + b = c * n + d) : a = c ∧ b = d := by
  have hn : 0 < n := by omega
  have ha : a = c := by
    have hdiv := congrArg (· / n) h
    simpa [Nat.mul_add_div hn, Nat.mul_comm _ n, Nat.div_eq_of_lt hb, Nat.div_eq_of_lt hd]
      using hdiv
  subst ha
  exact ⟨rfl, by omega⟩

theorem elementAt_natCast {α : Type} (l : List α) (i : ℕ) : elementAt l (i : Int) = l[i]? := by
  rw [elementAt, if_neg (by omega), Int.toNat_natCast]

theorem elementAt_of_neg {α : Type} (l : List α) (h : g < 0) : elementAt l g = none := by
  simp [elementAt, h]

namespace GpioTable

theorem globalPin_eq_some_iff :
    globalPin cfg port pin = some g ↔
      (cIntFits (port * cfg.pinsPerPort) = true ∧ cIntFits (port * cfg.pinsPerPort + pin) = true) ∧
        port * cfg.pinsPerPort + pin = g := by
  simp [globalPin]

theorem not_fits_of_globalPin (h : globalPin cfg port pin = none) :
    ¬ (cIntFits (port * cfg.pinsPerPort) = true ∧
      cIntFits (port * cfg.pinsPerPort + pin) = true) := by
  intro hfits
  cases h.symm.trans (globalPin_eq_some_iff.mpr ⟨hfits, rfl⟩)

theorem addressed_refuse (port pin : Int) : Addressed cfg port pin (some t.refuse) :=
  ⟨_, rfl, .inl ⟨by simp [refuse], rfl⟩⟩

theorem not_addressed_none : ¬ Addressed cfg port pin none := by
  rintro ⟨_, h, -⟩
  cases h

theorem Placed.exists_ready (h : t.Placed cfg) (hport : 0 ≤ port) (hlt : port < cfg.maxPorts) :
    ∃ ready, elementAt t.portReady port = some ready := by
  lift port to ℕ using hport
  have hlength : port < t.portReady.length := by
    rw [h.portReady]
    exact_mod_cast hlt
  exact ⟨_, by rw [elementAt_natCast, List.getElem?_eq_getElem hlength]⟩

theorem Placed.elementAt_portReady_of_not (h : t.Placed cfg)
    (hport : ¬ (0 ≤ port ∧ port < cfg.maxPorts)) : elementAt t.portReady port = none := by
  by_cases hneg : port < 0
  · exact elementAt_of_neg _ hneg
  · lift port to ℕ using Int.not_lt.mp hneg
    rw [elementAt_natCast, List.getElem?_eq_none_iff, h.portReady]
    by_contra hlt
    exact hport ⟨by omega, by exact_mod_cast Nat.not_le.mp hlt⟩

theorem Placed.exists_gpio (h : t.Placed cfg) (hg : 0 ≤ g) (hlt : g < cfg.maxPins) :
    ∃ gpio, elementAt t.gpioPins g = some gpio := by
  lift g to ℕ using hg
  have hlength : g < t.gpioPins.length := by
    rw [h.gpioPins]
    exact_mod_cast hlt
  exact ⟨_, by rw [elementAt_natCast, List.getElem?_eq_getElem hlength]⟩

/-- The driver is called, each time for the port and pin of the record. -/
structure Drives (gpio : GpioPinOcre) (x : GpioReturn) : Prop where
  nonempty : x.driver ≠ []
  address : ∀ call ∈ x.driver, call.port = gpio.portIdx ∧ call.pin = gpio.pinNumber

/-- A call that comes to the driver with the record of an index is addressed if the pin is
one of the port. -/
theorem addressed_of_drives_iff {gpio : GpioPinOcre} {x : GpioReturn}
    (hnumber : gpio.pinNumber < cfg.pinsPerPort)
    (hplace : gpio.portIdx * cfg.pinsPerPort + gpio.pinNumber = port * cfg.pinsPerPort + pin)
    (hdrives : Drives gpio x) (hport : 0 ≤ port) (hlt : port < cfg.maxPorts) :
    Addressed cfg port pin (some x) ↔ 0 ≤ pin ∧ pin < cfg.pinsPerPort := by
  constructor
  · rintro ⟨y, hy, hcase⟩
    obtain rfl := Option.some.inj hy
    rcases hcase with ⟨-, hnil⟩ | ⟨-, -, hpin, hpinLt, -⟩
    · exact absurd hnil hdrives.nonempty
    · exact ⟨hpin, hpinLt⟩
  · rintro ⟨hpin, hpinLt⟩
    refine ⟨x, rfl, .inr ⟨hport, hlt, hpin, hpinLt, hdrives.nonempty, fun call hcall ↦ ?_⟩⟩
    obtain ⟨hcallPort, hcallPin⟩ := hdrives.address call hcall
    lift port to ℕ using hport
    lift pin to ℕ using hpin
    obtain ⟨hidx, hpinNumber⟩ :=
      eq_of_flatten_eq hnumber (by exact_mod_cast hpinLt) (by exact_mod_cast hplace)
    rw [hcallPort, hcallPin, hidx, hpinNumber]
    exact ⟨rfl, rfl⟩

/-- A function on the record at an index, called for a port and a pin. -/
theorem Placed.addressed_withPin_iff (h : t.Placed cfg) (native : GpioNative)
    {admits : GpioPinOcre → Bool} {k : GpioPinOcre → GpioReturn}
    (hdrives : ∀ gpio, native.accepts r gpio = true → admits gpio = true ∧ Drives gpio (k gpio))
    (hrefuses : ∀ gpio, native.accepts r gpio = false → admits gpio = true →
      (k gpio).ret < 0 ∧ (k gpio).driver = [])
    (hport : 0 ≤ port) (hlt : port < cfg.maxPorts) (hg : port * cfg.pinsPerPort + pin = g) :
    Addressed cfg port pin (t.withPin cfg g admits k) ↔
      (g < cfg.maxPins →
        0 ≤ g ∧ (t.reaches native r g = true → 0 ≤ pin ∧ pin < cfg.pinsPerPort)) := by
  by_cases hmax : cfg.maxPins ≤ g
  · rw [withPin, if_pos hmax]
    exact iff_of_true (addressed_refuse port pin) fun hlt ↦ absurd hlt (Int.not_lt.mpr hmax)
  rw [withPin, if_neg hmax]
  have hin : g < cfg.maxPins := Int.not_le.mp hmax
  by_cases hneg : g < 0
  · rw [elementAt_of_neg _ hneg]
    exact iff_of_false not_addressed_none fun hall ↦ absurd (hall hin).1 (Int.not_le.mpr hneg)
  have hpos : 0 ≤ g := Int.not_lt.mp hneg
  obtain ⟨gpio, hgpio⟩ := h.exists_gpio hpos hin
  -- refused without a driver call, and the record does not lead to the driver
  have hrefused (hreach : t.reaches native r g = false) (x : GpioReturn)
      (hx : x.ret < 0 ∧ x.driver = []) : Addressed cfg port pin (some x) ↔
      (g < cfg.maxPins →
        0 ≤ g ∧ (t.reaches native r g = true → 0 ≤ pin ∧ pin < cfg.pinsPerPort)) :=
    iff_of_true ⟨x, rfl, .inl hx⟩ fun _ ↦ ⟨hpos, fun hr ↦ by simp [hreach] at hr⟩
  have hrefuse : t.refuse.ret < 0 ∧ t.refuse.driver = [] := ⟨by simp [refuse], rfl⟩
  rw [hgpio]
  dsimp only [Option.bind_some]
  by_cases huse : gpio.inUse = true
  swap
  · rw [if_pos (.inl huse)]
    exact hrefused (by simp [reaches, hgpio, huse]) _ hrefuse
  have hrecord := h.record g.toNat gpio (by simpa [elementAt, hneg] using hgpio) huse
  obtain ⟨ready, hready⟩ := h.exists_ready (Int.natCast_nonneg _) (Int.ofNat_lt.mpr hrecord.1)
  by_cases hadmits : admits gpio = true
  swap
  · rw [if_pos (.inr hadmits)]
    have haccepts : native.accepts r gpio = false :=
      Bool.eq_false_iff.mpr fun ha ↦ hadmits (hdrives gpio ha).1
    exact hrefused (by simp [reaches, hgpio, haccepts]) _ hrefuse
  rw [if_neg (by simp [huse, hadmits]), hready]
  dsimp only [Option.map_some]
  cases ready with
  | false => exact hrefused (by simp [reaches, hgpio, isReady, hready]) _ hrefuse
  | true =>
      rw [if_neg (by simp)]
      cases haccepts : native.accepts r gpio with
      | false =>
          exact hrefused (by simp [reaches, hgpio, haccepts]) _ (hrefuses gpio haccepts hadmits)
      | true =>
          have hreach : t.reaches native r g = true := by
            simp [reaches, hgpio, huse, haccepts, isReady, hready]
          have hplace : (gpio.portIdx * cfg.pinsPerPort + gpio.pinNumber : Int) =
              port * cfg.pinsPerPort + pin := by
            rw [hg, ← Int.toNat_of_nonneg hpos]
            exact_mod_cast hrecord.2.2
          rw [addressed_of_drives_iff hrecord.2.1 hplace (hdrives gpio haccepts).2 hport hlt]
          exact ⟨fun hpin _ ↦ ⟨hpos, fun _ ↦ hpin⟩, fun hall ↦ (hall hin).2 hreach⟩

theorem isReady_eq {ready : Bool} (h : elementAt t.portReady port = some ready) :
    t.isReady port = ready := by
  simp [isReady, h]

/-- A function that looks only whether the port is ready before it takes the record. -/
theorem Placed.addressed_wasmPin_iff (h : t.Placed cfg) (native : GpioNative)
    {admits : GpioPinOcre → Bool} {k : Int → GpioPinOcre → GpioReturn}
    (hdrives : ∀ g gpio, native.accepts r gpio = true →
      admits gpio = true ∧ Drives gpio (k g gpio))
    (hrefuses : ∀ g gpio, native.accepts r gpio = false → admits gpio = true →
      (k g gpio).ret < 0 ∧ (k g gpio).driver = []) :
    Addressed cfg port pin (t.wasmPin cfg port pin fun g ↦ t.withPin cfg g admits (k g)) ↔
      cIntFits (port * cfg.pinsPerPort) = true ∧
        cIntFits (port * cfg.pinsPerPort + pin) = true ∧
        0 ≤ port ∧ port < cfg.maxPorts ∧ PinConforms cfg native r t port pin := by
  unfold wasmPin
  cases hglobal : globalPin cfg port pin with
  | none =>
      exact iff_of_false not_addressed_none fun hall ↦
        not_fits_of_globalPin hglobal ⟨hall.1, hall.2.1⟩
  | some g =>
      obtain ⟨⟨hfirst, hsum⟩, hg⟩ := globalPin_eq_some_iff.mp hglobal
      by_cases hrange : 0 ≤ port ∧ port < cfg.maxPorts
      · obtain ⟨ready, hready⟩ := h.exists_ready hrange.1 hrange.2
        simp only [Option.bind_some, hready, hfirst, hsum, hrange, true_and, PinConforms,
          isReady_eq hready]
        cases ready with
        | false => simp [addressed_refuse]
        | true =>
            simpa [hg] using
              h.addressed_withPin_iff native (hdrives g) (hrefuses g) hrange.1 hrange.2 hg
      · simp only [Option.bind_some, h.elementAt_portReady_of_not hrange, Option.bind_none]
        exact iff_of_false not_addressed_none fun hall ↦ hrange ⟨hall.2.2.1, hall.2.2.2.1⟩

theorem drives_of_singleton {gpio : GpioPinOcre} {op : DriverOp} {ret : Int} {t : GpioTable} :
    Drives gpio ⟨ret, [⟨op, gpio.portIdx, gpio.pinNumber⟩], t⟩ :=
  ⟨by simp, by simp⟩

theorem Placed.addressed_set_iff (h : t.Placed cfg) (state : Int) :
    Addressed cfg port pin (t.ocreGpioWasmSet cfg r port pin state) ↔
      Conforms cfg (.set state) r t port pin := by
  apply h.addressed_wasmPin_iff (.set state)
  · intro g gpio haccepts
    exact ⟨haccepts, drives_of_singleton⟩
  · intro g gpio haccepts hadmits
    exact absurd hadmits (Bool.eq_false_iff.mp haccepts)

theorem Placed.addressed_get_iff (h : t.Placed cfg) :
    Addressed cfg port pin (t.ocreGpioWasmGet cfg r port pin) ↔
      Conforms cfg .get r t port pin := by
  apply h.addressed_wasmPin_iff .get
  · intro g gpio _
    exact ⟨rfl, drives_of_singleton⟩
  · intro g gpio haccepts
    cases haccepts

theorem Placed.addressed_toggle_iff (h : t.Placed cfg) :
    Addressed cfg port pin (t.ocreGpioWasmToggle cfg r port pin) ↔
      Conforms cfg .toggle r t port pin := by
  apply h.addressed_wasmPin_iff .toggle
  · intro g gpio haccepts
    exact ⟨haccepts, drives_of_singleton⟩
  · intro g gpio haccepts hadmits
    exact absurd hadmits (Bool.eq_false_iff.mp haccepts)

theorem Placed.addressed_unregisterCallback_iff (h : t.Placed cfg) :
    Addressed cfg port pin (t.ocreGpioWasmUnregisterCallback cfg r port pin) ↔
      Conforms cfg .unregisterCallback r t port pin := by
  apply h.addressed_wasmPin_iff .unregisterCallback
  · intro g gpio haccepts
    refine ⟨haccepts, ?_⟩
    dsimp only
    split_ifs <;> exact ⟨by simp, by simp⟩
  · intro g gpio haccepts hadmits
    exact absurd hadmits (Bool.eq_false_iff.mp haccepts)

theorem Placed.addressed_registerCallback_iff (h : t.Placed cfg) :
    Addressed cfg port pin (t.ocreGpioWasmRegisterCallback cfg r port pin) ↔
      Conforms cfg .registerCallback r t port pin := by
  unfold ocreGpioWasmRegisterCallback Conforms
  cases hglobal : globalPin cfg port pin with
  | none =>
      exact iff_of_false not_addressed_none fun hall ↦
        not_fits_of_globalPin hglobal ⟨hall.1, hall.2.1⟩
  | some g =>
      obtain ⟨⟨hfirst, hsum⟩, hg⟩ := globalPin_eq_some_iff.mp hglobal
      dsimp only [Option.bind_some]
      by_cases hmax : cfg.maxPins ≤ g
      · rw [if_pos hmax]
        exact iff_of_true (addressed_refuse port pin) ⟨hfirst, hsum, .inl (hg ▸ hmax)⟩
      rw [if_neg hmax]
      have hpin (hrange : 0 ≤ port ∧ port < cfg.maxPorts) :
          Addressed cfg port pin (t.ocreGpioRegisterCallback cfg r g) ↔
            (g < cfg.maxPins → 0 ≤ g ∧ (t.reaches .registerCallback r g = true →
              0 ≤ pin ∧ pin < cfg.pinsPerPort)) := by
        apply h.addressed_withPin_iff .registerCallback ?_ ?_ hrange.1 hrange.2 hg
        · intro gpio haccepts
          obtain ⟨hdirection, hcb⟩ := Bool.and_eq_true_iff.mp haccepts
          obtain ⟨cb, hcb⟩ := Option.isSome_iff_exists.mp hcb
          refine ⟨hdirection, ?_⟩
          rw [hcb]
          dsimp only
          split_ifs <;> exact ⟨by simp, by simp⟩
        · intro gpio haccepts hadmits
          have hcb : gpio.cb.or r.calloc = none := by
            simpa [GpioNative.accepts, hadmits] using haccepts
          rw [hcb]
          exact ⟨by simp, rfl⟩
      by_cases hrange : 0 ≤ port ∧ port < cfg.maxPorts
      · obtain ⟨ready, hready⟩ := h.exists_ready hrange.1 hrange.2
        have hfits : cIntFits g = true := hg ▸ hsum
        simp only [hready, Option.bind_some, hfirst, hrange, hg, hfits, hmax, true_and, false_or,
          PinConforms, isReady_eq hready]
        cases ready with
        | false => simp [addressed_refuse]
        | true => simpa using hpin hrange
      · simp only [h.elementAt_portReady_of_not hrange, Option.bind_none]
        refine iff_of_false not_addressed_none ?_
        rintro ⟨-, -, hlarge | ⟨hport, hlt, -⟩⟩
        · exact hmax (hg ▸ hlarge)
        · exact hrange ⟨hport, hlt⟩

theorem globalPin_of_ports (hports : cfg.maxPorts ≤ 16) (hpins : cfg.pinsPerPort ≤ 64)
    (hport : 0 ≤ port) (hlt : port < cfg.maxPorts) (hfit : -2147483648 ≤ pin) (hpin : pin ≤ 256) :
    globalPin cfg port pin = some (port * cfg.pinsPerPort + pin) := by
  have hle : port * cfg.pinsPerPort ≤ 16 * 64 :=
    Int.mul_le_mul (by omega) (by omega) (by omega) (by omega)
  have hpos : 0 ≤ port * cfg.pinsPerPort := Int.mul_nonneg hport (by omega)
  rw [globalPin_eq_some_iff]
  refine ⟨⟨?_, ?_⟩, rfl⟩ <;> simp only [cIntFits, decide_eq_true_eq] <;> omega

/-- Once its own checks are passed, `ocre_gpio_configure` has called the driver, for the pin
cut to 8 bits. -/
theorem Placed.driver_ocreGpioConfigure (h : t.Placed cfg) (hports : cfg.maxPorts ≤ 16)
    (hpins : cfg.pinsPerPort ≤ 64) (hport : 0 ≤ port) (hlt : port < cfg.maxPorts)
    (hpin : pin < cfg.pinsPerPort) (hready : elementAt t.portReady port = some true)
    (module : Option ℕ) (direction : Int) :
    ∃ x flags, t.ocreGpioConfigure cfg r module port pin direction = some x ∧
      x.driver = [⟨.configure flags, port.toNat, (pin % 256).toNat⟩] := by
  have hinit : t.initialized = true := by
    lift port to ℕ using hport
    exact h.initialized port (elementAt_natCast _ _ ▸ hready)
  have hglobal : globalPin cfg port (pin % 256).toNat =
      some (port * cfg.pinsPerPort + (pin % 256).toNat) :=
    globalPin_of_ports hports hpins hport hlt (by omega) (by omega)
  unfold ocreGpioConfigure
  have hpass : ¬ (¬ t.initialized = true ∨ pin ≥ cfg.pinsPerPort ∨ port ≥ cfg.maxPorts) := by
    rintro (hnot | hlarge | hlarge)
    · exact hnot hinit
    · exact absurd hlarge (Int.not_le.mpr hpin)
    · exact absurd hlarge (Int.not_le.mpr hlt)
  rw [if_neg hpass, hready]
  dsimp only [Option.bind_some]
  rw [if_neg (by simp)]
  by_cases hrc : r.configure ≠ 0
  · rw [if_pos hrc]
    exact ⟨_, _, rfl, rfl⟩
  rw [if_neg hrc]
  cases module with
  | none => exact ⟨_, _, rfl, rfl⟩
  | some module =>
      dsimp only
      rw [hglobal]
      dsimp only [Option.map_some]
      split_ifs <;> exact ⟨_, _, rfl, rfl⟩

/-- A pin in range passes the checks of `ocre_gpio_configure` that those of the native
function leave, and the driver is called for it. -/
theorem Placed.addressed_configure_iff (h : t.Placed cfg) (hports : cfg.maxPorts ≤ 16)
    (hpins : cfg.pinsPerPort ≤ 64) (hfit : cIntFits pin = true) (module : Option ℕ)
    (direction : Int) :
    Addressed cfg port pin (t.ocreGpioWasmConfigure cfg r module port pin direction) ↔
      Conforms cfg (.configure module direction) r t port pin := by
  unfold ocreGpioWasmConfigure Conforms
  cases module with
  | none => exact iff_of_true (addressed_refuse port pin) (.inl rfl)
  | some module =>
      dsimp only
      by_cases hcheck : port ≥ cfg.maxPorts ∨ pin ≥ cfg.pinsPerPort
      · rw [if_pos hcheck]
        exact iff_of_true (addressed_refuse port pin) (.inr (or_assoc.mp (.inl hcheck)))
      obtain ⟨hlt, hpinLt⟩ := not_or.mp hcheck
      rw [if_neg hcheck]
      by_cases hneg : port < 0
      · rw [elementAt_of_neg _ hneg]
        refine iff_of_false not_addressed_none ?_
        rintro (hnone | hport | hpin | ⟨hport, -⟩)
        · cases hnone
        · exact hlt hport
        · exact hpinLt hpin
        · exact absurd hport (Int.not_le.mpr hneg)
      have hport : 0 ≤ port := Int.not_lt.mp hneg
      obtain ⟨ready, hready⟩ := h.exists_ready hport (Int.not_le.mp hlt)
      simp only [hready, Option.bind_some, isReady_eq hready]
      cases ready with
      | false => exact iff_of_true (addressed_refuse port pin) (.inr (.inr (.inr ⟨hport, by simp⟩)))
      | true =>
          rw [if_neg (by simp)]
          have hbounds : -2147483648 ≤ pin ∧ pin ≤ 2147483647 := by simpa [cIntFits] using hfit
          rw [globalPin_of_ports hports hpins hport (Int.not_le.mp hlt) hbounds.1 (by omega)]
          dsimp only [Option.bind_some]
          by_cases hmax : port * cfg.pinsPerPort + pin ≥ cfg.maxPins
          · rw [if_pos hmax]
            exact iff_of_true (addressed_refuse port pin)
              (.inr (.inr (.inr ⟨hport, fun _ hg ↦ absurd hmax (Int.not_le.mpr hg)⟩)))
          rw [if_neg hmax]
          obtain ⟨x, flags, hx, hdriver⟩ := h.driver_ocreGpioConfigure (r := r) hports hpins hport
            (Int.not_le.mp hlt) (Int.not_le.mp hpinLt) hready (some module) direction
          rw [hx]
          constructor
          · rintro ⟨y, hy, hcase⟩
            obtain rfl := Option.some.inj hy
            refine .inr (.inr (.inr ⟨hport, fun _ _ ↦ ?_⟩))
            rcases hcase with ⟨-, hnil⟩ | ⟨-, -, hpin, -⟩
            · simp [hdriver] at hnil
            · exact hpin
          · intro hconforms
            have hpin : 0 ≤ pin := by
              rcases hconforms with hnone | hlarge | hlarge | ⟨-, hpin⟩
              · cases hnone
              · exact absurd hlarge hlt
              · exact absurd hlarge hpinLt
              · exact hpin rfl (Int.not_le.mp hmax)
            refine ⟨x, rfl, .inr ⟨hport, Int.not_le.mp hlt, hpin, Int.not_le.mp hpinLt, ?_, ?_⟩⟩
            · simp [hdriver]
            · rw [hdriver]
              intro call hcall
              obtain rfl := List.mem_singleton.mp hcall
              dsimp only
              omega

theorem Placed.addressed_wasmCall_iff (h : t.Placed cfg) (hports : cfg.maxPorts ≤ 16)
    (hpins : cfg.pinsPerPort ≤ 64) (hfit : cIntFits pin = true) (native : GpioNative) :
    Addressed cfg port pin (t.wasmCall cfg native port pin r) ↔
      Conforms cfg native r t port pin := by
  cases native with
  | configure module direction => exact h.addressed_configure_iff hports hpins hfit module direction
  | set state => exact h.addressed_set_iff state
  | get => exact h.addressed_get_iff
  | toggle => exact h.addressed_toggle_iff
  | registerCallback => exact h.addressed_registerCallback_iff
  | unregisterCallback => exact h.addressed_unregisterCallback_iff

section Preservation

theorem placed_static (cfg : GpioConfig) : (static cfg).Placed cfg where
  portReady := List.length_replicate
  gpioPins := List.length_replicate
  initialized p hp := by simp [static, List.getElem?_replicate] at hp
  record i gpio hgpio huse := by
    simp only [static, List.getElem?_replicate, Option.ite_none_right_eq_some] at hgpio
    obtain rfl := Option.some.inj hgpio.2
    cases huse

theorem Placed.ocreGpioInit (h : t.Placed cfg) {ready : List Bool}
    (hready : ready.length = cfg.maxPorts) : (t.ocreGpioInit ready).2.Placed cfg := by
  unfold GpioTable.ocreGpioInit
  split_ifs with hinit hany
  · exact h
  · exact ⟨hready, h.gpioPins, fun _ _ ↦ rfl, h.record⟩
  · refine ⟨hready, h.gpioPins, fun p hp ↦ ?_, h.record⟩
    have hmem : true ∈ ready := List.mem_of_getElem? hp
    exact absurd (List.any_eq_true.mpr ⟨true, hmem, rfl⟩) hany

theorem Placed.setPin (h : t.Placed cfg) {i : ℕ} {gpio : GpioPinOcre}
    (hgpio : gpio.inUse = true → gpio.portIdx < cfg.maxPorts ∧
      gpio.pinNumber < cfg.pinsPerPort ∧ gpio.portIdx * cfg.pinsPerPort + gpio.pinNumber = i) :
    (t.setPin i gpio).Placed cfg where
  portReady := h.portReady
  gpioPins := by rw [GpioTable.setPin, List.length_set, h.gpioPins]
  initialized := h.initialized
  record j old hold huse := by
    simp only [GpioTable.setPin, Int.toNat_natCast, List.getElem?_set] at hold
    split_ifs at hold with hij hlt
    · obtain rfl := Option.some.inj hold
      exact hij ▸ hgpio huse
    · exact h.record j old hold huse

theorem Placed.setPin_cb (h : t.Placed cfg) {gpio : GpioPinOcre}
    (hgpio : elementAt t.gpioPins g = some gpio) (huse : gpio.inUse = true) (cb : Option ℕ) :
    (t.setPin g { gpio with cb := cb }).Placed cfg := by
  by_cases hneg : g < 0
  · simp [elementAt_of_neg _ hneg] at hgpio
  · lift g to ℕ using Int.not_lt.mp hneg
    apply h.setPin
    intro _
    exact h.record g gpio (elementAt_natCast _ _ ▸ hgpio) huse

theorem Placed.table_withPin (h : t.Placed cfg) {admits : GpioPinOcre → Bool}
    {k : GpioPinOcre → GpioReturn} {x : GpioReturn} (hx : t.withPin cfg g admits k = some x)
    (hk : ∀ gpio, elementAt t.gpioPins g = some gpio → gpio.inUse = true →
      (k gpio).table.Placed cfg) : x.table.Placed cfg := by
  unfold withPin at hx
  split_ifs at hx
  · obtain rfl := Option.some.inj hx
    exact h
  obtain ⟨gpio, hgpio, hx⟩ := Option.bind_eq_some_iff.mp hx
  split_ifs at hx with hcheck
  · obtain rfl := Option.some.inj hx
    exact h
  obtain ⟨ready, -, rfl⟩ := Option.map_eq_some_iff.mp hx
  have huse : gpio.inUse = true := not_not.mp (not_or.mp hcheck).1
  cases ready with
  | false => exact h
  | true => exact hk gpio hgpio huse

theorem Placed.table_ocreGpioPinSet (h : t.Placed cfg) {state : Int} {x : GpioReturn}
    (hx : t.ocreGpioPinSet cfg r g state = some x) : x.table.Placed cfg :=
  h.table_withPin hx fun _ _ _ ↦ h

theorem Placed.table_ocreGpioPinGet (h : t.Placed cfg) {x : GpioReturn}
    (hx : t.ocreGpioPinGet cfg r g = some x) : x.table.Placed cfg :=
  h.table_withPin hx fun _ _ _ ↦ h

theorem Placed.table_ocreGpioPinToggle (h : t.Placed cfg) {x : GpioReturn}
    (hx : t.ocreGpioPinToggle cfg r g = some x) : x.table.Placed cfg :=
  h.table_withPin hx fun _ _ _ ↦ h

theorem Placed.table_ocreGpioRegisterCallback (h : t.Placed cfg) {x : GpioReturn}
    (hx : t.ocreGpioRegisterCallback cfg r g = some x) : x.table.Placed cfg := by
  apply h.table_withPin hx
  intro gpio hgpio huse
  dsimp only
  split
  · exact h
  · split_ifs <;> exact h.setPin_cb hgpio huse _

theorem Placed.table_ocreGpioUnregisterCallback (h : t.Placed cfg) {x : GpioReturn}
    (hx : t.ocreGpioUnregisterCallback cfg r g = some x) : x.table.Placed cfg := by
  apply h.table_withPin hx
  intro gpio hgpio huse
  dsimp only
  split_ifs
  · exact h
  · exact h.setPin_cb hgpio huse _

/-- The pin of the record is the one of the argument if that is not negative. -/
theorem Placed.table_ocreGpioConfigure (h : t.Placed cfg) (hports : cfg.maxPorts ≤ 16)
    (hpins : cfg.pinsPerPort ≤ 64) {module : Option ℕ} {direction : Int} {x : GpioReturn}
    (hpin : 0 ≤ pin) (hx : t.ocreGpioConfigure cfg r module port pin direction = some x) :
    x.table.Placed cfg := by
  unfold ocreGpioConfigure at hx
  split at hx
  · obtain ⟨_, -, rfl⟩ := Option.map_eq_some_iff.mp hx
    exact h
  rename_i hcheck
  obtain ⟨ready, hready, hx⟩ := Option.bind_eq_some_iff.mp hx
  obtain ⟨-, hpinLt, hportLt⟩ := (not_or.mp hcheck).imp_right not_or.mp
  by_cases hset : ready = true
  swap
  · rw [if_pos hset] at hx
    obtain rfl := Option.some.inj hx
    exact h
  rw [if_neg (not_not.mpr hset)] at hx
  by_cases hrc : r.configure ≠ 0
  · rw [if_pos hrc] at hx
    obtain rfl := Option.some.inj hx
    exact h
  rw [if_neg hrc] at hx
  cases module with
  | none =>
      obtain rfl := Option.some.inj hx
      exact h
  | some module =>
      obtain ⟨g, hg, rfl⟩ := Option.map_eq_some_iff.mp hx
      obtain ⟨-, hg⟩ := globalPin_eq_some_iff.mp hg
      by_cases hmax : g ≥ cfg.maxPins
      · rw [if_pos hmax]
        exact h
      rw [if_neg hmax]
      by_cases hneg : port < 0
      · simp [elementAt_of_neg _ hneg] at hready
      lift port to ℕ using Int.not_lt.mp hneg
      lift pin to ℕ using hpin
      have hflat : g = ((port * cfg.pinsPerPort + pin : ℕ) : Int) := by
        rw [← hg]
        push_cast
        omega
      rw [hflat]
      apply h.setPin
      intro _
      dsimp only [Int.toNat_natCast]
      refine ⟨by omega, by omega, ?_⟩
      congr 1
      · rw [Nat.mod_eq_of_lt (by omega)]
      · omega

theorem Placed.table_wasmPin (h : t.Placed cfg) {k : Int → Option GpioReturn} {x : GpioReturn}
    (hx : t.wasmPin cfg port pin k = some x)
    (hk : ∀ {g : Int} {x : GpioReturn}, k g = some x → x.table.Placed cfg) :
    x.table.Placed cfg := by
  obtain ⟨g, -, hx⟩ := Option.bind_eq_some_iff.mp hx
  obtain ⟨ready, -, hx⟩ := Option.bind_eq_some_iff.mp hx
  cases ready with
  | false =>
      obtain rfl := Option.some.inj hx
      exact h
  | true => exact hk hx

theorem Placed.table_ocreGpioWasmRegisterCallback (h : t.Placed cfg) {x : GpioReturn}
    (hx : t.ocreGpioWasmRegisterCallback cfg r port pin = some x) : x.table.Placed cfg := by
  obtain ⟨g, -, hx⟩ := Option.bind_eq_some_iff.mp hx
  split_ifs at hx
  · obtain rfl := Option.some.inj hx
    exact h
  obtain ⟨ready, -, hx⟩ := Option.bind_eq_some_iff.mp hx
  cases ready with
  | false =>
      obtain rfl := Option.some.inj hx
      exact h
  | true => exact h.table_ocreGpioRegisterCallback hx

theorem Placed.table_ocreGpioWasmConfigure (h : t.Placed cfg) (hports : cfg.maxPorts ≤ 16)
    (hpins : cfg.pinsPerPort ≤ 64) {module : Option ℕ} {direction : Int} {x : GpioReturn}
    (hconforms : Conforms cfg (.configure module direction) r t port pin)
    (hx : t.ocreGpioWasmConfigure cfg r module port pin direction = some x) :
    x.table.Placed cfg := by
  cases module with
  | none =>
      obtain rfl := Option.some.inj hx
      exact h
  | some module =>
      dsimp only [ocreGpioWasmConfigure] at hx
      split_ifs at hx with hcheck
      · obtain rfl := Option.some.inj hx
        exact h
      obtain ⟨ready, hready, hx⟩ := Option.bind_eq_some_iff.mp hx
      by_cases hset : ready = true
      swap
      · rw [if_pos hset] at hx
        obtain rfl := Option.some.inj hx
        exact h
      rw [if_neg (not_not.mpr hset)] at hx
      obtain ⟨g, hg, hx⟩ := Option.bind_eq_some_iff.mp hx
      obtain ⟨-, hg⟩ := globalPin_eq_some_iff.mp hg
      split_ifs at hx with hmax
      · obtain rfl := Option.some.inj hx
        exact h
      refine h.table_ocreGpioConfigure hports hpins ?_ hx
      rcases hconforms with hnone | hlarge | hlarge | ⟨-, hpin⟩
      · cases hnone
      · exact absurd (.inl hlarge) hcheck
      · exact absurd (.inr hlarge) hcheck
      · apply hpin
        · exact (isReady_eq hready).trans hset
        · exact hg ▸ Int.not_le.mp hmax

/-- A call that meets the condition leaves every record in its place; only a configuration
needs it. -/
theorem Placed.table_wasmCall (h : t.Placed cfg) (hports : cfg.maxPorts ≤ 16)
    (hpins : cfg.pinsPerPort ≤ 64) {native : GpioNative} {x : GpioReturn}
    (hconforms : Conforms cfg native r t port pin)
    (hx : t.wasmCall cfg native port pin r = some x) : x.table.Placed cfg := by
  cases native with
  | configure module direction => exact h.table_ocreGpioWasmConfigure hports hpins hconforms hx
  | set state => exact h.table_wasmPin hx h.table_ocreGpioPinSet
  | get => exact h.table_wasmPin hx h.table_ocreGpioPinGet
  | toggle => exact h.table_wasmPin hx h.table_ocreGpioPinToggle
  | registerCallback => exact h.table_ocreGpioWasmRegisterCallback hx
  | unregisterCallback => exact h.table_wasmPin hx h.table_ocreGpioUnregisterCallback

theorem Placed.table_byNameCall (h : t.Placed cfg) (hports : cfg.maxPorts ≤ 16)
    (hpins : cfg.pinsPerPort ≤ 64) {native : GpioNative} {port pin : ℕ} {x : GpioReturn}
    (hx : t.byNameCall cfg native port pin r = some x) : x.table.Placed cfg := by
  cases native with
  | configure module direction =>
      dsimp only [byNameCall] at hx
      split_ifs at hx
      · obtain rfl := Option.some.inj hx
        exact h
      · exact h.table_ocreGpioConfigure hports hpins (Int.natCast_nonneg pin) hx
  | set state =>
      obtain ⟨g, -, hx⟩ := Option.bind_eq_some_iff.mp hx
      exact h.table_ocreGpioPinSet hx
  | get =>
      obtain ⟨g, -, hx⟩ := Option.bind_eq_some_iff.mp hx
      exact h.table_ocreGpioPinGet hx
  | toggle =>
      obtain ⟨g, -, hx⟩ := Option.bind_eq_some_iff.mp hx
      exact h.table_ocreGpioPinToggle hx
  | registerCallback =>
      obtain ⟨g, -, hx⟩ := Option.bind_eq_some_iff.mp hx
      split_ifs at hx
      · obtain rfl := Option.some.inj hx
        exact h
      · exact h.table_ocreGpioRegisterCallback hx
  | unregisterCallback =>
      obtain ⟨g, -, hx⟩ := Option.bind_eq_some_iff.mp hx
      exact h.table_ocreGpioUnregisterCallback hx

/-- The clean-up leaves a pin, or unregisters its callback and releases it. -/
theorem cleanupPin_cases {module i : ℕ} {t' : GpioTable}
    (ht' : t.cleanupPin cfg r module i = some t') : t' = t ∨
      ∃ (u : GpioTable) (gpio : GpioPinOcre),
        (u = t ∨ ∃ x, t.ocreGpioUnregisterCallback cfg r i = some x ∧ x.table = u) ∧
          t' = u.setPin i { gpio with inUse := false, owner := none } := by
  obtain ⟨gpio, -, ht'⟩ := Option.bind_eq_some_iff.mp ht'
  by_cases hown : gpio.inUse ∧ gpio.owner = some module
  · rw [if_pos hown] at ht'
    obtain ⟨u, hu, ht'⟩ := Option.bind_eq_some_iff.mp ht'
    obtain ⟨gpio', -, rfl⟩ := Option.map_eq_some_iff.mp ht'
    refine .inr ⟨u, gpio', ?_, rfl⟩
    split_ifs at hu
    · exact .inl (Option.some.inj hu).symm
    · exact .inr (Option.map_eq_some_iff.mp hu)
  · rw [if_neg hown] at ht'
    exact .inl (Option.some.inj ht').symm

/-- What the clean-up of each pin keeps, the clean-up of a container keeps. -/
theorem ocreGpioCleanupContainer_keeps {P : GpioTable → Prop}
    (hstep : ∀ t r module i t', P t → t.cleanupPin cfg r module i = some t' → P t')
    (h : P t) {results : ℕ → DriverResults} {module : Option ℕ} {t' : GpioTable}
    (ht' : t.ocreGpioCleanupContainer cfg results module = some t') : P t' := by
  cases module with
  | none =>
      obtain rfl := Option.some.inj ht'
      exact h
  | some module =>
      dsimp only [GpioTable.ocreGpioCleanupContainer] at ht'
      by_cases hinit : t.initialized = true
      · rw [if_neg (not_not.mpr hinit)] at ht'
        exact OptionLoop.invariant (fun t i t' ↦ hstep t (results i) module i t') h ht'
      · rw [if_pos hinit] at ht'
        obtain rfl := Option.some.inj ht'
        exact h

theorem Placed.cleanupPin (h : t.Placed cfg) {module i : ℕ} {t' : GpioTable}
    (ht' : t.cleanupPin cfg r module i = some t') : t'.Placed cfg := by
  rcases cleanupPin_cases ht' with rfl | ⟨u, gpio, hu, rfl⟩
  · exact h
  have hplaced : u.Placed cfg := by
    rcases hu with rfl | ⟨x, hx, rfl⟩
    · exact h
    · exact h.table_ocreGpioUnregisterCallback hx
  apply hplaced.setPin
  intro huse
  cases huse

theorem Placed.ocreGpioCleanupContainer (h : t.Placed cfg) {results : ℕ → DriverResults}
    {module : Option ℕ} {t' : GpioTable}
    (ht' : t.ocreGpioCleanupContainer cfg results module = some t') : t'.Placed cfg :=
  ocreGpioCleanupContainer_keeps (fun _ _ _ _ _ h ht' ↦ h.cleanupPin ht') h ht'

end Preservation

/-- A native call with a port and a pin is addressed. -/
def CallAddressed (cfg : GpioConfig) (a : GpioAct) (s : Option GpioTable) : Prop :=
  match a with
  | .wasm native port pin r => ∀ t ∈ s, Addressed cfg port pin (t.wasmCall cfg native port pin r)
  | _ => True

def CallConforms (cfg : GpioConfig) (a : GpioAct) (s : Option GpioTable) : Prop :=
  match a with
  | .wasm native port pin r => ∀ t ∈ s, Conforms cfg native r t port pin
  | _ => True

instance (a : GpioAct) (s : Option GpioTable) : Decidable (CallConforms cfg a s) :=
  match a, s with
  | .wasm native port pin r, some t =>
      decidable_of_iff (Conforms cfg native r t port pin) (by simp [CallConforms])
  | .wasm .., none => .isTrue (by simp [CallConforms])
  | .init _, _ | .byName .., _ | .cleanup .., _ => .isTrue trivial

variable {s s' : Option GpioTable} {a : GpioAct}

theorem placed_of_reachableWhere (hports : cfg.maxPorts ≤ 16) (hpins : cfg.pinsPerPort ≤ 64)
    (hs : (gpioSystem cfg).ReachableWhere (CallConforms cfg) s) : ∀ t ∈ s, t.Placed cfg := by
  induction hs with
  | start hinit =>
      intro t ht
      obtain rfl := Option.some.inj (hinit.symm.trans ht)
      exact placed_static cfg
  | step a _ ha hnext ih =>
      obtain ⟨t, rfl, henables, rfl⟩ := StepSystem.eq_some_of_enabled hnext
      have h : t.Placed cfg := ih t rfl
      intro t' ht'
      cases a with
      | init ready =>
          obtain rfl := Option.some.inj ht'
          exact h.ocreGpioInit (of_decide_eq_true henables)
      | wasm native port pin r =>
          obtain ⟨x, hx, rfl⟩ := Option.map_eq_some_iff.mp ht'
          exact h.table_wasmCall hports hpins (ha t rfl) hx
      | byName native port pin r =>
          obtain ⟨x, hx, rfl⟩ := Option.map_eq_some_iff.mp ht'
          exact h.table_byNameCall hports hpins hx
      | cleanup module results => exact h.ocreGpioCleanupContainer ht'

/-- A run from the start has every native call addressed if and only if every native call
meets the condition. -/
theorem runKeeps_callAddressed_iff (hports : cfg.maxPorts ≤ 16) (hpins : cfg.pinsPerPort ≤ 64)
    {as : List GpioAct} (hrun : (gpioSystem cfg).run (some (static cfg)) as = some s) :
    (gpioSystem cfg).RunKeeps (fun a s _ ↦ CallAddressed cfg a s) (some (static cfg)) as ↔
      (gpioSystem cfg).RunMeets (CallConforms cfg) (some (static cfg)) as := by
  refine StepSystem.ReachableWhere.runKeeps_iff_runMeets ?_ (.start rfl) hrun
  intro a s s' hs hnext
  obtain ⟨t, rfl, henables, rfl⟩ := StepSystem.eq_some_of_enabled hnext
  have h : t.Placed cfg := placed_of_reachableWhere hports hpins hs t rfl
  cases a with
  | wasm native port pin r =>
      have hfit : cIntFits pin = true := (of_decide_eq_true henables).2
      simp only [CallAddressed, CallConforms, Option.mem_def, Option.some.injEq, forall_eq']
      exact h.addressed_wasmCall_iff hports hpins hfit native
  | _ => exact Iff.rfl

/-- The configuration that the header falls back on. -/
def defaultConfig : GpioConfig := ⟨32, 8, 16⟩

/-- Two ports are ready; pins are configured and used, and wrong pins are refused. -/
theorem runKeeps_callAddressed_of_two_ports :
    (gpioSystem defaultConfig).RunKeeps (fun a s _ ↦ CallAddressed defaultConfig a s)
      (some (static defaultConfig))
      [.init [true, true, false, false, false, false, false, false],
        .wasm (.configure (some 7) 1) 1 5 { calloc := none },
        .wasm (.set 1) 1 5 { calloc := none },
        .wasm (.configure (some 7) 0) 0 3 { calloc := none },
        .wasm .registerCallback 0 3 { calloc := some 1 },
        .wasm .toggle 1 40 { calloc := none },
        .wasm .unregisterCallback 2 0 { calloc := none }] := by
  exact (runKeeps_callAddressed_iff (by decide) (by decide) rfl).mpr (by decide)

/-- A negative port is used as an index. -/
theorem not_runKeeps_callAddressed_of_negative_port :
    ¬ ∀ as s, (gpioSystem defaultConfig).run (some (static defaultConfig)) as = some s →
      (gpioSystem defaultConfig).RunKeeps (fun a s _ ↦ CallAddressed defaultConfig a s)
        (some (static defaultConfig)) as := by
  intro h
  have hkeeps := h [.init [true, true, false, false, false, false, false, false],
    .wasm .get (-1) 0 { calloc := none }] _ rfl
  exact not_addressed_none ((((hkeeps _ rfl).2 _ rfl).1 _ rfl))

end GpioTable

end OcreRuntime
