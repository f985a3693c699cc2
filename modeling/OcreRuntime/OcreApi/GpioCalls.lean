import OcreRuntime.OcreApi.GpioAddressing

/-!
# What a native GPIO function comes to

A native function is told its pin by a port and a number, or by a name that stands for
them. A call that is defined is refused, or it comes to the driver, for the pin of one
record or for the pin that it configures. The other records stay as they are.
-/

namespace OcreRuntime

/-- How a native function is told its pin. -/
inductive GpioRoute
  | number (port pin : Int)
  | name (port pin : ℕ)
  deriving DecidableEq

namespace GpioRoute

def port : GpioRoute → Int
  | number port _ => port
  | name port _ => port

def pin : GpioRoute → Int
  | number _ pin => pin
  | name _ pin => pin

/-- The pin as a `gpio_pin_t`, which a configuration makes of it. -/
def pin8 (route : GpioRoute) : ℕ := (route.pin % 256).toNat

def index (cfg : GpioConfig) (route : GpioRoute) : Int :=
  route.port * cfg.pinsPerPort + route.pin

/-- The index that a configuration writes to. -/
def index8 (cfg : GpioConfig) (route : GpioRoute) : Int :=
  route.port * cfg.pinsPerPort + route.pin8

theorem index8_nonneg (cfg : GpioConfig) {route : GpioRoute} (h : 0 ≤ route.port) :
    0 ≤ route.index8 cfg :=
  Int.add_nonneg (Int.mul_nonneg h (Int.natCast_nonneg _)) (Int.natCast_nonneg _)

def act (native : GpioNative) (r : DriverResults) : GpioRoute → GpioAct
  | number port pin => .wasm native port pin r
  | name port pin => .byName native port pin r

end GpioRoute

/-- The flags of a direction, of which the driver knows two. -/
def GpioFlags.ofDirection (direction : Int) : GpioFlags :=
  if direction = 0 then .inputPullUp else .output

/-- The pin of a port that a record is for. -/
def GpioPinOcre.position (gpio : GpioPinOcre) : ℕ × ℕ := (gpio.portIdx, gpio.pinNumber)

/-- The index of the record that a call may change. -/
def GpioRoute.written (cfg : GpioConfig) (native : GpioNative) (route : GpioRoute) : Int :=
  match native with
  | .configure .. => route.index8 cfg
  | _ => route.index cfg

namespace GpioTable

variable {cfg : GpioConfig} {t : GpioTable} {r : DriverResults} {native : GpioNative}
  {route : GpioRoute} {g : Int} {x : GpioReturn}

/-- A call of a native function. -/
def nativeCall (cfg : GpioConfig) (native : GpioNative) (r : DriverResults) (t : GpioTable) :
    GpioRoute → Option GpioReturn
  | .number port pin => t.wasmCall cfg native port pin r
  | .name port pin => t.byNameCall cfg native port pin r

/-- The sizes of the arrays, and that a port is ready when it has a pin in use. -/
structure Sound (cfg : GpioConfig) (t : GpioTable) : Prop where
  portReady : t.portReady.length = cfg.maxPorts
  gpioPins : t.gpioPins.length = cfg.maxPins
  initialized : ∀ p : ℕ, t.portReady[p]? = some true → t.initialized = true
  ready : ∀ (i : ℕ) (gpio : GpioPinOcre), t.gpioPins[i]? = some gpio → gpio.inUse = true →
    t.portReady[gpio.portIdx]? = some true

/-- No array is read outside and no `int` overflows. -/
def Defined (cfg : GpioConfig) (native : GpioNative) (t : GpioTable) : GpioRoute → Prop
  | .name _ _ => True
  | .number port pin =>
      let g := port * cfg.pinsPerPort + pin
      match native with
      | .configure module _ =>
          module = none ∨ cfg.maxPorts ≤ port ∨ cfg.pinsPerPort ≤ pin ∨ 0 ≤ port
      | .registerCallback =>
          cIntFits (port * cfg.pinsPerPort) ∧ cIntFits g ∧
            (cfg.maxPins ≤ g ∨ (0 ≤ port ∧ port < cfg.maxPorts ∧ (t.isReady port → 0 ≤ g)))
      | .set _ | .get | .toggle | .unregisterCallback =>
          cIntFits (port * cfg.pinsPerPort) ∧ cIntFits g ∧
            0 ≤ port ∧ port < cfg.maxPorts ∧ (t.isReady port → g < cfg.maxPins → 0 ≤ g)

instance : Decidable (Defined cfg native t route) :=
  match route, native with
  | .name _ _, _ => .isTrue trivial
  | .number _ _, .configure _ _ => inferInstanceAs (Decidable (_ ∨ _ ≤ _ ∨ _ ≤ _ ∨ _ ≤ _))
  | .number _ _, .registerCallback =>
      inferInstanceAs (Decidable (_ = true ∧ _ = true ∧ (_ ≤ _ ∨ (_ ≤ _ ∧ _ < _ ∧ (_ → _ ≤ _)))))
  | .number _ _, .set _ | .number _ _, .get | .number _ _, .toggle
  | .number _ _, .unregisterCallback =>
      inferInstanceAs (Decidable (_ = true ∧ _ = true ∧ _ ≤ _ ∧ _ < _ ∧ (_ → _ < _ → _ ≤ _)))

/-- The function on the record at an index that a native function ends with. -/
def atPin (cfg : GpioConfig) (native : GpioNative) (r : DriverResults) (t : GpioTable)
    (g : Int) : Option GpioReturn :=
  match native with
  | .configure .. => some t.refuse
  | .set state => t.ocreGpioPinSet cfg r g (if state ≠ 0 then 1 else 0)
  | .get => t.ocreGpioPinGet cfg r g
  | .toggle => t.ocreGpioPinToggle cfg r g
  | .registerCallback => t.ocreGpioRegisterCallback cfg r g
  | .unregisterCallback => t.ocreGpioUnregisterCallback cfg r g

/-- The record at an index, if it is in use and admitted. -/
def found (t : GpioTable) (g : Int) (admits : GpioPinOcre → Bool) : Option GpioPinOcre :=
  (elementAt t.gpioPins g).filter fun gpio ↦ gpio.inUse && admits gpio

/-- A configuration passes all checks before the driver. -/
def configures (cfg : GpioConfig) (t : GpioTable) (route : GpioRoute) : Bool :=
  t.isReady route.port && decide (route.pin < cfg.pinsPerPort) &&
    match route with
    | .number _ _ => decide (route.index cfg < cfg.maxPins)
    | .name _ _ => true

/-- The pin for which a call comes to the driver. -/
def driven (cfg : GpioConfig) (native : GpioNative) (r : DriverResults) (t : GpioTable)
    (route : GpioRoute) : Option (ℕ × ℕ) :=
  match native with
  | .configure module _ =>
      if module.isSome && t.configures cfg route then some (route.port.toNat, route.pin8) else none
  | native =>
      if t.isReady route.port then
        (t.found (route.index cfg) (native.accepts r)).map GpioPinOcre.position
      else none

/-- What a configuration does then. -/
def configured (cfg : GpioConfig) (r : DriverResults) (t : GpioTable) (module : ℕ)
    (direction : Int) (route : GpioRoute) : GpioReturn :=
  let driver := [⟨.configure (.ofDirection direction), route.port.toNat, route.pin8⟩]
  if r.configure ≠ 0 then ⟨r.configure, driver, t⟩
  else if route.index8 cfg ≥ cfg.maxPins then ⟨-22, driver, t⟩
  else ⟨0, driver, t.setPin (route.index8 cfg) {
    inUse := true
    direction := direction = 1
    pinNumber := route.pin8 % 64
    portIdx := route.port.toNat % 16
    cb := none
    owner := some module }⟩

theorem configures_number {port pin : Int} : t.configures cfg (.number port pin) = true ↔
    t.isReady port = true ∧ pin < cfg.pinsPerPort ∧
      port * cfg.pinsPerPort + pin < cfg.maxPins := by
  constructor
  · intro h
    obtain ⟨hboth, hmax⟩ := Bool.and_eq_true_iff.mp h
    obtain ⟨hready, hpin⟩ := Bool.and_eq_true_iff.mp hboth
    exact ⟨hready, of_decide_eq_true hpin, of_decide_eq_true hmax⟩
  · rintro ⟨hready, hpin, hmax⟩
    refine Bool.and_eq_true_iff.mpr ⟨?_, decide_eq_true hmax⟩
    exact Bool.and_eq_true_iff.mpr ⟨hready, decide_eq_true hpin⟩

theorem configures_name {port pin : ℕ} : t.configures cfg (.name port pin) = true ↔
    t.isReady port = true ∧ (pin : Int) < cfg.pinsPerPort := by
  constructor
  · intro h
    obtain ⟨hready, hpin⟩ := Bool.and_eq_true_iff.mp (Bool.and_eq_true_iff.mp h).1
    exact ⟨hready, of_decide_eq_true hpin⟩
  · rintro ⟨hready, hpin⟩
    refine Bool.and_eq_true_iff.mpr ⟨?_, rfl⟩
    exact Bool.and_eq_true_iff.mpr ⟨hready, decide_eq_true hpin⟩

theorem isReady_of_configures (h : t.configures cfg route = true) :
    t.isReady route.port = true :=
  (Bool.and_eq_true_iff.mp (Bool.and_eq_true_iff.mp h).1).1

theorem isReady_iff {port : Int} :
    t.isReady port = true ↔ ∃ p : ℕ, port = p ∧ t.portReady[p]? = some true := by
  rw [isReady, decide_eq_true_eq]
  constructor
  · intro h
    by_cases hneg : port < 0
    · rw [elementAt_of_neg _ hneg] at h
      cases h
    · lift port to ℕ using Int.not_lt.mp hneg
      exact ⟨port, rfl, elementAt_natCast _ _ ▸ h⟩
  · rintro ⟨p, rfl, h⟩
    rwa [elementAt_natCast]

theorem elementAt_eq_some_iff {α : Type} {l : List α} {a : α} :
    elementAt l g = some a ↔ ∃ i : ℕ, g = i ∧ l[i]? = some a := by
  constructor
  · intro h
    by_cases hneg : g < 0
    · rw [elementAt_of_neg _ hneg] at h
      cases h
    · lift g to ℕ using Int.not_lt.mp hneg
      exact ⟨g, rfl, elementAt_natCast _ _ ▸ h⟩
  · rintro ⟨i, rfl, h⟩
    rwa [elementAt_natCast]

theorem found_eq_some_iff {admits : GpioPinOcre → Bool} {gpio : GpioPinOcre} :
    t.found g admits = some gpio ↔
      ∃ i : ℕ, g = i ∧ t.gpioPins[i]? = some gpio ∧ gpio.inUse = true ∧ admits gpio = true := by
  rw [found, Option.filter_eq_some_iff, elementAt_eq_some_iff, Bool.and_eq_true]
  constructor
  · rintro ⟨⟨i, hi, hget⟩, huse, hadmits⟩
    exact ⟨i, hi, hget, huse, hadmits⟩
  · rintro ⟨i, hi, hget, huse, hadmits⟩
    exact ⟨⟨i, hi, hget⟩, huse, hadmits⟩

theorem elementAt_eq_none_iff {α : Type} {l : List α} :
    elementAt l g = none ↔ g < 0 ∨ l.length ≤ g := by
  by_cases hneg : g < 0
  · simp [elementAt_of_neg _ hneg, hneg]
  · lift g to ℕ using Int.not_lt.mp hneg
    rw [elementAt_natCast, List.getElem?_eq_none_iff]
    omega

theorem withPin_cases {admits : GpioPinOcre → Bool} {k : GpioPinOcre → GpioReturn}
    (hx : t.withPin cfg g admits k = some x) : x = t.refuse ∨
      ∃ (i : ℕ) (gpio : GpioPinOcre), g = i ∧ t.gpioPins[i]? = some gpio ∧
        gpio.inUse = true ∧ admits gpio = true ∧ x = k gpio := by
  unfold withPin at hx
  split_ifs at hx
  · exact .inl (Option.some.inj hx).symm
  obtain ⟨gpio, hgpio, hx⟩ := Option.bind_eq_some_iff.mp hx
  split_ifs at hx with hcheck
  · exact .inl (Option.some.inj hx).symm
  obtain ⟨huse, hadmits⟩ := not_or.mp hcheck
  obtain ⟨ready, -, rfl⟩ := Option.map_eq_some_iff.mp hx
  obtain ⟨i, rfl, hget⟩ := elementAt_eq_some_iff.mp hgpio
  cases ready with
  | false => exact .inl rfl
  | true => exact .inr ⟨i, gpio, rfl, hget, not_not.mp huse, not_not.mp hadmits, rfl⟩

/-- A record at a negative index is read outside the table. -/
theorem withPin_of_some {admits : GpioPinOcre → Bool} {k : GpioPinOcre → GpioReturn}
    (hx : t.withPin cfg g admits k = some x) (hlt : g < cfg.maxPins) : 0 ≤ g := by
  rw [withPin, if_neg (Int.not_le.mpr hlt)] at hx
  obtain ⟨gpio, hgpio, -⟩ := Option.bind_eq_some_iff.mp hx
  obtain ⟨i, rfl, -⟩ := elementAt_eq_some_iff.mp hgpio
  exact Int.natCast_nonneg i

namespace Sound

/-- The checks at the beginning of a function on a pin come down to finding its record. -/
theorem withPin_eq (h : t.Sound cfg) {admits : GpioPinOcre → Bool}
    {k : GpioPinOcre → GpioReturn} (hg : g < cfg.maxPins → 0 ≤ g) :
    t.withPin cfg g admits k = some ((t.found g admits).elim t.refuse k) := by
  rw [withPin, found]
  by_cases hmax : g ≥ cfg.maxPins
  · have hnone : elementAt t.gpioPins g = none := by
      rw [elementAt_eq_none_iff, h.gpioPins]
      exact .inr hmax
    rw [if_pos hmax, hnone]
    rfl
  rw [if_neg hmax]
  cases hgpio : elementAt t.gpioPins g with
  | none =>
      rw [elementAt_eq_none_iff, h.gpioPins] at hgpio
      omega
  | some gpio =>
      obtain ⟨i, -, hget⟩ := elementAt_eq_some_iff.mp hgpio
      simp only [Option.bind_some, Option.filter_some]
      by_cases hcheck : ¬ gpio.inUse = true ∨ ¬ admits gpio = true
      · have hnot : ¬ (gpio.inUse && admits gpio) = true := by
          rw [Bool.and_eq_true]
          exact fun hboth ↦ hcheck.elim (· hboth.1) (· hboth.2)
        rw [if_pos hcheck, if_neg hnot]
        rfl
      · obtain ⟨huse, hadmits⟩ := not_or.mp hcheck
        have hboth : (gpio.inUse && admits gpio) = true :=
          Bool.and_eq_true_iff.mpr ⟨not_not.mp huse, not_not.mp hadmits⟩
        have hready := h.ready i gpio hget (not_not.mp huse)
        rw [if_neg hcheck, if_pos hboth, elementAt_natCast, hready]
        rfl

theorem ready_lt (h : t.Sound cfg) {port : Int} (hready : t.isReady port = true) :
    0 ≤ port ∧ port < cfg.maxPorts := by
  obtain ⟨p, rfl, hp⟩ := isReady_iff.mp hready
  have hlt := (List.getElem?_eq_some_iff.mp hp).1
  rw [h.portReady] at hlt
  omega

theorem exists_record (h : t.Sound cfg) {i : ℕ} (hi : i < cfg.maxPins) :
    ∃ gpio, t.gpioPins[i]? = some gpio := by
  rw [← h.gpioPins] at hi
  exact ⟨_, List.getElem?_eq_getElem hi⟩

theorem isReady_initialized (h : t.Sound cfg) {port : Int} (hready : t.isReady port = true) :
    t.initialized = true := by
  obtain ⟨p, rfl, hp⟩ := isReady_iff.mp hready
  exact h.initialized p hp

theorem elementAt_portReady (h : t.Sound cfg) {port : Int} (hport : 0 ≤ port)
    (hlt : port < cfg.maxPorts) : elementAt t.portReady port = some (t.isReady port) := by
  lift port to ℕ using hport
  have hlength : port < t.portReady.length := by
    rw [h.portReady]
    omega
  rw [isReady, elementAt_natCast, List.getElem?_eq_getElem hlength]
  simp

theorem wasmPin_eq (h : t.Sound cfg) {port pin : Int} {k : Int → Option GpioReturn}
    (hfirst : cIntFits (port * cfg.pinsPerPort) = true)
    (hsum : cIntFits (port * cfg.pinsPerPort + pin) = true) (hport : 0 ≤ port)
    (hlt : port < cfg.maxPorts) :
    t.wasmPin cfg port pin k = if t.isReady port then k (port * cfg.pinsPerPort + pin)
      else some t.refuse := by
  rw [wasmPin, globalPin_eq_some_iff.mpr ⟨⟨hfirst, hsum⟩, rfl⟩, Option.bind_some,
    h.elementAt_portReady hport hlt, Option.bind_some]
  cases t.isReady port <;> rfl

theorem ocreGpioRegisterCallback_of_ge (hmax : g ≥ cfg.maxPins) :
    t.ocreGpioRegisterCallback cfg r g = some t.refuse :=
  if_pos hmax

/-- A function on a record goes on with it when the port is ready. -/
theorem nativeCall_eq (h : t.Sound cfg) (hports : cfg.maxPorts ≤ 16)
    (hpins : cfg.pinsPerPort ≤ 64) (henables : t.enables cfg (route.act native r) = true)
    (hnative : ∀ module direction, native ≠ .configure module direction)
    (hdefined : Defined cfg native t route) :
    (t.nativeCall cfg native r route =
      if t.isReady route.port then t.atPin cfg native r (route.index cfg)
        else some t.refuse) ∧
      (t.isReady route.port = true → route.index cfg < cfg.maxPins → 0 ≤ route.index cfg) := by
  cases route with
  | number port pin =>
      cases native with
      | configure module direction => exact absurd rfl (hnative module direction)
      | registerCallback =>
          obtain ⟨hfirst, hsum, hrest⟩ := hdefined
          change (t.ocreGpioWasmRegisterCallback cfg r port pin = if t.isReady port = true then
            t.ocreGpioRegisterCallback cfg r (port * cfg.pinsPerPort + pin)
            else some t.refuse) ∧ (t.isReady port = true →
              port * cfg.pinsPerPort + pin < cfg.maxPins → 0 ≤ port * cfg.pinsPerPort + pin)
          rw [ocreGpioWasmRegisterCallback, globalPin_eq_some_iff.mpr ⟨⟨hfirst, hsum⟩, rfl⟩,
            Option.bind_some]
          by_cases hmax : port * cfg.pinsPerPort + pin ≥ cfg.maxPins
          · rw [if_pos hmax, ocreGpioRegisterCallback_of_ge hmax, ite_self]
            exact ⟨rfl, fun _ hlt ↦ absurd hmax (Int.not_le.mpr hlt)⟩
          · obtain ⟨hport, hlt, hg⟩ := hrest.resolve_left hmax
            rw [if_neg hmax, h.elementAt_portReady hport hlt, Option.bind_some]
            refine ⟨?_, fun hready _ ↦ hg hready⟩
            cases t.isReady port <;> rfl
      | set | get | toggle | unregisterCallback =>
          obtain ⟨hfirst, hsum, hport, hlt, hg⟩ := hdefined
          exact ⟨h.wasmPin_eq hfirst hsum hport hlt, hg⟩
  | name port pin =>
      have hparts : t.initialized = true ∧ elementAt t.portReady port = some true ∧ pin < 256 := by
        cases native <;> exact of_decide_eq_true henables
      obtain ⟨-, hready, hpin⟩ := hparts
      have hisReady : t.isReady port = true := decide_eq_true hready
      obtain ⟨hport, hlt⟩ := h.ready_lt hisReady
      have hglobal : globalPin cfg port pin = some (port * cfg.pinsPerPort + pin : Int) :=
        globalPin_of_ports hports hpins hport hlt (by omega) (by omega)
      have hpos : 0 ≤ (port : Int) * cfg.pinsPerPort := Int.mul_nonneg hport (by omega)
      change (t.byNameCall cfg native port pin r = if t.isReady port = true then
        t.atPin cfg native r (port * cfg.pinsPerPort + pin) else some t.refuse) ∧
          (t.isReady port = true → (port * cfg.pinsPerPort + pin : Int) < cfg.maxPins →
            0 ≤ (port * cfg.pinsPerPort + pin : Int))
      rw [if_pos hisReady]
      refine ⟨?_, fun _ _ ↦ by omega⟩
      cases native with
      | configure module direction => exact absurd rfl (hnative module direction)
      | registerCallback =>
          simp only [byNameCall, atPin, hglobal, Option.bind_some]
          by_cases hmax : (port * cfg.pinsPerPort + pin : Int) ≥ cfg.maxPins
          · rw [if_pos hmax, ocreGpioRegisterCallback_of_ge hmax]
          · rw [if_neg hmax]
      | set | get | toggle | unregisterCallback =>
          simp only [byNameCall, atPin, hglobal, Option.bind_some]

theorem ocreGpioConfigure_eq (h : t.Sound cfg) (hports : cfg.maxPorts ≤ 16)
    (hpins : cfg.pinsPerPort ≤ 64) (hready : t.isReady route.port = true)
    (hpin : route.pin < cfg.pinsPerPort) (module : ℕ) (direction : Int) :
    t.ocreGpioConfigure cfg r (some module) route.port route.pin direction =
      some (t.configured cfg r module direction route) := by
  obtain ⟨hport, hlt⟩ := h.ready_lt hready
  have hglobal : globalPin cfg route.port route.pin8 = some (route.index8 cfg) :=
    globalPin_of_ports hports hpins hport hlt (by omega) (by rw [GpioRoute.pin8]; omega)
  have hpass : ¬ (¬ t.initialized = true ∨ route.pin ≥ cfg.pinsPerPort ∨
      route.port ≥ cfg.maxPorts) := by
    rintro (hnot | hlarge | hlarge)
    · exact hnot (h.isReady_initialized hready)
    · exact absurd hlarge (Int.not_le.mpr hpin)
    · exact absurd hlarge (Int.not_le.mpr hlt)
  rw [ocreGpioConfigure, if_neg hpass, h.elementAt_portReady hport hlt, Option.bind_some, hready,
    if_neg (not_not.mpr rfl)]
  dsimp only
  rw [← GpioRoute.pin8, hglobal]
  unfold configured
  by_cases hfail : r.configure ≠ 0
  · rw [if_pos hfail, if_pos hfail]
    rfl
  · rw [if_neg hfail, if_neg hfail]
    rfl

/-- A configuration either passes its checks or is refused. -/
theorem configure_eq (h : t.Sound cfg) (hports : cfg.maxPorts ≤ 16)
    (hpins : cfg.pinsPerPort ≤ 64) {module : ℕ} {direction : Int}
    (henables : t.enables cfg (route.act (.configure (some module) direction) r) = true)
    (hdefined : Defined cfg (.configure (some module) direction) t route) :
    t.nativeCall cfg (.configure (some module) direction) r route =
      some (if t.configures cfg route then t.configured cfg r module direction route
        else t.refuse) := by
  have hconfigure := @ocreGpioConfigure_eq cfg t r route h hports hpins
  cases route with
  | number port pin =>
      change t.ocreGpioWasmConfigure cfg r (some module) port pin direction = _
      rw [ocreGpioWasmConfigure]
      by_cases hcheck : port ≥ cfg.maxPorts ∨ pin ≥ cfg.pinsPerPort
      · rw [if_pos hcheck, if_neg]
        rw [configures_number]
        rintro ⟨hready, hpin, -⟩
        have hlt := (h.ready_lt hready).2
        omega
      rw [if_neg hcheck]
      obtain ⟨hlt, hpin⟩ := not_or.mp hcheck
      have hport : 0 ≤ port := by
        rcases hdefined with hnone | hlarge | hlarge | hport
        · cases hnone
        · exact absurd hlarge hlt
        · exact absurd hlarge hpin
        · exact hport
      have hfits : -2147483648 ≤ pin ∧ pin ≤ 2147483647 := of_decide_eq_true
        (of_decide_eq_true henables).2
      rw [h.elementAt_portReady hport (Int.not_le.mp hlt), Option.bind_some,
        globalPin_of_ports hports hpins hport (Int.not_le.mp hlt) hfits.1 (by omega),
        Option.bind_some]
      by_cases hready : t.isReady port = true
      swap
      · rw [if_pos hready, if_neg]
        rw [configures_number]
        exact fun hall ↦ hready hall.1
      rw [if_neg (not_not.mpr hready)]
      by_cases hmax : port * cfg.pinsPerPort + pin ≥ cfg.maxPins
      · rw [if_pos hmax, if_neg]
        rw [configures_number]
        exact fun hall ↦ absurd hmax (Int.not_le.mpr hall.2.2)
      · rw [if_neg hmax, if_pos (configures_number.mpr
          ⟨hready, Int.not_le.mp hpin, Int.not_le.mp hmax⟩)]
        exact hconfigure hready (Int.not_le.mp hpin) module direction
  | name port pin =>
      have hparts : t.initialized = true ∧ elementAt t.portReady port = some true ∧ pin < 256 :=
        of_decide_eq_true henables
      have hready : t.isReady port = true := decide_eq_true hparts.2.1
      change (if (some module).isNone then some t.refuse
        else t.ocreGpioConfigure cfg r (some module) port pin direction) = _
      rw [if_neg (by simp)]
      by_cases hpin : (pin : Int) < cfg.pinsPerPort
      · rw [if_pos (configures_name.mpr ⟨hready, hpin⟩)]
        exact hconfigure hready hpin module direction
      · rw [if_neg fun hall ↦ hpin (configures_name.mp hall).2, ocreGpioConfigure,
          if_pos (.inr (.inl (Int.not_lt.mp hpin))), hparts.2.1]
        rfl

end Sound

/-- A call that is refused, or comes to the driver for a pin and changes the record of one
index at most. -/
def Comes (t : GpioTable) (g : Int) (x : GpioReturn) : Option (ℕ × ℕ) → Prop
  | none => x.ret < 0 ∧ x.driver = [] ∧ x.table = t
  | some p => x.driver ≠ [] ∧ (∀ call ∈ x.driver, (call.port, call.pin) = p) ∧
      ∀ j : ℕ, (j : Int) ≠ g → x.table.gpioPins[j]? = t.gpioPins[j]?

theorem comes_refuse : t.Comes g t.refuse none := ⟨by simp [refuse], rfl, rfl⟩

theorem getElem?_setPin_of_ne {gpio : GpioPinOcre} {j : ℕ} (hg : 0 ≤ g) (hj : (j : Int) ≠ g) :
    (t.setPin g gpio).gpioPins[j]? = t.gpioPins[j]? := by
  apply List.getElem?_set_ne
  omega

/-- A function on the record of an index, by what it does with a record that it accepts and
with one that it refuses late. -/
theorem comes_found {admits accepts : GpioPinOcre → Bool} {k : GpioPinOcre → GpioReturn}
    (hadmits : ∀ gpio, accepts gpio = true → admits gpio = true)
    (hdrives : ∀ gpio, accepts gpio = true → 0 ≤ g → t.Comes g (k gpio) (some gpio.position))
    (hrefuses : ∀ gpio, accepts gpio = false → admits gpio = true → t.Comes g (k gpio) none) :
    t.Comes g ((t.found g admits).elim t.refuse k)
      ((t.found g accepts).map GpioPinOcre.position) := by
  cases hfound : t.found g admits with
  | none =>
      have hnone : t.found g accepts = none := by
        by_contra hsome
        obtain ⟨gpio, hgpio⟩ := Option.ne_none_iff_exists'.mp hsome
        obtain ⟨i, hi, hget, huse, haccepts⟩ := found_eq_some_iff.mp hgpio
        have hadmitted := found_eq_some_iff.mpr ⟨i, hi, hget, huse, hadmits gpio haccepts⟩
        cases hfound.symm.trans hadmitted
      rw [hnone]
      exact comes_refuse
  | some gpio =>
      obtain ⟨i, rfl, hget, huse, hadmitted⟩ := found_eq_some_iff.mp hfound
      by_cases haccepts : accepts gpio = true
      · rw [found_eq_some_iff.mpr ⟨i, rfl, hget, huse, haccepts⟩]
        exact hdrives gpio haccepts (Int.natCast_nonneg i)
      · have hnone : t.found i accepts = none := by
          by_contra hsome
          obtain ⟨other, hother⟩ := Option.ne_none_iff_exists'.mp hsome
          obtain ⟨j, hj, hget', -, haccepts'⟩ := found_eq_some_iff.mp hother
          obtain rfl : i = j := by omega
          obtain rfl := Option.some.inj (hget.symm.trans hget')
          exact haccepts haccepts'
        rw [hnone]
        exact hrefuses gpio (Bool.eq_false_iff.mpr haccepts) hadmitted

theorem Sound.atPin_comes (h : t.Sound cfg)
    (hnative : ∀ module direction, native ≠ .configure module direction)
    (hg : g < cfg.maxPins → 0 ≤ g) :
    ∃ x, t.atPin cfg native r g = some x ∧
      t.Comes g x ((t.found g (native.accepts r)).map GpioPinOcre.position) := by
  have hsingle (gpio : GpioPinOcre) (op : DriverOp) (ret : Int) :
      t.Comes g ⟨ret, [⟨op, gpio.portIdx, gpio.pinNumber⟩], t⟩ (some gpio.position) :=
    ⟨by simp, by simp [GpioPinOcre.position], fun _ _ ↦ rfl⟩
  cases native with
  | configure module direction => exact absurd rfl (hnative module direction)
  | set | get | toggle =>
      refine ⟨_, h.withPin_eq hg, comes_found (fun _ ↦ id) ?_ ?_⟩
      · exact fun gpio _ _ ↦ hsingle gpio _ _
      · exact fun gpio haccepts hadmits ↦ absurd hadmits (Bool.eq_false_iff.mp haccepts)
  | registerCallback =>
      refine ⟨_, h.withPin_eq hg, comes_found ?_ ?_ ?_⟩
      · exact fun gpio haccepts ↦ (Bool.and_eq_true_iff.mp haccepts).1
      · intro gpio haccepts hpos
        obtain ⟨cb, hcb⟩ := Option.isSome_iff_exists.mp (Bool.and_eq_true_iff.mp haccepts).2
        rw [hcb]
        dsimp only
        split_ifs <;> exact ⟨by simp, by simp [GpioPinOcre.position],
          fun j hj ↦ getElem?_setPin_of_ne hpos hj⟩
      · intro gpio haccepts hadmits
        have hcb : gpio.cb.or r.calloc = none := by
          simpa [GpioNative.accepts, hadmits] using haccepts
        rw [hcb]
        exact ⟨by simp, rfl, rfl⟩
  | unregisterCallback =>
      refine ⟨_, h.withPin_eq hg, comes_found (fun _ ↦ id) ?_ ?_⟩
      · intro gpio haccepts hpos
        dsimp only
        split_ifs
        · exact ⟨by simp, by simp [GpioPinOcre.position], fun _ _ ↦ rfl⟩
        · exact ⟨by simp, by simp [GpioPinOcre.position],
            fun j hj ↦ getElem?_setPin_of_ne hpos hj⟩
      · exact fun gpio haccepts hadmits ↦ absurd hadmits (Bool.eq_false_iff.mp haccepts)

/-- What a call that is defined comes to. -/
theorem Sound.nativeCall_comes (h : t.Sound cfg) (hports : cfg.maxPorts ≤ 16)
    (hpins : cfg.pinsPerPort ≤ 64) (henables : t.enables cfg (route.act native r) = true)
    (hdefined : Defined cfg native t route) :
    ∃ x, t.nativeCall cfg native r route = some x ∧
      t.Comes (route.written cfg native) x (t.driven cfg native r route) := by
  by_cases hconfigure : ∃ module direction, native = .configure module direction
  · obtain ⟨module, direction, rfl⟩ := hconfigure
    cases module with
    | none =>
        refine ⟨t.refuse, ?_, comes_refuse⟩
        cases route <;> rfl
    | some module =>
        refine ⟨_, h.configure_eq hports hpins henables hdefined, ?_⟩
        simp only [driven, Option.isSome_some, Bool.true_and]
        by_cases hpass : t.configures cfg route = true
        · rw [if_pos hpass, if_pos hpass]
          have hready := isReady_of_configures hpass
          have hpos := GpioRoute.index8_nonneg cfg (h.ready_lt hready).1
          unfold configured
          dsimp only
          split_ifs
          · exact ⟨by simp, by simp, fun _ _ ↦ rfl⟩
          · exact ⟨by simp, by simp, fun _ _ ↦ rfl⟩
          · exact ⟨by simp, by simp, fun j hj ↦ getElem?_setPin_of_ne hpos hj⟩
        · rw [if_neg hpass, if_neg hpass]
          exact comes_refuse
  · push Not at hconfigure
    obtain ⟨heq, hg⟩ := h.nativeCall_eq hports hpins henables hconfigure hdefined
    have hdriven : t.driven cfg native r route = if t.isReady route.port then
        (t.found (route.index cfg) (native.accepts r)).map GpioPinOcre.position else none := by
      cases native with
      | configure module direction => exact absurd rfl (hconfigure module direction)
      | _ => rfl
    have hwritten : route.written cfg native = route.index cfg := by
      cases native with
      | configure module direction => exact absurd rfl (hconfigure module direction)
      | _ => rfl
    rw [heq, hdriven, hwritten]
    by_cases hready : t.isReady route.port = true
    · rw [if_pos hready, if_pos hready]
      exact h.atPin_comes hconfigure (hg hready)
    · rw [if_neg hready, if_neg hready]
      exact ⟨_, rfl, comes_refuse⟩

theorem defined_of_wasmPin (h : t.Sound cfg) {port pin : Int} {admits : GpioPinOcre → Bool}
    {k : Int → GpioPinOcre → GpioReturn}
    (hx : t.wasmPin cfg port pin (fun g ↦ t.withPin cfg g admits (k g)) = some x) :
    cIntFits (port * cfg.pinsPerPort) = true ∧
      cIntFits (port * cfg.pinsPerPort + pin) = true ∧ 0 ≤ port ∧ port < cfg.maxPorts ∧
        (t.isReady port = true → port * cfg.pinsPerPort + pin < cfg.maxPins →
          0 ≤ port * cfg.pinsPerPort + pin) := by
  obtain ⟨g, hg, hx⟩ := Option.bind_eq_some_iff.mp hx
  obtain ⟨⟨hfirst, hsum⟩, rfl⟩ := globalPin_eq_some_iff.mp hg
  obtain ⟨ready, hready, hx⟩ := Option.bind_eq_some_iff.mp hx
  obtain ⟨p, rfl, hp⟩ := elementAt_eq_some_iff.mp hready
  have hlt := (List.getElem?_eq_some_iff.mp hp).1
  rw [h.portReady] at hlt
  refine ⟨hfirst, hsum, by omega, by omega, ?_⟩
  intro hisReady hmax
  obtain rfl := (isReady_eq hready).symm.trans hisReady
  exact withPin_of_some hx hmax

/-- A call with a result is a defined one. -/
theorem Sound.defined_of_nativeCall (h : t.Sound cfg)
    (hx : t.nativeCall cfg native r route = some x) : Defined cfg native t route := by
  cases route with
  | name port pin => trivial
  | number port pin =>
      cases native with
      | configure module direction =>
          cases module with
          | none => exact .inl rfl
          | some module =>
              simp only [nativeCall, wasmCall, ocreGpioWasmConfigure] at hx
              split_ifs at hx with hcheck
              · exact .inr (or_assoc.mp (.inl hcheck))
              · obtain ⟨ready, hready, -⟩ := Option.bind_eq_some_iff.mp hx
                obtain ⟨p, rfl, -⟩ := elementAt_eq_some_iff.mp hready
                exact .inr (.inr (.inr (Int.natCast_nonneg p)))
      | registerCallback =>
          simp only [nativeCall, wasmCall, ocreGpioWasmRegisterCallback] at hx
          obtain ⟨g, hg, hx⟩ := Option.bind_eq_some_iff.mp hx
          obtain ⟨⟨hfirst, hsum⟩, rfl⟩ := globalPin_eq_some_iff.mp hg
          refine ⟨hfirst, hsum, ?_⟩
          split_ifs at hx with hmax
          · exact .inl hmax
          · obtain ⟨ready, hready, hx⟩ := Option.bind_eq_some_iff.mp hx
            obtain ⟨p, rfl, hp⟩ := elementAt_eq_some_iff.mp hready
            have hlt := (List.getElem?_eq_some_iff.mp hp).1
            rw [h.portReady] at hlt
            refine .inr ⟨by omega, by omega, fun hisReady ↦ ?_⟩
            obtain rfl := (isReady_eq hready).symm.trans hisReady
            exact withPin_of_some hx (Int.not_le.mp hmax)
      | set | get | toggle | unregisterCallback => exact defined_of_wasmPin h hx

section Preservation

/-- A function on a record leaves the table or changes the callback of the record. -/
theorem table_atPin (hx : t.atPin cfg native r g = some x) :
    x.table = t ∨ ∃ (i : ℕ) (gpio : GpioPinOcre) (cb : Option ℕ), g = i ∧
      t.gpioPins[i]? = some gpio ∧ gpio.inUse = true ∧
        x.table = t.setPin g { gpio with cb := cb } := by
  cases native with
  | configure module direction =>
      obtain rfl := Option.some.inj hx
      exact .inl rfl
  | set | get | toggle =>
      rcases withPin_cases hx with rfl | ⟨i, gpio, -, -, -, -, rfl⟩
      · exact .inl rfl
      · exact .inl rfl
  | registerCallback =>
      rcases withPin_cases hx with rfl | ⟨i, gpio, hi, hget, huse, -, rfl⟩
      · exact .inl rfl
      · cases gpio.cb.or r.calloc with
        | none => exact .inl rfl
        | some cb =>
            right
            dsimp only
            split_ifs <;> exact ⟨i, gpio, _, hi, hget, huse, rfl⟩
  | unregisterCallback =>
      rcases withPin_cases hx with rfl | ⟨i, gpio, hi, hget, huse, -, rfl⟩
      · exact .inl rfl
      · dsimp only
        split_ifs
        · exact .inl rfl
        · exact .inr ⟨i, gpio, none, hi, hget, huse, rfl⟩

theorem sound_static (cfg : GpioConfig) : (static cfg).Sound cfg where
  portReady := List.length_replicate
  gpioPins := List.length_replicate
  initialized p hp := by simp [static, List.getElem?_replicate] at hp
  ready i gpio hgpio huse := by
    obtain rfl := List.eq_of_mem_replicate (List.mem_of_getElem? hgpio)
    cases huse

theorem Sound.ocreGpioInit (h : t.Sound cfg) {ready : List Bool}
    (hready : ready.length = cfg.maxPorts) : (t.ocreGpioInit ready).2.Sound cfg := by
  -- a pin in use was configured on a ready port, so nothing is initialised again
  have hnone (hinit : ¬ t.initialized = true) (i : ℕ) (gpio : GpioPinOcre)
      (hgpio : t.gpioPins[i]? = some gpio) (huse : gpio.inUse = true) : False :=
    hinit (h.initialized _ (h.ready i gpio hgpio huse))
  unfold GpioTable.ocreGpioInit
  split_ifs with hinit hany
  · exact h
  · refine ⟨hready, h.gpioPins, fun _ _ ↦ rfl, ?_⟩
    exact fun i gpio hgpio huse ↦ (hnone hinit i gpio hgpio huse).elim
  · refine ⟨hready, h.gpioPins, fun p hp ↦ ?_, ?_⟩
    · have hmem : true ∈ ready := List.mem_of_getElem? hp
      exact absurd (List.any_eq_true.mpr ⟨true, hmem, rfl⟩) hany
    · exact fun i gpio hgpio huse ↦ (hnone hinit i gpio hgpio huse).elim

/-- The record that was written, or another one. -/
theorem getElem?_setPin_cases {i j : ℕ} {new gpio : GpioPinOcre}
    (h : (t.setPin i new).gpioPins[j]? = some gpio) :
    i = j ∧ gpio = new ∨ i ≠ j ∧ t.gpioPins[j]? = some gpio := by
  rw [setPin, Int.toNat_natCast] at h
  by_cases hij : i = j
  · subst hij
    have hlt := (List.getElem?_eq_some_iff.mp h).1
    rw [List.length_set] at hlt
    rw [List.getElem?_set_self hlt] at h
    exact .inl ⟨rfl, (Option.some.inj h).symm⟩
  · rw [List.getElem?_set_ne hij] at h
    exact .inr ⟨hij, h⟩

theorem Sound.setPin (h : t.Sound cfg) {i : ℕ} {gpio : GpioPinOcre}
    (hgpio : gpio.inUse = true → t.portReady[gpio.portIdx]? = some true) :
    (t.setPin i gpio).Sound cfg where
  portReady := h.portReady
  gpioPins := by rw [GpioTable.setPin, List.length_set, h.gpioPins]
  initialized := h.initialized
  ready j old hold huse := by
    rcases getElem?_setPin_cases hold with ⟨rfl, rfl⟩ | ⟨-, hold⟩
    · exact hgpio huse
    · exact h.ready j old hold huse

theorem Sound.atPin (h : t.Sound cfg) (hx : t.atPin cfg native r g = some x) :
    x.table.Sound cfg := by
  rcases table_atPin hx with hsame | ⟨i, gpio, cb, rfl, hget, huse, htable⟩
  · exact hsame ▸ h
  · rw [htable]
    apply h.setPin
    exact fun _ ↦ h.ready i gpio hget huse

theorem Sound.configured (h : t.Sound cfg) (hports : cfg.maxPorts ≤ 16)
    (hready : t.isReady route.port = true) (module : ℕ) (direction : Int) :
    (t.configured cfg r module direction route).table.Sound cfg := by
  obtain ⟨p, hp, hready'⟩ := isReady_iff.mp hready
  have hlt := (h.ready_lt hready).2
  have hpos := GpioRoute.index8_nonneg cfg (h.ready_lt hready).1
  unfold GpioTable.configured
  dsimp only
  split_ifs
  · exact h
  · exact h
  · obtain ⟨i, hi⟩ := Int.eq_ofNat_of_zero_le hpos
    rw [hi]
    apply h.setPin
    intro _
    have hport : route.port.toNat % 16 = p := by omega
    dsimp only
    rwa [hport]

theorem Sound.nativeCall (h : t.Sound cfg) (hports : cfg.maxPorts ≤ 16)
    (hpins : cfg.pinsPerPort ≤ 64) (henables : t.enables cfg (route.act native r) = true)
    (hx : t.nativeCall cfg native r route = some x) : x.table.Sound cfg := by
  have hdefined := h.defined_of_nativeCall hx
  by_cases hconfigure : ∃ module direction, native = .configure module direction
  · obtain ⟨module, direction, rfl⟩ := hconfigure
    cases module with
    | none =>
        obtain rfl : t.refuse = x := by
          cases route <;> exact Option.some.inj hx
        exact h
    | some module =>
        rw [h.configure_eq hports hpins henables hdefined] at hx
        obtain rfl := Option.some.inj hx
        split_ifs with hpass
        · have hready := isReady_of_configures hpass
          exact h.configured hports hready module direction
        · exact h
  · push Not at hconfigure
    rw [(h.nativeCall_eq hports hpins henables hconfigure hdefined).1] at hx
    split_ifs at hx
    · exact h.atPin hx
    · obtain rfl := Option.some.inj hx
      exact h

theorem Sound.cleanupPin (h : t.Sound cfg) {module i : ℕ} {t' : GpioTable}
    (ht' : t.cleanupPin cfg r module i = some t') : t'.Sound cfg := by
  rcases cleanupPin_cases ht' with rfl | ⟨u, gpio, hu, rfl⟩
  · exact h
  have hsound : u.Sound cfg := by
    rcases hu with rfl | ⟨x, hx, rfl⟩
    · exact h
    · exact @Sound.atPin cfg t r .unregisterCallback i x h hx
  apply hsound.setPin
  intro huse
  cases huse

theorem getElem?_setPin_self {i : ℕ} {gpio new : GpioPinOcre} (h : t.gpioPins[i]? = some gpio) :
    (t.setPin i new).gpioPins[i]? = some new :=
  List.getElem?_set_self (List.getElem?_eq_some_iff.mp h).1

theorem setPin_setPin {i : ℕ} (gpio new : GpioPinOcre) :
    (t.setPin i gpio).setPin i new = t.setPin i new := by
  rw [GpioTable.setPin, GpioTable.setPin, List.set_set]
  rfl

theorem setPin_eq_self {i : ℕ} {gpio : GpioPinOcre} (h : t.gpioPins[i]? = some gpio) :
    t.setPin i gpio = t := by
  obtain ⟨hlt, rfl⟩ := List.getElem?_eq_some_iff.mp h
  rw [GpioTable.setPin, Int.toNat_natCast, List.set_getElem_self hlt]

/-- The callback that a clean-up leaves in a record. -/
def cleanedCb (r : DriverResults) (gpio : GpioPinOcre) : Option ℕ :=
  if gpio.direction = false ∧ r.interruptConfigure = 0 then none else gpio.cb

theorem Sound.table_unregister (h : t.Sound cfg) {i : ℕ} {gpio : GpioPinOcre}
    (hgpio : t.gpioPins[i]? = some gpio) (huse : gpio.inUse = true) :
    (t.ocreGpioUnregisterCallback cfg r i).map GpioReturn.table = some (t.setPin i { gpio with
      cb := if r.interruptConfigure = 0 then none else gpio.cb }) := by
  rw [ocreGpioUnregisterCallback, h.withPin_eq fun _ ↦ Int.natCast_nonneg i, Option.map_some]
  congr 1
  cases hcb : gpio.cb with
  | none =>
      have hnone : t.found i (·.cb.isSome) = none := by
        by_contra hsome
        obtain ⟨other, hother⟩ := Option.ne_none_iff_exists'.mp hsome
        obtain ⟨j, hj, hget, -, hadmits⟩ := found_eq_some_iff.mp hother
        obtain rfl : i = j := by omega
        obtain rfl := Option.some.inj (hgpio.symm.trans hget)
        simp [hcb] at hadmits
      have hself : { gpio with cb := none } = gpio := by
        rw [← hcb]
      rw [hnone, ite_self, hself, setPin_eq_self hgpio]
      rfl
  | some cb =>
      have hfound : t.found i (·.cb.isSome) = some gpio :=
        found_eq_some_iff.mpr ⟨i, rfl, hgpio, huse, by simp [hcb]⟩
      rw [hfound]
      dsimp only [Option.elim_some]
      by_cases hinterrupt : r.interruptConfigure = 0
      · rw [if_neg (not_not.mpr hinterrupt), if_pos hinterrupt]
      · have hself : { gpio with cb := some cb } = gpio := by
          rw [← hcb]
        rw [if_pos hinterrupt, if_neg hinterrupt, hself, setPin_eq_self hgpio]

/-- The clean-up releases a pin of the module, whatever the driver returns. -/
theorem Sound.cleanupPin_of_owned (h : t.Sound cfg) {module i : ℕ} {gpio : GpioPinOcre}
    (hgpio : t.gpioPins[i]? = some gpio) (hown : gpio.inUse = true ∧ gpio.owner = some module) :
    t.cleanupPin cfg r module i = some (t.setPin i { gpio with
      inUse := false
      cb := cleanedCb r gpio
      owner := none }) := by
  rw [GpioTable.cleanupPin, elementAt_natCast, hgpio, Option.bind_some, if_pos hown]
  cases hdirection : gpio.direction with
  | true =>
      rw [if_pos rfl, Option.bind_some, elementAt_natCast, hgpio, Option.map_some]
      simp [cleanedCb, hdirection]
  | false =>
      rw [if_neg Bool.false_ne_true, h.table_unregister hgpio hown.1, Option.bind_some,
        elementAt_natCast, getElem?_setPin_self hgpio, Option.map_some, setPin_setPin]
      simp [cleanedCb, hdirection]

theorem cleanupPin_of_not_owned {module i : ℕ} {gpio : GpioPinOcre}
    (hgpio : t.gpioPins[i]? = some gpio)
    (hown : ¬ (gpio.inUse = true ∧ gpio.owner = some module)) :
    t.cleanupPin cfg r module i = some t := by
  rw [GpioTable.cleanupPin, elementAt_natCast, hgpio, Option.bind_some, if_neg hown]

theorem Sound.ocreGpioCleanupContainer (h : t.Sound cfg) {results : ℕ → DriverResults}
    {module : Option ℕ} {t' : GpioTable}
    (ht' : t.ocreGpioCleanupContainer cfg results module = some t') : t'.Sound cfg :=
  ocreGpioCleanupContainer_keeps (fun _ _ _ _ _ h ht' ↦ h.cleanupPin ht') h ht'

end Preservation

theorem sound_of_reachable (hports : cfg.maxPorts ≤ 16) (hpins : cfg.pinsPerPort ≤ 64)
    {s : Option GpioTable} (hs : (gpioSystem cfg).Reachable s) : ∀ t ∈ s, t.Sound cfg := by
  refine StepSystem.ReachableWhere.invariant
    (I := fun s : Option GpioTable ↦ ∀ t ∈ s, t.Sound cfg) ?_ ?_ hs
  · rintro s hinit t ht
    obtain rfl := Option.some.inj (hinit.symm.trans ht)
    exact sound_static cfg
  · rintro a s s' h - hnext t' ht'
    obtain ⟨t, rfl, henables, rfl⟩ := StepSystem.eq_some_of_enabled hnext
    have hsound := h t rfl
    cases a with
    | init ready =>
        obtain rfl := Option.some.inj ht'
        exact hsound.ocreGpioInit (of_decide_eq_true henables)
    | wasm native port pin r =>
        obtain ⟨x, hx, rfl⟩ := Option.map_eq_some_iff.mp ht'
        exact @Sound.nativeCall cfg t r native (.number port pin) x hsound hports hpins henables hx
    | byName native port pin r =>
        obtain ⟨x, hx, rfl⟩ := Option.map_eq_some_iff.mp ht'
        exact @Sound.nativeCall cfg t r native (.name port pin) x hsound hports hpins henables hx
    | cleanup module results => exact hsound.ocreGpioCleanupContainer ht'

end GpioTable

end OcreRuntime
