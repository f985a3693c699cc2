import OcreRuntime.Lib.StepSystem
import OcreRuntime.Container.Model

/-!
# The GPIO functions

The pin table of `ocre_gpio.c` and the functions on it. A function has no result if it
reads outside an array or an `int` overflows. A port device is known by its index in
`gpio_ports`, which is ready only when the initialisation has found the device; the two
arrays over ports have one length. Resource counts and log texts are left out, but not the
array read that an error message makes.
-/

namespace OcreRuntime

/-- The three configuration constants. -/
structure GpioConfig where
  maxPins : ℕ
  maxPorts : ℕ
  pinsPerPort : ℕ

/-- The type `gpio_pin_ocre`; the bit-fields keep 6 and 4 bits. -/
structure GpioPinOcre where
  inUse : Bool := false
  direction : Bool := false
  pinNumber : ℕ := 0
  portIdx : ℕ := 0
  cb : Option ℕ := none
  owner : Option ℕ := none
  deriving DecidableEq

inductive GpioFlags
  | inputPullUp
  | output
  deriving DecidableEq

inductive DriverOp
  | configure (flags : GpioFlags)
  | set (value : Int)
  | get
  | toggle
  | interruptConfigure (edgeBoth : Bool)
  | addCallback (cb : ℕ)
  | removeCallback (cb : ℕ)
  deriving DecidableEq

/-- A call of the driver of a port device, for a pin. The pin of a callback is the one in
its mask. -/
structure DriverCall where
  op : DriverOp
  port : ℕ
  pin : ℕ
  deriving DecidableEq

/-- What the calls made by one function return. -/
structure DriverResults where
  configure : Int := 0
  set : Int := 0
  get : Int := 0
  toggle : Int := 0
  interruptConfigure : Int := 0
  addCallback : Int := 0
  removeCallback : Int := 0
  calloc : Option ℕ

structure GpioTable where
  initialized : Bool
  portReady : List Bool
  gpioPins : List GpioPinOcre
  deriving DecidableEq

/-- How a function returns: with a value, after some driver calls. -/
structure GpioReturn where
  ret : Int
  driver : List DriverCall
  table : GpioTable
  deriving DecidableEq

def cIntFits (i : Int) : Bool := -2147483648 ≤ i ∧ i ≤ 2147483647

/-- An array element by an `int`. -/
def elementAt {α : Type} (l : List α) (i : Int) : Option α :=
  if i < 0 then none else l[i.toNat]?

namespace GpioTable

variable (cfg : GpioConfig) (r : DriverResults) (t : GpioTable)

/-- `-EINVAL` without a driver call. -/
def refuse : GpioReturn := ⟨-22, [], t⟩

def setPin (pin : Int) (gpio : GpioPinOcre) : GpioTable :=
  { t with gpioPins := t.gpioPins.set pin.toNat gpio }

/-- `port * CONFIG_OCRE_GPIO_PINS_PER_PORT + pin`. -/
def globalPin (port pin : Int) : Option Int :=
  let first := port * cfg.pinsPerPort
  if cIntFits first ∧ cIntFits (first + pin) then some (first + pin) else none

/-- `ocre_gpio_init`, with the ports whose device exists and is ready. -/
def ocreGpioInit (ready : List Bool) : Int × GpioTable :=
  if t.initialized then (0, t)
  else if ready.any id then (0, { t with portReady := ready, initialized := true })
  else (-19, { t with portReady := ready })

def ocreGpioConfigure (module : Option ℕ) (port pin direction : Int) : Option GpioReturn :=
  if ¬ t.initialized ∨ pin ≥ cfg.pinsPerPort ∨ port ≥ cfg.maxPorts then
    -- the error message reads port_ready
    (elementAt t.portReady port).map fun _ ↦ t.refuse
  else (elementAt t.portReady port).bind fun ready ↦
    if ¬ ready then some t.refuse
    else
      let pin8 := (pin % 256).toNat
      let flags := if direction = 0 then GpioFlags.inputPullUp else GpioFlags.output
      let driver := [⟨.configure flags, port.toNat, pin8⟩]
      if r.configure ≠ 0 then some ⟨r.configure, driver, t⟩
      else match module with
        | none => some ⟨-22, driver, t⟩
        | some module => (globalPin cfg port pin8).map fun (g : Int) ↦
            if g ≥ cfg.maxPins then ⟨-22, driver, t⟩
            else ⟨0, driver, t.setPin g {
              inUse := true
              direction := direction = 1
              pinNumber := pin8 % 64
              portIdx := port.toNat % 16
              cb := none
              owner := some module }⟩

/-- The checks by which the functions on a configured pin begin; `admits` is what one of
them asks of the record. -/
def withPin (pin : Int) (admits : GpioPinOcre → Bool) (k : GpioPinOcre → GpioReturn) :
    Option GpioReturn :=
  if pin ≥ cfg.maxPins then some t.refuse
  else (elementAt t.gpioPins pin).bind fun gpio ↦
    if ¬ gpio.inUse ∨ ¬ admits gpio then some t.refuse
    else (elementAt t.portReady gpio.portIdx).map fun (ready : Bool) ↦
      if ¬ ready then t.refuse else k gpio

def ocreGpioPinSet (pin state : Int) : Option GpioReturn :=
  t.withPin cfg pin (·.direction) fun gpio ↦
    ⟨r.set, [⟨.set state, gpio.portIdx, gpio.pinNumber⟩], t⟩

def ocreGpioPinGet (pin : Int) : Option GpioReturn :=
  t.withPin cfg pin (fun _ ↦ true) fun gpio ↦
    ⟨if r.get ≥ 0 then if r.get ≠ 0 then 1 else 0 else r.get,
      [⟨.get, gpio.portIdx, gpio.pinNumber⟩], t⟩

def ocreGpioPinToggle (pin : Int) : Option GpioReturn :=
  t.withPin cfg pin (·.direction) fun gpio ↦
    ⟨r.toggle, [⟨.toggle, gpio.portIdx, gpio.pinNumber⟩], t⟩

/-- `ocre_gpio_register_callback`, which allocates the callback when there is none. -/
def ocreGpioRegisterCallback (pin : Int) : Option GpioReturn :=
  t.withPin cfg pin (!·.direction) fun gpio ↦
    match gpio.cb.or r.calloc with
    | none => ⟨-12, [], t⟩
    | some cb =>
        let interrupt := ⟨.interruptConfigure true, gpio.portIdx, gpio.pinNumber⟩
        let add := ⟨.addCallback cb, gpio.portIdx, gpio.pinNumber⟩
        if r.interruptConfigure ≠ 0 then
          ⟨r.interruptConfigure, [interrupt], t.setPin pin { gpio with cb := none }⟩
        else if r.addCallback ≠ 0 then
          ⟨r.addCallback, [interrupt, add], t.setPin pin { gpio with cb := none }⟩
        else ⟨0, [interrupt, add], t.setPin pin { gpio with cb := some cb }⟩

def ocreGpioUnregisterCallback (pin : Int) : Option GpioReturn :=
  t.withPin cfg pin (·.cb.isSome) fun gpio ↦
    let interrupt := ⟨.interruptConfigure false, gpio.portIdx, gpio.pinNumber⟩
    let remove := ⟨.removeCallback (gpio.cb.getD 0), gpio.portIdx, gpio.pinNumber⟩
    if r.interruptConfigure ≠ 0 then ⟨r.interruptConfigure, [interrupt], t⟩
    else ⟨r.removeCallback, [interrupt, remove], t.setPin pin { gpio with cb := none }⟩

/-- One iteration of `ocre_gpio_cleanup_container`. -/
def cleanupPin (module : ℕ) (pin : ℕ) : Option GpioTable :=
  (elementAt t.gpioPins pin).bind fun gpio ↦
    if gpio.inUse ∧ gpio.owner = some module then
      (if gpio.direction then some t
        else (t.ocreGpioUnregisterCallback cfg r pin).map GpioReturn.table).bind fun t ↦
      (elementAt t.gpioPins pin).map fun gpio ↦
        t.setPin pin { gpio with inUse := false, owner := none }
    else some t

/-- `ocre_gpio_cleanup_container`; the driver results are those of each iteration. -/
def ocreGpioCleanupContainer (results : ℕ → DriverResults) (module : Option ℕ) :
    Option GpioTable :=
  match module with
  | none => some t
  | some module =>
      if ¬ t.initialized then some t
      else (List.range cfg.maxPins).foldlM (fun t pin ↦ t.cleanupPin cfg (results pin) module pin) t

def ocreGpioWasmConfigure (module : Option ℕ) (port pin direction : Int) : Option GpioReturn :=
  match module with
  | none => some t.refuse
  | some _ =>
      if port ≥ cfg.maxPorts ∨ pin ≥ cfg.pinsPerPort then some t.refuse
      else (elementAt t.portReady port).bind fun ready ↦
        if ¬ ready then some t.refuse
        else (globalPin cfg port pin).bind fun g ↦
          if g ≥ cfg.maxPins then some t.refuse
          else t.ocreGpioConfigure cfg r module port pin direction

/-- The four functions that only look whether the port is ready. -/
def wasmPin (port pin : Int) (k : Int → Option GpioReturn) : Option GpioReturn :=
  (globalPin cfg port pin).bind fun g ↦
    (elementAt t.portReady port).bind fun ready ↦ if ¬ ready then some t.refuse else k g

def ocreGpioWasmSet (port pin state : Int) : Option GpioReturn :=
  t.wasmPin cfg port pin fun g ↦ t.ocreGpioPinSet cfg r g (if state ≠ 0 then 1 else 0)

def ocreGpioWasmGet (port pin : Int) : Option GpioReturn :=
  t.wasmPin cfg port pin (t.ocreGpioPinGet cfg r)

def ocreGpioWasmToggle (port pin : Int) : Option GpioReturn :=
  t.wasmPin cfg port pin (t.ocreGpioPinToggle cfg r)

/-- `ocre_gpio_wasm_register_callback`, which compares the global pin before it looks at the
port. -/
def ocreGpioWasmRegisterCallback (port pin : Int) : Option GpioReturn :=
  (globalPin cfg port pin).bind fun g ↦
    if g ≥ cfg.maxPins then some t.refuse
    else (elementAt t.portReady port).bind fun ready ↦
      if ¬ ready then some t.refuse else t.ocreGpioRegisterCallback cfg r g

def ocreGpioWasmUnregisterCallback (port pin : Int) : Option GpioReturn :=
  t.wasmPin cfg port pin (t.ocreGpioUnregisterCallback cfg r)

end GpioTable

/-- The native functions with a port and a pin, and their other arguments. -/
inductive GpioNative
  | configure (module : Option ℕ) (direction : Int)
  | set (state : Int)
  | get
  | toggle
  | registerCallback
  | unregisterCallback
  deriving DecidableEq

/-- What happens to the pin table. A call by name goes on with a ready port and the pin
of the alias. -/
inductive GpioAct
  | init (ready : List Bool)
  | wasm (native : GpioNative) (port pin : Int) (results : DriverResults)
  | byName (native : GpioNative) (port pin : ℕ) (results : DriverResults)
  | cleanup (module : Option ℕ) (results : ℕ → DriverResults)

namespace GpioTable

/-- A native function called with a port and a pin. -/
def wasmCall (cfg : GpioConfig) (native : GpioNative) (port pin : Int) (r : DriverResults)
    (t : GpioTable) : Option GpioReturn :=
  match native with
  | .configure module direction => t.ocreGpioWasmConfigure cfg r module port pin direction
  | .set state => t.ocreGpioWasmSet cfg r port pin state
  | .get => t.ocreGpioWasmGet cfg r port pin
  | .toggle => t.ocreGpioWasmToggle cfg r port pin
  | .registerCallback => t.ocreGpioWasmRegisterCallback cfg r port pin
  | .unregisterCallback => t.ocreGpioWasmUnregisterCallback cfg r port pin

/-- A native function called with a name, once `resolve_gpio_alias` has found the port and
the pin. -/
def byNameCall (cfg : GpioConfig) (native : GpioNative) (port pin : ℕ) (r : DriverResults)
    (t : GpioTable) : Option GpioReturn :=
  match native with
  | .configure module direction =>
      if module.isNone then some t.refuse
      else t.ocreGpioConfigure cfg r module port pin direction
  | .set state => (globalPin cfg port pin).bind fun g ↦
      t.ocreGpioPinSet cfg r g (if state ≠ 0 then 1 else 0)
  | .get => (globalPin cfg port pin).bind (t.ocreGpioPinGet cfg r)
  | .toggle => (globalPin cfg port pin).bind (t.ocreGpioPinToggle cfg r)
  | .registerCallback => (globalPin cfg port pin).bind fun g ↦
      if g ≥ cfg.maxPins then some t.refuse else t.ocreGpioRegisterCallback cfg r g
  | .unregisterCallback => (globalPin cfg port pin).bind (t.ocreGpioUnregisterCallback cfg r)

/-- Whether the act can happen: the initialisation looks at every port, the arguments are
`int`s, and an alias stands for a port that is ready and a pin in 8 bits. -/
def enables (cfg : GpioConfig) (t : GpioTable) : GpioAct → Bool
  | .init ready => ready.length = cfg.maxPorts
  | .wasm _ port pin _ => cIntFits port ∧ cIntFits pin
  | .byName _ port pin _ => t.initialized ∧ elementAt t.portReady port = some true ∧ pin < 256
  | .cleanup .. => true

/-- The table after an act; none if the act was undefined. -/
def perform (cfg : GpioConfig) (a : GpioAct) (t : GpioTable) : Option GpioTable :=
  match a with
  | .init ready => some (t.ocreGpioInit ready).2
  | .wasm native port pin r => (t.wasmCall cfg native port pin r).map GpioReturn.table
  | .byName native port pin r => (t.byNameCall cfg native port pin r).map GpioReturn.table
  | .cleanup module results => t.ocreGpioCleanupContainer cfg results module

/-- The static objects at the start of the program. -/
def static (cfg : GpioConfig) : GpioTable where
  initialized := false
  portReady := List.replicate cfg.maxPorts false
  gpioPins := List.replicate cfg.maxPins {}

end GpioTable

/-- The table over the acts of all modules. After something undefined there is no table
any more. -/
def gpioSystem (cfg : GpioConfig) : StepSystem (Option GpioTable) GpioAct where
  init s := s = some (.static cfg)
  next a s := s.bind fun t ↦ if t.enables cfg a then some (t.perform cfg a) else none

end OcreRuntime
