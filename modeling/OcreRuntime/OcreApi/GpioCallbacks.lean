import OcreRuntime.Lib.Registry
import OcreRuntime.OcreApi.GpioCalls

/-!
# The callbacks of pins

A callback is a structure that `ocre_gpio_register_callback` allocates and adds to the list
of the driver of a port. The record of the pin points to it. Where the driver refuses to go
on, and where a record with a callback is overwritten, the three fall apart.
-/

namespace OcreRuntime

open Function (update)
open GpioTable (defaultConfig)

/-- The pin table, the callbacks in the lists of the ports, and the structures that are
allocated. -/
structure CallbackWorld where
  table : GpioTable
  added : Finset (ℕ × ℕ)
  allocated : Finset ℕ

/-- What a driver call does to the lists; to add a callback replaces its earlier entry, and
a call that fails does nothing. -/
def applyCallback (r : DriverResults) (added : Finset (ℕ × ℕ)) (call : DriverCall) :
    Finset (ℕ × ℕ) :=
  match call.op with
  | .addCallback cb => if r.addCallback = 0 then insert (call.port, cb) added else added
  | .removeCallback cb => if r.removeCallback = 0 then added.erase (call.port, cb) else added
  | _ => added

/-- `k_calloc` and `k_free` in `ocre_gpio_register_callback`. -/
def registerHeap (r : DriverResults) (gpio : GpioPinOcre) (allocated : Finset ℕ) : Finset ℕ :=
  match gpio.cb.or r.calloc with
  | none => allocated
  | some cb =>
      let allocated := if gpio.cb.isNone then insert cb allocated else allocated
      if r.interruptConfigure ≠ 0 then allocated.erase cb
      else if r.addCallback ≠ 0 then allocated.erase cb
      else allocated

/-- `k_free` in `ocre_gpio_unregister_callback`. -/
def unregisterHeap (r : DriverResults) (gpio : GpioPinOcre) (allocated : Finset ℕ) : Finset ℕ :=
  if r.interruptConfigure ≠ 0 then allocated else allocated.erase (gpio.cb.getD 0)

namespace GpioTable

/-- The record that a call comes to by its port and pin. -/
def target (cfg : GpioConfig) (t : GpioTable) (route : GpioRoute) (admits : GpioPinOcre → Bool) :
    Option GpioPinOcre :=
  if t.isReady route.port then t.found (route.index cfg) admits else none

end GpioTable

namespace CallbackWorld

variable (cfg : GpioConfig) (w : CallbackWorld)

/-- The world after a function has returned. -/
def after (r : DriverResults) (x : GpioReturn) (allocated : Finset ℕ) : CallbackWorld where
  table := x.table
  added := x.driver.foldl (applyCallback r) w.added
  allocated := allocated

def nativeCall (native : GpioNative) (r : DriverResults) (route : GpioRoute) :
    Option CallbackWorld :=
  (w.table.nativeCall cfg native r route).map fun x ↦ w.after r x <|
    match native with
    | .registerCallback =>
        (w.table.target cfg route (!·.direction)).elim w.allocated (registerHeap r · w.allocated)
    | .unregisterCallback =>
        (w.table.target cfg route (·.cb.isSome)).elim w.allocated (unregisterHeap r · w.allocated)
    | _ => w.allocated

/-- `ocre_gpio_unregister_callback`, as the clean-up calls it. -/
def ocreGpioUnregisterCallback (r : DriverResults) (pin : ℕ) : Option CallbackWorld :=
  (w.table.ocreGpioUnregisterCallback cfg r pin).map fun x ↦ w.after r x <|
    (w.table.found pin (·.cb.isSome)).elim w.allocated (unregisterHeap r · w.allocated)

/-- One iteration of `ocre_gpio_cleanup_container`. -/
def cleanupPin (r : DriverResults) (module : ℕ) (pin : ℕ) : Option CallbackWorld :=
  (elementAt w.table.gpioPins pin).bind fun gpio ↦
    if gpio.inUse ∧ gpio.owner = some module then
      (if gpio.direction then some w else w.ocreGpioUnregisterCallback cfg r pin).bind fun w ↦
        (elementAt w.table.gpioPins pin).map fun gpio ↦
          { w with table := w.table.setPin pin { gpio with inUse := false, owner := none } }
    else some w

def ocreGpioCleanupContainer (results : ℕ → DriverResults) (module : Option ℕ) :
    Option CallbackWorld :=
  match module with
  | none => some w
  | some module =>
      if ¬ w.table.initialized then some w
      else (List.range cfg.maxPins).foldlM (fun w pin ↦ w.cleanupPin cfg (results pin) module pin) w

def perform (a : GpioAct) : Option CallbackWorld :=
  match a with
  | .init ready => some { w with table := (w.table.ocreGpioInit ready).2 }
  | .wasm native port pin r => w.nativeCall cfg native r (.number port pin)
  | .byName native port pin r => w.nativeCall cfg native r (.name port pin)
  | .cleanup module results => w.ocreGpioCleanupContainer cfg results module

/-- The allocator gives memory that is not allocated. -/
def givesFresh : GpioAct → Bool
  | .wasm _ _ _ r | .byName _ _ _ r => decide (∀ cb ∈ r.calloc, cb ∉ w.allocated)
  | _ => true

theorem table_cleanupPin (r : DriverResults) (module pin : ℕ) :
    (w.cleanupPin cfg r module pin).map CallbackWorld.table =
      w.table.cleanupPin cfg r module pin := by
  unfold cleanupPin GpioTable.cleanupPin
  cases elementAt w.table.gpioPins pin with
  | none => rfl
  | some gpio =>
      simp only [Option.bind_some]
      split_ifs
      · simp [Function.comp_def]
      · simp [ocreGpioUnregisterCallback, after, Option.map_bind, Option.bind_map,
          Function.comp_def]
      · rfl

/-- The table goes its own way. -/
theorem table_perform (a : GpioAct) :
    (w.perform cfg a).map CallbackWorld.table = w.table.perform cfg a := by
  cases a with
  | init ready => rfl
  | wasm native port pin r =>
      simp [perform, CallbackWorld.nativeCall, GpioTable.perform, GpioTable.nativeCall, after,
        Function.comp_def]
  | byName native port pin r =>
      simp [perform, CallbackWorld.nativeCall, GpioTable.perform, GpioTable.nativeCall, after,
        Function.comp_def]
  | cleanup module results =>
      cases module with
      | none => rfl
      | some module =>
          simp only [perform, ocreGpioCleanupContainer, GpioTable.perform,
            GpioTable.ocreGpioCleanupContainer]
          split
          · rfl
          · apply OptionLoop.map_see
            intro w pin
            exact w.table_cleanupPin cfg (results pin) module pin

end CallbackWorld

/-- The table with the drivers and the heap under it. -/
def callbackSystem (cfg : GpioConfig) : StepSystem (Option CallbackWorld) GpioAct where
  init s := s = some ⟨.static cfg, ∅, ∅⟩
  next a s := s.bind fun w ↦
    if w.table.enables cfg a ∧ w.givesFresh a then some (w.perform cfg a) else none

/-- The callback of a record in use, in the list of its port. -/
def GpioPinOcre.entry (gpio : GpioPinOcre) : Option (ℕ × ℕ) :=
  if gpio.inUse then gpio.cb.map (gpio.portIdx, ·) else none

theorem GpioPinOcre.entry_of_none {gpio : GpioPinOcre} (h : gpio.cb = none) :
    gpio.entry = none := by
  rw [entry, h, Option.map_none, ite_self]

theorem GpioPinOcre.inUse_of_entry {gpio : GpioPinOcre} (h : gpio.entry.isSome = true) :
    gpio.inUse = true := by
  by_contra hnot
  rw [entry, if_neg hnot] at h
  cases h

theorem GpioPinOcre.entry_of_some {gpio : GpioPinOcre} {cb : ℕ} (huse : gpio.inUse = true)
    (h : gpio.cb = some cb) : gpio.entry = some (gpio.portIdx, cb) := by
  rw [entry, if_pos huse, h, Option.map_some]

namespace GpioTable

variable {cfg : GpioConfig} {t : GpioTable} {i : ℕ} {gpio new : GpioPinOcre}

def entry (t : GpioTable) (i : ℕ) : Option (ℕ × ℕ) := t.gpioPins[i]?.bind GpioPinOcre.entry

theorem entry_of_getElem? (h : t.gpioPins[i]? = some gpio) : t.entry i = gpio.entry := by
  rw [entry, h, Option.bind_some]

theorem entry_setPin (h : t.gpioPins[i]? = some gpio) :
    (t.setPin i new).entry = update t.entry i new.entry := by
  funext j
  by_cases hj : j = i
  · subst hj
    rw [Function.update_self, entry_of_getElem? (getElem?_setPin_self h)]
  · rw [Function.update_of_ne hj, entry, setPin, Int.toNat_natCast,
      List.getElem?_set_ne (Ne.symm hj), entry]

end GpioTable

namespace CallbackWorld

variable {cfg : GpioConfig} {w : CallbackWorld} {r : DriverResults} {native : GpioNative}
  {route : GpioRoute}

/-- The callbacks in the lists of the ports are those of the records in use, one of each
record, and the structures that are allocated are theirs. -/
def Registered (w : CallbackWorld) : Prop := Registry w.table.entry w.added w.allocated

/-- A pin with a callback is an input. -/
structure Inv (cfg : GpioConfig) (w : CallbackWorld) : Prop where
  registered : w.Registered
  sound : w.table.Sound cfg
  input : ∀ (i : ℕ) (gpio : GpioPinOcre), w.table.gpioPins[i]? = some gpio →
    gpio.inUse = true → gpio.cb.isSome = true → gpio.direction = false

theorem Inv.setPin (h : w.Inv cfg) {i : ℕ} {old new : GpioPinOcre}
    (hold : w.table.gpioPins[i]? = some old)
    (hready : new.inUse = true → w.table.portReady[new.portIdx]? = some true)
    (hinput : new.inUse = true → new.cb.isSome = true → new.direction = false)
    {added : Finset (ℕ × ℕ)} {allocated : Finset ℕ}
    (hregistered : Registry (update w.table.entry i new.entry) added allocated) :
    Inv cfg ⟨w.table.setPin i new, added, allocated⟩ := by
  refine ⟨?_, h.sound.setPin hready, ?_⟩
  · rw [Registered, GpioTable.entry_setPin hold]
    exact hregistered
  · intro j gpio hgpio huse hsome
    rcases GpioTable.getElem?_setPin_cases hgpio with ⟨-, rfl⟩ | ⟨-, hgpio⟩
    · exact hinput huse hsome
    · exact h.input j gpio hgpio huse hsome

/-- A record without a callback is overwritten by another. -/
theorem Inv.overwrite (h : w.Inv cfg) {i : ℕ} {old new : GpioPinOcre}
    (hold : w.table.gpioPins[i]? = some old) (hentry : old.entry = none) (hcb : new.cb = none)
    (hready : new.inUse = true → w.table.portReady[new.portIdx]? = some true) :
    Inv cfg { w with table := w.table.setPin i new } := by
  have hsame : update w.table.entry i new.entry = w.table.entry := by
    rw [GpioPinOcre.entry_of_none hcb, Function.update_eq_self_iff,
      GpioTable.entry_of_getElem? hold, hentry]
  apply h.setPin hold hready
  · intro _ hsome
    rw [hcb] at hsome
    cases hsome
  · rw [hsame]
    exact h.registered

theorem Inv.release (h : w.Inv cfg) {i : ℕ} {gpio : GpioPinOcre}
    (hgpio : w.table.gpioPins[i]? = some gpio) (hcb : gpio.cb = none) :
    Inv cfg { w with table := w.table.setPin i { gpio with inUse := false, owner := none } } := by
  refine h.overwrite hgpio (GpioPinOcre.entry_of_none hcb) hcb ?_
  intro huse
  cases huse

theorem Inv.ocreGpioRegisterCallback (h : w.Inv cfg) {g : Int} (hg : g < cfg.maxPins → 0 ≤ g)
    (hfresh : ∀ cb ∈ r.calloc, cb ∉ w.allocated)
    (hconforms : ∀ gpio ∈ w.table.found g (!·.direction), gpio.cb.isSome = true →
      r.interruptConfigure = 0 ∧ r.addCallback = 0) :
    ∃ x, w.table.ocreGpioRegisterCallback cfg r g = some x ∧
      Inv cfg (w.after r x
        ((w.table.found g (!·.direction)).elim w.allocated (registerHeap r · w.allocated))) := by
  refine ⟨_, h.sound.withPin_eq hg, ?_⟩
  cases hfound : w.table.found g (!·.direction) with
  | none => exact h
  | some gpio =>
      obtain ⟨i, rfl, hget, huse, hadmits⟩ := GpioTable.found_eq_some_iff.mp hfound
      have hdirection : gpio.direction = false := by simpa using hadmits
      cases hcb : gpio.cb with
      | some cb =>
          -- the driver replaces the entry by itself
          obtain ⟨hinterrupt, hadd⟩ := hconforms gpio hfound (by simp [hcb])
          have hentry : w.table.entry i = some (gpio.portIdx, cb) := by
            rw [GpioTable.entry_of_getElem? hget, GpioPinOcre.entry_of_some huse hcb]
          have hself : { gpio with cb := some cb } = gpio := by
            rw [← hcb]
          have hinsert := Finset.insert_eq_of_mem (h.registered.mem_listed hentry)
          simpa [after, applyCallback, registerHeap, hcb, hinterrupt, hadd, hself,
            GpioTable.setPin_eq_self hget, hinsert] using h
      | none =>
          have hself : { gpio with cb := none } = gpio := by
            rw [← hcb]
          cases hcalloc : r.calloc with
          | none => simpa [after, registerHeap, hcb, hcalloc] using h
          | some cb =>
              have herase := Finset.erase_insert (hfresh cb hcalloc)
              by_cases hinterrupt : r.interruptConfigure = 0
              swap
              · simpa [after, applyCallback, registerHeap, hcb, hcalloc, hinterrupt, hself,
                  GpioTable.setPin_eq_self hget, herase] using h
              by_cases hadd : r.addCallback = 0
              swap
              · simpa [after, applyCallback, registerHeap, hcb, hcalloc, hinterrupt, hadd, hself,
                  GpioTable.setPin_eq_self hget, herase] using h
              have hentry : w.table.entry i = none := by
                rw [GpioTable.entry_of_getElem? hget, GpioPinOcre.entry_of_none hcb]
              have hregistered := h.registered.insert (k := gpio.portIdx) hentry
                (hfresh cb hcalloc)
              have hnew : { gpio with cb := some cb }.entry = some (gpio.portIdx, cb) :=
                GpioPinOcre.entry_of_some huse rfl
              rw [← hnew] at hregistered
              have hset : Inv cfg ⟨w.table.setPin i { gpio with cb := some cb },
                  insert (gpio.portIdx, cb) w.added, insert cb w.allocated⟩ := by
                refine h.setPin hget ?_ ?_ hregistered
                · exact fun _ ↦ h.sound.ready i gpio hget huse
                · exact fun _ _ ↦ hdirection
              simpa [after, applyCallback, registerHeap, hcb, hcalloc, hinterrupt, hadd] using hset

theorem Inv.ocreGpioUnregisterCallback (h : w.Inv cfg) {g : Int} (hg : g < cfg.maxPins → 0 ≤ g)
    (hconforms : ∀ gpio ∈ w.table.found g (·.cb.isSome),
      r.interruptConfigure = 0 → r.removeCallback = 0) :
    ∃ x, w.table.ocreGpioUnregisterCallback cfg r g = some x ∧
      Inv cfg (w.after r x
        ((w.table.found g (·.cb.isSome)).elim w.allocated (unregisterHeap r · w.allocated))) := by
  refine ⟨_, h.sound.withPin_eq hg, ?_⟩
  cases hfound : w.table.found g (·.cb.isSome) with
  | none => exact h
  | some gpio =>
      obtain ⟨i, rfl, hget, huse, hsome⟩ := GpioTable.found_eq_some_iff.mp hfound
      obtain ⟨cb, hcb⟩ := Option.isSome_iff_exists.mp hsome
      by_cases hinterrupt : r.interruptConfigure = 0
      swap
      · simpa [after, applyCallback, unregisterHeap, hinterrupt] using h
      have hremove := hconforms gpio hfound hinterrupt
      have hentry : w.table.entry i = some (gpio.portIdx, cb) := by
        rw [GpioTable.entry_of_getElem? hget, GpioPinOcre.entry_of_some huse hcb]
      have hregistered := h.registered.erase hentry
      have hnew : { gpio with cb := none }.entry = none := GpioPinOcre.entry_of_none rfl
      rw [← hnew] at hregistered
      have hset : Inv cfg ⟨w.table.setPin i { gpio with cb := none },
          w.added.erase (gpio.portIdx, cb), w.allocated.erase cb⟩ := by
        refine h.setPin hget ?_ ?_ hregistered
        · exact fun _ ↦ h.sound.ready i gpio hget huse
        · intro _ hsome
          cases hsome
      simpa [after, applyCallback, unregisterHeap, hcb, hinterrupt, hremove] using hset

/-- A configuration finds no callback where it writes. Where there is a callback the driver
lets it be registered again, and lets a callback go when it has disabled the interrupt. -/
def Conforms (cfg : GpioConfig) (native : GpioNative) (r : DriverResults) (w : CallbackWorld)
    (route : GpioRoute) : Prop :=
  GpioTable.Defined cfg native w.table route ∧
    match native with
    | .configure (some _) _ =>
        w.table.configures cfg route = true → r.configure = 0 →
          ∀ gpio ∈ elementAt w.table.gpioPins (route.index8 cfg), gpio.entry = none
    | .registerCallback =>
        ∀ gpio ∈ w.table.target cfg route (!·.direction), gpio.cb.isSome = true →
          r.interruptConfigure = 0 ∧ r.addCallback = 0
    | .unregisterCallback =>
        ∀ gpio ∈ w.table.target cfg route (·.cb.isSome),
          r.interruptConfigure = 0 → r.removeCallback = 0
    | _ => True

/-- The driver disables the interrupt of each callback of the module and lets it go. -/
def CleanupConforms (cfg : GpioConfig) (results : ℕ → DriverResults) (module : Option ℕ)
    (w : CallbackWorld) : Prop :=
  ∀ i < cfg.maxPins, ∀ gpio ∈ w.table.gpioPins[i]?, gpio.owner = module →
    module.isSome = true → gpio.entry.isSome = true →
      (results i).interruptConfigure = 0 ∧ (results i).removeCallback = 0

/-- A configuration that passes its checks. -/
theorem Inv.configured (h : w.Inv cfg) (hports : cfg.maxPorts ≤ 16) (module : ℕ)
    (direction : Int) (hready : w.table.isReady route.port = true)
    (hconforms : r.configure = 0 →
      ∀ gpio ∈ elementAt w.table.gpioPins (route.index8 cfg), gpio.entry = none) :
    Inv cfg (w.after r (w.table.configured cfg r module direction route) w.allocated) := by
  have hsound := h.sound.configured (r := r) hports hready module direction
  unfold GpioTable.configured at hsound ⊢
  by_cases hfail : r.configure ≠ 0
  · rw [if_pos hfail]
    exact h
  rw [if_neg hfail] at hsound ⊢
  by_cases hmax : route.index8 cfg ≥ cfg.maxPins
  · rw [if_pos hmax]
    exact h
  rw [if_neg hmax] at hsound ⊢
  obtain ⟨i, hi⟩ := Int.eq_ofNat_of_zero_le
    (GpioRoute.index8_nonneg cfg (h.sound.ready_lt hready).1)
  obtain ⟨old, hold⟩ : ∃ old, w.table.gpioPins[i]? = some old :=
    h.sound.exists_record (by omega)
  have hentry := hconforms (not_not.mp hfail)
  dsimp only at hsound ⊢
  rw [hi] at hsound hentry ⊢
  rw [elementAt_natCast] at hentry
  apply h.overwrite hold (hentry old hold) rfl
  exact hsound.ready i _ (GpioTable.getElem?_setPin_self hold)

theorem nativeCall_of_refuse (h : w.table.nativeCall cfg native r route = some w.table.refuse)
    (hready : w.table.isReady route.port = false ∨
      ∃ module direction, native = .configure module direction) :
    w.nativeCall cfg native r route = some w := by
  have htarget (hready : w.table.isReady route.port = false) (admits : GpioPinOcre → Bool) :
      w.table.target cfg route admits = none := by
    rw [GpioTable.target, hready, if_neg Bool.false_ne_true]
  unfold CallbackWorld.nativeCall
  rw [h]
  rcases hready with hready | ⟨module, direction, rfl⟩
  · cases native with
    | registerCallback | unregisterCallback =>
        dsimp only
        rw [htarget hready]
        rfl
    | _ => rfl
  · rfl

/-- A call that conforms is defined and keeps the callbacks registered. -/
theorem Inv.nativeCall (h : w.Inv cfg) (hports : cfg.maxPorts ≤ 16)
    (hpins : cfg.pinsPerPort ≤ 64) (henables : w.table.enables cfg (route.act native r) = true)
    (hfresh : ∀ cb ∈ r.calloc, cb ∉ w.allocated) (hconforms : w.Conforms cfg native r route) :
    ∃ w', w.nativeCall cfg native r route = some w' ∧ w'.Inv cfg := by
  obtain ⟨hdefined, hconforms⟩ := hconforms
  by_cases hconfigure : ∃ module direction, native = .configure module direction
  · obtain ⟨module, direction, rfl⟩ := hconfigure
    cases module with
    | none =>
        refine ⟨w, nativeCall_of_refuse ?_ (.inr ⟨_, _, rfl⟩), h⟩
        cases route <;> rfl
    | some module =>
        have hx := h.sound.configure_eq hports hpins henables hdefined
        by_cases hpass : w.table.configures cfg route = true
        · rw [if_pos hpass] at hx
          refine ⟨_, congrArg _ hx, h.configured hports module direction ?_ (hconforms hpass)⟩
          exact GpioTable.isReady_of_configures hpass
        · rw [if_neg hpass] at hx
          exact ⟨w, nativeCall_of_refuse hx (.inr ⟨_, _, rfl⟩), h⟩
  · push Not at hconfigure
    obtain ⟨hx, hg⟩ := h.sound.nativeCall_eq hports hpins henables hconfigure hdefined
    by_cases hready : w.table.isReady route.port = true
    swap
    · rw [if_neg hready] at hx
      exact ⟨w, nativeCall_of_refuse hx (.inl (Bool.eq_false_iff.mpr hready)), h⟩
    rw [if_pos hready] at hx
    have htarget (admits : GpioPinOcre → Bool) :
        w.table.target cfg route admits = w.table.found (route.index cfg) admits :=
      if_pos hready
    unfold CallbackWorld.nativeCall
    rw [hx]
    cases native with
    | configure module direction => exact absurd rfl (hconfigure module direction)
    | set | get | toggle =>
        refine ⟨_, congrArg _ (h.sound.withPin_eq (hg hready)), ?_⟩
        cases GpioTable.found w.table _ _ <;> exact h
    | registerCallback =>
        dsimp only at hconforms ⊢
        rw [htarget] at hconforms ⊢
        obtain ⟨x, hx, hinv⟩ := h.ocreGpioRegisterCallback (hg hready) hfresh hconforms
        exact ⟨_, congrArg _ hx, hinv⟩
    | unregisterCallback =>
        dsimp only at hconforms ⊢
        rw [htarget] at hconforms ⊢
        obtain ⟨x, hx, hinv⟩ := h.ocreGpioUnregisterCallback (hg hready) hconforms
        exact ⟨_, congrArg _ hx, hinv⟩

theorem Inv.cleanupPin (h : w.Inv cfg) {module pin : ℕ} (hpin : pin < cfg.maxPins)
    (hconforms : ∀ gpio ∈ w.table.gpioPins[pin]?, gpio.owner = some module →
      gpio.entry.isSome = true → r.interruptConfigure = 0 ∧ r.removeCallback = 0) :
    ∃ w', w.cleanupPin cfg r module pin = some w' ∧ w'.Inv cfg := by
  obtain ⟨gpio, hgpio⟩ := h.sound.exists_record hpin
  unfold CallbackWorld.cleanupPin
  rw [elementAt_natCast, hgpio, Option.bind_some]
  by_cases hown : gpio.inUse = true ∧ gpio.owner = some module
  swap
  · rw [if_neg hown]
    exact ⟨w, rfl, h⟩
  rw [if_pos hown]
  have hresults (hsome : gpio.cb.isSome = true) :
      r.interruptConfigure = 0 ∧ r.removeCallback = 0 := by
    obtain ⟨cb, hcb⟩ := Option.isSome_iff_exists.mp hsome
    apply hconforms gpio hgpio hown.2
    rw [GpioPinOcre.entry_of_some hown.1 hcb, Option.isSome_some]
  by_cases hdirection : gpio.direction = true
  · have hcb : gpio.cb = none := by
      rw [← Option.not_isSome_iff_eq_none]
      intro hsome
      exact Bool.false_ne_true ((h.input pin gpio hgpio hown.1 hsome).symm.trans hdirection)
    rw [if_pos hdirection, Option.bind_some, elementAt_natCast, hgpio]
    exact ⟨_, rfl, h.release hgpio hcb⟩
  · rw [if_neg hdirection]
    obtain ⟨x, hx, hinv⟩ := h.ocreGpioUnregisterCallback (r := r) (g := pin)
      (fun _ ↦ Int.natCast_nonneg pin) (by
        intro found hfound _
        obtain ⟨i, hi, hget, -, hsome⟩ := GpioTable.found_eq_some_iff.mp hfound
        obtain rfl : pin = i := by omega
        obtain rfl := Option.some.inj (hgpio.symm.trans hget)
        exact (hresults hsome).2)
    -- nothing is left of the callback when its record is released
    have htable := h.sound.table_unregister (r := r) hgpio hown.1
    rw [hx, Option.map_some] at htable
    have hcb : (if r.interruptConfigure = 0 then none else gpio.cb) = none := by
      by_cases hsome : gpio.cb.isSome = true
      · rw [if_pos (hresults hsome).1]
      · rw [Option.not_isSome_iff_eq_none.mp hsome, ite_self]
    rw [hcb] at htable
    have hgpio' : x.table.gpioPins[pin]? = some { gpio with cb := none } := by
      rw [Option.some.inj htable, GpioTable.getElem?_setPin_self hgpio]
    rw [CallbackWorld.ocreGpioUnregisterCallback, hx, Option.map_some, Option.bind_some, after,
      elementAt_natCast, hgpio']
    exact ⟨_, rfl, hinv.release hgpio' rfl⟩

/-- Each record in use is as it is in the table. -/
def RemainsOf (t : GpioTable) (w : CallbackWorld) : Prop :=
  ∀ (i : ℕ) (gpio : GpioPinOcre), w.table.gpioPins[i]? = some gpio → gpio.inUse = true →
    t.gpioPins[i]? = some gpio

theorem Inv.remainsOf_cleanupPin (h : w.Inv cfg) {module pin : ℕ} {w' : CallbackWorld}
    (hw' : w.cleanupPin cfg r module pin = some w') : RemainsOf w.table w' := by
  intro i gpio hgpio huse
  have htable := w.table_cleanupPin cfg r module pin
  rw [hw', Option.map_some] at htable
  cases hold : w.table.gpioPins[pin]? with
  | none =>
      rw [GpioTable.cleanupPin, elementAt_natCast, hold] at htable
      cases htable
  | some old =>
      by_cases hown : old.inUse = true ∧ old.owner = some module
      · rw [h.sound.cleanupPin_of_owned hold hown] at htable
        rw [Option.some.inj htable] at hgpio
        rcases GpioTable.getElem?_setPin_cases hgpio with ⟨-, rfl⟩ | ⟨-, hgpio⟩
        · cases huse
        · exact hgpio
      · rw [GpioTable.cleanupPin_of_not_owned hold hown] at htable
        rwa [Option.some.inj htable] at hgpio

theorem Inv.ocreGpioCleanupContainer (h : w.Inv cfg) {results : ℕ → DriverResults}
    {module : Option ℕ} (hconforms : w.CleanupConforms cfg results module) :
    ∃ w', w.ocreGpioCleanupContainer cfg results module = some w' ∧ w'.Inv cfg := by
  cases module with
  | none => exact ⟨w, rfl, h⟩
  | some module =>
      dsimp only [CallbackWorld.ocreGpioCleanupContainer]
      by_cases hinit : w.table.initialized = true
      swap
      · rw [if_pos hinit]
        exact ⟨w, rfl, h⟩
      rw [if_neg (not_not.mpr hinit)]
      have hstep (u : CallbackWorld) (pin : ℕ) (hpin : pin ∈ List.range cfg.maxPins)
          (hu : u.Inv cfg ∧ RemainsOf w.table u) :
          ∃ w', u.cleanupPin cfg (results pin) module pin = some w' ∧
            w'.Inv cfg ∧ RemainsOf w.table w' := by
        -- a pin that is still to come is as it was
        have hresults (gpio : GpioPinOcre) (hgpio : gpio ∈ u.table.gpioPins[pin]?)
            (howner : gpio.owner = some module) (hsome : gpio.entry.isSome = true) :=
          hconforms pin (List.mem_range.mp hpin) gpio
            (hu.2 pin gpio hgpio (GpioPinOcre.inUse_of_entry hsome)) howner rfl hsome
        obtain ⟨w', hw', hinv⟩ := hu.1.cleanupPin (List.mem_range.mp hpin) hresults
        refine ⟨w', hw', hinv, ?_⟩
        intro i gpio hgpio huse
        exact hu.2 i gpio (hu.1.remainsOf_cleanupPin hw' i gpio hgpio huse) huse
      obtain ⟨w', hw', hinv, -⟩ := OptionLoop.exists_of_steps hstep ⟨h, fun _ _ hgpio _ ↦ hgpio⟩
      exact ⟨w', hw', hinv⟩

/-- The act conforms. -/
def ActConforms (cfg : GpioConfig) (a : GpioAct) (s : Option CallbackWorld) : Prop :=
  match a with
  | .init _ => True
  | .wasm native port pin r => ∀ w ∈ s, w.Conforms cfg native r (.number port pin)
  | .byName native port pin r => ∀ w ∈ s, w.Conforms cfg native r (.name port pin)
  | .cleanup module results => ∀ w ∈ s, w.CleanupConforms cfg results module

instance : Decidable (w.Conforms cfg native r route) :=
  match native with
  | .configure (some _) _ =>
      inferInstanceAs (Decidable (GpioTable.Defined .. ∧
        (_ = true → _ = _ → ∀ gpio ∈ elementAt w.table.gpioPins _, gpio.entry = none)))
  | .registerCallback =>
      inferInstanceAs (Decidable (GpioTable.Defined .. ∧
        ∀ gpio ∈ w.table.target .., gpio.cb.isSome = true → _ = _ ∧ _ = _))
  | .unregisterCallback =>
      inferInstanceAs (Decidable (GpioTable.Defined .. ∧ ∀ _ ∈ w.table.target .., _ = _ → _ = _))
  | .configure none _ | .set _ | .get | .toggle =>
      inferInstanceAs (Decidable (GpioTable.Defined .. ∧ True))

instance (results : ℕ → DriverResults) (module : Option ℕ) :
    Decidable (w.CleanupConforms cfg results module) :=
  inferInstanceAs (Decidable (∀ i < cfg.maxPins, ∀ gpio ∈ w.table.gpioPins[i]?,
    gpio.owner = module → module.isSome = true → gpio.entry.isSome = true →
      (results i).interruptConfigure = 0 ∧ (results i).removeCallback = 0))

instance (a : GpioAct) (s : Option CallbackWorld) : Decidable (ActConforms cfg a s) :=
  match a, s with
  | .wasm native port pin r, some w =>
      decidable_of_iff (w.Conforms cfg native r (.number port pin)) (by simp [ActConforms])
  | .byName native port pin r, some w =>
      decidable_of_iff (w.Conforms cfg native r (.name port pin)) (by simp [ActConforms])
  | .cleanup module results, some w =>
      decidable_of_iff (w.CleanupConforms cfg results module) (by simp [ActConforms])
  | .wasm .., none | .byName .., none | .cleanup .., none => .isTrue (by simp [ActConforms])
  | .init _, _ => .isTrue trivial

theorem Inv.perform (h : w.Inv cfg) (hports : cfg.maxPorts ≤ 16) (hpins : cfg.pinsPerPort ≤ 64)
    {a : GpioAct} (henables : w.table.enables cfg a = true) (hfresh : w.givesFresh a = true)
    (hconforms : ActConforms cfg a (some w)) : ∃ w', w.perform cfg a = some w' ∧ w'.Inv cfg := by
  cases a with
  | init ready =>
      have hpins : (w.table.ocreGpioInit ready).2.gpioPins = w.table.gpioPins := by
        unfold GpioTable.ocreGpioInit
        split_ifs <;> rfl
      have hentry : (w.table.ocreGpioInit ready).2.entry = w.table.entry := by
        funext i
        rw [GpioTable.entry, GpioTable.entry, hpins]
      refine ⟨_, rfl, ?_, h.sound.ocreGpioInit (of_decide_eq_true henables), ?_⟩
      · rw [Registered, hentry]
        exact h.registered
      · intro i gpio hgpio
        exact h.input i gpio (hpins ▸ hgpio)
  | wasm native port pin r =>
      exact @Inv.nativeCall cfg w r native (.number port pin) h hports hpins henables
        (of_decide_eq_true hfresh) (hconforms w rfl)
  | byName native port pin r =>
      exact @Inv.nativeCall cfg w r native (.name port pin) h hports hpins henables
        (of_decide_eq_true hfresh) (hconforms w rfl)
  | cleanup module results => exact h.ocreGpioCleanupContainer (hconforms w rfl)

theorem Inv.initial : Inv cfg ⟨.static cfg, ∅, ∅⟩ where
  registered := by
    have hentry : (GpioTable.static cfg).entry = fun _ ↦ none := by
      funext i
      rw [GpioTable.entry, Option.bind_eq_none_iff]
      intro gpio hgpio
      obtain rfl := List.eq_of_mem_replicate (List.mem_of_getElem? hgpio)
      rfl
    rw [Registered, hentry]
    exact .empty
  sound := GpioTable.sound_static cfg
  input i gpio hgpio huse := by
    obtain rfl := List.eq_of_mem_replicate (List.mem_of_getElem? hgpio)
    cases huse

variable {s s' : Option CallbackWorld} {a : GpioAct}

theorem inv_of_reachableWhere (hports : cfg.maxPorts ≤ 16) (hpins : cfg.pinsPerPort ≤ 64)
    (hs : (callbackSystem cfg).ReachableWhere (ActConforms cfg) s) :
    ∃ w, s = some w ∧ w.Inv cfg := by
  refine StepSystem.ReachableWhere.invariant
    (I := fun s : Option CallbackWorld ↦ ∃ w, s = some w ∧ w.Inv cfg) ?_ ?_ hs
  · rintro s rfl
    exact ⟨_, rfl, .initial⟩
  · rintro a s s' ⟨w, heq, hinv⟩ hconforms hnext
    obtain ⟨w, rfl, ⟨henables, hfresh⟩, rfl⟩ := StepSystem.eq_some_of_enabled hnext
    obtain rfl := Option.some.inj heq
    exact hinv.perform hports hpins henables hfresh hconforms

/-- The act is defined, and the callbacks are registered after it. -/
def StaysRegistered (_ : GpioAct) (_ s' : Option CallbackWorld) : Prop :=
  ∃ w', s' = some w' ∧ w'.Registered

/-- In a run whose acts conform, the callbacks are registered after each step. -/
theorem runKeeps_staysRegistered (hports : cfg.maxPorts ≤ 16) (hpins : cfg.pinsPerPort ≤ 64)
    (hinit : (callbackSystem cfg).init s) {as : List GpioAct}
    (hmeets : (callbackSystem cfg).RunMeets (ActConforms cfg) s as) :
    (callbackSystem cfg).RunKeeps StaysRegistered s as := by
  refine StepSystem.ReachableWhere.runKeeps ?_ (.start hinit) hmeets
  intro a s s' hs hconforms hnext
  obtain ⟨w', rfl, hinv⟩ := inv_of_reachableWhere hports hpins (.step a hs hconforms hnext)
  exact ⟨w', rfl, hinv.registered⟩

/-- Both ports with a device, and an input pin of port 1 with callback 9. -/
def oneRegistered : List GpioAct :=
  [.init [true, true, false, false, false, false, false, false],
    .wasm (.configure (some 7) 0) 1 5 { calloc := none },
    .wasm .registerCallback 1 5 { calloc := some 9 }]

/-- The callback is registered again, unregistered, registered anew and released with its
pin; another one is refused by the driver. -/
theorem runKeeps_staysRegistered_of_oneRegistered :
    (callbackSystem defaultConfig).RunKeeps StaysRegistered
      (some ⟨.static defaultConfig, ∅, ∅⟩)
      (oneRegistered ++
        [.wasm .registerCallback 1 5 { calloc := none },
          .byName .unregisterCallback 1 5 { calloc := none },
          .byName .registerCallback 1 5 { calloc := some 8 },
          .wasm (.configure (some 6) 0) 0 2 { calloc := none },
          .wasm .registerCallback 0 2 { interruptConfigure := -5, calloc := some 9 },
          .cleanup (some 7) fun _ ↦ { calloc := none }]) :=
  runKeeps_staysRegistered (by decide) (by decide) rfl (by decide +kernel)

/-- To register the callback again fails: it is freed, and the driver still has it. -/
theorem not_runKeeps_staysRegistered_of_again :
    ¬ ∀ s as, (callbackSystem defaultConfig).init s →
      (callbackSystem defaultConfig).RunKeeps StaysRegistered s as := by
  intro h
  have hkeeps := h (some ⟨.static defaultConfig, ∅, ∅⟩)
    (oneRegistered ++
      [.wasm .registerCallback 1 5 { interruptConfigure := -5, calloc := none }]) rfl
  obtain ⟨w, hw, hregistered⟩ := ((((hkeeps _ rfl).2 _ rfl).2 _ rfl).2 _ rfl).1
  obtain rfl := Option.some.inj hw
  obtain ⟨i, hi⟩ := (hregistered.listed (1, 9)).mp (by decide +kernel)
  exact absurd (hregistered.mem_alive hi) (by decide +kernel)

end CallbackWorld

end OcreRuntime
