import OcreRuntime.Container.Model
import OcreRuntime.Wamr.Arguments

/-!
# The arguments of a container

`ocre_container_create` copies the arguments and the environment of the caller, and the runtime
hands them on. What it hands over is built of blocks that belong to the container, so that
nothing that the caller or anybody else does with other blocks changes it, until
`ocre_container_destroy` frees them.
-/

namespace OcreRuntime

/-- `struct ocre_container_args` with its arguments and its environment. -/
structure ArgumentPointers where
  argv : Option Pointer := none
  envp : Option Pointer := none

/-- `struct ocre_container` with what it has allocated. -/
structure ContainerMemory where
  container : Option Pointer
  image : Option Pointer := none
  id : Option Pointer := none
  argv : Option Pointer := none
  envp : Option Pointer := none

/-- A container that has been created. -/
structure ContainerArguments extends ContainerMemory where
  runtimeContext : WamrArguments

/-- What a creation meets besides: whether the runtime is found and the mounts are accepted, and
whether the mutex, the condition variable and the semaphore are initialized. -/
structure ContainerArgumentCalls (ω : Type) extends ArgumentCalls ω where
  sizeofContainer : ℕ := 1
  accepted : Bool := true
  initialized : Bool := true

/-- The label `error_free`. -/
def ContainerMemory.errorFree {ω : Type} (c : ContainerMemory) (m : Memory ω) :
    Option (Memory ω) := do
  let m ← m.stringArrayFree c.argv
  let m ← m.stringArrayFree c.envp
  let m ← m.free c.image
  let m ← m.free c.id
  m.free c.container

/-- Where the name of the image begins in its path. -/
def Memory.imageName {ω : Type} (m : Memory ω) (imgPath : Option Pointer) :
    Option (Option Pointer) :=
  (m.string imgPath).map fun path ↦ imgPath.map fun p ↦
    { p with offset := p.offset + (path.length - (baseName path).length) }

/-- The copies of the arguments and of the environment; false for `goto error_free`. -/
def Libc.dupArguments {ω : Type} (libc : Libc ω) :
    Option ArgumentPointers → Memory ω → Option (Bool × Option Pointer × Option Pointer × Memory ω)
  | none, m => some (true, none, none, m)
  | some arguments, m => do
      let argv ← libc.stringArrayDeepDup arguments.argv m
      let envp ← libc.stringArrayDeepDup arguments.envp argv.2
      some (!((argv.1.isNone && arguments.argv.isSome) || (envp.1.isNone && arguments.envp.isSome)),
        argv.1, envp.1, envp.2)

namespace ContainerArgumentCalls

variable {ω : Type} [DecidableEq ω] (calls : ContainerArgumentCalls ω)

def ocreContainerCreate (imgPath containerId : Option Pointer)
    (arguments : Option ArgumentPointers) (m : Memory ω) :
    Option (Option ContainerArguments × Memory ω) :=
  if ¬ calls.accepted then some (none, m)
  else
    let container := calls.libc.malloc calls.sizeofContainer .record m
    if container.1.isNone then some (none, container.2)
    else do
      let name ← Memory.imageName container.2 imgPath
      let image ← calls.libc.strdup name container.2
      let c : ContainerMemory := { container := container.1, image := image.1 }
      if image.1.isNone then
        let m ← c.errorFree image.2
        some (none, m)
      else
        let id ← calls.libc.strdup containerId image.2
        let c := { c with id := id.1 }
        if id.1.isNone then
          let m ← c.errorFree id.2
          some (none, m)
        else
          let (dup, argv, envp, m) ← calls.libc.dupArguments arguments id.2
          let c := { c with argv := argv, envp := envp }
          if !dup || !calls.initialized then
            let m ← c.errorFree m
            some (none, m)
          else
            let r ← calls.instanceCreate imgPath argv envp m
            match r.1 with
            | none =>
                let m ← c.errorFree r.2
                some (none, m)
            | some w => some (some { c with runtimeContext := w }, r.2)

/-- `ocre_container_destroy` of a container whose status has been read, with what unloading does
to the memory. -/
def ocreContainerDestroy (c : ContainerArguments) (status : OcreContainerStatus)
    (unloading : List (ω × Heap.Act Object)) (m : Memory ω) : Option (Int × Memory ω) :=
  if status ≠ .stopped ∧ status ≠ .created ∧ status ≠ .error then some (-1, m)
  else do
    let m ← calls.instanceDestroy c.runtimeContext unloading m
    let m ← Memory.stringArrayFree m c.argv
    let m ← Memory.stringArrayFree m c.envp
    let m ← Memory.free m c.id
    let m ← Memory.free m c.image
    let m ← Memory.free m c.container
    some (0, m)

end ContainerArgumentCalls

/-- The memory with the container, until that is destroyed, and what its instances have read of
the arguments and of the environment when they were started. -/
structure ArgumentState (ω : Type) where
  memory : Memory ω
  container : Option ContainerArguments
  started : List (List CString × List CString) := []

/-- A step of somebody else at a block of its own, a start of the container, and a call that
destroys it. -/
inductive ArgumentAct (ω : Type)
  | other (o : ω) (act : Heap.Act Object)
  | start
  | destroy (status : OcreContainerStatus) (unloading : List (ω × Heap.Act Object))

namespace ContainerArgumentCalls

variable {ω : Type} [DecidableEq ω] (calls : ContainerArgumentCalls ω)

def argumentStep : ArgumentAct ω → ArgumentState ω → Option (ArgumentState ω)
  | .other o act, s =>
      (Heap.others calls.libc.allocator calls.libc.owner [(o, act)] s.memory).map fun m ↦
        { s with memory := m }
  | .start, s => do
      let c ← s.container
      let r ← c.runtimeContext.wasi.read s.memory
      some { s with started := s.started ++ [r] }
  | .destroy status unloading, s => do
      let c ← s.container
      let r ← calls.ocreContainerDestroy c status unloading s.memory
      some (if r.1 = 0 then { s with memory := r.2, container := none } else s)

/-- The system after a creation. -/
def argumentSystem (imgPath containerId : Option Pointer) (arguments : Option ArgumentPointers)
    (m : Memory ω) : StepSystem (ArgumentState ω) (ArgumentAct ω) where
  init s := ∃ c m', calls.ocreContainerCreate imgPath containerId arguments m = some (some c, m') ∧
    s = { memory := m', container := some c }
  next := calls.argumentStep

end ContainerArgumentCalls

section Creation

variable {ω : Type} {libc : Libc ω} {m m' : Memory ω} {arguments : Option ArgumentPointers}
  {argv envp imgPath containerId : Option Pointer} {path : CString}
  {args env : Option (List CString)}

/-- Both copies are built of new blocks when neither is missing. -/
theorem Libc.built_dupArguments (hdup : libc.dupArguments arguments m = some (true, argv, envp, m'))
    (hargs : m.stringArray (arguments.bind ArgumentPointers.argv) = some args)
    (henv : m.stringArray (arguments.bind ArgumentPointers.envp) = some env) :
    m.Extends m' ∧ ∃ F G, Built argv args F ∧ Built envp env G ∧ m'.Owns libc.owner F ∧
      m'.Owns libc.owner G := by
  cases arguments with
  | none =>
      cases hdup
      obtain rfl := Option.some.inj hargs
      obtain rfl := Option.some.inj henv
      exact ⟨.refl m, [], [], .null, .null, .nil, .nil⟩
  | some arguments =>
      obtain ⟨⟨argv', m₁⟩, hargv, hdup⟩ := Option.bind_eq_some_iff.mp hdup
      obtain ⟨⟨envp', m₂⟩, henvp, hdup⟩ := Option.bind_eq_some_iff.mp hdup
      simp only [Option.some.injEq, Prod.mk.injEq] at hdup
      obtain ⟨hok, rfl, rfl, rfl⟩ := hdup
      have hnull : (argv' = none → arguments.argv = none) ∧
          (envp' = none → arguments.envp = none) := by
        cases argv' <;> cases envp' <;> simp_all
      obtain ⟨hext, F, hF, howns⟩ := built_stringArrayDeepDup hargv hargs hnull.1
      obtain ⟨hext', G, hG, howns'⟩ :=
        built_stringArrayDeepDup henvp (Memory.stringArray_of_extends hext henv) hnull.2
      exact ⟨hext.trans hext', F, G, hF, hG, howns.mono hext', howns'⟩

theorem Libc.exists_dupArguments (hroom : libc.HasRoom)
    (hfits : libc.Fits ((args.getD []).length + 1))
    (hfits' : libc.Fits ((env.getD []).length + 1))
    (hargs : m.stringArray (arguments.bind ArgumentPointers.argv) = some args)
    (henv : m.stringArray (arguments.bind ArgumentPointers.envp) = some env) :
    ∃ argv envp m', libc.dupArguments arguments m = some (true, argv, envp, m') := by
  cases arguments with
  | none => exact ⟨none, none, m, rfl⟩
  | some arguments =>
      obtain ⟨argv, m₁, hargv, hnull⟩ := exists_stringArrayDeepDup hroom hfits hargs
      have hext := (built_stringArrayDeepDup hargv hargs hnull).1
      obtain ⟨envp, m', henvp, hnull'⟩ := exists_stringArrayDeepDup hroom hfits'
        (Memory.stringArray_of_extends hext henv)
      rw [Option.bind_some] at hargv henvp hnull hnull'
      refine ⟨argv, envp, m', ?_⟩
      cases argv <;> cases envp <;> simp_all [dupArguments]

/-- The name of the image is a string in its path. -/
theorem Memory.exists_imageName (hpath : m.string imgPath = some path) :
    ∃ name, m.imageName imgPath = some name ∧ ∃ s, m.string name = some s := by
  cases imgPath with
  | none => cases hpath
  | some p =>
      rw [Memory.imageName, hpath]
      exact ⟨_, rfl, _, Memory.string_drop hpath (Nat.sub_le _ _)⟩

namespace ContainerArgumentCalls

variable [DecidableEq ω] {calls : ContainerArgumentCalls ω} {c : ContainerArguments}

theorem ocreContainerCreate_cases
    (hcreate : calls.ocreContainerCreate imgPath containerId arguments m = some (some c, m')) :
    ∃ (m₁ m₂ : Memory ω) (argv envp : Option Pointer), m.Extends m₁ ∧
      calls.libc.dupArguments arguments m₁ = some (true, argv, envp, m₂) ∧
      calls.instanceCreate imgPath argv envp m₂ = some (some c.runtimeContext, m') := by
  unfold ocreContainerCreate at hcreate
  split at hcreate
  · cases hcreate
  rcases hmalloc : calls.libc.malloc calls.sizeofContainer .record m with ⟨_ | container, m₁⟩ <;>
    rw [hmalloc] at hcreate
  · cases hcreate
  obtain ⟨name, -, hcreate⟩ := Option.bind_eq_some_iff.mp hcreate
  obtain ⟨⟨_ | image, m₂⟩, himage, hcreate⟩ := Option.bind_eq_some_iff.mp hcreate
  · obtain ⟨m₃, -, hcreate⟩ := Option.bind_eq_some_iff.mp hcreate
    cases hcreate
  obtain ⟨⟨_ | id, m₃⟩, hid, hcreate⟩ := Option.bind_eq_some_iff.mp hcreate
  · obtain ⟨m₄, -, hcreate⟩ := Option.bind_eq_some_iff.mp hcreate
    cases hcreate
  obtain ⟨⟨dup, argv, envp, m₄⟩, hdup, hcreate⟩ := Option.bind_eq_some_iff.mp hcreate
  have hext : m.Extends m₃ := (Libc.malloc_cases hmalloc).1.trans
    ((Libc.extends_strdup himage).trans (Libc.extends_strdup hid))
  dsimp only at hcreate
  split at hcreate
  · obtain ⟨m₅, -, hcreate⟩ := Option.bind_eq_some_iff.mp hcreate
    cases hcreate
  next hok =>
    obtain rfl : dup = true := by
      cases dup
      · exact absurd rfl hok
      · rfl
    obtain ⟨⟨_ | w, m₅⟩, hinstance, hcreate⟩ := Option.bind_eq_some_iff.mp hcreate
    · obtain ⟨m₆, -, hcreate⟩ := Option.bind_eq_some_iff.mp hcreate
      cases hcreate
    · obtain ⟨hc, rfl⟩ := Prod.mk.inj (Option.some.inj hcreate)
      obtain rfl := Option.some.inj hc
      exact ⟨m₃, m₄, argv, envp, hext, hdup, hinstance⟩

/-- What the container hands over is decided by blocks of its own. -/
theorem delivers_ocreContainerCreate
    (hcreate : calls.ocreContainerCreate imgPath containerId arguments m = some (some c, m'))
    (hpath : m.string imgPath = some path)
    (hargs : m.stringArray (arguments.bind ArgumentPointers.argv) = some args)
    (henv : m.stringArray (arguments.bind ArgumentPointers.envp) = some env) :
    ∃ H, m'.Owns calls.libc.owner H ∧ ∀ m'' : Memory ω, m''.Owns calls.libc.owner H →
      c.runtimeContext.wasi.Delivers m'' path args env := by
  obtain ⟨m₁, m₂, argv, envp, hext, hdup, hinstance⟩ := ocreContainerCreate_cases hcreate
  obtain ⟨hext', F, G, hF, hG, hownsF, hownsG⟩ := Libc.built_dupArguments hdup
    (Memory.stringArray_of_extends hext hargs) (Memory.stringArray_of_extends hext henv)
  exact ArgumentCalls.delivers_instanceCreate hinstance
    (Memory.string_of_extends (hext.trans hext') hpath) hF hG hownsF hownsG

/-- With room for everything and counts that are an `int`, a creation that meets nothing else
succeeds. -/
theorem exists_ocreContainerCreate {id : CString} (hroom : calls.libc.HasRoom)
    (hfits : calls.libc.Fits ((args.getD []).length + 2))
    (hfits' : calls.libc.Fits ((env.getD []).length + 1))
    (hmax : (args.getD []).length + 2 ≤ intMax) (hmax' : (env.getD []).length ≤ intMax)
    (haccepted : calls.accepted = true) (hinitialized : calls.initialized = true)
    (hloads : calls.loads = true) (hloading : ∀ m : Memory ω,
      (m.others calls.libc.allocator calls.libc.owner calls.loading).isSome = true)
    (hpath : m.string imgPath = some path) (hid : m.string containerId = some id)
    (hargs : m.stringArray (arguments.bind ArgumentPointers.argv) = some args)
    (henv : m.stringArray (arguments.bind ArgumentPointers.envp) = some env) :
    ∃ c m', calls.ocreContainerCreate imgPath containerId arguments m = some (some c, m') := by
  obtain ⟨a, m₁, hmalloc⟩ := Libc.exists_malloc hroom calls.sizeofContainer .record m
  have hext₁ := (Libc.malloc_cases hmalloc).1
  obtain ⟨name, hname, s, hs⟩ := Memory.exists_imageName (Memory.string_of_extends hext₁ hpath)
  obtain ⟨image, m₂, himage⟩ := Libc.exists_strdup hroom hs
  have hext₂ := hext₁.trans (Libc.extends_strdup himage)
  obtain ⟨id, m₃, hid⟩ := Libc.exists_strdup hroom (Memory.string_of_extends hext₂ hid)
  have hext₃ := hext₂.trans (Libc.extends_strdup hid)
  have hargs₃ := Memory.stringArray_of_extends hext₃ hargs
  have henv₃ := Memory.stringArray_of_extends hext₃ henv
  obtain ⟨argv, envp, m₄, hdup⟩ := Libc.exists_dupArguments hroom (hfits.mono (Nat.le_succ _))
    hfits' hargs₃ henv₃
  obtain ⟨hext₄, F, G, hF, hG, hownsF, hownsG⟩ := Libc.built_dupArguments hdup hargs₃ henv₃
  obtain ⟨w, m', hinstance⟩ := ArgumentCalls.exists_instanceCreate hroom hfits hmax hmax' hloads
    hloading (Memory.string_of_extends (hext₃.trans hext₄) hpath) hF hG hownsF hownsG
  refine ⟨{
    container := some { block := a }
    image := some image
    id := some id
    argv := argv
    envp := envp
    runtimeContext := w }, m', ?_⟩
  simp [ocreContainerCreate, haccepted, hinitialized, hmalloc, hname, himage, hid, hdup, hinstance]

/-- Until the container is destroyed its blocks are there, and the starts have read the same. -/
structure Kept (calls : ContainerArgumentCalls ω) (c : ContainerArguments)
    (H : List (ℕ × Object)) (r : List CString × List CString) (s : ArgumentState ω) : Prop where
  container : ∀ c', s.container = some c' → c' = c ∧ s.memory.Owns calls.libc.owner H
  started : ∀ x ∈ s.started, x = r

variable {H : List (ℕ × Object)} {r : List CString × List CString} {s s' : ArgumentState ω}

theorem Kept.step (h : Kept calls c H r s) {a : ArgumentAct ω}
    (hread : ∀ m : Memory ω, m.Owns calls.libc.owner H →
      c.runtimeContext.wasi.read m = some r)
    (hstep : calls.argumentStep a s = some s') : Kept calls c H r s' := by
  cases a with
  | other o act =>
      obtain ⟨m, hm, rfl⟩ := Option.map_eq_some_iff.mp hstep
      refine ⟨fun c' hc' ↦ ?_, h.started⟩
      obtain ⟨rfl, howns⟩ := h.container c' hc'
      exact ⟨rfl, howns.others hm⟩
  | start =>
      obtain ⟨c', hc', hstep⟩ := Option.bind_eq_some_iff.mp hstep
      obtain ⟨x, hx, hstep⟩ := Option.bind_eq_some_iff.mp hstep
      obtain rfl := Option.some.inj hstep
      obtain ⟨rfl, howns⟩ := h.container c' hc'
      refine ⟨h.container, fun y hy ↦ ?_⟩
      rcases List.mem_append.mp hy with hy | hy
      · exact h.started y hy
      · obtain rfl := List.mem_singleton.mp hy
        exact Option.some.inj (hx.symm.trans (hread _ howns))
  | destroy status unloading =>
      obtain ⟨c', hc', hstep⟩ := Option.bind_eq_some_iff.mp hstep
      obtain ⟨result, -, hstep⟩ := Option.bind_eq_some_iff.mp hstep
      obtain rfl := Option.some.inj hstep
      split
      · exact ⟨fun c' hc' ↦ absurd hc' (Option.some_ne_none c').symm, h.started⟩
      · exact h

/-- After a creation that succeeds, as long as the container is not destroyed, and whatever
everybody else does with blocks of their own, each start reads the path of the image with the
arguments behind it and the environment, as the caller had them when it created the
container. -/
theorem delivers_of_run
    (hpath : m.string imgPath = some path)
    (hargs : m.stringArray (arguments.bind ArgumentPointers.argv) = some args)
    (henv : m.stringArray (arguments.bind ArgumentPointers.envp) = some env)
    (hcreate : calls.ocreContainerCreate imgPath containerId arguments m = some (some c, m'))
    {acts : List (ArgumentAct ω)}
    (hrun : (calls.argumentSystem imgPath containerId arguments m).run
      { memory := m', container := some c } acts = some s) :
    (∀ r ∈ s.started, r = (path :: args.getD [], env.getD [])) ∧
      ∀ c', s.container = some c' → c' = c ∧
        c.runtimeContext.wasi.Delivers s.memory path args env ∧
          (calls.argumentStep .start s).isSome = true := by
  obtain ⟨H, howns, hdelivers⟩ := delivers_ocreContainerCreate hcreate hpath hargs henv
  have hkept : Kept calls c H (path :: args.getD [], env.getD []) s := by
    refine StepSystem.RunMeets.invariant (fun a t t' ht _ hstep ↦
      ht.step (fun m hm ↦ (hdelivers m hm).read) hstep) ?_ (StepSystem.runMeets_true _ acts) hrun
    exact ⟨fun c' hc' ↦ ⟨(Option.some.inj hc').symm, howns⟩, by simp⟩
  refine ⟨hkept.started, fun c' hc' ↦ ?_⟩
  obtain ⟨rfl, hmemory⟩ := hkept.container c' hc'
  have hdelivered := hdelivers s.memory hmemory
  refine ⟨rfl, hdelivered, ?_⟩
  rw [argumentStep, hc', Option.bind_eq_bind, Option.bind_some, hdelivered.read]
  rfl

end ContainerArgumentCalls

end Creation

/-- Blocks are put one behind the other. -/
def nextAllocator : Heap.Allocator Bool Object where
  place h _ := if (h.block (h.calls + 10)).isNone then some (h.calls + 10) else none
  block_of_place h := by
    rw [Option.ite_none_right_eq_some] at h
    obtain ⟨hfree, hsome⟩ := h
    rw [← Option.some.inj hsome]
    exact Option.isNone_iff_eq_none.mp hfree

/-- The memory of a caller: a path, an identifier, a block with the arguments `x` and `y`, an
array with these from its second place on, and an empty array. -/
def callerMemory : Memory Bool where
  block
    | 0 => some (true, .chars [47, 97, 0])
    | 1 => some (true, .chars [105, 0])
    | 2 => some (true, .chars [120, 0, 121, 0])
    | 3 => some (true, .pointers
        [some { block := 0 }, some { block := 2 }, some { block := 2, offset := 2 }, none])
    | 4 => some (true, .pointers [none])
    | _ => none

def callerArguments : ArgumentPointers where
  argv := some { block := 3, offset := 1 }
  envp := some { block := 4 }

def callerCalls : ContainerArgumentCalls Bool where
  libc := { allocator := nextAllocator, owner := false }

/-- The container is created; the caller empties its array, frees its strings and starts the
container twice, with a removal in between that is refused. -/
def argumentRun : Option (ArgumentState Bool) := do
  let r ← callerCalls.ocreContainerCreate (some { block := 0 }) (some { block := 1 })
    (some callerArguments) callerMemory
  let c ← r.1
  (callerCalls.argumentSystem (some { block := 0 }) (some { block := 1 }) (some callerArguments)
    callerMemory).run { memory := r.2, container := some c }
    [.other true (.store 3 (.pointers [none])), .other true (.free 2), .start,
      .destroy .running [], .other true (.malloc 1 (.chars [0])), .start]

theorem started_argumentRun :
    ∃ s, argumentRun = some s ∧ s.started.length = 2 ∧
      ∀ r ∈ s.started, r = ([cstring "/a", cstring "x", cstring "y"], []) := by
  have hlength : argumentRun.map (fun s ↦ s.started.length) = some 2 := by decide
  obtain ⟨s, hs, hlength⟩ := Option.map_eq_some_iff.mp hlength
  have hrun := hs
  rw [argumentRun] at hrun
  obtain ⟨⟨created, m⟩, hcreate, hrun⟩ := Option.bind_eq_some_iff.mp hrun
  obtain ⟨c, rfl, hrun⟩ := Option.bind_eq_some_iff.mp hrun
  have hpath : callerMemory.string (some { block := 0 }) = some (cstring "/a") := by decide
  have hargs : callerMemory.stringArray ((some callerArguments).bind ArgumentPointers.argv) =
      some (some [cstring "x", cstring "y"]) := by decide
  have henv : callerMemory.stringArray ((some callerArguments).bind ArgumentPointers.envp) =
      some (some []) := by decide
  exact ⟨s, hs, hlength,
    (ContainerArgumentCalls.delivers_of_run hpath hargs henv hcreate hrun).1⟩

end OcreRuntime
