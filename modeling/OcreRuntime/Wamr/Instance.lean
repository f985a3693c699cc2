import OcreRuntime.Container.Execution

/-!
# The WAMR instance of a container

The function `instance_execute` is cut at each call it makes, so that a kill can
fall between any two of them. Of an instance the model keeps what
`wasm_runtime_terminate` and `wasm_runtime_clear_exception` do to it.
-/

namespace OcreRuntime

/-- The next call of `instance_execute`, with the exit code once it has been read.
Registering the instance with the Ocre API, attaching the shared heap and cleaning
up after them touch neither the pointer nor the exception, and have no point. -/
inductive WamrPoint
  | instantiate
  | clearException
  | semPost
  | executeMain
  | getWasiExitCode
  | deinstantiate (exitCode : Int)
  | clearModuleInst (exitCode : Int)
  | returned (result : Int)
  deriving DecidableEq, Repr

/-- A module instance. `cleared` and `terminated` record whether
`wasm_runtime_clear_exception` and `wasm_runtime_terminate` have been called on it. -/
structure ModuleInstance where
  live : Bool := true
  cleared : Bool := false
  exception : Bool := false
  terminated : Bool := false
  deriving DecidableEq, Repr

/-- `struct wamr_context`, as far as a run uses it. Instances are numbered in the
order of their instantiation, and a deinstantiated one keeps its number. -/
structure WamrContext where
  moduleInst : Option ℕ := none
  instances : List ModuleInstance := []
  deriving DecidableEq, Repr

/-- What the module does in the calls into WAMR. -/
structure WamrExt where
  instantiates : Bool := true
  traps : Bool := false
  exitCode : Int := 0
  deriving DecidableEq, Repr

namespace WamrContext

/-- A call into WAMR on `context->module_inst`. A NULL pointer is left alone here;
that the code makes no such call has to be proved. -/
def onInstance (f : ModuleInstance → ModuleInstance) (ctx : WamrContext) : WamrContext :=
  match ctx.moduleInst with
  | none => ctx
  | some i => { ctx with instances := ctx.instances.modify i f }

/-- The instance that `context->module_inst` points to. -/
def current (ctx : WamrContext) : Option ModuleInstance :=
  ctx.moduleInst.bind (ctx.instances[·]?)

@[simp] theorem onInstance_moduleInst (f : ModuleInstance → ModuleInstance) (ctx : WamrContext) :
    (ctx.onInstance f).moduleInst = ctx.moduleInst := by
  unfold onInstance
  split <;> simp_all

theorem current_onInstance (f : ModuleInstance → ModuleInstance) (ctx : WamrContext) :
    (ctx.onInstance f).current = ctx.current.map f := by
  unfold current onInstance
  split
  · rename_i h
    simp [h]
  · rename_i i h
    simp [h]

theorem forall_onInstance {f : ModuleInstance → ModuleInstance} {ctx : WamrContext}
    {P : ModuleInstance → Prop} (h : ∀ m ∈ ctx.instances, P m)
    (hf : ∀ m, ctx.current = some m → P (f m)) :
    ∀ m ∈ (ctx.onInstance f).instances, P m := by
  unfold onInstance
  split
  · exact h
  · rename_i i hi
    intro m hm
    obtain ⟨j, hj⟩ := List.mem_iff_getElem?.mp hm
    rw [List.getElem?_modify] at hj
    obtain ⟨m₀, hm₀, rfl⟩ := Option.map_eq_some_iff.mp hj
    split
    · rename_i hij
      exact hf m₀ (by simp [current, hi, hij, hm₀])
    · exact h m₀ (List.mem_of_getElem? hm₀)

end WamrContext

/-- `instance_execute` from one point to the next, with whether it posted. -/
def instanceExecute (ext : WamrExt) (p : WamrPoint) (ctx : WamrContext) :
    WamrPoint × WamrContext × Bool :=
  match p with
  | .instantiate =>
      if ext.instantiates then
        (.clearException,
          { moduleInst := some ctx.instances.length, instances := ctx.instances ++ [{}] }, false)
      else (.returned (-1), { ctx with moduleInst := none }, false)
  | .clearException =>
      (.semPost, ctx.onInstance fun m ↦ { m with cleared := true, exception := false }, false)
  | .semPost => (.executeMain, ctx, true)
  | .executeMain =>
      (.getWasiExitCode,
        ctx.onInstance fun m ↦ { m with exception := m.exception || ext.traps }, false)
  | .getWasiExitCode => (.deinstantiate ext.exitCode, ctx, false)
  | .deinstantiate exitCode =>
      (.clearModuleInst exitCode, ctx.onInstance fun m ↦ { m with live := false }, false)
  | .clearModuleInst exitCode => (.returned exitCode, { ctx with moduleInst := none }, false)
  | .returned result => (.returned result, ctx, false)

/-- `instance_kill`, with `wasm_runtime_terminate`. -/
def instanceKill (ctx : WamrContext) : WamrContext × Int :=
  (ctx.onInstance fun m ↦ { m with exception := true, terminated := true }, 0)

/-- `wamr_vtable`: it has neither stop nor pause nor unpause. -/
def wamrVtable : OcreRuntimeVtable WamrPoint WamrContext WamrExt where
  threadEntry := .instantiate
  threadExecute := instanceExecute
  threadResult p := match p with
    | .returned result => some result
    | _ => none
  stop := none
  kill _ := instanceKill
  pause := none
  unpause := none

/-- A container on WAMR, from a context as `instance_create` leaves it. -/
def wamrSystem : StepSystem (ContainerWorld WamrPoint WamrContext) (Act WamrExt) :=
  (containerSystem wamrVtable).restrict fun w ↦ w.container.runtimeContext = {}

/-- A detached container on WAMR, just created. -/
def wamrWorld : ContainerWorld WamrPoint WamrContext := createdWorld true {}

theorem wamrWorld_fresh : wamrWorld.Fresh :=
  createdWorld_fresh true ({} : WamrContext)

theorem wamrWorld_init : wamrSystem.init wamrWorld := ⟨wamrWorld_fresh, rfl⟩

end OcreRuntime
