import Mathlib.Logic.Function.Basic
import OcreRuntime.Util.RmRfLinks

/-!
# The context and its containers

The operations of a context as they are under the context mutex, whose lock and
unlock calls succeed. A container is a pointer into the heap of the live ones; the
file system is part of the state. What other calls return is given by the caller.
The build has `CONFIG_OCRE_FILESYSTEM`; without it a context behaves as if no
container had the capability.
-/

namespace OcreRuntime

/-- `ocre_is_valid_name`, for the characters of the C locale. -/
def ocreIsValidName (id : Option CString) : Bool :=
  match id with
  | none => false
  | some id => match id with
      | [] => false
      | c :: _ => c ≠ 46 ∧ id.all fun c ↦
          (97 ≤ c ∧ c ≤ 122) ∨ (48 ≤ c ∧ c ≤ 57) ∨ c = 46 ∨ c = 95 ∨ c = 45

/-- `struct ocre_container_args`. -/
structure ContainerArgs where
  argv : Option (List CString) := none
  envp : Option (List CString) := none
  capabilities : Option (List CString) := none
  mounts : Option (List CString) := none
  deriving DecidableEq

structure ContainerFds where
  stdin : Int := 0
  stdout : Int := 1
  stderr : Int := 2
  deriving DecidableEq

/-- The arguments of the function `create` of a runtime. -/
structure RuntimeCreateArgs where
  containerId : CString
  imgPath : CString
  workdir : Option CString
  capabilities : Option (List CString)
  argv : Option (List CString)
  envp : Option (List CString)
  mounts : Option (List CString)
  fds : ContainerFds

/-- The calls of a creation that can fail on their own. -/
inductive CreatePoint
  | randomId
  | node
  | imagePath
  | workdir
  | mkdir
  | container
  | image
  | id
  | argv
  | envp
  | mutexInit
  | condInit
  | semInit
  deriving DecidableEq, Repr

/-- What a creation finds outside: which calls fail, the values of `rand`, the
address of the container, the registered runtimes by name, and the failures of the
clean-up. -/
structure CreateCalls (Ctx : Type) where
  fails : CreatePoint → Bool := fun _ ↦ false
  rand : ℕ → ℕ
  pointer : ℕ
  runtimes : CString → Option (RuntimeCreateArgs → Option Ctx)
  rmRf : ℕ → RmRfFaults := noRmRfFaults

/-- A mount is `<source>:<destination>` with absolute paths, and not at the root. -/
def validMount (mount : CString) : Bool :=
  mount.head? = some 47 && match mount.dropWhile (· ≠ 58) with
    | _ :: 47 :: _ :: _ => true
    | _ => false

/-- What follows the last slash, as by `strrchr`. -/
def baseName (path : CString) : CString := (path.reverse.takeWhile (· ≠ 47)).reverse

def ContainerFds.defaults (fds : ContainerFds) : ContainerFds where
  stdin := if fds.stdin < 0 then 0 else fds.stdin
  stdout := if fds.stdout < 0 then 1 else fds.stdout
  stderr := if fds.stderr < 0 then 2 else fds.stderr

/-- `string_array_deep_dup`, when its allocations fail or not. -/
def stringArrayDeepDup (fails : Bool) (src : Option (List CString)) : Option (List CString) :=
  if fails then none else src

/-- `ocre_container_create`, which returns NULL on every error. -/
def ocreContainerCreate {Ctx : Type} (imgPath : CString) (workdir : Option CString)
    (runtime : Option CString) (containerId : CString) (detached : Bool)
    (arguments : Option ContainerArgs) (fds : ContainerFds) (calls : CreateCalls Ctx) :
    Option (OcreContainer Ctx) :=
  let runtime := runtime.getD (cstring "wamr/wasip1")
  let mounts := arguments.bind ContainerArgs.mounts
  let argv := arguments.bind ContainerArgs.argv
  let envp := arguments.bind ContainerArgs.envp
  if ¬ (mounts.getD []).all validMount then none
  else if calls.fails .container ∨ calls.fails .image ∨ calls.fails .id then none
  else
    let argvDup := stringArrayDeepDup (calls.fails .argv) argv
    let envpDup := stringArrayDeepDup (calls.fails .envp) envp
    if (argvDup.isNone ∧ argv.isSome) ∨ (envpDup.isNone ∧ envp.isSome) then none
    else match calls.runtimes runtime with
      | none => none
      | some create =>
          if calls.fails .mutexInit ∨ calls.fails .condInit ∨ calls.fails .semInit then none
          else (create {
              containerId := containerId
              imgPath := imgPath
              workdir := workdir
              capabilities := arguments.bind ContainerArgs.capabilities
              argv := argvDup
              envp := envpDup
              mounts := mounts
              fds := fds.defaults }).map fun ctx ↦ {
            id := containerId
            image := baseName imgPath
            detached := detached
            status := .created
            semStart := []
            runtimeContext := ctx
            thread := 0
            attr := false
            argv := argvDup
            envp := envpDup
            exitCode := 0 }

/-- `ocre_container_destroy`: the container with -1, or nothing with 0. -/
def ocreContainerDestroy {Ctx : Type} (joinRc : Int) (c : OcreContainer Ctx) :
    Option (OcreContainer Ctx) :=
  let (status, c) := ocreContainerStatusLocked joinRc c
  if status ≠ .stopped ∧ status ≠ .created ∧ status ≠ .error then some c else none

/-- The parameters of `ocre_context_create_container`. -/
structure CreateArgs where
  image : Option CString
  runtime : Option CString := none
  containerId : Option CString
  detached : Bool := true
  arguments : Option ContainerArgs := none
  fds : ContainerFds := {}

def CreateArgs.filesystem (args : CreateArgs) : Bool :=
  ((args.arguments.bind ContainerArgs.capabilities).getD []).contains (cstring "filesystem")

/-- What a creation has settled when it comes to the working directory, whose path
has been built if there is to be one. -/
structure CreateTarget where
  image : CString
  id : CString
  workdir : Option CString

/-- What a removal finds outside: the result of `pthread_join` and the failures of
`rm_rf`. -/
structure RemoveCalls where
  joinRc : Int := 0
  rmRf : ℕ → RmRfFaults := noRmRfFaults

structure ContainerNode where
  container : ℕ
  workingDirectory : Option CString
  deriving DecidableEq

/-- The call of `rm_rf` on the working directory of a node, if it has one. -/
def ContainerNode.removeWorkdir (node : ContainerNode) (maxLinks : ℕ) (faults : ℕ → RmRfFaults)
    (tree : FileSystem) : Int × FileSystem :=
  match node.workingDirectory with
  | none => (0, tree)
  | some workdir => rmRfPath maxLinks faults (some workdir) tree

/-- `struct ocre_context`; the list is in the order of its links. -/
structure OcreContext where
  workingDirectory : CString
  containers : List ContainerNode

/-- A context, the live containers by address, and the file system, in which a path may lead
through so many links. -/
structure ContextState (Ctx : Type) where
  context : OcreContext
  heap : ℕ → Option (OcreContainer Ctx)
  tree : FileSystem
  maxLinks : ℕ
  freed : Bool

namespace ContextState

open Function (update)

variable {Ctx : Type}

/-- The loop of `ocre_context_get_container_by_id_locked`. A destroyed container has
no ID to get; that none is met has to be proved. -/
def findById (heap : ℕ → Option (OcreContainer Ctx)) (id : CString) :
    List ContainerNode → Option ℕ
  | [] => none
  | node :: nodes => match heap node.container with
      | none => none
      | some c => if c.id = id then some node.container else findById heap id nodes

def getContainerByIdLocked (s : ContextState Ctx) (id : CString) : Option ℕ :=
  findById s.heap id s.context.containers

def nibbleToHex (nibble : ℕ) : UInt8 :=
  if nibble < 10 then 48 + nibble.toUInt8 else 97 + nibble.toUInt8 - 10

/-- `RAND_MAX` of the C library. -/
def randMax : ℕ := 2147483647

/-- The `i`-th call of `generate_random_id` with length 8. -/
def generateRandomId (rand : ℕ → ℕ) (i : ℕ) : CString :=
  (List.range 7).map fun j ↦ nibbleToHex (15 &&& rand (7 * i + j) / (randMax / 16))

/-- `make_unique_random_container_id`: the first of 100 IDs that is not taken. -/
def makeUniqueRandomContainerId (s : ContextState Ctx) (calls : CreateCalls Ctx) :
    Option CString :=
  if calls.fails .randomId then none
  else ((List.range 100).map (generateRandomId calls.rand)).find? fun id ↦
    (s.getContainerByIdLocked id).isNone

/-- The name checks and the choice of an ID. -/
def computedContainerId (s : ContextState Ctx) (args : CreateArgs) (calls : CreateCalls Ctx) :
    Option CString :=
  match args.containerId with
  | none => s.makeUniqueRandomContainerId calls
  | some id => if (s.getContainerByIdLocked id).isSome then none else some id

def imagePath (s : ContextState Ctx) (image : CString) : CString :=
  s.context.workingDirectory ++ cstring "/images/" ++ image

def containerWorkdir (s : ContextState Ctx) (id : CString) : CString :=
  s.context.workingDirectory ++ cstring "/containers/" ++ id

/-- The label `error` with a working directory to clean up. -/
def createError (s : ContextState Ctx) (workdir : Option CString) (calls : CreateCalls Ctx) :
    Option ℕ × ContextState Ctx :=
  match workdir with
  | none => (none, s)
  | some workdir =>
      (none, { s with tree := (rmRfPath s.maxLinks calls.rmRf (some workdir) s.tree).2 })

/-- `ocre_context_create_container` up to its call of `mkdir`; the errors until there
have nothing to clean up. -/
def createTarget (s : ContextState Ctx) (args : CreateArgs) (calls : CreateCalls Ctx) :
    Option CreateTarget :=
  if args.containerId.isSome ∧ ¬ ocreIsValidName args.containerId then none
  else match args.image with
    | none => none
    | some image =>
        if ¬ ocreIsValidName (some image) then none
        else match s.computedContainerId args calls with
          | none => none
          | some id =>
              if calls.fails .node ∨ calls.fails .imagePath then none
              else if args.filesystem then
                if calls.fails .workdir then none
                else some ⟨image, id, some (s.containerWorkdir id)⟩
              else some ⟨image, id, none⟩

/-- The call of `mkdir`, if there is one: the file system after it. -/
def makeWorkdir (s : ContextState Ctx) (workdir : Option CString) (calls : CreateCalls Ctx) :
    Option FileSystem :=
  match workdir with
  | none => some s.tree
  | some workdir => if calls.fails .mkdir then none else s.tree.mkdirPath s.maxLinks workdir

def ocreContextCreateContainer (s : ContextState Ctx) (args : CreateArgs)
    (calls : CreateCalls Ctx) : Option ℕ × ContextState Ctx :=
  match s.createTarget args calls with
  | none => (none, s)
  | some target => match s.makeWorkdir target.workdir calls with
      | none => s.createError target.workdir calls
      | some tree =>
          match ocreContainerCreate (s.imagePath target.image) target.workdir args.runtime
              target.id args.detached args.arguments args.fds calls with
          | none => { s with tree := tree }.createError target.workdir calls
          | some c => (some calls.pointer, { s with
              tree := tree
              heap := update s.heap calls.pointer (some c)
              context := { s.context with
                containers := s.context.containers ++ [⟨calls.pointer, target.workdir⟩] } })

/-- `ocre_context_remove_container_locked`. A listed container that has been
destroyed before is not looked into here; that there is none has to be proved. -/
def removeContainerLocked (s : ContextState Ctx) (container : ℕ) (calls : RemoveCalls) :
    Int × ContextState Ctx :=
  match s.context.containers.find? (·.container = container), s.heap container with
  | some node, some c =>
      match ocreContainerDestroy calls.joinRc c with
      | some c => (-1, { s with heap := update s.heap container (some c) })
      | none =>
          let r := node.removeWorkdir s.maxLinks calls.rmRf s.tree
          if r.1 ≠ 0 then (-1, { s with heap := update s.heap container none, tree := r.2 })
          else (0, { s with
            heap := update s.heap container none
            tree := r.2
            context := { s.context with
              containers := s.context.containers.eraseP (·.container = container) } })
  | _, _ => (-1, s)

/-- `ocre_context_remove_container`; `none` is NULL. -/
def ocreContextRemoveContainer (s : ContextState Ctx) (container : Option ℕ)
    (calls : RemoveCalls) : Int × ContextState Ctx :=
  match container with
  | none => (-1, s)
  | some container => s.removeContainerLocked container calls

def ocreContextGetContainerById (s : ContextState Ctx) (id : Option CString) : Option ℕ :=
  id.bind s.getContainerByIdLocked

def ocreContextGetContainerCount (s : ContextState Ctx) : Int := s.context.containers.length

/-- The loop of `ocre_context_get_containers`, from a count on. -/
def collectContainers (maxSize : Int) : Int → List ContainerNode → List ℕ
  | _, [] => []
  | count, node :: nodes =>
      if count ≥ maxSize then []
      else node.container :: collectContainers maxSize (count + 1) nodes

/-- The return value and what has been stored; `given` tells whether `containers` is
not NULL. -/
def ocreContextGetContainers (s : ContextState Ctx) (given : Bool) (maxSize : Int) :
    Int × List ℕ :=
  if ¬ given then (-1, [])
  else
    let containers := collectContainers maxSize 0 s.context.containers
    (containers.length, containers)

/-- The last pass of `ocre_context_destroy`, which ignores what the removals return.
The kill and wait passes before it act on the containers only; they are modelled
where the threads are. -/
def removeAll (s : ContextState Ctx) (calls : ℕ → RemoveCalls) : List ContainerNode →
    ContextState Ctx
  | [] => s
  | node :: nodes =>
      removeAll (s.removeContainerLocked node.container (calls node.container)).2 calls nodes

def ocreContextDestroy (s : ContextState Ctx) (calls : ℕ → RemoveCalls) : ContextState Ctx :=
  { s.removeAll calls s.context.containers with freed := true }

end ContextState

end OcreRuntime
