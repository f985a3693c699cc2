import OcreRuntime.Shell.Command
import OcreRuntime.Shell.Mounts

/-!
# The commands `create` and `run`

`cmd_container_create_run` reads its options with the option string `+de:k:n:r:v:` and creates a
container with what they say. A command line stands for the arguments of the creation, and what
cannot be created by one is refused.
-/

namespace OcreRuntime

/-- The variables that the loop over the options fills. -/
structure CreateOptions where
  detached : Bool := false
  runtime : Option CString := none
  containerId : Option CString := none
  capabilities : List CString := []
  environment : List CString := []
  mounts : List CString := []
  deriving DecidableEq

/-- What `cmd_container_create_run` finds outside. `realloc` gives room for one more element of
the array of an option, by the number of elements. -/
structure CreateRunCalls where
  realloc : UInt8 → ℕ → Bool := fun _ _ ↦ true
  create : CreateArgs → Option CString
  start : Int := 0

/-- The result, with the arguments of the creation if it came to one. -/
structure CreateRunResult where
  ret : Int
  created : Option CreateArgs
  started : Bool
  output : List Output

namespace CreateRun

def usage (argv0 cmd : CString) : List Output :=
  .stderr (cstring "Usage: " ++ argv0 ++ cstring " container " ++ cmd ++
    cstring " [options] IMAGE [ARG...]\n") ::
  (if cmd = cstring "create" then
    [.stderr (cstring "\nCreates a container in the Ocre context.\n")]
  else if cmd = cstring "run" then
    [.stderr (cstring "\nCreates and starts a container in the Ocre context.\n")]
  else []) ++ [
  .stderr (cstring "\nOptions:\n"),
  .stderr (cstring "  -d                       Creates a detached container\n"),
  .stderr (cstring "  -n CONTAINER_ID          Specifies a container ID\n"),
  .stderr (cstring "  -r RUNTIME               Specifies the runtime to use\n"),
  .stderr (cstring "  -v VOLUME:MOUNTPOINT     Adds a volume to be mounted into the container\n"),
  .stderr (cstring "  -v /ABSPATH:MOUNTPOINT   Adds a directory to be mounted into the container" ++
    cstring "\n"),
  .stderr (cstring "  -k CAPABILITY            Adds a capability to the container\n"),
  .stderr (cstring "  -e VAR=VALUE             Sets an environment variable in the container\n"),
  .stderr (cstring "\nOptions '-v' and '-e' and '-k' can be supplied multiple times.\n")]

/-- The characters of the option string. -/
def kind (c : UInt8) : Option Getopt.Kind :=
  if c = 100 then some .flag
  else if c = 101 ∨ c = 107 ∨ c = 110 ∨ c = 114 ∨ c = 118 then some .argument
  else none

def invalidOption (optopt : UInt8) : List Output :=
  [.stderr (cstring "Invalid option '-" ++ [optopt] ++ cstring "'\n")]

def setOnce (argv0 cmd what : CString) : List Output :=
  .stderr (what ++ cstring " can be set only once\n\n") :: usage argv0 cmd

/-- The body of the loop over the options, with what is printed when it goes to `cleanup`. -/
def handle (argv0 cmd : CString) (calls : CreateRunCalls) (o : CreateOptions) :
    Getopt.Item UInt8 → Except (List Output) CreateOptions
  | .invalid optopt => .error (invalidOption optopt)
  | .option 100 _ =>
      if o.detached then .error (setOnce argv0 cmd (cstring "Detached mode"))
      else .ok { o with detached := true }
  | .option 110 (some optarg) =>
      if o.containerId.isSome then .error (setOnce argv0 cmd (cstring "Container ID"))
      else if ¬ ocreIsValidName (some optarg) then
        .error [.stderr (cstring "Invalid characters in container ID '" ++ optarg ++
          cstring "'. Valid are [a-z0-9_-.] (lowercase alphanumeric) and cannot start with '.'\n")]
      else .ok { o with containerId := some optarg }
  | .option 114 (some optarg) =>
      if o.runtime.isSome then .error (setOnce argv0 cmd (cstring "Runtime"))
      else .ok { o with runtime := some optarg }
  | .option 118 (some optarg) =>
      match mountError optarg with
      | some error => .error [.stderr (error.message optarg ++ cstring "\n")]
      | none =>
          if calls.realloc 118 o.mounts.length then .ok { o with mounts := o.mounts ++ [optarg] }
          else .error []
  | .option 107 (some optarg) =>
      if calls.realloc 107 o.capabilities.length then
        .ok { o with capabilities := o.capabilities ++ [optarg] }
      else .error []
  | .option 101 (some optarg) =>
      if calls.realloc 101 o.environment.length then
        .ok { o with environment := o.environment ++ [optarg] }
      else .error []
  | .option c _ => .error (invalidOption c)

/-- The arguments of the creation. The arrays end with NULL, and so does `argv`. -/
def arguments (o : CreateOptions) (image : CString) (args : List CString) : CreateArgs where
  image := some image
  runtime := o.runtime
  containerId := o.containerId
  detached := o.detached
  arguments := some ⟨some args, some o.environment, some o.capabilities, some o.mounts⟩

/-- The container that has been created is started and named. -/
def finish (cmd : CString) (calls : CreateRunCalls) (args : CreateArgs) : CreateRunResult :=
  match calls.create args with
  | none => ⟨-1, some args, false, [.stderr (cstring "Failed to create container\n")]⟩
  | some cid =>
      let started := decide (cmd = cstring "run")
      if started ∧ calls.start ≠ 0 then
        ⟨-1, some args, true, [.stderr (cstring "Failed to start container\n")]⟩
      else ⟨0, some args, started, if args.detached ∨ cmd = cstring "create" then
        [.stdout (cid ++ cstring "\n")] else []⟩

/-- What follows the loop. The ends of the arrays are written without a check, so that a `realloc`
that fails is undefined. -/
def afterOptions (argv0 cmd : CString) (calls : CreateRunCalls) (o : CreateOptions)
    (operands : List CString) : Option CreateRunResult :=
  if ¬ calls.realloc 101 o.environment.length ∨ ¬ calls.realloc 107 o.capabilities.length ∨
      ¬ calls.realloc 118 o.mounts.length then none
  else match operands with
    | [] => some ⟨-1, none, false, .stderr (cstring "'" ++ argv0 ++ cstring " container " ++ cmd ++
        cstring "' requires at least one non option argument\n\n") :: usage argv0 cmd⟩
    | image :: args =>
        if ¬ ocreIsValidName (some image) then
          some ⟨-1, none, false, [.stderr (cstring "Invalid characters in image ID '" ++ image ++
            cstring "'. Valid are [a-z0-9_-.] (lowercase alphanumeric) and cannot start with '.'")]⟩
        else some (finish cmd calls (arguments o image args))

end CreateRun

/-- `cmd_container_create_run`; `argc` is the length of the arguments. -/
def cmdContainerCreateRun (argv0 : CString) (argv : List CString) (calls : CreateRunCalls) :
    Option CreateRunResult := do
  let cmd := argv.headD []
  if argv.length < 2 then
    some ⟨-1, none, false, .stderr (cstring "'" ++ argv0 ++ cstring " container " ++ cmd ++
      cstring "' requires arguments\n\n") :: CreateRun.usage argv0 cmd⟩
  else
    match ← Getopt.loop dash CreateRun.kind argv (CreateRun.handle argv0 cmd calls)
        (getoptRounds argv) {} ⟨1, []⟩ with
    | .error output => some ⟨-1, none, false, output⟩
    | .ok (o, s) => CreateRun.afterOptions argv0 cmd calls o (argv.drop s.optind)

section Options

/-- The arguments of an option, in their order. -/
def optArgs (c : UInt8) (os : List (Getopt.Chosen UInt8)) : List CString :=
  (os.filter (·.1 = c)).filterMap Prod.snd

/-- What the options say is what is in the variables, if `acc` has been in them before. -/
@[mk_iff] structure Says (acc : CreateOptions) (os : List (Getopt.Chosen UInt8))
    (o : CreateOptions) : Prop where
  detached : acc.detached.toNat + (os.filter (·.1 = 100)).length = o.detached.toNat
  runtime : acc.runtime.toList ++ optArgs 114 os = o.runtime.toList
  containerId : acc.containerId.toList ++ optArgs 110 os = o.containerId.toList
  capabilities : acc.capabilities ++ optArgs 107 os = o.capabilities
  environment : acc.environment ++ optArgs 101 os = o.environment
  mounts : acc.mounts ++ optArgs 118 os = o.mounts
  valid : ∀ id ∈ optArgs 110 os, ocreIsValidName (some id) = true
  accepted : ∀ mount ∈ optArgs 118 os, mountError mount = none

variable {argv0 cmd : CString} {calls : CreateRunCalls} {acc o : CreateOptions}
  {os : List (Getopt.Chosen UInt8)}

theorem optArgs_cons_self (c : UInt8) (arg : CString) (os : List (Getopt.Chosen UInt8)) :
    optArgs c ((c, some arg) :: os) = arg :: optArgs c os := by
  simp [optArgs]

theorem optArgs_cons_ne {c d : UInt8} (h : d ≠ c) (arg : Option CString)
    (os : List (Getopt.Chosen UInt8)) : optArgs c ((d, arg) :: os) = optArgs c os := by
  simp [optArgs, h]

theorem kind_flag_iff {c : UInt8} : CreateRun.kind c = some .flag ↔ c = 100 := by
  rw [CreateRun.kind]
  split_ifs with hflag harg
  · simp [hflag]
  · simp [hflag]
  · simp [hflag]

theorem kind_argument_iff {c : UInt8} : CreateRun.kind c = some .argument ↔
    c = 101 ∨ c = 107 ∨ c = 110 ∨ c = 114 ∨ c = 118 := by
  rw [CreateRun.kind]
  split_ifs with hflag harg
  · subst hflag
    decide
  · simp [harg]
  · simp [harg]

theorem toList_append_cons {α : Type*} {x y : Option α} {a : α} {l : List α} :
    x.toList ++ a :: l = y.toList ↔ x = none ∧ (some a).toList ++ l = y.toList := by
  cases x with
  | none => simp
  | some b => cases y <;> simp

theorem says_detached : Says acc ((100, none) :: os) o ↔
    acc.detached = false ∧ Says { acc with detached := true } os o := by
  have hcount : acc.detached.toNat + (((100, none) :: os).filter (·.1 = (100 : UInt8))).length =
      o.detached.toNat ↔ acc.detached = false ∧
        true.toNat + (os.filter (·.1 = 100)).length = o.detached.toNat := by
    have hle := o.detached.toNat_le
    rw [List.filter_cons_of_pos (by decide), List.length_cons]
    cases acc.detached with
    | false => simp [Nat.add_comm]
    | true => simp; omega
  simp (disch := decide) only [says_iff, hcount, optArgs_cons_ne, and_assoc]

theorem says_runtime {arg : CString} : Says acc ((114, some arg) :: os) o ↔
    acc.runtime = none ∧ Says { acc with runtime := some arg } os o := by
  simp (disch := decide) only [says_iff, optArgs_cons_self, optArgs_cons_ne, toList_append_cons]
  tauto

theorem says_containerId {arg : CString} : Says acc ((110, some arg) :: os) o ↔
    (acc.containerId = none ∧ ocreIsValidName (some arg) = true) ∧
      Says { acc with containerId := some arg } os o := by
  simp (disch := decide) only [says_iff, optArgs_cons_self, optArgs_cons_ne, toList_append_cons,
    List.forall_mem_cons]
  tauto

theorem says_mount {arg : CString} : Says acc ((118, some arg) :: os) o ↔
    mountError arg = none ∧ Says { acc with mounts := acc.mounts ++ [arg] } os o := by
  simp (disch := decide) only [says_iff, optArgs_cons_self, optArgs_cons_ne, List.forall_mem_cons,
    List.append_assoc, List.singleton_append]
  tauto

theorem says_capability {arg : CString} : Says acc ((107, some arg) :: os) o ↔
    Says { acc with capabilities := acc.capabilities ++ [arg] } os o := by
  simp (disch := decide) only [says_iff, optArgs_cons_self, optArgs_cons_ne,
    List.append_assoc, List.singleton_append]
  tauto

theorem says_environment {arg : CString} : Says acc ((101, some arg) :: os) o ↔
    Says { acc with environment := acc.environment ++ [arg] } os o := by
  simp (disch := decide) only [says_iff, optArgs_cons_self, optArgs_cons_ne,
    List.append_assoc, List.singleton_append]
  tauto

theorem exists_ok_iff {ε σ : Type*} {x : σ} {p : σ → Prop} :
    (∃ next, (.ok x : Except ε σ) = .ok next ∧ p next) ↔ p x := by
  simp

theorem exists_ite_ok {ε σ : Type*} {c : Prop} [Decidable c] {e : ε} {y : Except ε σ}
    {p : σ → Prop} :
    (∃ next, (if c then .error e else y) = .ok next ∧ p next) ↔
      ¬ c ∧ ∃ next, y = .ok next ∧ p next := by
  split
  next h => simp [h]
  next h => simp [h]

/-- One option is taken exactly if it may stand in front of the others. -/
theorem says_cons_iff (hrealloc : ∀ c n, calls.realloc c n = true) {first : Getopt.Chosen UInt8}
    (hfirst : Getopt.Formed CreateRun.kind first) :
    Says acc (first :: os) o ↔ ∃ next,
      CreateRun.handle argv0 cmd calls acc (.option first.1 first.2) = .ok next ∧
        Says next os o := by
  obtain ⟨c, optarg⟩ := first
  rcases hfirst with ⟨hkind, rfl⟩ | ⟨hkind, hsome⟩
  · obtain rfl := kind_flag_iff.mp hkind
    have hhandle : CreateRun.handle argv0 cmd calls acc (.option 100 none) =
        if acc.detached then .error (CreateRun.setOnce argv0 cmd (cstring "Detached mode"))
        else .ok { acc with detached := true } := rfl
    rw [hhandle, exists_ite_ok, exists_ok_iff, says_detached, Bool.not_eq_true]
  · obtain ⟨arg, rfl⟩ := Option.isSome_iff_exists.mp hsome
    rcases kind_argument_iff.mp hkind with rfl | rfl | rfl | rfl | rfl
    · have hhandle : CreateRun.handle argv0 cmd calls acc (.option 101 (some arg)) =
          .ok { acc with environment := acc.environment ++ [arg] } :=
        if_pos (hrealloc 101 _)
      rw [hhandle, exists_ok_iff, says_environment]
    · have hhandle : CreateRun.handle argv0 cmd calls acc (.option 107 (some arg)) =
          .ok { acc with capabilities := acc.capabilities ++ [arg] } :=
        if_pos (hrealloc 107 _)
      rw [hhandle, exists_ok_iff, says_capability]
    · have hhandle : CreateRun.handle argv0 cmd calls acc (.option 110 (some arg)) =
          if acc.containerId.isSome then
            .error (CreateRun.setOnce argv0 cmd (cstring "Container ID"))
          else if ¬ ocreIsValidName (some arg) then
            .error [.stderr (cstring "Invalid characters in container ID '" ++ arg ++ cstring
              "'. Valid are [a-z0-9_-.] (lowercase alphanumeric) and cannot start with '.'\n")]
          else .ok { acc with containerId := some arg } := rfl
      rw [hhandle, exists_ite_ok, exists_ite_ok, exists_ok_iff, says_containerId, and_assoc,
        not_not, Bool.not_eq_true, Option.isSome_eq_false_iff, Option.isNone_iff_eq_none]
    · have hhandle : CreateRun.handle argv0 cmd calls acc (.option 114 (some arg)) =
          if acc.runtime.isSome then .error (CreateRun.setOnce argv0 cmd (cstring "Runtime"))
          else .ok { acc with runtime := some arg } := rfl
      rw [hhandle, exists_ite_ok, exists_ok_iff, says_runtime, Bool.not_eq_true,
        Option.isSome_eq_false_iff, Option.isNone_iff_eq_none]
    · rw [says_mount]
      cases hmount : mountError arg with
      | none =>
          have hhandle : CreateRun.handle argv0 cmd calls acc (.option 118 (some arg)) =
              .ok { acc with mounts := acc.mounts ++ [arg] } := by
            simp [CreateRun.handle, hmount, hrealloc]
          rw [hhandle, exists_ok_iff, and_iff_right rfl]
      | some error =>
          have hhandle : CreateRun.handle argv0 cmd calls acc (.option 118 (some arg)) =
              .error [.stderr (error.message arg ++ cstring "\n")] := by
            simp [CreateRun.handle, hmount]
          rw [hhandle]
          simp

theorem toList_inj {α : Type*} {x y : Option α} : x.toList = y.toList ↔ x = y := by
  cases x <;> cases y <;> simp

theorem toNat_inj {b b' : Bool} : b.toNat = b'.toNat ↔ b = b' := by
  cases b <;> cases b' <;> decide

theorem says_nil_iff : Says acc [] o ↔ acc = o := by
  rw [says_iff]
  constructor
  · rintro ⟨hdetached, hruntime, hid, hcapabilities, henvironment, hmounts, -⟩
    obtain ⟨_, _, _, _, _, _⟩ := acc
    obtain ⟨_, _, _, _, _, _⟩ := o
    simp only [optArgs, List.filter_nil, List.filterMap_nil, List.append_nil, List.length_nil,
      Nat.add_zero, toList_inj, toNat_inj] at *
    rw [CreateOptions.mk.injEq]
    exact ⟨hdetached, hruntime, hid, hcapabilities, henvironment, hmounts⟩
  · rintro rfl
    simp [optArgs]

/-- The loop over the options takes all of them exactly if they may be given together. -/
theorem choose_createRun_iff (hrealloc : ∀ c n, calls.realloc c n = true)
    (hos : ∀ first ∈ os, Getopt.Formed CreateRun.kind first) :
    Getopt.choose (CreateRun.handle argv0 cmd calls) os acc = .ok o ↔ Says acc os o := by
  induction os generalizing acc with
  | nil =>
      have hnil : Getopt.choose (CreateRun.handle argv0 cmd calls) [] acc = .ok acc := rfl
      rw [hnil, says_nil_iff, Except.ok.injEq]
  | cons first os ih =>
      obtain ⟨hfirst, hrest⟩ := List.forall_mem_cons.mp hos
      rw [@says_cons_iff argv0 cmd calls acc o os hrealloc first hfirst, Getopt.choose_cons_iff]
      exact exists_congr fun next ↦ and_congr_right fun _ ↦ ih hrest

end Options

section Creation

/-- A command line without its name stands for the arguments of a creation: options that say what
is in the arguments, a valid image, and the arguments of the container. -/
def StandsFor (words : List CString) (args : CreateArgs) : Prop :=
  ∃ os o image rest, Getopt.CommandLine dash CreateRun.kind words os (image :: rest) ∧
    Says {} os o ∧ ocreIsValidName (some image) = true ∧
      args = CreateRun.arguments o image rest

theorem not_standsFor_nil (args : CreateArgs) : ¬ StandsFor [] args := by
  rintro ⟨os, o, image, rest, hline, -⟩
  obtain ⟨-, hoperands⟩ := (Getopt.commandLine_operand_iff (by simp)).mp hline
  cases hoperands

/-- A command creates what its line stands for, and a line that stands for nothing is refused. -/
theorem createRun_spec {calls : CreateRunCalls} (hrealloc : ∀ c n, calls.realloc c n = true)
    (argv0 cmd : CString) (words : List CString) :
    (∃ args', (∀ args, StandsFor words args ↔ args = args') ∧
      cmdContainerCreateRun argv0 (cmd :: words) calls = some (CreateRun.finish cmd calls args')) ∨
    ((∀ args, ¬ StandsFor words args) ∧ ∃ output,
      cmdContainerCreateRun argv0 (cmd :: words) calls = some ⟨-1, none, false, output⟩) := by
  by_cases hnil : words = []
  · subst hnil
    exact .inr ⟨not_standsFor_nil, _, rfl⟩
  have hlength : ¬ words.length + 1 < 2 := by
    have hpos := List.length_pos_iff.mpr hnil
    omega
  obtain ⟨r, hr, hspec⟩ := Getopt.loop_iff (CreateRun.handle argv0 cmd calls)
    (show CreateRun.kind dash = none by decide) (by rintro _ _ _ ⟨⟩) {}
    (show 1 ≤ (cmd :: words).length from Nat.succ_pos _) (getoptRounds_cons cmd words)
  have hline (o : CreateOptions) (operands : List CString) :
      (∃ s', r = .ok (o, s') ∧ (cmd :: words).drop s'.optind = operands) ↔
        ∃ os, Getopt.CommandLine dash CreateRun.kind words os operands ∧ Says {} os o :=
    (hspec o operands).trans (exists_congr fun os ↦ and_congr_right fun hcommand ↦
      choose_createRun_iff hrealloc hcommand.formed)
  cases r with
  | error output =>
      refine .inr ⟨?_, output, by simp [cmdContainerCreateRun, hlength, hr]⟩
      rintro args ⟨os, o, image, rest, hcommand, hsays, -⟩
      obtain ⟨s', hs', -⟩ := (hline o (image :: rest)).mpr ⟨os, hcommand, hsays⟩
      cases hs'
  | ok p =>
      obtain ⟨o, s⟩ := p
      have hrun : cmdContainerCreateRun argv0 (cmd :: words) calls =
          CreateRun.afterOptions argv0 cmd calls o ((cmd :: words).drop s.optind) := by
        simp [cmdContainerCreateRun, hlength, hr]
      have hreallocs : ¬ (¬ calls.realloc 101 o.environment.length ∨
          ¬ calls.realloc 107 o.capabilities.length ∨ ¬ calls.realloc 118 o.mounts.length) := by
        simp [hrealloc]
      obtain ⟨os, hcommand, hsays⟩ := (hline o _).mp ⟨s, rfl, rfl⟩
      have hsame {o' : CreateOptions} {operands : List CString} {os' : List (Getopt.Chosen UInt8)}
          (hcommand' : Getopt.CommandLine dash CreateRun.kind words os' operands)
          (hsays' : Says {} os' o') : o' = o ∧ operands = (cmd :: words).drop s.optind := by
        obtain ⟨s', hs', rfl⟩ := (hline o' operands).mpr ⟨os', hcommand', hsays'⟩
        obtain ⟨rfl, rfl⟩ := Prod.mk.inj (Except.ok.inj hs')
        exact ⟨rfl, rfl⟩
      rw [hrun, CreateRun.afterOptions.eq_def, if_neg hreallocs]
      cases hoperands : (cmd :: words).drop s.optind with
      | nil =>
          refine .inr ⟨?_, _, rfl⟩
          rintro args ⟨os', o', image, rest, hcommand', hsays', -⟩
          cases (hsame hcommand' hsays').2.trans hoperands
      | cons image rest =>
          rw [hoperands] at hcommand
          by_cases hvalid : ocreIsValidName (some image) = true
          · dsimp only
            rw [if_neg (not_not.mpr hvalid)]
            refine .inl ⟨CreateRun.arguments o image rest, fun args ↦ ⟨?_, ?_⟩, rfl⟩
            · rintro ⟨os', o', image', rest', hcommand', hsays', -, rfl⟩
              obtain ⟨rfl, hrest⟩ := hsame hcommand' hsays'
              obtain ⟨rfl, rfl⟩ := List.cons.inj (hrest.trans hoperands)
              rfl
            · rintro rfl
              exact ⟨os, o, image, rest, hcommand, hsays, hvalid, rfl⟩
          · dsimp only
            rw [if_pos hvalid]
            refine .inr ⟨?_, _, rfl⟩
            rintro args ⟨os', o', image', rest', hcommand', hsays', hvalid', -⟩
            obtain ⟨rfl, -⟩ := List.cons.inj ((hsame hcommand' hsays').2.trans hoperands)
            exact hvalid hvalid'

theorem created_finish (cmd : CString) (calls : CreateRunCalls) (args : CreateArgs) :
    (CreateRun.finish cmd calls args).created = some args := by
  unfold CreateRun.finish
  split
  · rfl
  · dsimp only
    split <;> rfl

theorem created_iff {calls : CreateRunCalls} (hrealloc : ∀ c n, calls.realloc c n = true)
    (argv0 cmd : CString) (words : List CString) (args : CreateArgs) :
    (cmdContainerCreateRun argv0 (cmd :: words) calls).bind CreateRunResult.created = some args ↔
      StandsFor words args := by
  rcases createRun_spec hrealloc argv0 cmd words with
    ⟨args', hstands, hrun⟩ | ⟨hnone, output, hrun⟩
  · rw [hrun, Option.bind_some, created_finish, hstands, Option.some_inj, eq_comm]
  · rw [hrun]
    exact iff_of_false (by rintro ⟨⟩) (hnone args)

/-- What `ocre_shell` creates. -/
def shellCreated (context : CString) (argv : List CString) (calls : CreateRunCalls) :
    Option CreateArgs :=
  match Shell.called context argv with
  | some (.ok (.cmdContainerCreateRun, argv')) =>
      (cmdContainerCreateRun (argv.headD []) argv' calls).bind CreateRunResult.created
  | _ => none

theorem shellCreated_eq_some_iff {context : CString} {argv : List CString} {calls : CreateRunCalls}
    {args : CreateArgs} : shellCreated context argv calls = some args ↔
      ∃ argv', Shell.called context argv = some (.ok (.cmdContainerCreateRun, argv')) ∧
        (cmdContainerCreateRun (argv.headD []) argv' calls).bind CreateRunResult.created =
          some args := by
  unfold shellCreated
  split
  next argv' hcalled =>
    constructor
    · exact fun h ↦ ⟨argv', hcalled, h⟩
    · rintro ⟨argv'', hcalled', h⟩
      obtain rfl : argv' = argv'' := by
        simpa using hcalled.symm.trans hcalled'
      exact h
  next hnot =>
    refine iff_of_false (by rintro ⟨⟩) ?_
    rintro ⟨argv', hcalled, -⟩
    exact hnot argv' hcalled

/-- A command line creates a container with the given arguments exactly if its operands are
`create` or `run`, behind `container` or not, with a line that stands for them. -/
theorem shellCreated_iff {calls : CreateRunCalls} (hrealloc : ∀ c n, calls.realloc c n = true)
    (context argv0 : CString) (words : List CString) (args : CreateArgs) :
    shellCreated context (argv0 :: words) calls = some args ↔
      ∃ cmd line, (cmd = cstring "create" ∨ cmd = cstring "run") ∧
        (ShellLine words (cmd :: line) ∨ ShellLine words (cstring "container" :: cmd :: line)) ∧
          StandsFor line args := by
  rw [shellCreated_eq_some_iff]
  constructor
  · rintro ⟨argv', hcalled, hcreated⟩
    obtain ⟨⟨cmd, line, rfl, hcmd⟩, hshell⟩ := (called_createRun_iff ..).mp hcalled
    exact ⟨cmd, line, hcmd, hshell, (created_iff hrealloc ..).mp hcreated⟩
  · rintro ⟨cmd, line, hcmd, hshell, hstands⟩
    exact ⟨cmd :: line, (called_createRun_iff ..).mpr ⟨⟨cmd, line, rfl, hcmd⟩, hshell⟩,
      (created_iff hrealloc ..).mpr hstands⟩

/-- Two options in one word, in front of an image, behind the option of the shell. -/
theorem shellCreated_iff_run :
    shellCreated [] [cstring "ocre", cstring "-v", cstring "container", cstring "run",
        cstring "-dnblinky", cstring "--", cstring "a.wasm", cstring "-x"]
          { create := fun _ ↦ some (cstring "blinky") } =
        some { image := some (cstring "a.wasm"), containerId := some (cstring "blinky"),
               arguments := some ⟨some [cstring "-x"], some [], some [], some []⟩ } := by
  have hverbose : Getopt.Options dash Shell.kind [cstring "-v"] [(118, none)] :=
    .word (.flag (c := 118) (by decide)) .nil
  have hshell : ShellLine [cstring "-v", cstring "container", cstring "run", cstring "-dnblinky",
      cstring "--", cstring "a.wasm", cstring "-x"] [cstring "container", cstring "run",
        cstring "-dnblinky", cstring "--", cstring "a.wasm", cstring "-x"] := by
    refine ⟨[(118, none)], Nat.le_refl 1, .plain hverbose ?_⟩
    rintro _ ⟨⟩ c chars hword
    exact absurd (List.cons.inj hword).1 (by decide)
  have hoptions : Getopt.Options dash CreateRun.kind [cstring "-dnblinky"]
      [(100, none), (110, some (cstring "blinky"))] :=
    .word (.more (c := 100) (by decide) (.attached (c := 110) (by decide) (by decide))) .nil
  have hstands : StandsFor
      [cstring "-dnblinky", cstring "--", cstring "a.wasm", cstring "-x"]
        { image := some (cstring "a.wasm"), containerId := some (cstring "blinky"),
          arguments := some ⟨some [cstring "-x"], some [], some [], some []⟩ } := by
    refine ⟨_, { detached := true, containerId := some (cstring "blinky") }, cstring "a.wasm",
      [cstring "-x"], .dashes hoptions, ?_, by decide, rfl⟩
    constructor <;> decide
  exact (shellCreated_iff (fun _ _ ↦ rfl) [] (cstring "ocre") _ _).mpr
    ⟨cstring "run", _, .inr rfl, .inr hshell, hstands⟩

end Creation

section Render

/-- An option for each argument. -/
def renderArguments (c : UInt8) (args : List CString) : List CString :=
  args.flatMap fun arg ↦ [[dash, c], arg]

/-- A line that stands for a creation. The two dashes keep the image from being an option. -/
def renderLine (o : CreateOptions) (image : CString) (args : List CString) : List CString :=
  (if o.detached then [[dash, 100]] else []) ++ (renderArguments 114 o.runtime.toList ++
    (renderArguments 110 o.containerId.toList ++ (renderArguments 107 o.capabilities ++
      (renderArguments 101 o.environment ++ renderArguments 118 o.mounts)))) ++
        [dash, dash] :: image :: args

/-- The options of that line. -/
def renderedOptions (o : CreateOptions) : List (Getopt.Chosen UInt8) :=
  (if o.detached then [(100, none)] else []) ++ (o.runtime.toList.map (fun arg ↦ (114, some arg)) ++
    (o.containerId.toList.map (fun arg ↦ (110, some arg)) ++
      (o.capabilities.map (fun arg ↦ (107, some arg)) ++
        (o.environment.map (fun arg ↦ (101, some arg)) ++
          o.mounts.map (fun arg ↦ (118, some arg))))))

theorem optArgs_append (c : UInt8) (os os' : List (Getopt.Chosen UInt8)) :
    optArgs c (os ++ os') = optArgs c os ++ optArgs c os' := by
  rw [optArgs, List.filter_append, List.filterMap_append, optArgs, optArgs]

theorem optArgs_map_self (c : UInt8) (args : List CString) :
    optArgs c (args.map fun arg ↦ (c, some arg)) = args := by
  induction args with
  | nil => rfl
  | cons arg args ih => rw [List.map_cons, optArgs_cons_self, ih]

theorem optArgs_map_ne {c d : UInt8} (h : d ≠ c) (args : List CString) :
    optArgs c (args.map fun arg ↦ (d, some arg)) = [] := by
  induction args with
  | nil => rfl
  | cons arg args ih => rw [List.map_cons, optArgs_cons_ne h, ih]

theorem optArgs_flag {c : UInt8} (h : 100 ≠ c) (b : Bool) :
    optArgs c (if b then [(100, none)] else []) = [] := by
  cases b with
  | false => rfl
  | true => exact optArgs_cons_ne h none []

theorem options_rendered (o : CreateOptions) : Getopt.Options dash CreateRun.kind
    ((if o.detached then [[dash, 100]] else []) ++ (renderArguments 114 o.runtime.toList ++
      (renderArguments 110 o.containerId.toList ++ (renderArguments 107 o.capabilities ++
        (renderArguments 101 o.environment ++ renderArguments 118 o.mounts)))))
    (renderedOptions o) := by
  have hflag : Getopt.Options dash CreateRun.kind (if o.detached then [[dash, 100]] else [])
      (if o.detached then [(100, none)] else []) := by
    cases o.detached with
    | false => exact .nil
    | true => exact Getopt.options_flag (by decide)
  exact hflag.append ((Getopt.options_arguments (by decide) _).append
    ((Getopt.options_arguments (by decide) _).append
      ((Getopt.options_arguments (by decide) _).append
        ((Getopt.options_arguments (by decide) _).append
          (Getopt.options_arguments (by decide) _)))))

/-- The variables of a request that passes the checks. -/
structure CreateOptions.Allowed (o : CreateOptions) : Prop where
  containerId : ∀ id, o.containerId = some id → ocreIsValidName (some id) = true
  mounts : ∀ mount ∈ o.mounts, mountError mount = none

theorem optArgs_rendered {c : UInt8} (h : 100 ≠ c) (o : CreateOptions) :
    optArgs c (renderedOptions o) =
      optArgs c (o.runtime.toList.map fun arg ↦ (114, some arg)) ++
        (optArgs c (o.containerId.toList.map fun arg ↦ (110, some arg)) ++
          (optArgs c (o.capabilities.map fun arg ↦ (107, some arg)) ++
            (optArgs c (o.environment.map fun arg ↦ (101, some arg)) ++
              optArgs c (o.mounts.map fun arg ↦ (118, some arg))))) := by
  simp only [renderedOptions, optArgs_append, optArgs_flag h, List.nil_append]

theorem filter_flag_map {d : UInt8} (h : d ≠ 100) (args : List CString) :
    (args.map fun arg ↦ ((d, some arg) : Getopt.Chosen UInt8)).filter (·.1 = 100) = [] := by
  simp [List.filter_map, h]

theorem says_rendered {o : CreateOptions} (h : o.Allowed) : Says {} (renderedOptions o) o := by
  have hid : optArgs 110 (renderedOptions o) = o.containerId.toList := by
    simp (disch := decide) [optArgs_rendered, optArgs_map_self, optArgs_map_ne]
  have hmounts : optArgs 118 (renderedOptions o) = o.mounts := by
    simp (disch := decide) [optArgs_rendered, optArgs_map_self, optArgs_map_ne]
  constructor
  · have hflags : ((renderedOptions o).filter (·.1 = 100)).length = o.detached.toNat := by
      simp (disch := decide) only [renderedOptions, List.filter_append, filter_flag_map,
        List.append_nil]
      cases o.detached with
      | false => rfl
      | true => rfl
    rw [hflags]
    exact Nat.zero_add _
  · simp (disch := decide) [optArgs_rendered, optArgs_map_self, optArgs_map_ne]
  · exact hid
  · simp (disch := decide) [optArgs_rendered, optArgs_map_self, optArgs_map_ne]
  · simp (disch := decide) [optArgs_rendered, optArgs_map_self, optArgs_map_ne]
  · exact hmounts
  · rw [hid]
    intro id hmem
    exact h.containerId id (Option.mem_toList.mp hmem)
  · rw [hmounts]
    exact h.mounts

theorem standsFor_render {o : CreateOptions} (h : o.Allowed) {image : CString}
    (himage : ocreIsValidName (some image) = true) (args : List CString) :
    StandsFor (renderLine o image args) (CreateRun.arguments o image args) :=
  ⟨renderedOptions o, o, image, args, .dashes (options_rendered o), says_rendered h, himage, rfl⟩

/-- What the checks allow can be asked for, and is read back as it was. -/
theorem shellCreated_render {calls : CreateRunCalls} (hrealloc : ∀ c n, calls.realloc c n = true)
    {o : CreateOptions} (h : o.Allowed) {image : CString}
    (himage : ocreIsValidName (some image) = true) (context argv0 : CString)
    (args : List CString) :
    shellCreated context (argv0 :: cstring "create" :: renderLine o image args) calls =
      some (CreateRun.arguments o image args) := by
  have hoperand : ∀ word ∈ (cstring "create" :: renderLine o image args).head?,
      Getopt.Operand dash word := by
    rintro _ ⟨⟩ c chars hword
    exact absurd (List.cons.inj hword).1 (by decide)
  exact (shellCreated_iff hrealloc ..).mpr ⟨cstring "create", _, .inl rfl,
    .inl ⟨[], Nat.zero_le 1, .plain .nil hoperand⟩, standsFor_render h himage args⟩

/-- A request with each kind of option. -/
def sampleOptions : CreateOptions where
  detached := true
  runtime := some (cstring "wamr/wasip1")
  containerId := some (cstring "blinky")
  capabilities := [cstring "ocre:api", cstring "networking"]
  environment := [cstring "A=1", []]
  mounts := [cstring "/data:/mnt"]

def sampleCalls : CreateRunCalls where
  create _ := some (cstring "blinky")

theorem allowed_sampleOptions : sampleOptions.Allowed where
  containerId := by
    rintro _ ⟨⟩
    decide
  mounts := by
    intro mount hmount
    obtain rfl := List.mem_singleton.mp hmount
    decide

theorem shellCreated_render_sample :
    shellCreated [] (cstring "ocre" :: cstring "create" :: renderLine sampleOptions
        (cstring "blinky.wasm") [cstring "-d"]) sampleCalls =
      some (CreateRun.arguments sampleOptions (cstring "blinky.wasm") [cstring "-d"]) :=
  shellCreated_render (fun _ _ ↦ rfl) allowed_sampleOptions (by decide) [] (cstring "ocre")
    [cstring "-d"]

end Render

end OcreRuntime
