import OcreRuntime.Lib.Getopt
import OcreRuntime.Shell.Image

/-!
# The command line

`ocre_shell` with the tables of commands, up to the call of the function of a command. The
option string is `+v`.
-/

namespace OcreRuntime

/-- The functions in the tables of commands. -/
inductive Handler
  | printUsage
  | printVersion
  | cmdImage
  | cmdContainer
  | cmdContainerPs
  | cmdContainerCreateRun
  | cmdContainerStart
  | cmdContainerStop
  | cmdContainerKill
  | cmdContainerWait
  | cmdContainerPause
  | cmdContainerUnpause
  | cmdContainerRm
  | cmdImageLs
  | cmdImagePull
  | cmdImageRm
  deriving DecidableEq

/-- `struct ocre_command`. -/
structure OcreCommand where
  name : CString
  func : Handler

/-- What comes of a command line: the texts that have been printed, and the call of the function
of a command with its arguments, or else the result. -/
structure ShellResult where
  output : List Output
  call : Except Int (Handler × List CString)

/-- The loop over a table, with the function of the first command that has the name. -/
def findCommand (commands : List OcreCommand) (name : CString) : Option Handler :=
  (commands.find? (·.name = name)).map OcreCommand.func

/-- The dash of an option. -/
def dash : UInt8 := 45

/-- A number of rounds that is enough for all words. -/
def getoptRounds (argv : List CString) : ℕ := (argv.map List.length).sum + 1

namespace Shell

def printUsage (argv0 : CString) : List Output := [
  .stderr (cstring "Usage: " ++ argv0 ++ cstring " [-v] <COMMAND>\n"),
  .stderr (cstring "\nOptions:\n"),
  .stderr (cstring "  -v        Verbose mode\n"),
  .stderr (cstring "\nCommands:\n"),
  .stderr (cstring "  help      Display this help message\n"),
  .stderr (cstring "  version   Display version information\n"),
  .stderr (cstring "  image     Image manipulation commands\n"),
  .stderr (cstring "  container Container management commands\n"),
  .stderr (cstring "\nShortcut Commands:\n"),
  .stderr (cstring "  ps        container ps\n"),
  .stderr (cstring "  create    container create\n"),
  .stderr (cstring "  run       container run\n"),
  .stderr (cstring "  start     container start\n"),
  .stderr (cstring "  wait      container wait\n"),
  .stderr (cstring "  kill      container kill\n"),
  .stderr (cstring "  rm        container rm\n"),
  .stderr (cstring "  images    image ls\n"),
  .stderr (cstring "  pull      image pull\n")]

/-- `commands` of `shell.c`. -/
def commands : List OcreCommand := [
  ⟨cstring "help", .printUsage⟩,
  ⟨cstring "version", .printVersion⟩,
  ⟨cstring "image", .cmdImage⟩,
  ⟨cstring "container", .cmdContainer⟩,
  ⟨cstring "ps", .cmdContainerPs⟩,
  ⟨cstring "create", .cmdContainerCreateRun⟩,
  ⟨cstring "run", .cmdContainerCreateRun⟩,
  ⟨cstring "start", .cmdContainerStart⟩,
  ⟨cstring "stop", .cmdContainerStop⟩,
  ⟨cstring "kill", .cmdContainerKill⟩,
  ⟨cstring "wait", .cmdContainerWait⟩,
  ⟨cstring "pause", .cmdContainerPause⟩,
  ⟨cstring "unpause", .cmdContainerUnpause⟩,
  ⟨cstring "rm", .cmdContainerRm⟩,
  ⟨cstring "images", .cmdImageLs⟩,
  ⟨cstring "pull", .cmdImagePull⟩]

def kind (c : UInt8) : Option Getopt.Kind := if c = 118 then some .flag else none

/-- The loop over the options: `verbose`, and what is printed when it is left. -/
def handle (argv0 : CString) (verbose : Bool) : Getopt.Item UInt8 → Except (List Output) Bool
  | .option _ _ =>
      if verbose then .error (.stderr (cstring "'-v' can be set only once\n\n") :: printUsage argv0)
      else .ok true
  | .invalid optopt =>
      .error [.stderr (cstring "Invalid option: '" ++ [optopt] ++ cstring "'\n")]

/-- The command among the words behind the options; `context` is the text of the pointer. -/
def dispatch (context argv0 : CString) (verbose : Bool) : List CString → ShellResult
  | [] => ⟨printUsage argv0, .error (-1)⟩
  | name :: args =>
      let texts :=
        if verbose then [Output.stderr (cstring "Using context: " ++ context ++ cstring "\n")]
        else []
      match findCommand commands name with
      | some .printUsage => ⟨texts ++ printUsage argv0, .error (-1)⟩
      | some func => ⟨texts, .ok (func, name :: args)⟩
      | none => ⟨texts ++ .stderr (cstring "Invalid command: '" ++ argv0 ++ cstring " " ++ name ++
          cstring "'\n\n") :: printUsage argv0, .error (-1)⟩

/-- `ocre_shell`; `argc` is the length of the arguments. -/
def ocreShell (context : CString) (argv : List CString) : Option ShellResult := do
  let argv0 := argv.headD []
  match ← Getopt.loop dash kind argv (handle argv0) (getoptRounds argv) false ⟨1, []⟩ with
  | .error output => some ⟨output, .error (-1)⟩
  | .ok (verbose, s) => some (dispatch context argv0 verbose (argv.drop s.optind))

namespace Container

def printUsage (argv0 : CString) : List Output := [
  .stderr (cstring "Usage: " ++ argv0 ++ cstring " container <COMMAND>\n"),
  .stderr (cstring "\nCommands:\n"),
  .stderr (cstring "  run       Created and starts a new container\n"),
  .stderr (cstring "  create    Create a new container\n"),
  .stderr (cstring "  start     Start a container\n"),
  .stderr (cstring "  kill      Kill a running or paused container\n"),
  .stderr (cstring "  wait      Wait for a container to exit\n"),
  .stderr (cstring "  ps        List containers\n"),
  .stderr (cstring "  rm        Remove a stopped container\n")]

/-- `commands` of `container.c`. -/
def commands : List OcreCommand := [
  ⟨cstring "help", .printUsage⟩,
  ⟨cstring "run", .cmdContainerCreateRun⟩,
  ⟨cstring "create", .cmdContainerCreateRun⟩,
  ⟨cstring "start", .cmdContainerStart⟩,
  ⟨cstring "stop", .cmdContainerStop⟩,
  ⟨cstring "kill", .cmdContainerKill⟩,
  ⟨cstring "pause", .cmdContainerPause⟩,
  ⟨cstring "unpause", .cmdContainerUnpause⟩,
  ⟨cstring "wait", .cmdContainerWait⟩,
  ⟨cstring "ps", .cmdContainerPs⟩,
  ⟨cstring "rm", .cmdContainerRm⟩]

end Container

namespace Image

def printUsage (argv0 : CString) : List Output := [
  .stderr (cstring "Usage: " ++ argv0 ++ cstring " image <COMMAND>\n"),
  .stderr (cstring "\nCommands:\n"),
  .stderr (cstring "  ls        List images\n"),
  .stderr (cstring "  pull      Pull an image\n"),
  .stderr (cstring "  rm        Remove an image\n")]

/-- `commands` of `image.c`. -/
def commands : List OcreCommand := [
  ⟨cstring "help", .printUsage⟩,
  ⟨cstring "ls", .cmdImageLs⟩,
  ⟨cstring "pull", .cmdImagePull⟩,
  ⟨cstring "rm", .cmdImageRm⟩]

end Image

/-- `cmd_container` and `cmd_image`, with the table, the word in front of it and what printing the
usage returns. -/
def subcommand (commands : List OcreCommand) (group argv0 : CString) (usage : List Output)
    (ret : Int) (argv : List CString) : ShellResult :=
  match argv with
  | _ :: name :: args => match findCommand commands name with
      | some .printUsage => ⟨usage, .error ret⟩
      | some func => ⟨[], .ok (func, name :: args)⟩
      | none => ⟨.stderr (cstring "Invalid command: '" ++ argv0 ++ group ++ name ++
          cstring "'\n\n") :: usage, .error ret⟩
  | _ => ⟨usage, .error ret⟩

def cmdContainer (argv0 : CString) (argv : List CString) : ShellResult :=
  subcommand Container.commands (cstring " container ") argv0 (Container.printUsage argv0) 0 argv

def cmdImage (argv0 : CString) (argv : List CString) : ShellResult :=
  subcommand Image.commands (cstring " image ") argv0 (Image.printUsage argv0) (-1) argv

/-- The functions that are called one in the other. -/
def invoke (argv0 : CString) (r : ShellResult) : ShellResult :=
  match r.call with
  | .ok (.cmdContainer, argv) =>
      ⟨r.output ++ (cmdContainer argv0 argv).output, (cmdContainer argv0 argv).call⟩
  | .ok (.cmdImage, argv) =>
      ⟨r.output ++ (cmdImage argv0 argv).output, (cmdImage argv0 argv).call⟩
  | _ => r

/-- The call that comes of a whole command line. -/
def called (context : CString) (argv : List CString) :
    Option (Except Int (Handler × List CString)) :=
  (ocreShell context argv).map fun r ↦ (invoke (argv.headD []) r).call

end Shell

section Lines

/-- The words behind the options of the shell, of which there is one at most. -/
def ShellLine (words operands : List CString) : Prop :=
  ∃ os : List (Getopt.Chosen UInt8), os.length ≤ 1 ∧
    Getopt.CommandLine dash Shell.kind words os operands

theorem findCommand_eq_some_iff {commands : List OcreCommand}
    (h : (commands.map OcreCommand.name).Nodup) {name : CString} {func : Handler} :
    findCommand commands name = some func ↔ ⟨name, func⟩ ∈ commands := by
  constructor
  · intro hfind
    obtain ⟨command, hcommand, rfl⟩ := Option.map_eq_some_iff.mp hfind
    have hname : command.name = name := by simpa using List.find?_some hcommand
    subst hname
    exact List.mem_of_find?_eq_some hcommand
  · intro hmem
    cases hfind : commands.find? (·.name = name) with
    | none =>
        have hnot := List.find?_eq_none.mp hfind _ hmem
        exact absurd (decide_eq_true rfl) hnot
    | some command =>
        have hname : command.name = name := by simpa using List.find?_some hfind
        have heq := List.inj_on_of_nodup_map h (List.mem_of_find?_eq_some hfind) hmem hname
        rw [findCommand, hfind, heq]
        rfl

theorem createRun_mem_commands {name : CString} :
    ⟨name, .cmdContainerCreateRun⟩ ∈ Shell.commands ↔
      name = cstring "create" ∨ name = cstring "run" := by
  simp [Shell.commands]

theorem createRun_mem_container {name : CString} :
    ⟨name, .cmdContainerCreateRun⟩ ∈ Shell.Container.commands ↔
      name = cstring "create" ∨ name = cstring "run" := by
  simp [Shell.Container.commands, or_comm]

theorem container_mem_commands {name : CString} :
    ⟨name, .cmdContainer⟩ ∈ Shell.commands ↔ name = cstring "container" := by
  simp [Shell.commands]

theorem createRun_not_mem_image {name : CString} :
    ⟨name, .cmdContainerCreateRun⟩ ∉ Shell.Image.commands := by
  simp [Shell.Image.commands]

theorem choose_handle_iff {argv0 : CString} {os : List (Getopt.Chosen UInt8)} {verbose : Bool} :
    Getopt.choose (Shell.handle argv0) os false = .ok verbose ↔
      os.length ≤ 1 ∧ verbose = decide (os.length = 1) := by
  rcases os with _ | ⟨o, _ | ⟨o', os⟩⟩
  · simp [Getopt.choose, pure, Except.pure, eq_comm]
  · simp [Getopt.choose, Shell.handle, pure, Except.pure, bind, Except.bind, eq_comm]
  · simp [Getopt.choose, Shell.handle, bind, Except.bind]

theorem getoptRounds_cons (argv0 : CString) (words : List CString) :
    (((argv0 :: words).drop 1).map List.length).sum < getoptRounds (argv0 :: words) := by
  simp only [List.drop_succ_cons, List.drop_zero, getoptRounds, List.map_cons, List.sum_cons]
  omega

theorem call_dispatch (context argv0 : CString) (verbose : Bool) (operands : List CString) :
    (Shell.dispatch context argv0 verbose operands).call =
      (Shell.dispatch [] [] false operands).call := by
  rcases operands with _ | ⟨name, args⟩
  · rfl
  · simp only [Shell.dispatch]
    split <;> rfl

/-- The shell comes to the dispatch exactly with a command line of its own. -/
theorem ocreShell_spec (context argv0 : CString) (words : List CString) :
    ∃ r, Shell.ocreShell context (argv0 :: words) = some r ∧
      ∀ func argv, r.call = .ok (func, argv) ↔ ∃ operands, ShellLine words operands ∧
        (Shell.dispatch [] [] false operands).call = .ok (func, argv) := by
  obtain ⟨r, hr, hspec⟩ := Getopt.loop_iff (Shell.handle argv0)
    (show Shell.kind dash = none by decide) (by rintro _ _ _ ⟨⟩) false
    (show 1 ≤ (argv0 :: words).length from Nat.succ_pos _) (getoptRounds_cons argv0 words)
  have hline (operands : List CString) (verbose : Bool) :
      (∃ s', r = .ok (verbose, s') ∧ (argv0 :: words).drop s'.optind = operands) ↔
        ∃ os, Getopt.CommandLine dash Shell.kind words os operands ∧
          os.length ≤ 1 ∧ verbose = decide (os.length = 1) :=
    (hspec verbose operands).trans
      (exists_congr fun os ↦ and_congr_right fun _ ↦ choose_handle_iff)
  cases r with
  | error output =>
      refine ⟨⟨output, .error (-1)⟩, by simp [Shell.ocreShell, hr], fun func argv ↦ ?_⟩
      refine iff_of_false (by rintro ⟨⟩) ?_
      rintro ⟨operands, ⟨os, hos, hcommand⟩, -⟩
      obtain ⟨s', hs', -⟩ := (hline operands _).mpr ⟨os, hcommand, hos, rfl⟩
      cases hs'
  | ok p =>
      obtain ⟨verbose, s⟩ := p
      refine ⟨Shell.dispatch context argv0 verbose ((argv0 :: words).drop s.optind),
        by simp [Shell.ocreShell, hr], fun func argv ↦ ?_⟩
      rw [call_dispatch]
      constructor
      · intro hcall
        obtain ⟨os, hcommand, hos, -⟩ := (hline _ verbose).mp ⟨s, rfl, rfl⟩
        exact ⟨_, ⟨os, hos, hcommand⟩, hcall⟩
      · rintro ⟨operands, ⟨os, hos, hcommand⟩, hcall⟩
        obtain ⟨s', hs', rfl⟩ := (hline operands _).mpr ⟨os, hcommand, hos, rfl⟩
        obtain ⟨-, rfl⟩ := Prod.mk.inj (Except.ok.inj hs')
        exact hcall

theorem exists_name_iff {name : CString} {args argv : List CString} {p : CString → Prop} :
    name :: args = argv ∧ p name ↔
      name :: args = argv ∧ ∃ name' args', argv = name' :: args' ∧ p name' := by
  constructor
  · rintro ⟨rfl, h⟩
    exact ⟨rfl, name, args, rfl, h⟩
  · rintro ⟨rfl, name', args', hargv, h⟩
    obtain ⟨rfl, -⟩ := List.cons.inj hargv
    exact ⟨rfl, h⟩

theorem call_dispatch_iff {operands argv : List CString} {func : Handler} (h : func ≠ .printUsage) :
    (Shell.dispatch [] [] false operands).call = .ok (func, argv) ↔
      operands = argv ∧ ∃ name args, argv = name :: args ∧ ⟨name, func⟩ ∈ Shell.commands := by
  rcases operands with _ | ⟨name, args⟩
  · refine iff_of_false (by rintro ⟨⟩) ?_
    rintro ⟨rfl, name, args, hargv, -⟩
    cases hargv
  · rw [← exists_name_iff, ← findCommand_eq_some_iff (by decide)]
    simp only [Shell.dispatch]
    split
    next hfind =>
      refine iff_of_false (by rintro ⟨⟩) ?_
      rintro ⟨-, hfunc⟩
      exact h (Option.some.inj (hfunc.symm.trans hfind))
    next found _ hfind =>
      rw [hfind]
      simp [and_comm]
    next hfind =>
      rw [hfind]
      simp

theorem call_subcommand_iff {commands : List OcreCommand}
    (hnodup : (commands.map OcreCommand.name).Nodup) {group argv0 : CString} {usage : List Output}
    {ret : Int} {word : CString} {operands argv : List CString} {func : Handler}
    (h : func ≠ .printUsage) :
    (Shell.subcommand commands group argv0 usage ret (word :: operands)).call = .ok (func, argv) ↔
      operands = argv ∧ ∃ name args, argv = name :: args ∧ ⟨name, func⟩ ∈ commands := by
  rcases operands with _ | ⟨name, args⟩
  · refine iff_of_false (by rintro ⟨⟩) ?_
    rintro ⟨rfl, name, args, hargv, -⟩
    cases hargv
  · rw [← exists_name_iff, ← findCommand_eq_some_iff hnodup]
    simp only [Shell.subcommand]
    split
    next hfind =>
      refine iff_of_false (by rintro ⟨⟩) ?_
      rintro ⟨-, hfunc⟩
      exact h (Option.some.inj (hfunc.symm.trans hfind))
    next found _ hfind =>
      rw [hfind]
      simp [and_comm]
    next hfind =>
      rw [hfind]
      simp

/-- What is called in the end, in terms of the call that the dispatch comes to. -/
theorem call_invoke_iff (argv0 : CString) (r : ShellResult) (argv : List CString) :
    (Shell.invoke argv0 r).call = .ok (.cmdContainerCreateRun, argv) ↔
      r.call = .ok (.cmdContainerCreateRun, argv) ∨
        ∃ word, r.call = .ok (.cmdContainer, word :: argv) ∧
          ∃ name args, argv = name :: args ∧
            ⟨name, .cmdContainerCreateRun⟩ ∈ Shell.Container.commands := by
  have hne : Handler.cmdContainerCreateRun ≠ .printUsage := by decide
  obtain ⟨output, call⟩ := r
  rcases call with ret | ⟨func, args⟩
  · refine iff_of_false (by rintro ⟨⟩) ?_
    rintro (⟨⟨⟩⟩ | ⟨word, ⟨⟩, -⟩)
  · by_cases hcontainer : func = .cmdContainer
    · subst hcontainer
      change (Shell.cmdContainer argv0 args).call = _ ↔ _
      rcases args with _ | ⟨word, operands⟩
      · refine iff_of_false (by rintro ⟨⟩) ?_
        rintro (⟨⟨⟩⟩ | ⟨word, ⟨⟩, -⟩)
      · rw [Shell.cmdContainer, call_subcommand_iff (by decide) hne, or_iff_right (by rintro ⟨⟩)]
        constructor
        · rintro ⟨rfl, hname⟩
          exact ⟨word, rfl, hname⟩
        · rintro ⟨word', ⟨⟩, hname⟩
          exact ⟨rfl, hname⟩
    · rw [or_iff_left (by rintro ⟨word, ⟨⟩, -⟩; exact hcontainer rfl)]
      by_cases himage : func = .cmdImage
      · subst himage
        refine iff_of_false ?_ (by rintro ⟨⟩)
        change ¬ (Shell.cmdImage argv0 args).call = _
        rcases args with _ | ⟨word, operands⟩
        · rintro ⟨⟩
        · rw [Shell.cmdImage, call_subcommand_iff (by decide) hne]
          rintro ⟨-, name, args, -, hname⟩
          exact createRun_not_mem_image hname
      · cases func <;> first | rfl | exact absurd rfl hcontainer | exact absurd rfl himage

/-- A command line comes to `cmd_container_create_run` exactly if its operands begin with one of
the two commands, behind `container` or not. -/
theorem called_createRun_iff (context argv0 : CString) (words argv : List CString) :
    Shell.called context (argv0 :: words) = some (.ok (.cmdContainerCreateRun, argv)) ↔
      (∃ name args, argv = name :: args ∧ (name = cstring "create" ∨ name = cstring "run")) ∧
        (ShellLine words argv ∨ ShellLine words (cstring "container" :: argv)) := by
  obtain ⟨r, hr, hcall⟩ := ocreShell_spec context argv0 words
  rw [Shell.called, hr, Option.map_some, Option.some_inj, call_invoke_iff, hcall]
  simp only [hcall, call_dispatch_iff (show Handler.cmdContainerCreateRun ≠ .printUsage by decide),
    call_dispatch_iff (show Handler.cmdContainer ≠ .printUsage by decide), createRun_mem_commands,
    createRun_mem_container, container_mem_commands]
  constructor
  · rintro (⟨operands, hline, rfl, hname⟩ |
      ⟨word, ⟨operands, hline, rfl, name, args, ⟨⟩, rfl⟩, hname⟩)
    · exact ⟨hname, .inl hline⟩
    · exact ⟨hname, .inr hline⟩
  · rintro ⟨hname, hline | hline⟩
    · exact .inl ⟨argv, hline, rfl, hname⟩
    · exact .inr ⟨_, ⟨_, hline, rfl, _, _, rfl, rfl⟩, hname⟩

end Lines

end OcreRuntime
