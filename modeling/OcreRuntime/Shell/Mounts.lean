import OcreRuntime.Context.Model
import OcreRuntime.Util.Path

/-!
# Mounts and the root

A mount is checked in the same way when a container is created and when the command line
reads an option `-v`. The check looks at single characters, so that it lets a destination
pass that denotes the root directory by another spelling.
-/

namespace OcreRuntime

/-- `strchr`: the string from the first occurrence of a character on. -/
def strchr (s : CString) (c : UInt8) : Option CString :=
  match s.dropWhile (· ≠ c) with
  | [] => none
  | t => some t

inductive MountError
  | source
  | format
  | destination
  | root
  deriving DecidableEq, Repr

/-- The message for a mount, without the end of the line. -/
def MountError.message (mount : CString) (error : MountError) : CString :=
  cstring "Invalid mount format: '" ++ mount ++ match error with
    | source => cstring "': source must be absolute path"
    | format => cstring "': must be <source>:<destination>"
    | destination => cstring "': destination must be absolute path"
    | root => cstring "': destination must not be '/'"

/-- The checks that both places make of a mount, in their order. -/
def mountError (mount : CString) : Option MountError :=
  if mount.head? ≠ some 47 then some .source
  else match strchr mount 58 with
    | none => some .format
    | some colon =>
        let dst := colon.tail
        if dst.head? ≠ some 47 then some .destination
        else if dst.tail = [] then some .root
        else none

/-- The loop over the mounts in `ocre_container_create`, with the message that it logs when
it returns NULL. -/
def ocreContainerCreateMounts : List CString → Except CString Unit
  | [] => .ok ()
  | mount :: mounts => match mountError mount with
      | some error => .error (error.message mount)
      | none => ocreContainerCreateMounts mounts

/-- The options `-v` in `cmd_container_create_run`, which are appended one by one, with what
is printed when the command fails. An allocation that fails prints nothing. -/
def cmdContainerCreateRunMounts (fails : ℕ → Bool) (mounts : List CString) :
    List CString → Except CString (List CString)
  | [] => .ok mounts
  | optarg :: options => match mountError optarg with
      | some error => .error (error.message optarg ++ [10])
      | none =>
          if fails mounts.length then .error []
          else cmdContainerCreateRunMounts fails (mounts ++ [optarg]) options

/-- What is in front of the first colon. -/
def mountSource (mount : CString) : CString := mount.takeWhile (· ≠ 58)

/-- What follows the first colon. -/
def mountDestination (mount : CString) : CString := (mount.dropWhile (· ≠ 58)).tail

/-- `<source>:<destination>` with absolute paths, split at the first colon, of which the
destination denotes another directory than `/`. -/
def RootFree (mount : CString) : Prop :=
  ∃ source destination, mount = source ++ 58 :: destination ∧ 58 ∉ source ∧
    source.head? = some 47 ∧ destination.head? = some 47 ∧
    pathOf destination ≠ pathOf (cstring "/")

variable {mount : CString} {mounts : List CString}

theorem strchr_append {u : CString} {c : UInt8} (h : c ∉ u) (v : CString) :
    strchr (u ++ c :: v) c = some (c :: v) := by
  have hall : ∀ d ∈ u, decide (d ≠ c) = true := by
    intro d hd
    rw [decide_eq_true_eq]
    rintro rfl
    exact h hd
  rw [strchr, List.dropWhile_append_of_pos hall, List.dropWhile_cons_of_neg (by simp)]

theorem exists_of_strchr {s t : CString} {c : UInt8} (h : strchr s c = some t) :
    ∃ u v, s = u ++ c :: v ∧ c ∉ u ∧ t = c :: v := by
  induction s with
  | nil => cases h
  | cons d s ih =>
      rw [strchr, List.dropWhile_cons] at h
      by_cases hd : d = c
      · subst hd
        simp only [ne_eq, not_true_eq_false, decide_false, Bool.false_eq_true, if_false,
          Option.some.injEq] at h
        exact ⟨[], s, rfl, List.not_mem_nil, h.symm⟩
      · rw [if_pos (decide_eq_true hd)] at h
        obtain ⟨u, v, rfl, hu, rfl⟩ := ih h
        exact ⟨d :: u, v, rfl, by simp [hu, Ne.symm hd], rfl⟩

/-- What the checks let pass: a destination that is longer than its first slash. -/
theorem exists_of_accepted (h : mountError mount = none) :
    ∃ source rest, mount = source ++ 58 :: 47 :: rest ∧ 58 ∉ source ∧
      source.head? = some 47 ∧ rest ≠ [] := by
  unfold mountError at h
  dsimp only at h
  split at h
  · cases h
  next hhead =>
    rw [not_not] at hhead
    split at h
    · cases h
    next colon hcolon =>
      obtain ⟨source, dst, rfl, hsource, rfl⟩ := exists_of_strchr hcolon
      split at h
      · cases h
      next hdst =>
        split at h
        · cases h
        next hroot =>
          rw [not_not, List.tail_cons] at hdst
          obtain ⟨rest, rfl⟩ : ∃ rest, dst = 47 :: rest := by
            cases dst with
            | nil => cases hdst
            | cons d rest => exact ⟨rest, by rw [Option.some.inj hdst]⟩
          refine ⟨source, rest, rfl, hsource, ?_, hroot⟩
          cases source with
          | nil => simp at hhead
          | cons c source => exact hhead

theorem mountDestination_append {source : CString} (h : 58 ∉ source) (destination : CString) :
    mountDestination (source ++ 58 :: destination) = destination := by
  have hsplit := strchr_append h destination
  rw [strchr] at hsplit
  rw [mountDestination]
  split at hsplit
  · cases hsplit
  · rw [Option.some.inj hsplit, List.tail_cons]

/-- An accepted mount has the form that is asked for, and its destination denotes the root
exactly if all its names are taken back. -/
theorem rootFree_iff (h : mountError mount = none) :
    RootFree mount ↔ KeepsName (mountDestination mount) := by
  obtain ⟨source, rest, rfl, hsource, hhead, -⟩ := exists_of_accepted h
  rw [mountDestination_append hsource, ← pathOf_ne_nil_iff]
  constructor
  · rintro ⟨source', destination, heq, hsource', -, -, hne⟩
    have hsame : 47 :: rest = destination := by
      have hdst := congrArg mountDestination heq
      rwa [mountDestination_append hsource, mountDestination_append hsource'] at hdst
    rw [hsame]
    exact hne
  · intro hne
    exact ⟨source, 47 :: rest, rfl, hsource, hhead, rfl, hne⟩

theorem accepted_iff : ocreContainerCreateMounts mounts = .ok () ↔
    ∀ mount ∈ mounts, mountError mount = none := by
  induction mounts with
  | nil => simp [ocreContainerCreateMounts]
  | cons mount mounts ih =>
      rw [ocreContainerCreateMounts, List.forall_mem_cons]
      cases herror : mountError mount with
      | none => simpa using ih
      | some error => simp

/-- The command collects the options that the library accepts, in their order. -/
theorem cmdContainerCreateRunMounts_ok_iff {options collected : List CString} :
    cmdContainerCreateRunMounts (fun _ ↦ false) collected options = .ok mounts ↔
      ocreContainerCreateMounts options = .ok () ∧ mounts = collected ++ options := by
  induction options generalizing collected with
  | nil => simp [cmdContainerCreateRunMounts, ocreContainerCreateMounts, eq_comm]
  | cons optarg options ih =>
      rw [cmdContainerCreateRunMounts, ocreContainerCreateMounts]
      cases herror : mountError optarg with
      | none =>
          simp only [Bool.false_eq_true, if_false]
          rw [ih, List.append_assoc, List.singleton_append]
      | some error => simp

/-- The model of the whole creation makes the same checks. -/
theorem validMount_eq (mount : CString) : validMount mount = (mountError mount).isNone := by
  unfold validMount mountError strchr
  by_cases hhead : mount.head? = some 47
  · generalize mount.dropWhile (· ≠ 58) = colon
    rcases colon with _ | ⟨c, _ | ⟨d, _ | ⟨e, t⟩⟩⟩
    · simp [hhead]
    · simp [hhead]
    · by_cases hd : d = 47 <;> simp [hhead, hd]
    · by_cases hd : d = 47 <;> simp [hhead, hd]
  · simp [hhead]

end OcreRuntime
