import Mathlib.Algebra.GroupWithZero.Nat
import Mathlib.Data.List.Basic
import Mathlib.Tactic.Common

/-!
# Options on a command line

`getopt` with an option string that begins with `+`, over any characters. Options are single
characters behind a dash, several of them in one word; an argument is the rest of the word or the
next word. The first word that is no option ends them, and so does the word of two dashes. A loop
that asks for options gets those that the words are made of.
-/

namespace Getopt

/-- What an option string says of a character that is in it. -/
inductive Kind
  | flag
  | argument
  deriving DecidableEq

/-- `optind`, and what is left of the word that is being scanned. -/
structure State (α : Type*) where
  optind : ℕ
  nextchar : List α

/-- What `getopt` finds: an option with its argument, or the character in `optopt`. -/
inductive Item (α : Type*)
  | option (c : α) (optarg : Option (List α))
  | invalid (optopt : α)

variable {α : Type*}

section Scan

variable [DecidableEq α] (dash : α) (kind : α → Option Kind) (argv : List (List α))

/-- The option that begins with this character. A word that is used up is left. -/
def short (optind : ℕ) (c : α) (chars : List α) : Item α × State α :=
  let next := if chars = [] then optind + 1 else optind
  match kind c with
  | none => (.invalid c, ⟨next, chars⟩)
  | some .flag => (.option c none, ⟨next, chars⟩)
  | some .argument =>
      if chars ≠ [] then (.option c (some chars), ⟨optind + 1, []⟩)
      else match argv[next]? with
        | none => (.invalid c, ⟨next, []⟩)
        | some word => (.option c (some word), ⟨next + 1, []⟩)

/-- There is nothing found, which is -1, at the end of the options. -/
def getopt (s : State α) : Option (Item α) × State α :=
  match s.nextchar with
  | c :: chars => ((short kind argv s.optind c chars).map some id)
  | [] => match argv[s.optind]? with
    | some (d :: c :: chars) =>
        if d ≠ dash then (none, s)
        else if c = dash ∧ chars = [] then (none, ⟨s.optind + 1, []⟩)
        else (short kind argv s.optind c chars).map some id
    | _ => (none, s)

/-- The loop over what `getopt` finds. It is left when an option is refused. -/
def loop {σ ε : Type*} (handle : σ → Item α → Except ε σ) :
    ℕ → σ → State α → Option (Except ε (σ × State α))
  | 0, _, _ => none
  | fuel + 1, acc, s => match getopt dash kind argv s with
      | (none, s') => some (.ok (acc, s'))
      | (some item, s') => match handle acc item with
        | .error e => some (.error e)
        | .ok acc' => loop handle fuel acc' s'

end Scan

section Grammar

/-- An option with its argument. -/
abbrev Chosen (α : Type*) := α × Option (List α)

/-- The options in one word, whose last one may have the next word as its argument. -/
inductive Cluster (kind : α → Option Kind) : List α → Option (List α) → List (Chosen α) → Prop
  | flag {c : α} : kind c = some .flag → Cluster kind [c] none [(c, none)]
  | more {c : α} {chars : List α} {next : Option (List α)} {os : List (Chosen α)} :
      kind c = some .flag → Cluster kind chars next os →
        Cluster kind (c :: chars) next ((c, none) :: os)
  | attached {c : α} {chars : List α} : kind c = some .argument → chars ≠ [] →
      Cluster kind (c :: chars) none [(c, some chars)]
  | separate {c : α} {word : List α} : kind c = some .argument →
      Cluster kind [c] (some word) [(c, some word)]

inductive Options (dash : α) (kind : α → Option Kind) : List (List α) → List (Chosen α) → Prop
  | nil : Options dash kind [] []
  | word {chars : List α} {next : Option (List α)} {words : List (List α)}
      {os os' : List (Chosen α)} : Cluster kind chars next os → Options dash kind words os' →
        Options dash kind ((dash :: chars) :: (next.toList ++ words)) (os ++ os')

/-- The word is no option: it does not begin with a dash, or it is one. -/
def Operand (dash : α) (word : List α) : Prop := ∀ c chars, word ≠ dash :: c :: chars

/-- Options in front of operands, with two dashes between them where they are needed. -/
inductive CommandLine (dash : α) (kind : α → Option Kind) :
    List (List α) → List (Chosen α) → List (List α) → Prop
  | plain {words operands : List (List α)} {os : List (Chosen α)} : Options dash kind words os →
      (∀ word ∈ operands.head?, Operand dash word) →
        CommandLine dash kind (words ++ operands) os operands
  | dashes {words operands : List (List α)} {os : List (Chosen α)} : Options dash kind words os →
      CommandLine dash kind (words ++ [dash, dash] :: operands) os operands

/-- A flag has no argument, and any other option has one. -/
def Formed (kind : α → Option Kind) (o : Chosen α) : Prop :=
  kind o.1 = some .flag ∧ o.2 = none ∨ kind o.1 = some .argument ∧ o.2.isSome

variable {dash : α} {kind : α → Option Kind} {words operands : List (List α)}
  {os : List (Chosen α)}

theorem Cluster.formed {chars : List α} {next : Option (List α)}
    (h : Cluster kind chars next os) : ∀ o ∈ os, Formed kind o := by
  induction h with
  | flag hc => exact List.forall_mem_singleton.mpr (.inl ⟨hc, rfl⟩)
  | more hc _ ih => exact List.forall_mem_cons.mpr ⟨.inl ⟨hc, rfl⟩, ih⟩
  | attached hc _ => exact List.forall_mem_singleton.mpr (.inr ⟨hc, rfl⟩)
  | separate hc => exact List.forall_mem_singleton.mpr (.inr ⟨hc, rfl⟩)

theorem Options.formed (h : Options dash kind words os) : ∀ o ∈ os, Formed kind o := by
  induction h with
  | nil => exact List.forall_mem_nil _
  | word hcluster _ ih => exact List.forall_mem_append.mpr ⟨hcluster.formed, ih⟩

theorem Options.append {words' : List (List α)} {os' : List (Chosen α)}
    (h : Options dash kind words os) (h' : Options dash kind words' os') :
    Options dash kind (words ++ words') (os ++ os') := by
  induction h with
  | nil => exact h'
  | word hcluster _ ih =>
      rw [List.cons_append, List.append_assoc, List.append_assoc]
      exact .word hcluster ih

/-- A flag in a word of its own. -/
theorem options_flag {c : α} (h : kind c = some .flag) :
    Options dash kind [[dash, c]] [(c, none)] :=
  .word (.flag h) .nil

/-- An option several times, each with its argument in the next word. -/
theorem options_arguments {c : α} (h : kind c = some .argument) (args : List (List α)) :
    Options dash kind (args.flatMap fun arg ↦ [[dash, c], arg])
      (args.map fun arg ↦ (c, some arg)) := by
  induction args with
  | nil => exact .nil
  | cons arg args ih => exact .word (.separate h) ih

theorem CommandLine.formed (h : CommandLine dash kind words os operands) :
    ∀ o ∈ os, Formed kind o := by
  rcases h with ⟨hoptions, -⟩ | ⟨hoptions⟩
  · exact hoptions.formed
  · exact hoptions.formed

end Grammar

section Rest

/-- What is left is the rest of a word and a command line. -/
inductive Rest (dash : α) (kind : α → Option Kind) :
    List α → List (List α) → List (Chosen α) → List (List α) → Prop
  | line {words operands : List (List α)} {os : List (Chosen α)} :
      CommandLine dash kind words os operands → Rest dash kind [] words os operands
  | word {chars : List α} {next : Option (List α)} {words operands : List (List α)}
      {os os' : List (Chosen α)} : Cluster kind chars next os →
        CommandLine dash kind words os' operands →
          Rest dash kind chars (next.toList ++ words) (os ++ os') operands

variable {dash kind} {c : α} {chars : List α} {words operands : List (List α)}
  {os : List (Chosen α)}

theorem rest_nil_iff : Rest dash kind [] words os operands ↔
    CommandLine dash kind words os operands := by
  constructor
  · rintro (hline | ⟨hcluster, -⟩)
    · exact hline
    · cases hcluster
  · exact .line

theorem rest_flag_iff (h : kind c = some .flag) : Rest dash kind (c :: chars) words os operands ↔
    ∃ os', os = (c, none) :: os' ∧ Rest dash kind chars words os' operands := by
  constructor
  · rintro (_ | ⟨hcluster, hline⟩)
    cases hcluster with
    | flag hc => exact ⟨_, rfl, .line hline⟩
    | more hc hrest => exact ⟨_, rfl, .word hrest hline⟩
    | attached hc hne => cases h.symm.trans hc
    | separate hc => cases h.symm.trans hc
  · rintro ⟨os', rfl, hline | ⟨hcluster, hline⟩⟩
    · exact .word (.flag h) hline
    · exact .word (.more h hcluster) hline

theorem rest_attached_iff (h : kind c = some .argument) (hne : chars ≠ []) :
    Rest dash kind (c :: chars) words os operands ↔
      ∃ os', os = (c, some chars) :: os' ∧ CommandLine dash kind words os' operands := by
  constructor
  · rintro (_ | ⟨hcluster, hline⟩)
    cases hcluster with
    | flag hc => cases h.symm.trans hc
    | more hc hrest => cases h.symm.trans hc
    | attached hc hchars => exact ⟨_, rfl, hline⟩
    | separate hc => exact absurd rfl hne
  · rintro ⟨os', rfl, hline⟩
    exact .word (.attached h hne) hline

theorem rest_separate_iff (h : kind c = some .argument) :
    Rest dash kind [c] words os operands ↔ ∃ word words' os', words = word :: words' ∧
      os = (c, some word) :: os' ∧ CommandLine dash kind words' os' operands := by
  constructor
  · rintro (_ | ⟨hcluster, hline⟩)
    cases hcluster with
    | flag hc => cases h.symm.trans hc
    | more hc hrest => cases h.symm.trans hc
    | attached hc hchars => exact absurd rfl hchars
    | separate hc => exact ⟨_, _, _, rfl, rfl, hline⟩
  · rintro ⟨word, words', os', rfl, rfl, hline⟩
    exact .word (.separate h) hline

theorem not_rest_of_none (h : kind c = none) : ¬ Rest dash kind (c :: chars) words os operands := by
  rintro (_ | ⟨hcluster, -⟩)
  cases hcluster with
  | flag hc => cases h.symm.trans hc
  | more hc hrest => cases h.symm.trans hc
  | attached hc hchars => cases h.symm.trans hc
  | separate hc => cases h.symm.trans hc

/-- A word that is no option ends the options. -/
theorem commandLine_operand_iff (h : ∀ word ∈ words.head?, Operand dash word) :
    CommandLine dash kind words os operands ↔ os = [] ∧ operands = words := by
  have hnot {chars : List α} {rest : List (List α)} {next : Option (List α)}
      {chosen : List (Chosen α)} (hcluster : Cluster kind chars next chosen) :
      words ≠ (dash :: chars) :: rest := by
    rintro rfl
    cases hcluster <;> exact h _ rfl _ _ rfl
  constructor
  · rintro (⟨hoptions, -⟩ | ⟨hoptions⟩)
    · cases hoptions with
      | nil => exact ⟨rfl, rfl⟩
      | word hcluster _ => exact absurd rfl (hnot hcluster)
    · cases hoptions with
      | nil => exact absurd rfl (h _ rfl _ _)
      | word hcluster _ => exact absurd rfl (hnot hcluster)
  · rintro ⟨rfl, rfl⟩
    exact .plain .nil h

/-- Two dashes end the options. -/
theorem commandLine_dashes_iff (hdash : kind dash = none) :
    CommandLine dash kind ([dash, dash] :: words) os operands ↔ os = [] ∧ operands = words := by
  have hnot {next : Option (List α)} {chosen : List (Chosen α)} :
      ¬ Cluster kind [dash] next chosen := by
    intro hcluster
    cases hcluster with
    | flag hc => cases hdash.symm.trans hc
    | more hc hrest => cases hdash.symm.trans hc
    | attached hc hchars => cases hdash.symm.trans hc
    | separate hc => cases hdash.symm.trans hc
  constructor
  · intro hline
    generalize hwords : [dash, dash] :: words = line at hline
    rcases hline with ⟨hoptions, hoperand⟩ | ⟨hoptions⟩
    · cases hoptions with
      | nil =>
          obtain rfl : _ = _ := hwords
          exact absurd rfl (hoperand _ rfl _ _)
      | word hcluster _ =>
          obtain ⟨hword, -⟩ := List.cons.inj hwords
          obtain rfl := (List.cons.inj hword).2
          exact absurd hcluster hnot
    · cases hoptions with
      | nil => exact ⟨rfl, (List.cons.inj hwords).2.symm⟩
      | word hcluster _ =>
          obtain ⟨hword, -⟩ := List.cons.inj hwords
          obtain rfl := (List.cons.inj hword).2
          exact absurd hcluster hnot
  · rintro ⟨rfl, rfl⟩
    exact .dashes .nil

/-- A word with options is scanned in front of the others. -/
theorem commandLine_word_iff (hne : ¬ (c = dash ∧ chars = [])) :
    CommandLine dash kind ((dash :: c :: chars) :: words) os operands ↔
      Rest dash kind (c :: chars) words os operands := by
  constructor
  · intro hline
    generalize hwords : (dash :: c :: chars) :: words = line at hline
    rcases hline with ⟨hoptions, hoperand⟩ | ⟨hoptions⟩
    · cases hoptions with
      | nil =>
          obtain rfl : _ = _ := hwords
          exact absurd rfl (hoperand _ rfl _ _)
      | word hcluster hrest =>
          obtain ⟨hword, hrestWords⟩ := List.cons.inj hwords
          obtain rfl := (List.cons.inj hword).2
          rw [hrestWords]
          change Rest dash kind _ (_ ++ _ ++ _) _ _
          rw [List.append_assoc]
          exact .word hcluster (.plain hrest hoperand)
    · cases hoptions with
      | nil =>
          obtain ⟨hword, -⟩ := List.cons.inj hwords
          obtain ⟨-, htail⟩ := List.cons.inj hword
          exact absurd (List.cons.inj htail) hne
      | word hcluster hrest =>
          obtain ⟨hword, hrestWords⟩ := List.cons.inj hwords
          obtain rfl := (List.cons.inj hword).2
          rw [hrestWords]
          change Rest dash kind _ (_ ++ _ ++ _) _ _
          rw [List.append_assoc]
          exact .word hcluster (.dashes hrest)
  · rintro (_ | ⟨hcluster, hline⟩)
    rcases hline with ⟨hoptions, hoperand⟩ | ⟨hoptions⟩
    · rw [← List.append_assoc, ← List.cons_append]
      exact .plain (.word hcluster hoptions) hoperand
    · rw [← List.append_assoc, ← List.cons_append]
      exact .dashes (.word hcluster hoptions)

end Rest

section Loop

variable {dash : α} {kind : α → Option Kind} {argv : List (List α)} {s s' : State α}

/-- The position of the first word behind the one that is being scanned. -/
def State.place (s : State α) : ℕ := if s.nextchar = [] then s.optind else s.optind + 1

/-- The words from there on. -/
def State.words (s : State α) (argv : List (List α)) : List (List α) := argv.drop s.place

/-- The number of characters that are left. -/
def State.size (s : State α) (argv : List (List α)) : ℕ :=
  s.nextchar.length + ((s.words argv).map List.length).sum

/-- `short` on the words themselves. -/
def takeOption (kind : α → Option Kind) (c : α) (chars : List α) (words : List (List α)) :
    Item α × List α × List (List α) :=
  match kind c with
  | none => (.invalid c, chars, words)
  | some .flag => (.option c none, chars, words)
  | some .argument =>
      if chars = [] then match words with
        | [] => (.invalid c, [], [])
        | word :: words => (.option c (some word), [], words)
      else (.option c (some chars), [], words)

/-- A word that is used up has been left. -/
theorem place_next (optind : ℕ) (chars : List α) :
    State.place ⟨if chars = [] then optind + 1 else optind, chars⟩ = optind + 1 := by
  rw [State.place]
  split <;> simp_all

theorem short_eq (kind : α → Option Kind) (optind : ℕ) (c : α) (chars : List α)
    (h : optind + 1 ≤ argv.length) :
    ∃ item s', short kind argv optind c chars = (item, s') ∧ s'.place ≤ argv.length ∧
      takeOption kind c chars (argv.drop (optind + 1)) = (item, s'.nextchar, s'.words argv) := by
  have hnext := place_next optind chars
  cases hkind : kind c with
  | none =>
      refine ⟨.invalid c, ⟨if chars = [] then optind + 1 else optind, chars⟩, ?_,
        Nat.le_trans (Nat.le_of_eq hnext) h, ?_⟩
      · simp only [short, hkind]
      · simp only [takeOption, hkind, State.words, hnext]
  | some k =>
      cases k with
      | flag =>
          refine ⟨.option c none, ⟨if chars = [] then optind + 1 else optind, chars⟩, ?_,
            Nat.le_trans (Nat.le_of_eq hnext) h, ?_⟩
          · simp only [short, hkind]
          · simp only [takeOption, hkind, State.words, hnext]
      | argument =>
          by_cases hchars : chars = []
          swap
          · refine ⟨.option c (some chars), ⟨optind + 1, []⟩, ?_, h, ?_⟩
            · simp only [short, hkind, if_pos hchars]
            · simp only [takeOption, hkind, if_neg hchars]
              rfl
          · cases hword : argv[optind + 1]? with
            | none =>
                refine ⟨.invalid c, ⟨optind + 1, []⟩, ?_, h, ?_⟩
                · simp [short, hkind, hchars, hword]
                · have hdrop : argv.drop (optind + 1) = [] :=
                    List.drop_of_length_le (List.getElem?_eq_none_iff.mp hword)
                  simp [takeOption, hkind, hchars, State.words, State.place, hdrop]
            | some word =>
                have hlt : optind + 1 < argv.length := (List.getElem?_eq_some_iff.mp hword).1
                refine ⟨.option c (some word), ⟨optind + 1 + 1, []⟩, ?_, hlt, ?_⟩
                · simp [short, hkind, hchars, hword]
                · have hdrop : argv.drop (optind + 1) = word :: argv.drop (optind + 1 + 1) := by
                    rw [List.drop_eq_getElem_cons hlt, (List.getElem?_eq_some_iff.mp hword).2]
                  simp [takeOption, hkind, hchars, State.words, State.place, hdrop]

theorem item_of_takeOption {c : α} {chars : List α} {words : List (List α)} {item : Item α}
    {left : List α × List (List α)} (htake : takeOption kind c chars words = (item, left)) :
    (∃ d, item = .invalid d) ∨ ∃ optarg, item = .option c optarg := by
  unfold takeOption at htake
  split at htake
  · exact .inl ⟨c, (Prod.mk.inj htake).1.symm⟩
  · exact .inr ⟨none, (Prod.mk.inj htake).1.symm⟩
  · split at htake
    · split at htake
      · exact .inl ⟨c, (Prod.mk.inj htake).1.symm⟩
      next word _ => exact .inr ⟨some word, (Prod.mk.inj htake).1.symm⟩
    · exact .inr ⟨some chars, (Prod.mk.inj htake).1.symm⟩

/-- An option that is taken uses characters up, and stands in front of the others in what is
left. -/
theorem rest_option_iff (dash : α) {c : α} {chars : List α} {words : List (List α)}
    {item : Item α}
    (htake : takeOption kind c chars words = (item, s'.nextchar, s'.words argv)) :
    s'.size argv < (c :: chars).length + (words.map List.length).sum ∧
      ∀ os operands, Rest dash kind (c :: chars) words os operands ↔ ∃ optarg os',
        item = .option c optarg ∧ os = (c, optarg) :: os' ∧
          Rest dash kind s'.nextchar (s'.words argv) os' operands := by
  rw [State.size, List.length_cons]
  unfold takeOption at htake
  split at htake
  next hkind =>
    obtain ⟨rfl, hrest⟩ := Prod.mk.inj htake
    obtain ⟨hchars, hwords⟩ := Prod.mk.inj hrest
    rw [← hchars, ← hwords]
    refine ⟨by omega, fun os operands ↦ iff_of_false (not_rest_of_none hkind) ?_⟩
    rintro ⟨optarg, os', hitem, -⟩
    cases hitem
  next hkind =>
    obtain ⟨rfl, hrest⟩ := Prod.mk.inj htake
    obtain ⟨hchars, hwords⟩ := Prod.mk.inj hrest
    rw [← hchars, ← hwords]
    refine ⟨by omega, fun os operands ↦ (rest_flag_iff hkind).trans ?_⟩
    constructor
    · rintro ⟨os', rfl, hmore⟩
      exact ⟨none, os', rfl, rfl, hmore⟩
    · rintro ⟨optarg, os', hitem, rfl, hmore⟩
      obtain rfl := (Item.option.inj hitem).2
      exact ⟨os', rfl, hmore⟩
  next hkind =>
    split at htake
    next hnil =>
      subst hnil
      split at htake
      next =>
        obtain ⟨rfl, hrest⟩ := Prod.mk.inj htake
        obtain ⟨hchars, hwords⟩ := Prod.mk.inj hrest
        rw [← hchars, ← hwords]
        refine ⟨by simp, fun os operands ↦ (rest_separate_iff hkind).trans (iff_of_false ?_ ?_)⟩
        · rintro ⟨word, words', os', hwords, -⟩
          cases hwords
        · rintro ⟨optarg, os', hitem, -⟩
          cases hitem
      next word words =>
        obtain ⟨rfl, hrest⟩ := Prod.mk.inj htake
        obtain ⟨hchars, hwords⟩ := Prod.mk.inj hrest
        rw [← hchars, ← hwords]
        refine ⟨by simp; omega, fun os operands ↦ (rest_separate_iff hkind).trans ?_⟩
        constructor
        · rintro ⟨word', words', os', hsplit, rfl, hline⟩
          obtain ⟨rfl, rfl⟩ := List.cons.inj hsplit
          exact ⟨some word, os', rfl, rfl, .line hline⟩
        · rintro ⟨optarg, os', hitem, rfl, hline⟩
          obtain rfl := (Item.option.inj hitem).2
          exact ⟨word, words, os', rfl, rfl, rest_nil_iff.mp hline⟩
    next hne =>
      obtain ⟨rfl, hrest⟩ := Prod.mk.inj htake
      obtain ⟨hchars, hwords⟩ := Prod.mk.inj hrest
      rw [← hchars, ← hwords]
      refine ⟨by simp, fun os operands ↦ (rest_attached_iff hkind hne).trans ?_⟩
      constructor
      · rintro ⟨os', rfl, hline⟩
        exact ⟨some chars, os', rfl, rfl, .line hline⟩
      · rintro ⟨optarg, os', hitem, rfl, hline⟩
        obtain rfl := (Item.option.inj hitem).2
        exact ⟨os', rfl, rest_nil_iff.mp hline⟩

variable {σ ε : Type*} {handle : σ → Item α → Except ε σ}

/-- The options one after the other. -/
def choose (handle : σ → Item α → Except ε σ) (os : List (Chosen α)) (acc : σ) : Except ε σ :=
  os.foldlM (fun acc o ↦ handle acc (.option o.1 o.2)) acc

theorem choose_cons_iff {o : Chosen α} {os : List (Chosen α)} {acc acc' : σ} :
    choose handle (o :: os) acc = .ok acc' ↔
      ∃ next, handle acc (.option o.1 o.2) = .ok next ∧ choose handle os next = .ok acc' := by
  rw [choose, List.foldlM_cons]
  cases handle acc (.option o.1 o.2) with
  | error e => exact iff_of_false (by rintro ⟨⟩) (by rintro ⟨next, ⟨⟩, -⟩)
  | ok next =>
      constructor
      · exact fun h ↦ ⟨next, rfl, h⟩
      · rintro ⟨next', hnext, h⟩
        obtain rfl := Except.ok.inj hnext
        exact h

variable [DecidableEq α]

/-- What `getopt` does with what is left: it ends in front of an operand or behind two dashes, or
takes an option from the word that is being scanned or from the next one. -/
inductive Found (dash : α) (kind : α → Option Kind) (argv : List (List α)) (s : State α) : Prop
  | operand : s.nextchar = [] → (∀ word ∈ (s.words argv).head?, Operand dash word) →
      getopt dash kind argv s = (none, s) → Found dash kind argv s
  | dashes (words : List (List α)) : s.nextchar = [] → s.words argv = [dash, dash] :: words →
      getopt dash kind argv s = (none, ⟨s.optind + 1, []⟩) → argv.drop (s.optind + 1) = words →
        Found dash kind argv s
  | option (c : α) (chars : List α) (words : List (List α)) (item : Item α) (s' : State α) :
      (s.nextchar = c :: chars ∧ s.words argv = words ∨
        s.nextchar = [] ∧ s.words argv = (dash :: c :: chars) :: words ∧
          ¬ (c = dash ∧ chars = [])) →
        getopt dash kind argv s = (some item, s') → s'.place ≤ argv.length →
          takeOption kind c chars words = (item, s'.nextchar, s'.words argv) →
            Found dash kind argv s

theorem found (dash : α) (kind : α → Option Kind) (hplace : s.place ≤ argv.length) :
    Found dash kind argv s := by
  obtain ⟨optind, nextchar⟩ := s
  cases nextchar with
  | cons c chars =>
      obtain ⟨item, s', hshort, hs', htake⟩ := short_eq kind optind c chars hplace
      refine .option c chars _ item s' (.inl ⟨rfl, rfl⟩) ?_ hs' htake
      rw [getopt]
      dsimp only
      rw [hshort]
      rfl
  | nil =>
      have hwords : State.words ⟨optind, []⟩ argv = argv.drop optind := rfl
      cases hword : argv[optind]? with
      | none =>
          have hdrop : argv.drop optind = [] :=
            List.drop_of_length_le (List.getElem?_eq_none_iff.mp hword)
          refine .operand rfl ?_ ?_
          · rw [hwords, hdrop]
            simp
          · simp [getopt, hword]
      | some word =>
          have hlt : optind < argv.length := (List.getElem?_eq_some_iff.mp hword).1
          have hdrop : argv.drop optind = word :: argv.drop (optind + 1) := by
            rw [List.drop_eq_getElem_cons hlt, (List.getElem?_eq_some_iff.mp hword).2]
          rw [hdrop] at hwords
          by_cases hoption : ∃ c chars, word = dash :: c :: chars
          · obtain ⟨c, chars, rfl⟩ := hoption
            by_cases hdashes : c = dash ∧ chars = []
            · obtain ⟨rfl, rfl⟩ := hdashes
              refine .dashes _ rfl hwords ?_ rfl
              simp [getopt, hword]
            · obtain ⟨item, s', hshort, hs', htake⟩ := short_eq kind optind c chars hlt
              refine .option c chars _ item s' (.inr ⟨rfl, hwords, hdashes⟩) ?_ hs' htake
              simp [getopt, hword, hdashes, hshort]
          · refine .operand rfl ?_ ?_
            · rw [hwords]
              rintro _ ⟨⟩ c chars rfl
              exact hoption ⟨c, chars, rfl⟩
            · rcases word with _ | ⟨d, _ | ⟨c, chars⟩⟩
              · simp [getopt, hword]
              · simp [getopt, hword]
              · have hd : d ≠ dash := by
                  rintro rfl
                  exact hoption ⟨c, chars, rfl⟩
                simp [getopt, hword, hd]

/-- The loop ends, and it ends well exactly if what is left is a command line whose options are
all taken. -/
theorem loop_spec (hdash : kind dash = none)
    (hinvalid : ∀ acc c acc', handle acc (.invalid c) ≠ .ok acc') {fuel : ℕ} {acc : σ}
    (hplace : s.place ≤ argv.length) (hfuel : s.size argv < fuel) :
    ∃ r, loop dash kind argv handle fuel acc s = some r ∧
      ∀ acc' operands, (∃ s', r = .ok (acc', s') ∧ argv.drop s'.optind = operands) ↔
        ∃ os, Rest dash kind s.nextchar (s.words argv) os operands ∧
          choose handle os acc = .ok acc' := by
  induction fuel generalizing s acc with
  | zero => exact absurd hfuel (Nat.not_lt_zero _)
  | succ fuel ih =>
      rw [loop]
      cases found dash kind hplace with
      | operand hnil hoperand hget =>
          obtain ⟨optind, nextchar⟩ := s
          obtain rfl : nextchar = [] := hnil
          refine ⟨.ok (acc, ⟨optind, []⟩), by rw [hget], fun acc' operands ↦ ?_⟩
          constructor
          · rintro ⟨s', hend, hdrop⟩
            obtain ⟨rfl, rfl⟩ := Prod.mk.inj (Except.ok.inj hend)
            exact ⟨[], .line ((commandLine_operand_iff hoperand).mpr ⟨rfl, hdrop.symm⟩), rfl⟩
          · rintro ⟨os, hrest, hchoose⟩
            obtain ⟨rfl, rfl⟩ := (commandLine_operand_iff hoperand).mp (rest_nil_iff.mp hrest)
            obtain rfl := Except.ok.inj hchoose
            exact ⟨_, rfl, rfl⟩
      | dashes words hnil hwords hget hdrop =>
          obtain ⟨optind, nextchar⟩ := s
          obtain rfl : nextchar = [] := hnil
          rw [hwords]
          refine ⟨.ok (acc, ⟨optind + 1, []⟩), by rw [hget], fun acc' operands ↦ ?_⟩
          constructor
          · rintro ⟨s', hend, hi⟩
            obtain ⟨rfl, rfl⟩ := Prod.mk.inj (Except.ok.inj hend)
            exact ⟨[], .line ((commandLine_dashes_iff hdash).mpr ⟨rfl, hi.symm.trans hdrop⟩), rfl⟩
          · rintro ⟨os, hrest, hchoose⟩
            obtain ⟨rfl, rfl⟩ := (commandLine_dashes_iff hdash).mp (rest_nil_iff.mp hrest)
            obtain rfl := Except.ok.inj hchoose
            exact ⟨_, rfl, hdrop⟩
      | option c chars words item s' hs hget hs' htake =>
          obtain ⟨hsize, hoption⟩ := rest_option_iff dash htake
          have hrest (os : List (Chosen α)) (operands : List (List α)) :
              Rest dash kind s.nextchar (s.words argv) os operands ↔
                Rest dash kind (c :: chars) words os operands := by
            rcases hs with ⟨hchars, hwords⟩ | ⟨hnil, hwords, hne⟩
            · rw [hchars, hwords]
            · rw [hnil, hwords, rest_nil_iff, commandLine_word_iff hne]
          have hless : s'.size argv < fuel := by
            rcases hs with ⟨hchars, hwords⟩ | ⟨hnil, hwords, -⟩
            · rw [State.size, hchars, hwords] at hfuel
              omega
            · rw [State.size, hnil, hwords] at hfuel
              simp only [List.length_nil, List.map_cons, List.sum_cons, List.length_cons] at hfuel
              simp only [List.length_cons] at hsize
              omega
          rw [hget]
          dsimp only
          cases hhandle : handle acc item with
          | error e =>
              refine ⟨.error e, rfl, fun acc' operands ↦ iff_of_false ?_ ?_⟩
              · rintro ⟨s'', hend, -⟩
                cases hend
              · rintro ⟨os, hos, hchoose⟩
                obtain ⟨optarg, os', rfl, rfl, -⟩ :=
                  (hoption os operands).mp ((hrest os operands).mp hos)
                rw [choose, List.foldlM_cons, hhandle] at hchoose
                cases hchoose
          | ok acc₁ =>
              obtain ⟨r, hr, hspec⟩ := @ih s' acc₁ hs' hless
              refine ⟨r, hr, fun acc' operands ↦ (hspec acc' operands).trans ?_⟩
              constructor
              · rintro ⟨os, hos, hchoose⟩
                rcases item_of_takeOption htake with ⟨d, rfl⟩ | ⟨optarg, rfl⟩
                · exact absurd hhandle (hinvalid acc d acc₁)
                · refine ⟨(c, optarg) :: os, (hrest _ _).mpr ((hoption _ _).mpr
                    ⟨optarg, os, rfl, rfl, hos⟩), ?_⟩
                  rw [choose, List.foldlM_cons, hhandle]
                  exact hchoose
              · rintro ⟨os, hos, hchoose⟩
                obtain ⟨optarg, os', rfl, rfl, hos'⟩ :=
                  (hoption os operands).mp ((hrest os operands).mp hos)
                rw [choose, List.foldlM_cons, hhandle] at hchoose
                exact ⟨os', hos', hchoose⟩

/-- The loop over all words from a position on. It ends, and ends well exactly if they are a
command line whose options are all taken. Then `optind` is at the first operand. -/
theorem loop_iff (handle : σ → Item α → Except ε σ) (hdash : kind dash = none)
    (hinvalid : ∀ acc c acc', handle acc (.invalid c) ≠ .ok acc') (acc : σ) {start fuel : ℕ}
    (hstart : start ≤ argv.length) (hfuel : ((argv.drop start).map List.length).sum < fuel) :
    ∃ r, loop dash kind argv handle fuel acc ⟨start, []⟩ = some r ∧
      ∀ acc' operands, (∃ s', r = .ok (acc', s') ∧ argv.drop s'.optind = operands) ↔
        ∃ os, CommandLine dash kind (argv.drop start) os operands ∧
          choose handle os acc = .ok acc' := by
  have hsize : State.size ⟨start, []⟩ argv < fuel := by
    rw [State.size]
    exact (Nat.zero_add _).symm ▸ hfuel
  obtain ⟨r, hr, hspec⟩ := @loop_spec _ dash kind argv ⟨start, []⟩ _ _ handle _ hdash hinvalid
    fuel acc hstart hsize
  refine ⟨r, hr, fun acc' operands ↦ (hspec acc' operands).trans ?_⟩
  exact exists_congr fun os ↦ and_congr_left fun _ ↦ rest_nil_iff

end Loop

end Getopt
