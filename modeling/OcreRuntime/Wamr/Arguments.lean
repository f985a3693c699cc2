import OcreRuntime.Util.StringArray

/-!
# The arguments of an instance

`instance_create` as far as it deals with the arguments and the environment: it keeps the array
of the environment, and puts the path of the image before the arguments in an array of its own,
whose other strings remain those of the container. What is loaded besides, and the directory
map, is memory of somebody else here.
-/

namespace OcreRuntime

/-- What `wasm_runtime_set_wasi_args_ex` is given about the environment and the arguments. The
pointers are kept, and followed when the module is instantiated. -/
structure WasiArgs where
  envp : Option Pointer
  envCount : ℕ
  argv : Option Pointer
  argc : ℕ

/-- `struct wamr_context` with its arguments. -/
structure WamrArguments where
  context : Option Pointer
  argv : Option Pointer
  envp : Option Pointer
  wasi : WasiArgs

def intMax : ℕ := 2147483647

/-- The loop that counts the entries with an `int`. -/
def countLoop : ℕ → List (Option Pointer) → Option ℕ
  | _, [] => none
  | n, none :: _ => some n
  | n, some _ :: cells => if n < intMax then countLoop (n + 1) cells else none

/-- `while (array && array[n]) n++` from 0. -/
def Memory.countEntries {ω : Type} (m : Memory ω) : Option Pointer → Option ℕ
  | none => some 0
  | some array => (m.cells (some array)).bind (countLoop 0)

/-- The loop that copies the pointers, with `n` of them left; false for `goto error`. -/
def shiftLoop {ω : Type} (src dst : Option Pointer) :
    ℕ → ℕ → Memory ω → Option (Bool × Memory ω)
  | _, 0, m => some (true, m)
  | i, n + 1, m => do
      let p ← m.cell src i
      let m ← m.setCell dst (i + 1) p
      if p.isNone then some (false, m) else shiftLoop src dst (i + 1) n m

/-- What a creation meets: the C library, the size of `struct wamr_context`, and what everybody
else does to the memory while the file and the module are loaded and the directory map is built,
with the result of that. -/
structure ArgumentCalls (ω : Type) where
  libc : Libc ω
  sizeofContext : ℕ := 1
  loading : List (ω × Heap.Act Object) := []
  loads : Bool := true

namespace ArgumentCalls

variable {ω : Type} [DecidableEq ω] (calls : ArgumentCalls ω)

/-- From the allocation of `context->argv` to its last NULL, with the array that there is by
then; false for `goto error`. -/
def buildArgv (imgPath argv : Option Pointer) (argc : ℕ) (m : Memory ω) :
    Option (Bool × Option Pointer × Memory ω) :=
  -- `argc + 2` is an `int`
  if intMax < argc + 2 then none
  else
    let r := calls.libc.mallocPointers (argc + 2) m
    if r.1.isNone then some (false, none, r.2)
    else do
      let name ← calls.libc.strdup imgPath r.2
      let m ← Memory.setCell name.2 r.1 0 name.1
      if name.1.isNone then some (false, r.1, m)
      else
        let copied ← shiftLoop argv r.1 0 argc m
        if copied.1 then
          let m ← Memory.setCell copied.2 r.1 (argc + 1) none
          some (true, r.1, m)
        else some (false, r.1, copied.2)

/-- The label `error`, when nothing of the file is held any more. -/
def error (context argv : Option Pointer) (m : Memory ω) : Option (Memory ω) := do
  let m ← if argv.isSome then (m.cell argv 0).bind m.free else some m
  let m ← m.free argv
  m.free context

def instanceCreate (imgPath argv envp : Option Pointer) (m : Memory ω) :
    Option (Option WamrArguments × Memory ω) :=
  if imgPath.isNone then some (none, m)
  else
    let context := calls.libc.malloc calls.sizeofContext .record m
    if context.1.isNone then some (none, context.2)
    else do
      let envn ← Memory.countEntries context.2 envp
      let argc ← Memory.countEntries context.2 argv
      let r ← calls.buildArgv imgPath argv argc context.2
      if r.1 then
        let m ← Heap.others calls.libc.allocator calls.libc.owner calls.loading r.2.2
        if calls.loads then
          some (some {
            context := context.1
            argv := r.2.1
            envp := envp
            wasi := { envp := envp, envCount := envn, argv := r.2.1, argc := argc + 1 } }, m)
        else
          let m ← error context.1 r.2.1 m
          some (none, m)
      else
        let m ← error context.1 r.2.1 r.2.2
        some (none, m)

/-- `instance_destroy`, with what unloading the module and the file does to the memory. -/
def instanceDestroy (w : WamrArguments) (unloading : List (ω × Heap.Act Object))
    (m : Memory ω) : Option (Memory ω) := do
  let m ← Heap.others calls.libc.allocator calls.libc.owner unloading m
  let m ← (Memory.cell m w.argv 0).bind (Memory.free m)
  let m ← Memory.free m w.argv
  Memory.free m w.context

end ArgumentCalls

namespace Memory

variable {ω : Type} {m : Memory ω} {p : Option Pointer} {strings : Option (List CString)} {n : ℕ}

theorem countLoop_eq {ps : List Pointer} {rest : List (Option Pointer)} {k : ℕ}
    (h : countLoop k (ps.map some ++ none :: rest) = some n) : n = k + ps.length := by
  induction ps generalizing k with
  | nil => exact (Option.some.inj h).symm
  | cons p ps ih =>
      rw [List.map_cons, List.cons_append, countLoop, Option.ite_none_right_eq_some] at h
      rw [ih h.2, List.length_cons]
      omega

theorem countEntries_eq (hcount : m.countEntries p = some n)
    (hp : m.stringArray p = some strings) : n = (strings.getD []).length := by
  cases p with
  | none =>
      obtain rfl := Option.some.inj hp
      exact (Option.some.inj hcount).symm
  | some p =>
      obtain ⟨ps, ss, rest, rfl, hcells, -, hlength⟩ := exists_of_stringArray hp
      rw [countEntries, hcells, Option.bind_some] at hcount
      rw [countLoop_eq hcount, Nat.zero_add, hlength, Option.getD_some]

theorem countLoop_of_le (ps : List Pointer) (rest : List (Option Pointer)) {k : ℕ}
    (h : k + ps.length ≤ intMax) :
    countLoop k (ps.map some ++ none :: rest) = some (k + ps.length) := by
  induction ps generalizing k with
  | nil => rfl
  | cons p ps ih =>
      rw [List.length_cons] at h
      rw [List.map_cons, List.cons_append, countLoop, if_pos (by omega), ih (by omega),
        List.length_cons, Nat.add_assoc, Nat.add_comm 1]

theorem countEntries_of_le (hp : m.stringArray p = some strings)
    (h : (strings.getD []).length ≤ intMax) :
    m.countEntries p = some (strings.getD []).length := by
  cases p with
  | none =>
      obtain rfl := Option.some.inj hp
      rfl
  | some p =>
      obtain ⟨ps, ss, rest, rfl, hcells, -, hlength⟩ := exists_of_stringArray hp
      rw [Option.getD_some, ← hlength] at h ⊢
      rw [countEntries, hcells, Option.bind_some, countLoop_of_le ps rest (by omega), Nat.zero_add]

/-- The first so many strings of an array. -/
def firstStrings {ω : Type} (m : Memory ω) (array : Option Pointer) (n : ℕ) :
    Option (List CString) :=
  (List.range n).mapM fun i ↦ (m.cell array i).bind m.string

theorem firstStrings_eq (hp : m.stringArray p = some strings) :
    m.firstStrings p (strings.getD []).length = some (strings.getD []) := by
  refine OptionLoop.mapM_eq_some_iff.mpr (List.ext_getElem? fun j ↦ ?_)
  rcases Nat.lt_or_ge j (strings.getD []).length with hj | hj
  · obtain ⟨s, hs⟩ : ∃ s, (strings.getD [])[j]? = some s := ⟨_, List.getElem?_eq_getElem hj⟩
    obtain ⟨q, hq, hstring⟩ := exists_of_getElem hp hs
    rw [List.getElem?_map, List.getElem?_map, List.getElem?_range hj, hs, Option.map_some,
      Option.map_some, hq, Option.bind_some, hstring]
  · rw [List.getElem?_eq_none (by simpa using hj), List.getElem?_eq_none (by simpa using hj)]

end Memory

namespace WasiArgs

variable {ω : Type} {w : WasiArgs} {m : Memory ω} {path : CString}
  {args env : Option (List CString)}

/-- The instantiation of the module reads as many strings as have been counted. -/
def read (w : WasiArgs) (m : Memory ω) : Option (List CString × List CString) := do
  let args ← m.firstStrings w.argv w.argc
  let env ← m.firstStrings w.envp w.envCount
  some (args, env)

/-- The path of the image and then the arguments, with their number and a NULL behind them, and
the environment with its number. -/
structure Delivers (w : WasiArgs) (m : Memory ω) (path : CString)
    (args env : Option (List CString)) : Prop where
  argc : w.argc = 1 + (args.getD []).length
  argv : m.stringArray w.argv = some (some (path :: args.getD []))
  null : m.cell w.argv w.argc = some none
  envCount : w.envCount = (env.getD []).length
  envp : m.stringArray w.envp = some env

theorem Delivers.read (h : w.Delivers m path args env) :
    w.read m = some (path :: args.getD [], env.getD []) := by
  have hargc : w.argc = ((some (path :: args.getD [])).getD []).length := by
    rw [h.argc, Nat.add_comm]
    rfl
  rw [WasiArgs.read, hargc, Memory.firstStrings_eq h.argv, h.envCount,
    Memory.firstStrings_eq h.envp]
  rfl

/-- The blocks that the arrays have been built in decide what is delivered. -/
theorem delivers_of_built {o : ω} {F G : List (ℕ × Object)}
    (hargv : Built w.argv (some (path :: args.getD [])) F) (henvp : Built w.envp env G)
    (hargc : w.argc = 1 + (args.getD []).length) (henvn : w.envCount = (env.getD []).length)
    (hF : m.Owns o F) (hG : m.Owns o G) : w.Delivers m path args env where
  argc := hargc
  argv := hargv.stringArray hF
  null := by
    rw [hargc, Nat.add_comm]
    exact Memory.cell_length_of_stringArray (hargv.stringArray hF)
  envCount := henvn
  envp := henvp.stringArray hG

end WasiArgs

namespace Libc.Copying

variable {ω : Type} {libc : Libc ω} {m₀ m m' : Memory ω} {src : Option Pointer} {array i n : ℕ}
  {copies rest : List (ℕ × CString)}

/-- The loop makes the cells point to strings that are there already. -/
theorem shift (h : libc.Copying m₀ m array copies n) (hlength : copies.length = i + 1)
    (hread : ∀ (j : ℕ) (e : ℕ × CString), rest[j]? = some e →
      m₀.cell src (i + j) = some (some { block := e.1 }))
    (hrest : m₀.Owns libc.owner (stringBlocks rest)) (hstrings : ∀ e ∈ rest, IsCString e.2)
    (hloop : shiftLoop src (some { block := array }) i rest.length m = some (true, m')) :
    ∃ n', n = n' + rest.length ∧ libc.Copying m₀ m' array (copies ++ rest) n' := by
  induction rest generalizing copies n m i with
  | nil =>
      obtain rfl := (Prod.mk.inj (Option.some.inj hloop)).2
      exact ⟨n, rfl, by rwa [List.append_nil]⟩
  | cons e rest ih =>
      obtain ⟨hblock, hrest⟩ := Heap.Owns.cons_iff.mp hrest
      rw [List.length_cons, shiftLoop] at hloop
      obtain ⟨p, hp, hloop⟩ := Option.bind_eq_some_iff.mp hloop
      obtain rfl : some { block := e.1 } = p := by
        have hcell := Memory.cell_of_extends h.extends_memory (hread 0 e rfl)
        exact Option.some.inj (hcell.symm.trans hp)
      obtain ⟨m₁, hset, hloop⟩ := Option.bind_eq_some_iff.mp hloop
      rw [if_neg (by simp)] at hloop
      rw [← hlength] at hset
      obtain ⟨n₁, rfl, hcopying⟩ := h.push (.refl m) (hstrings e List.mem_cons_self)
        (h.extends_memory _ _ hblock) hset
      obtain ⟨n', rfl, hcopying⟩ := ih hcopying (by simp [hlength])
        (fun j f hf ↦ by
          rw [Nat.add_assoc, Nat.add_comm 1 j]
          exact hread (j + 1) f hf)
        hrest (fun f hf ↦ hstrings f (List.mem_cons_of_mem _ hf)) hloop
      refine ⟨n', by rw [List.length_cons]; omega, ?_⟩
      rwa [List.append_cons]

theorem exists_shift (h : libc.Copying m₀ m array copies n) (hn : rest.length ≤ n)
    (hlength : copies.length = i + 1)
    (hread : ∀ (j : ℕ) (e : ℕ × CString), rest[j]? = some e →
      m₀.cell src (i + j) = some (some { block := e.1 }))
    (hrest : m₀.Owns libc.owner (stringBlocks rest)) (hstrings : ∀ e ∈ rest, IsCString e.2) :
    ∃ m', shiftLoop src (some { block := array }) i rest.length m = some (true, m') := by
  induction rest generalizing copies n m i with
  | nil => exact ⟨m, rfl⟩
  | cons e rest ih =>
      rw [List.length_cons] at hn
      obtain ⟨hblock, hrest⟩ := Heap.Owns.cons_iff.mp hrest
      have hcell := Memory.cell_of_extends h.extends_memory (hread 0 e rfl)
      obtain ⟨m₁, hset⟩ := Memory.exists_setCell (i := copies.length) h.block_array
        (by simp; omega) (some { block := e.1 })
      obtain ⟨n₁, rfl, hcopying⟩ := h.push (.refl m) (hstrings e List.mem_cons_self)
        (h.extends_memory _ _ hblock) hset
      obtain ⟨m', hshift⟩ := ih (i := i + 1) hcopying (by omega) (by simp [hlength])
        (fun j f hf ↦ by
          rw [Nat.add_assoc, Nat.add_comm 1 j]
          exact hread (j + 1) f hf)
        hrest (fun f hf ↦ hstrings f (List.mem_cons_of_mem _ hf))
      rw [hlength] at hset
      rw [Nat.add_zero] at hcell
      exact ⟨m', by simp [shiftLoop, hcell, hset, hshift]⟩

end Libc.Copying

namespace ArgumentCalls

variable {ω : Type} {calls : ArgumentCalls ω} {m m' : Memory ω}
  {imgPath argv envp dst : Option Pointer} {path : CString} {args env : Option (List CString)}
  {argc : ℕ} {w : WamrArguments} {F G : List (ℕ × Object)}

/-- The steps of a creation of `context->argv` that does not fail. -/
theorem buildArgv_cases (hbuild : calls.buildArgv imgPath argv argc m = some (true, dst, m')) :
    ∃ m₁ m₂ m₃ m₄ name, calls.libc.mallocPointers (argc + 2) m = (dst, m₁) ∧
      calls.libc.strdup imgPath m₁ = some (some name, m₂) ∧
      m₂.setCell dst 0 (some name) = some m₃ ∧
      shiftLoop argv dst 0 argc m₃ = some (true, m₄) ∧
      m₄.setCell dst (argc + 1) none = some m' := by
  unfold buildArgv at hbuild
  split at hbuild
  · cases hbuild
  rcases hmalloc : calls.libc.mallocPointers (argc + 2) m with ⟨_ | array, m₁⟩ <;>
    rw [hmalloc] at hbuild
  · cases hbuild
  obtain ⟨⟨_ | name, m₂⟩, hdup, hbuild⟩ := Option.bind_eq_some_iff.mp hbuild <;>
    obtain ⟨m₃, hset, hbuild⟩ := Option.bind_eq_some_iff.mp hbuild
  · cases hbuild
  obtain ⟨⟨_ | _, m₄⟩, hshift, hbuild⟩ := Option.bind_eq_some_iff.mp hbuild
  · cases hbuild
  obtain ⟨m₅, hnull, hbuild⟩ := Option.bind_eq_some_iff.mp hbuild
  obtain ⟨-, hdst⟩ := Prod.mk.inj (Option.some.inj hbuild)
  obtain ⟨rfl, rfl⟩ := Prod.mk.inj hdst
  exact ⟨m₁, m₂, m₃, m₄, name, rfl, hdup, hset, hshift, hnull⟩

/-- The array has the path of the image in front of the strings of the container. -/
theorem built_buildArgv (hbuild : calls.buildArgv imgPath argv argc m = some (true, dst, m'))
    (hpath : m.string imgPath = some path) (hargv : Built argv args F)
    (hF : m.Owns calls.libc.owner F) (hargc : argc = (args.getD []).length) :
    m.Extends m' ∧ ∃ G, Built dst (some (path :: args.getD [])) G ∧
      m'.Owns calls.libc.owner G := by
  obtain ⟨m₁, m₂, m₃, m₄, name, hmalloc, hdup, hset, hshift, hnull⟩ := buildArgv_cases hbuild
  obtain ⟨copies, hcopies, hstrings, hcstring, hread⟩ := hargv.exists_copies hF
  obtain rfl : copies.length = argc := by rw [hargc, ← hcopies, List.length_map]
  obtain ⟨hext, rfl | ⟨a, rfl, hfree, hblock⟩⟩ := Libc.malloc_cases hmalloc
  · cases hset
  have hstart : calls.libc.Copying m m₁ a [] _ := ⟨hext, hfree, hblock, .nil, by simp⟩
  obtain ⟨b, n₁, hn₁, hcopying⟩ := hstart.dup hpath hdup hset
  rw [List.nil_append] at hcopying
  obtain ⟨n, rfl, hcopied⟩ := hcopying.shift (show [(b, path)].length = 0 + 1 from rfl)
    (fun j e he ↦ by rw [Nat.zero_add]; exact hread j e he) hstrings hcstring hshift
  have hroom := calls.libc.capacity_le (copies.length + 2)
  rw [← hcopies]
  exact hcopied.terminate (by omega) hnull

theorem exists_buildArgv (hroom : calls.libc.HasRoom)
    (hfits : calls.libc.Fits ((args.getD []).length + 2))
    (hmax : (args.getD []).length + 2 ≤ intMax) (hpath : m.string imgPath = some path)
    (hargv : Built argv args F) (hF : m.Owns calls.libc.owner F) :
    ∃ dst m', calls.buildArgv imgPath argv (args.getD []).length m = some (true, dst, m') := by
  obtain ⟨copies, hcopies, hstrings, hcstring, hread⟩ := hargv.exists_copies hF
  obtain ⟨n, hn⟩ : ∃ n, n = (args.getD []).length := ⟨_, rfl⟩
  rw [← hn] at hfits hmax ⊢
  have hcount : copies.length = n := by rw [hn, ← hcopies, List.length_map]
  obtain ⟨a, m₁, hmalloc⟩ := Libc.exists_malloc hroom _ (.pointers (List.replicate (n + 2) none)) m
  have hpointers : calls.libc.mallocPointers (n + 2) m = (some { block := a }, m₁) := by
    dsimp only [Libc.mallocPointers]
    rw [Libc.capacity_of_fits hfits, hmalloc]
  obtain ⟨hext, hnull | ⟨a', ha, hfree, hblock⟩⟩ := Libc.malloc_cases hmalloc
  · cases hnull
  cases ha
  have hstart : calls.libc.Copying m m₁ a [] (n + 2) := ⟨hext, hfree, hblock, .nil, by simp⟩
  obtain ⟨q, m₂, m₃, hdup, hset⟩ := hstart.exists_dup hroom hpath
  obtain ⟨b, n₁, hn₁, hcopying⟩ := hstart.dup hpath hdup hset
  rw [List.nil_append] at hcopying
  have hread' : ∀ (j : ℕ) (e : ℕ × CString), copies[j]? = some e →
      m.cell argv (0 + j) = some (some { block := e.1 }) := by
    intro j e he
    rw [Nat.zero_add]
    exact hread j e he
  obtain ⟨m₄, hshift⟩ :=
    hcopying.exists_shift (by omega) (by rfl) hread' hstrings hcstring
  obtain ⟨n₂, hn₂, hcopied⟩ := hcopying.shift (by rfl) hread' hstrings hcstring hshift
  obtain ⟨m', hnull⟩ := Memory.exists_setCell (i := n + 1) hcopied.block_array
    (by simp; omega) none
  rw [hcount] at hshift
  rw [List.length_nil] at hset
  refine ⟨some { block := a }, m', ?_⟩
  simp [buildArgv, Nat.not_lt.mpr hmax, hpointers, hdup, hset, hshift, hnull]

variable [DecidableEq ω]

theorem instanceCreate_cases
    (hcreate : calls.instanceCreate imgPath argv envp m = some (some w, m')) :
    ∃ (m₁ m₂ : Memory ω) (envn argc : ℕ), m.Extends m₁ ∧ m₁.countEntries envp = some envn ∧
      m₁.countEntries argv = some argc ∧
      calls.buildArgv imgPath argv argc m₁ = some (true, w.argv, m₂) ∧
      m₂.others calls.libc.allocator calls.libc.owner calls.loading = some m' ∧
      w.wasi = { envp := envp, envCount := envn, argv := w.argv, argc := argc + 1 } := by
  unfold instanceCreate at hcreate
  split at hcreate
  · cases hcreate
  rcases hmalloc : calls.libc.malloc calls.sizeofContext .record m with ⟨_ | context, m₁⟩ <;>
    rw [hmalloc] at hcreate
  · cases hcreate
  obtain ⟨envn, henvn, hcreate⟩ := Option.bind_eq_some_iff.mp hcreate
  obtain ⟨argc, hargc, hcreate⟩ := Option.bind_eq_some_iff.mp hcreate
  obtain ⟨⟨_ | _, dst, m₂⟩, hbuild, hcreate⟩ := Option.bind_eq_some_iff.mp hcreate
  · obtain ⟨m₃, -, hcreate⟩ := Option.bind_eq_some_iff.mp hcreate
    cases hcreate
  obtain ⟨m₃, hothers, hcreate⟩ := Option.bind_eq_some_iff.mp hcreate
  split at hcreate
  · obtain ⟨hw, rfl⟩ := Prod.mk.inj (Option.some.inj hcreate)
    obtain rfl := Option.some.inj hw
    exact ⟨m₁, m₂, envn, argc, (Libc.malloc_cases hmalloc).1, henvn, hargc, hbuild, hothers, rfl⟩
  · obtain ⟨m₄, -, hcreate⟩ := Option.bind_eq_some_iff.mp hcreate
    cases hcreate

/-- What an instance hands over is decided by blocks that the others do not touch. -/
theorem delivers_instanceCreate
    (hcreate : calls.instanceCreate imgPath argv envp m = some (some w, m'))
    (hpath : m.string imgPath = some path) (hargv : Built argv args F) (henvp : Built envp env G)
    (hF : m.Owns calls.libc.owner F) (hG : m.Owns calls.libc.owner G) :
    ∃ H, m'.Owns calls.libc.owner H ∧
      ∀ m'' : Memory ω, m''.Owns calls.libc.owner H → w.wasi.Delivers m'' path args env := by
  obtain ⟨m₁, m₂, envn, argc, hext, henvn, hargc, hbuild, hothers, hw⟩ :=
    instanceCreate_cases hcreate
  have hF₁ := hF.mono hext
  have hG₁ := hG.mono hext
  have hargc := Memory.countEntries_eq hargc (hargv.stringArray hF₁)
  have henvn := Memory.countEntries_eq henvn (henvp.stringArray hG₁)
  obtain ⟨hext₂, K, hbuilt, hK⟩ :=
    built_buildArgv hbuild (Memory.string_of_extends hext hpath) hargv hF₁ hargc
  refine ⟨K ++ G, (Heap.Owns.append_iff.mpr ⟨hK, hG₁.mono hext₂⟩).others hothers,
    fun m'' hm'' ↦ ?_⟩
  obtain ⟨hK'', hG''⟩ := Heap.Owns.append_iff.mp hm''
  rw [hw]
  exact WasiArgs.delivers_of_built hbuilt henvp (by rw [hargc, Nat.add_comm]) henvn hK'' hG''

theorem exists_instanceCreate (hroom : calls.libc.HasRoom)
    (hfits : calls.libc.Fits ((args.getD []).length + 2))
    (hmax : (args.getD []).length + 2 ≤ intMax) (henvn : (env.getD []).length ≤ intMax)
    (hloads : calls.loads = true) (hloading : ∀ m : Memory ω,
      (m.others calls.libc.allocator calls.libc.owner calls.loading).isSome = true)
    (hpath : m.string imgPath = some path) (hargv : Built argv args F) (henvp : Built envp env G)
    (hF : m.Owns calls.libc.owner F) (hG : m.Owns calls.libc.owner G) :
    ∃ w m', calls.instanceCreate imgPath argv envp m = some (some w, m') := by
  obtain ⟨c, m₁, hmalloc⟩ := Libc.exists_malloc hroom calls.sizeofContext .record m
  have hext := (Libc.malloc_cases hmalloc).1
  have hF₁ := hF.mono hext
  have hargc := Memory.countEntries_of_le (hargv.stringArray hF₁) (by omega)
  have henvc := Memory.countEntries_of_le (henvp.stringArray (hG.mono hext)) henvn
  obtain ⟨dst, m₂, hbuild⟩ := exists_buildArgv hroom hfits hmax
    (Memory.string_of_extends hext hpath) hargv hF₁
  obtain ⟨m', hothers⟩ := Option.isSome_iff_exists.mp (hloading m₂)
  obtain ⟨p, rfl⟩ : ∃ p, imgPath = some p := by
    obtain ⟨p, hp, -⟩ := Option.bind_eq_some_iff.mp hpath
    exact ⟨p, hp⟩
  refine ⟨{
    context := some { block := c }
    argv := dst
    envp := envp
    wasi := {
      envp := envp, envCount := (env.getD []).length
      argv := dst, argc := (args.getD []).length + 1 } }, m', ?_⟩
  simp [instanceCreate, hmalloc, henvc, hargc, hbuild, hothers, hloads]

end ArgumentCalls

end OcreRuntime
