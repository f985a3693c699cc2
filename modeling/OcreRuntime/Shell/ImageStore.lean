import OcreRuntime.Lib.OrderedMap
import OcreRuntime.Lib.StepSystem
import OcreRuntime.Shell.Confinement
import OcreRuntime.Shell.Sha256File

/-!
# The images in local storage

The commands on images one after the other. They work on paths; what they keep is a map from
names to contents, to which a pull adds a name that is not there and from which a removal takes
one. A listing shows the map.
-/

namespace OcreRuntime

/-- The regular files in the directory of the images. -/
abbrev Images := OrderedMap CString (List UInt8)

inductive ImageCommand
  | pull
  | ls
  | rm
  deriving DecidableEq

/-- A command with its arguments and what it finds outside. A download leaves a file if it
succeeds, and otherwise it may leave one. Each file that is hashed, by its path, has calls of its
own. -/
structure ImageAct where
  command : ImageCommand
  argv0 : CString := cstring "ocre"
  argv : List CString
  malloc : Bool := true
  mallocEntry : ℕ → Bool := fun _ ↦ true
  opendir : Bool := true
  stream : List CString := []
  download : Int := 0
  left : Option (List UInt8) := none
  left_of_zero : download = 0 → left.isSome
  removable : Bool := true
  hashing : CString → ∀ contents, HashCalls contents :=
    fun _ contents ↦ { reads := .whole contents }
  buff : Sha256Buff := Sha256.emptyBuff

/-- The name in the directory of the images that a path leads to. -/
def imageName (workingDirectory path : CString) : Option CString :=
  if imagePathIn workingDirectory [] <+: path then
    some (path.drop (imagePathIn workingDirectory []).length)
  else none

namespace ImageAct

variable (a : ImageAct) (workingDirectory : CString) (width : ℕ) (images : Images)

/-- What `stat` stores for a name in the directory. -/
def statName (name : CString) : Option FileStat :=
  if name = cstring "." ∨ name = cstring ".." then some ⟨false, 0⟩
  else (images.find name).map fun contents ↦ ⟨true, contents.length⟩

/-- The text in a buffer of 65 zeros after `sha256_file`. -/
def hashText (path contents : CString) : CString :=
  match sha256File width (some path) (some (List.replicate 65 0)) (a.hashing path contents)
      a.buff with
  | some (_, some text) => text.takeWhile (· ≠ 0)
  | _ => []

/-- What the command finds. The file that is hashed has been there or has just been
downloaded. -/
def calls : ImageCalls where
  malloc := a.malloc
  mallocEntry := a.mallocEntry
  stat path := (imageName workingDirectory path).bind (statName images)
  download := a.download
  sha256 path :=
    (((imageName workingDirectory path).bind images.find).or a.left).elim [] (a.hashText width path)
  opendir := a.opendir
  readdir := a.stream
  remove := if ((a.argv[1]?).bind images.find).isSome ∧ a.removable then 0 else -1

def result : CommandResult :=
  match a.command with
  | .pull => cmdImagePull workingDirectory a.argv0 a.argv (a.calls workingDirectory width images)
  | .ls => cmdImageLs workingDirectory a.argv0 a.argv (a.calls workingDirectory width images)
  | .rm => cmdImageRm workingDirectory a.argv0 a.argv (a.calls workingDirectory width images)

/-- What a call does to the directory. -/
def applyCall (images : Images) (call : FileCall) : Images :=
  match imageName workingDirectory call.path, call.op with
  | some name, .download _ => a.left.elim (images.eraseKey name) (images.put name)
  | some name, .remove => if a.removable then images.eraseKey name else images
  | _, _ => images

/-- What the command does to the map of images: a pull of a name that is there does nothing. -/
def effect (images : CString → Option (List UInt8)) : CString → Option (List UInt8) :=
  match a.command with
  | .pull =>
      match pullName a.argv with
      | some name =>
          if ocreIsValidName (some name) ∧ a.malloc ∧ (images name).isNone then
            Function.update images name a.left
          else images
      | none => images
  | .ls => images
  | .rm =>
      match a.argv with
      | [_, name] =>
          if ocreIsValidName (some name) ∧ a.malloc ∧ a.removable then
            Function.update images name none
          else images
      | _ => images

end ImageAct

/-- The commands one after the other, which begin with an empty directory. -/
def imageSystem (workingDirectory : CString) (width : ℕ) : StepSystem Images ImageAct where
  init images := images = .empty
  next a images := some ((a.result workingDirectory width images).files.foldl
    (a.applyCall workingDirectory) images)

section Reads

variable {workingDirectory argv0 : CString} {argv : List CString} {calls : ImageCalls}
  {call : FileCall}

/-- The call changes no file. -/
def FileOp.Reads (op : FileOp) : Prop := op = .stat ∨ op = .sha256 ∨ op = .opendir

theorem reads_of_listImage {name path : CString}
    (h : call ∈ (listImage name path calls).files) : call.op.Reads := by
  unfold listImage at h
  split at h
  · obtain rfl := List.mem_singleton.mp h
    exact .inl rfl
  · split at h
    · rcases List.mem_pair.mp h with rfl | rfl
      · exact .inl rfl
      · exact .inr (.inl rfl)
    · obtain rfl := List.mem_singleton.mp h
      exact .inl rfl

theorem reads_of_listImagesLoop {path : CString} {stream : List CString} {i : ℕ} {ret : Int}
    (h : call ∈ (listImagesLoop path calls i ret stream).files) : call.op.Reads := by
  induction stream generalizing i ret with
  | nil => cases h
  | cons name stream ih =>
      unfold listImagesLoop at h
      split at h
      · cases h
      · rcases List.mem_append.mp h with hone | hrest
        · exact reads_of_listImage hone
        · exact ih hrest

theorem reads_of_ls (h : call ∈ (cmdImageLs workingDirectory argv0 argv calls).files) :
    call.op.Reads := by
  unfold cmdImageLs at h
  split at h
  · split at h
    · cases h
    · change call ∈ (listImages _ calls).files at h
      unfold listImages at h
      split at h
      · obtain rfl := List.mem_singleton.mp h
        exact .inr (.inr rfl)
      · rcases List.mem_cons.mp h with rfl | hentry
        · exact .inr (.inr rfl)
        · exact reads_of_listImagesLoop hentry
  · split at h
    · cases h
    · split at h
      · cases h
      · exact reads_of_listImage h
  · cases h

end Reads

section Effect

variable {a : ImageAct} {workingDirectory : CString} {width : ℕ} {images : Images}

theorem imageName_imagePathIn (workingDirectory name : CString) :
    imageName workingDirectory (imagePathIn workingDirectory name) = some name := by
  have hpath : imagePathIn workingDirectory name = imagePathIn workingDirectory [] ++ name := by
    simp [imagePathIn]
  rw [imageName, hpath, if_pos (List.prefix_append _ _), List.drop_left]

theorem ne_dots_of_valid {name : CString} (h : ocreIsValidName (some name) = true) :
    ¬ (name = cstring "." ∨ name = cstring "..") := by
  rintro (rfl | rfl)
  · exact absurd h (by decide)
  · exact absurd h (by decide)

namespace ImageAct

theorem stat_imagePathIn {name : CString} (h : ocreIsValidName (some name) = true) :
    (a.calls workingDirectory width images).stat (imagePathIn workingDirectory name) =
      (images.find name).map fun contents ↦ ⟨true, contents.length⟩ := by
  change (imageName workingDirectory _).bind _ = _
  rw [imageName_imagePathIn, Option.bind_some, statName, if_neg (ne_dots_of_valid h)]

theorem applyCall_of_reads {call : FileCall} (h : call.op.Reads) :
    a.applyCall workingDirectory images call = images := by
  obtain ⟨op, path⟩ := call
  rcases h with rfl | rfl | rfl <;> cases hname : imageName workingDirectory path <;>
    simp [applyCall, hname]

theorem foldl_applyCall_of_reads {files : List FileCall} (h : ∀ call ∈ files, call.op.Reads) :
    files.foldl (a.applyCall workingDirectory) images = images := by
  induction files with
  | nil => rfl
  | cons call files ih =>
      rw [List.foldl_cons, applyCall_of_reads (h call List.mem_cons_self)]
      exact ih fun call hcall ↦ h call (List.mem_cons_of_mem _ hcall)

theorem find_applyCall_download (images : Images) (url name : CString) :
    (a.applyCall workingDirectory images
        ⟨.download url, imagePathIn workingDirectory name⟩).find =
      Function.update images.find name a.left := by
  rw [applyCall, imageName_imagePathIn]
  cases hleft : a.left with
  | none => exact OrderedMap.find_eraseKey name
  | some contents => exact OrderedMap.find_put name contents

theorem find_applyCall_remove (images : Images) (name : CString) :
    (a.applyCall workingDirectory images ⟨.remove, imagePathIn workingDirectory name⟩).find =
      if a.removable then Function.update images.find name none else images.find := by
  rw [applyCall, imageName_imagePathIn]
  dsimp only
  split
  · exact OrderedMap.find_eraseKey name
  · rfl

/-- A pull adds the name with what the download leaves, unless the name is there. -/
theorem find_pullImage (url name : CString) :
    ((pullImage workingDirectory url name (a.calls workingDirectory width images)).files.foldl
        (a.applyCall workingDirectory) images).find =
      if ocreIsValidName (some name) ∧ a.malloc ∧ (images.find name).isNone then
        Function.update images.find name a.left
      else images.find := by
  by_cases hvalid : ocreIsValidName (some name) = true
  swap
  · rw [pullImage, if_pos hvalid, if_neg (fun h ↦ hvalid h.1)]
    rfl
  by_cases hmalloc : (a.calls workingDirectory width images).malloc = true
  swap
  · rw [pullImage, if_neg (not_not.mpr hvalid), if_pos hmalloc, if_neg (fun h ↦ hmalloc h.2.1)]
    rfl
  rw [pullImage, if_neg (not_not.mpr hvalid), if_neg (not_not.mpr hmalloc)]
  dsimp only
  rw [stat_imagePathIn hvalid]
  cases hfind : images.find name with
  | some contents =>
      dsimp only [Option.map_some]
      rw [if_neg fun h ↦ Bool.false_ne_true h.2.2, foldl_applyCall_of_reads]
      exact fun call hcall ↦ .inl (List.mem_singleton.mp hcall ▸ rfl)
  | none =>
      dsimp only [Option.map_none]
      split
      · rw [if_pos ⟨hvalid, hmalloc, rfl⟩, List.foldl_cons, applyCall_of_reads (.inl rfl),
          List.foldl_cons, List.foldl_nil, find_applyCall_download]
      · rw [if_pos ⟨hvalid, hmalloc, rfl⟩, List.foldl_cons, applyCall_of_reads (.inl rfl),
          List.foldl_cons, List.foldl_cons, List.foldl_nil, applyCall_of_reads (.inr (.inl rfl)),
          find_applyCall_download]

theorem find_pull (ha : a.command = .pull) :
    ((a.result workingDirectory width images).files.foldl
        (a.applyCall workingDirectory) images).find = a.effect images.find := by
  rw [result, effect, ha]
  unfold cmdImagePull
  rcases hargv : a.argv with _ | ⟨command, _ | ⟨url, _ | ⟨localName, rest⟩⟩⟩
  · rfl
  · rfl
  · dsimp only [pullName]
    by_cases hslash : url.contains 47 = true
    swap
    · rw [if_pos hslash, if_neg hslash]
      rfl
    rw [if_neg (not_not.mpr hslash), if_pos hslash]
    by_cases hname : baseName url = []
    · rw [if_pos hname, hname]
      rfl
    · rw [if_neg hname]
      exact find_pullImage url (baseName url)
  · exact find_pullImage url localName

theorem find_rm (ha : a.command = .rm) :
    ((a.result workingDirectory width images).files.foldl
        (a.applyCall workingDirectory) images).find = a.effect images.find := by
  rw [result, effect, ha]
  unfold cmdImageRm
  rcases hargv : a.argv with _ | ⟨command, _ | ⟨name, _ | ⟨next, rest⟩⟩⟩
  · rfl
  · rfl
  · dsimp only
    by_cases hvalid : ocreIsValidName (some name) = true
    swap
    · rw [if_pos hvalid, if_neg (fun h ↦ hvalid h.1)]
      rfl
    by_cases hmalloc : (a.calls workingDirectory width images).malloc = true
    swap
    · rw [if_neg (not_not.mpr hvalid), if_pos hmalloc, if_neg (fun h ↦ hmalloc h.2.1)]
      rfl
    rw [if_neg (not_not.mpr hvalid), if_neg (not_not.mpr hmalloc)]
    change (a.applyCall workingDirectory images
      ⟨.remove, imagePathIn workingDirectory name⟩).find = _
    rw [find_applyCall_remove]
    by_cases hremovable : a.removable = true
    · rw [if_pos hremovable, if_pos ⟨hvalid, hmalloc, hremovable⟩]
    · rw [if_neg hremovable, if_neg (fun h ↦ hremovable h.2.2)]
  · rfl

/-- A listing does not change anything. -/
theorem find_ls (ha : a.command = .ls) :
    ((a.result workingDirectory width images).files.foldl
        (a.applyCall workingDirectory) images).find = a.effect images.find := by
  have hreads : ∀ call ∈ (a.result workingDirectory width images).files, call.op.Reads := by
    rw [result, ha]
    exact fun call hcall ↦ reads_of_ls hcall
  rw [foldl_applyCall_of_reads hreads, effect, ha]

/-- The directory follows the map. -/
theorem find_files (a : ImageAct) (workingDirectory : CString) (width : ℕ) (images : Images) :
    ((a.result workingDirectory width images).files.foldl
        (a.applyCall workingDirectory) images).find = a.effect images.find := by
  cases ha : a.command with
  | pull => exact find_pull ha
  | ls => exact find_ls ha
  | rm => exact find_rm ha

end ImageAct

theorem find_of_next {a : ImageAct} {images' : Images}
    (h : (imageSystem workingDirectory width).next a images = some images') :
    images'.find = a.effect images.find := by
  obtain rfl := Option.some.inj h
  exact a.find_files workingDirectory width images

/-- After any run the directory is what the commands make of the empty map. -/
theorem find_of_run {acts : List ImageAct} {images' : Images}
    (h : (imageSystem workingDirectory width).run images acts = some images') :
    images'.find = acts.foldl (fun m a ↦ a.effect m) images.find := by
  induction acts generalizing images with
  | nil => exact congrArg OrderedMap.find (Option.some.inj h).symm
  | cons a acts ih =>
      obtain ⟨next, hnext, hrest⟩ := Option.bind_eq_some_iff.mp h
      rw [ih hrest, List.foldl_cons, find_of_next hnext]

/-- All images have valid names. -/
def Images.Named (images : Images) : Prop :=
  ∀ name, (images.find name).isSome → ocreIsValidName (some name) = true

/-- Only a valid name gets another value. -/
theorem valid_of_effect_ne {m : CString → Option (List UInt8)} {a : ImageAct} {name : CString}
    (h : a.effect m name ≠ m name) : ocreIsValidName (some name) = true := by
  have hupdate {other : CString} {v : Option (List UInt8)}
      (hvalid : ocreIsValidName (some other) = true)
      (hne : Function.update m other v name ≠ m name) : ocreIsValidName (some name) = true := by
    by_cases heq : name = other
    · exact heq ▸ hvalid
    · exact absurd (Function.update_of_ne heq v m) hne
  rw [ImageAct.effect] at h
  cases hcommand : a.command with
  | pull =>
      rw [hcommand] at h
      cases hname : pullName a.argv with
      | none => simp [hname] at h
      | some other =>
          rw [hname] at h
          dsimp only at h
          split at h
          next hadd => exact hupdate hadd.1 h
          next => exact absurd rfl h
  | ls =>
      rw [hcommand] at h
      exact absurd rfl h
  | rm =>
      rw [hcommand] at h
      rcases hargv : a.argv with _ | ⟨command, _ | ⟨other, _ | ⟨next, rest⟩⟩⟩
      · simp [hargv] at h
      · simp [hargv] at h
      · rw [hargv] at h
        dsimp only at h
        split at h
        next hremove => exact hupdate hremove.1 h
        next => exact absurd rfl h
      · simp [hargv] at h

theorem named_of_reachable (h : (imageSystem workingDirectory width).Reachable images) :
    images.Named := by
  refine h.invariant ?_ ?_
  · rintro s rfl name hname
    exact absurd hname Bool.false_ne_true
  · rintro a s s' hs - hnext name hname
    by_cases heq : a.effect s.find name = s.find name
    · rw [find_of_next hnext, heq] at hname
      exact hs name hname
    · exact valid_of_effect_ne heq

end Effect

section Listing

variable {path : CString} {calls : ImageCalls}

/-- A listing in which no image fails shows one after the other. -/
theorem listImagesLoop_output {stream : List CString} (hmalloc : ∀ i, calls.mallocEntry i = true)
    (hret : ∀ name ∈ stream, (listImage name (path ++ cstring "/" ++ name) calls).ret = 0)
    (i : ℕ) :
    (listImagesLoop path calls i 0 stream).ret = 0 ∧
      (listImagesLoop path calls i 0 stream).output =
        stream.flatMap fun name ↦ (listImage name (path ++ cstring "/" ++ name) calls).output := by
  induction stream generalizing i with
  | nil => exact ⟨rfl, rfl⟩
  | cons name stream ih =>
      have hone := hret name List.mem_cons_self
      obtain ⟨hrest, houtput⟩ := ih (fun x hx ↦ hret x (List.mem_cons_of_mem _ hx)) (i + 1)
      have hne : ¬ (listImage name (path ++ cstring "/" ++ name) calls).ret ≠ 0 :=
        not_not.mpr hone
      rw [listImagesLoop, if_neg (not_not.mpr (hmalloc i))]
      dsimp only
      rw [if_neg hne, if_neg hne, List.append_nil, List.flatMap_cons, houtput]
      exact ⟨hrest, rfl⟩

namespace ImageAct

variable {a : ImageAct} {workingDirectory : CString} {width : ℕ} {images : Images}

/-- The command lists all images of the directory, and does not run out of memory. -/
structure Lists (a : ImageAct) (images : Images) : Prop where
  command : a.command = .ls
  argv : a.argv.length = 1
  malloc : a.malloc = true
  mallocEntry : ∀ i, a.mallocEntry i = true
  opendir : a.opendir = true
  stream : a.stream.Perm (cstring "." :: cstring ".." :: images.entries.map Prod.fst)

/-- The line of an image. There is no digest of a file that is empty or could not be read. -/
noncomputable def imageLine (a : ImageAct) (workingDirectory : CString)
    (image : CString × List UInt8) : Output :=
  .stdout ((if (a.hashing (imagePathIn workingDirectory image.1) image.2).Succeed then
      binToHex (Sha2.digest image.2) else []) ++ cstring "\t" ++
    cstring (toString image.2.length) ++ cstring "\t" ++ image.1 ++ cstring "\n")

theorem hashText_eq (hwidth : 16 ≤ width) (a : ImageAct) (path contents : CString) :
    a.hashText width path contents =
      if (a.hashing path contents).Succeed then binToHex (Sha2.digest contents) else [] := by
  have hroom : 64 ≤ (List.replicate 65 (0 : UInt8)).length := by simp
  rcases sha256File_spec hwidth path hroom (a.hashing path contents) a.buff with
    ⟨hall, hrun⟩ | ⟨hnot, ret, -, hrun⟩
  · have hdigits : ∀ c ∈ binToHex (Sha2.digest contents), decide (c ≠ 0) = true :=
      fun c hc ↦ decide_eq_true (ne_zero_of_mem_binToHex hc)
    rw [hashText, hrun, if_pos hall]
    change (binToHex (Sha2.digest contents) ++ [0]).takeWhile _ = _
    rw [List.takeWhile_append_of_pos hdigits]
    simp
  · rw [hashText, hrun, if_neg hnot]
    rfl

/-- One entry of the directory is shown if it is an image. -/
theorem listImage_entry (hwidth : 16 ≤ width) (hnamed : images.Named) {name : CString}
    (hname : name ∈ cstring "." :: cstring ".." :: images.entries.map Prod.fst) :
    (listImage name (imagePathIn workingDirectory name)
        (a.calls workingDirectory width images)).ret = 0 ∧
      (listImage name (imagePathIn workingDirectory name)
        (a.calls workingDirectory width images)).output =
          (images.find name).toList.map fun contents ↦
            a.imageLine workingDirectory (name, contents) := by
  have hstat : (a.calls workingDirectory width images).stat (imagePathIn workingDirectory name) =
      statName images name := by
    change (imageName workingDirectory _).bind _ = _
    rw [imageName_imagePathIn, Option.bind_some]
  cases hfind : images.find name with
  | some contents =>
      have hvalid := hnamed name (by rw [hfind]; rfl)
      have hsha : (a.calls workingDirectory width images).sha256
          (imagePathIn workingDirectory name) =
            a.hashText width (imagePathIn workingDirectory name) contents := by
        change (((imageName workingDirectory _).bind _).or _).elim _ _ = _
        rw [imageName_imagePathIn, Option.bind_some, hfind]
        rfl
      rw [listImage, stat_imagePathIn hvalid, hfind, Option.map_some]
      dsimp only
      rw [if_pos rfl, hsha, hashText_eq hwidth]
      exact ⟨rfl, rfl⟩
  | none =>
      have hdots : name = cstring "." ∨ name = cstring ".." := by
        rcases List.mem_cons.mp hname with hdot | hrest
        · exact .inl hdot
        · rcases List.mem_cons.mp hrest with hdot | hkey
          · exact .inr hdot
          · exact absurd hkey (images.find_eq_none_iff.mp hfind)
      rw [listImage, hstat, statName, if_pos hdots]
      exact ⟨rfl, rfl⟩

theorem flatMap_find (images : Images) (f : CString × List UInt8 → Output) :
    ((images.entries.map Prod.fst).flatMap fun name ↦
      (images.find name).toList.map fun contents ↦ f (name, contents)) = images.entries.map f := by
  rw [List.flatMap_map, ← List.flatMap_singleton' (images.entries.map f), List.flatMap_map]
  apply List.flatMap_congr
  rintro ⟨name, contents⟩ hmem
  rw [OrderedMap.find_eq_some_iff.mpr hmem]
  rfl

/-- The header and a line for each image are printed, in the order of the directory. -/
theorem lists_output (hwidth : 16 ≤ width) (hnamed : images.Named) (h : a.Lists images) :
    ∃ lines, (a.result workingDirectory width images).ret = 0 ∧
      (a.result workingDirectory width images).output = lsHeader :: lines ∧
      lines.Perm (images.entries.map (a.imageLine workingDirectory)) := by
  obtain ⟨argv1, hargv⟩ := List.length_eq_one_iff.mp h.argv
  have hpath (name : CString) : workingDirectory ++ cstring "/images" ++ cstring "/" ++ name =
      imagePathIn workingDirectory name := by
    simp [imagePathIn, cstring]
  have hentry : ∀ name ∈ a.stream, (listImage name
      (workingDirectory ++ cstring "/images" ++ cstring "/" ++ name)
        (a.calls workingDirectory width images)).ret = 0 := by
    intro name hname
    rw [hpath]
    exact (listImage_entry hwidth hnamed (h.stream.mem_iff.mp hname)).1
  obtain ⟨hret, houtput⟩ := listImagesLoop_output h.mallocEntry hentry 0
  have hopendir : (a.calls workingDirectory width images).opendir = true := h.opendir
  obtain ⟨listed, hlisted⟩ : ∃ listed, listed = listImages
      (workingDirectory ++ cstring "/images") (a.calls workingDirectory width images) := ⟨_, rfl⟩
  have hzero : listed.ret = 0 := by
    rw [hlisted, listImages, if_neg (not_not.mpr hopendir)]
    exact hret
  have hlines : listed.output = a.stream.flatMap fun name ↦
      (images.find name).toList.map fun contents ↦
        a.imageLine workingDirectory (name, contents) := by
    rw [hlisted, listImages, if_neg (not_not.mpr hopendir)]
    refine houtput.trans (List.flatMap_congr fun name hname ↦ ?_)
    rw [hpath]
    exact (listImage_entry hwidth hnamed (h.stream.mem_iff.mp hname)).2
  have hresult : a.result workingDirectory width images = lsResult listed
      (cstring "Failed to list images in directory '" ++
        (workingDirectory ++ cstring "/images") ++ cstring "'\n") := by
    rw [result, h.command, hargv, hlisted]
    exact if_neg (not_not.mpr h.malloc)
  have hnone {name : CString} (hdot : ¬ ocreIsValidName (some name)) :
      images.find name = none := by
    by_contra hne
    exact hdot (hnamed name (Option.isSome_iff_ne_none.mpr hne))
  refine ⟨listed.output, by rw [hresult]; rfl, ?_, ?_⟩
  · rw [hresult, lsResult, if_neg (not_not.mpr hzero), List.append_nil]
  · rw [hlines]
    refine (h.stream.flatMap_right _).trans ?_
    rw [List.flatMap_cons, List.flatMap_cons, hnone (by decide), hnone (by decide), flatMap_find]
    exact .refl _

end ImageAct

end Listing

/-- After any commands on an empty directory, the images are those that the commands make of the
empty map, and a listing shows each of them once, with the digest of its contents unless the
file is empty or could not be read. -/
theorem images_listed {workingDirectory : CString} {width : ℕ} (hwidth : 16 ≤ width)
    {acts : List ImageAct} {images : Images}
    (hrun : (imageSystem workingDirectory width).run .empty acts = some images) :
    images.find = acts.foldl (fun m a ↦ a.effect m) (fun _ ↦ none) ∧
      ∀ a : ImageAct, a.Lists images → ∃ lines,
        (a.result workingDirectory width images).ret = 0 ∧
        (a.result workingDirectory width images).output = lsHeader :: lines ∧
        lines.Perm (images.entries.map (a.imageLine workingDirectory)) :=
  ⟨find_of_run hrun, fun _ h ↦ ImageAct.lists_output hwidth
    (named_of_reachable ((StepSystem.ReachableWhere.start rfl).run
      (StepSystem.runMeets_true _ _) hrun)) h⟩

def pullAbc : ImageAct where
  command := .pull
  argv := [cstring "pull", cstring "http://host/abc"]
  left := some (cstring "abc")
  left_of_zero _ := rfl

/-- The directory has the image first. -/
def lsAbc : ImageAct where
  command := .ls
  argv := [cstring "ls"]
  stream := [cstring "abc", cstring ".", cstring ".."]
  download := -1
  left_of_zero h := absurd h (by decide)

/-- An image that is pulled is listed. -/
theorem images_listed_abc :
    ∃ images, (imageSystem (cstring "/ocre") 64).run .empty [pullAbc] = some images ∧
      images.find (cstring "abc") = some (cstring "abc") ∧
      (lsAbc.result (cstring "/ocre") 64 images).output = [lsHeader, lsAbc.imageLine
        (cstring "/ocre") (cstring "abc", cstring "abc")] := by
  obtain ⟨images, hrun⟩ : ∃ images,
      (imageSystem (cstring "/ocre") 64).run .empty [pullAbc] = some images := ⟨_, rfl⟩
  have hentries : images.entries = [(cstring "abc", cstring "abc")] := by
    rw [← Option.some.inj hrun]
    decide +kernel
  obtain ⟨hfind, hlists⟩ := images_listed (show 16 ≤ 64 by decide) hrun
  have hall : lsAbc.Lists images := ⟨rfl, rfl, rfl, fun _ ↦ rfl, rfl, by
    rw [hentries]
    decide⟩
  obtain ⟨lines, -, houtput, hperm⟩ := hlists lsAbc hall
  rw [hentries] at hperm
  refine ⟨images, hrun, ?_, by rw [houtput, List.perm_singleton.mp hperm]⟩
  rw [OrderedMap.find_eq_some_iff, hentries]
  exact List.mem_singleton_self _

end OcreRuntime
