import OcreRuntime.Context.Creation

/-!
# The image commands

`image pull`, `image ls` and `image rm` as the files they work on and the texts they
print. What the calls on files return is given by the caller.
-/

namespace OcreRuntime

/-- What a command does with a file. -/
inductive FileOp
  | stat
  | download (url : CString)
  | sha256
  | opendir
  | remove
  deriving DecidableEq

structure FileCall where
  op : FileOp
  path : CString
  deriving DecidableEq

inductive Output
  | stdout (text : CString)
  | stderr (text : CString)
  deriving DecidableEq

structure CommandResult where
  ret : Int
  files : List FileCall
  output : List Output
  deriving DecidableEq

/-- What `stat` stores. -/
structure FileStat where
  regular : Bool
  size : ℕ

/-- What an image command finds outside. `readdir` is what the directory stream returns,
whose entries are numbered. -/
structure ImageCalls where
  malloc : Bool := true
  mallocEntry : ℕ → Bool := fun _ ↦ true
  stat : CString → Option FileStat
  download : Int := 0
  sha256 : CString → CString
  opendir : Bool := true
  readdir : List CString := []
  remove : Int := 0

def invalidImageId (name : CString) : CString :=
  cstring "Invalid characters in image ID '" ++ name ++
    cstring "'. Valid are [a-z0-9_-.] (lowercase alphanumeric) and cannot start with '.'\n"

/-- The end of a command that has worked on no file. -/
def commandError (texts : List CString) : CommandResult :=
  ⟨-1, [], texts.map Output.stderr⟩

/-- The path of an image, as the three commands build it. -/
def imagePathIn (workingDirectory name : CString) : CString :=
  workingDirectory ++ cstring "/images/" ++ name

section Pull

def pullUsage (argv0 : CString) : List CString :=
  [cstring "Usage: " ++ argv0 ++ cstring " image pull URL\n",
    cstring "\nDownloads an image from a remote repository to the local storage.\n"]

/-- `cmd_image_pull` once it has a name. -/
def pullImage (workingDirectory url localName : CString) (calls : ImageCalls) : CommandResult :=
  if ¬ ocreIsValidName (some localName) then commandError [invalidImageId localName]
  else if ¬ calls.malloc then
    commandError [cstring "Failed to allocate memory for image directory path\n"]
  else
    let imagePath := imagePathIn workingDirectory localName
    match calls.stat imagePath with
    | some _ => ⟨0, [⟨.stat, imagePath⟩],
        [.stderr (cstring "Image '" ++ localName ++ cstring "' already exists\n")]⟩
    | none =>
        let pulling := Output.stderr
          (cstring "Pulling '" ++ localName ++ cstring "' from '" ++ url ++ cstring "'\n")
        if calls.download ≠ 0 then
          ⟨calls.download, [⟨.stat, imagePath⟩, ⟨.download url, imagePath⟩],
            [pulling, .stderr (cstring "Failed to download image '" ++ url ++ cstring "'\n")]⟩
        else ⟨0, [⟨.stat, imagePath⟩, ⟨.download url, imagePath⟩, ⟨.sha256, imagePath⟩],
          [pulling, .stderr (cstring "Digest: " ++ calls.sha256 imagePath ++ cstring "\n"),
            .stdout (localName ++ cstring "\n")]⟩

/-- `cmd_image_pull`; `argc` is the length of the arguments. -/
def cmdImagePull (workingDirectory argv0 : CString) (argv : List CString) (calls : ImageCalls) :
    CommandResult :=
  match argv with
  | [] | [_] => commandError
      ((cstring "'" ++ argv0 ++ cstring " image pull' requires at least one argument\n\n") ::
        pullUsage argv0)
  | [_, url] =>
      let undetermined := cstring "'Cannot determine image name from URL '" ++ url ++ cstring "'\n"
      if ¬ url.contains 47 then commandError [undetermined]
      else if baseName url = [] then commandError [undetermined]
      else pullImage workingDirectory url (baseName url) calls
  | _ :: url :: localName :: _ => pullImage workingDirectory url localName calls

end Pull

section Ls

def lsUsage (argv0 : CString) : List CString :=
  [cstring "Usage: " ++ argv0 ++ cstring " image ls [IMAGE]\n",
    cstring "\nList images in local storage.\n"]

/-- `list_image`, with a path. -/
def listImage (name path : CString) (calls : ImageCalls) : CommandResult :=
  match calls.stat path with
  | none => ⟨-1, [⟨.stat, path⟩],
      [.stderr (cstring "Failed to stat image '" ++ path ++ cstring "'\n")]⟩
  | some st =>
      if st.regular then ⟨0, [⟨.stat, path⟩, ⟨.sha256, path⟩],
        [.stdout (calls.sha256 path ++ cstring "\t" ++ cstring (toString st.size) ++
          cstring "\t" ++ name ++ cstring "\n")]⟩
      else ⟨0, [⟨.stat, path⟩], []⟩

/-- The loop of `list_images` over what `readdir` still returns; `ret` is the result so
far. -/
def listImagesLoop (path : CString) (calls : ImageCalls) : ℕ → Int → List CString → CommandResult
  | _, ret, [] => ⟨ret, [], []⟩
  | i, ret, name :: stream =>
      if ¬ calls.mallocEntry i then
        ⟨-1, [], [.stderr (cstring "Failed to allocate memory for image path\n")]⟩
      else
        let imagePath := path ++ cstring "/" ++ name
        let one := listImage name imagePath calls
        let failed := if one.ret ≠ 0 then
          [Output.stderr (cstring "Failed to list image '" ++ imagePath ++ cstring "'\n")] else []
        let rest := listImagesLoop path calls (i + 1) (if one.ret ≠ 0 then -1 else ret) stream
        ⟨rest.ret, one.files ++ rest.files, one.output ++ failed ++ rest.output⟩

def listImages (path : CString) (calls : ImageCalls) : CommandResult :=
  if ¬ calls.opendir then ⟨-1, [⟨.opendir, path⟩],
    [.stderr (cstring "Failed to open directory '" ++ path ++ cstring "'\n")]⟩
  else
    let entries := listImagesLoop path calls 0 0 calls.readdir
    ⟨entries.ret, ⟨.opendir, path⟩ :: entries.files, entries.output⟩

def lsHeader : Output := .stdout (cstring "SHA-256\t\t\t\t\t\t\t\t\tSIZE\tNAME\n")

/-- The end of `cmd_image_ls` after a listing, which returns 0 also if the listing failed. -/
def lsResult (listed : CommandResult) (failure : CString) : CommandResult :=
  ⟨0, listed.files, lsHeader :: listed.output ++
    if listed.ret ≠ 0 then [Output.stderr failure] else []⟩

def cmdImageLs (workingDirectory argv0 : CString) (argv : List CString) (calls : ImageCalls) :
    CommandResult :=
  match argv with
  | [_] =>
      if ¬ calls.malloc then
        commandError [cstring "Failed to allocate memory for image directory path\n"]
      else
        let imageDir := workingDirectory ++ cstring "/images"
        lsResult (listImages imageDir calls)
          (cstring "Failed to list images in directory '" ++ imageDir ++ cstring "'\n")
  | [_, name] =>
      if ¬ ocreIsValidName (some name) then commandError [invalidImageId name]
      else if ¬ calls.malloc then
        commandError [cstring "Failed to allocate memory for image path\n"]
      else
        let imagePath := imagePathIn workingDirectory name
        lsResult (listImage name imagePath calls)
          (cstring "Failed to list image '" ++ imagePath ++ cstring "'\n")
  | _ => commandError
      ((cstring "'" ++ argv0 ++ cstring " image ls' requires at most one argument\n\n") ::
        lsUsage argv0)

end Ls

section Rm

def rmUsage (argv0 : CString) : List CString :=
  [cstring "Usage: " ++ argv0 ++ cstring " image rm <IMAGE>\n",
    cstring "\nRemoves an image from local storage.\n"]

/-- `cmd_image_rm`, which returns 0 also if the removal failed. -/
def cmdImageRm (workingDirectory argv0 : CString) (argv : List CString) (calls : ImageCalls) :
    CommandResult :=
  match argv with
  | [_, name] =>
      if ¬ ocreIsValidName (some name) then commandError [invalidImageId name]
      else if ¬ calls.malloc then
        commandError [cstring "Failed to allocate memory for image path\n"]
      else
        let imagePath := imagePathIn workingDirectory name
        ⟨0, [⟨.remove, imagePath⟩], if calls.remove ≠ 0 then
          [.stderr (cstring "Failed to remove image '" ++ imagePath ++ cstring "'\n")] else []⟩
  | _ => commandError
      ((cstring "'" ++ argv0 ++ cstring " image rm' requires exactly one argument\n\n") ::
        rmUsage argv0)

end Rm

end OcreRuntime
