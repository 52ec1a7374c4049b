import Wardn.Api
import Wardn.Lib.FilePath

/-!
# The manifest parser

`internal/manifest/parser.go`: the directory walk, the document splitter and the line
scanner that together turn the files under an application's path into resources.

What `os.ReadDir` and `os.ReadFile` find is data: an `Entry` is a file with the outcome
of reading it, a directory with its entries in the order `os.ReadDir` lists them, or a
directory that cannot be listed.  `walkDir` is `filepath.WalkDir` over such a tree, for a
callback that threads a state and stops the walk with its first error.
-/

namespace Wardn

/-- A resource parsed from a manifest. -/
structure Resource where
  kind : String := ""
  name : String := ""
  nameSpace : String := ""
  apiVersion : String := ""
  content : String := ""
  deriving DecidableEq, Repr

/-! ## Files and the walk -/

mutual

/-- What is found at a path: a file, a directory, or one that cannot be listed. -/
inductive Entry
  | file (name : String) (read : Except String String)
  | dir (name : String) (entries : Entries)
  | unlistable (name : String) (err : String)

/-- The entries of a directory, in the order of `os.ReadDir`. -/
inductive Entries
  | nil
  | cons (entry : Entry) (rest : Entries)

end

/-- The name of an entry. -/
def Entry.name : Entry → String
  | .file name _ => name
  | .dir name _ => name
  | .unlistable name _ => name

/-- What the callback of `filepath.WalkDir` is called with, besides the path. -/
inductive Visit
  | dir
  | file (read : Except String String)
  | failed (err : String)

section Walk

variable {σ : Type} (fn : String → Visit → σ → Except String σ)

mutual

/-- `filepath.WalkDir` below its root; a directory is visited before it is listed, and visited
once more with the error when listing it fails. -/
def walkDir (path : String) : Entry → σ → Except String σ
  | .file _ read, acc => fn path (.file read) acc
  | .dir _ entries, acc => do
    let acc ← fn path .dir acc
    walkEntries path entries acc
  | .unlistable _ err, acc => do
    let acc ← fn path .dir acc
    fn path (.failed err) acc

def walkEntries (path : String) : Entries → σ → Except String σ
  | .nil, acc => .ok acc
  | .cons entry rest, acc => do
    let acc ← walkDir (FilePath.join path entry.name) entry acc
    walkEntries path rest acc

end

/-- `filepath.WalkDir`; `root` is what `os.Lstat` finds at the root path. -/
def walkRoot (path : String) (root : Except String Entry) (acc : σ) : Except String σ :=
  match root with
  | .error err => fn path (.failed err) acc
  | .ok entry => walkDir fn path entry acc

end Walk

/-! ## Documents and lines -/

/-- The body of the scanner's loop: each of the four keys is looked for in the trimmed line. -/
def scanLine (res : Resource) (line : String) : Resource :=
  let line := Strings.trimSpace line
  let res :=
    if Strings.hasPrefix line "apiVersion:" then
      { res with apiVersion := Strings.trimSpace (Strings.trimPrefix line "apiVersion:") }
    else res
  let res :=
    if Strings.hasPrefix line "kind:" then
      { res with kind := Strings.trimSpace (Strings.trimPrefix line "kind:") }
    else res
  let res :=
    if Strings.hasPrefix line "name:" then
      { res with name := Strings.trimSpace (Strings.trimPrefix line "name:") }
    else res
  if Strings.hasPrefix line "namespace:" then
    { res with nameSpace := Strings.trimSpace (Strings.trimPrefix line "namespace:") }
  else res

/-- `extractResourceMeta`: one pass over the trimmed lines. -/
def extractResourceMeta (content : String) : Resource :=
  (Strings.split content "\n").foldl scanLine {}

/-- The body of the splitter's loop: a blank document, or one without a kind, is skipped. -/
def parseDocument (doc : String) : Option Resource :=
  let doc := Strings.trimSpace doc
  if doc = "" then none
  else
    let res := extractResourceMeta doc
    if res.kind = "" then none else some { res with content := doc }

/-- The source's error result is always nil. -/
def parseYAMLDocuments (content : String) : Except String (List Resource) :=
  .ok ((Strings.split content "\n---").filterMap parseDocument)

/-! ## The parser -/

/-- `.yaml`, `.yml` or `.json`, in any case. -/
def isManifest (path : String) : Bool :=
  Strings.toLower (FilePath.ext path) ∈ [".yaml", ".yml", ".json"]

/-- The callback of the walk. -/
def visitManifest (path : String) (visit : Visit) (resources : List Resource) :
    Except String (List Resource) :=
  match visit with
  | .failed err => .error err
  | .dir => .ok resources
  | .file read =>
    if ¬ isManifest path then .ok resources
    else
      match read with
      | .error err => .error ("failed to read " ++ path ++ ": " ++ err)
      | .ok content =>
        match parseYAMLDocuments content with
        | .error err => .error ("failed to parse " ++ path ++ ": " ++ err)
        | .ok parsed => .ok (resources ++ parsed)

/-- `parseRaw`. -/
def parseRaw (dir : String) (root : Except String Entry) : Except String (List Resource) :=
  walkRoot visitManifest dir root []

/-- `parseHelm`, which is not implemented. -/
def parseHelm : Except String (List Resource) :=
  .error "helm rendering not yet implemented"

/-- `Parser.Parse`; `lstat` is the file system, as the tree found at a path. -/
def parse (lstat : String → Except String Entry) (repoPath subPath : String)
    (manifestType : ManifestType) : Except String (List Resource) :=
  let fullPath := FilePath.join repoPath subPath
  match manifestType with
  | .helm => parseHelm
  | .raw => parseRaw fullPath (lstat fullPath)

end Wardn
