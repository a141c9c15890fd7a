import BoredManager.Js.Paths

/-! What a module's main half may import, and the files of a bundle. -/
namespace BoredManager.Server.Compiler
open BoredManager.Js

/-- The names of a path, its dots resolved. -/
def pathNames (path : Text) : List Text := (segments path).foldl normalizeSegment []

/-- `join(base, rest)` of an absolute path and a text that is not empty. -/
def joinBelow (base rest : Text) : Text :=
  let full := base ++ 47 :: rest
  47 :: joinPath (pathNames full) ++ if pathNames full ≠ [] ∧ full.getLast? = some 47 then [47] else []

def commonLength : List Text → List Text → Nat
  | a :: xs, b :: ys => if a = b then commonLength xs ys + 1 else 0
  | _, _ => 0

/-- `relative(source, dest)` -/
def relative (cwd source dest : Text) : Text :=
  let a := pathNames (resolve cwd [source])
  let b := pathNames (resolve cwd [dest])
  let common := commonLength a b
  joinPath (List.replicate (a.length - common) (js "..") ++ b.drop common)

/-- `dirname(file)` of an absolute path. -/
def dirname (file : Text) : Text :=
  let above := joinPath (segments file).dropLast
  if above = [] then [47] else above

/-- A relative path has to stay inside the module folder. -/
def badRelativePath (value : Text) : Bool :=
  if 0 ∈ value ∨ value.head? = some 47 ∨ value.head? = some 92 ∨
      (value.head?.any fun u => isLower u || isUpper u) = true ∧ value[1]? = some 58 ∨ 92 ∈ value then true
  else (segments value).any fun segment => segment = [] ∨ segment = js "." ∨ segment = js ".."

/-! ### The tree -/

/-- The files and the folders of a disk without links, under their normalized paths. -/
structure FileTree where
  files : List Text
  folders : List Text
  absolute : ∀ path ∈ files, IsAbsolute path

def FileTree.isFile (tree : FileTree) (path : Text) : Bool := decide (path ∈ tree.files)

def FileTree.existsSync (tree : FileTree) (path : Text) : Bool := decide (path ∈ tree.files ∨ path ∈ tree.folders)

def FILE_EXTENSIONS : List Text :=
  [[], js ".ts", js ".tsx", js ".js", js ".mjs", js ".jsx", js ".json"]

def INDEX_EXTENSIONS : List Text := [js ".ts", js ".tsx", js ".js", js ".mjs", js ".jsx"]

/-- Exact file, or a folder's index. -/
def resolveWithExtensions (tree : FileTree) (base : Text) : Option Text :=
  (FILE_EXTENSIONS.map (base ++ ·) ++ INDEX_EXTENSIONS.map fun ext => joinBelow base (js "index" ++ ext)).find?
    tree.isFile

/-! ### The guard -/

/-- True when `dir` is `root` or somewhere inside it. -/
def isWithin (cwd root dir : Text) : Bool :=
  if dir = root then true
  else
    let rel := relative cwd root dir
    decide (rel ≠ []) && !(js "..").isPrefixOf rel && decide (rel.head? ≠ some 47)

inductive ImportKind where
  | entryPoint
  /-- A statement, a call of `require`, a dynamic import, … -/
  | other
deriving DecidableEq

structure ResolveArgs where
  kind : ImportKind
  path : Text
  resolveDir : Text

/-- One import of a build: the tree, the working directory, and the two folders. -/
structure Build where
  tree : FileTree
  cwd : Text
  moduleRoot : Text
  sharedRoot : Text

def orElseDeny (resolved : Option Text) (text : Text) : Except Text Text :=
  match resolved with
  | some path => .ok path
  | none => .error text

/-- Where `@shared` and `@shared/…` lead. -/
def Build.sharedTarget (b : Build) (p : Text) : Text :=
  let rest := p.drop 7
  let rest := if rest.head? = some 47 ∨ rest.head? = some 92 then rest.drop 1 else rest
  if rest ≠ [] then joinBelow b.sharedRoot rest else b.sharedRoot

/-- A file already inside `shared/` stays inside `shared/`; a module file stays inside its own folder. -/
def Build.zoneRoot (b : Build) (resolveDir : Text) : Text :=
  if isWithin b.cwd b.sharedRoot resolveDir = true then b.sharedRoot else b.moduleRoot

/-- The plugin's `onResolve`. -/
def Build.onResolve (b : Build) (args : ResolveArgs) : Except Text Text :=
  let p := args.path
  if args.kind = .entryPoint then
    orElseDeny (resolveWithExtensions b.tree p) (js "cannot resolve entry point \"" ++ p ++ js "\"")
  else if p = js "@shared" ∨ js "@shared/" <+: p then
    if isWithin b.cwd b.sharedRoot (b.sharedTarget p) = false then
      .error (js "import \"" ++ p ++ js "\" resolves outside shared/")
    else
      orElseDeny (resolveWithExtensions b.tree (b.sharedTarget p))
        (js "cannot resolve \"" ++ p ++ js "\" (looked in shared/)")
  else if js "./" <+: p ∨ js "../" <+: p then
    let target := resolve b.cwd [args.resolveDir, p]
    if isWithin b.cwd (b.zoneRoot args.resolveDir) target = false then
      let zoneName := if b.zoneRoot args.resolveDir = b.sharedRoot then js "shared/" else js "the module folder"
      .error (js "import \"" ++ p ++ js "\" resolves outside " ++ zoneName)
    else
      orElseDeny (resolveWithExtensions b.tree target) (js "cannot resolve \"" ++ p ++ js "\"")
  else
    .error (js "import \"" ++ p ++ js "\" is not allowed here - a module's main half may only import " ++
      js "its own files and \"@shared/*\"")

/-- What an import in a file resolves to. -/
def Build.imported (b : Build) (file specifier : Text) : Except Text Text :=
  b.onResolve ⟨.other, specifier, dirname file⟩

/-- The entry point of `compileModuleAt`, and what the plugin makes of it. -/
def Build.entryPoint (b : Build) (entry : Text) : Except Text Text :=
  let entryPath := joinBelow b.moduleRoot entry
  if b.tree.existsSync entryPath = false then .error (js "entries.main does not exist: " ++ entry)
  else b.onResolve ⟨.entryPoint, entryPath, b.moduleRoot⟩

/-! ### A bundle -/

variable (b : Build) (imports : Text → List Text)

/-- The files of a build: its first one, and what the imports of one resolve to. -/
inductive Loaded (first : Text) : Text → Prop
  | first : Loaded first first
  | imported {file specifier path : Text} (loaded : Loaded first file) (mem : specifier ∈ imports file)
      (resolved : b.imported file specifier = .ok path) : Loaded first path

/-- `compileModuleAt` succeeds: every import of every file is resolved. -/
structure Compiles (entry first : Text) : Prop where
  entry : b.entryPoint entry = .ok first
  imports : ∀ file, Loaded b imports first file → ∀ specifier ∈ imports file,
    ∃ path, b.imported file specifier = .ok path

/-- Strictly inside a folder. -/
def Below (root path : Text) : Prop :=
  ∃ names : List Text, names ≠ [] ∧ (∀ name ∈ names, PlainName name) ∧ path = root ++ 47 :: joinPath names

/-- Two folders of which neither is the other or lies in it. -/
def Beside (root other : Text) : Prop := root ≠ other ∧ ¬Below root other ∧ ¬Below other root

/-- A bundle of the module's own files and of shared code. -/
structure Contained (first : Text) : Prop where
  inside : ∀ file, Loaded b imports first file → Below b.moduleRoot file ∨ Below b.sharedRoot file
  shared : ∀ file, Loaded b imports first file → Below b.sharedRoot file → ∀ specifier ∈ imports file,
    ∀ path, b.imported file specifier = .ok path → Below b.sharedRoot path
  specifiers : ∀ file, Loaded b imports first file → ∀ specifier ∈ imports file,
    specifier = js "@shared" ∨ js "@shared/" <+: specifier ∨ js "./" <+: specifier ∨ js "../" <+: specifier

/-- No file has the folder's own path, with or without an extension. -/
def NoNamesake (tree : FileTree) (root : Text) : Prop := ∀ ext ∈ FILE_EXTENSIONS, root ++ ext ∉ tree.files

end BoredManager.Server.Compiler
