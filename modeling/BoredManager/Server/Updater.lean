import BoredManager.Server.TreeDigest

/-! The updater of the app: a check downloads, extracts and validates an archive in a private
workspace, `apply` hands the staged tree to the helper, and a cancel removes the workspace. -/
namespace BoredManager.Server.Update
open BoredManager.Js

inductive Phase where
  | idle
  | downloading
  | extracting
  | validating
  | ready
  | applying
  | error
deriving DecidableEq

/-- The result of the structural checks. -/
structure Validation where
  pass : Bool
  newVersion : Option Text

structure UpdateState where
  phase : Phase
  url : Option Text := none
  validation : Option Validation := none
  error : Option Text := none
  progress : Option (Nat × Option Nat) := none

/-- The root of the app below the staging directory of a workspace. -/
structure Root where
  work : Nat
  path : List Text

/-- What an operation awaits. -/
inductive Stage where
  | transfer (url : Text)
  | sidecar (url : Text)
  | hashing (url expected : Text)
  | extracting (work : Nat) (label : Text)
  | digesting (root : Root) (validation : Validation)

structure Operation where
  generation : Nat
  aborted : Bool
  stage : Stage

/-- What `apply` hands to the helper: the staged root, and the tree that is there. -/
structure Handed where
  root : Root
  tree : Folder

/-- The client call that holds the `update` resource. -/
inductive Call where
  | free
  | checking
  | redigesting (root : Root)
  | launching (handed : Handed)

/-- What the service calls: the hash, the checks of a tree that is there (with whether a checksum
was verified), the check of a URL and the redaction of messages. -/
structure Tools (D : Type) where
  sha : List Nat → D
  validateRoot : Folder → Bool → Validation
  normalizeUrl : Text → Except Text Text
  safeMessage : Text → Text → Text
  devMode : Bool

/-- The service and the disk under it. `waiting` has the cancels that await the operation, each
with the number of workspaces made before it; `validated` is the digest of the tree that last
passed; `handed` is what the helper has confirmed, `answer` what `apply` returned last. -/
structure Updater (D : Type) where
  state : UpdateState := ⟨.idle, none, none, none, none⟩
  operation : Option Operation := none
  generation : Nat := 0
  workspace : Option Nat := none
  stagedRoot : Option Root := none
  stagedDigest : Option D := none
  checksum : Bool := false
  disk : Nat → Option Folder := fun _ => none
  workspaces : Nat := 0
  call : Call := .free
  waiting : List Nat := []
  closed : Bool := false
  validated : Option D := none
  handed : Option Handed := none
  answer : Option (Except Text Unit) := none

/-- What `rmSync` does with a workspace: where it throws, some of the tree may be left. -/
inductive Removal where
  | removed
  | failed (message : Text) (left : Folder)

/-- The sidecar of an archive, once its download has settled. -/
inductive Sidecar where
  | missing
  | unreadable (message : Text)
  | malformed
  | digest (expected : Text)

/-- The helper's script at the moment it is staged. -/
inductive Helper where
  | missing
  | uncopied (message : Text)
  | staged

/-! ### Archive trees -/

/-- `findArchiveRoot(dir, 'package.json')`, as the path below the directory. -/
def findArchiveRoot (dir : Folder) : Option (List Text) :=
  if (dir.lookup (js "package.json")).isSome then some []
  else
    match dir.filterMap fun e => match e.2 with
        | .dir entries => if e.1 = js "__MACOSX" then none else some (e.1, entries)
        | _ => none with
    | [(name, inner)] => if (inner.lookup (js "package.json")).isSome then some [name] else none
    | _ => none

/-- The folder at a path. -/
def folderAt (dir : Folder) : List Text → Option Folder
  | [] => some dir
  | name :: path =>
    match dir.lookup name with
    | some (.dir entries) => folderAt entries path
    | _ => none

variable {D : Type}

/-- `validateUpdateTree`: without a root, or without a tree at it, the checks fail. -/
def Tools.validateUpdateTree (tools : Tools D) (root : Option Folder) (checksumVerified : Bool) :
    Validation :=
  match root with
  | some tree => tools.validateRoot tree checksumVerified
  | none => ⟨false, none⟩

namespace Updater

variable (tools : Tools D) (s : Updater D)

def treeAt (root : Root) : Option Folder := (s.disk root.work).bind (folderAt · root.path)

/-! ### Workspaces -/

def setDisk (work : Nat) (folder : Option Folder) : Updater D :=
  { s with disk := fun w => if w = work then folder else s.disk w }

/-- `discardWorkspace`, with the message that it throws. -/
def discardWorkspace (rm : Removal) : Updater D × Option Text :=
  match s.workspace with
  | none => (s, none)
  | some work =>
    match rm with
    | .removed =>
      ({ s.setDisk work none with workspace := none, stagedRoot := none, stagedDigest := none },
        none)
    | .failed message left => (s.setDisk work ((s.disk work).map fun _ => left), some message)

/-- `createWorkspace`: `made` is whether `mkdtempSync` and its `chmod` succeed. -/
def createWorkspace (rm : Removal) (made : Except Text Unit) : Updater D × Except Text Nat :=
  match s.discardWorkspace rm with
  | (s, some message) => (s, .error message)
  | (s, none) =>
    match made with
    | .error message => (s, .error message)
    | .ok () =>
      ({ s.setDisk s.workspaces (some []) with
          workspace := some s.workspaces, workspaces := s.workspaces + 1 }, .ok s.workspaces)

/-! ### Operations -/

def beginOperation (stage : Stage) : Updater D :=
  { s with
    generation := s.generation + 1
    operation := some ⟨s.generation + 1, false, stage⟩
    checksum := false
    stagedRoot := none
    stagedDigest := none }

def isCurrent (op : Operation) : Bool := op.generation == s.generation && !op.aborted

/-- `current(operation)`, for the operation in progress. -/
def current : Bool := s.operation.any s.isCurrent

/-- The promise of the operation settles, and with it the call that started it. -/
def settle : Updater D := { s with operation := none, call := .free }

def await (stage : Stage) : Updater D :=
  { s with operation := s.operation.map fun op => { op with stage } }

/-- `check(rawUrl)`. -/
def check (rawUrl : Text) (rm : Removal) (made : Except Text Unit) : Updater D :=
  if s.operation.isSome then
    { s with state := { s.state with error := some (js "An update check is already running") } }
  else if s.state.phase = .applying then s
  else
    match tools.normalizeUrl rawUrl with
    | .error message =>
      { s with state := { s.state with phase := .error, error := some message, validation := none } }
    | .ok url =>
      match s.createWorkspace rm made with
      | (s, .error message) => { s with state := { s.state with
          phase := .error
          error := some (tools.safeMessage message (js "Could not create private update staging")) } }
      | (s, .ok _) =>
        let s := s.beginOperation (.transfer url)
        { s with
          call := .checking
          state := { s.state with
            phase := .downloading, url := some url, error := none, validation := none,
            progress := some (0, none) } }

/-- `checkFile(uploadPath)`: `upload` is whether the upload is a regular file of allowed size,
`copied` whether it can be copied into the workspace. -/
def checkFile (upload : Except Text Unit) (rm : Removal) (made copied : Except Text Unit)
    (rm' : Removal) : Updater D :=
  if s.operation.isSome then
    { s with state := { s.state with error := some (js "An update check is already running") } }
  else if s.state.phase = .applying then s
  else
    match upload with
    | .error message => { s with state := { s.state with
        phase := .error
        error := some (tools.safeMessage message (js "The uploaded archive is unavailable")) } }
    | .ok () =>
      match s.createWorkspace rm made with
      | (s, .error message) => { s with state := { s.state with
          phase := .error
          error := some (tools.safeMessage message (js "Could not create private update staging")) } }
      | (s, .ok work) =>
        match copied with
        | .error message =>
          let s := (s.discardWorkspace rm').1
          { s with state := { s.state with
              phase := .error
              error := some (tools.safeMessage message
                (js "Could not copy the uploaded archive into private staging")) } }
        | .ok () =>
          let s := s.beginOperation (.extracting work (js "upload"))
          { s with
            call := .checking
            state := { s.state with
              phase := .extracting, url := some (js "upload"), error := none, validation := none,
              progress := none } }

/-- The handler around the download, the checksum and what follows. -/
def failCheck (message : Text) (rm : Removal) : Updater D :=
  if s.current then
    let cleaned := s.discardWorkspace rm
    { cleaned.1 with state := { s.state with
        phase := .error, progress := none, validation := none,
        error := some (if cleaned.2.isSome then
            js "The update failed and private staging could not be removed"
          else tools.safeMessage message (js "The update archive could not be downloaded")) } }.settle
  else s.settle

/-- `inspectArchive` up to the extraction; the path of a missing workspace throws. -/
def inspectArchive (label : Text) (rm : Removal) : Updater D :=
  match s.workspace with
  | some work => s.await (.extracting work label)
  | none => s.failCheck tools (js "The \"path\" argument must be of type string. Received null") rm

/-- The end of the checksum, behind which the archive is extracted. -/
def afterChecksum (url : Text) (rm : Removal) : Updater D :=
  if s.current then
    { s with state := { s.state with phase := .extracting } }.inspectArchive tools url rm
  else s.settle

def transferred (url : Text) (result : Except Text Unit) (rm : Removal) : Updater D :=
  match result with
  | .error message => s.failCheck tools message rm
  | .ok () => if s.current then { s with checksum := false }.await (.sidecar url) else s.settle

def sidecarRead (url : Text) (sidecar : Sidecar) (rm : Removal) : Updater D :=
  match sidecar with
  | .missing => { s with checksum := false }.afterChecksum tools url rm
  | .unreadable message => if s.current then s.failCheck tools message rm else s.settle
  | .malformed => s.afterChecksum tools url rm
  | .digest expected => if s.current then s.await (.hashing url expected) else s.settle

def hashed (url expected : Text) (actual : Except Text Text) (rm : Removal) : Updater D :=
  match actual with
  | .error message => s.failCheck tools message rm
  | .ok actual =>
    if actual ≠ expected then
      s.failCheck tools (js "The archive SHA-256 does not match its sidecar") rm
    else { s with checksum := true }.afterChecksum tools url rm

/-- The end of `inspectArchive`, with the root of a tree that has passed. -/
def finishInspect (root : Option Root) (validation : Validation) (rm : Removal) : Updater D :=
  if s.current then
    let s := { s with stagedRoot := if validation.pass then root else none }
    if validation.pass then
      { s with state := { s.state with
          phase := .ready, validation := some validation, error := none } }.settle
    else
      let cleaned := s.discardWorkspace rm
      { cleaned.1 with state := { s.state with
          phase := .error, validation := some validation,
          error := some (if cleaned.2.isSome then
              js "The rejected update and its private staging could not be removed"
            else js "The archive did not pass structural validation") } }.settle
  else s.settle

/-- `inspectArchive` from the end of the extraction to the digest of a tree that passes. -/
def validateExtracted (work : Nat) (label : Text) (tree : Folder) (rm : Removal) : Updater D :=
  let s := { s with state := { s.state with phase := .validating, url := some label } }
  match findArchiveRoot tree with
  | none => s.finishInspect none (tools.validateUpdateTree none s.checksum) rm
  | some path =>
    let validation := tools.validateUpdateTree (s.treeAt ⟨work, path⟩) s.checksum
    if validation.pass then s.await (.digesting ⟨work, path⟩ validation)
    else s.finishInspect (some ⟨work, path⟩) validation rm

def failExtraction (label message : Text) (rm : Removal) : Updater D :=
  let cleaned := s.discardWorkspace rm
  { cleaned.1 with state := { s.state with
      phase := .error, url := some label,
      error := some (if cleaned.2.isSome then
          js "Archive extraction failed and partial staging could not be removed"
        else tools.safeMessage message (js "The file is not a safe readable ZIP archive")) } }.settle

/-- The extraction settles: what it has written is the tree of the workspace. -/
def extracted (work : Nat) (label : Text) (result : Except Text Unit) (tree : Folder)
    (rm : Removal) : Updater D :=
  let s := s.setDisk work ((s.disk work).map fun _ => tree)
  if s.current then
    match result with
    | .error message => s.failExtraction tools label message rm
    | .ok () => s.validateExtracted tools work label tree rm
  else s.settle

/-- `digestUpdateTree` of a staged tree: it may fail, and of a tree that is gone it may read
anything. -/
def digestAt (root : Root) (fault : Option Text) (stray : D) : Except Text D :=
  match fault with
  | some message => .error message
  | none =>
    match s.treeAt root with
    | some tree => digestUpdateTree tools.sha tree
    | none => .ok stray

/-- The digest of the tree that has passed settles. It is assigned before the check. -/
def digested (root : Root) (validation : Validation) (fault : Option Text) (stray : D)
    (rm : Removal) : Updater D :=
  match s.digestAt tools root fault stray with
  | .ok digest =>
    { s with stagedDigest := some digest, validated := some digest }.finishInspect (some root)
      validation rm
  | .error message =>
    if s.current then
      let cleaned := { s with stagedRoot := none }.discardWorkspace rm
      { cleaned.1 with state := { s.state with
          phase := .error, validation := some validation,
          error := some (if cleaned.2.isSome then
              js "The staged update could not be digested or removed"
            else tools.safeMessage message (js "The staged update tree could not be digested")) } }.settle
    else s.settle

/-! ### Cancel -/

/-- What a cancel does once no operation is left. -/
def finishCancel (rm : Removal) : Updater D :=
  match { s with stagedRoot := none, stagedDigest := none }.discardWorkspace rm with
  | (s, some message) => { s with state := { s.state with
      phase := .error, progress := none, validation := none,
      error := some (tools.safeMessage message
        (js "Cancelled, but private update staging could not be removed")) } }
  | (s, none) => { s with state := ⟨.idle, none, none, none, none⟩ }

/-- `cancel()`, up to the operation that it aborts. -/
def cancel (rm : Removal) : Updater D :=
  if s.state.phase = .applying then s
  else
    let s := { s with generation := s.generation + 1 }
    match s.operation with
    | some op => { s with
        operation := some { op with aborted := true }, waiting := s.waiting ++ [s.workspaces] }
    | none => s.finishCancel tools rm

/-! ### Apply -/

def refuse (error : Text) : Updater D := { s with answer := some (.error error), call := .free }

/-- `apply()` up to the digest of the staged tree; `fault` is an exception of the checks. -/
def apply (fault : Option Text) : Updater D :=
  match s.stagedRoot, s.stagedDigest, s.workspace with
  | some root, some _, some _ =>
    if s.state.phase ≠ .ready then
      s.refuse (js "No structurally validated update is ready to install")
    else if s.operation.isSome then s.refuse (js "The update check is still finishing")
    else if tools.devMode then
      s.refuse (js "Updates cannot be installed while running in dev mode")
    else
      match fault with
      | some message =>
        s.refuse (tools.safeMessage message (js "The staged update could not be revalidated"))
      | none =>
        let revalidation := tools.validateUpdateTree (s.treeAt root) s.checksum
        if !revalidation.pass ∨
            revalidation.newVersion ≠ s.state.validation.bind Validation.newVersion then
          s.refuse (js "The staged update changed; check the archive again")
        else { s with call := .redigesting root }
  | _, _, _ => s.refuse (js "No structurally validated update is ready to install")

/-- `apply()` from the digest to the start of the helper. -/
def redigested [DecidableEq D] (root : Root) (fault : Option Text) (stray : D) (helper : Helper) :
    Updater D :=
  match s.digestAt tools root fault stray with
  | .error message =>
    s.refuse (tools.safeMessage message (js "The staged update could not be revalidated"))
  | .ok digest =>
    if some digest ≠ s.stagedDigest then
      s.refuse (js "The staged update changed; check the archive again")
    else
      match helper with
      | .missing => s.refuse (js "The installed update helper is missing or invalid")
      | .uncopied message =>
        s.refuse (tools.safeMessage message (js "Could not stage the update helper"))
      | .staged =>
        match s.workspace, s.stagedRoot with
        | some _, some root =>
          { s with call := .launching ⟨root, (s.treeAt root).getD []⟩ }
        | _, _ => s.refuse (js "The \"path\" argument must be of type string. Received null")

/-- `apply()` from the confirmation of the helper. -/
def launched (handed : Handed) (result : Except Text Unit) : Updater D :=
  match result with
  | .error message =>
    s.refuse (tools.safeMessage message (js "Could not start an independent update helper"))
  | .ok () => { s with
      state := { s.state with phase := .applying, error := none }
      handed := some handed, answer := some (.ok ()), call := .free }

end Updater

/-- What can happen next. -/
inductive Event (D : Type) where
  | check (rawUrl : Text) (rm : Removal) (made : Except Text Unit)
  | checkFile (upload : Except Text Unit) (rm : Removal) (made copied : Except Text Unit)
      (rm' : Removal)
  | progress (receivedBytes : Nat) (totalBytes : Option Nat)
  | transferred (result : Except Text Unit) (rm : Removal)
  | sidecar (sidecar : Sidecar) (rm : Removal)
  | hashed (actual : Except Text Text) (rm : Removal)
  | extracted (result : Except Text Unit) (tree : Folder) (rm : Removal)
  | digested (fault : Option Text) (stray : D) (rm : Removal)
  | cancel (rm : Removal)
  | cleanClose (rm : Removal)
  | resume (rm : Removal)
  | apply (fault : Option Text)
  | redigested (fault : Option Text) (stray : D) (helper : Helper)
  | launched (result : Except Text Unit)
  | tamper (work : Nat) (tree : Folder)

namespace Updater

variable [DecidableEq D] (tools : Tools D) (s : Updater D)

/-- A step of the operation in progress. -/
def operationStep (op : Operation) : Event D → Option (Updater D)
  | .progress receivedBytes totalBytes =>
    match op.stage with
    | .transfer _ =>
      if s.current then
        some { s with state := { s.state with progress := some (receivedBytes, totalBytes) } }
      else some s
    | _ => none
  | .transferred result rm =>
    match op.stage with
    | .transfer url => some (s.transferred tools url result rm)
    | _ => none
  | .sidecar sidecar rm =>
    match op.stage with
    | .sidecar url => some (s.sidecarRead tools url sidecar rm)
    | _ => none
  | .hashed actual rm =>
    match op.stage with
    | .hashing url expected => some (s.hashed tools url expected actual rm)
    | _ => none
  | .extracted result tree rm =>
    match op.stage with
    | .extracting work label => some (s.extracted tools work label result tree rm)
    | _ => none
  | .digested fault stray rm =>
    match op.stage with
    | .digesting root validation => some (s.digested tools root validation fault stray rm)
    | _ => none
  | _ => none

/-- A call of a client that takes the lock, or a change of the files between the calls. -/
def idleStep : Event D → Option (Updater D)
  | .check rawUrl rm made => some (s.check tools rawUrl rm made)
  | .checkFile upload rm made copied rm' => some (s.checkFile tools upload rm made copied rm')
  | .cancel rm => some (s.cancel tools rm)
  | .apply fault => some (s.apply tools fault)
  | .tamper work tree => some (s.setDisk work ((s.disk work).map fun _ => tree))
  | _ => none

/-- One step, if it can be taken. When an operation settles, the cancels that await it go on
before anything else happens. -/
def step (e : Event D) : Option (Updater D) :=
  match s.operation, s.waiting with
  | none, _ :: rest =>
    match e with
    | .resume rm => some { s.finishCancel tools rm with waiting := rest }
    | _ => none
  | operation, _ =>
    match e with
    | .cleanClose rm => if s.closed then none else some { s.cancel tools rm with closed := true }
    | e =>
      match operation with
      | some op => s.operationStep tools op e
      | none =>
        match s.call, e with
        | .redigesting root, .redigested fault stray helper =>
          some (s.redigested tools root fault stray helper)
        | .launching handed, .launched result => some (s.launched tools handed result)
        | .free, e => s.idleStep tools e
        | _, _ => none

/-- What cannot happen changes nothing. -/
def next (e : Event D) : Updater D := (s.step tools e).getD s

end Updater
end BoredManager.Server.Update
