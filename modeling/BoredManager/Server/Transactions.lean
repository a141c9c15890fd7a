import BoredManager.Js.Text
import BoredManager.Machine.Faults
import Mathlib.Logic.Function.Basic

/-! Installing and removing a module as a journalled transaction, and the recovery at startup. Any call
of the system may throw, and the process may stop in any of them; a rename and the write of a private
file happen whole or not at all, a recursive copy or removal may be left half done. -/
namespace BoredManager.Server.Transactions
open BoredManager.Js BoredManager.Calls BoredManager.Faults

/-- What a call leaves that does not go through: some tree, and some text of each of two files. -/
structure Left (τ : Type) where
  tree : Option τ
  primary : Option Text
  backup : Option Text

inductive ModuleSource where
  | default | zip | url
deriving DecidableEq

structure ModuleRuntimeState where
  enabled : Bool
  version : Text
  hash : Text
  source : ModuleSource
  installedAt : Nat
  updatedAt : Nat
deriving DecidableEq

abbrev Registry := Text → Option ModuleRuntimeState

/-- What the server keeps for a module: its folder, its config file with the backup, its data. -/
@[ext] structure Module (τ : Type) where
  folder : Option τ
  config : Option Text
  configBackup : Option Text
  data : Option τ

structure Snapshot (τ : Type) where
  configPrimary : Option Text
  configBackup : Option Text
  moduleData : Option τ

inductive TransactionOperation where
  | install | uninstall
deriving DecidableEq

inductive TransactionPhase where
  | preparing | snapshotting | prepared | movingTarget | promotingCandidate | updatingState | rolledBack
  | committed
deriving DecidableEq

structure TransactionJournal where
  operation : TransactionOperation
  id : Text
  phase : TransactionPhase
  hadTarget : Bool
  registry : Option Registry
  configPrimary : Bool
  configBackup : Bool
  moduleData : Bool

/-- The files: those of the modules, the registry, and those of the one transaction that may be
pending, whose names contain its random id. -/
structure Disk (τ : Type) where
  modules : Text → Module τ
  registry : Registry
  candidate : Option τ
  backup : Option τ
  restore : Option τ
  displaced : Option τ
  snapshot : Option (Snapshot τ)
  journal : Option TransactionJournal

structure ActiveTransaction where
  journal : TransactionJournal
  hostStopped : Bool

variable {τ : Type}

/-- In memory is the transaction under way. A rename and the write of a private file are atomic. -/
abbrev Program (τ α : Type) := Faults.Program (Disk τ) (Option ActiveTransaction) (Left τ) α

def onModule (id : Text) (f : Module τ → Module τ) (d : Disk τ) : Disk τ :=
  { d with modules := Function.update d.modules id (f (d.modules id)) }

/-! ### The directories of a transaction -/

/-- `rmSync(target, { recursive: true, force: true })` -/
def rmFolder (id : Text) : Program τ Unit :=
  sysCall (onModule id fun m => { m with folder := none })
    fun left => onModule id fun m => { m with folder := m.folder.bind fun _ => left.tree }

def rmData (id : Text) : Program τ Unit :=
  sysCall (onModule id fun m => { m with data := none })
    fun left => onModule id fun m => { m with data := m.data.bind fun _ => left.tree }

def rmConfig (id : Text) : Program τ Unit := atomic (onModule id fun m => { m with config := none })

def rmConfigBackup (id : Text) : Program τ Unit :=
  atomic (onModule id fun m => { m with configBackup := none })

def rmCandidate : Program τ Unit :=
  sysCall (fun d => { d with candidate := none })
    fun left d => { d with candidate := d.candidate.bind fun _ => left.tree }

def rmBackup : Program τ Unit :=
  sysCall (fun d => { d with backup := none })
    fun left d => { d with backup := d.backup.bind fun _ => left.tree }

def rmRestore : Program τ Unit :=
  sysCall (fun d => { d with restore := none })
    fun left d => { d with restore := d.restore.bind fun _ => left.tree }

def rmDisplaced : Program τ Unit :=
  sysCall (fun d => { d with displaced := none })
    fun left d => { d with displaced := d.displaced.bind fun _ => left.tree }

def rmSnapshot : Program τ Unit :=
  sysCall (fun d => { d with snapshot := none }) fun left d => { d with
    snapshot := d.snapshot.map fun _ => ⟨left.primary, left.backup, left.tree⟩ }

def rmJournal : Program τ Unit := atomic fun d => { d with journal := none }

/-- `cpSync` with `errorOnExist`, to the candidate. -/
def cpCandidate (source : τ) : Program τ Unit := do
  if (← disk).candidate.isSome then throw .thrown
  sysCall (fun d => { d with candidate := some source }) fun left d => { d with candidate := left.tree }

def Snapshot.empty : Snapshot τ := ⟨none, none, none⟩

/-- Into the snapshot goes what a call has copied. -/
def onSnapshot (f : Snapshot τ → Snapshot τ) (d : Disk τ) : Disk τ :=
  { d with snapshot := d.snapshot.map f }

/-! ### The journal -/

/-- The file first, then the phase in memory. -/
def writeJournal (journal : TransactionJournal) (phase : TransactionPhase) :
    Program τ TransactionJournal := do
  atomic fun d => { d with journal := some { journal with phase } }
  return { journal with phase }

def phaseMayHaveMutatedState : TransactionPhase → Bool
  | .movingTarget | .promotingCandidate | .updatingState | .committed => true
  | _ => false

/-- The source must be there, and the destination must not. -/
def copyPrivateFile (id : Text) (source : Module τ → Option Text) (destination : Snapshot τ → Option Text)
    (write : Option Text → Snapshot τ → Snapshot τ) (part : Left τ → Option Text) : Program τ Unit := do
  let d ← disk
  if source (d.modules id) = none ∨ (d.snapshot.any fun s => (destination s).isSome) = true then
    throw .thrown
  sysCall (onSnapshot (write (source (d.modules id)))) fun left => onSnapshot (write (part left))
  idle

/-- `cpSync(moduleDataPath, snapshotModuleData)` -/
def cpModuleData (id : Text) : Program τ Unit := do
  let d ← disk
  if (d.modules id).data = none ∨ (d.snapshot.any fun s => s.moduleData.isSome) = true then throw .thrown
  sysCall (onSnapshot fun s => { s with moduleData := (d.modules id).data })
    fun left => onSnapshot fun s => { s with moduleData := left.tree }

def capturePersistentSnapshot (journal : TransactionJournal) : Program τ Unit := do
  atomic fun d => { d with snapshot := some (d.snapshot.getD .empty) }
  idle
  if journal.configPrimary = true then
    copyPrivateFile journal.id Module.config Snapshot.configPrimary
      (fun text s => { s with configPrimary := text }) Left.primary
  if journal.configBackup = true then
    copyPrivateFile journal.id Module.configBackup Snapshot.configBackup
      (fun text s => { s with configBackup := text }) Left.backup
  if journal.moduleData = true then cpModuleData journal.id

def assertSnapshotComplete (journal : TransactionJournal) : Program τ Unit := do
  let d ← disk
  if journal.configPrimary = true ∧ (d.snapshot.any fun s => s.configPrimary.isSome) = false then
    throw .thrown
  if journal.configBackup = true ∧ (d.snapshot.any fun s => s.configBackup.isSome) = false then
    throw .thrown
  if journal.moduleData = true ∧ (d.snapshot.any fun s => s.moduleData.isSome) = false then
    throw .thrown

/-! ### Back to what was before -/

def restorePrivateFile (id : Text) (source : Option Text)
    (write : Option Text → Module τ → Module τ) : Program τ Unit := do
  if source = none then throw .thrown
  atomic (onModule id (write source))

/-- `renameSync(restore, currentData)` -/
def renameRestore (id : Text) : Program τ Unit := do
  if (← disk).restore = none then throw .thrown
  atomic fun d => onModule id (fun m => { m with data := d.restore }) { d with restore := none }

/-- `renameSync(displaced, currentData)`, if it must be undone. -/
def renameDisplacedBack (id : Text) : Program τ Unit := do
  let d ← disk
  if d.displaced.isSome ∧ (d.modules id).data = none then
    atomic fun d => onModule id (fun m => { m with data := d.displaced }) { d with displaced := none }

def restoreModuleData (id : Text) : Program τ Unit := do
  rmRestore
  rmDisplaced
  let d ← disk
  let source := d.snapshot.bind Snapshot.moduleData
  if source = none ∨ d.restore.isSome then throw .thrown
  sysCall (fun d => { d with restore := source }) fun left d => { d with restore := left.tree }
  if ((← disk).modules id).data.isSome then
    atomic fun d => onModule id (fun m => { m with data := none }) { d with
      displaced := (d.modules id).data }
  tryCatch (renameRestore id) fun
    | .thrown => do
      renameDisplacedBack id
      throw .thrown
    | .stopped => throw .stopped
  rmDisplaced

def restorePersistentFiles (journal : TransactionJournal) : Program τ Unit := do
  assertSnapshotComplete journal
  let snapshot := (← disk).snapshot
  if journal.configBackup = true then
    restorePrivateFile journal.id (snapshot.bind Snapshot.configBackup)
      fun text m => { m with configBackup := text }
  else rmConfigBackup journal.id
  if journal.configPrimary = true then
    restorePrivateFile journal.id (snapshot.bind Snapshot.configPrimary)
      fun text m => { m with config := text }
  else rmConfig journal.id
  if journal.moduleData = true then restoreModuleData journal.id
  else rmData journal.id

/-- `renameSync(backup, target)` -/
def renameBackup (id : Text) : Program τ Unit := do
  let d ← disk
  if d.backup = none ∨ (d.modules id).folder.isSome then throw .thrown
  atomic fun d => onModule id (fun m => { m with folder := d.backup }) { d with backup := none }

def restoreModuleFolder (journal : TransactionJournal) : Program τ Unit := do
  let d ← disk
  if journal.hadTarget = true then
    if d.backup.isSome then
      rmFolder journal.id
      renameBackup journal.id
    else if (d.modules journal.id).folder = none then throw .thrown
  else rmFolder journal.id
  rmCandidate

def writeModuleRegistry (registry : Registry) : Program τ Unit :=
  atomic fun d => { d with registry := registry }

def removeTransactionArtifacts : Program τ Unit := do
  rmCandidate
  rmBackup
  rmSnapshot
  rmJournal

def removeUntouchedTransaction : Program τ Unit := do
  rmCandidate
  rmSnapshot
  rmJournal

def committedLooksComplete (journal : TransactionJournal) (d : Disk τ) : Bool :=
  decide (journal.phase = .committed) && match journal.operation with
    | .install => (d.modules journal.id).folder.isSome
    | .uninstall => (d.modules journal.id).folder.isNone

def recoverTransaction (journal : TransactionJournal) : Program τ Unit := do
  idle
  if committedLooksComplete journal (← disk) = true then removeTransactionArtifacts
  else if journal.phase = .rolledBack then removeTransactionArtifacts
  else if phaseMayHaveMutatedState journal.phase = false then removeUntouchedTransaction
  else match journal.registry with
    | none => throw .thrown
    | some registry => do
      restoreModuleFolder journal
      restorePersistentFiles journal
      writeModuleRegistry registry
      let _ ← writeJournal journal .rolledBack
      removeTransactionArtifacts

/-- The number of the transactions that were pending. -/
def recoverPendingTransactions : Program τ Nat := do
  match (← disk).journal with
  | none => return 0
  | some journal =>
    recoverTransaction journal
    return 1

/-! ### Installing and removing -/

/-- What is written of a folder: the exact digest, the digest of the registry, and the folder with its
compiled module. -/
structure Host (τ : Type) where
  exactModuleTreeHash : τ → Text
  moduleFolderHash : τ → Text
  compileModuleAt : τ → τ

structure StagedModule (τ : Type) where
  root : τ
  treeSha256 : Text
  id : Text
  version : Text
  source : ModuleSource

/-- `record`: what was switched off stays so. -/
def recordedState (previous : Option ModuleRuntimeState) (version hash : Text) (source : ModuleSource)
    (now : Nat) : ModuleRuntimeState where
  enabled := (previous.map ModuleRuntimeState.enabled).getD true
  version := version
  hash := hash
  source := source
  installedAt := (previous.map ModuleRuntimeState.installedAt).getD now
  updatedAt := now

def beginTransaction (operation : TransactionOperation) (id : Text) (hadTarget : Bool) :
    Program τ Unit := do
  let journal ← writeJournal ⟨operation, id, .preparing, hadTarget, none, false, false, false⟩ .preparing
  remember (some ⟨journal, false⟩)

/-- `writeJournal` of the transaction in memory. -/
def advance (phase : TransactionPhase) : Program τ Unit := do
  match ← memory with
  | none => throw .thrown
  | some transaction =>
    let journal ← writeJournal transaction.journal phase
    remember (some { transaction with journal := journal })

def stopAndSnapshot (id : Text) : Program τ Unit := do
  idle
  match ← memory with
  | none => throw .thrown
  | some transaction =>
    let d ← disk
    let journal := { transaction.journal with
      registry := some d.registry
      configPrimary := (d.modules id).config.isSome
      configBackup := (d.modules id).configBackup.isSome
      moduleData := (d.modules id).data.isSome }
    remember (some ⟨journal, true⟩)
    advance .snapshotting
    capturePersistentSnapshot journal
    assertSnapshotComplete journal
    advance .prepared

/-- `reload` of the candidate: whether it starts or not, it may have written what is its own. -/
def activate (id : Text) : Program τ Unit := fun w =>
  match w.fates with
  | [] => .ok () w
  | ⟨ending, left⟩ :: fates =>
    let w := { w with
      disk := onModule id
        (fun m => { m with config := left.primary, configBackup := left.backup, data := left.tree }) w.disk
      fates := fates }
    match ending with
    | .goes => .ok () w
    | .throws => .error .thrown w
    | .stops _ => .error .stopped w

/-- Without a transaction in memory there is nothing to undo. A restored module that does not reload is
an error. -/
def rollbackTransaction : Program τ Unit := do
  match ← memory with
  | none => return ()
  | some ⟨journal, hostStopped⟩ =>
    let mutated := phaseMayHaveMutatedState journal.phase
    if mutated = true then
      match journal.registry with
      | none => throw .thrown
      | some registry => do
        idle
        restoreModuleFolder journal
        restorePersistentFiles journal
        writeModuleRegistry registry
    if hostStopped = true ∧ journal.hadTarget = true then idle
    if mutated = true then
      let _ ← writeJournal journal .rolledBack
      removeTransactionArtifacts
    else removeUntouchedTransaction

/-- `uncleaned` is done but for the files of the transaction; `unrecovered` is left to the recovery. -/
inductive Outcome where
  | refused | done | uncleaned | restored | unrecovered
deriving DecidableEq

/-- The steps of a transaction, and what follows when they are through or when one has thrown. -/
def transact (steps : Program τ Unit) : Program τ Outcome := do
  remember none
  if ← attempt steps true false then attempt removeTransactionArtifacts .done .uncleaned
  else attempt rollbackTransaction .restored .unrecovered

/-- `renameSync(target, backup)` -/
def renameTarget (id : Text) : Program τ Unit := do
  if ((← disk).modules id).folder = none then throw .thrown
  atomic fun d => onModule id (fun m => { m with folder := none }) { d with
    backup := (d.modules id).folder }

/-- `renameSync(candidate, target)` -/
def renameCandidate (id : Text) : Program τ Unit := do
  let d ← disk
  if d.candidate = none ∨ (d.modules id).folder.isSome then throw .thrown
  atomic fun d => onModule id (fun m => { m with folder := d.candidate }) { d with candidate := none }

def record (host : Host τ) (staged : StagedModule τ) (now : Nat) : Program τ Unit := do
  match ((← disk).modules staged.id).folder with
  | none => throw .thrown
  | some target =>
    atomic fun d => { d with
      registry := Function.update d.registry staged.id (some (recordedState (d.registry staged.id)
        staged.version (host.moduleFolderHash target) staged.source now)) }

def installSteps (host : Host τ) (staged : StagedModule τ) (now : Nat) (hadPrevious : Bool) :
    Program τ Unit := do
  idle
  beginTransaction .install staged.id hadPrevious
  cpCandidate staged.root
  if host.exactModuleTreeHash staged.root ≠ staged.treeSha256 then throw .thrown
  sysCall (fun d => { d with candidate := d.candidate.map host.compileModuleAt })
    fun left d => { d with candidate := left.tree }
  idle
  stopAndSnapshot staged.id
  idle
  advance .movingTarget
  if hadPrevious = true then renameTarget staged.id
  advance .promotingCandidate
  renameCandidate staged.id
  advance .updatingState
  record host staged now
  activate staged.id
  advance .committed

/-- `install` of a module that has been checked and confirmed. -/
def install (host : Host τ) (staged : StagedModule τ) (now : Nat) : Program τ Outcome := do
  let d ← disk
  if d.journal.isSome then return .refused
  transact (installSteps host staged now (d.modules staged.id).folder.isSome)

def uninstallSteps (id : Text) : Program τ Unit := do
  beginTransaction .uninstall id true
  stopAndSnapshot id
  advance .movingTarget
  renameTarget id
  advance .updatingState
  rmConfig id
  rmConfigBackup id
  rmData id
  atomic fun d => { d with registry := Function.update d.registry id none }
  advance .committed

def uninstall (id : Text) : Program τ Outcome := do
  let d ← disk
  if d.journal.isSome ∨ d.registry id = none ∨ (d.modules id).folder = none then return .refused
  transact (uninstallSteps id)

/-! ### What the recovery makes of the files -/

abbrev Assertion (τ : Type) := Faults.Assertion (Disk τ) (Option ActiveTransaction)


/-- What the server has of its modules when nothing is pending. -/
structure Visible (τ : Type) where
  modules : Text → Module τ
  registry : Registry

variable {v : Visible τ} {j : TransactionJournal} {d d' : Disk τ} {calm : Prop}

structure Clean (v : Visible τ) (d : Disk τ) : Prop where
  modules : d.modules = v.modules
  registry : d.registry = v.registry
  candidate : d.candidate = none
  backup : d.backup = none
  restore : d.restore = none
  displaced : d.displaced = none
  snapshot : d.snapshot = none
  journal : d.journal = none

/-- A transaction is pending, but the modules are as they should be. -/
structure Kept (v : Visible τ) (j : TransactionJournal) (d : Disk τ) : Prop where
  journal : d.journal = some j
  modules : d.modules = v.modules
  registry : d.registry = v.registry
  restore : d.restore = none
  displaced : d.displaced = none

/-- The journal says what the module was. -/
structure Records (v : Visible τ) (j : TransactionJournal) : Prop where
  registry : j.registry = some v.registry
  hadTarget : j.hadTarget = (v.modules j.id).folder.isSome
  configPrimary : j.configPrimary = (v.modules j.id).config.isSome
  configBackup : j.configBackup = (v.modules j.id).configBackup.isSome
  moduleData : j.moduleData = (v.modules j.id).data.isSome

/-- The snapshot holds what the module had, and no other module has changed. Data are exchanged only
where there were data. -/
structure Saved (v : Visible τ) (j : TransactionJournal) (d : Disk τ) : Prop where
  journal : d.journal = some j
  snapshot : d.snapshot =
    some ⟨(v.modules j.id).config, (v.modules j.id).configBackup, (v.modules j.id).data⟩
  others : d.modules = Function.update v.modules j.id (d.modules j.id)
  exchange : (v.modules j.id).data = none → d.restore = none ∧ d.displaced = none

/-- The old folder is the backup, or still in its place. -/
def FolderSaved (v : Visible τ) (j : TransactionJournal) (d : Disk τ) : Prop :=
  (d.backup = (v.modules j.id).folder ∧ d.backup.isSome = true) ∨ d.backup = none ∧
    ((v.modules j.id).folder.isSome = true → (d.modules j.id).folder = (v.modules j.id).folder)

structure Mutated (v : Visible τ) (j : TransactionJournal) (d : Disk τ) : Prop where
  saved : Saved v j d
  folder : FolderSaved v j d

def TransactionPhase.isUntouched : TransactionPhase → Bool
  | .preparing | .snapshotting | .prepared => true
  | _ => false

def TransactionPhase.isMutated : TransactionPhase → Bool
  | .movingTarget | .promotingCandidate | .updatingState => true
  | _ => false

/-- The files from which the recovery gets what is visible. -/
inductive Settles (v : Visible τ) (d : Disk τ) : Prop
  | clean (h : Clean v d)
  | untouched (j : TransactionJournal) (h : Kept v j d) (hphase : j.phase.isUntouched = true)
      (hbackup : d.backup = none)
  | mutated (j : TransactionJournal) (hrecords : Records v j) (h : Mutated v j d)
      (hphase : j.phase.isMutated = true)
  | rolledBack (j : TransactionJournal) (h : Kept v j d) (hphase : j.phase = .rolledBack)
  | committed (j : TransactionJournal) (h : Kept v j d) (hlooks : committedLooksComplete j d = true)

theorem Kept.same (h : Kept v j d) (hjournal : d'.journal = d.journal) (hmodules : d'.modules = d.modules)
    (hregistry : d'.registry = d.registry) (hrestore : d'.restore = d.restore)
    (hdisplaced : d'.displaced = d.displaced) : Kept v j d' :=
  ⟨hjournal.trans h.journal, hmodules.trans h.modules, hregistry.trans h.registry,
    hrestore.trans h.restore, hdisplaced.trans h.displaced⟩

/-- What a call changes of a module stays within the transaction. -/
theorem Saved.onModule (h : Saved v j d) {m : Module τ} (hjournal : d'.journal = d.journal)
    (hsnapshot : d'.snapshot = d.snapshot) (hmodules : d'.modules = Function.update d.modules j.id m)
    (hexchange : (v.modules j.id).data = none → d'.restore = d.restore ∧ d'.displaced = d.displaced) :
    Saved v j d' where
  journal := hjournal.trans h.journal
  snapshot := hsnapshot.trans h.snapshot
  others := by
    rw [hmodules, Function.update_self, h.others, Function.update_idem]
  exchange := fun hnone => by
    obtain ⟨hrestore, hdisplaced⟩ := hexchange hnone
    rw [hrestore, hdisplaced]
    exact h.exchange hnone

theorem Saved.same (h : Saved v j d) (hjournal : d'.journal = d.journal)
    (hsnapshot : d'.snapshot = d.snapshot) (hmodules : d'.modules = d.modules)
    (hexchange : (v.modules j.id).data = none → d'.restore = d.restore ∧ d'.displaced = d.displaced) :
    Saved v j d' :=
  h.onModule (m := d.modules j.id) hjournal hsnapshot (by rw [hmodules, Function.update_eq_self])
    hexchange

theorem onModule_self (id : Text) (f : Module τ → Module τ) (d : Disk τ) :
    (onModule id f d).modules id = f (d.modules id) := Function.update_self ..

/-! ### The folder -/

/-- The old folder is back in its place, or there is none again. -/
structure Folded (v : Visible τ) (j : TransactionJournal) (d : Disk τ) : Prop where
  saved : Saved v j d
  folder : (d.modules j.id).folder = (v.modules j.id).folder
  backup : d.backup = none

theorem Folded.mutated (h : Folded v j d) : Mutated v j d :=
  ⟨h.saved, .inr ⟨h.backup, fun _ => h.folder⟩⟩

/-- The folder in its place goes, if the old one is the backup or there was none. -/
theorem spec_rmFolder (hrecords : Records v j) : Spec calm
    (fun d _ => Mutated v j d ∧ (d.backup.isSome = true ∨ j.hadTarget = false)) (rmFolder (τ := τ) j.id)
    (fun _ d _ => Mutated v j d ∧ (d.modules j.id).folder = none) fun _ d _ => Mutated v j d := by
  have hstep : ∀ (d : Disk τ) (folder : Option τ),
      Mutated v j d ∧ (d.backup.isSome = true ∨ j.hadTarget = false) →
      Mutated v j (onModule j.id (fun m => { m with folder := folder }) d) := by
    rintro d folder ⟨h, hgone⟩
    refine ⟨h.saved.onModule rfl rfl rfl fun _ => ⟨rfl, rfl⟩, ?_⟩
    obtain hbackup | ⟨hnone, hplace⟩ := h.folder
    · exact .inl hbackup
    · refine .inr ⟨hnone, fun hhad => ?_⟩
      obtain hsome | hnot := hgone
      · rw [hnone] at hsome
        cases hsome
      · rw [hrecords.hadTarget, hhad] at hnot
        cases hnot
  refine spec_sysCall (fun d _ h => ⟨hstep d none h, ?_⟩) (fun left d _ h _ => ?_)
    fun d _ h => hstep d none h
  · rw [onModule_self]
  · exact hstep d ((d.modules j.id).folder.bind fun _ => left.tree) h

theorem spec_renameBackup (hsome : (v.modules j.id).folder.isSome = true) :
    Spec calm (fun d _ => Mutated v j d ∧ (d.modules j.id).folder = none) (renameBackup (τ := τ) j.id)
      (fun _ d _ => Folded v j d) fun _ d _ => Mutated v j d := by
  have hbackup : ∀ {d : Disk τ}, Mutated v j d ∧ (d.modules j.id).folder = none →
      d.backup = (v.modules j.id).folder := by
    rintro d ⟨h, hfolder⟩
    obtain hbackup | ⟨-, hplace⟩ := h.folder
    · exact hbackup.1
    · rw [← hplace hsome, hfolder] at hsome
      cases hsome
  have hfolded : ∀ d : Disk τ, Mutated v j d ∧ (d.modules j.id).folder = none →
      Folded v j (onModule j.id (fun m => { m with folder := d.backup }) { d with backup := none }) :=
    fun d h => ⟨h.1.saved.onModule rfl rfl rfl fun _ => ⟨rfl, rfl⟩,
      (congrArg Module.folder (onModule_self j.id _ _)).trans (hbackup h), rfl⟩
  rw [renameBackup]
  refine spec_disk fun d₀ => spec_check ?_ ?_
  · rintro d _ ⟨rfl, h⟩ (hnone | hfull)
    · rw [hbackup h] at hnone
      rw [hnone] at hsome
      cases hsome
    · rw [h.2] at hfull
      cases hfull
  · refine spec_pre (spec_atomic (P := fun d _ => Mutated v j d ∧ (d.modules j.id).folder = none)
      (fun d _ h => hfolded d h) (fun d _ h _ => h.1) fun d _ h => (hfolded d h).mutated) fun d _ h => h.2

theorem spec_rmCandidate {P : Disk τ → Prop} (hkeep : ∀ d candidate, P d → P { d with candidate }) :
    Spec calm (fun d _ => P d) (rmCandidate (τ := τ)) (fun _ d _ => P d ∧ d.candidate = none)
      fun _ d _ => P d :=
  spec_sysCall (fun d _ h => ⟨hkeep d none h, rfl⟩) (fun _ d _ h _ => hkeep d _ h)
    fun d _ h => hkeep d none h

theorem Folded.candidate (h : Folded v j d) (candidate : Option τ) :
    Folded v j { d with candidate } :=
  ⟨h.saved.same rfl rfl rfl fun _ => ⟨rfl, rfl⟩, h.folder, h.backup⟩

theorem spec_restoreModuleFolder (hrecords : Records v j) :
    Spec calm (fun d _ => Mutated v j d) (restoreModuleFolder (τ := τ) j)
      (fun _ d _ => Folded v j d) fun _ d _ => Mutated v j d := by
  have hcandidate : Spec calm (fun d _ => Folded v j d) (rmCandidate (τ := τ))
      (fun _ d _ => Folded v j d) fun _ d _ => Mutated v j d :=
    (spec_rmCandidate (fun _ candidate h => h.candidate candidate)).weaken (fun _ h => h)
      (fun _ _ h => ⟨h.1.1, h.2⟩) fun _ _ h => ⟨h.1, h.2.mutated⟩
  rw [restoreModuleFolder]
  refine spec_disk fun d₀ => ?_
  split
  · rename_i hhad
    have hsome := hrecords.hadTarget.symm.trans hhad
    split
    · rename_i hbackup
      refine spec_bind (spec_pre (spec_rmFolder hrecords) ?_) fun _ =>
        spec_bind (spec_renameBackup hsome) fun _ => hcandidate
      rintro d _ ⟨rfl, h⟩
      exact ⟨h, .inl hbackup⟩
    · rename_i hbackup
      -- the old folder has not been moved yet, or is back already
      have hplace : ∀ (d : Disk τ) (_ : Option ActiveTransaction), d = d₀ ∧ Mutated v j d →
          Folded v j d ∧ d = d₀ := by
        rintro d _ ⟨rfl, h⟩
        obtain ⟨-, hfull⟩ | ⟨hnone, hplace⟩ := h.folder
        · exact absurd hfull hbackup
        · exact ⟨⟨h.saved, hplace hsome, hnone⟩, rfl⟩
      refine spec_pre (spec_check ?_ (spec_pre hcandidate fun _ _ h => h.1)) hplace
      rintro d _ ⟨h, rfl⟩ hnone
      rw [h.folder] at hnone
      rw [hnone] at hsome
      cases hsome
  · rename_i hhad
    have hnone := hrecords.hadTarget.symm.trans (Bool.eq_false_iff.mpr hhad)
    refine spec_bind (spec_pre (spec_rmFolder hrecords) ?_) fun _ => spec_pre hcandidate ?_
    · rintro d _ ⟨rfl, h⟩
      exact ⟨h, .inr (Bool.eq_false_iff.mpr hhad)⟩
    · rintro d _ ⟨h, hgone⟩
      have hfolder : (v.modules j.id).folder = none :=
        Option.not_isSome_iff_eq_none.mp (Bool.eq_false_iff.mp hnone)
      refine ⟨h.saved, hgone.trans hfolder.symm, ?_⟩
      obtain ⟨hbackup, hfull⟩ | ⟨hbackup, -⟩ := h.folder
      · rw [hbackup, hnone] at hfull
        cases hfull
      · exact hbackup

/-! ### The files of the module -/

theorem spec_assertSnapshotComplete {P : Assertion τ} {R : Halt → Assertion τ} (hrecords : Records v j)
    (hsaved : ∀ d t, P d t → d.snapshot =
      some ⟨(v.modules j.id).config, (v.modules j.id).configBackup, (v.modules j.id).data⟩) :
    Spec calm P (assertSnapshotComplete (τ := τ) j) (fun _ => P) R := by
  have hcontra : ∀ {α : Type} {flag : Bool} {held : Option α}, flag = held.isSome →
      ¬(flag = true ∧ held.isSome = false) := by
    rintro α flag held rfl ⟨htrue, hfalse⟩
    rw [hfalse] at htrue
    cases htrue
  rw [assertSnapshotComplete]
  refine spec_disk fun d₀ => spec_fact (fun d t ⟨hd, h⟩ => hd ▸ hsaved d t h) fun hsnapshot => ?_
  rw [hsnapshot]
  refine spec_check (fun _ _ _ => hcontra hrecords.configPrimary) (spec_check
    (fun _ _ _ => hcontra hrecords.configBackup) ?_)
  rw [if_neg ?_]
  · exact spec_pure fun d t h => h.2
  · exact hcontra hrecords.moduleData

/-- The folder is back, and what the module has besides satisfies the condition. -/
def Restoring (v : Visible τ) (j : TransactionJournal) (K : Module τ → Prop) (d : Disk τ) : Prop :=
  Folded v j d ∧ K (d.modules j.id)

variable {K K' : Module τ → Prop} {f : Module τ → Module τ}

theorem Folded.onModule (h : Folded v j d) (hf : ∀ m, (f m).folder = m.folder) :
    Folded v j (onModule j.id f d) where
  saved := h.saved.onModule rfl rfl rfl fun _ => ⟨rfl, rfl⟩
  folder := by rw [onModule_self, hf, h.folder]
  backup := h.backup

theorem Restoring.onModule (h : Restoring v j K d) (hf : ∀ m, (f m).folder = m.folder)
    (hK : ∀ m, K m → K' (f m)) : Restoring v j K' (onModule j.id f d) :=
  ⟨h.1.onModule hf, by rw [onModule_self]; exact hK _ h.2⟩

theorem spec_onModule (hf : ∀ m, (f m).folder = m.folder) (hK : ∀ m, K m → K' (f m)) :
    Spec calm (fun d _ => Restoring v j K d) (atomic (onModule j.id f) : Program τ Unit)
      (fun _ d _ => Restoring v j K' d) fun _ d _ => Mutated v j d :=
  spec_atomic (fun _ _ h => h.onModule hf hK) (fun _ _ h _ => h.1.mutated)
    fun _ _ h => (h.1.onModule hf).mutated

/-- A file goes back to what it was, or away if there was none. -/
theorem spec_restoreFile {flag : Bool} {held : Option Text} {write : Option Text → Module τ → Module τ}
    (hflag : flag = held.isSome) (hf : ∀ text m, (write text m).folder = m.folder)
    (hK : ∀ m, K m → K' (write held m)) :
    Spec calm (fun d _ => Restoring v j K d)
      (if flag = true then restorePrivateFile j.id held write else atomic (onModule j.id (write none)))
      (fun _ d _ => Restoring v j K' d) fun _ d _ => Mutated v j d := by
  subst hflag
  split
  · rename_i hsome
    rw [restorePrivateFile]
    refine spec_check (fun _ _ _ hnone => ?_) (spec_onModule (hf held) hK)
    rw [hnone] at hsome
    cases hsome
  · rename_i hnot
    have hnone : held = none := Option.not_isSome_iff_eq_none.mp hnot
    rw [hnone] at hK
    exact spec_onModule (hf none) hK

theorem Restoring.exchanged (h : Restoring v j K d) (hdata : (v.modules j.id).data.isSome = true)
    (restore displaced : Option τ) : Restoring v j K { d with restore, displaced } := by
  refine ⟨⟨h.1.saved.same rfl rfl rfl fun hnone => ?_, h.1.folder, h.1.backup⟩, h.2⟩
  rw [hnone] at hdata
  cases hdata

theorem spec_rmRestore (hdata : (v.modules j.id).data.isSome = true) :
    Spec calm (fun d _ => Restoring v j K d) (rmRestore (τ := τ))
      (fun _ d _ => Restoring v j K d ∧ d.restore = none) fun _ d _ => Mutated v j d :=
  spec_sysCall (fun _ _ h => ⟨h.exchanged hdata none _, rfl⟩)
    (fun _ _ _ h _ => (h.exchanged hdata _ _).1.mutated) fun _ _ h => (h.exchanged hdata none _).1.mutated

theorem spec_rmDisplaced {P : Disk τ → Prop} (hdata : (v.modules j.id).data.isSome = true)
    (hP : ∀ d displaced, P d → P { d with displaced }) :
    Spec calm (fun d _ => Restoring v j K d ∧ P d) (rmDisplaced (τ := τ))
      (fun _ d _ => (Restoring v j K d ∧ P d) ∧ d.displaced = none) fun _ d _ => Mutated v j d :=
  spec_sysCall (fun _ _ h => ⟨⟨h.1.exchanged hdata _ none, hP _ none h.2⟩, rfl⟩)
    (fun _ _ _ h _ => (h.1.exchanged hdata _ _).1.mutated)
    fun _ _ h => (h.1.exchanged hdata _ none).1.mutated

/-- The data are as they were, and nothing is left of their exchange. -/
def DataBack (v : Visible τ) (j : TransactionJournal) (K : Module τ → Prop) (d : Disk τ) : Prop :=
  Restoring v j (fun m => K m ∧ m.data = (v.modules j.id).data) d ∧ d.restore = none ∧ d.displaced = none

/-- `restore` takes the place of the data. -/
theorem spec_renameRestore (hK : ∀ m data, K m → K { m with data })
    (hdata : (v.modules j.id).data.isSome = true) :
    Spec calm (fun d _ => Restoring v j K d ∧ d.restore = (v.modules j.id).data)
      (renameRestore (τ := τ) j.id)
      (fun _ d _ => Restoring v j (fun m => K m ∧ m.data = (v.modules j.id).data) d ∧ d.restore = none)
      fun _ d _ => Restoring v j K d := by
  have hback : ∀ d : Disk τ, Restoring v j K d ∧ d.restore = (v.modules j.id).data →
      Restoring v j (fun m => K m ∧ m.data = (v.modules j.id).data)
        (onModule j.id (fun m => { m with data := d.restore }) { d with restore := none }) := by
    rintro d ⟨h, hrestore⟩
    exact (h.exchanged hdata none d.displaced).onModule (fun _ => rfl) fun m hm => ⟨hK m _ hm, hrestore⟩
  rw [renameRestore]
  refine spec_disk fun d₀ => spec_check ?_ (spec_pre (spec_atomic
    (P := fun d _ => Restoring v j K d ∧ d.restore = (v.modules j.id).data) (fun d _ h => ⟨hback d h, rfl⟩)
    (fun d _ h _ => h.1) fun d _ h => ⟨(hback d h).1, (hback d h).2.1⟩) fun _ _ h => h.2)
  rintro d _ ⟨rfl, -, hrestore⟩ hnone
  rw [← hrestore, hnone] at hdata
  cases hdata

/-- What was displaced goes back, if nothing has taken its place. -/
theorem spec_renameDisplacedBack (hK : ∀ m data, K m → K { m with data })
    (hdata : (v.modules j.id).data.isSome = true) :
    Spec calm (fun d _ => Restoring v j K d) (renameDisplacedBack (τ := τ) j.id)
      (fun _ d _ => Restoring v j K d) fun _ d _ => Restoring v j K d := by
  have hback : ∀ d : Disk τ, Restoring v j K d → Restoring v j K
      (onModule j.id (fun m => { m with data := d.displaced }) { d with displaced := none }) := by
    intro d h
    exact (h.exchanged hdata d.restore none).onModule (fun _ => rfl) fun m hm => hK m _ hm
  rw [renameDisplacedBack]
  refine spec_disk fun d₀ => spec_pre ?_ fun _ _ h => h.2
  split
  · exact spec_atomic (fun d _ h => hback d h) (fun d _ h _ => h) fun d _ h => hback d h
  · exact spec_pure fun d _ h => h

theorem spec_restoreModuleData (hK : ∀ m data, K m → K { m with data })
    (hdata : (v.modules j.id).data.isSome = true) :
    Spec calm (fun d _ => Restoring v j K d) (restoreModuleData (τ := τ) j.id)
      (fun _ d _ => DataBack v j K d) fun _ d _ => Mutated v j d := by
  rw [restoreModuleData]
  refine spec_bind (spec_rmRestore hdata) fun _ =>
    spec_bind (spec_rmDisplaced hdata fun d displaced h => h) fun _ => spec_disk fun d₀ => ?_
  refine spec_fact (φ := d₀.snapshot.bind Snapshot.moduleData = (v.modules j.id).data) ?_ fun hsource => ?_
  · rintro d _ ⟨rfl, ⟨h, -⟩, -⟩
    rw [h.1.saved.snapshot]
    rfl
  rw [hsource]
  refine spec_check ?_ ?_
  · rintro d _ ⟨rfl, ⟨-, hrestore⟩, -⟩ (hnone | hfull)
    · rw [hnone] at hdata
      cases hdata
    · rw [hrestore] at hfull
      cases hfull
  refine spec_bind (M := fun _ d _ => Restoring v j K d ∧ d.restore = (v.modules j.id).data) (spec_sysCall
    (fun _ _ h => ⟨h.2.1.1.exchanged hdata _ _, rfl⟩)
    (fun _ _ _ h _ => (h.2.1.1.exchanged hdata _ _).1.mutated)
    fun _ _ h => (h.2.1.1.exchanged hdata _ _).1.mutated) fun _ => ?_
  refine spec_disk fun d₁ => spec_pre ?_ fun _ _ h => h.2
  have hmove : ∀ d : Disk τ, Restoring v j K d → Restoring v j K (onModule j.id
      (fun m => { m with data := none }) { d with displaced := (d.modules j.id).data }) := by
    intro d h
    exact (h.exchanged hdata d.restore (d.modules j.id).data).onModule (fun _ => rfl) fun m hm => hK m _ hm
  have hrest : Spec calm (fun d _ => Restoring v j K d ∧ d.restore = (v.modules j.id).data)
      (do
        tryCatch (renameRestore (τ := τ) j.id) fun
          | .thrown => do
            renameDisplacedBack j.id
            throw .thrown
          | .stopped => throw .stopped
        rmDisplaced) (fun _ d _ => DataBack v j K d) fun _ d _ => Mutated v j d := by
    refine spec_bind (Meets.tryCatch (spec_renameRestore hK hdata) fun halt => ?_) fun _ =>
      (spec_rmDisplaced hdata fun d displaced h => h).weaken (fun _ h => h)
        (fun _ _ h => ⟨⟨h.1.1.1, h.1.1.2, h.1.2⟩, h.2⟩) fun _ _ h => h
    cases halt with
    | thrown => exact spec_rethrow ((spec_renameDisplacedBack hK hdata).weaken (fun _ h => h)
        (fun _ _ h => ⟨fun _ => h.1.1.mutated, h.2⟩) fun _ _ h => ⟨h.1, h.2.1.mutated⟩)
    | stopped => exact Meets.throw fun _ h => ⟨h.1, h.2.1.mutated⟩
  split
  · exact spec_bind (spec_atomic (fun d _ h => ⟨hmove d h.1, h.2⟩) (fun d _ h _ => h.1.1.mutated)
      fun d _ h => (hmove d h.1).1.mutated) fun _ => hrest
  · exact hrest

/-- All files of the module are as they were; of the transaction only the backup is gone. -/
structure Restored (v : Visible τ) (j : TransactionJournal) (d : Disk τ) : Prop where
  saved : Saved v j d
  modules : d.modules = v.modules
  backup : d.backup = none
  restore : d.restore = none
  displaced : d.displaced = none

theorem Restored.mutated (h : Restored v j d) : Mutated v j d :=
  ⟨h.saved, .inr ⟨h.backup, fun _ => by rw [h.modules]⟩⟩

/-- What was said of the module's files one by one makes up the module. -/
theorem DataBack.restored (h : DataBack v j (fun m =>
    m.configBackup = (v.modules j.id).configBackup ∧ m.config = (v.modules j.id).config) d) :
    Restored v j d := by
  obtain ⟨⟨hfolded, ⟨hbackup, hconfig⟩, hdata⟩, hrestore, hdisplaced⟩ := h
  refine ⟨hfolded.saved, ?_, hfolded.backup, hrestore, hdisplaced⟩
  rw [hfolded.saved.others, Module.ext hfolded.folder hconfig hbackup hdata, Function.update_eq_self]

theorem spec_rmData (hnone : (v.modules j.id).data = none) (hK : ∀ m data, K m → K { m with data }) :
    Spec calm (fun d _ => Restoring v j K d) (rmData (τ := τ) j.id) (fun _ d _ => DataBack v j K d)
      fun _ d _ => Mutated v j d := by
  have hstep : ∀ (d : Disk τ) (data : Option τ), Restoring v j K d →
      Restoring v j K (onModule j.id (fun m => { m with data }) d) :=
    fun d data h => h.onModule (fun _ => rfl) fun m hm => hK m data hm
  refine spec_sysCall (fun d _ h => ⟨h.onModule (fun _ => rfl) fun m hm => ⟨hK m none hm, hnone.symm⟩,
    h.1.saved.exchange hnone⟩) (fun left d _ h _ => ?_) fun d _ h => (hstep d none h).1.mutated
  exact (hstep d ((d.modules j.id).data.bind fun _ => left.tree) h).1.mutated

theorem spec_restorePersistentFiles (hrecords : Records v j) :
    Spec calm (fun d _ => Folded v j d) (restorePersistentFiles (τ := τ) j)
      (fun _ d _ => Restored v j d) fun _ d _ => Mutated v j d := by
  rw [restorePersistentFiles]
  refine spec_bind (spec_assertSnapshotComplete hrecords fun _ _ h => h.saved.snapshot) fun _ =>
    spec_disk fun d₀ => spec_fact (φ := Saved v j d₀) ?_ fun hsaved => ?_
  · rintro d _ ⟨rfl, h⟩
    exact h.saved
  rw [hsaved.snapshot]
  refine spec_pre (N := fun d _ => Restoring v j (fun _ => True) d) ?_ fun _ _ h => ⟨h.2, trivial⟩
  have hbackup : Spec calm (fun d _ => Restoring v j (fun _ => True) d)
      (if j.configBackup = true then restorePrivateFile (τ := τ) j.id (v.modules j.id).configBackup
        fun text m => { m with configBackup := text } else rmConfigBackup j.id)
      (fun _ d _ => Restoring v j (fun m => m.configBackup = (v.modules j.id).configBackup) d)
      fun _ d _ => Mutated v j d :=
    spec_restoreFile hrecords.configBackup (fun _ _ => rfl) fun _ _ => rfl
  have hconfig : Spec calm
      (fun d _ => Restoring v j (fun m => m.configBackup = (v.modules j.id).configBackup) d)
      (if j.configPrimary = true then restorePrivateFile (τ := τ) j.id (v.modules j.id).config
        fun text m => { m with config := text } else rmConfig j.id)
      (fun _ d _ => Restoring v j (fun m => m.configBackup = (v.modules j.id).configBackup ∧
        m.config = (v.modules j.id).config) d) fun _ d _ => Mutated v j d :=
    spec_restoreFile hrecords.configPrimary (fun _ _ => rfl) fun _ h => ⟨h, rfl⟩
  have hexchange : Spec calm (fun d _ => Restoring v j (fun m =>
        m.configBackup = (v.modules j.id).configBackup ∧ m.config = (v.modules j.id).config) d)
      (if j.moduleData = true then restoreModuleData (τ := τ) j.id else rmData j.id)
      (fun _ d _ => DataBack v j (fun m =>
        m.configBackup = (v.modules j.id).configBackup ∧ m.config = (v.modules j.id).config) d)
      fun _ d _ => Mutated v j d := by
    split
    · rename_i hflag
      exact spec_restoreModuleData (fun _ _ h => h) (hrecords.moduleData.symm.trans hflag)
    · rename_i hflag
      rw [hrecords.moduleData] at hflag
      exact spec_rmData (Option.not_isSome_iff_eq_none.mp hflag) fun _ _ h => h
  exact spec_branch hbackup fun _ => spec_branch hconfig fun _ =>
    hexchange.weaken (fun _ h => h) (fun _ _ h => ⟨h.1.restored, h.2⟩) fun _ _ h => h

/-! ### The files of the transaction -/

theorem Kept.looks (h : Kept v j d) (h' : Kept v j d') (hlooks : committedLooksComplete j d = true) :
    committedLooksComplete j d' = true := by
  rw [committedLooksComplete, h'.modules, ← h.modules]
  exact hlooks

/-- From where on all that is left is to remove the files of the transaction. -/
theorem spec_removeTransactionArtifacts (hsettles : ∀ d, Kept v j d → Settles v d) :
    Spec calm (fun d _ => Kept v j d) (removeTransactionArtifacts (τ := τ)) (fun _ d _ => Clean v d)
      fun _ d _ => Settles v d := by
  have hcandidate : ∀ (d : Disk τ) candidate, Kept v j d → Kept v j { d with candidate } :=
    fun d _ h => h.same rfl rfl rfl rfl rfl
  have hbackup : ∀ (d : Disk τ) backup, Kept v j d → Kept v j { d with backup } :=
    fun d _ h => h.same rfl rfl rfl rfl rfl
  have hsnapshot : ∀ (d : Disk τ) snapshot, Kept v j d → Kept v j { d with snapshot } :=
    fun d _ h => h.same rfl rfl rfl rfl rfl
  have hclean : ∀ d : Disk τ, ((Kept v j d ∧ d.candidate = none) ∧ d.backup = none) ∧ d.snapshot = none →
      Clean v { d with journal := none } := fun d h =>
    ⟨h.1.1.1.modules, h.1.1.1.registry, h.1.1.2, h.1.2, h.1.1.1.restore, h.1.1.1.displaced, h.2, rfl⟩
  rw [removeTransactionArtifacts]
  refine spec_bind (M := fun _ d _ => Kept v j d ∧ d.candidate = none) (spec_sysCall
    (fun d _ h => ⟨hcandidate d none h, rfl⟩) (fun _ d _ h _ => hsettles _ (hcandidate d _ h))
    fun d _ h => hsettles _ (hcandidate d none h)) fun _ => ?_
  refine spec_bind (M := fun _ d _ => (Kept v j d ∧ d.candidate = none) ∧ d.backup = none) (spec_sysCall
    (fun d _ h => ⟨⟨hbackup d none h.1, h.2⟩, rfl⟩) (fun _ d _ h _ => hsettles _ (hbackup d _ h.1))
    fun d _ h => hsettles _ (hbackup d none h.1)) fun _ => ?_
  refine spec_bind (M := fun _ d _ =>
    ((Kept v j d ∧ d.candidate = none) ∧ d.backup = none) ∧ d.snapshot = none) (spec_sysCall
    (fun d _ h => ⟨⟨⟨hsnapshot d none h.1.1, h.1.2⟩, h.2⟩, rfl⟩)
    (fun _ d _ h _ => hsettles _ (hsnapshot d _ h.1.1))
    fun d _ h => hsettles _ (hsnapshot d none h.1.1)) fun _ => ?_
  exact spec_atomic (fun d _ h => hclean d h) (fun d _ h _ => hsettles d h.1.1.1)
    fun d _ h => .clean (hclean d h)

/-- A transaction that has not touched the module. -/
structure Untouched (v : Visible τ) (j : TransactionJournal) (d : Disk τ) : Prop where
  kept : Kept v j d
  phase : j.phase.isUntouched = true
  backup : d.backup = none

theorem Untouched.settles (h : Untouched v j d) : Settles v d := .untouched j h.kept h.phase h.backup

theorem Untouched.same (h : Untouched v j d) (hjournal : d'.journal = d.journal)
    (hmodules : d'.modules = d.modules) (hregistry : d'.registry = d.registry)
    (hbackup : d'.backup = d.backup) (hrestore : d'.restore = d.restore)
    (hdisplaced : d'.displaced = d.displaced) : Untouched v j d' :=
  ⟨h.kept.same hjournal hmodules hregistry hrestore hdisplaced, h.phase, hbackup.trans h.backup⟩

theorem spec_removeUntouchedTransaction :
    Spec calm (fun d _ => Untouched v j d) (removeUntouchedTransaction (τ := τ)) (fun _ d _ => Clean v d)
      fun _ d _ => Settles v d := by
  have hcandidate : ∀ (d : Disk τ) candidate, Untouched v j d → Untouched v j { d with candidate } :=
    fun d _ h => h.same rfl rfl rfl rfl rfl rfl
  have hsnapshot : ∀ (d : Disk τ) snapshot, Untouched v j d → Untouched v j { d with snapshot } :=
    fun d _ h => h.same rfl rfl rfl rfl rfl rfl
  have hclean : ∀ d : Disk τ, (Untouched v j d ∧ d.candidate = none) ∧ d.snapshot = none →
      Clean v { d with journal := none } := fun d ⟨⟨h, hcandidate⟩, hsnapshot⟩ =>
    ⟨h.kept.modules, h.kept.registry, hcandidate, h.backup, h.kept.restore, h.kept.displaced, hsnapshot,
      rfl⟩
  rw [removeUntouchedTransaction]
  refine spec_bind (M := fun _ d _ => Untouched v j d ∧ d.candidate = none) (spec_sysCall
    (fun d _ h => ⟨hcandidate d none h, rfl⟩) (fun _ d _ h _ => (hcandidate d _ h).settles)
    fun d _ h => (hcandidate d none h).settles) fun _ => ?_
  refine spec_bind (M := fun _ d _ => (Untouched v j d ∧ d.candidate = none) ∧ d.snapshot = none)
    (spec_sysCall (fun d _ h => ⟨⟨hsnapshot d none h.1, h.2⟩, rfl⟩)
    (fun _ d _ h _ => (hsnapshot d _ h.1).settles) fun d _ h => (hsnapshot d none h.1).settles) fun _ => ?_
  exact spec_atomic (fun d _ h => hclean d h) (fun d _ h _ => h.1.1.settles)
    fun d _ h => .clean (hclean d h)

/-- Before the journal says so, the rollback would be done again. -/
def Undone (v : Visible τ) (j : TransactionJournal) (d : Disk τ) : Prop :=
  Restored v j d ∧ d.registry = v.registry

theorem spec_writeModuleRegistry (hrecords : Records v j) (hphase : j.phase.isMutated = true) :
    Spec calm (fun d _ => Restored v j d) (writeModuleRegistry (τ := τ) v.registry)
      (fun _ d _ => Undone v j d) fun _ d _ => Settles v d := by
  have hregistry : ∀ d : Disk τ, Restored v j d → Restored v j { d with registry := v.registry } :=
    fun d h => ⟨h.saved.same rfl rfl rfl fun _ => ⟨rfl, rfl⟩, h.modules, h.backup, h.restore, h.displaced⟩
  exact spec_atomic (fun d _ h => ⟨hregistry d h, rfl⟩)
    (fun d _ h _ => .mutated j hrecords h.mutated hphase)
    fun d _ h => .mutated j hrecords (hregistry d h).mutated hphase

theorem spec_markRolledBack (hrecords : Records v j) (hphase : j.phase.isMutated = true) :
    Spec calm (fun d _ => Undone v j d)
      (do
        let _ ← writeJournal (τ := τ) j .rolledBack
        removeTransactionArtifacts) (fun _ d _ => Clean v d) fun _ d _ => Settles v d := by
  have hkept : ∀ d : Disk τ, Undone v j d →
      Kept v { j with phase := .rolledBack } { d with journal := some { j with phase := .rolledBack } } :=
    fun d h => ⟨rfl, h.1.modules, h.2, h.1.restore, h.1.displaced⟩
  refine spec_bind (M := fun _ d _ => Kept v { j with phase := .rolledBack } d) ?_ fun _ =>
    spec_removeTransactionArtifacts fun _ h => .rolledBack _ h rfl
  rw [writeJournal]
  exact spec_bind (spec_atomic (fun d _ h => hkept d h)
    (fun d _ h _ => .mutated j hrecords h.1.mutated hphase)
    fun d _ h => .rolledBack _ (hkept d h) rfl) fun _ => spec_pure fun _ _ h => h

/-! ### The recovery -/

theorem isUntouched_mayHaveMutated {phase : TransactionPhase} (h : phase.isUntouched = true) :
    phaseMayHaveMutatedState phase = false := by
  cases phase <;> first | rfl | cases h

theorem isMutated_mayHaveMutated {phase : TransactionPhase} (h : phase.isMutated = true) :
    phaseMayHaveMutatedState phase = true := by
  cases phase <;> first | rfl | cases h

theorem committedLooksComplete_phase (h : committedLooksComplete j d = true) : j.phase = .committed := by
  rw [committedLooksComplete, Bool.and_eq_true] at h
  exact of_decide_eq_true h.1

theorem spec_recoverTransaction_untouched : Spec calm (fun d _ => Untouched v j d)
    (recoverTransaction (τ := τ) j) (fun _ d _ => Clean v d) fun _ d _ => Settles v d := by
  rw [recoverTransaction]
  refine spec_bind (spec_idle fun _ _ h _ => h.settles) fun _ => spec_disk fun d₀ =>
    spec_fact (φ := j.phase.isUntouched = true) (fun _ _ h => h.2.phase) fun hphase => ?_
  rw [if_neg, if_neg, if_pos (isUntouched_mayHaveMutated hphase)]
  · exact spec_pre spec_removeUntouchedTransaction fun _ _ h => h.2
  · intro h
    rw [h] at hphase
    cases hphase
  · intro h
    rw [committedLooksComplete_phase h] at hphase
    cases hphase

theorem spec_recoverTransaction_mutated (hrecords : Records v j) (hphase : j.phase.isMutated = true) :
    Spec calm (fun d _ => Mutated v j d) (recoverTransaction (τ := τ) j) (fun _ d _ => Clean v d)
      fun _ d _ => Settles v d := by
  have hmutated : ∀ {α : Type} {x : Program τ α} {P : Assertion τ} {Q : α → Assertion τ},
      Spec calm P x Q (fun _ d _ => Mutated v j d) → Spec calm P x Q fun _ d _ => Settles v d :=
    fun hx => hx.weaken (fun _ h => h) (fun _ _ h => h) fun _ _ h => ⟨h.1, .mutated j hrecords h.2 hphase⟩
  rw [recoverTransaction]
  refine spec_bind (hmutated (spec_idle fun _ _ h _ => h)) fun _ => spec_disk fun d₀ => ?_
  rw [if_neg, if_neg, if_neg, hrecords.registry]
  · refine spec_pre (N := fun d _ => Mutated v j d) ?_ fun _ _ h => h.2
    exact spec_bind (hmutated (spec_restoreModuleFolder hrecords)) fun _ =>
      spec_bind (hmutated (spec_restorePersistentFiles hrecords)) fun _ =>
        spec_bind (spec_writeModuleRegistry hrecords hphase) fun _ => spec_markRolledBack hrecords hphase
  · rw [isMutated_mayHaveMutated hphase]
    exact Bool.noConfusion
  · intro h
    rw [h] at hphase
    cases hphase
  · intro h
    rw [committedLooksComplete_phase h] at hphase
    cases hphase

theorem spec_recoverTransaction_kept (hsettles : ∀ d, Kept v j d → Settles v d)
    (hover : ∀ d, Kept v j d → committedLooksComplete j d = true ∨ j.phase = .rolledBack) :
    Spec calm (fun d _ => Kept v j d) (recoverTransaction (τ := τ) j) (fun _ d _ => Clean v d)
      fun _ d _ => Settles v d := by
  rw [recoverTransaction]
  refine spec_bind (spec_idle fun d _ h _ => hsettles d h) fun _ => spec_disk fun d₀ =>
    spec_fact (φ := committedLooksComplete j d₀ = true ∨ j.phase = .rolledBack) ?_ fun hover => ?_
  · rintro d _ ⟨rfl, h⟩
    exact hover d h
  refine spec_pre (N := fun d _ => Kept v j d) ?_ fun _ _ h => h.2
  obtain hlooks | hphase := hover
  · rw [if_pos hlooks]
    exact spec_removeTransactionArtifacts hsettles
  · rw [if_pos hphase, ite_self]
    exact spec_removeTransactionArtifacts hsettles

/-- However often the recovery is cut short, and wherever: the files still settle to the same modules. -/
theorem spec_recoverPendingTransactions (calm : Prop) (v : Visible τ) :
    Spec calm (fun d _ => Settles v d) (recoverPendingTransactions (τ := τ)) (fun _ d _ => Clean v d)
      fun _ d _ => Settles v d := by
  rw [recoverPendingTransactions]
  refine spec_disk fun d₀ => ?_
  have hsome : ∀ {j : TransactionJournal} {P : Assertion τ}, d₀.journal = some j →
      Spec calm P (recoverTransaction j) (fun _ d _ => Clean v d) (fun _ d _ => Settles v d) →
      Spec calm P (match d₀.journal with
        | none => pure 0
        | some journal => do
          recoverTransaction journal
          return 1) (fun (_ : Nat) d _ => Clean v d) fun _ d _ => Settles v d := by
    intro j P hj hx
    rw [hj]
    exact spec_bind hx fun _ => spec_pure fun _ _ h => h
  rintro w ⟨⟨rfl, hsettles⟩, hcalm⟩
  cases hsettles with
  | clean h =>
    rw [h.journal]
    exact ⟨h, hcalm⟩
  | untouched j h hphase hbackup =>
    exact hsome h.journal spec_recoverTransaction_untouched w ⟨⟨h, hphase, hbackup⟩, hcalm⟩
  | mutated j hrecords h hphase =>
    exact hsome h.saved.journal (spec_recoverTransaction_mutated hrecords hphase) w ⟨h, hcalm⟩
  | rolledBack j h hphase =>
    exact hsome h.journal (spec_recoverTransaction_kept (fun d h => .rolledBack j h hphase)
      fun _ _ => .inr hphase) w ⟨h, hcalm⟩
  | committed j h hlooks =>
    exact hsome h.journal (spec_recoverTransaction_kept
      (fun d h' => .committed j h' (h.looks h' hlooks)) fun d h' => .inl (h.looks h' hlooks)) w ⟨h, hcalm⟩

end BoredManager.Server.Transactions
