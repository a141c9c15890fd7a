import BoredManager.OpenWrt.Uci
import BoredManager.OpenWrt.JobRuns

/-! PPPoE batches: the create job and the delete job of a batch, and the section
names that their UCI chunks write to the router. -/
namespace BoredManager.OpenWrt
open BoredManager.Js BoredManager.Machine

variable {α : Type*}

def maxPppoeChunks : Nat := 100

def hardMaxBatchRows : Nat := 5000

/-- `Math.max(1, Math.trunc(size) || 1)` of a whole size. -/
def chunkSizeOf (size : Int) : Nat := (max 1 (if size = 0 then 1 else size)).toNat

def chunkFrom (size : Nat) : Nat → List α → List (List α)
  | 0, _ => []
  | _, [] => []
  | fuel + 1, values => values.take size :: chunkFrom size fuel (values.drop size)

def chunkValues (values : List α) (size : Int) : List (List α) :=
  chunkFrom (chunkSizeOf size) values.length values

/-- Honour the configured size while enforcing a bounded live job payload. -/
def effectivePppoeChunkSize (rowCount : Nat) (requested : Int) : Nat :=
  max (chunkSizeOf requested) (max 1 ((rowCount + (maxPppoeChunks - 1)) / maxPppoeChunks))

structure PppoeUciChunk where
  index : Nat
  total : Nat
  seqFrom : Int
  seqTo : Int
  sections : List Text
  lines : List Text
deriving DecidableEq

/-- The lines of one chunk, and the VLANs described so far. -/
def chunkLines (carrier : Text) :
    List Int → List PppoeSectionPlan → Except Text (List Text × List Int)
  | emitted, [] => .ok ([], emitted)
  | emitted, plan :: plans =>
    match plan.vlan with
    | some vlan =>
      if vlan ∈ emitted then do
        let rest ← chunkLines carrier emitted plans
        .ok (plan.lines ++ rest.1, rest.2)
      else do
        let device ← vlanLines carrier vlan
        let rest ← chunkLines carrier (vlan :: emitted) plans
        .ok (device ++ plan.lines ++ rest.1, rest.2)
    | none => do
      let rest ← chunkLines carrier emitted plans
      .ok (plan.lines ++ rest.1, rest.2)

/-- The body of the `chunks.map` in `planPppoeChunks`; a chunk is never empty. -/
def planChunksFrom (carrier : Text) (total : Nat) :
    Nat → List Int → List (List PppoeSectionPlan) → Except Text (List PppoeUciChunk)
  | _, _, [] => .ok []
  | index, emitted, chunk :: chunks => do
    let (lines, emitted) ← chunkLines carrier emitted chunk
    let rest ← planChunksFrom carrier total (index + 1) emitted chunks
    .ok ({
      index := index + 1, total, lines
      seqFrom := (chunk.head?.map PppoeSectionPlan.seq).getD 0
      seqTo := (chunk.getLast?.map PppoeSectionPlan.seq).getD 0
      sections := chunk.map PppoeSectionPlan.section_ } :: rest)

def planPppoeChunks (rows : List PppoeInputRow) (options : PppoeBuildOptions)
    (requestedChunkSize : Int) : Except Text (List PppoeUciChunk) := do
  let sections ← buildPppoeSections rows options
  let chunks := chunkValues sections (effectivePppoeChunkSize sections.length requestedChunkSize)
  planChunksFrom options.carrier chunks.length 0 [] chunks

/-- `/^[A-Za-z0-9_]+$/` of at most fifteen units. -/
def isManagedSectionName (value : Text) : Bool :=
  value ≠ [] && value.all (fun u => isAlnum u || u == 95) && decide (value.length ≤ 15)

/-- The sections that `buildDeletePppoeLines` deletes. -/
def checkedSections (names : List Text) : List Text :=
  (names.filter isManagedSectionName).eraseDups

structure PppoeBatchRecord where
  id : Text
  name : Text
  ifacePrefix : Text
  carrier : Text
  vlan : Option Number
  createdAt : Int
  count : Nat
  seqFrom : Nat
  seqTo : Nat

def batchSequences (batch : PppoeBatchRecord) : List Nat :=
  let seqFrom := max 1 batch.seqFrom
  let available := batch.seqTo + 1 - seqFrom
  let count := min hardMaxBatchRows (min available
    (if batch.count = 0 then available else batch.count))
  ((List.range count).map fun index => seqFrom + index).filter fun seq => seq ≤ 99999

def allBatchNames (batch : PppoeBatchRecord) : Except Text (List Text) :=
  (batchSequences batch).mapM fun (seq : Nat) => pppoeSectionName batch.ifacePrefix (.ofInt seq)

/-- A plan that `check` froze: it has rows, at most the hard limit of them, and a
range of one sequence each. -/
structure FrozenBatchPlan where
  name : Text
  carrier : Text
  ifacePrefix : Text
  vlan : Option Number
  rows : List PppoeInputRow
  seqFrom : Nat
  seqTo : Nat
  tableBase : Number
  uciChunkSize : Int
  rows_ne : rows ≠ []
  rows_le : rows.length ≤ hardMaxBatchRows
  seqFrom_pos : 1 ≤ seqFrom
  seqTo_eq : seqTo + 1 = seqFrom + rows.length

namespace FrozenBatchPlan

def options (plan : FrozenBatchPlan) : PppoeBuildOptions :=
  ⟨plan.ifacePrefix, plan.carrier, .ofInt plan.seqFrom, plan.tableBase, plan.vlan⟩

def chunks (plan : FrozenBatchPlan) : Except Text (List PppoeUciChunk) :=
  planPppoeChunks plan.rows plan.options plan.uciChunkSize

/-- The section names of the batch; none when the plan is refused. -/
def names (plan : FrozenBatchPlan) : List Text :=
  match plan.chunks with
  | .ok chunks => chunks.flatMap PppoeUciChunk.sections
  | .error _ => []

def record (plan : FrozenBatchPlan) (id : Text) (now : Int) : PppoeBatchRecord where
  id
  name := plan.name
  ifacePrefix := plan.ifacePrefix
  carrier := plan.carrier
  vlan := plan.vlan
  createdAt := now
  count := plan.rows.length
  seqFrom := plan.seqFrom
  seqTo := plan.seqTo

end FrozenBatchPlan

/-- The work of one job item. -/
inductive PppoeWork
  | applyChunk (chunk : PppoeUciChunk)
  | configureFirewall
  | verifyInterfaces (names : List Text)
  | inspectDevices
  | stopWave (names : List Text)
  | deleteChunk (names : List Text)
  | cleanVlans
deriving DecidableEq

def connectionsLabel (title name : Text) (count : Nat) : Text :=
  title ++ js " batch " ++ name ++ js " (" ++ decimal count ++ js " connections)"

def createSpec (batch : PppoeBatchRecord) (zoneName : Text) (chunks : List PppoeUciChunk) :
    JobSpec PppoeWork where
  kind := js "pppoe-create"
  label := connectionsLabel (js "Create") batch.name batch.count
  onError := .abort
  items :=
    (chunks.map fun chunk =>
      ⟨js "Apply PPPoE chunk " ++ decimal chunk.index ++ js "/" ++ decimal chunk.total ++
        js " (" ++ decimalInt chunk.seqFrom ++ js "-" ++ decimalInt chunk.seqTo ++ js ")",
        .applyChunk chunk⟩) ++
    [⟨js "Configure firewall zone " ++ zoneName, .configureFirewall⟩,
     ⟨js "Verify " ++ decimal (chunks.flatMap PppoeUciChunk.sections).length ++
        js " PPPoE interfaces", .verifyInterfaces (chunks.flatMap PppoeUciChunk.sections)⟩]

def numbered (title : Text) (work : List Text → PppoeWork) (waves : List (List Text)) :
    List (JobItemSpec PppoeWork) :=
  waves.mapIdx fun index wave =>
    ⟨title ++ decimal (index + 1) ++ js "/" ++ decimal waves.length, work wave⟩

def deleteSpec (batch : PppoeBatchRecord) (waves : List (List Text)) : JobSpec PppoeWork where
  kind := js "pppoe-delete"
  label := connectionsLabel (js "Delete") batch.name batch.count
  onError := .abort
  items :=
    ⟨js "Inspect batch VLAN devices", .inspectDevices⟩ ::
    numbered (js "Stop batch wave ") .stopWave waves ++
    numbered (js "Delete UCI chunk ") .deleteChunk waves ++
    [⟨js "Clean unused VLAN devices and reload", .cleanVlans⟩]

/-- The manager and the router, for one batch: `batches` holds its record, and `uci`
the names of its sections in the network package. `committed` names the jobs whose
command in flight has written all of its chunk. -/
structure PppoeManager where
  sys : JobSystem PppoeWork
  taken : Bool
  batches : List PppoeBatchRecord
  nextSeq : Nat
  deleting : List Text
  deleteJobs : List (Nat × Text)
  committed : List Nat
  uci : List Text

inductive PppoeEvent
  | apply (id : Text) (draws : Nat → Int × Text) (now : Int) (faults : Faults)
  | batchDelete (id : Text) (draws : Nat → Int × Text) (now : Int) (faults : Faults)
  | write (key : Nat) (written : List Text)
  | settle (key : Nat) (outcome : Except Text (Option Text)) (now : Int) (faults : Faults)
  | cancel (id : Text)

namespace PppoeManager

def init (history : List OpenWrtJob) (nextSeq : Nat) : PppoeManager :=
  ⟨JobSystem.init history, false, [], nextSeq, [], [], [], []⟩

/-- The hook of a delete job that the step just finished. -/
def onFinished (s : PppoeManager) : List (Action PppoeWork) → PppoeManager
  | .onFinished key job :: _ =>
    match s.deleteJobs.lookup key with
    | some id => { s with
        deleting := s.deleting.filter fun other => decide (other ≠ id)
        batches := if job.state = .done then s.batches.filter fun batch => decide (batch.id ≠ id)
          else s.batches }
    | none => s
  | _ => s

/-- `apply`, after its checks passed: the batch is recorded, then its job starts. -/
def apply (plan : FrozenBatchPlan) (zoneName : Text) (s : PppoeManager) (id : Text)
    (draws : Nat → Int × Text) (now : Int) (faults : Faults) : PppoeManager :=
  if s.taken then s
  else match plan.chunks with
    | .error _ => { s with taken := true }
    | .ok chunks =>
      let batch := plan.record id now
      let spec := createSpec batch zoneName chunks
      let recorded := s.batches ++ [batch]
      { s with
        sys := s.sys.step (.start spec draws now faults)
        taken := true
        nextSeq := max s.nextSeq (plan.seqTo + 1)
        batches := if (s.sys.jobs.start spec draws now faults).2.2.isSome then recorded
          else recorded.filter fun entry => decide (entry.id ≠ id) }

def batchDelete (plan : FrozenBatchPlan) (s : PppoeManager) (id : Text)
    (draws : Nat → Int × Text) (now : Int) (faults : Faults) : PppoeManager :=
  match s.batches.find? fun batch => decide (batch.id = id) with
  | none => s
  | some batch =>
    if id ∈ s.deleting then s
    else match allBatchNames batch with
      | .error _ => { s with deleting := s.deleting ++ [id] }
      | .ok names =>
        let waves := chunkValues names (effectivePppoeChunkSize names.length plan.uciChunkSize)
        let spec := deleteSpec batch waves
        let started := s.sys.jobs.start spec draws now faults
        let after := { s with sys := s.sys.step (.start spec draws now faults) }
        if started.2.2.isSome then
          onFinished { after with
            deleting := s.deleting ++ [id]
            deleteJobs := (s.sys.jobs.nextKey, id) :: s.deleteJobs } started.2.1
        else after

/-- The work that a job waits for. -/
def inFlight (s : PppoeManager) (key : Nat) : Option PppoeWork :=
  match s.sys.jobs.runs.get? key with
  | some j => if j.waiting then j.works.head? else none
  | none => none

/-- The command in flight writes some of its chunk's sections. -/
def write (s : PppoeManager) (key : Nat) (written : List Text) : PppoeManager :=
  match s.inFlight key with
  | some (.applyChunk chunk) => { s with
      uci := s.uci ++ chunk.sections.filter fun name => decide (name ∈ written ∧ name ∉ s.uci)
      committed := if chunk.sections.all fun name => decide (name ∈ written)
        then key :: s.committed else s.committed }
  | some (.deleteChunk names) => { s with
      uci := s.uci.filter fun name => decide (¬ (name ∈ checkedSections names ∧ name ∈ written))
      committed := if (checkedSections names).all fun name => decide (name ∈ written)
        then key :: s.committed else s.committed }
  | _ => s

def isUciChunk : Option PppoeWork → Bool
  | some (.applyChunk _) | some (.deleteChunk _) => true
  | _ => false

/-- No item of these jobs throws the runner's own `CancelledError`. -/
def outcomeOf : Except Text (Option Text) → Outcome
  | .ok note => .ok note
  | .error message => .error message

/-- A UCI chunk succeeds only after it was written. -/
def settle (s : PppoeManager) (key : Nat) (outcome : Except Text (Option Text)) (now : Int)
    (faults : Faults) : PppoeManager :=
  if isUciChunk (s.inFlight key) && outcome.isOk && decide (key ∉ s.committed) then s
  else
    let result := outcomeOf outcome
    onFinished { s with
      sys := s.sys.step (.settle key result now faults)
      committed := s.committed.filter fun other => decide (other ≠ key) }
      (s.sys.jobs.settle key result now faults).2

def step (plan : FrozenBatchPlan) (zoneName : Text) (s : PppoeManager) :
    PppoeEvent → PppoeManager
  | .apply id draws now faults => apply plan zoneName s id draws now faults
  | .batchDelete id draws now faults => batchDelete plan s id draws now faults
  | .write key written => s.write key written
  | .settle key outcome now faults => s.settle key outcome now faults
  | .cancel id => { s with sys := s.sys.step (.cancel id) }

def isApply : PppoeWork → Bool
  | .applyChunk _ => true
  | _ => false

/-- A job still has to write, or is writing, a chunk of the batch. -/
def CreatePending (s : PppoeManager) : Prop :=
  ∃ key j, s.sys.jobs.runs.get? key = some j ∧ j.waiting = true ∧ ∃ w ∈ j.works, isApply w = true

/-- Deletes are asked for only when no chunk of the create job is left; job ids are
drawn unused. -/
def DeletesAfterCreate (s : PppoeManager) : PppoeEvent → Prop
  | .apply _ draws _ _ => ∃ attempt < 50, jobIdText (draws attempt) ∉ s.sys.jobs.takenIds
  | .batchDelete _ draws _ _ => ¬ s.CreatePending ∧
      ∃ attempt < 50, jobIdText (draws attempt) ∉ s.sys.jobs.takenIds
  | _ => True

/-- Once the record of the batch is gone, no section of it is left. -/
def NoOrphans (s : PppoeManager) : Prop :=
  s.taken = true → s.batches = [] → s.uci = []

end PppoeManager
end BoredManager.OpenWrt
