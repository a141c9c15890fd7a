import BoredManager.Js.Stringify
import Mathlib.Data.List.Sort

/-! The per-router document of the module: its records, the trimming of its rings,
the two serializations and the flush. `numberText` is `Number.prototype.toString`
with its radix. -/
namespace BoredManager.OpenWrt.Store
open BoredManager.Js hiding trim

structure PppoeBatchRecord where
  id : Text
  name : Text
  namePrefix : Text
  carrier : Text
  vlan : Option ℚ
  createdAt : ℚ
  count : ℚ
  seqFrom : ℚ
  seqTo : ℚ
deriving DecidableEq

structure BindingInstanceRecord where
  id : Text
  name : Text
  lan : Text
  carrier : Text
  running : Bool
  sticky : Bool
  remap : Bool
  createdAt : ℚ
  slot : ℚ
deriving DecidableEq

structure StoredJobItem where
  idx : ℚ
  name : Text
  status : Text
  message : Option Text
  ms : Option ℚ
deriving DecidableEq

structure FinishedJob where
  id : Text
  kind : Text
  label : Text
  state : Text
  startedAt : ℚ
  finishedAt : ℚ
  total : ℚ
  done : ℚ
  failed : ℚ
  progressPct : ℚ
  items : List StoredJobItem
deriving DecidableEq

structure StickyEntry where
  instanceId : Text
  mac : Text
  wanName : Text
  lastSeenTs : ℚ
deriving DecidableEq

structure EventEntry where
  instanceId : Text
  t : ℚ
  kind : Text
  text : Text
deriving DecidableEq

structure OwrtHostData where
  nextSeq : ℚ
  batches : List PppoeBatchRecord
  instances : List BindingInstanceRecord
  extraTables : List (Text × ℚ)
  stickyMap : List StickyEntry
  events : List EventEntry
  jobs : List FinishedJob
deriving DecidableEq

/-- The rules that trimming reads. -/
structure TrimRules where
  maxEvents : Nat
  stickyCap : Nat
deriving DecidableEq

def persistTargetBytes : Nat := 512000
def maxFinishedJobs : Nat := 10
def maxFinishedJobItems : Nat := 30

/-! The document as a JSON value. -/

def jsonNumber (q : ℚ) : Json := .num (.fin q)

/-- A property that is left out where the value is `undefined`. -/
def optionalField (key : String) (value : Option Json) : List (Text × Json) :=
  (value.map fun v => (js key, v)).toList

def PppoeBatchRecord.toJson (batch : PppoeBatchRecord) : Json := .obj (
  [(js "id", .str batch.id), (js "name", .str batch.name), (js "prefix", .str batch.namePrefix),
    (js "carrier", .str batch.carrier)] ++ optionalField "vlan" (batch.vlan.map jsonNumber) ++
  [(js "createdAt", jsonNumber batch.createdAt), (js "count", jsonNumber batch.count),
    (js "seqFrom", jsonNumber batch.seqFrom), (js "seqTo", jsonNumber batch.seqTo)])

def BindingInstanceRecord.toJson (record : BindingInstanceRecord) : Json := .obj [
  (js "id", .str record.id), (js "name", .str record.name), (js "lan", .str record.lan),
  (js "carrier", .str record.carrier), (js "running", .bool record.running),
  (js "sticky", .bool record.sticky), (js "remap", .bool record.remap),
  (js "createdAt", jsonNumber record.createdAt), (js "slot", jsonNumber record.slot)]

def StoredJobItem.toJson (item : StoredJobItem) : Json := .obj (
  [(js "idx", jsonNumber item.idx), (js "name", .str item.name), (js "status", .str item.status)] ++
  optionalField "message" (item.message.map Json.str) ++
  optionalField "ms" (item.ms.map jsonNumber))

def FinishedJob.toJson (job : FinishedJob) : Json := .obj [
  (js "id", .str job.id), (js "kind", .str job.kind), (js "label", .str job.label),
  (js "state", .str job.state), (js "startedAt", jsonNumber job.startedAt),
  (js "finishedAt", jsonNumber job.finishedAt), (js "total", jsonNumber job.total),
  (js "done", jsonNumber job.done), (js "failed", jsonNumber job.failed),
  (js "progressPct", jsonNumber job.progressPct),
  (js "items", .arr (job.items.map StoredJobItem.toJson))]

def StickyEntry.toJson (entry : StickyEntry) : Json :=
  .arr [.str entry.instanceId, .str entry.mac, .str entry.wanName, jsonNumber entry.lastSeenTs]

def EventEntry.toJson (event : EventEntry) : Json :=
  .arr [.str event.instanceId, jsonNumber event.t, .str event.kind, .str event.text]

/-- The document, its sticky entries under `key` as `sticky`. -/
def OwrtHostData.document (data : OwrtHostData) (key : String) (sticky : List Json) : Json := .obj [
  (js "version", jsonNumber 1), (js "nextSeq", jsonNumber data.nextSeq),
  (js "batches", .arr (data.batches.map PppoeBatchRecord.toJson)),
  (js "instances", .arr (data.instances.map BindingInstanceRecord.toJson)),
  (js "extraTables", .arr (data.extraTables.map fun e => .arr [.str e.1, jsonNumber e.2])),
  (js key, .arr sticky),
  (js "events", .arr (data.events.map EventEntry.toJson)),
  (js "jobs", .arr (data.jobs.map FinishedJob.toJson))]

/-- What `hostDataSet` is given. -/
def OwrtHostData.toJson (data : OwrtHostData) : Json :=
  data.document "stickyMap" (data.stickyMap.map StickyEntry.toJson)

section
variable (numberText : Nat → ℚ → Text)

def packSticky (entry : StickyEntry) : Text :=
  entry.instanceId ++ js "|" ++ entry.mac.filter (· != 58) ++ js "|" ++ entry.wanName ++ js "|" ++
    numberText 36 (max 0 (Number.truncRat entry.lastSeenTs))

/-- What `serializedBytes` measures. -/
def serializeHostData (data : OwrtHostData) : Json :=
  data.document "stickyPacked" (data.stickyMap.map fun entry => .str (packSticky numberText entry))

def serializedBytes (data : OwrtHostData) : Nat :=
  utf8Length (stringify (numberText 10) (serializeHostData numberText data))

/-- The length of what a write of the document puts in the file. -/
def writtenBytes (data : OwrtHostData) : Nat :=
  utf8Length (stringify (numberText 10) data.toJson)

end

def StickyEntry.key (entry : StickyEntry) : Text := entry.instanceId ++ 0 :: entry.mac

/-- The entries whose key has not been seen. -/
def firstByKey (seen : List Text) : List StickyEntry → List StickyEntry
  | [] => []
  | entry :: entries =>
    if entry.key ∈ seen then firstByKey seen entries
    else entry :: firstByKey (entry.key :: seen) entries

/-- Newest first, one entry for each instance and address. -/
def newestSticky (data : OwrtHostData) : List StickyEntry :=
  firstByKey [] (data.stickyMap.mergeSort fun a b => decide (b.lastSeenTs ≤ a.lastSeenTs))

/-- `list.slice(-n)` -/
def sliceLast {α : Type} (n : Nat) (l : List α) : List α :=
  if n = 0 then l else l.drop (l.length - n)

def trim (data : OwrtHostData) (rules : TrimRules) (aggressive : Bool) : OwrtHostData :=
  let eventCap := if aggressive then min 20 rules.maxEvents else max 10 rules.maxEvents
  let jobCap := if aggressive then 3 else maxFinishedJobs
  let itemCap := if aggressive then 8 else maxFinishedJobItems
  { data with
    stickyMap := (newestSticky data).take (max 100 rules.stickyCap)
    events := if eventCap < data.events.length then sliceLast eventCap data.events else data.events
    jobs := (data.jobs.take jobCap).map fun job => { job with items := job.items.take itemCap } }

/-- `Math.max(100, Math.floor(keep * 0.85))`; the rounding of the product does not
reach a whole number that the exact one does not. -/
def shrink (keep : Nat) : Nat := max 100 (keep * 17 / 20)

theorem shrink_lt {keep : Nat} (h : 100 < keep) : shrink keep < keep := by
  unfold shrink
  omega

section
variable (numberText : Nat → ℚ → Text)

def OwrtHostData.keepSticky (data : OwrtHostData) (ranked : List StickyEntry) (keep : Nat) :
    OwrtHostData :=
  { data with stickyMap := ranked.take keep }

/-- The loop of `fitHostData`: the first length that fits its target, or a hundred. -/
def fitLoop (data : OwrtHostData) (ranked : List StickyEntry) (keep : Nat) : OwrtHostData :=
  if _h : 100 < keep then
    if serializedBytes numberText (data.keepSticky ranked keep) ≤ persistTargetBytes then
      data.keepSticky ranked keep
    else fitLoop data ranked (shrink keep)
  else data.keepSticky ranked 100
termination_by keep
decreasing_by exact shrink_lt _h

/-- Drop expendable rings first, then shrink sticky newest-first until it fits. -/
def fitHostData (data : OwrtHostData) (rules : TrimRules) : OwrtHostData :=
  let data := trim data rules true
  if serializedBytes numberText data ≤ persistTargetBytes then data
  else
    let ranked := newestSticky data
    fitLoop numberText data ranked ranked.length

def moduleJsonMaxBytes : Nat := 524288

/-- `writeCappedJson`: the text of the file, or an error. -/
def writeCappedJson (value : Json) : Except Text Text :=
  let text := stringify (numberText 10) value
  if moduleJsonMaxBytes < utf8Length text then .error (js "payload is larger than 512 KB")
  else .ok text

/-- The store, with the file it writes. -/
structure HostStore where
  cache : Option OwrtHostData
  cachedFor : Option Text
  dirty : Bool
  file : Option Text

/-- `ctx.hostDataSet(data)` within `flush`: the file is replaced, or the write throws. -/
def HostStore.hostDataSet (store : HostStore) (data : OwrtHostData) : Except Text HostStore :=
  (writeCappedJson numberText data.toJson).map fun text =>
    { store with cache := some data, dirty := false, file := some text }

def HostStore.flush (store : HostStore) (hostKey : Option Text) (rules : TrimRules) : HostStore :=
  match store.cache with
  | none => store
  | some data =>
    if !store.dirty || store.cachedFor != hostKey then store
    else
      let data := trim data rules false
      match store.hostDataSet numberText data with
      | .ok written => written
      | .error _ =>
        let data := fitHostData numberText data rules
        match store.hostDataSet numberText data with
        | .ok written => written
        | .error _ => { store with cache := some data }

end

end BoredManager.OpenWrt.Store
