import BoredManager.Gpu.MetricRows
import BoredManager.Js.OrderedMap

/-! The GPU monitor's stream: rows are grouped into batches, and each batch waits for the query of
the GPU processes before it is published. What runs between two awaits is one step. -/
namespace BoredManager.Gpu.Stream
open BoredManager.Js

/-- A stream that was asked for. The number of the attempt names it, and its handle. -/
structure Launch where
  generation : Nat
  attempt : Nat
deriving DecidableEq

/-- Rows of an attempt. `first` is the place of the first one among the attempt's rows; the code does
not have it. -/
structure Batch where
  attempt : Nat
  rows : List Text
  first : Nat

structure GpuProcess where
  gpuIndex : ℚ
  pid : ℚ
  name : Text
  memMiB : ℚ

structure GpuSnapshot where
  t : Nat
  available : Bool
  gpus : List GpuInfo
  processes : List GpuProcess

/-- Where `drainStreamSamples` waits: for the process query of a batch, or for `sampleStreamRows` to
come back. -/
inductive Drain where
  | querying (generation : Nat) (batch : Batch) (includeUuids : Bool)
  | returned (generation : Nat) (published : Bool)

/-- `drain` is there as long as `streamSampleRunning` is true. The last six fields watch the run: the
streams that have not answered, those whose output is listened to, what each attempt has printed,
how many rows of the attempt have left `streamRows`, the process queries that are over, and what was
published, with the batch that it comes from. -/
structure GpuService where
  metricsIntervalMs : Nat
  metricsGeneration : Nat
  streamAttempt : Nat
  streamHandle : Option Launch
  streamStarting : Bool
  streamFailures : Nat
  fallbackSession : Bool
  restartTimer : Option Launch
  watchdogTimer : Option Launch
  batchTimer : Option Launch
  streamBuffer : Text
  streamRows : List Text
  streamIndexes : List ℚ
  queuedGpuRows : Option Batch
  drain : Option Drain
  uuidToIndex : OrderedMap Text ℚ
  uuidRefreshNeeded : Bool
  pending : List Launch
  listeners : List Launch
  output : Nat → Text
  taken : Nat
  queries : List (Batch × Bool)
  published : List (Batch × GpuSnapshot)

namespace GpuService

def new : GpuService where
  metricsIntervalMs := 0
  metricsGeneration := 0
  streamAttempt := 0
  streamHandle := none
  streamStarting := false
  streamFailures := 0
  fallbackSession := false
  restartTimer := none
  watchdogTimer := none
  batchTimer := none
  streamBuffer := []
  streamRows := []
  streamIndexes := []
  queuedGpuRows := none
  drain := none
  uuidToIndex := .empty
  uuidRefreshNeeded := true
  pending := []
  listeners := []
  output := fun _ => []
  taken := 0
  queries := []
  published := []

variable (s : GpuService)

/-! ### Starting and stopping -/

/-- What is read and not yet sampled is forgotten, and what is being sampled is out of date. -/
def forget : GpuService := {
  s with
  streamAttempt := s.streamAttempt + 1
  watchdogTimer := none
  batchTimer := none
  streamBuffer := []
  streamRows := []
  streamIndexes := []
  queuedGpuRows := none
  taken := 0 }

def stopMetrics : GpuService := {
  s.forget with
  metricsGeneration := s.metricsGeneration + 1
  metricsIntervalMs := 0
  streamStarting := false
  restartTimer := none
  streamHandle := none }

def launchStream (generation : Nat) : GpuService :=
  if generation ≠ s.metricsGeneration ∨ s.metricsIntervalMs = 0 ∨ s.fallbackSession = true then s
  else {
    s with
    streamStarting := true
    streamAttempt := s.streamAttempt + 1
    pending := ⟨generation, s.streamAttempt + 1⟩ :: s.pending }

def startMetrics (intervalMs : ℚ) : GpuService :=
  let wanted := (max 100 (Number.truncRat intervalMs)).toNat
  if intervalMs ≤ 0 then s.stopMetrics
  else if s.metricsIntervalMs = wanted ∧ (s.fallbackSession || s.streamHandle.isSome ||
      s.streamStarting || s.restartTimer.isSome) = true then s
  else
    let s := s.stopMetrics
    let s := {
      s with
      metricsIntervalMs := wanted
      streamFailures := 0
      metricsGeneration := s.metricsGeneration + 1 }
    if s.fallbackSession then s else s.launchStream s.metricsGeneration

def reset : GpuService := {
  s.stopMetrics with
  fallbackSession := false
  streamFailures := 0
  uuidToIndex := .empty
  uuidRefreshNeeded := true }

/-- The guard of what a stream calls back: its generation and its attempt are those that run. -/
def Current (l : Launch) : Prop := l.generation = s.metricsGeneration ∧ l.attempt = s.streamAttempt

instance (l : Launch) : Decidable (s.Current l) := inferInstanceAs (Decidable (_ ∧ _))

def streamFailed (l : Launch) : GpuService :=
  if ¬s.Current l ∨ s.metricsIntervalMs = 0 then s
  else
    let s := { s.forget with streamFailures := s.streamFailures + 1 }
    if 3 ≤ s.streamFailures then { s with fallbackSession := true }
    else { s with restartTimer := some ⟨l.generation, s.streamAttempt⟩ }

/-- `ctx.stream` gives a handle; one that comes too late is killed and nobody listens to it. -/
def opened (l : Launch) : GpuService :=
  if l ∉ s.pending then s
  else
    let s := { s with pending := s.pending.erase l }
    if ¬s.Current l ∨ s.metricsIntervalMs = 0 ∨ s.fallbackSession = true then s
    else {
      s with
      streamStarting := false
      streamHandle := some l
      listeners := l :: s.listeners
      watchdogTimer := some l }

def refused (l : Launch) : GpuService :=
  if l ∉ s.pending then s
  else
    let s := { s with pending := s.pending.erase l }
    if ¬s.Current l then s else { s with streamStarting := false }.streamFailed l

def exited (l : Launch) : GpuService :=
  if l ∉ s.listeners ∨ ¬s.Current l ∨ s.streamHandle ≠ some l then s
  else { s with streamHandle := none }.streamFailed l

def watchdogTimeout : GpuService :=
  match s.watchdogTimer with
  | none => s
  | some l =>
    let s := { s with watchdogTimer := none }
    if ¬s.Current l ∨ s.streamHandle ≠ some l then s
    else { s with streamHandle := none }.streamFailed l

/-- The launch kept in the timer is the retry's guard. -/
def restartTimeout : GpuService :=
  match s.restartTimer with
  | none => s
  | some guard =>
    let s := { s with restartTimer := none }
    if ¬s.Current guard then s else s.launchStream guard.generation

/-! ### Sampling a batch -/

/-- The loop goes on with the next batch. A batch without a GPU is given back at once. -/
def take (generation : Nat) (batch : Batch) : GpuService := {
  s with
  queuedGpuRows := none
  drain := some (if (parseGpus (join [10] batch.rows)).isEmpty then .returned generation false
    else .querying generation batch (s.uuidRefreshNeeded || s.uuidToIndex.entries.isEmpty)) }

/-- The head of the loop, and what the `finally` starts when the loop is over. -/
def drainStreamSamples (generation : Nat) : GpuService :=
  match s.queuedGpuRows with
  | none => { s with drain := none }
  | some batch =>
    if generation = s.metricsGeneration then s.take generation batch
    else if s.metricsIntervalMs = 0 then { s with drain := none }
    else s.take s.metricsGeneration batch

def flushStreamRows (l : Launch) : GpuService :=
  if ¬s.Current l ∨ s.streamRows = [] then s
  else
    let s := {
      s with
      queuedGpuRows := some ⟨l.attempt, s.streamRows, s.taken⟩
      taken := s.taken + s.streamRows.length
      streamRows := []
      streamIndexes := [] }
    if s.drain.isSome then s else s.drainStreamSamples l.generation

def batchTimeout : GpuService :=
  match s.batchTimer with
  | none => s
  | some l => { s with batchTimer := none }.flushStreamRows l

/-- One line of the output. -/
def readLine (l : Launch) (line : Text) : GpuService :=
  if IsRow line then
    let index := indexOf line
    let s := if index ∈ s.streamIndexes then s.flushStreamRows l else s
    { s with
      streamRows := s.streamRows ++ [line]
      streamIndexes := s.streamIndexes ++ [index]
      watchdogTimer := some l
      batchTimer := some l }
  else s

def onStreamData (l : Launch) (data : Text) : GpuService :=
  if ¬s.Current l ∨ s.streamHandle ≠ some l then s
  else
    let text := s.streamBuffer ++ data
    (completeLines text).foldl (fun s line => s.readLine l line) { s with streamBuffer := openLine text }

/-- A handle that is listened to prints something. -/
def printed (l : Launch) (data : Text) : GpuService :=
  if l ∉ s.listeners then s
  else { s with output := Function.update s.output l.attempt (s.output l.attempt ++ data) }.onStreamData
    l data

/-! ### The process query -/

/-- What stands before and behind the first place of a separator. -/
def cutAt (separator : Text) : Text → Text × Option Text
  | [] => ([], none)
  | u :: text =>
    if separator.isPrefixOf (u :: text) then ([], some ((u :: text).drop separator.length))
    else ((u :: (cutAt separator text).1), (cutAt separator text).2)

def readUuids (uuidPart : Text) : OrderedMap Text ℚ :=
  ((trim uuidPart).splitOn 10).foldl (fun m line =>
    let f := fieldsOf line
    if 2 ≤ f.length then m.set (f.getD 1 []) (num (f.getD 0 [])) else m) .empty

def parseProcess (uuidToIndex : OrderedMap Text ℚ) (line : Text) : Option (Option ℚ × GpuProcess) :=
  let f := fieldsOf line
  if trim line = [] ∨ line.tails.any (js "[N/A]").isPrefixOf = true ∨ f.length < 4 then none
  else
    let gpuIndex := uuidToIndex.get? (f.getD 0 [])
    some (gpuIndex, ⟨gpuIndex.getD 0, num (f.getD 1 []), f.getD 2 [], num (f.getD 3 [])⟩)

/-- The answer of the query becomes a snapshot, if the attempt is still the one that runs. -/
def sampled (t generation : Nat) (batch : Batch) (includeUuids : Bool) (stdout : Text) : GpuService :=
  if ¬s.Current ⟨generation, batch.attempt⟩ then { s with drain := some (.returned generation false) }
  else
    let parts := cutAt (js "===UUID===") stdout
    let uuidPart := (cutAt (js "===UUID===") (parts.2.getD [])).1
    let uuids := if includeUuids then readUuids uuidPart else s.uuidToIndex
    let processes := ((trim parts.1).splitOn 10).filterMap (parseProcess uuids)
    { s with
      uuidToIndex := uuids
      uuidRefreshNeeded := (s.uuidRefreshNeeded && !includeUuids) || processes.any (·.1.isNone)
      published := s.published ++
        [(batch, ⟨t, true, parseGpus (join [10] batch.rows), processes.map Prod.snd⟩)]
      drain := some (.returned generation true) }

/-- The process query is over at some time, with its output or with an error. -/
def queried (t : Nat) (stdout : Option Text) : GpuService :=
  match s.drain with
  | some (.querying generation batch includeUuids) =>
    let s := { s with queries := s.queries ++ [(batch, stdout.isSome)] }
    stdout.elim { s with drain := some (.returned generation false) }
      (s.sampled t generation batch includeUuids)
  | _ => s

/-- The loop takes back control. -/
def resumed : GpuService :=
  match s.drain with
  | some (.returned generation published) =>
    { s with streamFailures := if published then 0 else s.streamFailures }.drainStreamSamples generation
  | _ => s

end GpuService

inductive Event where
  | start (intervalMs : ℚ)
  | stop
  | reset
  | opened (l : Launch)
  | refused (l : Launch)
  | printed (l : Launch) (data : Text)
  | exited (l : Launch)
  | restartTimeout
  | watchdogTimeout
  | batchTimeout
  | queried (t : Nat) (stdout : Option Text)
  | resumed
  /-- The poller of the fallback has read the UUIDs. -/
  | polled (uuidToIndex : OrderedMap Text ℚ) (uuidRefreshNeeded : Bool)

def step (s : GpuService) : Event → GpuService
  | .start intervalMs => s.startMetrics intervalMs
  | .stop => s.stopMetrics
  | .reset => s.reset
  | .opened l => s.opened l
  | .refused l => s.refused l
  | .printed l data => s.printed l data
  | .exited l => s.exited l
  | .restartTimeout => s.restartTimeout
  | .watchdogTimeout => s.watchdogTimeout
  | .batchTimeout => s.batchTimeout
  | .queried t stdout => s.queried t stdout
  | .resumed => s.resumed
  | .polled uuidToIndex uuidRefreshNeeded => { s with uuidToIndex, uuidRefreshNeeded }

end BoredManager.Gpu.Stream
