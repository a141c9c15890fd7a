import BoredManager.Js.Date
import BoredManager.Js.Groups
import BoredManager.Shared.Modules
import Mathlib.Data.List.Sort
import Mathlib.Data.Rat.Floor

/-! The metrics history of one machine: samples go to a ring in memory and to a pending buffer
that is appended to hourly files; a query reads the files below the ring and the ring. -/
namespace BoredManager.Server.History
open BoredManager.Js
open BoredManager.Shared (HISTORY_STREAM_PATTERN)

/-- A reduced sample. Its time is in milliseconds since 1970. -/
structure HistoryPoint where
  t : Nat
  values : List (Text × ℚ)
deriving DecidableEq

structure HistorySettings where
  enabled : Bool

/-- `join(dir(), host, name)` -/
structure File where
  host : Text
  name : Text
deriving DecidableEq

/-- The service. `accepted` and `written` record what it took and what it appended. -/
structure Service where
  settings : HistorySettings
  hostKey : Option Text
  ring : OrderedMap Text (List HistoryPoint)
  pending : OrderedMap Text (List HistoryPoint)
  files : File → List HistoryPoint
  accepted : List (File × HistoryPoint)
  written : List (File × HistoryPoint)

def HISTORY_RING_MS : Nat := 30 * 60 * 1000
def hourMs : Nat := 3600000

def start (settings : HistorySettings) (hostKey : Option Text) : Service :=
  ⟨settings, hostKey, .empty, .empty, fun _ => [], [], []⟩

/-- UTC hour bucket: one file per stream per hour. -/
def hourKey (t : Nat) : Text :=
  let p := fun n => padZero 2 (decimal n)
  let d := utcDate (t / 86400000)
  decimal d.year ++ p d.month ++ p d.day ++ p (t / hourMs % 24)

def fileOf (host stream : Text) (t : Nat) : File :=
  ⟨host, stream ++ js "-" ++ hourKey t ++ js ".jsonl"⟩

/-- The host key; an empty one counts as none. -/
def Service.host (s : Service) : Option Text := s.hostKey.filter (· ≠ [])

def Service.pendingCount (s : Service) : Nat := (s.pending.values.map List.length).sum

def Service.clearPending (s : Service) : Service := { s with pending := .empty }

/-- What `flush` goes through, every point with its file. -/
def filed (host : Text) (pending : OrderedMap Text (List HistoryPoint)) :
    List (File × HistoryPoint) :=
  pending.pairs.map fun e => (fileOf host e.1 e.2.t, e.2)

/-- The sample is too old for a ring of that length with that newest sample. -/
def tooOld (ringMs : Nat) (newest p : HistoryPoint) : Bool := p.t + ringMs < newest.t

/-- The service with one more sample, in the ring and in the pending buffer. -/
def Service.take (s : Service) (host stream : Text) (point : HistoryPoint) : Service :=
  let ring := (s.ring.get? stream).getD [] ++ [point]
  { s with
    ring := s.ring.set stream (ring.dropWhile (tooOld HISTORY_RING_MS point))
    pending := s.pending.push stream point
    accepted := s.accepted ++ [(fileOf host stream point.t, point)] }

def add (stream : Text) (point : HistoryPoint) (s : Service) : Service :=
  if HISTORY_STREAM_PATTERN stream = false then s
  else match s.host with
  | none => s
  | some host => if s.settings.enabled = false then s else s.take host stream point

/-- The files after the hour buckets that are too old or too large went. -/
def enforceLimits (expired : File → Bool) (s : Service) : Service :=
  { s with files := fun file => if expired file then [] else s.files file }

/-- `appendFileSync(file, lines)` -/
def appendFile (files : File → List HistoryPoint) (e : File × List HistoryPoint) :
    File → List HistoryPoint :=
  fun file => if file = e.1 then files file ++ e.2 else files file

/-- One append for every file. -/
def Service.append (s : Service) (byFile : OrderedMap File (List HistoryPoint)) : Service :=
  { s with files := byFile.entries.foldl appendFile s.files, written := s.written ++ byFile.pairs }

def flush (expired : File → Bool) (s : Service) : Service :=
  match s.host with
  | none => s.clearPending
  | some host =>
    if s.settings.enabled = false ∨ s.pendingCount = 0 then s.clearPending
    else
      let byFile := OrderedMap.groups (filed host s.pending)
      enforceLimits expired (s.append byFile).clearPending

def configure (settings : HistorySettings) (expired : File → Bool) (s : Service) : Service :=
  let next := { s with settings := settings }
  let next := if s.settings.enabled = true ∧ settings.enabled = false then
    (flush expired next).clearPending else next
  if settings.enabled = true then enforceLimits expired next else next

def setHost (hostKey : Option Text) (expired : File → Bool) (s : Service) : Service :=
  if hostKey = s.hostKey then s
  else { flush expired s with hostKey := hostKey, ring := .empty, pending := .empty }

def close (expired : File → Bool) (s : Service) : Service := flush expired s

/-! ### Queries -/

def readFiles (s : Service) (stream : Text) (fromMs toMs : Nat) : List HistoryPoint :=
  match s.host with
  | none => []
  | some host =>
    (List.range' (fromMs / hourMs) (toMs / hourMs + 1 - fromMs / hourMs)).flatMap fun hour =>
      (s.files (fileOf host stream (hour * hourMs))).filter fun p => fromMs ≤ p.t ∧ p.t ≤ toMs

/-- Of samples at one time only the first is kept. -/
def dedupe (points : List HistoryPoint) : List HistoryPoint :=
  points.foldl (fun deduped p =>
    if deduped.getLast?.any (·.t == p.t) then deduped else deduped ++ [p]) []

/-- `Math.round(v * 100) / 100` -/
def round2 (v : ℚ) : ℚ := ⌊v * 100 + 1 / 2⌋ / 100

/-- The average of a bucket, at the time of its last sample. -/
def average (bucket : List HistoryPoint) : List HistoryPoint :=
  match bucket.head?, bucket.getLast? with
  | some first, some last =>
    let sum := fun key => (bucket.map fun p => (p.values.lookup key).getD 0).sum
    [⟨last.t, first.values.map fun e => (e.1, round2 (sum e.1 / bucket.length))⟩]
  | _, _ => []

structure Buckets where
  out : List HistoryPoint
  bucket : List HistoryPoint
  bucketEnd : ℚ

def Buckets.take (bucketMs : ℚ) (b : Buckets) (p : HistoryPoint) : Buckets :=
  if b.bucketEnd < p.t then ⟨b.out ++ average b.bucket, [p], p.t + bucketMs⟩
  else { b with bucket := b.bucket ++ [p] }

def downsample (points : List HistoryPoint) (maxPoints : Int) : List HistoryPoint :=
  if points.length ≤ maxPoints ∨ maxPoints ≤ 0 then points
  else match points.head?, points.getLast? with
  | some first, some last =>
    if last.t ≤ first.t then points.drop (points.length - maxPoints.toNat)
    else
      let bucketMs : ℚ := (last.t - first.t) / maxPoints
      let done := points.foldl (Buckets.take bucketMs) ⟨[], [], first.t + bucketMs⟩
      done.out ++ average done.bucket
  | _, _ => points

/-- The points of a query before they are put in order: from the files below the ring, and
from the ring. -/
def collected (s : Service) (stream : Text) (fromMs toMs : Nat) : List HistoryPoint :=
  let ring := (s.ring.get? stream).getD []
  (match ring.head? with
    | some first =>
      if fromMs < first.t then readFiles s stream fromMs (min toMs first.t) else []
    | none => readFiles s stream fromMs toMs) ++ ring.filter fun p => fromMs ≤ p.t ∧ p.t ≤ toMs

def query (s : Service) (stream : Text) (fromMs toMs : Nat) (maxPoints : Int) :
    Except Text (List HistoryPoint) :=
  if HISTORY_STREAM_PATTERN stream = false then
    .error (js "invalid history stream \"" ++ stream ++ js "\"")
  else
    let points := (collected s stream fromMs toMs).insertionSort fun a b => a.t ≤ b.t
    .ok (downsample (dedupe points) maxPoints)

end BoredManager.Server.History
