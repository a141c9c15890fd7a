import BoredManager.Js.Number
import BoredManager.Js.OrderedMap
import BoredManager.Machine.Runs
import Mathlib.Data.List.Sort

/-! The sequential job runner. An item's promise settles at an event of its own;
what runs between two awaits is one step. -/
namespace BoredManager.OpenWrt
open BoredManager.Js

variable {W : Type*}

inductive JobItemStatus
  | pending | running | ok | error | skipped | cancelled
deriving DecidableEq

inductive JobState
  | running | done | failed | partialDone | cancelled
deriving DecidableEq

structure JobItem where
  idx : Nat
  name : Text
  status : JobItemStatus
  message : Option Text
  ms : Option Int
deriving DecidableEq

structure OpenWrtJob where
  id : Text
  kind : Text
  label : Text
  state : JobState
  startedAt : Int
  finishedAt : Option Int
  total : Nat
  done : Nat
  failed : Nat
  progressPct : Int
  cancelRequested : Bool
  items : List JobItem
deriving DecidableEq

inductive OnError
  | abort | continue_
deriving DecidableEq

/-- A chunk or wave: its label, and the work its `run` does. -/
structure JobItemSpec (W : Type*) where
  name : Text
  work : W
deriving DecidableEq

structure JobSpec (W : Type*) where
  kind : Text
  label : Text
  items : List (JobItemSpec W)
  onError : OnError
deriving DecidableEq

def maxFinishedJobs : Nat := 10

def maxHistoryItems : Nat := 30

def cloneItem (item : JobItem) : JobItem :=
  { item with message := item.message.filter fun m => m ≠ [] }

def JobItemStatus.isBad : JobItemStatus → Bool
  | .error | .cancelled => true
  | _ => false

/-- Failures and cancellations are kept first, in display order. -/
def trimFinishedJob (job : OpenWrtJob) : OpenWrtJob :=
  let selected :=
    if job.items.length ≤ maxHistoryItems then job.items
    else ((job.items.filter fun item => item.status.isBad) ++
      job.items.filter fun item => !item.status.isBad).take maxHistoryItems
  { job with
    cancelRequested := false
    items := (selected.map cloneItem).insertionSort fun a b => a.idx ≤ b.idx }

/-- The id of one draw of `Date.now()` and of the random suffix. -/
def jobIdText (draw : Int × Text) : Text :=
  js "job_" ++ radixText 36 draw.1.toNat ++ js "_" ++ draw.2

def makeJobId (taken : List Text) (draws : Nat → Int × Text) : Text :=
  match (List.range 50).find? fun attempt => decide (jobIdText (draws attempt) ∉ taken) with
  | some attempt => jobIdText (draws attempt)
  | none => jobIdText ((draws 50).1, radixText 36 taken.dedup.length)

/-- A job object, and the runner that waits for the first item of `rest`. -/
structure LiveJob (W : Type*) where
  id : Text
  kind : Text
  label : Text
  startedAt : Int
  total : Nat
  done : Nat
  failed : Nat
  progressPct : Int
  cancelRequested : Bool
  settled : List JobItem
  rest : List (JobItem × W)
  onError : OnError
  aborted : Bool
  itemStartedAt : Int
  generation : Nat
  waiting : Bool

/-- How the promise of an item settles. -/
inductive Outcome
  | ok (note : Option Text)
  | cancelledError
  | error (message : Text)
deriving DecidableEq

namespace LiveJob

def items (j : LiveJob W) : List JobItem := j.settled ++ j.rest.map Prod.fst

def updateProgress (j : LiveJob W) : LiveJob W :=
  { j with progressPct :=
      if j.total = 0 then 100 else Number.roundInt (Number.double (Number.double (j.done / j.total) * 100)) }

/-- The loop, from the items in the last argument to its next await. -/
def loop (cancelled : Bool) (now : Int) (j : LiveJob W) : List (JobItem × W) → LiveJob W
  | [] => { j with rest := [], waiting := false }
  | (item, work) :: rest =>
    if cancelled || j.aborted then
      loop cancelled now { j with
        settled := j.settled ++ [{ item with status := if cancelled then .cancelled else .skipped }]
        done := j.done + 1 } rest
    else
      updateProgress { j with
        rest := ({ item with status := .running }, work) :: rest
        itemStartedAt := now
        waiting := true }

def isUnsettled (item : JobItem) : Bool := item.status = .pending || item.status = .running

/-- The `catch` around the loop. -/
def stopUnexpectedly (j : LiveJob W) : LiveJob W :=
  { j with
    settled := j.items.map fun item =>
      if isUnsettled item then
        { item with status := .error, message := some (js "job runner stopped unexpectedly") }
      else item
    rest := []
    done := j.done + j.items.countP isUnsettled
    failed := j.failed + j.items.countP isUnsettled
    waiting := false }

/-- The loop up to the item's `emit`, which may throw into the `catch`. -/
def advance (cancelled emitThrows : Bool) (now : Int) (j : LiveJob W) : LiveJob W :=
  let next := loop cancelled now j j.rest
  if next.waiting && emitThrows then next.stopUnexpectedly else next

/-- The message of a settled promise that counts as a failure. -/
def failureOf (cancelled : Bool) : Outcome → Option Text
  | .error message => if cancelled then none else some message
  | _ => none

def endItem (cancelled : Bool) (outcome : Outcome) (item : JobItem) : JobItem :=
  match outcome, failureOf cancelled outcome with
  | .ok note, _ => { item with
      status := .ok
      message := ((note.map trim).filter fun n => n ≠ []).or item.message }
  | _, some message => { item with status := .error, message := some message }
  | _, none => { item with status := .cancelled }

/-- What the loop does with the item that just settled. -/
def settleItem (cancelled : Bool) (outcome : Outcome) (now : Int) (j : LiveJob W) : LiveJob W :=
  match j.rest with
  | [] => j
  | (item, _) :: rest =>
    let failed := (failureOf cancelled outcome).isSome
    updateProgress { j with
      settled := j.settled ++
        [{ endItem cancelled outcome item with ms := some (now - j.itemStartedAt) }]
      rest
      done := j.done + 1
      failed := if failed then j.failed + 1 else j.failed
      aborted := j.aborted || (failed && decide (j.onError = .abort)) }

/-- The classification after the loop. -/
def finish (wasCancelled : Bool) (now : Int) (j : LiveJob W) : OpenWrtJob :=
  let items := j.items.map fun item =>
    if item.status = .pending then
      { item with status := if wasCancelled then .cancelled else .skipped }
    else item
  let failed := items.countP fun item => item.status = .error
  { id := j.id, kind := j.kind, label := j.label, startedAt := j.startedAt, total := j.total
    finishedAt := some now
    done := j.done + j.items.countP fun item => item.status = .pending
    failed
    progressPct := 100
    cancelRequested := false
    items
    state :=
      if wasCancelled then .cancelled
      else if failed = 0 then .done
      else if failed = j.total then .failed
      else .partialDone }

end LiveJob

/-- How one update of the host store ends: a write that throws may already have
changed the document in memory. -/
inductive StoreWrite
  | saved | threwAfter | threwBefore
deriving DecidableEq

def StoreWrite.apply {α : Type*} (write : StoreWrite) (old new : α) : α :=
  if write = .threwBefore then old else new

def keepHistory (limit : Nat) (entry : OpenWrtJob) (history : List OpenWrtJob) :
    List OpenWrtJob :=
  (entry :: history.filter fun old => decide (old.id ≠ entry.id)).take limit

def persist (first second : StoreWrite) (job : OpenWrtJob) (history : List OpenWrtJob) :
    List OpenWrtJob :=
  let entry := trimFinishedJob job
  let after := first.apply history (keepHistory maxFinishedJobs entry history)
  if first = .saved then after else second.apply after (keepHistory 5 entry after)

/-- What the outside makes of one step: which `emit` throws, and how the writes end. -/
structure Faults where
  startEmit : Bool
  settledEmit : Bool
  itemEmit : Bool
  finishEmit : Bool
  firstWrite : StoreWrite
  secondWrite : StoreWrite

/-- What a step does that another party can see. -/
inductive Action (W : Type*)
  | jobStarted (key : Nat) (spec : JobSpec W)
  | itemStarted (key idx : Nat)
  | itemSettled (key idx : Nat) (outcome : Outcome)
  | itemEnded (key idx : Nat) (status : JobItemStatus)
  | cancelRequested (key : Nat)
  | stopped
  | finished (key : Nat) (job : OpenWrtJob)
  | onFinished (key : Nat) (job : OpenWrtJob)
deriving DecidableEq

/-- The runner; a job object is named by its key in `runs`, so that a job of an
earlier connection can still be waiting after `live` was emptied. -/
structure Jobs (W : Type*) where
  runs : OrderedMap Nat (LiveJob W)
  live : List Nat
  cancelling : List Text
  generation : Nat
  disposed : Bool
  history : List OpenWrtJob
  nextKey : Nat

namespace Jobs

def init (history : List OpenWrtJob) : Jobs W :=
  ⟨OrderedMap.empty, [], [], 0, false, history, 0⟩

def idOf (s : Jobs W) (key : Nat) : Option Text := (s.runs.get? key).map LiveJob.id

/-- The ids of `list()`. -/
def takenIds (s : Jobs W) : List Text :=
  s.live.filterMap s.idOf ++ (s.history.take maxFinishedJobs).map OpenWrtJob.id

def current (s : Jobs W) (generation : Nat) : Bool :=
  !s.disposed && decide (generation = s.generation)

def isCancelled (s : Jobs W) (j : LiveJob W) : Bool :=
  decide (j.id ∈ s.cancelling) || !s.current j.generation

/-- The end of a step of `run`: the job waits for its next item or is finished. -/
def conclude (s : Jobs W) (key : Nat) (j : LiveJob W) (now : Int) (faults : Faults) :
    Jobs W × List (Action W) :=
  match j.waiting, j.rest with
  | true, (item, _) :: _ => ({ s with runs := s.runs.set key j }, [.itemStarted key item.idx])
  | _, _ =>
    let job := j.finish (decide (j.id ∈ s.cancelling)) now
    ({ s with
      runs := s.runs.erase key
      live := s.live.filter fun k => decide (s.idOf k ≠ some j.id)
      cancelling := s.cancelling.filter fun id => decide (id ≠ j.id)
      history := persist faults.firstWrite faults.secondWrite job s.history },
      if faults.finishEmit then [.finished key job]
      else [.onFinished key job, .finished key job])

def newJob (spec : JobSpec W) (id : Text) (now : Int) (generation : Nat) : LiveJob W :=
  { id, kind := spec.kind, label := spec.label, startedAt := now
    total := spec.items.length
    done := 0
    failed := 0
    progressPct := if spec.items.length = 0 then 100 else 0
    cancelRequested := false
    settled := []
    rest := spec.items.mapIdx fun idx item => (⟨idx, item.name, .pending, none, none⟩, item.work)
    onError := spec.onError
    aborted := false
    itemStartedAt := now
    generation
    waiting := false }

/-- The new state, what was seen (the latest first), and the key of the job unless
`start` threw. -/
def start (s : Jobs W) (spec : JobSpec W) (draws : Nat → Int × Text) (now : Int)
    (faults : Faults) : Jobs W × List (Action W) × Option Nat :=
  if s.disposed then (s, [], none)
  else
    let key := s.nextKey
    let job := newJob spec (makeJobId s.takenIds draws) now s.generation
    let listed := { s with
      runs := s.runs.set key job
      live := key :: s.live
      nextKey := key + 1 }
    if faults.startEmit then (listed, [], none)
    else
      let ran := conclude listed key
        (job.advance (listed.isCancelled job) faults.itemEmit now) now faults
      (ran.1, ran.2 ++ [.jobStarted key spec], some key)

/-- The promise of the item that the job waits for settles. -/
def settle (s : Jobs W) (key : Nat) (outcome : Outcome) (now : Int) (faults : Faults) :
    Jobs W × List (Action W) :=
  match s.runs.get? key with
  | none => (s, [])
  | some j =>
    if !j.waiting then (s, [])
    else if !s.current j.generation then ({ s with runs := s.runs.erase key }, [])
    else
      let cancelled := s.isCancelled j
      let after := j.settleItem cancelled outcome now
      let next := if faults.settledEmit then after.stopUnexpectedly
        else after.advance cancelled faults.itemEmit now
      let ran := conclude s key next now faults
      (ran.1, ran.2 ++ match after.settled.getLast? with
        | some item => [.itemEnded key item.idx item.status, .itemSettled key item.idx outcome]
        | none => [])

def cancel (s : Jobs W) (id : Text) : Jobs W × List (Action W) :=
  match s.live.find? fun key => decide (s.idOf key = some id) with
  | none => (s, [])
  | some key =>
    ({ s with
      cancelling := if id ∈ s.cancelling then s.cancelling else s.cancelling ++ [id]
      runs := match s.runs.get? key with
        | some j => s.runs.set key { j with cancelRequested := true }
        | none => s.runs }, [.cancelRequested key])

def clearFinished (s : Jobs W) (write : StoreWrite) : Jobs W :=
  { s with history := write.apply s.history [] }

def stopLive (s : Jobs W) (dispose : Bool) : Jobs W × List (Action W) :=
  ({ s with generation := s.generation + 1, live := [], cancelling := [], disposed := dispose },
    [.stopped])

end Jobs
end BoredManager.OpenWrt
