import BoredManager.Js.Number
import BoredManager.Js.OrderedMap
import BoredManager.Machine.Runs

/-! The commands and the terminals that the app runs itself, and the readings of them. -/
namespace BoredManager.Server.Services
open BoredManager.Js BoredManager.Machine

inductive LiveKind where
  | stream | shell
deriving DecidableEq

def LiveKind.name : LiveKind → Text
  | .stream => js "stream"
  | .shell => js "shell"

structure LiveEntry where
  id : Text
  kind : LiveKind
  owner : Text
  label : Text
  pid : Option Nat
  startedAt : Nat
deriving DecidableEq

structure ProcStat where
  cpu : Number
  memBytes : Number
deriving DecidableEq

abbrev ProcStats := OrderedMap Number ProcStat

/-- An entry of a snapshot that stands for one of the tracker's. -/
structure ServiceEntry where
  id : Text
  kind : LiveKind
  owner : Text
  label : Text
  command : Option Text
  pid : Option Nat
  startedAt : Nat
  stat : Option ProcStat
deriving DecidableEq

/-! ### The tracker -/

structure Tracker where
  live : OrderedMap Text LiveEntry
  counter : Nat

def liveId (kind : LiveKind) (n : Nat) : Text := kind.name ++ 45 :: decimal n

/-- The entry that `registerLive` makes. -/
def Tracker.next (t : Tracker) (kind : LiveKind) (owner label : Text) (pid : Option Nat) (now : Nat) : LiveEntry :=
  ⟨liveId kind (t.counter + 1), kind, owner, label, pid, now⟩

def Tracker.registerLive (t : Tracker) (e : LiveEntry) : Tracker :=
  { live := t.live.set e.id e, counter := t.counter + 1 }

/-- The callback that `registerLive` gives. -/
def Tracker.unregister (t : Tracker) (id : Text) : Tracker := { t with live := t.live.erase id }

/-- The groups of `/^(\d+)\s+([\d.]+)\s+(\d+)$/`. -/
def psLine (line : Text) : Option (Text × Text × Text) :=
  let rest := line.dropWhile isDigit
  let second := rest.dropWhile isSpace
  let last := second.dropWhile fun u => isDigit u || u == 46
  let pid := line.takeWhile isDigit
  let cpu := second.takeWhile fun u => isDigit u || u == 46
  let rss := last.dropWhile isSpace
  if pid ≠ [] ∧ rest.takeWhile isSpace ≠ [] ∧ cpu ≠ [] ∧ last.takeWhile isSpace ≠ [] ∧
      rss ≠ [] ∧ rss.all isDigit = true then some (pid, cpu, rss) else none

/-- `v * 1024` -/
def kibibytes : Number → Number
  | .fin q => Number.ofRat (q * 1024)
  | v => v

/-- What `readProcStats` reads from the output of `ps`. -/
def procStats (stdout : Text) : ProcStats :=
  (stdout.splitOn 10).foldl (fun out line =>
    match psLine (trim line) with
    | none => out
    | some (pid, cpu, rss) =>
      out.set (Number.ofText pid) ⟨Number.ofText cpu, kibibytes (Number.ofText rss)⟩) .empty

def LiveEntry.toService (e : LiveEntry) (stat : Option ProcStat) : ServiceEntry :=
  ⟨e.id, e.kind, e.owner, e.label, if e.kind = .stream then some e.label else none, e.pid, e.startedAt, stat⟩

/-- One turn of the loop of `snapshot`. -/
def visit (stats : ProcStats) (e : LiveEntry) (s : Tracker × List ServiceEntry) : Tracker × List ServiceEntry :=
  match e.pid with
  | none => (s.1, s.2 ++ [e.toService none])
  | some pid =>
    match stats.get? (.fin pid) with
    -- The process behind this entry is taken to be gone.
    | none => (s.1.unregister e.id, s.2)
    | some stat => (s.1, s.2 ++ [e.toService (some stat)])

/-- What `snapshot` does behind its await. -/
def Tracker.judge (t : Tracker) (stats : ProcStats) : Tracker × List ServiceEntry :=
  t.live.values.foldl (fun s e => visit stats e s) (t, [])

/-! ### The poller's readings -/

/-- A connected machine: what `ps` tells there is about the app's own processes when it is local. -/
structure Machine where
  id : Text
  isLocal : Bool
deriving DecidableEq

/-- The machine of `servicesPoller`: a local one, or the first that is connected. -/
def target (machines : List Machine) : Option Machine := (machines.find? (·.isLocal)).or machines.head?

/-- A snapshot at its await: the pids it asked for, where, and how many entries were registered
before it began. -/
structure Reading where
  pids : List Nat
  machine : Machine
  began : Nat

/-- A snapshot that was given. -/
structure Shot where
  began : Nat
  /-- The entries that were neither unregistered nor ended when it was given. -/
  running : List LiveEntry
  entries : List ServiceEntry

/-- An entry that a snapshot removed, and what it went by. -/
structure Drop where
  entry : LiveEntry
  reading : Reading
  stats : ProcStats
  /-- `ps` ran to its end, and all of its output came. -/
  completed : Bool

/-- The tracker and its readings, and what happened to every entry. -/
structure World where
  tracker : Tracker
  readings : List Reading
  /-- Every entry that was registered, in its order. -/
  born : List LiveEntry
  released : List Text
  exited : List Text
  shots : List Shot
  drops : List Drop

def World.start : World := ⟨⟨.empty, 0⟩, [], [], [], [], [], []⟩

def World.Running (w : World) (e : LiveEntry) : Prop := e.id ∉ w.released ∧ e.id ∉ w.exited

instance (w : World) (e : LiveEntry) : Decidable (w.Running e) :=
  inferInstanceAs (Decidable (_ ∧ _))

inductive Event where
  /-- `registerStream` or `registerShell`. -/
  | register (kind : LiveKind) (owner label : Text) (pid : Option Nat) (now : Nat)
  /-- The callback of the `n`th entry. -/
  | unregister (n : Nat)
  /-- The process of the `n`th entry ends. -/
  | exit (n : Nat)
  /-- The poller's tick, with the machines that are connected. -/
  | tick (machines : List Machine)
  /-- The `exec` of a reading resolves. -/
  | answered (reading : Nat) (stdout : Text) (completed : Bool)
  | rejected (reading : Nat)

/-- The entries without a line for their pid. -/
def LiveEntry.unlisted (stats : ProcStats) (e : LiveEntry) : Bool :=
  e.pid.any fun pid : Nat => (stats.get? (.fin pid)).isNone

def World.finish (w : World) (r : Reading) (stats : ProcStats) (completed : Bool) : World :=
  let (tracker, entries) := w.tracker.judge stats
  { w with
    tracker := tracker
    shots := w.shots ++ [⟨r.began, w.born.filter fun e => w.Running e, entries⟩]
    drops := w.drops ++ (w.tracker.live.values.filter (·.unlisted stats)).map (⟨·, r, stats, completed⟩) }

def step (w : World) : Event → World
  | .register kind owner label pid now =>
    let e := w.tracker.next kind owner label pid now
    { w with tracker := w.tracker.registerLive e, born := w.born ++ [e] }
  | .unregister n =>
    match w.born[n]? with
    | none => w
    | some e => { w with tracker := w.tracker.unregister e.id, released := e.id :: w.released }
  | .exit n =>
    match w.born[n]? with
    | none => w
    | some e => { w with exited := e.id :: w.exited }
  | .tick machines =>
    match target machines with
    | none => w
    | some machine =>
      let r := ⟨w.tracker.live.values.filterMap (·.pid), machine, w.born.length⟩
      -- Without a pid there is nothing to wait for.
      if r.pids = [] then w.finish r .empty true else { w with readings := w.readings ++ [r] }
  | .answered i stdout completed =>
    match w.readings[i]? with
    | none => w
    | some r => { w with readings := w.readings.eraseIdx i }.finish r (procStats stdout) completed
  | .rejected i => { w with readings := w.readings.eraseIdx i }

/-! ### What is owed -/

/-- The entry was registered before the reading began. -/
def World.Asked (w : World) (r : Reading) (e : LiveEntry) : Prop := e ∈ w.born.take r.began

instance (w : World) (r : Reading) (e : LiveEntry) : Decidable (w.Asked r e) :=
  inferInstanceAs (Decidable (_ ∈ _))

/-- A `ps` that completed on the machine of the pid, asked after the registration, did not list it. -/
structure Drop.Justified (w : World) (d : Drop) : Prop where
  completed : d.completed = true
  own : d.reading.machine.isLocal = true
  asked : w.Asked d.reading d.entry
  unlisted : d.entry.unlisted d.stats = true

/-- No running command is lost. -/
structure NeverLost (w : World) : Prop where
  distinct : (w.born.map LiveEntry.id).Nodup
  tracked : ∀ e ∈ w.born, w.Running e → w.tracker.live.get? e.id = some e
  shown : ∀ s ∈ w.shots, ∀ e ∈ w.born.take s.began, e ∈ s.running → ∃ stat, e.toService stat ∈ s.entries
  removed : ∀ e ∈ w.born, w.tracker.live.get? e.id = none →
    e.id ∈ w.released ∨ ∃ d ∈ w.drops, d.entry = e ∧ d.Justified w
  /-- What was removed can be unregistered without any effect. -/
  settled : ∀ e ∈ w.born, w.tracker.live.get? e.id = none → w.tracker.unregister e.id = w.tracker

/-- What `ps` is known for: one that completes on the app's machine lists the processes that it was
asked for and that have not ended. -/
def PsTells (w : World) : Event → Prop
  | .answered i stdout true => ∀ r ∈ w.readings[i]?, r.machine.isLocal = true →
      ∀ e ∈ w.born.take r.began, w.Running e → (∀ pid ∈ e.pid, pid ∈ r.pids) →
        e.unlisted (procStats stdout) = false
  | _ => True

/-- What an answer leaves out was asked of a `ps` that completed on the app's machine. -/
def LeavesOutOnlyAsked (w : World) : Event → Prop
  | .answered i stdout completed => ∀ r ∈ w.readings[i]?, ∀ e ∈ w.tracker.live.values,
      e.unlisted (procStats stdout) = true →
        completed = true ∧ r.machine.isLocal = true ∧ w.Asked r e
  | _ => True

end BoredManager.Server.Services
