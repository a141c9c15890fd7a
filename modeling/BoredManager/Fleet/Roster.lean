import BoredManager.Fleet.FleetJobs
import BoredManager.Fleet.Targets

/-! One sweep turned into cards: which addresses are machines, and what colour each card is. A card
also carries when its reading was asked for, which the program does not record. -/
namespace BoredManager.Fleet.Sweeps
open BoredManager.Js BoredManager.Fleet.Targets
open BoredManager.Shared (lowerUnit)

inductive SudoMode where
  | none | sudoN | sudoPassword
deriving DecidableEq

/-- The fields of a target rule that a card shows or needs. -/
structure Login where
  label : Text
  sudoMode : SudoMode

structure WatchedUnit where
  unit : Text
  label : Option Text
  critical : Bool
  appliesTo : Text

structure UnitState where
  unit : Text
  load : Text
  active : Text
  sub : Text
  fileState : Text

structure HostFacts where
  hostname : Text
  os : Text
  kernel : Text
  systemd : Bool
  uid : Int
  sudoNoPassword : Bool
  units : List UnitState
  watched : List UnitState
  truncated : Bool

/-- What a sweep runs with; `facts` reads what a machine printed, if its script came to its end. -/
structure Setup where
  targets : List TargetRule
  maxHosts : Int
  maxParallel : Int
  maxUnitsPerHost : Nat
  criticalDownIsRed : Bool
  watched : List WatchedUnit
  login : TargetRule → Login
  facts : Text → Option HostFacts

/-! ### Colours -/

inductive CardStatus where
  | bad | warn | unknown | ok
deriving DecidableEq

def STATUS_WEIGHT : CardStatus → Nat
  | .bad => 0
  | .warn => 1
  | .unknown => 2
  | .ok => 3

def worst (a b : CardStatus) : CardStatus := if STATUS_WEIGHT a ≤ STATUS_WEIGHT b then a else b

/-- Whether the answer proves a machine lives at the address. -/
def provesAMachine (reach : Reach) : Bool :=
  reach == .ok || reach == .auth || reach == .hostkey || reach == .refused

/-- What `.` does not match. -/
def isLineEnd (u : Nat) : Bool := u == 10 || u == 13 || u == 8232 || u == 8233

/-- The pattern's stars and question marks, the case of ASCII aside. -/
def globMatch : Text → Text → Bool
  | [], s => s.isEmpty
  | p :: pattern, s =>
    if p = 42 ∨ p = 0 then
      (List.range (s.length + 1)).any fun n =>
        (s.take n).all (fun u => !isLineEnd u) && globMatch pattern (s.drop n)
    else match s with
      | [] => false
      | u :: s =>
        (if p = 63 ∨ p = 1 then !isLineEnd u else lowerUnit u == lowerUnit p) && globMatch pattern s

/-- A list of globs with commas between them; an empty one is every machine. -/
def matchesGlob (pattern : Text) (values : List Text) : Bool :=
  if trim pattern = [] then true
  else (((trim pattern).splitOn 44).map trim).any fun p =>
    p ≠ [] && values.any fun value => value ≠ [] && globMatch p value

def watchedFor (watched : List WatchedUnit) (ip label : Text) : List WatchedUnit :=
  watched.filter fun w => matchesGlob w.appliesTo [ip, label]

def unitStatus (state : Option UnitState) (watchedUnit critical : Bool) : CardStatus :=
  match state with
  | none => .unknown
  | some state =>
    if state.load = js "not-found" then
      if watchedUnit && critical then .bad else if watchedUnit then .warn else .unknown
    else if state.load = js "masked" ∨ state.fileState = js "masked" then
      if watchedUnit then .warn else .unknown
    else if state.active = js "failed" ∨ state.sub = js "failed" then .bad
    else if state.active = js "active" then .ok
    else if state.active = js "activating" ∨ state.active = js "deactivating" then .warn
    else if watchedUnit then .warn else .unknown

/-- One word for what a unit is doing. -/
def healthLabel (state : Option UnitState) : Text :=
  match state with
  | none => js "unknown"
  | some state =>
    if state.load = js "not-found" then js "not installed"
    else if state.load = js "masked" ∨ state.fileState = js "masked" then js "masked"
    else if state.active = js "failed" ∨ state.sub = js "failed" then js "failed"
    else if state.active = js "active" then
      if state.sub = js "running" then js "running" else if state.sub = [] then js "active" else state.sub
    else if state.active = js "activating" then js "starting"
    else if state.active = js "deactivating" then js "stopping"
    else if state.active = [] then js "stopped" else state.active

/-- `unit.replace(/\.service$/, '')` -/
def dropService (unit : Text) : Text :=
  if (js ".service").isSuffixOf unit then unit.take (unit.length - 8) else unit

def chipLabel (state : Option UnitState) (unit : Text) : Text :=
  let health := healthLabel state
  if health = js "running" ∨ health = js "unknown" then dropService unit
  else dropService unit ++ js " (" ++ health ++ js ")"

def canControl (facts : HostFacts) (sudoMode : SudoMode) : Bool :=
  if facts.uid = 0 then true
  else match sudoMode with
    | .sudoPassword => true
    | .sudoN => facts.sudoNoPassword
    | .none => false

/-- How long ago a time was; no time and zero are never. -/
def relative (now : Int) (since : Option Int) : Text :=
  match since.filter (· ≠ 0) with
  | none => js "never"
  | some time =>
    let sec := ((now - time + 500) / 1000).toNat
    if sec < 90 then decimal sec ++ js "s ago"
    else if sec < 5400 then decimal ((sec + 30) / 60) ++ js "m ago"
    else if sec < 172800 then decimal ((sec + 1800) / 3600) ++ js "h ago"
    else decimal ((sec + 43200) / 86400) ++ js "d ago"

/-! ### Cards -/

structure SweepEntry where
  ip : Text
  cred : TargetRule
  reach : Reach
  reachMessage : Text
  facts : Option HostFacts
  asked : Nat

structure HostRecord where
  label : Text
  hostname : Text
  os : Text
  kernel : Text
  firstSeen : Int
  lastSeen : Option Int
  lastProbeAt : Option Int
  reach : Option Reach
  reachNote : Text
  pinned : Bool

structure WatchedState where
  unit : WatchedUnit
  state : Option UnitState

structure HostLive where
  ip : Text
  cred : TargetRule
  reach : Reach
  reachMessage : Text
  facts : Option HostFacts
  watched : List WatchedState
  status : CardStatus
  summary : Text
  note : Text
  problems : List Text
  asked : Nat

/-- The watched units that are not as they should be, one after another. -/
def judgeUnits (criticalDownIsRed : Bool) (judged : CardStatus × List Text) (w : WatchedState) :
    CardStatus × List Text :=
  let critical := w.unit.critical
  if unitStatus w.state true critical = .ok then judged
  else (worst judged.1 (if critical && criticalDownIsRed then .bad else .warn),
    judged.2 ++ [chipLabel w.state w.unit.unit ++ if critical then js " - marked critical" else []])

/-- The colour of a card, and one line for each thing that is wrong. -/
def judgeEntry (setup : Setup) (entry : SweepEntry) (states : List WatchedState) :
    CardStatus × List Text :=
  if entry.reach ≠ .ok then (.bad, [entry.reachMessage])
  else match entry.facts with
    | none => (.unknown, [js "Connected, but the sweep returned nothing readable."])
    | some facts =>
      if facts.systemd = false then (.warn, [js "No systemd on this machine, so its services cannot be listed or controlled from here."])
      else
        let judged := states.foldl (judgeUnits setup.criticalDownIsRed) (.ok, [])
        let sudoMode := (setup.login entry.cred).sudoMode
        let judged := if states ≠ [] ∧ canControl facts sudoMode = false then
            (worst judged.1 .warn, judged.2 ++ [if sudoMode = .none
              then js "Read-only: this address is set to use no sudo and the account is not root."
              else js "Read-only: sudo needs a password here and none is set for this address."])
          else judged
        if facts.truncated then (judged.1, judged.2 ++ [js "Only the first " ++
          decimal setup.maxUnitsPerHost ++ js " service lines were read from this machine."])
        else judged

def nonEmpty (texts : List Text) : List Text := texts.filter (· ≠ [])

def buildLive (setup : Setup) (now : Int) (entry : SweepEntry) (record : HostRecord) : HostLive :=
  let states := (watchedFor setup.watched entry.ip record.label).map fun unit =>
    (⟨unit, (((entry.facts.map HostFacts.watched).getD []).find? fun s => decide (s.unit = unit.unit))⟩ :
      WatchedState)
  let (status, problems) := judgeEntry setup entry states
  let running := (((entry.facts.map HostFacts.units).getD []).filter (·.active = js "active")).length
  let watchedOk := (states.filter fun w => unitStatus w.state true w.unit.critical = .ok).length
  let lastSeen := relative now record.lastSeen
  let summary := if entry.reach ≠ .ok then
      if lastSeen = js "never" then js "never reached" else js "last seen " ++ lastSeen
    else if states ≠ [] then decimal watchedOk ++ js "/" ++ decimal states.length ++ js " watched"
    else decimal running ++ js " running"
  let place := join (js " - ") (nonEmpty [record.hostname, (entry.facts.map HostFacts.os).getD []])
  let noteParts := entry.reachMessage ::
    if entry.reach = .ok then place :: problems else [js "Last reached " ++ lastSeen ++ js "."]
  { ip := entry.ip, cred := entry.cred, reach := entry.reach, reachMessage := entry.reachMessage
    facts := entry.facts, watched := states, status := status, summary := summary
    note := join [32] (noteParts.filter fun p => trim p ≠ []), problems := problems, asked := entry.asked }

/-! ### The roster -/

/-- The cards, and the records of the document. -/
structure Roster where
  live : OrderedMap Text HostLive
  hosts : OrderedMap Text HostRecord

/-- `text || other` -/
def orText (text other : Text) : Text := if text = [] then other else text

def buildRecord (setup : Setup) (now : Int) (entry : SweepEntry) (existing : Option HostRecord) :
    HostRecord :=
  let read := fun (own : HostFacts → Text) (old : HostRecord → Text) =>
    orText ((entry.facts.map own).getD []) ((existing.map old).getD [])
  { label := (setup.login entry.cred).label
    hostname := read HostFacts.hostname HostRecord.hostname
    os := read HostFacts.os HostRecord.os
    kernel := read HostFacts.kernel HostRecord.kernel
    firstSeen := ((existing.map HostRecord.firstSeen).filter (· ≠ 0)).getD now
    lastSeen := if entry.reach = .ok then some now else existing.bind HostRecord.lastSeen
    lastProbeAt := some now
    reach := some entry.reach
    reachNote := entry.reachMessage
    pinned := decide (entry.cred.kind = .host) || (existing.map HostRecord.pinned).getD false }

/-- What earns a card: an answer of a machine, an address of its own, or a card before. -/
def earnsRecord (hosts : OrderedMap Text HostRecord) (entry : SweepEntry) : Bool :=
  provesAMachine entry.reach || decide (entry.cred.kind = .host) || hosts.has entry.ip

def mergeEntry (setup : Setup) (now : Int) (roster : Roster) (entry : SweepEntry) : Roster :=
  if earnsRecord roster.hosts entry = false then roster
  else
    let record := buildRecord setup now entry (roster.hosts.get? entry.ip)
    { live := roster.live.set entry.ip (buildLive setup now entry record)
      hosts := roster.hosts.set entry.ip record }

def mergeInto (setup : Setup) (now : Int) (roster : Roster) (entries : List SweepEntry) : Roster :=
  entries.foldl (mergeEntry setup now) roster

/-- Fold one sweep in, replacing what was live before. -/
def Roster.apply (setup : Setup) (now : Int) (roster : Roster) (entries : List SweepEntry) : Roster :=
  mergeInto setup now { roster with live := .empty } entries

/-- Fold in one machine that was read on its own. -/
def Roster.applyOne (setup : Setup) (now : Int) (roster : Roster) (entry : SweepEntry) : Roster :=
  mergeInto setup now roster [entry]

end BoredManager.Fleet.Sweeps
