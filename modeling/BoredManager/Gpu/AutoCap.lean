import BoredManager.Js.OrderedMap
import BoredManager.Shared.Shell
import Mathlib.Data.List.Sort

/-! The automatic power cap of the GPU module: a watcher that reads which GPUs are busy and puts the
idle or the running cap on each, while its configuration is changed by other calls. What runs between
two awaits is one step. -/
namespace BoredManager.Gpu
open BoredManager.Js BoredManager.Shared

inductive AutoCapTrigger where
  | docker | gpu
deriving DecidableEq

structure AutoCapGpu where
  idleCap : Nat
  runningCap : Nat
deriving DecidableEq

structure AutoCapConfig where
  enabled : Bool
  intervalSec : Nat
  trigger : AutoCapTrigger
  gpus : OrderedMap Nat AutoCapGpu
deriving DecidableEq

/-- `Object.keys` of the configured GPUs: integer keys come in ascending order. -/
def AutoCapConfig.indexes (cfg : AutoCapConfig) : List Nat := cfg.gpus.keys.insertionSort (· ≤ ·)

/-- What the last metrics reading says of a GPU. -/
structure GpuInfo where
  index : Nat
  powerMin : Rat
  powerMax : Rat

/-! ### Checks of a call -/

/-- `Math.round`. -/
def round (value : Rat) : Int := (value + 1 / 2).floor

/-- The watts that this GPU will accept; `none` for a value that is no finite number. -/
def checkWatts (gpu : GpuInfo) (watts : Option Rat) : Option Nat :=
  watts.bind fun watts =>
    let value := round watts
    if value ≤ 0 then none
    else if (0 < gpu.powerMin ∧ (value : Rat) < gpu.powerMin) ∨
        (0 < gpu.powerMax ∧ gpu.powerMax < (value : Rat)) then none
    else some value.toNat

def checkSeconds (intervalSec : Option Rat) : Option Nat :=
  intervalSec.bind fun seconds =>
    let seconds := round seconds
    if seconds < 2 ∨ 3600 < seconds then none else some seconds.toNat

def checkTrigger (trigger : Text) : Option AutoCapTrigger :=
  if trigger = js "docker" then some .docker
  else if trigger = js "gpu" then some .gpu
  else none

/-- A call as a client makes it; `gpu` is `gpuAt(index)` at that moment. -/
inductive Call where
  | autoCapSet (gpu : Option GpuInfo) (idleCap runningCap : Option Rat)
  | autoCapClear (index : Nat)
  | autoCapConfigure (intervalSec : Option Rat) (trigger : Text)
  | autoCapStart
  | autoCapStop

/-- A call that has passed its checks. -/
inductive Change where
  | set (index : Nat) (caps : AutoCapGpu)
  | clear (index : Nat)
  | configure (intervalSec : Nat) (trigger : AutoCapTrigger)
  | start
  | stop
deriving DecidableEq

def Call.check (cfg : AutoCapConfig) : Call → Option Change
  | .autoCapSet gpu idleCap runningCap => do
    let gpu ← gpu
    let idle ← checkWatts gpu idleCap
    let running ← checkWatts gpu runningCap
    return .set gpu.index ⟨idle, running⟩
  | .autoCapClear index => if cfg.gpus.has index then some (.clear index) else none
  | .autoCapConfigure intervalSec trigger => do
    let seconds ← checkSeconds intervalSec
    let trigger ← checkTrigger trigger
    return .configure seconds trigger
  | .autoCapStart => if cfg.gpus.keys = [] then none else some .start
  | .autoCapStop => some .stop

/-! ### The busy reading -/

structure ExecResult where
  code : Option Int
  stdout : Text

/-- Which of these GPUs count as busy; `num` reads a number from the front of a text. -/
def readBusy (num : Text → Rat) (trigger : AutoCapTrigger) (indexes : List Nat) (res : ExecResult) :
    Option (OrderedMap Nat Bool) :=
  let out := OrderedMap.ofList (indexes.map fun index => (index, false))
  match trigger with
  | .docker =>
    if res.code ≠ some 0 then none
    else
      let anyRunning := decide (0 < (trim res.stdout).length)
      some (indexes.foldl (fun out index => out.set index anyRunning) out)
  | .gpu =>
    let sections := splitSections res.stdout
    let procRc := trim ((sections.get? (js "PROCRC")).getD [])
    let uuidRc := trim ((sections.get? (js "UUIDRC")).getD [])
    if procRc ≠ js "0" ∨ uuidRc ≠ js "0" then none
    else
      let lines := fun key => (trim ((sections.get? (js key)).getD [])).splitOn 10
      let byUuid := (lines "UUID").foldl (fun (byUuid : OrderedMap Text Rat) line =>
        match (line.splitOn 44).map trim with
        | index :: uuid :: _ => byUuid.set uuid (num index)
        | _ => byUuid) OrderedMap.empty
      some ((lines "PROCS").foldl (fun (out : OrderedMap Nat Bool) line =>
        match byUuid.get? (trim line) with
        | some index =>
          match out.keys.find? fun key => decide (((key : Nat) : Rat) = index) with
          | some key => out.set key true
          | none => out
        | none => out) out)

/-- The cap for a GPU that is busy, or not. -/
def AutoCapGpu.target (caps : AutoCapGpu) (isBusy : Bool) : Nat :=
  if isBusy then caps.runningCap else caps.idleCap

/-- `busy.get(index) === true`. -/
def isBusy (busy : OrderedMap Nat Bool) (index : Nat) : Bool := (busy.get? index).getD false

/-! ### The watcher -/

/-- A tick waits for its busy reading or for a command; `rest` are the GPUs after that one. -/
inductive TickPhase where
  | reading
  | capping (index target : Nat) (busy : OrderedMap Nat Bool) (rest : List Nat)
deriving DecidableEq

/-- `reading` is the number of its busy reading, `version` that of the configuration when it began;
`clean` as long as no command of it has failed. -/
structure Tick where
  generation : Nat
  indexes : List Nat
  trigger : AutoCapTrigger
  reading : Nat
  version : Nat
  clean : Bool
  phase : TickPhase
deriving DecidableEq

/-- A command that was started: the configuration and its version at that moment, the reading it
rests on, and what had been stopped and cleared. -/
structure Started where
  index : Nat
  watts : Nat
  config : AutoCapConfig
  version : Nat
  busy : OrderedMap Nat Bool
  reading : Nat
  readVersion : Nat
  stopped : Bool
  cleared : List Nat
deriving DecidableEq

/-- A tick that ran to its end and whose commands all succeeded, with the last successful command of
every GPU. -/
structure Ended where
  config : AutoCapConfig
  busy : OrderedMap Nat Bool
  onGpu : OrderedMap Nat Nat
deriving DecidableEq

/-- `waiting` are the calls in `pauseAutoCapWork`. The fields from `version` on only record what
happened: `onGpu` is the last successful command of each GPU, `stopped` and `cleared` the calls that
have resolved and no later Start or Set has undone. -/
structure Watcher where
  cfg : AutoCapConfig
  applied : OrderedMap Nat Nat
  generation : Nat
  connected : Bool
  autoCapMs : Nat
  work : Option Tick
  waiting : List Change
  version : Nat
  readings : Nat
  failed : List Nat
  stopped : Bool
  cleared : List Nat
  onGpu : OrderedMap Nat Nat
  inFlight : Nat
  started : List Started
  ended : List Ended

inductive Capped where
  | ok | failed | threw
deriving DecidableEq

/-- `calls` are the calls that come in before the first of them goes on from its `await`. -/
inductive WatcherEvent where
  | tick
  | readDone (res : ExecResult)
  | readThrew
  | capped (result : Capped)
  | calls (batch : List Call)
  | reset
  | connection (up : Bool)
  | applyAutoCap

namespace Watcher

def start (cfg : AutoCapConfig) (connected : Bool) : Watcher :=
  ⟨cfg, .empty, 0, connected, 0, none, [], 0, 0, [], false, [], .empty, 0, [], []⟩

/-! ### The poller -/

/-- `runAutoCapTick`, up to its busy reading. -/
def runAutoCapTick (s : Watcher) : Watcher :=
  if s.work.isSome then s
  else if s.connected = false ∨ s.cfg.enabled = false ∨ s.cfg.indexes = [] then s
  else { s with
    work := some ⟨s.generation, s.cfg.indexes, s.cfg.trigger, s.readings, s.version, true, .reading⟩
    readings := s.readings + 1 }

def wanted (s : Watcher) : Nat :=
  if s.connected = true ∧ s.cfg.enabled = true ∧ 0 < s.cfg.gpus.keys.length then
    max 2 s.cfg.intervalSec * 1000
  else 0

/-- The poller gets the interval that is wanted; starting it ticks at once. -/
def applyPoller (s : Watcher) : Watcher :=
  if s.wanted = s.autoCapMs then s
  else if 0 < s.wanted then { s with autoCapMs := s.wanted }.runAutoCapTick
  else { s with autoCapMs := 0 }

def stopWatcher (s : Watcher) : Watcher := { s with generation := s.generation + 1, autoCapMs := 0 }

/-! ### Changes of the configuration -/

def saveAutoCap (s : Watcher) : Watcher :=
  { s with generation := s.generation + 1, version := s.version + 1 }.applyPoller

def change (s : Watcher) : Change → Watcher
  | .set index caps =>
    { s with
      cfg := { s.cfg with gpus := s.cfg.gpus.set index caps, enabled := true }
      applied := s.applied.erase index
      stopped := false
      cleared := s.cleared.filter (· ≠ index) }.saveAutoCap
  | .clear index =>
    let gpus := s.cfg.gpus.erase index
    { s with
      cfg := { s.cfg with gpus := gpus, enabled := s.cfg.enabled && decide (gpus.keys ≠ []) }
      applied := s.applied.erase index
      cleared := index :: s.cleared }.saveAutoCap
  | .configure intervalSec trigger =>
    { s with cfg := { s.cfg with intervalSec := intervalSec, trigger := trigger } }.saveAutoCap
  | .start => { s with cfg := { s.cfg with enabled := true }, stopped := false }.saveAutoCap
  | .stop =>
    { s with
      cfg := { s.cfg with enabled := false }
      applied := .empty
      stopped := true }.saveAutoCap

/-- The calls that waited go on, one after the other. -/
def release (s : Watcher) : Watcher := s.waiting.foldl change { s with waiting := [] }

/-- A call up to the end of its `pauseAutoCapWork`. -/
def enter (s : Watcher) (call : Call) : Watcher :=
  match call.check s.cfg with
  | none => s
  | some change => { s.stopWatcher with waiting := s.waiting ++ [change] }

def calls (s : Watcher) (batch : List Call) : Watcher :=
  let s := batch.foldl enter s
  if s.work.isSome then s else s.release

/-! ### The tick -/

/-- The tick is fulfilled. -/
def fulfil (s : Watcher) : Watcher := { s with work := none }.release

/-- The tick rejected, and with it the calls that wait for it. -/
def reject (s : Watcher) : Watcher := { s with work := none, waiting := [] }

/-- The loop of a tick, up to its next command. -/
def capNext (s : Watcher) (tick : Tick) (busy : OrderedMap Nat Bool) : List Nat → Watcher
  | [] =>
    { s with ended := if tick.clean then s.ended ++ [Ended.mk s.cfg busy s.onGpu] else s.ended }.fulfil
  | index :: rest =>
    if tick.generation ≠ s.generation ∨ s.cfg.enabled = false then s.fulfil
    else match s.cfg.gpus.get? index with
      | none => s.capNext tick busy rest
      | some caps =>
        let target := caps.target (isBusy busy index)
        if s.applied.get? index = some target then s.capNext tick busy rest
        else { s with
          work := some { tick with phase := .capping index target busy rest }
          inFlight := s.inFlight + 1
          started := s.started ++ [Started.mk index target s.cfg s.version busy tick.reading
            tick.version s.stopped s.cleared] }

/-- The tick that waits for its reading goes on with it. -/
def readDone (num : Text → Rat) (s : Watcher) (res : ExecResult) : Watcher :=
  match s.work with
  | some ⟨generation, indexes, trigger, reading, version, clean, .reading⟩ =>
    let tick : Tick := ⟨generation, indexes, trigger, reading, version, clean, .reading⟩
    match readBusy num trigger indexes res with
    | none => { s with failed := reading :: s.failed }.fulfil
    | some busy =>
      if generation ≠ s.generation ∨ s.connected = false ∨ s.cfg.enabled = false then s.fulfil
      else s.capNext tick busy indexes
  | _ => s

def readThrew (s : Watcher) : Watcher :=
  match s.work with
  | some ⟨_, _, _, reading, _, _, .reading⟩ => { s with failed := reading :: s.failed }.reject
  | _ => s

/-- The command in flight ends. -/
def capped (s : Watcher) (result : Capped) : Watcher :=
  match s.work with
  | some ⟨generation, indexes, trigger, reading, version, clean, .capping index target busy rest⟩ =>
    let s := { s with
      inFlight := s.inFlight - 1
      onGpu := if result = Capped.ok then s.onGpu.set index target else s.onGpu }
    let tick : Tick := ⟨generation, indexes, trigger, reading, version,
      clean && decide (result = Capped.ok), .reading⟩
    if result = Capped.threw then s.reject
    else if generation ≠ s.generation ∨ s.cfg.enabled = false then s.fulfil
    else { s with
      applied := if result = Capped.ok then s.applied.set index target else s.applied }.capNext
        tick busy rest
  | _ => s

def step (num : Text → Rat) (s : Watcher) : WatcherEvent → Watcher
  | .tick => if 0 < s.autoCapMs then s.runAutoCapTick else s
  | .readDone res => s.readDone num res
  | .readThrew => s.readThrew
  | .capped result => s.capped result
  | .calls batch => s.calls batch
  | .reset => s.stopWatcher
  | .connection up => { s with connected := up }
  | .applyAutoCap => s.applyPoller

end Watcher
end BoredManager.Gpu
