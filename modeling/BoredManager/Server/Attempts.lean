import BoredManager.Js.Outcome
import BoredManager.Machine.Runs
import BoredManager.Server.Connection
import Mathlib.Logic.Relation
import Mathlib.Data.List.Perm.Basic

/-! The connection of a machine: the attempts that build an executor for it, the executor that is
current, and those that have been passed to `dispose`. What runs between two awaits is one step, and
the steps of several requests come in any order. -/
namespace BoredManager.Server.Attempts
open BoredManager.Js BoredManager.Machine

inductive ConnectionPhase where
  | idle | connecting | connected | disconnecting
deriving DecidableEq

inductive Mode where
  | localHost | ssh
deriving DecidableEq

structure CommittedConfig where
  mode : Mode
  label : Option Text
  host : Option Text
  username : Option Text
deriving DecidableEq

/-- Without a password for `sudo` it is empty. -/
structure ConnectionConfig extends CommittedConfig where
  sudoPassword : Text
deriving DecidableEq

structure ExecResult where
  code : Int
  stdout : Text
  stderr : Text
deriving DecidableEq

/-- What the commands of a probe give, or how they reject. -/
structure Answers where
  probe : Except Text ExecResult
  passwordless : Except Text ExecResult
  verified : Except Text ExecResult

structure Capability where
  sudoState : SudoState
  sudoPasswordRejected : Bool
  warning : Option Text
deriving DecidableEq

def probeCandidate (sudoPassword : Text) (answers : Answers) : Except Text Capability := do
  let probe ← answers.probe
  if probe.code ≠ 0 then
    throw (js "Target shell probe failed: " ++ if probe.stderr = [] then probe.stdout else probe.stderr)
  let lines := ((splitLines probe.stdout).map trim).filter (· ≠ [])
  let uid := lines[0]?.getD []
  let kernel := lines[1]?.getD []
  if uid = [] ∨ uid.all isDigit = false ∨ toLowerAscii kernel ≠ js "linux" then
    throw (js "Target must be Linux and return a numeric uid")
  if uid = js "0" then return ⟨.root, false, none⟩
  let passwordless ← answers.passwordless
  if passwordless.code = 0 then return ⟨.passwordless, false, none⟩
  if sudoPassword = [] then return ⟨.none, false, none⟩
  let verified ← answers.verified
  if verified.code = 0 then return ⟨.passwordVerified, false, none⟩
  return ⟨.none, true, some (js "Connected, but the sudo password was rejected")⟩

/-- How an attempt settles; executors are numbered as they are built. -/
inductive Outcome where
  | connected (executor : Nat) (capability : Capability)
  | cancelled
  | failed (error : Text)
deriving DecidableEq

/-- `committed` awaits the disposal of the executor that it replaced, `failing` that of its own, with
the error that it has caught, which is none if the attempt was cancelled. -/
inductive Stage where
  | building
  | probing (candidate : Nat)
  | committed (executor : Nat) (capability : Capability)
  | failing (error : Option Text)
  | settled (outcome : Outcome)
deriving DecidableEq

/-- An attempt. `listed` says that its controller is in `attemptAborts`, `cleaned` that its `finally`
has run, so that it is no longer in `attempts`. -/
structure Attempt where
  generation : Nat
  cfg : ConnectionConfig
  stage : Stage
  aborted : Bool
  listed : Bool
  cleaned : Bool
deriving DecidableEq

/-- A `disconnect`, and the attempts that it awaits. -/
structure Disconnect where
  generation : Nat
  pending : List Nat
  settled : Bool
deriving DecidableEq

/-- `registered` are the executors whose loss is listened to, with the generation they became active
in. `disposed` are those passed to `dispose`, in that order. -/
structure ConnectionManager where
  executor : Option Nat
  config : Option CommittedConfig
  sudoState : SudoState
  sudoPassword : Text
  phase : ConnectionPhase
  requestGeneration : Nat
  activeGeneration : Nat
  attempts : List Attempt
  disconnects : List Disconnect
  registered : List (Nat × Nat)
  lostExecutors : List Nat
  built : Nat
  disposed : List Nat

def start : ConnectionManager := ⟨none, none, .none, [], .idle, 0, 0, [], [], [], [], 0, []⟩

/-- What a caller, or the synchronous hook before a swap, can ask for. -/
inductive Request where
  | connect (cfg : ConnectionConfig)
  | disconnect
deriving DecidableEq

def Stage.isSettled : Stage → Bool
  | .settled _ => true
  | _ => false

namespace ConnectionManager
variable (s : ConnectionManager)

/-- `for (const controller of this.attemptAborts.values()) controller.abort()` -/
def abortAll : List Attempt := s.attempts.map fun a => { a with aborted := a.aborted || a.listed }

def connect (cfg : ConnectionConfig) : ConnectionManager := {
  s with
  requestGeneration := s.requestGeneration + 1
  attempts := s.abortAll ++ [⟨s.requestGeneration + 1, cfg, .building, false, true, false⟩]
  phase := .connecting }

/-- The attempts whose `finally` has not run. -/
def pending : List Nat :=
  (List.range s.attempts.length).filter fun i => s.attempts[i]?.any fun a => !a.cleaned

def disconnect : ConnectionManager := {
  s with
  requestGeneration := s.requestGeneration + 1
  phase := .disconnecting
  attempts := s.abortAll.map fun a => { a with listed := false }
  executor := none
  config := none
  sudoState := .none
  sudoPassword := []
  activeGeneration := s.activeGeneration + 1
  disposed := s.disposed ++ s.executor.toList
  disconnects := s.disconnects ++ [⟨s.requestGeneration + 1, s.pending, false⟩] }

def request : Request → ConnectionManager
  | .connect cfg => s.connect cfg
  | .disconnect => s.disconnect

def withStage (i : Nat) (a : Attempt) (stage : Stage) : ConnectionManager :=
  { s with attempts := s.attempts.set i { a with stage } }

/-- `assertCurrentAttempt` passes. -/
def isCurrent (a : Attempt) : Bool := !a.aborted && a.generation == s.requestGeneration

/-- The phase when nothing is under way. -/
def restPhase : ConnectionPhase := if s.executor.isSome then .connected else .idle

/-- What the end of the `catch` throws. -/
def rejection (a : Attempt) : Option Text → Outcome
  | some error => if s.isCurrent a = true then .failed error else .cancelled
  | none => .cancelled

/-- The end of the `catch`. -/
def thrown (i : Nat) (a : Attempt) (error : Option Text) : ConnectionManager := {
  s.withStage i a (.settled (s.rejection a error)) with
  phase := if a.generation = s.requestGeneration then s.restPhase else s.phase }

/-- The `catch` with a candidate, whose disposal it awaits. -/
def discard (i : Nat) (a : Attempt) (candidate : Nat) (error : Option Text) : ConnectionManager :=
  { s.withStage i a (.failing error) with disposed := s.disposed ++ [candidate] }

/-- `buildExecutor` settles. -/
def builtExecutor (i : Nat) (result : Except Text Unit) : ConnectionManager :=
  match s.attempts[i]? with
  | some ⟨generation, cfg, .building, aborted, listed, cleaned⟩ =>
    let a : Attempt := ⟨generation, cfg, .building, aborted, listed, cleaned⟩
    match result with
    | .error error => s.thrown i a (some error)
    | .ok () =>
      let t := { s with built := s.built + 1 }
      if s.isCurrent a = true then t.withStage i a (.probing s.built) else t.discard i a s.built none
  | _ => s

/-- The candidate is published, and the executor that it replaces is passed to `dispose`. -/
def publish (i : Nat) (a : Attempt) (candidate : Nat) (capability : Capability) (old : Option Nat) :
    ConnectionManager :=
  { s.withStage i a (if old.isSome then .committed candidate capability
      else .settled (.connected candidate capability)) with
    activeGeneration := s.activeGeneration + 1
    executor := some candidate
    config := some a.cfg.toCommittedConfig
    sudoState := capability.sudoState
    sudoPassword := if capability.sudoState = .passwordVerified then a.cfg.sudoPassword else []
    phase := .connected
    registered := s.registered ++ [(candidate, s.activeGeneration + 1)]
    disposed := s.disposed ++ old.toList }

/-- `beforeSwap` makes its requests, if there is an executor to replace. -/
def beforeSwap (hook : List Request) : ConnectionManager :=
  if s.executor.isSome then hook.foldl request s else s

/-- The probe has passed: the hook runs, which may throw, and the attempt is checked once more. -/
def swap (i candidate : Nat) (capability : Capability) (hook : List Request)
    (hookError : Option Text) : ConnectionManager :=
  let t := s.beforeSwap hook
  match t.attempts[i]? with
  | some a =>
    if s.executor.isSome ∧ hookError.isSome then t.discard i a candidate hookError
    else if t.isCurrent a = true then t.publish i a candidate capability s.executor
    else t.discard i a candidate none
  | none => t

/-- The probe settles. -/
def probed (i : Nat) (answers : Answers) (hook : List Request) (hookError : Option Text) :
    ConnectionManager :=
  match s.attempts[i]? with
  | some ⟨generation, cfg, .probing candidate, aborted, listed, cleaned⟩ =>
    let a : Attempt := ⟨generation, cfg, .probing candidate, aborted, listed, cleaned⟩
    match probeCandidate cfg.sudoPassword answers with
    | .error error => s.discard i a candidate (some error)
    | .ok capability =>
      if s.isCurrent a = true then s.swap i candidate capability hook hookError
      else s.discard i a candidate none
  | _ => s

/-- The `dispose` that an attempt awaits is over. -/
def disposalEnded (i : Nat) : ConnectionManager :=
  match s.attempts[i]? with
  | some ⟨generation, cfg, .failing error, aborted, listed, cleaned⟩ =>
    s.thrown i ⟨generation, cfg, .failing error, aborted, listed, cleaned⟩ error
  | some ⟨generation, cfg, .committed executor capability, aborted, listed, cleaned⟩ =>
    s.withStage i ⟨generation, cfg, .committed executor capability, aborted, listed, cleaned⟩
      (.settled (.connected executor capability))
  | _ => s

/-- The `finally` behind an attempt. -/
def cleaned (i : Nat) : ConnectionManager :=
  match s.attempts[i]? with
  | some ⟨generation, cfg, .settled outcome, aborted, _, false⟩ => {
    s with
    attempts := s.attempts.set i ⟨generation, cfg, .settled outcome, aborted, false, true⟩
    phase := if generation = s.requestGeneration ∧ s.executor = none ∧ s.phase = .connecting then .idle
      else s.phase }
  | _ => s

/-- The loss reaches the executor that is current. -/
def isLoss (executor generation : Nat) : Bool :=
  decide ((executor, generation) ∈ s.registered ∧ s.executor = some executor ∧
    s.activeGeneration = generation ∧ executor ∉ s.lostExecutors)

/-- `handleConnectionLost` of an executor, with the generation it became active in. -/
def handleConnectionLost (executor generation : Nat) : ConnectionManager :=
  if s.isLoss executor generation = true then {
    s with
    lostExecutors := s.lostExecutors ++ [executor]
    executor := none
    config := none
    sudoPassword := []
    sudoState := .none
    activeGeneration := s.activeGeneration + 1
    phase := if s.attempts.any Attempt.listed = true then .connecting else .idle
    disposed := s.disposed ++ [executor] }
  else s

/-- A `disconnect` whose attempts have settled resolves. -/
def disconnected (k : Nat) : ConnectionManager :=
  match s.disconnects[k]? with
  | some ⟨generation, pending, false⟩ =>
    if pending.all (fun i => s.attempts[i]?.all fun a => a.stage.isSettled) = true then {
      s with
      disconnects := s.disconnects.set k ⟨generation, pending, true⟩
      phase := if generation = s.requestGeneration then s.restPhase else s.phase }
    else s
  | _ => s

end ConnectionManager

inductive Event where
  | request (request : Request)
  | builtExecutor (attempt : Nat) (result : Except Text Unit)
  | probed (attempt : Nat) (answers : Answers) (hook : List Request) (hookError : Option Text)
  | disposalEnded (attempt : Nat)
  | cleaned (attempt : Nat)
  | lost (executor generation : Nat)
  | disconnected (disconnect : Nat)

def step (s : ConnectionManager) : Event → ConnectionManager
  | .request request => s.request request
  | .builtExecutor i result => s.builtExecutor i result
  | .probed i answers hook hookError => s.probed i answers hook hookError
  | .disposalEnded i => s.disposalEnded i
  | .cleaned i => s.cleaned i
  | .lost executor generation => s.handleConnectionLost executor generation
  | .disconnected k => s.disconnected k

structure ConnectionStatus where
  mode : Mode
  label : Option Text
  host : Option Text
  username : Option Text
  isRoot : Bool
  hasSudo : Bool
deriving DecidableEq

/-- `status()`: none is `{ connected: false }`. -/
def ConnectionManager.status (s : ConnectionManager) : Option ConnectionStatus :=
  match s.executor, s.config with
  | some _, some config => some {
    mode := config.mode
    label := config.label
    host := if config.mode = .localHost then some (js "localhost") else config.host
    username := config.username
    isRoot := decide (s.sudoState = .root)
    hasSudo := decide (s.sudoState ≠ .none) }
  | _, _ => none

/-- The status that the hook before a swap is told. -/
def statusFor (cfg : ConnectionConfig) (sudoState : SudoState) : ConnectionStatus where
  mode := cfg.mode
  label := cfg.label
  host := if cfg.mode = .localHost then some (js "localhost") else cfg.host
  username := cfg.username
  isRoot := decide (sudoState = .root)
  hasSudo := decide (sudoState ≠ .none)

/-! ### What one step can do -/

def Attempt.candidate (a : Attempt) : Option Nat :=
  match a.stage with
  | .probing candidate => some candidate
  | _ => none

/-- The executor that the attempt has published, and what its probe has found. -/
def Attempt.published (a : Attempt) : Option (Nat × Capability) :=
  match a.stage with
  | .committed executor capability => some (executor, capability)
  | .settled (.connected executor capability) => some (executor, capability)
  | _ => none

variable {s t u : ConnectionManager} {i : Nat} {a b : Attempt}

/-- What happens to the state at once, the loss of an executor apart. -/
inductive Small (s : ConnectionManager) : ConnectionManager → Prop
  | request (request : Request) : Small s (s.request request)
  | thrown (i : Nat) (a : Attempt) (error : Option Text) (hget : s.attempts[i]? = some a)
      (hopen : a.stage = .building ∨ ∃ error, a.stage = .failing error) : Small s (s.thrown i a error)
  | probing (i : Nat) (a : Attempt) (hget : s.attempts[i]? = some a) (hstage : a.stage = .building) :
      Small s ({ s with built := s.built + 1 }.withStage i a (.probing s.built))
  | stillborn (i : Nat) (a : Attempt) (hget : s.attempts[i]? = some a) (hstage : a.stage = .building) :
      Small s ({ s with built := s.built + 1 }.discard i a s.built none)
  | discard (i : Nat) (a : Attempt) (candidate : Nat) (error : Option Text)
      (hget : s.attempts[i]? = some a) (hstage : a.stage = .probing candidate) :
      Small s (s.discard i a candidate error)
  | publish (i : Nat) (a : Attempt) (candidate : Nat) (capability : Capability)
      (hget : s.attempts[i]? = some a) (hstage : a.stage = .probing candidate)
      (hcurrent : s.isCurrent a = true) (answers : Answers)
      (hprobe : probeCandidate a.cfg.sudoPassword answers = .ok capability) :
      Small s (s.publish i a candidate capability s.executor)
  | replaced (i : Nat) (a : Attempt) (executor : Nat) (capability : Capability)
      (hget : s.attempts[i]? = some a) (hstage : a.stage = .committed executor capability) :
      Small s (s.withStage i a (.settled (.connected executor capability)))
  | cleaned (i : Nat) : Small s (s.cleaned i)
  | disconnected (k : Nat) : Small s (s.disconnected k)

/-- The same attempt, but for what requests change. -/
structure Alike (a b : Attempt) : Prop where
  generation : b.generation = a.generation
  cfg : b.cfg = a.cfg
  stage : b.stage = a.stage
  cleaned : b.cleaned = a.cleaned

theorem getElem?_abortAll (hget : s.attempts[i]? = some a) :
    ∃ b, s.abortAll[i]? = some b ∧ Alike a b := by
  refine ⟨{ a with aborted := a.aborted || a.listed }, ?_, rfl, rfl, rfl, rfl⟩
  rw [ConnectionManager.abortAll, List.getElem?_map, hget]
  rfl

/-- A request keeps the attempts. -/
theorem getElem?_request (hget : s.attempts[i]? = some a) (request : Request) :
    ∃ b, (s.request request).attempts[i]? = some b ∧ Alike a b := by
  obtain ⟨b, habort, halike⟩ := getElem?_abortAll hget
  cases request with
  | connect cfg =>
    have hlength : i < s.abortAll.length := (List.getElem?_eq_some_iff.mp habort).1
    exact ⟨b, (List.getElem?_append_left hlength).trans habort, halike⟩
  | disconnect =>
    refine ⟨{ b with listed := false }, ?_, halike.generation, halike.cfg, halike.stage, halike.cleaned⟩
    change (s.abortAll.map _)[i]? = _
    rw [List.getElem?_map, habort]
    rfl

theorem requestGeneration_request (request : Request) :
    (s.request request).requestGeneration = s.requestGeneration + 1 := by
  cases request <;> rfl

theorem getElem?_requests (hget : s.attempts[i]? = some a) (hook : List Request) :
    ∃ b, (hook.foldl ConnectionManager.request s).attempts[i]? = some b ∧ Alike a b := by
  induction hook generalizing s a with
  | nil => exact ⟨a, hget, rfl, rfl, rfl, rfl⟩
  | cons request hook ih =>
    obtain ⟨b, hnext, halike⟩ := getElem?_request hget request
    obtain ⟨c, hlast, hsame⟩ := ih hnext
    exact ⟨c, hlast, hsame.generation.trans halike.generation, hsame.cfg.trans halike.cfg,
      hsame.stage.trans halike.stage, hsame.cleaned.trans halike.cleaned⟩

/-- Each request is a new generation. -/
theorem requestGeneration_requests (hook : List Request) :
    (hook.foldl ConnectionManager.request s).requestGeneration = s.requestGeneration + hook.length := by
  induction hook generalizing s with
  | nil => rfl
  | cons request hook ih =>
    rw [List.foldl_cons, ih, requestGeneration_request, List.length_cons]
    omega

theorem small_requests (hook : List Request) :
    Relation.ReflTransGen Small s (hook.foldl ConnectionManager.request s) := by
  induction hook generalizing s with
  | nil => exact .refl
  | cons request hook ih => exact .head (.request request) ih

/-- The hook either makes no request, or the attempt that it was called for is superseded. -/
theorem small_swap {candidate : Nat} (hget : s.attempts[i]? = some a)
    (hstage : a.stage = .probing candidate) (hcurrent : s.isCurrent a = true) {capability : Capability}
    {answers : Answers} (hprobe : probeCandidate a.cfg.sudoPassword answers = .ok capability)
    (hook : List Request) (hookError : Option Text) :
    Relation.ReflTransGen Small s (s.swap i candidate capability hook hookError) := by
  have hgeneration : a.generation = s.requestGeneration := by
    rw [ConnectionManager.isCurrent, Bool.and_eq_true, beq_iff_eq] at hcurrent
    exact hcurrent.2
  have hbefore : ∃ b, (s.beforeSwap hook).attempts[i]? = some b ∧ Alike a b := by
    rw [ConnectionManager.beforeSwap]
    split
    · exact getElem?_requests hget hook
    · exact ⟨a, hget, rfl, rfl, rfl, rfl⟩
  have hsmall : Relation.ReflTransGen Small s (s.beforeSwap hook) := by
    rw [ConnectionManager.beforeSwap]
    split
    · exact small_requests hook
    · exact .refl
  obtain ⟨b, hbefore, halike⟩ := hbefore
  have hprobing : b.stage = .probing candidate := halike.stage.trans hstage
  rw [ConnectionManager.swap, hbefore]
  dsimp only
  split
  · exact hsmall.tail (.discard i b candidate hookError hbefore hprobing)
  · split
    · rename_i hstill
      have hsame : s.beforeSwap hook = s := by
        rw [ConnectionManager.isCurrent, Bool.and_eq_true, beq_iff_eq] at hstill
        have hgen := hstill.2
        rw [halike.generation, hgeneration] at hgen
        rw [ConnectionManager.beforeSwap] at hgen ⊢
        split at hgen
        · rw [requestGeneration_requests] at hgen
          have hnil : hook = [] := List.length_eq_zero_iff.mp (by omega)
          rw [hnil, List.foldl_nil, ite_self]
        · rename_i hnone
          rw [if_neg hnone]
      rw [hsame] at hbefore hstill ⊢
      exact .single (.publish i b candidate capability hbefore hprobing hstill answers (halike.cfg ▸ hprobe))
    · exact hsmall.tail (.discard i b candidate none hbefore hprobing)

/-- Every event is a loss or a sequence of small steps. -/
theorem small_step (s : ConnectionManager) (event : Event) :
    Relation.ReflTransGen Small s (step s event) ∨
      ∃ executor generation, event = .lost executor generation := by
  cases event with
  | request request => exact .inl (.single (.request request))
  | lost executor generation => exact .inr ⟨executor, generation, rfl⟩
  | cleaned i => exact .inl (.single (.cleaned i))
  | disconnected k => exact .inl (.single (.disconnected k))
  | builtExecutor i result =>
    left
    rw [step, ConnectionManager.builtExecutor]
    split
    · rename_i hget
      dsimp only
      split
      · exact .single (.thrown i _ _ hget (.inl rfl))
      · split
        · exact .single (.probing i _ hget rfl)
        · exact .single (.stillborn i _ hget rfl)
    · exact .refl
  | probed i answers hook hookError =>
    left
    rw [step, ConnectionManager.probed]
    split
    · rename_i hget
      dsimp only
      split
      · exact .single (.discard i _ _ _ hget rfl)
      · rename_i hprobe
        split
        · rename_i hcurrent
          exact small_swap hget rfl hcurrent hprobe hook hookError
        · exact .single (.discard i _ _ _ hget rfl)
    · exact .refl
  | disposalEnded i =>
    left
    rw [step, ConnectionManager.disposalEnded]
    split
    · rename_i hget
      exact .single (.thrown i _ _ hget (.inr ⟨_, rfl⟩))
    · rename_i hget
      exact .single (.replaced i _ _ _ hget rfl)
    · exact .refl

/-- What small steps and losses keep holds after every event. -/
theorem step_keeps {inv : ConnectionManager → Prop} (hsmall : ∀ s t, Small s t → inv s → inv t)
    (hlost : ∀ s executor generation, inv s → inv (s.handleConnectionLost executor generation))
    (s : ConnectionManager) (event : Event) (h : inv s) : inv (step s event) := by
  obtain hsteps | ⟨executor, generation, rfl⟩ := small_step s event
  · generalize step s event = t at hsteps
    induction hsteps with
    | refl => exact h
    | tail _ hlast ih => exact hsmall _ _ hlast ih
  · exact hlost s executor generation h

/-! ### Every executor has one owner -/

def ConnectionManager.candidates (s : ConnectionManager) : List Nat :=
  s.attempts.filterMap Attempt.candidate

/-- The executors by who answers for them: those passed to `dispose`, the current one, and the
candidates of the attempts that probe. -/
def ConnectionManager.owned (s : ConnectionManager) : List Nat :=
  s.disposed ++ s.executor.toList ++ s.candidates

theorem count_owned (e : Nat) :
    s.owned.count e = s.disposed.count e + s.executor.toList.count e + s.candidates.count e := by
  rw [ConnectionManager.owned, List.count_append, List.count_append]

/-- A step of one attempt takes away its candidate and puts the new one in its place. -/
theorem count_candidates_set {l : List Attempt} (hget : l[i]? = some a) (b : Attempt) (e : Nat) :
    ((l.set i b).filterMap Attempt.candidate).count e + a.candidate.toList.count e =
      (l.filterMap Attempt.candidate).count e + b.candidate.toList.count e := by
  induction l generalizing i with
  | nil => cases hget
  | cons c l ih =>
    have hcons : ∀ (c : Attempt) l, ((c :: l).filterMap Attempt.candidate).count e =
        c.candidate.toList.count e + (l.filterMap Attempt.candidate).count e := by
      intro c l
      cases hc : c.candidate with
      | none => rw [List.filterMap_cons_none hc, Option.toList_none, List.count_nil, Nat.zero_add]
      | some d =>
        rw [List.filterMap_cons_some hc, Option.toList_some, ← List.singleton_append, List.count_append]
    cases i with
    | zero =>
      cases hget
      rw [List.set_cons_zero, hcons, hcons]
      omega
    | succ i =>
      have := ih hget
      rw [List.set_cons_succ, hcons, hcons]
      omega

theorem candidates_request (request : Request) : (s.request request).candidates = s.candidates := by
  have habort : s.abortAll.filterMap Attempt.candidate = s.attempts.filterMap Attempt.candidate := by
    rw [ConnectionManager.abortAll, List.filterMap_map]
    rfl
  cases request with
  | connect cfg =>
    change (s.abortAll ++ [_]).filterMap Attempt.candidate = _
    rw [List.filterMap_append, habort]
    exact List.append_nil _
  | disconnect =>
    change (s.abortAll.map _).filterMap Attempt.candidate = _
    rw [List.filterMap_map]
    exact habort

/-- The executors that are owned are those that were built, each once. -/
def Owned (s : ConnectionManager) : Prop := ∀ e, s.owned.count e = (List.range s.built).count e

theorem count_range_succ (n e : Nat) :
    (List.range (n + 1)).count e = (List.range n).count e + [n].count e := by
  rw [List.range_succ, List.count_append]

theorem owned_small (hstep : Small s t) (h : Owned s) : Owned t := by
  intro e
  have hbefore := h e
  rw [count_owned] at hbefore ⊢
  have hset : ∀ {i : Nat} {a : Attempt} {stage : Stage}, s.attempts[i]? = some a → a.stage = stage →
      ∀ b, ((s.attempts.set i b).filterMap Attempt.candidate).count e +
        (Attempt.candidate { a with stage }).toList.count e =
          s.candidates.count e + b.candidate.toList.count e := by
    intro i a stage hget hstage b
    subst hstage
    exact count_candidates_set hget b e
  cases hstep with
  | request request =>
    rw [candidates_request]
    cases request with
    | connect cfg => exact hbefore
    | disconnect =>
      change (s.disposed ++ s.executor.toList).count e + [].count e + _ = _
      rw [List.count_append, List.count_nil]
      exact hbefore
  | thrown i a error hget hopen =>
    have hcount : (s.thrown i a error).candidates.count e = s.candidates.count e := by
      obtain hstage | ⟨error', hstage⟩ := hopen <;> exact hset hget hstage _
    rw [hcount]
    exact hbefore
  | probing i a hget hstage =>
    have hcount := hset hget hstage { a with stage := .probing s.built }
    change s.disposed.count e + s.executor.toList.count e +
      ((s.attempts.set i _).filterMap Attempt.candidate).count e = (List.range (s.built + 1)).count e
    change _ + [].count e = _ + [s.built].count e at hcount
    rw [List.count_nil] at hcount
    rw [count_range_succ]
    omega
  | stillborn i a hget hstage =>
    have hcount := hset hget hstage { a with stage := .failing none }
    change (s.disposed ++ [s.built]).count e + s.executor.toList.count e +
      ((s.attempts.set i _).filterMap Attempt.candidate).count e = (List.range (s.built + 1)).count e
    change _ + [].count e = _ + [].count e at hcount
    rw [count_range_succ, List.count_append]
    omega
  | discard i a candidate error hget hstage =>
    have hcount := hset hget hstage { a with stage := .failing error }
    change (s.disposed ++ [candidate]).count e + s.executor.toList.count e +
      ((s.attempts.set i _).filterMap Attempt.candidate).count e = (List.range s.built).count e
    change _ + [candidate].count e = _ + [].count e at hcount
    rw [List.count_nil] at hcount
    rw [List.count_append]
    omega
  | publish i a candidate capability hget hstage =>
    have hcount : (s.publish i a candidate capability s.executor).candidates.count e +
        [candidate].count e = s.candidates.count e := by
      have hnone : ∀ b : Attempt, b.candidate = none →
          ((s.attempts.set i b).filterMap Attempt.candidate).count e + [candidate].count e =
            s.candidates.count e := by
        intro b hb
        have := hset hget hstage b
        rw [hb] at this
        exact this
      refine hnone _ ?_
      cases s.executor <;> rfl
    change (s.disposed ++ s.executor.toList).count e + [candidate].count e + _ =
      (List.range s.built).count e
    rw [List.count_append]
    omega
  | replaced i a executor capability hget hstage =>
    have hcount := hset hget hstage { a with stage := .settled (.connected executor capability) }
    exact (congrArg (s.disposed.count e + s.executor.toList.count e + ·) hcount).trans hbefore
  | cleaned i =>
    rw [ConnectionManager.cleaned]
    split
    · rename_i hget
      exact (congrArg (s.disposed.count e + s.executor.toList.count e + ·) (hset hget rfl _)).trans hbefore
    · exact hbefore
  | disconnected k =>
    rw [ConnectionManager.disconnected]
    split
    · split <;> exact hbefore
    · exact hbefore

theorem owned_lost (h : Owned s) (executor generation : Nat) :
    Owned (s.handleConnectionLost executor generation) := by
  rw [ConnectionManager.handleConnectionLost]
  split
  · rename_i hloss
    have hcurrent : s.executor = some executor := (of_decide_eq_true hloss).2.1
    intro e
    have hbefore := h e
    rw [count_owned, hcurrent] at hbefore
    rw [count_owned]
    change (s.disposed ++ [executor]).count e + [].count e + s.candidates.count e =
      (List.range s.built).count e
    rw [List.count_append, List.count_nil]
    exact hbefore
  · exact h

theorem owned_of_run (events : List Event) : Owned (run step start events) :=
  List.foldlRecOn events step (fun _ => rfl) fun s h event _ => step_keeps
    (fun _ _ hstep h => owned_small hstep h) (fun _ executor generation h => owned_lost h executor generation)
    s event h

/-- What is built is owned once: by `dispose`, as the current executor, or by an attempt that probes
it. No executor is disposed of twice, and none is lost. -/
theorem executors_owned (events : List Event) :
    (run step start events).owned.Perm (List.range (run step start events).built) :=
  List.perm_iff_count.mpr (owned_of_run events)

end BoredManager.Server.Attempts
