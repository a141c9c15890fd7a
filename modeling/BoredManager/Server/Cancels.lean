import BoredManager.Machine.Locks
import BoredManager.Machine.Runs

/-! Checks and cancels of updates and modules between the router and its handlers: the frames of one
socket are dispatched one after another, a handler runs once its call has the locks it is registered
with, and a check keeps its handler for the whole transfer. -/
namespace BoredManager.Server.Cancels
open BoredManager.Machine

inductive MutationResource where
  | connection | modules | packages | settings | update | users
deriving DecidableEq

/-- `[...new Set(resources)].sort()`. -/
def sortedNames (resources : List MutationResource) : List MutationResource :=
  [.connection, .modules, .packages, .settings, .update, .users].filter fun r => decide (r ∈ resources)

inductive Service where
  | update | modules
deriving DecidableEq

def Service.resource : Service → MutationResource
  | .update => .update
  | .modules => .modules

/-- What a call is registered as: `update:check`, `modules:checkUrl` and the uploads of the two are
checks, `update:cancel` and `modules:cancel` cancels. -/
inductive Method where
  | check (service : Service)
  | cancel (service : Service)
  | other (resources : List MutationResource)
deriving DecidableEq

def Method.resources : Method → List MutationResource
  | .check service => [service.resource]
  | .cancel service => [service.resource]
  | .other resources => resources

/-- `client` is `none` for an upload, which comes by HTTP. -/
structure Call where
  client : Option Nat
  method : Method
deriving DecidableEq

/-- The operation of a service, with the call whose handler waits for it. -/
structure Operation where
  call : Nat
  transferring : Bool
  aborted : Bool
deriving DecidableEq

/-- Calls are known by their place in `calls`, in the order they were accepted. `asked` records each
cancel that was accepted during a transfer, with the check that was transferring; `ended` each
transfer that ended, and whether on its own; `closed` the transfers that the clean close found. -/
structure Host where
  calls : List Call
  locks : Locks MutationResource
  operation : Service → Option Operation
  asked : List (Nat × Nat)
  ended : List (Nat × Bool)
  closed : List Nat

inductive HostEvent where
  | accept (client : Option Nat) (method : Method)
  | dispatch (k : Nat)
  | proceed (k : Nat)
  | begins (k : Nat) (transfers : Bool)
  | transferEnds (k : Nat)
  | settle (k : Nat)
  | cleanClose
deriving DecidableEq

namespace Host

def start : Host := ⟨[], .free, fun _ => none, [], [], []⟩

def setOperation (s : Host) (service : Service) (operation : Option Operation) : Host :=
  { s with operation := fun sv => if sv = service then operation else s.operation sv }

def accept (s : Host) (client : Option Nat) (method : Method) : Host :=
  { s with
    calls := s.calls ++ [⟨client, method⟩]
    asked := match method with
      | .cancel service => match s.operation service with
        | some ⟨check, true, _⟩ => s.asked ++ [(s.calls.length, check)]
        | _ => s.asked
      | _ => s.asked }

/-- The pump of the socket has come to this frame. -/
def Turn (s : Host) (k : Nat) (call : Call) : Prop :=
  call.client = none ∨
    ∀ i < k, (s.calls[i]?.map Call.client) = some call.client → s.locks.stage i = .done

instance (s : Host) (k : Nat) (call : Call) : Decidable (s.Turn k call) :=
  inferInstanceAs (Decidable (_ ∨ _))

/-- `coordinator.run`, up to its first wait. -/
def dispatch (s : Host) (k : Nat) : Host :=
  match s.calls[k]? with
  | some call =>
    if s.Turn k call then { s with locks := s.locks.begin k (sortedNames call.method.resources) } else s
  | none => s

/-- The handler of a cancel aborts the operation of its service. -/
def startHandler (s : Host) (call : Call) : Host :=
  match call.method with
  | .cancel service =>
    s.setOperation service ((s.operation service).map fun op => { op with aborted := true })
  | _ => s

/-- A call gets the lock it waits for, and if it was the last one its handler starts. -/
def proceed (s : Host) (k : Nat) : Host :=
  match s.calls[k]?, s.locks.stage k with
  | some call, .acquiring _ _ _ =>
    let locks := s.locks.pass k
    match locks.stage k with
    | .running _ => { s with locks := locks }.startHandler call
    | _ => { s with locks := locks }
  | _, _ => s

/-- The handler of a check begins its operation. -/
def begins (s : Host) (k : Nat) (transfers : Bool) : Host :=
  match s.calls[k]?, s.locks.stage k with
  | some ⟨_, .check service⟩, .running _ =>
    if s.operation service = none then s.setOperation service (some ⟨k, transfers, false⟩) else s
  | _, _ => s

/-- A transfer ends: complete, failed, or aborted. -/
def transferEnds (s : Host) (k : Nat) : Host :=
  match s.calls[k]? with
  | some ⟨_, .check service⟩ =>
    match s.operation service with
    | some ⟨check, true, aborted⟩ =>
      if check = k then
        { s.setOperation service (some ⟨k, false, aborted⟩) with ended := s.ended ++ [(k, !aborted)] }
      else s
    | _ => s
  | _ => s

/-- The handler of this call may come to its end. A check waits for its transfer; a cancel of an
update waits for the operation that it found. -/
def Settles (s : Host) (k : Nat) (call : Call) : Prop :=
  match call.method with
  | .check service => ∀ op ∈ s.operation service, op.call = k → op.transferring = false
  | .cancel .update => s.operation .update = none
  | _ => True

instance (s : Host) (k : Nat) (call : Call) : Decidable (s.Settles k call) := by
  unfold Settles
  split <;> infer_instance

/-- The handler settles, its operation with it, and the call gives its locks back. -/
def settle (s : Host) (k : Nat) : Host :=
  match s.calls[k]?, s.locks.stage k with
  | some call, .running _ =>
    if s.Settles k call then
      { s with
        locks := s.locks.finish k
        operation := fun service => (s.operation service).filter fun op => decide (op.call ≠ k) }
    else s
  | _, _ => s

/-- The clean close of the server cancels both services without their locks. -/
def cleanClose (s : Host) : Host :=
  { s with
    operation := fun service => (s.operation service).map fun op => { op with aborted := true }
    closed := s.closed ++ [Service.update, .modules].filterMap fun service =>
      ((s.operation service).filter Operation.transferring).map Operation.call }

def step (s : Host) : HostEvent → Host
  | .accept client method => s.accept client method
  | .dispatch k => s.dispatch k
  | .proceed k => s.proceed k
  | .begins k transfers => s.begins k transfers
  | .transferEnds k => s.transferEnds k
  | .settle k => s.settle k
  | .cleanClose => s.cleanClose

/-- No transfer during which a cancel was accepted ends on its own. -/
def Reaches (s : Host) : Prop := ∀ p ∈ s.asked, (p.2, true) ∉ s.ended

end Host
end BoredManager.Server.Cancels

/-! In no run does a cancel reach a transfer: its handler and that of the check need the same lock,
which the check keeps until its transfer has ended. Only the clean close of the server gets there. -/
namespace BoredManager.Server.Cancels
open BoredManager.Machine

theorem mem_sortedNames {resources : List MutationResource} {r : MutationResource} :
    r ∈ sortedNames resources ↔ r ∈ resources := by
  cases r <;> simp [sortedNames]

theorem nodup_sortedNames (resources : List MutationResource) : (sortedNames resources).Nodup :=
  List.Nodup.filter _ (by decide)

namespace Host
variable {s : Host}

/-- The transfer of this check has ended, and with it perhaps the whole call. -/
def Past (s : Host) (k : Nat) : Prop :=
  s.locks.stage k = .done ∨ ∃ service op, s.operation service = some op ∧ op.call = k ∧
    op.transferring = false

/-- The check with this number has begun. -/
def Begun (s : Host) (k : Nat) : Prop :=
  s.locks.stage k = .done ∨ ∃ service op, s.operation service = some op ∧ op.call = k

/-- An operation runs in the handler of its check, and was aborted during its transfer if the clean
close found it there. -/
structure Sound (s : Host) : Prop where
  orderly : s.locks.Orderly
  idle : ∀ k, s.calls.length ≤ k → s.locks.stage k = .idle
  names : ∀ k call, s.calls[k]? = some call → s.locks.stage k = .idle ∨ s.locks.stage k = .done ∨
    (s.locks.stage k).names = sortedNames call.method.resources
  operation : ∀ service op, s.operation service = some op → ∃ client held,
    s.calls[op.call]? = some ⟨client, .check service⟩ ∧ s.locks.stage op.call = .running held
  aborted : ∀ service op, s.operation service = some op → op.transferring = true →
    (op.aborted = true ↔ op.call ∈ s.closed) ∧ ∀ own, (op.call, own) ∉ s.ended
  ended : ∀ k own, (k, own) ∈ s.ended → (own = false ↔ k ∈ s.closed) ∧ s.Past k
  closed : ∀ k ∈ s.closed, s.Begun k

theorem sound_start : Sound start := by
  refine ⟨Locks.orderly_free, ?_, ?_, ?_, ?_, ?_, ?_⟩ <;> simp [start, Locks.free]

/-- A handler that runs has the locks its call is registered with. -/
theorem Sound.has_lock (h : Sound s) {k : Nat} {call : Call} {held : List MutationResource}
    (hcall : s.calls[k]? = some call) (hrun : s.locks.stage k = .running held)
    {r : MutationResource} (hr : r ∈ call.method.resources) : r ∈ (s.locks.stage k).held := by
  obtain hidle | hdone | hnames := h.names k call hcall
  · rw [hrun] at hidle
    cases hidle
  · rw [hrun] at hdone
    cases hdone
  · rw [hrun] at hnames ⊢
    rw [Stage.names] at hnames
    rw [Stage.held, hnames]
    exact mem_sortedNames.mpr hr

/-- New locks that differ for one call only, which has not started its handler. -/
theorem Sound.withLocks (h : Sound s) {k : Nat} {call : Call} (hcall : s.calls[k]? = some call)
    (hwaits : ∀ held, s.locks.stage k ≠ .running held) (hopen : s.locks.stage k ≠ .done)
    {locks : Locks MutationResource} (horderly : locks.Orderly)
    (hother : ∀ i, i ≠ k → locks.stage i = s.locks.stage i)
    (hnames : (locks.stage k).names = sortedNames call.method.resources) :
    Sound { s with locks := locks } := by
  have hrun : ∀ i held, s.locks.stage i = .running held → locks.stage i = .running held := by
    intro i held hi
    rwa [hother i]
    rintro rfl
    exact hwaits held hi
  have hdone : ∀ i, s.locks.stage i = .done → locks.stage i = .done := by
    intro i hi
    rwa [hother i]
    rintro rfl
    exact hopen hi
  refine ⟨horderly, fun i hi => ?_, fun i call' hcall' => ?_, fun service op hop => ?_, h.aborted,
    fun i own hend => ?_, fun i hi => (h.closed i hi).imp_left (hdone i)⟩
  · obtain ⟨hlt, -⟩ := List.getElem?_eq_some_iff.mp hcall
    have hi : s.calls.length ≤ i := hi
    rw [hother i (by omega)]
    exact h.idle i hi
  · by_cases hik : i = k
    · subst hik
      rw [hcall] at hcall'
      cases hcall'
      exact .inr (.inr hnames)
    · rw [hother i hik]
      exact h.names i call' hcall'
  · obtain ⟨client, held, hcheck, hstage⟩ := h.operation service op hop
    exact ⟨client, held, hcheck, hrun _ held hstage⟩
  · obtain ⟨hown, hpast⟩ := h.ended i own hend
    exact ⟨hown, hpast.imp_left (hdone i)⟩

theorem Sound.accept (h : Sound s) (client : Option Nat) (method : Method) :
    Sound (s.accept client method) := by
  have hcalls : (s.accept client method).calls = s.calls ++ [⟨client, method⟩] := rfl
  have hlen : (s.accept client method).calls.length = s.calls.length + 1 := by simp [hcalls]
  refine ⟨h.orderly, fun k hk => ?_, fun k call hcall => ?_, fun service op hop => ?_, h.aborted,
    h.ended, h.closed⟩
  · rw [hlen] at hk
    exact h.idle k (by omega)
  · obtain hlt | hge := Nat.lt_or_ge k s.calls.length
    · rw [hcalls, List.getElem?_append_left hlt] at hcall
      exact h.names k call hcall
    · exact .inl (h.idle k hge)
  · obtain ⟨client', held, hcall, hstage⟩ := h.operation service op hop
    obtain ⟨hlt, -⟩ := List.getElem?_eq_some_iff.mp hcall
    exact ⟨client', held, (List.getElem?_append_left hlt).trans hcall, hstage⟩

theorem Sound.dispatch (h : Sound s) (k : Nat) : Sound (s.dispatch k) := by
  rw [Host.dispatch]
  split
  · rename_i call hcall
    split
    · by_cases hidle : s.locks.stage k = .idle
      · refine h.withLocks hcall (by simp [hidle]) (by simp [hidle])
          (h.orderly.begin (nodup_sortedNames _)) (fun i hi => Locks.stage_begin_of_ne _ hi) ?_
        rw [Locks.begin, hidle]
        exact Locks.names_ask _ _
      · have hsame : s.locks.begin k (sortedNames call.method.resources) = s.locks := by
          rw [Locks.begin]
          split
          · rename_i hstage
            exact absurd hstage hidle
          · rfl
        rw [hsame]
        exact h
    · exact h
  · exact h

/-- A handler that starts finds no operation of a service whose lock it has. -/
theorem Sound.no_operation (h : Sound s) {k : Nat} {call : Call} {held : List MutationResource}
    (hcall : s.calls[k]? = some call) (hrun : s.locks.stage k = .running held) {service : Service}
    (hmethod : call.method = .cancel service) : s.operation service = none := by
  refine Option.eq_none_iff_forall_ne_some.mpr fun op hop => ?_
  obtain ⟨client, held', hcheck, hstage⟩ := h.operation service op hop
  have hlock : service.resource ∈ (s.locks.stage op.call).held :=
    h.has_lock hcheck hstage (by simp [Method.resources])
  have hlock' : service.resource ∈ (s.locks.stage k).held :=
    h.has_lock hcall hrun (by simp [hmethod, Method.resources])
  obtain rfl := h.orderly.exclusive hlock hlock'
  rw [hcheck] at hcall
  cases hcall
  cases hmethod

theorem Sound.proceed (h : Sound s) (k : Nat) : Sound (s.proceed k) := by
  rw [Host.proceed]
  split
  · rename_i call held name rest hcall hstage
    have hnames : (s.locks.stage k).names = sortedNames call.method.resources := by
      obtain hidle | hdone | hnames := h.names k call hcall
      · cases hstage.symm.trans hidle
      · cases hstage.symm.trans hdone
      · exact hnames
    have hpass : Sound { s with locks := s.locks.pass k } :=
      h.withLocks hcall (by simp [hstage]) (by simp [hstage]) h.orderly.pass
        (fun i hi => Locks.stage_pass_of_ne hi) (Locks.names_pass.trans hnames)
    dsimp only
    split
    · rename_i held' hrun
      rw [startHandler]
      split
      · rename_i service hmethod
        have hnone : s.operation service = none := hpass.no_operation hcall hrun hmethod
        have hsame : setOperation { s with locks := s.locks.pass k } service none =
            { s with locks := s.locks.pass k } := by
          rw [setOperation]
          congr 1
          funext sv
          split
          · rename_i hsv
            rw [hsv]
            exact hnone.symm
          · rfl
        rw [hnone, Option.map_none, hsame]
        exact hpass
      · exact hpass
    · exact hpass
  · exact h

theorem setOperation_eq_some {service sv : Service} {operation : Option Operation} {op : Operation} :
    (s.setOperation service operation).operation sv = some op ↔
      if sv = service then operation = some op else s.operation sv = some op := by
  by_cases hsv : sv = service <;> simp [setOperation, hsv]

theorem Sound.begins (h : Sound s) (k : Nat) (transfers : Bool) : Sound (s.begins k transfers) := by
  rw [Host.begins]
  split
  · rename_i client service held hcall hrun
    split
    · rename_i hnone
      -- an operation of this call would be one of this service
      have hnew : ∀ sv op, s.operation sv = some op → op.call ≠ k := by
        rintro sv op hop rfl
        obtain ⟨client', held', hcheck, -⟩ := h.operation sv op hop
        rw [hcall] at hcheck
        cases hcheck
        cases hnone.symm.trans hop
      have hkept : ∀ sv op, s.operation sv = some op →
          (s.setOperation service (some ⟨k, transfers, false⟩)).operation sv = some op := by
        intro sv op hop
        refine setOperation_eq_some.mpr ?_
        rwa [if_neg]
        rintro rfl
        cases hnone.symm.trans hop
      refine ⟨h.orderly, h.idle, h.names, fun sv op hop => ?_, fun sv op hop htransfer => ?_,
        fun i own hend => ?_, fun i hi => ?_⟩
      · rw [setOperation_eq_some] at hop
        split at hop
        · rename_i hsv
          subst hsv
          cases hop
          exact ⟨client, held, hcall, hrun⟩
        · exact h.operation sv op hop
      · rw [setOperation_eq_some] at hop
        split at hop
        · cases hop
          refine ⟨iff_of_false nofun fun hmem => ?_, fun own hmem => ?_⟩
          · obtain hdone | ⟨sv', op', hop', hcall'⟩ := h.closed k hmem
            · cases hrun.symm.trans hdone
            · exact hnew sv' op' hop' hcall'
          · obtain hdone | ⟨sv', op', hop', hcall', -⟩ := (h.ended k own hmem).2
            · cases hrun.symm.trans hdone
            · exact hnew sv' op' hop' hcall'
        · exact h.aborted sv op hop htransfer
      · obtain ⟨hown, hpast⟩ := h.ended i own hend
        refine ⟨hown, hpast.imp_right ?_⟩
        rintro ⟨sv, op, hop, hrest⟩
        exact ⟨sv, op, hkept sv op hop, hrest⟩
      · refine (h.closed i hi).imp_right ?_
        rintro ⟨sv, op, hop, hrest⟩
        exact ⟨sv, op, hkept sv op hop, hrest⟩
    · exact h
  · exact h

theorem Sound.transferEnds (h : Sound s) (k : Nat) : Sound (s.transferEnds k) := by
  rw [Host.transferEnds]
  split
  · rename_i client service hcall
    split
    · rename_i check aborted hop
      split
      · rename_i hcheck
        subst hcheck
        obtain ⟨habort, hfresh⟩ := h.aborted service _ hop rfl
        have hkept : ∀ i, s.Begun i → Begun (s.setOperation service (some ⟨check, false, aborted⟩)) i := by
          rintro i (hdone | ⟨sv, op, hop', hi⟩)
          · exact .inl hdone
          · by_cases hsv : sv = service
            · subst hsv
              rw [hop] at hop'
              cases hop'
              exact .inr ⟨sv, ⟨check, false, aborted⟩, setOperation_eq_some.mpr (if_pos rfl ▸ rfl), hi⟩
            · exact .inr ⟨sv, op, setOperation_eq_some.mpr (by rwa [if_neg hsv]), hi⟩
        refine ⟨h.orderly, h.idle, h.names, fun sv op' hop' => ?_, fun sv op' hop' htransfer => ?_,
          fun i own hend => ?_, fun i hi => hkept i (h.closed i hi)⟩
        · rw [setOperation_eq_some] at hop'
          split at hop'
          · rename_i hsv
            subst hsv
            cases hop'
            obtain ⟨client', held, hcheck, hstage⟩ := h.operation sv _ hop
            exact ⟨client', held, hcheck, hstage⟩
          · exact h.operation sv op' hop'
        · rw [setOperation_eq_some] at hop'
          split at hop'
          · cases hop'
            cases htransfer
          · rename_i hsv
            obtain ⟨habort', hfresh'⟩ := h.aborted sv op' hop' htransfer
            refine ⟨habort', fun own hmem => ?_⟩
            obtain hmem | hmem := List.mem_append.mp hmem
            · exact hfresh' own hmem
            · -- the check of the other service is another call
              obtain ⟨heq, -⟩ := Prod.mk.inj (List.mem_singleton.mp hmem)
              obtain ⟨client', held', hcheck', -⟩ := h.operation sv op' hop'
              rw [heq, hcall] at hcheck'
              cases hcheck'
              exact hsv rfl
        · obtain hend | hend := List.mem_append.mp hend
          · obtain ⟨hown, hpast⟩ := h.ended i own hend
            refine ⟨hown, hpast.imp_right ?_⟩
            rintro ⟨sv, op, hop', hi, hover⟩
            refine ⟨sv, op, setOperation_eq_some.mpr ?_, hi, hover⟩
            rwa [if_neg]
            rintro rfl
            rw [hop] at hop'
            cases hop'
            cases hover
          · obtain ⟨rfl, rfl⟩ := Prod.mk.inj (List.mem_singleton.mp hend)
            refine ⟨?_, .inr ⟨service, ⟨i, false, aborted⟩,
              setOperation_eq_some.mpr (if_pos rfl ▸ rfl), rfl, rfl⟩⟩
            refine Iff.trans ?_ habort
            cases aborted <;> simp
      · exact h
    · exact h
  · exact h

theorem Sound.settle (h : Sound s) (k : Nat) : Sound (s.settle k) := by
  rw [Host.settle]
  split
  · rename_i call held hcall hrun
    split
    · have hother : ∀ i, i ≠ k → (s.locks.finish k).stage i = s.locks.stage i := fun i hi => by
        rw [Locks.finish, hrun]
        simp [Locks.setStage, hi]
      have hdone : (s.locks.finish k).stage k = .done := by
        rw [Locks.finish, hrun]
        simp [Locks.setStage]
      have hstill : ∀ i, s.locks.stage i = .done → (s.locks.finish k).stage i = .done := by
        intro i hi
        rwa [hother i]
        rintro rfl
        cases hrun.symm.trans hi
      have hleft : ∀ sv op, (s.operation sv).filter (fun op => decide (op.call ≠ k)) = some op ↔
          s.operation sv = some op ∧ op.call ≠ k := by
        intro sv op
        rw [Option.filter_eq_some_iff, decide_eq_true_iff]
      refine ⟨h.orderly.finish, fun i hi => ?_, fun i call' hcall' => ?_, fun sv op hop => ?_,
        fun sv op hop => ?_, fun i own hend => ?_, fun i hi => ?_⟩
      · obtain ⟨hlt, -⟩ := List.getElem?_eq_some_iff.mp hcall
        have hi : s.calls.length ≤ i := hi
        dsimp only
        rw [hother i (by omega)]
        exact h.idle i hi
      · by_cases hik : i = k
        · exact .inr (.inl (hik ▸ hdone))
        · dsimp only
          rw [hother i hik]
          exact h.names i call' hcall'
      · obtain ⟨hop, hne⟩ := (hleft sv op).mp hop
        obtain ⟨client, held', hcheck, hstage⟩ := h.operation sv op hop
        exact ⟨client, held', hcheck, (hother _ hne).trans hstage⟩
      · exact h.aborted sv op ((hleft sv op).mp hop).1
      · obtain ⟨hown, hpast⟩ := h.ended i own hend
        refine ⟨hown, ?_⟩
        obtain hpast | ⟨sv, op, hop, rfl, hover⟩ := hpast
        · exact .inl (hstill i hpast)
        · by_cases hik : op.call = k
          · exact .inl (hik ▸ hdone)
          · exact .inr ⟨sv, op, (hleft sv op).mpr ⟨hop, hik⟩, rfl, hover⟩
      · obtain hpast | ⟨sv, op, hop, rfl⟩ := h.closed i hi
        · exact .inl (hstill i hpast)
        · by_cases hik : op.call = k
          · exact .inl (hik ▸ hdone)
          · exact .inr ⟨sv, op, (hleft sv op).mpr ⟨hop, hik⟩, rfl⟩
    · exact h
  · exact h

theorem mem_closed_cleanClose {k : Nat} : k ∈ s.cleanClose.closed ↔
    k ∈ s.closed ∨ ∃ service op, s.operation service = some op ∧ op.transferring = true ∧ op.call = k := by
  have hmem : ∀ service : Service, service ∈ [Service.update, .modules] := by
    intro service
    cases service <;> simp
  simp only [cleanClose, List.mem_append, List.mem_filterMap, Option.map_eq_some_iff,
    Option.filter_eq_some_iff, hmem, true_and, and_assoc]

theorem Sound.cleanClose (h : Sound s) : Sound s.cleanClose := by
  have hop' : ∀ service op, s.cleanClose.operation service = some op →
      ∃ aborted, s.operation service = some { op with aborted := aborted } := by
    intro service op hop
    obtain ⟨old, hold, rfl⟩ := Option.map_eq_some_iff.mp hop
    exact ⟨old.aborted, hold⟩
  have hkept : ∀ service op, s.operation service = some op →
      s.cleanClose.operation service = some { op with aborted := true } :=
    fun service op hop => Option.map_eq_some_iff.mpr ⟨op, hop, rfl⟩
  refine ⟨h.orderly, h.idle, h.names, fun service op hop => ?_, fun service op hop htransfer => ?_,
    fun k own hend => ?_, fun k hk => ?_⟩
  · obtain ⟨aborted, hold⟩ := hop' service op hop
    obtain ⟨client, held, hcheck, hstage⟩ := h.operation service _ hold
    exact ⟨client, held, hcheck, hstage⟩
  · obtain ⟨old, hold, rfl⟩ := Option.map_eq_some_iff.mp hop
    refine ⟨iff_of_true rfl ?_, (h.aborted service old hold htransfer).2⟩
    exact mem_closed_cleanClose.mpr (.inr ⟨service, old, hold, htransfer, rfl⟩)
  · obtain ⟨hown, hpast⟩ := h.ended k own hend
    refine ⟨hown.trans ⟨fun hk => mem_closed_cleanClose.mpr (.inl hk), fun hk => ?_⟩, ?_⟩
    · obtain hk | ⟨service, op, hop, htransfer, rfl⟩ := mem_closed_cleanClose.mp hk
      · exact hk
      · exact absurd hend ((h.aborted service op hop htransfer).2 own)
    · refine hpast.imp_right ?_
      rintro ⟨service, op, hop, hcall, hover⟩
      exact ⟨service, _, hkept service op hop, hcall, hover⟩
  · obtain hk | ⟨service, op, hop, -, hcall⟩ := mem_closed_cleanClose.mp hk
    · refine (h.closed k hk).imp_right ?_
      rintro ⟨service, op, hop, hcall⟩
      exact ⟨service, _, hkept service op hop, hcall⟩
    · exact .inr ⟨service, _, hkept service op hop, hcall⟩

theorem Sound.step (h : Sound s) (event : HostEvent) : Sound (s.step event) := by
  cases event with
  | accept client method => exact h.accept client method
  | dispatch k => exact h.dispatch k
  | proceed k => exact h.proceed k
  | begins k transfers => exact h.begins k transfers
  | transferEnds k => exact h.transferEnds k
  | settle k => exact h.settle k
  | cleanClose => exact h.cleanClose

/-- A transfer during which a cancel was accepted is stopped by the clean close of the server, or it
ends on its own. -/
theorem reaches_iff_closed (events : List HostEvent) :
    (run step start events).Reaches ↔ ∀ p ∈ (run step start events).asked,
      p.2 ∈ (run step start events).ended.map Prod.fst → p.2 ∈ (run step start events).closed := by
  have h : Sound (run step start events) :=
    List.foldlRecOn events _ sound_start fun _ hs event _ => Sound.step hs event
  constructor
  · intro hreach p hp hend
    obtain ⟨⟨k, own⟩, hmem, rfl⟩ := List.mem_map.mp hend
    cases own with
    | false => exact (h.ended _ _ hmem).1.mp rfl
    | true =>
      obtain ⟨cancel, check⟩ := p
      exact absurd hmem (hreach _ hp)
  · intro hclosed p hp hmem
    have hk := hclosed p hp (List.mem_map.mpr ⟨_, hmem, rfl⟩)
    cases (h.ended _ _ hmem).1.mpr hk

/-- One client checks for an update, another one cancels while the archive is being transferred. -/
def cancelDuringTransfer : List HostEvent :=
  [.accept (some 0) (.check .update), .dispatch 0, .proceed 0, .begins 0 true,
    .accept (some 1) (.cancel .update), .dispatch 1, .proceed 1, .transferEnds 0, .settle 0, .proceed 1,
    .settle 1]

theorem cancel_missed : ¬ (run step start cancelDuringTransfer).Reaches := by
  intro h
  exact h (1, 0) (by decide +kernel) (by decide +kernel)

end Host
end BoredManager.Server.Cancels
