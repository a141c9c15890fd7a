import BoredManager.Machine.Runs
import BoredManager.Server.History

/-! What becomes of accepted samples: every one is pending or was appended once to its file, as
long as history is not turned off over samples that are pending. -/
namespace BoredManager.Server.History
open BoredManager.Js BoredManager.Machine
open BoredManager.Shared (HISTORY_STREAM_PATTERN)

/-- `expired` is what the limits remove at that moment. -/
inductive Action where
  | add (stream : Text) (point : HistoryPoint)
  | flush (expired : File → Bool)
  | configure (settings : HistorySettings) (expired : File → Bool)
  | setHost (hostKey : Option Text) (expired : File → Bool)
  | close (expired : File → Bool)

def step (s : Service) : Action → Service
  | .add stream point => add stream point s
  | .flush expired => flush expired s
  | .configure settings expired => configure settings expired s
  | .setHost hostKey expired => setHost hostKey expired s
  | .close expired => close expired s

/-- The pending samples with the files that they will go to. -/
def waiting (s : Service) : List (File × HistoryPoint) :=
  match s.host with
  | some host => filed host s.pending
  | none => []

/-- Every accepted sample is pending or was appended, once, to the file of its stream, host and
hour. -/
structure Kept (s : Service) : Prop where
  once : s.accepted.Perm (s.written ++ waiting s)
  idle : s.host = none ∨ s.settings.enabled = false → s.pending.pairs = []

/-- The action turns history off while samples are pending. -/
def TurnsOffPending (s : Service) : Action → Prop
  | .configure settings _ =>
    s.settings.enabled = true ∧ settings.enabled = false ∧ s.pendingCount ≠ 0
  | _ => False

/-- The action turns history off, changes the host or closes. -/
def Ends (s : Service) : Action → Prop
  | .configure settings _ => s.settings.enabled = true ∧ settings.enabled = false
  | .setHost hostKey _ => hostKey ≠ s.hostKey
  | .close _ => True
  | _ => False

variable {s : Service} {expired : File → Bool} {stream host : Text} {point : HistoryPoint}

theorem pendingCount_eq (s : Service) : s.pendingCount = s.pending.pairs.length := by
  simp [Service.pendingCount, OrderedMap.values, OrderedMap.pairs, List.length_flatMap]
  rfl

theorem filed_of_idle (h : s.pending.pairs = []) : waiting s = [] := by
  rw [waiting]
  split
  · rw [filed, h]
    rfl
  · rfl

theorem waiting_length (hs : Kept s) : (waiting s).length = s.pending.pairs.length := by
  rw [waiting]
  cases hhost : s.host with
  | none =>
    rw [hs.idle (.inl hhost)]
    rfl
  | some host => exact List.length_map _

theorem add_cases (stream : Text) (point : HistoryPoint) (s : Service) :
    add stream point s = s ∨ ∃ host, s.host = some host ∧ s.settings.enabled = true ∧
      add stream point s = s.take host stream point := by
  rw [add]
  split
  · exact .inl rfl
  cases hhost : s.host with
  | none => exact .inl rfl
  | some host =>
    dsimp only
    split
    · exact .inl rfl
    · rename_i henabled
      exact .inr ⟨host, rfl, by simpa using henabled, rfl⟩

/-- A flush writes what waits, or there is nothing that waits. -/
theorem flush_cases (expired : File → Bool) (s : Service) :
    ((s.host = none ∨ s.settings.enabled = false ∨ s.pendingCount = 0) ∧
      flush expired s = s.clearPending) ∨
    ∃ host, s.host = some host ∧ s.settings.enabled = true ∧ flush expired s =
      enforceLimits expired (s.append (OrderedMap.groups (filed host s.pending))).clearPending := by
  rw [flush]
  cases hhost : s.host with
  | none => exact .inl ⟨.inl rfl, rfl⟩
  | some host =>
    dsimp only
    split
    · rename_i h
      exact .inl ⟨.inr h, rfl⟩
    · rename_i h
      exact .inr ⟨host, rfl, by simpa using not_or.mp h |>.1, rfl⟩

@[simp] theorem flush_hostKey (expired : File → Bool) (s : Service) :
    (flush expired s).hostKey = s.hostKey ∧ (flush expired s).settings = s.settings ∧
      (flush expired s).accepted = s.accepted ∧ (flush expired s).pending = .empty := by
  obtain ⟨-, h⟩ | ⟨host, -, -, h⟩ := flush_cases expired s
  all_goals
    rw [h]
    exact ⟨rfl, rfl, rfl, rfl⟩

/-- A flush of a service that lost nothing writes everything accepted. -/
theorem flush_written (hs : Kept s) (expired : File → Bool) :
    (flush expired s).accepted.Perm (flush expired s).written := by
  obtain ⟨hnone, h⟩ | ⟨host, hhost, -, h⟩ := flush_cases expired s
  · have hidle : waiting s = [] := by
      obtain hnone | hoff | hzero := hnone
      · exact filed_of_idle (hs.idle (.inl hnone))
      · exact filed_of_idle (hs.idle (.inr hoff))
      · rw [pendingCount_eq, List.length_eq_zero_iff] at hzero
        exact filed_of_idle hzero
    have honce := hs.once
    rw [hidle, List.append_nil] at honce
    rw [h]
    exact honce
  · have hwaiting : waiting s = filed host s.pending := by rw [waiting, hhost]
    rw [h]
    refine hs.once.trans ?_
    rw [hwaiting]
    exact ((OrderedMap.pairs_groups _).append_left s.written).symm

theorem kept_of_written (h : s.accepted.Perm s.written) (hpending : s.pending = .empty) :
    Kept s := by
  have hidle : s.pending.pairs = [] := by rw [hpending]; rfl
  exact ⟨by rw [filed_of_idle hidle, List.append_nil]; exact h, fun _ => hidle⟩

theorem kept_flush (hs : Kept s) (expired : File → Bool) : Kept (flush expired s) :=
  kept_of_written (flush_written hs expired) (flush_hostKey expired s).2.2.2

/-- The sample waits for the file of its stream, host and hour. -/
theorem waiting_take (hhost : s.host = some host) (stream : Text) (point : HistoryPoint) :
    (waiting (s.take host stream point)).Perm
      (waiting s ++ [(fileOf host stream point.t, point)]) := by
  have hpush := (OrderedMap.pairs_push s.pending stream point).map
    fun e => (fileOf host e.1 e.2.t, e.2)
  rw [List.map_append] at hpush
  have hnext : waiting (s.take host stream point) = filed host (s.pending.push stream point) := by
    rw [waiting, show (s.take host stream point).host = some host from hhost]
    rfl
  rw [hnext, waiting, hhost]
  exact hpush

theorem kept_add (hs : Kept s) (stream : Text) (point : HistoryPoint) :
    Kept (add stream point s) := by
  obtain h | ⟨host, hhost, henabled, h⟩ := add_cases stream point s
  · rw [h]
    exact hs
  rw [h]
  constructor
  · have hwaiting := (waiting_take hhost stream point).append_left s.written
    rw [← List.append_assoc] at hwaiting
    exact (hs.once.append_right _).trans hwaiting.symm
  · rintro (hnone | hoff)
    · exact absurd (hhost.symm.trans hnone) (by simp)
    · exact absurd (henabled.symm.trans hoff) (by simp)

theorem kept_limits (hs : Kept s) (expired : File → Bool) : Kept (enforceLimits expired s) :=
  ⟨hs.once, hs.idle⟩

theorem kept_clear (h : s.accepted.Perm s.written) : Kept s.clearPending :=
  kept_of_written h rfl

/-- Turning history off over no pending sample, or leaving it as it was, keeps everything. -/
theorem configure_cases (settings : HistorySettings) (expired : File → Bool) (s : Service) :
    (s.settings.enabled = true ∧ settings.enabled = false ∧
      configure settings expired s = { s with settings := settings }.clearPending) ∨
    (¬(s.settings.enabled = true ∧ settings.enabled = false) ∧
      (configure settings expired s = { s with settings := settings } ∨
        configure settings expired s = enforceLimits expired { s with settings := settings })) := by
  rw [configure]
  by_cases hoff : s.settings.enabled = true ∧ settings.enabled = false
  · refine .inl ⟨hoff.1, hoff.2, ?_⟩
    rw [if_pos hoff, if_neg (by simp [hoff.2])]
    obtain ⟨-, h⟩ | ⟨host, -, henabled, -⟩ := flush_cases expired { s with settings := settings }
    · rw [h]
      rfl
    · exact absurd henabled (by simp [hoff.2])
  · refine .inr ⟨hoff, ?_⟩
    rw [if_neg hoff]
    split
    · exact .inr rfl
    · exact .inl rfl

theorem kept_configure (hs : Kept s) (settings : HistorySettings) (expired : File → Bool)
    (hok : ¬TurnsOffPending s (.configure settings expired)) :
    Kept (configure settings expired s) := by
  obtain ⟨hon, hoff, h⟩ | ⟨hstay, h⟩ := configure_cases settings expired s
  · have hzero : s.pending.pairs = [] := by
      by_contra hne
      refine hok ⟨hon, hoff, ?_⟩
      rw [pendingCount_eq]
      simpa using hne
    have honce := hs.once
    rw [filed_of_idle hzero, List.append_nil] at honce
    rw [h]
    exact kept_clear honce
  · have hnext : Kept { s with settings := settings } := by
      refine ⟨hs.once, fun hidle => hs.idle ?_⟩
      obtain hnone | hoff := hidle
      · exact .inl hnone
      · refine .inr ?_
        by_contra hon
        exact hstay ⟨by simpa using hon, hoff⟩
    obtain h | h := h
    · rw [h]
      exact hnext
    · rw [h]
      exact kept_limits hnext expired

theorem kept_setHost (hs : Kept s) (hostKey : Option Text) (expired : File → Bool) :
    Kept (setHost hostKey expired s) := by
  rw [setHost]
  split
  · exact hs
  · exact kept_of_written (flush_written hs expired) rfl

theorem kept_step (hs : Kept s) (action : Action) (hok : ¬TurnsOffPending s action) :
    Kept (step s action) := by
  cases action with
  | add stream point => exact kept_add hs stream point
  | flush expired => exact kept_flush hs expired
  | configure settings expired => exact kept_configure hs settings expired hok
  | setHost hostKey expired => exact kept_setHost hs hostKey expired
  | close expired => exact kept_flush hs expired

/-- The samples that are pending when history is turned off are gone. -/
theorem configure_loses (hs : Kept s) {action : Action} (h : TurnsOffPending s action) :
    ¬Kept (step s action) := by
  cases action with
  | configure settings expired =>
    obtain ⟨hon, hoff, hcount⟩ := h
    obtain ⟨-, -, hnext⟩ | ⟨hstay, -⟩ := configure_cases settings expired s
    · rw [step, hnext]
      intro hkept
      have hlength := hs.once.length_eq.symm.trans hkept.once.length_eq
      have hempty : waiting { s with settings := settings }.clearPending = [] := filed_of_idle rfl
      rw [hempty, List.length_append, List.append_nil] at hlength
      have hzero : (waiting s).length = 0 := by
        have hwritten : { s with settings := settings }.clearPending.written = s.written := rfl
        rw [hwritten] at hlength
        omega
      rw [waiting_length hs, ← pendingCount_eq] at hzero
      exact hcount hzero
    · exact absurd ⟨hon, hoff⟩ hstay
  | _ => exact h.elim

/-- What ends a stretch of history has everything accepted before it written. -/
theorem ends_written (hs : Kept s) {action : Action} (hok : ¬TurnsOffPending s action)
    (hends : Ends s action) : (step s action).accepted.Perm (step s action).written := by
  have hkept := kept_step hs action hok
  have hempty : waiting (step s action) = [] := by
    refine filed_of_idle ?_
    cases action with
    | configure settings expired =>
      refine hkept.idle (.inr ?_)
      obtain ⟨-, -, h⟩ | ⟨hstay, -⟩ := configure_cases settings expired s
      · rw [step, h]
        exact hends.2
      · exact absurd hends hstay
    | setHost hostKey expired =>
      rw [step, setHost, if_neg hends]
      rfl
    | close expired =>
      rw [step, close, (flush_hostKey expired s).2.2.2]
      rfl
    | _ => exact hends.elim
  have honce := hkept.once
  rwa [hempty, List.append_nil] at honce

theorem kept_start (settings : HistorySettings) (hostKey : Option Text) :
    Kept (start settings hostKey) :=
  kept_of_written (List.Perm.refl _) rfl

/-- In a run that never turns history off over pending samples, every accepted sample is
pending or appended once, and what ends a stretch of history writes everything before it. -/
theorem no_sample_lost {settings : HistorySettings} {hostKey : Option Text}
    {actions : List Action}
    (h : Guarded step (fun s action => ¬TurnsOffPending s action) (start settings hostKey) actions) :
    Kept (run step (start settings hostKey) actions) ∧
      ∀ action, ¬TurnsOffPending (run step (start settings hostKey) actions) action →
        Ends (run step (start settings hostKey) actions) action →
        (step (run step (start settings hostKey) actions) action).accepted.Perm
          (step (run step (start settings hostKey) actions) action).written := by
  have hstep : ∀ s action, Kept s → ¬TurnsOffPending s action → Kept (step s action) :=
    fun _ action hs hok => kept_step hs action hok
  have hkept := run_preserves hstep h (kept_start settings hostKey)
  exact ⟨hkept, fun action hok hends => ends_written hkept hok hends⟩

/-- Two samples of an hour, and a change of the host while they are pending. -/
def visit : List Action :=
  [.add (js "system") ⟨1000, []⟩, .add (js "system") ⟨2000, []⟩,
    .setHost (some (js "root@nas")) fun _ => false, .configure ⟨false⟩ fun _ => false]

theorem no_sample_lost_visit : Kept (run step (start ⟨true⟩ (some (js "local"))) visit) ∧
    ∀ action, ¬TurnsOffPending (run step (start ⟨true⟩ (some (js "local"))) visit) action →
      Ends (run step (start ⟨true⟩ (some (js "local"))) visit) action →
      (step (run step (start ⟨true⟩ (some (js "local"))) visit) action).accepted.Perm
        (step (run step (start ⟨true⟩ (some (js "local"))) visit) action).written := by
  refine no_sample_lost ⟨id, id, id, ?_, trivial⟩
  rintro ⟨-, -, hcount⟩
  exact hcount (by decide)

/-- History is turned off over one pending sample: it is neither pending nor written. -/
theorem sample_lost :
    let s := run step (start ⟨true⟩ (some (js "local")))
      [.add (js "system") ⟨1000, []⟩, .configure ⟨false⟩ fun _ => false]
    s.accepted.length = 1 ∧ s.written = [] ∧ s.pending.pairs = [] ∧ ¬Kept s := by
  refine ⟨by decide, by decide, by decide, fun h => ?_⟩
  exact absurd h.once.length_eq (by decide)

end BoredManager.Server.History
