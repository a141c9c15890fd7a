import BoredManager.Gpu.AutoCap
import BoredManager.Machine.Runs

/-! What every run of the automatic power cap keeps to, and the success of a command that makes the
watcher believe in a cap that is no longer on the GPU. -/
namespace BoredManager.Gpu
open BoredManager.Js BoredManager.Machine

/-- A command that was started kept to the configuration and to the reading of its moment. -/
structure Started.Right (c : Started) : Prop where
  enabled : c.config.enabled = true
  target : ∃ caps, c.config.gpus.get? c.index = some caps ∧ c.watts = caps.target (isBusy c.busy c.index)
  fresh : c.readVersion = c.version
  running : c.stopped = false
  watched : c.index ∉ c.cleared

/-- At the end of a tick every configured GPU has its target. -/
def Ended.Reached (e : Ended) : Prop :=
  ∀ index caps, e.config.gpus.get? index = some caps →
    e.onGpu.get? index = some (caps.target (isBusy e.busy index))

/-- The change takes the applied cap of this GPU away. -/
def Change.drops (index : Nat) : Change → Bool
  | .set i _ => decide (i = index)
  | .clear i => decide (i = index)
  | .configure _ _ => false
  | .start => false
  | .stop => true

def Tick.commands (t : Tick) : Nat :=
  match t.phase with
  | .reading => 0
  | .capping _ _ _ _ => 1

theorem AutoCapConfig.mem_indexes {cfg : AutoCapConfig} {index : Nat} :
    index ∈ cfg.indexes ↔ index ∈ cfg.gpus.keys := List.mem_insertionSort _

namespace Watcher

structure Sane (s : Watcher) : Prop where
  one_command : s.inFlight ≤ 1
  started : ∀ c ∈ s.started, c.Right ∧ c.reading ∉ s.failed
  ended : ∀ e ∈ s.ended, e.Reached

/-- The GPUs outside `rest` have their target. -/
def Reached (s : Watcher) (clean : Bool) (busy : OrderedMap Nat Bool) (rest : List Nat) : Prop :=
  clean = true → ∀ index caps, s.cfg.gpus.get? index = some caps → index ∉ rest →
    s.onGpu.get? index = some (caps.target (isBusy busy index))

/-- What is recorded, and a tick in flight, agree. -/
structure Recorded (s : Watcher) : Prop where
  in_flight : s.inFlight = (s.work.map Tick.commands).getD 0
  started : ∀ c ∈ s.started, c.Right ∧ c.reading < s.readings ∧ c.reading ∉ s.failed
  ended : ∀ e ∈ s.ended, e.Reached
  failed : ∀ n ∈ s.failed, n < s.readings
  stopped : s.stopped = true → s.cfg.enabled = false
  cleared : ∀ index ∈ s.cleared, s.cfg.gpus.get? index = none
  generation : ∀ t, s.work = some t → t.generation ≤ s.generation
  reading : ∀ t, s.work = some t → t.reading < s.readings ∧ t.reading ∉ s.failed
  unused : ∀ t, s.work = some t → t.phase = .reading → ∀ c ∈ s.started, c.reading ≠ t.reading

/-- A tick whose generation still holds saw the configuration that still holds. -/
def Current (s : Watcher) : Prop :=
  ∀ t, s.work = some t → t.generation = s.generation →
    t.version = s.version ∧ s.cfg.enabled = true ∧
    match t.phase with
    | .reading => t.clean = true ∧ ∀ index caps, s.cfg.gpus.get? index = some caps → index ∈ t.indexes
    | .capping index target busy rest =>
      (∃ caps, s.cfg.gpus.get? index = some caps ∧ target = caps.target (isBusy busy index)) ∧
        s.Reached t.clean busy (index :: rest)

/-- What counts as applied is on the GPU, unless a change to come takes it away. -/
def Trusted (s : Watcher) (pending : List Change) : Prop :=
  ∀ index watts, s.applied.get? index = some watts →
    s.onGpu.get? index = some watts ∨ ∃ c ∈ pending, c.drops index = true

structure Sound (s : Watcher) : Prop where
  recorded : s.Recorded
  current : s.Current
  trusted : s.Trusted []

theorem Sound.sane {s : Watcher} (h : Sound s) : Sane s := by
  refine ⟨?_, fun c hc => ?_, h.recorded.ended⟩
  · rw [h.recorded.in_flight]
    cases s.work with
    | none => simp
    | some t =>
      simp only [Option.map_some, Option.getD_some, Tick.commands]
      split <;> simp
  · obtain ⟨hright, -, hread⟩ := h.recorded.started c hc
    exact ⟨hright, hread⟩

theorem sound_start (cfg : AutoCapConfig) (connected : Bool) : Sound (start cfg connected) :=
  ⟨⟨rfl, by simp [start], by simp [start], by simp [start], by simp [start], by simp [start],
    by simp [start], by simp [start], by simp [start]⟩, by simp [Current, start],
    by simp [Trusted, start]⟩

/-! ### The poller -/

theorem runAutoCapTick_cases (s : Watcher) : s.runAutoCapTick = s ∨
    s.work = none ∧ s.cfg.enabled = true ∧ s.runAutoCapTick = { s with
      work := some ⟨s.generation, s.cfg.indexes, s.cfg.trigger, s.readings, s.version, true, .reading⟩
      readings := s.readings + 1 } := by
  rw [runAutoCapTick]
  split
  · exact .inl rfl
  · rename_i hwork
    split
    · exact .inl rfl
    · rename_i hon
      push Not at hon
      exact .inr ⟨by simpa using hwork, by simpa using hon.2.1, rfl⟩

theorem Recorded.runAutoCapTick {s : Watcher} (h : s.Recorded) : s.runAutoCapTick.Recorded := by
  obtain heq | ⟨hwork, -, heq⟩ := s.runAutoCapTick_cases
  · rwa [heq]
  · have hflight := h.in_flight
    rw [hwork] at hflight
    rw [heq]
    constructor
    case in_flight => exact hflight
    case started =>
      intro c hc
      obtain ⟨hright, hlt, hread⟩ := h.started c hc
      exact ⟨hright, Nat.lt_succ_of_lt hlt, hread⟩
    case ended => exact h.ended
    case failed => exact fun n hn => Nat.lt_succ_of_lt (h.failed n hn)
    case stopped => exact h.stopped
    case cleared => exact h.cleared
    case generation =>
      rintro t ht
      cases ht
      exact Nat.le_refl _
    case reading =>
      rintro t ht
      cases ht
      exact ⟨Nat.lt_succ_self _, fun hmem => Nat.lt_irrefl _ (h.failed _ hmem)⟩
    case unused =>
      rintro t ht - c hc
      cases ht
      exact Nat.ne_of_lt (h.started c hc).2.1

theorem Current.runAutoCapTick {s : Watcher} (h : s.Current) : s.runAutoCapTick.Current := by
  obtain heq | ⟨-, hon, heq⟩ := s.runAutoCapTick_cases
  · rwa [heq]
  · rw [heq]
    rintro t ht -
    cases ht
    refine ⟨rfl, hon, rfl, fun index caps hget => ?_⟩
    exact AutoCapConfig.mem_indexes.mpr
      (OrderedMap.has_iff.mp (OrderedMap.has_iff_get.mpr ⟨caps, hget⟩))

theorem Trusted.runAutoCapTick {s : Watcher} {pending : List Change} (h : s.Trusted pending) :
    s.runAutoCapTick.Trusted pending := by
  obtain heq | ⟨-, -, heq⟩ := s.runAutoCapTick_cases <;> rw [heq] <;> exact h

theorem Recorded.withMs {s : Watcher} (h : s.Recorded) (ms : Nat) :
    Recorded { s with autoCapMs := ms } :=
  ⟨h.in_flight, h.started, h.ended, h.failed, h.stopped, h.cleared, h.generation, h.reading, h.unused⟩

theorem Recorded.applyPoller {s : Watcher} (h : s.Recorded) : s.applyPoller.Recorded := by
  rw [Watcher.applyPoller]
  split
  · exact h
  · split
    · exact (h.withMs _).runAutoCapTick
    · exact h.withMs 0

theorem Current.applyPoller {s : Watcher} (h : s.Current) : s.applyPoller.Current := by
  rw [Watcher.applyPoller]
  split
  · exact h
  · split
    · exact Current.runAutoCapTick (s := { s with autoCapMs := s.wanted }) h
    · exact h

theorem Trusted.applyPoller {s : Watcher} {pending : List Change} (h : s.Trusted pending) :
    s.applyPoller.Trusted pending := by
  rw [Watcher.applyPoller]
  split
  · exact h
  · split
    · exact Trusted.runAutoCapTick (s := { s with autoCapMs := s.wanted }) h
    · exact h

theorem Sound.applyPoller {s : Watcher} (h : Sound s) : Sound s.applyPoller :=
  ⟨h.recorded.applyPoller, h.current.applyPoller, h.trusted.applyPoller⟩

/-- No tick of an earlier generation is current. -/
theorem current_of_stale {s : Watcher} (h : ∀ t, s.work = some t → t.generation < s.generation) :
    s.Current :=
  fun t ht heq => absurd heq (Nat.ne_of_lt (h t ht))

theorem Sound.stopWatcher {s : Watcher} (h : Sound s) : Sound s.stopWatcher := by
  obtain ⟨h, -, htrust⟩ := h
  refine ⟨⟨h.in_flight, h.started, h.ended, h.failed, h.stopped, h.cleared, ?_, h.reading, h.unused⟩,
    ?_, htrust⟩
  · exact fun t ht => Nat.le_succ_of_le (h.generation t ht)
  · exact current_of_stale fun t ht => Nat.lt_succ_of_le (h.generation t ht)

/-! ### Changes of the configuration -/

theorem Recorded.saveAutoCap {s : Watcher} (h : s.Recorded) :
    s.saveAutoCap.Recorded ∧ s.saveAutoCap.Current := by
  have hsave : Recorded { s with generation := s.generation + 1, version := s.version + 1 } :=
    ⟨h.in_flight, h.started, h.ended, h.failed, h.stopped, h.cleared,
      fun t ht => Nat.le_succ_of_le (h.generation t ht), h.reading, h.unused⟩
  refine ⟨hsave.applyPoller, Current.applyPoller (current_of_stale fun t ht => ?_)⟩
  exact Nat.lt_succ_of_le (h.generation t ht)

theorem Recorded.change {s : Watcher} (h : s.Recorded) (c : Change) :
    (s.change c).Recorded ∧ (s.change c).Current := by
  cases c with
  | set index caps =>
    refine Recorded.saveAutoCap ⟨h.in_flight, h.started, h.ended, h.failed,
      fun hstop => absurd hstop Bool.false_ne_true, ?_,
      h.generation, h.reading, h.unused⟩
    intro i hi
    obtain ⟨hi, hne⟩ := List.mem_filter.mp hi
    rw [OrderedMap.get?_set, if_neg (by simpa using hne)]
    exact h.cleared i hi
  | clear index =>
    refine Recorded.saveAutoCap ⟨h.in_flight, h.started, h.ended, h.failed, ?_, ?_,
      h.generation, h.reading, h.unused⟩
    · intro hstop
      rw [h.stopped hstop, Bool.false_and]
    · intro i hi
      rw [OrderedMap.get?_erase]
      split
      · rfl
      · rename_i hne
        exact h.cleared i ((List.mem_cons.mp hi).resolve_left hne)
  | configure intervalSec trigger =>
    exact Recorded.saveAutoCap ⟨h.in_flight, h.started, h.ended, h.failed, h.stopped, h.cleared,
      h.generation, h.reading, h.unused⟩
  | start =>
    exact Recorded.saveAutoCap ⟨h.in_flight, h.started, h.ended, h.failed,
      fun hstop => absurd hstop Bool.false_ne_true, h.cleared,
      h.generation, h.reading, h.unused⟩
  | stop =>
    exact Recorded.saveAutoCap ⟨h.in_flight, h.started, h.ended, h.failed, fun _ => rfl, h.cleared,
      h.generation, h.reading, h.unused⟩

/-- A change that comes first needs no more trust than it takes away. -/
theorem Trusted.change {s : Watcher} {c : Change} {pending : List Change}
    (h : s.Trusted (c :: pending)) : (s.change c).Trusted pending := by
  have hkept : ∀ index watts, c.drops index = false → s.applied.get? index = some watts →
      s.onGpu.get? index = some watts ∨ ∃ c ∈ pending, c.drops index = true := by
    intro index watts hdrop happ
    obtain hgpu | ⟨d, hd, hdrops⟩ := h index watts happ
    · exact .inl hgpu
    · obtain rfl | hd := List.mem_cons.mp hd
      · rw [hdrop] at hdrops
        cases hdrops
      · exact .inr ⟨d, hd, hdrops⟩
  cases c with
  | set i caps =>
    refine Trusted.applyPoller fun index watts happ => ?_
    simp only [OrderedMap.get?_erase] at happ
    split at happ
    · cases happ
    · rename_i hne
      exact hkept index watts (decide_eq_false (Ne.symm hne)) happ
  | clear i =>
    refine Trusted.applyPoller fun index watts happ => ?_
    simp only [OrderedMap.get?_erase] at happ
    split at happ
    · cases happ
    · rename_i hne
      exact hkept index watts (decide_eq_false (Ne.symm hne)) happ
  | configure intervalSec trigger =>
    exact Trusted.applyPoller fun index watts happ => hkept index watts rfl happ
  | start => exact Trusted.applyPoller fun index watts happ => hkept index watts rfl happ
  | stop =>
    refine Trusted.applyPoller fun index watts happ => ?_
    cases happ

theorem sound_foldl_change {s : Watcher} {pending : List Change} (h : s.Recorded) (hcur : s.Current)
    (htrust : s.Trusted pending) : Sound (pending.foldl Watcher.change s) := by
  induction pending generalizing s with
  | nil => exact ⟨h, hcur, htrust⟩
  | cons c pending ih => exact ih (h.change c).1 (h.change c).2 htrust.change

theorem Trusted.weaken {s : Watcher} (h : s.Trusted []) (pending : List Change) : s.Trusted pending := by
  intro index watts happ
  obtain hgpu | ⟨c, hc, -⟩ := h index watts happ
  · exact .inl hgpu
  · cases hc

/-- Once the tick has ended the calls that waited go on. -/
theorem sound_fulfil {s : Watcher} (h : Recorded { s with work := none })
    (htrust : s.Trusted s.waiting) : Sound s.fulfil :=
  sound_foldl_change (s := { s with work := none, waiting := [] })
    ⟨h.in_flight, h.started, h.ended, h.failed, h.stopped, h.cleared, h.generation, h.reading, h.unused⟩
    nofun htrust

theorem Sound.enter {s : Watcher} (h : Sound s) (call : Call) : Sound (s.enter call) := by
  rw [Watcher.enter]
  split
  · exact h
  · have h := h.stopWatcher
    obtain ⟨hrec, hcur, htrust⟩ := h
    exact ⟨⟨hrec.in_flight, hrec.started, hrec.ended, hrec.failed, hrec.stopped, hrec.cleared,
      hrec.generation, hrec.reading, hrec.unused⟩, hcur, htrust⟩

theorem Sound.calls {s : Watcher} (h : Sound s) (batch : List Call) : Sound (s.calls batch) := by
  have henter : Sound (batch.foldl Watcher.enter s) :=
    List.foldlRecOn batch _ h fun s h call _ => h.enter call
  rw [Watcher.calls]
  split
  · exact henter
  · rename_i hwork
    have hrec := henter.recorded
    have hnone : (batch.foldl Watcher.enter s).work = none := by simpa using hwork
    refine sound_foldl_change ⟨hrec.in_flight, hrec.started, hrec.ended, hrec.failed, hrec.stopped,
      hrec.cleared, hrec.generation, hrec.reading, hrec.unused⟩ ?_ (henter.trusted.weaken _)
    intro t ht
    rw [hnone] at ht
    cases ht

/-! ### The tick -/

/-- The record without its tick, when no command is in flight. -/
theorem Recorded.withoutTick {s : Watcher} (h : s.Recorded) (hflight : s.inFlight = 0) :
    Recorded { s with work := none } :=
  ⟨hflight, h.started, h.ended, h.failed, h.stopped, h.cleared, nofun, nofun, nofun⟩

/-- A command that starts in the loop of a current tick. -/
theorem Recorded.startCommand {s : Watcher} (h : Recorded { s with work := none }) {t : Tick}
    {busy : OrderedMap Nat Bool} {index : Nat} {rest : List Nat} {caps : AutoCapGpu}
    (hgen : t.generation = s.generation) (hversion : t.version = s.version)
    (hread : t.reading < s.readings ∧ t.reading ∉ s.failed) (hon : s.cfg.enabled = true)
    (hget : s.cfg.gpus.get? index = some caps) :
    Recorded { s with
      work := some { t with phase := .capping index (caps.target (isBusy busy index)) busy rest }
      inFlight := s.inFlight + 1
      started := s.started ++ [Started.mk index (caps.target (isBusy busy index)) s.cfg s.version
        busy t.reading t.version s.stopped s.cleared] } := by
  have hflight : s.inFlight = 0 := h.in_flight
  constructor
  case in_flight => exact congrArg (· + 1) hflight
  case started =>
    intro c hc
    obtain hc | hc := List.mem_append.mp hc
    · exact h.started c hc
    · obtain rfl := List.mem_singleton.mp hc
      refine ⟨⟨hon, ⟨caps, hget, rfl⟩, hversion, ?_, fun hmem => ?_⟩, hread⟩
      · refine Bool.eq_false_iff.mpr fun hstop => ?_
        have hoff : s.cfg.enabled = false := h.stopped hstop
        rw [hon] at hoff
        cases hoff
      · have hnone : s.cfg.gpus.get? index = none := h.cleared index hmem
        rw [hget] at hnone
        cases hnone
  case ended => exact h.ended
  case failed => exact h.failed
  case stopped => exact h.stopped
  case cleared => exact h.cleared
  case generation =>
    rintro t' ht
    cases ht
    exact Nat.le_of_eq hgen
  case reading =>
    rintro t' ht
    cases ht
    exact hread
  case unused =>
    rintro t' ht hphase
    cases ht
    cases hphase

theorem sound_capNext {s : Watcher} (h : Recorded { s with work := none }) (htrust : s.Trusted [])
    {t : Tick} {busy : OrderedMap Nat Bool} {rest : List Nat} (hgen : t.generation = s.generation)
    (hversion : t.version = s.version) (hread : t.reading < s.readings ∧ t.reading ∉ s.failed)
    (hon : s.cfg.enabled = true) (hreach : s.Reached t.clean busy rest) :
    Sound (s.capNext t busy rest) := by
  induction rest with
  | nil =>
    refine sound_fulfil ⟨h.in_flight, h.started, ?_, h.failed, h.stopped, h.cleared, nofun, nofun,
      nofun⟩ (htrust.weaken _)
    intro e he
    dsimp only at he
    split at he
    · rename_i hclean
      obtain he | he := List.mem_append.mp he
      · exact h.ended e he
      · obtain rfl := List.mem_singleton.mp he
        exact fun index caps hget => hreach hclean index caps hget List.not_mem_nil
    · exact h.ended e he
  | cons index rest ih =>
    rw [capNext, if_neg (by simp [hgen, hon])]
    split
    · rename_i hnone
      refine ih fun hclean j caps hget hj => hreach hclean j caps hget fun hmem => ?_
      obtain rfl | hmem := List.mem_cons.mp hmem
      · rw [hnone] at hget
        cases hget
      · exact hj hmem
    · rename_i caps hget
      dsimp only
      split
      · -- the cap counts as applied, and so it is on the GPU
        rename_i happ
        refine ih fun hclean j caps' hget' hj => ?_
        by_cases hji : j = index
        · subst hji
          rw [hget] at hget'
          cases hget'
          obtain hgpu | ⟨c, hc, -⟩ := htrust j _ happ
          · exact hgpu
          · cases hc
        · exact hreach hclean j caps' hget' fun hmem => (List.mem_cons.mp hmem).elim hji hj
      · refine ⟨h.startCommand hgen hversion hread hon hget, ?_, htrust⟩
        rintro t' ht -
        cases ht
        exact ⟨hversion, hon, ⟨caps, hget, rfl⟩, hreach⟩

/-- A reading that failed has its number in the record. -/
theorem Recorded.noteFailed {s : Watcher} (h : s.Recorded) {t : Tick} (hwork : s.work = some t)
    (hphase : t.phase = .reading) : Recorded { s with work := none, failed := t.reading :: s.failed } := by
  have hflight := h.in_flight
  rw [hwork, Option.map_some, Option.getD_some, Tick.commands, hphase] at hflight
  refine ⟨hflight, ?_, h.ended, ?_, h.stopped, h.cleared, nofun, nofun, nofun⟩
  · intro c hc
    obtain ⟨hright, hlt, hread⟩ := h.started c hc
    refine ⟨hright, hlt, fun hmem => ?_⟩
    obtain heq | hmem := List.mem_cons.mp hmem
    · exact h.unused t hwork hphase c hc heq
    · exact hread hmem
  · intro n hn
    obtain rfl | hn := List.mem_cons.mp hn
    · exact (h.reading t hwork).1
    · exact h.failed n hn

theorem Sound.reject {s : Watcher} (h : Recorded { s with work := none }) (htrust : s.Trusted []) :
    Sound s.reject :=
  ⟨⟨h.in_flight, h.started, h.ended, h.failed, h.stopped, h.cleared, nofun, nofun, nofun⟩, nofun, htrust⟩

theorem Sound.readDone {s : Watcher} (h : Sound s) (num : Text → Rat) (res : ExecResult) :
    Sound (s.readDone num res) := by
  obtain ⟨h, hcur, htrust⟩ := h
  rw [Watcher.readDone]
  split
  · rename_i generation indexes trigger reading version clean hwork
    dsimp only
    split
    · exact sound_fulfil (h.noteFailed hwork rfl) (htrust.weaken _)
    · have hflight := h.in_flight
      rw [hwork] at hflight
      split
      · exact sound_fulfil (h.withoutTick hflight) (htrust.weaken _)
      · rename_i hgo
        push Not at hgo
        obtain ⟨hversion, hon, -, hcover⟩ := hcur _ hwork hgo.1
        exact sound_capNext (h.withoutTick hflight) htrust hgo.1 hversion (h.reading _ hwork) hon
          fun _ index caps hget hmem => absurd (hcover index caps hget) hmem
  · exact ⟨h, hcur, htrust⟩

theorem Sound.readThrew {s : Watcher} (h : Sound s) : Sound s.readThrew := by
  rw [Watcher.readThrew]
  split
  · rename_i hwork
    exact Sound.reject (h.recorded.noteFailed hwork rfl) h.trusted
  · exact h

/-- The success of a command after its generation has ended meets no cap that counts as applied, or a
call that waits takes that cap away. -/
def Allowed (s : Watcher) (event : WatcherEvent) : Prop :=
  match event, s.work with
  | .capped .ok, some ⟨generation, _, _, _, _, _, .capping index _ _ _⟩ =>
    generation = s.generation ∨ s.applied.get? index = none ∨
      ∃ c ∈ s.waiting, c.drops index = true
  | _, _ => True

instance (s : Watcher) (event : WatcherEvent) : Decidable (s.Allowed event) := by
  unfold Allowed
  split <;> infer_instance

theorem Sound.capped {s : Watcher} (h : Sound s) {result : Capped} (hok : s.Allowed (.capped result)) :
    Sound (s.capped result) := by
  obtain ⟨h, hcur, htrust⟩ := h
  rw [Watcher.capped]
  split
  · rename_i generation indexes trigger reading version clean index target busy rest hwork
    have hread := h.reading _ hwork
    have hflight := h.in_flight
    rw [hwork, Option.map_some, Option.getD_some, Tick.commands] at hflight
    have hrec : ∀ (applied onGpu : OrderedMap Nat Nat), Recorded { s with
        work := none, inFlight := s.inFlight - 1, applied := applied, onGpu := onGpu } := fun _ _ =>
      ⟨by rw [hflight]; rfl, h.started, h.ended, h.failed, h.stopped, h.cleared, nofun, nofun, nofun⟩
    dsimp only
    cases result with
    | threw => exact Sound.reject (hrec _ _) htrust
    | failed =>
      simp only [reduceCtorEq, if_false]
      split
      · exact sound_fulfil (hrec _ _) (htrust.weaken _)
      · rename_i hgo
        push Not at hgo
        obtain ⟨hversion, hon, -, -⟩ := hcur _ hwork hgo.1
        refine sound_capNext (s := { s with inFlight := s.inFlight - 1 }) (hrec _ _) htrust hgo.1
          hversion hread hon fun hclean => ?_
        simp at hclean
    | ok =>
      rw [if_neg (by decide), if_pos rfl, if_pos rfl]
      split
      · rename_i hend
        refine sound_fulfil (hrec _ _) fun j watts happ => ?_
        have hstale : generation ≠ s.generation := by
          rintro rfl
          have hon := (hcur _ hwork rfl).2.1
          simp [hon] at hend
        simp only [Allowed, hwork] at hok
        obtain heq | hnone | hdrop := hok
        · exact absurd heq hstale
        · by_cases hj : j = index
          · subst hj
            rw [show s.applied.get? j = some watts from happ] at hnone
            cases hnone
          · obtain hgpu | ⟨c, hc, -⟩ := htrust j watts happ
            · exact .inl (by simpa [hj] using hgpu)
            · cases hc
        · by_cases hj : j = index
          · subst hj
            exact .inr hdrop
          · obtain hgpu | ⟨c, hc, -⟩ := htrust j watts happ
            · exact .inl (by simpa [hj] using hgpu)
            · cases hc
      · rename_i hgo
        push Not at hgo
        obtain ⟨hversion, hon, ⟨caps, hget, rfl⟩, hreach⟩ := hcur _ hwork hgo.1
        refine sound_capNext (hrec _ _) (fun j watts happ => ?_) hgo.1 hversion hread hon
          fun hclean j caps' hget' hj => ?_
        · dsimp only at happ ⊢
          rw [OrderedMap.get?_set] at happ ⊢
          by_cases hj : j = index
          · rw [if_pos hj] at happ ⊢
            exact .inl happ
          · rw [if_neg hj] at happ ⊢
            exact htrust j watts happ
        · dsimp only
          rw [OrderedMap.get?_set]
          split
          · rename_i hji
            subst hji
            have hcaps : some caps = some caps' := hget.symm.trans hget'
            cases hcaps
            rfl
          · rename_i hji
            exact hreach (by simpa using hclean) j caps' hget'
              fun hmem => (List.mem_cons.mp hmem).elim hji hj
  · exact ⟨h, hcur, htrust⟩

theorem Sound.step {s : Watcher} {event : WatcherEvent} (num : Text → Rat) (h : Sound s)
    (hok : s.Allowed event) : Sound (s.step num event) := by
  cases event with
  | tick =>
    rw [Watcher.step]
    split
    · exact ⟨h.recorded.runAutoCapTick, h.current.runAutoCapTick, h.trusted.runAutoCapTick⟩
    · exact h
  | readDone res => exact h.readDone num res
  | readThrew => exact h.readThrew
  | capped result => exact h.capped hok
  | calls batch => exact h.calls batch
  | reset => exact h.stopWatcher
  | connection up =>
    obtain ⟨hrec, hcur, htrust⟩ := h
    exact ⟨⟨hrec.in_flight, hrec.started, hrec.ended, hrec.failed, hrec.stopped, hrec.cleared,
      hrec.generation, hrec.reading, hrec.unused⟩, hcur, htrust⟩
  | applyAutoCap => exact h.applyPoller

/-! ### Runs -/

/-- From any saved configuration, in every run in which no command succeeds, after the end of its
tick's generation, for a GPU whose cap still counts as applied and stays so. -/
theorem auto_cap_sane (num : Text → Rat) {cfg : AutoCapConfig} {connected : Bool}
    {events : List WatcherEvent} (h : Guarded (step num) Allowed (start cfg connected) events) :
    Sane (run (step num) (start cfg connected) events) :=
  (run_preserves (fun _ _ hs hok => Sound.step num hs hok) h (sound_start cfg connected)).sane

/-- One GPU, idle at 100 W and running at 200 W. -/
def oneGpu : AutoCapConfig := ⟨true, 10, .docker, .ofList [(0, ⟨100, 200⟩)]⟩

/-- The GPU is capped busy and then idle, and meanwhile a client does this. -/
def cappedDuring (call : Call) (after : List WatcherEvent) : List WatcherEvent :=
  [.applyAutoCap, .readDone ⟨some 0, js "c0ffee"⟩, .capped .ok, .tick, .readDone ⟨some 0, []⟩,
    .calls [call], .capped .ok, .readDone ⟨some 0, js "c0ffee"⟩] ++ after

theorem auto_cap_sane_set :
    Sane (run (step fun _ => 0) (start oneGpu true)
      (cappedDuring (.autoCapSet (some ⟨0, 80, 250⟩) (some 120) (some 200)) [.capped .ok])) :=
  auto_cap_sane (fun _ => 0) (by decide +kernel)

/-- The interval is changed while the idle cap is being set. The next tick finds the GPU busy, takes
the running cap for applied, and ends with the GPU still at its idle cap. -/
theorem cap_believed :
    ¬ Sane (run (step fun _ => 0) (start oneGpu true)
      (cappedDuring (.autoCapConfigure (some 20) (js "docker")) [])) := by
  intro h
  have hmem : (⟨{ oneGpu with intervalSec := 20 }, .ofList [(0, true)], .ofList [(0, 100)]⟩ : Ended) ∈
      (run (step fun _ => 0) (start oneGpu true)
        (cappedDuring (.autoCapConfigure (some 20) (js "docker")) [])).ended := by decide +kernel
  have hcap := h.ended _ hmem 0 ⟨100, 200⟩ (by decide +kernel)
  exact absurd hcap (by decide +kernel)

end Watcher
end BoredManager.Gpu
