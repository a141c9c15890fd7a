import BoredManager.OpenWrt.JobItems

/-! Job accounting over every run: what the log of a runner can hold, whatever the
order in which items settle and the user cancels. -/
namespace BoredManager.OpenWrt
open BoredManager.Js BoredManager.Machine

variable {W : Type*}

inductive JobEvent (W : Type*)
  | start (spec : JobSpec W) (draws : Nat → Int × Text) (now : Int) (faults : Faults)
  | settle (key : Nat) (outcome : Outcome) (now : Int) (faults : Faults)
  | cancel (id : Text)
  | clearFinished (write : StoreWrite)
  | reset (history : List OpenWrtJob)
  | dispose

/-- A runner with what was seen of it, the latest first; `loaded` is the history that
the host had at the last stop. -/
structure JobSystem (W : Type*) where
  jobs : Jobs W
  loaded : List OpenWrtJob
  log : List (Action W)

namespace JobSystem

def init (history : List OpenWrtJob) : JobSystem W := ⟨Jobs.init history, history, []⟩

def step (s : JobSystem W) : JobEvent W → JobSystem W
  | .start spec draws now faults =>
    let r := s.jobs.start spec draws now faults
    { s with jobs := r.1, log := r.2.1 ++ s.log }
  | .settle key outcome now faults =>
    let r := s.jobs.settle key outcome now faults
    { s with jobs := r.1, log := r.2 ++ s.log }
  | .cancel id =>
    let r := s.jobs.cancel id
    { s with jobs := r.1, log := r.2 ++ s.log }
  | .clearFinished write => { s with jobs := s.jobs.clearFinished write }
  | .reset history =>
    let r := s.jobs.stopLive false
    ⟨{ r.1 with history }, history, r.2 ++ s.log⟩
  | .dispose =>
    let r := s.jobs.stopLive true
    ⟨r.1, r.1.history, r.2 ++ s.log⟩

/-- One of the fifty ids that `makeJobId` draws is not taken. -/
def DrawsUnusedId (s : JobSystem W) : JobEvent W → Prop
  | .start _ draws _ _ => ∃ attempt < 50, jobIdText (draws attempt) ∉ s.jobs.takenIds
  | _ => True

end JobSystem

/-- A stop came after the start of the job. -/
def interrupted (key : Nat) : List (Action W) → Prop
  | [] => False
  | .stopped :: older => (∃ spec, .jobStarted key spec ∈ older) ∨ interrupted key older
  | _ :: older => interrupted key older

def sinceStop : List (Action W) → List (Action W)
  | [] => []
  | .stopped :: _ => []
  | action :: older => action :: sinceStop older

/-- What an action needs of the actions before it. -/
def Allowed : Action W → List (Action W) → Prop
  | .jobStarted key _, older => ∀ spec, .jobStarted key spec ∉ older
  | .itemStarted key _, older =>
    (∃ spec, .jobStarted key spec ∈ older ∧
      (spec.onError = .abort → ∀ idx, .itemEnded key idx .error ∉ older)) ∧
    .cancelRequested key ∉ older ∧ ¬ interrupted key older ∧ ∀ job, .finished key job ∉ older
  | .itemSettled key idx _, older => .itemStarted key idx ∈ older
  | .itemEnded key idx status, older =>
    status.isTerminal = true ∧ .itemStarted key idx ∈ older ∧
      ∀ earlier, .itemEnded key idx earlier ∉ older
  | .finished key job, older =>
    (∃ spec, .jobStarted key spec ∈ older ∧ Accounted spec (.cancelRequested key ∈ older) job) ∧
    (∀ idx status, .itemEnded key idx status ∈ older →
      ∃ item ∈ job.items, item.idx = idx ∧ item.status = status) ∧
    (∀ item ∈ job.items, item.status = .cancelled →
      .cancelRequested key ∈ older ∨ .itemSettled key item.idx .cancelledError ∈ older) ∧
    ¬ interrupted key older ∧ ∀ earlier, .finished key earlier ∉ older
  | .onFinished key job, older => older.head? = some (.finished key job)
  | .cancelRequested _, _ | .stopped, _ => True

def Ordered : List (Action W) → Prop
  | [] => True
  | action :: older => Allowed action older ∧ Ordered older

def Action.key? : Action W → Option Nat
  | .jobStarted key _ | .itemStarted key _ | .itemSettled key _ _ | .itemEnded key _ _
  | .cancelRequested key | .finished key _ | .onFinished key _ => some key
  | .stopped => none

theorem interrupted_cons {key : Nat} {action : Action W} {log : List (Action W)}
    (h : action ≠ .stopped) : interrupted key (action :: log) ↔ interrupted key log := by
  cases action <;> first | exact Iff.rfl | exact absurd rfl h

theorem sinceStop_cons {action : Action W} {log : List (Action W)} (h : action ≠ .stopped) :
    sinceStop (action :: log) = action :: sinceStop log := by
  cases action <;> first | rfl | exact absurd rfl h

theorem mem_sinceStop_of_started {key : Nat} {spec : JobSpec W} {log : List (Action W)}
    (hi : ¬ interrupted key log) (hs : .jobStarted key spec ∈ log) :
    .jobStarted key spec ∈ sinceStop log := by
  induction log with
  | nil => cases hs
  | cons action log ih =>
    by_cases h : action = .stopped
    · subst h
      exact absurd (.inl ⟨spec, by simpa using hs⟩) hi
    · rw [interrupted_cons h] at hi
      rw [sinceStop_cons h]
      rcases List.mem_cons.mp hs with rfl | hs
      · exact List.mem_cons_self
      · exact List.mem_cons_of_mem _ (ih hi hs)

theorem exists_started_of_interrupted {key : Nat} {log : List (Action W)} (h : interrupted key log) :
    ∃ spec, .jobStarted key spec ∈ log := by
  induction log with
  | nil => exact h.elim
  | cons action log ih =>
    cases action with
    | stopped =>
      rcases h with ⟨spec, hs⟩ | h
      · exact ⟨spec, List.mem_cons_of_mem _ hs⟩
      · obtain ⟨spec, hs⟩ := ih h
        exact ⟨spec, List.mem_cons_of_mem _ hs⟩
    | _ =>
      obtain ⟨spec, hs⟩ := ih h
      exact ⟨spec, List.mem_cons_of_mem _ hs⟩

/-- What the log says of a job of the current connection. -/
structure Tracked (log : List (Action W)) (cancelling : List Text) (key : Nat)
    (j : LiveJob W) : Prop where
  started : ∃ spec, .jobStarted key spec ∈ log ∧ j.Balanced spec
  requested : j.id ∈ cancelling ↔ .cancelRequested key ∈ log
  notInterrupted : ¬ interrupted key log
  notFinished : ∀ job, .finished key job ∉ log
  ended : ∀ idx status, .itemEnded key idx status ∈ log →
    ∃ item ∈ j.settled, item.idx = idx ∧ item.status = status
  cancelledItem : ∀ item ∈ j.settled, item.status = .cancelled →
    .cancelRequested key ∈ log ∨ .itemSettled key item.idx .cancelledError ∈ log

/-- An action of another job leaves the account of this one alone. -/
theorem Tracked.frame {log : List (Action W)} {cancelling : List Text} {key : Nat}
    {j : LiveJob W} {action : Action W} {other : Nat} (h : Tracked log cancelling key j)
    (ha : action.key? = some other) (hne : other ≠ key) :
    Tracked (action :: log) cancelling key j := by
  have hmem : ∀ {a : Action W}, a.key? = some key → (a ∈ action :: log ↔ a ∈ log) := by
    intro a hk
    refine ⟨fun hm => ?_, List.mem_cons_of_mem _⟩
    rcases List.mem_cons.mp hm with rfl | hm
    · rw [ha] at hk
      exact absurd (Option.some.inj hk) hne
    · exact hm
  have hstop : action ≠ .stopped := by
    rintro rfl
    cases ha
  obtain ⟨spec, hs, hb⟩ := h.started
  constructor
  · exact ⟨spec, List.mem_cons_of_mem _ hs, hb⟩
  · rw [h.requested, hmem rfl]
  · rw [interrupted_cons hstop]
    exact h.notInterrupted
  · exact fun job hm => h.notFinished job ((hmem rfl).mp hm)
  · exact fun idx status hm => h.ended idx status ((hmem rfl).mp hm)
  · intro item hi hs
    exact (h.cancelledItem item hi hs).imp (List.mem_cons_of_mem _) (List.mem_cons_of_mem _)

theorem Tracked.congr {log : List (Action W)} {cancelling cancelling' : List Text} {key : Nat}
    {j : LiveJob W} (h : Tracked log cancelling key j)
    (hc : j.id ∈ cancelling' ↔ j.id ∈ cancelling) : Tracked log cancelling' key j :=
  ⟨h.started, hc.trans h.requested, h.notInterrupted, h.notFinished, h.ended,
    h.cancelledItem⟩

/-- A job that waits has had no failure that stops it. -/
theorem Tracked.no_error {log : List (Action W)} {cancelling : List Text} {key : Nat}
    {j : LiveJob W} {spec : JobSpec W} (h : Tracked log cancelling key j) (hw : j.Waits)
    (hb : j.Balanced spec) (ha : spec.onError = .abort) (idx : Nat) :
    .itemEnded key idx .error ∉ log := by
  intro hm
  obtain ⟨item, hi, -, hs⟩ := h.ended idx .error hm
  have hpos : 0 < j.failed := by
    rw [hb.failed, List.countP_pos_iff]
    exact ⟨item, hi, by simp [hs]⟩
  have habort := hw.2.2 (hb.onError.trans ha) hpos
  rw [hw.2.1] at habort
  cases habort

/-- Every stored job was stored at the last stop, or was started and finished since. -/
def HistoryFrom (s : JobSystem W) : Prop :=
  ∀ entry ∈ s.jobs.history, entry ∈ s.loaded ∨
    ∃ key spec job, .jobStarted key spec ∈ sinceStop s.log ∧
      .finished key job ∈ sinceStop s.log ∧ entry = trimFinishedJob job

/-- The invariant of a runner; nothing is said of how the job `busy` waits, which a
step is about to conclude. -/
structure Inv (busy : Option Nat) (s : JobSystem W) : Prop where
  tracked : ∀ key j, some key ≠ busy → s.jobs.runs.get? key = some j → j.waiting = true →
    s.jobs.current j.generation = true →
    Tracked s.log s.jobs.cancelling key j ∧ j.Waits ∧ key ∈ s.jobs.live ∧
      ∀ item work rest, j.rest = (item, work) :: rest → .itemStarted key item.idx ∈ s.log
  idsDistinct : ∀ key ∈ s.jobs.live, ∀ other ∈ s.jobs.live,
    s.jobs.idOf key = s.jobs.idOf other → key = other
  liveRuns : ∀ key ∈ s.jobs.live, ∃ j, s.jobs.runs.get? key = some j ∧
    s.jobs.current j.generation = true
  cancellingLive : ∀ id ∈ s.jobs.cancelling, ∃ key ∈ s.jobs.live, s.jobs.idOf key = some id
  runKeys : ∀ key ∈ s.jobs.runs.keys, key < s.jobs.nextKey
  logKeys : ∀ action ∈ s.log, ∀ key, action.key? = some key → key < s.jobs.nextKey
  generations : ∀ key j, s.jobs.runs.get? key = some j → j.generation ≤ s.jobs.generation
  ordered : Ordered s.log
  history : HistoryFrom s

theorem inv_init (history : List OpenWrtJob) : Inv none (JobSystem.init history : JobSystem W) := by
  constructor
  case history => exact fun entry he => .inl he
  all_goals simp [JobSystem.init, Jobs.init, OrderedMap.keys, OrderedMap.empty, Ordered,
    OrderedMap.get?]

theorem mem_persist {first second : StoreWrite} {job entry : OpenWrtJob}
    {history : List OpenWrtJob} (h : entry ∈ persist first second job history) :
    entry = trimFinishedJob job ∨ entry ∈ history := by
  have hkeep : ∀ {limit : Nat} {e : OpenWrtJob} {l : List OpenWrtJob},
      e ∈ keepHistory limit (trimFinishedJob job) l → e = trimFinishedJob job ∨ e ∈ l := by
    intro limit e l he
    rcases List.mem_cons.mp (List.mem_of_mem_take he) with rfl | he
    · exact .inl rfl
    · exact .inr (List.mem_of_mem_filter he)
  have happly : ∀ {w : StoreWrite} {limit : Nat} {e : OpenWrtJob} {l : List OpenWrtJob},
      e ∈ w.apply l (keepHistory limit (trimFinishedJob job) l) →
        e = trimFinishedJob job ∨ e ∈ l := by
    intro w limit e l he
    unfold StoreWrite.apply at he
    split at he
    · exact .inr he
    · exact hkeep he
  unfold persist at h
  simp only [] at h
  split at h
  · exact happly h
  · rcases happly h with h | h
    · exact .inl h
    · exact happly h

theorem historyFrom_cons {s : JobSystem W} {action : Action W} (h : HistoryFrom s)
    (ha : action ≠ .stopped) : HistoryFrom { s with log := action :: s.log } := by
  intro entry he
  rcases h entry he with h | ⟨key, spec, job, hs, hf, rfl⟩
  · exact .inl h
  · rw [sinceStop_cons ha]
    exact .inr ⟨key, spec, job, List.mem_cons_of_mem _ hs, List.mem_cons_of_mem _ hf, rfl⟩

theorem Inv.weaken {s : JobSystem W} (h : Inv none s) (key : Nat) : Inv (some key) s :=
  { h with tracked := fun k j _ => h.tracked k j (by simp) }

/-- Seeing an action of the job `busy` keeps the invariant. -/
theorem Inv.see {s : JobSystem W} {key : Nat} (action : Action W) (h : Inv (some key) s)
    (hkey : action.key? = some key) (hlt : key < s.jobs.nextKey) (ha : Allowed action s.log) :
    Inv (some key) { s with log := action :: s.log } := by
  have hstop : action ≠ .stopped := by
    rintro rfl
    cases hkey
  refine { h with
    tracked := ?_
    logKeys := ?_
    ordered := ⟨ha, h.ordered⟩
    history := historyFrom_cons h.history hstop }
  · intro k j hk hget hwait hcur
    obtain ⟨ht, hw, hl, hi⟩ := h.tracked k j hk hget hwait hcur
    have hne : key ≠ k := fun hkk => hk (by rw [hkk])
    exact ⟨ht.frame hkey hne, hw, hl, fun item work rest hr =>
      List.mem_cons_of_mem _ (hi item work rest hr)⟩
  · intro a hm k hk
    rcases List.mem_cons.mp hm with rfl | hm
    · rw [hkey] at hk
      cases hk
      exact hlt
    · exact h.logKeys a hm k hk

theorem idOf_set_self {s : Jobs W} {key : Nat} {j : LiveJob W} (h : s.idOf key = some j.id)
    (k : Nat) : ((s.runs.set key j).get? k).map LiveJob.id = s.idOf k := by
  rw [OrderedMap.get?_set]
  by_cases hk : k = key
  · rw [if_pos hk, hk, h]
    rfl
  · rw [if_neg hk, Jobs.idOf]

/-- The step ends at the await of another item. -/
theorem conclude_waits {s : JobSystem W} {key : Nat} {j : LiveJob W} (now : Int) (faults : Faults)
    (h : Inv (some key) s) (hlive : key ∈ s.jobs.live) (hid : s.jobs.idOf key = some j.id)
    (ht : Tracked s.log s.jobs.cancelling key j) (hcur : s.jobs.current j.generation = true)
    (hwait : j.waiting = true) (hc : j.id ∉ s.jobs.cancelling) (hw : j.Waits) :
    Inv none { s with
      jobs := (s.jobs.conclude key j now faults).1
      log := (s.jobs.conclude key j now faults).2 ++ s.log } := by
  obtain ⟨item, work, rest, hrest⟩ := hw.1
  obtain ⟨spec, hs, hb⟩ := ht.started
  have hlt : key < s.jobs.nextKey := h.logKeys _ hs key rfl
  have hallowed : Allowed (.itemStarted key item.idx) s.log :=
    ⟨⟨spec, hs, ht.no_error hw hb⟩, fun hm => hc (ht.requested.mpr hm), ht.notInterrupted,
      ht.notFinished⟩
  have hconclude : s.jobs.conclude key j now faults =
      ({ s.jobs with runs := s.jobs.runs.set key j }, [.itemStarted key item.idx]) := by
    unfold Jobs.conclude
    rw [hwait, hrest]
  have hsee := h.see (.itemStarted key item.idx) rfl hlt hallowed
  have hids := idOf_set_self hid
  rw [hconclude]
  constructor
  · intro k r _ hget hwaits hcurrent
    simp only [OrderedMap.get?_set] at hget
    by_cases hk : k = key
    · subst hk
      rw [if_pos rfl] at hget
      cases hget
      refine ⟨⟨⟨spec, List.mem_cons_of_mem _ hs, hb⟩, ?_, ht.notInterrupted, ?_, ?_, ?_⟩, hw, hlive,
        fun item' work' rest' hr => ?_⟩
      · simpa using ht.requested
      · simpa using ht.notFinished
      · simpa using ht.ended
      · simpa using ht.cancelledItem
      · rw [hrest] at hr
        cases hr
        exact List.mem_cons_self
    · rw [if_neg hk] at hget
      exact hsee.tracked k r (by simpa using hk) hget hwaits hcurrent
  · intro k hk other ho he
    simp only [Jobs.idOf, hids] at he
    exact h.idsDistinct k hk other ho he
  · intro k hk
    by_cases hkk : k = key
    · exact ⟨j, by rw [hkk]; simp, hcur⟩
    · obtain ⟨r, hr, hrcur⟩ := h.liveRuns k hk
      exact ⟨r, by simp [hkk, hr], hrcur⟩
  · intro id hi
    obtain ⟨k, hk, hkid⟩ := h.cancellingLive id hi
    exact ⟨k, hk, (hids k).trans hkid⟩
  · intro k hk
    rcases OrderedMap.mem_keys_set.mp hk with rfl | hk
    · exact hlt
    · exact h.runKeys k hk
  · exact hsee.logKeys
  · intro k r hget
    simp only [OrderedMap.get?_set] at hget
    by_cases hk : k = key
    · rw [if_pos hk] at hget
      cases hget
      simp only [Jobs.current, Bool.and_eq_true, decide_eq_true_eq] at hcur
      exact Nat.le_of_eq hcur.2
    · rw [if_neg hk] at hget
      exact h.generations k r hget
  · exact hsee.ordered
  · exact hsee.history

/-- The step ends the job. -/
theorem conclude_finishes {s : JobSystem W} {key : Nat} {j : LiveJob W} (now : Int)
    (faults : Faults) (h : Inv (some key) s) (hlive : key ∈ s.jobs.live)
    (hid : s.jobs.idOf key = some j.id) (ht : Tracked s.log s.jobs.cancelling key j)
    (hwait : j.waiting = false) (hrest : j.rest = []) :
    Inv none { s with
      jobs := (s.jobs.conclude key j now faults).1
      log := (s.jobs.conclude key j now faults).2 ++ s.log } := by
  obtain ⟨spec, hs, hb⟩ := ht.started
  have hlt : key < s.jobs.nextKey := h.logKeys _ hs key rfl
  generalize hjob : j.finish (decide (j.id ∈ s.jobs.cancelling)) now = job
  have haccount : Accounted spec (.cancelRequested key ∈ s.log) job := by
    have hfinish := LiveJob.finish_accounted (decide (j.id ∈ s.jobs.cancelling)) now hb hrest
    rw [hjob] at hfinish
    rwa [decide_eq_true_eq, ht.requested] at hfinish
  have hitems : job.items = j.settled := by
    rw [← hjob]
    exact LiveJob.finish_items _ now hb hrest
  have hfinished : Inv (some key) { s with log := .finished key job :: s.log } := by
    refine h.see _ rfl hlt ⟨⟨spec, hs, haccount⟩, ?_, ?_, ht.notInterrupted, ht.notFinished⟩
    · rw [hitems]
      exact ht.ended
    · rw [hitems]
      exact ht.cancelledItem
  have hseen : ∃ log, (s.jobs.conclude key j now faults).2 ++ s.log = log ∧
      Inv (some key) { s with log } ∧ .finished key job ∈ sinceStop log ∧
      .jobStarted key spec ∈ sinceStop log := by
    have hstarted := mem_sinceStop_of_started ht.notInterrupted hs
    unfold Jobs.conclude
    rw [hwait, hjob]
    dsimp only
    split
    · exact ⟨_, rfl, hfinished, List.mem_cons_self, List.mem_cons_of_mem _ hstarted⟩
    · exact ⟨_, rfl, hfinished.see _ rfl hlt rfl, by simp [sinceStop], by simp [sinceStop, hstarted]⟩
  obtain ⟨log, hlog, hinv, hmemf, hmems⟩ := hseen
  rw [hlog]
  have hjobs : (s.jobs.conclude key j now faults).1 = { s.jobs with
      runs := s.jobs.runs.erase key
      live := s.jobs.live.filter fun k => decide (s.jobs.idOf k ≠ some j.id)
      cancelling := s.jobs.cancelling.filter fun id => decide (id ≠ j.id)
      history := persist faults.firstWrite faults.secondWrite job s.jobs.history } := by
    unfold Jobs.conclude
    rw [hwait, hjob]
  rw [hjobs]
  have hidOf : ∀ k ∈ s.jobs.live, s.jobs.idOf k ≠ some j.id →
      (s.jobs.runs.erase key).get? k = s.jobs.runs.get? k := by
    intro k _ hne
    rw [OrderedMap.get?_erase, if_neg]
    rintro rfl
    exact hne hid
  constructor
  · intro k r _ hget hwaits hcurrent
    simp only [OrderedMap.get?_erase] at hget
    by_cases hk : k = key
    · simp [hk] at hget
    · rw [if_neg hk] at hget
      obtain ⟨hr, hw, hl, hi⟩ := hinv.tracked k r (by simpa using hk) hget hwaits hcurrent
      have hidk : s.jobs.idOf k = some r.id := by simp [Jobs.idOf, hget]
      have hne : r.id ≠ j.id := fun he => hk (h.idsDistinct k hl key hlive (by rw [hidk, hid, he]))
      refine ⟨hr.congr (by simp [hne]), hw, List.mem_filter.mpr ⟨hl, ?_⟩, hi⟩
      rw [hidk]
      simpa using hne
  · intro k hk other ho he
    obtain ⟨hkl, hkn⟩ := List.mem_filter.mp hk
    obtain ⟨hol, hon⟩ := List.mem_filter.mp ho
    simp only [Jobs.idOf, hidOf k hkl (of_decide_eq_true hkn),
      hidOf other hol (of_decide_eq_true hon)] at he
    exact h.idsDistinct k hkl other hol he
  · intro k hk
    obtain ⟨hkl, hkn⟩ := List.mem_filter.mp hk
    obtain ⟨r, hr, hrcur⟩ := h.liveRuns k hkl
    exact ⟨r, (hidOf k hkl (of_decide_eq_true hkn)).trans hr, hrcur⟩
  · intro id hi
    obtain ⟨hi, hne⟩ := List.mem_filter.mp hi
    obtain ⟨k, hk, hkid⟩ := h.cancellingLive id hi
    have hkn : s.jobs.idOf k ≠ some j.id := by
      rw [hkid]
      simpa using hne
    refine ⟨k, List.mem_filter.mpr ⟨hk, by simpa using hkn⟩, ?_⟩
    rw [← hkid]
    simp only [Jobs.idOf, hidOf k hk hkn]
  · intro k hk
    obtain ⟨r, hr⟩ := OrderedMap.mem_keys.mp hk
    exact h.runKeys k (OrderedMap.mem_keys.mpr ⟨r, (OrderedMap.mem_entries_erase.mp hr).1⟩)
  · exact hinv.logKeys
  · intro k r hget
    simp only [OrderedMap.get?_erase] at hget
    split at hget
    · cases hget
    · exact h.generations k r hget
  · exact hinv.ordered
  · intro entry he
    rcases mem_persist he with rfl | he
    · exact .inr ⟨key, spec, job, hmems, hmemf, rfl⟩
    · exact hinv.history entry he

theorem conclude_inv {s : JobSystem W} {key : Nat} {j : LiveJob W} (now : Int)
    (faults : Faults) (h : Inv (some key) s) (hlive : key ∈ s.jobs.live)
    (hid : s.jobs.idOf key = some j.id) (ht : Tracked s.log s.jobs.cancelling key j)
    (hcur : s.jobs.current j.generation = true)
    (hj : (j.waiting = true ∧ j.id ∉ s.jobs.cancelling ∧ j.Waits) ∨
      (j.waiting = false ∧ j.rest = [])) :
    Inv none { s with
      jobs := (s.jobs.conclude key j now faults).1
      log := (s.jobs.conclude key j now faults).2 ++ s.log } := by
  rcases hj with ⟨hwait, hc, hw⟩ | ⟨hwait, hrest⟩
  · exact conclude_waits now faults h hlive hid ht hcur hwait hc hw
  · exact conclude_finishes now faults h hlive hid ht hwait hrest

theorem isCancelled_of_current {s : Jobs W} {j : LiveJob W}
    (h : s.current j.generation = true) : s.isCancelled j = decide (j.id ∈ s.cancelling) := by
  simp [Jobs.isCancelled, h]

/-- The runner of an earlier connection returns when its promise settles. -/
theorem inv_drop {s : JobSystem W} {key : Nat} {j : LiveJob W} (h : Inv none s)
    (hget : s.jobs.runs.get? key = some j) (hcur : s.jobs.current j.generation = false) :
    Inv none { s with jobs := { s.jobs with runs := s.jobs.runs.erase key } } := by
  have hlive : key ∉ s.jobs.live := by
    intro hl
    obtain ⟨r, hr, hrcur⟩ := h.liveRuns key hl
    rw [hget] at hr
    cases hr
    rw [hcur] at hrcur
    cases hrcur
  have hother : ∀ k ∈ s.jobs.live, (s.jobs.runs.erase key).get? k = s.jobs.runs.get? k := by
    intro k hk
    rw [OrderedMap.get?_erase, if_neg]
    rintro rfl
    exact hlive hk
  have hkeep : ∀ {k : Nat} {r : LiveJob W}, (s.jobs.runs.erase key).get? k = some r →
      s.jobs.runs.get? k = some r := by
    intro k r hr
    rw [OrderedMap.get?_erase] at hr
    split at hr
    · cases hr
    · exact hr
  constructor
  · exact fun k r hk hr => h.tracked k r hk (hkeep hr)
  · intro k hk other ho he
    simp only [Jobs.idOf, hother k hk, hother other ho] at he
    exact h.idsDistinct k hk other ho he
  · intro k hk
    obtain ⟨r, hr, hrcur⟩ := h.liveRuns k hk
    exact ⟨r, (hother k hk).trans hr, hrcur⟩
  · intro id hi
    obtain ⟨k, hk, hkid⟩ := h.cancellingLive id hi
    refine ⟨k, hk, ?_⟩
    rw [← hkid]
    simp only [Jobs.idOf, hother k hk]
  · intro k hk
    obtain ⟨r, hr⟩ := OrderedMap.mem_keys.mp hk
    exact h.runKeys k (OrderedMap.mem_keys.mpr ⟨r, (OrderedMap.mem_entries_erase.mp hr).1⟩)
  · exact h.logKeys
  · exact fun k r hr => h.generations k r (hkeep hr)
  · exact h.ordered
  · exact h.history

/-- The step of a settled promise: the first item ends, and the runner goes on from
`after`, in which it has ended. -/
theorem settle_spec {s : Jobs W} {key : Nat} {j : LiveJob W} {item : JobItem} {work : W}
    {rest : List (JobItem × W)} {spec : JobSpec W} (outcome : Outcome) (now : Int)
    (faults : Faults) (hget : s.runs.get? key = some j) (hwait : j.waiting = true)
    (hcur : s.current j.generation = true) (hb : j.Balanced spec) (ha : j.Aborts)
    (hrest : j.rest = (item, work) :: rest) :
    ∃ ended after next,
      after.settled = j.settled ++ [ended] ∧ after.works = rest.map Prod.snd ∧ after.id = j.id ∧
      after.generation = j.generation ∧ after.Balanced spec ∧
      (ended.status = .ok → ∃ note, outcome = .ok note) ∧
      (ended.status = .cancelled → j.id ∈ s.cancelling ∨ outcome = .cancelledError) ∧
      LiveJob.Resumes spec (decide (j.id ∈ s.cancelling)) after next ∧
      s.settle key outcome now faults = ((s.conclude key next now faults).1,
        (s.conclude key next now faults).2 ++
          [.itemEnded key ended.idx ended.status, .itemSettled key ended.idx outcome]) := by
  have hcancelled := isCancelled_of_current hcur
  generalize hc : s.isCancelled j = cancelled at hcancelled
  obtain ⟨hsettled, hrest', hid, hgen⟩ := LiveJob.settleItem_eq cancelled outcome now hrest
  have hb' := LiveJob.settleItem_balanced cancelled outcome now hb hrest
  have ha' := LiveJob.settleItem_aborts cancelled outcome now ha
  refine ⟨{ LiveJob.endItem cancelled outcome item with ms := some (now - j.itemStartedAt) },
    j.settleItem cancelled outcome now,
    if faults.settledEmit then (j.settleItem cancelled outcome now).stopUnexpectedly
    else (j.settleItem cancelled outcome now).advance cancelled faults.itemEmit now,
    hsettled, by rw [LiveJob.works, hrest'], hid, hgen, hb', LiveJob.endItem_ok, ?_, ?_, ?_⟩
  · intro hs
    rw [hcancelled] at hs
    simpa using LiveJob.endItem_cancelled hs
  · rw [← hcancelled]
    split
    · exact LiveJob.stopUnexpectedly_resumes cancelled hb'
    · exact LiveJob.advance_resumes cancelled faults.itemEmit now hb' ha'
  · simp only [Jobs.settle, hget, hwait, hcur, hc, hsettled, Bool.not_true, Bool.false_eq_true,
      if_false, List.getLast?_append, List.getLast?_singleton, Option.some_or]

theorem inv_settle {s : JobSystem W} (key : Nat) (outcome : Outcome) (now : Int)
    (faults : Faults) (h : Inv none s) : Inv none (s.step (.settle key outcome now faults)) := by
  simp only [JobSystem.step]
  cases hget : s.jobs.runs.get? key with
  | none => simpa [Jobs.settle, hget] using h
  | some j =>
    by_cases hwait : j.waiting = true
    swap
    · simpa [Jobs.settle, hget, hwait] using h
    by_cases hcur : s.jobs.current j.generation = true
    swap
    · simpa [Jobs.settle, hget, hwait, hcur] using inv_drop h hget (by simpa using hcur)
    obtain ⟨ht, hw, hl, hstarted⟩ := h.tracked key j (by simp) hget hwait hcur
    obtain ⟨item, work, rest, hrest⟩ := hw.1
    obtain ⟨spec, hs, hb⟩ := ht.started
    obtain ⟨ended, after, next, hsettled, -, hid, hgen, hb', -, hendedCancelled, hnext, heq⟩ :=
      settle_spec outcome now faults hget hwait hcur hb hw.2.2 hrest
    -- the item ends, with the index that no earlier item has
    have hended : ended ∈ after.settled := by
      rw [hsettled]
      simp
    have hidx : ended.idx = j.settled.length := by
      apply hb'.idx_eq
      simp [LiveJob.items, hsettled]
    have hstart : .itemStarted key ended.idx ∈ s.log := by
      rw [hidx, ← hb.head_idx hrest]
      exact hstarted _ _ _ hrest
    have hfirst : ∀ status, .itemEnded key ended.idx status ∉ s.log := by
      intro status hm
      obtain ⟨i, hi, hii, -⟩ := ht.ended _ _ hm
      have := hb.settled_idx hi
      omega
    have hlt : key < s.jobs.nextKey := h.logKeys _ hs key rfl
    have hsee := ((h.weaken key).see (.itemSettled key ended.idx outcome) rfl hlt hstart).see
      (.itemEnded key ended.idx ended.status) rfl hlt
      ⟨hb'.terminal ended hended, List.mem_cons_of_mem _ hstart, by simpa using hfirst⟩
    rw [heq]
    simp only [List.append_assoc, List.cons_append, List.nil_append]
    have hnextId : next.id = j.id := hnext.id.trans hid
    have hnextGen : next.generation = j.generation := hnext.generation.trans hgen
    refine conclude_inv now faults hsee hl (by simp [Jobs.idOf, hget, hnextId])
      ⟨?_, ?_, ht.notInterrupted, ?_, ?_, ?_⟩ (by rwa [hnextGen]) ?_
    · exact ⟨spec, List.mem_cons_of_mem _ (List.mem_cons_of_mem _ hs), hnext.balanced⟩
    · simpa [hnextId] using ht.requested
    · simpa using ht.notFinished
    · intro idx status hm
      simp only [List.mem_cons, Action.itemEnded.injEq, reduceCtorEq, false_or] at hm
      rcases hm with ⟨-, rfl, rfl⟩ | hm
      · exact ⟨ended, hnext.settled ended hended, rfl, rfl⟩
      · obtain ⟨i, hi, hii⟩ := ht.ended idx status hm
        refine ⟨i, hnext.settled i ?_, hii⟩
        rw [hsettled]
        exact List.mem_append_left _ hi
    · -- an item is cancelled by request, or because it threw `CancelledError`
      intro i hi hc
      rcases hnext.cancelledItem i hi hc with hi | hc
      · rw [hsettled] at hi
        rcases List.mem_append.mp hi with hi | hi
        · have := ht.cancelledItem i hi hc
          simpa using this.imp id .inr
        · rw [List.mem_singleton.mp hi] at hc ⊢
          rcases hendedCancelled hc with hc | rfl
          · simp [ht.requested.mp hc]
          · simp
      · simp [ht.requested.mp (of_decide_eq_true hc)]
    · rcases hnext.waits with ⟨hwaits, hc, hnw⟩ | hdone
      · refine .inl ⟨hwaits, ?_, hnw⟩
        rw [hnextId]
        exact of_decide_eq_false hc
      · exact .inr hdone

theorem makeJobId_fresh {taken : List Text} {draws : Nat → Int × Text}
    (h : ∃ attempt < 50, jobIdText (draws attempt) ∉ taken) : makeJobId taken draws ∉ taken := by
  unfold makeJobId
  cases hf : (List.range 50).find? fun attempt => decide (jobIdText (draws attempt) ∉ taken) with
  | none =>
    obtain ⟨attempt, hlt, hnot⟩ := h
    have := List.find?_eq_none.mp hf attempt (List.mem_range.mpr hlt)
    simp [hnot] at this
  | some attempt =>
    have := List.find?_some hf
    exact of_decide_eq_true this

theorem newJob_balanced (spec : JobSpec W) (id : Text) (now : Int) (generation : Nat) :
    (Jobs.newJob spec id now generation).Balanced spec := by
  constructor
  case labels =>
    simp [Jobs.newJob, LiveJob.items, specLabels, itemLabel, List.mapIdx_eq_zipIdx_map,
      Function.comp_def]
  case unsettled =>
    intro e he
    simp only [Jobs.newJob, List.mem_mapIdx] at he
    obtain ⟨idx, hlt, rfl⟩ := he
    rfl
  all_goals simp [Jobs.newJob]

theorem idOf_of_live {s : JobSystem W} {key : Nat} (h : Inv none s) (hk : key ∈ s.jobs.live) :
    ∃ id ∈ s.jobs.takenIds, s.jobs.idOf key = some id := by
  obtain ⟨j, hj, -⟩ := h.liveRuns key hk
  have hid : s.jobs.idOf key = some j.id := by simp [Jobs.idOf, hj]
  exact ⟨j.id, List.mem_append_left _ (List.mem_filterMap.mpr ⟨key, hk, hid⟩), hid⟩

/-- A new job is listed under an id that no live job has. -/
theorem inv_listed {s : JobSystem W} {j : LiveJob W} (h : Inv none s)
    (hid : j.id ∉ s.jobs.takenIds) (hcur : s.jobs.current j.generation = true)
    (hwait : j.waiting = false) :
    Inv none { s with jobs := { s.jobs with
      runs := s.jobs.runs.set s.jobs.nextKey j
      live := s.jobs.nextKey :: s.jobs.live
      nextKey := s.jobs.nextKey + 1 } } := by
  have hnew : s.jobs.nextKey ∉ s.jobs.runs.keys := fun hm =>
    Nat.lt_irrefl _ (h.runKeys _ hm)
  have hold : ∀ k ∈ s.jobs.live,
      (s.jobs.runs.set s.jobs.nextKey j).get? k = s.jobs.runs.get? k := by
    intro k hk
    rw [OrderedMap.get?_set, if_neg]
    rintro rfl
    obtain ⟨r, hr, -⟩ := h.liveRuns _ hk
    exact hnew (OrderedMap.mem_keys.mpr ⟨r, OrderedMap.get?_eq_some.mp hr⟩)
  have hself : (s.jobs.runs.set s.jobs.nextKey j).get? s.jobs.nextKey = some j := by simp
  have hother : ∀ k ∈ s.jobs.live, ((s.jobs.runs.set s.jobs.nextKey j).get? k).map LiveJob.id ≠
      some j.id := by
    intro k hk he
    rw [hold k hk, ← Jobs.idOf] at he
    obtain ⟨id, hi, hkid⟩ := idOf_of_live h hk
    rw [hkid] at he
    cases he
    exact hid hi
  constructor
  · intro k r hk hget hw hc
    simp only [OrderedMap.get?_set] at hget
    split at hget
    · cases hget
      rw [hwait] at hw
      cases hw
    · obtain ⟨ht, hwaits, hl, hi⟩ := h.tracked k r hk hget hw hc
      exact ⟨ht, hwaits, List.mem_cons_of_mem _ hl, hi⟩
  · intro k hk other ho he
    simp only [Jobs.idOf] at he
    rcases List.mem_cons.mp hk with rfl | hk <;> rcases List.mem_cons.mp ho with rfl | ho
    · rfl
    · rw [hself] at he
      exact absurd he.symm (hother other ho)
    · rw [hself] at he
      exact absurd he (hother k hk)
    · rw [hold k hk, hold other ho] at he
      exact h.idsDistinct k hk other ho he
  · intro k hk
    rcases List.mem_cons.mp hk with rfl | hk
    · exact ⟨j, hself, hcur⟩
    · obtain ⟨r, hr, hrcur⟩ := h.liveRuns k hk
      exact ⟨r, (hold k hk).trans hr, hrcur⟩
  · intro id hi
    obtain ⟨k, hk, hkid⟩ := h.cancellingLive id hi
    refine ⟨k, List.mem_cons_of_mem _ hk, ?_⟩
    rw [← hkid]
    simp only [Jobs.idOf, hold k hk]
  · intro k hk
    rcases OrderedMap.mem_keys_set.mp hk with rfl | hk
    · exact Nat.lt_succ_self _
    · exact Nat.lt_succ_of_lt (h.runKeys k hk)
  · exact fun a ha k hk => Nat.lt_succ_of_lt (h.logKeys a ha k hk)
  · intro k r hget
    simp only [OrderedMap.get?_set] at hget
    split at hget
    · cases hget
      simp only [Jobs.current, Bool.and_eq_true, decide_eq_true_eq] at hcur
      exact Nat.le_of_eq hcur.2
    · exact h.generations k r hget
  · exact h.ordered
  · exact h.history

theorem inv_start {s : JobSystem W} (spec : JobSpec W) (draws : Nat → Int × Text) (now : Int)
    (faults : Faults) (h : Inv none s)
    (hdraws : s.DrawsUnusedId (.start spec draws now faults)) :
    Inv none (s.step (.start spec draws now faults)) := by
  simp only [JobSystem.step, Jobs.start]
  by_cases hd : s.jobs.disposed = true
  · rw [if_pos hd]
    exact h
  rw [if_neg hd]
  have hid := makeJobId_fresh hdraws
  generalize makeJobId s.jobs.takenIds draws = id at hid
  have hcur : s.jobs.current s.jobs.generation = true := by simp [Jobs.current, hd]
  have hb := newJob_balanced spec id now s.jobs.generation
  generalize hj : Jobs.newJob spec id now s.jobs.generation = j at hb
  have hjid : j.id = id := by rw [← hj]; rfl
  have hjgen : j.generation = s.jobs.generation := by rw [← hj]; rfl
  have hjwait : j.waiting = false := by rw [← hj]; rfl
  have haborts : j.Aborts := by
    rw [← hj]
    exact fun _ hf => absurd hf (Nat.lt_irrefl 0)
  have hnot : j.id ∉ s.jobs.cancelling := by
    intro hm
    obtain ⟨k, hk, hkid⟩ := h.cancellingLive _ hm
    obtain ⟨other, ho, hkid'⟩ := idOf_of_live h hk
    rw [hkid] at hkid'
    cases hkid'
    exact hid (hjid ▸ ho)
  have hlisted := inv_listed h (hjid ▸ hid) (hjgen ▸ hcur) hjwait
  have hlog : ∀ action : Action W, action.key? = some s.jobs.nextKey → action ∉ s.log :=
    fun action hkey hm => Nat.lt_irrefl _ (h.logKeys action hm _ hkey)
  split
  · exact hlisted
  have hsee := (hlisted.weaken s.jobs.nextKey).see (.jobStarted s.jobs.nextKey spec)
    rfl (Nat.lt_succ_self _) fun other => hlog _ rfl
  generalize hlst : ({ s.jobs with
      runs := s.jobs.runs.set s.jobs.nextKey j
      live := s.jobs.nextKey :: s.jobs.live
      nextKey := s.jobs.nextKey + 1 } : Jobs W) = listed at hlisted hsee ⊢
  have hlistedCur : listed.current j.generation = true := by
    rw [← hlst, hjgen]
    exact hcur
  have hlistedNot : j.id ∉ listed.cancelling := by
    rw [← hlst]
    exact hnot
  have hnext := LiveJob.advance_resumes (listed.isCancelled j) faults.itemEmit now hb haborts
  rw [isCancelled_of_current hlistedCur] at hnext ⊢
  generalize j.advance (decide (j.id ∈ listed.cancelling)) faults.itemEmit now = next
    at hnext ⊢
  rw [List.append_assoc, List.singleton_append]
  refine conclude_inv now faults hsee ?_ ?_ ⟨?_, ?_, ?_, ?_, ?_, ?_⟩ (by rwa [hnext.generation]) ?_
  · rw [← hlst]
    exact List.mem_cons_self
  · rw [hnext.id, ← hlst]
    simp [Jobs.idOf]
  · exact ⟨spec, List.mem_cons_self, hnext.balanced⟩
  · have hreq := hlog (.cancelRequested s.jobs.nextKey) rfl
    simp [hnext.id, hlistedNot, hreq]
  · intro hi
    obtain ⟨other, ho⟩ := exists_started_of_interrupted (show interrupted s.jobs.nextKey s.log from hi)
    exact hlog _ rfl ho
  · intro job hm
    rcases List.mem_cons.mp hm with hm | hm
    · cases hm
    · exact hlog _ rfl hm
  · intro idx status hm
    rcases List.mem_cons.mp hm with hm | hm
    · cases hm
    · exact absurd hm (hlog _ rfl)
  · intro item hi hs
    rcases hnext.cancelledItem item hi hs with hi | hc
    · rw [← hj] at hi
      cases hi
    · exact absurd (of_decide_eq_true hc) hlistedNot
  · rcases hnext.waits with ⟨hwaits, -, hnw⟩ | hdone
    · exact .inl ⟨hwaits, by rwa [hnext.id], hnw⟩
    · exact .inr hdone

theorem inv_cancel {s : JobSystem W} (id : Text) (h : Inv none s) :
    Inv none (s.step (.cancel id)) := by
  simp only [JobSystem.step, Jobs.cancel]
  cases hf : s.jobs.live.find? fun key => decide (s.jobs.idOf key = some id) with
  | none => exact h
  | some key =>
    have hlive := List.mem_of_find?_eq_some hf
    have hid : s.jobs.idOf key = some id := by simpa using List.find?_some hf
    obtain ⟨j, hget, hcur⟩ := h.liveRuns key hlive
    have hjid : j.id = id := by simpa [Jobs.idOf, hget] using hid
    have hlt : key < s.jobs.nextKey :=
      h.runKeys key (OrderedMap.mem_keys.mpr ⟨j, OrderedMap.get?_eq_some.mp hget⟩)
    generalize hflag : ({ j with cancelRequested := true } : LiveJob W) = flagged
    have hids := idOf_set_self (s := s.jobs) (j := flagged) (by rw [hid, ← hflag, ← hjid])
    have hmem : ∀ other, other ∈ (if id ∈ s.jobs.cancelling then s.jobs.cancelling
        else s.jobs.cancelling ++ [id]) ↔ other ∈ s.jobs.cancelling ∨ other = id := by
      intro other
      split
      · rename_i hin
        exact ⟨.inl, fun h' => h'.elim (fun h' => h') fun h' => h' ▸ hin⟩
      · simp
    dsimp only
    rw [hget]
    simp only [hflag, List.singleton_append]
    have hsee := (h.weaken key).see (.cancelRequested key) rfl hlt trivial
    constructor
    · intro k r _ hr hwait hrcur
      simp only [OrderedMap.get?_set] at hr
      by_cases hk : k = key
      · subst hk
        rw [if_pos rfl] at hr
        cases hr
        subst hflag
        obtain ⟨ht, hw, hl, hi⟩ := h.tracked k j (by simp) hget hwait hcur
        obtain ⟨spec, hs, hb⟩ := ht.started
        refine ⟨⟨⟨spec, List.mem_cons_of_mem _ hs, hb.labels, hb.total, hb.onError, hb.done,
          hb.failed, hb.terminal, hb.unsettled, hb.skipped, hb.aborted⟩, ?_, ht.notInterrupted,
          ?_, ?_, ?_⟩, hw, hl, fun item work rest hr => List.mem_cons_of_mem _ (hi item work rest hr)⟩
        · rw [hmem]
          simp [hjid]
        · simpa using ht.notFinished
        · simpa using ht.ended
        · intro item hi hs
          exact (ht.cancelledItem item hi hs).imp (List.mem_cons_of_mem _) (List.mem_cons_of_mem _)
      · rw [if_neg hk] at hr
        obtain ⟨ht, hw, hl, hi⟩ := hsee.tracked k r (by simpa using hk) hr hwait hrcur
        have hne : r.id ≠ id := by
          intro he
          refine hk (h.idsDistinct k hl key hlive ?_)
          rw [hid, ← he]
          simp [Jobs.idOf, hr]
        refine ⟨ht.congr ?_, hw, hl, hi⟩
        rw [hmem]
        simp [hne]
    · intro k hk other ho he
      simp only [Jobs.idOf, hids] at he
      exact h.idsDistinct k hk other ho he
    · intro k hk
      by_cases hkk : k = key
      · refine ⟨flagged, by rw [hkk]; simp, ?_⟩
        rw [← hflag]
        exact hcur
      · obtain ⟨r, hr, hrcur⟩ := h.liveRuns k hk
        exact ⟨r, by simp [hkk, hr], hrcur⟩
    · intro other ho
      rcases (hmem other).mp ho with ho | rfl
      · obtain ⟨k, hk, hkid⟩ := h.cancellingLive other ho
        exact ⟨k, hk, (hids k).trans hkid⟩
      · exact ⟨key, hlive, (hids key).trans hid⟩
    · intro k hk
      rcases OrderedMap.mem_keys_set.mp hk with rfl | hk
      · exact hlt
      · exact h.runKeys k hk
    · exact hsee.logKeys
    · intro k r hr
      simp only [OrderedMap.get?_set] at hr
      split at hr
      · cases hr
        rw [← hflag]
        exact h.generations key j hget
      · exact h.generations k r hr
    · exact hsee.ordered
    · exact hsee.history

theorem inv_clearFinished {s : JobSystem W} (write : StoreWrite) (h : Inv none s) :
    Inv none (s.step (.clearFinished write)) := by
  refine { h with history := fun entry he => ?_ }
  simp only [JobSystem.step, Jobs.clearFinished, StoreWrite.apply] at he
  split at he
  · exact h.history entry he
  · cases he

/-- After a stop no job is of the current connection. -/
theorem inv_stop {s : JobSystem W} (dispose : Bool) (history : List OpenWrtJob)
    (h : Inv none s) :
    Inv none ⟨{ (s.jobs.stopLive dispose).1 with history }, history, .stopped :: s.log⟩ := by
  constructor
  · intro k r _ hget _ hcur
    have hle := h.generations k r hget
    simp only [Jobs.current, Bool.and_eq_true] at hcur
    have heq : r.generation = s.jobs.generation + 1 := of_decide_eq_true hcur.2
    omega
  · simp [Jobs.stopLive]
  · simp [Jobs.stopLive]
  · simp [Jobs.stopLive]
  · exact h.runKeys
  · intro a ha k hk
    rcases List.mem_cons.mp ha with rfl | ha
    · cases hk
    · exact h.logKeys a ha k hk
  · exact fun k r hget => Nat.le_succ_of_le (h.generations k r hget)
  · exact ⟨trivial, h.ordered⟩
  · exact fun entry he => .inl he

theorem inv_step {s : JobSystem W} {event : JobEvent W} (h : Inv none s)
    (hdraws : s.DrawsUnusedId event) : Inv none (s.step event) := by
  cases event with
  | start spec draws now faults => exact inv_start spec draws now faults h hdraws
  | settle key outcome now faults => exact inv_settle key outcome now faults h
  | cancel id => exact inv_cancel id h
  | clearFinished write => exact inv_clearFinished write h
  | reset history => exact inv_stop false history h
  | dispose => exact inv_stop true s.jobs.history h

/-- In every run of the runner each action is allowed by the actions before it, and
nothing of a job is stored once a stop came after its start. -/
theorem job_accounting (history : List OpenWrtJob) (events : List (JobEvent W))
    (h : Guarded JobSystem.step JobSystem.DrawsUnusedId (JobSystem.init history) events) :
    Ordered (run JobSystem.step (JobSystem.init history) events).log ∧
      HistoryFrom (run JobSystem.step (JobSystem.init history) events) := by
  have hinv : Inv none (run JobSystem.step (JobSystem.init history) events) :=
    run_preserves (fun _ _ hs hok => inv_step hs hok) h (inv_init history)
  exact ⟨hinv.ordered, hinv.history⟩

/-- The state and the actions in which a step of `run` ends. -/
theorem conclude_spec (s : Jobs W) (key : Nat) {j : LiveJob W} (now : Int) (faults : Faults)
    (h : (j.waiting = true ∧ j.Waits) ∨ (j.waiting = false ∧ j.rest = [])) :
    (∀ k, (s.conclude key j now faults).1.runs.get? k =
      if k = key then (if j.waiting then some j else none) else s.runs.get? k) ∧
    (s.conclude key j now faults).1.nextKey = s.nextKey ∧
    ((j.waiting = true ∧ ∃ idx, (s.conclude key j now faults).2 = [.itemStarted key idx]) ∨
      (j.waiting = false ∧ ∃ job wasCancelled, job = j.finish wasCancelled now ∧
        ((s.conclude key j now faults).2 = [.finished key job] ∨
          (s.conclude key j now faults).2 = [.onFinished key job, .finished key job]))) := by
  rcases h with ⟨hwait, ⟨item, work, rest, hrest⟩, -⟩ | ⟨hwait, hrest⟩
  · have heq : s.conclude key j now faults =
        ({ s with runs := s.runs.set key j }, [.itemStarted key item.idx]) := by
      unfold Jobs.conclude
      rw [hwait, hrest]
    rw [heq, hwait]
    exact ⟨fun k => by simp, rfl, .inl ⟨rfl, item.idx, rfl⟩⟩
  · unfold Jobs.conclude
    rw [hwait]
    dsimp only
    refine ⟨fun k => by simp, rfl, .inr ⟨rfl,
      j.finish (decide (j.id ∈ s.cancelling)) now, decide (j.id ∈ s.cancelling), rfl, ?_⟩⟩
    split
    · exact .inl rfl
    · exact .inr rfl

/-- What a settled promise makes of the jobs: nothing, or the first item of the job
ends and the job goes on or is finished. -/
theorem settle_cases {s : JobSystem W} (h : Inv none s) (key : Nat) (outcome : Outcome)
    (now : Int) (faults : Faults) :
    let r := s.jobs.settle key outcome now faults
    (∀ k, k ≠ key → r.1.runs.get? k = s.jobs.runs.get? k) ∧ r.1.nextKey = s.jobs.nextKey ∧
    ((r.2 = [] ∧ ∀ j, r.1.runs.get? key = some j →
        s.jobs.runs.get? key = some j ∧ j.waiting = false) ∨
      ∃ j work works ended next,
        s.jobs.runs.get? key = some j ∧ j.waiting = true ∧ j.works = work :: works ∧
        (∀ item ∈ j.settled, item ∈ next.settled) ∧ ended ∈ next.settled ∧
        (ended.status = .ok → ∃ note, outcome = .ok note) ∧
        (∀ w ∈ next.works, w ∈ works) ∧
        ((∀ item ∈ next.settled, item.status = .ok) → next.works = works) ∧
        ((r.1.runs.get? key = some next ∧ ∃ idx, r.2 = [.itemStarted key idx,
            .itemEnded key ended.idx ended.status, .itemSettled key ended.idx outcome]) ∨
          (next.works = [] ∧ r.1.runs.get? key = none ∧ ∃ job, job.items = next.settled ∧
            (r.2 = [.finished key job, .itemEnded key ended.idx ended.status,
                .itemSettled key ended.idx outcome] ∨
              r.2 = [.onFinished key job, .finished key job,
                .itemEnded key ended.idx ended.status, .itemSettled key ended.idx outcome])))) := by
  dsimp only
  cases hget : s.jobs.runs.get? key with
  | none =>
    have heq : s.jobs.settle key outcome now faults = (s.jobs, []) := by simp [Jobs.settle, hget]
    rw [heq]
    exact ⟨fun _ _ => rfl, rfl, .inl ⟨rfl, fun j hj => by rw [hget] at hj; cases hj⟩⟩
  | some j =>
    by_cases hwait : j.waiting = true
    swap
    · have heq : s.jobs.settle key outcome now faults = (s.jobs, []) := by
        simp [Jobs.settle, hget, hwait]
      rw [heq]
      refine ⟨fun _ _ => rfl, rfl, .inl ⟨rfl, fun i hi => ⟨hget ▸ hi, ?_⟩⟩⟩
      rw [hget] at hi
      cases hi
      simpa using hwait
    by_cases hcur : s.jobs.current j.generation = true
    swap
    · have heq : s.jobs.settle key outcome now faults =
          ({ s.jobs with runs := s.jobs.runs.erase key }, []) := by
        simp [Jobs.settle, hget, hwait, hcur]
      rw [heq]
      exact ⟨fun k hk => by simp [hk], rfl, .inl ⟨rfl, by simp⟩⟩
    obtain ⟨ht, hw, hl, hstarted⟩ := h.tracked key j (by simp) hget hwait hcur
    obtain ⟨item, work, rest, hrest⟩ := hw.1
    obtain ⟨spec, hs, hb⟩ := ht.started
    obtain ⟨ended, after, next, hsettled, hworks, -, -, -, hok, -, hnext, heq⟩ :=
      settle_spec outcome now faults hget hwait hcur hb hw.2.2 hrest
    have hshape : (next.waiting = true ∧ next.Waits) ∨ (next.waiting = false ∧ next.rest = []) :=
      hnext.waits.imp_left fun hwaits => ⟨hwaits.1, hwaits.2.2⟩
    obtain ⟨hruns, hkey, hactions⟩ := conclude_spec s.jobs key now faults hshape
    rw [heq]
    refine ⟨fun k hk => by rw [hruns k, if_neg hk], hkey, .inr ⟨j, work, rest.map Prod.snd, ended,
      next, rfl, hwait, by rw [LiveJob.works, hrest]; rfl, ?_, ?_, hok, ?_, ?_, ?_⟩⟩
    · exact fun i hi => hnext.settled i (hsettled ▸ List.mem_append_left _ hi)
    · exact hnext.settled ended (by simp [hsettled])
    · exact fun w hw => hworks ▸ hnext.works w hw
    · exact fun hall => hworks ▸ hnext.works_eq hall
    · rcases hactions with ⟨hwaits, idx, hact⟩ | ⟨hdone, job, wasCancelled, hjob, hact⟩
      · refine .inl ⟨by rw [hruns key]; simp [hwaits], idx, by rw [hact]; rfl⟩
      · have hnil : next.rest = [] := by
          rcases hshape with ⟨hwaits, -⟩ | ⟨-, hnil⟩
          · rw [hdone] at hwaits
            cases hwaits
          · exact hnil
        refine .inr ⟨by rw [LiveJob.works, hnil]; rfl, by rw [hruns key]; simp [hdone], job, ?_, ?_⟩
        · rw [hjob]
          exact LiveJob.finish_items wasCancelled now hnext.balanced hnil
        · rcases hact with hact | hact
          · exact .inl (by rw [hact]; rfl)
          · exact .inr (by rw [hact]; rfl)

/-- What `start` makes of the jobs. -/
theorem start_spec (s : Jobs W) (spec : JobSpec W) (draws : Nat → Int × Text) (now : Int)
    (faults : Faults) :
    s.start spec draws now faults = (s, [], none) ∨
    ∃ j : LiveJob W, j.waiting = false ∧ j.works = spec.items.map JobItemSpec.work ∧
      j.settled = [] ∧
      let listed := { s with
        runs := s.runs.set s.nextKey j
        live := s.nextKey :: s.live
        nextKey := s.nextKey + 1 }
      s.start spec draws now faults = (listed, [], none) ∨
      ∃ cancelled next, LiveJob.Resumes spec cancelled j next ∧
        s.start spec draws now faults = ((listed.conclude s.nextKey next now faults).1,
          (listed.conclude s.nextKey next now faults).2 ++ [.jobStarted s.nextKey spec],
          some s.nextKey) := by
  by_cases hd : s.disposed = true
  · exact .inl (by simp [Jobs.start, hd])
  have hb := newJob_balanced spec (makeJobId s.takenIds draws) now s.generation
  have ha : (Jobs.newJob spec (makeJobId s.takenIds draws) now s.generation).Aborts :=
    fun _ hf => absurd hf (Nat.lt_irrefl 0)
  refine .inr ⟨Jobs.newJob spec (makeJobId s.takenIds draws) now s.generation, rfl, ?_, rfl, ?_⟩
  · refine List.ext_getElem? fun n => ?_
    simp [LiveJob.works, Jobs.newJob, List.getElem?_mapIdx, Function.comp_def]
  · by_cases hf : faults.startEmit = true
    · exact .inl (by simp [Jobs.start, hd, hf])
    · unfold Jobs.start
      rw [if_neg hd]
      dsimp only
      rw [if_neg hf]
      exact .inr ⟨_, _, LiveJob.advance_resumes _ faults.itemEmit now hb ha, rfl⟩

/-- The new job and the actions after `start`; the other jobs are as they were. -/
theorem start_cases {s : JobSystem W} (h : Inv none s) (spec : JobSpec W)
    (draws : Nat → Int × Text) (now : Int) (faults : Faults) :
    let r := s.jobs.start spec draws now faults
    (∀ k, k ≠ s.jobs.nextKey → r.1.runs.get? k = s.jobs.runs.get? k) ∧
    s.jobs.nextKey ≤ r.1.nextKey ∧ (r.2.2.isSome = true → s.jobs.nextKey < r.1.nextKey) ∧
    (∀ j, r.1.runs.get? s.jobs.nextKey = some j →
      (∀ w ∈ j.works, w ∈ spec.items.map JobItemSpec.work) ∧
      (r.2.2 = none → j.waiting = false) ∧
      ((∀ item ∈ j.settled, item.status = .ok) → j.works = spec.items.map JobItemSpec.work)) ∧
    (∀ k idx outcome, .itemSettled k idx outcome ∉ r.2.1) ∧
    (∀ key job older, r.2.1 = .onFinished key job :: older →
      key = s.jobs.nextKey ∧ r.1.runs.get? key = none ∧ .finished key job ∈ older ∧
      ((∀ item ∈ job.items, item.status = .ok) → spec.items = [])) := by
  dsimp only
  rcases start_spec s.jobs spec draws now faults with heq | ⟨j, hwait, hworks, hsettled, heq⟩
  · rw [heq]
    refine ⟨fun _ _ => rfl, Nat.le_refl _, by simp, fun j hj => ?_, by simp, by simp⟩
    have := h.runKeys _ (OrderedMap.mem_keys.mpr ⟨j, OrderedMap.get?_eq_some.mp hj⟩)
    omega
  · rcases heq with heq | ⟨cancelled, next, hnext, heq⟩
    · rw [heq]
      refine ⟨fun k hk => by simp [hk], Nat.le_succ _, by simp, fun i hi => ?_, by simp, by simp⟩
      have hij : j = i := by simpa using hi
      subst hij
      exact ⟨fun w hw => hworks ▸ hw, fun _ => hwait, fun _ => hworks⟩
    · have hshape : (next.waiting = true ∧ next.Waits) ∨
          (next.waiting = false ∧ next.rest = []) :=
        hnext.waits.imp_left fun hwaits => ⟨hwaits.1, hwaits.2.2⟩
      rw [heq]
      obtain ⟨hruns, hkey, hactions⟩ := conclude_spec { s.jobs with
          runs := s.jobs.runs.set s.jobs.nextKey j
          live := s.jobs.nextKey :: s.jobs.live
          nextKey := s.jobs.nextKey + 1 } s.jobs.nextKey now faults hshape
      refine ⟨fun k hk => by rw [hruns k, if_neg hk]; simp [hk], by rw [hkey]; exact Nat.le_succ _,
        fun _ => by rw [hkey]; exact Nat.lt_succ_self _, fun i hi => ?_, ?_, ?_⟩
      · rw [hruns _, if_pos rfl] at hi
        split at hi
        · cases hi
          exact ⟨fun w hw => hworks ▸ hnext.works w hw, by simp,
            fun hok => hworks ▸ hnext.works_eq hok⟩
        · cases hi
      · intro k idx outcome hm
        rcases hactions with ⟨-, i, hact⟩ | ⟨-, job, -, -, hact | hact⟩ <;>
          rw [hact] at hm <;> simp at hm
      · intro key job older hact'
        rcases hactions with ⟨-, i, hact⟩ | ⟨hdone, job', wasCancelled, hjob, hact | hact⟩ <;>
          rw [hact] at hact' <;> simp only [List.cons_append, List.cons.injEq, reduceCtorEq,
            false_and, Action.onFinished.injEq] at hact'
        obtain ⟨⟨rfl, rfl⟩, rfl⟩ := hact'
        have hnil : next.rest = [] := by
          rcases hshape with ⟨hwaits, -⟩ | ⟨-, hnil⟩
          · rw [hdone] at hwaits
            cases hwaits
          · exact hnil
        refine ⟨rfl, by rw [hruns _]; simp [hdone], by simp, fun hok => ?_⟩
        rw [hjob, LiveJob.finish_items wasCancelled now hnext.balanced hnil] at hok
        have := hnext.works_eq hok
        rw [LiveJob.works, hnil, hworks] at this
        simpa using this.symm

theorem cancel_get? (s : Jobs W) (id : Text) (k : Nat) :
    (s.cancel id).1.runs.get? k = s.runs.get? k ∨
      ∃ j, s.runs.get? k = some j ∧
        (s.cancel id).1.runs.get? k = some { j with cancelRequested := true } := by
  unfold Jobs.cancel
  cases hf : s.live.find? fun key => decide (s.idOf key = some id) with
  | none => exact .inl rfl
  | some key =>
    dsimp only
    cases hget : s.runs.get? key with
    | none => exact .inl rfl
    | some j =>
      by_cases hk : k = key
      · subst hk
        exact .inr ⟨j, hget, by simp⟩
      · exact .inl (by simp [hk])

/-- A job that is done, and no item of which threw `CancelledError`, has every item ok. -/
theorem ok_of_done {log : List (Action W)} {key : Nat} {job : OpenWrtJob} (h : Ordered log)
    (hf : .finished key job ∈ log) (hthrew : ∀ idx, .itemSettled key idx .cancelledError ∉ log)
    (hd : job.state = .done) : ∀ item ∈ job.items, item.status = .ok := by
  induction log with
  | nil => cases hf
  | cons action older ih =>
    rcases List.mem_cons.mp hf with rfl | hf
    · obtain ⟨⟨spec, -, haccount⟩, -, hcancelled, -⟩ := h.1
      intro item hi
      rcases haccount.done_ok hd item hi with hs | hs
      · exact hs
      · rcases hcancelled item hi hs with hreq | hthrew'
        · rw [haccount.cancelled_iff.mpr hreq] at hd
          cases hd
        · exact absurd (List.mem_cons_of_mem _ hthrew') (hthrew item.idx)
    · exact ih h.2 hf fun idx hm => hthrew idx (List.mem_cons_of_mem _ hm)

def noFaults : Faults := ⟨false, false, false, false, .saved, .saved⟩

def oneItemSpec : JobSpec Unit := ⟨js "k", js "l", [⟨js "n", ()⟩], .abort⟩

def oneItemRun : List (JobEvent Unit) :=
  [.start oneItemSpec (fun _ => (0, js "a")) 0 noFaults, .settle 0 (.ok none) 1 noFaults]

theorem job_accounting_one_item :
    Ordered (run JobSystem.step (JobSystem.init []) oneItemRun).log ∧
    (run JobSystem.step (JobSystem.init []) oneItemRun).jobs.history.map OpenWrtJob.state =
      [.done] :=
  ⟨(job_accounting [] oneItemRun ⟨⟨0, by decide, by decide +kernel⟩, trivial, trivial⟩).1,
    by decide +kernel⟩

/-- The user cancels while the last item runs, and the item succeeds: the job is
`cancelled`, all its items are `ok`. -/
theorem cancelled_with_every_item_ok :
    ¬ ∀ events : List (JobEvent Unit),
      Guarded JobSystem.step JobSystem.DrawsUnusedId (JobSystem.init []) events →
      ∀ key job, .finished key job ∈ (run JobSystem.step (JobSystem.init []) events).log →
        (job.state = .done ↔ ∀ item ∈ job.items, item.status = .ok) ∧
        (job.state = .cancelled ↔ ∃ item ∈ job.items, item.status = .cancelled) := by
  intro hclaim
  have h := hclaim [.start oneItemSpec (fun _ => (0, js "a")) 0 noFaults, .cancel (js "job_0_a"),
      .settle 0 (.ok none) 1 noFaults]
    ⟨⟨0, by decide, by decide +kernel⟩, trivial, trivial, trivial⟩ 0
    { id := js "job_0_a", kind := js "k", label := js "l", state := .cancelled, startedAt := 0
      finishedAt := some 1, total := 1, done := 1, failed := 0, progressPct := 100
      cancelRequested := false, items := [⟨0, js "n", .ok, none, some 1⟩] }
    (by decide +kernel)
  exact absurd (h.1.mpr (by simp)) (by decide)

end BoredManager.OpenWrt
