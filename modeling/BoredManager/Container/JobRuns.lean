import BoredManager.Container.Jobs
import Mathlib.Data.List.Nodup

/-! What holds in every run of a container job, and when a finished job ran all of its items. -/
namespace BoredManager.Container
open BoredManager.Js BoredManager.Machine

variable {ρ : Type*} {spec : JobSpec ρ} {p q : Pool ρ} {i : Nat} {item : FleetJobItem}

def FleetItemStatus.isSettled : FleetItemStatus → Bool
  | .pending | .running => false
  | _ => true

def isError (item : FleetJobItem) : Bool := item.status = .error

/-- The index of a runner that started. -/
def Mark.starts : Mark ρ → Option Nat
  | .started index => some index
  | _ => none

/-- A mark behind which no runner starts. -/
def Mark.ends (spec : JobSpec ρ) : Mark ρ → Prop
  | .started _ => False
  | .recorded _ status _ => spec.onError = .abort ∧ status = .error
  | .cancel => True

/-- The runner of the item succeeded inside its time. -/
def Succeeded (spec : JobSpec ρ) (log : List (Mark ρ)) (i : Nat) : Prop :=
  .started i ∈ log ∧ ∃ source answer, spec.items[i]? = some source ∧ source.run answer = .ok ∧
    .recorded i .ok (.answered answer) ∈ log

/-- The status of an item tells what became of it. -/
structure Fits (spec : JobSpec ρ) (p : Pool ρ) (i : Nat) (item : FleetJobItem) : Prop where
  pending : item.status = .pending ↔ p.next ≤ i
  running : item.status = .running ↔ i ∈ p.awaited
  ok : item.status = .ok → Succeeded spec p.log i
  skipped : item.status = .skipped → p.aborted = true
  cancelled : item.status = .cancelled → p.cancelling = true

structure Valid (spec : JobSpec ρ) (p : Pool ρ) : Prop where
  total : p.job.total = spec.items.length
  length : p.job.items.length = min spec.items.length MAX_JOB_ITEMS
  fits : ∀ i item, p.job.items[i]? = some item → Fits spec p i item
  done : p.job.done = p.job.items.countP fun item => item.status.isSettled
  failed : p.job.failed = p.job.items.countP isError
  workers : p.ready + p.awaited.length ≤ width spec p.job.items.length
  returned : p.ready + p.awaited.length < width spec p.job.items.length → p.job.items.length ≤ p.next
  awaited : p.awaited.Nodup ∧ ∀ i ∈ p.awaited, i < p.job.items.length ∧ .started i ∈ p.log
  aborted : p.aborted = true → 0 < p.job.failed
  logged : ∀ i status settled, .recorded i status settled ∈ p.log → i < p.job.items.length
  starts : (p.log.filterMap Mark.starts).Pairwise (· < ·) ∧
    ∀ i ∈ p.log.filterMap Mark.starts, i < p.next
  ended : ∀ mark ∈ p.log, mark.ends spec → (p.cancelling || p.aborted) = true
  orderly : p.log.Pairwise fun a b => a.ends spec → b.starts = none
  finished : p.job.state ≠ .running → p.ready = 0 ∧ p.awaited = [] ∧
    p.job.state = (finish p).job.state

theorem width_pos (spec : JobSpec ρ) (items : Nat) : 0 < width spec items := by
  unfold width
  split <;> omega

theorem width_le (spec : JobSpec ρ) (items : Nat) : (width spec items : Int) ≤ max 1 spec.maxParallel := by
  unfold width
  split <;> omega

/-- What is known of an item stays known when the run goes on. -/
theorem Fits.mono (h : Fits spec p i item) (hnext : q.next ≤ i ↔ p.next ≤ i)
    (hawaited : i ∈ q.awaited ↔ i ∈ p.awaited) (hlog : ∀ mark ∈ p.log, mark ∈ q.log)
    (haborted : p.aborted = true → q.aborted = true)
    (hcancelling : p.cancelling = true → q.cancelling = true) : Fits spec q i item := by
  refine ⟨h.pending.trans hnext.symm, h.running.trans hawaited.symm, fun hok => ?_,
    fun hs => haborted (h.skipped hs), fun hs => hcancelling (h.cancelled hs)⟩
  obtain ⟨hstarted, source, answer, hsource, hrun, hmem⟩ := h.ok hok
  exact ⟨hlog _ hstarted, source, answer, hsource, hrun, hlog _ hmem⟩

theorem countP_setStatus {job : FleetJob} (new : FleetJobItem) (status : FleetItemStatus)
    (hitem : job.items[i]? = some item) (P : FleetJobItem → Bool) :
    (job.setStatus i new status).items.countP P + (if P item then 1 else 0) =
      job.items.countP P + if P { new with status := status } then 1 else 0 := by
  obtain ⟨hi, hget⟩ := List.getElem?_eq_some_iff.mp hitem
  rw [FleetJob.setStatus, List.countP_set hi, hget]
  have hpos : P item = true → 0 < job.items.countP P := fun hP =>
    List.countP_pos_iff.mpr ⟨item, List.mem_of_getElem? hitem, hP⟩
  split_ifs with hold
  all_goals try have := hpos hold
  all_goals omega

theorem getElem?_setStatus {job : FleetJob} {new other : FleetJobItem} {status : FleetItemStatus}
    {j : Nat} (h : (job.setStatus i new status).items[j]? = some other) :
    (j = i ∧ other = { new with status := status }) ∨ (j ≠ i ∧ job.items[j]? = some other) := by
  rw [FleetJob.setStatus, List.getElem?_set] at h
  split_ifs at h with hij hlt
  · exact .inl ⟨hij.symm, (Option.some.inj h).symm⟩
  · exact .inr ⟨fun hji => hij hji.symm, h⟩

theorem length_setStatus (job : FleetJob) (new : FleetJobItem) (status : FleetItemStatus) (i : Nat) :
    (job.setStatus i new status).items.length = job.items.length := List.length_set

/-! ### One step -/

theorem valid_start (spec : JobSpec ρ) : Valid spec (start spec) := by
  have hpending : ∀ (i : Nat) (item : FleetJobItem),
      (start spec).job.items[i]? = some item → item.status = .pending := by
    intro i item hitem
    simp only [start, List.getElem?_mapIdx, Option.map_eq_some_iff] at hitem
    obtain ⟨source, -, rfl⟩ := hitem
    rfl
  have hall : ∀ item ∈ (start spec).job.items, item.status = .pending := by
    intro item hmem
    obtain ⟨i, hi⟩ := List.mem_iff_getElem?.mp hmem
    exact hpending i item hi
  refine ⟨rfl, ?_, fun i item hitem => ?_, ?_, ?_, le_rfl, fun h => absurd h (lt_irrefl _),
    ⟨List.nodup_nil, nofun⟩, nofun, nofun, ⟨.nil, nofun⟩, nofun, .nil, fun h => absurd rfl h⟩
  · simp [start, Nat.min_comm]
  · have hstatus := hpending i item hitem
    refine ⟨by simp [hstatus, start], ?_, ?_, ?_, ?_⟩ <;> simp [hstatus, start]
  · refine (List.countP_eq_zero.mpr fun item hmem => ?_).symm
    simp [hall item hmem, FleetItemStatus.isSettled]
  · refine (List.countP_eq_zero.mpr fun item hmem => ?_).symm
    simp [hall item hmem, isError]

/-- A worker finds no further item. -/
theorem valid_return (h : Valid spec p) (hready : 0 < p.ready) (hlast : p.job.items.length ≤ p.next) :
    Valid spec { p with next := p.next + 1, ready := p.ready - 1 } := by
  have hworkers := h.workers
  refine ⟨h.total, h.length, fun i item hitem => ?_, h.done, h.failed, ?_, fun _ => ?_, h.awaited,
    h.aborted, h.logged, ⟨h.starts.1, fun i hi => ?_⟩, h.ended, h.orderly, fun hfinished => ?_⟩
  · have hi : i < p.job.items.length := (List.getElem?_eq_some_iff.mp hitem).1
    refine (h.fits i item hitem).mono ?_ Iff.rfl (fun _ hm => hm) id id
    dsimp only
    omega
  · dsimp only
    omega
  · dsimp only
    omega
  · exact Nat.lt_succ_of_lt (h.starts.2 i hi)
  · have hzero := (h.finished hfinished).1
    omega

/-- A worker passes the next item over. -/
theorem valid_pass (h : Valid spec p) (hready : 0 < p.ready)
    (hitem : p.job.items[p.next]? = some item) (hstop : (p.cancelling || p.aborted) = true) :
    Valid spec (Pool.pass { p with next := p.next + 1 } p.next item) := by
  obtain ⟨status, hstatus⟩ : ∃ status : FleetItemStatus,
      (if p.cancelling then .cancelled else .skipped) = status := ⟨_, rfl⟩
  have hpending := (h.fits p.next item hitem).pending.mpr le_rfl
  have hnew : status.isSettled = true ∧ status ≠ .error ∧ status ≠ .ok := by
    rw [← hstatus]
    split_ifs <;> decide
  have hlength := length_setStatus p.job item status p.next
  rw [Pool.pass, hstatus]
  refine ⟨h.total, hlength.trans h.length, fun i other hother => ?_, ?_, ?_, ?_, fun hless => ?_,
    ⟨h.awaited.1, fun i hi => hlength ▸ h.awaited.2 i hi⟩, h.aborted,
    fun i status settled hmem => hlength ▸ h.logged i status settled hmem,
    ⟨h.starts.1, fun i hi => Nat.lt_succ_of_lt (h.starts.2 i hi)⟩, h.ended, h.orderly,
    fun hfinished => ?_⟩
  · obtain ⟨rfl, rfl⟩ | ⟨hne, hold⟩ := getElem?_setStatus hother
    · have hnotrunning : p.next ∉ p.awaited := fun hmem => by
        rw [(h.fits p.next item hitem).running.mpr hmem] at hpending
        cases hpending
      refine ⟨iff_of_false ?_ (by simp), iff_of_false ?_ hnotrunning, fun hok => absurd hok hnew.2.2,
        fun hskip => ?_, fun hcancel => ?_⟩
      · rintro rfl
        cases hnew.1
      · rintro rfl
        cases hnew.1
      · by_cases hc : p.cancelling = true
        · rw [if_pos hc] at hstatus
          exact absurd (hstatus.trans hskip) (by decide)
        · simpa [hc] using hstop
      · by_cases hc : p.cancelling = true
        · exact hc
        · rw [if_neg hc] at hstatus
          exact absurd (hstatus.trans hcancel) (by decide)
    · refine (h.fits i other hold).mono ?_ Iff.rfl (fun _ hm => hm) id id
      dsimp only
      omega
  · have hone := countP_setStatus item status hitem fun item =>
      item.status.isSettled
    rw [← h.done, if_neg (by simp [hpending, FleetItemStatus.isSettled]), if_pos hnew.1] at hone
    exact hone.symm
  · have hone := countP_setStatus item status hitem isError
    rw [← h.failed, if_neg (by simp [isError, hpending]), if_neg (by simp [isError, hnew.2.1])] at hone
    exact hone.symm
  · rw [hlength]
    exact h.workers
  · rw [hlength] at hless
    have hbefore := h.returned hless
    have hi := (List.getElem?_eq_some_iff.mp hitem).1
    omega
  · have hzero := (h.finished hfinished).1
    omega

/-- A worker starts the runner of the next item. -/
theorem valid_launch (h : Valid spec p) (hready : 0 < p.ready)
    (hitem : p.job.items[p.next]? = some item) (hgo : (p.cancelling || p.aborted) = false) :
    Valid spec (Pool.launch { p with next := p.next + 1 } p.next item) := by
  have hpending := (h.fits p.next item hitem).pending.mpr le_rfl
  have hlength := length_setStatus p.job item .running p.next
  have hnext := (List.getElem?_eq_some_iff.mp hitem).1
  have hnotrunning : p.next ∉ p.awaited := fun hmem => by
    rw [(h.fits p.next item hitem).running.mpr hmem] at hpending
    cases hpending
  have hworkers := h.workers
  rw [Pool.launch]
  refine ⟨h.total, hlength.trans h.length, fun i other hother => ?_, ?_, ?_, ?_, fun hless => ?_,
    ⟨List.nodup_cons.mpr ⟨hnotrunning, h.awaited.1⟩, fun i hi => ?_⟩, h.aborted,
    fun i status settled hmem => ?_, ?_, fun mark hmem => ?_, ?_, fun hfinished => ?_⟩
  · obtain ⟨rfl, rfl⟩ | ⟨hne, hold⟩ := getElem?_setStatus hother
    · refine ⟨iff_of_false nofun (by simp), iff_of_true rfl List.mem_cons_self, nofun, nofun, nofun⟩
    · refine (h.fits i other hold).mono ?_ ?_ (fun _ hm => List.mem_append_left _ hm) id id
      · dsimp only
        omega
      · simp [hne]
  · have hone := countP_setStatus item .running hitem fun item =>
      item.status.isSettled
    rw [← h.done, if_neg (by simp [hpending, FleetItemStatus.isSettled]),
      if_neg (by simp [FleetItemStatus.isSettled])] at hone
    exact hone.symm
  · have hone := countP_setStatus item .running hitem isError
    rw [← h.failed, if_neg (by simp [isError, hpending]), if_neg (by simp [isError])] at hone
    exact hone.symm
  · rw [hlength]
    dsimp only [List.length_cons]
    omega
  · rw [hlength] at hless
    dsimp only [List.length_cons] at hless
    have hbefore := h.returned (by omega)
    omega
  · rw [hlength]
    obtain rfl | hi := List.mem_cons.mp hi
    · exact ⟨hnext, List.mem_append_right _ List.mem_cons_self⟩
    · exact ⟨(h.awaited.2 i hi).1, List.mem_append_left _ (h.awaited.2 i hi).2⟩
  · rw [hlength]
    obtain hmem | hmem := List.mem_append.mp hmem
    · exact h.logged i status settled hmem
    · cases List.mem_singleton.mp hmem
  · rw [List.filterMap_append]
    refine ⟨List.pairwise_append.mpr ⟨h.starts.1, List.pairwise_singleton _ _, fun i hi j hj => ?_⟩,
      fun i hi => ?_⟩
    · rw [List.mem_singleton.mp hj]
      exact h.starts.2 i hi
    · obtain hi | hi := List.mem_append.mp hi
      · exact Nat.lt_succ_of_lt (h.starts.2 i hi)
      · rw [List.mem_singleton.mp hi]
        exact Nat.lt_succ_self _
  · obtain hmem | hmem := List.mem_append.mp hmem
    · exact h.ended mark hmem
    · rw [List.mem_singleton.mp hmem]
      exact False.elim
  · refine List.pairwise_append.mpr ⟨h.orderly, List.pairwise_singleton _ _, fun a ha b _ hends => ?_⟩
    have hstop := h.ended a ha hends
    rw [hgo] at hstop
    cases hstop
  · have hzero := (h.finished hfinished).1
    omega

/-- What an item that settled is found to be. -/
theorem verdict_cases {source : JobItemSpec ρ} {settled : Settled ρ} (name : Text)
    (hsource : spec.items[i]? = some source) (hsettles : Settles spec p i settled)
    {found : FleetItemStatus × Option Text}
    (hfound : verdict p.cancelling (withTimeout source spec.itemTimeoutMs name settled) = found) :
    (found.1 = .ok ∧ ∃ answer, settled = .answered answer ∧ source.run answer = .ok) ∨
      (found.1 = .cancelled ∧ p.cancelling = true) ∨ found.1 = .error := by
  have herror : ∀ message, verdict p.cancelling (.error message) = found →
      (found.1 = .cancelled ∧ p.cancelling = true) ∨ found.1 = .error := by
    rintro message rfl
    cases hc : p.cancelling with
    | true => exact .inl ⟨rfl, rfl⟩
    | false => exact .inr rfl
  cases settled with
  | timedOut => exact .inr (herror _ hfound)
  | answered answer =>
    rw [withTimeout] at hfound
    cases hrun : source.run answer with
    | ok =>
      rw [hrun] at hfound
      exact .inl ⟨by rw [← hfound]; rfl, answer, rfl, hrun⟩
    | error message =>
      rw [hrun] at hfound
      exact .inr (herror message hfound)
    | cancelledError =>
      rw [hrun] at hfound
      exact .inr (.inl ⟨by rw [← hfound]; rfl, hsettles (by simp [hsource, hrun])⟩)

/-- The runner of an item settles, or its time is over. -/
theorem valid_record {source : JobItemSpec ρ} {settled : Settled ρ} (h : Valid spec p)
    (hawaited : i ∈ p.awaited) (hsettles : Settles spec p i settled)
    (hitem : p.job.items[i]? = some item) (hsource : spec.items[i]? = some source) :
    Valid spec (p.record spec i item settled
      (verdict p.cancelling (withTimeout source spec.itemTimeoutMs item.name settled))) := by
  generalize hfound : verdict p.cancelling (withTimeout source spec.itemTimeoutMs item.name settled) =
    found
  have hcases := verdict_cases item.name hsource hsettles hfound
  have hnew : found.1.isSettled = true ∧ found.1 ≠ .pending ∧ found.1 ≠ .running ∧
      found.1 ≠ .skipped := by
    obtain ⟨heq, -⟩ | ⟨heq, -⟩ | heq := hcases <;> rw [heq] <;> decide
  have hrunning := (h.fits i item hitem).running.mpr hawaited
  have hlength := length_setStatus p.job { item with message := found.2 } found.1 i
  have hpos := List.length_pos_of_mem hawaited
  have herase := List.length_erase_of_mem hawaited
  have hworkers := h.workers
  have hone := countP_setStatus { item with message := found.2 } found.1 hitem
  rw [Pool.record]
  refine ⟨h.total, hlength.trans h.length, fun j other hother => ?_, ?_, ?_, ?_, fun hless => ?_,
    ⟨h.awaited.1.erase i, fun j hj => ?_⟩, fun haborted => ?_, fun j status settled' hmem => ?_, ?_,
    fun mark hmem hends => ?_, ?_, fun hfinished => ?_⟩
  · obtain ⟨rfl, rfl⟩ | ⟨hne, hold⟩ := getElem?_setStatus hother
    · refine ⟨iff_of_false hnew.2.1 fun hle => ?_, iff_of_false hnew.2.2.1 fun hmem => ?_,
        fun hok => ?_, fun hskip => absurd hskip hnew.2.2.2, fun hcancel => ?_⟩
      · rw [(h.fits j item hitem).pending.mpr hle] at hrunning
        cases hrunning
      · exact (List.Nodup.mem_erase_iff h.awaited.1).mp hmem |>.1 rfl
      · obtain ⟨-, answer, rfl, hrun⟩ | ⟨heq, -⟩ | heq := hcases
        · rw [show found.1 = .ok from hok]
          exact ⟨List.mem_append_left _ (h.awaited.2 j hawaited).2, source, answer, hsource, hrun,
            List.mem_append_right _ List.mem_cons_self⟩
        · exact absurd (heq.symm.trans hok) (by decide)
        · exact absurd (heq.symm.trans hok) (by decide)
      · obtain ⟨heq, -⟩ | ⟨-, hc⟩ | heq := hcases
        · exact absurd (heq.symm.trans hcancel) (by decide)
        · exact hc
        · exact absurd (heq.symm.trans hcancel) (by decide)
    · refine (h.fits j other hold).mono Iff.rfl (List.mem_erase_of_ne hne)
        (fun _ hm => List.mem_append_left _ hm) (fun ha => ?_) id
      dsimp only
      rw [ha, Bool.true_or]
  · have hdone := hone fun item => item.status.isSettled
    rw [← h.done, if_neg (by simp [hrunning, FleetItemStatus.isSettled]), if_pos hnew.1] at hdone
    exact hdone.symm
  · have hfailed := hone isError
    rw [← h.failed, if_neg (by simp [isError, hrunning])] at hfailed
    refine Eq.trans ?_ hfailed.symm
    by_cases herror : found.1 = .error <;> simp [isError, herror, FleetJob.setStatus]
  · rw [hlength]
    dsimp only
    omega
  · rw [hlength] at hless
    dsimp only at hless
    exact hlength ▸ h.returned (by omega)
  · rw [hlength]
    have hmem := h.awaited.2 j (List.mem_of_mem_erase hj)
    exact ⟨hmem.1, List.mem_append_left _ hmem.2⟩
  · by_cases herror : found.1 = .error
    · simp [herror]
    · have hbefore := h.aborted (by simpa [herror] using haborted)
      simpa [herror, FleetJob.setStatus] using hbefore
  · rw [hlength]
    obtain hmem | hmem := List.mem_append.mp hmem
    · exact h.logged j status settled' hmem
    · cases List.mem_singleton.mp hmem
      exact (h.awaited.2 i hawaited).1
  · rw [List.filterMap_append]
    exact (List.append_nil _).symm ▸ h.starts
  · obtain hmem | hmem := List.mem_append.mp hmem
    · have hstop := h.ended mark hmem hends
      dsimp only
      rw [← Bool.or_assoc, hstop, Bool.true_or]
    · rw [List.mem_singleton.mp hmem] at hends
      simp [hends.1, hends.2]
  · refine List.pairwise_append.mpr ⟨h.orderly, List.pairwise_singleton _ _, fun a _ b hb _ => ?_⟩
    rw [List.mem_singleton.mp hb]
    rfl
  · rw [(h.finished hfinished).2.1] at hawaited
    cases hawaited

theorem valid_cancel (h : Valid spec p) : Valid spec (cancel p) := by
  rw [cancel]
  split_ifs with hrunning
  · refine ⟨h.total, h.length, fun i item hitem => ?_, h.done, h.failed, h.workers, h.returned,
      ⟨h.awaited.1, fun i hi => ?_⟩, h.aborted, fun i status settled hmem => ?_, ?_,
      fun mark _ _ => rfl, ?_, fun hfinished => absurd hrunning hfinished⟩
    · exact (h.fits i item hitem).mono Iff.rfl Iff.rfl (fun _ hm => List.mem_append_left _ hm) id
        fun _ => rfl
    · exact ⟨(h.awaited.2 i hi).1, List.mem_append_left _ (h.awaited.2 i hi).2⟩
    · obtain hmem | hmem := List.mem_append.mp hmem
      · exact h.logged i status settled hmem
      · cases List.mem_singleton.mp hmem
    · rw [List.filterMap_append]
      exact (List.append_nil _).symm ▸ h.starts
    · refine List.pairwise_append.mpr ⟨h.orderly, List.pairwise_singleton _ _, fun a _ b hb _ => ?_⟩
      rw [List.mem_singleton.mp hb]
      rfl
  · exact h

theorem valid_finish (h : Valid spec p) (hready : p.ready = 0) (hawaited : p.awaited = []) :
    Valid spec (finish p) :=
  ⟨h.total, h.length, fun i item hitem => (h.fits i item hitem).mono Iff.rfl Iff.rfl
    (fun _ hm => hm) id id, h.done, h.failed, h.workers, h.returned, h.awaited, h.aborted, h.logged,
    h.starts, h.ended, h.orderly, fun _ => ⟨hready, hawaited, rfl⟩⟩

theorem valid_step (p : Pool ρ) (action : Action ρ) (h : Valid spec p)
    (henabled : Enabled spec p action) : Valid spec (step spec p action) := by
  have hlookup : ∀ {i}, i < p.job.items.length →
      (∃ item, p.job.items[i]? = some item) ∧ ∃ source, spec.items[i]? = some source := by
    intro i hi
    have hlength := h.length
    exact ⟨⟨_, List.getElem?_eq_getElem hi⟩, _, List.getElem?_eq_getElem (by omega)⟩
  cases action with
  | pull =>
    rw [step, pull]
    dsimp only
    split_ifs with hlast
    · exact valid_return h henabled hlast
    · obtain ⟨⟨item, hitem⟩, source, hsource⟩ := hlookup (Nat.lt_of_not_le hlast)
      rw [runOne]
      simp only [hitem, hsource]
      split_ifs with hstop
      · exact valid_pass h henabled hitem hstop
      · exact valid_launch h henabled hitem (Bool.eq_false_iff.mpr hstop)
  | settle index settled =>
    obtain ⟨hmem, hsettles⟩ := henabled
    obtain ⟨⟨item, hitem⟩, source, hsource⟩ := hlookup (h.awaited.2 index hmem).1
    rw [step, settle]
    simp only [hitem, hsource]
    exact valid_record h hmem hsettles hitem hsource
  | cancel => exact valid_cancel h
  | finish => exact valid_finish h henabled.1 henabled.2.1

/-! ### Runs -/

def after (spec : JobSpec ρ) (events : List (Action ρ)) : Pool ρ := run (step spec) (start spec) events

/-- The steps of a run are enabled one after another. -/
def Possible (spec : JobSpec ρ) (events : List (Action ρ)) : Prop :=
  Guarded (step spec) (Enabled spec) (start spec) events

theorem valid_after {events : List (Action ρ)} (h : Possible spec events) :
    Valid spec (after spec events) :=
  run_preserves valid_step h (valid_start spec)

/-- What a run keeps, finished or not. -/
structure Fair (spec : JobSpec ρ) (p : Pool ρ) : Prop where
  once : (p.log.filterMap Mark.starts).Nodup
  parallel : (p.awaited.length : Int) ≤ max 1 spec.maxParallel
  stops : p.log.Pairwise fun a b => a.ends spec → b.starts = none
  failed : p.job.failed = p.job.items.countP isError

/-- A job that has finished accounts for every item of its spec. -/
structure Complete (spec : JobSpec ρ) (p : Pool ρ) : Prop where
  done : p.job.done = spec.items.length
  total : p.job.total = spec.items.length
  settled : ∀ i < spec.items.length, ∃ item,
    p.job.items[i]? = some item ∧ item.status.isSettled = true
  success : p.job.state = .done → ∀ i < spec.items.length, Succeeded spec p.log i

theorem Valid.fair (h : Valid spec p) : Fair spec p := by
  refine ⟨h.starts.1.imp fun hlt => Nat.ne_of_lt hlt, ?_, h.orderly, h.failed⟩
  have hworkers := h.workers
  have hwidth := width_le spec p.job.items.length
  omega

/-- When a job has finished, all of its items have. -/
theorem Valid.settled (h : Valid spec p) (hfinished : p.job.state ≠ .running)
    (hitem : p.job.items[i]? = some item) : item.status.isSettled = true := by
  obtain ⟨hready, hawaited, -⟩ := h.finished hfinished
  have hpos := width_pos spec p.job.items.length
  have hnext := h.returned (by simpa [hready, hawaited] using hpos)
  have hi := (List.getElem?_eq_some_iff.mp hitem).1
  have hfits := h.fits i item hitem
  have hpending : item.status ≠ .pending := fun heq => by
    have := hfits.pending.mp heq
    omega
  have hrunning : item.status ≠ .running := fun heq => by
    have hmem := hfits.running.mp heq
    rw [hawaited] at hmem
    cases hmem
  cases hstatus : item.status with
  | pending => exact absurd hstatus hpending
  | running => exact absurd hstatus hrunning
  | ok | error | skipped | cancelled => rfl

theorem Valid.done_eq (h : Valid spec p) (hfinished : p.job.state ≠ .running) :
    p.job.done = min spec.items.length MAX_JOB_ITEMS := by
  rw [h.done, ← h.length, List.countP_eq_length]
  intro item hmem
  obtain ⟨i, hi⟩ := List.mem_iff_getElem?.mp hmem
  exact h.settled hfinished hi

/-- All items of a job that is done succeeded. -/
theorem Valid.ok_of_done (h : Valid spec p) (hdone : p.job.state = .done)
    (hitem : p.job.items[i]? = some item) : Succeeded spec p.log i := by
  have hfinished : p.job.state ≠ .running := by
    rw [hdone]
    decide
  obtain ⟨-, -, hstate⟩ := h.finished hfinished
  rw [hdone, finish] at hstate
  have hquiet : p.cancelling = false ∧ p.job.failed = 0 := by
    dsimp only at hstate
    split_ifs at hstate with hcancelling hfailed
    exact ⟨Bool.eq_false_iff.mpr hcancelling, hfailed⟩
  have hfits := h.fits i item hitem
  have hsettled := h.settled hfinished hitem
  have herror : isError item = false := by
    have hnone := List.countP_eq_zero.mp (h.failed.symm.trans hquiet.2) item
      (List.mem_of_getElem? hitem)
    simpa using hnone
  have haborted : p.aborted = false := Bool.eq_false_iff.mpr fun ha => by
    have := h.aborted ha
    omega
  cases hstatus : item.status with
  | ok => exact hfits.ok hstatus
  | pending | running => simp [hstatus, FleetItemStatus.isSettled] at hsettled
  | error => simp [isError, hstatus] at herror
  | skipped =>
    have := hfits.skipped hstatus
    simp [haborted] at this
  | cancelled =>
    have := hfits.cancelled hstatus
    simp [hquiet.1] at this

theorem Valid.complete_iff (h : Valid spec p) (hfinished : p.job.state ≠ .running) :
    Complete spec p ↔ spec.items.length ≤ MAX_JOB_ITEMS := by
  have hdone := h.done_eq hfinished
  have hlength := h.length
  constructor
  · intro hcomplete
    have := hcomplete.done
    omega
  · intro hle
    have hitem : ∀ i < spec.items.length, ∃ item, p.job.items[i]? = some item := fun i hi =>
      ⟨_, List.getElem?_eq_getElem (by omega)⟩
    refine ⟨by omega, h.total, fun i hi => ?_, fun hstate i hi => ?_⟩
    · obtain ⟨item, hitem⟩ := hitem i hi
      exact ⟨item, hitem, h.settled hfinished hitem⟩
    · obtain ⟨item, hitem⟩ := hitem i hi
      exact h.ok_of_done hstate hitem

/-! ### Create jobs -/

/-- The command that creates the container went through. -/
def CreateAnswers.created (a : CreateAnswers) : Prop := ∃ res, a.create = .ok res ∧ res.code = 0

/-- Every name of a plan got its container. -/
def CreatedAll (plan : DockerPlan) (log : List (Mark CreateAnswers)) : Prop :=
  ∀ i < plan.names.length, ∃ a, .recorded i .ok (.answered a) ∈ log ∧ a.created

theorem createContainer_ok {plan : DockerPlan} {a : CreateAnswers}
    (h : createContainer plan i a = .ok) : a.created := by
  have hcreate : complaint (js "create failed") a.create = none := by
    rw [createContainer] at h
    split at h
    · assumption
    all_goals cases h
  cases hres : a.create with
  | error message =>
    rw [hres] at hcreate
    cases hcreate
  | ok res =>
    rw [hres, complaint] at hcreate
    refine ⟨res, hres, ?_⟩
    by_contra hcode
    simp [hcode] at hcreate

theorem created_all_iff {plan : DockerPlan} {maxParallel itemTimeoutSec : Int}
    {p : Pool CreateAnswers} (h : Valid (createJob plan maxParallel itemTimeoutSec) p)
    (hdone : p.job.state = .done) :
    CreatedAll plan p.log ↔ plan.names.length ≤ MAX_JOB_ITEMS := by
  have hnames : (createJob plan maxParallel itemTimeoutSec).items.length = plan.names.length := by
    simp [createJob]
  have hlength := h.length
  constructor
  · intro hall
    by_contra hmore
    obtain ⟨a, hmem, -⟩ := hall MAX_JOB_ITEMS (by omega)
    have := h.logged _ _ _ hmem
    omega
  · intro hle i hi
    have hitem : p.job.items[i]? = some _ := List.getElem?_eq_getElem (by omega)
    obtain ⟨-, source, a, hsource, hrun, hmem⟩ := h.ok_of_done hdone hitem
    refine ⟨a, hmem, ?_⟩
    simp only [createJob, List.getElem?_mapIdx, Option.map_eq_some_iff] at hsource
    obtain ⟨name, -, rfl⟩ := hsource
    exact createContainer_ok hrun

/-- In every run the pool is fair; a job that has finished ran what it announced exactly when it
announced no more items than a job keeps. -/
theorem every_item_runs :
    (∀ (spec : JobSpec ρ) (events : List (Action ρ)), Possible spec events →
      Fair spec (after spec events) ∧ ((after spec events).job.state ≠ .running →
        (Complete spec (after spec events) ↔ spec.items.length ≤ MAX_JOB_ITEMS))) ∧
    ∀ (plan : DockerPlan) (maxParallel itemTimeoutSec : Int) (events : List (Action CreateAnswers)),
      Possible (createJob plan maxParallel itemTimeoutSec) events →
      (after (createJob plan maxParallel itemTimeoutSec) events).job.state = .done →
        (CreatedAll plan (after (createJob plan maxParallel itemTimeoutSec) events).log ↔
          plan.names.length ≤ MAX_JOB_ITEMS) := by
  refine ⟨fun spec events h => ⟨(valid_after h).fair, (valid_after h).complete_iff⟩, ?_⟩
  exact fun plan maxParallel itemTimeoutSec events h => created_all_iff (valid_after h)

/-! ### A machine that does all it is told -/

/-- A sequential job before its item `k`, with no failure so far. -/
structure Quiet (p : Pool ρ) (k : Nat) : Prop where
  next : p.next = k
  ready : p.ready = 1
  awaited : p.awaited = []
  cancelling : p.cancelling = false
  aborted : p.aborted = false
  failed : p.job.failed = 0
  running : p.job.state = .running

/-- One item after another starts and succeeds. -/
def rounds (answer : ρ) (k : Nat) : List (Action ρ) :=
  (List.range k).flatMap fun i => [.pull, .settle i (.answered answer)]

variable {answer : ρ} {k : Nat}

theorem quiet_round (h : Valid spec p) (hquiet : Quiet p k) (hk : k < p.job.items.length)
    (hok : ∀ source ∈ spec.items, source.run answer = .ok) :
    Guarded (step spec) (Enabled spec) p [.pull, .settle k (.answered answer)] ∧
      Quiet (run (step spec) p [.pull, .settle k (.answered answer)]) (k + 1) := by
  obtain ⟨rfl, hready, hawaited, hcancelling, haborted, hfailed, hrunning⟩ := hquiet
  have hlength := h.length
  have hsource : spec.items[p.next]? = some spec.items[p.next] := List.getElem?_eq_getElem (by omega)
  have hrun : spec.items[p.next].run answer = .ok := hok _ (List.getElem_mem _)
  have hpull : step spec p .pull =
      Pool.launch { p with next := p.next + 1 } p.next p.job.items[p.next] := by
    simp [step, pull, runOne, hk, hsource, hcancelling, haborted]
  have hlaunched : (step spec p .pull).job.items[p.next]? =
      some { p.job.items[p.next] with status := .running } := by
    rw [hpull]
    exact List.getElem?_set_self hk
  have hsettle : step spec (step spec p .pull) (.settle p.next (.answered answer)) =
      (step spec p .pull).record spec p.next { p.job.items[p.next] with status := .running }
        (.answered answer) (.ok, none) := by
    change settle spec p.next (.answered answer) (step spec p .pull) = _
    unfold settle
    rw [hlaunched, hsource]
    simp only [withTimeout, hrun, verdict]
  refine ⟨⟨?_, ⟨?_, ?_⟩, trivial⟩, ?_⟩
  · change 0 < p.ready
    omega
  · rw [hpull]
    exact List.mem_cons_self
  · simp [Settles, hsource, hrun]
  · rw [run_cons, run_cons, run_nil, hsettle, hpull]
    exact ⟨rfl, by simp [Pool.record, Pool.launch, hready],
      by simp [Pool.record, Pool.launch, hawaited], hcancelling,
      by simp [Pool.record, Pool.launch, haborted],
      by simp [Pool.record, Pool.launch, FleetJob.setStatus, hfailed], hrunning⟩

/-- Behind the last item a sequential job without a failure is done. -/
theorem quiet_end (hquiet : Quiet p k) (hk : p.job.items.length ≤ k) :
    Guarded (step spec) (Enabled spec) p [.pull, .finish] ∧
      (run (step spec) p [.pull, .finish]).job.state = .done := by
  obtain ⟨rfl, hready, hawaited, hcancelling, haborted, hfailed, hrunning⟩ := hquiet
  have hpull : step spec p .pull = { p with next := p.next + 1, ready := p.ready - 1 } := by
    simp [step, pull, hk]
  have hone : Enabled spec p .pull := by
    change 0 < p.ready
    omega
  have hlast : Enabled spec (step spec p .pull) .finish := by
    rw [hpull]
    exact ⟨by simp [hready], hawaited, hrunning⟩
  refine ⟨⟨hone, hlast, trivial⟩, ?_⟩
  rw [run_cons, run_cons, run_nil, hpull]
  simp [step, finish, hcancelling, hfailed]

theorem quiet_rounds (hsequential : spec.concurrency = .sequential)
    (hok : ∀ source ∈ spec.items, source.run answer = .ok)
    (hk : k ≤ (start spec).job.items.length) :
    Possible spec (rounds answer k) ∧ Quiet (after spec (rounds answer k)) k := by
  induction k with
  | zero => exact ⟨trivial, rfl, by simp [after, rounds, start, width, hsequential], rfl, rfl, rfl, rfl, rfl⟩
  | succ k ih =>
    obtain ⟨hpossible, hquiet⟩ := ih (Nat.le_of_succ_le hk)
    have hvalid := valid_after hpossible
    have hsame : (after spec (rounds answer k)).job.items.length =
        (start spec).job.items.length := hvalid.length.trans (valid_start spec).length.symm
    obtain ⟨hguarded, hnext⟩ := quiet_round hvalid hquiet (by omega) hok
    have hrounds : rounds answer (k + 1) =
        rounds answer k ++ [.pull, .settle k (.answered answer)] := by
      simp [rounds, List.range_succ]
    rw [hrounds]
    refine ⟨guarded_append hpossible hguarded, ?_⟩
    rw [after, run_append]
    exact hnext

/-- When nothing fails, a sequential job is reported done. -/
theorem done_of_quiet (hsequential : spec.concurrency = .sequential)
    (hok : ∀ source ∈ spec.items, source.run answer = .ok) :
    ∃ events, Possible spec events ∧ (after spec events).job.state = .done := by
  obtain ⟨hpossible, hquiet⟩ := quiet_rounds (k := (start spec).job.items.length) hsequential hok le_rfl
  have hvalid := valid_after hpossible
  obtain ⟨hguarded, hdone⟩ : Guarded (step spec) (Enabled spec) _ [.pull, .finish] ∧
      (run (step spec) _ [.pull, .finish]).job.state = .done :=
    quiet_end hquiet (hvalid.length.trans (valid_start spec).length.symm).le
  have hall : Possible spec (rounds answer (start spec).job.items.length ++ [.pull, .finish]) :=
    guarded_append hpossible hguarded
  refine ⟨_, hall, ?_⟩
  rw [after, run_append]
  exact hdone

/-- A plan for so many containers, and a machine that creates and starts them. -/
def planFor (count : Nat) : DockerPlan :=
  ⟨List.replicate count (js "web"), false, .sequential, .continue_⟩

def goesWell : CreateAnswers :=
  let res : ExecResult := ⟨0, js "4f2c", []⟩
  ⟨.ok res, .ok res, .ok res⟩

theorem planFor_ok (count : Nat) :
    ∀ source ∈ (createJob (planFor count) 4 300).items, source.run goesWell = .ok := by
  intro source hsource
  obtain ⟨i, hi⟩ := List.mem_iff_getElem?.mp hsource
  simp only [createJob, List.getElem?_mapIdx, Option.map_eq_some_iff] at hi
  obtain ⟨name, -, rfl⟩ := hi
  rfl

theorem every_item_runs_two : ∃ events, Possible (createJob (planFor 2) 4 300) events ∧
    Complete (createJob (planFor 2) 4 300) (after (createJob (planFor 2) 4 300) events) := by
  obtain ⟨events, hpossible, hdone⟩ : ∃ events, Possible (createJob (planFor 2) 4 300) events ∧
      (after (createJob (planFor 2) 4 300) events).job.state = .done :=
    done_of_quiet rfl (planFor_ok 2)
  have hfinished : (after (createJob (planFor 2) 4 300) events).job.state ≠ .running := by
    rw [hdone]
    decide
  exact ⟨events, hpossible, ((every_item_runs.1 _ _ hpossible).2 hfinished).mpr (by decide)⟩

/-- A job for 201 names is reported done with 200 of them created. -/
theorem items_are_dropped : ∃ events, Possible (createJob (planFor 201) 4 300) events ∧
    (after (createJob (planFor 201) 4 300) events).job.state = .done ∧
    (after (createJob (planFor 201) 4 300) events).job.total = 201 ∧
    (after (createJob (planFor 201) 4 300) events).job.done = 200 ∧
    ¬CreatedAll (planFor 201) (after (createJob (planFor 201) 4 300) events).log := by
  have hlength : (createJob (planFor 201) 4 300).items.length = 201 := by decide +kernel
  obtain ⟨events, hpossible, hdone⟩ : ∃ events, Possible (createJob (planFor 201) 4 300) events ∧
      (after (createJob (planFor 201) 4 300) events).job.state = .done :=
    done_of_quiet rfl (planFor_ok 201)
  have hvalid := valid_after hpossible
  have hfinished : (after (createJob (planFor 201) 4 300) events).job.state ≠ .running := by
    rw [hdone]
    decide
  refine ⟨events, hpossible, hdone, hvalid.total.trans hlength, ?_, ?_⟩
  · rw [hvalid.done_eq hfinished, hlength]
    rfl
  · rw [created_all_iff hvalid hdone]
    decide +kernel

end BoredManager.Container
