import BoredManager.Fleet.FleetJobs
import Mathlib.Data.List.Nodup

/-! When the verdict of a fleet job is honest, over every run of the job. -/
namespace BoredManager.Fleet.Jobs
open BoredManager.Js BoredManager.Machine

variable {work : List HostSteps} {items : List JobItem} {item : JobItem} {job : FleetJob}
  {name : Text} {i k : Nat} {results : List FanoutResult}

def isError (item : JobItem) : Bool := item.status = .error

/-! ### Items by name -/

theorem indexOf_some (h : indexOf name items = some i) :
    ∃ item, items[i]? = some item ∧ item.name = name := by
  induction items generalizing i with
  | nil => cases h
  | cons item items ih =>
    rw [indexOf] at h
    cases hrest : indexOf name items with
    | some j =>
      rw [hrest] at h
      cases h
      exact ih hrest
    | none =>
      rw [hrest] at h
      dsimp only at h
      split_ifs at h with hname
      cases h
      exact ⟨item, rfl, hname⟩

theorem indexOf_eq (hnodup : (items.map JobItem.name).Nodup) (hitem : items[i]? = some item) :
    indexOf item.name items = some i := by
  have hmem : item.name ∈ items.map JobItem.name :=
    List.mem_map_of_mem (List.mem_of_getElem? hitem)
  cases hindex : indexOf item.name items with
  | some j =>
    obtain ⟨other, hother, hname⟩ := indexOf_some hindex
    have hj : (items.map JobItem.name)[j]? = some item.name := by simp [hother, hname]
    have hi : (items.map JobItem.name)[i]? = some item.name := by simp [hitem]
    have hlt := (List.getElem?_eq_some_iff.mp hj).1
    rw [(List.getElem?_inj hlt hnodup).mp (hj.trans hi.symm)]
  | none =>
    clear hitem hnodup
    induction items with
    | nil => cases hmem
    | cons head items ih =>
      rw [indexOf] at hindex
      cases hrest : indexOf item.name items with
      | some j =>
        rw [hrest] at hindex
        cases hindex
      | none =>
        rw [hrest] at hindex
        obtain heq | hmem := List.mem_cons.mp hmem
        · simp [heq] at hindex
        · exact absurd (ih hmem hrest) (by simp)

/-! ### What the items of a job tell -/

/-- The job has an item for each of the first machines, in order, with a status as given; the
counters are those of the items. -/
structure Marked (work : List HostSteps) (told : Nat → JobItemStatus → Prop) (job : FleetJob) :
    Prop where
  total : job.total = min work.length MAX_JOB_ITEMS
  length : job.items.length = min work.length MAX_JOB_ITEMS
  name : ∀ (i : Nat) (item : JobItem), job.items[i]? = some item →
    ∃ entry, work[i]? = some entry ∧ item.name = entry.ip
  status : ∀ (i : Nat) (item : JobItem), job.items[i]? = some item → told i item.status
  done : job.done = job.items.countP fun item => !isPending item
  failed : job.failed = job.items.countP isError

variable {told : Nat → JobItemStatus → Prop}

theorem Marked.nodup (h : Marked work told job) (hdistinct : (work.map HostSteps.ip).Nodup) :
    (job.items.map JobItem.name).Nodup := by
  have hnames : job.items.map JobItem.name = (work.map HostSteps.ip).take job.items.length := by
    refine List.ext_getElem? fun i => ?_
    rw [List.getElem?_map, List.getElem?_take]
    split_ifs with hi
    · obtain ⟨entry, hentry, hname⟩ := h.name i _ (List.getElem?_eq_getElem hi)
      rw [List.getElem?_eq_getElem hi, Option.map_some, hname, List.getElem?_map, hentry]
      rfl
    · rw [List.getElem?_eq_none (by omega)]
      rfl
  rw [hnames]
  exact hdistinct.sublist (List.take_sublist _ _)

theorem Marked.mono {told' : Nat → JobItemStatus → Prop} (h : Marked work told job)
    (hmono : ∀ i status, i < job.items.length → told i status → told' i status) :
    Marked work told' job :=
  ⟨h.total, h.length, h.name, fun i item hitem =>
    hmono i _ (List.getElem?_eq_some_iff.mp hitem).1 (h.status i item hitem), h.done, h.failed⟩

/-- The status that a report gives. -/
def judged (result : FanoutResult) : JobItemStatus := if (judge result).1 then .ok else .error

/-- The first results are reported, the items behind them are pending. -/
def reported (results : List FanoutResult) (k i : Nat) (status : JobItemStatus) : Prop :=
  (i < k → ∀ result, results[i]? = some result → status = judged result) ∧
    (k ≤ i → status = .pending)

/-- The results are those of the machines, in order. -/
def Ordered (work : List HostSteps) (results : List FanoutResult) : Prop :=
  ∀ (i : Nat) (result : FanoutResult), results[i]? = some result →
    ∃ entry, work[i]? = some entry ∧ result.ip = entry.ip

theorem marked_report {result : FanoutResult} (h : Marked work (reported results k) job)
    (hdistinct : (work.map HostSteps.ip).Nodup) (hordered : Ordered work results)
    (hresult : results[k]? = some result) :
    Marked work (reported results (k + 1)) (report job result.ip (judge result)) := by
  obtain ⟨entry, hentry, hip⟩ := hordered k result hresult
  by_cases hk : k < job.items.length
  · have hitem : job.items[k]? = some job.items[k] := List.getElem?_eq_getElem hk
    obtain ⟨entry', hentry', hname⟩ := h.name k _ hitem
    obtain rfl := Option.some.inj (hentry.symm.trans hentry')
    have hpending := (h.status k _ hitem).2 le_rfl
    have hindex : indexOf result.ip job.items = some k := by
      rw [hip, ← hname]
      exact indexOf_eq (h.nodup hdistinct) hitem
    generalize hnew : ({ job.items[k] with
      status := judged result
      message := if (judge result).2 = [] then job.items[k].message
        else some (judge result).2 } : JobItem) = new
    have hreport : report job result.ip (judge result) =
        { job with
          items := job.items.set k new
          done := job.done + 1
          failed := if (judge result).1 then job.failed else job.failed + 1 } := by
      rw [report, hindex]
      simp [hitem, hpending, ← hnew, judged]
    have hcount := fun P : JobItem → Bool => List.countP_set (p := P) (a := new) hk
    rw [hreport]
    refine ⟨h.total, by simp [h.length], fun i item hset => ?_, fun i item hset => ?_, ?_, ?_⟩
    · rw [List.getElem?_set] at hset
      split_ifs at hset with hik
      · subst hik
        rw [← Option.some.inj hset, ← hnew]
        exact ⟨entry, hentry, hname⟩
      · exact h.name i item hset
    · rw [List.getElem?_set] at hset
      split_ifs at hset with hik
      · subst hik
        rw [← Option.some.inj hset, ← hnew]
        refine ⟨fun _ other hother => ?_, fun hle => by omega⟩
        rw [Option.some.inj (hresult.symm.trans hother)]
      · have hold := h.status i item hset
        exact ⟨fun hlt => hold.1 (by omega), fun hle => hold.2 (by omega)⟩
    · have hone := hcount fun item => !isPending item
      have hjudged : judged result ≠ .pending := by
        unfold judged
        split_ifs <;> decide
      rw [h.done, hone]
      simp [isPending, hpending, ← hnew, hjudged]
    · have hone := hcount isError
      rw [hone, ← h.failed]
      cases hverdict : (judge result).1 <;> simp [isError, hpending, ← hnew, judged, hverdict]
  · have hnone : indexOf result.ip job.items = none := by
      cases hindex : indexOf result.ip job.items with
      | none => rfl
      | some j =>
        obtain ⟨item, hitem, hname⟩ := indexOf_some hindex
        obtain ⟨entry', hentry', hname'⟩ := h.name j item hitem
        have hj := (List.getElem?_eq_some_iff.mp hitem).1
        have hwork := (List.getElem?_eq_some_iff.mp hentry).1
        have hsame : (work.map HostSteps.ip)[j]? = (work.map HostSteps.ip)[k]? := by
          simp [hentry, hentry', ← hip, ← hname, hname']
        have hjk := (List.getElem?_inj (by simp; omega) hdistinct).mp hsame
        omega
    rw [report, hnone]
    refine h.mono fun i status hi hold => ⟨fun _ => hold.1 (by omega), fun hle => by omega⟩

/-- After all reports every contacted machine's item tells its answer. -/
theorem marked_reportAll (h : Marked work (reported results 0) job)
    (hdistinct : (work.map HostSteps.ip).Nodup) (hordered : Ordered work results) :
    Marked work (reported results results.length) (reportAll job results) := by
  suffices hall : ∀ k ≤ results.length,
      Marked work (reported results k) (reportAll job (results.take k)) by
    have hlast := hall results.length le_rfl
    rwa [List.take_length] at hlast
  intro k
  induction k with
  | zero => exact fun _ => h
  | succ k ih =>
    intro hk
    have hresult : results[k]? = some results[k] := List.getElem?_eq_getElem hk
    rw [List.take_add_one, hresult, reportAll, List.foldl_append]
    exact marked_report (ih (by omega)) hdistinct hordered hresult

/-- Every pending item gets the status. -/
def filled (told : Nat → JobItemStatus → Prop) (new : JobItemStatus) (i : Nat)
    (status : JobItemStatus) : Prop :=
  ∃ old, told i old ∧ status = if old = .pending then new else old

theorem countP_fill (new : JobItemStatus) (message : JobItem → Option Text) (items : List JobItem) :
    (items.map fun item => if isPending item
      then { item with status := new, message := message item } else item).countP isError =
      items.countP isError + if new = .error then items.countP isPending else 0 := by
  induction items with
  | nil => simp
  | cons item items ih =>
    rw [List.map_cons, List.countP_cons, List.countP_cons, List.countP_cons, ih]
    by_cases hpending : item.status = .pending <;> by_cases herror : new = .error <;>
      simp [isPending, isError, hpending, herror] <;> omega

/-- A job whose pending items all got a status has none left. -/
theorem marked_fill (job' : FleetJob) (new : JobItemStatus) (message : JobItem → Option Text)
    (h : Marked work told job) (hnew : new ≠ .pending) (htotal : job'.total = job.total)
    (hitems : job'.items = job.items.map fun item =>
      if isPending item then { item with status := new, message := message item } else item)
    (hdone : job'.done = job.done + job.items.countP isPending)
    (hfailed : job'.failed = job.failed + if new = .error then job.items.countP isPending else 0) :
    Marked work (filled told new) job' ∧ job'.done = job'.items.length := by
  have hall : ∀ item ∈ job'.items, (!isPending item) = true := by
    intro item hmem
    rw [hitems] at hmem
    obtain ⟨old, -, rfl⟩ := List.mem_map.mp hmem
    by_cases hpending : isPending old = true
    · rw [if_pos hpending]
      simp [isPending, hnew]
    · rw [if_neg hpending]
      simpa using hpending
  have hlength : job'.items.length = job.items.length := by rw [hitems, List.length_map]
  have hdone' : job'.done = job'.items.length := by
    have hsplit := List.length_eq_countP_add_countP (l := job.items) isPending
    have hsame : job.items.countP (fun item => !isPending item) =
        job.items.countP fun item => decide ¬isPending item = true :=
      List.countP_congr fun item _ => by simp
    have hbefore := h.done
    omega
  have hold : ∀ (i : Nat) (item : JobItem), job'.items[i]? = some item → ∃ old,
      job.items[i]? = some old ∧ item.name = old.name ∧
        item.status = if old.status = .pending then new else old.status := by
    intro i item hitem
    rw [hitems, List.getElem?_map, Option.map_eq_some_iff] at hitem
    obtain ⟨old, hget, rfl⟩ := hitem
    refine ⟨old, hget, ?_, ?_⟩ <;> by_cases hpending : old.status = .pending <;>
      simp [isPending, hpending]
  refine ⟨⟨htotal.trans h.total, hlength.trans h.length, fun i item hitem => ?_,
    fun i item hitem => ?_, ?_, ?_⟩, hdone'⟩
  · obtain ⟨old, hget, hname, -⟩ := hold i item hitem
    obtain ⟨entry, hentry, hip⟩ := h.name i old hget
    exact ⟨entry, hentry, hname.trans hip⟩
  · obtain ⟨old, hget, -, hstatus⟩ := hold i item hitem
    exact ⟨old.status, h.status i old hget, hstatus⟩
  · rw [hdone', List.countP_eq_length.mpr hall]
  · rw [hfailed, hitems, countP_fill new message, h.failed]

/-! ### Runs -/

/-- What became of the items of a job that has finished. -/
def outcome (s : JobRun) (i : Nat) (status : JobItemStatus) : Prop :=
  if s.threw then status = .error
  else (∀ result, s.results[i]? = some result → status = judged result) ∧
    (s.results.length ≤ i → status = if s.called then .cancelled else .skipped)

/-- The verdict over a job's counters. -/
def verdictOf (called : Bool) (job : FleetJob) : JobState :=
  if called then .cancelled
  else if job.failed = 0 then .done
  else if job.failed = job.total then .failed
  else .partialDone

structure Valid (work : List HostSteps) (s : JobRun) : Prop where
  ordered : Ordered work s.results
  length : s.results.length = min s.offset work.length
  contacting : s.phase = .contacting →
    Marked work (reported s.results 0) s.job ∧ s.threw = false ∧ s.called = s.cancelling
  refreshing : s.phase = .refreshing →
    Marked work (reported s.results s.results.length) s.job ∧ s.threw = false ∧
      s.called = s.cancelling
  finished : s.phase = .finished → Marked work (outcome s) s.job ∧
    s.job.done = s.job.items.length ∧ s.job.state = verdictOf s.called s.job

variable {s : JobRun}

theorem marked_finish (h : Marked work told s.job) (hcalled : s.called = s.cancelling) :
    Marked work (filled told (if s.called then .cancelled else .skipped)) (finish s).job ∧
      (finish s).job.done = (finish s).job.items.length ∧
      (finish s).job.state = verdictOf s.called (finish s).job := by
  have hnew : (if s.called then JobItemStatus.cancelled else .skipped) ≠ .pending ∧
      (if s.called then JobItemStatus.cancelled else .skipped) ≠ .error := by
    split_ifs <;> decide
  have hfailed : (finish s).job.failed = s.job.failed +
      if (if s.called then JobItemStatus.cancelled else .skipped) = .error
        then s.job.items.countP isPending else 0 := by
    rw [if_neg hnew.2]
    rfl
  have hitems : (finish s).job.items = s.job.items.map fun item => if isPending item
      then { item with status := if s.called then .cancelled else .skipped, message := item.message }
      else item := by
    rw [hcalled]
    rfl
  obtain ⟨hfilled, hdone⟩ := marked_fill (finish s).job _ _ h hnew.1 rfl hitems rfl hfailed
  refine ⟨hfilled, hdone, ?_⟩
  rw [verdictOf, hcalled]
  rfl

theorem judged_ne_pending (result : FanoutResult) : judged result ≠ .pending := by
  unfold judged
  split_ifs <;> decide

/-- A job whose results are reported is done with. -/
theorem valid_finish (hordered : Ordered work s.results)
    (hlength : s.results.length = min s.offset work.length)
    (hmarked : Marked work (reported s.results s.results.length) s.job) (hthrew : s.threw = false)
    (hcalled : s.called = s.cancelling) : Valid work (finish s) := by
  obtain ⟨hfilled, hdone, hstate⟩ := marked_finish hmarked hcalled
  refine ⟨hordered, hlength, nofun, nofun, fun _ => ⟨hfilled.mono fun i status hi hold => ?_, hdone,
    hstate⟩⟩
  obtain ⟨old, hold, rfl⟩ := hold
  change outcome s i _
  rw [outcome, hthrew, if_neg (by simp)]
  constructor
  · intro result hresult
    rw [hold.1 (List.getElem?_eq_some_iff.mp hresult).1 result hresult,
      if_neg (judged_ne_pending result)]
  · intro hle
    rw [if_pos (hold.2 hle)]

theorem valid_conclude (hdistinct : (work.map HostSteps.ip).Nodup) (hordered : Ordered work s.results)
    (hlength : s.results.length = min s.offset work.length)
    (hmarked : Marked work (reported s.results 0) s.job) (hthrew : s.threw = false)
    (hcalled : s.called = s.cancelling) : Valid work (conclude s) := by
  have hall := marked_reportAll hmarked hdistinct hordered
  rw [conclude]
  dsimp only
  split_ifs with hcancelling
  · exact valid_finish hordered hlength hall hthrew hcalled
  · exact ⟨hordered, hlength, nofun, fun _ => ⟨hall, hthrew, hcalled⟩, nofun⟩

theorem valid_boundary (connected : Bool) (hdistinct : (work.map HostSteps.ip).Nodup)
    (hordered : Ordered work s.results) (hlength : s.results.length = min s.offset work.length)
    (hmarked : Marked work (reported s.results 0) s.job) (hthrew : s.threw = false)
    (hcalled : s.called = s.cancelling) : Valid work (boundary work connected s) := by
  rw [boundary]
  split_ifs
  · exact ⟨hordered, hlength, fun _ => ⟨hmarked, hthrew, hcalled⟩, nofun, nofun⟩
  · exact valid_conclude hdistinct hordered hlength hmarked hthrew hcalled

theorem valid_start (connected : Bool) (hdistinct : (work.map HostSteps.ip).Nodup) :
    Valid work (start work connected) := by
  have hitem : ∀ (i : Nat) (item : JobItem),
      (((work.map HostSteps.ip).take MAX_JOB_ITEMS).mapIdx fun idx name =>
        (⟨idx, name, .pending, none⟩ : JobItem))[i]? = some item →
      item.status = .pending ∧ ∃ entry, work[i]? = some entry ∧ item.name = entry.ip := by
    intro i item h
    rw [List.getElem?_mapIdx, Option.map_eq_some_iff] at h
    obtain ⟨name, hname, rfl⟩ := h
    rw [List.getElem?_take, List.getElem?_map] at hname
    split_ifs at hname
    obtain ⟨entry, hentry, rfl⟩ := Option.map_eq_some_iff.mp hname
    exact ⟨rfl, entry, hentry, rfl⟩
  have hpending : ∀ item ∈ ((work.map HostSteps.ip).take MAX_JOB_ITEMS).mapIdx (fun idx name =>
      (⟨idx, name, .pending, none⟩ : JobItem)), item.status = .pending := by
    intro item hmem
    obtain ⟨i, hi⟩ := List.mem_iff_getElem?.mp hmem
    exact (hitem i item hi).1
  refine valid_boundary connected hdistinct (fun i result h => by cases h) (by simp)
    ⟨by simp, by simp [Nat.min_comm], fun i item h => (hitem i item h).2,
      fun i item h => ⟨fun hlt => absurd hlt (Nat.not_lt_zero i), fun _ => (hitem i item h).1⟩,
      ?_, ?_⟩ rfl rfl
  · exact (List.countP_eq_zero.mpr fun item hmem => by simp [isPending, hpending item hmem]).symm
  · exact (List.countP_eq_zero.mpr fun item hmem => by simp [isError, hpending item hmem]).symm

/-- A command that rejected fails every item. -/
theorem valid_stopped (message : Text) (hordered : Ordered work s.results)
    (hlength : s.results.length = min s.offset work.length)
    (hmarked : Marked work (reported s.results 0) s.job) (hcalled : s.called = s.cancelling) :
    Valid work (finish (stopped message s)) := by
  obtain ⟨hfailed, -⟩ := marked_fill (stopped message s).job .error
    (fun _ => some message) hmarked (by decide) rfl rfl rfl rfl
  obtain ⟨hfilled, hdone, hstate⟩ := marked_finish hfailed hcalled
  refine ⟨hordered, hlength, nofun, nofun, fun _ => ⟨hfilled.mono fun i status hi hold => ?_, hdone,
    hstate⟩⟩
  obtain ⟨old, ⟨first, hfirst, rfl⟩, rfl⟩ := hold
  change outcome { s with threw := true } i _
  rw [outcome, if_pos rfl, if_pos (hfirst.2 (Nat.zero_le i)), if_neg (by decide)]

theorem ip_answerOf (res : ExecResult) (ip : Text) : (answerOf res ip).ip = ip := by
  rw [answerOf]
  cases hfound : (parseFrames res.stdout).findRev? (·.ip == ip) with
  | none => rfl
  | some result =>
    rw [List.findRev?_eq_find?_reverse] at hfound
    simpa using List.find?_some hfound

theorem valid_answered (size : Nat) (res : Except Text ExecResult) (connected : Bool)
    (h : Valid work s) (hdistinct : (work.map HostSteps.ip).Nodup) (hphase : s.phase = .contacting) :
    Valid work (answered work size res connected s) := by
  obtain ⟨hmarked, hthrew, hcalled⟩ := h.contacting hphase
  cases res with
  | error message => exact valid_stopped message h.ordered h.length hmarked hcalled
  | ok res =>
    have hlength := h.length
    refine valid_boundary connected hdistinct (fun i result hresult => ?_) ?_ ?_ hthrew hcalled
    · dsimp only at hresult
      rw [List.getElem?_append] at hresult
      split_ifs at hresult with hi
      · exact h.ordered i result hresult
      · rw [List.getElem?_map, Option.map_eq_some_iff] at hresult
        obtain ⟨entry, hentry, rfl⟩ := hresult
        rw [List.getElem?_take] at hentry
        split_ifs at hentry with hsize
        rw [List.getElem?_drop] at hentry
        have hbound := (List.getElem?_eq_some_iff.mp hentry).1
        have hindex : s.offset + (i - s.results.length) = i := by omega
        rw [hindex] at hentry
        exact ⟨entry, hentry, ip_answerOf res entry.ip⟩
    · simp only [List.length_append, List.length_map, List.length_take, List.length_drop]
      omega
    · exact hmarked.mono fun i status _ hold => ⟨fun hlt => absurd hlt (Nat.not_lt_zero i), hold.2⟩

theorem valid_cancel (h : Valid work s) : Valid work (cancel s) := by
  rw [cancel]
  split_ifs with hphase
  · exact h
  · refine ⟨h.ordered, h.length, fun hc => ?_, fun hr => ?_, fun hf => absurd hf hphase⟩
    · obtain ⟨hmarked, hthrew, -⟩ := h.contacting hc
      exact ⟨hmarked, hthrew, rfl⟩
    · obtain ⟨hmarked, hthrew, -⟩ := h.refreshing hr
      exact ⟨hmarked, hthrew, rfl⟩

theorem valid_step {maxParallel : Int} (hdistinct : (work.map HostSteps.ip).Nodup) (s : JobRun)
    (event : Event) (h : Valid work s) (henabled : Enabled s event) :
    Valid work (step work maxParallel s event) := by
  cases event with
  | answered res connected => exact valid_answered _ res connected h hdistinct henabled
  | refreshed =>
    obtain ⟨hmarked, hthrew, hcalled⟩ := h.refreshing henabled
    exact valid_finish h.ordered h.length hmarked hthrew hcalled
  | cancel => exact valid_cancel h

/-! ### The verdict -/

/-- The machines that were contacted, with their answers. -/
def contacted (work : List HostSteps) (s : JobRun) : List (HostSteps × FanoutResult) :=
  work.zip s.results

/-- The machine reported every step successful. -/
def Told (c : HostSteps × FanoutResult) : Prop :=
  ∀ step ∈ c.1.steps, ∃ r ∈ parseSteps c.2.stdout, r.name = step.name ∧ r.rc = 0

instance (c : HostSteps × FanoutResult) : Decidable (Told c) :=
  inferInstanceAs (Decidable (∀ step ∈ c.1.steps, _))

structure Honest (work : List HostSteps) (s : JobRun) : Prop where
  items : ∀ entry ∈ work, s.job.items.countP (fun item => item.name = entry.ip) = 1
  done : s.job.done = s.job.total
  ok : ∀ item ∈ s.job.items, item.status = .ok → ∃ c ∈ contacted work s, c.1.ip = item.name ∧ Told c
  failed : s.job.failed = s.job.items.countP isError
  allOk : s.job.state = .done → ∀ entry ∈ work, ∃ item ∈ s.job.items,
    item.name = entry.ip ∧ item.status = .ok
  noneOk : s.job.state = .failed → ∀ item ∈ s.job.items, item.status ≠ .ok
  cancelled : s.job.state = .cancelled → s.called = true

/-- The job has an item for every machine, and either a command rejected, or no machine left a
step out of a successful report and the fan-out ended early only by a cancel or behind a failure. -/
def Sound (work : List HostSteps) (s : JobRun) : Prop :=
  work.length ≤ MAX_JOB_ITEMS ∧ (s.threw = true ∨
    (∀ c ∈ contacted work s, (judge c.2).1 = true → Told c) ∧
      (s.called = true ∨ (∃ c ∈ contacted work s, (judge c.2).1 = false) ∨
        s.results.length = work.length))

theorem mem_contacted {c : HostSteps × FanoutResult} (h : c ∈ contacted work s) :
    ∃ i : Nat, work[i]? = some c.1 ∧ s.results[i]? = some c.2 := by
  obtain ⟨i, hi⟩ := List.mem_iff_getElem?.mp h
  exact ⟨i, List.getElem?_zip_eq_some.mp hi⟩

theorem contacted_mem {entry : HostSteps} {result : FanoutResult} (hentry : work[i]? = some entry)
    (hresult : s.results[i]? = some result) : (entry, result) ∈ contacted work s :=
  List.mem_of_getElem? (List.getElem?_zip_eq_some.mpr ⟨hentry, hresult⟩)

theorem judged_eq_ok {result : FanoutResult} : judged result = .ok ↔ (judge result).1 = true := by
  unfold judged
  split_ifs with h <;> simp [h]

theorem judged_eq_error {result : FanoutResult} : judged result = .error ↔ (judge result).1 = false := by
  unfold judged
  split_ifs with h <;> simp [h]

section Finished
variable (hmarked : Marked work (outcome s) s.job)
include hmarked

/-- The item of a machine within the limit. -/
theorem item_of_machine {entry : HostSteps} (hentry : work[i]? = some entry) (hi : i < MAX_JOB_ITEMS) :
    ∃ item, s.job.items[i]? = some item ∧ item.name = entry.ip ∧ outcome s i item.status := by
  have hlt := (List.getElem?_eq_some_iff.mp hentry).1
  have hlength := hmarked.length
  have hitem : s.job.items[i]? = some _ := List.getElem?_eq_getElem (by omega)
  obtain ⟨entry', hentry', hname⟩ := hmarked.name i _ hitem
  obtain rfl := Option.some.inj (hentry.symm.trans hentry')
  exact ⟨_, hitem, hname, hmarked.status i _ hitem⟩

/-- An item is ok only by the answer of its machine. -/
theorem answer_of_ok (hitem : s.job.items[i]? = some item) (hok : item.status = .ok) :
    s.threw = false ∧ ∃ entry result, work[i]? = some entry ∧ s.results[i]? = some result ∧
      item.name = entry.ip ∧ (judge result).1 = true := by
  obtain ⟨entry, hentry, hname⟩ := hmarked.name i item hitem
  have hout := hmarked.status i item hitem
  rw [outcome, hok] at hout
  by_cases hthrew : s.threw = true
  · rw [if_pos hthrew] at hout
    cases hout
  · rw [if_neg hthrew] at hout
    refine ⟨Bool.eq_false_iff.mpr hthrew, entry, ?_⟩
    by_cases hi : i < s.results.length
    · have hresult : s.results[i]? = some s.results[i] := List.getElem?_eq_getElem hi
      exact ⟨_, hentry, hresult, hname, judged_eq_ok.mp (hout.1 _ hresult).symm⟩
    · have hleft := hout.2 (by omega)
      split_ifs at hleft

/-- An item is in error when a command rejected, or by the answer of its machine. -/
theorem answer_of_error (hitem : s.job.items[i]? = some item) (herror : item.status = .error)
    (hthrew : s.threw = false) : ∃ entry result, work[i]? = some entry ∧
      s.results[i]? = some result ∧ (judge result).1 = false := by
  obtain ⟨entry, hentry, -⟩ := hmarked.name i item hitem
  have hout := hmarked.status i item hitem
  rw [outcome, herror, hthrew, if_neg (by simp)] at hout
  by_cases hi : i < s.results.length
  · have hresult : s.results[i]? = some s.results[i] := List.getElem?_eq_getElem hi
    exact ⟨entry, _, hentry, hresult, judged_eq_error.mp (hout.1 _ hresult).symm⟩
  · have hleft := hout.2 (by omega)
    split_ifs at hleft

/-- Without a failure no item is in error. -/
theorem no_error (hfailed : s.job.failed = 0) (hitem : s.job.items[i]? = some item) :
    item.status ≠ .error := by
  have hnone := List.countP_eq_zero.mp (hmarked.failed.symm.trans hfailed) item
    (List.mem_of_getElem? hitem)
  simpa [isError] using hnone

end Finished

theorem index_inj {j : Nat} {entry other : HostSteps} (hdistinct : (work.map HostSteps.ip).Nodup)
    (hi : work[i]? = some entry) (hj : work[j]? = some other) (hip : entry.ip = other.ip) : i = j := by
  have hlt := (List.getElem?_eq_some_iff.mp hi).1
  refine (List.getElem?_inj (by simpa using hlt) hdistinct).mp ?_
  simp [hi, hj, hip]

theorem sound_of_honest (hvalid : Valid work s) (hdistinct : (work.map HostSteps.ip).Nodup)
    (hfinished : s.phase = .finished) (h : Honest work s) : Sound work s := by
  obtain ⟨hmarked, hdone, hstate⟩ := hvalid.finished hfinished
  have hfew : work.length ≤ MAX_JOB_ITEMS := by
    by_contra hmore
    have hlast : work[MAX_JOB_ITEMS]? = some _ := List.getElem?_eq_getElem (by omega)
    have hone := h.items _ (List.mem_of_getElem? hlast)
    obtain ⟨item, hmem, hname⟩ := 
      List.countP_pos_iff.mp (Nat.lt_of_lt_of_eq Nat.one_pos hone.symm)
    obtain ⟨j, hj⟩ := List.mem_iff_getElem?.mp hmem
    obtain ⟨entry, hentry, hip⟩ := hmarked.name j item hj
    have hsame := index_inj hdistinct hentry hlast (by simpa [hip] using hname)
    have hlt := (List.getElem?_eq_some_iff.mp hj).1
    have hlength := hmarked.length
    omega
  have hwithin : ∀ {i : Nat} {entry}, work[i]? = some entry → i < MAX_JOB_ITEMS := fun hentry => by
    have := (List.getElem?_eq_some_iff.mp hentry).1
    omega
  refine ⟨hfew, ?_⟩
  by_cases hthrew : s.threw = true
  · exact .inl hthrew
  refine .inr ⟨fun c hc hok => ?_, ?_⟩
  · obtain ⟨i, hentry, hresult⟩ := mem_contacted hc
    obtain ⟨item, hitem, hname, hout⟩ := item_of_machine hmarked hentry (hwithin hentry)
    rw [outcome, if_neg hthrew] at hout
    have hstatus := (hout.1 _ hresult).trans (judged_eq_ok.mpr hok)
    obtain ⟨c', hc', hip, htold⟩ := h.ok item (List.mem_of_getElem? hitem) hstatus
    obtain ⟨j, hentry', hresult'⟩ := mem_contacted hc'
    obtain rfl := index_inj hdistinct hentry' hentry (hip.trans hname)
    have hsame : c' = c := Prod.ext (Option.some.inj (hentry'.symm.trans hentry))
      (Option.some.inj (hresult'.symm.trans hresult))
    rwa [← hsame]
  · by_cases hcalled : s.called = true
    · exact .inl hcalled
    by_cases hfailing : ∃ c ∈ contacted work s, (judge c.2).1 = false
    · exact .inr (.inl hfailing)
    refine .inr (.inr ?_)
    have hlength := hvalid.length
    by_contra hshort
    have hzero : s.job.failed = 0 := by
      rw [hmarked.failed, List.countP_eq_zero]
      intro item hmem herror
      obtain ⟨j, hj⟩ := List.mem_iff_getElem?.mp hmem
      obtain ⟨entry, result, hentry, hresult, hno⟩ := answer_of_error hmarked hj
        (by simpa [isError] using herror) (Bool.eq_false_iff.mpr hthrew)
      exact hfailing ⟨_, contacted_mem hentry hresult, hno⟩
    have hentry : work[s.results.length]? = some _ := List.getElem?_eq_getElem (by omega)
    rw [verdictOf, if_neg hcalled, if_pos hzero] at hstate
    obtain ⟨item, hmem, hname, hok⟩ := h.allOk hstate _ (List.mem_of_getElem? hentry)
    obtain ⟨j, hj⟩ := List.mem_iff_getElem?.mp hmem
    obtain ⟨-, entry', result, hentry', hresult, hname', -⟩ := answer_of_ok hmarked hj hok
    obtain rfl := index_inj hdistinct hentry' hentry (hname'.symm.trans hname)
    have hlt := (List.getElem?_eq_some_iff.mp hresult).1
    omega

theorem honest_of_sound (hvalid : Valid work s) (hdistinct : (work.map HostSteps.ip).Nodup)
    (hfinished : s.phase = .finished) (h : Sound work s) : Honest work s := by
  obtain ⟨hfew, hsound⟩ := h
  obtain ⟨hmarked, hdone, hstate⟩ := hvalid.finished hfinished
  have hitem : ∀ entry ∈ work, ∃ i item, work[i]? = some entry ∧ s.job.items[i]? = some item ∧
      item.name = entry.ip ∧ outcome s i item.status := by
    intro entry hmem
    obtain ⟨i, hi⟩ := List.mem_iff_getElem?.mp hmem
    have hlt := (List.getElem?_eq_some_iff.mp hi).1
    obtain ⟨item, hitem, hname, hout⟩ := item_of_machine hmarked hi (by omega)
    exact ⟨i, item, hi, hitem, hname, hout⟩
  refine ⟨fun entry hmem => ?_, ?_, fun item hmem hok => ?_, hmarked.failed, fun hd entry hmem => ?_,
    fun hf item hmem hok => ?_, fun hc => ?_⟩
  · obtain ⟨i, item, -, hget, hname, -⟩ := hitem entry hmem
    have hcount : s.job.items.countP (fun item => item.name = entry.ip) =
        (s.job.items.map JobItem.name).count entry.ip := by
      rw [List.count, List.countP_map]
      exact List.countP_congr fun item _ => by simp
    rw [hcount]
    refine List.count_eq_one_of_mem (hmarked.nodup hdistinct) ?_
    rw [← hname]
    exact List.mem_map_of_mem (List.mem_of_getElem? hget)
  · rw [hdone, hmarked.length, hmarked.total]
  · obtain ⟨i, hi⟩ := List.mem_iff_getElem?.mp hmem
    obtain ⟨hthrew, entry, result, hentry, hresult, hname, hjudge⟩ := answer_of_ok hmarked hi hok
    obtain hthrew' | ⟨hfull, -⟩ := hsound
    · rw [hthrew] at hthrew'
      cases hthrew'
    · exact ⟨(entry, result), contacted_mem hentry hresult, hname.symm,
        hfull _ (contacted_mem hentry hresult) hjudge⟩
  · obtain ⟨i, item, hentry, hget, hname, hout⟩ := hitem entry hmem
    rw [hd, verdictOf] at hstate
    have hquiet : s.called ≠ true ∧ s.job.failed = 0 := by
      split_ifs at hstate with hcalled hzero
      exact ⟨hcalled, hzero⟩
    have hclean := no_error hmarked hquiet.2 hget
    rw [outcome] at hout
    by_cases hthrew : s.threw = true
    · rw [if_pos hthrew] at hout
      exact absurd hout hclean
    rw [if_neg hthrew] at hout
    obtain hthrew' | ⟨-, hcalled | ⟨c, hc, hno⟩ | hall⟩ := hsound
    · exact absurd hthrew' hthrew
    · exact absurd hcalled hquiet.1
    · obtain ⟨j, hentry', hresult'⟩ := mem_contacted hc
      obtain ⟨other, hother, -, hout'⟩ := item_of_machine hmarked hentry' (by
        have := (List.getElem?_eq_some_iff.mp hentry').1
        omega)
      rw [outcome, if_neg hthrew] at hout'
      exact absurd ((hout'.1 _ hresult').trans (judged_eq_error.mpr hno))
        (no_error hmarked hquiet.2 hother)
    · have hlt := (List.getElem?_eq_some_iff.mp hentry).1
      have hresult : s.results[i]? = some _ := List.getElem?_eq_getElem (by omega)
      refine ⟨item, List.mem_of_getElem? hget, hname, ?_⟩
      have hstatus := hout.1 _ hresult
      rw [hstatus] at hclean ⊢
      unfold judged at hclean ⊢
      split_ifs at hclean ⊢ with hverdict
      · rfl
      · exact absurd rfl hclean
  · rw [hf, verdictOf] at hstate
    have hall : s.job.failed = s.job.total := by
      split_ifs at hstate with _ _ hall
      exact hall
    have hevery : s.job.items.countP isError = s.job.items.length := by
      rw [← hmarked.failed, hall, hmarked.total, hmarked.length]
    have herror := List.countP_eq_length.mp hevery item hmem
    simp [isError, hok] at herror
  · rw [hc, verdictOf] at hstate
    split_ifs at hstate with hcalled
    exact hcalled

/-- The job after its events. -/
def after (work : List HostSteps) (maxParallel : Int) (connected : Bool) (events : List Event) :
    JobRun :=
  run (step work maxParallel) (start work connected) events

/-- Three machines that are told to restart one unit. -/
def three : List HostSteps :=
  ["10.0.0.5", "10.0.0.6", "10.0.0.7"].map fun ip =>
    ⟨js ip, [⟨js "nginx", js "systemctl restart nginx"⟩]⟩

/-- The output of a batch of machines that did so. -/
def restarted (ips : List String) : Except Text ExecResult :=
  .ok ⟨js (String.intercalate "\n" (ips.map fun ip => "===BMHOST===\n" ++ ip ++
    "\n===BMRC===\n0\n===BMOUT===\n===BMSTEP===\nname=nginx\nrc=0\n===BMSAY===\n\n===BMERR===\n")), []⟩

def wholeRun : List Event :=
  [.answered (restarted ["10.0.0.5", "10.0.0.6"]) true, .answered (restarted ["10.0.0.7"]) true, .refreshed]

end BoredManager.Fleet.Jobs
