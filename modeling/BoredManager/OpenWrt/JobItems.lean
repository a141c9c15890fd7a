import BoredManager.OpenWrt.Jobs

/-! The items of one job: its counters agree with them at every await, and the
finished job accounts for each of them. -/
namespace BoredManager.OpenWrt
open BoredManager.Js

variable {W : Type*}

def JobItemStatus.isTerminal : JobItemStatus → Bool
  | .pending | .running => false
  | _ => true

def itemLabel (item : JobItem) : Nat × Text := (item.idx, item.name)

def specLabels (spec : JobSpec W) : List (Nat × Text) :=
  spec.items.mapIdx fun idx item => (idx, item.name)

/-- The account a finished job gives of its items; `requested` says that its
cancellation was requested. -/
structure Accounted (spec : JobSpec W) (requested : Prop) (job : OpenWrtJob) : Prop where
  labels : job.items.map itemLabel = specLabels spec
  terminal : ∀ item ∈ job.items, item.status.isTerminal = true
  total : job.total = spec.items.length
  done : job.done = job.total
  failed : job.failed = job.items.countP fun item => item.status = .error
  cancelled_iff : job.state = .cancelled ↔ requested
  done_iff : ¬ requested → (job.state = .done ↔ ∀ item ∈ job.items, item.status ≠ .error)
  done_ok : job.state = .done → ∀ item ∈ job.items, item.status = .ok ∨ item.status = .cancelled
  failed_iff : ¬ requested →
    (job.state = .failed ↔ job.items ≠ [] ∧ ∀ item ∈ job.items, item.status = .error)
  partial_iff : ¬ requested →
    (job.state = .partialDone ↔ job.state ≠ .done ∧ job.state ≠ .failed)

namespace LiveJob

/-- The counters of a job object agree with its items. -/
structure Balanced (spec : JobSpec W) (j : LiveJob W) : Prop where
  labels : j.items.map itemLabel = specLabels spec
  total : j.total = spec.items.length
  onError : j.onError = spec.onError
  done : j.done = j.settled.length
  failed : j.failed = j.settled.countP fun item => item.status = .error
  terminal : ∀ item ∈ j.settled, item.status.isTerminal = true
  unsettled : ∀ e ∈ j.rest, isUnsettled e.1 = true
  skipped : ∀ item ∈ j.settled, item.status = .skipped → 0 < j.failed
  aborted : j.aborted = true → 0 < j.failed

/-- A failure under `abort` sets the flag that stops the loop. -/
def Aborts (j : LiveJob W) : Prop := j.onError = .abort → 0 < j.failed → j.aborted = true

/-- The runner waits for the first item that is not settled. -/
def Waits (j : LiveJob W) : Prop :=
  (∃ item work rest, j.rest = (item, work) :: rest) ∧ j.aborted = false ∧ j.Aborts

theorem Balanced.updateProgress {spec : JobSpec W} {j : LiveJob W} (h : j.Balanced spec) :
    j.updateProgress.Balanced spec :=
  ⟨h.labels, h.total, h.onError, h.done, h.failed, h.terminal, h.unsettled, h.skipped,
    h.aborted⟩

/-- Another settled item, or another first item with the same label. -/
theorem loop_balanced {spec : JobSpec W} {cancelled : Bool} {now : Int} {j : LiveJob W}
    {rest : List (JobItem × W)} (h : { j with rest }.Balanced spec) :
    (loop cancelled now j rest).Balanced spec := by
  induction rest generalizing j with
  | nil => exact ⟨h.labels, h.total, h.onError, h.done, h.failed, h.terminal, h.unsettled,
      h.skipped, h.aborted⟩
  | cons e rest ih =>
    obtain ⟨item, work⟩ := e
    have hlabels := h.labels
    have hdone := h.done
    have hfailed := h.failed
    simp only [items, List.map_append, List.map_cons] at hlabels
    simp only [loop]
    split
    · rename_i hstop
      refine ih ⟨?_, h.total, h.onError, ?_, ?_, ?_, ?_, ?_, h.aborted⟩
      · simpa [items, itemLabel] using hlabels
      · simpa using hdone
      · have hne : (if cancelled = true then JobItemStatus.cancelled else .skipped) ≠ .error := by
          split <;> decide
        simpa [List.countP_append, hne] using hfailed
      · intro i hi
        rcases List.mem_append.mp hi with hi | hi
        · exact h.terminal i hi
        · rw [List.mem_singleton.mp hi]
          cases cancelled <;> rfl
      · exact fun e he => h.unsettled e (List.mem_cons_of_mem _ he)
      · intro i hi hs
        rcases List.mem_append.mp hi with hi | hi
        · exact h.skipped i hi hs
        · rw [List.mem_singleton.mp hi] at hs
          cases cancelled with
          | true => cases hs
          | false => exact h.aborted (by simpa using hstop)
    · refine Balanced.updateProgress ⟨?_, h.total, h.onError, hdone, hfailed, h.terminal, ?_,
        h.skipped, h.aborted⟩
      · simpa [items, itemLabel] using hlabels
      · intro e he
        rcases List.mem_cons.mp he with rfl | he
        · rfl
        · exact h.unsettled e (List.mem_cons_of_mem _ he)

/-- The loop stops at an item only when neither the flag nor a failure stops it. -/
theorem loop_cases (cancelled : Bool) (now : Int) {j : LiveJob W} (rest : List (JobItem × W))
    (h : j.Aborts) :
    ((loop cancelled now j rest).waiting = true ∧ cancelled = false ∧
      (loop cancelled now j rest).Waits) ∨
    ((loop cancelled now j rest).waiting = false ∧ (loop cancelled now j rest).rest = []) := by
  induction rest generalizing j with
  | nil => exact .inr ⟨rfl, rfl⟩
  | cons e rest ih =>
    simp only [loop]
    split
    · exact ih h
    · rename_i hgo
      simp only [Bool.or_eq_true, not_or, Bool.not_eq_true] at hgo
      exact .inl ⟨rfl, hgo.1, ⟨_, _, _, rfl⟩, hgo.2, h⟩

theorem loop_fields (cancelled : Bool) (now : Int) (j : LiveJob W) (rest : List (JobItem × W)) :
    (loop cancelled now j rest).id = j.id ∧
    (loop cancelled now j rest).generation = j.generation ∧
    ∀ item ∈ j.settled, item ∈ (loop cancelled now j rest).settled := by
  induction rest generalizing j with
  | nil => exact ⟨rfl, rfl, fun _ h => h⟩
  | cons e rest ih =>
    simp only [loop]
    split
    · obtain ⟨hid, hgen, hsettled⟩ := ih _
      exact ⟨hid, hgen, fun item hi => hsettled item (List.mem_append_left _ hi)⟩
    · exact ⟨rfl, rfl, fun _ h => h⟩

theorem isUnsettled_of_isTerminal {item : JobItem} (h : item.status.isTerminal = true) :
    isUnsettled item = false := by
  unfold isUnsettled
  cases hs : item.status <;> simp_all [JobItemStatus.isTerminal]

/-- The `catch` leaves the settled items alone and fails every other one. -/
theorem stopUnexpectedly_settled {spec : JobSpec W} {j : LiveJob W} (h : j.Balanced spec) :
    j.stopUnexpectedly.settled = j.settled ++ j.rest.map fun e =>
      { e.1 with status := .error, message := some (js "job runner stopped unexpectedly") } := by
  simp only [stopUnexpectedly, items, List.map_append, List.map_map]
  congr 1
  · nth_rewrite 2 [← List.map_id j.settled]
    refine List.map_congr_left fun item hi => ?_
    simp [isUnsettled_of_isTerminal (h.terminal item hi)]
  · refine List.map_congr_left fun e he => ?_
    simp [h.unsettled e he]

theorem countP_isUnsettled {spec : JobSpec W} {j : LiveJob W} (h : j.Balanced spec) :
    j.items.countP isUnsettled = j.rest.length := by
  have hsettled : j.settled.countP isUnsettled = 0 := by
    rw [List.countP_eq_zero]
    intro item hi
    simp [isUnsettled_of_isTerminal (h.terminal item hi)]
  have hrest : (j.rest.map Prod.fst).countP isUnsettled = (j.rest.map Prod.fst).length := by
    rw [List.countP_eq_length]
    intro item hi
    obtain ⟨e, he, rfl⟩ := List.mem_map.mp hi
    exact h.unsettled e he
  rw [items, List.countP_append, hsettled, hrest, List.length_map]
  omega

theorem stopUnexpectedly_balanced {spec : JobSpec W} {j : LiveJob W} (h : j.Balanced spec) :
    j.stopUnexpectedly.Balanced spec := by
  have hsettled := stopUnexpectedly_settled h
  have hcount := countP_isUnsettled h
  refine ⟨?_, h.total, h.onError, ?_, ?_, ?_, ?_, ?_, ?_⟩
  · rw [← h.labels]
    simp only [items, hsettled]
    simp [stopUnexpectedly, itemLabel, Function.comp_def]
  · rw [hsettled, List.length_append, List.length_map, ← h.done]
    simp [stopUnexpectedly, hcount]
  · have hrest : (j.rest.map fun e => { e.1 with
        status := JobItemStatus.error
        message := some (js "job runner stopped unexpectedly") }).countP
          (fun item => item.status = .error) = j.rest.length := by
      simp [List.countP_map, Function.comp_def]
    rw [hsettled, List.countP_append, hrest, ← h.failed]
    simp [stopUnexpectedly, hcount]
  · rw [hsettled]
    intro item hi
    rcases List.mem_append.mp hi with hi | hi
    · exact h.terminal item hi
    · obtain ⟨e, -, rfl⟩ := List.mem_map.mp hi
      rfl
  · simp [stopUnexpectedly]
  · rw [hsettled]
    intro item hi hs
    rcases List.mem_append.mp hi with hi | hi
    · exact Nat.lt_of_lt_of_le (h.skipped item hi hs) (Nat.le_add_right _ _)
    · obtain ⟨e, -, rfl⟩ := List.mem_map.mp hi
      cases hs
  · exact fun ha => Nat.lt_of_lt_of_le (h.aborted ha) (Nat.le_add_right _ _)

theorem endItem_label (cancelled : Bool) (outcome : Outcome) (item : JobItem) :
    itemLabel (endItem cancelled outcome item) = itemLabel item := by
  unfold endItem
  split <;> rfl

/-- Exactly a failure ends an item with `error`. -/
theorem endItem_status (cancelled : Bool) (outcome : Outcome) (item : JobItem) :
    ((failureOf cancelled outcome).isSome = true ∧
      (endItem cancelled outcome item).status = .error) ∨
    ((failureOf cancelled outcome).isSome = false ∧
      ((endItem cancelled outcome item).status = .ok ∨
        (endItem cancelled outcome item).status = .cancelled)) := by
  cases outcome with
  | ok note => exact .inr ⟨rfl, .inl rfl⟩
  | cancelledError => exact .inr ⟨rfl, .inr rfl⟩
  | error message =>
    cases cancelled with
    | true => exact .inr ⟨rfl, .inr rfl⟩
    | false => exact .inl ⟨rfl, rfl⟩

theorem endItem_ok {cancelled : Bool} {outcome : Outcome} {item : JobItem}
    (h : (endItem cancelled outcome item).status = .ok) : ∃ note, outcome = .ok note := by
  cases outcome with
  | ok note => exact ⟨note, rfl⟩
  | cancelledError => cases h
  | error message => cases cancelled <;> cases h

theorem endItem_cancelled {cancelled : Bool} {outcome : Outcome} {item : JobItem}
    (h : (endItem cancelled outcome item).status = .cancelled) :
    cancelled = true ∨ outcome = .cancelledError := by
  cases outcome with
  | ok note => cases h
  | cancelledError => exact .inr rfl
  | error message =>
    cases cancelled with
    | true => exact .inl rfl
    | false => cases h

theorem settleItem_eq {j : LiveJob W} {item : JobItem} {work : W} {rest : List (JobItem × W)}
    (cancelled : Bool) (outcome : Outcome) (now : Int) (h : j.rest = (item, work) :: rest) :
    (j.settleItem cancelled outcome now).settled = j.settled ++
        [{ endItem cancelled outcome item with ms := some (now - j.itemStartedAt) }] ∧
    (j.settleItem cancelled outcome now).rest = rest ∧
    (j.settleItem cancelled outcome now).id = j.id ∧
    (j.settleItem cancelled outcome now).generation = j.generation := by
  unfold settleItem
  rw [h]
  exact ⟨rfl, rfl, rfl, rfl⟩

theorem settleItem_balanced {spec : JobSpec W} {j : LiveJob W} {item : JobItem} {work : W}
    {rest : List (JobItem × W)} (cancelled : Bool) (outcome : Outcome) (now : Int)
    (h : j.Balanced spec) (hrest : j.rest = (item, work) :: rest) :
    (j.settleItem cancelled outcome now).Balanced spec := by
  have hlabels := h.labels
  have hlabel := endItem_label cancelled outcome item
  have hstatus := endItem_status cancelled outcome item
  have hmono : j.failed ≤ if (failureOf cancelled outcome).isSome then j.failed + 1
      else j.failed := by split <;> omega
  simp only [items, hrest, List.map_append, List.map_cons] at hlabels
  unfold settleItem
  rw [hrest]
  refine Balanced.updateProgress ⟨?_, h.total, h.onError, ?_, ?_, ?_, ?_, ?_, ?_⟩
  · rw [← hlabels, ← hlabel]
    simp [items, itemLabel]
  · simp [h.done]
  · rcases hstatus with ⟨hf, hs⟩ | ⟨hf, hs | hs⟩ <;>
      simp [List.countP_append, hf, hs, h.failed]
  · intro i hi
    rcases List.mem_append.mp hi with hi | hi
    · exact h.terminal i hi
    · rw [List.mem_singleton.mp hi]
      rcases hstatus with ⟨-, hs⟩ | ⟨-, hs | hs⟩ <;> simp [hs, JobItemStatus.isTerminal]
  · exact fun e he => h.unsettled e (hrest ▸ List.mem_cons_of_mem _ he)
  · intro i hi hs
    rcases List.mem_append.mp hi with hi | hi
    · exact Nat.lt_of_lt_of_le (h.skipped i hi hs) hmono
    · rw [List.mem_singleton.mp hi] at hs
      rcases hstatus with ⟨-, hs'⟩ | ⟨-, hs' | hs'⟩ <;> simp [hs'] at hs
  · intro ha
    simp only [Bool.or_eq_true, Bool.and_eq_true] at ha
    rcases ha with ha | ⟨hf, -⟩
    · exact Nat.lt_of_lt_of_le (h.aborted ha) hmono
    · simp [hf]

theorem settleItem_aborts {j : LiveJob W} (cancelled : Bool) (outcome : Outcome) (now : Int)
    (h : j.Aborts) : (j.settleItem cancelled outcome now).Aborts := by
  unfold settleItem
  split
  · exact h
  · intro honError hfailed
    simp only [updateProgress] at honError hfailed ⊢
    cases hf : (failureOf cancelled outcome).isSome with
    | true => simp [honError]
    | false => simp [h honError (by simpa [hf] using hfailed)]

/-- The work that is in flight or still to come. -/
def works (j : LiveJob W) : List W := j.rest.map Prod.snd

/-- The job when the runner reaches its next await, or the end. -/
structure Resumes (spec : JobSpec W) (cancelled : Bool) (j next : LiveJob W) : Prop where
  balanced : next.Balanced spec
  waits : (next.waiting = true ∧ cancelled = false ∧ next.Waits) ∨
    (next.waiting = false ∧ next.rest = [])
  id : next.id = j.id
  generation : next.generation = j.generation
  settled : ∀ item ∈ j.settled, item ∈ next.settled
  cancelledItem : ∀ item ∈ next.settled, item.status = .cancelled →
    item ∈ j.settled ∨ cancelled = true
  works : ∀ w ∈ next.works, w ∈ j.works
  works_eq : (∀ item ∈ next.settled, item.status = .ok) → next.works = j.works

theorem stopUnexpectedly_resumes {spec : JobSpec W} {j : LiveJob W} (cancelled : Bool)
    (h : j.Balanced spec) : Resumes spec cancelled j j.stopUnexpectedly := by
  have hsettled := stopUnexpectedly_settled h
  refine ⟨stopUnexpectedly_balanced h, .inr ⟨rfl, rfl⟩, rfl, rfl, ?_, ?_, by
    simp [works, stopUnexpectedly], ?_⟩
  · intro item hi
    rw [hsettled]
    exact List.mem_append_left _ hi
  · intro item hi hs
    rw [hsettled] at hi
    rcases List.mem_append.mp hi with hi | hi
    · exact .inl hi
    · obtain ⟨e, -, rfl⟩ := List.mem_map.mp hi
      cases hs
  · intro hok
    cases hrest : j.rest with
    | nil => simp [works, hrest, stopUnexpectedly]
    | cons e rest =>
      have := hok { e.1 with
        status := .error
        message := some (js "job runner stopped unexpectedly") } (by rw [hsettled, hrest]; simp)
      cases this

theorem loop_cancelled (cancelled : Bool) (now : Int) (j : LiveJob W)
    (rest : List (JobItem × W)) : ∀ item ∈ (loop cancelled now j rest).settled,
      item.status = .cancelled → item ∈ j.settled ∨ cancelled = true := by
  induction rest generalizing j with
  | nil => exact fun item hi _ => .inl hi
  | cons e rest ih =>
    simp only [loop]
    split
    · intro item hi hs
      rcases ih _ item hi hs with hi | hc
      · rcases List.mem_append.mp hi with hi | hi
        · exact .inl hi
        · rw [List.mem_singleton.mp hi] at hs
          cases cancelled with
          | true => exact .inr rfl
          | false => cases hs
      · exact .inr hc
    · exact fun item hi _ => .inl hi

theorem loop_works (cancelled : Bool) (now : Int) (j : LiveJob W) (rest : List (JobItem × W)) :
    (∀ w ∈ (loop cancelled now j rest).works, w ∈ rest.map Prod.snd) ∧
    ((∀ item ∈ (loop cancelled now j rest).settled, item.status = .ok) →
      (loop cancelled now j rest).works = rest.map Prod.snd) := by
  induction rest generalizing j with
  | nil => exact ⟨by simp [loop, works], fun _ => rfl⟩
  | cons e rest ih =>
    simp only [loop]
    split
    · refine ⟨fun w hw => List.mem_cons_of_mem _ ((ih _).1 w hw), fun hok => ?_⟩
      have := hok _ ((loop_fields cancelled now _ rest).2.2 _
        (List.mem_append_right _ (List.mem_singleton_self _)))
      cases cancelled <;> cases this
    · exact ⟨fun w hw => hw, fun _ => rfl⟩

theorem advance_resumes {spec : JobSpec W} {j : LiveJob W} (cancelled emitThrows : Bool)
    (now : Int) (h : j.Balanced spec) (habort : j.Aborts) :
    Resumes spec cancelled j (j.advance cancelled emitThrows now) := by
  have hloop : (loop cancelled now j j.rest).Balanced spec := loop_balanced h
  obtain ⟨hid, hgen, hmem⟩ := loop_fields cancelled now j j.rest
  have hcancelled := loop_cancelled cancelled now j j.rest
  obtain ⟨hsub, hworks⟩ := loop_works cancelled now j j.rest
  unfold advance
  dsimp only
  split
  · have hstop := stopUnexpectedly_resumes cancelled hloop
    refine ⟨hstop.balanced, hstop.waits, hid, hgen, fun item hi => hstop.settled item (hmem item hi),
      ?_, fun w hw => hsub w (hstop.works w hw), ?_⟩
    · intro item hi hs
      rcases hstop.cancelledItem item hi hs with hi | hc
      · exact hcancelled item hi hs
      · exact .inr hc
    · intro hok
      rw [hstop.works_eq hok]
      exact hworks fun item hi => hok item (hstop.settled item hi)
  · exact ⟨hloop, loop_cases cancelled now j.rest habort, hid, hgen, hmem, hcancelled, hsub, hworks⟩

theorem Balanced.idx_eq {spec : JobSpec W} {j : LiveJob W} {item : JobItem} {n : Nat}
    (h : j.Balanced spec) (hn : j.items[n]? = some item) : item.idx = n := by
  have hlabel : (j.items.map itemLabel)[n]? = (specLabels spec)[n]? := by rw [h.labels]
  rw [List.getElem?_map, hn, specLabels, List.getElem?_mapIdx] at hlabel
  cases hspec : spec.items[n]? with
  | none => simp [hspec] at hlabel
  | some source =>
    simp only [hspec, Option.map_some, Option.some.injEq, itemLabel, Prod.mk.injEq] at hlabel
    exact hlabel.1

/-- The first item of `rest` has the index that the settled ones leave free. -/
theorem Balanced.head_idx {spec : JobSpec W} {j : LiveJob W} {item : JobItem} {work : W}
    {rest : List (JobItem × W)} (h : j.Balanced spec) (hrest : j.rest = (item, work) :: rest) :
    item.idx = j.settled.length := by
  apply h.idx_eq
  simp [items, hrest]

theorem Balanced.settled_idx {spec : JobSpec W} {j : LiveJob W} {item : JobItem}
    (h : j.Balanced spec) (hi : item ∈ j.settled) : item.idx < j.settled.length := by
  obtain ⟨n, hn⟩ := List.mem_iff_getElem?.mp hi
  obtain ⟨hlt, -⟩ := List.getElem?_eq_some_iff.mp hn
  have hidx : item.idx = n := by
    apply h.idx_eq
    rw [items, List.getElem?_append_left hlt, hn]
  omega

theorem finish_items {spec : JobSpec W} {j : LiveJob W} (wasCancelled : Bool) (now : Int)
    (h : j.Balanced spec) (hrest : j.rest = []) :
    (j.finish wasCancelled now).items = j.settled := by
  have hitems : j.items = j.settled := by simp [items, hrest]
  simp only [finish, hitems]
  nth_rewrite 2 [← List.map_id j.settled]
  refine List.map_congr_left fun item hi => ?_
  have hterminal := h.terminal item hi
  have hne : item.status ≠ .pending := by
    intro hs
    rw [hs] at hterminal
    cases hterminal
  simp [hne]

theorem finish_done {spec : JobSpec W} {j : LiveJob W} (wasCancelled : Bool) (now : Int)
    (h : j.Balanced spec) (hrest : j.rest = []) :
    (j.finish wasCancelled now).done = j.settled.length := by
  have hitems : j.items = j.settled := by simp [items, hrest]
  have hcount : j.settled.countP (fun item => item.status = .pending) = 0 := by
    rw [List.countP_eq_zero]
    intro item hi hs
    have hterminal := h.terminal item hi
    rw [of_decide_eq_true hs] at hterminal
    cases hterminal
  simp [finish, hitems, hcount, h.done]

theorem finish_failed {spec : JobSpec W} {j : LiveJob W} (wasCancelled : Bool) (now : Int)
    (h : j.Balanced spec) (hrest : j.rest = []) :
    (j.finish wasCancelled now).failed = j.failed := by
  have hitems : (j.finish wasCancelled now).failed =
      (j.finish wasCancelled now).items.countP fun item => item.status = .error := rfl
  rw [hitems, finish_items wasCancelled now h hrest, h.failed]

/-- The classification in terms of the flag and the number of failures. -/
theorem finish_state {spec : JobSpec W} {j : LiveJob W} (wasCancelled : Bool) (now : Int)
    (h : j.Balanced spec) (hrest : j.rest = []) :
    (j.finish wasCancelled now).state =
      if wasCancelled then .cancelled
      else if j.failed = 0 then .done
      else if j.failed = j.total then .failed
      else .partialDone := by
  have hfailed := finish_failed wasCancelled now h hrest
  simp only [finish] at hfailed ⊢
  rw [hfailed]

theorem finish_accounted {spec : JobSpec W} {j : LiveJob W} (wasCancelled : Bool) (now : Int)
    (h : j.Balanced spec) (hrest : j.rest = []) :
    Accounted spec (wasCancelled = true) (j.finish wasCancelled now) := by
  have hitems := finish_items wasCancelled now h hrest
  have hfailed := finish_failed wasCancelled now h hrest
  have hstate := finish_state wasCancelled now h hrest
  have hjob : j.items = j.settled := by simp [items, hrest]
  have hlength : j.settled.length = j.total := by
    have hlabels := congrArg List.length h.labels
    simp only [hjob, List.length_map, specLabels, List.length_mapIdx] at hlabels
    rw [h.total, hlabels]
  have hnone : j.failed = 0 ↔ ∀ item ∈ j.settled, item.status ≠ .error := by
    rw [h.failed, List.countP_eq_zero]
    simp
  have hall : j.failed = j.total ↔ ∀ item ∈ j.settled, item.status = .error := by
    rw [h.failed, ← hlength, List.countP_eq_length]
    simp
  constructor
  · rw [hitems, ← hjob, h.labels]
  · rw [hitems]
    exact h.terminal
  · exact h.total
  · rw [finish_done wasCancelled now h hrest, hlength]
    rfl
  · rfl
  · rw [hstate]
    cases wasCancelled with
    | true => simp
    | false => simp only [Bool.false_eq_true, if_false, iff_false]; split_ifs <;> decide
  · intro hc
    rw [hstate, hitems, ← hnone, if_neg hc]
    split_ifs <;> simp_all
  · rw [hstate, hitems]
    intro hd item hi
    have hzero : j.failed = 0 := by
      by_contra hne
      split_ifs at hd
    have hterminal := h.terminal item hi
    have herror := hnone.mp hzero item hi
    have hskip : item.status ≠ .skipped := fun hs => by
      have := h.skipped item hi hs
      omega
    cases hs : item.status <;> simp_all [JobItemStatus.isTerminal]
  · intro hc
    rw [hstate, hitems, ← hall, if_neg hc]
    have hnil : j.settled ≠ [] ↔ 0 < j.total := by
      rw [← hlength, List.length_pos_iff]
    rw [hnil]
    split_ifs with h0 h1 <;> simp <;> omega
  · intro hc
    rw [hstate, if_neg hc]
    split_ifs <;> simp

end LiveJob

end BoredManager.OpenWrt
