import Mathlib.Data.List.Basic

/-! Runs of a machine that takes one event after another, and what a guarded
run preserves. -/
namespace BoredManager.Machine

variable {σ ε : Type*} {step : σ → ε → σ} {ok : σ → ε → Prop} {inv : σ → Prop}

def run (step : σ → ε → σ) (s : σ) (events : List ε) : σ := events.foldl step s

/-- Every event of the run is allowed in the state that takes it. -/
def Guarded (step : σ → ε → σ) (ok : σ → ε → Prop) : σ → List ε → Prop
  | _, [] => True
  | s, event :: events => ok s event ∧ Guarded step ok (step s event) events

instance decidableGuarded [∀ s event, Decidable (ok s event)] :
    (s : σ) → (events : List ε) → Decidable (Guarded step ok s events)
  | _, [] => .isTrue trivial
  | s, event :: events =>
    have := decidableGuarded (step s event) events
    inferInstanceAs (Decidable (ok s event ∧ Guarded step ok (step s event) events))

@[simp] theorem run_nil (s : σ) : run step s [] = s := rfl

@[simp] theorem run_cons (s : σ) (event : ε) (events : List ε) :
    run step s (event :: events) = run step (step s event) events := rfl

/-- A step lemma gives the run lemma. -/
theorem run_preserves (hstep : ∀ s event, inv s → ok s event → inv (step s event))
    {s : σ} {events : List ε} (h : Guarded step ok s events) (hs : inv s) :
    inv (run step s events) := by
  induction events generalizing s with
  | nil => exact hs
  | cons event events ih => exact ih h.2 (hstep s event hs h.1)

theorem guarded_of_forall {P : ε → Prop} {events : List ε} (h : ∀ event ∈ events, P event) (s : σ) :
    Guarded step (fun _ event => P event) s events := by
  induction events generalizing s with
  | nil => trivial
  | cons event events ih =>
    exact ⟨h event List.mem_cons_self, ih (fun e he => h e (List.mem_cons_of_mem _ he)) _⟩

/-- What one event of a run establishes, and every event of it keeps, holds at its end. -/
theorem run_establishes {P : σ → Prop} {event : ε} {events : List ε}
    (hkeep : ∀ s, ∀ other ∈ events, P s → P (step s other)) (hmem : event ∈ events)
    (hest : ∀ s, P (step s event)) (s : σ) : P (run step s events) := by
  induction events generalizing s with
  | nil => cases hmem
  | cons other events ih =>
    have hkeep' := fun s e he => hkeep s e (List.mem_cons_of_mem _ he)
    rcases List.mem_cons.mp hmem with rfl | hmem
    · exact List.foldlRecOn events step (hest s) fun s h e he => hkeep' s e he h
    · exact ih hkeep' hmem _

theorem run_append (s : σ) (events more : List ε) :
    run step s (events ++ more) = run step (run step s events) more := List.foldl_append

theorem guarded_append {s : σ} {events more : List ε} (h : Guarded step ok s events)
    (hmore : Guarded step ok (run step s events) more) : Guarded step ok s (events ++ more) := by
  induction events generalizing s with
  | nil => exact hmore
  | cons event events ih => exact ⟨h.1, ih h.2 hmore⟩

theorem guarded_left {s : σ} {events more : List ε} (h : Guarded step ok s (events ++ more)) :
    Guarded step ok s events := by
  induction events generalizing s with
  | nil => trivial
  | cons event events ih => exact ⟨h.1, ih h.2⟩

/-- A run is guarded exactly if each of its events is allowed at its moment. -/
theorem guarded_iff {s : σ} {events : List ε} : Guarded step ok s events ↔
    ∀ before event more, before ++ event :: more = events → ok (run step s before) event := by
  induction events generalizing s with
  | nil => simp [Guarded]
  | cons first events ih =>
    constructor
    · rintro ⟨hfirst, hrest⟩ before event more h
      cases before with
      | nil =>
        cases h
        exact hfirst
      | cons other before =>
        cases h
        exact ih.mp hrest before event more rfl
    · intro h
      exact ⟨h [] first events rfl, ih.mpr fun before event more hsplit =>
        h (first :: before) event more (congrArg (first :: ·) hsplit)⟩

/-- Where what is not allowed breaks a property at once, the runs that are allowed are those in
which the property holds at every moment. -/
theorem guarded_iff_always {P : σ → Prop} (hinv : ∀ s, inv s → P s)
    (hstep : ∀ s event, inv s → ok s event → inv (step s event))
    (hbad : ∀ s event, inv s → P (step s event) → ok s event) {s : σ} (hs : inv s)
    {events : List ε} : Guarded step ok s events ↔
      ∀ before more, before ++ more = events → P (run step s before) := by
  induction events generalizing s with
  | nil =>
    refine iff_of_true trivial fun before more h => ?_
    obtain ⟨rfl, -⟩ := List.append_eq_nil_iff.mp h
    exact hinv s hs
  | cons event events ih =>
    constructor
    · rintro ⟨hok, hrest⟩ before more h
      cases before with
      | nil => exact hinv s hs
      | cons first before =>
        cases h
        exact (ih (hstep s event hs hok)).mp hrest before more rfl
    · intro h
      have hok := hbad s event hs (h [event] events rfl)
      exact ⟨hok, (ih (hstep s event hs hok)).mpr fun before more hsplit =>
        h (event :: before) more (congrArg (event :: ·) hsplit)⟩

/-- Under an invariant that allowed steps keep, two conditions that agree guard the same runs. -/
theorem guarded_congr_of_kept {ok' : σ → ε → Prop}
    (hinv : ∀ s event, inv s → ok s event → inv (step s event))
    (hiff : ∀ s event, inv s → (ok s event ↔ ok' s event)) {s : σ} (hs : inv s) (events : List ε) :
    Guarded step ok s events ↔ Guarded step ok' s events := by
  induction events generalizing s with
  | nil => exact Iff.rfl
  | cons event events ih =>
    constructor
    · rintro ⟨hok, hrest⟩
      exact ⟨(hiff s event hs).mp hok, (ih (hinv s event hs hok)).mp hrest⟩
    · rintro ⟨hok, hrest⟩
      have hok := (hiff s event hs).mpr hok
      exact ⟨hok, (ih (hinv s event hs hok)).mpr hrest⟩

/-- Under an invariant of every step, two conditions that agree guard the same runs. -/
theorem guarded_congr {ok' : σ → ε → Prop} (hinv : ∀ s event, inv s → inv (step s event))
    (hiff : ∀ s event, inv s → (ok s event ↔ ok' s event)) {s : σ} (hs : inv s) (events : List ε) :
    Guarded step ok s events ↔ Guarded step ok' s events :=
  guarded_congr_of_kept (fun s event h _ => hinv s event h) hiff hs events

/-- A preorder is kept by every event of a run exactly if it holds between any two of its moments. -/
theorem guarded_rel_iff {R : σ → σ → Prop} (hrefl : ∀ s, R s s)
    (htrans : ∀ s t u, R s t → R t u → R s u) {s : σ} {events : List ε} :
    Guarded step (fun s event => R s (step s event)) s events ↔
      ∀ before after more, before ++ (after ++ more) = events →
        R (run step s before) (run step (run step s before) after) := by
  induction events generalizing s with
  | nil =>
    refine iff_of_true trivial fun before after more h => ?_
    obtain ⟨rfl, hrest⟩ := List.append_eq_nil_iff.mp h
    obtain ⟨rfl, -⟩ := List.append_eq_nil_iff.mp hrest
    exact hrefl _
  | cons event events ih =>
    constructor
    · rintro ⟨hfirst, hrest⟩ before after more h
      cases before with
      | cons first before =>
        cases h
        exact ih.mp hrest before after more rfl
      | nil =>
        cases after with
        | nil => exact hrefl _
        | cons first after =>
          cases h
          exact htrans _ _ _ hfirst (ih.mp hrest [] after more rfl)
    · intro h
      exact ⟨h [] [event] events rfl, ih.mpr fun before after more hsplit =>
        h (event :: before) after more (congrArg (event :: ·) hsplit)⟩

/-- Events that lower a measure as long as something is to be done: the work is done, or no
more events came than the measure allows. -/
theorem run_progress (done : σ → Prop) (measure : σ → ℕ)
    (hkeep : ∀ s event, inv s → ok s event → inv (step s event))
    (hdone : ∀ s event, inv s → ok s event → done s → done (step s event))
    (hless : ∀ s event, inv s → ok s event → ¬done s → measure (step s event) < measure s)
    {s : σ} {events : List ε} (h : Guarded step ok s events) (hs : inv s) :
    done (run step s events) ∨ events.length + measure (run step s events) ≤ measure s := by
  induction events generalizing s with
  | nil => exact .inr (by simp)
  | cons event events ih =>
    obtain ⟨hok, hrest⟩ := h
    have hnext := hkeep s event hs hok
    by_cases hd : done s
    · have hstay : Guarded step ok (step s event) events → done (run step (step s event) events) :=
        fun hg => by
          have hboth : ∀ t e, inv t ∧ done t → ok t e → inv (step t e) ∧ done (step t e) :=
            fun t e ht he => ⟨hkeep t e ht.1 he, hdone t e ht.1 he ht.2⟩
          exact (run_preserves hboth hg ⟨hnext, hdone s event hs hok hd⟩).2
      exact .inl (hstay hrest)
    · refine (ih hrest hnext).imp id fun hle => ?_
      have := hless s event hs hok hd
      rw [run_cons, List.length_cons]
      omega

end BoredManager.Machine
