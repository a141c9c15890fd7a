import BoredManager.Bmc.Sweeper

/-! Sweeps one after another, and the calls that wait for them. -/
namespace BoredManager.Bmc.Sweeper
open BoredManager.Js BoredManager.Machine

variable {s t : Sweeper} {n : Nat} {w : Sweep}

/-- What the calls and sweeps read is the same. -/
structure SameQueue (s t : Sweeper) : Prop where
  generation : t.generation = s.generation
  inFlight : t.inFlight = s.inFlight
  inFlightGeneration : t.inFlightGeneration = s.inFlightGeneration
  queued : t.queued = s.queued
  sweeps : t.sweeps = s.sweeps
  calls : t.calls = s.calls
  settled : t.settled = s.settled

theorem SameQueue.refl (s : Sweeper) : SameQueue s s := ⟨rfl, rfl, rfl, rfl, rfl, rfl, rfl⟩

theorem SameQueue.trans {u : Sweeper} (h : SameQueue s t) (h' : SameQueue t u) : SameQueue s u :=
  ⟨h'.generation.trans h.generation, h'.inFlight.trans h.inFlight,
    h'.inFlightGeneration.trans h.inFlightGeneration, h'.queued.trans h.queued,
    h'.sweeps.trans h.sweeps, h'.calls.trans h.calls, h'.settled.trans h.settled⟩

theorem sameQueue_refreshOne (s : Sweeper) (id : Text) : SameQueue s (s.refreshOne id) := by
  rw [refreshOne]
  split_ifs
  · exact .refl s
  · cases s.config.find id with
    | none => exact .refl s
    | some machine => exact ⟨rfl, rfl, rfl, rfl, rfl, rfl, rfl⟩

theorem sameQueue_forgetMachine (s : Sweeper) (id : Text) : SameQueue s (s.forgetMachine id) :=
  ⟨rfl, rfl, rfl, rfl, rfl, rfl, rfl⟩

theorem sameQueue_refreshed (s : Sweeper) (k : Nat) (result : IpmiResult) (now : Int) :
    SameQueue s (s.refreshed k result now) := by
  rw [refreshed]
  cases s.refreshes[k]? with
  | none => exact .refl s
  | some r =>
    dsimp only
    split_ifs <;> exact ⟨rfl, rfl, rfl, rfl, rfl, rfl, rfl⟩

theorem sameQueue_publishCards (s : Sweeper) (states : OrderedMap Text Reading) :
    SameQueue s ({ s with states := states } : Sweeper).publishCards :=
  ⟨rfl, rfl, rfl, rfl, rfl, rfl, rfl⟩

theorem sameQueue_commit (s : Sweeper) (e : Text × Update) : SameQueue s (s.commit e) := by
  rw [commit]
  split_ifs
  · exact .refl s
  · exact .refl s
  · exact ⟨rfl, rfl, rfl, rfl, rfl, rfl, rfl⟩

theorem sameQueue_commits (es : List (Text × Update)) (s : Sweeper) :
    SameQueue s (es.foldl commit s) := by
  induction es generalizing s with
  | nil => exact .refl s
  | cons e es ih => exact (sameQueue_commit s e).trans (ih _)

/-! ### The line of calls -/

/-- The sweep in flight is the only one that runs; a call waits for a sweep of its generation or a
later one, or for the queue behind the one in flight; and what settled did so with such a sweep. -/
structure Lined (s : Sweeper) : Prop where
  bound : ∀ w ∈ s.sweeps, w.generation ≤ s.generation
  flight : ∀ n ∈ s.inFlight, ∃ w, s.sweeps[n]? = some w ∧ w.generation = s.inFlightGeneration ∧
    ∀ failed, w.phase ≠ .settled failed
  only : ∀ n, s.Runs n → s.inFlight = some n
  waits : ∀ c ∈ s.calls, ∀ n, c.promise = .sweep n →
    s.inFlight = some n ∧ c.generation ≤ s.inFlightGeneration
  queue : ∀ c ∈ s.calls, c.promise = .queue → s.queued.isSome = true ∧ c.generation ≤ s.generation
  queued : ∀ q ∈ s.queued, q.state = .ready ∨ q.state = .waiting ∧ s.inFlight = some q.sweep
  settles : ∀ e ∈ s.settled, ∃ w, s.sweeps[e.sweep]? = some w ∧ e.generation ≤ w.generation ∧
    w.phase = .settled e.failed

theorem Lined.congr (h : s.Lined) (hsame : SameQueue s t) : t.Lined := by
  obtain ⟨h1, h2, h3, h4, h5, h6, h7⟩ := hsame
  refine ⟨?_, ?_, ?_, ?_, ?_, ?_, ?_⟩
  · rw [h1, h5]
    exact h.bound
  · rw [h2, h3, h5]
    exact h.flight
  · intro n hn
    rw [Runs, h5] at hn
    rw [h2]
    exact h.only n hn
  · rw [h2, h3, h6]
    exact h.waits
  · rw [h1, h4, h6]
    exact h.queue
  · rw [h2, h4]
    exact h.queued
  · rw [h5, h7]
    exact h.settles

theorem getElem?_setPhase (n : Nat) (phase : SweepPhase) (i : Nat) :
    (s.setPhase n phase).sweeps[i]? =
      s.sweeps[i]?.map fun w => if n = i then { w with phase := phase } else w := by
  rw [setPhase, List.getElem?_modify]
  cases s.sweeps[i]? with
  | none => rfl
  | some w =>
    simp only [Option.map_some]
    by_cases hi : n = i <;> simp [hi]

/-- A running sweep goes on to another phase. -/
theorem Lined.setPhase (h : s.Lined) (hw : s.sweeps[n]? = some w)
    (hruns : ∀ failed, w.phase ≠ .settled failed) {phase : SweepPhase}
    (hphase : ∀ failed, phase ≠ .settled failed) : (s.setPhase n phase).Lined := by
  have hn : s.inFlight = some n := h.only n ⟨w, hw, hruns⟩
  refine ⟨fun v hv => ?_, fun m hm => ?_, fun i hi => ?_, h.waits, h.queue, h.queued,
    fun e he => ?_⟩
  · obtain ⟨i, hi, hiv⟩ := List.mem_iff_getElem.mp hv
    have hget := getElem?_setPhase (s := s) n phase i
    rw [List.getElem?_eq_getElem hi, hiv] at hget
    obtain ⟨u, hu, huv⟩ := Option.map_eq_some_iff.mp hget.symm
    have hgen : v.generation = u.generation := by
      rw [← huv]
      split_ifs <;> rfl
    exact hgen ▸ h.bound u (List.mem_of_getElem? hu)
  · obtain ⟨u, hu, hgen, -⟩ := h.flight m hm
    obtain rfl : n = m := Option.some.inj (hn.symm.trans hm)
    exact ⟨{ u with phase := phase }, by rw [getElem?_setPhase, hu]; simp, hgen, hphase⟩
  · obtain ⟨v, hv, hvr⟩ := hi
    rw [getElem?_setPhase] at hv
    obtain ⟨u, hu, huv⟩ := Option.map_eq_some_iff.mp hv
    by_cases heq : n = i
    · exact heq ▸ hn
    · rw [if_neg heq] at huv
      exact h.only i ⟨u, hu, huv ▸ hvr⟩
  · obtain ⟨u, hu, hgen, hset⟩ := h.settles e he
    refine ⟨u, ?_, hgen, hset⟩
    rw [getElem?_setPhase, hu, Option.map_some]
    split_ifs with heq
    · rw [heq, hu] at hw
      exact absurd hset (Option.some.inj hw ▸ hruns e.failed)
    · rfl

/-- The ways of `run`. -/
inductive RunEffect (s : Sweeper) : Sweeper × Option Promised → Prop where
  | join (n : Nat) (hin : s.inFlight = some n) (hgen : s.inFlightGeneration = s.generation) :
    RunEffect s (s, some (.sweep n))
  | wait (n : Nat) (hin : s.inFlight = some n) (hq : s.queued = none) :
    RunEffect s ({ s with queued := some ⟨n, .waiting⟩ }, some .queue)
  | queue (q : Queued) (hq : s.queued = some q) (hstate : q.state ≠ .rejected) :
    RunEffect s (s, some .queue)
  | rejected (q : Queued) (hq : s.queued = some q) (hstate : q.state = .rejected) :
    RunEffect s (s, none)
  | begins (hin : s.inFlight = none) (phase : SweepPhase) (hphase : ∀ failed, phase ≠ .settled failed)
      (hidle : ∀ p, phase ≠ .probing p) :
    RunEffect s ({ s with
      sweeps := s.sweeps ++ [⟨s.generation, phase⟩]
      inFlight := some s.sweeps.length
      inFlightGeneration := s.generation }, some (.sweep s.sweeps.length))

theorem run_effect (s : Sweeper) : RunEffect s s.run := by
  rw [Sweeper.run]
  split
  · rename_i n hin
    split_ifs with hgen
    · exact .join n hin hgen
    · split
      · rename_i hq
        exact .wait n hin hq
      · rename_i q hq
        split_ifs with hstate
        · exact .rejected q hq hstate
        · exact .queue q hq hstate
  · rename_i hin
    dsimp only
    split_ifs
    · exact .begins hin .capabilities (by simp) (by simp)
    · exact .begins hin (.ended false) (by simp) (by simp)

/-- What `run` leaves, and the promise that a call of this generation gets. -/
structure Ran (s : Sweeper) (after : Sweeper) (promise : Promised) : Prop where
  lined : after.Lined
  calls : after.calls = s.calls
  generation : after.generation = s.generation
  sweep : ∀ n, promise = .sweep n → after.inFlight = some n ∧ s.generation ≤ after.inFlightGeneration
  queue : promise = .queue → after.queued.isSome = true

theorem Lined.begins (h : s.Lined) (hin : s.inFlight = none) {phase : SweepPhase}
    (hphase : ∀ failed, phase ≠ .settled failed) :
    ({ s with
      sweeps := s.sweeps ++ [⟨s.generation, phase⟩]
      inFlight := some s.sweeps.length
      inFlightGeneration := s.generation } : Sweeper).Lined := by
  have hnone : ∀ i, s.inFlight ≠ some i := fun i hi => by
    rw [hin] at hi
    cases hi
  refine ⟨fun v hv => ?_, ?_, fun i hi => ?_, fun c hc n hp => ?_, h.queue, fun q hq => ?_,
    fun e he => ?_⟩
  · obtain hv | hv := List.mem_append.mp hv
    · exact h.bound v hv
    · rw [List.mem_singleton.mp hv]
  · rintro n ⟨⟩
    exact ⟨_, List.getElem?_concat_length, rfl, hphase⟩
  · obtain ⟨v, hv, hvr⟩ := hi
    obtain hlt | hge := Nat.lt_or_ge i s.sweeps.length
    · rw [List.getElem?_append_left hlt] at hv
      exact absurd (h.only i ⟨v, hv, hvr⟩) (hnone i)
    · rw [List.getElem?_append_right hge] at hv
      have hlt := (List.getElem?_eq_some_iff.mp hv).1
      rw [List.length_singleton] at hlt
      exact congrArg some (by omega)
  · exact absurd (h.waits c hc n hp).1 (hnone n)
  · exact (h.queued q hq).imp_right fun hwait => absurd hwait.2 (hnone q.sweep)
  · obtain ⟨v, hv, hgen, hset⟩ := h.settles e he
    refine ⟨v, ?_, hgen, hset⟩
    rw [List.getElem?_append_left (List.getElem?_eq_some_iff.mp hv).1]
    exact hv

theorem Lined.run (h : s.Lined) : ∃ after promise, s.run = (after, some promise) ∧
    Ran s after promise := by
  have heffect := run_effect s
  generalize s.run = ran at heffect
  cases heffect with
  | join n hin hgen =>
    exact ⟨_, _, rfl, h, rfl, rfl, by rintro m ⟨⟩; exact ⟨hin, hgen.ge⟩, by simp⟩
  | wait n hin hq =>
    refine ⟨_, _, rfl, ⟨h.bound, h.flight, h.only, h.waits, fun c hc hp => ⟨rfl, (h.queue c hc hp).2⟩, ?_,
      h.settles⟩, rfl, rfl, by simp, fun _ => rfl⟩
    rintro q ⟨⟩
    exact .inr ⟨rfl, hin⟩
  | queue q hq hstate =>
    exact ⟨_, _, rfl, h, rfl, rfl, by simp, fun _ => Option.isSome_of_mem hq⟩
  | rejected q hq hstate =>
    obtain hready | ⟨hwait, -⟩ := h.queued q hq
    · rw [hready] at hstate
      cases hstate
    · rw [hwait] at hstate
      cases hstate
  | begins hin phase hphase _ =>
    refine ⟨_, _, rfl, h.begins hin hphase, rfl, rfl, ?_, by simp⟩
    rintro n ⟨⟩
    exact ⟨rfl, le_refl _⟩

/-! ### One event -/

theorem Lined.call (h : s.Lined) : s.call.Lined := by
  obtain ⟨after, promise, hrun, ran⟩ := h.run
  rw [Sweeper.call, hrun]
  have hl := ran.lined
  refine ⟨hl.bound, hl.flight, hl.only, fun c hc n hp => ?_, fun c hc hp => ?_, hl.queued, hl.settles⟩
  · obtain hc | hc := List.mem_append.mp hc
    · exact hl.waits c hc n hp
    · rw [List.mem_singleton.mp hc] at hp ⊢
      exact ran.sweep n hp
  · obtain hc | hc := List.mem_append.mp hc
    · exact hl.queue c hc hp
    · rw [List.mem_singleton.mp hc] at hp ⊢
      exact ⟨ran.queue hp, ran.generation.ge⟩

theorem run_calls (s : Sweeper) (cs : List RunCall) :
    ({ s with calls := cs } : Sweeper).run = ({ s.run.1 with calls := cs }, s.run.2) := by
  simp only [Sweeper.run]
  split
  · split_ifs
    · rfl
    · split <;> rfl
  · rfl

theorem calls_run (s : Sweeper) : s.run.1.calls = s.calls := by
  have heffect := run_effect s
  generalize s.run = ran at heffect
  cases heffect <;> rfl

theorem Lined.resume (h : s.Lined) : s.resume.Lined := by
  rw [Sweeper.resume]
  split_ifs with hready
  · exact h
  · -- the calls that do not wait in the queue, and the sweep that `run` gives the others
    have hrest : ({ s with queued := none, calls := s.calls.filter (·.promise ≠ .queue) } : Sweeper).Lined := by
      refine ⟨h.bound, h.flight, h.only, fun c hc => h.waits c (List.mem_of_mem_filter hc),
        fun c hc hp => ?_, by simp, h.settles⟩
      exact absurd hp (of_decide_eq_true (List.mem_filter.mp hc).2)
    obtain ⟨after, promise, hrun, ran⟩ := hrest.run
    rw [run_calls { s with queued := none }] at hrun
    have hcalls : ({ s with queued := none } : Sweeper).run.1.calls = s.calls := calls_run _
    generalize ({ s with queued := none } : Sweeper).run = r at hrun hcalls
    obtain ⟨r, promised⟩ := r
    obtain ⟨rfl, rfl⟩ := Prod.mk.inj hrun
    have hl := ran.lined
    have hgen : r.generation = s.generation := ran.generation
    have hwaits : ∀ c ∈ s.calls, c.promise ≠ .queue → ∀ n, c.promise = .sweep n →
        r.inFlight = some n ∧ c.generation ≤ r.inFlightGeneration := fun c hc hp =>
      hl.waits c (List.mem_filter.mpr ⟨hc, decide_eq_true hp⟩)
    refine ⟨hl.bound, hl.flight, hl.only, fun c hc n hp => ?_, fun c hc hp => ?_, hl.queued, hl.settles⟩
    · obtain ⟨c', hc', rfl⟩ := List.mem_map.mp hc
      have hc' : c' ∈ s.calls := hcalls ▸ hc'
      split_ifs at hp ⊢ with hq
      · obtain ⟨hin, hle⟩ := ran.sweep n hp
        exact ⟨hin, (h.queue c' hc' hq).2.trans hle⟩
      · exact hwaits c' hc' hq n hp
    · obtain ⟨c', hc', rfl⟩ := List.mem_map.mp hc
      have hc' : c' ∈ s.calls := hcalls ▸ hc'
      split_ifs at hp ⊢ with hq
      · exact ⟨ran.queue hp, (h.queue c' hc' hq).2.trans hgen.ge⟩
      · exact absurd hp hq

/-- A sweep that has ended settles, and with it the calls that wait for it. -/
theorem Lined.settle (h : s.Lined) (hok : s.Allowed (.settle n)) : (s.settle n).Lined := by
  rw [Sweeper.settle]
  split
  · rename_i generation failed hw
    have hruns : ∀ f, (⟨generation, .ended failed⟩ : Sweep).phase ≠ .settled f := by simp
    have hin : s.inFlight = some n := h.only n ⟨_, hw, hruns⟩
    have hgen : generation = s.inFlightGeneration := by
      obtain ⟨w, hget, hgen, -⟩ := h.flight n hin
      rw [hw] at hget
      obtain rfl := Option.some.inj hget
      exact hgen
    have hself : (s.setPhase n (.settled failed)).sweeps[n]? = some ⟨generation, .settled failed⟩ := by
      rw [getElem?_setPhase, hw]
      simp
    have hbound : ∀ w ∈ (s.setPhase n (.settled failed)).sweeps, w.generation ≤ s.generation := by
      intro v hv
      obtain ⟨i, hi, hiv⟩ := List.mem_iff_getElem.mp hv
      have hget := getElem?_setPhase (s := s) n (.settled failed) i
      rw [List.getElem?_eq_getElem hi, hiv] at hget
      obtain ⟨u, hu, huv⟩ := Option.map_eq_some_iff.mp hget.symm
      have hsame : v.generation = u.generation := by
        rw [← huv]
        split_ifs <;> rfl
      exact hsame ▸ h.bound u (List.mem_of_getElem? hu)
    have honly : ∀ i, (s.setPhase n (.settled failed)).Runs i → False := by
      rintro i ⟨v, hv, hvr⟩
      by_cases hi : n = i
      · subst hi
        rw [hself] at hv
        exact hvr failed (Option.some.inj hv ▸ rfl)
      · rw [getElem?_setPhase] at hv
        obtain ⟨u, hu, huv⟩ := Option.map_eq_some_iff.mp hv
        rw [if_neg hi] at huv
        exact hi (Option.some.inj (hin.symm.trans (h.only i ⟨u, hu, huv ▸ hvr⟩)))
    have hsettles : ∀ e ∈ s.settled ++ s.settledWith (.sweep n) n failed, ∃ w,
        (s.setPhase n (.settled failed)).sweeps[e.sweep]? = some w ∧ e.generation ≤ w.generation ∧
          w.phase = .settled e.failed := by
      intro e he
      obtain he | he := List.mem_append.mp he
      · obtain ⟨w, hget, hle, hset⟩ := h.settles e he
        refine ⟨w, ?_, hle, hset⟩
        rw [getElem?_setPhase, hget, Option.map_some]
        split_ifs with hi
        · rw [← hi, hw] at hget
          rw [← Option.some.inj hget] at hset
          cases hset
        · rfl
      · obtain ⟨c, hc, rfl⟩ := List.mem_map.mp he
        obtain ⟨hc, hp⟩ := List.mem_filter.mp hc
        exact ⟨_, hself, hgen ▸ (h.waits c hc n (of_decide_eq_true hp)).2, rfl⟩
    have hcalls : ∀ c ∈ s.calls.filter (·.promise ≠ .sweep n), ∀ m, c.promise ≠ .sweep m := by
      intro c hc m hp
      obtain ⟨hc, hne⟩ := List.mem_filter.mp hc
      obtain rfl : n = m := Option.some.inj (hin.symm.trans (h.waits c hc m hp).1)
      exact of_decide_eq_true hne hp
    have hqueue : ∀ c ∈ s.calls.filter (·.promise ≠ .sweep n), c.promise = .queue →
        s.queued.isSome = true ∧ c.generation ≤ s.generation := fun c hc =>
      h.queue c (List.mem_of_mem_filter hc)
    dsimp only
    rw [if_pos hin]
    split_ifs with hq hfailed
    · refine ⟨hbound, by simp, fun i hi => (honly i hi).elim, fun c hc m hp => absurd hp (hcalls c hc m),
        hqueue, fun q hqs => ?_, hsettles⟩
      have hqs : s.queued = some q := hqs
      refine (h.queued q hqs).imp_right fun hwait => ?_
      obtain rfl : n = q.sweep := Option.some.inj (hin.symm.trans hwait.2)
      exact absurd (hqs.trans (by rw [← hwait.1])) hq
    · rw [not_not] at hq
      exact absurd (hfailed ▸ rfl) (hok hq _ hw)
    · refine ⟨hbound, by simp, fun i hi => (honly i hi).elim, fun c hc m hp => absurd hp (hcalls c hc m),
        fun c hc hp => ⟨rfl, (hqueue c hc hp).2⟩, ?_, hsettles⟩
      rintro q ⟨⟩
      exact .inl rfl
  · exact h

theorem Lined.ensured (h : s.Lined) (outcome : Ensured) (fails : Bool) :
    (s.ensured n outcome fails).Lined := by
  rw [Sweeper.ensured]
  split
  · rename_i generation hw
    have hgo : ∀ {t : Sweeper}, SameQueue s t → ∀ {phase : SweepPhase},
        (∀ failed, phase ≠ .settled failed) → (t.setPhase n phase).Lined := fun hsame _ hphase =>
      (h.congr hsame).setPhase (hsame.sweeps ▸ hw) (by simp) hphase
    split_ifs
    · exact hgo (.refl s) (by simp)
    · exact hgo (.refl s) (by simp)
    · exact hgo (sameQueue_publishCards s s.states) (by simp)
    · exact hgo (sameQueue_publishCards s .empty) (by simp)
    · exact hgo (.refl s) (by simp)
  · exact h

theorem Lined.answered (h : s.Lined) (k : Nat) (result : IpmiResult) (now : Int) :
    (s.answered n k result now).Lined := by
  rw [Sweeper.answered]
  split
  · rename_i generation p hw
    split
    · exact h
    · split_ifs
      · exact h.setPhase hw (by simp) (by simp)
      · exact h.setPhase hw (by simp) (by simp)
  · exact h

theorem Lined.finish (h : s.Lined) (fails : Bool) : (s.finish n fails).Lined := by
  rw [Sweeper.finish]
  split
  · rename_i generation p hw
    have hsame := sameQueue_commits p.updates.entries s
    split_ifs
    · exact h
    · exact h.setPhase hw (by simp) (by simp)
    · have hpublished : SameQueue s (p.updates.entries.foldl commit s).publishCards :=
        hsame.trans ⟨rfl, rfl, rfl, rfl, rfl, rfl, rfl⟩
      exact (h.congr hpublished).setPhase (hpublished.sweeps ▸ hw) (by simp) (by simp)
  · exact h

theorem Lined.step (h : s.Lined) {event : SweeperEvent} (hok : s.Allowed event) :
    (s.step event).Lined := by
  have htick : (s.handle event).Lined → (s.step event).Lined := fun hl =>
    hl.congr ⟨rfl, rfl, rfl, rfl, rfl, rfl, rfl⟩
  apply htick
  cases event with
  | run => exact h.call
  | refreshOne id => exact h.congr (sameQueue_refreshOne s id)
  | refreshed k result now => exact h.congr (sameQueue_refreshed s k result now)
  | forgetMachine id => exact h.congr (sameQueue_forgetMachine s id)
  | apply id fields =>
    have hforget : SameQueue s ({ s with config := s.config.save id fields }.forgetMachine id) :=
      ⟨rfl, rfl, rfl, rfl, rfl, rfl, rfl⟩
    exact h.congr (hforget.trans (sameQueue_refreshOne _ id))
  | delete id revision =>
    rw [handle, delete]
    split_ifs
    · exact h.congr ⟨rfl, rfl, rfl, rfl, rfl, rfl, rfl⟩
    · exact h
  | reset =>
    exact ⟨fun w hw => (h.bound w hw).trans (Nat.le_succ _), h.flight, h.only, h.waits,
      fun c hc hp => ⟨(h.queue c hc hp).1, (h.queue c hc hp).2.trans (Nat.le_succ _)⟩, h.queued, h.settles⟩
  | connection up => exact h.congr ⟨rfl, rfl, rfl, rfl, rfl, rfl, rfl⟩
  | ensured n outcome fails => exact h.ensured outcome fails
  | answered n k result now => exact h.answered k result now
  | finish n fails => exact h.finish fails
  | settle n => exact h.settle hok
  | resume => exact h.resume

theorem lined_start (config : ConfigStore) (connected : Bool) : (start config connected).Lined :=
  ⟨by simp [start], by simp [start], by simp [start, Runs], by simp [start], by simp [start],
    by simp [start], by simp [start]⟩

end BoredManager.Bmc.Sweeper
