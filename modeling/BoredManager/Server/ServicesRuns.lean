import BoredManager.Js.Radix
import BoredManager.Server.Services

/-! No running command is lost from the tracker, as long as every answer that leaves one out is a
completed one of the app's own machine, and was asked for it. -/
namespace BoredManager.Server.Services
open BoredManager.Js BoredManager.Machine

variable {w : World} {t : Tracker} {e : LiveEntry} {stats : ProcStats} {r : Reading}

/-! ### Ids -/

theorem liveId_inj {kind other : LiveKind} {n m : Nat} (h : liveId kind n = liveId other m) : n = m := by
  have hdecimal : ∀ {a : Text}, a ++ 45 :: decimal n = a ++ 45 :: decimal m → n = m := by
    intro a h
    exact Number.radixText_injective (by omega) (by omega) (List.cons.inj (List.append_cancel_left h)).2
  cases kind with
  | stream =>
    cases other with
    | stream => exact hdecimal h
    | shell => exact absurd (List.cons.inj (List.cons.inj h).2).1 (by decide)
  | shell =>
    cases other with
    | stream => exact absurd (List.cons.inj (List.cons.inj h).2).1 (by decide)
    | shell => exact hdecimal h

/-- The entries are numbered by their order. -/
def Numbered (born : List LiveEntry) : Prop :=
  ∀ n e, born[n]? = some e → e.id = liveId e.kind (n + 1)

theorem Numbered.nodup {born : List LiveEntry} (h : Numbered born) : (born.map LiveEntry.id).Nodup := by
  rw [List.nodup_iff_getElem?_ne_getElem?]
  intro i j hij hj heq
  rw [List.length_map] at hj
  have hi : i < born.length := by omega
  rw [List.getElem?_map, List.getElem?_map, List.getElem?_eq_getElem hi, List.getElem?_eq_getElem hj,
    Option.map_some, Option.map_some, Option.some_inj,
    h i _ (List.getElem?_eq_getElem hi), h j _ (List.getElem?_eq_getElem hj)] at heq
  have := liveId_inj heq
  omega

theorem Numbered.eq_of_id {born : List LiveEntry} (h : Numbered born) {e f : LiveEntry} (he : e ∈ born)
    (hf : f ∈ born) (heq : e.id = f.id) : e = f :=
  List.inj_on_of_nodup_map h.nodup he hf heq

/-! ### The loop of `snapshot` -/

/-- What a snapshot reports for an entry that it keeps. -/
def reported (stats : ProcStats) (e : LiveEntry) : ServiceEntry :=
  e.toService (e.pid.bind fun pid : Nat => stats.get? (.fin pid))

theorem visit_eq (s : Tracker × List ServiceEntry) : visit stats e s =
    if e.unlisted stats = true then (s.1.unregister e.id, s.2) else (s.1, s.2 ++ [reported stats e]) := by
  obtain ⟨id, kind, owner, label, pid, startedAt⟩ := e
  cases pid with
  | none => rfl
  | some pid =>
    cases hstat : stats.get? (.fin (pid : ℚ)) with
    | none => simp only [visit, LiveEntry.unlisted, Option.any_some, hstat, Option.isNone_none, if_true]
    | some stat =>
      simp only [visit, LiveEntry.unlisted, reported, Option.any_some, Option.bind_some, hstat,
        Option.isNone_some, Bool.false_eq_true, if_false]

theorem foldl_visit (l : List LiveEntry) (s : Tracker × List ServiceEntry) :
    l.foldl (fun s e => visit stats e s) s =
      ((l.filter (·.unlisted stats)).foldl (fun t e => t.unregister e.id) s.1,
        s.2 ++ (l.filter fun e => !e.unlisted stats).map (reported stats)) := by
  induction l generalizing s with
  | nil => simp
  | cons e l ih =>
    rw [List.foldl_cons, ih, visit_eq]
    cases h : e.unlisted stats with
    | true => simp [h]
    | false => simp [h]

theorem get?_foldl_unregister (l : List LiveEntry) (t : Tracker) (k : Text) :
    (l.foldl (fun t e => t.unregister e.id) t).live.get? k =
      if k ∈ l.map LiveEntry.id then none else t.live.get? k := by
  induction l generalizing t with
  | nil => rfl
  | cons e l ih =>
    rw [List.foldl_cons, ih, List.map_cons]
    by_cases hk : k = e.id
    · simp [Tracker.unregister, hk]
    · simp [Tracker.unregister, hk]

theorem counter_foldl_unregister (l : List LiveEntry) (t : Tracker) :
    (l.foldl (fun t e => t.unregister e.id) t).counter = t.counter := by
  induction l generalizing t with
  | nil => rfl
  | cons e l ih => exact ih (t.unregister e.id)

/-- Entries stand under their own ids. -/
def Tracker.Keyed (t : Tracker) : Prop := ∀ k e, t.live.get? k = some e → e.id = k

theorem mem_live_values : e ∈ t.live.values ↔ ∃ k, t.live.get? k = some e := by
  rw [OrderedMap.mem_values]
  exact exists_congr fun k => OrderedMap.get?_eq_some.symm

theorem Tracker.Keyed.mem_values (h : t.Keyed) : e ∈ t.live.values ↔ t.live.get? e.id = some e := by
  rw [mem_live_values]
  constructor
  · rintro ⟨k, hk⟩
    rw [h k e hk]
    exact hk
  · exact fun he => ⟨e.id, he⟩

/-- A snapshot keeps the entries that are listed, and those without a pid. -/
theorem Tracker.Keyed.get?_judge (h : t.Keyed) (k : Text) :
    (t.judge stats).1.live.get? k = (t.live.get? k).filter fun e => !e.unlisted stats := by
  rw [judge, foldl_visit, get?_foldl_unregister]
  cases hk : t.live.get? k with
  | none => simp
  | some e =>
    have hid := h k e hk
    have hmem : k ∈ (t.live.values.filter (·.unlisted stats)).map LiveEntry.id ↔ e.unlisted stats = true := by
      rw [List.mem_map]
      constructor
      · rintro ⟨f, hf, hfk⟩
        obtain ⟨hvalue, hunlisted⟩ := List.mem_filter.mp hf
        rw [h.mem_values, hfk, hk] at hvalue
        cases hvalue
        exact hunlisted
      · intro hunlisted
        exact ⟨e, List.mem_filter.mpr ⟨mem_live_values.mpr ⟨k, hk⟩, hunlisted⟩, hid⟩
    cases hunlisted : e.unlisted stats with
    | true => simp [hmem, hunlisted, Option.filter_some]
    | false => simp [hmem, hunlisted, Option.filter_some]

theorem counter_judge (t : Tracker) (stats : ProcStats) : (t.judge stats).1.counter = t.counter := by
  rw [Tracker.judge, foldl_visit]
  exact counter_foldl_unregister _ t

theorem mem_judge {s : ServiceEntry} : s ∈ (t.judge stats).2 ↔
    ∃ e ∈ t.live.values, e.unlisted stats = false ∧ reported stats e = s := by
  rw [Tracker.judge, foldl_visit]
  simp [and_assoc]

/-! ### The invariant -/

/-- What holds in every state that such runs reach. -/
structure Sound (w : World) : Prop where
  numbered : Numbered w.born
  count : w.tracker.counter = w.born.length
  keyed : w.tracker.Keyed
  known : ∀ e, w.tracker.live.get? e.id = some e → e ∈ w.born
  tracked : ∀ e ∈ w.born, w.Running e → w.tracker.live.get? e.id = some e
  began : ∀ r ∈ w.readings, r.began ≤ w.born.length
  asked : ∀ r ∈ w.readings, ∀ e ∈ w.born.take r.began, w.tracker.live.get? e.id = some e →
    ∀ pid ∈ e.pid, pid ∈ r.pids
  given : ∀ s ∈ w.shots, s.began ≤ w.born.length
  shown : ∀ s ∈ w.shots, ∀ e ∈ w.born.take s.began, e ∈ s.running → ∃ stat, e.toService stat ∈ s.entries
  removed : ∀ e ∈ w.born, w.tracker.live.get? e.id = none →
    e.id ∈ w.released ∨ ∃ d ∈ w.drops, d.entry = e ∧ d.Justified w

theorem erase_eq_self {m : OrderedMap Text LiveEntry} {k : Text} (h : m.get? k = none) : m.erase k = m := by
  have hkeys := OrderedMap.get?_eq_none.mp h
  obtain ⟨entries, hnodup⟩ := m
  have hfilter : entries.filter (fun e => e.1 ≠ k) = entries := by
    refine List.filter_eq_self.mpr fun e he => decide_eq_true fun heq => hkeys ?_
    exact heq ▸ List.mem_map_of_mem he
  simp only [OrderedMap.erase, hfilter]

theorem Sound.neverLost (h : Sound w) : NeverLost w where
  distinct := h.numbered.nodup
  tracked := h.tracked
  shown := h.shown
  removed := h.removed
  settled e _ hnone := by rw [Tracker.unregister, erase_eq_self hnone]

theorem sound_start : Sound .start where
  numbered n e h := by cases h
  count := rfl
  keyed k e h := by cases h
  known e h := by cases h
  tracked e h := by cases h
  began r h := by cases h
  asked r h := by cases h
  given s h := by cases h
  shown s h := by cases h
  removed e h := by cases h

theorem Drop.Justified.mono {d : Drop} {v : World} (h : d.Justified w)
    (hborn : ∀ e, w.Asked d.reading e → v.Asked d.reading e) : d.Justified v :=
  ⟨h.completed, h.own, hborn _ h.asked, h.unlisted⟩

/-! ### A registration -/

theorem Sound.fresh (h : Sound w) {kind : LiveKind} {f : LiveEntry} (hf : f ∈ w.born) :
    f.id ≠ liveId kind (w.tracker.counter + 1) := by
  obtain ⟨n, hn⟩ := List.mem_iff_getElem?.mp hf
  have hlt := (List.getElem?_eq_some_iff.mp hn).1
  rw [h.numbered n f hn, h.count]
  intro heq
  have := liveId_inj heq
  omega

theorem Sound.register (h : Sound w) (kind : LiveKind) (owner label : Text) (pid : Option Nat) (now : Nat) :
    Sound (step w (.register kind owner label pid now)) := by
  have hfresh : ∀ f ∈ w.born, f.id ≠ liveId kind (w.tracker.counter + 1) := fun f hf => h.fresh hf
  have htake : ∀ {n : Nat}, n ≤ w.born.length → ∀ l, (w.born ++ l).take n = w.born.take n :=
    fun hn l => List.take_append_of_le_length hn
  have hget : ∀ k, (w.tracker.registerLive (w.tracker.next kind owner label pid now)).live.get? k =
      if k = liveId kind (w.tracker.counter + 1) then some (w.tracker.next kind owner label pid now)
      else w.tracker.live.get? k := fun k => OrderedMap.get?_set _ _ _ _
  constructor
  · intro n f hn
    obtain hlt | hge := Nat.lt_or_ge n w.born.length
    · exact h.numbered n f (by rwa [step, List.getElem?_append_left hlt] at hn)
    · rw [step, List.getElem?_append_right hge, List.getElem?_singleton] at hn
      obtain ⟨hzero, hnew⟩ := Option.ite_none_right_eq_some.mp hn
      cases hnew
      have hlast : n = w.tracker.counter := by
        rw [h.count]
        omega
      rw [hlast]
      rfl
  · simp [step, Tracker.registerLive, h.count]
  · intro k f hk
    rw [step, hget] at hk
    split at hk
    · cases hk
      exact (‹k = _›).symm
    · exact h.keyed k f hk
  · intro f hf
    rw [step, hget] at hf
    split at hf
    · cases hf
      exact List.mem_append_right _ (List.mem_singleton_self _)
    · exact List.mem_append_left _ (h.known f hf)
  · intro f hf hrunning
    rw [step, hget]
    obtain hf | hf := List.mem_append.mp hf
    · rw [if_neg (hfresh f hf)]
      exact h.tracked f hf hrunning
    · rw [List.mem_singleton.mp hf]
      exact if_pos rfl
  · intro r hr
    have := h.began r hr
    simp only [step, List.length_append]
    omega
  · intro r hr f hf hlive
    rw [step, htake (h.began r hr)] at hf
    rw [step, hget, if_neg (hfresh f (List.mem_of_mem_take hf))] at hlive
    exact h.asked r hr f hf hlive
  · intro s hs
    have := h.given s hs
    simp only [step, List.length_append]
    omega
  · intro s hs f hf
    rw [step, htake (h.given s hs)] at hf
    exact h.shown s hs f hf
  · intro f hf hnone
    rw [step, hget] at hnone
    obtain hold | hnew := List.mem_append.mp hf
    · rw [if_neg (hfresh f hold)] at hnone
      refine (h.removed f hold hnone).imp_right fun hended => ?_
      obtain ⟨d, hd, heq, hjust⟩ := hended
      refine ⟨d, hd, heq, hjust.mono fun e he => ?_⟩
      rw [World.Asked, step, List.take_append]
      exact List.mem_append_left _ he
    · rw [List.mem_singleton.mp hnew, Tracker.next, if_pos rfl] at hnone
      cases hnone

/-! ### A release and an end -/

theorem Sound.unregister (h : Sound w) (n : Nat) : Sound (step w (.unregister n)) := by
  rw [step]
  cases hn : w.born[n]? with
  | none => exact h
  | some e =>
    have hget : ∀ k, (w.tracker.unregister e.id).live.get? k =
        if k = e.id then none else w.tracker.live.get? k := fun k => OrderedMap.get?_erase _ _ _
    have hkept : ∀ {k f}, (w.tracker.unregister e.id).live.get? k = some f → w.tracker.live.get? k = some f := by
      intro k f hk
      rw [hget] at hk
      exact (Option.ite_none_left_eq_some.mp hk).2
    refine ⟨h.numbered, h.count, fun k f hk => h.keyed k f (hkept hk), fun f hf => h.known f (hkept hf), ?_,
      h.began, fun r hr f hf hlive => h.asked r hr f hf (hkept hlive), h.given, h.shown, ?_⟩
    · intro f hf hrunning
      have hne : f.id ≠ e.id := fun heq => hrunning.1 (heq ▸ List.mem_cons_self)
      change (w.tracker.unregister e.id).live.get? f.id = some f
      rw [hget, if_neg hne]
      exact h.tracked f hf ⟨fun hmem => hrunning.1 (List.mem_cons_of_mem _ hmem), hrunning.2⟩
    · intro f hf hnone
      change (w.tracker.unregister e.id).live.get? f.id = none at hnone
      rw [hget] at hnone
      by_cases heq : f.id = e.id
      · exact .inl (heq ▸ List.mem_cons_self)
      · rw [if_neg heq] at hnone
        refine (h.removed f hf hnone).imp (List.mem_cons_of_mem _) fun ⟨d, hd, hentry, hjust⟩ => ?_
        exact ⟨d, hd, hentry, hjust.mono fun _ he => he⟩

theorem Sound.exit (h : Sound w) (n : Nat) : Sound (step w (.exit n)) := by
  rw [step]
  cases w.born[n]? with
  | none => exact h
  | some e =>
    exact { h with
      tracked := fun f hf hrunning =>
        h.tracked f hf ⟨hrunning.1, fun hmem => hrunning.2 (List.mem_cons_of_mem _ hmem)⟩
      removed := fun f hf hnone => (h.removed f hf hnone).imp_right fun ⟨d, hd, hentry, hjust⟩ =>
        ⟨d, hd, hentry, hjust.mono fun _ he => he⟩ }

/-! ### A reading -/

/-- A snapshot loses nothing where every entry it drops has ended, and was rightly taken for ended. -/
theorem Sound.finish (h : Sound w) (hbegan : r.began ≤ w.born.length) {completed : Bool}
    (hdrop : ∀ e ∈ w.born, w.tracker.live.get? e.id = some e → e.unlisted stats = true →
      ¬w.Running e ∧ completed = true ∧ r.machine.isLocal = true ∧ w.Asked r e) :
    Sound (w.finish r stats completed) := by
  have hget : ∀ k, (w.finish r stats completed).tracker.live.get? k =
      (w.tracker.live.get? k).filter fun e => !e.unlisted stats := fun k => h.keyed.get?_judge k
  have hkept : ∀ {k f}, (w.finish r stats completed).tracker.live.get? k = some f →
      w.tracker.live.get? k = some f := by
    intro k f hk
    rw [hget] at hk
    exact (Option.filter_eq_some_iff.mp hk).1
  constructor
  · exact h.numbered
  · exact (counter_judge w.tracker stats).trans h.count
  · exact fun k f hk => h.keyed k f (hkept hk)
  · exact fun f hf => h.known f (hkept hf)
  · intro f hf hrunning
    have hlive := h.tracked f hf hrunning
    rw [hget, hlive, Option.filter_some]
    cases hunlisted : f.unlisted stats with
    | false => rfl
    | true => exact absurd hrunning (hdrop f hf hlive hunlisted).1
  · exact h.began
  · exact fun s hs f hf hlive => h.asked s hs f hf (hkept hlive)
  · intro s hs
    obtain hs | hs := List.mem_append.mp hs
    · exact h.given s hs
    · rw [List.mem_singleton.mp hs]
      exact hbegan
  · intro s hs f hf hrunning
    obtain hs | hs := List.mem_append.mp hs
    · exact h.shown s hs f hf hrunning
    · rw [List.mem_singleton.mp hs] at hrunning ⊢
      obtain ⟨hborn, hrunning⟩ := List.mem_filter.mp hrunning
      have hrunning := of_decide_eq_true hrunning
      have hlive := h.tracked f hborn hrunning
      refine ⟨_, mem_judge.mpr ⟨f, h.keyed.mem_values.mpr hlive, ?_, rfl⟩⟩
      cases hunlisted : f.unlisted stats with
      | false => rfl
      | true => exact absurd hrunning (hdrop f hborn hlive hunlisted).1
  · intro f hf hnone
    rw [hget] at hnone
    cases hlive : w.tracker.live.get? f.id with
    | none =>
      refine (h.removed f hf hlive).imp_right fun ⟨d, hd, hentry, hjust⟩ => ?_
      exact ⟨d, List.mem_append_left _ hd, hentry, hjust.mono fun _ he => he⟩
    | some e =>
      have hsame : e = f := by
        refine h.numbered.eq_of_id (h.known e ?_) hf (h.keyed _ _ hlive)
        rw [h.keyed _ _ hlive]
        exact hlive
      subst hsame
      rw [hlive, Option.filter_some] at hnone
      have hunlisted : e.unlisted stats = true := by
        cases hunlisted : e.unlisted stats with
        | true => rfl
        | false =>
          rw [hunlisted] at hnone
          cases hnone
      obtain ⟨-, hcompleted, hown, hasked⟩ := hdrop e hf hlive hunlisted
      refine .inr ⟨⟨e, r, stats, completed⟩, List.mem_append_right _ ?_, rfl,
        hcompleted, hown, hasked, hunlisted⟩
      exact List.mem_map_of_mem (List.mem_filter.mpr ⟨h.keyed.mem_values.mpr hlive, hunlisted⟩)

theorem pid_of_unlisted (h : e.unlisted stats = true) : ∃ pid, pid ∈ e.pid := by
  cases hpid : e.pid with
  | none =>
    rw [LiveEntry.unlisted, hpid] at h
    cases h
  | some pid => exact ⟨pid, rfl⟩

theorem Sound.tick (h : Sound w) (machines : List Machine) : Sound (step w (.tick machines)) := by
  rw [step]
  cases target machines with
  | none => exact h
  | some machine =>
    have hpids : ∀ e, w.tracker.live.get? e.id = some e → ∀ pid ∈ e.pid,
        pid ∈ w.tracker.live.values.filterMap (·.pid) := fun e he pid hpid =>
      List.mem_filterMap.mpr ⟨e, h.keyed.mem_values.mpr he, hpid⟩
    dsimp only
    split
    · rename_i hnil
      refine h.finish (Nat.le_refl _) fun e he hlive hunlisted => ?_
      obtain ⟨pid, hpid⟩ := pid_of_unlisted hunlisted
      exact absurd (hpids e hlive pid hpid) (hnil ▸ List.not_mem_nil)
    · constructor
      · exact h.numbered
      · exact h.count
      · exact h.keyed
      · exact h.known
      · exact h.tracked
      · intro r hr
        obtain hr | hr := List.mem_append.mp hr
        · exact h.began r hr
        · rw [List.mem_singleton.mp hr]
      · intro r hr e he hlive
        obtain hr | hr := List.mem_append.mp hr
        · exact h.asked r hr e he hlive
        · rw [List.mem_singleton.mp hr]
          exact hpids e hlive
      · exact h.given
      · exact h.shown
      · exact fun e he hnone => (h.removed e he hnone).imp_right fun ⟨d, hd, hentry, hjust⟩ =>
          ⟨d, hd, hentry, hjust.mono fun _ he => he⟩

/-- The world without a reading. -/
theorem Sound.without (h : Sound w) (i : Nat) : Sound { w with readings := w.readings.eraseIdx i } :=
  { h with
    began := fun r hr => h.began r (List.mem_of_mem_eraseIdx hr)
    asked := fun r hr => h.asked r (List.mem_of_mem_eraseIdx hr)
    removed := fun e he hnone => (h.removed e he hnone).imp_right fun ⟨d, hd, hentry, hjust⟩ =>
      ⟨d, hd, hentry, hjust.mono fun _ he => he⟩ }

theorem Sound.answered (h : Sound w) {i : Nat} {stdout : Text} {completed : Bool}
    (htells : PsTells w (.answered i stdout completed))
    (hasked : LeavesOutOnlyAsked w (.answered i stdout completed)) :
    Sound (step w (.answered i stdout completed)) := by
  rw [step]
  cases hr : w.readings[i]? with
  | none => exact h
  | some r =>
    have hmem : r ∈ w.readings := List.mem_of_getElem? hr
    refine (h.without i).finish (h.began r hmem) fun e he hlive hunlisted => ?_
    obtain ⟨hcompleted, hown, hask⟩ := hasked r hr e (h.keyed.mem_values.mpr hlive) hunlisted
    refine ⟨fun hrunning => ?_, hcompleted, hown, hask⟩
    rw [hcompleted] at htells
    have hlisted := htells r hr hown e hask hrunning (h.asked r hmem e hask hlive)
    rw [hunlisted] at hlisted
    cases hlisted

theorem Sound.step (h : Sound w) {event : Event} (htells : PsTells w event)
    (hasked : LeavesOutOnlyAsked w event) : Sound (step w event) := by
  cases event with
  | register kind owner label pid now => exact h.register kind owner label pid now
  | unregister n => exact h.unregister n
  | exit n => exact h.exit n
  | tick machines => exact h.tick machines
  | answered i stdout completed => exact h.answered htells hasked
  | rejected i => exact h.without i

/-- No running command is lost in a run in which an answer leaves out only entries that it was asked
for, by a `ps` that completed on the app's machine. -/
theorem services_never_lost {events : List Event}
    (h : Guarded step (fun w event => PsTells w event ∧ LeavesOutOnlyAsked w event) .start events) :
    NeverLost (run step .start events) :=
  (run_preserves (fun _ _ hw hok => hw.step hok.1 hok.2) h sound_start).neverLost

instance (w : World) : (event : Event) → Decidable (PsTells w event)
  | .answered i stdout true => inferInstanceAs (Decidable (∀ r ∈ w.readings[i]?, r.machine.isLocal = true →
      ∀ e ∈ w.born.take r.began, w.Running e → (∀ pid ∈ e.pid, pid ∈ r.pids) →
        e.unlisted (procStats stdout) = false))
  | .answered _ _ false => .isTrue trivial
  | .register _ _ _ _ _ => .isTrue trivial
  | .unregister _ => .isTrue trivial
  | .exit _ => .isTrue trivial
  | .tick _ => .isTrue trivial
  | .rejected _ => .isTrue trivial

instance (w : World) : (event : Event) → Decidable (LeavesOutOnlyAsked w event)
  | .answered i stdout completed => inferInstanceAs (Decidable (∀ r ∈ w.readings[i]?,
      ∀ e ∈ w.tracker.live.values, e.unlisted (procStats stdout) = true →
        completed = true ∧ r.machine.isLocal = true ∧ w.Asked r e))
  | .register _ _ _ _ _ => .isTrue trivial
  | .unregister _ => .isTrue trivial
  | .exit _ => .isTrue trivial
  | .tick _ => .isTrue trivial
  | .rejected _ => .isTrue trivial

/-- Two commands, one of which ends between two readings. -/
def upgradeRun : List Event :=
  [.register .stream (js "core") (js "apt-get upgrade") (some 4711) 1000, .tick [⟨js "m1", true⟩],
    .answered 0 (js " 4711  1.5  2048\n") true, .register .shell (js "terminal:m1") (js "Shell") (some 4720) 2000,
    .exit 0, .tick [⟨js "m2", false⟩, ⟨js "m1", true⟩], .answered 0 (js " 4720  0.0  1024\n") true, .unregister 0]

theorem services_never_lost_upgrade : NeverLost (run step .start upgradeRun) :=
  services_never_lost (by decide +kernel)

/-- A command that starts while a reading waits: the answer was not asked for it, and it is dropped. -/
def lateRun : List Event :=
  [.register .stream (js "core") (js "apt-get upgrade") (some 4711) 1000, .tick [⟨js "m1", true⟩],
    .register .stream (js "docker") (js "docker logs -f db") (some 4720) 2000,
    .answered 0 (js " 4711  1.5  2048\n") true]

theorem late_command_is_lost : Guarded step PsTells .start lateRun ∧ ¬NeverLost (run step .start lateRun) := by
  refine ⟨by decide +kernel, fun h => ?_⟩
  have hlast : (run step .start lateRun).born[1]? =
      some ⟨js "stream-2", .stream, js "docker", js "docker logs -f db", some 4720, 2000⟩ := by decide +kernel
  have htracked := h.tracked _ (List.mem_of_getElem? hlast) (by decide +kernel)
  exact absurd htracked (by decide +kernel)

end BoredManager.Server.Services
