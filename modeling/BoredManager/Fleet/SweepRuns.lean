import BoredManager.Fleet.Sweep

/-! A card stays, and its reading never goes back, exactly as long as a sweep that is folded in has
asked every machine with a card and none that was read on its own after that. -/
namespace BoredManager.Fleet.Sweeps
open BoredManager.Js BoredManager.Machine BoredManager.Fleet.Targets

variable {setup : Setup} {now : Int} {roster : Roster} {entry : SweepEntry} {s : Sweeper}

/-! ### Folding entries in -/

theorem live_mergeEntry (ip : Text) :
    (mergeEntry setup now roster entry).live.get? ip =
      if ip = entry.ip ∧ earnsRecord roster.hosts entry = true then
        some (buildLive setup now entry (buildRecord setup now entry (roster.hosts.get? entry.ip)))
      else roster.live.get? ip := by
  rw [mergeEntry]
  cases earnsRecord roster.hosts entry with
  | false => simp
  | true => simp

theorem hosts_mergeEntry {ip : Text} : (mergeEntry setup now roster entry).hosts.has ip = true ↔
    ip = entry.ip ∧ earnsRecord roster.hosts entry = true ∨ roster.hosts.has ip = true := by
  rw [mergeEntry]
  cases earnsRecord roster.hosts entry with
  | false => simp
  | true =>
    simp only [Bool.true_eq_false, if_false, and_true]
    rw [OrderedMap.has_iff, OrderedMap.has_iff, OrderedMap.mem_keys_set]

/-- Every card has a record, and is red if its machine was not reached. -/
structure Recorded (roster : Roster) : Prop where
  records : ∀ ip card, roster.live.get? ip = some card → roster.hosts.has ip = true
  red : ∀ ip card, roster.live.get? ip = some card → card.reach ≠ .ok → card.status = .bad

theorem buildLive_red {record : HostRecord} (h : entry.reach ≠ .ok) :
    (buildLive setup now entry record).status = .bad := by
  rw [buildLive]
  dsimp only
  rw [judgeEntry, if_pos h]

theorem Recorded.mergeEntry (h : Recorded roster) : Recorded (mergeEntry setup now roster entry) := by
  constructor
  · intro ip card hcard
    rw [live_mergeEntry] at hcard
    rw [hosts_mergeEntry]
    split_ifs at hcard with hnew
    · exact .inl hnew
    · exact .inr (h.records ip card hcard)
  · intro ip card hcard hreach
    rw [live_mergeEntry] at hcard
    split_ifs at hcard
    · cases hcard
      exact buildLive_red hreach
    · exact h.red ip card hcard hreach

theorem Recorded.mergeInto (h : Recorded roster) (entries : List SweepEntry) :
    Recorded (mergeInto setup now roster entries) := by
  induction entries generalizing roster with
  | nil => exact h
  | cons entry entries ih => exact ih h.mergeEntry

theorem Recorded.cleared (roster : Roster) : Recorded { roster with live := .empty } :=
  ⟨by simp, by simp⟩

/-- An address that is not among the entries keeps what it has. -/
theorem get?_mergeInto_of_not_mem {entries : List SweepEntry} {ip : Text}
    (h : ip ∉ entries.map SweepEntry.ip) :
    (mergeInto setup now roster entries).live.get? ip = roster.live.get? ip := by
  induction entries generalizing roster with
  | nil => rfl
  | cons entry entries ih =>
    rw [List.map_cons, List.mem_cons, not_or] at h
    refine (ih h.2).trans ?_
    rw [live_mergeEntry, if_neg fun hnew => h.1 hnew.1]

/-- An address with a record gets the card of its entry. -/
theorem get?_mergeInto_of_mem {entries : List SweepEntry} (hnodup : (entries.map SweepEntry.ip).Nodup)
    (hmem : entry ∈ entries) (hhas : roster.hosts.has entry.ip = true) :
    ∃ card, (mergeInto setup now roster entries).live.get? entry.ip = some card ∧
      card.asked = entry.asked := by
  induction entries generalizing roster with
  | nil => cases hmem
  | cons first entries ih =>
    rw [List.map_cons, List.nodup_cons] at hnodup
    obtain rfl | hmem := List.mem_cons.mp hmem
    · refine ⟨_, (get?_mergeInto_of_not_mem hnodup.1).trans ((live_mergeEntry _).trans (if_pos ?_)), ?_⟩
      · exact ⟨rfl, by rw [earnsRecord, hhas, Bool.or_true]⟩
      · rfl
    · exact ih hnodup.2 hmem (hosts_mergeEntry.mpr (.inr hhas))

/-! ### Two moments of a run -/

/-- Every card stays, and none goes back to a reading that was asked for earlier. -/
def Keeps (before after : Roster) : Prop :=
  ∀ ip card, before.live.get? ip = some card →
    ∃ later, after.live.get? ip = some later ∧ card.asked ≤ later.asked

theorem Keeps.refl (roster : Roster) : Keeps roster roster := fun _ card h => ⟨card, h, le_refl _⟩

theorem Keeps.trans {a b c : Roster} (hab : Keeps a b) (hbc : Keeps b c) : Keeps a c := by
  intro ip card hcard
  obtain ⟨later, hlater, hle⟩ := hab ip card hcard
  obtain ⟨last, hlast, hle'⟩ := hbc ip later hlater
  exact ⟨last, hlast, hle.trans hle'⟩

/-- Every address with a card is asked, and not before the card's reading was. -/
def Covers (live : OrderedMap Text HostLive) (asked : List (Text × Nat)) : Prop :=
  ∀ e ∈ live.entries, ∃ a ∈ asked, a.1 = e.1 ∧ e.2.asked ≤ a.2

def SweepEntry.question (entry : SweepEntry) : Text × Nat := (entry.ip, entry.asked)

theorem keeps_apply_iff (h : Recorded roster) {entries : List SweepEntry}
    (hnodup : (entries.map SweepEntry.ip).Nodup) :
    Keeps roster (roster.apply setup now entries) ↔
      Covers roster.live (entries.map SweepEntry.question) := by
  have hnew : ∀ entry ∈ entries, roster.hosts.has entry.ip = true → ∃ card,
      (roster.apply setup now entries).live.get? entry.ip = some card ∧ card.asked = entry.asked :=
    fun entry hmem hhas => get?_mergeInto_of_mem hnodup hmem hhas
  constructor
  · intro hkeeps e he
    obtain ⟨later, hlater, hle⟩ := hkeeps e.1 e.2 (OrderedMap.get?_eq_some.mpr he)
    have hmem : e.1 ∈ entries.map SweepEntry.ip := by
      by_contra hnot
      rw [Roster.apply, get?_mergeInto_of_not_mem hnot] at hlater
      cases hlater
    obtain ⟨entry, hentry, hip⟩ := List.mem_map.mp hmem
    have hhas := h.records e.1 e.2 (OrderedMap.get?_eq_some.mpr he)
    obtain ⟨card, hcard, hasked⟩ := hnew entry hentry (hip ▸ hhas)
    rw [hip, hlater] at hcard
    cases hcard
    exact ⟨entry.question, List.mem_map_of_mem hentry, hip, hle.trans_eq hasked⟩
  · intro hcovers ip card hcard
    obtain ⟨a, ha, hip, hle⟩ := hcovers (ip, card) (OrderedMap.get?_eq_some.mp hcard)
    obtain ⟨entry, hentry, rfl⟩ := List.mem_map.mp ha
    have hip : entry.ip = ip := hip
    obtain ⟨later, hlater, hasked⟩ := hnew entry hentry (hip ▸ h.records ip card hcard)
    exact ⟨later, hip ▸ hlater, hle.trans_eq hasked.symm⟩

theorem keeps_applyOne_iff (h : Recorded roster) :
    Keeps roster (roster.applyOne setup now entry) ↔
      ∀ card ∈ roster.live.get? entry.ip, card.asked ≤ entry.asked := by
  have hself : ∀ card, roster.live.get? entry.ip = some card → ∃ later,
      (roster.applyOne setup now entry).live.get? entry.ip = some later ∧
        later.asked = entry.asked := fun card hcard =>
    get?_mergeInto_of_mem (List.nodup_singleton _) (List.mem_singleton.mpr rfl)
      (h.records entry.ip card hcard)
  constructor
  · intro hkeeps card hcard
    obtain ⟨later, hlater, hle⟩ := hkeeps entry.ip card hcard
    obtain ⟨own, hown, hasked⟩ := hself card hcard
    rw [hlater] at hown
    cases hown
    exact hle.trans_eq hasked
  · intro hnewer ip card hcard
    by_cases hip : ip = entry.ip
    · subst hip
      obtain ⟨later, hlater, hasked⟩ := hself card hcard
      exact ⟨later, hlater, (hnewer card hcard).trans_eq hasked.symm⟩
    · refine ⟨card, ?_, le_refl _⟩
      rw [Roster.applyOne, get?_mergeInto_of_not_mem (by simpa using hip)]
      exact hcard

/-! ### The sweeper -/

/-- What a sweep has asked so far. -/
def Sweeping.askedFor (w : Sweeping) : List (Text × Nat) :=
  w.results.map (fun answer => (answer.result.ip, answer.asked)) ++
    w.batch.map fun target => (target.ip, w.asked)

/-- What is asked of an event: a sweep is folded in only if it has asked every machine with a card
and none of them was read by a command sent after that; a machine's own answer is folded in only if
no later one was. -/
def Sweeper.Allowed (setup : Setup) (s : Sweeper) : SweepEvent → Prop
  | .sweep problem _ =>
    s.sweeping = none → s.connected = true → problem = false →
      (planTargets setup.targets setup.maxHosts).targets.isEmpty = true → s.roster.live.entries = []
  | .answered _ _ => ∀ w ∈ s.sweeping, s.stops w.rest = true → Covers s.roster.live w.askedFor
  | .refreshed n _ _ => ∀ p ∈ s.pending[n]?, ∀ card ∈ s.roster.live.get? p.ip, card.asked ≤ p.asked
  | _ => True

/-- What every run keeps: the roster's cards are recorded, and a sweep asks no address twice. -/
structure Sweeper.Sound (s : Sweeper) : Prop where
  roster : Recorded s.roster
  once : ∀ w ∈ s.sweeping, (w.askedFor.map Prod.fst ++ w.rest.map FanoutTarget.ip).Nodup

theorem answerOf_ip (res : ExecResult) (ip : Text) : (answerOf res ip).ip = ip := by
  rw [answerOf]
  cases hfind : (parseFrames res.stdout).findRev? (·.ip == ip) with
  | none => rfl
  | some result =>
    rw [List.findRev?_eq_find?_reverse] at hfind
    simpa using List.find?_some hfind

theorem questions_entries (first : FanoutTarget) (more : List FanoutTarget) (results : List Asked) :
    (entries setup first more results).map SweepEntry.question =
      results.map fun answer => (answer.result.ip, answer.asked) := by
  rw [entries, List.map_map]
  exact List.map_congr_left fun answer _ => rfl

theorem askedFor_answers (w : Sweeping) (res : ExecResult) :
    (w.answers res).map (fun answer => (answer.result.ip, answer.asked)) = w.askedFor := by
  rw [Sweeping.answers, List.map_append, List.map_map, Sweeping.askedFor]
  congr 1
  exact List.map_congr_left fun target _ => by simp [answerOf_ip]

theorem ips_entries {entries : List SweepEntry} :
    entries.map SweepEntry.ip = (entries.map SweepEntry.question).map Prod.fst := by
  rw [List.map_map]
  rfl

theorem nodup_planTargets (setup : Setup) :
    ((planTargets setup.targets setup.maxHosts).targets.map FanoutTarget.ip).Nodup := by
  have h := planned_planTargets setup.targets setup.maxHosts
  exact h.seen ▸ h.nodup

/-- The head of the loop: a batch more is asked, or the sweep is folded in. -/
theorem sound_next (h : Recorded s.roster) {first : FanoutTarget} {more rest : List FanoutTarget}
    {results : List Asked}
    (hnodup : (results.map (fun answer => answer.result.ip) ++ rest.map FanoutTarget.ip).Nodup) :
    (s.next setup now first more results rest).Sound := by
  rw [Sweeper.next]
  split_ifs
  · exact ⟨(Recorded.cleared s.roster).mergeInto _, by rintro w ⟨⟩⟩
  · refine ⟨h, fun w hw => ?_⟩
    cases hw
    have hrest : rest.map FanoutTarget.ip = (rest.take (batchSize setup)).map FanoutTarget.ip ++
        (rest.drop (batchSize setup)).map FanoutTarget.ip := by
      rw [← List.map_append, List.take_append_drop]
    rw [hrest, ← List.append_assoc] at hnodup
    rw [Sweeping.askedFor, List.map_append, List.map_map, List.map_map]
    exact hnodup

theorem keeps_next_iff (h : Recorded s.roster) {first : FanoutTarget} {more rest : List FanoutTarget}
    {results : List Asked} (hnodup : (results.map fun answer => answer.result.ip).Nodup) :
    Keeps s.roster (s.next setup now first more results rest).roster ↔
      (s.stops rest = true → Covers s.roster.live
        (results.map fun answer => (answer.result.ip, answer.asked))) := by
  rw [Sweeper.next]
  split_ifs with hstops
  · have hips : ((entries setup first more results).map SweepEntry.ip).Nodup := by
      rw [ips_entries, questions_entries, List.map_map]
      exact hnodup
    rw [keeps_apply_iff h hips, questions_entries]
    exact ⟨fun hcovers _ => hcovers, fun hcovers => hcovers hstops⟩
  · exact iff_of_true (Keeps.refl _) fun hstop => absurd hstop hstops

/-- The answer of a batch asks nothing twice that was not. -/
theorem once_answers {w : Sweeping} (res : ExecResult)
    (h : (w.askedFor.map Prod.fst ++ w.rest.map FanoutTarget.ip).Nodup) :
    ((w.answers res).map (fun answer => answer.result.ip) ++ w.rest.map FanoutTarget.ip).Nodup := by
  have hips : (w.answers res).map (fun answer => answer.result.ip) = w.askedFor.map Prod.fst := by
    rw [← askedFor_answers w res, List.map_map]
    rfl
  rwa [hips]

theorem Sweeper.Sound.step (h : s.Sound) (event : SweepEvent) : (s.step setup event).Sound := by
  cases event with
  | sweep problem now =>
    rw [Sweeper.step, Sweeper.sweep]
    split_ifs
    · exact h
    · cases hplan : (planTargets setup.targets setup.maxHosts).targets with
      | nil => exact ⟨(Recorded.cleared s.roster).mergeInto _, h.once⟩
      | cons first more =>
        have hnodup := nodup_planTargets setup
        rw [hplan] at hnodup
        refine sound_next (s := { s with cancelRequested := false }) h.roster ?_
        rwa [List.map_nil, List.nil_append]
  | answered res now =>
    rw [Sweeper.step]
    cases hw : s.sweeping with
    | none => exact h
    | some w => exact sound_next h.roster (once_answers res (h.once w hw))
  | failed => exact ⟨h.roster, by rintro w ⟨⟩⟩
  | cancel =>
    rw [Sweeper.step]
    split_ifs
    · exact ⟨h.roster, h.once⟩
    · exact h
  | refresh ip =>
    rw [Sweeper.step, Sweeper.refresh]
    cases resolveCredential ip setup.targets with
    | none => exact h
    | some cred =>
      dsimp only
      split_ifs
      · exact h
      · exact ⟨h.roster, h.once⟩
  | refreshed n res now =>
    rw [Sweeper.step, Sweeper.refreshed]
    cases s.pending[n]? with
    | none => exact h
    | some p => exact ⟨h.roster.mergeInto _, h.once⟩
  | refreshFailed n => exact ⟨h.roster, h.once⟩
  | connection up => exact ⟨h.roster, h.once⟩

/-- One event keeps every card and every newer reading exactly if it is allowed. -/
theorem allowed_iff (h : s.Sound) (event : SweepEvent) :
    s.Allowed setup event ↔ Keeps s.roster (s.step setup event).roster := by
  cases event with
  | sweep problem now =>
    rw [Sweeper.step, Sweeper.sweep, Sweeper.Allowed]
    by_cases hjoin : (s.sweeping.isSome || !s.connected || problem) = true
    · rw [if_pos hjoin]
      refine iff_of_true (fun hnone hup hfine _ => absurd hjoin ?_) (Keeps.refl _)
      simp [hnone, hup, hfine]
    · rw [if_neg hjoin]
      simp only [Bool.or_eq_true, Option.isSome_iff_ne_none, Bool.not_eq_true', not_or, not_not,
        Bool.not_eq_false, Bool.not_eq_true] at hjoin
      obtain ⟨⟨hnone, hup⟩, hfine⟩ := hjoin
      cases hplan : (planTargets setup.targets setup.maxHosts).targets with
      | nil =>
        have hnodup : (([] : List SweepEntry).map SweepEntry.ip).Nodup := List.nodup_nil
        refine Iff.trans ?_ (@keeps_apply_iff setup now s.roster h.roster [] hnodup).symm
        simp only [hnone, hup, hfine, List.isEmpty_nil, forall_const]
        rw [List.eq_nil_iff_forall_not_mem]
        exact forall_congr' fun e => by simp
      | cons first more =>
        refine iff_of_true (fun _ _ _ hempty => by simp at hempty) ?_
        have hnodup : (([] : List Asked).map fun answer => answer.result.ip).Nodup := List.nodup_nil
        refine (keeps_next_iff (s := { s with cancelRequested := false }) h.roster hnodup).mpr
          fun hstops => ?_
        simp [Sweeper.stops, hup] at hstops
  | answered res now =>
    rw [Sweeper.step, Sweeper.Allowed]
    cases hw : s.sweeping with
    | none => exact iff_of_true (by rintro w ⟨⟩) (Keeps.refl _)
    | some w =>
      have honce := (once_answers res (h.once w hw)).sublist (List.sublist_append_left _ _)
      refine Iff.trans ?_ (keeps_next_iff h.roster honce).symm
      rw [askedFor_answers]
      simp
  | refreshed n res now =>
    rw [Sweeper.step, Sweeper.refreshed, Sweeper.Allowed]
    cases hp : s.pending[n]? with
    | none => exact iff_of_true (by rintro p ⟨⟩) (Keeps.refl _)
    | some p =>
      refine Iff.trans ?_ (keeps_applyOne_iff h.roster).symm
      simp [entryOf, answerOf_ip]
  | refresh ip =>
    refine iff_of_true trivial ?_
    rw [Sweeper.step, Sweeper.refresh]
    cases resolveCredential ip setup.targets with
    | none => exact Keeps.refl _
    | some cred =>
      dsimp only
      split_ifs <;> exact Keeps.refl _
  | cancel =>
    refine iff_of_true trivial ?_
    rw [Sweeper.step]
    split_ifs <;> exact Keeps.refl _
  | failed => exact iff_of_true trivial (Keeps.refl _)
  | refreshFailed n => exact iff_of_true trivial (Keeps.refl _)
  | connection up => exact iff_of_true trivial (Keeps.refl _)

theorem sound_start (hosts : OrderedMap Text HostRecord) (connected : Bool) :
    (Sweeper.start hosts connected).Sound :=
  ⟨⟨by simp [Sweeper.start], by simp [Sweeper.start]⟩, by rintro w ⟨⟩⟩

/-- In a run all of whose events are allowed, and in no other, every card stays with a reading that
never goes back, between any two moments; and the card of a machine that was not reached is red. -/
theorem cards_stay (setup : Setup) (hosts : OrderedMap Text HostRecord) (connected : Bool)
    (events : List SweepEvent) :
    (Guarded (Sweeper.step setup) (Sweeper.Allowed setup) (.start hosts connected) events ↔
      ∀ before after more, before ++ (after ++ more) = events →
        Keeps (run (Sweeper.step setup) (.start hosts connected) before).roster
          (run (Sweeper.step setup) (.start hosts connected) (before ++ after)).roster) ∧
    ∀ ip card, (run (Sweeper.step setup) (.start hosts connected) events).roster.live.get? ip = some card →
      card.reach ≠ .ok → card.status = .bad := by
  have hstart := sound_start hosts connected
  have hsteps : ∀ s event, Sweeper.Sound s → (s.step setup event).Sound := fun s event h => h.step event
  constructor
  · have hpairs := @guarded_rel_iff _ _ (Sweeper.step setup) (fun s t => Keeps s.roster t.roster)
      (fun s => Keeps.refl _) (fun s t u => Keeps.trans) (.start hosts connected) events
    rw [guarded_congr hsteps (fun s event h => allowed_iff h event) hstart, hpairs]
    simp only [run_append]
  · have hend : (run (Sweeper.step setup) (.start hosts connected) events).Sound :=
      List.foldlRecOn events (Sweeper.step setup) hstart fun s h event _ => h.step event
    exact hend.roster.red

/-- Three addresses of their own, asked two at a time. -/
def threeHosts : Setup where
  targets := ["10.0.0.1", "10.0.0.2", "10.0.0.3"].map fun ip => ⟨js ip, .host, js ip, true, []⟩
  maxHosts := 256
  maxParallel := 1
  maxUnitsPerHost := 120
  criticalDownIsRed := true
  watched := []
  login := fun _ => ⟨[], .none⟩
  facts := fun _ => none

/-- A sweep, and one that is cancelled after its first batch. -/
def sweptThenCancelled : List SweepEvent :=
  [.sweep false 1, .answered ⟨[], []⟩ 2, .answered ⟨[], []⟩ 3, .sweep false 4, .cancel]

/-- A sweep whose first machine is read on its own while its second batch is asked. -/
def overtaken : List SweepEvent :=
  [.sweep false 1, .answered ⟨[], []⟩ 2, .refresh (js "10.0.0.1"), .refreshed 0 ⟨[], []⟩ 3]

/-- The cancelled sweep takes the third card away, and the overtaken one goes back from the reading
asked for third to the one asked for first. -/
theorem card_is_lost :
    let after := fun events => (run (Sweeper.step threeHosts) (.start .empty true) events).roster.live
    let answer := SweepEvent.answered ⟨[], []⟩ 9
    (after sweptThenCancelled).has (js "10.0.0.3") = true ∧
    (after (sweptThenCancelled ++ [answer])).has (js "10.0.0.3") = false ∧
    ((after overtaken).get? (js "10.0.0.1")).map HostLive.asked = some 2 ∧
    ((after (overtaken ++ [answer])).get? (js "10.0.0.1")).map HostLive.asked = some 0 := by
  decide +kernel

end BoredManager.Fleet.Sweeps
