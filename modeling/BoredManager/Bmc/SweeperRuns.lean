import BoredManager.Bmc.SweeperQueue

/-! Readings: a state comes from a probe of the stored machine, and a sweep sets only what nothing
newer was known of. The versions tell a sweep which machines were read or edited after it began. -/
namespace BoredManager.Bmc.Sweeper
open BoredManager.Js BoredManager.Machine

variable {s t : Sweeper} {n : Nat} {w : Sweep} {p : Probing} {id : Text} {reading : Reading}

/-! ### What is kept of the readings -/

/-- Every reading is of a stored machine, of this generation, and newer than those it replaced. -/
structure Data (s : Sweeper) : Prop where
  exact : ∀ e ∈ s.states.entries, e.2.probe.machine ∈ s.config.machines ∧ e.2.probe.machine.id = e.1 ∧
    e.2.probe.generation = s.generation ∧ e.2.state.revision = e.2.probe.machine.revision
  began : ∀ e ∈ s.states.entries, e.2.probe.began ≤ s.clock
  newer : ∀ e ∈ s.replaced, e.1.probe.began ≤ e.2.probe.ended
  asked : ∀ r ∈ s.refreshes, r.asked.began ≤ s.clock

/-- The version of a machine that a sweep captured. -/
def capturedVersion (p : Probing) (id : Text) : Nat := (p.versions.get? id).getD 0

/-- An update of a sweep. -/
structure UpdateOf (s : Sweeper) (p : Probing) (e : Text × Update) : Prop where
  key : e.1 = e.2.fingerprint.id
  mem : e.2.fingerprint ∈ p.machines
  machine : e.2.reading.probe.machine = e.2.fingerprint
  generation : e.2.reading.probe.generation = s.generation
  revision : e.2.reading.state.revision = e.2.fingerprint.revision
  ended : p.captured ≤ e.2.reading.probe.ended
  began : e.2.reading.probe.began ≤ s.clock
  version : e.2.version = capturedVersion p e.1

/-- A machine that a sweep found and that is still stored: as long as its version is the one that was
captured, what is known of it, or is being asked, was asked for before. -/
structure Watched (s : Sweeper) (p : Probing) (m : BmcMachine) : Prop where
  le : capturedVersion p m.id ≤ s.stateVersion m.id
  known : s.stateVersion m.id = capturedVersion p m.id → ∀ reading ∈ s.states.get? m.id,
    reading.probe.began ≤ p.captured
  pending : ∀ r ∈ s.refreshes, r.asked.machine.id = m.id → r.generation = s.generation →
    r.version ≤ capturedVersion p m.id → r.asked.began ≤ p.captured

/-- What holds of the sweep of this generation. -/
structure Guards (s : Sweeper) (p : Probing) : Prop where
  captured : p.captured ≤ s.clock
  drawn : ∀ m ∈ p.machines, m.revision < s.config.drawn
  running : ∀ a ∈ p.running, a.machine ∈ p.machines ∧ p.captured ≤ a.began ∧ a.began ≤ s.clock
  rest : ∀ m ∈ p.rest, m ∈ p.machines
  updates : ∀ e ∈ p.updates.entries, s.UpdateOf p e
  watched : ∀ m ∈ p.machines, m ∈ s.config.machines → s.Watched p m

/-- A step of the readings: what was kept is kept, and the sweeps are as they were. -/
structure Keeps (s t : Sweeper) : Prop where
  data : s.Data → t.Data
  guards : ∀ p, s.Guards p → t.Guards p
  sweeps : t.sweeps = s.sweeps
  generation : t.generation = s.generation

theorem Keeps.refl (s : Sweeper) : Keeps s s := ⟨id, fun _ h => h, rfl, rfl⟩

theorem Keeps.trans {u : Sweeper} (h : Keeps s t) (h' : Keeps t u) : Keeps s u :=
  ⟨fun hd => h'.data (h.data hd), fun p hg => h'.guards p (h.guards p hg), h'.sweeps.trans h.sweeps,
    h'.generation.trans h.generation⟩

theorem UpdateOf.congr {e : Text × Update} (h : s.UpdateOf p e) (hgen : t.generation = s.generation)
    (hclock : s.clock ≤ t.clock) : t.UpdateOf p e :=
  ⟨h.key, h.mem, h.machine, h.generation.trans hgen.symm, h.revision, h.ended, h.began.trans hclock,
    h.version⟩

/-- A step that leaves the clock and the generation alone. -/
theorem Guards.congr (h : s.Guards p) (hgen : t.generation = s.generation) (hclock : s.clock ≤ t.clock)
    (hdrawn : s.config.drawn ≤ t.config.drawn)
    (hwatched : ∀ m ∈ p.machines, m ∈ t.config.machines → t.Watched p m) : t.Guards p :=
  ⟨h.captured.trans hclock, fun m hm => (h.drawn m hm).trans_le hdrawn,
    fun a ha => ⟨(h.running a ha).1, (h.running a ha).2.1, (h.running a ha).2.2.trans hclock⟩, h.rest,
    fun e he => (h.updates e he).congr hgen hclock, hwatched⟩

/-! ### The steps of the readings -/

theorem keeps_tick (s : Sweeper) : Keeps s s.tick where
  data h := ⟨h.exact, fun e he => (h.began e he).trans (Nat.le_succ _), h.newer,
    fun r hr => (h.asked r hr).trans (Nat.le_succ _)⟩
  guards _ h := h.congr rfl (Nat.le_succ _) le_rfl fun m hm hc =>
    ⟨(h.watched m hm hc).le, (h.watched m hm hc).known, (h.watched m hm hc).pending⟩
  sweeps := rfl
  generation := rfl

theorem stateVersion_bump (s : Sweeper) (id other : Text) :
    (s.bumpStateVersion id).stateVersion other =
      if other = id then s.stateVersion id + 1 else s.stateVersion other := by
  rw [stateVersion, bumpStateVersion, OrderedMap.get?_set]
  split_ifs <;> rfl

theorem keeps_bump (s : Sweeper) (id : Text) : Keeps s (s.bumpStateVersion id) where
  data h := ⟨h.exact, h.began, h.newer, h.asked⟩
  guards p h := h.congr rfl le_rfl le_rfl fun m hm hc => by
    obtain ⟨hle, hknown, hpending⟩ := h.watched m hm hc
    refine ⟨?_, fun heq => ?_, hpending⟩
    · rw [stateVersion_bump]
      split_ifs with hid
      · rw [hid] at hle ⊢
        exact hle.trans (Nat.le_succ _)
      · exact hle
    · rw [stateVersion_bump] at heq
      split_ifs at heq with hid
      · rw [← hid] at heq
        omega
      · exact hknown heq
  sweeps := rfl
  generation := rfl

theorem get?_keep {ν : Type} (m : OrderedMap Text ν) (q : Text × ν → Bool) (k : Text) :
    (keep m q).get? k = (m.get? k).filter fun v => q (k, v) := by
  refine Option.ext fun v => ?_
  rw [OrderedMap.get?_eq_some, Option.filter_eq_some_iff, OrderedMap.get?_eq_some, keep,
    List.mem_filter]

theorem keeps_publishCards (s : Sweeper) : Keeps s s.publishCards where
  data h := ⟨fun e he => h.exact e (List.mem_of_mem_filter he),
    fun e he => h.began e (List.mem_of_mem_filter he), h.newer, h.asked⟩
  guards p h := h.congr rfl le_rfl le_rfl fun m hm hc => by
    obtain ⟨hle, hknown, hpending⟩ := h.watched m hm hc
    have hfind : s.config.find m.id = some m := ConfigStore.find_eq_some.mpr ⟨hc, rfl⟩
    have hversion : s.publishCards.stateVersion m.id = s.stateVersion m.id := by
      rw [stateVersion, publishCards, get?_keep, stateVersion]
      cases s.stateVersions.get? m.id <;> simp [hfind, Option.filter]
    refine ⟨hversion ▸ hle, fun heq reading hr => hknown (hversion ▸ heq) reading ?_, hpending⟩
    rw [publishCards, get?_keep] at hr
    exact (Option.filter_eq_some_iff.mp hr).1
  sweeps := rfl
  generation := rfl

/-- An edit of the document that takes the state of its machine away. -/
theorem keeps_edit (s : Sweeper) (id : Text) (config : ConfigStore)
    (hkeep : ∀ m ∈ s.config.machines, m.id ≠ id → m ∈ config.machines)
    (hnew : ∀ m ∈ config.machines, m ∈ s.config.machines ∨ s.config.drawn ≤ m.revision)
    (hdrawn : s.config.drawn ≤ config.drawn) :
    Keeps s { s with config := config, states := s.states.erase id } where
  data h := by
    refine ⟨fun e he => ?_, fun e he => h.began e (List.mem_of_mem_filter he), h.newer, h.asked⟩
    obtain ⟨he, hne⟩ := OrderedMap.mem_entries_erase.mp he
    obtain ⟨hm, hid, hrest⟩ := h.exact e he
    exact ⟨hkeep _ hm (hid ▸ hne), hid, hrest⟩
  guards p h := h.congr rfl le_rfl hdrawn fun m hm hc => by
    have hold : m ∈ s.config.machines :=
      (hnew m hc).resolve_right (Nat.not_le_of_gt (h.drawn m hm))
    obtain ⟨hle, hknown, hpending⟩ := h.watched m hm hold
    refine ⟨hle, fun heq reading hr => hknown heq reading ?_, hpending⟩
    have hr : (s.states.erase id).get? m.id = some reading := hr
    rw [OrderedMap.get?_erase] at hr
    split_ifs at hr
    exact hr
  sweeps := rfl
  generation := rfl

theorem keeps_forgetMachine (s : Sweeper) (id : Text) : Keeps s (s.forgetMachine id) := by
  have hedit := keeps_edit s id s.config (fun m hm _ => hm) (fun m hm => .inl hm) le_rfl
  exact (hedit.trans (keeps_bump _ id)).trans (keeps_publishCards _)

theorem mem_save {c : ConfigStore} {fields : Fields} {m : BmcMachine} :
    m ∈ (c.save id fields).machines ↔ m = ⟨id, c.drawn, fields⟩ ∨ m ∈ c.machines ∧ m.id ≠ id := by
  by_cases hmem : id ∈ c.machines.map BmcMachine.id
  · have hkey : (⟨id, c.drawn, fields⟩ : BmcMachine).id ∈ c.machines.map BmcMachine.id := hmem
    have heq : (c.save id fields).machines = c.machines.map fun x =>
        if x.id = id then ⟨id, c.drawn, fields⟩ else x :=
      putKeyed_of_mem c.nodup hkey
    rw [heq, List.mem_map]
    constructor
    · rintro ⟨x, hx, rfl⟩
      split_ifs with hid
      · exact .inl rfl
      · exact .inr ⟨hx, hid⟩
    · rintro (rfl | ⟨hm, hid⟩)
      · obtain ⟨x, hx, hid⟩ := List.mem_map.mp hmem
        exact ⟨x, hx, if_pos hid⟩
      · exact ⟨m, hm, if_neg hid⟩
  · have heq : (c.save id fields).machines = c.machines ++ [⟨id, c.drawn, fields⟩] :=
      putKeyed_of_not_mem hmem
    rw [heq, List.mem_append, List.mem_singleton]
    constructor
    · rintro (hm | rfl)
      · exact .inr ⟨hm, fun hid => hmem (hid ▸ List.mem_map_of_mem hm)⟩
      · exact .inl rfl
    · rintro (rfl | ⟨hm, -⟩)
      · exact .inr rfl
      · exact .inl hm

theorem keeps_refreshOne (s : Sweeper) (id : Text) : Keeps s (s.refreshOne id) := by
  rw [refreshOne]
  split_ifs
  · exact .refl s
  · split
    · exact .refl s
    · rename_i machine hfind
      obtain ⟨-, hid⟩ := ConfigStore.find_eq_some.mp hfind
      have hbump := keeps_bump s id
      refine ⟨fun h => ?_, fun p h => ?_, rfl, rfl⟩
      · refine ⟨h.exact, h.began, h.newer, fun r hr => ?_⟩
        obtain hr | hr := List.mem_append.mp hr
        · exact h.asked r hr
        · rw [List.mem_singleton.mp hr]
          exact le_rfl
      · refine (hbump.guards p h).congr rfl le_rfl le_rfl fun m hm hc => ?_
        obtain ⟨hle, hknown, hpending⟩ := (hbump.guards p h).watched m hm hc
        refine ⟨hle, hknown, fun r hr hrid hgen hversion => ?_⟩
        obtain hr | hr := List.mem_append.mp hr
        · exact hpending r hr hrid hgen hversion
        · -- the version of the refresh is above all that the sweep captured
          rw [List.mem_singleton.mp hr] at hrid hversion
          have hrid : machine.id = m.id := hrid
          have hversion : (s.bumpStateVersion id).stateVersion id ≤ capturedVersion p m.id := hversion
          have hold := (h.watched m hm hc).le
          rw [stateVersion_bump, if_pos rfl] at hversion
          rw [← hrid, hid] at hold hversion
          omega

theorem keeps_eraseRefresh (s : Sweeper) (k : Nat) :
    Keeps s { s with refreshes := s.refreshes.eraseIdx k } where
  data h := ⟨h.exact, h.began, h.newer, fun r hr => h.asked r (List.mem_of_mem_eraseIdx hr)⟩
  guards _ h := h.congr rfl le_rfl le_rfl fun m hm hc =>
    ⟨(h.watched m hm hc).le, (h.watched m hm hc).known,
      fun r hr => (h.watched m hm hc).pending r (List.mem_of_mem_eraseIdx hr)⟩
  sweeps := rfl
  generation := rfl

/-- A reading that may be set: of the stored machine, and not older than what it replaces. -/
structure Settable (s : Sweeper) (id : Text) (reading : Reading) : Prop where
  stored : s.config.find id = some reading.probe.machine
  generation : reading.probe.generation = s.generation
  revision : reading.state.revision = reading.probe.machine.revision
  began : reading.probe.began ≤ s.clock
  newer : ∀ old ∈ s.states.get? id, old.probe.began ≤ reading.probe.ended

theorem Settable.data (hset : s.Settable id reading) (h : s.Data) : (s.setState id reading).Data := by
  obtain ⟨hm, hid⟩ := ConfigStore.find_eq_some.mp hset.stored
  refine ⟨fun e he => ?_, fun e he => ?_, fun e he => ?_, h.asked⟩
  · obtain rfl | ⟨he, -⟩ := OrderedMap.mem_entries_set.mp he
    · exact ⟨hm, hid, hset.generation, hset.revision⟩
    · exact h.exact e he
  · obtain rfl | ⟨he, -⟩ := OrderedMap.mem_entries_set.mp he
    · exact hset.began
    · exact h.began e he
  · obtain he | he := List.mem_append.mp he
    · exact h.newer e he
    · obtain ⟨old, hold, rfl⟩ := Option.map_eq_some_iff.mp (Option.mem_toList.mp he)
      exact hset.newer old hold

theorem keeps_setState (hset : s.Settable id reading)
    (hguard : ∀ p, s.Guards p → reading.probe.machine ∈ p.machines →
      s.stateVersion id = capturedVersion p id → reading.probe.began ≤ p.captured) :
    Keeps s (s.setState id reading) where
  data := hset.data
  guards p h := h.congr rfl le_rfl le_rfl fun m hm hc => by
    obtain ⟨hle, hknown, hpending⟩ := h.watched m hm hc
    refine ⟨hle, fun heq r hr => ?_, hpending⟩
    have hr : (s.states.set id reading).get? m.id = some r := hr
    rw [OrderedMap.get?_set] at hr
    split_ifs at hr with hid
    · cases hr
      have hsame : s.config.find m.id = some m := ConfigStore.find_eq_some.mpr ⟨hc, rfl⟩
      rw [hid, hset.stored] at hsame
      have heq : s.stateVersion m.id = capturedVersion p m.id := heq
      exact hguard p h (Option.some.inj hsame ▸ hm) (hid ▸ heq)
    · exact hknown heq r hr
  sweeps := rfl
  generation := rfl

theorem readState_revision (machine : BmcMachine) (previous : Option MachineRuntimeState)
    (result : IpmiResult) (now : Int) :
    (readState machine previous result now).revision = machine.revision := by
  cases result with
  | answered power => cases power <;> rfl
  | failed reach message => rfl

theorem keeps_refreshed (hd : s.Data) (k : Nat) (result : IpmiResult) (now : Int) :
    Keeps s (s.refreshed k result now) := by
  rw [refreshed]
  split
  · exact .refl s
  · rename_i r hr
    have hmem : r ∈ s.refreshes := List.mem_of_getElem? hr
    dsimp only
    split_ifs with hfresh
    · exact keeps_eraseRefresh s k
    · rw [Bool.not_eq_false, fresh, Bool.and_eq_true, Bool.and_eq_true, active, Bool.and_eq_true,
        decide_eq_true_eq, decide_eq_true_eq, decide_eq_true_eq] at hfresh
      obtain ⟨⟨⟨hgen, -⟩, hversion⟩, hstored⟩ := hfresh
      have hset : s.Settable r.asked.machine.id (Asked.read r.asked s r.generation result now) :=
        ⟨hstored, hgen, readState_revision _ _ _ _, hd.asked r hmem, fun old hold =>
          hd.began _ (OrderedMap.get?_eq_some.mp hold)⟩
      have hsets := keeps_setState hset fun p hg hm hsame =>
        (hg.watched _ hm (ConfigStore.find_eq_some.mp hstored).1).pending r hmem rfl hgen
          (hversion.symm.trans hsame).le
      exact (hsets.trans (keeps_eraseRefresh _ k)).trans (keeps_publishCards _)

/-! ### The updates of a sweep -/

/-- What an update has to bring for a commit. -/
def Ready (s : Sweeper) (e : Text × Update) : Prop :=
  s.stateVersion e.1 = e.2.version → s.config.find e.1 = some e.2.fingerprint →
    s.Settable e.1 e.2.reading

theorem Ready.data {e : Text × Update} (hready : s.Ready e) (h : s.Data) : (s.commit e).Data := by
  rw [commit]
  split_ifs with hversion hfind
  · exact h
  · exact h
  · exact (hready (not_not.mp hversion) (not_not.mp hfind)).data h

theorem Ready.commit {e other : Text × Update} (h : s.Ready other) (hne : other.1 ≠ e.1) :
    (s.commit e).Ready other := by
  rw [Sweeper.commit]
  split_ifs
  · exact h
  · exact h
  · intro hversion hfind
    obtain ⟨hstored, hgen, hrevision, hbegan, hnewer⟩ := h hversion hfind
    refine ⟨hstored, hgen, hrevision, hbegan, fun old hold => hnewer old ?_⟩
    have hold : (s.states.set e.1 e.2.reading).get? other.1 = some old := hold
    rwa [OrderedMap.get?_set, if_neg hne] at hold

theorem data_commits {es : List (Text × Update)} (hnodup : (es.map Prod.fst).Nodup)
    (hready : ∀ e ∈ es, s.Ready e) (h : s.Data) : (es.foldl commit s).Data := by
  induction es generalizing s with
  | nil => exact h
  | cons e es ih =>
    obtain ⟨hne, hnodup⟩ := List.nodup_cons.mp hnodup
    refine ih hnodup (fun other hother => ?_) ((hready e List.mem_cons_self).data h)
    refine (hready other (List.mem_cons_of_mem _ hother)).commit fun heq => hne ?_
    exact heq ▸ List.mem_map_of_mem hother

/-- The updates of the sweep of this generation are ready. -/
theorem Guards.ready (h : s.Guards p) {e : Text × Update} (he : e ∈ p.updates.entries) : s.Ready e := by
  intro hversion hfind
  have hu := h.updates e he
  obtain ⟨hm, hid⟩ := ConfigStore.find_eq_some.mp hfind
  refine ⟨by rw [hfind, hu.machine], hu.generation, by rw [hu.revision, hu.machine], hu.began,
    fun old hold => ?_⟩
  have hknown := (h.watched _ hu.mem hm).known
  rw [hid] at hknown
  exact (hknown (hversion.trans hu.version) old hold).trans hu.ended

/-! ### One event -/

/-- The readings, and what the sweep of this generation knows. -/
structure Kept (s : Sweeper) : Prop where
  data : s.Data
  guards : ∀ (n : Nat) (w : Sweep) (p : Probing), s.sweeps[n]? = some w → w.phase = .probing p → w.generation = s.generation →
    s.Guards p

theorem Kept.keeps (h : s.Kept) (hk : Keeps s t) : t.Kept := by
  refine ⟨hk.data h.data, fun n w p hw hp hgen => hk.guards p ?_⟩
  exact h.guards n w p (hk.sweeps ▸ hw) hp (hgen.trans hk.generation)

/-- A sweep goes on to another phase. -/
theorem Kept.setPhase (h : s.Kept) (hw : s.sweeps[n]? = some w) {phase : SweepPhase}
    (hphase : ∀ p, phase = .probing p → w.generation = s.generation → s.Guards p) :
    (s.setPhase n phase).Kept := by
  have hcopy : ∀ p, s.Guards p → (s.setPhase n phase).Guards p := fun p hg =>
    hg.congr rfl le_rfl le_rfl fun m hm hc =>
      ⟨(hg.watched m hm hc).le, (hg.watched m hm hc).known, (hg.watched m hm hc).pending⟩
  refine ⟨⟨h.data.exact, h.data.began, h.data.newer, h.data.asked⟩, fun i v p hv hp hgen => hcopy p ?_⟩
  rw [getElem?_setPhase] at hv
  obtain ⟨u, hu, rfl⟩ := Option.map_eq_some_iff.mp hv
  split_ifs at hp hgen with hi
  · rw [← hi, hw] at hu
    cases hu
    exact hphase p hp hgen
  · exact h.guards i u p hu hp hgen

theorem Kept.ensured (h : s.Kept) (outcome : Ensured) (fails : Bool) :
    (s.ensured n outcome fails).Kept := by
  rw [Sweeper.ensured]
  split
  · rename_i generation hw
    split_ifs with hthrew hinactive hproblem hempty
    · exact h.setPhase hw (by simp)
    · exact h.setPhase hw (by simp)
    · exact (h.keeps (keeps_publishCards s)).setPhase hw (by simp)
    · have hclear : Keeps s { s with states := .empty } := by
        refine ⟨fun hd => ⟨by rintro e ⟨⟩, by rintro e ⟨⟩, hd.newer, hd.asked⟩, fun p hg => ?_, rfl, rfl⟩
        refine hg.congr rfl le_rfl le_rfl fun m hm hc => ⟨(hg.watched m hm hc).le, ?_,
          (hg.watched m hm hc).pending⟩
        rintro - reading ⟨⟩
      exact (h.keeps (hclear.trans (keeps_publishCards _))).setPhase hw (by simp)
    · refine h.setPhase hw fun p hp hgen => ?_
      cases hp
      refine ⟨le_rfl, s.config.old, fun a ha => ?_, fun m hm => List.mem_of_mem_drop hm, by rintro e ⟨⟩,
        fun m hm hc => ?_⟩
      · obtain ⟨m, hm, rfl⟩ := List.mem_map.mp ha
        exact ⟨List.mem_of_mem_take hm, le_rfl, le_rfl⟩
      · have hversion : (OrderedMap.ofList (s.config.machines.map fun m =>
            (m.id, s.stateVersion m.id))).get? m.id = some (s.stateVersion m.id) := by
          refine (OrderedMap.get?_ofList_of_nodup ?_).mpr (List.mem_map_of_mem hm)
          rw [List.map_map]
          exact s.config.nodup
        refine ⟨?_, fun _ reading hr => h.data.began _ (OrderedMap.get?_eq_some.mp hr),
          fun r hr _ _ _ => h.data.asked r hr⟩
        rw [capturedVersion, hversion]
        rfl
  · exact h

theorem Kept.answered (h : s.Kept) (k : Nat) (result : IpmiResult) (now : Int) :
    (s.answered n k result now).Kept := by
  rw [Sweeper.answered]
  split
  · rename_i generation p hw
    split
    · exact h
    · rename_i asked hk
      split_ifs
      · refine h.setPhase hw fun q hq hgen => ?_
        cases hq
        have hg := h.guards n _ p hw rfl hgen
        exact ⟨hg.captured, hg.drawn, fun a ha => hg.running a (List.mem_of_mem_eraseIdx ha), hg.rest,
          fun e he => ⟨(hg.updates e he).key, (hg.updates e he).mem, (hg.updates e he).machine,
            (hg.updates e he).generation, (hg.updates e he).revision, (hg.updates e he).ended,
            (hg.updates e he).began, (hg.updates e he).version⟩,
          fun m hm hc => ⟨(hg.watched m hm hc).le, (hg.watched m hm hc).known,
            (hg.watched m hm hc).pending⟩⟩
      · refine h.setPhase hw fun q hq hgen => ?_
        cases hq
        have hg := h.guards n _ p hw rfl hgen
        obtain ⟨hmem, hafter, hbefore⟩ := hg.running asked (List.mem_of_getElem? hk)
        refine ⟨hg.captured, hg.drawn, fun a ha => ?_, fun m hm => hg.rest m (List.mem_of_mem_drop hm),
          fun e he => ?_, fun m hm hc => ⟨(hg.watched m hm hc).le, (hg.watched m hm hc).known,
            (hg.watched m hm hc).pending⟩⟩
        · obtain ha | ha := List.mem_append.mp ha
          · exact hg.running a (List.mem_of_mem_eraseIdx ha)
          · obtain ⟨m, hm, rfl⟩ := List.mem_map.mp ha
            exact ⟨hg.rest m (List.mem_of_mem_take hm), hg.captured, le_rfl⟩
        · obtain rfl | ⟨he, -⟩ := OrderedMap.mem_entries_set.mp he
          · exact ⟨rfl, hmem, rfl, hgen, readState_revision _ _ _ _, hg.captured, hbefore, rfl⟩
          · have hu := hg.updates e he
            exact ⟨hu.key, hu.mem, hu.machine, hu.generation, hu.revision, hu.ended, hu.began, hu.version⟩
  · exact h

theorem Kept.finish (h : s.Kept) (hl : s.Lined) (fails : Bool) : (s.finish n fails).Kept := by
  rw [Sweeper.finish]
  split
  · rename_i generation p hw
    split_ifs with hrunning hinactive
    · exact h
    · exact h.setPhase hw (by simp)
    · have hgen : generation = s.generation := by
        rw [Bool.not_eq_false, active, Bool.and_eq_true] at hinactive
        exact of_decide_eq_true hinactive.1
      have hg := h.guards n _ p hw rfl hgen
      have hsame := sameQueue_commits p.updates.entries s
      have hdata : (p.updates.entries.foldl commit s).Data :=
        data_commits p.updates.nodup (fun e he => hg.ready he) h.data
      have hpublished := (keeps_publishCards (p.updates.entries.foldl commit s)).data hdata
      refine ⟨⟨hpublished.exact, hpublished.began, hpublished.newer, hpublished.asked⟩, ?_⟩
      intro i v q hv hq _
      -- no other sweep runs
      have hsweeps : (p.updates.entries.foldl commit s).publishCards.sweeps = s.sweeps := hsame.sweeps
      rw [getElem?_setPhase, hsweeps] at hv
      obtain ⟨u, hu, rfl⟩ := Option.map_eq_some_iff.mp hv
      split_ifs at hq with hi
      have hn := hl.only n ⟨_, hw, by simp⟩
      have hother := hl.only i ⟨u, hu, by simp [hq]⟩
      exact absurd (Option.some.inj (hn.symm.trans hother)) hi
  · exact h

/-- What the readings and their guards read is the same. -/
structure SameData (s t : Sweeper) : Prop where
  config : t.config = s.config
  generation : t.generation = s.generation
  states : t.states = s.states
  stateVersions : t.stateVersions = s.stateVersions
  refreshes : t.refreshes = s.refreshes
  clock : t.clock = s.clock
  replaced : t.replaced = s.replaced

theorem Kept.congr (h : s.Kept) (hsame : SameData s t)
    (hsweeps : ∀ (n : Nat) (w : Sweep) (p : Probing), t.sweeps[n]? = some w → w.phase = .probing p →
      s.sweeps[n]? = some w) : t.Kept := by
  obtain ⟨h1, h2, h3, h4, h5, h6, h7⟩ := hsame
  refine ⟨⟨?_, ?_, ?_, ?_⟩, fun n w p hw hp hgen => ?_⟩
  · rw [h1, h2, h3]
    exact h.data.exact
  · rw [h3, h6]
    exact h.data.began
  · rw [h7]
    exact h.data.newer
  · rw [h5, h6]
    exact h.data.asked
  · refine (h.guards n w p (hsweeps n w p hw hp) hp (hgen.trans h2)).congr h2 h6.ge (by rw [h1])
      fun m hm hc => ?_
    rw [h1] at hc
    obtain ⟨hle, hknown, hpending⟩ :=
      (h.guards n w p (hsweeps n w p hw hp) hp (hgen.trans h2)).watched m hm hc
    have hversion : t.stateVersion m.id = s.stateVersion m.id := by rw [stateVersion, h4, stateVersion]
    refine ⟨hversion ▸ hle, ?_, ?_⟩
    · rw [hversion, h3]
      exact hknown
    · rw [h5, h2]
      exact hpending

theorem Kept.run (h : s.Kept) : s.run.1.Kept := by
  have heffect := run_effect s
  generalize s.run = ran at heffect
  cases heffect with
  | join n hin hgen => exact h
  | wait n hin hq => exact h.congr ⟨rfl, rfl, rfl, rfl, rfl, rfl, rfl⟩ fun n w p hw _ => hw
  | queue q hq hstate => exact h
  | rejected q hq hstate => exact h
  | begins hin phase hphase hidle =>
    refine h.congr ⟨rfl, rfl, rfl, rfl, rfl, rfl, rfl⟩ fun n w p hw hp => ?_
    obtain hlt | hge := Nat.lt_or_ge n s.sweeps.length
    · rwa [List.getElem?_append_left hlt] at hw
    · rw [List.getElem?_append_right hge] at hw
      have hmem := List.mem_singleton.mp (List.mem_of_getElem? hw)
      rw [hmem] at hp
      exact absurd hp (hidle p)

theorem Kept.call (h : s.Kept) : s.call.Kept := by
  have hrun := h.run
  rw [Sweeper.call]
  generalize s.run = ran at hrun
  obtain ⟨after, promise⟩ := ran
  cases promise <;> exact hrun.congr ⟨rfl, rfl, rfl, rfl, rfl, rfl, rfl⟩ fun n w p hw _ => hw

theorem Kept.resume (h : s.Kept) : s.resume.Kept := by
  have hnone : ({ s with queued := none } : Sweeper).Kept :=
    h.congr ⟨rfl, rfl, rfl, rfl, rfl, rfl, rfl⟩ fun n w p hw _ => hw
  rw [Sweeper.resume]
  split_ifs
  · exact h
  · exact hnone.run.congr ⟨rfl, rfl, rfl, rfl, rfl, rfl, rfl⟩ fun n w p hw _ => hw

theorem Kept.settle (h : s.Kept) : (s.settle n).Kept := by
  rw [Sweeper.settle]
  split
  · rename_i generation failed hw
    have hphase : (s.setPhase n (.settled failed)).Kept := h.setPhase hw (by simp)
    dsimp only
    split_ifs <;> exact hphase.congr ⟨rfl, rfl, rfl, rfl, rfl, rfl, rfl⟩ fun n w p hw _ => hw
  · exact h

theorem Kept.reset (h : s.Kept) (hl : s.Lined) : s.reset.Kept := by
  refine ⟨⟨by rintro e ⟨⟩, by rintro e ⟨⟩, h.data.newer, h.data.asked⟩, fun n w p hw _ hgen => ?_⟩
  have hle := hl.bound w (List.mem_of_getElem? hw)
  have hgen : w.generation = s.generation + 1 := hgen
  omega

theorem Kept.step (h : s.Kept) (hl : s.Lined) (event : SweeperEvent) : (s.step event).Kept := by
  refine Kept.keeps ?_ (keeps_tick (s.handle event))
  cases event with
  | run => exact h.call
  | refreshOne id => exact h.keeps (keeps_refreshOne s id)
  | refreshed k result now => exact h.keeps (keeps_refreshed h.data k result now)
  | forgetMachine id => exact h.keeps (keeps_forgetMachine s id)
  | apply id fields =>
    have hedit := keeps_edit s id (s.config.save id fields) (fun m hm hne => mem_save.mpr (.inr ⟨hm, hne⟩))
      (fun m hm => (mem_save.mp hm).elim (fun hnew => .inr (hnew ▸ le_rfl)) fun hold => .inl hold.1)
      (Nat.le_succ _)
    exact h.keeps (((hedit.trans (keeps_bump _ id)).trans (keeps_publishCards _)).trans
      (keeps_refreshOne _ id))
  | delete id revision =>
    have hedit := keeps_edit s id (s.config.remove id)
      (fun m hm hne => List.mem_filter.mpr ⟨hm, decide_eq_true hne⟩)
      (fun m hm => .inl (List.mem_of_mem_filter hm)) le_rfl
    rw [handle, delete]
    split_ifs
    · exact h.keeps ((hedit.trans (keeps_bump _ id)).trans (keeps_publishCards _))
    · exact h
  | reset => exact h.reset hl
  | connection up => exact h.congr ⟨rfl, rfl, rfl, rfl, rfl, rfl, rfl⟩ fun n w p hw _ => hw
  | ensured n outcome fails => exact h.ensured outcome fails
  | answered n k result now => exact h.answered k result now
  | finish n fails => exact h.finish hl fails
  | settle n => exact h.settle
  | resume => exact h.resume

/-! ### The page -/

/-- The page is of the machines and the states. -/
def Shown (s : Sweeper) : Prop :=
  ∀ payload ∈ s.latest, payload = buildMachinesPayload s.config.machines fun id =>
    (s.states.get? id).map Reading.state

theorem shown_publishCards (s : Sweeper) : s.publishCards.Shown := by
  rintro payload ⟨⟩
  rfl

theorem Shown.congr (h : s.Shown) (hlatest : t.latest = s.latest) (hconfig : t.config = s.config)
    (hstates : t.states = s.states) : t.Shown := by
  rw [Shown, hlatest, hconfig, hstates]
  exact h

theorem Shown.run (h : s.Shown) : s.run.1.Shown := by
  have heffect := run_effect s
  generalize s.run = ran at heffect
  cases heffect <;> exact h

theorem Shown.refreshOne (h : s.Shown) (id : Text) : (s.refreshOne id).Shown := by
  rw [Sweeper.refreshOne]
  split_ifs
  · exact h
  · split
    · exact h
    · exact h.congr rfl rfl rfl

theorem Shown.step (h : s.Shown) (event : SweeperEvent) : (s.step event).Shown := by
  refine Shown.congr (s := s.handle event) ?_ rfl rfl rfl
  cases event with
  | run =>
    have hrun := h.run
    rw [handle, call]
    generalize s.run = ran at hrun
    obtain ⟨after, promise⟩ := ran
    cases promise <;> exact hrun
  | refreshOne id => exact h.refreshOne id
  | refreshed k result now =>
    rw [handle, refreshed]
    split
    · exact h
    · dsimp only
      split_ifs
      · exact h
      · exact shown_publishCards _
  | forgetMachine id => exact shown_publishCards _
  | apply id fields => exact (shown_publishCards _).refreshOne id
  | delete id revision =>
    rw [handle, delete]
    split_ifs
    · exact shown_publishCards _
    · exact h
  | reset => rintro payload ⟨⟩
  | connection up => exact h
  | ensured n outcome fails =>
    rw [handle, ensured]
    split
    · split_ifs
      · exact h
      · exact h
      · exact (shown_publishCards s).congr rfl rfl rfl
      · exact (shown_publishCards { s with states := .empty }).congr rfl rfl rfl
      · exact h
    · exact h
  | answered n k result now =>
    rw [handle, answered]
    split
    · split
      · exact h
      · split_ifs <;> exact h
    · exact h
  | finish n fails =>
    rw [handle, finish]
    split
    · rename_i p _
      split_ifs
      · exact h
      · exact h
      · exact (shown_publishCards (p.updates.entries.foldl commit s)).congr rfl rfl rfl
    · exact h
  | settle n =>
    rw [handle, settle]
    split
    · dsimp only
      split_ifs <;> exact h
    · exact h
  | resume =>
    rw [handle, resume]
    split_ifs
    · exact h
    · have hnone : ({ s with queued := none } : Sweeper).Shown := h
      exact hnone.run

/-! ### Runs -/

structure Sound (s : Sweeper) : Prop where
  lined : s.Lined
  kept : s.Kept
  page : s.Shown

theorem sound_start (config : ConfigStore) (connected : Bool) : (start config connected).Sound :=
  ⟨lined_start config connected,
    ⟨⟨by rintro e ⟨⟩, by rintro e ⟨⟩, by rintro e ⟨⟩, by rintro r ⟨⟩⟩, by simp [start]⟩,
    by rintro payload ⟨⟩⟩

theorem Sound.step (h : s.Sound) {event : SweeperEvent} (hok : s.Allowed event) : (s.step event).Sound :=
  ⟨h.lined.step hok, h.kept.step h.lined event, h.page.step event⟩

theorem Sound.sane (h : s.Sound) : s.Sane where
  shown := h.page
  exact machine hm reading hr _ := by
    obtain ⟨hstored, hid, hgen, -⟩ := h.kept.data.exact _ (OrderedMap.get?_eq_some.mp hr)
    exact ⟨List.inj_on_of_nodup_map s.config.nodup hstored hm hid, hgen⟩
  counted payload hp := by
    rw [h.page payload hp]
    exact sum_counts _ _
  newer := h.kept.data.newer
  single i j hi hj := Option.some.inj ((h.lined.only i hi).symm.trans (h.lined.only j hj))
  settles := h.lined.settles
  accepts q hq := by
    obtain hready | ⟨hwait, -⟩ := h.lined.queued q hq
    · simp [hready]
    · simp [hwait]

/-- In a run in which no sweep fails while calls of a later generation wait for it, the page is of
this generation's readings of the stored machines, and calls settle with their own sweeps. -/
theorem sweeps_sane (config : ConfigStore) (connected : Bool) (events : List SweeperEvent)
    (h : Guarded step Allowed (start config connected) events) :
    ∀ before more, before ++ more = events → (Machine.run step (start config connected) before).Sane := by
  rintro before more rfl
  have hstep : ∀ s event, Sound s → Allowed s event → Sound (step s event) :=
    fun s event hs hok => hs.step hok
  exact (run_preserves hstep (guarded_left h) (sound_start config connected)).sane

/-- A document with one machine. -/
def oneMachine : ConfigStore :=
  ConfigStore.save ⟨[], 0, List.nodup_nil, by simp⟩ (js "m1")
    ⟨js "node", js "10.0.0.9", 623, js "admin", js "secret", []⟩

/-- A sweep during which the machine is read on its own, a reset, and the sweep after it. -/
def readTwice : List SweeperEvent :=
  [.run, .ensured 0 .fine false, .refreshOne (js "m1"), .answered 0 0 (.answered (some .off)) 3,
    .refreshed 0 (.answered (some .on)) 4, .finish 0 false, .settle 0, .run, .reset, .run,
    .ensured 1 .threw false, .run, .resume]

theorem read_twice_sane : (Machine.run step (start oneMachine true) readTwice).Sane :=
  sweeps_sane oneMachine true readTwice (by decide +kernel) readTwice [] (List.append_nil _)

/-- A sweep that fails after a reset, with a call of the new generation behind it. -/
def failsBehind : List SweeperEvent := [.run, .reset, .run, .ensured 0 .threw false, .settle 0]

/-- The call of the new generation fails with the sweep of the old one; and the queue stays rejected,
so that later, behind a sweep that runs, a call fails at once with that old sweep. -/
theorem call_turned_away :
    let failed := Machine.run step (start oneMachine true) failsBehind
    let later := Machine.run step failed [.run, .reset, .run]
    failed.settled = [⟨0, 0, true⟩, ⟨1, 0, true⟩] ∧ failed.queued = some ⟨0, .rejected⟩ ∧
    later.settled = failed.settled ++ [⟨2, 0, true⟩] ∧ later.inFlight = some 1 ∧
    ¬ failed.Sane := by
  refine ⟨by decide +kernel, by decide +kernel, by decide +kernel, by decide +kernel, fun h => ?_⟩
  exact h.accepts ⟨0, .rejected⟩ (by decide +kernel) rfl

end BoredManager.Bmc.Sweeper
