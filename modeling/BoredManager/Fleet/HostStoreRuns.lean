import BoredManager.Fleet.HostStore

/-! What is remembered of the machines survives a reload as long as there are not more of them than
a reload keeps; a repeated sweep writes nothing as long as no machine answered it. -/
namespace BoredManager.Fleet.Sweeps
open BoredManager.Js BoredManager.Machine BoredManager.Fleet.Targets BoredManager.Fleet.Net
open BoredManager.Shared (inheritedMembers)

variable {setup : Setup} {now : Int} {roster : Roster} {hosts other : Hosts} {entry : SweepEntry}
  {entries : List SweepEntry} {f : Finding} {record : HostRecord} {s : Store}

/-! ### One entry -/

theorem buildRecord_eq (existing : Option HostRecord) :
    buildRecord setup now entry existing =
      { label := (entry.finding setup).label
        hostname := orText (entry.finding setup).hostname ((existing.map HostRecord.hostname).getD [])
        os := orText (entry.finding setup).os ((existing.map HostRecord.os).getD [])
        kernel := orText (entry.finding setup).kernel ((existing.map HostRecord.kernel).getD [])
        firstSeen := ((existing.map HostRecord.firstSeen).filter (· ≠ 0)).getD now
        lastSeen := if (entry.finding setup).reach = .ok then some now
          else existing.bind HostRecord.lastSeen
        lastProbeAt := some now
        reach := some (entry.finding setup).reach
        reachNote := (entry.finding setup).note
        pinned := (entry.finding setup).pinned || (existing.map HostRecord.pinned).getD false } := rfl

/-- A record that says all a finding does, the times of the machine aside. -/
structure Settles (f : Finding) (record : HostRecord) : Prop where
  label : record.label = f.label
  hostname : orText f.hostname record.hostname = record.hostname
  os : orText f.os record.os = record.os
  kernel : orText f.kernel record.kernel = record.kernel
  firstSeen : record.firstSeen ≠ 0
  reach : record.reach = some f.reach
  reachNote : record.reachNote = f.note
  pinned : (f.pinned || record.pinned) = record.pinned

theorem orText_orText (text old : Text) : orText text (orText text old) = orText text old := by
  simp only [orText]
  split_ifs <;> rfl

theorem settles_buildRecord (hnow : 0 < now) (existing : Option HostRecord) :
    Settles (entry.finding setup) (buildRecord setup now entry existing) := by
  rw [buildRecord_eq]
  refine ⟨rfl, orText_orText _ _, orText_orText _ _, orText_orText _ _, ?_, rfl, rfl, ?_⟩
  · dsimp only
    cases hfirst : (existing.map HostRecord.firstSeen).filter (· ≠ 0) with
    | none => exact hnow.ne'
    | some first => simpa using (Option.filter_eq_some_iff.mp hfirst).2
  · dsimp only
    rw [← Bool.or_assoc, Bool.or_self]

theorem Settles.congr {before after : HostRecord} (h : Settles f before) (hbare : before.bare = after.bare) :
    Settles f after := by
  obtain ⟨h1, h2, h3, h4, h5, h6, h7, h8⟩ := h
  simp only [HostRecord.bare, HostRecord.mk.injEq] at hbare
  obtain ⟨e1, e2, e3, e4, e5, -, -, e6, e7, e8⟩ := hbare
  exact ⟨e1 ▸ h1, e2 ▸ h2, e3 ▸ h3, e4 ▸ h4, e5 ▸ h5, e6 ▸ h6, e7 ▸ h7, e8 ▸ h8⟩

/-- A finding that a record already has changes no more of it than when the machine was reached. -/
theorem bare_buildRecord (h : Settles (entry.finding setup) record)
    (hseen : entry.reach = .ok → record.lastSeen = some now) :
    record.bare = (buildRecord setup now entry (some record)).bare := by
  obtain ⟨h1, h2, h3, h4, h5, h6, h7, h8⟩ := h
  have hfirst : ((some record.firstSeen).filter (· ≠ 0)).getD now = record.firstSeen := by
    simp [Option.filter, h5]
  have hlast : (if entry.reach = .ok then some now else record.lastSeen) = record.lastSeen := by
    split_ifs with hok
    · exact (hseen hok).symm
    · rfl
  rw [buildRecord_eq]
  simp only [HostRecord.bare, Option.map_some, Option.getD_some, h2, h3, h4, h8, HostRecord.mk.injEq,
    true_and, and_true, Option.bind_some]
  exact ⟨h1, hfirst.symm, hlast.symm, h6, h7⟩

theorem get?_hosts_mergeEntry (setup : Setup) (now : Int) (roster : Roster) (entry : SweepEntry)
    (ip : Text) :
    (mergeEntry setup now roster entry).hosts.get? ip =
      if ip = entry.ip ∧ earnsRecord roster.hosts entry = true then
        some (buildRecord setup now entry (roster.hosts.get? entry.ip))
      else roster.hosts.get? ip := by
  rw [mergeEntry]
  cases earnsRecord roster.hosts entry with
  | false => simp
  | true => simp

theorem get?_hosts_mergeEntry_of_ne {ip : Text} (h : ip ≠ entry.ip) :
    (mergeEntry setup now roster entry).hosts.get? ip = roster.hosts.get? ip := by
  rw [get?_hosts_mergeEntry, if_neg fun hnew => h hnew.1]

theorem get?_hosts_mergeInto_of_not_mem {ip : Text} (h : ip ∉ entries.map SweepEntry.ip) :
    (mergeInto setup now roster entries).hosts.get? ip = roster.hosts.get? ip := by
  induction entries generalizing roster with
  | nil => rfl
  | cons entry entries ih =>
    rw [List.map_cons, List.mem_cons, not_or] at h
    exact (ih h.2).trans (get?_hosts_mergeEntry_of_ne h.1)

/-- An entry that changes nothing but the time of the probe. -/
theorem bare_mergeEntry (h : noticed setup now roster.hosts entry = false) :
    (mergeEntry setup now roster entry).hosts.entries.map (Prod.map id HostRecord.bare) =
      roster.hosts.entries.map (Prod.map id HostRecord.bare) := by
  rw [mergeEntry]
  cases hearns : earnsRecord roster.hosts entry with
  | false => rfl
  | true =>
    rw [noticed, hearns, Bool.true_and, Bool.not_eq_false', Option.any_eq_true] at h
    obtain ⟨before, hbefore, hbare⟩ := h
    rw [hbefore]
    exact OrderedMap.entries_map_set hbefore (Prod.ext rfl (of_decide_eq_true hbare).symm)

theorem bare_mergeInto (h : dirtied setup now roster entries = false) :
    (mergeInto setup now roster entries).hosts.entries.map (Prod.map id HostRecord.bare) =
      roster.hosts.entries.map (Prod.map id HostRecord.bare) := by
  induction entries generalizing roster with
  | nil => rfl
  | cons entry entries ih =>
    rw [dirtied, Bool.or_eq_false_iff] at h
    exact (ih h.2).trans (bare_mergeEntry h.1)

/-! ### How many machines there are -/

/-- The entries that earn a record and have none. -/
def newcomers (hosts : Hosts) (entries : List SweepEntry) : Nat :=
  (entries.filter fun entry => earnsRecord hosts entry && !hosts.has entry.ip).length

theorem length_mergeEntry (setup : Setup) (now : Int) : (mergeEntry setup now roster entry).hosts.entries.length =
    roster.hosts.entries.length + newcomers roster.hosts [entry] := by
  rw [mergeEntry, newcomers]
  cases hearns : earnsRecord roster.hosts entry with
  | false => simp [hearns]
  | true =>
    simp only [Bool.true_eq_false, if_false, OrderedMap.length_entries_set]
    cases hhas : roster.hosts.has entry.ip <;> simp [hearns, hhas]

theorem newcomers_congr (h : ∀ entry ∈ entries, hosts.get? entry.ip = other.get? entry.ip) :
    newcomers hosts entries = newcomers other entries := by
  rw [newcomers, newcomers]
  congr 1
  refine List.filter_congr fun entry hentry => ?_
  have hhas : hosts.has entry.ip = other.has entry.ip := congrArg Option.isSome (h entry hentry)
  rw [earnsRecord, earnsRecord, hhas]

/-- The others of a sweep are as they were. -/
theorem get?_others (setup : Setup) (now : Int) (roster : Roster)
    (h : ((entry :: entries).map SweepEntry.ip).Nodup) :
    ∀ e ∈ entries, (mergeEntry setup now roster entry).hosts.get? e.ip = roster.hosts.get? e.ip := by
  intro e he
  rw [List.map_cons, List.nodup_cons] at h
  exact get?_hosts_mergeEntry_of_ne fun hip => h.1 (hip ▸ List.mem_map_of_mem he)

theorem length_mergeInto (setup : Setup) (now : Int) (roster : Roster)
    (h : (entries.map SweepEntry.ip).Nodup) :
    (mergeInto setup now roster entries).hosts.entries.length =
      roster.hosts.entries.length + newcomers roster.hosts entries := by
  induction entries generalizing roster with
  | nil => rfl
  | cons entry entries ih =>
    have hsplit : newcomers roster.hosts (entry :: entries) =
        newcomers roster.hosts [entry] + newcomers roster.hosts entries := by
      rw [newcomers, newcomers, newcomers, ← List.length_append, ← List.filter_append,
        List.singleton_append]
    rw [hsplit, ← Nat.add_assoc, ← length_mergeEntry setup now,
      ← newcomers_congr (get?_others setup now roster h)]
    exact ih _ (List.nodup_cons.mp h).2

/-! ### A sweep that is repeated -/

/-- Every finding that earns a record has one that says it. -/
def Settled (hosts : Hosts) (fs : List Finding) : Prop :=
  ∀ f ∈ fs, (provesAMachine f.reach || f.pinned || hosts.has f.ip) = true →
    ∃ record, hosts.get? f.ip = some record ∧ Settles f record

theorem settled_mergeInto (hnow : 0 < now) (h : (entries.map SweepEntry.ip).Nodup) :
    Settled (mergeInto setup now roster entries).hosts (entries.map (SweepEntry.finding setup)) := by
  induction entries generalizing roster with
  | nil => simp [Settled]
  | cons entry entries ih =>
    have hrest := List.nodup_cons.mp h
    intro f hf hearns
    obtain rfl | hf := List.mem_cons.mp hf
    · -- the entries after it leave its record alone
      have hsame : (mergeInto setup now roster (entry :: entries)).hosts.get? entry.ip =
          (mergeEntry setup now roster entry).hosts.get? entry.ip :=
        get?_hosts_mergeInto_of_not_mem hrest.1
      have hget := get?_hosts_mergeEntry setup now roster entry entry.ip
      by_cases hfirst : earnsRecord roster.hosts entry = true
      · rw [if_pos ⟨rfl, hfirst⟩] at hget
        exact ⟨_, hsame.trans hget, settles_buildRecord hnow _⟩
      · rw [if_neg fun hnew => hfirst hnew.2] at hget
        refine absurd ?_ hfirst
        have hhas : (mergeInto setup now roster (entry :: entries)).hosts.has entry.ip =
            roster.hosts.has entry.ip := congrArg Option.isSome (hsame.trans hget)
        exact (congrArg (_ || ·) hhas).symm.trans hearns
    · exact ih hrest.2 f hf hearns

/-- Records that are the same for the entries of a sweep. -/
theorem settled_others (hothers : ∀ e ∈ entries, other.get? e.ip = hosts.get? e.ip)
    (h : Settled hosts (entries.map (SweepEntry.finding setup))) :
    Settled other (entries.map (SweepEntry.finding setup)) := by
  intro f hf hearns
  obtain ⟨e, he, rfl⟩ := List.mem_map.mp hf
  have hsame : other.get? (e.finding setup).ip = hosts.get? (e.finding setup).ip := hothers e he
  rw [OrderedMap.has, hsame] at hearns
  rw [hsame]
  exact h _ hf hearns

/-- In a repeated sweep whose machines, where reached, were last seen right now. -/
theorem not_dirtied (h : (entries.map SweepEntry.ip).Nodup)
    (hsettled : Settled roster.hosts (entries.map (SweepEntry.finding setup)))
    (hseen : ∀ entry ∈ entries, entry.reach = .ok →
      (roster.hosts.get? entry.ip).bind HostRecord.lastSeen = some now) :
    dirtied setup now roster entries = false := by
  induction entries generalizing roster with
  | nil => rfl
  | cons entry entries ih =>
    have hothers := get?_others setup now roster h
    rw [dirtied, Bool.or_eq_false_iff]
    constructor
    · rw [noticed]
      cases hearns : earnsRecord roster.hosts entry with
      | false => rfl
      | true =>
        obtain ⟨record, hrecord, hsettles⟩ := hsettled _ List.mem_cons_self hearns
        have hrecord : roster.hosts.get? entry.ip = some record := hrecord
        have hlast := hseen entry List.mem_cons_self
        rw [hrecord] at hlast
        simp [hrecord, ← bare_buildRecord hsettles hlast]
    · refine ih (List.nodup_cons.mp h).2 ?_ fun e he hok => ?_
      · exact settled_others hothers fun f hf => hsettled f (List.mem_cons_of_mem _ hf)
      · rw [hothers e he]
        exact hseen e (List.mem_cons_of_mem _ he) hok

/-- What a repeated sweep that changes nothing reached was last seen right now. -/
theorem seen_of_not_dirtied (h : (entries.map SweepEntry.ip).Nodup)
    (hsettled : Settled roster.hosts (entries.map (SweepEntry.finding setup)))
    (hclean : dirtied setup now roster entries = false) :
    ∀ entry ∈ entries, entry.reach = .ok →
      (roster.hosts.get? entry.ip).bind HostRecord.lastSeen = some now := by
  induction entries generalizing roster with
  | nil => simp
  | cons entry entries ih =>
    have hothers := get?_others setup now roster h
    rw [dirtied, Bool.or_eq_false_iff] at hclean
    intro e he hok
    obtain rfl | he := List.mem_cons.mp he
    · have hearns : earnsRecord roster.hosts e = true := by
        rw [earnsRecord, hok]
        rfl
      obtain ⟨record, hrecord, -⟩ := hsettled _ List.mem_cons_self hearns
      have hrecord : roster.hosts.get? e.ip = some record := hrecord
      have hbare := hclean.1
      simp only [noticed, hearns, hrecord, Option.any_some, Bool.true_and, Bool.not_eq_false',
        decide_eq_true_eq] at hbare
      have hlast := congrArg HostRecord.lastSeen hbare
      simp only [HostRecord.bare, buildRecord, hok, if_pos] at hlast
      rw [hrecord]
      exact hlast
    · rw [← hothers e he]
      refine ih (List.nodup_cons.mp h).2 ?_ hclean.2 e he hok
      exact settled_others hothers fun f hf => hsettled f (List.mem_cons_of_mem _ hf)

theorem bare_get? (hosts : Hosts) (ip : Text) : (hosts.get? ip).map HostRecord.bare =
    ((hosts.entries.map (Prod.map id HostRecord.bare)).find? fun e => decide (e.1 = ip)).map
      Prod.snd := by
  rw [OrderedMap.get?, List.find?_map, Option.map_map, Option.map_map]
  rfl

/-- Records that differ in their probe times only say the same. -/
theorem Settled.congr {fs : List Finding} (h : Settled hosts fs)
    (hbare : other.entries.map (Prod.map id HostRecord.bare) =
      hosts.entries.map (Prod.map id HostRecord.bare)) : Settled other fs := by
  intro f hf hearns
  have hget : (other.get? f.ip).map HostRecord.bare = (hosts.get? f.ip).map HostRecord.bare := by
    rw [bare_get?, bare_get?, hbare]
  have hhas : other.has f.ip = hosts.has f.ip := by
    simpa [OrderedMap.has] using congrArg Option.isSome hget
  obtain ⟨record, hrecord, hsettles⟩ := h f hf (hhas ▸ hearns)
  rw [hrecord] at hget
  obtain ⟨own, hown, hsame⟩ := Option.map_eq_some_iff.mp hget
  exact ⟨own, hown, hsettles.congr hsame.symm⟩

/-! ### Runs -/

theorem has_mergeInto {ip : Text} (h : (mergeInto setup now roster entries).hosts.has ip = true) :
    roster.hosts.has ip = true ∨ ip ∈ entries.map SweepEntry.ip := by
  by_cases hmem : ip ∈ entries.map SweepEntry.ip
  · exact .inr hmem
  · rw [OrderedMap.has, get?_hosts_mergeInto_of_not_mem hmem] at h
    exact .inl h

theorem normalize_written (hsize : hosts.entries.length ≤ MAX_HOST_RECORDS)
    (hvalid : ∀ ip ∈ hosts.keys, (ipToInt ip).isSome = true) : normalize (written hosts) = hosts := by
  obtain ⟨es, hn⟩ := hosts
  have hall : (es.map fun e => (e.1, some e.2)).filterMap validHost = es := by
    rw [List.filterMap_map]
    refine (List.filterMap_congr fun e he => ?_).trans (List.filterMap_some)
    exact validHost_eq_some.mpr ⟨rfl, hvalid e.1 (List.mem_map_of_mem he)⟩
  rw [normalize]
  simp only [written, OrderedMap.mk.injEq]
  rw [hall, List.take_of_length_le hsize]

theorem valid_normalize {disk : OrderedMap Text (Option HostRecord)} :
    ∀ ip ∈ (normalize disk).keys, (ipToInt ip).isSome = true := by
  intro ip hip
  obtain ⟨host, hhost, rfl⟩ := List.mem_map.mp hip
  obtain ⟨e, -, he⟩ := List.mem_filterMap.mp (List.mem_of_mem_take hhost)
  exact (validHost_eq_some.mp he).2

namespace Store

/-- What is asked of an event: a sweep does not bring more machines than are read again, and one that
is repeated reaches none, or those that it does when they were last seen. -/
def Allowed (s : Store) : RosterEvent → Prop
  | .apply setup now sweep =>
    s.read.entries.length + newcomers s.read sweep.entries ≤ MAX_HOST_RECORDS ∧
      (s.Repeats (.apply setup now sweep) → ∀ entry ∈ sweep.entries, entry.reach = .ok →
        (s.read.get? entry.ip).bind HostRecord.lastSeen = some now.1)
  | .applyOne _ _ entry _ =>
    s.read.entries.length + newcomers s.read [entry] ≤ MAX_HOST_RECORDS
  | _ => True

instance (s : Store) : (event : RosterEvent) → Decidable (s.Allowed event)
  | .apply _ _ _ => inferInstanceAs (Decidable (_ ∧ (_ → ∀ entry ∈ _, _ → _)))
  | .applyOne _ _ _ _ => inferInstanceAs (Decidable (_ ≤ _))
  | .forget _ | .pruneUnclaimed _ | .reset => inferInstanceAs (Decidable True)

structure Sound (s : Store) : Prop where
  survives : s.Survives
  size : s.read.entries.length ≤ MAX_HOST_RECORDS
  valid : ∀ ip ∈ s.read.keys, (ipToInt ip).isSome = true
  settled : ∀ fs ∈ s.last, Settled s.read fs

theorem sound_start (disk : OrderedMap Text (Option HostRecord)) : (start disk).Sound :=
  ⟨rfl, List.length_take_le _ _, valid_normalize, by simp [start]⟩

theorem sound_persist (hsize : s.read.entries.length ≤ MAX_HOST_RECORDS)
    (hvalid : ∀ ip ∈ s.read.keys, (ipToInt ip).isSome = true)
    (hsettled : ∀ fs ∈ s.last, Settled s.read fs) : s.persist.Sound :=
  ⟨congrArg _ (congrArg _ (normalize_written hsize hvalid)), hsize, hvalid, hsettled⟩

theorem read_merge {live : OrderedMap Text HostLive} :
    (s.merge setup now live entries).read = (mergeInto setup now ⟨live, s.read⟩ entries).hosts := by
  rw [merge]
  split_ifs <;> rfl

theorem Sound.merge (h : s.Sound) (setup : Setup) (now : Int) (live : OrderedMap Text HostLive)
    (honce : (entries.map SweepEntry.ip).Nodup)
    (hips : ∀ entry ∈ entries, (ipToInt entry.ip).isSome = true)
    (hroom : s.read.entries.length + newcomers s.read entries ≤ MAX_HOST_RECORDS) :
    (s.merge setup now live entries).Sound := by
  have hsize := (length_mergeInto setup now ⟨live, s.read⟩ honce).le.trans
    hroom
  have hvalid : ∀ ip ∈ (mergeInto setup now ⟨live, s.read⟩ entries).hosts.keys,
      (ipToInt ip).isSome = true := by
    intro ip hip
    obtain hold | hnew := has_mergeInto (OrderedMap.has_iff.mpr hip)
    · exact h.valid ip (OrderedMap.has_iff.mp hold)
    · obtain ⟨entry, hentry, rfl⟩ := List.mem_map.mp hnew
      exact hips entry hentry
  rw [Store.merge]
  cases hdirty : dirtied setup now ⟨live, s.read⟩ entries with
  | true => exact sound_persist hsize hvalid (by rintro fs ⟨⟩)
  | false => exact ⟨h.survives.trans (bare_mergeInto hdirty).symm, hsize, hvalid, by rintro fs ⟨⟩⟩

theorem entries_foldl_erase (ips : List Text) (hosts : Hosts) :
    (ips.foldl OrderedMap.erase hosts).entries.Sublist hosts.entries := by
  induction ips generalizing hosts with
  | nil => exact List.Sublist.refl _
  | cons ip ips ih => exact (ih _).trans List.filter_sublist

theorem Sound.drop (h : s.Sound) (ips : List Text) : (s.drop ips).Sound := by
  have hsub := entries_foldl_erase ips s.read
  refine sound_persist (hsub.length_le.trans h.size) (fun ip hip => ?_) (by rintro fs ⟨⟩)
  exact h.valid ip ((hsub.map Prod.fst).subset hip)

theorem Sound.step {event : RosterEvent} (h : s.Sound) (hok : s.Allowed event) :
    (s.step event).Sound := by
  cases event with
  | apply setup now sweep =>
    obtain ⟨hsurvives, hsize, hvalid, -⟩ :=
      h.merge setup now .empty sweep.once sweep.valid hok.1
    refine ⟨hsurvives, hsize, hvalid, ?_⟩
    rintro fs ⟨⟩
    have hread : (s.apply setup now sweep).read =
      (mergeInto setup now ⟨.empty, s.read⟩ sweep.entries).hosts := read_merge
    exact hread ▸ settled_mergeInto now.2 sweep.once
  | applyOne setup now entry valid =>
    exact h.merge setup now s.live (List.nodup_singleton _) (by simpa using valid) hok
  | forget ip =>
    rw [Store.step, forget]
    split_ifs
    · exact h.drop [ip]
    · exact h
  | pruneUnclaimed targets =>
    rw [Store.step, pruneUnclaimed]
    split_ifs
    · exact h
    · exact h.drop _
  | reset =>
    exact ⟨rfl, List.length_take_le _ _, valid_normalize,
      fun fs hfs => (h.settled fs hfs).congr h.survives⟩

/-- A sweep that is repeated writes nothing. -/
theorem Sound.writes {event : RosterEvent} (h : s.Sound) (hok : s.Allowed event)
    (hrepeats : s.Repeats event) : (s.step event).writes = s.writes := by
  cases event with
  | apply setup now sweep =>
    have hclean : dirtied setup now ⟨.empty, s.read⟩ sweep.entries = false :=
      not_dirtied sweep.once (h.settled _ hrepeats) (hok.2 hrepeats)
    change (s.merge setup now .empty sweep.entries).writes = s.writes
    rw [Store.merge, hclean]
    rfl
  | applyOne => cases hrepeats
  | forget => cases hrepeats
  | pruneUnclaimed => cases hrepeats
  | reset => cases hrepeats

/-- What one event is to do: the records survive a reload after it, and a sweep that is repeated
writes nothing. -/
structure Keeps (s : Store) (event : RosterEvent) : Prop where
  survives : (s.step event).Survives
  writes : s.Repeats event → (s.step event).writes = s.writes

theorem length_normalize_le (disk : OrderedMap Text (Option HostRecord)) :
    (normalize disk).entries.length ≤ MAX_HOST_RECORDS := List.length_take_le _ _

/-- Records that survive are not more than are read again. -/
theorem Survives.length_le (h : s.Survives) : s.read.entries.length ≤ MAX_HOST_RECORDS := by
  have hlength := congrArg List.length h
  rw [List.length_map, List.length_map] at hlength
  exact hlength ▸ length_normalize_le s.disk

theorem room_of_survives {live : OrderedMap Text HostLive} (honce : (entries.map SweepEntry.ip).Nodup)
    (h : (s.merge setup now live entries).Survives) :
    s.read.entries.length + newcomers s.read entries ≤ MAX_HOST_RECORDS := by
  have hle := h.length_le
  rw [read_merge, length_mergeInto _ _ _ honce] at hle
  exact hle

theorem room_of_apply {now : Clock} {sweep : Answers}
    (h : (s.step (.apply setup now sweep)).Survives) :
    s.read.entries.length + newcomers s.read sweep.entries ≤ MAX_HOST_RECORDS :=
  room_of_survives sweep.once h

theorem Sound.allowed_iff {event : RosterEvent} (h : s.Sound) : s.Allowed event ↔ s.Keeps event := by
  refine ⟨fun hok => ⟨(h.step hok).survives, h.writes hok⟩, fun hkeeps => ?_⟩
  cases event with
  | apply setup now sweep =>
    refine ⟨room_of_apply hkeeps.survives, fun hrepeats => ?_⟩
    have hwrites : (s.merge setup now .empty sweep.entries).writes = s.writes := hkeeps.writes hrepeats
    have hclean : dirtied setup now ⟨.empty, s.read⟩ sweep.entries = false := by
      cases hdirty : dirtied setup now ⟨.empty, s.read⟩ sweep.entries with
      | false => rfl
      | true =>
        rw [Store.merge, hdirty] at hwrites
        exact absurd hwrites (Nat.succ_ne_self _)
    exact seen_of_not_dirtied sweep.once (h.settled _ hrepeats) hclean
  | applyOne setup now entry valid =>
    exact room_of_survives (List.nodup_singleton _) hkeeps.survives
  | forget ip => trivial
  | pruneUnclaimed targets => trivial
  | reset => trivial

/-- In a run all of whose events are allowed, and in no other, what is remembered of the machines
survives a reload after every event, and no repeated sweep writes. -/
theorem hosts_survive (disk : OrderedMap Text (Option HostRecord)) (events : List RosterEvent) :
    Guarded step Allowed (start disk) events ↔
      ∀ before event more, before ++ event :: more = events →
        (run step (start disk) before).Keeps event := by
  rw [← guarded_iff]
  exact guarded_congr_of_kept (fun s event h => h.step) (fun s event h => h.allowed_iff)
    (sound_start disk) events

/-- One machine, with an address of its own. -/
def lone (reach : Reach) : Answers :=
  ⟨[⟨js "10.0.0.7", ⟨js "1", .host, js "10.0.0.7", true, []⟩, reach, [], none, 0⟩],
    List.nodup_singleton _, by simpa using (by decide +kernel : (ipToInt (js "10.0.0.7")).isSome = true)⟩

/-- Two sweeps that find the machine closed, a reload, the same again, and the machine forgotten. -/
def closedTwice : List RosterEvent :=
  [.apply threeHosts ⟨1, by decide⟩ (lone .refused), .apply threeHosts ⟨2, by decide⟩ (lone .refused),
    .reset, .apply threeHosts ⟨3, by decide⟩ (lone .refused), .forget (js "10.0.0.7")]

theorem closed_twice_survives : ∀ before event more, before ++ event :: more = closedTwice →
    (run step (start .empty) before).Keeps event :=
  (hosts_survive .empty closedTwice).mp (by decide +kernel)

/-! ### What is lost, and what is written again -/

/-- The machines of the first `n` addresses. -/
def crowd (n : Nat) (h : n < 2 ^ 32) : OrderedMap Text (Option HostRecord) where
  entries := (List.range n).map fun i => (intToIp i, some ⟨[], [], [], [], 1, none, none, none, [], false⟩)
  nodup := by
    rw [List.map_map]
    refine List.nodup_range.map_on fun i hi j hj heq => ?_
    have hi := ipToInt_intToIp ((List.mem_range.mp hi).trans h)
    have hj := ipToInt_intToIp ((List.mem_range.mp hj).trans h)
    have heq : intToIp i = intToIp j := heq
    exact Option.some.inj (hi.symm.trans ((congrArg ipToInt heq).trans hj))

theorem validHost_crowd {n : Nat} {h : n < 2 ^ 32} :
    ((crowd n h).entries.filterMap validHost).map Prod.fst = (List.range n).map intToIp := by
  rw [crowd, List.filterMap_map, List.map_filterMap, ← List.filterMap_eq_map]
  refine List.filterMap_congr fun i hi => ?_
  have hvalid := ipToInt_intToIp ((List.mem_range.mp hi).trans h)
  simp [validHost, hvalid]

theorem cap_lt : MAX_HOST_RECORDS < 2 ^ 32 := by decide

theorem crowd_length : (normalize (crowd MAX_HOST_RECORDS cap_lt)).entries.length =
    MAX_HOST_RECORDS := by
  have hkeys := congrArg List.length (validHost_crowd (n := MAX_HOST_RECORDS) (h := cap_lt))
  rw [List.length_map, List.length_map, List.length_range] at hkeys
  rw [normalize, List.length_take, hkeys, Nat.min_self]

theorem keys_normalize (disk : OrderedMap Text (Option HostRecord)) :
    (normalize disk).keys ⊆ (disk.entries.filterMap validHost).map Prod.fst :=
  ((List.take_sublist _ _).map Prod.fst).subset

theorem not_has_crowd {n v : Nat} {h : n < 2 ^ 32} {ip : Text} (hip : ipToInt ip = some v)
    (hv : n ≤ v) : (normalize (crowd n h)).has ip = false := by
  rw [Bool.eq_false_iff, Ne, OrderedMap.has_iff]
  intro hmem
  have hkey := keys_normalize _ hmem
  rw [validHost_crowd] at hkey
  obtain ⟨i, hi, rfl⟩ := List.mem_map.mp hkey
  have hlt := List.mem_range.mp hi
  rw [ipToInt_intToIp (hlt.trans h)] at hip
  exact absurd (hv.trans_eq (Option.some.inj hip).symm) (not_le_of_gt hlt)

/-- A machine that answers both times is written both times; the 1025th machine is lost. -/
theorem rewritten_and_lost :
    let once := run step (start .empty) [.apply threeHosts ⟨1, by decide⟩ (lone .ok)]
    let again := RosterEvent.apply threeHosts ⟨2, by decide⟩ (lone .ok)
    (once.Repeats again ∧ (once.step again).writes = once.writes + 1) ∧
      ¬ ((start (crowd MAX_HOST_RECORDS cap_lt)).step
        (.apply threeHosts ⟨1, by decide⟩ (lone .refused))).Survives := by
  refine ⟨by decide +kernel, fun hsurvives => ?_⟩
  have hroom := room_of_apply hsurvives
  have hnew : (normalize (crowd MAX_HOST_RECORDS cap_lt)).has (js "10.0.0.7") = false :=
    not_has_crowd (v := 167772167) (by decide +kernel) (by decide)
  have hone : newcomers (normalize (crowd MAX_HOST_RECORDS cap_lt)) (lone .refused).entries = 1 := by
    simp [newcomers, lone, earnsRecord, hnew]
  have hread : (start (crowd MAX_HOST_RECORDS cap_lt)).read =
    normalize (crowd MAX_HOST_RECORDS cap_lt) := rfl
  rw [hread, crowd_length, hone] at hroom
  exact absurd hroom (Nat.not_succ_le_self _)

end Store
end BoredManager.Fleet.Sweeps
