import BoredManager.Machine.Claims
import BoredManager.OpenWrt.FastSweep
import BoredManager.OpenWrt.PppoeJobs
import BoredManager.OpenWrt.Rules

/-! The index of WANs and routing tables. A WAN's candidate table comes from four sources, a later one
overriding an earlier one; a table that two WANs claim is withdrawn from both maps, and the first
claimant is kept apart for the conflicts of all later ones. -/
namespace BoredManager.OpenWrt
open BoredManager.Js BoredManager.Machine

structure TableConflict where
  table : Int
  first : Text
  second : Text
deriving DecidableEq

structure WanTableIndex where
  byWan : OrderedMap Text Int
  byTable : OrderedMap Int Text
  conflicts : List TableConflict

/-- The source's entries, those of a record in the order in which they are enumerated. -/
def tableSourceEntries (source : Option (List (Text × Number))) : List (Text × Int) :=
  (source.getD []).filterMap fun entry =>
    (entry.2.safeInteger?.filter fun table => entry.1 ≠ [] && decide (0 < table)).map (entry.1, ·)

/-- The naming convention of the stored batches. -/
def conventionEntries (batches : List PppoeBatchRecord) (rules : OwrtRules) : List (Text × Int) :=
  batches.flatMap fun batch =>
    (List.range' batch.seqFrom (batch.seqTo + 1 - batch.seqFrom)).map fun seq =>
      (batch.ifacePrefix ++ padZero 5 (decimal seq), rules.numeric .tableBase + seq)

def observedEntries (ifaces : List IfaceState) : List (Text × Int) :=
  ifaces.filterMap fun iface =>
    (iface.ip4Table.filter fun table => decide (0 < table)).map (iface.name, ·)

/-- `new Map` with the four sources set one after another. -/
def tableCandidates (model : RouterModel) (batches : List PppoeBatchRecord)
    (extraTables : List (Text × Int)) (rules : OwrtRules) (source : Option (List (Text × Number))) :
    OrderedMap Text Int :=
  .ofList (conventionEntries batches rules ++ extraTables ++ observedEntries model.ifaces ++
    tableSourceEntries source)

/-- The index under construction. -/
structure IndexState extends WanTableIndex where
  conflictedTables : OrderedMap Int Text

/-- A name that counts as true: an empty one does not. -/
def truthy (name : Option Text) : Option Text := name.filter fun n => decide (n ≠ [])

/-- One candidate. -/
def IndexState.claim (s : IndexState) (wan : Text) (table : Int) : IndexState :=
  match truthy (s.conflictedTables.get? table) with
  | some firstConflict =>
    { s with
      conflicts := s.conflicts ++ [⟨table, firstConflict, wan⟩]
      byWan := s.byWan.erase wan }
  | none =>
    match (truthy (s.byTable.get? table)).filter fun oldWan => decide (oldWan ≠ wan) with
    | some oldWan =>
      { conflicts := s.conflicts ++ [⟨table, oldWan, wan⟩]
        conflictedTables := s.conflictedTables.set table oldWan
        byWan := (s.byWan.erase oldWan).erase wan
        byTable := s.byTable.erase table }
    | none => { s with byWan := s.byWan.set wan table, byTable := s.byTable.set table wan }

def IndexState.start : IndexState := ⟨⟨.empty, .empty, []⟩, .empty⟩

def buildWanTableIndex (model : RouterModel) (batches : List PppoeBatchRecord)
    (extraTables : List (Text × Int)) (rules : OwrtRules) (source : Option (List (Text × Number))) :
    WanTableIndex :=
  ((tableCandidates model batches extraTables rules source).entries.foldl
    (fun s e => IndexState.claim s e.1 e.2) IndexState.start).toWanTableIndex

/-! ### The pass over the candidates -/

/-- What the pass knows of a table with some claimants. -/
structure IndexState.Knows (s : IndexState) (table : Int) (wans : List Text) : Prop where
  byTable : s.byTable.get? table = sole wans
  conflicted : s.conflictedTables.get? table = firstOfMany wans
  conflicts : s.conflicts.filter (fun c => decide (c.table = table)) =
    wans.tail.map fun second => ⟨table, wans.headD [], second⟩

/-- What the pass knows behind some candidates. -/
structure Tracks (claims : List (Text × Int)) (s : IndexState) : Prop where
  tables : ∀ table, s.Knows table (claimants claims table)
  byWan : ∀ wan table, s.byWan.get? wan = some table ↔ s.byTable.get? table = some wan

theorem tracks_start : Tracks [] .start :=
  ⟨fun _ => ⟨rfl, rfl, rfl⟩, fun _ _ => by simp [IndexState.start]⟩

variable {claims : List (Text × Int)} {s s' : IndexState} {wan : Text} {table : Int}

theorem truthy_some {name : Text} (h : name ≠ []) : truthy (some name) = some name := by
  simp [truthy, h]

/-- A WAN that has not come yet is in no map. -/
theorem Tracks.fresh (h : Tracks claims s) (hnew : wan ∉ claims.map Prod.fst) (table : Int) :
    s.byTable.get? table ≠ some wan := by
  rw [(h.tables table).byTable, Ne, sole_eq_some]
  intro hone
  have hmem : (wan, table) ∈ claims := mem_claimants.mp (hone ▸ List.mem_cons_self)
  exact hnew (List.mem_map.mpr ⟨_, hmem, rfl⟩)

/-- The pass knows the same of two states' table. -/
theorem IndexState.Knows.of_eq {wans : List Text} (h : s.Knows table wans)
    (hbyTable : s'.byTable.get? table = s.byTable.get? table)
    (hconflicted : s'.conflictedTables.get? table = s.conflictedTables.get? table)
    (hconflicts : s'.conflicts.filter (fun c => decide (c.table = table)) =
      s.conflicts.filter fun c => decide (c.table = table)) : s'.Knows table wans :=
  ⟨hbyTable.trans h.byTable, hconflicted.trans h.conflicted, hconflicts.trans h.conflicts⟩

/-- A claim changes what is known of its own table only. -/
theorem Tracks.concat (h : Tracks claims s)
    (hself : s'.Knows table (claimants claims table ++ [wan]))
    (hother : ∀ t, t ≠ table → s.Knows t (claimants claims t) → s'.Knows t (claimants claims t))
    (hbyWan : ∀ w t, s'.byWan.get? w = some t ↔ s'.byTable.get? t = some w) :
    Tracks (claims ++ [(wan, table)]) s' := by
  refine ⟨fun t => ?_, hbyWan⟩
  by_cases ht : t = table
  · rw [ht, claimants_concat_self claims (wan, table)]
    exact hself
  · rw [claimants_concat_of_ne fun heq : table = t => ht heq.symm]
    exact hother t ht (h.tables t)

theorem filter_conflicts_concat {conflicts : List TableConflict} {c : TableConflict} {t : Int}
    (h : t ≠ c.table) : (conflicts ++ [c]).filter (fun x => decide (x.table = t)) =
      conflicts.filter fun x => decide (x.table = t) := by
  rw [List.filter_append, List.filter_cons_of_neg (by simpa using Ne.symm h), List.filter_nil,
    List.append_nil]

/-- The table is free: the WAN gets it. -/
theorem Tracks.claim_free (h : Tracks claims s) (hnew : wan ∉ claims.map Prod.fst)
    (hnone : claimants claims table = []) : Tracks (claims ++ [(wan, table)])
      { s with byWan := s.byWan.set wan table, byTable := s.byTable.set table wan } := by
  have hknown := h.tables table
  rw [hnone] at hknown
  refine h.concat ?_ (fun t ht hknows => hknows.of_eq ?_ rfl rfl) fun w t => ?_
  · rw [hnone]
    exact ⟨by simp [sole], hknown.conflicted, hknown.conflicts⟩
  · simp [ht]
  · have hfree : s.byTable.get? table = none := hknown.byTable
    simp only [OrderedMap.get?_set]
    by_cases hw : w = wan
    · by_cases ht : t = table
      · simp [hw, ht]
      · simpa [hw, ht, Ne.symm ht] using h.fresh hnew t
    · by_cases ht : t = table
      · simpa [hw, ht, Ne.symm hw, hfree] using h.byWan w table
      · simpa [hw, ht] using h.byWan w t

/-- The table has one claimant: both claims of it are withdrawn. -/
theorem Tracks.claim_second (h : Tracks claims s) (hnew : wan ∉ claims.map Prod.fst) {first : Text}
    (hone : claimants claims table = [first]) : Tracks (claims ++ [(wan, table)])
      { conflicts := s.conflicts ++ [⟨table, first, wan⟩]
        conflictedTables := s.conflictedTables.set table first
        byWan := (s.byWan.erase first).erase wan
        byTable := s.byTable.erase table } := by
  have hknown := h.tables table
  rw [hone] at hknown
  have hfirst : s.byTable.get? table = some first := hknown.byTable
  refine h.concat ?_ (fun t ht hknows => hknows.of_eq ?_ ?_ (filter_conflicts_concat ht)) fun w t => ?_
  · rw [hone]
    refine ⟨by simp [sole], by simp [firstOfMany], ?_⟩
    rw [List.filter_append, hknown.conflicts]
    simp
  · simp [ht]
  · simp [ht]
  · simp only [OrderedMap.get?_erase]
    by_cases hw : w = wan
    · simpa [hw] using fun _ => h.fresh hnew t
    by_cases hgone : w = first
    · -- the first claimant was in the index with this table only
      have honly : t ≠ table → s.byTable.get? t ≠ some first := fun ht heq =>
        ht (Option.some.inj (((h.byWan first t).mpr heq).symm.trans ((h.byWan first table).mpr hfirst)))
      simpa [hw, hgone] using honly
    · by_cases ht : t = table
      · simpa [hw, hgone, ht, hfirst, Ne.symm hgone] using h.byWan w table
      · simpa [hw, hgone, ht] using h.byWan w t

/-- The table is in conflict: the claim is one conflict more. -/
theorem Tracks.claim_more (h : Tracks claims s) (hnew : wan ∉ claims.map Prod.fst)
    {first second : Text} {rest : List Text} (hmany : claimants claims table = first :: second :: rest) :
    Tracks (claims ++ [(wan, table)])
      { s with conflicts := s.conflicts ++ [⟨table, first, wan⟩], byWan := s.byWan.erase wan } := by
  have hknown := h.tables table
  rw [hmany] at hknown
  refine h.concat ?_ (fun t ht hknows => hknows.of_eq rfl rfl (filter_conflicts_concat ht)) fun w t => ?_
  · rw [hmany]
    refine ⟨hknown.byTable, hknown.conflicted, ?_⟩
    rw [List.filter_append, hknown.conflicts]
    simp
  · simp only [OrderedMap.get?_erase]
    by_cases hw : w = wan
    · simpa [hw] using h.fresh hnew t
    · simpa [hw] using h.byWan w t

/-- One candidate keeps what the pass knows. -/
theorem Tracks.claim (h : Tracks claims s) (hnew : wan ∉ claims.map Prod.fst)
    (hnames : ∀ e ∈ claims, e.1 ≠ []) : Tracks (claims ++ [(wan, table)]) (s.claim wan table) := by
  have hknown := h.tables table
  rw [IndexState.claim, hknown.conflicted, hknown.byTable]
  cases hclaimants : claimants claims table with
  | nil => exact h.claim_free hnew hclaimants
  | cons first rest =>
    have hmem : (first, table) ∈ claims := mem_claimants.mp (hclaimants ▸ List.mem_cons_self)
    have hfirst : truthy (some first) = some first := truthy_some (hnames _ hmem)
    cases rest with
    | nil =>
      have hne : first ≠ wan := fun heq => hnew (List.mem_map.mpr ⟨_, hmem, heq⟩)
      have hold : (truthy (some first)).filter (fun oldWan => decide (oldWan ≠ wan)) = some first := by
        rw [hfirst]
        simp [hne]
      rw [show sole [first] = some first from rfl, hold]
      exact h.claim_second hnew hclaimants
    | cons second rest =>
      rw [firstOfMany, hfirst]
      exact h.claim_more hnew hclaimants

/-- The whole pass. -/
theorem tracks_foldl (claims : List (Text × Int)) (hnodup : (claims.map Prod.fst).Nodup)
    (hnames : ∀ e ∈ claims, e.1 ≠ []) :
    Tracks claims (claims.foldl (fun s e => IndexState.claim s e.1 e.2) IndexState.start) := by
  induction claims using List.reverseRecOn with
  | nil => exact tracks_start
  | append_singleton claims c ih =>
    rw [List.map_append, List.nodup_append] at hnodup
    rw [List.foldl_append]
    exact (ih hnodup.1 fun e he => hnames e (List.mem_append_left _ he)).claim
      (fun hmem => hnodup.2.2 c.1 hmem c.1 (by simp) rfl)
      fun e he => hnames e (List.mem_append_left _ he)

/-! ### The candidates -/

/-- The last table that a list names for a WAN. -/
def lastTable (entries : List (Text × Int)) (wan : Text) : Option Int :=
  (entries.reverse.find? fun e => decide (e.1 = wan)).map Prod.snd

/-- A WAN's final candidate: the external source before the observed table, that before the extra
tables, and those before the naming convention. -/
def finalCandidate (model : RouterModel) (batches : List PppoeBatchRecord)
    (extraTables : List (Text × Int)) (rules : OwrtRules) (source : Option (List (Text × Number)))
    (wan : Text) : Option Int :=
  (lastTable (tableSourceEntries source) wan).or ((lastTable (observedEntries model.ifaces) wan).or
    ((lastTable extraTables wan).or (lastTable (conventionEntries batches rules) wan)))

theorem lastTable_append (l m : List (Text × Int)) (wan : Text) :
    lastTable (l ++ m) wan = (lastTable m wan).or (lastTable l wan) := by
  rw [lastTable, List.reverse_append, List.find?_append, Option.map_or]
  rfl

theorem get?_tableCandidates (model : RouterModel) (batches : List PppoeBatchRecord)
    (extraTables : List (Text × Int)) (rules : OwrtRules) (source : Option (List (Text × Number)))
    (wan : Text) : (tableCandidates model batches extraTables rules source).get? wan =
      finalCandidate model batches extraTables rules source wan := by
  rw [tableCandidates, OrderedMap.get?_ofList, ← lastTable, lastTable_append, lastTable_append,
    lastTable_append, finalCandidate]

theorem padZero_ne_nil {width : Nat} (hwidth : 0 < width) (t : Text) : padZero width t ≠ [] := by
  intro hnil
  have hlength : (padZero width t).length = 0 := by rw [hnil]; rfl
  rw [padZero, List.length_append, List.length_replicate] at hlength
  omega

/-- A candidate has a name when the observed interfaces and the extra tables have. -/
theorem candidates_named {model : RouterModel} {extraTables : List (Text × Int)}
    (hifaces : ∀ iface ∈ model.ifaces, iface.name ≠ []) (hextra : ∀ e ∈ extraTables, e.1 ≠ [])
    (batches : List PppoeBatchRecord) (rules : OwrtRules) (source : Option (List (Text × Number))) :
    ∀ e ∈ (tableCandidates model batches extraTables rules source).entries, e.1 ≠ [] := by
  intro e he
  have hmem := OrderedMap.mem_of_get?_ofList (OrderedMap.get?_eq_some.mpr he)
  simp only [List.mem_append] at hmem
  obtain ((hmem | hmem) | hmem) | hmem := hmem
  · rw [conventionEntries, List.mem_flatMap] at hmem
    obtain ⟨batch, -, hmem⟩ := hmem
    obtain ⟨seq, -, heq⟩ := List.mem_map.mp hmem
    have hname := congrArg Prod.fst heq
    exact fun hnil => padZero_ne_nil (by decide) _ (List.append_eq_nil_iff.mp (hname.trans hnil)).2
  · exact hextra _ hmem
  · obtain ⟨iface, hiface, hsome⟩ := List.mem_filterMap.mp hmem
    obtain ⟨table, -, heq⟩ := Option.map_eq_some_iff.mp hsome
    exact fun hnil => hifaces iface hiface ((congrArg Prod.fst heq).trans hnil)
  · obtain ⟨entry, -, hsome⟩ := List.mem_filterMap.mp hmem
    obtain ⟨table, hfilter, heq⟩ := Option.map_eq_some_iff.mp hsome
    have hgood := (Option.filter_eq_some_iff.mp hfilter).2
    rw [Bool.and_eq_true, decide_eq_true_eq] at hgood
    exact fun hnil => hgood.1 ((congrArg Prod.fst heq).trans hnil)

/-- The interfaces of a parsed dump have names. -/
theorem parseDumpEntries_named {seen : List Text} {values : List Json} {iface : IfaceState}
    (h : iface ∈ parseDumpEntries seen values) : iface.name ≠ [] := by
  induction values generalizing seen with
  | nil => cases h
  | cons value values ih =>
    rw [parseDumpEntries] at h
    split_ifs at h with hskip
    · exact ih h
    · obtain rfl | h := List.mem_cons.mp h
      · simp only [Bool.or_eq_true, decide_eq_true_eq, not_or] at hskip
        exact hskip.1.2
      · exact ih h

/-- An index of the candidates: two inverse maps of the WANs that claim their table alone. -/
structure IsIndex (candidates : OrderedMap Text Int) (candidate : Text → Option Int)
    (index : WanTableIndex) : Prop where
  finals : ∀ wan, candidates.get? wan = candidate wan
  inverse : ∀ wan table, index.byWan.get? wan = some table ↔ index.byTable.get? table = some wan
  indexed : ∀ wan table, index.byWan.get? wan = some table ↔
    candidate wan = some table ∧ ∀ other, candidate other = some table → other = wan
  withdrawn : ∀ table v w, candidate v = some table → candidate w = some table → v ≠ w →
    index.byTable.get? table = none ∧ ∀ wan, index.byWan.get? wan ≠ some table
  reported : ∀ table, index.conflicts.filter (fun c => decide (c.table = table)) =
    (claimants candidates.entries table).tail.map fun second =>
      ⟨table, (claimants candidates.entries table).headD [], second⟩

/-- An interface that was observed with a table. -/
def observed (name : String) (table : Int) : IfaceState :=
  ⟨js name, js "pppoe", [], [], true, false, true, none, 0, none, some table⟩

/-- Three interfaces with one table, and one with a table of its own. -/
def sharedTables : RouterModel :=
  ⟨0, ⟨0, 0, 0, 0⟩, [observed "wan" 7, observed "wanb" 7, observed "wanc" 7, observed "wand" 8], ⟨0, 0, 0⟩, [], [],
    .empty⟩

end BoredManager.OpenWrt
