import BoredManager.Sensors.Probe
import Mathlib.Data.List.Nodup
import Mathlib.Data.List.Perm.Subperm

/-! When the labels of the sensors tell them apart, and what a chart keeps of them. -/
namespace BoredManager.Sensors
open BoredManager.Js

variable {raw : List SensorReading} {r s : SensorReading}

/-- What distinguishes a reading before it is labelled. -/
def origin (r : SensorReading) : Option SensorKind × Text × Text := (r.kind, r.chip, r.label)

/-- No two readings of a kind have one chip and one label, and no label with a chip name in front of
it is the label of another reading. -/
structure Distinguishable (raw : List SensorReading) : Prop where
  origins : (raw.map origin).Nodup
  kept_short : ∀ r ∈ raw, ∀ s ∈ raw, r.kind = s.kind → isShared raw r = false →
    isShared raw s = true → isAmbiguous raw s = false → r.label ≠ shortLabel s
  kept_full : ∀ r ∈ raw, ∀ s ∈ raw, r.kind = s.kind → isShared raw r = false →
    isShared raw s = true → isAmbiguous raw s = true → r.label ≠ fullLabel s
  short_full : ∀ r ∈ raw, ∀ s ∈ raw, r.kind = s.kind → isShared raw r = true →
    isAmbiguous raw r = false → isShared raw s = true → isAmbiguous raw s = true →
      shortLabel r ≠ fullLabel s
  full_full : ∀ r ∈ raw, ∀ s ∈ raw, r.kind = s.kind → isShared raw r = true →
    isAmbiguous raw r = true → isShared raw s = true → isAmbiguous raw s = true → r.chip ≠ s.chip →
      fullLabel r ≠ fullLabel s
  reserved : ∀ r ∈ raw, r.kind ≠ none → isShared raw r = false → r.label ≠ js "__proto__"

/-- One reading, with another label at most. -/
def Relabelled (r s : SensorReading) : Prop := s = { r with label := s.label }

/-- A chart point has the time, and one value for each of the kind's readings up to the limit. -/
def KeepsValues (snap : SensorsSnapshot) (kind : SensorKind) (limit : Nat) : Prop :=
  let rows := (ofKind snap kind limit).filter fun s => s.label ≠ js "t"
  if rows = [] then toKindPoint snap kind limit = none
  else ∃ point, toKindPoint snap kind limit = some point ∧
    point.entries.Perm ((js "t", snap.t) :: rows.map fun s => (s.label, s.value))

/-- What the readings of two texts owe. -/
structure UniqueLabels (localeCompare : Text → Text → Int) (sensorsText hwmonText : Text) : Prop where
  one_each : ∃ labelled, (parseSensors localeCompare sensorsText hwmonText).Perm labelled ∧
    List.Forall₂ Relabelled (rawReadings sensorsText hwmonText) labelled
  distinct : ((parseSensors localeCompare sensorsText hwmonText).map fun r => (r.kind, r.label)).Nodup
  points : ∀ t kind limit,
    KeepsValues ⟨t, parseSensors localeCompare sensorsText hwmonText⟩ kind limit

/-! ### Labels -/

/-- Two readings with one text count at least twice. -/
theorem two_le_count (f : SensorReading → Text) (hr : r ∈ raw) (hs : s ∈ raw) (hne : r ≠ s)
    (h : f r = f s) : 2 ≤ count (raw.map f) (f r) := by
  have hpair : List.Subperm [r, s] raw := by
    refine List.subperm_of_subset (by simpa using hne) ?_
    exact List.cons_subset.mpr ⟨hr, List.cons_subset.mpr ⟨hs, List.nil_subset _⟩⟩
  have hcount := hpair.countP_le ((· == f r) ∘ f)
  have htwo : [r, s].countP ((· == f r) ∘ f) = 2 := by simp [h]
  rwa [htwo, ← List.countP_map] at hcount

theorem labelOf_of_kept (h : isShared raw r = false) : labelOf raw r = r.label := by
  rw [labelOf, h]
  rfl

theorem labelOf_of_short (h : isShared raw r = true) (hshort : isAmbiguous raw r = false) :
    labelOf raw r = shortLabel r := by
  rw [labelOf, h, hshort]
  rfl

theorem labelOf_of_full (h : isShared raw r = true) (hfull : isAmbiguous raw r = true) :
    labelOf raw r = fullLabel r := by
  rw [labelOf, h, hfull]
  rfl

/-- A reading that keeps a label which another reading of the kind has comes from no chip. -/
theorem chip_of_kept (hr : r ∈ raw) (hs : s ∈ raw) (hne : r ≠ s) (hkind : r.kind = s.kind)
    (hlabel : r.label = s.label) (h : isShared raw r = false) : r.chip = [] := by
  have hcount := two_le_count (fun r => keyed r.kind r.label) hr hs hne (by rw [hkind, hlabel])
  have hplain : ¬plain raw (keyed r.kind r.label) < 2 := Nat.not_lt.mpr hcount
  rw [isShared, decide_eq_false hplain, Bool.not_false, Bool.and_true, Bool.not_eq_false'] at h
  exact List.isEmpty_iff.mp h

theorem isAmbiguous_of_two (hr : r ∈ raw) (hs : s ∈ raw) (hne : r ≠ s) (hkind : r.kind = s.kind)
    (hlabel : shortLabel r = shortLabel s) : isAmbiguous raw r = true := by
  have hcount := two_le_count (fun r => keyed r.kind (shortLabel r)) hr hs hne (by rw [hkind, hlabel])
  have hshort : ¬short raw (keyed r.kind (shortLabel r)) < 2 := Nat.not_lt.mpr hcount
  rw [isAmbiguous, decide_eq_false hshort]
  rfl

theorem Distinguishable.eq_of_label (h : Distinguishable raw) (hr : r ∈ raw) (hs : s ∈ raw)
    (hkind : r.kind = s.kind) (hlabel : labelOf raw r = labelOf raw s) : r = s := by
  have horigin : r.chip = s.chip → r.label = s.label → r = s := fun hchip hlabel =>
    List.inj_on_of_nodup_map h.origins hr hs (by rw [origin, origin, hkind, hchip, hlabel])
  cases hsr : isShared raw r with
  | false =>
    rw [labelOf_of_kept hsr] at hlabel
    cases hss : isShared raw s with
    | false =>
      rw [labelOf_of_kept hss] at hlabel
      by_contra hne
      refine hne (horigin ?_ hlabel)
      rw [chip_of_kept hr hs hne hkind hlabel hsr,
        chip_of_kept hs hr (Ne.symm hne) hkind.symm hlabel.symm hss]
    | true =>
      cases has : isAmbiguous raw s with
      | false =>
        rw [labelOf_of_short hss has] at hlabel
        exact absurd hlabel (h.kept_short r hr s hs hkind hsr hss has)
      | true =>
        rw [labelOf_of_full hss has] at hlabel
        exact absurd hlabel (h.kept_full r hr s hs hkind hsr hss has)
  | true =>
    cases hss : isShared raw s with
    | false =>
      rw [labelOf_of_kept hss] at hlabel
      cases har : isAmbiguous raw r with
      | false =>
        rw [labelOf_of_short hsr har] at hlabel
        exact absurd hlabel.symm (h.kept_short s hs r hr hkind.symm hss hsr har)
      | true =>
        rw [labelOf_of_full hsr har] at hlabel
        exact absurd hlabel.symm (h.kept_full s hs r hr hkind.symm hss hsr har)
    | true =>
      cases har : isAmbiguous raw r with
      | false =>
        rw [labelOf_of_short hsr har] at hlabel
        cases has : isAmbiguous raw s with
        | false =>
          rw [labelOf_of_short hss has] at hlabel
          by_contra hne
          rw [isAmbiguous_of_two hr hs hne hkind hlabel] at har
          cases har
        | true =>
          rw [labelOf_of_full hss has] at hlabel
          exact absurd hlabel (h.short_full r hr s hs hkind hsr har hss has)
      | true =>
        rw [labelOf_of_full hsr har] at hlabel
        cases has : isAmbiguous raw s with
        | false =>
          rw [labelOf_of_short hss has] at hlabel
          exact absurd hlabel.symm (h.short_full s hs r hr hkind.symm hss has hsr har)
        | true =>
          rw [labelOf_of_full hss has] at hlabel
          by_cases hchip : r.chip = s.chip
          · rw [fullLabel, fullLabel, hchip] at hlabel
            exact horigin hchip (List.cons_inj_right 32 |>.mp (List.append_cancel_left hlabel))
          · exact absurd hlabel (h.full_full r hr s hs hkind hsr har hss has hchip)

/-- The label depends on the kind, the chip and the label only. -/
theorem nodup_origins (h : (raw.map fun r => (r.kind, labelOf raw r)).Nodup) :
    (raw.map origin).Nodup := by
  let relabel : Option SensorKind × Text × Text → Option SensorKind × Text := fun o =>
    (o.1, labelOf raw ⟨o.2.1, o.2.2, o.1, 0, none, none, none⟩)
  have hmap : (raw.map origin).map relabel = raw.map fun r => (r.kind, labelOf raw r) := by
    rw [List.map_map]
    rfl
  exact .of_map relabel (hmap ▸ h)

theorem map_finalize (raw : List SensorReading) :
    (finalize raw).map (fun r => (r.kind, r.label)) = raw.map fun r => (r.kind, labelOf raw r) := by
  rw [finalize, List.map_map]
  rfl

theorem parseSensors_perm (localeCompare : Text → Text → Int) (sensorsText hwmonText : Text) :
    (parseSensors localeCompare sensorsText hwmonText).Perm (finalize (rawReadings sensorsText hwmonText)) :=
  List.mergeSort_perm _ _

theorem forall₂_finalize (raw : List SensorReading) : List.Forall₂ Relabelled raw (finalize raw) :=
  List.forall₂_map_right_iff.mpr (List.forall₂_same.mpr fun _ _ => rfl)

/-! ### Chart points -/

theorem entries_foldl_addReading {rows : List SensorReading} {point : OrderedMap Text ℚ}
    (hnodup : (rows.map SensorReading.label).Nodup) (hproto : ∀ s ∈ rows, s.label ≠ js "__proto__")
    (hnew : ∀ s ∈ rows, s.label ≠ js "t" → s.label ∉ point.keys) :
    (rows.foldl addReading point).entries =
      point.entries ++ (rows.filter fun s => s.label ≠ js "t").map fun s => (s.label, s.value) := by
  induction rows generalizing point with
  | nil => exact (List.append_nil _).symm
  | cons s rows ih =>
    obtain ⟨hs, hnodup⟩ := List.nodup_cons.mp hnodup
    rw [List.foldl_cons, List.filter_cons]
    by_cases ht : s.label = js "t"
    · rw [addReading, if_pos ht, if_neg (by simpa using ht)]
      exact ih hnodup (fun q hq => hproto q (List.mem_cons_of_mem s hq))
        fun q hq => hnew q (List.mem_cons_of_mem s hq)
    · have hset := OrderedMap.entries_set_of_not_mem (hnew s List.mem_cons_self ht) s.value
      rw [addReading, if_neg ht, assign, if_neg (hproto s List.mem_cons_self), if_pos (by simpa using ht),
        ih hnodup (fun q hq => hproto q (List.mem_cons_of_mem s hq)) ?_, hset, List.append_assoc]
      · rfl
      · intro q hq hqt hmem
        obtain heq | hmem := OrderedMap.mem_keys_set.mp hmem
        · exact hs (heq ▸ List.mem_map_of_mem hq)
        · exact hnew q (List.mem_cons_of_mem s hq) hqt hmem

theorem not_mem_foldl_addReading {rows : List SensorReading} {point : OrderedMap Text ℚ}
    (h : js "__proto__" ∉ point.keys) : js "__proto__" ∉ (rows.foldl addReading point).keys := by
  induction rows generalizing point with
  | nil => exact h
  | cons s rows ih =>
    refine ih ?_
    rw [addReading]
    split
    · exact h
    · rw [assign]
      split
      · exact h
      · rename_i hne
        intro hmem
        exact (OrderedMap.mem_keys_set.mp hmem).elim (fun heq => hne heq.symm) h

/-- The labels of a kind's readings are distinct. -/
theorem nodup_ofKind {snap : SensorsSnapshot} (h : (snap.sensors.map fun r => (r.kind, r.label)).Nodup)
    (kind : SensorKind) (limit : Nat) : ((ofKind snap kind limit).map SensorReading.label).Nodup := by
  have hrows : (ofKind snap kind limit).Sublist snap.sensors :=
    (List.take_sublist _ _).trans List.filter_sublist
  have hpairs := h.sublist (hrows.map fun r => (r.kind, r.label))
  refine (List.nodup_map_iff_inj_on hpairs.of_map).mpr fun r hr s hs hlabel => ?_
  have hkind : ∀ r ∈ ofKind snap kind limit, r.kind = some kind := fun r hr => by
    simpa using (List.mem_filter.mp (List.mem_of_mem_take hr)).2
  exact List.inj_on_of_nodup_map hpairs hr hs (by rw [hkind r hr, hkind s hs, hlabel])

theorem toKindPoint_keeps {snap : SensorsSnapshot}
    (h : (snap.sensors.map fun r => (r.kind, r.label)).Nodup)
    (hproto : ∀ s ∈ snap.sensors, s.kind ≠ none → s.label ≠ js "__proto__") (kind : SensorKind)
    (limit : Nat) : KeepsValues snap kind limit := by
  have hrows : ∀ s ∈ ofKind snap kind limit, s.label ≠ js "__proto__" := by
    intro s hs
    obtain ⟨hmem, hkind⟩ := List.mem_filter.mp (List.mem_of_mem_take hs)
    refine hproto s hmem fun hnone => ?_
    rw [hnone] at hkind
    cases of_decide_eq_true hkind
  have hnew : ∀ s ∈ ofKind snap kind limit, s.label ≠ js "t" →
      s.label ∉ ((OrderedMap.empty : OrderedMap Text ℚ).set (js "t") snap.t).keys := by
    intro s _ hne hmem
    exact (OrderedMap.mem_keys_set.mp hmem).elim hne fun hempty => (by cases hempty)
  have hentries := entries_foldl_addReading (nodup_ofKind h kind limit) hrows hnew
  have hlength := congrArg List.length hentries
  rw [KeepsValues]
  split
  · rename_i hnone
    rw [hnone] at hlength
    rw [toKindPoint]
    split
    · rfl
    · rw [if_neg]
      rw [OrderedMap.keys, List.length_map, hlength]
      exact Nat.lt_irrefl 1
  · rename_i hsome
    have hne : ofKind snap kind limit ≠ [] := fun hempty => hsome (by rw [hempty]; rfl)
    refine ⟨_, ?_, .of_eq hentries⟩
    have hpos := List.length_pos_iff.mpr hsome
    rw [List.length_append, List.length_map] at hlength
    rw [toKindPoint, if_neg hne, if_pos]
    rw [OrderedMap.keys, List.length_map, hlength]
    exact Nat.lt_add_of_pos_right hpos

/-- No point has a value under the reserved name. -/
theorem not_keeps_reserved {snap : SensorsSnapshot} {kind : SensorKind} (hr : r ∈ snap.sensors)
    (hkind : r.kind = some kind) (hlabel : r.label = js "__proto__") :
    ¬KeepsValues snap kind snap.sensors.length := by
  intro h
  have hmem : r ∈ (ofKind snap kind snap.sensors.length).filter fun s => s.label ≠ js "t" := by
    refine List.mem_filter.mpr ⟨?_, ?_⟩
    · rw [ofKind, List.take_of_length_le (List.length_filter_le _ _)]
      exact List.mem_filter.mpr ⟨hr, decide_eq_true hkind⟩
    · rw [hlabel]
      decide
  rw [KeepsValues, if_neg (List.ne_nil_of_mem hmem)] at h
  obtain ⟨point, hpoint, hperm⟩ := h
  rw [toKindPoint] at hpoint
  split at hpoint
  · cases hpoint
  · obtain ⟨-, heq⟩ := Option.ite_none_right_eq_some.mp hpoint
    have hnone : js "__proto__" ∉ point.keys := by
      rw [← Option.some_inj.mp heq]
      refine not_mem_foldl_addReading fun hkey => ?_
      exact (OrderedMap.mem_keys_set.mp hkey).elim (by decide) fun hempty => (by cases hempty)
    refine hnone (OrderedMap.mem_keys.mpr ⟨r.value, hperm.mem_iff.mpr (List.mem_cons_of_mem _ ?_)⟩)
    exact List.mem_map.mpr ⟨r, hmem, by rw [hlabel]⟩

/-! ### Both directions -/

section texts
variable {localeCompare : Text → Text → Int} {sensorsText hwmonText : Text}

theorem nodup_parseSensors (localeCompare : Text → Text → Int) :
    ((parseSensors localeCompare sensorsText hwmonText).map fun r => (r.kind, r.label)).Nodup ↔
      ((rawReadings sensorsText hwmonText).map fun r =>
        (r.kind, labelOf (rawReadings sensorsText hwmonText) r)).Nodup := by
  rw [((parseSensors_perm localeCompare sensorsText hwmonText).map _).nodup_iff, map_finalize]

/-- A shared label begins with a chip name and a blank. -/
theorem isShared_of_reserved (h : labelOf raw r = js "__proto__") : isShared raw r = false := by
  cases hshared : isShared raw r with
  | false => rfl
  | true =>
    have hblank : 32 ∈ labelOf raw r := by
      cases hambiguous : isAmbiguous raw r with
      | false => exact labelOf_of_short hshared hambiguous ▸ List.mem_append_right _ List.mem_cons_self
      | true => exact labelOf_of_full hshared hambiguous ▸ List.mem_append_right _ List.mem_cons_self
    rw [h] at hblank
    exact absurd hblank (by decide)

theorem distinguishable_of_uniqueLabels (h : UniqueLabels localeCompare sensorsText hwmonText) :
    Distinguishable (rawReadings sensorsText hwmonText) := by
  have hnodup := (nodup_parseSensors localeCompare).mp h.distinct
  have hinj : ∀ r ∈ rawReadings sensorsText hwmonText, ∀ s ∈ rawReadings sensorsText hwmonText,
      r.kind = s.kind → labelOf (rawReadings sensorsText hwmonText) r =
        labelOf (rawReadings sensorsText hwmonText) s → r = s :=
    fun r hr s hs hkind hlabel => List.inj_on_of_nodup_map hnodup hr hs (by rw [hkind, hlabel])
  refine ⟨nodup_origins hnodup, ?_, ?_, ?_, ?_, ?_⟩
  · intro r hr s hs hkind hkept hshared hshort hlabel
    rw [← labelOf_of_kept hkept, ← labelOf_of_short hshared hshort] at hlabel
    rw [hinj r hr s hs hkind hlabel, hshared] at hkept
    cases hkept
  · intro r hr s hs hkind hkept hshared hfull hlabel
    rw [← labelOf_of_kept hkept, ← labelOf_of_full hshared hfull] at hlabel
    rw [hinj r hr s hs hkind hlabel, hshared] at hkept
    cases hkept
  · intro r hr s hs hkind hr' hshort hs' hfull hlabel
    rw [← labelOf_of_short hr' hshort, ← labelOf_of_full hs' hfull] at hlabel
    rw [hinj r hr s hs hkind hlabel, hfull] at hshort
    cases hshort
  · intro r hr s hs hkind hr' hrfull hs' hsfull hchip hlabel
    rw [← labelOf_of_full hr' hrfull, ← labelOf_of_full hs' hsfull] at hlabel
    exact hchip (congrArg _ (hinj r hr s hs hkind hlabel))
  · intro r hr hkind hkept hlabel
    obtain ⟨kind, hkind⟩ := Option.ne_none_iff_exists'.mp hkind
    have hout := (parseSensors_perm localeCompare sensorsText hwmonText).mem_iff.mpr
      (List.mem_map_of_mem hr)
    refine absurd (h.points 0 kind (parseSensors localeCompare sensorsText hwmonText).length) ?_
    exact not_keeps_reserved hout hkind ((labelOf_of_kept hkept).trans hlabel)

theorem uniqueLabels_of_distinguishable (h : Distinguishable (rawReadings sensorsText hwmonText)) :
    UniqueLabels localeCompare sensorsText hwmonText := by
  have hraw : ((rawReadings sensorsText hwmonText).map fun r =>
      (r.kind, labelOf (rawReadings sensorsText hwmonText) r)).Nodup := by
    refine (List.nodup_map_iff_inj_on h.origins.of_map).mpr fun r hr s hs heq => ?_
    obtain ⟨hkind, hlabel⟩ := Prod.mk.inj heq
    exact h.eq_of_label hr hs hkind hlabel
  have hdistinct := (nodup_parseSensors localeCompare).mpr hraw
  refine ⟨⟨_, parseSensors_perm _ _ _, forall₂_finalize _⟩, hdistinct, fun t kind limit => ?_⟩
  refine toKindPoint_keeps hdistinct (fun s hs hkind hlabel => ?_) kind limit
  obtain ⟨r, hr, rfl⟩ := List.mem_map.mp ((parseSensors_perm _ _ _).mem_iff.mp hs)
  have hkept := isShared_of_reserved hlabel
  exact h.reserved r hr hkind hkept ((labelOf_of_kept hkept).symm.trans hlabel)

end texts

/-- The labels are unique, and a chart keeps every value, exactly when the raw readings can be told
apart. -/
theorem parseSensors_labels_unique_iff (localeCompare : Text → Text → Int)
    (sensorsText hwmonText : Text) :
    UniqueLabels localeCompare sensorsText hwmonText ↔
      Distinguishable (rawReadings sensorsText hwmonText) :=
  ⟨distinguishable_of_uniqueLabels, uniqueLabels_of_distinguishable⟩

/-- Two drives of one kind, as the kernel lists them. -/
def twoDrives : Text := js "nvme|temp1|Composite|40000||\nnvme|temp1|Composite|41000||"

theorem two_drives_share_a_label : ¬UniqueLabels (fun _ _ => 0) [] twoDrives := by
  intro h
  have horigins := (distinguishable_of_uniqueLabels h).origins
  have hraw : (rawReadings [] twoDrives).map origin =
      [(some .temp, js "nvme", js "Composite"), (some .temp, js "nvme", js "Composite")] := by
    decide +kernel
  rw [hraw] at horigins
  exact absurd horigins (by decide)

end BoredManager.Sensors
