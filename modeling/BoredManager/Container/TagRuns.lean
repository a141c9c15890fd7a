import BoredManager.Container.Tags
import BoredManager.Machine.Runs

/-! The tags of a host over any interleaving: ids and names stay distinct as long as a saved name is
free and a new id is fresh at that moment, and a row always shows the badges of its tags. -/
namespace BoredManager.Container
open BoredManager.Js BoredManager.Shared BoredManager.Machine

variable {lower : Text → Text} {data : HostData} {s : TagStore}

/-- A member list: not empty, without duplicates, and naming only some ids. -/
def GoodMembers (known ids : List Text) : Prop := ids ≠ [] ∧ ids.Nodup ∧ ∀ id ∈ ids, id ∈ known

/-- What a document keeps. -/
structure Tidy (lower : Text → Text) (data : HostData) : Prop where
  ids : data.ids.Nodup
  names : (data.tags.map fun t => lower t.name).Nodup
  members : ∀ ref ids, data.members.get? ref = some ids → GoodMembers data.ids ids

theorem GoodMembers.mono {known more ids : List Text} (h : GoodMembers known ids)
    (hmore : ∀ id ∈ known, id ∈ more) : GoodMembers more ids :=
  ⟨h.1, h.2.1, fun id hid => hmore id (h.2.2 id hid)⟩

/-! ### Reading -/

theorem keptTags_sublist (tags : List TagRecord) :
    (keptTags tags).Sublist tags ∧ ((keptTags tags).map TagRecord.id).Nodup := by
  induction tags using List.reverseRecOn with
  | nil => exact ⟨List.Sublist.refl _, List.nodup_nil⟩
  | append_singleton tags t ih =>
    obtain ⟨hsub, hnodup⟩ := ih
    rw [keptTags, List.foldl_append, List.foldl_cons, List.foldl_nil, ← keptTags]
    split_ifs with hskip
    · exact ⟨hsub.trans (List.sublist_append_left _ _), hnodup⟩
    · simp only [not_or] at hskip
      refine ⟨hsub.append (List.Sublist.refl _), ?_⟩
      rw [List.map_append]
      refine List.nodup_append.mpr ⟨hnodup, List.nodup_singleton _, fun id hid other hother heq => ?_⟩
      rw [List.map_cons, List.map_nil, List.mem_singleton] at hother
      exact hskip.2.2 (hother ▸ heq ▸ hid)

/-- A document whose names are distinct is read tidily. -/
theorem tidy_normalize {raw : HostData} (h : ((normalize raw).tags.map fun t => lower t.name).Nodup) :
    Tidy lower (normalize raw) := by
  refine ⟨(keptTags_sublist raw.tags).2, h, ?_⟩
  refine List.foldlRecOn raw.members.entries _
    (motive := fun members : OrderedMap Text (List Text) => ∀ ref ids, members.get? ref = some ids →
      GoodMembers ((keptTags raw.tags).map TagRecord.id) ids) (by simp) ?_
  intro members hmembers e _ ref ids hids
  dsimp only at hids
  split_ifs at hids with hnone
  · exact hmembers ref ids hids
  · rw [OrderedMap.get?_set] at hids
    split_ifs at hids
    · cases hids
      refine ⟨fun hnil => hnone ?_, nodup_eraseDups _, fun id hid => ?_⟩
      · rw [List.eq_nil_iff_forall_not_mem] at hnil ⊢
        exact fun id hid => hnil id (List.mem_eraseDups.mpr hid)
      · simpa using (List.mem_filter.mp (List.mem_eraseDups.mp hid)).2
    · exact hmembers ref ids hids

/-! ### Attaching -/

theorem Tidy.attach (h : Tidy lower data) (ref : Text) {tagId : Text} (hid : tagId ∈ data.ids) :
    Tidy lower (attach data ref tagId) := by
  simp only [Container.attach]
  split_ifs with hmem
  · exact h
  · refine ⟨h.ids, h.names, fun other ids hids => ?_⟩
    rw [OrderedMap.get?_set] at hids
    split_ifs at hids
    · cases hids
      have hold : ((data.members.get? ref).getD []).Nodup ∧
          ∀ id ∈ (data.members.get? ref).getD [], id ∈ data.ids := by
        cases hget : data.members.get? ref with
        | none => simp
        | some ids => exact (h.members ref ids hget).2
      refine ⟨by simp, ?_, fun id hmem => ?_⟩
      · exact List.nodup_append.mpr ⟨hold.1, List.nodup_singleton _, fun id hid other hother heq =>
          hmem (List.mem_singleton.mp hother ▸ heq ▸ hid)⟩
      · obtain hmem | hmem := List.mem_append.mp hmem
        · exact hold.2 id hmem
        · exact List.mem_singleton.mp hmem ▸ hid
    · exact h.members other ids hids

theorem ids_attach (data : HostData) (ref tagId : Text) : (attach data ref tagId).ids = data.ids := by
  simp only [Container.attach]
  split_ifs <;> rfl

theorem Tidy.attachAll (h : Tidy lower data) (refs : List Text) {tagId : Text} (hid : tagId ∈ data.ids) :
    Tidy lower (attachAll data refs tagId) := by
  induction refs generalizing data with
  | nil => exact h
  | cons ref refs ih => exact ih (h.attach ref hid) (by rwa [ids_attach])

theorem goodMembers_filter {known ids : List Text} (h : GoodMembers known ids) (id : Text)
    (hne : ids.filter (· ≠ id) ≠ []) : GoodMembers known (ids.filter (· ≠ id)) :=
  ⟨hne, h.2.1.filter _, fun other hother => h.2.2 other (List.mem_of_mem_filter hother)⟩

theorem Tidy.detach (h : Tidy lower data) (ref tagId : Text) : Tidy lower (detach data ref tagId) := by
  rw [Container.detach]
  cases hget : data.members.get? ref with
  | none => exact h
  | some old =>
    refine ⟨h.ids, h.names, fun other ids hids => ?_⟩
    dsimp only at hids
    split_ifs at hids with hnone
    · rw [OrderedMap.get?_erase] at hids
      split_ifs at hids
      exact h.members other ids hids
    · rw [OrderedMap.get?_set] at hids
      split_ifs at hids
      · cases hids
        exact goodMembers_filter (h.members ref old hget) tagId hnone
      · exact h.members other ids hids

theorem Tidy.detachAll (h : Tidy lower data) (refs : List Text) (tagId : Text) :
    Tidy lower (detachAll data refs tagId) := by
  induction refs generalizing data with
  | nil => exact h
  | cons ref refs ih => exact ih (h.detach ref tagId)

/-! ### Tags -/

/-- No other tag than the one with the id has the name. -/
def NameFree (lower : Text → Text) (data : HostData) (id : Option Text) (name : Text) : Prop :=
  ∀ t ∈ data.tags, some t.id ≠ id → lower t.name ≠ lower name

theorem Tidy.push (h : Tidy lower data) {tag : TagRecord} (hid : tag.id ∉ data.ids)
    (hname : NameFree lower data none tag.name) : Tidy lower (push data tag) := by
  have hids : (Container.push data tag).ids = data.ids ++ [tag.id] := by
    rw [HostData.ids, Container.push, List.map_append]
    rfl
  refine ⟨?_, ?_, fun ref ids hget => (h.members ref ids hget).mono fun id hmem => ?_⟩
  · rw [hids]
    exact List.nodup_append.mpr ⟨h.ids, List.nodup_singleton _, fun id hmem other hother heq =>
      hid (List.mem_singleton.mp hother ▸ heq ▸ hmem)⟩
  · rw [Container.push, List.map_append]
    refine List.nodup_append.mpr ⟨h.names, List.nodup_singleton _, fun name hmem other hother heq => ?_⟩
    obtain ⟨t, ht, rfl⟩ := List.mem_map.mp hmem
    rw [List.map_cons, List.map_nil, List.mem_singleton] at hother
    exact hname t ht (by simp) (heq.trans hother)
  · rw [hids]
    exact List.mem_append_left _ hmem

theorem mem_ids_push (data : HostData) (tag : TagRecord) : tag.id ∈ (push data tag).ids := by
  rw [HostData.ids, push, List.map_append]
  simp

theorem mem_editFirst {id : Text} {values : TagValues} {tags : List TagRecord} {t : TagRecord}
    (h : t ∈ editFirst id values tags) : t ∈ tags ∨ t.name = values.name := by
  induction tags with
  | nil => cases h
  | cons u tags ih =>
    rw [editFirst] at h
    split_ifs at h
    · obtain rfl | h := List.mem_cons.mp h
      · exact .inr rfl
      · exact .inl (List.mem_cons_of_mem _ h)
    · obtain rfl | h := List.mem_cons.mp h
      · exact .inl List.mem_cons_self
      · exact (ih h).imp_left (List.mem_cons_of_mem _)

theorem ids_editFirst (id : Text) (values : TagValues) (tags : List TagRecord) :
    (editFirst id values tags).map TagRecord.id = tags.map TagRecord.id := by
  induction tags with
  | nil => rfl
  | cons u tags ih =>
    rw [editFirst]
    split_ifs
    · rfl
    · rw [List.map_cons, List.map_cons, ih]

theorem names_editFirst {id : Text} {values : TagValues} {tags : List TagRecord}
    (hids : (tags.map TagRecord.id).Nodup) (hnames : (tags.map fun t => lower t.name).Nodup)
    (hfree : ∀ t ∈ tags, t.id ≠ id → lower t.name ≠ lower values.name) :
    ((editFirst id values tags).map fun t => lower t.name).Nodup := by
  induction tags with
  | nil => exact List.nodup_nil
  | cons u tags ih =>
    rw [List.map_cons, List.nodup_cons] at hids hnames
    rw [editFirst]
    split_ifs with hid
    · rw [List.map_cons, List.nodup_cons]
      refine ⟨fun hmem => ?_, hnames.2⟩
      obtain ⟨t, ht, heq⟩ := List.mem_map.mp hmem
      refine hfree t (List.mem_cons_of_mem _ ht) (fun hsame => hids.1 ?_) heq
      rw [hid, ← hsame]
      exact List.mem_map_of_mem ht
    · rw [List.map_cons, List.nodup_cons]
      refine ⟨fun hmem => ?_, ih hids.2 hnames.2 fun t ht => hfree t (List.mem_cons_of_mem _ ht)⟩
      obtain ⟨t, ht, heq⟩ := List.mem_map.mp hmem
      obtain hold | hnew := mem_editFirst ht
      · exact hnames.1 (List.mem_map.mpr ⟨t, hold, heq⟩)
      · rw [hnew] at heq
        exact hfree u List.mem_cons_self hid heq.symm

theorem Tidy.editTag (h : Tidy lower data) {id : Text} {values : TagValues}
    (hname : NameFree lower data (some id) values.name) : Tidy lower (editTag data id values) := by
  have hids : (Container.editTag data id values).ids = data.ids := ids_editFirst id values data.tags
  refine ⟨hids ▸ h.ids, names_editFirst h.ids h.names fun t ht hne => ?_, fun ref ids hget => ?_⟩
  · exact hname t ht fun heq => hne (Option.some.inj heq)
  · rw [hids]
    exact h.members ref ids hget

/-- What a loop over some rows leaves in a row: a changed list, or what was there. -/
theorem get?_foldl_members {f : List Text → List Text} {rows : List (Text × List Text)}
    {members : OrderedMap Text (List Text)} {ref : Text} {ids : List Text}
    (h : (rows.foldl (fun members e =>
      if f e.2 = [] then members.erase e.1 else members.set e.1 (f e.2)) members).get? ref = some ids) :
    (∃ e ∈ rows, e.1 = ref ∧ ids = f e.2 ∧ ids ≠ []) ∨
      ref ∉ rows.map Prod.fst ∧ members.get? ref = some ids := by
  induction rows using List.reverseRecOn generalizing ids with
  | nil => exact .inr ⟨List.not_mem_nil, h⟩
  | append_singleton rows e ih =>
    rw [List.foldl_append, List.foldl_cons, List.foldl_nil] at h
    have hrest : ref ≠ e.1 → (rows.foldl (fun members e =>
        if f e.2 = [] then members.erase e.1 else members.set e.1 (f e.2)) members).get? ref = some ids →
        _ := fun hne hget => (ih hget).imp
      (fun ⟨old, hold, hrow⟩ => (⟨old, List.mem_append_left _ hold, hrow⟩ :
        ∃ e' ∈ rows ++ [e], e'.1 = ref ∧ ids = f e'.2 ∧ ids ≠ []))
      fun ⟨hnot, hget⟩ => (⟨by simp [hne]; simpa using hnot, hget⟩ :
        ref ∉ (rows ++ [e]).map Prod.fst ∧ members.get? ref = some ids)
    split_ifs at h with hnone
    · rw [OrderedMap.get?_erase] at h
      split_ifs at h with hne
      exact hrest hne h
    · rw [OrderedMap.get?_set] at h
      split_ifs at h with hne
      · cases h
        exact .inl ⟨e, by simp, hne.symm, rfl, hnone⟩
      · exact hrest hne h

theorem tidy_removeTag (h : Tidy lower data) (id : Text) : Tidy lower (removeTag id data).1 := by
  by_cases hid : id ∉ data.ids
  · rw [removeTag, if_pos hid]
    exact h
  · rw [removeTag, if_neg hid]
    have hsub : (data.tags.eraseP fun t => decide (t.id = id)).Sublist data.tags := List.eraseP_sublist
    refine ⟨h.ids.sublist (hsub.map _), h.names.sublist (hsub.map _), fun ref ids hget => ?_⟩
    obtain ⟨e, he, rfl, rfl, hne⟩ | ⟨hnot, hold⟩ := get?_foldl_members hget
    · have hgood := h.members e.1 e.2 (OrderedMap.get?_eq_some.mpr he)
      refine ⟨hne, hgood.2.1.filter _, fun other hother => ?_⟩
      obtain ⟨hmem, hdiffer⟩ := List.mem_filter.mp hother
      obtain ⟨t, ht, rfl⟩ := List.mem_map.mp (hgood.2.2 other hmem)
      refine List.mem_map_of_mem ((List.mem_eraseP_of_neg ?_).mpr ht)
      simpa using hdiffer
    · exact absurd (OrderedMap.has_iff.mp (OrderedMap.has_iff_get.mpr ⟨ids, hold⟩)) hnot

theorem tidy_pruneMembers (h : Tidy lower data) (live : List Text) :
    Tidy lower (pruneMembers live data).1 := by
  refine ⟨h.ids, h.names, ?_⟩
  refine List.foldlRecOn (data.members.keys.filter (· ∉ live)) _
    (motive := fun members : OrderedMap Text (List Text) => ∀ ref ids, members.get? ref = some ids →
      GoodMembers data.ids ids) h.members ?_
  intro members hmembers gone _ ref ids hget
  rw [OrderedMap.get?_erase] at hget
  split_ifs at hget
  exact hmembers ref ids hget

/-- The tag of a name is there afterwards, and the document stays tidy if a new id is fresh. -/
theorem ensureTag_spec (h : Tidy lower data) (name : Text) (draws : Draws)
    (hfresh : findByName lower data name = none → draws.id data ∉ data.ids) :
    Tidy lower (ensureTag lower data name draws).1 ∧
      (ensureTag lower data name draws).2 ∈ (ensureTag lower data name draws).1.ids := by
  rw [ensureTag]
  cases hfind : findByName lower data name with
  | some tag => exact ⟨h, List.mem_map_of_mem (List.mem_of_find?_eq_some hfind)⟩
  | none =>
    refine ⟨h.push (hfresh hfind) fun t ht _ heq => ?_, mem_ids_push data _⟩
    have hnot := List.find?_eq_none.mp hfind t ht
    simp only [decide_eq_true_eq] at hnot
    exact hnot heq

theorem tidy_ensureAttached (h : Tidy lower data) (name : Text) (refs : List Text) (draws : Draws)
    (hfresh : findByName lower data name = none → draws.id data ∉ data.ids) :
    Tidy lower (ensureAttached lower name refs draws data).1 := by
  obtain ⟨htidy, hmem⟩ := ensureTag_spec h name draws hfresh
  exact htidy.attachAll refs hmem

theorem tidy_bulkTags (h : Tidy lower data) (refs : List Text) (mode : TagMode) (name : Text)
    (draws : Draws) (hfresh : mode = .assign → findByName lower data name = none →
      draws.id data ∉ data.ids) : Tidy lower (bulkTags lower refs mode name draws data).1 := by
  cases mode with
  | assign => exact tidy_ensureAttached h name refs draws (hfresh rfl)
  | unassign =>
    rw [bulkTags]
    cases findByName lower data name with
    | none => exact h
    | some tag => exact h.detachAll refs tag.id

/-! ### The condition -/

theorem nameFree_of_nameTaken {id : Option Text} {name : Text} (h : nameTaken lower data id name = false) :
    NameFree lower data id name := by
  intro t ht hne heq
  rw [nameTaken, List.any_eq_false] at h
  exact h t ht (by simpa using ⟨hne, heq⟩)

/-- At the apply that goes through, no other tag has the name, and a new id is not taken. -/
def PlanFits (lower : Text → Text) (data : HostData) (id : Option Text) (plan : TagPlan) (draws : Draws) :
    Prop :=
  (∀ target ∈ edited id, target ∈ data.ids →
      nameTaken lower data (some target) plan.values.name = false) ∧
    (edited id = none →
      nameTaken lower data none plan.values.name = false ∧ draws.id data ∉ data.ids)

/-- A tag that is made on the spot gets an id that is not taken. -/
def Fresh (lower : Text → Text) (data : HostData) (name : Text) (draws : Draws) : Prop :=
  findByName lower data name = none → draws.id data ∉ data.ids

instance (lower : Text → Text) (data : HostData) (id : Option Text) (plan : TagPlan) (draws : Draws) :
    Decidable (PlanFits lower data id plan draws) := inferInstanceAs (Decidable (_ ∧ _))

instance (lower : Text → Text) (data : HostData) (name : Text) (draws : Draws) :
    Decidable (Fresh lower data name draws) := inferInstanceAs (Decidable (_ → _))

theorem tidy_applyPlan (h : Tidy lower data) (id : Option Text) (plan : TagPlan) (draws : Draws)
    (hfits : PlanFits lower data id plan draws) : Tidy lower (applyPlan id plan draws data).1 := by
  obtain ⟨hedit, hnew⟩ := hfits
  rw [applyPlan]
  cases hid : edited id with
  | some target =>
    dsimp only
    by_cases hmem : target ∉ data.ids
    · rw [if_pos hmem]
      exact h
    · rw [if_neg hmem]
      have hmem := not_not.mp hmem
      refine (h.editTag (nameFree_of_nameTaken (hedit target hid hmem))).attachAll _ ?_
      rwa [HostData.ids, editTag, ids_editFirst]
  | none =>
    obtain ⟨hname, hfresh⟩ := hnew hid
    exact (h.push hfresh (nameFree_of_nameTaken hname)).attachAll _ (mem_ids_push data _)

/-- What is asked of an event in the state that takes it. -/
def TagStore.Allowed (lower : Text → Text) (s : TagStore) : TagEvent → Prop
  | .apply id token values now draws _ =>
    ∀ plan ∈ (s.session.take token values now).2, PlanFits lower s.read.2 id plan draws
  | .bulk keys _ mode tagName draws _ =>
    keys ≠ [] → TAG_NAME_RE (trim tagName) = true → mode = some .assign →
      Fresh lower s.read.2 (trim tagName) draws
  | .ensureAndAttach name _ draws _ => TAG_NAME_RE name = true → Fresh lower s.read.2 name draws
  | _ => True

instance (lower : Text → Text) (s : TagStore) (event : TagEvent) : Decidable (s.Allowed lower event) :=
  match event with
  | .apply id token values now draws _ => inferInstanceAs (Decidable
      (∀ plan ∈ (s.session.take token values now).2, PlanFits lower s.read.2 id plan draws))
  | .bulk keys _ mode tagName draws _ => inferInstanceAs (Decidable
      (keys ≠ [] → TAG_NAME_RE (trim tagName) = true → mode = some .assign →
        Fresh lower s.read.2 (trim tagName) draws))
  | .ensureAndAttach name _ draws _ => inferInstanceAs (Decidable
      (TAG_NAME_RE name = true → Fresh lower s.read.2 name draws))
  | .check .. | .remove .. | .prune .. | .badgesFor .. | .reset => inferInstanceAs (Decidable True)

/-! ### The badges of a row -/

/-- The badges of the tags that a row wears, in the order in which they were attached. -/
def attachedBadges (data : HostData) (ref : Text) : List Badge :=
  ((data.members.get? ref).getD []).filterMap fun id =>
    (data.tags.find? fun t => decide (t.id = id)).map fun tag => ⟨tag.name, tag.color⟩

theorem find?_tag (h : data.ids.Nodup) {id : Text} {tag : TagRecord} :
    (data.tags.find? fun t => decide (t.id = id)) = some tag ↔ tag ∈ data.tags ∧ tag.id = id := by
  constructor
  · intro hfind
    exact ⟨List.mem_of_find?_eq_some hfind, by simpa using List.find?_some hfind⟩
  · rintro ⟨hmem, rfl⟩
    cases hfind : data.tags.find? fun t => decide (t.id = tag.id) with
    | none => exact absurd (List.find?_eq_none.mp hfind tag hmem) (by simp)
    | some t =>
      have hid : t.id = tag.id := by simpa using List.find?_some hfind
      rw [List.inj_on_of_nodup_map h (List.mem_of_find?_eq_some hfind) hmem hid]

theorem get?_tags (h : data.ids.Nodup) (id : Text) :
    (OrderedMap.ofList (data.tags.map fun t => (t.id, t))).get? id =
      data.tags.find? fun t => decide (t.id = id) := by
  have hkeys : ((data.tags.map fun t => (t.id, t)).map Prod.fst).Nodup := by
    rwa [List.map_map]
  refine Option.ext fun tag => ?_
  rw [OrderedMap.get?_ofList_of_nodup hkeys, find?_tag h, List.mem_map]
  constructor
  · rintro ⟨t, ht, heq⟩
    cases heq
    exact ⟨ht, rfl⟩
  · rintro ⟨ht, rfl⟩
    exact ⟨tag, ht, rfl⟩

/-- A row with no badge is left out of the cache, and reads as empty all the same. -/
theorem getD_foldl_badges (f : List Text → List Badge) {rows : List (Text × List Text)}
    (h : (rows.map Prod.fst).Nodup) (ref : Text) :
    ((rows.foldl (fun out e => if f e.2 = [] then out else out.set e.1 (f e.2))
        OrderedMap.empty).get? ref).getD [] =
      ((rows.find? fun e => decide (e.1 = ref)).map fun e => f e.2).getD [] := by
  induction rows using List.reverseRecOn with
  | nil => rfl
  | append_singleton rows e ih =>
    rw [List.map_append, List.nodup_append] at h
    obtain ⟨hrows, -, hnew⟩ := h
    have ih := ih hrows
    rw [List.foldl_append, List.foldl_cons, List.foldl_nil, List.find?_append]
    by_cases href : e.1 = ref
    · have hold : rows.find? (fun e => decide (e.1 = ref)) = none := by
        refine List.find?_eq_none.mpr fun old hmem => ?_
        simpa [href] using hnew old.1 (List.mem_map_of_mem hmem) e.1 (by simp)
      rw [hold] at ih ⊢
      split_ifs with hnone
      · simpa [href, hnone] using ih
      · simp [href]
    · have hlast : [e].find? (fun e => decide (e.1 = ref)) = none := by simp [href]
      rw [hlast, Option.or_none, ← ih]
      split_ifs
      · rfl
      · rw [OrderedMap.get?_set, if_neg fun heq => href heq.symm]

theorem buildBadgeCache_spec (h : data.ids.Nodup) (ref : Text) :
    ((buildBadgeCache data).get? ref).getD [] = attachedBadges data ref := by
  have hbadges : ∀ ids, badgesOf (.ofList (data.tags.map fun t => (t.id, t))) ids =
      ids.filterMap fun id => (data.tags.find? fun t => decide (t.id = id)).map fun tag =>
        ⟨tag.name, tag.color⟩ := by
    intro ids
    rw [badgesOf]
    exact List.filterMap_congr fun id _ => by rw [get?_tags h]
  rw [buildBadgeCache, getD_foldl_badges _ data.members.nodup, attachedBadges, OrderedMap.get?]
  cases data.members.entries.find? fun e => decide (e.1 = ref) with
  | none => rfl
  | some e => exact hbadges e.2

/-! ### Runs -/

/-- What the store keeps: a document on disk and in memory that is tidy, and a badge cache that is
the document's own whenever its revision is the current one. -/
structure TagStore.Sound (lower : Text → Text) (s : TagStore) : Prop where
  disk : ((normalize s.disk).tags.map fun t => lower t.name).Nodup
  cached : ∀ data, s.cache = some data → Tidy lower data
  badges : ∀ r, s.badgeCacheRevision = some r → r ≤ s.revision ∧
    (r = s.revision → ∃ data, s.cache = some data ∧ s.badgeCache = buildBadgeCache data)

theorem read_spec (h : s.Sound lower) :
    s.read.1.Sound lower ∧ s.read.1.cache = some s.read.2 ∧ Tidy lower s.read.2 := by
  rw [TagStore.read]
  cases hcache : s.cache with
  | some data => exact ⟨h, hcache, h.cached data hcache⟩
  | none =>
    have htidy := tidy_normalize h.disk
    refine ⟨⟨h.disk, fun data hdata => ?_, fun r hr => ?_⟩, rfl, htidy⟩
    · cases hdata
      exact htidy
    · have := (h.badges r hr).1
      dsimp only
      exact ⟨by omega, fun heq => absurd heq (by omega)⟩

/-- An update of a tidy document keeps the store sound, whether it is written or not. -/
theorem TagStore.Sound.update {mutate : HostData → HostData × Except Text Text} (h : s.Sound lower) (written : Bool)
    (hmutate : Tidy lower (mutate s.read.2).1) : (s.update mutate written).1.Sound lower := by
  obtain ⟨hread, -, -⟩ := read_spec h
  rw [TagStore.update]
  refine ⟨?_, fun data hdata => ?_, fun r hr => ?_⟩
  · cases written with
    | false => exact hread.disk
    | true => exact hmutate.names.sublist ((keptTags_sublist _).1.map _)
  · cases hdata
    exact hmutate
  · have := (hread.badges r hr).1
    dsimp only
    exact ⟨by omega, fun heq => absurd heq (by omega)⟩

theorem TagStore.Sound.reset (h : s.Sound lower) : s.reset.Sound lower := by
  refine ⟨h.disk, (by rintro data ⟨⟩), fun r hr => ?_⟩
  have := (h.badges r hr).1
  dsimp only [TagStore.reset]
  exact ⟨by omega, fun heq => absurd heq (by omega)⟩

/-- Only the checks that are open do not matter. -/
theorem TagStore.Sound.session (h : s.Sound lower) (session : CheckSession TagPlan) :
    TagStore.Sound lower { s with session := session } := ⟨h.disk, h.cached, h.badges⟩

theorem badgesFor_spec (h : s.Sound lower) (ref : Text) :
    (s.badgesFor ref).1.Sound lower ∧ (s.badgesFor ref).2 = attachedBadges s.read.2 ref := by
  obtain ⟨hread, hcache, htidy⟩ := read_spec h
  rw [TagStore.badgesFor]
  dsimp only
  split_ifs with hcurrent
  · obtain ⟨data, hdata, hbadges⟩ := (hread.badges _ hcurrent).2 rfl
    rw [hcache] at hdata
    cases hdata
    rw [hbadges]
    exact ⟨hread, buildBadgeCache_spec htidy.ids ref⟩
  · refine ⟨⟨hread.disk, hread.cached, fun r hr => ?_⟩, buildBadgeCache_spec htidy.ids ref⟩
    cases hr
    exact ⟨le_refl _, fun _ => ⟨s.read.2, hcache, rfl⟩⟩

theorem TagStore.Sound.check (h : s.Sound lower) (id : Option Text) (form : String → Text) (refs : RefSource)
    (call : TagPlan → CheckSession.Issue TagPlan) : (s.check lower id form refs call).1.Sound lower := by
  obtain ⟨hread, -, -⟩ := read_spec h
  rw [TagStore.check]
  dsimp only
  split_ifs
  · exact hread
  · exact hread
  · exact TagStore.Sound.session hread _
  · exact TagStore.Sound.session hread _

theorem TagStore.Sound.apply (h : s.Sound lower) {id : Option Text} {token : Text} {values : Value} {now : Int}
    {draws : Draws} (written : Bool)
    (hfits : ∀ plan ∈ (s.session.take token values now).2, PlanFits lower s.read.2 id plan draws) :
    (s.apply id token values now draws written).1.Sound lower := by
  have hsession := TagStore.Sound.session h (s.session.take token values now).1
  rw [TagStore.apply]
  cases htaken : (s.session.take token values now).2 with
  | none => exact hsession
  | some plan =>
    refine TagStore.Sound.update hsession written (tidy_applyPlan (read_spec hsession).2.2 id plan draws ?_)
    have hsame : TagStore.read { s with session := (s.session.take token values now).1 } =
        ({ s.read.1 with session := (s.session.take token values now).1 }, s.read.2) := by
      cases hcache : s.cache <;> simp only [TagStore.read, hcache]
    rw [hsame]
    exact hfits plan htaken

/-- One event keeps the store sound. -/
theorem sound_step (event : TagEvent) (h : s.Sound lower) (hallowed : s.Allowed lower event) :
    (s.step lower event).Sound lower := by
  have htidy := (read_spec h).2.2
  cases event with
  | check id form refs call => exact h.check id form refs call
  | apply id token values now draws written => exact h.apply written hallowed
  | remove id written => exact h.update written (tidy_removeTag htidy id)
  | bulk keys engine mode tagName draws written =>
    rw [TagStore.step, TagStore.bulk.eq_def]
    dsimp only
    split_ifs with hkeys hname
    · exact h
    · exact h
    · cases mode with
      | none => exact h
      | some mode =>
        refine h.update written (tidy_bulkTags htidy _ mode _ draws fun hassign => ?_)
        refine hallowed (fun hnil => hkeys ?_) (by simpa using hname) (by rw [hassign])
        rw [hnil, List.map_nil]
  | prune refs written => exact h.update written (tidy_pruneMembers htidy _)
  | ensureAndAttach name refs draws written =>
    rw [TagStore.step]
    split_ifs with hname
    · exact h
    · exact h.update written (tidy_ensureAttached htidy name refs draws (hallowed (by simpa using hname)))
  | badgesFor ref => exact (badgesFor_spec h ref).1
  | reset => exact h.reset

theorem sound_start {disk : HostData} (h : ((normalize disk).tags.map fun t => lower t.name).Nodup) :
    (TagStore.start disk).Sound lower :=
  ⟨h, (by rintro data ⟨⟩), (by rintro r ⟨⟩)⟩

/-- The check of a new tag's form, for no row or for the docker ones. -/
def newTag (name : String) (refs : RefSource) : TagEvent :=
  .check none (fun key => if key = "name" then js name
    else if key = "applyTo" then js "all-docker" else []) refs
    fun plan => ⟨.obj [(js "name", .str (js name))], plan, 0, 0, 0, js "r"⟩

/-- The apply of the check that is the store's `n`-th. -/
def applyNew (n : Nat) (name draw : String) : TagEvent :=
  .apply none (CheckSession.tokenText n 0 (js "r")) (.obj [(js "name", .str (js name))]) 1 ⟨[js draw], js "0", 1⟩ true

end BoredManager.Container
