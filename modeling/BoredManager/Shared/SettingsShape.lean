import BoredManager.Shared.AppSettings

/-! What normalized settings look like, and that normalizing reads their own JSON back:
one lemma for each kind of field. -/
namespace BoredManager.Shared
open BoredManager.Js

variable {ν : Type}

/-! Records with free keys: an ordered map over its defaults is read back entry by entry. -/

theorem setEntries_append {k : Text} {v : ν} {done rest : List (Text × ν)}
    (h : k ∉ done.map Prod.fst) :
    OrderedMap.setEntries k v (done ++ rest) = done ++ OrderedMap.setEntries k v rest := by
  induction done with
  | nil => rfl
  | cons e done ih =>
    rw [List.map_cons, List.mem_cons, not_or] at h
    rw [List.cons_append, OrderedMap.setEntries, if_neg (Ne.symm h.1), ih h.2, List.cons_append]

/-- Setting the entries of a list, in order, over a start whose keys come first in it. -/
theorem foldl_setEntries (done rest : List (Text × ν)) {entries : List (Text × ν)}
    (hkeys : rest.map Prod.fst <+: entries.map Prod.fst)
    (hnodup : ((done ++ entries).map Prod.fst).Nodup) :
    entries.foldl (fun es e => OrderedMap.setEntries e.1 e.2 es) (done ++ rest) =
      done ++ entries := by
  induction entries generalizing done rest with
  | nil =>
    have : rest = [] := by simpa using hkeys
    rw [this]
    rfl
  | cons e entries ih =>
    have hfresh : e.1 ∉ done.map Prod.fst := by
      rw [List.map_append, List.map_cons, List.nodup_append] at hnodup
      exact fun hmem => hnodup.2.2 e.1 hmem e.1 List.mem_cons_self rfl
    have hdone : ((done ++ [e] ++ entries).map Prod.fst).Nodup := by simpa using hnodup
    rw [List.foldl_cons, setEntries_append hfresh]
    cases rest with
    | nil =>
      have hstep := ih (done ++ [e]) [] List.nil_prefix hdone
      simpa [OrderedMap.setEntries] using hstep
    | cons r rest =>
      rw [List.map_cons, List.map_cons, List.cons_prefix_cons] at hkeys
      have hstep := ih (done ++ [e]) rest hkeys.2 hdone
      simpa [OrderedMap.setEntries, hkeys.1] using hstep

/-- What a normalized record is: the default keys first, accepted values, no prototype. -/
structure IsRecordOf (defaults : OrderedMap Text ν) (good : ν → Prop)
    (record : OrderedMap Text ν) : Prop where
  keys : defaults.keys <+: record.keys
  good : ∀ e ∈ record.entries, good e.2
  noProto : js "__proto__" ∉ record.keys

theorem keys_prefix_set {defaults record : OrderedMap Text ν} (key : Text) (value : ν)
    (h : defaults.keys <+: record.keys) : defaults.keys <+: (record.set key value).keys := by
  have hgrow : ∀ es : List (Text × ν),
      es.map Prod.fst <+: (OrderedMap.setEntries key value es).map Prod.fst := by
    intro es
    induction es with
    | nil => exact List.nil_prefix
    | cons e es ih =>
      rw [OrderedMap.setEntries]
      split
      · rename_i he
        simp [he]
      · rw [List.map_cons, List.map_cons, List.cons_prefix_cons]
        exact ⟨rfl, ih⟩
  exact h.trans (hgrow record.entries)

theorem IsRecordOf.setProperty {defaults record : OrderedMap Text ν} {good : ν → Prop}
    (h : IsRecordOf defaults good record) (key : Text) {value : ν} (hvalue : good value) :
    IsRecordOf defaults good (setProperty record key value) := by
  unfold BoredManager.Shared.setProperty
  split
  · exact h
  · rename_i hkey
    refine ⟨keys_prefix_set key value h.keys, fun e he => ?_, fun hproto => ?_⟩
    · rcases OrderedMap.mem_entries_set.mp he with rfl | ⟨he, -⟩
      · exact hvalue
      · exact h.good e he
    · rcases OrderedMap.mem_keys_set.mp hproto with hproto | hproto
      · exact hkey hproto.symm
      · exact h.noProto hproto

theorem IsRecordOf.setAccepted {defaults record : OrderedMap Text ν} {good : ν → Prop}
    {accept : Json → Option ν} (haccept : ∀ v w, accept v = some w → good w)
    (h : IsRecordOf defaults good record) (entries : List (Text × Json)) :
    IsRecordOf defaults good (setAccepted accept record entries) := by
  induction entries generalizing record with
  | nil => exact h
  | cons e entries ih =>
    refine ih ?_
    cases hv : accept e.2 with
    | none => simpa only [hv] using h
    | some value => simpa only [hv] using h.setProperty e.1 (haccept _ _ hv)

theorem foldl_set_entries (record : OrderedMap Text ν) (entries : List (Text × ν)) :
    (entries.foldl (fun m e => m.set e.1 e.2) record).entries =
      entries.foldl (fun es e => OrderedMap.setEntries e.1 e.2 es) record.entries := by
  induction entries generalizing record with
  | nil => rfl
  | cons e entries ih => exact ih _

theorem ext_entries {m n : OrderedMap Text ν} (h : m.entries = n.entries) : m = n := by
  cases m
  cases n
  simp_all

/-- A normalized record is read back from its own JSON. -/
theorem setAccepted_readback {defaults record : OrderedMap Text ν} {good : ν → Prop}
    {accept : Json → Option ν} {toJson : ν → Json} (hread : ∀ v, good v → accept (toJson v) = some v)
    (h : IsRecordOf defaults good record) :
    setAccepted accept defaults (entriesOf (some (recordJson toJson record.entries))) = record := by
  have hset : ∀ (l : List (Text × ν)) (m : OrderedMap Text ν),
      (∀ e ∈ l, good e.2 ∧ e.1 ≠ js "__proto__") →
      setAccepted accept m (l.map fun e => (e.1, toJson e.2)) =
        l.foldl (fun m e => m.set e.1 e.2) m := by
    intro l
    induction l with
    | nil => exact fun _ _ => rfl
    | cons e l ih =>
      intro m hl
      obtain ⟨hgood, hkey⟩ := hl e List.mem_cons_self
      have hrest := ih (m.set e.1 e.2) fun x hx => hl x (List.mem_cons_of_mem _ hx)
      rw [List.map_cons, List.foldl_cons, ← hrest]
      simp only [setAccepted, List.foldl_cons, hread _ hgood, setProperty, if_neg hkey]
  have hentries : ∀ e ∈ record.entries, good e.2 ∧ e.1 ≠ js "__proto__" := fun e he =>
    ⟨h.good e he, fun hkey => h.noProto (hkey ▸ List.mem_map_of_mem he)⟩
  rw [recordJson, entriesOf, hset _ _ hentries]
  refine ext_entries ?_
  rw [foldl_set_entries]
  exact foldl_setEntries [] _ h.keys record.nodup

/-- A record of fixed keys is read back key by key. -/
theorem field?_recordJson (toJson : ν → Json) {entries : List (Text × ν)}
    (hnodup : (entries.map Prod.fst).Nodup) {e : Text × ν} (he : e ∈ entries) :
    (recordJson toJson entries).field? e.1 = some (toJson e.2) := by
  induction entries with
  | nil => cases he
  | cons d entries ih =>
    rw [List.map_cons, List.nodup_cons] at hnodup
    rw [recordJson, List.map_cons, Json.field?]
    rcases List.mem_cons.mp he with rfl | he
    · simp
    · have hne : d.1 ≠ e.1 := fun hde => hnodup.1 (hde ▸ List.mem_map_of_mem he)
      rw [List.find?_cons_of_neg (by simpa using hne)]
      exact ih hnodup.2 he

/-- A list with the keys of its defaults is what reading each key from its JSON gives. -/
theorem map_readback (toJson : ν → Json) (read : Option Json → ν → ν) (good : ν → Prop)
    (hread : ∀ v fallback, good v → read (some (toJson v)) fallback = v)
    {defaults entries : List (Text × ν)} (hkeys : entries.map Prod.fst = defaults.map Prod.fst)
    (hnodup : (defaults.map Prod.fst).Nodup) (hgood : ∀ e ∈ entries, good e.2) :
    (defaults.map fun d => (d.1, read ((recordJson toJson entries).field? d.1) d.2)) = entries := by
  have hfields := fun e (he : e ∈ entries) =>
    field?_recordJson toJson (hkeys ▸ hnodup) he
  generalize recordJson toJson entries = record at hfields
  clear hnodup
  induction defaults generalizing entries with
  | nil =>
    have : entries = [] := by simpa using hkeys
    rw [this]
    rfl
  | cons d defaults ih =>
    cases entries with
    | nil => cases hkeys
    | cons e entries =>
      rw [List.map_cons, List.map_cons, List.cons.injEq] at hkeys
      have hhead := hfields e List.mem_cons_self
      rw [hkeys.1] at hhead
      rw [List.map_cons, hhead, hread _ _ (hgood e List.mem_cons_self), ih hkeys.2
        (fun x hx => hgood x (List.mem_cons_of_mem _ hx))
        (fun x hx => hfields x (List.mem_cons_of_mem _ hx)), ← hkeys.1]

/-! The layout of one breakpoint. -/

/-- An item with positions in range, and an id of some length where it has one. -/
def IsLayoutItem (item : OverviewLayoutItem LayoutId) : Prop :=
  (0 ≤ item.x ∧ item.x ≤ maxLayoutCoordinate) ∧ (0 ≤ item.y ∧ item.y ≤ maxLayoutCoordinate) ∧
    (1 ≤ item.w ∧ item.w ≤ maxLayoutWidth) ∧ ∀ id, item.i = .text id → id ≠ [] ∧ id.length ≤ 256

/-- The item with its id as a text, if it has one. -/
def textItem (item : OverviewLayoutItem LayoutId) : Option (OverviewLayoutItem Text) :=
  match item.i with
  | .text id => some { i := id, x := item.x, y := item.y, w := item.w }
  | .inherited _ => none

/-- An item is read back with its text id, and dropped when its id is an inherited member. -/
theorem normalizeLayoutItem_toJson {item : OverviewLayoutItem LayoutId} (h : IsLayoutItem item) :
    normalizeLayoutItem item.toJson = textItem item := by
  obtain ⟨i, x, y, w⟩ := item
  obtain ⟨hx, hy, hw, hid⟩ := h
  dsimp only at hx hy hw hid
  cases i with
  | text id =>
    obtain ⟨hne, hlen⟩ := hid id rfl
    have hstring : stringValue (some (.str id)) [] false false 256 = id :=
      stringValue_of_isStringValue _ ⟨fun h => (by cases h), fun _ => hne, hlen⟩
    have hread : normalizeLayoutItem (OverviewLayoutItem.toJson ⟨.text id, x, y, w⟩) = (do
        let id := stringValue (some (.str id)) [] false false 256
        let x ← boundedInteger (some (jsonInt x)) 0 maxLayoutCoordinate
        let y ← boundedInteger (some (jsonInt y)) 0 maxLayoutCoordinate
        let w ← boundedInteger (some (jsonInt w)) 1 maxLayoutWidth
        if id = [] then none else some { i := id, x, y, w }) := rfl
    rw [hread, hstring, boundedInteger_jsonInt hx.1 hx.2, boundedInteger_jsonInt hy.1 hy.2,
      boundedInteger_jsonInt hw.1 hw.2]
    simp [textItem, hne]
  | inherited member =>
    have hnone : stringValue ((OverviewLayoutItem.toJson ⟨.inherited member, x, y, w⟩).field?
        (js "i")) [] false false 256 = [] := by
      unfold OverviewLayoutItem.toJson LayoutId.fields
      dsimp only
      split <;> rfl
    have hrecord : (OverviewLayoutItem.toJson ⟨.inherited member, x, y, w⟩).isRecord = true := rfl
    unfold normalizeLayoutItem
    rw [hnone, hrecord]
    simp [textItem]

theorem isLayoutItem_normalizeLayoutItem {value : Json} {item : OverviewLayoutItem Text}
    (h : normalizeLayoutItem value = some item) :
    IsLayoutItem ⟨.text item.i, item.x, item.y, item.w⟩ := by
  unfold normalizeLayoutItem at h
  split at h
  · cases h
  · simp only [Option.bind_eq_bind, Option.bind_eq_some_iff] at h
    obtain ⟨x, hx, y, hy, w, hw, h⟩ := h
    split at h
    · cases h
    · rename_i hne
      cases h
      refine ⟨boundedInteger_mem hx, boundedInteger_mem hy, boundedInteger_mem hw, ?_⟩
      rintro id hid
      cases hid
      exact ⟨hne, length_stringValue_le _ (by simp)⟩

theorem normalizeItems_spec (seen : List Text) (items : List Json) :
    ((normalizeItems seen items).map (·.i)).Nodup ∧
      ∀ item ∈ normalizeItems seen items, item.i ∉ seen ∧
        IsLayoutItem ⟨.text item.i, item.x, item.y, item.w⟩ := by
  induction items generalizing seen with
  | nil => simp [normalizeItems]
  | cons value items ih =>
    rw [normalizeItems]
    cases hitem : normalizeLayoutItem value with
    | none => exact ih seen
    | some valid =>
      dsimp only
      split
      · exact ih seen
      · rename_i hseen
        obtain ⟨hnodup, hall⟩ := ih (valid.i :: seen)
        refine ⟨?_, fun item hmem => ?_⟩
        · rw [List.map_cons, List.nodup_cons]
          refine ⟨fun hmem => ?_, hnodup⟩
          obtain ⟨item, hitem, hid⟩ := List.mem_map.mp hmem
          exact (hall item hitem).1 (by rw [hid]; exact List.mem_cons_self)
        · rcases List.mem_cons.mp hmem with rfl | hmem
          · exact ⟨hseen, isLayoutItem_normalizeLayoutItem hitem⟩
          · have h := hall item hmem
            exact ⟨fun hs => h.1 (List.mem_cons_of_mem _ hs), h.2⟩

/-- The ids of a breakpoint are texts, no two alike. -/
def DistinctTexts (items : List (OverviewLayoutItem LayoutId)) : Prop :=
  (items.map (·.i)).Nodup ∧ ∀ item ∈ items, ∃ id, item.i = .text id

theorem normalizeItems_of_distinct (seen : List Text) {items : List (OverviewLayoutItem LayoutId)}
    (hitems : ∀ item ∈ items, IsLayoutItem item) (hdistinct : DistinctTexts items)
    (hseen : ∀ item ∈ items, ∀ id ∈ seen, item.i ≠ .text id) :
    mapItemIds .text (normalizeItems seen (items.map OverviewLayoutItem.toJson)) = items := by
  induction items generalizing seen with
  | nil => rfl
  | cons item items ih =>
    obtain ⟨hnodup, htexts⟩ := hdistinct
    rw [List.map_cons, List.nodup_cons] at hnodup
    obtain ⟨id, hid⟩ := htexts item List.mem_cons_self
    have htext : textItem item = some ⟨id, item.x, item.y, item.w⟩ := by
      rw [textItem, hid]
    have hnew : id ∉ seen := fun hmem => hseen item List.mem_cons_self id hmem hid
    rw [List.map_cons, normalizeItems,
      normalizeLayoutItem_toJson (hitems item List.mem_cons_self), htext]
    dsimp only
    rw [if_neg hnew]
    have hrest := ih (id :: seen) (fun x hx => hitems x (List.mem_cons_of_mem _ hx))
      ⟨hnodup.2, fun x hx => htexts x (List.mem_cons_of_mem _ hx)⟩ fun x hx other hother => ?_
    · have hcons : mapItemIds LayoutId.text (⟨id, item.x, item.y, item.w⟩ ::
          normalizeItems (id :: seen) (items.map OverviewLayoutItem.toJson)) =
          ⟨.text id, item.x, item.y, item.w⟩ :: mapItemIds .text
            (normalizeItems (id :: seen) (items.map OverviewLayoutItem.toJson)) := rfl
      rw [hcons, hrest, ← hid]
    · rcases List.mem_cons.mp hother with rfl | hother
      · intro hx'
        exact hnodup.1 (List.mem_map.mpr ⟨x, hx, hx'.trans hid.symm⟩)
      · exact hseen x (List.mem_cons_of_mem _ hx) other hother

/-- A breakpoint is read back from its JSON exactly when its ids are distinct texts. -/
theorem normalizeItems_readback_iff {items : List (OverviewLayoutItem LayoutId)}
    (hitems : ∀ item ∈ items, IsLayoutItem item) :
    mapItemIds .text (normalizeItems [] (items.map OverviewLayoutItem.toJson)) = items ↔
      DistinctTexts items := by
  constructor
  · intro h
    obtain ⟨hnodup, -⟩ := normalizeItems_spec [] (items.map OverviewLayoutItem.toJson)
    rw [← h]
    constructor
    · have hids : ∀ l : List (OverviewLayoutItem Text),
          (mapItemIds LayoutId.text l).map (·.i) = (l.map (·.i)).map LayoutId.text := by
        intro l
        simp [mapItemIds]
      rw [hids]
      exact hnodup.map fun a b hab => by cases hab; rfl
    · intro item hitem
      obtain ⟨source, -, rfl⟩ := List.mem_map.mp hitem
      exact ⟨_, rfl⟩
  · exact fun h => normalizeItems_of_distinct [] hitems h fun _ _ id hid => by cases hid

end BoredManager.Shared
