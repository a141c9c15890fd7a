import BoredManager.Js.Delimited
import BoredManager.Js.NumberText
import Mathlib.Data.List.Nodup

/-! The text that a check token binds: the values of a form as JSON, their keys in
order. Two values have one text exactly when they are one JSON value up to key order. -/
namespace BoredManager.Shared
open BoredManager.Js BoredManager.Js.Number

/-- What a form hands over: JSON, and `undefined` where a field has no value. -/
inductive Value where
  | undefined
  | null
  | bool (b : Bool)
  | num (v : Number)
  | str (s : Text)
  | arr (items : List Value)
  | obj (fields : List (Text × Value))

namespace Value

/-- `v !== undefined`. -/
def isDefined : Value → Bool
  | .undefined => false
  | _ => true

/-- The order of two entries by key. -/
def keyLe (a b : Text × Text) : Bool := textLe a.1 b.1

def entryText (e : Text × Text) : Text := quote e.1 ++ 58 :: e.2

mutual

def canonical : Value → Text
  | .undefined => js "null"
  | .null => js "null"
  | .bool b => if b then js "true" else js "false"
  | .num v => (v.finite?.map numberText).getD (js "null")
  | .str s => quote s
  | .arr items => 91 :: join [44] (canonicalItems items) ++ [93]
  | .obj fields =>
    123 :: join [44] (((canonicalEntries fields).mergeSort keyLe).map entryText) ++ [125]

def canonicalItems : List Value → List Text
  | [] => []
  | item :: items => canonical item :: canonicalItems items

/-- The defined fields, each with its text. -/
def canonicalEntries : List (Text × Value) → List (Text × Text)
  | [] => []
  | (key, value) :: fields =>
    if value.isDefined then (key, canonical value) :: canonicalEntries fields
    else canonicalEntries fields

end

mutual

/-- The JSON value that `JSON.stringify` writes: no undefined field, `null` for any
other value that JSON does not have. -/
def toJson : Value → Json
  | .undefined => .null
  | .null => .null
  | .bool b => .bool b
  | .num v => (v.finite?.map fun q => Json.num (.fin q)).getD .null
  | .str s => .str s
  | .arr items => .arr (toJsonItems items)
  | .obj fields => .obj (toJsonFields fields)

def toJsonItems : List Value → List Json
  | [] => []
  | item :: items => toJson item :: toJsonItems items

def toJsonFields : List (Text × Value) → List (Text × Json)
  | [] => []
  | (key, value) :: fields =>
    if value.isDefined then (key, toJson value) :: toJsonFields fields else toJsonFields fields

end

end Value

/-- JSON values that are one value up to the order of their keys. -/
inductive SameJson : Json → Json → Prop
  | null : SameJson .null .null
  | bool (b : Bool) : SameJson (.bool b) (.bool b)
  | num (v : Number) : SameJson (.num v) (.num v)
  | str (s : Text) : SameJson (.str s) (.str s)
  | arr {items others : List Json} (length : items.length = others.length)
      (same : ∀ p ∈ items.zip others, SameJson p.1 p.2) : SameJson (.arr items) (.arr others)
  | obj {fields others : List (Text × Json)}
      (keys : ∀ key, key ∈ fields.map Prod.fst ↔ key ∈ others.map Prod.fst)
      (same : ∀ f ∈ fields, ∀ g ∈ others, f.1 = g.1 → SameJson f.2 g.2) :
      SameJson (.obj fields) (.obj others)

/-- The values of the language: numbers are doubles and no object has a key twice. -/
inductive Value.IsValue : Value → Prop
  | undefined : IsValue .undefined
  | null : IsValue .null
  | bool (b : Bool) : IsValue (.bool b)
  | num {v : Number} (double : ∀ q, v = .fin q → Number.IsDouble q) : IsValue (.num v)
  | str (s : Text) : IsValue (.str s)
  | arr {items : List Value} (values : ∀ v ∈ items, IsValue v) : IsValue (.arr items)
  | obj {fields : List (Text × Value)} (keys : (fields.map Prod.fst).Nodup)
      (values : ∀ f ∈ fields, IsValue f.2) : IsValue (.obj fields)

/-- The same for JSON values, whose numbers are finite. -/
inductive IsData : Json → Prop
  | null : IsData .null
  | bool (b : Bool) : IsData (.bool b)
  | num {q : ℚ} (double : Number.IsDouble q) : IsData (.num (.fin q))
  | str (s : Text) : IsData (.str s)
  | arr {items : List Json} (values : ∀ v ∈ items, IsData v) : IsData (.arr items)
  | obj {fields : List (Text × Json)} (keys : (fields.map Prod.fst).Nodup)
      (values : ∀ f ∈ fields, IsData f.2) : IsData (.obj fields)

mutual

/-- The canonical text of a JSON value. -/
def jsonText : Json → Text
  | .null => js "null"
  | .bool b => if b then js "true" else js "false"
  | .num v => (v.finite?.map numberText).getD (js "null")
  | .str s => quote s
  | .arr items => 91 :: join [44] (jsonTexts items) ++ [93]
  | .obj fields =>
    123 :: join [44] (((jsonEntries fields).mergeSort Value.keyLe).map Value.entryText) ++ [125]

def jsonTexts : List Json → List Text
  | [] => []
  | item :: items => jsonText item :: jsonTexts items

def jsonEntries : List (Text × Json) → List (Text × Text)
  | [] => []
  | (key, value) :: fields => (key, jsonText value) :: jsonEntries fields

end

theorem jsonTexts_eq (items : List Json) : jsonTexts items = items.map jsonText := by
  induction items with
  | nil => simp [jsonTexts]
  | cons item items ih => simp [jsonTexts, ih]

theorem jsonEntries_eq (fields : List (Text × Json)) :
    jsonEntries fields = fields.map fun f => (f.1, jsonText f.2) := by
  induction fields with
  | nil => simp [jsonEntries]
  | cons f fields ih => simp [jsonEntries, ih]

namespace Value

/-! The text of a value is the text of the JSON that it is written as. -/
mutual

theorem canonical_eq : ∀ v : Value, canonical v = jsonText v.toJson
  | .undefined => by simp [canonical, toJson, jsonText]
  | .null => by simp [canonical, toJson, jsonText]
  | .bool b => by simp [canonical, toJson, jsonText]
  | .num v => by cases v <;> simp [canonical, toJson, jsonText, Number.finite?]
  | .str s => by simp [canonical, toJson, jsonText]
  | .arr items => by rw [canonical, toJson, jsonText, canonicalItems_eq items]
  | .obj fields => by rw [canonical, toJson, jsonText, canonicalEntries_eq fields]

theorem canonicalItems_eq : ∀ items : List Value, canonicalItems items = jsonTexts (toJsonItems items)
  | [] => by simp [canonicalItems, toJsonItems, jsonTexts]
  | item :: items => by
    rw [canonicalItems, toJsonItems, jsonTexts, canonical_eq item, canonicalItems_eq items]

theorem canonicalEntries_eq : ∀ fields : List (Text × Value),
    canonicalEntries fields = jsonEntries (toJsonFields fields)
  | [] => by simp [canonicalEntries, toJsonFields, jsonEntries]
  | (key, value) :: fields => by
    rw [canonicalEntries, toJsonFields, canonical_eq value, canonicalEntries_eq fields]
    split
    · rw [jsonEntries]
    · rfl

end

theorem toJsonItems_eq (items : List Value) : toJsonItems items = items.map toJson := by
  induction items with
  | nil => simp [toJsonItems]
  | cons item items ih => simp [toJsonItems, ih]

theorem toJsonFields_eq (fields : List (Text × Value)) :
    toJsonFields fields = (fields.filter fun f => f.2.isDefined).map fun f => (f.1, f.2.toJson) := by
  induction fields with
  | nil => simp [toJsonFields]
  | cons f fields ih =>
    obtain ⟨key, value⟩ := f
    rw [toJsonFields, ih, List.filter_cons]
    dsimp only
    split <;> rfl

/-- A value of the language is written as JSON of finite doubles and distinct keys. -/
theorem IsValue.isData {v : Value} (h : v.IsValue) : IsData v.toJson := by
  induction h with
  | undefined => exact .null
  | null => exact .null
  | bool b => exact .bool b
  | @num v hdouble =>
    cases v with
    | fin q => exact .num (hdouble q rfl)
    | inf negative => exact .null
    | nan => exact .null
  | str s => exact .str s
  | arr _ ih =>
    rw [toJson, toJsonItems_eq]
    refine .arr fun v hv => ?_
    obtain ⟨item, hitem, rfl⟩ := List.mem_map.mp hv
    exact ih item hitem
  | obj hkeys _ ih =>
    rw [toJson, toJsonFields_eq]
    refine .obj ?_ fun f hf => ?_
    · rw [List.map_map]
      exact hkeys.sublist (List.filter_sublist.map _)
    · obtain ⟨field, hfield, rfl⟩ := List.mem_map.mp hf
      exact ih field (List.mem_filter.mp hfield).1

end Value

/-! Reading a text back: the first unit tells the kind of a value. -/

def headKind (u : Nat) : Nat :=
  if u = 110 then 0 else if u = 116 then 1 else if u = 102 then 2 else if u = 34 then 3
  else if u = 91 then 4 else if u = 123 then 5 else 6

def kind : Json → Nat
  | .null => 0
  | .bool true => 1
  | .bool false => 2
  | .str _ => 3
  | .arr _ => 4
  | .obj _ => 5
  | .num _ => 6

theorem headKind_of_isNumberUnit {u : Nat} (h : isNumberUnit u = true) :
    headKind u = 6 ∧ u ≠ 93 ∧ u ≠ 125 := by
  simp only [isNumberUnit, isDigit, Bool.or_eq_true, Bool.and_eq_true, decide_eq_true_eq,
    beq_iff_eq] at h
  refine ⟨?_, by omega, by omega⟩
  unfold headKind
  rw [if_neg (by omega), if_neg (by omega), if_neg (by omega), if_neg (by omega),
    if_neg (by omega), if_neg (by omega)]

theorem jsonText_num (q : ℚ) : jsonText (.num (.fin q)) = numberText q := by
  rw [jsonText]
  rfl

theorem head_jsonText {v : Json} (h : IsData v) :
    ∃ u r, jsonText v = u :: r ∧ headKind u = kind v ∧ u ≠ 93 ∧ u ≠ 125 := by
  cases h with
  | null => exact ⟨110, js "ull", by rw [jsonText]; rfl, rfl, by omega, by omega⟩
  | bool b =>
    cases b with
    | true => exact ⟨116, js "rue", by rw [jsonText]; rfl, rfl, by omega, by omega⟩
    | false => exact ⟨102, js "alse", by rw [jsonText]; rfl, rfl, by omega, by omega⟩
  | str s => exact ⟨34, _, by rw [jsonText]; rfl, rfl, by omega, by omega⟩
  | arr _ => exact ⟨91, _, by rw [jsonText]; rfl, rfl, by omega, by omega⟩
  | obj _ _ => exact ⟨123, _, by rw [jsonText]; rfl, rfl, by omega, by omega⟩
  | @num q hdouble =>
    rw [jsonText_num]
    have hunit : ∀ u ∈ numberText q, isNumberUnit u = true := fun _ hu => isNumberUnit_numberText hu
    cases htext : numberText q with
    | nil =>
      have hread := ofText_numberText hdouble
      rw [htext] at hread
      injection hread with hread
      rw [← hread] at htext
      cases htext
    | cons u r =>
      obtain ⟨hkind, h93, h125⟩ := headKind_of_isNumberUnit (hunit u (by simp [htext]))
      exact ⟨u, r, rfl, hkind, h93, h125⟩

theorem kind_eq_of_jsonText {a b : Json} (ha : IsData a) (hb : IsData b) {s t : Text}
    (h : jsonText a ++ s = jsonText b ++ t) : kind a = kind b := by
  obtain ⟨u, r, hu, hkind, -⟩ := head_jsonText ha
  obtain ⟨v, q, hv, hkind', -⟩ := head_jsonText hb
  rw [hu, hv] at h
  injection h with h
  rw [← hkind, ← hkind', h]

theorem numberText_cancel {p q : ℚ} (hp : Number.IsDouble p) (hq : Number.IsDouble q) {s t : Text}
    (hs : IsClosed s) (ht : IsClosed t) (h : numberText p ++ s = numberText q ++ t) :
    p = q ∧ s = t := by
  have hstop : ∀ {s : Text}, IsClosed s → s.takeWhile isNumberUnit = [] := by
    rintro _ ⟨u, r, rfl, rfl | rfl | rfl⟩ <;> rfl
  have htake : ∀ (p : ℚ) {s : Text}, IsClosed s →
      (numberText p ++ s).takeWhile isNumberUnit = numberText p := fun p s hs => by
    rw [List.takeWhile_append_of_pos fun u hu => isNumberUnit_numberText hu, hstop hs,
      List.append_nil]
  have htext : numberText p = numberText q := by
    rw [← htake p hs, h, htake q ht]
  rw [htext] at h
  exact ⟨numberText_injective hp hq htext, List.append_cancel_left h⟩

def fieldLe (f g : Text × Json) : Bool := textLe f.1 g.1

/-- The text of a field. -/
def fieldText (f : Text × Json) : Text := Value.entryText (f.1, jsonText f.2)

theorem jsonText_obj (fields : List (Text × Json)) :
    jsonText (.obj fields) =
      123 :: join [44] ((fields.mergeSort fieldLe).map fieldText) ++ [125] := by
  have hsort : (fields.map fun f => (f.1, jsonText f.2)).mergeSort Value.keyLe =
      (fields.mergeSort fieldLe).map fun f => (f.1, jsonText f.2) :=
    (List.map_mergeSort (r := fieldLe) (s := Value.keyLe) (f := fun f => (f.1, jsonText f.2))
      fun _ _ _ _ => rfl).symm
  rw [jsonText, jsonEntries_eq, hsort, List.map_map]
  rfl

theorem head_fieldText (f : Text × Json) : ∃ u r, fieldText f = u :: r ∧ u ≠ 125 :=
  ⟨34, _, rfl, by omega⟩

theorem fieldText_append (f : Text × Json) (s : Text) :
    fieldText f ++ s = quote f.1 ++ 58 :: (jsonText f.2 ++ s) := by
  rw [fieldText, Value.entryText, List.append_assoc, List.cons_append]

theorem exists_of_forall₂ {α β : Type*} {R : α → β → Prop} {xs : List α} {ys : List β}
    (h : List.Forall₂ R xs ys) : (∀ x ∈ xs, ∃ y ∈ ys, R x y) ∧ ∀ y ∈ ys, ∃ x ∈ xs, R x y := by
  induction h with
  | nil => exact ⟨fun _ h => (List.not_mem_nil h).elim, fun _ h => (List.not_mem_nil h).elim⟩
  | @cons x y xs ys hxy _ ih =>
    refine ⟨fun z hz => ?_, fun z hz => ?_⟩
    · rcases List.mem_cons.mp hz with rfl | hz
      · exact ⟨y, List.mem_cons_self, hxy⟩
      · obtain ⟨w, hw, hzw⟩ := ih.1 z hz
        exact ⟨w, List.mem_cons_of_mem _ hw, hzw⟩
    · rcases List.mem_cons.mp hz with rfl | hz
      · exact ⟨x, List.mem_cons_self, hxy⟩
      · obtain ⟨w, hw, hwz⟩ := ih.2 z hz
        exact ⟨w, List.mem_cons_of_mem _ hw, hwz⟩

/-- Two objects whose sorted fields match one by one are the same object. -/
theorem SameJson.of_sorted {fields others : List (Text × Json)}
    (hnodup : (others.map Prod.fst).Nodup)
    (h : List.Forall₂ (fun f g => f.1 = g.1 ∧ SameJson f.2 g.2) (fields.mergeSort fieldLe)
      (others.mergeSort fieldLe)) : SameJson (.obj fields) (.obj others) := by
  obtain ⟨hleft, hright⟩ := exists_of_forall₂ h
  simp only [List.mem_mergeSort] at hleft hright
  refine .obj (fun key => ⟨fun hkey => ?_, fun hkey => ?_⟩) fun f hf g hg hfg => ?_
  · obtain ⟨f, hf, rfl⟩ := List.mem_map.mp hkey
    obtain ⟨g, hg, hkeys, -⟩ := hleft f hf
    exact List.mem_map.mpr ⟨g, hg, hkeys.symm⟩
  · obtain ⟨g, hg, rfl⟩ := List.mem_map.mp hkey
    obtain ⟨f, hf, hkeys, -⟩ := hright g hg
    exact List.mem_map.mpr ⟨f, hf, hkeys⟩
  · obtain ⟨g', hg', hkeys, hsame⟩ := hleft f hf
    have : g' = g := List.inj_on_of_nodup_map hnodup hg' hg (hkeys.symm.trans hfg)
    rwa [← this]

/-- Texts are unambiguous: equal texts, whatever follows, are of the same value. -/
theorem jsonText_cancel {a : Json} (ha : IsData a) : ∀ {b : Json}, IsData b → ∀ {s t : Text},
    IsClosed s → IsClosed t → jsonText a ++ s = jsonText b ++ t → SameJson a b ∧ s = t := by
  induction ha with
  | null =>
    intro b hb s t hs ht h
    have hkind := kind_eq_of_jsonText .null hb h
    cases hb with
    | null => exact ⟨.null, List.append_cancel_left h⟩
    | bool b => cases b <;> cases hkind
    | _ => cases hkind
  | bool c =>
    intro b hb s t hs ht h
    have hkind := kind_eq_of_jsonText (.bool c) hb h
    cases hb with
    | bool b =>
      have hcb : c = b := by cases b <;> cases c <;> first | rfl | cases hkind
      rw [hcb] at h ⊢
      exact ⟨.bool b, List.append_cancel_left h⟩
    | _ => cases c <;> cases hkind
  | @num q hq =>
    intro b hb s t hs ht h
    have hkind := kind_eq_of_jsonText (.num hq) hb h
    cases hb with
    | num hp =>
      rw [jsonText_num, jsonText_num] at h
      obtain ⟨rfl, hst⟩ := numberText_cancel hq hp hs ht h
      exact ⟨.num _, hst⟩
    | bool b => cases b <;> cases hkind
    | _ => cases hkind
  | str text =>
    intro b hb s t hs ht h
    have hkind := kind_eq_of_jsonText (.str text) hb h
    cases hb with
    | str other =>
      rw [jsonText, jsonText] at h
      obtain ⟨rfl, hst⟩ := quote_cancel h
      exact ⟨.str _, hst⟩
    | bool b => cases b <;> cases hkind
    | _ => cases hkind
  | @arr items hitems ih =>
    intro b hb s t hs ht h
    have hkind := kind_eq_of_jsonText (.arr hitems) hb h
    cases hb with
    | @arr others hothers =>
      rw [jsonText, jsonText, jsonTexts_eq, jsonTexts_eq] at h
      simp only [List.cons_append, List.append_assoc, List.nil_append, List.cons.injEq,
        true_and] at h
      obtain ⟨hsame, hst⟩ := joined_cancel (.inl rfl)
        (fun v hv => (head_jsonText (hitems v hv)).imp fun u hu => hu.imp fun r hr => ⟨hr.1, hr.2.2.1⟩)
        (fun v hv => (head_jsonText (hothers v hv)).imp fun u hu => hu.imp fun r hr => ⟨hr.1, hr.2.2.1⟩)
        (fun v hv w hw s t hs ht h => ih v hv (hothers w hw) hs ht h) h
      exact ⟨.arr hsame.length_eq fun p hp => List.forall₂_iff_zip.mp hsame |>.2 hp, hst⟩
    | bool b => cases b <;> cases hkind
    | _ => cases hkind
  | @obj fields hnodup hvalues ih =>
    intro b hb s t hs ht h
    have hkind := kind_eq_of_jsonText (.obj hnodup hvalues) hb h
    cases hb with
    | @obj others hnodup' hvalues' =>
      rw [jsonText_obj, jsonText_obj] at h
      simp only [List.cons_append, List.append_assoc, List.nil_append, List.cons.injEq,
        true_and] at h
      obtain ⟨hsame, hst⟩ := joined_cancel (R := fun f g => f.1 = g.1 ∧ SameJson f.2 g.2) (.inr rfl)
        (fun f _ => head_fieldText f) (fun f _ => head_fieldText f)
        (fun f hf g hg s t hs ht h => by
          rw [List.mem_mergeSort] at hf hg
          rw [fieldText_append, fieldText_append] at h
          obtain ⟨hkey, h⟩ := quote_cancel h
          injection h with _ h
          obtain ⟨hvalue, hst⟩ := ih f hf (hvalues' g hg) hs ht h
          exact ⟨⟨hkey, hvalue⟩, hst⟩) h
      exact ⟨.of_sorted hnodup' hsame, hst⟩
    | bool b => cases b <;> cases hkind
    | _ => cases hkind

theorem SameJson.of_text {a b : Json} (ha : IsData a) (hb : IsData b)
    (h : jsonText a = jsonText b) : SameJson a b :=
  (jsonText_cancel ha hb ⟨44, [], rfl, .inl rfl⟩ ⟨44, [], rfl, .inl rfl⟩
    (congrArg (· ++ [44]) h)).1

theorem jsonText_eq_of_same {a b : Json} (h : SameJson a b) (ha : IsData a) (hb : IsData b) :
    jsonText a = jsonText b := by
  induction h with
  | @arr items others hlength _ ih =>
    cases ha with
    | arr hitems =>
      cases hb with
      | arr hothers =>
        have htexts : items.map jsonText = others.map jsonText := by
          refine List.ext_getElem (by simp [hlength]) fun i hi hj => ?_
          rw [List.length_map] at hi hj
          rw [List.getElem_map, List.getElem_map]
          have hzip : (items[i], others[i]) ∈ items.zip others :=
            List.mem_iff_getElem.mpr ⟨i, by rw [List.length_zip]; omega, List.getElem_zip⟩
          exact ih _ hzip (hitems _ (List.getElem_mem hi)) (hothers _ (List.getElem_mem hj))
        rw [jsonText, jsonText, jsonTexts_eq, jsonTexts_eq, htexts]
  | @obj fields others hkeys _ ih =>
    cases ha with
    | obj hnodup hvalues =>
      cases hb with
      | obj hnodup' hvalues' =>
        have hfst : ∀ l : List (Text × Json),
            (l.map fun f => (f.1, jsonText f.2)).map Prod.fst = l.map Prod.fst := fun l => by
          rw [List.map_map]
          rfl
        have hperm : (fields.map fun f => (f.1, jsonText f.2)).Perm
            (others.map fun f => (f.1, jsonText f.2)) := by
          refine (List.perm_ext_iff_of_nodup (List.Nodup.of_map Prod.fst (by rwa [hfst]))
            (List.Nodup.of_map Prod.fst (by rwa [hfst]))).mpr fun e => ?_
          simp only [List.mem_map]
          constructor
          · rintro ⟨f, hf, rfl⟩
            obtain ⟨g, hg, hgf⟩ := List.mem_map.mp ((hkeys f.1).mp (List.mem_map_of_mem hf))
            exact ⟨g, hg, by rw [hgf, ih f hf g hg hgf.symm (hvalues f hf) (hvalues' g hg)]⟩
          · rintro ⟨g, hg, rfl⟩
            obtain ⟨f, hf, hfg⟩ := List.mem_map.mp ((hkeys g.1).mpr (List.mem_map_of_mem hg))
            exact ⟨f, hf, by rw [hfg, ih f hf g hg hfg (hvalues f hf) (hvalues' g hg)]⟩
        rw [jsonText, jsonText, jsonEntries_eq, jsonEntries_eq,
          show Value.keyLe = fun a b => textLe a.1 b.1 from rfl,
          mergeSort_eq_of_perm Prod.fst hperm (by rwa [hfst])]
  | _ => rfl

/-- Two values have one text exactly when they are one JSON value up to key order. -/
theorem Value.canonical_eq_iff {v w : Value} (hv : v.IsValue) (hw : w.IsValue) :
    v.canonical = w.canonical ↔ SameJson v.toJson w.toJson := by
  rw [canonical_eq, canonical_eq]
  exact ⟨SameJson.of_text hv.isData hw.isData, fun h => jsonText_eq_of_same h hv.isData hw.isData⟩

/-! ### JSON as a form's value -/
namespace Value
mutual

/-- A JSON value as `canonical` takes it. -/
def ofJson : Json → Value
  | .null => .null
  | .bool b => .bool b
  | .num v => .num v
  | .str s => .str s
  | .arr items => .arr (ofJsonItems items)
  | .obj fields => .obj (ofJsonFields fields)

def ofJsonItems : List Json → List Value
  | [] => []
  | item :: items => ofJson item :: ofJsonItems items

def ofJsonFields : List (Text × Json) → List (Text × Value)
  | [] => []
  | (key, value) :: fields => (key, ofJson value) :: ofJsonFields fields

end

theorem ofJsonItems_eq (items : List Json) : ofJsonItems items = items.map ofJson := by
  induction items with
  | nil => simp [ofJsonItems]
  | cons item items ih => simp [ofJsonItems, ih]

theorem ofJsonFields_eq (fields : List (Text × Json)) :
    ofJsonFields fields = fields.map fun f => (f.1, ofJson f.2) := by
  induction fields with
  | nil => simp [ofJsonFields]
  | cons f fields ih => simp [ofJsonFields, ih]

theorem isDefined_ofJson (v : Json) : (ofJson v).isDefined = true := by
  cases v <;> rw [ofJson] <;> rfl

/-- JSON of finite numbers is written as itself. -/
theorem toJson_ofJson {v : Json} (h : IsData v) : (ofJson v).toJson = v := by
  induction h with
  | null => rw [ofJson, toJson]
  | bool b => rw [ofJson, toJson]
  | num _ =>
    rw [ofJson, toJson]
    rfl
  | str s => rw [ofJson, toJson]
  | @arr items _ ih =>
    have hitems : items.map (fun v => (ofJson v).toJson) = items.map id :=
      List.map_congr_left fun v hv => ih v hv
    rw [ofJson, toJson, ofJsonItems_eq, toJsonItems_eq, List.map_map, Json.arr.injEq]
    exact hitems.trans (List.map_id items)
  | @obj fields _ _ ih =>
    have hdefined : ∀ f ∈ fields.map (fun f => (f.1, ofJson f.2)), f.2.isDefined = true := by
      intro f hf
      obtain ⟨field, -, rfl⟩ := List.mem_map.mp hf
      exact isDefined_ofJson field.2
    have hfields : fields.map (fun f => (f.1, (ofJson f.2).toJson)) = fields.map id :=
      List.map_congr_left fun f hf => Prod.ext rfl (ih f hf)
    rw [ofJson, toJson, ofJsonFields_eq, toJsonFields_eq, List.filter_eq_self.mpr hdefined, List.map_map,
      Json.obj.injEq]
    exact hfields.trans (List.map_id fields)

/-- The canonical texts of two JSON values are equal exactly when the values are, up to key order. -/
theorem canonical_injective_up_to_order {a b : Json} (ha : IsData a) (hb : IsData b) :
    (ofJson a).canonical = (ofJson b).canonical ↔ SameJson a b := by
  rw [canonical_eq, canonical_eq, toJson_ofJson ha, toJson_ofJson hb]
  constructor
  · exact SameJson.of_text ha hb
  · exact fun h => jsonText_eq_of_same h ha hb

/-- A text that looks like another form's fields stays a text. -/
theorem canonical_injective_up_to_order_quoted :
    (ofJson (.obj [(js "a", .str (js "1\",\"b\":\"2"))])).canonical =
        (ofJson (.obj [(js "b", .str (js "2")), (js "a", .str (js "1"))])).canonical ↔
      SameJson (.obj [(js "a", .str (js "1\",\"b\":\"2"))])
        (.obj [(js "b", .str (js "2")), (js "a", .str (js "1"))]) :=
  canonical_injective_up_to_order
    (.obj (by decide) (List.forall_mem_singleton.mpr (.str _)))
    (.obj (by decide) (List.forall_mem_cons.mpr ⟨.str _, List.forall_mem_singleton.mpr (.str _)⟩))

end Value

end BoredManager.Shared
