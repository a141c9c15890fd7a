import Mathlib.Data.List.Basic
import Mathlib.Data.List.Nodup
import Mathlib.Tactic.Common

/-! Insertion-ordered maps, the JavaScript `Map`: `set` keeps the place of a key
that is there and appends a new one. Distinct keys are a field of the structure. -/
namespace BoredManager.Js

/-- `[...new Set(l)]` has no duplicates. -/
theorem nodup_eraseDups {α : Type*} [BEq α] [LawfulBEq α] (l : List α) : l.eraseDups.Nodup := by
  induction hn : l.length using Nat.strongRecOn generalizing l with
  | _ n ih =>
    cases l with
    | nil => simp
    | cons a l =>
      rw [List.eraseDups_cons, List.nodup_cons]
      refine ⟨fun hm => ?_, ih _ ?_ _ rfl⟩
      · have := (List.mem_filter.mp (List.mem_eraseDups.mp hm)).2
        simp at this
      · have := List.length_filter_le (fun b => !b == a) l
        simp only [List.length_cons] at hn
        omega

structure OrderedMap (κ ν : Type*) where
  entries : List (κ × ν)
  nodup : (entries.map Prod.fst).Nodup

namespace OrderedMap
variable {κ ν : Type*} [DecidableEq κ]

instance [DecidableEq ν] : DecidableEq (OrderedMap κ ν) := fun m n =>
  decidable_of_iff (m.entries = n.entries) ⟨fun h => by cases m; cases n; simp_all, fun h => h ▸ rfl⟩

def empty : OrderedMap κ ν := ⟨[], List.nodup_nil⟩

instance : Inhabited (OrderedMap κ ν) := ⟨empty⟩

def keys (m : OrderedMap κ ν) : List κ := m.entries.map Prod.fst
def values (m : OrderedMap κ ν) : List ν := m.entries.map Prod.snd

def get? (m : OrderedMap κ ν) (k : κ) : Option ν :=
  (m.entries.find? fun e => decide (e.1 = k)).map Prod.snd

def has (m : OrderedMap κ ν) (k : κ) : Bool := (m.get? k).isSome

/-- The entries after `set`: replaced in place, or appended. -/
def setEntries (k : κ) (v : ν) : List (κ × ν) → List (κ × ν)
  | [] => [(k, v)]
  | e :: es => if e.1 = k then (k, v) :: es else e :: setEntries k v es

theorem mem_setEntries_keys (k : κ) (v : ν) (es : List (κ × ν)) (j : κ) :
    j ∈ (setEntries k v es).map Prod.fst ↔ j = k ∨ j ∈ es.map Prod.fst := by
  induction es with
  | nil => simp [setEntries]
  | cons e es ih =>
    by_cases he : e.1 = k
    · simp [setEntries, he]
    · simp only [setEntries, he, if_false, List.map_cons, List.mem_cons, ih]
      tauto

theorem nodup_setEntries (k : κ) (v : ν) (es : List (κ × ν)) (h : (es.map Prod.fst).Nodup) :
    ((setEntries k v es).map Prod.fst).Nodup := by
  induction es with
  | nil => simp [setEntries]
  | cons e es ih =>
    obtain ⟨hn, ht⟩ := List.nodup_cons.mp h
    by_cases he : e.1 = k
    · subst he; simpa [setEntries] using h
    · simp only [setEntries, he, if_false, List.map_cons, List.nodup_cons]
      refine ⟨?_, ih ht⟩
      rw [mem_setEntries_keys]
      exact fun h => h.elim he hn

def set (m : OrderedMap κ ν) (k : κ) (v : ν) : OrderedMap κ ν :=
  ⟨setEntries k v m.entries, nodup_setEntries k v m.entries m.nodup⟩

def erase (m : OrderedMap κ ν) (k : κ) : OrderedMap κ ν :=
  ⟨m.entries.filter fun e => decide (e.1 ≠ k),
    m.nodup.sublist ((List.filter_sublist).map Prod.fst)⟩

/-- `new Map(pairs)`: a later pair overrides an earlier one. -/
def ofList (l : List (κ × ν)) : OrderedMap κ ν := l.foldl (fun m e => m.set e.1 e.2) empty

theorem get?_eq_some {m : OrderedMap κ ν} {k : κ} {v : ν} :
    m.get? k = some v ↔ (k, v) ∈ m.entries := by
  obtain ⟨es, hn⟩ := m
  simp only [get?]
  induction es with
  | nil => simp
  | cons e es ih =>
    obtain ⟨hne, ht⟩ := List.nodup_cons.mp hn
    by_cases he : e.1 = k
    · subst he
      have : (e.1, v) ∉ es := fun h => hne (List.mem_map.mpr ⟨_, h, rfl⟩)
      simp [this, Prod.ext_iff, eq_comm]
    · have hk : (k, v) ≠ e := fun h => he (by rw [← h])
      simp [he, hk, ih ht]

theorem get?_eq_none {m : OrderedMap κ ν} {k : κ} : m.get? k = none ↔ k ∉ m.keys := by
  simp only [get?, keys, Option.map_eq_none_iff, List.find?_eq_none, List.mem_map,
    decide_eq_true_eq, not_exists, not_and]

theorem has_iff {m : OrderedMap κ ν} {k : κ} : m.has k = true ↔ k ∈ m.keys := by
  rw [has, Option.isSome_iff_ne_none, Ne, get?_eq_none, not_not]

theorem has_iff_get {m : OrderedMap κ ν} {k : κ} : m.has k = true ↔ ∃ v, m.get? k = some v := by
  rw [has, Option.isSome_iff_exists]

omit [DecidableEq κ] in
theorem mem_keys {m : OrderedMap κ ν} {k : κ} : k ∈ m.keys ↔ ∃ v, (k, v) ∈ m.entries := by
  simp [keys]

omit [DecidableEq κ] in
theorem mem_values {m : OrderedMap κ ν} {v : ν} : v ∈ m.values ↔ ∃ k, (k, v) ∈ m.entries := by
  simp [values]

theorem find?_setEntries (k j : κ) (v : ν) (es : List (κ × ν)) :
    ((setEntries k v es).find? fun e => decide (e.1 = j)).map Prod.snd =
      if j = k then some v else (es.find? fun e => decide (e.1 = j)).map Prod.snd := by
  induction es with
  | nil => by_cases h : j = k <;> simp [setEntries, h, eq_comm]
  | cons e es ih =>
    by_cases he : e.1 = k
    · by_cases h : j = k
      · simp [setEntries, he, h]
      · have hkj : k ≠ j := fun h' => h h'.symm
        simp [setEntries, he, h, hkj]
    · by_cases hj : e.1 = j
      · have hjk : j ≠ k := fun h => he (hj.trans h)
        simp [setEntries, hj, hjk]
      · simpa [setEntries, he, hj] using ih

@[simp] theorem get?_set (m : OrderedMap κ ν) (k j : κ) (v : ν) :
    (m.set k v).get? j = if j = k then some v else m.get? j :=
  find?_setEntries k j v m.entries

@[simp] theorem get?_empty (k : κ) : (empty : OrderedMap κ ν).get? k = none := rfl

@[simp] theorem get?_erase (m : OrderedMap κ ν) (k j : κ) :
    (m.erase k).get? j = if j = k then none else m.get? j := by
  by_cases h : j = k
  · subst h
    rw [if_pos rfl, get?_eq_none]
    simp [keys, erase]
  · rw [if_neg h]
    refine Option.ext fun v => ?_
    rw [get?_eq_some, get?_eq_some]
    simp [erase, h]

theorem mem_entries_set {m : OrderedMap κ ν} {k : κ} {v : ν} {e : κ × ν} :
    e ∈ (m.set k v).entries ↔ e = (k, v) ∨ (e ∈ m.entries ∧ e.1 ≠ k) := by
  obtain ⟨j, w⟩ := e
  rw [← get?_eq_some, get?_set]
  by_cases h : j = k
  · subst h; simp [eq_comm]
  · simp [h, get?_eq_some]

theorem mem_entries_erase {m : OrderedMap κ ν} {k : κ} {e : κ × ν} :
    e ∈ (m.erase k).entries ↔ e ∈ m.entries ∧ e.1 ≠ k := by
  simp [erase]

/-- A new key goes to the end. -/
theorem entries_set_of_not_mem {m : OrderedMap κ ν} {k : κ} (h : k ∉ m.keys) (v : ν) :
    (m.set k v).entries = m.entries ++ [(k, v)] := by
  obtain ⟨es, hn⟩ := m
  simp only [keys] at h
  simp only [set]
  clear hn
  induction es with
  | nil => rfl
  | cons e es ih =>
    simp only [List.map_cons, List.mem_cons, not_or] at h
    simp only [setEntries, Ne.symm h.1, if_false, List.cons_append]
    rw [ih h.2]

theorem mem_keys_set {m : OrderedMap κ ν} {k j : κ} {v : ν} :
    j ∈ (m.set k v).keys ↔ j = k ∨ j ∈ m.keys := mem_setEntries_keys k v m.entries j

theorem get?_foldl_set (l : List (κ × ν)) (m : OrderedMap κ ν) (k : κ) :
    (l.foldl (fun m e => m.set e.1 e.2) m).get? k =
      ((l.reverse.find? fun e => decide (e.1 = k)).map Prod.snd).or (m.get? k) := by
  induction l generalizing m with
  | nil => simp
  | cons e l ih =>
    rw [List.foldl_cons, ih, get?_set, List.reverse_cons, List.find?_append]
    by_cases h : e.1 = k
    · subst h
      cases l.reverse.find? fun x => decide (x.1 = e.1) <;> simp
    · have h' : k ≠ e.1 := fun x => h x.symm
      cases l.reverse.find? fun x => decide (x.1 = k) <;> simp [h, h']

/-- In `new Map(pairs)` a key reads the last pair that names it. -/
theorem get?_ofList (l : List (κ × ν)) (k : κ) :
    (ofList l).get? k = (l.reverse.find? fun e => decide (e.1 = k)).map Prod.snd := by
  rw [ofList, get?_foldl_set]; simp

theorem mem_of_get?_ofList {l : List (κ × ν)} {k : κ} {v : ν} (h : (ofList l).get? k = some v) :
    (k, v) ∈ l := by
  rw [get?_ofList, Option.map_eq_some_iff] at h
  obtain ⟨e, he, rfl⟩ := h
  have hm := List.mem_of_find?_eq_some he
  have hk := List.find?_some he
  simp only [decide_eq_true_eq] at hk
  subst hk
  exact List.mem_reverse.mp hm

theorem mem_keys_ofList {l : List (κ × ν)} {k : κ} : k ∈ (ofList l).keys ↔ k ∈ l.map Prod.fst := by
  rw [← has_iff, has, get?_ofList, Option.isSome_map, List.find?_isSome]
  simp

/-- With distinct keys the pairs are the entries. -/
theorem get?_ofList_of_nodup {l : List (κ × ν)} (h : (l.map Prod.fst).Nodup) {k : κ} {v : ν} :
    (ofList l).get? k = some v ↔ (k, v) ∈ l := by
  refine ⟨mem_of_get?_ofList, fun hm => ?_⟩
  have hk : k ∈ (ofList l).keys := mem_keys_ofList.mpr (List.mem_map.mpr ⟨_, hm, rfl⟩)
  obtain ⟨w, hw⟩ := has_iff_get.mp (has_iff.mpr hk)
  have hw' := mem_of_get?_ofList hw
  have heq : ((k, w) : κ × ν) = (k, v) := List.inj_on_of_nodup_map h hw' hm rfl
  exact hw.trans (congrArg (fun e => some e.2) heq)

theorem values_set_of_not_mem {m : OrderedMap κ ν} {k : κ} (h : k ∉ m.keys) (v : ν) :
    (m.set k v).values = m.values ++ [v] := by
  rw [values, entries_set_of_not_mem h, List.map_append]
  rfl

theorem entries_perm_erase {m : OrderedMap κ ν} {k : κ} {v : ν} (h : (k, v) ∈ m.entries) :
    m.entries.Perm ((k, v) :: (m.erase k).entries) := by
  obtain ⟨es, hn⟩ := m
  simp only [erase] at h ⊢
  induction es with
  | nil => cases h
  | cons e es ih =>
    obtain ⟨hne, ht⟩ := List.nodup_cons.mp hn
    rcases List.mem_cons.mp h with rfl | h
    · -- the key is the head's, and no other entry has it
      have hrest : es.filter (fun e => decide (e.1 ≠ k)) = es := by
        refine List.filter_eq_self.mpr fun e he => ?_
        have : e.1 ≠ k := fun heq => hne (List.mem_map.mpr ⟨e, he, heq⟩)
        simpa using this
      rw [List.filter_cons_of_neg (by simp), hrest]
    · have hek : e.1 ≠ k := fun heq => hne (List.mem_map.mpr ⟨(k, v), h, heq.symm⟩)
      rw [List.filter_cons_of_pos (by simpa using hek)]
      exact ((ih ht h).cons e).trans (List.Perm.swap _ _ _)

/-- A key that is there keeps its place. -/
theorem entries_map_set {γ : Type*} {m : OrderedMap κ ν} {k : κ} {v old : ν}
    {g : κ × ν → γ} (hold : m.get? k = some old) (hg : g (k, v) = g (k, old)) :
    (m.set k v).entries.map g = m.entries.map g := by
  obtain ⟨es, hn⟩ := m
  rw [get?_eq_some] at hold
  simp only [set] at hold ⊢
  induction es with
  | nil => cases hold
  | cons e es ih =>
    obtain ⟨hne, ht⟩ := List.nodup_cons.mp hn
    by_cases he : e.1 = k
    · have hhead : (k, old) = e := by
        obtain h | h := List.mem_cons.mp hold
        · exact h
        · exact absurd (List.mem_map.mpr ⟨_, h, he.symm⟩) hne
      rw [setEntries, if_pos he, List.map_cons, List.map_cons, hg, hhead]
    · have htail : (k, old) ∈ es := by
        obtain h | h := List.mem_cons.mp hold
        · exact absurd (h ▸ rfl) he
        · exact h
      rw [setEntries, if_neg he, List.map_cons, List.map_cons, ih ht htail]

theorem length_entries_set (m : OrderedMap κ ν) (k : κ) (v : ν) :
    (m.set k v).entries.length = m.entries.length + if m.has k then 0 else 1 := by
  cases hget : m.get? k with
  | none =>
    have hkey := get?_eq_none.mp hget
    rw [entries_set_of_not_mem hkey, has, hget, List.length_append]
    rfl
  | some old =>
    have hmap := congrArg List.length
      (entries_map_set (g := fun _ => ()) (v := v) hget rfl)
    rw [List.length_map, List.length_map] at hmap
    rw [has, hget, hmap]
    rfl

end OrderedMap
end BoredManager.Js
