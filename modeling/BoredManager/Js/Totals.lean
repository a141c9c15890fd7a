import BoredManager.Js.OrderedMap
import Mathlib.Algebra.GroupWithZero.Nat
import Mathlib.Data.List.Induction

/-! Totals over an insertion-ordered map, and over the pairs it was made from. -/
namespace BoredManager.Js.OrderedMap
variable {κ ν : Type*} [DecidableEq κ]

/-- The sum of an amount over the entries. -/
def total (f : κ × ν → Nat) (m : OrderedMap κ ν) : Nat := (m.entries.map f).sum

/-- The amount of the entry of a key. -/
def amount (f : κ × ν → Nat) (m : OrderedMap κ ν) (k : κ) : Nat :=
  ((m.get? k).map fun v => f (k, v)).getD 0

omit [DecidableEq κ] in
@[simp] theorem total_empty (f : κ × ν → Nat) : total f empty = 0 := rfl

/-- Setting a key puts its new amount in the place of its old one. -/
theorem total_set (f : κ × ν → Nat) (m : OrderedMap κ ν) (k : κ) (v : ν) :
    total f (m.set k v) + amount f m k = total f m + f (k, v) := by
  obtain ⟨es, hn⟩ := m
  simp only [total, amount, get?, set]
  clear hn
  induction es with
  | nil => simp [setEntries]
  | cons e es ih =>
    obtain ⟨j, w⟩ := e
    by_cases hj : j = k
    · subst hj
      simp only [setEntries, if_true, List.map_cons, List.sum_cons, List.find?_cons, decide_true,
        Option.map_some, Option.getD_some]
      omega
    · simp only [setEntries, if_neg hj, List.map_cons, List.sum_cons, List.find?_cons,
        decide_eq_false hj]
      omega

/-- Among distinct keys, one key's total is the amount of its entry. -/
theorem total_single (f : κ × ν → Nat) (m : OrderedMap κ ν) (k : κ) :
    total (fun e => if e.1 = k then f e else 0) m = amount f m k := by
  obtain ⟨es, hn⟩ := m
  simp only [total, amount, get?]
  induction es with
  | nil => rfl
  | cons e es ih =>
    obtain ⟨hhead, htail⟩ := List.nodup_cons.mp hn
    by_cases he : e.1 = k
    · subst he
      have hrest : (es.map fun x => if x.1 = e.1 then f x else 0).sum = 0 := by
        rw [List.sum_eq_zero_iff_forall_eq_nat]
        intro n hmem
        obtain ⟨x, hx, rfl⟩ := List.mem_map.mp hmem
        exact if_neg fun heq => hhead (List.mem_map.mpr ⟨x, hx, heq⟩)
      rw [List.map_cons, List.sum_cons, hrest]
      simp
    · rw [List.map_cons, List.sum_cons, ih htail, if_neg he, Nat.zero_add]
      simp [he]

/-- No pair that a later one overrides has an amount. -/
def OnlyLast (f : κ × ν → Nat) (l : List (κ × ν)) : Prop :=
  l.Pairwise fun e later => later.1 = e.1 → f e = 0

theorem ofList_append (l : List (κ × ν)) (e : κ × ν) :
    ofList (l ++ [e]) = (ofList l).set e.1 e.2 := by
  rw [ofList, List.foldl_append]
  rfl

omit [DecidableEq κ] in
theorem onlyLast_append {f : κ × ν → Nat} {l : List (κ × ν)} {e : κ × ν} :
    OnlyLast f (l ++ [e]) ↔ OnlyLast f l ∧ ∀ x ∈ l, e.1 = x.1 → f x = 0 := by
  simp [OnlyLast, List.pairwise_append]

/-- A pair whose amount counts is the one that its key reads. -/
theorem OnlyLast.get? {f : κ × ν → Nat} {l : List (κ × ν)} (h : OnlyLast f l) {e : κ × ν}
    (he : e ∈ l) : f e = 0 ∨ (ofList l).get? e.1 = some e.2 := by
  induction l using List.reverseRecOn with
  | nil => cases he
  | append_singleton l last ih =>
    obtain ⟨hl, hlast⟩ := onlyLast_append.mp h
    rw [ofList_append, get?_set]
    obtain he | he := List.mem_append.mp he
    · by_cases hkey : e.1 = last.1
      · exact .inl (hlast e he hkey.symm)
      · rw [if_neg hkey]
        exact ih hl he
    · obtain rfl := List.mem_singleton.mp he
      exact .inr (if_pos rfl)

theorem amount_ofList_eq_zero {f : κ × ν → Nat} {l : List (κ × ν)} (h : OnlyLast f l) (k : κ) :
    amount f (ofList l) k = 0 ↔ ∀ x ∈ l, k = x.1 → f x = 0 := by
  constructor
  · rintro hzero x hx rfl
    obtain hnone | hget := h.get? hx
    · exact hnone
    · simpa [amount, hget] using hzero
  · intro hall
    rw [amount]
    cases hget : (ofList l).get? k with
    | none => rfl
    | some v => exact hall _ (mem_of_get?_ofList hget) rfl

/-- The map's total is at most the sum over the pairs, and the two agree exactly if no pair that
is overridden has an amount. -/
theorem total_ofList (f : κ × ν → Nat) (l : List (κ × ν)) :
    total f (ofList l) ≤ (l.map f).sum ∧
      (total f (ofList l) = (l.map f).sum ↔ OnlyLast f l) := by
  induction l using List.reverseRecOn with
  | nil => exact ⟨Nat.le_refl 0, iff_of_true rfl List.Pairwise.nil⟩
  | append_singleton l last ih =>
    have hset : total f ((ofList l).set last.1 last.2) + amount f (ofList l) last.1 =
        total f (ofList l) + f last := total_set f (ofList l) last.1 last.2
    rw [onlyLast_append, ofList_append, List.map_append, List.sum_append, List.map_singleton,
      List.sum_singleton]
    refine ⟨by omega, ?_⟩
    constructor
    · intro heq
      have hl : OnlyLast f l := ih.2.mp (by omega)
      exact ⟨hl, (amount_ofList_eq_zero hl last.1).mp (by omega)⟩
    · rintro ⟨hl, hlast⟩
      have hold := (amount_ofList_eq_zero hl last.1).mpr hlast
      have := ih.2.mpr hl
      omega

end BoredManager.Js.OrderedMap
