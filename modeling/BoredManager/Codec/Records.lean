import Mathlib.Data.List.Basic
import Mathlib.Tactic.Common

/-! Records written one after another: the bytes of a key, a zero, the content, and a
separator that may be empty. Keys have no zero in them; contents may have any bytes, and
so one content can spell out several records. -/
namespace BoredManager.Codec

variable {κ : Type*} (enc : κ → List Nat) (sep : List Nat)

def record (r : κ × List Nat) : List Nat := enc r.1 ++ 0 :: (r.2 ++ sep)

def records (rs : List (κ × List Nat)) : List Nat := rs.flatMap (record enc sep)

/-- The content of one record that is written as two. -/
def joinedContent (x : List Nat) (key : κ) (y : List Nat) : List Nat :=
  x ++ sep ++ enc key ++ 0 :: y

@[simp] theorem records_nil : records enc sep [] = [] := rfl

@[simp] theorem records_cons (r : κ × List Nat) (rs : List (κ × List Nat)) :
    records enc sep (r :: rs) = record enc sep r ++ records enc sep rs := rfl

theorem records_append (rs more : List (κ × List Nat)) :
    records enc sep (rs ++ more) = records enc sep rs ++ records enc sep more := by
  simp [records]

/-- Two neighbours are written as one record that holds the second in its content. -/
theorem records_join (p q : κ) (x y : List Nat) :
    records enc sep [(p, x), (q, y)] = records enc sep [(p, joinedContent enc sep x q y)] := by
  simp [record, joinedContent, List.append_assoc]

/-- What is written ends with a separator. -/
theorem exists_records_eq (y : List Nat) (rs : List (κ × List Nat)) :
    ∃ front, y ++ sep ++ records enc sep rs = front ++ sep := by
  rcases rs.eq_nil_or_concat with rfl | ⟨rest, r, rfl⟩
  · exact ⟨y, by simp⟩
  · refine ⟨y ++ sep ++ records enc sep rest ++ enc r.1 ++ 0 :: r.2, ?_⟩
    rw [List.concat_eq_append, records_append]
    simp [record, List.append_assoc]

variable {enc sep}

/-- A key ends at the first zero. -/
theorem key_cancel {p q : κ} (hp : 0 ∉ enc p) (hq : 0 ∉ enc q) {x y : List Nat}
    (h : enc p ++ 0 :: x = enc q ++ 0 :: y) : enc p = enc q ∧ x = y := by
  have htake : ∀ {k : κ} (z : List Nat), 0 ∉ enc k →
      (enc k ++ 0 :: z).takeWhile (· ≠ 0) = enc k := by
    intro k z hk
    rw [List.takeWhile_append_of_pos]
    · simp
    · intro b hb
      rw [decide_eq_true_iff]
      exact fun h0 => hk (h0 ▸ hb)
  have hkeys : enc p = enc q := by rw [← htake x hp, h, htake y hq]
  rw [hkeys] at h
  have := List.append_cancel_left h
  exact ⟨hkeys, (List.cons.inj this).2⟩

/-- What records can be written as one: that one, or several whose first has its key and
the start of its content. -/
theorem records_eq_single {p : κ} {c : List Nat} {rs : List (κ × List Nat)} (hp : 0 ∉ enc p)
    (hrs : ∀ r ∈ rs, 0 ∉ enc r.1) (h : records enc sep rs = records enc sep [(p, c)]) :
    (∃ q, enc q = enc p ∧ rs = [(q, c)]) ∨
      ∃ o x q y more z, rs = (o, x) :: (q, y) :: more ∧ enc o = enc p ∧
        c = joinedContent enc sep x q z := by
  cases rs with
  | nil =>
    have hlen := congrArg List.length h
    simp [record] at hlen
  | cons r rs =>
    obtain ⟨o, x⟩ := r
    have ho : 0 ∉ enc o := hrs _ List.mem_cons_self
    simp only [records_cons, records_nil, record, List.append_assoc, List.cons_append,
      List.append_nil] at h
    obtain ⟨hkey, h⟩ := key_cancel ho hp h
    cases rs with
    | nil =>
      left
      rw [records_nil, List.append_nil] at h
      exact ⟨o, hkey, by rw [List.append_cancel_right h]⟩
    | cons r rs =>
      obtain ⟨q, y⟩ := r
      right
      obtain ⟨z, hz⟩ := exists_records_eq enc sep y rs
      refine ⟨o, x, q, y, rs, z, rfl, hkey, ?_⟩
      have hcontent : joinedContent enc sep x q z ++ sep = c ++ sep := by
        rw [← h, joinedContent, records_cons, record]
        simp only [List.append_assoc, List.cons_append] at hz ⊢
        rw [hz]
      exact (List.append_cancel_right hcontent).symm

end BoredManager.Codec
