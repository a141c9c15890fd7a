import Mathlib.Data.List.Basic
import Mathlib.Data.List.Count
import Mathlib.Data.List.Infix

/-! Items that are written in order, each behind the definition that it needs, when none of the items
before it needed the same: written at once, or part by part. -/
namespace BoredManager.Machine.Emission

variable {α β κ : Type*} [DecidableEq κ] (key : α → Option κ) (define : κ → List β) (body : α → List β)

/-- The definitions that have been written. -/
def seenAfter : List κ → List α → List κ
  | seen, [] => seen
  | seen, a :: l =>
    match key a with
    | some k => if k ∈ seen then seenAfter seen l else seenAfter (k :: seen) l
    | none => seenAfter seen l

def emit : List κ → List α → List β
  | _, [] => []
  | seen, a :: l =>
    match key a with
    | some k => if k ∈ seen then body a ++ emit seen l else define k ++ body a ++ emit (k :: seen) l
    | none => body a ++ emit seen l

/-- Part by part: each part goes on with what the parts before it have defined. -/
def emitEach : List κ → List (List α) → List (List β)
  | _, [] => []
  | seen, part :: parts => emit key define body seen part :: emitEach (seenAfter key seen part) parts

theorem emit_append (seen : List κ) (l m : List α) :
    emit key define body seen (l ++ m) =
      emit key define body seen l ++ emit key define body (seenAfter key seen l) m := by
  induction l generalizing seen with
  | nil => rfl
  | cons a l ih =>
    rw [List.cons_append, emit, emit, seenAfter]
    cases key a with
    | none => simp only [ih, List.append_assoc]
    | some k =>
      by_cases hk : k ∈ seen
      · simp only [if_pos hk, ih, List.append_assoc]
      · simp only [if_neg hk, ih, List.append_assoc]

/-- The parts say what is said at once. -/
theorem flatten_emitEach (seen : List κ) (parts : List (List α)) :
    (emitEach key define body seen parts).flatten = emit key define body seen parts.flatten := by
  induction parts generalizing seen with
  | nil => rfl
  | cons part parts ih => rw [emitEach, List.flatten_cons, List.flatten_cons, ih, emit_append]

theorem emitEach_take (seen : List κ) (parts : List (List α)) (n : Nat) :
    (emitEach key define body seen parts).take n = emitEach key define body seen (parts.take n) := by
  induction parts generalizing seen n with
  | nil => simp [emitEach]
  | cons part parts ih =>
    cases n with
    | zero => rfl
    | succ n => rw [emitEach, List.take_succ_cons, List.take_succ_cons, emitEach, ih]

variable {key define body}

section count
variable [BEq β] {b : β} {k : κ}

/-- What only the definition of one key says is not said where the key has been defined. -/
theorem count_emit_of_seen {l : List α}
    (hdefine : ∀ a ∈ l, ∀ j, key a = some j → (define j).count b = if j = k then 1 else 0)
    (hbody : ∀ a ∈ l, (body a).count b = 0) {seen : List κ} (hseen : k ∈ seen) :
    (emit key define body seen l).count b = 0 := by
  induction l generalizing seen with
  | nil => rfl
  | cons a l ih =>
    have hdefine' := fun a ha => hdefine a (List.mem_cons_of_mem _ ha)
    have hbody' := fun a ha => hbody a (List.mem_cons_of_mem _ ha)
    have hthis := hbody a List.mem_cons_self
    have hrest := ih hdefine' hbody' hseen
    rw [emit]
    cases hkey : key a with
    | none => simp only [List.count_append, hthis, hrest]
    | some j =>
      by_cases hmem : j ∈ seen
      · simp only [if_pos hmem, List.count_append, hthis, hrest]
      · have hne : j ≠ k := fun h => hmem (h ▸ hseen)
        have hj := hdefine a List.mem_cons_self j hkey
        have hmore := ih hdefine' hbody' (List.mem_cons_of_mem j hseen)
        simp only [if_neg hmem, List.count_append, hthis, hmore, hj, if_neg hne]

/-- Where an item needs the key, and it has not been defined, it is said once. -/
theorem count_emit_of_needed {l : List α}
    (hdefine : ∀ a ∈ l, ∀ j, key a = some j → (define j).count b = if j = k then 1 else 0)
    (hbody : ∀ a ∈ l, (body a).count b = 0) {seen : List κ} (hseen : k ∉ seen)
    (hneeded : ∃ a ∈ l, key a = some k) : (emit key define body seen l).count b = 1 := by
  induction l generalizing seen with
  | nil =>
    obtain ⟨a, ha, -⟩ := hneeded
    cases ha
  | cons a l ih =>
    have hdefine' := fun a ha => hdefine a (List.mem_cons_of_mem _ ha)
    have hbody' := fun a ha => hbody a (List.mem_cons_of_mem _ ha)
    have hthis := hbody a List.mem_cons_self
    have htail : key a ≠ some k → ∃ a ∈ l, key a = some k := by
      intro hne
      obtain ⟨a', ha', hk⟩ := hneeded
      obtain rfl | ha' := List.mem_cons.mp ha'
      · exact absurd hk hne
      · exact ⟨a', ha', hk⟩
    rw [emit]
    cases hkey : key a with
    | none =>
      have hrest := ih hdefine' hbody' hseen (htail (hkey ▸ (Option.some_ne_none k).symm))
      simp only [List.count_append, hthis, hrest]
    | some j =>
      have hj := hdefine a List.mem_cons_self j hkey
      by_cases heq : j = k
      · subst heq
        have hmore := count_emit_of_seen hdefine' hbody' (List.mem_cons_self (a := j) (l := seen))
        simp only [if_neg hseen, List.count_append, hthis, hmore, hj, if_true]
      · have hneeds := htail fun h => heq (Option.some_inj.mp (hkey.symm.trans h))
        by_cases hmem : j ∈ seen
        · have hrest := ih hdefine' hbody' hseen hneeds
          simp only [if_pos hmem, List.count_append, hthis, hrest]
        · have hnot : k ∉ j :: seen :=
            fun h => (List.mem_cons.mp h).elim (fun h => heq h.symm) hseen
          have hrest := ih hdefine' hbody' hnot hneeds
          simp only [if_neg hmem, List.count_append, hthis, hrest, hj, if_neg heq]

end count

/-- Where an item needs a definition that was not there, the definition is written. -/
theorem define_infix_emit {a : α} {k : κ} {l : List α} (ha : a ∈ l) (hkey : key a = some k)
    {seen : List κ} (hseen : k ∉ seen) : define k <:+: emit key define body seen l := by
  induction l generalizing seen with
  | nil => cases ha
  | cons b l ih =>
    rw [emit]
    obtain rfl | ha := List.mem_cons.mp ha
    · simp only [hkey, if_neg hseen, List.append_assoc]
      exact (List.prefix_append _ _).isInfix
    · cases hb : key b with
      | none => exact (ih ha hseen).trans (List.suffix_append _ _).isInfix
      | some j =>
        by_cases hmem : j ∈ seen
        · simp only [if_pos hmem]
          exact (ih ha hseen).trans (List.suffix_append _ _).isInfix
        · simp only [if_neg hmem, List.append_assoc]
          by_cases heq : k = j
          · rw [heq]
            exact (List.prefix_append _ _).isInfix
          · refine (ih ha ?_).trans (((List.suffix_append _ _).trans (List.suffix_append _ _)).isInfix)
            exact fun h => (List.mem_cons.mp h).elim heq hseen

end BoredManager.Machine.Emission
