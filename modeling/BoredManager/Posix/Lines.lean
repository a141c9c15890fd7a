import BoredManager.Posix.Tokens

/-! Command lines put together from words: bare words of letters, digits and a few signs, and quoted
ones of any text. -/
namespace BoredManager.Posix
open BoredManager.Js

/-- A unit that stands for itself everywhere: a letter, a digit, `-`, `.`, `/` or `_`. -/
def isInert (u : Nat) : Bool :=
  isDigit u || isLower u || isUpper u || u == 45 || u == 46 || u == 47 || u == 95

def Inert (s : Text) : Prop := s ≠ [] ∧ ∀ u ∈ s, isInert u = true

instance (s : Text) : Decidable (Inert s) := inferInstanceAs (Decidable (_ ∧ _))

/-- A word as it stands, nothing of it protected. -/
def plainWord (s : Text) : Token := .word (s.map fun u => (u, false))

namespace Reader

theorem not_special_of_isInert {u : Nat} (h : isInert u = true) :
    u ≠ 32 ∧ u ≠ 9 ∧ u ≠ 10 ∧ u ≠ 35 ∧ u ≠ 39 ∧ u ≠ 34 ∧ u ≠ 92 ∧ u ≠ 96 ∧ u ≠ 36 ∧
      isOperator u = false := by
  simp only [isInert, isDigit, isLower, isUpper, Bool.or_eq_true, Bool.and_eq_true, decide_eq_true_eq,
    beq_iff_eq] at h
  refine ⟨?_, ?_, ?_, ?_, ?_, ?_, ?_, ?_, ?_, ?_⟩
  all_goals first
    | omega
    | (rw [Bool.eq_false_iff]
       simp only [isOperator, ne_eq, Bool.or_eq_true, beq_iff_eq]
       omega)

theorem next_inert {u : Nat} (h : isInert u = true) (w : List (Nat × Bool)) :
    next (inWord w) u = (inWord (w ++ [(u, false)]), []) := by
  obtain ⟨h1, h2, h3, h4, h5, h6, h7, h8, h9, hop⟩ := not_special_of_isInert h
  simp [next, plain, outside, inWord, put, units, h1, h2, h3, h4, h5, h6, h7, h8, h9, hop]

theorem start_inert {u : Nat} (h : isInert u = true) : next start u = (inWord [(u, false)], []) := by
  obtain ⟨h1, h2, h3, h4, h5, h6, h7, h8, h9, hop⟩ := not_special_of_isInert h
  simp [next, plain, outside, start, inWord, put, units, h1, h2, h3, h4, h5, h6, h7, h8, h9, hop]

theorem scan_inert {s : Text} (h : ∀ u ∈ s, isInert u = true) (w : List (Nat × Bool)) (rest : Text) :
    scan (inWord w) (s ++ rest) = scan (inWord (w ++ s.map fun u => (u, false))) rest := by
  induction s generalizing w with
  | nil => simp
  | cons u s ih =>
    rw [List.cons_append, scan, next_inert (h u List.mem_cons_self),
      ih fun v hv => h v (List.mem_cons_of_mem u hv)]
    simp

/-- An inert text opens one word. -/
theorem start_scan_inert {s : Text} (h : Inert s) (rest : Text) :
    start.scan (s ++ rest) = scan (inWord (s.map fun u => (u, false))) rest := by
  obtain ⟨hne, hall⟩ := h
  cases s with
  | nil => exact absurd rfl hne
  | cons u s =>
    rw [List.cons_append, scan, start_inert (hall u List.mem_cons_self),
      scan_inert fun v hv => hall v (List.mem_cons_of_mem u hv)]
    simp

end Reader

theorem tokens_inert {s : Text} (h : Inert s) : tokens s = some [plainWord s] := by
  have hscan := Reader.start_scan_inert h []
  rw [List.append_nil] at hscan
  exact hscan

theorem tokens_inert_blank {s : Text} (h : Inert s) (t : Text) :
    tokens (s ++ 32 :: t) = (tokens t).map (plainWord s :: ·) := by
  rw [tokens, Reader.start_scan_inert h, Reader.scan, Reader.next_blank rfl rfl rfl]
  rfl

/-! ### Words joined by blanks -/

inductive Arg where
  | bare (s : Text)
  | quoted (s : Text)

def Arg.text : Arg → Text
  | .bare s => s
  | .quoted s => singleQuote s

def Arg.token : Arg → Token
  | .bare s => plainWord s
  | .quoted s => protectedWord s

/-- The bare words are inert. -/
def Arg.Fine : Arg → Prop
  | .bare s => Inert s
  | .quoted _ => True

instance : (a : Arg) → Decidable a.Fine
  | .bare s => inferInstanceAs (Decidable (Inert s))
  | .quoted _ => inferInstanceAs (Decidable True)

theorem tokens_arg {a : Arg} (h : a.Fine) : tokens a.text = some [a.token] := by
  cases a with
  | bare s => exact tokens_inert h
  | quoted s => exact tokens_singleQuote s

theorem tokens_arg_blank {a : Arg} (h : a.Fine) (t : Text) :
    tokens (a.text ++ 32 :: t) = (tokens t).map (a.token :: ·) := by
  cases a with
  | bare s => exact tokens_inert_blank h t
  | quoted s => exact tokens_singleQuote_blank s t

/-- A line of words has one token for each of them. -/
theorem tokens_join {args : List Arg} (h : ∀ a ∈ args, a.Fine) :
    tokens (join [32] (args.map Arg.text)) = some (args.map Arg.token) := by
  induction args with
  | nil => rfl
  | cons a args ih =>
    have ha := h a List.mem_cons_self
    cases args with
    | nil =>
      rw [List.map_singleton, List.map_singleton, join, List.intercalate_singleton]
      exact tokens_arg ha
    | cons b args =>
      have hjoin : join [32] ((a :: b :: args).map Arg.text) =
          a.text ++ 32 :: join [32] ((b :: args).map Arg.text) := by
        have hmore : (b :: args).map Arg.text ≠ [] := List.cons_ne_nil _ _
        rw [List.map_cons, join, List.intercalate_cons_of_ne_nil hmore]
        exact List.append_assoc _ _ _
      rw [hjoin, tokens_arg_blank ha, ih fun c hc => h c (List.mem_cons_of_mem a hc)]
      rfl

end BoredManager.Posix
