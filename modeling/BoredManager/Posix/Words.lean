import BoredManager.Js.Text

/-! Word splitting of a command line with POSIX quoting: blanks separate words,
single quotes keep everything, a backslash outside them keeps one character. -/
namespace BoredManager.Posix
open BoredManager.Js (Text)

/-- Where the reader stands with respect to quotes. -/
inductive Mode where
  | plain | single | double | escape | doubleEscape
deriving DecidableEq, Repr

def isBlank (u : Nat) : Bool := u == 32 || u == 9 || u == 10

/-- Inside double quotes a backslash only removes itself before these. -/
def isDoubleEscaped (u : Nat) : Bool := u == 36 || u == 96 || u == 34 || u == 92

/-- Read a line from a mode and an open word; `none` is an unterminated quote. -/
def scan : Mode → Option Text → Text → Option (List Text)
  | .plain, w, [] => some w.toList
  | _, _, [] => none
  | .plain, w, u :: s =>
    if isBlank u then (scan .plain none s).map (w.toList ++ ·)
    else if u = 39 then scan .single (some (w.getD [])) s
    else if u = 34 then scan .double (some (w.getD [])) s
    else if u = 92 then scan .escape (some (w.getD [])) s
    else scan .plain (some (w.getD [] ++ [u])) s
  | .single, w, u :: s =>
    if u = 39 then scan .plain w s else scan .single (some (w.getD [] ++ [u])) s
  | .double, w, u :: s =>
    if u = 34 then scan .plain w s
    else if u = 92 then scan .doubleEscape w s
    else scan .double (some (w.getD [] ++ [u])) s
  | .escape, w, u :: s => scan .plain (some (w.getD [] ++ [u])) s
  | .doubleEscape, w, u :: s =>
    scan .double (some (w.getD [] ++ if isDoubleEscaped u then [u] else [92, u])) s

def words (line : Text) : Option (List Text) := scan .plain none line

/-- The text of one value between single quotes, each inner quote as `'\''`. -/
def escapeQuotes (v : Text) : Text := v.flatMap fun u => if u = 39 then [39, 92, 39, 39] else [u]

def singleQuote (v : Text) : Text := 39 :: escapeQuotes v ++ [39]

/-- A character that stands for itself outside quotes. -/
def isPlain (u : Nat) : Bool := !isBlank u && u != 39 && u != 34 && u != 92

theorem scan_plain (p s w : Text) (hp : ∀ u ∈ p, isPlain u = true) :
    scan .plain (some w) (p ++ s) = scan .plain (some (w ++ p)) s := by
  induction p generalizing w with
  | nil => simp
  | cons u p ih =>
    have hu : isPlain u = true := hp u (by simp)
    simp only [isPlain, Bool.and_eq_true, Bool.not_eq_true', bne_iff_ne, ne_eq] at hu
    obtain ⟨⟨⟨hb, h39⟩, h34⟩, h92⟩ := hu
    rw [List.cons_append, scan]
    simp only [hb, h39, h34, h92, if_false, Option.getD_some, Bool.false_eq_true]
    rw [ih _ fun v hv => hp v (List.mem_cons_of_mem _ hv)]
    simp

/-- A plain prefix opens a word. -/
theorem scan_plain_start (p s : Text) (hp : ∀ u ∈ p, isPlain u = true) (hne : p ≠ []) :
    scan .plain none (p ++ s) = scan .plain (some p) s := by
  cases p with
  | nil => exact absurd rfl hne
  | cons u p =>
    have h := scan_plain (u :: p) s [] hp
    have hb : isBlank u = false := by
      have hu : isPlain u = true := hp u (by simp)
      simp_all [isPlain]
    simp only [List.nil_append] at h
    rw [← h]
    simp [scan, hb]

theorem scan_single (v s w : Text) :
    scan .single (some w) (escapeQuotes v ++ 39 :: s) = scan .plain (some (w ++ v)) s := by
  induction v generalizing w with
  | nil => simp [escapeQuotes, scan]
  | cons u v ih =>
    have hcons : escapeQuotes (u :: v) =
        (if u = 39 then [39, 92, 39, 39] else [u]) ++ escapeQuotes v := rfl
    by_cases hu : u = 39
    · subst hu
      rw [hcons, if_pos rfl]
      simp [scan, isBlank, ih]
    · rw [hcons, if_neg hu]
      simp [scan, hu, ih]

/-- A quoted value is read back exactly, whatever its characters. -/
theorem scan_singleQuote (v s w : Text) :
    scan .plain (some w) (singleQuote v ++ s) = scan .plain (some (w ++ v)) s := by
  have h := scan_single v s w
  simpa [singleQuote, scan, isBlank] using h

theorem not_mem_singleQuote {v : Text} {u : Nat} (hu : u ∉ v) (h39 : u ≠ 39) (h92 : u ≠ 92) :
    u ∉ singleQuote v := by
  simp only [singleQuote, escapeQuotes, List.mem_append, List.mem_cons, List.mem_flatMap,
    List.not_mem_nil, or_false, not_or, not_exists, not_and]
  refine ⟨⟨h39, fun x hx => ?_⟩, h39⟩
  split
  · simp [h39, h92]
  · intro h
    exact hu (by rw [List.mem_singleton.mp h]; exact hx)

end BoredManager.Posix
