import BoredManager.Posix.Words

/-! Token recognition of a POSIX shell: quotes and backslashes, operators, comments, and
the expansions, which are kept unread in their word. Each unit of a word says whether it
is protected from expansion. Here-documents are not read. -/
namespace BoredManager.Posix
open BoredManager.Js (Text)

inductive Token where
  | word (units : List (Nat × Bool))
  | operator (units : Text)
deriving DecidableEq

/-- A construct that ends at its closing unit. -/
inductive Frame where
  | single | double | backquote | brace | paren
deriving DecidableEq

inductive Opened where
  | nothing
  | word (units : List (Nat × Bool))
  | operator (units : Text)
deriving DecidableEq

/-- Where the shell is in its input. `escaped` follows a backslash, `dollar` a dollar sign
that may open an expansion. -/
structure Reader where
  frames : List Frame
  opened : Opened
  escaped : Bool
  dollar : Bool
  comment : Bool
deriving DecidableEq

namespace Reader

/-- Between two tokens, outside quotes and comments. -/
def start : Reader := ⟨[], .nothing, false, false, false⟩

/-- Inside a word, outside quotes. -/
def inWord (units : List (Nat × Bool)) : Reader := ⟨[], .word units, false, false, false⟩

def units (r : Reader) : List (Nat × Bool) :=
  match r.opened with
  | .word units => units
  | _ => []

def close (r : Reader) : List Token :=
  match r.opened with
  | .nothing => []
  | .word units => [.word units]
  | .operator units => [.operator units]

/-- The units of an expansion are kept as they stand. -/
def raw (r : Reader) : Bool := r.frames.any fun f => f ≠ .single && f ≠ .double

def put (r : Reader) (added : List (Nat × Bool)) : Reader :=
  { r with opened := .word (r.units ++ added), escaped := false, dollar := false }

def isOperator (u : Nat) : Bool :=
  u == 38 || u == 124 || u == 59 || u == 60 || u == 62 || u == 40 || u == 41

/-- The operators of more than one unit. -/
def operators : List Text := [[38, 38], [124, 124], [59, 59], [60, 60], [62, 62], [60, 38],
  [62, 38], [60, 62], [60, 60, 45], [62, 124]]

def afterBackslash (r : Reader) (u : Nat) : Reader :=
  if r.raw then r.put [(u, false)]
  else if u = 10 then { r with escaped := false }
  else if r.frames = [] ∨ isDoubleEscaped u then r.put [(u, true)]
  else r.put [(92, true), (u, true)]

/-- Outside quotes, with no operator open. -/
def outside (r : Reader) (u : Nat) : Reader × List Token :=
  if u = 32 ∨ u = 9 then (start, r.close)
  else if u = 10 then (start, r.close ++ [.operator [10]])
  else if isOperator u then ({ start with opened := .operator [u] }, r.close)
  else if u = 35 ∧ r.opened = .nothing then ({ start with comment := true }, [])
  else if u = 39 then ({ inWord r.units with frames := [.single] }, [])
  else if u = 34 then ({ inWord r.units with frames := [.double] }, [])
  else if u = 92 then ({ r with escaped := true, dollar := false }, [])
  else if u = 96 then ({ r.put [(96, false)] with frames := [.backquote] }, [])
  else ({ r.put [(u, false)] with dollar := u = 36 }, [])

def plain (r : Reader) (u : Nat) : Reader × List Token :=
  match r.opened with
  | .operator o =>
    if o ++ [u] ∈ operators then ({ start with opened := .operator (o ++ [u]) }, [])
    else ((start.outside u).1, .operator o :: (start.outside u).2)
  | _ => r.outside u

/-- Inside a construct. -/
def inside (r : Reader) (frame : Frame) (outer : List Frame) (u : Nat) : Reader :=
  let edge : List (Nat × Bool) := if r.raw then [(u, false)] else []
  let kept := r.put [(u, !r.raw && u ≠ 36)]
  match frame with
  | .single => if u = 39 then { r.put edge with frames := outer } else r.put [(u, !r.raw)]
  | .double =>
    if u = 34 then { r.put edge with frames := outer }
    else if u = 92 then { r.put edge with escaped := true }
    else if u = 96 then { r.put [(u, false)] with frames := .backquote :: r.frames }
    else { kept with dollar := u = 36 }
  | .backquote =>
    if u = 96 then { kept with frames := outer }
    else if u = 92 then { kept with escaped := true }
    else kept
  | frame =>
    if (frame = .brace ∧ u = 125) ∨ (frame = .paren ∧ u = 41) then { kept with frames := outer }
    else if frame = .paren ∧ u = 40 then { kept with frames := .paren :: r.frames }
    else if u = 39 then { kept with frames := .single :: r.frames }
    else if u = 34 then { kept with frames := .double :: r.frames }
    else if u = 96 then { kept with frames := .backquote :: r.frames }
    else if u = 92 then { kept with escaped := true }
    else { kept with dollar := u = 36 }

/-- The reader after a unit, and the tokens that the unit ends. -/
def next (r : Reader) (u : Nat) : Reader × List Token :=
  if r.comment then (if u = 10 then (start, [.operator [10]]) else (r, []))
  else if r.escaped then (r.afterBackslash u, [])
  else if r.dollar = true ∧ (u = 40 ∨ u = 123) then
    ({ r.put [(u, false)] with frames := (if u = 40 then .paren else .brace) :: r.frames }, [])
  else match r.frames with
    | [] => r.plain u
    | frame :: outer => (r.inside frame outer u, [])

/-- The tokens of a text from a reader on; `none` when a construct is not closed. -/
def scan (r : Reader) : Text → Option (List Token)
  | [] => if r.frames = [] ∧ r.escaped = false then some r.close else none
  | u :: s => (scan (r.next u).1 s).map ((r.next u).2 ++ ·)

/-- The reader after a text, and the tokens that it ends. -/
def read (r : Reader) : Text → Reader × List Token
  | [] => (r, [])
  | u :: s => ((read (r.next u).1 s).1, (r.next u).2 ++ (read (r.next u).1 s).2)

theorem scan_append (r : Reader) (s t : Text) :
    r.scan (s ++ t) = ((r.read s).1.scan t).map ((r.read s).2 ++ ·) := by
  induction s generalizing r with
  | nil => simp [read]
  | cons u s ih =>
    rw [List.cons_append, scan, ih, read, Option.map_map]
    simp [Function.comp_def, List.append_assoc]

theorem scan_eq (r : Reader) (s : Text) :
    r.scan s = if (r.read s).1.frames = [] ∧ (r.read s).1.escaped = false then
      some ((r.read s).2 ++ (r.read s).1.close) else none := by
  have h := r.scan_append s []
  rw [List.append_nil, scan] at h
  rw [h]
  split <;> rfl

/-- A blank ends what is open. -/
theorem next_blank {r : Reader} (hframes : r.frames = []) (hescaped : r.escaped = false)
    (hcomment : r.comment = false) : r.next 32 = (start, r.close) := by
  have hextend : ∀ o : Text, o ++ [32] ∉ operators := by
    intro o h
    have hlast : ∀ x ∈ operators, x.getLast? ≠ some 32 := by decide
    exact hlast _ h (by simp)
  rw [next, hcomment, hescaped, hframes]
  simp only [Bool.false_eq_true, if_false, show ¬(r.dollar = true ∧ (32 = 40 ∨ 32 = 123)) by omega]
  rw [plain]
  cases hopened : r.opened with
  | operator o =>
    dsimp only
    rw [if_neg (hextend o), close, hopened]
    rfl
  | nothing => rfl
  | word units => rfl

/-- Inside single quotes everything is kept, and the four units that stand for a quote
leave the quotes for an escaped one. -/
theorem scan_escapeQuotes (v rest : Text) (w : List (Nat × Bool)) :
    scan { inWord w with frames := [.single] } (escapeQuotes v ++ 39 :: rest) =
      scan (inWord (w ++ v.map fun u => (u, true))) rest := by
  have hleave : ∀ w, next { inWord w with frames := [.single] } 39 = (inWord w, []) := fun w => by
    simp [next, inside, inWord, put, units, raw]
  have hkeep : ∀ w {u : Nat}, u ≠ 39 → next { inWord w with frames := [.single] } u =
      ({ inWord (w ++ [(u, true)]) with frames := [.single] }, []) := fun w u hu => by
    simp [next, inside, inWord, put, units, raw, hu]
  have hescape : ∀ w, next { inWord w with escaped := true } 39 = (inWord (w ++ [(39, true)]), []) :=
    fun w => by simp [next, afterBackslash, inWord, put, units, raw]
  have hback : ∀ w, next (inWord w) 92 = ({ inWord w with escaped := true }, []) := fun w => rfl
  have henter : ∀ w, next (inWord w) 39 = ({ inWord w with frames := [.single] }, []) := fun w => rfl
  induction v generalizing w with
  | nil =>
    rw [show escapeQuotes [] ++ 39 :: rest = 39 :: rest from rfl, scan, hleave]
    simp
  | cons u v ih =>
    by_cases hu : u = 39
    · subst hu
      rw [show escapeQuotes (39 :: v) ++ 39 :: rest =
        39 :: 92 :: 39 :: 39 :: (escapeQuotes v ++ 39 :: rest) from rfl]
      rw [scan, hleave, scan, hback, scan, hescape, scan, henter, ih]
      simp
    · have hcons : escapeQuotes (u :: v) = u :: escapeQuotes v := by
        change (if u = 39 then [39, 92, 39, 39] else [u]) ++ escapeQuotes v = _
        rw [if_neg hu]
        rfl
      rw [hcons, List.cons_append, scan, hkeep w hu, ih]
      simp

/-- A quoted text opens one word, all of it protected. -/
theorem scan_singleQuote (s rest : Text) :
    start.scan (singleQuote s ++ rest) = scan (inWord (s.map fun u => (u, true))) rest := by
  have h := scan_escapeQuotes s rest []
  have henter : next start 39 = ({ inWord [] with frames := [.single] }, []) := rfl
  rw [singleQuote, List.cons_append, List.cons_append, List.append_assoc, scan, henter]
  simpa using h

end Reader

/-- The tokens of a command text. -/
def tokens (line : Text) : Option (List Token) := Reader.start.scan line

/-- Quotes and backslashes are closed at the end of the text. -/
def OutsideQuotes (p : Text) : Prop :=
  (Reader.start.read p).1.frames = [] ∧ (Reader.start.read p).1.escaped = false

/-- The text ends in a comment. -/
def InComment (p : Text) : Prop := (Reader.start.read p).1.comment = true

instance (p : Text) : Decidable (OutsideQuotes p) := inferInstanceAs (Decidable (_ ∧ _))

instance (p : Text) : Decidable (InComment p) := inferInstanceAs (Decidable (_ = _))

/-- A word whose every unit is protected: no expansion, no splitting, no globbing. -/
def protectedWord (s : Text) : Token := .word (s.map fun u => (u, true))

/-- The texts that end inside quotes are those that have no tokens. -/
theorem tokens_eq_none {p : Text} : tokens p = none ↔ ¬OutsideQuotes p := by
  rw [tokens, Reader.scan_eq]
  split
  · rename_i h
    exact ⟨fun h => (nomatch h), fun hne => absurd h hne⟩
  · rename_i h
    exact ⟨fun _ => h, fun _ => rfl⟩

/-- A text that ends outside quotes and comments, a blank, and another text are tokenized
each on its own. -/
theorem tokens_append_blank {p : Text} (hp : OutsideQuotes p) (hcomment : ¬InComment p) (t : Text) :
    tokens (p ++ 32 :: t) = (tokens p).bind fun before => (tokens t).map (before ++ ·) := by
  have hp' : tokens p = some ((Reader.start.read p).2 ++ (Reader.start.read p).1.close) := by
    rw [tokens, Reader.scan_eq]
    exact if_pos hp
  rw [hp', tokens, Reader.scan_append, Reader.scan,
    Reader.next_blank hp.1 hp.2 (by simpa [InComment] using hcomment)]
  simp [tokens, Function.comp_def, List.append_assoc]

theorem tokens_singleQuote (s : Text) : tokens (singleQuote s) = some [protectedWord s] := by
  have h := Reader.scan_singleQuote s []
  rw [List.append_nil] at h
  exact h

theorem tokens_singleQuote_blank (s t : Text) :
    tokens (singleQuote s ++ 32 :: t) = (tokens t).map (protectedWord s :: ·) := by
  rw [tokens, Reader.scan_singleQuote, Reader.scan, Reader.next_blank rfl rfl rfl]
  rfl

end BoredManager.Posix
