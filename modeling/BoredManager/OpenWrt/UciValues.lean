import BoredManager.Js.Blanks
import BoredManager.OpenWrt.Uci

/-! The reader of `uci show` values against the writer of UCI batch values. The reader's expression
for a quoted run ends at the next quote, so a value that holds a quote comes back in pieces. -/
namespace BoredManager.OpenWrt
open BoredManager.Js BoredManager.Posix

/-- `value.replace(/'\\''/g, "'")` -/
def unescapeQuotes : Text → Text
  | 39 :: 92 :: 39 :: 39 :: s => 39 :: unescapeQuotes s
  | u :: s => u :: unescapeQuotes s
  | [] => []

def unquoteUci (valueRaw : Text) : Text :=
  let value := trim valueRaw
  if 2 ≤ value.length ∧ value.head? = some 39 ∧ value.getLast? = some 39
  then unescapeQuotes (value.drop 1).dropLast else value

/-- `(?:[^']|\\'')*'`: what is matched behind an opening quote, and what follows the match. The
alternatives are tried in their order. -/
def quotedRest : Text → Option (Text × Text)
  | [] => none
  | 92 :: 39 :: 39 :: s =>
    ((quotedRest (39 :: 39 :: s)).map fun found => (92 :: found.1, found.2)).or
      ((quotedRest s).map fun found => (92 :: 39 :: 39 :: found.1, found.2))
  | 39 :: s => some ([39], s)
  | u :: s => (quotedRest s).map fun found => (u :: found.1, found.2)

theorem quotedRest_cons {u : Nat} (hu : u ≠ 39) {s : Text} {found : Text × Text}
    (h : quotedRest s = some found) : quotedRest (u :: s) = some (u :: found.1, found.2) := by
  rw [quotedRest.eq_def]
  split
  · contradiction
  · rename_i heq
    cases heq
    rw [h]
    rfl
  · rename_i heq
    cases heq
    contradiction
  · rename_i heq
    cases heq
    rw [h]
    rfl

/-- The match ends at the first quote: a backslash before it is one of `[^']`. -/
theorem quotedRest_quote {p : Text} (hp : 39 ∉ p) (s : Text) :
    quotedRest (p ++ 39 :: s) = some (p ++ [39], s) := by
  induction p with
  | nil => rfl
  | cons u p ih =>
    rw [List.mem_cons, not_or] at hp
    exact quotedRest_cons (Ne.symm hp.1) (ih hp.2)

theorem quotedRest_none {s : Text} (h : 39 ∉ s) : quotedRest s = none := by
  fun_induction quotedRest s with
  | case1 => rfl
  | case2 s => simp at h
  | case3 s => simp at h
  | case4 u s _ _ ih =>
    rw [List.mem_cons, not_or] at h
    rw [ih h.2]
    rfl

theorem length_quotedRest {s : Text} {found : Text × Text} (h : quotedRest s = some found) :
    found.2.length < s.length := by
  by_cases hquote : 39 ∈ s
  · obtain ⟨p, rest, rfl, hp⟩ := List.eq_append_cons_of_mem hquote
    rw [quotedRest_quote hp] at h
    cases h
    simp
    omega
  · rw [quotedRest_none hquote] at h
    cases h

/-- `valueRaw.matchAll(/'(?:[^']|\\'')*'|[^\s]+/g)` -/
def uciMatches : Text → List Text
  | [] => []
  | u :: s =>
    match _hfound : if u = 39 then quotedRest s else none with
    | some found => (39 :: found.1) :: uciMatches found.2
    | none =>
      if isSpace u then uciMatches s
      else (u :: s.takeWhile (!isSpace ·)) :: uciMatches (s.dropWhile (!isSpace ·))
termination_by s => s.length
decreasing_by
  · split_ifs at _hfound
    have := length_quotedRest _hfound
    rw [List.length_cons]
    omega
  · rw [List.length_cons]
    omega
  · have := (s.dropWhile_suffix (!isSpace ·)).length_le
    rw [List.length_cons]
    omega

/-- Split `uci show` list values such as `'lan' 'guest'`. -/
def tokenizeUciValues (valueRaw : Text) : List Text :=
  ((uciMatches valueRaw).map unquoteUci).filter (· ≠ [])

/-! ### Values without quotes -/

theorem escapeQuotes_self {v : Text} (hv : 39 ∉ v) : escapeQuotes v = v := by
  induction v with
  | nil => rfl
  | cons u v ih =>
    rw [List.mem_cons, not_or] at hv
    rw [escapeQuotes, List.flatMap_cons, if_neg (Ne.symm hv.1), ← escapeQuotes, ih hv.2]
    rfl

theorem unescapeQuotes_self {v : Text} (hv : 39 ∉ v) : unescapeQuotes v = v := by
  fun_induction unescapeQuotes v with
  | case1 s => simp at hv
  | case2 u s _ ih => rw [ih fun h => hv (List.mem_cons_of_mem u h)]
  | case3 => rfl

theorem unquoteUci_quoted {v : Text} (hv : 39 ∉ v) : unquoteUci (39 :: v ++ [39]) = v := by
  have hlast : (39 :: v ++ [39]).getLast? = some 39 := List.getLast?_concat
  have htrim : trim (39 :: v ++ [39]) = 39 :: v ++ [39] :=
    trim_of_ends (by simp [isSpace]) (by rw [hlast]; simp [isSpace])
  rw [unquoteUci, htrim, if_pos ⟨by simp, rfl, hlast⟩]
  simpa using unescapeQuotes_self hv

theorem uciMatches_quoted {v : Text} (hv : 39 ∉ v) (s : Text) :
    uciMatches (39 :: v ++ 39 :: s) = (39 :: v ++ [39]) :: uciMatches s := by
  rw [List.cons_append, uciMatches, if_pos rfl, quotedRest_quote hv]
  rfl

theorem uciMatches_space (s : Text) : uciMatches (32 :: s) = uciMatches s := by
  rw [uciMatches, if_neg (by decide)]
  rfl

theorem uciQuote_self {v : Text} (hv : 39 ∉ v) : uciQuote v = 39 :: v ++ [39] := by
  rw [uciQuote, singleQuote, escapeQuotes_self hv]

theorem join_uciQuote_cons (v w : Text) (vs : List Text) :
    join [32] ((v :: w :: vs).map uciQuote) = uciQuote v ++ 32 :: join [32] ((w :: vs).map uciQuote) := by
  simp [join, List.intercalate]

/-- A value without quotes is read back, and the rest is read behind it. -/
theorem tokenize_cons {v : Text} (hv : 39 ∉ v) (hne : v ≠ []) (vs : List Text) :
    tokenizeUciValues (join [32] ((v :: vs).map uciQuote)) =
      v :: tokenizeUciValues (join [32] (vs.map uciQuote)) := by
  have hmatches : uciMatches (join [32] ((v :: vs).map uciQuote)) =
      (39 :: v ++ [39]) :: uciMatches (join [32] (vs.map uciQuote)) := by
    cases vs with
    | nil =>
      have := uciMatches_quoted hv []
      simpa [join, List.intercalate, uciQuote_self hv] using this
    | cons w vs =>
      rw [join_uciQuote_cons, uciQuote_self hv, List.append_assoc, List.singleton_append,
        uciMatches_quoted hv, uciMatches_space]
  rw [tokenizeUciValues, hmatches, List.map_cons, unquoteUci_quoted hv,
    List.filter_cons_of_pos (by simpa using hne)]
  rfl

/-! ### A value with a quote -/

theorem uciMatches_backslash (s : Text) :
    uciMatches (92 :: s) = (92 :: s.takeWhile (!isSpace ·)) :: uciMatches (s.dropWhile (!isSpace ·)) := by
  rw [uciMatches, if_neg (by decide)]
  rfl

theorem unquoteUci_backslash (s : Text) :
    unquoteUci (92 :: s.takeWhile (!isSpace ·)) = 92 :: s.takeWhile (!isSpace ·) := by
  have htrim : trim (92 :: s.takeWhile (!isSpace ·)) = 92 :: s.takeWhile (!isSpace ·) := by
    refine trim_eq_self fun u hu => ?_
    obtain rfl | hu := List.mem_cons.mp hu
    · decide
    · simpa using List.mem_takeWhile_imp hu
  rw [unquoteUci, htrim, if_neg (by simp)]

/-- The first value with a quote comes back as its part before the quote, if there is any, and a piece
that begins with a backslash. -/
theorem tokenize_quote {p : Text} (hp : 39 ∉ p) (s rest : Text) :
    ∃ piece others, tokenizeUciValues (uciQuote (p ++ 39 :: s) ++ rest) =
      (if p = [] then [] else [p]) ++ (92 :: piece) :: others := by
  have hquote : uciQuote (p ++ 39 :: s) ++ rest =
      39 :: p ++ 39 :: 92 :: 39 :: 39 :: (escapeQuotes s ++ 39 :: rest) := by
    have hescape : escapeQuotes (p ++ 39 :: s) = p ++ 39 :: 92 :: 39 :: 39 :: escapeQuotes s := by
      rw [escapeQuotes, List.flatMap_append, ← escapeQuotes, escapeQuotes_self hp]
      rfl
    simp [uciQuote, singleQuote, hescape]
  have hmatches := uciMatches_quoted hp (92 :: 39 :: 39 :: (escapeQuotes s ++ 39 :: rest))
  rw [uciMatches_backslash] at hmatches
  rw [hquote, tokenizeUciValues, hmatches, List.map_cons, List.map_cons, unquoteUci_quoted hp,
    unquoteUci_backslash]
  by_cases hempty : p = []
  · rw [if_pos hempty, List.filter_cons_of_neg (by simpa using hempty), List.filter_cons_of_pos (by simp)]
    exact ⟨_, _, rfl⟩
  · rw [if_neg hempty, List.filter_cons_of_pos (by simpa using hempty), List.filter_cons_of_pos (by simp)]
    exact ⟨_, _, rfl⟩

/-- The reader gives back the values exactly when no value holds a quote. -/
theorem tokenize_undoes_quote (vs : List Text) (hne : ∀ v ∈ vs, v ≠ []) :
    tokenizeUciValues (join [32] (vs.map uciQuote)) = vs ↔ ∀ v ∈ vs, 39 ∉ v := by
  induction vs with
  | nil => exact iff_of_true (by simp [join, tokenizeUciValues, uciMatches]) (by simp)
  | cons v vs ih =>
    by_cases hv : 39 ∈ v
    · obtain ⟨p, s, rfl, hp⟩ := List.eq_append_cons_of_mem hv
      have hjoin : ∃ rest, join [32] (((p ++ 39 :: s) :: vs).map uciQuote) = uciQuote (p ++ 39 :: s) ++ rest := by
        cases vs with
        | nil => exact ⟨[], by simp [join, List.intercalate]⟩
        | cons w vs => exact ⟨_, join_uciQuote_cons _ w vs⟩
      obtain ⟨rest, hrest⟩ := hjoin
      obtain ⟨piece, others, htokens⟩ := tokenize_quote hp s rest
      rw [hrest, htokens]
      refine iff_of_false (fun heq => ?_) fun hall => hall _ List.mem_cons_self hv
      cases p with
      | nil => simp at heq
      | cons u p => simp at heq
    · rw [tokenize_cons hv (hne v List.mem_cons_self), List.cons_eq_cons,
        ih fun w hw => hne w (List.mem_cons_of_mem v hw)]
      simp [hv]

theorem tokenize_undoes_quote_two :
    (∀ v ∈ [js "a b", js "c\\d"], v ≠ []) ∧
      (tokenizeUciValues (join [32] ([js "a b", js "c\\d"].map uciQuote)) = [js "a b", js "c\\d"] ↔
        ∀ v ∈ [js "a b", js "c\\d"], 39 ∉ v) :=
  ⟨by decide, tokenize_undoes_quote [js "a b", js "c\\d"] (by decide)⟩

/-- `a'b` comes back as two values. -/
theorem quote_splits :
    tokenizeUciValues (join [32] ([js "a'b"].map uciQuote)) = [js "a", js "\\''b'"] ∧
      tokenizeUciValues (join [32] ([js "a'b"].map uciQuote)) ≠ [js "a'b"] := by
  have hmatches : uciMatches (js "'a'\\''b'") = [js "'a'", js "\\''b'"] := by
    have hfirst := uciMatches_quoted (v := js "a") (by decide) (js "\\''b'")
    have hrest : uciMatches (js "\\''b'") = [js "\\''b'"] := by
      refine (uciMatches_backslash (js "''b'")).trans ?_
      rw [show (js "''b'").dropWhile (!isSpace ·) = [] by decide, uciMatches]
      decide
    rw [hrest] at hfirst
    exact hfirst
  have htokens : tokenizeUciValues (join [32] ([js "a'b"].map uciQuote)) = [js "a", js "\\''b'"] := by
    rw [show join [32] ([js "a'b"].map uciQuote) = js "'a'\\''b'" by decide, tokenizeUciValues, hmatches]
    decide
  rw [htokens]
  exact ⟨rfl, by decide⟩

end BoredManager.OpenWrt
