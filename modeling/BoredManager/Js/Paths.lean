import BoredManager.Js.Utf8

/-! Paths with forward slashes: their segments, `path.resolve`, and what the Unicode
functions on names do not touch. -/
namespace BoredManager.Js

/-- `path.split('/')`. -/
def segments (path : Text) : List Text := path.splitOn 47

/-- `segments.join('/')`. -/
def joinPath (names : List Text) : Text := join [47] names

/-- One segment in the path that is built so far. -/
def normalizeSegment (stack : List Text) (segment : Text) : List Text :=
  if segment = [] ∨ segment = js "." then stack
  else if segment = js ".." then stack.dropLast
  else stack ++ [segment]

/-- `resolve(...paths)`: from the last absolute path on, or from the working directory. -/
def resolve (cwd : Text) (paths : List Text) : Text :=
  let full := paths.foldl (fun acc path => if path.head? = some 47 then path else acc ++ 47 :: path) cwd
  47 :: joinPath ((segments full).foldl normalizeSegment [])

/-- A name that a path can have between slashes. -/
structure PlainName (name : Text) : Prop where
  nonempty : name ≠ []
  dot : name ≠ js "."
  dots : name ≠ js ".."
  slash : 47 ∉ name

/-- A normalized absolute path that is not the root. -/
def IsAbsolute (path : Text) : Prop :=
  ∃ names : List Text, names ≠ [] ∧ (∀ name ∈ names, PlainName name) ∧ path = 47 :: joinPath names

/-- The functions that know the Unicode tables: `normalize('NFC')` and
`toLocaleLowerCase('en-US')`. -/
structure Unicode where
  nfc : Text → Text
  toLocaleLowerCase : Text → Text

/-- No character composes with a slash or decomposes to one, to a dot, a backslash or NUL,
and the case of a letter does not depend on what is behind a slash. -/
structure Unicode.Laws (u : Unicode) : Prop where
  nfc_slash : ∀ a b, u.nfc (a ++ 47 :: b) = u.nfc a ++ 47 :: u.nfc b
  nfc_mem : ∀ a, ∀ c ∈ u.nfc a, c = 0 ∨ c = 47 ∨ c = 92 → c ∈ a
  nfc_dots : ∀ a, u.nfc a ∈ [[], js ".", js ".."] → u.nfc a = a
  nfc_scalars : ∀ a, Scalars a → Scalars (u.nfc a)
  lower_slash : ∀ a b, u.toLocaleLowerCase (a ++ 47 :: b) =
    u.toLocaleLowerCase a ++ 47 :: u.toLocaleLowerCase b

theorem joinPath_cons {name : Text} {names : List Text} (h : names ≠ []) :
    joinPath (name :: names) = name ++ 47 :: joinPath names := by
  cases names with
  | nil => exact absurd rfl h
  | cons next names => simp [joinPath, join, List.intercalate, List.intersperse]

@[simp] theorem joinPath_singleton (name : Text) : joinPath [name] = name := by
  simp [joinPath, join, List.intercalate, List.intersperse]

theorem segments_ne_nil (path : Text) : segments path ≠ [] := List.splitOn_ne_nil 47 path

theorem joinPath_segments (path : Text) : joinPath (segments path) = path :=
  List.intercalate_splitOn 47

theorem segments_joinPath {names : List Text} (hslash : ∀ name ∈ names, 47 ∉ name)
    (hne : names ≠ []) : segments (joinPath names) = names :=
  List.splitOn_intercalate 47 hslash hne

theorem slash_not_mem_segment {path name : Text} (h : name ∈ segments path) : 47 ∉ name := by
  rw [segments, List.splitOn_eq_splitOnP] at h
  exact fun hmem => by simpa using (not_mem_of_mem_splitOnP h hmem).2

/-- A path without lone surrogates has none in its segments. -/
theorem scalars_segment {path : Text} (h : Scalars path) :
    ∀ name ∈ segments path, Scalars name := by
  have hcons : ∀ {u : Nat} {s : Text} (f : Text → Text), u ≠ 47 →
      segments (u :: s) = (segments s).modifyHead (u :: ·) := by
    intro u s f hu
    rw [segments, List.splitOn_cons_eq_if_modifyHead, if_neg (by simpa using hu)]
    rfl
  induction h with
  | nil => simp [segments, Scalars.nil]
  | @unit u s range rest ih =>
    intro name hname
    rw [segments, List.splitOn_cons_eq_if_modifyHead] at hname
    split at hname
    · rcases List.mem_cons.mp hname with rfl | hname
      · exact .nil
      · exact ih name hname
    · cases hs : s.splitOn 47 with
      | nil => exact absurd hs (List.splitOn_ne_nil 47 s)
      | cons head tail =>
        rw [hs, List.modifyHead_cons] at hname
        rcases List.mem_cons.mp hname with rfl | hname
        · exact .unit range (ih head (by rw [segments, hs]; exact List.mem_cons_self))
        · exact ih name (by rw [segments, hs]; exact List.mem_cons_of_mem _ hname)
  | @pair u v s high low rest ih =>
    intro name hname
    rw [segments, List.splitOn_cons_eq_if_modifyHead, if_neg (by simp; omega),
      List.splitOn_cons_eq_if_modifyHead, if_neg (by simp; omega)] at hname
    cases hs : s.splitOn 47 with
    | nil => exact absurd hs (List.splitOn_ne_nil 47 s)
    | cons head tail =>
      rw [hs, List.modifyHead_cons, List.modifyHead_cons] at hname
      rcases List.mem_cons.mp hname with rfl | hname
      · exact .pair high low (ih head (by rw [segments, hs]; exact List.mem_cons_self))
      · exact ih name (by rw [segments, hs]; exact List.mem_cons_of_mem _ hname)

theorem foldl_normalizeSegment {names : List Text} (h : ∀ name ∈ names, PlainName name)
    (stack : List Text) : names.foldl normalizeSegment stack = stack ++ names := by
  induction names generalizing stack with
  | nil => simp
  | cons name names ih =>
    have hname := h name List.mem_cons_self
    have hstep : normalizeSegment stack name = stack ++ [name] := by
      simp [normalizeSegment, hname.nonempty, hname.dot, hname.dots]
    rw [List.foldl_cons, hstep, ih fun n hn => h n (List.mem_cons_of_mem _ hn)]
    simp

theorem cons_joinPath {names : List Text} (h : names ≠ []) :
    47 :: joinPath names = names.flatMap (47 :: ·) := by
  induction names with
  | nil => exact absurd rfl h
  | cons name names ih =>
    by_cases hnames : names = []
    · subst hnames
      simp
    · rw [joinPath_cons hnames, List.flatMap_cons, ← ih hnames, List.cons_append]

theorem foldl_resolve {names : List Text} (h : ∀ name ∈ names, PlainName name) (acc : Text) :
    names.foldl (fun acc path => if path.head? = some 47 then path else acc ++ 47 :: path) acc =
      acc ++ names.flatMap (47 :: ·) := by
  induction names generalizing acc with
  | nil => simp
  | cons name names ih =>
    have hhead : name.head? ≠ some 47 := fun hmem =>
      (h name List.mem_cons_self).slash (List.mem_of_mem_head? hmem)
    rw [List.foldl_cons, if_neg hhead, ih fun n hn => h n (List.mem_cons_of_mem _ hn),
      List.flatMap_cons, List.append_assoc]

theorem segments_flatMap {names : List Text} (h : ∀ name ∈ names, PlainName name) :
    segments (names.flatMap (47 :: ·)) = [] :: names := by
  by_cases hne : names = []
  · subst hne
    rfl
  · have hsplit : segments ([] ++ 47 :: joinPath names) = segments [] ++ segments (joinPath names) :=
      List.splitOn_append_cons_self _ _
    rw [segments_joinPath (fun name hname => (h name hname).slash) hne, List.nil_append,
      cons_joinPath hne] at hsplit
    exact hsplit

/-- Plain names are added to a normalized absolute path. -/
theorem resolve_absolute (cwd : Text) {above names : List Text}
    (habove : ∀ name ∈ above, PlainName name) (h : ∀ name ∈ names, PlainName name) :
    resolve cwd ((47 :: joinPath above) :: names) = 47 :: joinPath (above ++ names) := by
  have hall : ∀ name ∈ above ++ names, PlainName name := fun name hname =>
    (List.mem_append.mp hname).elim (habove name) (h name)
  have hfold : (segments ((47 :: joinPath above) ++ names.flatMap (47 :: ·))).foldl
      normalizeSegment [] = above ++ names := by
    by_cases hne : above = []
    · subst hne
      have hsplit : segments ([] ++ 47 :: names.flatMap (47 :: ·)) =
          segments [] ++ segments (names.flatMap (47 :: ·)) := List.splitOn_append_cons_self _ _
      have hroot : (47 :: joinPath []) ++ names.flatMap (47 :: ·) =
          [] ++ 47 :: names.flatMap (47 :: ·) := rfl
      rw [hroot, hsplit, segments_flatMap h]
      exact foldl_normalizeSegment h []
    · rw [cons_joinPath hne, ← List.flatMap_append, segments_flatMap hall]
      exact foldl_normalizeSegment hall []
  unfold resolve
  rw [List.foldl_cons, if_pos (by rfl), foldl_resolve h]
  dsimp only
  rw [hfold]

/-- Plain names below a normalized absolute path stay below it. -/
theorem resolve_below (cwd : Text) {root : Text} (hroot : IsAbsolute root) {names : List Text}
    (hne : names ≠ []) (h : ∀ name ∈ names, PlainName name) :
    resolve cwd (root :: names) = root ++ 47 :: joinPath names := by
  obtain ⟨above, habove, hplain, rfl⟩ := hroot
  have hne' : above ++ names ≠ [] := fun heq => habove (List.append_eq_nil_iff.mp heq).1
  rw [resolve_absolute cwd hplain h, cons_joinPath hne', List.flatMap_append, cons_joinPath habove,
    cons_joinPath hne]

/-- Normalizing keeps plain names, and adds no others. -/
theorem plain_foldl_normalizeSegment {l stack : List Text} (hl : ∀ name ∈ l, 47 ∉ name)
    (hstack : ∀ name ∈ stack, PlainName name) :
    ∀ name ∈ l.foldl normalizeSegment stack, PlainName name := by
  induction l generalizing stack with
  | nil => exact hstack
  | cons segment l ih =>
    refine ih (fun n hn => hl n (List.mem_cons_of_mem _ hn)) fun name hname => ?_
    unfold normalizeSegment at hname
    split at hname
    · exact hstack name hname
    · rename_i hsome
      split at hname
      · exact hstack name (List.dropLast_subset _ hname)
      · rename_i hdots
        obtain hname | hname := List.mem_append.mp hname
        · exact hstack name hname
        · obtain rfl := List.mem_singleton.mp hname
          exact ⟨fun h => hsome (.inl h), fun h => hsome (.inr h), hdots, hl _ List.mem_cons_self⟩

/-- What `resolve` gives is absolute and normalized. -/
theorem resolve_plain (cwd : Text) (paths : List Text) :
    ∃ names : List Text, (∀ name ∈ names, PlainName name) ∧
      resolve cwd paths = 47 :: joinPath names :=
  ⟨_, plain_foldl_normalizeSegment (fun _ hname => slash_not_mem_segment hname) (by simp), rfl⟩

end BoredManager.Js
