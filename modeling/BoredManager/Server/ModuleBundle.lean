import BoredManager.Server.ModuleCompiler
import Mathlib.Data.List.Induction

/-! A module's bundle has only its own files and shared code, exactly where neither folder has a
namesake among the files beside it. -/
namespace BoredManager.Server.Compiler
open BoredManager.Js

variable {root path s : Text} {names rest : List Text} {tree : FileTree}

/-! ### Paths -/

/-- A normalized absolute path. -/
def absolute (names : List Text) : Text := 47 :: joinPath names

theorem segments_append (a c : Text) : segments (a ++ 47 :: c) = segments a ++ segments c :=
  List.splitOn_append_cons_self a c

theorem pathNames_append (a c : Text) :
    pathNames (a ++ 47 :: c) = (segments c).foldl normalizeSegment (pathNames a) := by
  rw [pathNames, segments_append, List.foldl_append]
  rfl

theorem plain_pathNames (path : Text) : ∀ name ∈ pathNames path, PlainName name :=
  plain_foldl_normalizeSegment (fun _ hname => slash_not_mem_segment hname) (by simp)

theorem foldl_segments_joinPath (h : ∀ name ∈ names, PlainName name) (stack : List Text) :
    (segments (joinPath names)).foldl normalizeSegment stack = stack ++ names := by
  by_cases hne : names = []
  · rw [hne]
    exact (List.append_nil stack).symm
  · rw [segments_joinPath (fun name hname => (h name hname).slash) hne]
    exact foldl_normalizeSegment h stack

theorem pathNames_absolute (h : ∀ name ∈ names, PlainName name) : pathNames (absolute names) = names :=
  (pathNames_append [] (joinPath names)).trans (foldl_segments_joinPath h [])

/-- A slash at the end adds no name. -/
theorem pathNames_slash (path : Text) : pathNames (path ++ [47]) = pathNames path :=
  pathNames_append path []

theorem absolute_append {above : List Text} (habove : above ≠ []) (hrest : rest ≠ []) :
    absolute (above ++ rest) = absolute above ++ 47 :: joinPath rest := by
  have hne : above ++ rest ≠ [] := fun h => habove (List.append_eq_nil_iff.mp h).1
  rw [absolute, absolute, cons_joinPath hne, cons_joinPath habove, cons_joinPath hrest, List.flatMap_append]

theorem isAbsolute_iff : IsAbsolute path ↔
    ∃ names, names ≠ [] ∧ (∀ name ∈ names, PlainName name) ∧ path = absolute names := Iff.rfl

theorem segments_absolute (hne : names ≠ []) (h : ∀ name ∈ names, PlainName name) :
    segments (absolute names) = [] :: names := by
  have := segments_append [] (joinPath names)
  rw [segments_joinPath (fun name hname => (h name hname).slash) hne] at this
  exact this

/-- What stands behind a slash of a normalized path are names of it. -/
theorem plain_segments (hpath : IsAbsolute path) (h : path = root ++ 47 :: s) :
    ∀ name ∈ segments s, PlainName name := by
  obtain ⟨names, hne, hplain, hnames⟩ := hpath
  have hsegments := segments_append root s
  rw [← h, hnames] at hsegments
  have hcut := (segments_absolute hne hplain).symm.trans hsegments
  cases hroot : segments root with
  | nil => exact absurd hroot (segments_ne_nil root)
  | cons first above =>
    rw [hroot, List.cons_append] at hcut
    have htail : names = above ++ segments s := (List.cons.inj hcut).2
    exact fun name hname => hplain name (htail ▸ List.mem_append_right above hname)

/-- A normalized path that goes on behind a folder's slash lies in the folder. -/
theorem below_of_append (hpath : IsAbsolute path) (h : path = root ++ 47 :: s) : Below root path :=
  ⟨segments s, segments_ne_nil s, plain_segments hpath h, by rw [joinPath_segments, h]⟩

theorem Below.append (h : Below root path) : ∃ s, path = root ++ 47 :: s := by
  obtain ⟨names, -, -, rfl⟩ := h
  exact ⟨_, rfl⟩

/-- A text without a slash behind a folder's path does not lead into any folder beside it. -/
theorem not_below_append {other ext : Text} (hother : IsAbsolute other) (hbeside : ¬Below root other)
    (hext : 47 ∉ ext) : ¬Below root (other ++ ext) := by
  intro h
  obtain ⟨s, hs⟩ := h.append
  obtain ⟨t, -, hslash⟩ | ⟨t, hinside, hslash⟩ := List.append_eq_append_iff.mp hs
  · exact hext (hslash ▸ List.mem_append_right t List.mem_cons_self)
  · cases t with
    | nil =>
      rw [List.nil_append] at hslash
      exact hext (hslash ▸ List.mem_cons_self)
    | cons u t =>
      injection hslash with hu _
      exact hbeside (below_of_append hother (hu ▸ hinside))

/-! ### Containment -/

theorem eq_append_of_commonLength {a c : List Text} (h : a.length ≤ commonLength a c) : ∃ rest, c = a ++ rest := by
  induction a generalizing c with
  | nil => exact ⟨c, rfl⟩
  | cons x a ih =>
    cases c with
    | nil => exact absurd h (Nat.not_succ_le_zero _)
    | cons y c =>
      rw [commonLength, List.length_cons] at h
      split at h
      · rename_i hxy
        obtain ⟨rest, hrest⟩ := ih (Nat.le_of_succ_le_succ h)
        exact ⟨rest, by rw [hrest, hxy, List.cons_append]⟩
      · exact absurd h (Nat.not_succ_le_zero _)

/-- What `resolve` and `join` give: a normalized path, a slash at its end perhaps. -/
def Normalized (names : List Text) (target : Text) : Prop :=
  (∀ name ∈ names, PlainName name) ∧ (target = absolute names ∨ target = absolute names ++ [47])

theorem normalized_resolve (cwd : Text) (paths : List Text) :
    ∃ names, Normalized names (resolve cwd paths) ∧ resolve cwd paths = absolute names := by
  obtain ⟨names, hplain, h⟩ := resolve_plain cwd paths
  exact ⟨names, ⟨hplain, .inl h⟩, h⟩

theorem normalized_joinBelow (base rest : Text) :
    Normalized (pathNames (base ++ 47 :: rest)) (joinBelow base rest) := by
  refine ⟨plain_pathNames _, ?_⟩
  rw [joinBelow]
  split
  · exact .inr rfl
  · exact .inl (List.append_nil _)

theorem Normalized.pathNames_eq {target : Text} (h : Normalized names target) : pathNames target = names := by
  obtain ⟨hplain, rfl | rfl⟩ := h
  · exact pathNames_absolute hplain
  · exact (pathNames_slash _).trans (pathNames_absolute hplain)

theorem Normalized.head {target : Text} (h : Normalized names target) : target.head? = some 47 := by
  obtain ⟨-, rfl | rfl⟩ := h <;> rfl

theorem resolve_one (cwd : Text) (h : path.head? = some 47) : resolve cwd [path] = absolute (pathNames path) := by
  rw [resolve, List.foldl_cons, if_pos h, List.foldl_nil]
  rfl

theorem dots_of_joinPath (names : List Text) : (js "..").isPrefixOf (joinPath (js ".." :: names)) = true := by
  cases names with
  | nil => rfl
  | cons name names =>
    rw [joinPath_cons (List.cons_ne_nil name names)]
    rfl

theorem commonLength_append (a c : List Text) : commonLength a (a ++ c) = a.length := by
  induction a with
  | nil => cases c <;> rfl
  | cons x a ih => rw [List.cons_append, commonLength, if_pos rfl, ih, List.length_cons]

/-- The first name does not begin with two dots. -/
def Visible (names : List Text) : Prop := ∀ name ∈ names.head?, (js "..").isPrefixOf name = false

theorem visible_nil : Visible [] := fun _ h => (by cases h)

theorem Visible.of_isPrefix {names : List Text} (h : Visible rest) (hle : names <+: rest) : Visible names := by
  obtain ⟨more, rfl⟩ := hle
  cases names with
  | nil => exact visible_nil
  | cons name names => exact h

theorem visible_iff (hplain : ∀ name ∈ rest, PlainName name) (hne : rest ≠ []) :
    Visible rest ↔ (js "..").isPrefixOf (joinPath rest) = false := by
  cases rest with
  | nil => exact absurd rfl hne
  | cons name rest =>
    have hfirst : Visible (name :: rest) ↔ (js "..").isPrefixOf name = false := by simp [Visible]
    rw [hfirst]
    by_cases hrest : rest = []
    · rw [hrest, joinPath_singleton]
    · rw [joinPath_cons hrest]
      cases name with
      | nil => exact absurd rfl (hplain [] List.mem_cons_self).nonempty
      | cons u name =>
        cases name with
        | nil => simp [js, units, List.isPrefixOf]
        | cons v name => simp [js, units, List.isPrefixOf]

theorem head_joinPath (hplain : ∀ name ∈ rest, PlainName name) (hne : rest ≠ []) :
    ∃ u more, joinPath rest = u :: more ∧ u ≠ 47 := by
  cases rest with
  | nil => exact absurd rfl hne
  | cons name rest =>
    have hname := hplain name List.mem_cons_self
    cases name with
    | nil => exact absurd rfl hname.nonempty
    | cons u name =>
      have hu : u ≠ 47 := fun h => hname.slash (h ▸ List.mem_cons_self)
      by_cases hrest : rest = []
      · exact ⟨u, name, by rw [hrest, joinPath_singleton], hu⟩
      · exact ⟨u, name ++ 47 :: joinPath rest, by rw [joinPath_cons hrest, List.cons_append], hu⟩

/-- A target passes if it is the folder itself, or has visible names of its own behind the folder's. -/
theorem isWithin_iff {cwd target : Text} {above : List Text} (habove : ∀ name ∈ above, PlainName name)
    (htarget : Normalized names target) : isWithin cwd (absolute above) target = true ↔
      target = absolute above ∨ ∃ rest, rest ≠ [] ∧ names = above ++ rest ∧ Visible rest := by
  have hrel : relative cwd (absolute above) target =
      joinPath (List.replicate (above.length - commonLength above names) (js "..") ++
        names.drop (commonLength above names)) := by
    rw [relative, resolve_one cwd (by rfl), resolve_one cwd htarget.head, htarget.pathNames_eq,
      pathNames_absolute habove, pathNames_absolute habove, pathNames_absolute htarget.1]
  rw [isWithin]
  split
  · rename_i heq
    exact iff_of_true rfl (.inl heq)
  · rename_i hne
    rw [or_iff_right hne]
    simp only [Bool.and_eq_true, Bool.not_eq_true', decide_eq_true_eq, hrel]
    constructor
    · rintro ⟨⟨hrel, hdots⟩, -⟩
      cases hback : above.length - commonLength above names with
      | succ n =>
        rw [hback, List.replicate_succ, List.cons_append, dots_of_joinPath] at hdots
        cases hdots
      | zero =>
        obtain ⟨rest, rfl⟩ := eq_append_of_commonLength (Nat.le_of_sub_eq_zero hback)
        rw [commonLength_append, Nat.sub_self, List.drop_left, List.replicate_zero, List.nil_append] at hrel hdots
        have hrest : rest ≠ [] := fun h => hrel (h ▸ rfl)
        refine ⟨rest, hrest, rfl, (visible_iff (fun name hname => ?_) hrest).mpr hdots⟩
        exact htarget.1 name (List.mem_append_right above hname)
    · rintro ⟨rest, hrest, rfl, hvisible⟩
      have hplain : ∀ name ∈ rest, PlainName name := fun name hname =>
        htarget.1 name (List.mem_append_right above hname)
      rw [commonLength_append, Nat.sub_self, List.drop_left, List.replicate_zero, List.nil_append]
      obtain ⟨u, more, hjoin, hu⟩ := head_joinPath hplain hrest
      refine ⟨⟨?_, (visible_iff hplain hrest).mp hvisible⟩, ?_⟩
      · rw [hjoin]
        exact List.cons_ne_nil u more
      · rw [hjoin, List.head?_cons]
        exact fun h => hu (Option.some_inj.mp h)

theorem plain_index : ∀ ext ∈ INDEX_EXTENSIONS, PlainName (js "index" ++ ext) ∧
    (js "index" ++ ext).getLast? ≠ some 47 := by
  have hall : ∀ ext ∈ INDEX_EXTENSIONS, (js "index" ++ ext ≠ [] ∧ js "index" ++ ext ≠ js "." ∧
      js "index" ++ ext ≠ js ".." ∧ 47 ∉ js "index" ++ ext) ∧ (js "index" ++ ext).getLast? ≠ some 47 := by
    decide
  intro ext hext
  obtain ⟨⟨hne, hdot, hdots, hslash⟩, hlast⟩ := hall ext hext
  exact ⟨⟨hne, hdot, hdots, hslash⟩, hlast⟩

theorem joinBelow_plain {target name : Text} (htarget : Normalized names target) (hname : PlainName name)
    (hlast : name.getLast? ≠ some 47) : joinBelow target name = absolute (names ++ [name]) := by
  have hnames : pathNames (target ++ 47 :: name) = names ++ [name] := by
    rw [pathNames_append, htarget.pathNames_eq]
    have hfold : (segments (joinPath [name])).foldl normalizeSegment names = names ++ [name] :=
      foldl_segments_joinPath (List.forall_mem_singleton.mpr hname) names
    rwa [joinPath_singleton] at hfold
  have hend : (target ++ 47 :: name).getLast? = name.getLast? := by
    cases name with
    | nil => exact absurd rfl hname.nonempty
    | cons u name =>
      rw [List.getLast?_append, List.getLast?_cons_cons, List.getLast?_cons]
      rfl
  rw [joinBelow, hnames, if_neg fun h => hlast (hend.symm.trans h.2), List.append_nil]
  rfl

theorem segments_of_no_slash (h : 47 ∉ s) : segments s = [s] := List.splitOn_eq_singleton h

/-- An extension changes only the last name. -/
theorem dropLast_segments_append {ext : Text} (h : 47 ∉ ext) (s : Text) :
    (segments (s ++ ext)).dropLast = (segments s).dropLast := by
  have hlast : segments s = (segments s).dropLast ++ [(segments s).getLast (segments_ne_nil s)] :=
    (List.dropLast_append_getLast _).symm
  have hslash := slash_not_mem_segment (List.getLast_mem (segments_ne_nil s))
  generalize (segments s).getLast (segments_ne_nil s) = last at hlast hslash
  have hlong : 47 ∉ last ++ ext := fun hmem => (List.mem_append.mp hmem).elim hslash h
  by_cases hinit : (segments s).dropLast = []
  · rw [hinit, List.nil_append] at hlast
    have hs : s = last := by rw [← joinPath_segments s, hlast, joinPath_singleton]
    rw [hinit, hs, segments_of_no_slash hlong]
    rfl
  · have hs : s = joinPath (segments s).dropLast ++ 47 :: last := by
      have hjoin := absolute_append hinit (List.cons_ne_nil last [])
      rw [← hlast, joinPath_singleton] at hjoin
      rw [absolute, absolute, joinPath_segments, List.cons_append] at hjoin
      exact (List.cons.inj hjoin).2
    have hcut : segments (s ++ ext) = segments (joinPath (segments s).dropLast) ++ segments (last ++ ext) := by
      rw [← segments_append]
      exact congrArg (segments <| · ++ ext) hs |>.trans (by rw [List.append_assoc, List.cons_append])
    rw [hcut, segments_of_no_slash hlong, List.dropLast_concat,
      segments_joinPath (fun name hname => slash_not_mem_segment (List.dropLast_subset _ hname)) hinit]

theorem slash_not_mem_extension : ∀ ext ∈ FILE_EXTENSIONS, 47 ∉ ext := by decide

/-- Strictly inside a folder, in one from which the folder is recognized. -/
def Inside (above : List Text) (path : Text) : Prop :=
  ∃ own : List Text, own ≠ [] ∧ (∀ name ∈ own, PlainName name) ∧ path = absolute (above ++ own) ∧
    Visible own.dropLast

theorem Inside.below {above : List Text} (hne : above ≠ []) (h : Inside above path) :
    Below (absolute above) path := by
  obtain ⟨own, hown, hplain, rfl, -⟩ := h
  exact ⟨own, hown, hplain, absolute_append hne hown⟩

theorem dirname_absolute (hplain : ∀ name ∈ names, PlainName name) (hne : names ≠ []) :
    dirname (absolute names) = absolute names.dropLast := by
  rw [dirname, segments_absolute hne hplain, List.dropLast_cons_of_ne_nil hne]
  by_cases hlast : names.dropLast = []
  · rw [hlast]
    rfl
  · rw [joinPath_cons hlast, if_neg (by simp)]
    rfl

theorem Inside.isWithin_dirname {above : List Text} (habove : ∀ name ∈ above, PlainName name)
    (h : Inside above path) (cwd : Text) : isWithin cwd (absolute above) (dirname path) = true := by
  obtain ⟨own, hown, hplain, rfl, hvisible⟩ := h
  have hall : ∀ name ∈ above ++ own, PlainName name := fun name hname =>
    (List.mem_append.mp hname).elim (habove name) (hplain name)
  have hne : above ++ own ≠ [] := fun heq => hown (List.append_eq_nil_iff.mp heq).2
  rw [dirname_absolute hall hne, List.dropLast_append_of_ne_nil hown]
  have hnormalized : Normalized (above ++ own.dropLast) (absolute (above ++ own.dropLast)) := by
    refine ⟨fun name hname => hall name ?_, .inl rfl⟩
    exact (List.mem_append.mp hname).elim (List.mem_append_left _)
      fun hname => List.mem_append_right _ (List.dropLast_subset _ hname)
  rw [isWithin_iff habove hnormalized]
  by_cases hlast : own.dropLast = []
  · rw [hlast, List.append_nil]
    exact .inl rfl
  · exact .inr ⟨_, hlast, rfl, hvisible⟩

/-- The files that are found for a target: its own extension or index, behind the folder's slash. -/
theorem own_of_resolved {target : Text} {above rest : List Text} (hne : above ≠ [])
    (htarget : Normalized (above ++ rest) target)
    (hroot : rest = [] → target = absolute above ∧ NoNamesake tree (absolute above))
    (h : resolveWithExtensions tree target = some path) :
    ∃ own, own ≠ [] ∧ (∀ name ∈ own, PlainName name) ∧ path = absolute (above ++ own) ∧
      own.dropLast <+: rest := by
  rw [resolveWithExtensions] at h
  have hfile : tree.isFile path = true := List.find?_some h
  have hfile : path ∈ tree.files := of_decide_eq_true hfile
  have hequal : ∀ {own kept : List Text}, own = kept → own <+: kept := fun heq =>
    heq ▸ List.prefix_refl _
  have hown : ∀ {s : Text}, path = absolute above ++ 47 :: s → (segments s).dropLast <+: rest →
      ∃ own, own ≠ [] ∧ (∀ name ∈ own, PlainName name) ∧ path = absolute (above ++ own) ∧
        own.dropLast <+: rest := by
    intro s hpath hle
    refine ⟨segments s, segments_ne_nil s, plain_segments (tree.absolute path hfile) hpath, ?_, hle⟩
    rw [absolute_append hne (segments_ne_nil s), joinPath_segments, hpath]
  obtain hmem | hmem := List.mem_append.mp (List.mem_of_find?_eq_some h)
  · obtain ⟨ext, hext, hpath⟩ := List.mem_map.mp hmem
    have hslash := slash_not_mem_extension ext hext
    by_cases hrest : rest = []
    · obtain ⟨heq, hnamesake⟩ := hroot hrest
      rw [heq] at hpath
      exact absurd hfile (hpath ▸ hnamesake ext hext)
    · have hjoin : segments (joinPath rest) = rest :=
        segments_joinPath (fun name hname => (htarget.1 name (List.mem_append_right _ hname)).slash) hrest
      obtain ⟨-, heq | heq⟩ := htarget
      · rw [heq, absolute_append hne hrest, List.append_assoc, List.cons_append] at hpath
        refine hown hpath.symm ?_
        rw [dropLast_segments_append hslash, hjoin]
        exact List.dropLast_prefix rest
      · rw [heq, absolute_append hne hrest] at hpath
        simp only [List.append_assoc, List.cons_append, List.nil_append] at hpath
        refine hown hpath.symm (hequal ?_)
        rw [segments_append, hjoin, segments_of_no_slash hslash, List.dropLast_concat]
  · obtain ⟨ext, hext, hpath⟩ := List.mem_map.mp hmem
    obtain ⟨hname, hlast⟩ := plain_index ext hext
    rw [joinBelow_plain htarget hname hlast, List.append_assoc] at hpath
    refine ⟨rest ++ [js "index" ++ ext], by simp, fun name hmem => ?_, hpath.symm, ?_⟩
    · obtain hmem | hmem := List.mem_append.mp hmem
      · exact htarget.1 name (List.mem_append_right _ hmem)
      · exact List.mem_singleton.mp hmem ▸ hname
    · exact hequal List.dropLast_concat

/-- A file that is found for a target within a folder lies inside it, a namesake of the folder apart. -/
theorem inside_of_resolved {cwd target : Text} {above : List Text} (hne : above ≠ [])
    (habove : ∀ name ∈ above, PlainName name) (htarget : Normalized names target)
    (hwithin : isWithin cwd (absolute above) target = true) (hnamesake : NoNamesake tree (absolute above))
    (h : resolveWithExtensions tree target = some path) : Inside above path := by
  obtain heq | ⟨rest, hrest, rfl, hvisible⟩ := (isWithin_iff habove htarget).mp hwithin
  · have hnames : names = above ++ [] := by
      rw [List.append_nil, ← htarget.pathNames_eq, heq, pathNames_absolute habove]
    obtain ⟨own, hown, hplain, hpath, hle⟩ := own_of_resolved hne (hnames ▸ htarget) (fun _ => ⟨heq, hnamesake⟩) h
    exact ⟨own, hown, hplain, hpath, visible_nil.of_isPrefix hle⟩
  · obtain ⟨own, hown, hplain, hpath, hle⟩ := own_of_resolved hne htarget (fun h => absurd h hrest) h
    exact ⟨own, hown, hplain, hpath, hvisible.of_isPrefix hle⟩

/-! ### Imports -/

variable {b : Build} {file specifier entry first : Text}

theorem orElseDeny_eq_ok {resolved : Option Text} {text : Text} (h : orElseDeny resolved text = .ok path) :
    resolved = some path := by
  cases resolved with
  | none => cases h
  | some other =>
    cases h
    rfl

theorem normalized_sharedTarget (hshared : IsAbsolute b.sharedRoot) (p : Text) :
    ∃ names, Normalized names (b.sharedTarget p) := by
  obtain ⟨names, -, hplain, hroot⟩ := hshared
  have hall : ∀ rest : Text, ∃ names, Normalized names
      (if rest ≠ [] then joinBelow b.sharedRoot rest else b.sharedRoot) := by
    intro rest
    split
    · exact ⟨_, normalized_joinBelow _ _⟩
    · exact ⟨names, hplain, .inl hroot⟩
  exact hall _

/-- An accepted import: of `shared/`, or of the zone of its file. -/
theorem imported_cases (hshared : IsAbsolute b.sharedRoot) (h : b.imported file specifier = .ok path) :
    ∃ root target names, Normalized names target ∧ isWithin b.cwd root target = true ∧
      resolveWithExtensions b.tree target = some path ∧
      ((specifier = js "@shared" ∨ js "@shared/" <+: specifier) ∧ root = b.sharedRoot ∨
        (js "./" <+: specifier ∨ js "../" <+: specifier) ∧ root = b.zoneRoot (dirname file)) := by
  rw [Build.imported, Build.onResolve, if_neg ImportKind.noConfusion] at h
  split at h
  · rename_i hspecifier
    obtain ⟨names, htarget⟩ := normalized_sharedTarget hshared specifier
    split at h
    · cases h
    · rename_i hwithin
      exact ⟨_, _, names, htarget, eq_true_of_ne_false hwithin, orElseDeny_eq_ok h, .inl ⟨hspecifier, rfl⟩⟩
  · split at h
    · rename_i hspecifier
      obtain ⟨names, htarget, -⟩ := normalized_resolve b.cwd [dirname file, specifier]
      by_cases hwithin : isWithin b.cwd (b.zoneRoot (dirname file)) (resolve b.cwd [dirname file, specifier]) = false
      · cases (if_pos hwithin).symm.trans h
      · exact ⟨_, _, names, htarget, eq_true_of_ne_false hwithin,
          orElseDeny_eq_ok ((if_neg hwithin).symm.trans h), .inr ⟨hspecifier, rfl⟩⟩
    · cases h

theorem plain_of_badRelativePath (h : badRelativePath entry = false) :
    ∀ name ∈ segments entry, PlainName name := by
  rw [badRelativePath] at h
  split at h
  · cases h
  · intro name hname
    have hgood := List.any_eq_false.mp h name hname
    simp only [decide_eq_true_eq, not_or] at hgood
    exact ⟨hgood.1, hgood.2.1, hgood.2.2, slash_not_mem_segment hname⟩

/-- The entry point is a file of the module. -/
theorem below_of_entryPoint (hmodule : IsAbsolute b.moduleRoot) (hentry : badRelativePath entry = false)
    (h : b.entryPoint entry = .ok first) : Below b.moduleRoot first := by
  obtain ⟨above, hne, habove, hroot⟩ := hmodule
  rw [Build.entryPoint] at h
  split at h
  · cases h
  · rw [Build.onResolve, if_pos rfl] at h
    have hnames : pathNames (b.moduleRoot ++ 47 :: entry) = above ++ segments entry := by
      rw [pathNames_append, hroot]
      exact (pathNames_absolute habove).symm ▸ foldl_normalizeSegment (plain_of_badRelativePath hentry) above
    have htarget := normalized_joinBelow b.moduleRoot entry
    rw [hnames] at htarget
    obtain ⟨own, hown, hplain, hpath, -⟩ := own_of_resolved hne htarget
      (fun hnil => absurd hnil (segments_ne_nil entry)) (orElseDeny_eq_ok h)
    exact ⟨own, hown, hplain, by rw [hpath, hroot, absolute_append hne hown]; rfl⟩

/-! ### The bundle -/

theorem absolute_injective {above other : List Text} (habove : ∀ name ∈ above, PlainName name)
    (hother : ∀ name ∈ other, PlainName name) (h : absolute above = absolute other) : above = other := by
  rw [← pathNames_absolute habove, h, pathNames_absolute hother]

/-- No path lies in two folders that stand beside each other. -/
theorem Beside.disjoint {root other : Text} (hroot : IsAbsolute root) (hother : IsAbsolute other)
    (hbeside : Beside root other) (h : Below root path) : ¬Below other path := by
  intro h'
  obtain ⟨above, habove, hplain, rfl⟩ := hroot
  obtain ⟨above', habove', hplain', rfl⟩ := hother
  obtain ⟨own, hown, hownPlain, hpath⟩ := h
  obtain ⟨own', hown', hownPlain', hpath'⟩ := h'
  have hsame : absolute (above ++ own) = absolute (above' ++ own') := by
    rw [absolute_append habove hown, absolute_append habove' hown']
    exact hpath.symm.trans hpath'
  have hnames := absolute_injective
    (fun name hname => (List.mem_append.mp hname).elim (hplain name) (hownPlain name))
    (fun name hname => (List.mem_append.mp hname).elim (hplain' name) (hownPlain' name)) hsame
  obtain ⟨hne, hleft, hright⟩ := hbeside
  obtain ⟨more, heq, -⟩ | ⟨more, heq, -⟩ := List.append_eq_append_iff.mp hnames
  · by_cases hmore : more = []
    · exact hne (by rw [heq, hmore, List.append_nil])
    · refine hleft ⟨more, hmore, fun name hname => hplain' name ?_, ?_⟩
      · exact heq ▸ List.mem_append_right above hname
      · exact heq ▸ absolute_append habove hmore
  · by_cases hmore : more = []
    · exact hne (by rw [heq, hmore, List.append_nil])
    · refine hright ⟨more, hmore, fun name hname => hplain name ?_, ?_⟩
      · exact heq ▸ List.mem_append_right above' hname
      · exact heq ▸ absolute_append habove' hmore

/-- A file of the module, or one of `shared/` whose folder is recognized as such. -/
def Zoned (b : Build) (file : Text) : Prop :=
  Below b.moduleRoot file ∨
    Below b.sharedRoot file ∧ isWithin b.cwd b.sharedRoot (dirname file) = true

/-- An accepted import leads into the zone of its file, or into `shared/`. -/
theorem zoned_of_imported (hmodule : IsAbsolute b.moduleRoot) (hshared : IsAbsolute b.sharedRoot)
    (hnamesake : NoNamesake b.tree b.moduleRoot ∧ NoNamesake b.tree b.sharedRoot)
    (h : b.imported file specifier = .ok path) : Zoned b path ∧
      (isWithin b.cwd b.sharedRoot (dirname file) = true → Below b.sharedRoot path) := by
  obtain ⟨root, target, names, htarget, hwithin, hresolved, hroot⟩ := imported_cases hshared h
  have hinto : root = b.sharedRoot → Below b.sharedRoot path ∧ isWithin b.cwd b.sharedRoot (dirname path) = true := by
    intro heq
    obtain ⟨above, hne, habove, hroot⟩ := isAbsolute_iff.mp hshared
    rw [heq, hroot] at hwithin
    have hinside := inside_of_resolved hne habove htarget hwithin (hroot ▸ hnamesake.2) hresolved
    rw [hroot]
    exact ⟨hinside.below hne, hinside.isWithin_dirname habove b.cwd⟩
  by_cases hzone : root = b.sharedRoot
  · exact ⟨.inr (hinto hzone), fun _ => (hinto hzone).1⟩
  · obtain ⟨-, hroot⟩ | ⟨-, hroot⟩ := hroot
    · exact absurd hroot hzone
    · rw [Build.zoneRoot] at hroot
      split at hroot
      · exact absurd hroot hzone
      · rename_i hfile
        refine ⟨.inl ?_, fun h => absurd h hfile⟩
        obtain ⟨above, hne, habove, hpath⟩ := isAbsolute_iff.mp hmodule
        rw [hroot, hpath] at hwithin
        rw [hpath]
        exact (inside_of_resolved hne habove htarget hwithin (hpath ▸ hnamesake.1) hresolved).below hne

theorem zoned_of_loaded {imports : Text → List Text} (hmodule : IsAbsolute b.moduleRoot)
    (hshared : IsAbsolute b.sharedRoot)
    (hnamesake : NoNamesake b.tree b.moduleRoot ∧ NoNamesake b.tree b.sharedRoot)
    (hfirst : Below b.moduleRoot first) (h : Loaded b imports first file) : Zoned b file := by
  induction h with
  | first => exact .inl hfirst
  | imported _ _ hresolved _ => exact (zoned_of_imported hmodule hshared hnamesake hresolved).1

theorem contained_of_noNamesake {imports : Text → List Text} (hmodule : IsAbsolute b.moduleRoot)
    (hshared : IsAbsolute b.sharedRoot) (hbeside : Beside b.moduleRoot b.sharedRoot)
    (hnamesake : NoNamesake b.tree b.moduleRoot ∧ NoNamesake b.tree b.sharedRoot)
    (hfirst : Below b.moduleRoot first) (h : Compiles b imports entry first) :
    Contained b imports first where
  inside file hfile := (zoned_of_loaded hmodule hshared hnamesake hfirst hfile).imp id (·.1)
  shared file hfile hbelow specifier _ path hpath := by
    obtain hown | ⟨-, hwithin⟩ := zoned_of_loaded hmodule hshared hnamesake hfirst hfile
    · exact absurd hbelow (hbeside.disjoint hmodule hshared hown)
    · exact (zoned_of_imported hmodule hshared hnamesake hpath).2 hwithin
  specifiers file hfile specifier hmem := by
    obtain ⟨path, hpath⟩ := h.imports file hfile specifier hmem
    obtain ⟨_, _, _, _, _, _, hform⟩ := imported_cases hshared hpath
    obtain ⟨hform | hform, -⟩ | ⟨hform | hform, -⟩ := hform
    · exact .inl hform
    · exact .inr (.inl hform)
    · exact .inr (.inr (.inl hform))
    · exact .inr (.inr (.inr hform))

/-! ### The way out -/

/-- One import of the entry point that leads out of both folders. -/
theorem not_contained_of_import (hfirst : b.entryPoint entry = .ok first) (hpath : path ≠ first)
    (himport : b.imported first specifier = .ok path) (hmodule : ¬Below b.moduleRoot path)
    (hshared : ¬Below b.sharedRoot path) :
    ∃ imports, Compiles b imports entry first ∧ ¬Contained b imports first := by
  let imports : Text → List Text := fun file => if file = first then [specifier] else []
  have hloaded : ∀ {file}, Loaded b imports first file → file = first ∨ file = path := by
    intro file h
    induction h with
    | first => exact .inl rfl
    | @imported file other found _ hmem hresolved _ =>
      by_cases hfile : file = first
      · rw [show imports file = [specifier] from if_pos hfile, List.mem_singleton] at hmem
        rw [hmem, hfile, himport] at hresolved
        cases hresolved
        exact .inr rfl
      · rw [show imports file = [] from if_neg hfile] at hmem
        cases hmem
  refine ⟨imports, ⟨hfirst, fun file hfile other hmem => ?_⟩, fun hcontained => ?_⟩
  · obtain heq | heq := hloaded hfile
    · rw [show imports file = [specifier] from if_pos heq, List.mem_singleton] at hmem
      exact ⟨path, by rw [hmem, heq, himport]⟩
    · rw [show imports file = [] from if_neg (heq ▸ hpath)] at hmem
      cases hmem
  · have hmem : specifier ∈ imports first := by
      rw [show imports first = [specifier] from if_pos rfl]
      exact List.mem_singleton_self specifier
    exact (hcontained.inside path (.imported .first hmem himport)).elim hmodule hshared

/-- A folder with a namesake is found as one of them. -/
theorem resolve_namesake (h : ¬NoNamesake tree root) :
    ∃ ext ∈ FILE_EXTENSIONS, resolveWithExtensions tree root = some (root ++ ext) := by
  simp only [NoNamesake, not_forall, not_not] at h
  obtain ⟨ext, hext, hfile⟩ := h
  have hsome : ((FILE_EXTENSIONS.map (root ++ ·)).find? tree.isFile).isSome = true :=
    List.find?_isSome.mpr ⟨root ++ ext, List.mem_map_of_mem hext, decide_eq_true hfile⟩
  obtain ⟨found, hfound⟩ := Option.isSome_iff_exists.mp hsome
  obtain ⟨other, hother, hpath⟩ := List.mem_map.mp (List.mem_of_find?_eq_some hfound)
  refine ⟨other, hother, ?_⟩
  rw [resolveWithExtensions, List.find?_append, hfound, hpath]
  rfl

/-- `../` so many times. -/
def ups : Nat → Text
  | 0 => []
  | n + 1 => js ".." ++ 47 :: ups n

/-- The specifier of the folder so many levels up. -/
def climb (n : Nat) : Text := js "." ++ 47 :: ups n

theorem foldl_ups (above own : List Text) :
    (segments (ups own.length)).foldl normalizeSegment (above ++ own) = above := by
  induction own using List.reverseRecOn with
  | nil => exact List.append_nil above
  | append_singleton own last ih =>
    have hup : normalizeSegment (above ++ (own ++ [last])) (js "..") = above ++ own := by
      rw [normalizeSegment, if_neg (by decide), if_pos rfl, ← List.append_assoc, List.dropLast_concat]
    rw [List.length_append, List.length_singleton, ups, segments_append, List.foldl_append,
      segments_of_no_slash (by decide), List.foldl_cons, List.foldl_nil, hup]
    exact ih

theorem resolve_two (cwd : Text) (hpath : path.head? = some 47) (hs : s.head? ≠ some 47) :
    resolve cwd [path, s] = absolute (pathNames (path ++ 47 :: s)) := by
  rw [resolve, List.foldl_cons, List.foldl_cons, List.foldl_nil, if_pos hpath, if_neg hs]
  rfl

theorem head_climb (n : Nat) : (climb n).head? = some 46 := rfl

theorem resolve_climb (cwd : Text) {above own : List Text} (hplain : ∀ name ∈ above ++ own, PlainName name) :
    resolve cwd [absolute (above ++ own), climb own.length] = absolute above := by
  have hdot : [js "."].foldl normalizeSegment (above ++ own) = above ++ own := rfl
  have hhead : (climb own.length).head? ≠ some 47 := by
    rw [head_climb]
    decide
  rw [resolve_two cwd rfl hhead,
    pathNames_append, pathNames_absolute hplain, climb, segments_append, List.foldl_append,
    segments_of_no_slash (by decide), hdot, foldl_ups]

/-- Only a file of `shared/` has a folder that is recognized as within it. -/
theorem below_of_isWithin_dirname (hfile : IsAbsolute file) (hshared : IsAbsolute b.sharedRoot)
    (h : isWithin b.cwd b.sharedRoot (dirname file) = true) : Below b.sharedRoot file := by
  obtain ⟨above, hne, habove, hroot⟩ := isAbsolute_iff.mp hshared
  obtain ⟨names, hnames, hplain, rfl⟩ := isAbsolute_iff.mp hfile
  have hinit : ∀ name ∈ names.dropLast, PlainName name := fun name hname => hplain name (List.dropLast_subset _ hname)
  have hlast := List.dropLast_append_getLast hnames
  rw [dirname_absolute hplain hnames, hroot, isWithin_iff habove ⟨hinit, .inl rfl⟩] at h
  obtain ⟨rest, hrest⟩ : ∃ rest, names.dropLast = above ++ rest := by
    obtain h | ⟨rest, -, hrest, -⟩ := h
    · exact ⟨[], by rw [absolute_injective hinit habove h, List.append_nil]⟩
    · exact ⟨rest, hrest⟩
  rw [hrest, List.append_assoc] at hlast
  rw [hroot, ← hlast]
  refine ⟨_, by simp, fun name hname => hplain name ?_, absolute_append hne (by simp)⟩
  exact hlast ▸ List.mem_append_right above hname

theorem isWithin_self (cwd root : Text) : isWithin cwd root root = true := if_pos rfl

theorem imported_shared (hresolved : resolveWithExtensions b.tree b.sharedRoot = some path) (file : Text) :
    b.imported file (js "@shared") = .ok path := by
  have htarget : b.sharedTarget (js "@shared") = b.sharedRoot := by
    have hrest : (js "@shared").drop 7 = [] := by decide
    rw [Build.sharedTarget, hrest]
    rfl
  rw [Build.imported, Build.onResolve, if_neg ImportKind.noConfusion, if_pos (.inl rfl)]
  dsimp only
  rw [htarget, isWithin_self, if_neg Bool.noConfusion, hresolved]
  rfl

theorem imported_climb {above own : List Text} (hroot : b.moduleRoot = absolute above)
    (hplain : ∀ name ∈ above ++ own, PlainName name) (hown : own ≠ [])
    (hzone : isWithin b.cwd b.sharedRoot (dirname (absolute (above ++ own))) = false)
    (hresolved : resolveWithExtensions b.tree b.moduleRoot = some path) :
    b.imported (absolute (above ++ own)) (climb own.dropLast.length) = .ok path := by
  have hne : above ++ own ≠ [] := fun h => hown (List.append_eq_nil_iff.mp h).2
  have hdir : dirname (absolute (above ++ own)) = absolute (above ++ own.dropLast) := by
    rw [dirname_absolute hplain hne, List.dropLast_append_of_ne_nil hown]
  have htarget : resolve b.cwd [dirname (absolute (above ++ own)), climb own.dropLast.length] = b.moduleRoot := by
    rw [hdir, hroot]
    refine resolve_climb b.cwd fun name hname => hplain name ?_
    exact (List.mem_append.mp hname).elim (List.mem_append_left _)
      fun hname => List.mem_append_right _ (List.dropLast_subset _ hname)
  have hzone : b.zoneRoot (dirname (absolute (above ++ own))) = b.moduleRoot := by
    rw [Build.zoneRoot, hzone]
    rfl
  have hshared : ¬(climb own.dropLast.length = js "@shared" ∨ js "@shared/" <+: climb own.dropLast.length) := by
    rintro (h | ⟨more, h⟩)
    · cases (congrArg List.head? h).symm.trans (head_climb _)
    · cases (congrArg List.head? h).trans (head_climb _)
  rw [Build.imported, Build.onResolve, if_neg ImportKind.noConfusion, if_neg hshared,
    if_pos (.inl ⟨ups own.dropLast.length, rfl⟩)]
  dsimp only
  rw [htarget, hzone, isWithin_self, if_neg Bool.noConfusion, hresolved]
  rfl

/-- Where a folder has a namesake, an import leads the entry point's bundle to it. -/
theorem escape_of_namesake (hmodule : IsAbsolute b.moduleRoot) (hshared : IsAbsolute b.sharedRoot)
    (hbeside : Beside b.moduleRoot b.sharedRoot) (hfirst : b.entryPoint entry = .ok first)
    (hbelow : Below b.moduleRoot first) (h : ¬(NoNamesake b.tree b.moduleRoot ∧ NoNamesake b.tree b.sharedRoot)) :
    ∃ imports, Compiles b imports entry first ∧ ¬Contained b imports first := by
  have hself : ∀ {root ext : Text}, ext ∈ FILE_EXTENSIONS → ¬Below root (root ++ ext) := by
    intro root ext hext hin
    obtain ⟨s, hs⟩ := hin.append
    exact slash_not_mem_extension ext hext (List.append_cancel_left hs ▸ List.mem_cons_self)
  by_cases hnamesake : NoNamesake b.tree b.sharedRoot
  · obtain ⟨ext, hext, hresolved⟩ := resolve_namesake fun hmod => h ⟨hmod, hnamesake⟩
    obtain ⟨above, hne, habove, hroot⟩ := isAbsolute_iff.mp hmodule
    obtain ⟨own, hown, hplain, hpath⟩ := id hbelow
    have hall : ∀ name ∈ above ++ own, PlainName name := fun name hname =>
      (List.mem_append.mp hname).elim (habove name) (hplain name)
    rw [hroot, ← absolute_append hne hown] at hpath
    have hfile : IsAbsolute first := ⟨_, by simp [hne], hall, hpath⟩
    have hzone : isWithin b.cwd b.sharedRoot (dirname first) = false := by
      cases hwithin : isWithin b.cwd b.sharedRoot (dirname first) with
      | false => rfl
      | true =>
        exact absurd (below_of_isWithin_dirname hfile hshared hwithin)
          (hbeside.disjoint hmodule hshared hbelow)
    rw [hpath] at hzone
    have himport := imported_climb hroot hall hown hzone hresolved
    rw [← hpath] at himport
    exact not_contained_of_import hfirst (fun heq => hself hext (heq ▸ hbelow)) himport (hself hext)
      (not_below_append hmodule hbeside.2.2 (slash_not_mem_extension ext hext))
  · obtain ⟨ext, hext, hresolved⟩ := resolve_namesake hnamesake
    have hout := not_below_append hshared hbeside.2.1 (slash_not_mem_extension ext hext)
    have hpath : b.sharedRoot ++ ext ≠ first := fun heq => hout (by rw [heq]; exact hbelow)
    exact not_contained_of_import hfirst hpath (imported_shared hresolved first) hout (hself hext)

/-- Every bundle that compiles has only files of the module and of `shared/` exactly where there is no
entry point, or neither folder has a namesake: a file of its own path and an extension. -/
theorem bundles_contained_iff (hmodule : IsAbsolute b.moduleRoot) (hshared : IsAbsolute b.sharedRoot)
    (hbeside : Beside b.moduleRoot b.sharedRoot) (hentry : badRelativePath entry = false) :
    (∀ imports first, Compiles b imports entry first → Contained b imports first) ↔
      ((∃ first, b.entryPoint entry = .ok first) →
        NoNamesake b.tree b.moduleRoot ∧ NoNamesake b.tree b.sharedRoot) := by
  constructor
  · rintro hall ⟨first, hfirst⟩
    by_contra h
    obtain ⟨imports, hcompiles, hnot⟩ := escape_of_namesake hmodule hshared hbeside hfirst
      (below_of_entryPoint hmodule hentry hfirst) h
    exact hnot (hall imports first hcompiles)
  · intro h imports first hcompiles
    exact contained_of_noNamesake hmodule hshared hbeside (h ⟨first, hcompiles.entry⟩)
      (below_of_entryPoint hmodule hentry hcompiles.entry) hcompiles

instance (name : Text) : Decidable (PlainName name) :=
  decidable_of_iff (name ≠ [] ∧ name ≠ js "." ∧ name ≠ js ".." ∧ 47 ∉ name)
    ⟨fun h => ⟨h.1, h.2.1, h.2.2.1, h.2.2.2⟩, fun h => ⟨h.nonempty, h.dot, h.dots, h.slash⟩⟩

theorem isPrefix_of_below (h : Below root path) : root ++ [47] <+: path := by
  obtain ⟨s, rfl⟩ := h.append
  exact ⟨s, by rw [List.append_assoc, List.singleton_append]⟩

/-- A tree of the files with these names. -/
def FileTree.ofNames (files : List (List Text))
    (h : ∀ names ∈ files, names ≠ [] ∧ ∀ name ∈ names, PlainName name) : FileTree where
  files := files.map Compiler.absolute
  folders := []
  absolute path hpath := by
    obtain ⟨names, hnames, rfl⟩ := List.mem_map.mp hpath
    exact ⟨names, (h names hnames).1, (h names hnames).2, rfl⟩

/-- A module with one file, beside `shared/`. -/
def demoTree : FileTree :=
  .ofNames [[js "app", js "modules", js "demo", js "main.ts"], [js "app", js "shared", js "check.ts"]]
    (by decide)

/-- The same, and a file that has the module's name. -/
def namesakeTree : FileTree :=
  .ofNames [[js "app", js "modules", js "demo", js "main.ts"], [js "app", js "shared", js "check.ts"],
    [js "app", js "modules", js "demo.js"]] (by decide)

def demoBuild (tree : FileTree) : Build := ⟨tree, js "/app", js "/app/modules/demo", js "/app/shared"⟩

theorem bundles_contained_iff_demo :
    (∀ imports first, Compiles (demoBuild demoTree) imports (js "main.ts") first →
        Contained (demoBuild demoTree) imports first) ↔
      ((∃ first, (demoBuild demoTree).entryPoint (js "main.ts") = .ok first) →
        NoNamesake demoTree (js "/app/modules/demo") ∧ NoNamesake demoTree (js "/app/shared")) :=
  bundles_contained_iff ⟨[js "app", js "modules", js "demo"], by decide, by decide, by decide⟩
    ⟨[js "app", js "shared"], by decide, by decide, by decide⟩
    ⟨by decide, fun h => absurd (isPrefix_of_below h) (by decide), fun h => absurd (isPrefix_of_below h) (by decide)⟩
    (by decide)

/-- The module's file imports its own folder, and the bundle takes the namesake beside it. -/
theorem namesake_is_bundled : ∃ imports first,
    Compiles (demoBuild namesakeTree) imports (js "main.ts") first ∧
      ¬Contained (demoBuild namesakeTree) imports first := by
  have himport : (demoBuild namesakeTree).imported (js "/app/modules/demo/main.ts") (js "./") =
      .ok (js "/app/modules/demo.js") := by decide +kernel
  have hfirst : (demoBuild namesakeTree).entryPoint (js "main.ts") =
      .ok (js "/app/modules/demo/main.ts") := by decide +kernel
  obtain ⟨imports, hcompiles, hnot⟩ := not_contained_of_import hfirst (by decide) himport
    (fun h => absurd (isPrefix_of_below h) (by decide +kernel))
    (fun h => absurd (isPrefix_of_below h) (by decide +kernel))
  exact ⟨imports, _, hcompiles, hnot⟩

end BoredManager.Server.Compiler
