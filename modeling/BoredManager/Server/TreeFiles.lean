import BoredManager.Js.Utf8
import Mathlib.Data.List.Nodup

/-! Folders and the walks that list their files: the path of each file from the root, and
its bytes. -/
namespace BoredManager.Server
open BoredManager.Js

/-- What a directory entry is. -/
inductive Entry where
  | file (bytes : List Nat)
  | dir (entries : List (Text × Entry))
  | symlink
  | special

abbrev Folder := List (Text × Entry)

/-- How a walk differs from another: whether it leaves build output out, and what it
throws at an entry that is no file and no directory. -/
structure Walk where
  skipDist : Bool
  onSymlink : Text → Option Text
  onSpecial : Text → Option Text

/-- The entries that a walk leaves out. -/
def isSkipped (skipDist : Bool) (name : Text) : Bool := skipDist && name == js ".dist"

mutual

/-- The files of a folder, each with the names on its path. -/
def walk (w : Walk) : Folder → Except Text (List (List Text × List Nat))
  | [] => .ok []
  | (name, entry) :: rest =>
    if isSkipped w.skipDist name then walk w rest
    else
      match walkEntry w name entry with
      | .error text => .error text
      | .ok here => (walk w rest).map (here ++ ·)

def walkEntry (w : Walk) (name : Text) : Entry → Except Text (List (List Text × List Nat))
  | .file bytes => .ok [([name], bytes)]
  | .dir entries => (walk w entries).map fun fs => fs.map fun f => (name :: f.1, f.2)
  | .symlink => match w.onSymlink name with
    | some text => .error text
    | none => .ok []
  | .special => match w.onSpecial name with
    | some text => .error text
    | none => .ok []

end

mutual

/-- The same files as a function of the folder alone. -/
def files (skipDist : Bool) : Folder → List (List Text × List Nat)
  | [] => []
  | (name, entry) :: rest =>
    if isSkipped skipDist name then files skipDist rest
    else filesOf skipDist name entry ++ files skipDist rest

def filesOf (skipDist : Bool) (name : Text) : Entry → List (List Text × List Nat)
  | .file bytes => [([name], bytes)]
  | .dir entries => (files skipDist entries).map fun f => (name :: f.1, f.2)
  | .symlink => []
  | .special => []

end

attribute [local grind] files filesOf

/-- A name that a file system gives out. -/
structure IsName (name : Text) : Prop where
  nonempty : name ≠ []
  scalars : Scalars name
  noZero : 0 ∉ name
  noSlash : 47 ∉ name

/-- A folder of files and directories, apart from what a walk leaves out. -/
inductive IsFolder (skipDist : Bool) : Folder → Prop
  | mk {entries : Folder} (names : (entries.map Prod.fst).Nodup)
      (valid : ∀ e ∈ entries, IsName e.1)
      (regular : ∀ e ∈ entries, isSkipped skipDist e.1 = false →
        e.2 ≠ .symlink ∧ e.2 ≠ .special ∧ ∀ bytes, e.2 = .file bytes → ∀ b ∈ bytes, b < 256)
      (dirs : ∀ e ∈ entries, isSkipped skipDist e.1 = false → ∀ sub, e.2 = .dir sub →
        IsFolder skipDist sub) : IsFolder skipDist entries

theorem files_eq_flatMap (skipDist : Bool) (entries : Folder) :
    files skipDist entries =
      (entries.filter fun e => !isSkipped skipDist e.1).flatMap fun e => filesOf skipDist e.1 e.2 := by
  induction entries with
  | nil => simp [files]
  | cons e entries ih =>
    obtain ⟨name, entry⟩ := e
    rw [files, ih, List.filter_cons]
    cases isSkipped skipDist name <;> simp

theorem walk_of_entries (w : Walk) {entries : Folder}
    (h : ∀ e ∈ entries, isSkipped w.skipDist e.1 = false →
      walkEntry w e.1 e.2 = .ok (filesOf w.skipDist e.1 e.2)) :
    walk w entries = .ok (files w.skipDist entries) := by
  induction entries with
  | nil => simp [walk, files]
  | cons e entries ih =>
    obtain ⟨name, entry⟩ := e
    have hrest := ih fun e he => h e (List.mem_cons_of_mem _ he)
    rw [walk, files]
    split
    · exact hrest
    · rename_i hskip
      rw [h _ List.mem_cons_self (by simpa using hskip), hrest]
      rfl

/-- On a folder of files and directories every walk succeeds. -/
theorem walk_eq (w : Walk) {entries : Folder} (h : IsFolder w.skipDist entries) :
    walk w entries = .ok (files w.skipDist entries) := by
  induction h with
  | mk _ _ hregular _ ih =>
    refine walk_of_entries w fun ⟨name, entry⟩ he hskip => ?_
    cases entry with
    | file bytes => rw [walkEntry, filesOf]
    | dir sub =>
      rw [walkEntry, filesOf, ih _ he hskip sub rfl]
      rfl
    | symlink => exact absurd rfl (hregular _ he hskip).1
    | special => exact absurd rfl (hregular _ he hskip).2.1

/-- A path that a walk lists. -/
def IsPath (skipDist : Bool) (path : List Text) : Prop :=
  path ≠ [] ∧ ∀ name ∈ path, IsName name ∧ isSkipped skipDist name = false

/-- Two paths of which neither is on the way to the other. -/
def Apart (p q : List Text) : Prop := ¬p <+: q ∧ ¬q <+: p

theorem Apart.cons {p q : List Text} (h : Apart p q) (name : Text) :
    Apart (name :: p) (name :: q) := by
  simpa [Apart, List.cons_prefix_cons] using h

theorem apart_of_ne {m n : Text} (h : m ≠ n) (p q : List Text) : Apart (m :: p) (n :: q) := by
  simp [Apart, List.cons_prefix_cons, h, Ne.symm h]

theorem mem_files {skipDist : Bool} {entries : Folder} {f : List Text × List Nat} :
    f ∈ files skipDist entries ↔
      ∃ e ∈ entries, isSkipped skipDist e.1 = false ∧ f ∈ filesOf skipDist e.1 e.2 := by
  rw [files_eq_flatMap, List.mem_flatMap]
  simp only [List.mem_filter, Bool.not_eq_true', and_assoc]

theorem head_of_mem_filesOf {skipDist : Bool} {name : Text} {entry : Entry}
    {f : List Text × List Nat} (h : f ∈ filesOf skipDist name entry) :
    ∃ rest, f.1 = name :: rest := by
  cases entry with
  | file bytes =>
    rw [filesOf, List.mem_singleton] at h
    exact ⟨[], by rw [h]⟩
  | dir entries =>
    rw [filesOf] at h
    obtain ⟨g, -, rfl⟩ := List.mem_map.mp h
    exact ⟨g.1, rfl⟩
  | symlink => simp [filesOf] at h
  | special => simp [filesOf] at h

theorem path_of_mem_files {skipDist : Bool} {entries : Folder} (h : IsFolder skipDist entries)
    {f : List Text × List Nat} (hf : f ∈ files skipDist entries) :
    IsPath skipDist f.1 ∧ ∀ b ∈ f.2, b < 256 := by
  induction h generalizing f with
  | @mk entries _ hvalid hregular _ ih =>
    obtain ⟨⟨name, entry⟩, he, hskip, hmem⟩ := mem_files.mp hf
    have hname := hvalid _ he
    cases entry with
    | file bytes =>
      rw [filesOf, List.mem_singleton] at hmem
      subst hmem
      exact ⟨⟨List.cons_ne_nil _ _, fun n hn => by rw [List.mem_singleton.mp hn]; exact ⟨hname, hskip⟩⟩,
        (hregular _ he hskip).2.2 bytes rfl⟩
    | dir sub =>
      rw [filesOf] at hmem
      obtain ⟨g, hg, rfl⟩ := List.mem_map.mp hmem
      obtain ⟨hpath, hbytes⟩ := ih _ he hskip sub rfl hg
      refine ⟨⟨List.cons_ne_nil _ _, fun n hn => ?_⟩, hbytes⟩
      rcases List.mem_cons.mp hn with rfl | hn
      · exact ⟨hname, hskip⟩
      · exact hpath.2 n hn
    | symlink => simp [filesOf] at hmem
    | special => simp [filesOf] at hmem

/-- No file of a folder is on the way to another. -/
theorem files_apart {skipDist : Bool} {entries : Folder} (h : IsFolder skipDist entries) :
    (files skipDist entries).Pairwise fun f g => Apart f.1 g.1 := by
  induction h with
  | @mk entries hnames _ _ _ ih =>
    rw [files_eq_flatMap, List.pairwise_flatMap]
    constructor
    · rintro ⟨name, entry⟩ he
      rw [List.mem_filter, Bool.not_eq_true'] at he
      cases entry with
      | file bytes =>
        rw [filesOf]
        exact List.pairwise_singleton _ _
      | dir sub =>
        rw [filesOf, List.pairwise_map]
        exact (ih _ he.1 he.2 sub rfl).imp fun hab => hab.cons name
      | symlink => simp [filesOf]
      | special => simp [filesOf]
    · refine List.Pairwise.filter _ ((List.pairwise_map.mp hnames).imp fun {a b} hne f hf g hg => ?_)
      obtain ⟨p, hp⟩ := head_of_mem_filesOf hf
      obtain ⟨q, hq⟩ := head_of_mem_filesOf hg
      rw [hp, hq]
      exact apart_of_ne hne p q

/-! Changing the files of a folder. -/
mutual

/-- A folder with the content of its files changed, or the file left out. -/
def edit (f : List Text → List Nat → Option (List Nat)) : Folder → Folder
  | [] => []
  | (name, entry) :: rest => editEntry f name entry ++ edit f rest

def editEntry (f : List Text → List Nat → Option (List Nat)) (name : Text) : Entry → Folder
  | .file bytes => ((f [name] bytes).map fun b => (name, Entry.file b)).toList
  | .dir entries => [(name, .dir (edit (fun path => f (name :: path)) entries))]
  | .symlink => [(name, .symlink)]
  | .special => [(name, .special)]

end

attribute [local grind] edit editEntry

theorem edit_eq_flatMap (f : List Text → List Nat → Option (List Nat)) (entries : Folder) :
    edit f entries = entries.flatMap fun e => editEntry f e.1 e.2 := by
  induction entries with
  | nil => simp [edit]
  | cons e entries ih => rw [edit, ih, List.flatMap_cons]

theorem mem_editEntry {f : List Text → List Nat → Option (List Nat)} {name : Text} {entry : Entry}
    {e : Text × Entry} (h : e ∈ editEntry f name entry) :
    e.1 = name ∧
      ((∃ bytes b, entry = .file bytes ∧ f [name] bytes = some b ∧ e.2 = .file b) ∨
      (∃ sub, entry = .dir sub ∧ e.2 = .dir (edit (fun path => f (name :: path)) sub)) ∨
      (entry = .symlink ∧ e.2 = .symlink) ∨ (entry = .special ∧ e.2 = .special)) := by
  cases entry with
  | file bytes =>
    rw [editEntry, Option.mem_toList, Option.map_eq_some_iff] at h
    obtain ⟨b, hb, rfl⟩ := h
    exact ⟨rfl, .inl ⟨bytes, b, rfl, hb, rfl⟩⟩
  | dir sub =>
    rw [editEntry, List.mem_singleton] at h
    subst h
    exact ⟨rfl, .inr (.inl ⟨sub, rfl, rfl⟩)⟩
  | symlink =>
    rw [editEntry, List.mem_singleton] at h
    subst h
    exact ⟨rfl, .inr (.inr (.inl ⟨rfl, rfl⟩))⟩
  | special =>
    rw [editEntry, List.mem_singleton] at h
    subst h
    exact ⟨rfl, .inr (.inr (.inr ⟨rfl, rfl⟩))⟩

theorem editEntry_length (f : List Text → List Nat → Option (List Nat)) (name : Text)
    (entry : Entry) : editEntry f name entry = [] ∨ ∃ e, editEntry f name entry = [e] := by
  cases entry with
  | file bytes =>
    rw [editEntry]
    cases f [name] bytes with
    | none => exact .inl rfl
    | some b => exact .inr ⟨_, rfl⟩
  | dir sub => exact .inr ⟨_, by rw [editEntry]⟩
  | symlink => exact .inr ⟨_, by rw [editEntry]⟩
  | special => exact .inr ⟨_, by rw [editEntry]⟩

theorem edit_names_sublist (f : List Text → List Nat → Option (List Nat)) (entries : Folder) :
    ((edit f entries).map Prod.fst).Sublist (entries.map Prod.fst) := by
  induction entries with
  | nil => simp [edit]
  | cons e entries ih =>
    obtain ⟨name, entry⟩ := e
    rw [edit, List.map_append, List.map_cons]
    rcases editEntry_length f name entry with h | ⟨e, h⟩
    · rw [h]
      exact ih.cons _
    · have hname := (mem_editEntry (h ▸ List.mem_singleton_self e : e ∈ editEntry f name entry)).1
      rw [h, List.map_singleton, hname]
      exact ih.cons_cons _

theorem isFolder_edit {skipDist : Bool} {entries : Folder} (h : IsFolder skipDist entries)
    {f : List Text → List Nat → Option (List Nat)}
    (hf : ∀ path bytes b, (∀ x ∈ bytes, x < 256) → f path bytes = some b → ∀ x ∈ b, x < 256) :
    IsFolder skipDist (edit f entries) := by
  induction h generalizing f with
  | mk hnames hvalid hregular _ ih =>
    refine .mk (hnames.sublist (edit_names_sublist f _)) (fun e he => ?_) (fun e he hskip => ?_)
      fun e he hskip sub hsub => ?_
    · rw [edit_eq_flatMap, List.mem_flatMap] at he
      obtain ⟨e', he', hmem⟩ := he
      rw [(mem_editEntry hmem).1]
      exact hvalid e' he'
    · rw [edit_eq_flatMap, List.mem_flatMap] at he
      obtain ⟨⟨name, entry⟩, he', hmem⟩ := he
      obtain ⟨hname, hkind⟩ := mem_editEntry hmem
      rw [hname] at hskip
      have hreg := hregular _ he' hskip
      rcases hkind with ⟨bytes, b, hentry, hb, he2⟩ | ⟨sub, hentry, he2⟩ | ⟨hentry, -⟩ | ⟨hentry, -⟩
      · rw [he2]
        refine ⟨nofun, nofun, fun c hc => ?_⟩
        cases hc
        exact hf _ _ _ (hreg.2.2 bytes hentry) hb
      · rw [he2]
        exact ⟨nofun, nofun, nofun⟩
      · exact absurd hentry hreg.1
      · exact absurd hentry hreg.2.1
    · rw [edit_eq_flatMap, List.mem_flatMap] at he
      obtain ⟨⟨name, entry⟩, he', hmem⟩ := he
      obtain ⟨hname, hkind⟩ := mem_editEntry hmem
      rw [hname] at hskip
      rcases hkind with ⟨bytes, b, -, -, he2⟩ | ⟨old, hentry, he2⟩ | ⟨-, he2⟩ | ⟨-, he2⟩
      · rw [hsub] at he2
        cases he2
      · rw [hsub] at he2
        injection he2 with he2
        rw [he2]
        exact ih _ he' hskip old hentry fun path bytes b hbytes hb => hf _ bytes b hbytes hb
      · rw [hsub] at he2
        cases he2
      · rw [hsub] at he2
        cases he2

/-! The files of an edited folder are the edited files. -/
mutual

theorem files_edit (skipDist : Bool) (f : List Text → List Nat → Option (List Nat)) :
    ∀ entries : Folder, files skipDist (edit f entries) =
      (files skipDist entries).filterMap fun g => (f g.1 g.2).map fun b => (g.1, b)
  | [] => by simp [files, edit]
  | (name, entry) :: rest => by
    have happend : ∀ a b : Folder, files skipDist (a ++ b) = files skipDist a ++ files skipDist b :=
      fun a b => by simp [files_eq_flatMap]
    have hrest := files_edit skipDist f rest
    rw [edit, happend, hrest, files]
    split
    · rename_i hskip
      have hnone : files skipDist (editEntry f name entry) = [] := by
        rw [files_eq_flatMap, List.flatMap_eq_nil_iff]
        intro e he
        rw [List.mem_filter] at he
        rw [(mem_editEntry he.1).1, hskip] at he
        simp at he
      rw [hnone, List.nil_append]
    · rename_i hskip
      rw [List.filterMap_append, files_editEntry skipDist f name (by simpa using hskip) entry]

theorem files_editEntry (skipDist : Bool) (f : List Text → List Nat → Option (List Nat))
    (name : Text) (hskip : isSkipped skipDist name = false) :
    ∀ entry : Entry, files skipDist (editEntry f name entry) =
      (filesOf skipDist name entry).filterMap fun g => (f g.1 g.2).map fun b => (g.1, b)
  | .file bytes => by
    rw [editEntry, filesOf]
    cases h : f [name] bytes with
    | none => simp [files, h]
    | some b => simp [files, filesOf, hskip, h]
  | .dir sub => by
    have hsub := files_edit skipDist (fun path => f (name :: path)) sub
    rw [editEntry, filesOf, files, hskip]
    simp only [Bool.false_eq_true, if_false, files, List.append_nil]
    rw [filesOf, hsub, List.map_filterMap, List.filterMap_map]
    congr 1
    funext g
    rw [Option.map_map, Function.comp_apply]
    rfl
  | .symlink => by simp [editEntry, files, filesOf]
  | .special => by simp [editEntry, files, filesOf]

end

/-! A folder with two files. -/

/-- A file below the directories of a path. -/
def chain (bytes : List Nat) : List Text → Entry
  | [] => .file bytes
  | name :: names => .dir [(name, chain bytes names)]

/-- The folder with a file at each of two paths. -/
def pairFolder (x y : List Nat) : List Text → List Text → Folder
  | m :: p, n :: q =>
    if m = n then [(m, .dir (pairFolder x y p q))] else [(m, chain x p), (n, chain y q)]
  | _, _ => []

theorem filesOf_chain {skipDist : Bool} (bytes : List Nat) {name : Text} {names : List Text}
    (h : ∀ n ∈ names, isSkipped skipDist n = false) :
    filesOf skipDist name (chain bytes names) = [(name :: names, bytes)] := by
  induction names generalizing name with
  | nil => rw [chain, filesOf]
  | cons n names ih =>
    rw [chain, filesOf, files, h n List.mem_cons_self]
    simp only [Bool.false_eq_true, if_false]
    rw [ih fun m hm => h m (List.mem_cons_of_mem _ hm), files]
    rfl

theorem files_pairFolder {skipDist : Bool} (x y : List Nat) {p q : List Text}
    (hp : ∀ n ∈ p, isSkipped skipDist n = false) (hq : ∀ n ∈ q, isSkipped skipDist n = false)
    (hapart : Apart p q) : files skipDist (pairFolder x y p q) = [(p, x), (q, y)] := by
  induction p generalizing q with
  | nil => exact absurd List.nil_prefix hapart.1
  | cons m p ih =>
    cases q with
    | nil => exact absurd List.nil_prefix hapart.2
    | cons n q =>
      have hm := hp m List.mem_cons_self
      have hn := hq n List.mem_cons_self
      have hp' : ∀ k ∈ p, isSkipped skipDist k = false := fun k hk => hp k (List.mem_cons_of_mem _ hk)
      have hq' : ∀ k ∈ q, isSkipped skipDist k = false := fun k hk => hq k (List.mem_cons_of_mem _ hk)
      rw [pairFolder]
      split
      · rename_i hmn
        subst hmn
        have hrest : Apart p q := by simpa [Apart, List.cons_prefix_cons] using hapart
        rw [files, hm]
        simp only [Bool.false_eq_true, if_false]
        rw [filesOf, ih hp' hq' hrest, files]
        rfl
      · rw [files, hm, files, hn, files]
        simp only [Bool.false_eq_true, if_false]
        rw [filesOf_chain x hp', filesOf_chain y hq']
        rfl

theorem isFolder_dir {skipDist : Bool} {name : Text} (hname : IsName name) {sub : Folder}
    (h : IsFolder skipDist sub) : IsFolder skipDist [(name, .dir sub)] := by
  refine .mk (List.nodup_singleton _) (fun e he => ?_) (fun e he _ => ?_) fun e he _ s hs => ?_
  · rwa [List.mem_singleton.mp he]
  · rw [List.mem_singleton.mp he]
    exact ⟨nofun, nofun, nofun⟩
  · rw [List.mem_singleton.mp he] at hs
    cases hs
    exact h

theorem isFolder_chain {skipDist : Bool} {bytes : List Nat} (hbytes : ∀ b ∈ bytes, b < 256)
    {name : Text} {names : List Text} (hname : IsName name) (h : ∀ n ∈ names, IsName n) :
    IsFolder skipDist [(name, chain bytes names)] := by
  induction names generalizing name with
  | nil =>
    refine .mk (List.nodup_singleton _) (fun e he => ?_) (fun e he _ => ?_) fun e he _ sub hsub => ?_
    · rwa [List.mem_singleton.mp he]
    · rw [List.mem_singleton.mp he]
      exact ⟨nofun, nofun, fun b hb => by cases hb; exact hbytes⟩
    · rw [List.mem_singleton.mp he] at hsub
      cases hsub
  | cons n names ih =>
    exact isFolder_dir hname
      (ih (h n List.mem_cons_self) fun m hm => h m (List.mem_cons_of_mem _ hm))

theorem isFolder_two {skipDist : Bool} {a b : Text × Entry} (ha : IsFolder skipDist [a])
    (hb : IsFolder skipDist [b]) (hne : a.1 ≠ b.1) : IsFolder skipDist [a, b] := by
  have hmem : ∀ {e : Text × Entry}, e ∈ [a, b] → e ∈ [a] ∨ e ∈ [b] := fun he => by simpa using he
  cases ha with
  | mk _ hvalid hregular hdirs =>
    cases hb with
    | mk _ hvalid' hregular' hdirs' =>
      exact .mk (by simpa using hne) (fun e he => (hmem he).elim (hvalid e) (hvalid' e))
        (fun e he => (hmem he).elim (hregular e) (hregular' e))
        fun e he => (hmem he).elim (hdirs e) (hdirs' e)

theorem isFolder_pairFolder {skipDist : Bool} {x y : List Nat} (hx : ∀ b ∈ x, b < 256)
    (hy : ∀ b ∈ y, b < 256) {p q : List Text} (hp : ∀ n ∈ p, IsName n) (hq : ∀ n ∈ q, IsName n)
    (hapart : Apart p q) : IsFolder skipDist (pairFolder x y p q) := by
  induction p generalizing q with
  | nil => exact absurd List.nil_prefix hapart.1
  | cons m p ih =>
    cases q with
    | nil => exact absurd List.nil_prefix hapart.2
    | cons n q =>
      have hp' : ∀ k ∈ p, IsName k := fun k hk => hp k (List.mem_cons_of_mem _ hk)
      have hq' : ∀ k ∈ q, IsName k := fun k hk => hq k (List.mem_cons_of_mem _ hk)
      rw [pairFolder]
      split
      · rename_i hmn
        subst hmn
        exact isFolder_dir (hp m List.mem_cons_self)
          (ih hp' hq' (by simpa [Apart, List.cons_prefix_cons] using hapart))
      · rename_i hmn
        exact isFolder_two (isFolder_chain hx (hp m List.mem_cons_self) hp')
          (isFolder_chain hy (hq n List.mem_cons_self) hq') hmn

end BoredManager.Server
