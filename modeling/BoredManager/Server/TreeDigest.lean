import BoredManager.Codec.Records
import BoredManager.Server.TreeFiles

/-! The digests that pin a module folder and a staged update, and which folders they tell
from all others. -/
namespace BoredManager.Server
open BoredManager.Js BoredManager.Codec

/-- `relative(base, path).split(sep).join('/')`. -/
def pathText (path : List Text) : Text := join [47] path

/-- What a walk pushes: the slash path of each file, here with the bytes that are read. -/
def listing (w : Walk) (root : Folder) : Except Text (List (Text × List Nat)) :=
  (walk w root).map fun fs => fs.map fun f => (pathText f.1, f.2)

/-- Entries that are no file and no directory are passed over. -/
def listFilesWalk : Walk := ⟨true, fun _ => none, fun _ => none⟩

def listFiles (dir : Folder) : Except Text (List (Text × List Nat)) := listing listFilesWalk dir

def nonRegular (name : Text) : Option Text :=
  some (js "module tree contains a non-regular entry: " ++ name)

def treeFilesWalk : Walk := ⟨true, nonRegular, nonRegular⟩

def treeFiles (root : Folder) : Except Text (List (Text × List Nat)) := listing treeFilesWalk root

def listTreeFilesWalk : Walk :=
  ⟨false, fun _ => some (js "staged update contains a symbolic link"),
    fun _ => some (js "staged update contains a special file")⟩

def listTreeFiles (root : Folder) : Except Text (List (Text × List Nat)) :=
  listing listTreeFilesWalk root

variable {D : Type*} (sha : List Nat → D)

/-- The files in the order of their paths, hashed as one run of bytes: each path, a zero, the
content, and what the digest puts behind it. -/
def hashFiles (sep : List Nat) (fs : List (Text × List Nat)) : D :=
  sha (records utf8 sep (fs.mergeSort fun a b => textLe a.1 b.1))

def moduleFolderHash (dir : Folder) : Except Text D := (listFiles dir).map (hashFiles sha [])

def exactModuleTreeHash (root : Folder) : Except Text D := (treeFiles root).map (hashFiles sha [])

def digestUpdateTree (root : Folder) : Except Text D :=
  (listTreeFiles root).map (hashFiles sha [0])

/-- Two folders with the same map from paths to contents. -/
def SameFiles (skipDist : Bool) (s t : Folder) : Prop :=
  ∀ f, f ∈ files skipDist s ↔ f ∈ files skipDist t

/-- A digest that no folder with other files has. -/
def Identifies (digest : Folder → Except Text D) (skipDist : Bool) (t : Folder) : Prop :=
  ∀ s, IsFolder skipDist s → (digest s = digest t ↔ SameFiles skipDist s t)

/-- A path that can stand behind another in the listing of one folder. -/
structure Behind (skipDist : Bool) (p q : List Text) : Prop where
  path : IsPath skipDist q
  apart : Apart p q
  order : textLe (pathText p) (pathText q) = true

/-- The bytes of a path. -/
def pathBytes (path : List Text) : List Nat := utf8 (pathText path)

/-- A content that does not spell out a path that can stand behind its own, then a zero. -/
def Uncut (skipDist : Bool) (sep : List Nat) (p : List Text) (c : List Nat) : Prop :=
  ∀ x q z, Behind skipDist p q → c ≠ joinedContent pathBytes sep x q z

/-- A folder without a file, or with one whose content cannot be cut. -/
def LoneFile (skipDist : Bool) (sep : List Nat) (t : Folder) : Prop :=
  files skipDist t = [] ∨ ∃ p c, files skipDist t = [(p, c)] ∧ Uncut skipDist sep p c

theorem scalars_join {path : List Text} (h : ∀ name ∈ path, IsName name) :
    Scalars (pathText path) := by
  induction path with
  | nil => exact .nil
  | cons name path ih =>
    have hname := (h name List.mem_cons_self).scalars
    cases path with
    | nil => simpa [pathText, join] using hname
    | cons next path =>
      have hrest := ih fun n hn => h n (List.mem_cons_of_mem _ hn)
      rw [pathText, join, List.intercalate_cons_cons]
      exact (hname.append (.unit (.inl (by decide)) .nil)).append hrest

theorem zero_notMem_pathText {path : List Text} (h : ∀ name ∈ path, IsName name) :
    0 ∉ pathText path := by
  induction path with
  | nil => exact List.not_mem_nil
  | cons name path ih =>
    have hname := (h name List.mem_cons_self).noZero
    cases path with
    | nil => simpa [pathText, join] using hname
    | cons next path =>
      have hrest := ih fun n hn => h n (List.mem_cons_of_mem _ hn)
      rw [pathText, join, List.intercalate_cons_cons]
      simp only [List.mem_append, List.mem_singleton, not_or]
      exact ⟨⟨hname, by omega⟩, hrest⟩

theorem zero_notMem_pathBytes {skipDist : Bool} {p : List Text} (h : IsPath skipDist p) :
    0 ∉ pathBytes p := by
  intro h0
  have hnames : ∀ name ∈ p, IsName name := fun name hn => (h.2 name hn).1
  exact zero_notMem_pathText hnames ((mem_utf8 (scalars_join hnames) h0).2 rfl)

/-- A slash path is split back into its names. -/
theorem pathText_injective {skipDist : Bool} {p q : List Text} (hp : IsPath skipDist p)
    (hq : IsPath skipDist q) (h : pathText p = pathText q) : p = q := by
  have hsplit : ∀ {path : List Text}, IsPath skipDist path → (pathText path).splitOn 47 = path :=
    fun hpath => List.splitOn_intercalate 47 (fun name hn => (hpath.2 name hn).1.noSlash) hpath.1
  rw [← hsplit hp, h, hsplit hq]

theorem pathBytes_injective {skipDist : Bool} {p q : List Text} (hp : IsPath skipDist p)
    (hq : IsPath skipDist q) (h : pathBytes p = pathBytes q) : p = q :=
  pathText_injective hp hq
    (utf8_injective (scalars_join fun n hn => (hp.2 n hn).1) (scalars_join fun n hn => (hq.2 n hn).1) h)

/-- The files of a folder in the order in which they are hashed. -/
def sortedFiles (skipDist : Bool) (t : Folder) : List (List Text × List Nat) :=
  (files skipDist t).mergeSort fun f g => textLe (pathText f.1) (pathText g.1)

def digestBytes (skipDist : Bool) (sep : List Nat) (t : Folder) : List Nat :=
  records pathBytes sep (sortedFiles skipDist t)

theorem hashFiles_listing (w : Walk) (sep : List Nat) {t : Folder} (h : IsFolder w.skipDist t) :
    (listing w t).map (hashFiles sha sep) = .ok (sha (digestBytes w.skipDist sep t)) := by
  have hsort := List.map_mergeSort (r := fun f g => textLe (pathText f.1) (pathText g.1))
    (s := fun a b : Text × List Nat => textLe a.1 b.1) (f := fun f => (pathText f.1, f.2))
    (l := files w.skipDist t) fun _ _ _ _ => rfl
  have hrecords : ∀ l : List (List Text × List Nat),
      records utf8 sep (l.map fun f => (pathText f.1, f.2)) = records pathBytes sep l := fun l => by
    rw [records, records, List.flatMap_map]
    rfl
  have hlisting : listing w t = .ok ((files w.skipDist t).map fun f => (pathText f.1, f.2)) := by
    rw [listing, walk_eq w h]
    rfl
  rw [hlisting, digestBytes, sortedFiles, ← hrecords, hsort]
  rfl

theorem files_paths_nodup {skipDist : Bool} {t : Folder} (h : IsFolder skipDist t) :
    ((files skipDist t).map Prod.fst).Nodup :=
  List.pairwise_map.mpr ((files_apart h).imp fun {f g} hapart (heq : f.1 = g.1) =>
    hapart.1 (heq ▸ List.prefix_refl f.1))

theorem pathTexts_nodup {skipDist : Bool} {t : Folder} (h : IsFolder skipDist t) :
    ((files skipDist t).map fun f => pathText f.1).Nodup := by
  refine List.pairwise_map.mpr ((List.pairwise_map.mp (files_paths_nodup h)).imp_of_mem
    fun {f g} hf hg hne heq => hne ?_)
  exact pathText_injective (path_of_mem_files h hf).1 (path_of_mem_files h hg).1 heq

theorem sortedFiles_eq {skipDist : Bool} {t : Folder} (h : IsFolder skipDist t)
    {l : List (List Text × List Nat)} (hperm : (files skipDist t).Perm l)
    (hsorted : l.Pairwise fun f g => textLe (pathText f.1) (pathText g.1) = true) :
    sortedFiles skipDist t = l := by
  rw [sortedFiles, mergeSort_eq_of_perm (fun f => pathText f.1) hperm (pathTexts_nodup h)]
  exact List.mergeSort_of_pairwise hsorted

theorem sortedFiles_sorted (skipDist : Bool) (t : Folder) :
    (sortedFiles skipDist t).Pairwise fun f g => textLe (pathText f.1) (pathText g.1) = true :=
  pairwise_mergeSort_text (fun f : List Text × List Nat => pathText f.1) _

theorem sortedFiles_perm (skipDist : Bool) (t : Folder) :
    (sortedFiles skipDist t).Perm (files skipDist t) := List.mergeSort_perm _ _

theorem sortedFiles_of_same {skipDist : Bool} {s t : Folder} (hs : IsFolder skipDist s)
    (ht : IsFolder skipDist t) (h : SameFiles skipDist s t) :
    sortedFiles skipDist s = sortedFiles skipDist t := by
  refine sortedFiles_eq hs (.trans ?_ (sortedFiles_perm skipDist t).symm) (sortedFiles_sorted _ _)
  exact (List.perm_ext_iff_of_nodup (files_paths_nodup hs).of_map (files_paths_nodup ht).of_map).mpr h

/-- Two files of a folder, one listed before the other. -/
theorem behind_of_sorted {skipDist : Bool} {t : Folder} (h : IsFolder skipDist t)
    {front more : List (List Text × List Nat)} {f g : List Text × List Nat}
    (hsorted : sortedFiles skipDist t = front ++ f :: g :: more) : Behind skipDist f.1 g.1 := by
  have happart : (sortedFiles skipDist t).Pairwise fun f g => Apart f.1 g.1 :=
    (files_apart h).perm (sortedFiles_perm skipDist t).symm fun hab => ⟨hab.2, hab.1⟩
  have horder := sortedFiles_sorted skipDist t
  rw [hsorted] at happart horder
  have hg : g ∈ files skipDist t := (sortedFiles_perm skipDist t).mem_iff.mp (by simp [hsorted])
  have hin : ∀ {R : List Text × List Nat → List Text × List Nat → Prop},
      (front ++ f :: g :: more).Pairwise R → R f g := fun hR =>
    (List.pairwise_cons.mp (List.pairwise_append.mp hR).2.1).1 g List.mem_cons_self
  exact ⟨(path_of_mem_files h hg).1, hin happart, hin horder⟩

/-- Same bytes as a folder that has one file and no cut: the same files. -/
theorem same_of_lone {skipDist : Bool} {sep : List Nat} {s t : Folder} (hs : IsFolder skipDist s)
    (ht : IsFolder skipDist t) (hlone : LoneFile skipDist sep t)
    (h : digestBytes skipDist sep s = digestBytes skipDist sep t) : SameFiles skipDist s t := by
  suffices hsorted : (sortedFiles skipDist s).Perm (files skipDist t) from fun f =>
    ((sortedFiles_perm skipDist s).symm.trans hsorted).mem_iff
  have hpaths : ∀ {u : Folder}, IsFolder skipDist u → ∀ f ∈ sortedFiles skipDist u,
      IsPath skipDist f.1 := fun hu f hf =>
    (path_of_mem_files hu ((sortedFiles_perm _ _).mem_iff.mp hf)).1
  rcases hlone with hnil | ⟨p, c, hone, huncut⟩
  · have hsorted : sortedFiles skipDist t = [] :=
      List.perm_nil.mp (hnil ▸ sortedFiles_perm skipDist t)
    rw [digestBytes, digestBytes, hsorted, records_nil] at h
    cases hfiles : sortedFiles skipDist s with
    | nil => rw [hnil]
    | cons f fs => simp [hfiles, record] at h
  · have hsorted : sortedFiles skipDist t = [(p, c)] :=
      List.perm_singleton.mp (hone ▸ sortedFiles_perm skipDist t)
    have hp : IsPath skipDist p := hpaths ht (p, c) (by simp [hsorted])
    rw [digestBytes, digestBytes, hsorted] at h
    have hzero : ∀ f ∈ sortedFiles skipDist s, 0 ∉ pathBytes f.1 := fun f hf =>
      zero_notMem_pathBytes (hpaths hs f hf)
    rcases records_eq_single (zero_notMem_pathBytes hp) hzero h with
      ⟨q, hkey, hsorted⟩ | ⟨o, x, q, y, more, z, hsorted, hkey, hc⟩
    · have hq : IsPath skipDist q := hpaths hs (q, c) (by simp [hsorted])
      rw [hsorted, hone, pathBytes_injective hq hp hkey]
    · have ho : IsPath skipDist o := hpaths hs (o, x) (by simp [hsorted])
      have hbehind : Behind skipDist o q :=
        behind_of_sorted hs (show _ = [] ++ (o, x) :: (q, y) :: more from hsorted)
      rw [pathBytes_injective ho hp hkey] at hbehind
      exact absurd hc (huncut x q z hbehind)

/-- A file whose content can be cut: two files with the same bytes. -/
theorem exists_of_cut {skipDist : Bool} {sep : List Nat} {t : Folder} (ht : IsFolder skipDist t)
    {p : List Text} {x z : List Nat} {q : List Text} (hbehind : Behind skipDist p q)
    (hone : files skipDist t = [(p, joinedContent pathBytes sep x q z)]) :
    ∃ s, IsFolder skipDist s ∧ digestBytes skipDist sep s = digestBytes skipDist sep t ∧
      ¬SameFiles skipDist s t := by
  have hfile := path_of_mem_files ht (f := (p, joinedContent pathBytes sep x q z)) (by simp [hone])
  have hbytes : ∀ b ∈ joinedContent pathBytes sep x q z, b < 256 := hfile.2
  have hx : ∀ b ∈ x, b < 256 := fun b hb => hbytes b (by simp [joinedContent, hb])
  have hz : ∀ b ∈ z, b < 256 := fun b hb => hbytes b (by simp [joinedContent, hb])
  have hfiles : files skipDist (pairFolder x z p q) = [(p, x), (q, z)] :=
    files_pairFolder x z (fun n hn => (hfile.1.2 n hn).2) (fun n hn => (hbehind.path.2 n hn).2)
      hbehind.apart
  have hfolder : IsFolder skipDist (pairFolder x z p q) :=
    isFolder_pairFolder hx hz (fun n hn => (hfile.1.2 n hn).1)
      (fun n hn => (hbehind.path.2 n hn).1) hbehind.apart
  refine ⟨_, hfolder, ?_, fun hsame => ?_⟩
  · rw [digestBytes, digestBytes, sortedFiles_eq hfolder (.of_eq hfiles)
      (by simpa using hbehind.order), sortedFiles_eq ht (.of_eq hone) (List.pairwise_singleton _ _)]
    exact records_join pathBytes sep p q x z
  · have hmem : (q, z) ∈ files skipDist t := (hsame (q, z)).mp (by simp [hfiles])
    rw [hone, List.mem_singleton] at hmem
    have hqp : q = p := congrArg Prod.fst hmem
    exact hbehind.apart.1 (hqp ▸ List.prefix_refl q)

/-- The edit that writes the file `q` into the file `p`. -/
def joinInto (p q : List Text) (content : List Nat) (path : List Text) (bytes : List Nat) :
    Option (List Nat) :=
  if path = q then none else if path = p then some content else some bytes

theorem filterMap_joinInto {p q : List Text} {front : List (List Text × List Nat)}
    {x y : List Nat} (hnodup : ((front ++ [(p, x), (q, y)]).map Prod.fst).Nodup)
    (content : List Nat) :
    ((front ++ [(p, x), (q, y)]).filterMap fun g =>
      (joinInto p q content g.1 g.2).map fun b => (g.1, b)) = front ++ [(p, content)] := by
  rw [List.map_append, List.nodup_append] at hnodup
  obtain ⟨-, hpq, hfront⟩ := hnodup
  have hne : p ≠ q := by simpa using hpq
  rw [List.filterMap_append]
  congr 1
  · rw [List.filterMap_congr (g := some), List.filterMap_some]
    intro g hg
    have hg' := hfront g.1 (List.mem_map_of_mem hg)
    rw [joinInto, if_neg (hg' q (by simp)), if_neg (hg' p (by simp))]
    rfl
  · simp [joinInto, hne]

/-- Two or more files: the last two written as one have the same bytes. -/
theorem exists_of_many {skipDist : Bool} {sep : List Nat} (hsep : ∀ b ∈ sep, b < 256) {t : Folder}
    (ht : IsFolder skipDist t) {front : List (List Text × List Nat)} {p q : List Text}
    {x y : List Nat} (hsorted : sortedFiles skipDist t = front ++ [(p, x), (q, y)]) :
    ∃ s, IsFolder skipDist s ∧ digestBytes skipDist sep s = digestBytes skipDist sep t ∧
      ¬SameFiles skipDist s t := by
  have hmem : ∀ f ∈ front ++ [(p, x), (q, y)], f ∈ files skipDist t := fun f hf =>
    (sortedFiles_perm skipDist t).mem_iff.mp (hsorted ▸ hf)
  have hqfile := path_of_mem_files ht (hmem (q, y) (by simp))
  have hcontent : ∀ b ∈ joinedContent pathBytes sep x q y, b < 256 := by
    intro b hb
    simp only [joinedContent, List.mem_append, List.mem_cons] at hb
    rcases hb with ((hb | hb) | hb) | rfl | hb
    · exact (path_of_mem_files ht (hmem (p, x) (by simp))).2 b hb
    · exact hsep b hb
    · exact (mem_utf8 (scalars_join fun n hn => (hqfile.1.2 n hn).1) hb).1
    · omega
    · exact hqfile.2 b hb
  have hfolder : IsFolder skipDist (edit (joinInto p q (joinedContent pathBytes sep x q y)) t) := by
    refine isFolder_edit ht fun path bytes b hbytes hb => ?_
    unfold joinInto at hb
    split at hb
    · cases hb
    · split at hb <;> cases hb
      · exact hcontent
      · exact hbytes
  have hperm : (files skipDist (edit (joinInto p q (joinedContent pathBytes sep x q y)) t)).Perm
      (front ++ [(p, joinedContent pathBytes sep x q y)]) := by
    have hnodup := files_paths_nodup ht
    rw [← ((sortedFiles_perm skipDist t).map _).nodup_iff, hsorted] at hnodup
    rw [files_edit, ← filterMap_joinInto hnodup, ← hsorted]
    exact (sortedFiles_perm skipDist t).symm.filterMap _
  refine ⟨_, hfolder, ?_, fun hsame => ?_⟩
  · have horder := sortedFiles_sorted skipDist t
    rw [hsorted, List.append_cons] at horder
    have hpaths : ∀ l : List (List Text × List Nat),
        (l.Pairwise fun f g => textLe (pathText f.1) (pathText g.1) = true) ↔
          (l.map Prod.fst).Pairwise fun p q => textLe (pathText p) (pathText q) = true :=
      fun l => by rw [List.pairwise_map]
    have hkeys := (hpaths _).mp (List.pairwise_append.mp horder).1
    rw [List.map_append] at hkeys
    have hjoined := (hpaths (front ++ [(p, joinedContent pathBytes sep x q y)])).mpr
      (by rw [List.map_append]; exact hkeys)
    rw [digestBytes, digestBytes, sortedFiles_eq hfolder hperm hjoined, hsorted, records_append,
      records_append, records_join]
  · have hq := hperm.mem_iff.mp ((hsame (q, y)).mpr (hmem (q, y) (by simp)))
    have hnodup := files_paths_nodup ht
    rw [← ((sortedFiles_perm skipDist t).map _).nodup_iff, hsorted, List.map_append,
      List.nodup_append] at hnodup
    rcases List.mem_append.mp hq with hq | hq
    · exact hnodup.2.2 q (List.mem_map_of_mem hq) q (by simp) rfl
    · have hpq : q = p := congrArg Prod.fst (List.mem_singleton.mp hq)
      have hne : p ≠ q := by simpa using hnodup.2.1
      exact hne hpq.symm

theorem exists_of_not_lone {skipDist : Bool} {sep : List Nat} (hsep : ∀ b ∈ sep, b < 256)
    {t : Folder} (ht : IsFolder skipDist t) (h : ¬LoneFile skipDist sep t) :
    ∃ s, IsFolder skipDist s ∧ digestBytes skipDist sep s = digestBytes skipDist sep t ∧
      ¬SameFiles skipDist s t := by
  have hperm := sortedFiles_perm skipDist t
  rw [LoneFile, not_or] at h
  rcases (sortedFiles skipDist t).eq_nil_or_concat with hnil | ⟨rest, ⟨q, y⟩, hlast⟩
  · rw [hnil] at hperm
    exact absurd hperm.nil_eq.symm h.1
  rw [List.concat_eq_append] at hlast
  rcases rest.eq_nil_or_concat with rfl | ⟨front, ⟨p, x⟩, rfl⟩
  · rw [hlast] at hperm
    have hone : files skipDist t = [(q, y)] := List.singleton_perm.mp hperm |>.symm
    have hcut : ¬Uncut skipDist sep q y := fun hc => h.2 ⟨q, y, hone, hc⟩
    simp only [Uncut, not_forall, not_not] at hcut
    obtain ⟨x, o, z, hbehind, rfl⟩ := hcut
    exact exists_of_cut ht hbehind hone
  · rw [List.concat_eq_append, List.append_assoc] at hlast
    exact exists_of_many hsep ht hlast

theorem identifies_iff {sha : List Nat → D} (hsha : sha.Injective) (w : Walk) {sep : List Nat}
    (hsep : ∀ b ∈ sep, b < 256) {t : Folder} (ht : IsFolder w.skipDist t) :
    Identifies (fun dir => (listing w dir).map (hashFiles sha sep)) w.skipDist t ↔
      LoneFile w.skipDist sep t := by
  have hiff : ∀ s, IsFolder w.skipDist s →
      ((listing w s).map (hashFiles sha sep) = (listing w t).map (hashFiles sha sep) ↔
        digestBytes w.skipDist sep s = digestBytes w.skipDist sep t) := fun s hs => by
    rw [hashFiles_listing sha w sep hs, hashFiles_listing sha w sep ht, Except.ok.injEq]
    exact hsha.eq_iff
  constructor
  · intro hid
    by_contra hlone
    obtain ⟨s, hs, hbytes, hother⟩ := exists_of_not_lone hsep ht hlone
    exact hother ((hid s hs).mp ((hiff s hs).mpr hbytes))
  · intro hlone s hs
    refine (hiff s hs).trans ⟨same_of_lone hs ht hlone, fun hsame => ?_⟩
    rw [digestBytes, digestBytes, sortedFiles_of_same hs ht hsame]

theorem isName_of_ascii {name : Text} (hne : name ≠ [])
    (h : ∀ u ∈ name, 0 < u ∧ u < 128 ∧ u ≠ 47) : IsName name := by
  refine ⟨hne, ?_, fun h0 => absurd (h 0 h0).1 (lt_irrefl 0), fun h47 => (h 47 h47).2.2 rfl⟩
  clear hne
  induction name with
  | nil => exact .nil
  | cons u name ih =>
    have hu := h u List.mem_cons_self
    exact .unit (by omega) (ih fun v hv => h v (List.mem_cons_of_mem _ hv))

theorem isFolder_of_files {skipDist : Bool} {fs : List (Text × List Nat)}
    (hnodup : (fs.map Prod.fst).Nodup) (hnames : ∀ f ∈ fs, IsName f.1)
    (hbytes : ∀ f ∈ fs, ∀ b ∈ f.2, b < 256) :
    IsFolder skipDist (fs.map fun f => (f.1, .file f.2)) := by
  refine .mk ?_ (fun e he => ?_) (fun e he _ => ?_) fun e he _ sub hsub => ?_
  · rw [List.map_map]
    exact hnodup
  all_goals obtain ⟨f, hf, rfl⟩ := List.mem_map.mp he
  · exact hnames f hf
  · refine ⟨nofun, nofun, fun bytes hb => ?_⟩
    cases hb
    exact hbytes f hf
  · cases hsub

def folderOf (fs : List (String × String)) : Folder :=
  fs.map fun f => (js f.1, .file (utf8 (js f.2)))

theorem isFolder_folderOf {skipDist : Bool} {fs : List (String × String)}
    (hnodup : (fs.map fun f => js f.1).Nodup)
    (hnames : ∀ f ∈ fs, js f.1 ≠ [] ∧ ∀ u ∈ js f.1, 0 < u ∧ u < 128 ∧ u ≠ 47)
    (hbytes : ∀ f ∈ fs, ∀ b ∈ utf8 (js f.2), b < 256) : IsFolder skipDist (folderOf fs) := by
  have hmap : folderOf fs =
      (fs.map fun f => (js f.1, utf8 (js f.2))).map fun f => (f.1, .file f.2) := by
    rw [folderOf, List.map_map]
    rfl
  rw [hmap]
  refine isFolder_of_files ?_ (fun f hf => ?_) fun f hf => ?_
  · rw [List.map_map]
    exact hnodup
  all_goals obtain ⟨g, hg, rfl⟩ := List.mem_map.mp hf
  · exact isName_of_ascii (hnames g hg).1 (hnames g hg).2
  · exact hbytes g hg

theorem hash_eq_of_listing {w : Walk} {sep : List Nat} {s t : Folder}
    {fs gs : List (Text × List Nat)} (hs : listing w s = .ok fs) (ht : listing w t = .ok gs)
    (hfs : fs.Pairwise fun a b => textLe a.1 b.1 = true)
    (hgs : gs.Pairwise fun a b => textLe a.1 b.1 = true)
    (h : records utf8 sep fs = records utf8 sep gs) :
    (listing w s).map (hashFiles sha sep) = (listing w t).map (hashFiles sha sep) := by
  rw [hs, ht]
  simp only [Except.map, hashFiles, List.mergeSort_of_pairwise hfs, List.mergeSort_of_pairwise hgs, h]

/-- No other folder has a folder's digest exactly when it has no file, or one that cannot be
read as two. -/
theorem tree_digest_identifies_iff {sha : List Nat → D} (hsha : sha.Injective) {m u : Folder}
    (hm : IsFolder true m) (hu : IsFolder false u) :
    (Identifies (moduleFolderHash sha) true m ↔ LoneFile true [] m) ∧
      (Identifies (exactModuleTreeHash sha) true m ↔ LoneFile true [] m) ∧
      (Identifies (digestUpdateTree sha) false u ↔ LoneFile false [0] u) := by
  have hempty : ∀ b ∈ ([] : List Nat), b < 256 := nofun
  exact ⟨identifies_iff hsha listFilesWalk hempty hm, identifies_iff hsha treeFilesWalk hempty hm,
    identifies_iff hsha listTreeFilesWalk (by decide) hu⟩

theorem tree_digest_identifies_iff_two :
    (Identifies (moduleFolderHash id) true (folderOf [("a", "x"), ("bc", "y")]) ↔
      LoneFile true [] (folderOf [("a", "x"), ("bc", "y")])) ∧
    (Identifies (exactModuleTreeHash id) true (folderOf [("a", "x"), ("bc", "y")]) ↔
      LoneFile true [] (folderOf [("a", "x"), ("bc", "y")])) ∧
    (Identifies (digestUpdateTree id) false (folderOf [("a", "x"), ("b", "y")]) ↔
      LoneFile false [0] (folderOf [("a", "x"), ("b", "y")])) :=
  tree_digest_identifies_iff (fun _ _ h => h)
    (isFolder_folderOf (by decide) (by decide) (by decide))
    (isFolder_folderOf (by decide) (by decide) (by decide))

/-- Bytes moved from a name into the content before it, and two files joined into one. -/
theorem tree_digest_collides :
    (IsFolder true (folderOf [("a", "x"), ("bc", "y")]) ∧
      IsFolder true (folderOf [("a", "xb"), ("c", "y")]) ∧
      moduleFolderHash id (folderOf [("a", "x"), ("bc", "y")]) =
        moduleFolderHash id (folderOf [("a", "xb"), ("c", "y")]) ∧
      exactModuleTreeHash id (folderOf [("a", "x"), ("bc", "y")]) =
        exactModuleTreeHash id (folderOf [("a", "xb"), ("c", "y")]) ∧
      ¬SameFiles true (folderOf [("a", "x"), ("bc", "y")]) (folderOf [("a", "xb"), ("c", "y")])) ∧
    IsFolder false (folderOf [("a", "x"), ("b", "y")]) ∧
      IsFolder false (folderOf [("a", "x\x00b\x00y")]) ∧
      digestUpdateTree id (folderOf [("a", "x"), ("b", "y")]) =
        digestUpdateTree id (folderOf [("a", "x\x00b\x00y")]) ∧
      ¬SameFiles false (folderOf [("a", "x"), ("b", "y")]) (folderOf [("a", "x\x00b\x00y")]) := by
  refine ⟨⟨?_, ?_, ?_, ?_, fun h => ?_⟩, ?_, ?_, ?_, fun h => ?_⟩
  · exact isFolder_folderOf (by decide) (by decide) (by decide)
  · exact isFolder_folderOf (by decide) (by decide) (by decide)
  · exact hash_eq_of_listing id rfl rfl (by decide) (by decide) (by decide)
  · exact hash_eq_of_listing id rfl rfl (by decide) (by decide) (by decide)
  · have := (h ([js "a"], utf8 (js "x"))).mp (by decide)
    exact absurd this (by decide)
  · exact isFolder_folderOf (by decide) (by decide) (by decide)
  · exact isFolder_folderOf (by decide) (by decide) (by decide)
  · exact hash_eq_of_listing id rfl rfl (by decide) (by decide) (by decide)
  · have := (h ([js "a"], utf8 (js "x"))).mp (by decide)
    exact absurd this (by decide)

end BoredManager.Server
