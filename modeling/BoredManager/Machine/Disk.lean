import Mathlib.Data.List.Infix
import Mathlib.Logic.Function.Basic
import Mathlib.Tactic.Common

/-! A hierarchical store: what is at each path, the calls that make and remove nodes, and
the layout that a list of items leaves below a directory. -/
namespace BoredManager.Storage
variable {κ : Type*} [DecidableEq κ]

inductive Node where
  | dir
  | file (bytes : List Nat)
deriving DecidableEq

abbrev Disk (κ : Type*) := List κ → Option Node

/-- Why a call fails: the path is taken, its parent is no directory, or the store does not
take such a path. -/
inductive Errno where
  | taken
  | absent
  | refused
deriving DecidableEq

def put (d : Disk κ) (p : List κ) (node : Option Node) : Disk κ := Function.update d p node

/-- Every node lies in a directory. -/
def Rooted (d : Disk κ) : Prop :=
  ∀ p q, q <+: p → q ≠ p → d p ≠ none → d q = some .dir

/-- A new node at a path where nothing is. -/
def make (takes : List κ → Bool) (node : Node) (p : List κ) (d : Disk κ) : Option Errno × Disk κ :=
  if takes p = false then (some .refused, d)
  else if d p ≠ none then (some .taken, d)
  else if d p.dropLast ≠ some .dir then (some .absent, d)
  else (none, put d p (some node))

/-- All missing directories down a path. -/
def mkdirs (takes : List κ → Bool) : List κ → List κ → Disk κ → Option Errno × Disk κ
  | base, [], d => if d base = some .dir then (none, d) else (some .taken, d)
  | base, name :: names, d =>
    match d (base ++ [name]) with
    | some (.file _) => (some .taken, d)
    | some .dir => mkdirs takes (base ++ [name]) names d
    | none =>
      match make takes .dir (base ++ [name]) d with
      | (none, d) => mkdirs takes (base ++ [name]) names d
      | (some errno, d) => (some errno, d)

attribute [local grind] mkdirs

def Node.append (bytes : List Nat) : Node → Node
  | .dir => .dir
  | .file old => .file (old ++ bytes)

/-- Bytes at the end of a file. -/
def append (p : List κ) (bytes : List Nat) (d : Disk κ) : Disk κ :=
  put d p ((d p).map (Node.append bytes))

/-- A file goes; a directory stays. -/
def removeFile (p : List κ) (d : Disk κ) : Disk κ :=
  match d p with
  | some (.file _) => put d p none
  | _ => d

/-- The path and all that is below it. -/
def removeTree (p : List κ) (d : Disk κ) : Disk κ := fun q => if p.isPrefixOf q then none else d q

@[simp] theorem put_self (d : Disk κ) (p : List κ) (node : Option Node) : put d p node p = node :=
  Function.update_self ..

@[simp] theorem put_of_ne {d : Disk κ} {p q : List κ} (h : q ≠ p) (node : Option Node) :
    put d p node q = d q :=
  Function.update_of_ne h ..

theorem append_file {d : Disk κ} {p : List κ} {old : List Nat} (h : d p = some (.file old))
    (bytes : List Nat) : append p bytes d p = some (.file (old ++ bytes)) := by
  simp [append, h, Node.append]

theorem removeTree_below {p q : List κ} (h : p <+: q) (d : Disk κ) : removeTree p d q = none := by
  simp [removeTree, h]

theorem removeTree_elsewhere {p q : List κ} (h : ¬p <+: q) (d : Disk κ) :
    removeTree p d q = d q := by
  simp [removeTree, h]

theorem make_cases {takes : List κ → Bool} {node : Node} {p : List κ} {d d' : Disk κ}
    {result : Option Errno} (h : make takes node p d = (result, d')) :
    (∃ errno, result = some errno ∧ d' = d) ∨
      (result = none ∧ d p = none ∧ d p.dropLast = some .dir ∧ d' = put d p (some node)) := by
  unfold make at h
  split_ifs at h with hrefused htaken habsent <;> obtain ⟨rfl, rfl⟩ := h
  · exact .inl ⟨_, rfl, rfl⟩
  · exact .inl ⟨_, rfl, rfl⟩
  · exact .inl ⟨_, rfl, rfl⟩
  · exact .inr ⟨rfl, not_not.mp htaken, not_not.mp habsent, rfl⟩

theorem make_ok {takes : List κ → Bool} (node : Node) {p : List κ} {d : Disk κ}
    (htakes : takes p = true) (hnew : d p = none) (hparent : d p.dropLast = some .dir) :
    make takes node p d = (none, put d p (some node)) := by
  simp [make, htakes, hnew, hparent]

/-- What directories made down a path change: nothing that was there. -/
structure MadeDirs (base names : List κ) (d d' : Disk κ) : Prop where
  kept : ∀ p, d' p = d p ∨ (d p = none ∧ ∃ q, q <+: names ∧ q ≠ [] ∧ p = base ++ q)

omit [DecidableEq κ] in
theorem MadeDirs.of_some {base names : List κ} {d d' : Disk κ} (h : MadeDirs base names d d')
    {p : List κ} {node : Node} (hp : d p = some node) : d' p = some node := by
  rcases h.kept p with heq | ⟨hnone, -⟩
  · rw [heq, hp]
  · rw [hp] at hnone
    cases hnone

theorem mkdirs_kept {takes : List κ → Bool} {base names : List κ} {d d' : Disk κ}
    {result : Option Errno} (h : mkdirs takes base names d = (result, d')) :
    MadeDirs base names d d' := by
  induction names generalizing base d with
  | nil =>
    rw [mkdirs] at h
    split_ifs at h <;> obtain ⟨rfl, rfl⟩ := h <;> exact ⟨fun p => .inl rfl⟩
  | cons name names ih =>
    have hdeeper : ∀ {q : List κ}, q <+: names → name :: q <+: name :: names := fun hq =>
      (List.cons_prefix_cons).mpr ⟨rfl, hq⟩
    rw [mkdirs] at h
    split at h
    · obtain ⟨rfl, rfl⟩ := h
      exact ⟨fun p => .inl rfl⟩
    · refine ⟨fun p => (ih h).kept p |>.imp id ?_⟩
      rintro ⟨hnone, q, hq, -, rfl⟩
      exact ⟨hnone, name :: q, hdeeper hq, by simp, by simp⟩
    · rename_i hnew
      cases hmake : make takes .dir (base ++ [name]) d with
      | mk errno dmade =>
        rw [hmake] at h
        rcases make_cases hmake with ⟨errno, rfl, rfl⟩ | ⟨rfl, -, -, rfl⟩
        · obtain ⟨rfl, rfl⟩ := h
          exact ⟨fun p => .inl rfl⟩
        · refine ⟨fun p => ?_⟩
          by_cases hp : p = base ++ [name]
          · rw [hp]
            exact .inr ⟨hnew, [name], hdeeper List.nil_prefix, by simp, rfl⟩
          · rcases (ih h).kept p with heq | ⟨hnone, q, hq, -, rfl⟩
            · exact .inl (heq.trans (put_of_ne hp _))
            · rw [put_of_ne hp] at hnone
              exact .inr ⟨hnone, name :: q, hdeeper hq, by simp, by simp⟩

theorem mkdirs_dirs {takes : List κ → Bool} {base names : List κ} {d d' : Disk κ}
    (h : mkdirs takes base names d = (none, d')) {q : List κ} (hq : q <+: names)
    (hne : q ≠ [] ∨ names = []) : d' (base ++ q) = some .dir := by
  induction names generalizing base d q with
  | nil =>
    rw [mkdirs] at h
    obtain rfl := List.prefix_nil.mp hq
    split_ifs at h with hdir
    · obtain ⟨-, rfl⟩ := h
      simpa using hdir
    · cases h
  | cons name names ih =>
    obtain ⟨r, rfl, hr⟩ : ∃ r, q = name :: r ∧ r <+: names := by
      cases q with
      | nil => simp at hne
      | cons n r =>
        obtain ⟨rfl, hr⟩ := List.cons_prefix_cons.mp hq
        exact ⟨r, rfl, hr⟩
    -- the directory of `name` is there before the rest of the path is made
    have hstep : ∃ dmade : Disk κ, dmade (base ++ [name]) = some .dir ∧
        mkdirs takes (base ++ [name]) names dmade = (none, d') := by
      rw [mkdirs] at h
      split at h
      · cases h
      · exact ⟨d, ‹_›, h⟩
      · cases hmake : make takes .dir (base ++ [name]) d with
        | mk errno dmade =>
          rw [hmake] at h
          rcases make_cases hmake with ⟨errno, rfl, rfl⟩ | ⟨rfl, -, -, rfl⟩
          · cases h
          · exact ⟨_, put_self _ _ _, h⟩
    obtain ⟨dmade, hmade, hrest⟩ := hstep
    by_cases hempty : r = []
    · subst hempty
      exact (mkdirs_kept hrest).of_some hmade
    · simpa using ih hrest hr (.inl hempty)

theorem mkdirs_ok {takes : List κ → Bool} {base names : List κ} {d : Disk κ}
    (hbase : d base = some .dir)
    (htakes : ∀ q, q <+: names → q ≠ [] → takes (base ++ q) = true)
    (hclear : ∀ q, q <+: names → ∀ bytes, d (base ++ q) ≠ some (.file bytes)) :
    (mkdirs takes base names d).1 = none := by
  induction names generalizing base d with
  | nil => simp [mkdirs, hbase]
  | cons name names ih =>
    have hdeeper : ∀ {q : List κ}, q <+: names → name :: q <+: name :: names := fun hq =>
      (List.cons_prefix_cons).mpr ⟨rfl, hq⟩
    have htakes' : ∀ q, q <+: names → q ≠ [] → takes (base ++ [name] ++ q) = true := fun q hq _ => by
      simpa using htakes (name :: q) (hdeeper hq) (by simp)
    have hclear' : ∀ q, q <+: names → ∀ bytes, d (base ++ [name] ++ q) ≠ some (.file bytes) :=
      fun q hq bytes => by simpa using hclear (name :: q) (hdeeper hq) bytes
    rw [mkdirs]
    split
    · exact absurd ‹_› (hclear [name] (hdeeper List.nil_prefix) _)
    · exact ih ‹_› htakes' hclear'
    · rename_i hnew
      rw [make_ok .dir (htakes [name] (hdeeper List.nil_prefix) (by simp)) hnew (by simpa using hbase)]
      refine ih (put_self _ _ _) htakes' fun q hq bytes => ?_
      by_cases hp : base ++ [name] ++ q = base ++ [name]
      · rw [hp, put_self]
        exact fun h => by cases h
      · rw [put_of_ne hp]
        exact hclear' q hq bytes

/-- Directories that are there are passed. -/
theorem mkdirs_append {takes : List κ → Bool} {base names rest : List κ} {d : Disk κ}
    (h : ∀ q, q <+: names → q ≠ [] → d (base ++ q) = some .dir) :
    mkdirs takes base (names ++ rest) d = mkdirs takes (base ++ names) rest d := by
  induction names generalizing base with
  | nil => simp
  | cons name names ih =>
    have hhere := h [name] (List.cons_prefix_cons.mpr ⟨rfl, List.nil_prefix⟩) (by simp)
    rw [List.cons_append, mkdirs, hhere]
    dsimp only
    rw [ih fun q hq _ => by
      simpa using h (name :: q) (List.cons_prefix_cons.mpr ⟨rfl, hq⟩) (by simp)]
    simp

/-- A base that is a directory, and nothing changed anywhere but below it. -/
structure Within (base : List κ) (before d : Disk κ) : Prop where
  root : d base = some .dir
  frame : ∀ p, ¬base <+: p → d p = before p

section
variable {base : List κ} {before d : Disk κ} (habove : ∀ q, q <+: base → q ≠ base → before q = some .dir)
include habove

omit [DecidableEq κ] in
theorem Within.dir (h : Within base before d) {q : List κ} (hq : q <+: base) : d q = some .dir := by
  by_cases heq : q = base
  · rw [heq, h.root]
  · have hnot : ¬base <+: q := fun hback => heq (hq.eq_of_length_le hback.length_le)
    rw [h.frame q hnot, habove q hq heq]

/-- From the root or from the base, the same directories are made. -/
theorem Within.mkdirs_base (h : Within base before d) (takes : List κ → Bool) (names : List κ) :
    mkdirs takes [] (base ++ names) d = mkdirs takes base names d :=
  mkdirs_append fun _ hq _ => h.dir habove hq

theorem Within.mkdirs (h : Within base before d) (takes : List κ → Bool) {names path : List κ}
    (hnames : names <+: base ++ path) : Within base before (mkdirs takes [] names d).2 := by
  have hkept : MadeDirs [] names d (Storage.mkdirs takes [] names d).2 := mkdirs_kept rfl
  refine ⟨hkept.of_some h.root, fun p hp => ?_⟩
  rcases hkept.kept p with heq | ⟨hnone, p, hq, -, rfl⟩
  · rw [heq, h.frame p hp]
  · have hup : p <+: base := by
      rcases List.prefix_or_prefix_of_prefix (hq.trans hnames) (List.prefix_append base path) with
        hup | hdown
      · exact hup
      · exact absurd hdown hp
    rw [h.dir habove hup] at hnone
    cases hnone

end

theorem Within.put {base : List κ} {before d : Disk κ} (h : Within base before d) {path : List κ}
    (hne : path ≠ []) (node : Option Node) : Within base before (put d (base ++ path) node) := by
  refine ⟨?_, fun p hp => ?_⟩
  · rw [put_of_ne (fun heq => hne (List.self_eq_append_right.mp heq)), h.root]
  · have hpath : p ≠ base ++ path := fun heq => hp (by rw [heq]; exact List.prefix_append base path)
    rw [put_of_ne hpath, h.frame p hp]

/-- A base that was not there goes without a trace. -/
theorem Within.removeTree {base : List κ} {before d : Disk κ} (h : Within base before d)
    (hrooted : Rooted before) (hnew : before base = none) : removeTree base d = before := by
  funext p
  by_cases hp : base <+: p
  · rw [removeTree_below hp]
    by_contra hsome
    by_cases heq : base = p
    · rw [← heq, hnew] at hsome
      exact hsome rfl
    · have hdir := hrooted p base hp heq fun hnone => hsome hnone.symm
      rw [hnew] at hdir
      cases hdir
  · rw [removeTree_elsewhere hp, h.frame p hp]

/-- A directory, or a file with its bytes, at a path below a base. -/
structure Item (κ : Type*) where
  path : List κ
  content : Option (List Nat)
deriving DecidableEq

/-- How many bytes an item has. -/
def Item.size {κ : Type*} (item : Item κ) : Nat := (item.content.getD []).length

/-- A directory with its parents; or an empty new file, its parents made first. -/
def reach (takes : List κ → Bool) (base path : List κ) (directory : Bool) (d : Disk κ) :
    Option Errno × Disk κ :=
  if directory then mkdirs takes base path d
  else
    match mkdirs takes base path.dropLast d with
    | (none, d) => make takes (.file []) (base ++ path) d
    | (some errno, d) => (some errno, d)

section
variable {base : List κ} {before d : Disk κ} (habove : ∀ q, q <+: base → q ≠ base → before q = some .dir)
include habove

theorem Within.reach_base (h : Within base before d) (takes : List κ → Bool) {path : List κ}
    (hne : path ≠ []) (directory : Bool) :
    reach takes [] (base ++ path) directory d = reach takes base path directory d := by
  rw [reach, reach, h.mkdirs_base habove, List.dropLast_append_of_ne_nil hne, h.mkdirs_base habove]
  rfl

theorem Within.reach (h : Within base before d) (takes : List κ → Bool) {path : List κ}
    (hne : path ≠ []) (directory : Bool) :
    Within base before (reach takes base path directory d).2 := by
  have hpath := h.mkdirs habove takes (List.prefix_refl (base ++ path))
  have hup : base ++ path.dropLast <+: base ++ path :=
    (List.prefix_append_right_inj base).mpr (List.dropLast_prefix path)
  have hparent := h.mkdirs habove takes hup
  rw [h.mkdirs_base habove] at hpath hparent
  unfold Storage.reach
  split
  · exact hpath
  · cases hmk : Storage.mkdirs takes base path.dropLast d with
    | mk errno made =>
      rw [hmk] at hparent
      cases errno with
      | some errno => exact hparent
      | none =>
        dsimp only
        cases hmake : make takes (.file []) (base ++ path) made with
        | mk result d' =>
          rcases make_cases hmake with ⟨_, rfl, rfl⟩ | ⟨rfl, -, -, rfl⟩
          · exact hparent
          · exact hparent.put hne _

end

/-- Below a base there are the items, the parents they need and nothing else. -/
structure Holds (base : List κ) (items : List (Item κ)) (d : Disk κ) : Prop where
  root : d base = some .dir
  file : ∀ item ∈ items, ∀ bytes, item.content = some bytes →
    d (base ++ item.path) = some (.file bytes)
  dir : ∀ item ∈ items, ∀ q, q <+: item.path → q ≠ item.path ∨ item.content = none →
    d (base ++ q) = some .dir
  only : ∀ q, q ≠ [] → d (base ++ q) ≠ none → ∃ item ∈ items, q <+: item.path

/-- The path of a file is not the path of another item, and not above it. -/
def Clear (a b : Item κ) : Prop :=
  (a.content ≠ none → ¬a.path <+: b.path) ∧ (b.content ≠ none → ¬b.path <+: a.path)

omit [DecidableEq κ] in
theorem Clear.symm {a b : Item κ} (h : Clear a b) : Clear b a := ⟨h.2, h.1⟩

omit [DecidableEq κ] in
theorem holds_nil {base : List κ} {d : Disk κ} (hroot : d base = some .dir)
    (hempty : ∀ q, q ≠ [] → d (base ++ q) = none) : Holds base [] d :=
  ⟨hroot, by simp, by simp, fun q hq h => absurd (hempty q hq) h⟩

omit [DecidableEq κ] in
theorem prefix_dropLast {q path : List κ} (h : q <+: path) (hne : q ≠ path) :
    q <+: path.dropLast := by
  obtain ⟨rest, rfl⟩ := h
  cases rest using List.reverseRecOn with
  | nil => simp at hne
  | append_singleton rest last =>
    rw [← List.append_assoc, List.dropLast_concat]
    exact List.prefix_append q rest

/-- A directory joins what the base holds. -/
theorem holds_directory {takes : List κ → Bool} {base path : List κ} {items : List (Item κ)}
    {d d' : Disk κ} (hold : Holds base items d)
    (h : reach takes base path true d = (none, d')) : Holds base (items ++ [⟨path, none⟩]) d' := by
  rw [reach, if_pos rfl] at h
  have hkept := mkdirs_kept h
  refine ⟨hkept.of_some hold.root, fun item hitem bytes hbytes => ?_,
    fun item hitem q hq hdir => ?_, fun q hq hsome => ?_⟩
  · rcases List.mem_append.mp hitem with hitem | hitem
    · exact hkept.of_some (hold.file item hitem bytes hbytes)
    · obtain rfl := List.mem_singleton.mp hitem
      cases hbytes
  · rcases List.mem_append.mp hitem with hitem | hitem
    · exact hkept.of_some (hold.dir item hitem q hq hdir)
    · obtain rfl := List.mem_singleton.mp hitem
      by_cases hq' : q = []
      · subst hq'
        simpa using hkept.of_some hold.root
      · exact mkdirs_dirs h hq (.inl hq')
  · rcases hkept.kept (base ++ q) with heq | ⟨-, r, hr, -, heq⟩
    · rw [heq] at hsome
      obtain ⟨item, hitem, hpre⟩ := hold.only q hq hsome
      exact ⟨item, List.mem_append_left _ hitem, hpre⟩
    · obtain rfl := List.append_cancel_left heq
      exact ⟨_, List.mem_append_right _ (List.mem_singleton_self _), hr⟩

/-- What making a file gives before anything is written to it. -/
theorem reach_file_cases {takes : List κ → Bool} {base path : List κ} {d d' : Disk κ}
    (h : reach takes base path false d = (none, d')) :
    ∃ made, mkdirs takes base path.dropLast d = (none, made) ∧ made (base ++ path) = none ∧
      d' = put made (base ++ path) (some (.file [])) := by
  rw [reach, if_neg (by simp)] at h
  cases hmk : mkdirs takes base path.dropLast d with
  | mk errno made =>
    rw [hmk] at h
    cases errno with
    | some errno => cases h
    | none =>
      rcases make_cases h with ⟨errno, hnone, -⟩ | ⟨-, hnew, -, rfl⟩
      · cases hnone
      · exact ⟨made, rfl, hnew, rfl⟩

/-- A file joins what the base holds, with the bytes that were written to it. -/
theorem holds_file {takes : List κ → Bool} {base path : List κ} {items : List (Item κ)}
    {d d' : Disk κ} (hold : Holds base items d)
    (h : reach takes base path false d = (none, d')) (bytes : List Nat) :
    Holds base (items ++ [⟨path, some bytes⟩]) (put d' (base ++ path) (some (.file bytes))) := by
  obtain ⟨made, hmade, hnew, rfl⟩ := reach_file_cases h
  have hkept := mkdirs_kept hmade
  have helse : ∀ {p : List κ} {node : Node}, made p = some node →
      put (put made (base ++ path) (some (.file []))) (base ++ path) (some (.file bytes)) p =
        some node := by
    intro p node hp
    have hpath : p ≠ base ++ path := fun heq => by
      rw [heq, hnew] at hp
      cases hp
    rw [put_of_ne hpath, put_of_ne hpath, hp]
  refine ⟨helse (hkept.of_some hold.root), fun item hitem written hwritten => ?_,
    fun item hitem q hq hdir => ?_, fun q hq hsome => ?_⟩
  · rcases List.mem_append.mp hitem with hitem | hitem
    · exact helse (hkept.of_some (hold.file item hitem written hwritten))
    · obtain rfl := List.mem_singleton.mp hitem
      obtain rfl := Option.some.inj hwritten
      exact put_self _ _ _
  · rcases List.mem_append.mp hitem with hitem | hitem
    · exact helse (hkept.of_some (hold.dir item hitem q hq hdir))
    · obtain rfl := List.mem_singleton.mp hitem
      have hpre : q <+: path.dropLast := prefix_dropLast hq (hdir.resolve_right (by simp))
      by_cases hq' : q = []
      · subst hq'
        simpa using helse (hkept.of_some hold.root)
      · exact helse (mkdirs_dirs hmade hpre (.inl hq'))
  · by_cases hpath : q = path
    · exact ⟨_, List.mem_append_right _ (List.mem_singleton_self _), hpath ▸ List.prefix_rfl⟩
    · have hpath' : base ++ q ≠ base ++ path := fun heq => hpath (List.append_cancel_left heq)
      rw [put_of_ne hpath', put_of_ne hpath'] at hsome
      rcases hkept.kept (base ++ q) with heq | ⟨-, r, hr, -, heq⟩
      · rw [heq] at hsome
        obtain ⟨item, hitem, hpre⟩ := hold.only q hq hsome
        exact ⟨item, List.mem_append_left _ hitem, hpre⟩
      · obtain rfl := List.append_cancel_left heq
        exact ⟨_, List.mem_append_right _ (List.mem_singleton_self _),
          hr.trans (List.dropLast_prefix path)⟩

/-- No file of the base is on the way to a path that is clear of its items. -/
theorem Holds.no_file {base : List κ} {items : List (Item κ)} {d : Disk κ} {new : Item κ}
    (hold : Holds base items d) (hclear : ∀ item ∈ items, Clear item new) {q : List κ}
    (hq : q <+: new.path) (bytes : List Nat) : d (base ++ q) ≠ some (.file bytes) := by
  intro hfile
  by_cases hempty : q = []
  · subst hempty
    rw [List.append_nil, hold.root] at hfile
    cases hfile
  · obtain ⟨item, hitem, hpre⟩ := hold.only q hempty (by rw [hfile]; simp)
    by_cases hitself : q = item.path ∧ item.content ≠ none
    · exact (hclear item hitem).1 hitself.2 (hitself.1 ▸ hq)
    · have hdir := hold.dir item hitem q hpre (by tauto)
      rw [hdir] at hfile
      cases hfile

/-- An item that is clear of all that the base holds can be made. -/
theorem reach_ok {takes : List κ → Bool} {base : List κ} {items : List (Item κ)} {d : Disk κ}
    {new : Item κ} (hold : Holds base items d) (hne : new.path ≠ [])
    (hclear : ∀ item ∈ items, Clear item new)
    (htakes : ∀ q, q <+: new.path → q ≠ [] → takes (base ++ q) = true) :
    (reach takes base new.path new.content.isNone d).1 = none := by
  cases hcontent : new.content with
  | none =>
    rw [Option.isNone_none, reach, if_pos rfl]
    exact mkdirs_ok hold.root htakes fun q hq => hold.no_file hclear hq
  | some bytes =>
    have hup : new.path.dropLast <+: new.path := List.dropLast_prefix _
    have hmk : (mkdirs takes base new.path.dropLast d).1 = none :=
      mkdirs_ok hold.root (fun q hq => htakes q (hq.trans hup)) fun q hq => hold.no_file hclear (hq.trans hup)
    rw [Option.isNone_some, reach, if_neg (by simp)]
    cases hmade : mkdirs takes base new.path.dropLast d with
    | mk errno made =>
      rw [hmade] at hmk
      obtain rfl : errno = none := hmk
      have hnew : made (base ++ new.path) = none := by
        by_contra hsome
        rcases (mkdirs_kept hmade).kept (base ++ new.path) with heq | ⟨-, q, hq, -, heq⟩
        · rw [heq] at hsome
          obtain ⟨item, hitem, hpre⟩ := hold.only _ hne hsome
          exact (hclear item hitem).2 (by simp [hcontent]) hpre
        · have hlen := hq.length_le
          rw [← List.append_cancel_left heq, List.length_dropLast] at hlen
          have := List.length_pos_iff.mpr hne
          omega
      have hparent : made (base ++ new.path).dropLast = some .dir := by
        rw [List.dropLast_append_of_ne_nil hne]
        by_cases hempty : new.path.dropLast = []
        · rw [hempty, List.append_nil]
          exact (mkdirs_kept hmade).of_some hold.root
        · exact mkdirs_dirs hmade List.prefix_rfl (.inl hempty)
      dsimp only
      rw [make_ok _ (htakes _ List.prefix_rfl hne) hnew hparent]

/-- The items made one after another, up to the first that fails. -/
def reachAll (takes : List κ → Bool) (base : List κ) :
    List (Item κ) → Disk κ → Option Errno × Disk κ
  | [], d => (none, d)
  | item :: items, d =>
    match reach takes base item.path item.content.isNone d with
    | (none, d) => reachAll takes base items d
    | (some errno, d) => (some errno, d)

theorem reachAll_ok {takes : List κ → Bool} {base : List κ} {made items : List (Item κ)}
    {d : Disk κ} (hold : Holds base made d) (hne : ∀ item ∈ items, item.path ≠ [])
    (hempty : ∀ item ∈ items, ∀ bytes, item.content = some bytes → bytes = [])
    (hclear : (made ++ items).Pairwise Clear)
    (htakes : ∀ item ∈ items, ∀ q, q <+: item.path → q ≠ [] → takes (base ++ q) = true) :
    (reachAll takes base items d).1 = none := by
  induction items generalizing made d with
  | nil => rfl
  | cons item items ih =>
    have hhead : ∀ old ∈ made, Clear old item := fun old hold =>
      (List.pairwise_append.mp hclear).2.2 old hold item List.mem_cons_self
    have hok := reach_ok hold (hne item List.mem_cons_self) hhead (htakes item List.mem_cons_self)
    rw [reachAll]
    cases hreach : reach takes base item.path item.content.isNone d with
    | mk errno d' =>
      rw [hreach] at hok
      obtain rfl : errno = none := hok
      have hnext : Holds base (made ++ [item]) d' := by
        obtain ⟨path, content⟩ := item
        cases content with
        | none => exact holds_directory hold hreach
        | some bytes =>
          obtain rfl := hempty _ List.mem_cons_self bytes rfl
          have hfile := holds_file hold hreach []
          obtain ⟨before, -, -, rfl⟩ := reach_file_cases hreach
          simpa [put] using hfile
      exact ih hnext (fun i hi => hne i (List.mem_cons_of_mem _ hi))
        (fun i hi => hempty i (List.mem_cons_of_mem _ hi)) (by simpa using hclear)
        fun i hi => htakes i (List.mem_cons_of_mem _ hi)

/-- Items that are clear of each other can be made in an empty directory in any order. -/
theorem reachAll_perm {takes : List κ → Bool} {base : List κ} {items order : List (Item κ)}
    {d : Disk κ} (hroot : d base = some .dir) (hbare : ∀ q, q ≠ [] → d (base ++ q) = none)
    (hne : ∀ item ∈ items, item.path ≠ [])
    (hempty : ∀ item ∈ items, ∀ bytes, item.content = some bytes → bytes = [])
    (hclear : items.Pairwise Clear)
    (htakes : ∀ item ∈ items, ∀ q, q <+: item.path → q ≠ [] → takes (base ++ q) = true)
    (horder : order.Perm items) : (reachAll takes base order d).1 = none :=
  reachAll_ok (holds_nil hroot hbare) (fun i hi => hne i (horder.mem_iff.mp hi))
    (fun i hi => hempty i (horder.mem_iff.mp hi))
    (by simpa using (horder.pairwise_iff fun h => h.symm).mpr hclear)
    fun i hi => htakes i (horder.mem_iff.mp hi)

/-- The items made from the root, at their paths below a base. -/
theorem reachAll_base {takes : List κ → Bool} {base : List κ} {before d : Disk κ}
    (habove : ∀ q, q <+: base → q ≠ base → before q = some .dir) (h : Within base before d)
    {items : List (Item κ)} (hne : ∀ item ∈ items, item.path ≠ []) :
    reachAll takes [] (items.map fun item => ⟨base ++ item.path, item.content⟩) d =
      reachAll takes base items d := by
  induction items generalizing d with
  | nil => rfl
  | cons item items ih =>
    have hitem := hne item List.mem_cons_self
    rw [List.map_cons, reachAll, reachAll, h.reach_base habove takes hitem]
    have hnext := h.reach habove takes hitem item.content.isNone
    cases hreach : reach takes base item.path item.content.isNone d with
    | mk errno d' =>
      cases errno with
      | some errno => rfl
      | none =>
        rw [hreach] at hnext
        exact ih hnext fun i hi => hne i (List.mem_cons_of_mem _ hi)

end BoredManager.Storage
