import BoredManager.Js.Bytes
import BoredManager.Js.OrderedMap
import BoredManager.Js.Outcome
import BoredManager.Js.Paths

/-! Names of archive entries: how they are decoded and normalized, and the paths that the
entries seen so far take. -/
namespace BoredManager.Server.Zip
open BoredManager.Js

def utf8Flag : Nat := 2048
def unixFileTypeMask : Nat := 0xf000
def unixRegularFile : Nat := 0x8000
def unixDirectory : Nat := 0x4000

/-- The text of a name: UTF-8 under the flag, else ASCII. -/
def nameText (bytes : Bytes) (flags : Nat) : Except Text Text :=
  if flags &&& utf8Flag ≠ 0 then
    if utf8 (utf8Text bytes) ≠ bytes then .error (js "an archive entry name is not valid UTF-8")
    else .ok (utf8Text bytes)
  else if bytes.any (128 ≤ ·) then
    .error (js "non-ASCII entry names must use the ZIP UTF-8 flag")
  else .ok bytes

def decodeName (bytes : Bytes) (flags : Nat) : Except Text Text :=
  if bytes.length = 0 then .error (js "an archive entry has an empty name")
  else do
    let name ← nameText bytes flags
    if 0 ∈ name then .error (js "an archive entry name contains a NUL byte") else .ok name

/-- `/^[A-Za-z]:/`. -/
def hasDrive : Text → Bool
  | letter :: 58 :: _ => isUpper letter || isLower letter
  | _ => false

/-- A segment that would leave the destination or name nothing. -/
def isUnsafe (segment : Text) : Bool := segment == [] || segment == js "." || segment == js ".."

structure EntryPath where
  path : Text
  directory : Bool

def normalizeEntryPath (u : Unicode) (name : Text) : Except Text EntryPath :=
  if name.head? = some 47 ∨ name.head? = some 92 ∨ hasDrive name then
    .error (js "archive entry has an absolute path: " ++ name)
  else if 92 ∈ name then .error (js "archive entry uses a backslash path: " ++ name)
  else
    let directory := name.getLast? == some 47
    let withoutSlash := if directory then name.dropLast else name
    if withoutSlash = [] ∨ (segments withoutSlash).any isUnsafe then
      .error (js "archive entry has an unsafe path: " ++ name)
    else .ok ⟨u.nfc (joinPath (segments withoutSlash)), directory⟩

def validateMode (versionMadeBy externalAttributes : Nat) (directory : Bool) : Except Text Unit :=
  let creator := versionMadeBy >>> 8
  let fileType := (externalAttributes >>> 16) &&& unixFileTypeMask
  if creator = 3 ∧ fileType ≠ 0 ∧ fileType ≠ unixRegularFile ∧ fileType ≠ unixDirectory then
    .error (js "archive contains a symlink or special-file entry")
  else if (fileType = unixDirectory ∨ externalAttributes &&& 0x10 ≠ 0) ∧ directory = false then
    .error (js "archive entry file/directory mode disagrees with its name")
  else if fileType = unixRegularFile ∧ directory = true then
    .error (js "archive entry file/directory mode disagrees with its name")
  else .ok ()

inductive PathType where
  | file
  | directory
deriving DecidableEq

/-- The keys of the entries so far, and what each path of them and above them is. -/
structure Paths where
  seenEntries : List Text
  pathTypes : OrderedMap Text PathType

def Paths.empty : Paths := ⟨[], .empty⟩

/-- The paths above `names`, the outermost first. -/
def ancestors (names : List Text) : List Text :=
  (List.range' 1 (names.length - 1)).map fun index => joinPath (names.take index)

def registerAncestors (path : Text) :
    List Text → OrderedMap Text PathType → Except Text (OrderedMap Text PathType)
  | [], pathTypes => .ok pathTypes
  | ancestor :: rest, pathTypes =>
    if pathTypes.get? ancestor = some .file then
      .error (js "archive path is below a file entry: " ++ path)
    else registerAncestors path rest (pathTypes.set ancestor .directory)

def registerPath (u : Unicode) (path : Text) (directory : Bool) (s : Paths) : Except Text Paths := do
  let key := u.toLocaleLowerCase path
  if key ∈ s.seenEntries then .error (js "archive contains a duplicate path: " ++ path)
  else
    let pathTypes ← registerAncestors path ((ancestors (segments path)).map u.toLocaleLowerCase)
      s.pathTypes
    let existing := pathTypes.get? key
    if directory then
      if existing = some .file then
        .error (js "archive path is both a file and directory: " ++ path)
      else .ok ⟨s.seenEntries ++ [key], pathTypes.set key .directory⟩
    else if existing = some .directory then
      .error (js "archive path is both a file and directory: " ++ path)
    else if pathTypes.keys.any fun existingPath => (key ++ [47]).isPrefixOf existingPath then
      .error (js "archive path is both a file and directory: " ++ path)
    else .ok ⟨s.seenEntries ++ [key], pathTypes.set key .file⟩

theorem scalars_nameText {bytes : Bytes} {flags : Nat} {name : Text}
    (h : nameText bytes flags = .ok name) : Scalars name := by
  unfold nameText at h
  split at h
  · rw [ite_error_eq_ok] at h
    rw [← Except.ok.inj h.2]
    exact scalars_utf8Text bytes
  · rw [ite_error_eq_ok] at h
    obtain ⟨hascii, h⟩ := h
    obtain rfl := Except.ok.inj h
    clear h
    induction bytes with
    | nil => exact .nil
    | cons b bytes ih =>
      simp only [List.any_cons, Bool.or_eq_true, decide_eq_true_eq, not_or, not_le] at hascii
      exact .unit (by omega) (ih hascii.2)

theorem decodeName_ok {bytes : Bytes} {flags : Nat} {name : Text}
    (h : decodeName bytes flags = .ok name) : Scalars name ∧ 0 ∉ name := by
  unfold decodeName at h
  rw [ite_error_eq_ok, bind_eq_ok] at h
  obtain ⟨-, decoded, hdecoded, h⟩ := h
  rw [ite_error_eq_ok] at h
  obtain ⟨hzero, h⟩ := h
  obtain rfl := Except.ok.inj h
  exact ⟨scalars_nameText hdecoded, hzero⟩

/-- A relative path whose segments all name something below the folder it starts from. -/
structure SafePath (path : Text) : Prop where
  relative : path.head? ≠ some 47
  plain : ∀ name ∈ segments path, PlainName name
  backslash : 92 ∉ path
  nul : 0 ∉ path
  scalars : Scalars path

theorem nfc_joinPath {u : Unicode} (laws : u.Laws) {names : List Text} (hne : names ≠ []) :
    u.nfc (joinPath names) = joinPath (names.map u.nfc) := by
  induction names with
  | nil => exact absurd rfl hne
  | cons name names ih =>
    by_cases hnames : names = []
    · subst hnames
      simp
    · rw [joinPath_cons hnames, laws.nfc_slash, ih hnames, List.map_cons,
        joinPath_cons (by simpa using hnames)]

theorem scalars_of_append_slash {a b s : Text} (h : Scalars s) (hs : s = a ++ 47 :: b) :
    Scalars a := by
  induction h generalizing a with
  | nil => exact absurd hs (by simp)
  | @unit u s range rest ih =>
    cases a with
    | nil => exact .nil
    | cons v a =>
      simp only [List.cons_append, List.cons.injEq] at hs
      exact hs.1 ▸ .unit range (ih hs.2)
  | @pair u v s high low rest ih =>
    match a with
    | [] =>
      simp only [List.nil_append, List.cons.injEq] at hs
      omega
    | [w] =>
      simp only [List.cons_append, List.nil_append, List.cons.injEq] at hs
      omega
    | w :: x :: a =>
      simp only [List.cons_append, List.cons.injEq] at hs
      exact hs.1 ▸ hs.2.1 ▸ .pair high low (ih hs.2.2)

/-- Normalization keeps the segments apart: none of them becomes empty, a dot or two. -/
theorem plainName_nfc {u : Unicode} (laws : u.Laws) {name : Text} (hslash : 47 ∉ name)
    (hsafe : isUnsafe name = false) : PlainName (u.nfc name) := by
  simp only [isUnsafe, Bool.or_eq_false_iff, beq_eq_false_iff_ne] at hsafe
  have hdots : ∀ t ∈ [[], js ".", js ".."], u.nfc name = t → name = t := fun t ht heq => by
    rw [← heq]
    exact (laws.nfc_dots name (heq ▸ ht)).symm
  refine ⟨fun h => hsafe.1.1 (hdots _ (by simp) h), fun h => hsafe.1.2 (hdots _ (by simp) h),
    fun h => hsafe.2 (hdots _ (by simp) h), fun h => hslash ?_⟩
  exact laws.nfc_mem name 47 h (.inr (.inl rfl))

theorem normalizeEntryPath_ok {u : Unicode} (laws : u.Laws) {name : Text} {entry : EntryPath}
    (hscalars : Scalars name) (hnul : 0 ∉ name) (h : normalizeEntryPath u name = .ok entry) :
    SafePath entry.path := by
  unfold normalizeEntryPath at h
  dsimp only at h
  rw [ite_error_eq_ok, ite_error_eq_ok, ite_error_eq_ok] at h
  obtain ⟨-, hback, hunsafe, h⟩ := h
  obtain rfl := Except.ok.inj h
  clear h
  dsimp only
  generalize hwithout : (if (name.getLast? == some 47) = true then name.dropLast else name) = w at *
  have hsub : ∀ c ∈ w, c ∈ name := by
    intro c hc
    rw [← hwithout] at hc
    split at hc
    · exact List.dropLast_subset _ hc
    · exact hc
  have hw : Scalars w := by
    rw [← hwithout]
    split
    · rename_i hlast
      have hlast' : name.getLast? = some 47 := by simpa using hlast
      exact scalars_of_append_slash (b := []) hscalars (List.dropLast_append_getLast? 47 hlast').symm
    · exact hscalars
  have hsafe : ∀ s ∈ segments w, isUnsafe s = false := by
    intro s hs
    by_contra hbad
    exact hunsafe (.inr (List.any_eq_true.mpr ⟨s, hs, by simpa using hbad⟩))
  have hplain : ∀ s ∈ (segments w).map u.nfc, PlainName s := by
    intro s hs
    obtain ⟨t, ht, rfl⟩ := List.mem_map.mp hs
    exact plainName_nfc laws (slash_not_mem_segment ht) (hsafe t ht)
  have hsegments : segments (u.nfc (joinPath (segments w))) = (segments w).map u.nfc := by
    rw [nfc_joinPath laws (segments_ne_nil w)]
    exact segments_joinPath (fun s hs => (hplain s hs).slash) (by simpa using segments_ne_nil w)
  have hkept : ∀ c, c = 0 ∨ c = 47 ∨ c = 92 → c ∈ u.nfc (joinPath (segments w)) → c ∈ name :=
    fun c hc hmem => hsub c (by simpa [joinPath_segments] using laws.nfc_mem _ c hmem hc)
  refine ⟨fun hhead => ?_, by rwa [hsegments], fun hmem => hback (hkept _ (by simp) hmem),
    fun hmem => hnul (hkept _ (by simp) hmem), ?_⟩
  · obtain ⟨rest, hrest⟩ : ∃ rest, u.nfc (joinPath (segments w)) = [] ++ 47 :: rest := by
      cases hpath : u.nfc (joinPath (segments w)) with
      | nil => simp [hpath] at hhead
      | cons c rest =>
        rw [hpath] at hhead
        exact ⟨rest, by rw [Option.some.inj hhead]; rfl⟩
    have hempty : [] ∈ segments (u.nfc (joinPath (segments w))) := by
      rw [hrest, segments, List.splitOn_append_cons_self]
      exact List.mem_append_left _ (by simp)
    rw [hsegments] at hempty
    exact (hplain [] hempty).nonempty rfl
  · rw [joinPath_segments]
    exact laws.nfc_scalars w hw

/-- Two entries whose paths do not meet, up to case. -/
structure PathsApart (u : Unicode) (a b : EntryPath) : Prop where
  distinct : u.toLocaleLowerCase a.path ≠ u.toLocaleLowerCase b.path
  below : a.directory = false → ∀ above ∈ ancestors (segments b.path),
    u.toLocaleLowerCase above ≠ u.toLocaleLowerCase a.path
  above : b.directory = false → ∀ above ∈ ancestors (segments a.path),
    u.toLocaleLowerCase above ≠ u.toLocaleLowerCase b.path

/-- What the paths taken say about the entries that were registered. -/
structure Registered (u : Unicode) (done : List EntryPath) (s : Paths) : Prop where
  seen : ∀ e ∈ done, u.toLocaleLowerCase e.path ∈ s.seenEntries
  files : ∀ e ∈ done, e.directory = false →
    s.pathTypes.get? (u.toLocaleLowerCase e.path) = some .file
  above : ∀ e ∈ done, ∀ above ∈ ancestors (segments e.path),
    s.pathTypes.get? (u.toLocaleLowerCase above) = some .directory
  apart : done.Pairwise (PathsApart u)

theorem registered_empty (u : Unicode) : Registered u [] .empty :=
  ⟨by simp, by simp, by simp, .nil⟩

theorem registerAncestors_ok {path : Text} {keys : List Text}
    {pathTypes pathTypes' : OrderedMap Text PathType}
    (h : registerAncestors path keys pathTypes = .ok pathTypes') :
    (∀ key ∈ keys, pathTypes.get? key ≠ some .file) ∧
      ∀ key, pathTypes'.get? key = if key ∈ keys then some .directory else pathTypes.get? key := by
  induction keys generalizing pathTypes with
  | nil =>
    obtain rfl := Except.ok.inj h
    exact ⟨by simp, by simp⟩
  | cons ancestor keys ih =>
    rw [registerAncestors, ite_error_eq_ok] at h
    obtain ⟨hfree, hrest⟩ := ih h.2
    refine ⟨fun key hkey => ?_, fun key => ?_⟩
    · rcases List.mem_cons.mp hkey with rfl | hkey
      · exact h.1
      · have hset := hfree key hkey
        rw [OrderedMap.get?_set] at hset
        split at hset
        · subst_vars
          exact h.1
        · exact hset
    · rw [hrest, OrderedMap.get?_set]
      by_cases hkey : key ∈ keys
      · simp [hkey]
      · by_cases hhead : key = ancestor <;> simp [hkey, hhead]

theorem registerPath_cases {u : Unicode} {path : Text} {directory : Bool} {s s' : Paths}
    (h : registerPath u path directory s = .ok s') :
    u.toLocaleLowerCase path ∉ s.seenEntries ∧
      s'.seenEntries = s.seenEntries ++ [u.toLocaleLowerCase path] ∧
      ∃ pathTypes, registerAncestors path ((ancestors (segments path)).map u.toLocaleLowerCase)
          s.pathTypes = .ok pathTypes ∧
        ((directory = true ∧ s'.pathTypes = pathTypes.set (u.toLocaleLowerCase path) .directory) ∨
          (directory = false ∧ pathTypes.get? (u.toLocaleLowerCase path) ≠ some .directory ∧
            s'.pathTypes = pathTypes.set (u.toLocaleLowerCase path) .file)) := by
  unfold registerPath at h
  rw [ite_error_eq_ok, bind_eq_ok] at h
  obtain ⟨hseen, pathTypes, hancestors, h⟩ := h
  dsimp only at h
  split at h
  · rename_i hdir
    rw [ite_error_eq_ok] at h
    rw [← Except.ok.inj h.2]
    exact ⟨hseen, rfl, pathTypes, hancestors, .inl ⟨hdir, rfl⟩⟩
  · rename_i hdir
    rw [ite_error_eq_ok, ite_error_eq_ok] at h
    rw [← Except.ok.inj h.2.2]
    exact ⟨hseen, rfl, pathTypes, hancestors, .inr ⟨by simpa using hdir, h.1, rfl⟩⟩

/-- A path that is registered meets none of those before it. -/
theorem registered_step {u : Unicode} {done : List EntryPath} {entry : EntryPath} {s s' : Paths}
    (inv : Registered u done s) (h : registerPath u entry.path entry.directory s = .ok s') :
    Registered u (done ++ [entry]) s' := by
  obtain ⟨hseen, hseen', pathTypes, hancestors, hset⟩ := registerPath_cases h
  obtain ⟨hfree, hget⟩ := registerAncestors_ok hancestors
  have habove : ∀ above ∈ ancestors (segments entry.path),
      u.toLocaleLowerCase above ∈ (ancestors (segments entry.path)).map u.toLocaleLowerCase :=
    fun above h => List.mem_map_of_mem h
  have hdirs : ∀ e ∈ done ++ [entry], ∀ above ∈ ancestors (segments e.path),
      pathTypes.get? (u.toLocaleLowerCase above) = some .directory := by
    intro e he above hmem
    rw [hget]
    rcases List.mem_append.mp he with he | he
    · split
      · rfl
      · exact inv.above e he above hmem
    · obtain rfl := List.mem_singleton.mp he
      rw [if_pos (habove above hmem)]
  have hfiles : ∀ e ∈ done, e.directory = false →
      pathTypes.get? (u.toLocaleLowerCase e.path) = some .file := by
    intro e he hfile
    rw [hget, if_neg fun hmem => hfree _ hmem (inv.files e he hfile)]
    exact inv.files e he hfile
  have hold : ∀ e ∈ done, u.toLocaleLowerCase e.path ≠ u.toLocaleLowerCase entry.path :=
    fun e he heq => hseen (heq ▸ inv.seen e he)
  refine ⟨fun e he => ?_, fun e he hfile => ?_, fun e he above hmem => ?_, ?_⟩
  · rw [hseen']
    rcases List.mem_append.mp he with he | he
    · exact List.mem_append_left _ (inv.seen e he)
    · exact List.mem_append_right _ (by simp [List.mem_singleton.mp he])
  · rcases List.mem_append.mp he with he | he
    · rcases hset with ⟨-, hset⟩ | ⟨-, -, hset⟩ <;>
        rw [hset, OrderedMap.get?_set, if_neg (hold e he), hfiles e he hfile]
    · obtain rfl := List.mem_singleton.mp he
      rcases hset with ⟨hdir, -⟩ | ⟨-, -, hset⟩
      · rw [hfile] at hdir
        cases hdir
      · rw [hset, OrderedMap.get?_set, if_pos rfl]
  · rcases hset with ⟨-, hset⟩ | ⟨-, hnot, hset⟩ <;> rw [hset, OrderedMap.get?_set]
    · split
      · rfl
      · exact hdirs e he above hmem
    · have hkey : u.toLocaleLowerCase above ≠ u.toLocaleLowerCase entry.path :=
        fun heq => hnot (heq ▸ hdirs e he above hmem)
      rw [if_neg hkey]
      exact hdirs e he above hmem
  · refine List.pairwise_append.mpr ⟨inv.apart, List.pairwise_singleton _ _, fun e he new hnew => ?_⟩
    obtain rfl := List.mem_singleton.mp hnew
    refine ⟨hold e he, fun hfile above hmem heq => ?_, fun hfile above hmem heq => ?_⟩
    · exact hfree _ (habove above hmem) (heq ▸ inv.files e he hfile)
    · rcases hset with ⟨hdir, -⟩ | ⟨-, hnot, -⟩
      · rw [hfile] at hdir
        cases hdir
      · exact hnot (heq ▸ hdirs e (List.mem_append_left _ he) above hmem)

end BoredManager.Server.Zip
