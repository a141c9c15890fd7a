import BoredManager.Server.ZipAccepted
import BoredManager.Server.ZipExtract

/-! Where the entries of an accepted archive go: below the destination, and never onto each
other, so that in an empty destination all of them can be made. -/
namespace BoredManager.Server.Zip
open BoredManager.Js BoredManager.Storage
variable {κ : Type}

/-- The names of an entry below the destination. -/
def FileSystem.names (fs : FileSystem κ) (path : Text) : List κ := (segments path).map fs.key

/-- Names that the file system takes for one have the same lower case. -/
def FileSystem.Distinguishes (fs : FileSystem κ) (u : Unicode) : Prop :=
  ∀ a b, Scalars a → Scalars b → fs.key a = fs.key b →
    u.toLocaleLowerCase a = u.toLocaleLowerCase b

/-- Names are bytes, at most 255 of them. -/
def linux : FileSystem Bytes := ⟨utf8, fun path => path.all fun name => name.length ≤ 255⟩

theorem linux_distinguishes (u : Unicode) : linux.Distinguishes u :=
  fun _ _ ha hb h => by rw [utf8_injective ha hb h]

theorem names_ne_nil (fs : FileSystem κ) (path : Text) : fs.names path ≠ [] := by
  simpa [FileSystem.names] using segments_ne_nil path

theorem path_absolute (fs : FileSystem κ) (cwd : Text) {names : List Text}
    (h : ∀ name ∈ names, PlainName name) :
    fs.path cwd (47 :: joinPath names) = names.map fs.key := by
  have hresolve : resolve cwd [47 :: joinPath names] = 47 :: joinPath (names ++ []) :=
    resolve_absolute cwd h (by simp)
  have hfilter : names.filter (· ≠ []) = names :=
    List.filter_eq_self.mpr fun name hname => by simpa using (h name hname).nonempty
  rw [List.append_nil] at hresolve
  rw [FileSystem.path, hresolve]
  by_cases hne : names = []
  · subst hne
    rfl
  · rw [cons_joinPath hne, segments_flatMap h, List.filter_cons_of_neg (by simp), hfilter]

theorem path_below (fs : FileSystem κ) (cwd : Text) {destDir path : Text}
    (hdest : IsAbsolute destDir) (h : SafePath path) :
    fs.path cwd (destDir ++ 47 :: path) = fs.path cwd destDir ++ fs.names path := by
  obtain ⟨above, habove, hplain, rfl⟩ := hdest
  have hall : ∀ name ∈ above ++ segments path, PlainName name := fun name hname =>
    (List.mem_append.mp hname).elim (hplain name) (h.plain name)
  have htarget : (47 :: joinPath above) ++ 47 :: path = 47 :: joinPath (above ++ segments path) := by
    have hne : above ++ segments path ≠ [] := fun heq => habove (List.append_eq_nil_iff.mp heq).1
    conv_lhs => rw [← joinPath_segments path]
    rw [cons_joinPath habove, cons_joinPath (segments_ne_nil path), cons_joinPath hne,
      List.flatMap_append]
  rw [htarget, path_absolute fs cwd hall, path_absolute fs cwd hplain, List.map_append]
  rfl

/-- A safe path ends up below a normalized absolute destination. -/
theorem destinationPath_absolute (cwd : Text) {destDir path : Text} (hdest : IsAbsolute destDir)
    (h : SafePath path) : destinationPath cwd destDir path = .ok (destDir ++ 47 :: path) := by
  have hresolve := resolve_below cwd hdest (segments_ne_nil path) h.plain
  rw [joinPath_segments] at hresolve
  unfold destinationPath
  dsimp only
  rw [hresolve, if_neg]
  rintro ⟨-, hnot⟩
  have hpre : (destDir ++ js "/").isPrefixOf (destDir ++ 47 :: path) = true := by
    have hslash : destDir ++ 47 :: path = (destDir ++ js "/") ++ path := by simp [js, units]
    rw [List.isPrefixOf_iff_prefix, hslash]
    exact List.prefix_append _ _
  rw [hpre] at hnot
  cases hnot

theorem lower_joinPath {u : Unicode} (laws : u.Laws) {fs : FileSystem κ} (hfs : fs.Distinguishes u)
    {a b : List Text} (ha : ∀ name ∈ a, Scalars name) (hb : ∀ name ∈ b, Scalars name)
    (h : a.map fs.key = b.map fs.key) :
    u.toLocaleLowerCase (joinPath a) = u.toLocaleLowerCase (joinPath b) := by
  induction a generalizing b with
  | nil =>
    cases b with
    | nil => rfl
    | cons n b => cases h
  | cons m a ih =>
    cases b with
    | nil => cases h
    | cons n b =>
      obtain ⟨hhead, htail⟩ := List.cons.inj h
      have hlower := hfs m n (ha m List.mem_cons_self) (hb n List.mem_cons_self) hhead
      have hrest := ih (fun k hk => ha k (List.mem_cons_of_mem _ hk))
        (fun k hk => hb k (List.mem_cons_of_mem _ hk)) htail
      have hlen : a.length = b.length := by simpa using congrArg List.length htail
      by_cases hempty : a = []
      · subst hempty
        obtain rfl : b = [] := List.length_eq_zero_iff.mp hlen.symm
        simpa using hlower
      · have hempty' : b ≠ [] := fun heq => hempty (List.length_eq_zero_iff.mp (by rw [hlen, heq]; rfl))
        rw [joinPath_cons hempty, joinPath_cons hempty', laws.lower_slash, laws.lower_slash, hlower,
          hrest]

theorem mem_ancestors {names q : List Text} (hq : q <+: names) (hempty : q ≠ [])
    (hne : q ≠ names) : joinPath q ∈ ancestors names := by
  have hle := hq.length_le
  have hpos := List.length_pos_iff.mpr hempty
  have hlt : q.length < names.length := by
    rcases hle.lt_or_eq with hlt | heq
    · exact hlt
    · exact absurd (hq.eq_of_length heq) hne
  refine List.mem_map.mpr ⟨q.length, ?_, by rw [← List.prefix_iff_eq_take.mp hq]⟩
  rw [List.mem_range'_1]
  omega

/-- The file or directory of an entry, before any data. -/
def outputItem (fs : FileSystem κ) (e : CentralEntry) : Item κ :=
  ⟨fs.names e.normalizedPath, if e.directory then none else some []⟩

/-- A file is not on the way to an entry whose path is apart from it. -/
theorem not_prefix_of_apart {u : Unicode} (laws : u.Laws) {fs : FileSystem κ}
    (hfs : fs.Distinguishes u) {a b : CentralEntry} (ha : SafePath a.normalizedPath)
    (hb : SafePath b.normalizedPath)
    (hdistinct : u.toLocaleLowerCase a.normalizedPath ≠ u.toLocaleLowerCase b.normalizedPath)
    (hbelow : a.directory = false → ∀ above ∈ ancestors (segments b.normalizedPath),
      u.toLocaleLowerCase above ≠ u.toLocaleLowerCase a.normalizedPath)
    (hfile : (outputItem fs a).content ≠ none) :
    ¬(outputItem fs a).path <+: (outputItem fs b).path := by
  intro hpre
  have hdir : a.directory = false := by
    by_contra hdir
    simp [outputItem, hdir] at hfile
  obtain ⟨q, hq, hkeys⟩ : ∃ q, q <+: segments b.normalizedPath ∧
      q.map fs.key = (segments a.normalizedPath).map fs.key := by
    have htake := List.prefix_iff_eq_take.mp hpre
    refine ⟨(segments b.normalizedPath).take (segments a.normalizedPath).length,
      List.take_prefix _ _, ?_⟩
    simpa [outputItem, FileSystem.names, List.map_take] using htake.symm
  have hlower := lower_joinPath laws hfs
    (fun name hname => scalars_segment hb.scalars name (hq.subset hname))
    (scalars_segment ha.scalars) hkeys
  rw [joinPath_segments] at hlower
  by_cases heq : q = segments b.normalizedPath
  · rw [heq, joinPath_segments] at hlower
    exact hdistinct hlower.symm
  · have hempty : q ≠ [] := fun hnil => by
      rw [hnil, List.map_nil] at hkeys
      exact segments_ne_nil _ (List.map_eq_nil_iff.mp hkeys.symm)
    exact hbelow hdir _ (mem_ancestors hq hempty heq) hlower

theorem clear_of_apart {u : Unicode} (laws : u.Laws) {fs : FileSystem κ}
    (hfs : fs.Distinguishes u) {a b : CentralEntry} (ha : SafePath a.normalizedPath)
    (hb : SafePath b.normalizedPath) (h : PathsApart u a.entryPath b.entryPath) :
    Clear (outputItem fs a) (outputItem fs b) :=
  ⟨not_prefix_of_apart laws hfs ha hb h.distinct h.below,
    not_prefix_of_apart laws hfs hb ha h.distinct.symm h.above⟩

variable [DecidableEq κ]

/-- The calls of an extraction that make the files and directories of entries, in the order
of the entries, up to the first call that fails. -/
def makeOutputs (fs : FileSystem κ) (cwd destDir : Text) (entries : List CentralEntry)
    (d : Disk κ) : Option Errno × Disk κ :=
  reachAll fs.takes [] (entries.map fun e =>
    ⟨fs.path cwd (destDir ++ 47 :: e.normalizedPath), (outputItem fs e).content⟩) d

/-- A directory in which nothing is. -/
structure EmptyDirectory (base : List κ) (d : Disk κ) : Prop where
  rooted : Rooted d
  dir : d base = some .dir
  bare : ∀ q, q ≠ [] → d (base ++ q) = none

/-- Entries whose paths do not meet can be made in any order. -/
theorem makeOutputs_ok {u : Unicode} (laws : u.Laws) {fs : FileSystem κ}
    (hfs : fs.Distinguishes u) (cwd : Text) {destDir : Text} (hdest : IsAbsolute destDir)
    {entries order : List CentralEntry} (hsafe : ∀ e ∈ entries, SafePath e.normalizedPath)
    (hapart : entries.Pairwise fun a b => PathsApart u a.entryPath b.entryPath)
    (horder : order.Perm entries) {d : Disk κ} (hempty : EmptyDirectory (fs.path cwd destDir) d)
    (htakes : ∀ e ∈ entries, ∀ q, q <+: fs.names e.normalizedPath → q ≠ [] →
      fs.takes (fs.path cwd destDir ++ q) = true) :
    (makeOutputs fs cwd destDir order d).1 = none := by
  have habove : ∀ q, q <+: fs.path cwd destDir → q ≠ fs.path cwd destDir → d q = some .dir :=
    fun q hq hne => hempty.rooted _ q hq hne (by rw [hempty.dir]; simp)
  have hwithin : Within (fs.path cwd destDir) d d := ⟨hempty.dir, fun _ _ => rfl⟩
  have hitems : (order.map fun e =>
      (⟨fs.path cwd (destDir ++ 47 :: e.normalizedPath), (outputItem fs e).content⟩ : Item κ)) =
      (order.map (outputItem fs)).map fun item => ⟨fs.path cwd destDir ++ item.path, item.content⟩ := by
    rw [List.map_map]
    refine List.map_congr_left fun e he => ?_
    rw [path_below fs cwd hdest (hsafe e (horder.mem_iff.mp he))]
    rfl
  have hne : ∀ item ∈ order.map (outputItem fs), item.path ≠ [] := fun item hitem => by
    obtain ⟨e, -, rfl⟩ := List.mem_map.mp hitem
    exact names_ne_nil fs _
  have hclear : (entries.map (outputItem fs)).Pairwise Clear :=
    List.pairwise_map.mpr (hapart.imp_of_mem fun ha hb h =>
      clear_of_apart laws hfs (hsafe _ ha) (hsafe _ hb) h)
  rw [makeOutputs, hitems, reachAll_base habove hwithin hne]
  refine reachAll_perm hempty.dir hempty.bare ?_ ?_ hclear ?_ (horder.map _)
  · exact fun item hitem => hne item ((horder.map _).mem_iff.mpr hitem)
  · intro item hitem bytes hbytes
    obtain ⟨e, -, rfl⟩ := List.mem_map.mp hitem
    unfold outputItem at hbytes
    split at hbytes
    · cases hbytes
    · exact (Option.some.inj hbytes).symm
  · intro item hitem
    obtain ⟨e, he, rfl⟩ := List.mem_map.mp hitem
    exact htakes e he

/-- The two ends of a range are the ends that an accepted entry has in the file. -/
theorem Located.bounds {fileSize offset : Nat} {e : CentralEntry} (h : Located fileSize offset e) :
    e.localHeaderOffset < e.dataEnd ∧ e.dataEnd ≤ fileSize ∧ e.dataEnd ≤ offset := by
  have hheader := h.header
  have hdata := h.data
  exact ⟨by omega, h.file, h.index⟩

/-- The entries of an accepted archive: ranges apart from each other and inside the file,
before the index; paths below the destination; files and directories that do not meet and
can be made in any order where the file system takes their names; sizes within the limits. -/
theorem accepted_archive_extracts (u : Unicode) (laws : u.Laws) (fs : FileSystem κ)
    (hfs : fs.Distinguishes u) (file : Bytes) (limits : ZipLimits) (entries : List CentralEntry)
    (h : readCentralDirectory u file file.length limits = .ok entries) (cwd destDir : Text)
    (hdest : IsAbsolute destDir) :
    (entries.Pairwise fun a b => ∀ x, ¬((a.localHeaderOffset ≤ x ∧ x < a.dataEnd) ∧
        (b.localHeaderOffset ≤ x ∧ x < b.dataEnd))) ∧
      (∀ e ∈ entries, e.localHeaderOffset < e.dataEnd ∧ e.dataEnd ≤ file.length ∧
        e.dataEnd ≤ directoryOffset file) ∧
      (∀ e ∈ entries, SafePath e.normalizedPath ∧
        destinationPath cwd destDir e.normalizedPath = .ok (destDir ++ 47 :: e.normalizedPath)) ∧
      (entries.Pairwise fun a b => PathsApart u a.entryPath b.entryPath) ∧
      (∀ (d : Disk κ) (order : List CentralEntry), EmptyDirectory (fs.path cwd destDir) d →
        order.Perm entries →
        (∀ e ∈ entries, ∀ q, q <+: fs.names e.normalizedPath → q ≠ [] →
          fs.takes (fs.path cwd destDir ++ q) = true) →
        (makeOutputs fs cwd destDir order d).1 = none) ∧
      entries.length ≤ limits.maxEntries ∧ WithinLimits limits entries := by
  have haccepted := accepted_of_read laws h
  refine ⟨haccepted.disjoint.imp fun hab => hab.not_mem_both, fun e he => (haccepted.located e he).bounds,
    fun e he => ⟨haccepted.safe e he, destinationPath_absolute cwd hdest (haccepted.safe e he)⟩,
    haccepted.apart, fun d order hempty horder htakes => ?_, haccepted.count, haccepted.limits⟩
  exact makeOutputs_ok laws hfs cwd hdest haccepted.safe haccepted.apart horder hempty htakes

/-- A number in little-endian bytes. -/
def littleEndian (width n : Nat) : Bytes := (List.range width).map fun i => n / 256 ^ i % 256

/-- An archive of one entry, without extra fields and comments. -/
def archiveOf (method crc32 uncompressedSize : Nat) (name data : Bytes) : Bytes :=
  let sizes := littleEndian 4 crc32 ++ littleEndian 4 data.length ++
    littleEndian 4 uncompressedSize ++ littleEndian 2 name.length
  let fields := littleEndian 2 20 ++ littleEndian 2 utf8Flag ++ littleEndian 2 method ++
    littleEndian 4 0 ++ sizes
  let header := littleEndian 4 localSignature ++ fields ++ littleEndian 2 0 ++ name
  let record := littleEndian 4 centralSignature ++ littleEndian 2 20 ++ fields ++
    littleEndian 16 0 ++ name
  header ++ data ++ record ++ littleEndian 4 eocdSignature ++ littleEndian 4 0 ++
    littleEndian 2 1 ++ littleEndian 2 1 ++ littleEndian 4 record.length ++
    littleEndian 4 (header.length + data.length) ++ littleEndian 2 0

/-- The entry that the index of `archiveOf` describes, for an ASCII name of a file. -/
def entryOf (method crc32 uncompressedSize : Nat) (name data : Bytes) : CentralEntry where
  fileName := name
  nameBytes := name
  normalizedPath := name
  directory := false
  flags := utf8Flag
  method := method
  crc32 := crc32
  compressedSize := data.length
  uncompressedSize := uncompressedSize
  localHeaderOffset := 0
  dataStart := 30 + name.length
  dataEnd := 30 + name.length + data.length

/-- The Unicode functions on ASCII. -/
def asciiUnicode : Unicode := ⟨id, toLowerAscii⟩

theorem asciiUnicode_laws : asciiUnicode.Laws where
  nfc_slash _ _ := rfl
  nfc_mem _ _ h _ := h
  nfc_dots _ _ := rfl
  nfc_scalars _ h := h
  lower_slash a b := by simp [asciiUnicode, toLowerAscii, isUpper]

/-- A disk with one empty directory. -/
def outDisk : Disk Bytes := fun p => if p = [] ∨ p = [js "out"] then some .dir else none

theorem outDisk_empty : EmptyDirectory (linux.path (js "/") (js "/out")) outDisk := by
  have hpath : linux.path (js "/") (js "/out") = [js "out"] := by decide +kernel
  rw [hpath]
  refine ⟨fun p q hq hne hp => ?_, by decide, fun q hq => ?_⟩
  · unfold outDisk at hp ⊢
    split_ifs at hp with hroot
    · rcases hroot with rfl | rfl
      · exact absurd (List.prefix_nil.mp hq) hne
      · rcases List.prefix_cons_iff.mp hq with rfl | ⟨t, rfl, ht⟩
        · simp
        · rw [List.prefix_nil.mp ht]
          simp
    · exact absurd rfl hp
  · cases q with
    | nil => exact absurd rfl hq
    | cons name q => simp [outDisk]

/-- The file of an archive in an empty directory. -/
theorem accepted_archive_extracts_file :
    (makeOutputs linux (js "/") (js "/out") [entryOf 0 2363233923 1 (js "a") (js "x")] outDisk).1 =
      none := by
  have hdest : IsAbsolute (js "/out") :=
    ⟨[js "out"], by simp, by
      intro name hname
      rw [List.mem_singleton.mp hname]
      exact ⟨by decide, by decide, by decide, by decide⟩, by decide⟩
  have hresult := accepted_archive_extracts asciiUnicode asciiUnicode_laws linux
    (linux_distinguishes _) (archiveOf 0 2363233923 1 (js "a") (js "x")) defaultZipLimits
    [entryOf 0 2363233923 1 (js "a") (js "x")] (by decide +kernel) (js "/") (js "/out") hdest
  refine hresult.2.2.2.2.1 outDisk _ outDisk_empty (List.Perm.refl _) fun e he q hq hne => ?_
  rw [List.mem_singleton.mp he] at hq
  have hnames : linux.names (entryOf 0 2363233923 1 (js "a") (js "x")).normalizedPath = [js "a"] := by
    decide +kernel
  rw [hnames] at hq
  rcases List.prefix_cons_iff.mp hq with rfl | ⟨t, rfl, ht⟩
  · exact absurd rfl hne
  · rw [List.prefix_nil.mp ht]
    decide +kernel

/-- Accepted archives that do not extract: to a relative destination every path seems to
escape, and a name of 256 bytes is more than the file system takes. -/
theorem accepted_archive_refused :
    (∃ entries, readCentralDirectory asciiUnicode (archiveOf 0 2363233923 1 (js "a") (js "x"))
        (archiveOf 0 2363233923 1 (js "a") (js "x")).length defaultZipLimits = .ok entries ∧
      ∃ e ∈ entries, destinationPath (js "/") (js "out") e.normalizedPath =
        .error (js "archive path escaped the extraction destination")) ∧
    ∃ entries, readCentralDirectory asciiUnicode (archiveOf 0 0 0 (List.replicate 256 97) [])
        (archiveOf 0 0 0 (List.replicate 256 97) []).length defaultZipLimits = .ok entries ∧
      EmptyDirectory (linux.path (js "/") (js "/out")) outDisk ∧
      (makeOutputs linux (js "/") (js "/out") entries outDisk).1 = some .refused :=
  ⟨⟨[entryOf 0 2363233923 1 (js "a") (js "x")], by decide +kernel, _, List.mem_singleton_self _,
      by decide +kernel⟩,
    [entryOf 0 0 0 (List.replicate 256 97) []], by decide +kernel, outDisk_empty, by decide +kernel⟩

end BoredManager.Server.Zip
