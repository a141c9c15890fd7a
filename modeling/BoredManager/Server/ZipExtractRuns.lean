import BoredManager.Server.ZipOutputs

/-! A whole extraction: what every run leaves alone, what a run that returned has put below
the destination, and what one that threw has left of it. -/
namespace BoredManager.Server.Zip
open BoredManager.Js BoredManager.Storage BoredManager.Calls
variable {κ : Type}

/-- The CRC-32 of bytes, one shift of the register for each bit. -/
def crc32Of (bytes : Bytes) : Nat :=
  (bytes.foldl (Crc.serialByte crcPolynomial) 0xffffffff#32 ^^^ 0xffffffff#32).toNat

/-- What an entry stands for: its stored bytes, or the inflation of its data range. -/
def contentOf (inflate : Bytes → Option Bytes) (file : Bytes) (e : CentralEntry) : Option Bytes :=
  let range := (file.drop e.dataStart).take (e.dataEnd - e.dataStart)
  if e.compressedSize = 0 then some []
  else if e.method = 8 then inflate range
  else some range

/-- The streams of an entry deliver bytes, and all of its content unless they fail. -/
structure Delivers (inflate : Bytes → Option Bytes) (file : Bytes) (e : CentralEntry)
    (events : EntryEvents) : Prop where
  bytes : ∀ chunk ∈ events.chunks, ∀ b ∈ chunk, b < 256
  whole : events.stream = none → contentOf inflate file e = some events.chunks.flatten

/-- What the destination has for an entry: a directory, or a file with exactly its content. -/
structure Extracted (fs : FileSystem κ) (inflate : Bytes → Option Bytes) (file : Bytes)
    (e : CentralEntry) (item : Item κ) : Prop where
  path : item.path = fs.names e.normalizedPath
  directory : e.directory = true → item.content = none
  content : e.directory = false → ∃ bytes, item.content = some bytes ∧
    contentOf inflate file e = some bytes ∧ bytes.length = e.uncompressedSize ∧
    crc32Of bytes = e.crc32

theorem updateCrc32_eq (current : BitVec 32) {chunk : Bytes} (h : ∀ b ∈ chunk, b < 256) :
    updateCrc32 current chunk = chunk.foldl (Crc.serialByte crcPolynomial) current := by
  unfold updateCrc32
  induction chunk generalizing current with
  | nil => rfl
  | cons b chunk ih =>
    rw [List.foldl_cons, List.foldl_cons, Crc.tableByte_eq (by decide) _ _ (h b List.mem_cons_self)]
    exact ih _ fun c hc => h c (List.mem_cons_of_mem _ hc)

/-- Where a path that was accepted lies: only below a normalized absolute destination. -/
theorem destinationPath_ok {cwd destDir path target : Text} (hne : destDir ≠ [])
    (hsafe : SafePath path) (h : destinationPath cwd destDir path = .ok target) :
    IsAbsolute destDir ∧ target = destDir ++ 47 :: path := by
  have habsolute : IsAbsolute destDir := by
    unfold destinationPath at h
    dsimp only at h
    rw [ite_error_eq_ok] at h
    obtain ⟨hinside, -⟩ := h
    obtain ⟨names, hplain, hresolve⟩ := resolve_plain cwd (destDir :: segments path)
    have hpath : segments path ≠ [] := segments_ne_nil path
    by_cases heq : resolve cwd (destDir :: segments path) = destDir
    · -- a destination that resolves to itself would swallow the path
      refine absurd (congrArg List.length heq) ?_
      have hroot : destDir = 47 :: joinPath names := heq.symm.trans hresolve
      have hlonger := resolve_absolute cwd hplain hsafe.plain
      rw [← hroot] at hlonger
      rw [hlonger, hroot]
      by_cases hnames : names = []
      · subst hnames
        have hsome : path ≠ [] := fun hnil => by
          have := hsafe.plain [] (by rw [hnil]; exact List.mem_singleton_self _)
          exact this.nonempty rfl
        have hlen := List.length_pos_iff.mpr hsome
        rw [List.nil_append, joinPath_segments]
        simp only [List.length_cons, joinPath, join, List.intercalate_nil, List.length_nil]
        omega
      · have hne' : names ++ segments path ≠ [] := by simp [hnames]
        rw [cons_joinPath hne', cons_joinPath hnames, List.flatMap_append, ← cons_joinPath hpath]
        simp
    · have hpre : (destDir ++ js "/").isPrefixOf (resolve cwd (destDir :: segments path)) = true := by
        by_contra hnot
        exact hinside ⟨heq, (Bool.not_eq_true _).mp hnot⟩
      rw [List.isPrefixOf_iff_prefix, hresolve] at hpre
      obtain ⟨rest, hrest⟩ := hpre
      have hsplit : 47 :: joinPath names = destDir ++ 47 :: rest := by
        rw [← hrest]
        simp [js, units]
      have hnames : names ≠ [] := fun hnil => by
        subst hnil
        cases destDir with
        | nil => exact hne rfl
        | cons c destDir =>
          have hlen := congrArg List.length hsplit
          simp [joinPath, join] at hlen
      have hsegments : [] :: names = segments destDir ++ segments rest := by
        have hcut := List.splitOn_append_cons_self (a := 47) destDir rest
        rw [← hsplit, cons_joinPath hnames] at hcut
        exact (segments_flatMap hplain).symm.trans hcut
      cases hdest : segments destDir with
      | nil => exact absurd hdest (segments_ne_nil destDir)
      | cons first above =>
        rw [hdest, List.cons_append] at hsegments
        obtain ⟨rfl, htail⟩ := List.cons.inj hsegments
        have hjoin := joinPath_segments destDir
        rw [hdest] at hjoin
        have habove : above ≠ [] := fun hnil => by
          rw [hnil, joinPath_singleton] at hjoin
          exact hne hjoin.symm
        rw [joinPath_cons habove] at hjoin
        exact ⟨above, habove, fun name hname => hplain name (htail ▸ List.mem_append_left _ hname),
          hjoin.symm⟩
  refine ⟨habsolute, ?_⟩
  rw [destinationPath_absolute cwd habsolute hsafe] at h
  exact (Except.ok.inj h).symm

/-- A call fails by itself, succeeds, or fails as the store says. -/
theorem call_cases (fault : Option Text) (op : Disk κ → Option Errno × Disk κ) (d : Disk κ) :
    (∃ text, fault = some text ∧ call fault op d = .error text d) ∨
      (∃ made, op d = (none, made) ∧ call fault op d = .ok () made) ∨
      ∃ errno made, op d = (some errno, made) ∧ call fault op d = .error (errnoText errno) made := by
  unfold call
  cases fault with
  | some text => exact .inl ⟨text, rfl, rfl⟩
  | none =>
    cases hop : op d with
    | mk errno made =>
      cases errno with
      | none => exact .inr (.inl ⟨made, rfl, rfl⟩)
      | some errno => exact .inr (.inr ⟨errno, made, rfl, rfl⟩)

theorem call_ok {fault : Option Text} {op : Disk κ → Option Errno × Disk κ} {d d' : Disk κ}
    {u : Unit} (h : call fault op d = .ok u d') : op d = (none, d') := by
  rcases call_cases fault op d with ⟨_, -, hcall⟩ | ⟨made, hop, hcall⟩ | ⟨_, _, -, hcall⟩ <;>
    rw [hcall] at h <;> cases h
  exact hop

theorem call_keeps {inv : Disk κ → Prop} (fault : Option Text)
    {op : Disk κ → Option Errno × Disk κ} (h : ∀ d, inv d → inv (op d).2) :
    Keeps inv (call fault op) := by
  intro d hd
  have hop := h d hd
  rcases call_cases fault op d with ⟨_, -, hcall⟩ | ⟨made, heq, hcall⟩ | ⟨_, made, heq, hcall⟩ <;>
    rw [hcall]
  · exact hd
  · rw [heq] at hop
    exact hop
  · rw [heq] at hop
    exact hop

variable [DecidableEq κ]

theorem makeDirs_ok {takes : List κ → Bool} {fault : Option MkdirFault} {p : List κ}
    {d d' : Disk κ} {u : Unit} (h : makeDirs takes fault p d = .ok u d') :
    mkdirs takes [] p d = (none, d') := by
  unfold makeDirs at h
  cases fault with
  | some fault => cases h
  | none => exact call_ok h

section
variable {base : List κ} {before : Disk κ}
  (habove : ∀ q, q <+: base → q ≠ base → before q = some .dir)

include habove in
theorem makeDirs_keeps (takes : List κ → Bool) (fault : Option MkdirFault) {p q : List κ}
    (hp : p <+: base ++ q) : Keeps (Within base before) (makeDirs takes fault p) := by
  intro d hd
  unfold makeDirs
  cases fault with
  | some fault => exact hd.mkdirs habove takes ((List.take_prefix _ _).trans hp)
  | none => exact call_keeps none (fun d hd => hd.mkdirs habove takes hp) d hd

theorem append_keeps {q : List κ} (hq : q ≠ []) (chunk : Bytes) {d : Disk κ}
    (h : Within base before d) : Within base before (append (base ++ q) chunk d) :=
  h.put hq _

theorem streamChunks_keeps {q : List κ} (hq : q ≠ []) (entryLimit totalLimit : Nat)
    (chunks : List Bytes) (v : OutputVerifier) :
    Keeps (Within base before) (streamChunks entryLimit totalLimit (base ++ q) chunks v) := by
  induction chunks generalizing v with
  | nil => exact Keeps.pure v
  | cons chunk chunks ih =>
    rw [streamChunks]
    split
    · exact Keeps.throw _
    · exact Keeps.bind (Keeps.act fun d => append_keeps hq chunk) fun _ => ih _

theorem writeEntry_keeps {q : List κ} (hq : q ≠ []) (takes : List κ → Bool) (limits : ZipLimits)
    (e : CentralEntry) (events : EntryEvents) (total : Nat) :
    Keeps (Within base before) (writeEntry takes limits e events (base ++ q) total) := by
  refine Keeps.bind (call_keeps _ fun d hd => ?_) fun _ => Keeps.bind ?_ fun v => ?_
  · cases hmake : make takes (.file []) (base ++ q) d with
    | mk result d' =>
      rcases make_cases hmake with ⟨_, rfl, rfl⟩ | ⟨rfl, -, -, rfl⟩
      · exact hd
      · exact hd.put hq _
  · unfold streamEntry
    exact Keeps.ite (Keeps.bind (Keeps.fails _) fun _ => Keeps.pure _)
      (Keeps.bind (streamChunks_keeps hq _ _ _ _) fun _ =>
        Keeps.bind (Keeps.fails _) fun _ => Keeps.pure _)
  · exact Keeps.ite (Keeps.throw _) (Keeps.ite (Keeps.throw _)
      (Keeps.bind (Keeps.fails _) fun _ => Keeps.pure _))

theorem removeFile_keeps {q : List κ} (hq : q ≠ []) {d : Disk κ} (h : Within base before d) :
    Within base before (removeFile (base ++ q) d) := by
  unfold removeFile
  split
  · exact h.put hq _
  · exact h

end

section
variable {fs : FileSystem κ} {cwd destDir : Text} {before : Disk κ} (hne : destDir ≠ [])
  (habove : ∀ q, q <+: fs.path cwd destDir → q ≠ fs.path cwd destDir → before q = some .dir)
include hne habove

/-- An entry changes nothing but what is below the destination. -/
theorem extractEntry_keeps {e : CentralEntry} (hsafe : SafePath e.normalizedPath)
    (limits : ZipLimits) (events : EntryEvents) (total : Nat) :
    Keeps (Within (fs.path cwd destDir) before)
      (extractEntry fs cwd destDir limits e events total) := by
  have hnames := names_ne_nil fs e.normalizedPath
  unfold extractEntry
  refine Keeps.ite (Keeps.throw _) ?_
  split
  · exact Keeps.throw _
  · rename_i target htarget
    obtain ⟨hdest, rfl⟩ := destinationPath_ok hne hsafe htarget
    dsimp only
    rw [path_below fs cwd hdest hsafe]
    refine Keeps.ite ?_ ?_
    · exact Keeps.bind (makeDirs_keeps habove _ _ List.prefix_rfl) fun _ =>
        Keeps.bind (Keeps.fails _) fun _ => Keeps.pure _
    · refine Keeps.bind (makeDirs_keeps habove _ _ (List.dropLast_prefix _)) fun _ =>
        Keeps.tryCatch (writeEntry_keeps hnames _ _ _ _ _) fun _ =>
          Keeps.bind (Keeps.act fun d hd => ?_) fun _ => Keeps.throw _
      split
      · exact removeFile_keeps hnames hd
      · exact hd

theorem extractEntries_keeps {entries : List CentralEntry}
    (hsafe : ∀ e ∈ entries, SafePath e.normalizedPath) (limits : ZipLimits)
    (events : Nat → EntryEvents) (index total : Nat) :
    Keeps (Within (fs.path cwd destDir) before)
      (extractEntries fs cwd destDir limits events index entries total) := by
  induction entries generalizing index total with
  | nil => exact Keeps.pure ()
  | cons e entries ih =>
    exact Keeps.bind (extractEntry_keeps hne habove (hsafe e List.mem_cons_self) _ _ _)
      fun _ => ih (fun e he => hsafe e (List.mem_cons_of_mem _ he)) _ _

end

/-- What the chunks of a stream that was not stopped leave in the file and in the verifier. -/
theorem streamChunks_ok {entryLimit totalLimit : Nat} {p : List κ} {chunks : List Bytes}
    {v v' : OutputVerifier} {d d' : Disk κ} {old : Bytes} (hfile : d p = some (.file old))
    (h : streamChunks entryLimit totalLimit p chunks v d = .ok v' d') :
    d' = put d p (some (.file (old ++ chunks.flatten))) ∧
      v'.bytes = v.bytes + chunks.flatten.length ∧ v'.total = v.total + chunks.flatten.length ∧
      v'.crc = updateCrc32 v.crc chunks.flatten ∧ (v.total ≤ totalLimit → v'.total ≤ totalLimit) := by
  induction chunks generalizing v d old with
  | nil =>
    cases h
    have hsame : put d' p (some (.file old)) = d' := by
      rw [put, ← hfile, Function.update_eq_self]
    simp [hsame, updateCrc32]
  | cons chunk chunks ih =>
    rw [streamChunks] at h
    cases hnext : v.transform entryLimit totalLimit chunk with
    | error text =>
      rw [hnext] at h
      cases h
    | ok next =>
      rw [hnext] at h
      obtain ⟨_, dnext, hact, hrest⟩ := bind_ok.mp h
      cases hact
      rw [OutputVerifier.transform, ite_error_eq_ok, ite_error_eq_ok] at hnext
      obtain ⟨-, htotal, hnext⟩ := hnext
      obtain rfl := Except.ok.inj hnext
      obtain ⟨rfl, hbytes, hsum, hcrc, hlimit⟩ := ih (append_file hfile chunk) hrest
      refine ⟨?_, ?_, ?_, ?_, fun _ => hlimit (not_lt.mp htotal)⟩
      · rw [append, put, put, put, Function.update_idem, List.flatten_cons, List.append_assoc]
      · rw [hbytes, List.flatten_cons, List.length_append, Nat.add_assoc]
      · rw [hsum, List.flatten_cons, List.length_append, Nat.add_assoc]
      · rw [hcrc, List.flatten_cons]
        simp [updateCrc32]

/-- A file that was written has the content of its entry. -/
theorem writeEntry_ok {inflate : Bytes → Option Bytes} {file : Bytes} {takes : List κ → Bool}
    {limits : ZipLimits} {e : CentralEntry} {events : EntryEvents} {p : List κ}
    {total total' : Nat} {d d' : Disk κ}
    (hdeliver : e.compressedSize ≠ 0 → Delivers inflate file e events)
    (h : writeEntry takes limits e events p total d = .ok total' d') :
    ∃ made bytes, make takes (.file []) p d = (none, made) ∧
      d' = put made p (some (.file bytes)) ∧ contentOf inflate file e = some bytes ∧
      bytes.length = e.uncompressedSize ∧ crc32Of bytes = e.crc32 ∧
      total' = total + bytes.length ∧
      (total ≤ limits.maxTotalUncompressedBytes → total' ≤ limits.maxTotalUncompressedBytes) := by
  obtain ⟨_, made, hmake, h⟩ := bind_ok.mp h
  obtain ⟨v, dwritten, hstream, h⟩ := bind_ok.mp h
  replace hmake := call_ok hmake
  have hempty : made p = some (.file []) := by
    rcases make_cases hmake with ⟨_, hnone, -⟩ | ⟨-, -, -, rfl⟩
    · cases hnone
    · exact put_self _ _ _
  split at h
  · cases h
  rename_i hsize
  split at h
  · cases h
  rename_i hcrc
  obtain ⟨_, dmode, hmode, hlast⟩ := bind_ok.mp h
  obtain ⟨-, rfl⟩ := fails_ok hmode
  cases hlast
  have hcheck : ∀ bytes : Bytes, (∀ b ∈ bytes, b < 256) → v.bytes = bytes.length →
      v.crc = updateCrc32 0xffffffff#32 bytes →
      bytes.length = e.uncompressedSize ∧ crc32Of bytes = e.crc32 := by
    intro bytes hbytes hlen hregister
    refine ⟨hlen ▸ not_not.mp hsize, ?_⟩
    rw [crc32Of, ← updateCrc32_eq _ hbytes, ← hregister]
    exact not_not.mp hcrc
  unfold streamEntry at hstream
  split at hstream
  · rename_i hzero
    obtain ⟨_, dstream, hfault, hlast⟩ := bind_ok.mp hstream
    obtain ⟨-, rfl⟩ := fails_ok hfault
    cases hlast
    obtain ⟨hlen, hsum⟩ := hcheck [] (by simp) rfl rfl
    refine ⟨_, [], hmake, ?_, by simp [contentOf, hzero], hlen, hsum, rfl, id⟩
    rw [put, ← hempty, Function.update_eq_self]
  · rename_i hsome
    obtain ⟨w, dchunks, hchunks, hend⟩ := bind_ok.mp hstream
    obtain ⟨_, dstream, hfault, hlast⟩ := bind_ok.mp hend
    obtain ⟨hnone, rfl⟩ := fails_ok hfault
    cases hlast
    obtain ⟨hdisk, hlen, htotal, hcrc', hlimit⟩ := streamChunks_ok hempty hchunks
    have hbytes : ∀ b ∈ events.chunks.flatten, b < 256 := fun b hb => by
      obtain ⟨chunk, hchunk, hb⟩ := List.mem_flatten.mp hb
      exact (hdeliver hsome).bytes chunk hchunk b hb
    obtain ⟨hsize', hsum⟩ := hcheck _ hbytes (by simpa [OutputVerifier.start] using hlen) hcrc'
    exact ⟨_, _, hmake, by simpa using hdisk, (hdeliver hsome).whole hnone, hsize', hsum, htotal,
      hlimit⟩

section
variable {fs : FileSystem κ} {cwd destDir : Text} {before : Disk κ} (hne : destDir ≠ [])
  (habove : ∀ q, q <+: fs.path cwd destDir → q ≠ fs.path cwd destDir → before q = some .dir)
include hne habove

/-- An entry that was extracted joins what the destination holds. -/
theorem extractEntry_ok {inflate : Bytes → Option Bytes} {file : Bytes} {limits : ZipLimits}
    {e : CentralEntry} {events : EntryEvents} {items : List (Item κ)} {total total' : Nat}
    {d d' : Disk κ} (hsafe : SafePath e.normalizedPath)
    (hdeliver : e.directory = false → e.compressedSize ≠ 0 → Delivers inflate file e events)
    (hwithin : Within (fs.path cwd destDir) before d) (hold : Holds (fs.path cwd destDir) items d)
    (h : extractEntry fs cwd destDir limits e events total d = .ok total' d') :
    ∃ item, Extracted fs inflate file e item ∧ Holds (fs.path cwd destDir) (items ++ [item]) d' ∧
      total' = total + item.size ∧
      (total ≤ limits.maxTotalUncompressedBytes → total' ≤ limits.maxTotalUncompressedBytes) := by
  have hnames := names_ne_nil fs e.normalizedPath
  unfold extractEntry at h
  by_cases habort : events.aborted = true
  · rw [if_pos habort] at h
    cases h
  rw [if_neg habort] at h
  cases htarget : destinationPath cwd destDir e.normalizedPath with
  | error text =>
    rw [htarget] at h
    cases h
  | ok target =>
  rw [htarget] at h
  obtain ⟨hdest, rfl⟩ := destinationPath_ok hne hsafe htarget
  dsimp only at h
  rw [path_below fs cwd hdest hsafe] at h
  by_cases hdir : e.directory = true
  · rw [if_pos hdir] at h
    obtain ⟨_, made, hmade, hend⟩ := bind_ok.mp h
    obtain ⟨_, dmode, hmode, hlast⟩ := bind_ok.mp hend
    obtain ⟨-, rfl⟩ := fails_ok hmode
    cases hlast
    have hreach : reach fs.takes (fs.path cwd destDir) (fs.names e.normalizedPath) true d =
        (none, d') := by
      rw [reach, if_pos rfl, ← hwithin.mkdirs_base habove]
      exact makeDirs_ok hmade
    exact ⟨_, ⟨rfl, fun _ => rfl, fun hfile => by rw [hfile] at hdir; cases hdir⟩,
      holds_directory hold hreach, rfl, id⟩
  · rw [if_neg hdir] at h
    obtain ⟨_, parents, hparents, hend⟩ := bind_ok.mp h
    rcases tryCatch_ok hend with hwrite | ⟨error, dfailed, -, hcatch⟩
    · obtain ⟨made, bytes, hmake, rfl, hcontent, hlen, hcrc, htotal, hlimit⟩ :=
        writeEntry_ok (hdeliver (by simpa using hdir)) hwrite
      have hreach : reach fs.takes (fs.path cwd destDir) (fs.names e.normalizedPath) false d =
          (none, made) := by
        have hdirs := makeDirs_ok hparents
        rw [List.dropLast_append_of_ne_nil hnames, hwithin.mkdirs_base habove] at hdirs
        rw [reach, if_neg (by simp), hdirs]
        exact hmake
      exact ⟨_, ⟨rfl, fun hdir' => absurd hdir' hdir, fun _ => ⟨bytes, rfl, hcontent, hlen, hcrc⟩⟩,
        holds_file hold hreach bytes, htotal, hlimit⟩
    · obtain ⟨_, _, -, hthrow⟩ := bind_ok.mp hcatch
      cases hthrow

theorem extractEntries_ok {inflate : Bytes → Option Bytes} {file : Bytes} {limits : ZipLimits}
    {entries : List CentralEntry} {events : Nat → EntryEvents} {items : List (Item κ)}
    {index total : Nat} {d d' : Disk κ} {result : Unit}
    (hsafe : ∀ e ∈ entries, SafePath e.normalizedPath)
    (hdeliver : ∀ i e, entries[i]? = some e → e.directory = false → e.compressedSize ≠ 0 →
      Delivers inflate file e (events (index + i)))
    (hwithin : Within (fs.path cwd destDir) before d) (hold : Holds (fs.path cwd destDir) items d)
    (htotal : total ≤ limits.maxTotalUncompressedBytes)
    (h : extractEntries fs cwd destDir limits events index entries total d = .ok result d') :
    ∃ new, List.Forall₂ (Extracted fs inflate file) entries new ∧
      Holds (fs.path cwd destDir) (items ++ new) d' ∧
      total + (new.map Item.size).sum ≤ limits.maxTotalUncompressedBytes := by
  induction entries generalizing items index total d with
  | nil =>
    cases h
    exact ⟨[], .nil, by simpa using hold, by simpa using htotal⟩
  | cons e entries ih =>
    obtain ⟨next, dnext, hentry, hrest⟩ := bind_ok.mp h
    have hhere := hsafe e List.mem_cons_self
    obtain ⟨item, hextracted, hheld, rfl, hlimit⟩ :=
      extractEntry_ok hne habove hhere (hdeliver 0 e rfl) hwithin hold hentry
    have hwithin' := extractEntry_keeps hne habove hhere limits (events index) total d hwithin
    rw [hentry] at hwithin'
    obtain ⟨new, hall, hheld', hsum⟩ := ih (fun e he => hsafe e (List.mem_cons_of_mem _ he))
      (fun i e' he' => by
        have hshift : index + (i + 1) = index + 1 + i := by omega
        exact hshift ▸ hdeliver (i + 1) e' he')
      hwithin' hheld (hlimit htotal) hrest
    refine ⟨item :: new, .cons hextracted hall, by simpa using hheld', ?_⟩
    rw [List.map_cons, List.sum_cons]
    omega

end

/-- Nothing is written before the destination is made, and the destination is new. -/
theorem prepare_cases (u : Unicode) (fs : FileSystem κ) (cwd destDir : Text) (file : Bytes)
    (limits : ZipLimits) (events : Events) (d : Disk κ) :
    (∃ text, prepare u fs cwd destDir file limits events d = .error text d) ∨
      ∃ entries made, prepare u fs cwd destDir file limits events d = .ok entries made ∧
        readCentralDirectory u file file.length limits = .ok entries ∧ destDir ≠ [] ∧
        make fs.takes .dir (fs.path cwd destDir) d = (none, made) := by
  unfold prepare
  cases events.stat with
  | some text => exact .inl ⟨text, rfl⟩
  | none =>
  have hstat : (fails none : DiskCalls κ Unit) d = .ok () d := rfl
  rw [bind_of_ok hstat]
  by_cases hfile : events.isFile = false
  · rw [if_pos hfile]
    exact .inl ⟨_, rfl⟩
  rw [if_neg hfile]
  cases hread : readCentralDirectory u file file.length limits with
  | error text => exact .inl ⟨text, rfl⟩
  | ok entries =>
  dsimp only
  by_cases habort : events.aborted = true
  · rw [if_pos habort]
    exact .inl ⟨_, rfl⟩
  rw [if_neg habort]
  rcases call_cases events.mkdir (makeDestination fs cwd destDir) d with
    ⟨text, -, hcall⟩ | ⟨made, hmake, hcall⟩ | ⟨errno, made, hmake, hcall⟩
  · exact .inl ⟨text, bind_of_error hcall _⟩
  · unfold makeDestination at hmake
    split at hmake
    · cases hmake
    · rename_i hne
      exact .inr ⟨entries, made, bind_of_ok hcall _, rfl, hne, hmake⟩
  · have hsame : made = d := by
      unfold makeDestination at hmake
      split at hmake
      · cases hmake
        rfl
      · rcases make_cases hmake with ⟨_, -, hsame⟩ | ⟨hnone, -⟩
        · exact hsame
        · cases hnone
    exact .inl ⟨_, hsame ▸ bind_of_error hcall _⟩

/-- A destination that was made is a new empty directory in a directory. -/
theorem made_destination {takes : List κ → Bool} {base : List κ} {d made : Disk κ}
    (hrooted : Rooted d) (hroot : d [] = some .dir)
    (h : make takes .dir base d = (none, made)) :
    d base = none ∧ (∀ q, q <+: base → q ≠ base → d q = some .dir) ∧ Within base d made ∧
      Holds base [] made := by
  rcases make_cases h with ⟨_, hnone, -⟩ | ⟨-, hnew, hparent, rfl⟩
  · cases hnone
  have hbase : base ≠ [] := fun heq => by
    rw [heq, hroot] at hnew
    cases hnew
  have hbelow : ∀ q, q ≠ [] → d (base ++ q) = none := fun q hq => by
    by_contra hsome
    have hdir := hrooted (base ++ q) base (List.prefix_append base q)
      (fun heq => hq (List.self_eq_append_right.mp heq)) hsome
    rw [hnew] at hdir
    cases hdir
  refine ⟨hnew, fun q hq hne => ?_, ⟨put_self _ _ _, fun p hp => put_of_ne (fun heq => ?_) _⟩,
    holds_nil (put_self _ _ _) fun q hq => ?_⟩
  · by_cases heq : q = base.dropLast
    · rw [heq, hparent]
    · exact hrooted base.dropLast q (prefix_dropLast hq hne) heq (by rw [hparent]; simp)
  · exact hp (heq ▸ List.prefix_rfl)
  · rw [put_of_ne fun heq => hq (List.append_right_eq_self.mp heq)]
    exact hbelow q hq

/-- An extraction that returns has put exactly the content of each entry below a new
destination, and one that throws leaves the disk as it was, unless the partial output could
not be removed or the archive not be closed. -/
theorem extraction_all_or_nothing (u : Unicode) (laws : u.Laws) (fs : FileSystem κ)
    (inflate : Bytes → Option Bytes) (file : Bytes) (cwd destDir : Text)
    (overrides : LimitOverrides) (events : Events) (d : Disk κ) (hrooted : Rooted d)
    (hroot : d [] = some .dir)
    (hdeliver : ∀ limits entries, mergedLimits overrides = .ok limits →
      readCentralDirectory u file file.length limits = .ok entries →
      ∀ i e, entries[i]? = some e → e.directory = false → e.compressedSize ≠ 0 →
        Delivers inflate file e (events.entry i)) :
    match extractZip u fs cwd file destDir overrides events d with
    | .error _ d' => events.cleanup = none → events.close = none → d' = d
    | .ok _ d' =>
      d (fs.path cwd destDir) = none ∧ (∀ p, ¬fs.path cwd destDir <+: p → d' p = d p) ∧
        ∃ limits entries items, mergedLimits overrides = .ok limits ∧
          readCentralDirectory u file file.length limits = .ok entries ∧
          List.Forall₂ (Extracted fs inflate file) entries items ∧
          Holds (fs.path cwd destDir) items d' ∧
          (items.map Item.size).sum ≤ limits.maxTotalUncompressedBytes := by
  unfold extractZip
  cases hlimits : mergedLimits overrides with
  | error text => exact fun _ _ => rfl
  | ok limits =>
  cases hopened : events.opened with
  | some text => exact fun _ _ => rfl
  | none =>
  have hopen : (fails none : DiskCalls κ Unit) d = .ok () d := rfl
  dsimp only
  rw [bind_of_ok hopen]
  -- a `close` that fails is excluded for a throw and impossible for a return
  cases hclose : events.close with
  | some text => exact fun _ h => by cases h
  | none =>
  rw [closing]
  rcases prepare_cases u fs cwd destDir file limits events d with
    ⟨text, hprepare⟩ | ⟨entries, made, hprepare, hread, hne, hmake⟩
  · rw [bind_of_error hprepare]
    exact fun _ _ => rfl
  rw [bind_of_ok hprepare]
  obtain ⟨hnew, habove, hwithin, hold⟩ := made_destination hrooted hroot hmake
  have hsafe := (accepted_of_read laws hread).safe
  have hkeeps : Keeps (Within (fs.path cwd destDir) d) (fill fs cwd destDir limits events entries) :=
    Keeps.bind (Keeps.fails _) fun _ => extractEntries_keeps hne habove hsafe _ _ _ _
  have hafter := hkeeps made hwithin
  cases hfill : fill fs cwd destDir limits events entries made with
  | error text failed =>
    rw [tryCatch_of_error hfill]
    rw [hfill] at hafter
    unfold removeDestination
    cases hcleanup : events.cleanup with
    | some text' => exact fun h => by cases h
    | none => exact fun _ _ => hafter.removeTree hrooted hnew
  | ok result filled =>
    have hreturn : tryCatch (fill fs cwd destDir limits events entries)
        (removeDestination fs cwd destDir events) made = .ok result filled := by
      change EStateM.tryCatch _ _ made = _
      rw [EStateM.tryCatch, hfill]
    rw [hreturn]
    rw [hfill] at hafter
    obtain ⟨_, dmode, hmode, hentries⟩ := bind_ok.mp hfill
    obtain ⟨-, rfl⟩ := fails_ok hmode
    have hstream : ∀ i e, entries[i]? = some e → e.directory = false → e.compressedSize ≠ 0 →
        Delivers inflate file e (events.entry (0 + i)) := fun i e he => by
      rw [Nat.zero_add]
      exact hdeliver limits entries hlimits hread i e he
    obtain ⟨items, hall, hheld, hsum⟩ := extractEntries_ok hne habove hsafe hstream hwithin hold
      (Nat.zero_le _) hentries
    refine ⟨hnew, hafter.frame, limits, entries, items, rfl, hread, hall, by simpa using hheld, ?_⟩
    omega

/-- Calls that all succeed, with the data of each entry in the given chunks. -/
def calm (chunks : List Bytes) : Events where
  opened := none
  stat := none
  isFile := true
  aborted := false
  mkdir := none
  chmod := none
  entry _ := ⟨false, none, none, chunks, none, none, true⟩
  cleanup := none
  close := none

/-- Calls that succeed up to an error in the middle of the data of an entry. -/
def stopped (chunks : List Bytes) : Events :=
  { calm chunks with entry := fun _ => ⟨false, none, none, chunks, some (js "EIO"), none, true⟩ }

/-- A disk with an empty root. -/
def rootDisk : Disk Bytes := fun p => if p = [] then some .dir else none

theorem rootDisk_rooted : Rooted rootDisk := by
  intro p q hq hne hp
  unfold rootDisk at hp
  split_ifs at hp with hroot
  · subst hroot
    exact absurd (List.prefix_nil.mp hq) hne
  · exact absurd rfl hp

/-- A write that fails in the middle of a file leaves nothing. -/
theorem extraction_all_or_nothing_stopped :
    final (extractZip asciiUnicode linux (js "/")
      (archiveOf 0 2363233923 1 (js "a") (js "x")) (js "/out") {} (stopped []) rootDisk) =
        rootDisk := by
  have hresult := extraction_all_or_nothing asciiUnicode asciiUnicode_laws linux (fun _ => none)
    (archiveOf 0 2363233923 1 (js "a") (js "x")) (js "/") (js "/out") {} (stopped []) rootDisk
    rootDisk_rooted (by decide) fun _ _ _ _ _ _ _ _ _ => ⟨by simp [stopped], fun h => by cases h⟩
  have hthrew : threw (extractZip asciiUnicode linux (js "/")
      (archiveOf 0 2363233923 1 (js "a") (js "x")) (js "/out") {} (stopped []) rootDisk) = true := by
    decide +kernel
  revert hresult hthrew
  generalize extractZip asciiUnicode linux (js "/") (archiveOf 0 2363233923 1 (js "a") (js "x"))
    (js "/out") {} (stopped []) rootDisk = result
  intro hresult hthrew
  cases result with
  | ok _ d' => cases hthrew
  | error text d' => exact hresult rfl rfl

/-- Extractions that are not all or nothing, or not the inflation: the partial output cannot be
removed; the archive cannot be closed; and an entry under method 8 without any data, which is
no deflate stream, becomes an empty file. -/
theorem extraction_leaves_output :
    (threw (extractZip asciiUnicode linux (js "/") (archiveOf 0 2363233923 1 (js "a") (js "x"))
        (js "/out") {} { stopped [] with cleanup := some (js "EIO") } rootDisk) = true ∧
      rootDisk [js "out"] = none ∧
      final (extractZip asciiUnicode linux (js "/") (archiveOf 0 2363233923 1 (js "a") (js "x"))
        (js "/out") {} { stopped [] with cleanup := some (js "EIO") } rootDisk) [js "out"] =
        some .dir) ∧
    (threw (extractZip asciiUnicode linux (js "/") (archiveOf 0 2363233923 1 (js "a") (js "x"))
        (js "/out") {} { calm [js "x"] with close := some (js "EIO") } rootDisk) = true ∧
      final (extractZip asciiUnicode linux (js "/") (archiveOf 0 2363233923 1 (js "a") (js "x"))
        (js "/out") {} { calm [js "x"] with close := some (js "EIO") } rootDisk) [js "out"] =
        some .dir) ∧
    threw (extractZip asciiUnicode linux (js "/") (archiveOf 8 0 0 (js "a") []) (js "/out") {}
        (calm []) rootDisk) = false ∧
      final (extractZip asciiUnicode linux (js "/") (archiveOf 8 0 0 (js "a") []) (js "/out") {}
        (calm []) rootDisk) [js "out", js "a"] = some (.file []) := by
  decide +kernel

end BoredManager.Server.Zip
