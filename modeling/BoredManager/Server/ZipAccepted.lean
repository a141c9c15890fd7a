import BoredManager.Machine.Disk
import BoredManager.Server.ZipIndex

/-! What an accepted index says: the entries have paths that do not meet, ranges that do not
overlap, and sizes within the limits; so their files and directories can be made. -/
namespace BoredManager.Server.Zip
open BoredManager.Js

/-- The sizes that the index declares are within the limits, one by one and together. -/
structure WithinLimits (limits : ZipLimits) (entries : List CentralEntry) : Prop where
  names : (entries.map fun e => e.nameBytes.length).sum ≤ limits.maxTotalNameBytes
  compressed : (entries.map (·.compressedSize)).sum ≤ limits.maxTotalCompressedBytes
  uncompressed : (entries.map (·.uncompressedSize)).sum ≤ limits.maxTotalUncompressedBytes
  name : ∀ e ∈ entries, e.nameBytes.length ≤ limits.maxNameBytes
  compressedOne : ∀ e ∈ entries, e.compressedSize ≤ limits.maxCompressedBytesPerEntry
  uncompressedOne : ∀ e ∈ entries, e.uncompressedSize ≤ limits.maxUncompressedBytesPerEntry

theorem checkRecord_ok {limits : ZipLimits} {r : CentralRecord} {t t' : Totals}
    (h : checkRecord limits r t = .ok t') :
    t' = t.add r ∧ r.nameLength ≤ limits.maxNameBytes ∧
      r.compressedSize ≤ limits.maxCompressedBytesPerEntry ∧
      r.uncompressedSize ≤ limits.maxUncompressedBytesPerEntry ∧
      t'.nameBytes ≤ limits.maxTotalNameBytes ∧ t'.compressed ≤ limits.maxTotalCompressedBytes ∧
      t'.declaredUncompressed ≤ limits.maxTotalUncompressedBytes := by
  unfold checkRecord at h
  iterate 13 rw [ite_error_eq_ok] at h
  obtain ⟨-, -, -, -, -, hname, hnames, -, hone, hone', hall, hall', -, h⟩ := h
  obtain rfl := Except.ok.inj h
  exact ⟨rfl, by omega, by omega, by omega, by omega, by omega, by omega⟩

/-- What holds after each turn of the loop over the central directory. -/
structure Indexed (u : Unicode) (limits : ZipLimits) (s : IndexState) : Prop where
  registered : Registered u (s.entries.map (·.entryPath)) s.paths
  safe : ∀ e ∈ s.entries, SafePath e.normalizedPath
  names : (s.entries.map fun e => e.nameBytes.length).sum ≤ s.totals.nameBytes
  compressed : (s.entries.map (·.compressedSize)).sum = s.totals.compressed
  uncompressed : (s.entries.map (·.uncompressedSize)).sum = s.totals.declaredUncompressed
  totals : s.totals.nameBytes ≤ limits.maxTotalNameBytes ∧
    s.totals.compressed ≤ limits.maxTotalCompressedBytes ∧
    s.totals.declaredUncompressed ≤ limits.maxTotalUncompressedBytes
  each : ∀ e ∈ s.entries, e.nameBytes.length ≤ limits.maxNameBytes ∧
    e.compressedSize ≤ limits.maxCompressedBytesPerEntry ∧
    e.uncompressedSize ≤ limits.maxUncompressedBytesPerEntry

theorem indexed_start (u : Unicode) (limits : ZipLimits) : Indexed u limits .start where
  registered := registered_empty u
  safe := by simp [IndexState.start]
  names := le_rfl
  compressed := rfl
  uncompressed := rfl
  totals := ⟨Nat.zero_le _, Nat.zero_le _, Nat.zero_le _⟩
  each := by simp [IndexState.start]

/-- What one turn of the loop adds. -/
theorem indexEntry_ok {u : Unicode} (laws : u.Laws) {limits : ZipLimits} {directory : Bytes}
    {s s' : IndexState} (h : indexEntry u limits directory s = .ok s') :
    ∃ (r : CentralRecord) (e : CentralEntry), checkRecord limits r s.totals = .ok s'.totals ∧
      s'.entries = s.entries ++ [e] ∧ e.nameBytes.length ≤ r.nameLength ∧
      e.compressedSize = r.compressedSize ∧ e.uncompressedSize = r.uncompressedSize ∧
      SafePath e.normalizedPath ∧
      registerPath u e.normalizedPath e.directory s.paths = .ok s'.paths := by
  unfold indexEntry at h
  dsimp only at h
  rw [ite_error_eq_ok, ite_error_eq_ok, ite_error_eq_ok] at h
  obtain ⟨-, -, -, h⟩ := h
  obtain ⟨totals, htotals, h⟩ := bind_eq_ok.mp h
  obtain ⟨-, -, h⟩ := bind_eq_ok.mp h
  obtain ⟨fileName, hname, h⟩ := bind_eq_ok.mp h
  obtain ⟨normalized, hnormalized, h⟩ := bind_eq_ok.mp h
  obtain ⟨-, -, h⟩ := bind_eq_ok.mp h
  obtain ⟨paths, hpaths, h⟩ := bind_eq_ok.mp h
  rw [ite_error_eq_ok] at h
  obtain rfl := Except.ok.inj h.2
  obtain ⟨hscalars, hnul⟩ := decodeName_ok hname
  exact ⟨_, _, htotals, rfl, List.length_take_le _ _, rfl, rfl,
    normalizeEntryPath_ok laws hscalars hnul hnormalized, hpaths⟩

theorem indexed_step {u : Unicode} (laws : u.Laws) {limits : ZipLimits} {directory : Bytes}
    {s s' : IndexState} (inv : Indexed u limits s)
    (h : indexEntry u limits directory s = .ok s') :
    Indexed u limits s' ∧ s'.entries.length = s.entries.length + 1 := by
  obtain ⟨r, e, hcheck, hentries, hname, hcompressed, huncompressed, hsafe, hpaths⟩ :=
    indexEntry_ok laws h
  obtain ⟨htotals, hone, hone', hone'', hall⟩ := checkRecord_ok hcheck
  refine ⟨⟨?_, ?_, ?_, ?_, ?_, hall, ?_⟩, by simp [hentries]⟩
  · rw [hentries, List.map_append]
    exact registered_step inv.registered hpaths
  · rw [hentries]
    intro e' he'
    rcases List.mem_append.mp he' with he' | he'
    · exact inv.safe e' he'
    · exact List.mem_singleton.mp he' ▸ hsafe
  · rw [hentries, htotals]
    have := inv.names
    simp only [List.map_append, List.sum_append, List.map_cons, List.map_nil, List.sum_singleton,
      Totals.add]
    omega
  · rw [hentries, htotals, List.map_append, List.sum_append, inv.compressed]
    simp [Totals.add, hcompressed]
  · rw [hentries, htotals, List.map_append, List.sum_append, inv.uncompressed]
    simp [Totals.add, huncompressed]
  · rw [hentries]
    intro e' he'
    rcases List.mem_append.mp he' with he' | he'
    · exact inv.each e' he'
    · obtain rfl := List.mem_singleton.mp he'
      exact ⟨by omega, by omega, by omega⟩

theorem indexed_run {u : Unicode} (laws : u.Laws) {limits : ZipLimits} {directory : Bytes}
    {count : Nat} {s s' : IndexState} (inv : Indexed u limits s)
    (h : indexEntries u limits directory count s = .ok s') :
    Indexed u limits s' ∧ s'.entries.length = s.entries.length + count := by
  induction count generalizing s with
  | zero =>
    obtain rfl := Except.ok.inj h
    exact ⟨inv, rfl⟩
  | succ count ih =>
    obtain ⟨next, hnext, hrest⟩ := bind_eq_ok.mp h
    obtain ⟨hinv, hlen⟩ := indexed_step laws inv hnext
    obtain ⟨hinv', hlen'⟩ := ih hinv hrest
    exact ⟨hinv', by omega⟩

theorem addWithinFile_ok {offset length fileSize finish : Nat} {label : Text}
    (h : addWithinFile offset length fileSize label = .ok finish) :
    finish = offset + length ∧ finish ≤ fileSize := by
  unfold addWithinFile boundedInteger at h
  obtain ⟨offset', hoffset, h⟩ := bind_eq_ok.mp h
  obtain ⟨length', hlength, h⟩ := bind_eq_ok.mp h
  rw [ite_error_eq_ok] at hoffset hlength h
  obtain rfl := Except.ok.inj hoffset.2
  obtain rfl := Except.ok.inj hlength.2
  obtain rfl := Except.ok.inj h.2
  exact ⟨rfl, by omega⟩

/-- The range of an entry, from its local header to the end of its data. -/
structure Located (fileSize directoryOffset : Nat) (e : CentralEntry) : Prop where
  header : e.localHeaderOffset + 30 ≤ e.dataStart
  data : e.dataEnd = e.dataStart + e.compressedSize
  file : e.dataEnd ≤ fileSize
  index : e.dataEnd ≤ directoryOffset

theorem locateData_ok {file : Bytes} {fileSize directoryOffset : Nat} {e e' : CentralEntry}
    (h : locateData file fileSize directoryOffset e = .ok e') :
    Located fileSize directoryOffset e' ∧ e' = e.atData e'.dataStart e'.dataEnd := by
  unfold locateData at h
  obtain ⟨header, -, h⟩ := bind_eq_ok.mp h
  rw [ite_error_eq_ok, ite_error_eq_ok] at h
  obtain ⟨-, -, h⟩ := h
  obtain ⟨fields, -, h⟩ := bind_eq_ok.mp h
  rw [ite_error_eq_ok] at h
  obtain ⟨-, -, h⟩ := bind_eq_ok.mp h.2
  obtain ⟨dataEnd, hend, h⟩ := bind_eq_ok.mp h
  rw [ite_error_eq_ok] at h
  obtain rfl := Except.ok.inj h.2
  obtain ⟨hsum, hfile⟩ := addWithinFile_ok hend
  exact ⟨⟨by simp [CentralEntry.atData], hsum, hfile, not_lt.mp h.1⟩, rfl⟩

theorem locateEntries_ok {file : Bytes} {fileSize directoryOffset : Nat}
    {entries entries' : List CentralEntry}
    (h : locateEntries file fileSize directoryOffset entries = .ok entries') :
    (∀ e ∈ entries', Located fileSize directoryOffset e) ∧
      entries'.map (·.atData 0 0) = entries.map (·.atData 0 0) := by
  induction entries generalizing entries' with
  | nil =>
    obtain rfl := Except.ok.inj h
    exact ⟨by simp, rfl⟩
  | cons e entries ih =>
    obtain ⟨e', he', h⟩ := bind_eq_ok.mp h
    obtain ⟨rest, hrest, h⟩ := bind_eq_ok.mp h
    obtain rfl := Except.ok.inj h
    obtain ⟨hlocated, heq⟩ := locateData_ok he'
    obtain ⟨hall, hmap⟩ := ih hrest
    refine ⟨List.forall_mem_cons.mpr ⟨hlocated, hall⟩, ?_⟩
    rw [List.map_cons, List.map_cons, hmap, heq]
    rfl

/-- What the data range does not enter is the same after the data was located. -/
theorem map_of_located {β : Type*} {entries entries' : List CentralEntry}
    (h : entries'.map (·.atData 0 0) = entries.map (·.atData 0 0)) (f : CentralEntry → β)
    (hf : ∀ e, f (e.atData 0 0) = f e) : entries'.map f = entries.map f := by
  have hcomp : f = f ∘ (·.atData 0 0) := funext fun e => (hf e).symm
  rw [hcomp, ← List.map_map, h, List.map_map]

theorem checkOverlap_ok {entries entries' : List CentralEntry}
    (hle : ∀ e ∈ entries, e.localHeaderOffset ≤ e.dataEnd)
    (h : checkOverlap entries = .ok entries') :
    entries' = entries ∧
      entries.Pairwise (Ranges.Apart CentralEntry.localHeaderOffset CentralEntry.dataEnd) := by
  unfold checkOverlap at h
  split at h
  · cases h
  · exact ⟨(Except.ok.inj h).symm, Ranges.pairwise_apart hle ‹_›⟩

/-- What an accepted archive is known to satisfy. -/
structure Accepted (u : Unicode) (limits : ZipLimits) (fileSize directoryOffset : Nat)
    (entries : List CentralEntry) : Prop where
  located : ∀ e ∈ entries, Located fileSize directoryOffset e
  disjoint : entries.Pairwise (Ranges.Apart CentralEntry.localHeaderOffset CentralEntry.dataEnd)
  safe : ∀ e ∈ entries, SafePath e.normalizedPath
  apart : entries.Pairwise fun a b => PathsApart u a.entryPath b.entryPath
  count : entries.length ≤ limits.maxEntries
  limits : WithinLimits limits entries

/-- The offset of the central directory, as the end record has it. -/
def directoryOffset (file : Bytes) : Nat :=
  match locateEocd file file.length with
  | .ok eocd => readUInt32LE eocd.record 16
  | .error _ => 0

theorem accepted_of_read {u : Unicode} (laws : u.Laws) {file : Bytes} {limits : ZipLimits}
    {entries : List CentralEntry}
    (h : readCentralDirectory u file file.length limits = .ok entries) :
    Accepted u limits file.length (directoryOffset file) entries := by
  unfold readCentralDirectory at h
  obtain ⟨eocd, heocd, h⟩ := bind_eq_ok.mp h
  have hoffset : directoryOffset file = readUInt32LE eocd.record 16 := by
    simp [directoryOffset, heocd]
  dsimp only at h
  rw [ite_error_eq_ok, ite_error_eq_ok, ite_error_eq_ok, ite_error_eq_ok] at h
  obtain ⟨-, -, hcount, -, h⟩ := h
  obtain ⟨directoryEnd, -, h⟩ := bind_eq_ok.mp h
  rw [ite_error_eq_ok] at h
  obtain ⟨-, h⟩ := h
  obtain ⟨directory, -, h⟩ := bind_eq_ok.mp h
  obtain ⟨index, hindex, h⟩ := bind_eq_ok.mp h
  rw [ite_error_eq_ok] at h
  obtain ⟨located, hlocated, h⟩ := bind_eq_ok.mp h.2
  obtain ⟨hranges, hmap⟩ := locateEntries_ok hlocated
  have hle : ∀ e ∈ located, e.localHeaderOffset ≤ e.dataEnd := fun e he => by
    have hdata := (hranges e he).data
    have hheader := (hranges e he).header
    omega
  obtain ⟨rfl, hdisjoint⟩ := checkOverlap_ok hle h
  obtain ⟨hinv, hlen⟩ := indexed_run laws (indexed_start u limits) hindex
  have hsame : ∀ {β : Type} (f : CentralEntry → β), (∀ e, f (e.atData 0 0) = f e) →
      entries.map f = index.entries.map f := fun f => map_of_located hmap f
  have hmem : ∀ {β : Type} (f : CentralEntry → β), (∀ e, f (e.atData 0 0) = f e) →
      ∀ e ∈ entries, ∃ e' ∈ index.entries, f e' = f e := fun f hf e he =>
    List.mem_map.mp (hsame f hf ▸ List.mem_map_of_mem he)
  refine ⟨fun e he => hoffset ▸ hranges e he, hdisjoint, fun e he => ?_, ?_, ?_, ?_⟩
  · obtain ⟨e', he', heq⟩ := hmem (·.normalizedPath) (fun e => rfl) e he
    exact heq ▸ hinv.safe e' he'
  · refine List.pairwise_map.mp ?_
    rw [hsame (·.entryPath) fun e => rfl]
    exact hinv.registered.apart
  · have hlength := congrArg List.length (hsame (·.directory) fun e => rfl)
    rw [List.length_map, List.length_map] at hlength
    have hzero : IndexState.start.entries.length = 0 := rfl
    omega
  · refine ⟨?_, ?_, ?_, fun e he => ?_, fun e he => ?_, fun e he => ?_⟩
    · rw [hsame (fun e => e.nameBytes.length) fun e => rfl]
      exact hinv.names.trans hinv.totals.1
    · rw [hsame (·.compressedSize) fun e => rfl, hinv.compressed]
      exact hinv.totals.2.1
    · rw [hsame (·.uncompressedSize) fun e => rfl, hinv.uncompressed]
      exact hinv.totals.2.2
    · obtain ⟨e', he', heq⟩ := hmem (·.nameBytes.length) (fun e => rfl) e he
      exact heq ▸ (hinv.each e' he').1
    · obtain ⟨e', he', heq⟩ := hmem (·.compressedSize) (fun e => rfl) e he
      exact heq ▸ (hinv.each e' he').2.1
    · obtain ⟨e', he', heq⟩ := hmem (·.uncompressedSize) (fun e => rfl) e he
      exact heq ▸ (hinv.each e' he').2.2

end BoredManager.Server.Zip
