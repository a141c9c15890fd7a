import BoredManager.Machine.Ranges
import BoredManager.Server.ZipNames

/-! The index of an archive: its end record, the central directory entry by entry, and the
local header and data range of each entry. -/
namespace BoredManager.Server.Zip
open BoredManager.Js

def eocdSignature : Nat := 0x06054b50
def centralSignature : Nat := 0x02014b50
def localSignature : Nat := 0x04034b50
def zip64ExtraId : Nat := 0x0001
def aesExtraId : Nat := 0x9901
def maxEocdSize : Nat := 22 + 0xffff
def maxCentralDirectory : Nat := 64 * 1024 * 1024
def encryptedFlags : Nat := 0x41
def dataDescriptorFlag : Nat := 8
/-- The sixteen flag bits apart from the UTF-8 flag and the two of the compression level. -/
def unsupportedFlags : Nat := 0xf7f9

structure ZipLimits where
  maxEntries : Nat
  maxNameBytes : Nat
  maxTotalNameBytes : Nat
  maxCompressedBytesPerEntry : Nat
  maxTotalCompressedBytes : Nat
  maxUncompressedBytesPerEntry : Nat
  maxTotalUncompressedBytes : Nat
  maxCompressionRatio : Nat

def defaultZipLimits : ZipLimits where
  maxEntries := 20000
  maxNameBytes := 4 * 1024
  maxTotalNameBytes := 8 * 1024 * 1024
  maxCompressedBytesPerEntry := 512 * 1024 * 1024
  maxTotalCompressedBytes := 512 * 1024 * 1024
  maxUncompressedBytesPerEntry := 1024 * 1024 * 1024
  maxTotalUncompressedBytes := 2 * 1024 * 1024 * 1024
  maxCompressionRatio := 200

structure CentralEntry where
  fileName : Text
  nameBytes : Bytes
  normalizedPath : Text
  directory : Bool
  flags : Nat
  method : Nat
  crc32 : Nat
  compressedSize : Nat
  uncompressedSize : Nat
  localHeaderOffset : Nat
  dataStart : Nat
  dataEnd : Nat
deriving DecidableEq

def CentralEntry.entryPath (e : CentralEntry) : EntryPath := ⟨e.normalizedPath, e.directory⟩

def CentralEntry.atData (e : CentralEntry) (dataStart dataEnd : Nat) : CentralEntry :=
  { e with dataStart, dataEnd }

/-- `label "name"`. -/
def named (label : String) (fileName : Text) : Text := js label ++ js " \"" ++ fileName ++ js "\""

def boundedInteger (value : Nat) (label : Text) : Except Text Nat :=
  if maxSafeNat < value then .error (label ++ js " is invalid") else .ok value

def addWithinFile (offset length fileSize : Nat) (label : Text) : Except Text Nat := do
  let offset ← boundedInteger offset (label ++ js " offset")
  let length ← boundedInteger length (label ++ js " length")
  if maxSafeNat < offset + length ∨ fileSize < offset + length then
    .error (label ++ js " lies outside the archive")
  else .ok (offset + length)

def readAt (file : Bytes) (fileSize position length : Nat) (label : Text) : Except Text Bytes := do
  let _ ← addWithinFile position length fileSize label
  let buffer := (file.drop position).take length
  if buffer.length < length then .error (label ++ js " is truncated") else .ok buffer

/-- The extra fields from a cursor on; a field takes four bytes at least, so `fuel` bytes
hold no more than `fuel` of them. -/
def extraFieldProblemFrom (extra : Bytes) : Nat → Nat → Option Text
  | 0, _ => none
  | fuel+1, cursor =>
    if extra.length ≤ cursor then none
    else if extra.length < cursor + 4 then some (js "an extra field is truncated")
    else
      let id := readUInt16LE extra cursor
      let length := readUInt16LE extra (cursor + 2)
      if extra.length < cursor + 4 + length then
        some (js "an extra field extends past its record")
      else if id = zip64ExtraId then some (js "ZIP64 extra fields are not supported")
      else if id = aesExtraId then some (js "AES-encrypted entries are not supported")
      else extraFieldProblemFrom extra fuel (cursor + 4 + length)

def extraFieldProblem (extra : Bytes) : Option Text := extraFieldProblemFrom extra extra.length 0

def checkExtra (extra : Bytes) : Except Text Unit :=
  match extraFieldProblem extra with
  | some problem => .error problem
  | none => .ok ()

/-- The last end record whose comment ends with the file. -/
def findEocd (tail : Bytes) : Nat → Option Nat
  | 0 => if isEocd 0 then some 0 else none
  | index+1 => if isEocd (index + 1) then some (index + 1) else findEocd tail index
where
  isEocd (index : Nat) : Bool :=
    readUInt32LE tail index == eocdSignature &&
      index + 22 + readUInt16LE tail (index + 20) == tail.length

structure Eocd where
  offset : Nat
  record : Bytes

def locateEocd (file : Bytes) (fileSize : Nat) : Except Text Eocd :=
  if fileSize < 22 then .error (js "this is not a zip archive")
  else do
    let tailLength := min fileSize maxEocdSize
    let tailOffset := fileSize - tailLength
    let tail ← readAt file fileSize tailOffset tailLength (js "archive tail")
    match findEocd tail (tail.length - 22) with
    | some index => .ok ⟨tailOffset + index, (tail.drop index).take 22⟩
    | none =>
      .error (js "this is not a zip archive (no valid end-of-central-directory record)")

/-- The fields of one record of the central directory. -/
structure CentralRecord where
  versionMadeBy : Nat
  versionNeeded : Nat
  flags : Nat
  method : Nat
  crc32 : Nat
  compressedSize : Nat
  uncompressedSize : Nat
  nameLength : Nat
  extraLength : Nat
  commentLength : Nat
  diskStart : Nat
  externalAttributes : Nat
  localHeaderOffset : Nat

def readRecord (directory : Bytes) (cursor : Nat) : CentralRecord where
  versionMadeBy := readUInt16LE directory (cursor + 4)
  versionNeeded := readUInt16LE directory (cursor + 6)
  flags := readUInt16LE directory (cursor + 8)
  method := readUInt16LE directory (cursor + 10)
  crc32 := readUInt32LE directory (cursor + 16)
  compressedSize := readUInt32LE directory (cursor + 20)
  uncompressedSize := readUInt32LE directory (cursor + 24)
  nameLength := readUInt16LE directory (cursor + 28)
  extraLength := readUInt16LE directory (cursor + 30)
  commentLength := readUInt16LE directory (cursor + 32)
  diskStart := readUInt16LE directory (cursor + 34)
  externalAttributes := readUInt32LE directory (cursor + 38)
  localHeaderOffset := readUInt32LE directory (cursor + 42)

def CentralRecord.length (r : CentralRecord) : Nat :=
  46 + r.nameLength + r.extraLength + r.commentLength

structure Totals where
  nameBytes : Nat
  compressed : Nat
  declaredUncompressed : Nat

def Totals.add (t : Totals) (r : CentralRecord) : Totals :=
  ⟨t.nameBytes + r.nameLength, t.compressed + r.compressedSize,
    t.declaredUncompressed + r.uncompressedSize⟩

/-- The checks of a record on its own and with the sums so far. -/
def checkRecord (limits : ZipLimits) (r : CentralRecord) (t : Totals) : Except Text Totals :=
  if 45 ≤ r.versionNeeded ∨ r.diskStart ≠ 0 then
    .error (js "ZIP64 or multi-disk entries are not supported")
  else if r.flags &&& encryptedFlags ≠ 0 then
    .error (js "encrypted ZIP entries are not supported")
  else if r.flags &&& dataDescriptorFlag ≠ 0 then
    .error (js "ZIP data-descriptor entries are not supported")
  else if r.flags &&& unsupportedFlags ≠ 0 then
    .error (js "archive entry uses unsupported ZIP flags")
  else if r.method ≠ 0 ∧ r.method ≠ 8 then
    .error (js "archive entry uses unsupported compression method " ++ decimal r.method)
  else if limits.maxNameBytes < r.nameLength then
    .error (js "an archive entry name is too long")
  else if limits.maxTotalNameBytes < (t.add r).nameBytes then
    .error (js "archive entry names exceed the total name limit")
  else if r.compressedSize = 0xffffffff ∨ r.uncompressedSize = 0xffffffff ∨
      r.localHeaderOffset = 0xffffffff then
    .error (js "ZIP64 entries are not supported")
  else if limits.maxCompressedBytesPerEntry < r.compressedSize then
    .error (js "an archive entry is too large while compressed")
  else if limits.maxUncompressedBytesPerEntry < r.uncompressedSize then
    .error (js "an archive entry expands beyond the per-entry limit")
  else if limits.maxTotalCompressedBytes < (t.add r).compressed then
    .error (js "archive compressed data exceeds the total limit")
  else if limits.maxTotalUncompressedBytes < (t.add r).declaredUncompressed then
    .error (js "archive declared output exceeds the total limit")
  else if 0 < r.uncompressedSize ∧ (r.compressedSize = 0 ∨
      limits.maxCompressionRatio * r.compressedSize < r.uncompressedSize) then
    .error (js "an archive entry exceeds the compression-ratio limit")
  else .ok (t.add r)

structure IndexState where
  entries : List CentralEntry
  paths : Paths
  cursor : Nat
  totals : Totals

def IndexState.start : IndexState := ⟨[], .empty, 0, ⟨0, 0, 0⟩⟩

/-- One turn of the loop over the central directory. -/
def indexEntry (u : Unicode) (limits : ZipLimits) (directory : Bytes) (s : IndexState) :
    Except Text IndexState :=
  let r := readRecord directory s.cursor
  if directory.length < s.cursor + 46 then .error (js "the archive index is truncated")
  else if readUInt32LE directory s.cursor ≠ centralSignature then
    .error (js "the archive index has an invalid entry signature")
  else if directory.length < s.cursor + r.length then
    .error (js "the archive index entry extends past the central directory")
  else do
    let totals ← checkRecord limits r s.totals
    let nameBytes := (directory.drop (s.cursor + 46)).take r.nameLength
    let _ ← checkExtra ((directory.drop (s.cursor + 46 + r.nameLength)).take r.extraLength)
    let fileName ← decodeName nameBytes r.flags
    let normalized ← normalizeEntryPath u fileName
    let _ ← validateMode r.versionMadeBy r.externalAttributes normalized.directory
    let paths ← registerPath u normalized.path normalized.directory s.paths
    if normalized.directory ∧ (r.compressedSize ≠ 0 ∨ r.uncompressedSize ≠ 0 ∨ r.crc32 ≠ 0) then
      .error (js "a directory entry contains file data")
    else
      .ok {
        entries := s.entries ++ [{
          fileName, nameBytes
          normalizedPath := normalized.path
          directory := normalized.directory
          flags := r.flags
          method := r.method
          crc32 := r.crc32
          compressedSize := r.compressedSize
          uncompressedSize := r.uncompressedSize
          localHeaderOffset := r.localHeaderOffset
          dataStart := 0
          dataEnd := 0 }]
        paths, totals
        cursor := s.cursor + r.length }

def indexEntries (u : Unicode) (limits : ZipLimits) (directory : Bytes) :
    Nat → IndexState → Except Text IndexState
  | 0, s => .ok s
  | count+1, s => do
    let s ← indexEntry u limits directory s
    indexEntries u limits directory count s

/-- The local header of an entry, and from it where the data of the entry lies. -/
def locateData (file : Bytes) (fileSize directoryOffset : Nat) (entry : CentralEntry) :
    Except Text CentralEntry := do
  let header ← readAt file fileSize entry.localHeaderOffset 30
    (named "local header for" entry.fileName)
  if readUInt32LE header 0 ≠ localSignature then
    .error (named "local header signature is invalid for" entry.fileName)
  else if 45 ≤ readUInt16LE header 4 ∨ readUInt16LE header 6 ≠ entry.flags ∨
      readUInt16LE header 8 ≠ entry.method ∨ readUInt32LE header 14 ≠ entry.crc32 ∨
      readUInt32LE header 18 ≠ entry.compressedSize ∨
      readUInt32LE header 22 ≠ entry.uncompressedSize then
    .error (named "local and central metadata disagree for" entry.fileName)
  else
    let nameLength := readUInt16LE header 26
    let variableLength := nameLength + readUInt16LE header 28
    let fields ← readAt file fileSize (entry.localHeaderOffset + 30) variableLength
      (named "local header fields for" entry.fileName)
    if fields.take nameLength ≠ entry.nameBytes then
      .error (named "local and central names disagree for" entry.fileName)
    else
      let _ ← checkExtra (fields.drop nameLength)
      let dataStart := entry.localHeaderOffset + 30 + variableLength
      let dataEnd ← addWithinFile dataStart entry.compressedSize fileSize
        (named "compressed data for" entry.fileName)
      if directoryOffset < dataEnd then
        .error (named "compressed data overlaps the central directory for" entry.fileName)
      else .ok (entry.atData dataStart dataEnd)

def locateEntries (file : Bytes) (fileSize directoryOffset : Nat) :
    List CentralEntry → Except Text (List CentralEntry)
  | [] => .ok []
  | entry :: entries => do
    let entry ← locateData file fileSize directoryOffset entry
    let entries ← locateEntries file fileSize directoryOffset entries
    .ok (entry :: entries)

def checkOverlap (entries : List CentralEntry) : Except Text (List CentralEntry) :=
  match Ranges.firstOverlap CentralEntry.localHeaderOffset CentralEntry.dataEnd
      (Ranges.sortByStart CentralEntry.localHeaderOffset entries) with
  | some (before, after) =>
    .error (named "archive entries overlap:" before.fileName ++ named " and" after.fileName)
  | none => .ok entries

def readCentralDirectory (u : Unicode) (file : Bytes) (fileSize : Nat) (limits : ZipLimits) :
    Except Text (List CentralEntry) := do
  let eocd ← locateEocd file fileSize
  let entryCount := readUInt16LE eocd.record 10
  let directorySize := readUInt32LE eocd.record 12
  let directoryOffset := readUInt32LE eocd.record 16
  if readUInt16LE eocd.record 4 ≠ 0 ∨ readUInt16LE eocd.record 6 ≠ 0 ∨
      readUInt16LE eocd.record 8 ≠ entryCount then
    .error (js "multi-disk ZIP archives are not supported")
  else if entryCount = 0xffff ∨ directorySize = 0xffffffff ∨ directoryOffset = 0xffffffff then
    .error (js "ZIP64 archives are not supported")
  else if limits.maxEntries < entryCount then
    .error (js "the archive contains too many entries")
  else if maxCentralDirectory < directorySize then
    .error (js "the archive central directory is too large")
  else
    let directoryEnd ← addWithinFile directoryOffset directorySize fileSize (js "central directory")
    if directoryEnd ≠ eocd.offset then
      .error (js "the archive central-directory offset or length is inconsistent")
    else
      let directory ← readAt file fileSize directoryOffset directorySize (js "central directory")
      let index ← indexEntries u limits directory entryCount .start
      if index.cursor ≠ directory.length then
        .error (js "the central directory contains unindexed trailing data")
      else
        let entries ← locateEntries file fileSize directoryOffset index.entries
        checkOverlap entries

end BoredManager.Server.Zip
