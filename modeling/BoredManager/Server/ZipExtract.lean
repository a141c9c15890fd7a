import BoredManager.Codec.Crc
import BoredManager.Machine.Calls
import BoredManager.Machine.Disk
import BoredManager.Server.ZipIndex

/-! Extraction of an archive: the limits it is called with, the checks on the bytes that come
out, and the calls on the disk with everything that can fail between them. -/
namespace BoredManager.Server.Zip
open BoredManager.Js BoredManager.Storage BoredManager.Calls

/-- `Partial<ZipLimits>`. -/
structure LimitOverrides where
  maxEntries : Option Number := none
  maxNameBytes : Option Number := none
  maxTotalNameBytes : Option Number := none
  maxCompressedBytesPerEntry : Option Number := none
  maxTotalCompressedBytes : Option Number := none
  maxUncompressedBytesPerEntry : Option Number := none
  maxTotalUncompressedBytes : Option Number := none
  maxCompressionRatio : Option Number := none

def mergedLimit (name : String) (value : Nat) (override : Option Number) : Except Text Nat :=
  match override with
  | none => .ok value
  | some number =>
    match number.safeInteger? with
    | some z => if z ≤ 0 then .error (invalid name) else .ok z.toNat
    | none => .error (invalid name)
where
  invalid (name : String) : Text := js "ZIP limit " ++ js name ++ js " is invalid"

def mergedLimits (o : LimitOverrides) : Except Text ZipLimits := do
  let d := defaultZipLimits
  return {
    maxEntries := ← mergedLimit "maxEntries" d.maxEntries o.maxEntries
    maxNameBytes := ← mergedLimit "maxNameBytes" d.maxNameBytes o.maxNameBytes
    maxTotalNameBytes :=
      ← mergedLimit "maxTotalNameBytes" d.maxTotalNameBytes o.maxTotalNameBytes
    maxCompressedBytesPerEntry := ← mergedLimit "maxCompressedBytesPerEntry"
      d.maxCompressedBytesPerEntry o.maxCompressedBytesPerEntry
    maxTotalCompressedBytes := ← mergedLimit "maxTotalCompressedBytes"
      d.maxTotalCompressedBytes o.maxTotalCompressedBytes
    maxUncompressedBytesPerEntry := ← mergedLimit "maxUncompressedBytesPerEntry"
      d.maxUncompressedBytesPerEntry o.maxUncompressedBytesPerEntry
    maxTotalUncompressedBytes := ← mergedLimit "maxTotalUncompressedBytes"
      d.maxTotalUncompressedBytes o.maxTotalUncompressedBytes
    maxCompressionRatio :=
      ← mergedLimit "maxCompressionRatio" d.maxCompressionRatio o.maxCompressionRatio }

def crcPolynomial : BitVec 32 := 0xedb88320#32

def updateCrc32 (current : BitVec 32) (chunk : Bytes) : BitVec 32 :=
  chunk.foldl (Crc.tableByte crcPolynomial) current

/-- `OutputVerifier`, with the total that all entries share. -/
structure OutputVerifier where
  bytes : Nat
  crc : BitVec 32
  total : Nat

def OutputVerifier.start (total : Nat) : OutputVerifier := ⟨0, 0xffffffff#32, total⟩

def OutputVerifier.crc32 (v : OutputVerifier) : Nat := (v.crc ^^^ 0xffffffff#32).toNat

def OutputVerifier.transform (entryLimit totalLimit : Nat) (v : OutputVerifier) (chunk : Bytes) :
    Except Text OutputVerifier :=
  if entryLimit < v.bytes + chunk.length then
    .error (js "archive entry produced more bytes than allowed")
  else if totalLimit < v.total + chunk.length then
    .error (js "archive produced more total bytes than allowed")
  else .ok ⟨v.bytes + chunk.length, updateCrc32 v.crc chunk, v.total + chunk.length⟩

/-- How a file system tells names apart, and which paths it takes at all. -/
structure FileSystem (κ : Type) where
  key : Text → κ
  takes : List κ → Bool

/-- The names on the way to a path. -/
def FileSystem.path {κ : Type} (fs : FileSystem κ) (cwd target : Text) : List κ :=
  ((segments (resolve cwd [target])).filter (· ≠ [])).map fs.key

def destinationPath (cwd root normalizedPath : Text) : Except Text Text :=
  let target := resolve cwd (root :: segments normalizedPath)
  if target ≠ root ∧ (root ++ js "/").isPrefixOf target = false then
    .error (js "archive path escaped the extraction destination")
  else .ok target

/-- A recursive `mkdir` that fails when it has made some of its directories. -/
structure MkdirFault where
  text : Text
  made : Nat

/-- What the calls of one entry meet: an abort, errors of the system, and the chunks that
the data comes in, with the error that ends the stream early. -/
structure EntryEvents where
  aborted : Bool
  mkdir : Option MkdirFault
  create : Option Text
  chunks : List Bytes
  stream : Option Text
  chmod : Option Text
  removed : Bool

structure Events where
  opened : Option Text
  stat : Option Text
  isFile : Bool
  aborted : Bool
  mkdir : Option Text
  chmod : Option Text
  entry : Nat → EntryEvents
  cleanup : Option Text
  close : Option Text

def cancelled : Text := js "archive extraction was cancelled"

def errnoText : Errno → Text
  | .taken => js "EEXIST"
  | .absent => js "ENOENT"
  | .refused => js "ENAMETOOLONG"

variable {κ : Type} [DecidableEq κ]

abbrev DiskCalls (κ α : Type) := EStateM Text (Disk κ) α

/-- A call that the system fails, or that ends as the store says. -/
def call (fault : Option Text) (op : Disk κ → Option Errno × Disk κ) : DiskCalls κ Unit := fun d =>
  match fault with
  | some text => .error text d
  | none =>
    match op d with
    | (none, d) => .ok () d
    | (some errno, d) => .error (errnoText errno) d

/-- `mkdir` with `recursive`. -/
def makeDirs (takes : List κ → Bool) (fault : Option MkdirFault) (p : List κ) : DiskCalls κ Unit :=
  fun d =>
    match fault with
    | some fault => .error fault.text (mkdirs takes [] (p.take fault.made) d).2
    | none => call none (mkdirs takes [] p) d

def streamChunks (entryLimit totalLimit : Nat) (p : List κ) :
    List Bytes → OutputVerifier → DiskCalls κ OutputVerifier
  | [], v => pure v
  | chunk :: chunks, v =>
    match v.transform entryLimit totalLimit chunk with
    | .error text => throw text
    | .ok v => do
      act (append p chunk)
      streamChunks entryLimit totalLimit p chunks v

/-- The data of an entry through the verifier into its file; there is no stream for an entry
without data. -/
def streamEntry (limits : ZipLimits) (entry : CentralEntry) (events : EntryEvents) (p : List κ)
    (total : Nat) : DiskCalls κ OutputVerifier :=
  if entry.compressedSize = 0 then do
    fails events.stream
    pure (.start total)
  else do
    let v ← streamChunks (min entry.uncompressedSize limits.maxUncompressedBytesPerEntry)
      limits.maxTotalUncompressedBytes p events.chunks (.start total)
    fails events.stream
    pure v

def writeEntry (takes : List κ → Bool) (limits : ZipLimits) (entry : CentralEntry)
    (events : EntryEvents) (p : List κ) (total : Nat) : DiskCalls κ Nat := do
  call events.create (make takes (.file []) p)
  let v ← streamEntry limits entry events p total
  if v.bytes ≠ entry.uncompressedSize then
    throw (named "archive entry" entry.fileName ++ js " has the wrong uncompressed size")
  else if v.crc32 ≠ entry.crc32 then
    throw (named "archive entry" entry.fileName ++ js " failed its CRC32 check")
  else do
    fails events.chmod
    pure v.total

/-- One turn of the loop over the entries; the result is the total of bytes so far. -/
def extractEntry (fs : FileSystem κ) (cwd destDir : Text) (limits : ZipLimits)
    (entry : CentralEntry) (events : EntryEvents) (total : Nat) : DiskCalls κ Nat :=
  if events.aborted then throw cancelled
  else
    match destinationPath cwd destDir entry.normalizedPath with
    | .error text => throw text
    | .ok target =>
      let p := fs.path cwd target
      if entry.directory then do
        makeDirs fs.takes events.mkdir p
        fails events.chmod
        pure total
      else do
        makeDirs fs.takes events.mkdir p.dropLast
        tryCatch (writeEntry fs.takes limits entry events p total) fun error => do
          act fun d => if events.removed then removeFile p d else d
          throw error

def extractEntries (fs : FileSystem κ) (cwd destDir : Text) (limits : ZipLimits)
    (events : Nat → EntryEvents) : Nat → List CentralEntry → Nat → DiskCalls κ Unit
  | _, [], _ => pure ()
  | index, entry :: entries, total => do
    let total ← extractEntry fs cwd destDir limits entry (events index) total
    extractEntries fs cwd destDir limits events (index + 1) entries total

/-- `mkdir` of the destination itself; no path is no directory. -/
def makeDestination (fs : FileSystem κ) (cwd destDir : Text) (d : Disk κ) :
    Option Errno × Disk κ :=
  if destDir = [] then (some .absent, d) else make fs.takes .dir (fs.path cwd destDir) d

/-- Up to the destination: everything that is checked before anything is written. -/
def prepare (u : Unicode) (fs : FileSystem κ) (cwd destDir : Text) (file : Bytes)
    (limits : ZipLimits) (events : Events) : DiskCalls κ (List CentralEntry) := do
  fails events.stat
  if events.isFile = false then throw (js "the ZIP source is not a regular file")
  else
    match readCentralDirectory u file file.length limits with
    | .error text => throw text
    | .ok entries =>
      if events.aborted then throw cancelled
      else do
        call events.mkdir (makeDestination fs cwd destDir)
        pure entries

def fill (fs : FileSystem κ) (cwd destDir : Text) (limits : ZipLimits) (events : Events)
    (entries : List CentralEntry) : DiskCalls κ Unit := do
  fails events.chmod
  extractEntries fs cwd destDir limits events.entry 0 entries 0

/-- The destination goes when an entry fails. -/
def removeDestination (fs : FileSystem κ) (cwd destDir : Text) (events : Events) (error : Text) :
    DiskCalls κ Unit :=
  match events.cleanup with
  | some _ => throw (js "archive extraction failed and partial output could not be removed")
  | none => do
    act (removeTree (fs.path cwd destDir))
    throw error

/-- `finally`: an error of `close` takes the place of what happened before. -/
def closing {α : Type} (fault : Option Text) (x : DiskCalls κ α) : DiskCalls κ α := fun d =>
  match fault with
  | some text => .error text (final (x d))
  | none => x d

def extractZip (u : Unicode) (fs : FileSystem κ) (cwd : Text) (file : Bytes) (destDir : Text)
    (overrides : LimitOverrides) (events : Events) : DiskCalls κ Unit :=
  match mergedLimits overrides with
  | .error text => throw text
  | .ok limits => do
    fails events.opened
    closing events.close do
      let entries ← prepare u fs cwd destDir file limits events
      tryCatch (fill fs cwd destDir limits events entries)
        (removeDestination fs cwd destDir events)

end BoredManager.Server.Zip
