import BoredManager.Js.Digits
import BoredManager.Network.Tunables
import BoredManager.Shared.Sections
import Mathlib.Data.List.Induction

/-! The probe of the kernel limits: what its command prints for a machine, and what the page reads
of it. -/
namespace BoredManager.Network
open BoredManager.Js BoredManager.Shared

/-! ### What the machine prints -/

/-- What may stand in a setting: digits, signs, blanks and tabs. -/
def isSettingUnit (u : Nat) : Bool := isDigit u || u == 45 || u == 32 || u == 9

/-- The state that the probe looks at: the line of each setting's file, the line of `file-nr`, the
two neighbour tables' sizes, the conntrack count, `ulimit -n` (`none` for `unlimited`), and the
managed file. -/
structure Kernel where
  setting : Text → Option Text
  fileNr : Option Text
  neigh4 : Nat
  neigh6 : Nat
  conntrack : Option Nat
  ulimit : Option Nat
  file : Text
  setting_units : ∀ key ∈ TUNABLE_KEYS, ∀ value ∈ setting key, ∀ u ∈ value, isSettingUnit u = true
  setting_written : ∀ key ∈ TUNABLE_KEYS, ∀ value ∈ setting key, trim value ≠ []
  fileNr_line : ∀ line ∈ fileNr, IsTextLine line
  file_no_marker : ∀ line ∈ file.splitOn 10, markerName line = none

/-- `$(...)`, which drops the line feeds at the end. -/
def substituted (out : Text) : Text := (out.reverse.dropWhile (· == 10)).reverse

/-- `tr '\t' ' '` -/
def spaced (out : Text) : Text := out.map fun u => if u = 9 then 32 else u

/-- `cat` of a file of one line that may not be there. -/
def cat (line : Option Text) : Text := line.elim [] echo

/-- `$k=$(cat /proc/sys/... | tr '\t' ' ')` -/
def Kernel.keyLine (k : Kernel) (key : Text) : Text :=
  key ++ 61 :: substituted (spaced (cat (k.setting key)))

/-- What `PROBE_CMD` prints. -/
def Kernel.probe (k : Kernel) : Text :=
  echo (js "===SYSCTLKEYS===") ++ TUNABLE_KEYS.flatMap (fun key => echo (k.keyLine key)) ++
  (echo (js "===FILENR===") ++ cat k.fileNr) ++
  (echo (js "===NEIGH4===") ++ echo (decimal k.neigh4)) ++
  (echo (js "===NEIGH6===") ++ echo (decimal k.neigh6)) ++
  (echo (js "===CONNTRACK===") ++ cat (k.conntrack.map decimal)) ++
  (echo (js "===ULIMIT===") ++ echo (k.ulimit.elim (js "unlimited") decimal)) ++
  (echo (js "===PERSISTED===") ++ k.file)

/-! ### What the page reads -/

def toNumber (value : Option Text) : ℚ := ((Number.ofText (trim (value.getD []))).finite?).getD 0

/-- `Math.round((used / limit) * 1000) / 10` in doubles, 0 without a limit. -/
def pct (used limit : ℚ) : Number :=
  if limit ≤ 0 then .fin 0
  else
    match Number.ofRat (used / limit) with
    | .fin share =>
      match Number.ofRat (share * 1000) with
      | .fin scaled => Number.ofRat (Number.roundInt scaled / 10)
      | v => v
    | v => v

structure Usage where
  neighEntries4 : ℚ
  neighEntries6 : ℚ
  neighUsagePct : Number
  filesOpen : ℚ
  fdUsagePct : Number
  conntrackCount : ℚ
  conntrackUsagePct : Number
  fdSoftLimit : ℚ

structure NetTunables where
  current : OrderedMap Text Text
  persisted : OrderedMap Text Text
  usage : Usage
  hasSudo : Bool

def read (stdout : Text) (hasSudo : Bool) : NetTunables :=
  let s := splitSections stdout
  let current := parseKeyValues ((s.get? (js "SYSCTLKEYS")).getD [])
  let persisted := parseKeyValues ((s.get? (js "PERSISTED")).getD [])
  let fileNr := splitRuns isSpace (trim ((s.get? (js "FILENR")).getD []))
  let filesOpen := toNumber fileNr[0]?
  let fileMax := toNumber (current.get? (js "fs.file-max"))
  let neighEntries4 := toNumber (s.get? (js "NEIGH4"))
  let neighEntries6 := toNumber (s.get? (js "NEIGH6"))
  let gcThresh3 := toNumber (current.get? (js "net.ipv4.neigh.default.gc_thresh3"))
  let conntrackCount := toNumber (s.get? (js "CONNTRACK"))
  let conntrackMax := toNumber (current.get? (js "net.netfilter.nf_conntrack_max"))
  { current, persisted
    usage := {
      neighEntries4, neighEntries6
      neighUsagePct := pct neighEntries4 gcThresh3
      filesOpen
      fdUsagePct := pct filesOpen fileMax
      conntrackCount
      conntrackUsagePct := pct conntrackCount conntrackMax
      fdSoftLimit := toNumber (s.get? (js "ULIMIT")) }
    hasSudo }

/-! ### What is true of the machine -/

/-- A line of the file that gives a value to a key. -/
def Assigns (line key value : Text) : Prop :=
  ∃ name rest, trim line = name ++ 61 :: rest ∧ 61 ∉ name ∧ name ≠ [] ∧ name.head? ≠ some 35 ∧
    key = trim name ∧ trim rest ≠ [] ∧ value = normalizeValue rest

/-- The last line of the file that names the key gives it this value. -/
def LastAssigned (file key value : Text) : Prop :=
  ∃ before line after, file.splitOn 10 = before ++ line :: after ∧ Assigns line key value ∧
    ∀ later ∈ after, ∀ other, ¬Assigns later key other

/-- The first word of a line. -/
def firstWord (line : Text) : Text := (line.dropWhile isSpace).takeWhile fun u => !isSpace u

/-- The number that a word writes, 0 when it writes none. -/
def numeral (word : Text) : ℚ := ((Number.ofText word).finite?).getD 0

/-- The normalized value of a setting. -/
def Kernel.value (k : Kernel) (key : Text) : Option Text :=
  if key ∈ TUNABLE_KEYS then (k.setting key).map normalizeValue else none

def Kernel.limit (k : Kernel) (key : String) : ℚ := ((k.value (js key)).map numeral).getD 0

def Kernel.filesOpen (k : Kernel) : ℚ := (k.fileNr.map fun line => numeral (firstWord line)).getD 0

/-- The page says what the machine's state is. -/
structure TellsTheTruth (k : Kernel) (page : NetTunables) : Prop where
  current : ∀ key, page.current.get? key = k.value key
  persisted : ∀ key value, page.persisted.get? key = some value ↔ LastAssigned k.file key value
  neighEntries4 : page.usage.neighEntries4 = k.neigh4
  neighEntries6 : page.usage.neighEntries6 = k.neigh6
  filesOpen : page.usage.filesOpen = k.filesOpen
  conntrackCount : page.usage.conntrackCount = (k.conntrack.getD 0 : Nat)
  fdSoftLimit : page.usage.fdSoftLimit = (k.ulimit.getD 0 : Nat)
  neighUsagePct : page.usage.neighUsagePct = pct k.neigh4 (k.limit "net.ipv4.neigh.default.gc_thresh3")
  fdUsagePct : page.usage.fdUsagePct = pct k.filesOpen (k.limit "fs.file-max")
  conntrackUsagePct : page.usage.conntrackUsagePct =
    pct (k.conntrack.getD 0 : Nat) (k.limit "net.netfilter.nf_conntrack_max")

end BoredManager.Network
