import BoredManager.Shared.Shell
import BoredManager.OpenWrt.Parse

/-! What the router's shell prints for the command of one fast sweep: a marker line
before each section, the device counters as the awk program sums them, and the
sentinel line that says whether the kernel listed its rules. -/
namespace BoredManager.OpenWrt
open BoredManager.Js BoredManager.Shared

/-- A command's text: empty or ended by a line feed, no line of it a marker. -/
structure SectionText where
  text : Text
  ended : text = [] ∨ text.getLast? = some 10
  unmarked : ∀ line ∈ text.splitOnP (· == 10), markerName line = none

def SectionText.nothing : SectionText := ⟨[], .inl rfl, by simp [markerName]⟩

/-- `[A-Za-z0-9_.@-]` -/
def isInterfaceUnit (u : Nat) : Bool := isWord u || u == 46 || u == 64 || u == 45

/-- A row of `/proc/net/dev`: eight receive counters, then eight transmit counters. -/
structure NetDevice where
  name : Text
  counters : List Nat
  named : name ≠ [] ∧ ∀ u ∈ name, isInterfaceUnit u = true
  counted : ∀ c ∈ counters, c ≤ maxSafeNat

/-- A rule as the kernel lists it; the table is a number or a name. -/
structure KernelRule where
  pref : Nat
  source : Text
  selectors : Text
  table : Text
  sourced : source ≠ [] ∧ ∀ u ∈ source, isSpace u = false
  tabled : table ≠ [] ∧ ∀ u ∈ table, isSpace u = false
  oneLine : 10 ∉ selectors

/-- A line of `ip -4 rule show`. -/
def KernelRule.line (rule : KernelRule) : Text :=
  decimal rule.pref ++ js ":\tfrom " ++ rule.source ++ rule.selectors ++ js " lookup " ++ rule.table

structure RouterState where
  sys : SectionText
  devices : List NetDevice
  leases : SectionText
  /-- `none`: `ip -4 rule show` failed. -/
  rules : Option (List KernelRule)
  dump : SectionText

structure ManagedPppoeRange where
  namePrefix : Text
  seqFrom : Nat
  seqTo : Nat
deriving DecidableEq

def rangeSpec (ranges : List ManagedPppoeRange) : Text :=
  join (js ";") (ranges.map fun range =>
    range.namePrefix ++ js ":" ++ decimal range.seqFrom ++ js "-" ++ decimal range.seqTo)

namespace Awk

/-- `text+0` of a text that starts with a whole number. -/
def wholeNumber (s : Text) : Nat :=
  ((s.dropWhile isSpace).takeWhile isDigit).foldl (fun acc u => acc * 10 + (u - 48)) 0

/-- A sum of two whole numbers, as doubles add them. -/
def add (a b : Nat) : Nat := (Number.double (a + b)).num.toNat

/-- `split(s, parts, sep)`: the part of an index, counted from one. -/
def part (sep : Nat) (s : Text) (index : Nat) : Text := (s.splitOnP (· == sep)).getD (index - 1) []

def inSpec (logical spec : Text) : Bool :=
  let pair1 := part 58 spec 1
  let bounds := part 58 spec 2
  let suffix := logical.drop pair1.length
  let seq := wholeNumber suffix
  pair1.isPrefixOf logical && suffix.length == 5 && suffix.all isDigit &&
    decide (wholeNumber (part 45 bounds 1) ≤ seq) && decide (seq ≤ wholeNumber (part 45 bounds 2))

/-- `managed(name)` of the awk program, on its `R` variable. -/
def managed (spec name : Text) : Bool :=
  name.take 6 == js "pppoe-" && spec != [] &&
    (spec.splitOnP (· == 59)).any (inSpec (name.drop 6))

end Awk

/-- `echo '…'`, and `printf "…\n"`. -/
def echo (line : Text) : Text := line ++ [10]

/-- The rows that the awk program reads: at least nine counters. -/
def countedDevices (devices : List NetDevice) : List NetDevice :=
  devices.filter fun device => decide (9 ≤ device.counters.length)

def NetDevice.rx (device : NetDevice) : Nat := device.counters.getD 0 0
def NetDevice.tx (device : NetDevice) : Nat := device.counters.getD 8 0

def poolDevices (ranges : List ManagedPppoeRange) (devices : List NetDevice) : List NetDevice :=
  (countedDevices devices).filter fun device => Awk.managed (rangeSpec ranges) device.name

def otherDevices (ranges : List ManagedPppoeRange) (devices : List NetDevice) : List NetDevice :=
  (countedDevices devices).filter fun device => !Awk.managed (rangeSpec ranges) device.name

def awkSum (values : List Nat) : Nat := values.foldl Awk.add 0

/-- What `DEV_AWK` prints: a compact row for each device outside the managed ranges,
then the pool's aggregate. -/
def devAwkOutput (ranges : List ManagedPppoeRange) (devices : List NetDevice) : Text :=
  let pool := poolDevices ranges devices
  (otherDevices ranges devices).flatMap (fun device =>
      echo (device.name ++ js " " ++ decimal device.rx ++ js " " ++ decimal device.tx)) ++
    echo (js "===POOL=== " ++ decimal pool.length ++ js " " ++ decimal (awkSum (pool.map (·.rx))) ++
      js " " ++ decimal (awkSum (pool.map (·.tx))))

def ruleFilterEnd : Nat := 30000

/-- `awk -F: '$1+0 >= B && $1+0 < E'` over the kernel's list. -/
def printedRules (rulePrefBase : Nat) (rules : List KernelRule) : List KernelRule :=
  rules.filter fun rule =>
    let field1 := Awk.wholeNumber (Awk.part 58 rule.line 1)
    decide (rulePrefBase ≤ field1) && decide (field1 < ruleFilterEnd)

def rulesOutput (rulePrefBase : Nat) : Option (List KernelRule) → Text
  | some rules =>
    (printedRules rulePrefBase rules).flatMap (fun rule => echo rule.line) ++
      echo (js "===RULES_OK===1")
  | none => echo (js "===RULES_OK===0")

/-- The standard output of `buildFastSweepCommand(rules, managedRanges, includeDump)`. -/
def fastSweepOutput (rulePrefBase : Nat) (ranges : List ManagedPppoeRange) (includeDump : Bool)
    (router : RouterState) : Text :=
  echo (marker (js "SYS")) ++ router.sys.text ++
  echo (marker (js "DEV")) ++ devAwkOutput ranges router.devices ++
  echo (marker (js "LEASES")) ++ router.leases.text ++
  echo (marker (js "RULES")) ++ rulesOutput rulePrefBase router.rules ++
  (if includeDump then echo (marker (js "DUMP")) ++ router.dump.text else [])

end BoredManager.OpenWrt
