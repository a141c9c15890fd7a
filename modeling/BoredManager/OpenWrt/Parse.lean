import BoredManager.Js.Json
import BoredManager.OpenWrt.Planner.Types

/-! The parsers of the fast sweep: `ubus` JSON, the lease file, the kernel's policy
rules and the device counters. `jsonParse` is `JSON.parse`, `none` where it throws. -/
namespace BoredManager.OpenWrt
open BoredManager.Js

variable (jsonParse : Text → Option Json)

structure Ipv4Address where
  addr : Text
  mask : Int
deriving DecidableEq

structure IfaceState where
  name : Text
  proto : Text
  device : Text
  l3Device : Text
  up : Bool
  pending : Bool
  autostart : Bool
  ipv4 : Option Ipv4Address
  uptimeSec : ℚ
  errorCode : Option Text
  ip4Table : Option Int
deriving DecidableEq

structure RouterSystemState where
  uptimeSec : ℚ
  load1 : ℚ
  memTotal : ℚ
  memFree : ℚ
deriving DecidableEq

structure DeviceCounters where
  rx : ℚ
  tx : ℚ
deriving DecidableEq

structure PoolDeviceCounters where
  count : Int
  rx : ℚ
  tx : ℚ
deriving DecidableEq

structure ProcNetDevSnapshot where
  devices : OrderedMap Text DeviceCounters
  poolDev : PoolDeviceCounters
deriving DecidableEq

namespace Parse

def string : Option Json → Text
  | some (.str s) => s
  | _ => []

def number (value : Option Json) (fallback : ℚ) : ℚ :=
  match value with
  | some (.num v) => v.finite?.getD fallback
  | _ => fallback

/-- `/^-?\d+$/` -/
def isIntegerText : Text → Bool
  | 45 :: ds => ds != [] && ds.all isDigit
  | ds => ds != [] && ds.all isDigit

def integerText (s : Text) (fallback : Int) : Int :=
  if isIntegerText (trim s) then (Number.ofText s).safeInteger?.getD fallback else fallback

def integer (value : Option Json) (fallback : Int) : Int :=
  match value with
  | some (.num v) => v.safeInteger?.getD fallback
  | some (.str s) => integerText s fallback
  | _ => fallback

/-- `a || b` on texts. -/
def orText (a b : Text) : Text := if a = [] then b else a

def itemsOf (value : Option Json) : List Json := (value.bind Json.items?).getD []

/-- What one entry of `errors` has to say. -/
def errorText (error : Json) : Option Text :=
  match error with
  | .str s => if trim s = [] then none else some ((trim s).take 100)
  | .obj _ =>
    let code := orText (string (error.field? (js "code"))) (string (error.field? (js "message")))
    if code = [] then none else some (code.take 100)
  | _ => none

def firstError (entry : Json) : Option Text :=
  let direct := orText (string (entry.field? (js "error"))) (string (entry.field? (js "errorCode")))
  if direct ≠ [] then some (direct.take 100)
  else (itemsOf (entry.field? (js "errors"))).reverse.findSome? errorText

end Parse
open Parse

def validIpv4 (value : Text) : Bool :=
  let parts := value.splitOnP (· == 46)
  parts.length == 4 && parts.all fun part => (octet part).isSome

def ipv4Of (address : Json) : Option Ipv4Address :=
  let addr := string (address.field? (js "address"))
  let mask := integer (address.field? (js "mask")) (-1)
  if address.isRecord && validIpv4 addr && decide (0 ≤ mask) && decide (mask ≤ 32) then
    some { addr, mask }
  else none

def ifaceOf (value : Json) (name : Text) : IfaceState :=
  let data := (value.field? (js "data")).filter Json.isRecord
  let table := integer (value.field? (js "ip4table"))
    (integer (data.bind (Json.field? (js "ip4table"))) 0)
  { name
    proto := string (value.field? (js "proto"))
    device := string (value.field? (js "device"))
    l3Device := string (value.field? (js "l3_device"))
    up := match value.field? (js "up") with | some (.bool b) => b | _ => false
    pending := match value.field? (js "pending") with | some (.bool b) => b | _ => false
    autostart := match value.field? (js "autostart") with | some (.bool b) => b | _ => true
    ipv4 := (itemsOf (value.field? (js "ipv4-address"))).findSome? ipv4Of
    uptimeSec := max 0 (number (value.field? (js "uptime")) 0)
    errorCode := firstError value
    ip4Table := if 0 < table then some table else none }

/-- Malformed entries and repeated names are skipped. -/
def parseDumpEntries (seen : List Text) : List Json → List IfaceState
  | [] => []
  | value :: entries =>
    let name := trim (string (value.field? (js "interface")))
    if !value.isRecord || name = [] || name ∈ seen then parseDumpEntries seen entries
    else ifaceOf value name :: parseDumpEntries (name :: seen) entries

/-- The entries of a dump: the root array, or the array under `interface`. -/
def dumpEntries : Option Json → Option (List Json)
  | some (.arr items) => some items
  | some root => (root.field? (js "interface")).bind Json.items?
  | none => none

/-- Parse `ubus -S call network.interface dump`. -/
def parseDump (text : Text) : List IfaceState :=
  parseDumpEntries [] ((dumpEntries (jsonParse text)).getD [])

def validDump (text : Text) : Bool := (dumpEntries (jsonParse text)).isSome

/-- Parse `ubus -S call system info`; a whole load is 16.16 fixed point. -/
def parseSystemInfo (text : Text) : RouterSystemState :=
  match (jsonParse text).filter Json.isRecord with
  | none => ⟨0, 0, 0, 0⟩
  | some root =>
    let load := match root.field? (js "load") with
      | some (.arr items) => number items.head? 0
      | value => number value 0
    let memory := (root.field? (js "memory")).filter Json.isRecord
    let free := number (memory.bind (Json.field? (js "available")))
      (number (memory.bind (Json.field? (js "free"))) 0)
    { uptimeSec := max 0 (number (root.field? (js "uptime")) 0)
      load1 := max 0 (if load.den = 1 then load / 65536 else load)
      memTotal := max 0 (number (memory.bind (Json.field? (js "total"))) 0)
      memFree := max 0 free }

def routerLocaltime (text : Text) : Option ℚ :=
  match (jsonParse text).bind (Json.field? (js "localtime")) with
  | some (.num v) => v.finite?
  | _ => none

def parseLease (line : Text) : Option Lease :=
  match splitRuns isSpace (trim line) with
  | field0 :: field1 :: ip :: field3 :: _ =>
    let expires := integerText field0 (-1)
    let mac := toLowerAscii field1
    if expires < 0 || !isMac mac || !validIpv4 ip then none
    else some { expires, mac, ip, host := if field3 = js "*" then [] else field3.take 253 }
  | _ => none

/-- Parse dnsmasq's lease file. -/
def parseLeases (text : Text) : List Lease := (splitLines text).filterMap parseLease

def isWord (u : Nat) : Bool := isDigit u || isLower u || isUpper u || u == 95

/-- The leftmost place after a non-word character where a word pattern matches. -/
def searchWord {α : Type} (attempt : Text → Option α) : Bool → Text → Option α
  | _, [] => none
  | afterWord, u :: s =>
    match if afterWord then none else attempt (u :: s) with
    | some found => some found
    | none => searchWord attempt (isWord u) s

/-- `keyword\s+`, with what follows. -/
def afterKeyword (keyword s : Text) : Option Text :=
  if keyword.isPrefixOf s && (s.drop keyword.length).head?.any isSpace then
    some ((s.drop keyword.length).dropWhile isSpace)
  else none

/-- `/^\s*(\d+)\s*:\s*/` -/
def prefMatch (line : Text) : Option Text :=
  let line := line.dropWhile isSpace
  let ds := line.takeWhile isDigit
  if ds ≠ [] ∧ ((line.dropWhile isDigit).dropWhile isSpace).head? = some 58 then some ds else none

/-- `/\bfrom\s+(\S+)/` -/
def fromMatch : Text → Option Text := searchWord (fun s => do
  let rest ← afterKeyword (js "from") s
  let source := rest.takeWhile fun u => !isSpace u
  if source = [] then none else some source) false

/-- `/\b(?:lookup|table)\s+(\d+)\b/` -/
def tableMatch : Text → Option Text := searchWord (fun s => do
  let rest ← (afterKeyword (js "lookup") s).or (afterKeyword (js "table") s)
  let ds := rest.takeWhile isDigit
  if ds = [] || (rest.dropWhile isDigit).head?.any isWord then none else some ds) false

def parseIpRule (line : Text) : Option IpRule := do
  let prefText ← prefMatch line
  let source ← fromMatch line
  let tableText ← tableMatch line
  let pref := integerText prefText (-1)
  let table := integerText tableText (-1)
  if pref < 0 ∨ table ≤ 0 then none
  else some { pref := pref.toNat, source, table := table.toNat }

/-- The first of each rule, as `seen` keeps them. -/
def firstOfEach (seen : List IpRule) : List IpRule → List IpRule
  | [] => []
  | rule :: rules =>
    if rule ∈ seen then firstOfEach seen rules else rule :: firstOfEach (rule :: seen) rules

/-- Parse the numeric module-owned subset of `ip -4 rule show`. -/
def parseIpRules (text : Text) : List IpRule :=
  (firstOfEach [] ((splitLines text).filterMap parseIpRule)).mergeSort
    fun a b => decide (a.pref ≤ b.pref)

/-- `Number(text)` where it is a finite number that is not negative, else zero. -/
def nonNegative (text : Text) : ℚ :=
  match Number.ofText text with
  | .fin q => if 0 ≤ q then q else 0
  | _ => 0

/-- `[A-Za-z0-9_.:@-]` -/
def isDeviceUnit (u : Nat) : Bool := isWord u || u == 46 || u == 58 || u == 64 || u == 45

/-- `[\d.eE+-]` -/
def isNumberUnit (u : Nat) : Bool :=
  isDigit u || u == 46 || u == 101 || u == 69 || u == 43 || u == 45

def isLineEnd (u : Nat) : Bool := u == 10 || u == 13 || u == 8232 || u == 8233

/-- `/^===POOL===\s+(\d+)\s+([\d.eE+-]+)\s+([\d.eE+-]+)$/` of a trimmed line. -/
def poolMatch (line : Text) : Option PoolDeviceCounters :=
  match splitRuns isSpace line with
  | [sentinel, count, rx, tx] =>
    if sentinel = js "===POOL===" ∧ count ≠ [] ∧ count.all isDigit ∧ rx ≠ [] ∧
        rx.all isNumberUnit ∧ tx ≠ [] ∧ tx.all isNumberUnit then
      some { count := max 0 (integerText count 0), rx := nonNegative rx, tx := nonNegative tx }
    else none
  | _ => none

/-- `/^([A-Za-z0-9_.:@-]+):\s*(.*)$/`: the name reaches to the last colon of its run. -/
def colonMatch (line : Text) : Option (Text × Text) :=
  let run := line.takeWhile isDeviceUnit
  let name := ((run.reverse.dropWhile (· != 58)).drop 1).reverse
  let rest := (line.drop (name.length + 1)).dropWhile isSpace
  if name = [] ∨ rest.any isLineEnd then none else some (name, rest)

/-- `/^([A-Za-z0-9_.:@-]+)\s+([\d.eE+-]+)\s+([\d.eE+-]+)$/` of a trimmed line. -/
def compactMatch (line : Text) : Option (Text × DeviceCounters) :=
  match splitRuns isSpace line with
  | [name, rx, tx] =>
    if name ≠ [] ∧ name.all isDeviceUnit ∧ rx ≠ [] ∧ rx.all isNumberUnit ∧
        tx ≠ [] ∧ tx.all isNumberUnit then
      some (name, { rx := nonNegative rx, tx := nonNegative tx })
    else none
  | _ => none

def ProcNetDevSnapshot.step (snapshot : ProcNetDevSnapshot) (raw : Text) : ProcNetDevSnapshot :=
  let line := trim raw
  if line = [] then snapshot
  else match poolMatch line with
    | some poolDev => { snapshot with poolDev }
    | none =>
      match colonMatch line with
      | some (name, rest) =>
        let fields := splitRuns isSpace (trim rest)
        if 9 ≤ fields.length then
          { snapshot with
            devices := snapshot.devices.set name
              { rx := nonNegative (fields.headD []), tx := nonNegative (fields.getD 8 []) } }
        else snapshot
      | none =>
        match compactMatch line with
        | some (name, counters) =>
          { snapshot with devices := snapshot.devices.set name counters }
        | none => snapshot

/-- Ordinary `/proc/net/dev` rows, or the compact rows of the sweep's awk with its
aggregate sentinel. -/
def parseProcNetDev (text : Text) : ProcNetDevSnapshot :=
  (splitLines text).foldl ProcNetDevSnapshot.step ⟨.empty, ⟨0, 0, 0⟩⟩

example : parseIpRules (js "20001:\tfrom 10.0.0.2 lookup 10001\n") =
    [⟨20001, js "10.0.0.2", 10001⟩] := by decide +kernel

end BoredManager.OpenWrt
