import BoredManager.Js.NumberText
import BoredManager.Js.OrderedMap
import BoredManager.OpenWrt.Net

/-! What a create form says: environment lines, port mappings, address ranges, memory sizes and the
names that a job generates. -/
namespace BoredManager.Container.Create
open BoredManager.Js

/-! ### Fields -/

inductive FormValue where
  | text (s : Text)
  | num (v : Number)
  | bool (b : Bool)
deriving DecidableEq

abbrev FormValues := OrderedMap Text FormValue

/-- `String(v)` of a number. -/
def numberString : Number → Text
  | .fin q => numberText q
  | .inf negative => if negative then js "-Infinity" else js "Infinity"
  | .nan => js "NaN"

def text (values : FormValues) (key : String) : Text :=
  match values.get? (js key) with
  | some (.text s) => trim s
  | some (.num v) => numberString v
  | _ => []

def flag (values : FormValues) (key : String) : Bool := values.get? (js key) = some (.bool true)

def num (values : FormValues) (key : String) : Number :=
  match values.get? (js key) with
  | some (.text s) => Number.ofText s
  | some (.num v) => v
  | some (.bool b) => .ofInt (if b then 1 else 0)
  | none => .nan

structure TemplateRecord where
  id : Text
  values : FormValues

/-- A field the user typed wins over the template. -/
def mergeTemplate (raw : FormValues) (templates : List TemplateRecord) : FormValues :=
  let templateId := text raw "template"
  if templateId = [] then raw
  else match templates.find? fun t => decide (t.id = templateId) with
    | none => raw
    | some template =>
      (raw.entries.foldl (fun merged e => if e.2 = .text [] then merged else merged.set e.1 e.2)
        template.values).set (js "template") (.text templateId)

/-! ### Environment -/

structure EnvParse where
  entries : List Text
  badLines : List Nat

/-- `/^[A-Za-z_][A-Za-z0-9_]*$/` -/
def isEnvKey : Text → Bool
  | [] => false
  | u :: s => (isLower u || isUpper u || u == 95) &&
      s.all fun v => isLower v || isUpper v || isDigit v || v == 95

/-- `KEY=VALUE` on each line; a line of a hash is a comment, a blank one nothing. -/
def parseEnvLines (text : Text) : EnvParse :=
  ((text.splitOn 10).zipIdx 1).foldl (fun parsed (raw, n) =>
    let line := trim raw
    if line = [] ∨ line.head? = some 35 then parsed
    else if 61 ∉ line ∨ isEnvKey (line.takeWhile (· ≠ 61)) = false then
      { parsed with badLines := parsed.badLines ++ [n] }
    else { parsed with entries := parsed.entries ++ [line] }) ⟨[], []⟩

/-! ### Ports -/

inductive Proto where
  | tcp | udp
deriving DecidableEq

def Proto.text : Proto → Text
  | .tcp => js "tcp"
  | .udp => js "udp"

structure PortMapping where
  hostStart : Nat
  hostEnd : Nat
  containerPort : Nat
  proto : Proto
  single : Bool
deriving DecidableEq

structure PortParse where
  mappings : List PortMapping
  errors : List Text

/-- The number of `\d{1,5}`. -/
def portDigits (s : Text) : Option Nat :=
  if s.length ≤ 5 ∧ s.all isDigit = true then Number.radixValue 10 s else none

structure PortMatch where
  hostStart : Nat
  hostEnd : Option Nat
  containerPort : Nat
  proto : Option Proto

/-- `/^(\d{1,5})(?:-(\d{1,5}))?:(\d{1,5})(?:\/(tcp|udp))?$/` -/
def PORT_RE (spec : Text) : Option PortMatch :=
  match spec.splitOn 58 with
  | [host, container] => do
    let (hostStart, hostEnd) ← match host.splitOn 45 with
      | [start] => (portDigits start).map fun start => (start, none)
      | [start, stop] => do
        let start ← portDigits start
        let stop ← portDigits stop
        some (start, some stop)
      | _ => none
    let (containerPort, proto) ← match container.splitOn 47 with
      | [port] => (portDigits port).map fun port => (port, none)
      | [port, proto] => do
        let port ← portDigits port
        if proto = js "tcp" then some (port, some Proto.tcp)
        else if proto = js "udp" then some (port, some Proto.udp) else none
      | _ => none
    some ⟨hostStart, hostEnd, containerPort, proto⟩
  | _ => none

def inPortRange (value : Nat) : Bool := 1 ≤ value && value ≤ 65535

def rangesOverlap (a b : PortMapping) : Bool :=
  a.proto == b.proto && a.hostStart ≤ b.hostEnd && b.hostStart ≤ a.hostEnd

def quotedSpec (spec : Text) (complaint : String) : Text := js "\"" ++ spec ++ js "\"" ++ js complaint

/-- One mapping of the text, or what is wrong with it. -/
def parsePort (spec : Text) : Except Text PortMapping :=
  match PORT_RE spec with
  | none => .error (quotedSpec spec " is not hostStart-hostEnd:containerPort[/proto]")
  | some m =>
    let hostEnd := m.hostEnd.getD m.hostStart
    if !inPortRange m.hostStart || !inPortRange hostEnd || !inPortRange m.containerPort then
      .error (quotedSpec spec " has a port outside 1-65535")
    else if hostEnd < m.hostStart then .error (quotedSpec spec " ends before it starts")
    else .ok ⟨m.hostStart, hostEnd, m.containerPort, m.proto.getD .tcp, m.hostEnd.isNone⟩

def overlapText (a b : PortMapping) : Text :=
  js "host ports " ++ decimal a.hostStart ++ js "-" ++ decimal a.hostEnd ++ js " and " ++
    decimal b.hostStart ++ js "-" ++ decimal b.hostEnd ++ js " overlap"

/-- The pairs of mappings that overlap, each with a later one. -/
def overlaps : List PortMapping → List Text
  | [] => []
  | m :: ms => (ms.filter (rangesOverlap m)).map (overlapText m) ++ overlaps ms

def PortParse.add (parsed : PortParse) (raw : Text) : PortParse :=
  if trim raw = [] then parsed
  else match parsePort (trim raw) with
    | .error complaint => { parsed with errors := parsed.errors ++ [complaint] }
    | .ok mapping => { parsed with mappings := parsed.mappings ++ [mapping] }

def parsePorts (text : Text) : PortParse :=
  let parsed := (text.splitOn 44).foldl PortParse.add ⟨[], []⟩
  { parsed with errors := parsed.errors ++ overlaps parsed.mappings }

structure TakenPort where
  host : Nat
  container : Nat
  proto : Proto
deriving DecidableEq

/-- The host ports that a container of a job takes, counted from zero. -/
def portsForIndex (mappings : List PortMapping) (index : Nat) : List TakenPort :=
  mappings.map fun m => ⟨m.hostStart + index, m.containerPort, m.proto⟩

/-! ### Addresses -/

def ipToInt (ip : Text) : Option Nat :=
  let parts := (trim ip).splitOn 46
  if parts.length = 4 then
    parts.foldlM (fun (out : Nat) part => (OpenWrt.octet part).map (out * 256 + ·)) 0
  else none

/-- The four octets of an unsigned 32-bit number. -/
def intToIp (value : Nat) : Text :=
  join [46] [decimal (value / 16777216 % 256), decimal (value / 65536 % 256),
    decimal (value / 256 % 256), decimal (value % 256)]

structure Cidr where
  network : Nat
  prefixLen : Nat
  size : Nat
  broadcast : Nat
deriving DecidableEq

/-- `/^([\d.]+)\/(\d{1,2})$/`, then the ranges of its groups. -/
def parseCidr (text : Text) : Option Cidr :=
  match (trim text).splitOn 47 with
  | [address, bits] =>
    if address ≠ [] ∧ (address.all fun u => isDigit u || u == 46) = true ∧ bits.length ≤ 2 ∧
        bits.all isDigit = true then do
      let base ← ipToInt address
      let prefixLen ← Number.radixValue 10 bits
      if 32 < prefixLen then none
      else
        let size := 2 ^ (32 - prefixLen)
        let network := base / size * size
        some ⟨network, prefixLen, size, network + size - 1⟩
    else none
  | _ => none

def cidrContains (cidr : Cidr) (ip : Nat) : Bool := cidr.network ≤ ip && ip ≤ cidr.broadcast

structure IpRange where
  first : Nat
  last : Nat
deriving DecidableEq

/-- A block without its network and broadcast address, a pair of addresses, or one address. -/
def parseIpRange (text : Text) : Option IpRange :=
  let spec := trim text
  if spec = [] then none
  else if 47 ∈ spec then
    (parseCidr spec).map fun cidr =>
      if 2 < cidr.size then ⟨cidr.network + 1, cidr.broadcast - 1⟩ else ⟨cidr.network, cidr.broadcast⟩
  else if 45 ∈ spec then do
    let first ← ipToInt (spec.takeWhile (· ≠ 45))
    let last ← ipToInt ((spec.dropWhile (· ≠ 45)).drop 1)
    if last < first then none else some ⟨first, last⟩
  else (ipToInt spec).map fun one => ⟨one, one⟩

/-! ### Memory and names -/

def MEM_UNITS : List (Text × Nat) :=
  [([], 1), (js "b", 1), (js "k", 1024), (js "kb", 1024), (js "kib", 1024), (js "m", 1024 ^ 2),
    (js "mb", 1024 ^ 2), (js "mib", 1024 ^ 2), (js "g", 1024 ^ 3), (js "gb", 1024 ^ 3),
    (js "gib", 1024 ^ 3), (js "t", 1024 ^ 4), (js "tb", 1024 ^ 4), (js "tib", 1024 ^ 4)]

/-- A number times a whole number that is not zero. -/
def times (v : Number) (n : Nat) : Number :=
  match v with
  | .fin q => Number.ofRat (q * n)
  | v => v

/-- `/^\d+(?:\.\d+)?/`: the number at the head of a text, and what follows it. -/
def leadingNumber (s : Text) : Option (Text × Text) :=
  let whole := s.takeWhile isDigit
  if whole = [] then none
  else match s.dropWhile isDigit with
    | 46 :: rest =>
      if rest.takeWhile isDigit = [] then some (whole, 46 :: rest)
      else some (whole ++ 46 :: rest.takeWhile isDigit, rest.dropWhile isDigit)
    | rest => some (whole, rest)

/-- A memory size in bytes. -/
def parseMemory (text : Text) : Option Number := do
  let (number, rest) ← leadingNumber (trim text)
  let unit := rest.dropWhile isSpace
  if (unit.all fun u => isLower u || isUpper u) = false then none
  -- every object has a property of this name, which is no number
  else if toLowerAscii unit = js "constructor" then (Number.ofText number).finite?.map fun _ => .nan
  else
    let value := Number.ofText number
    let factor ← (MEM_UNITS.find? fun e => decide (e.1 = toLowerAscii unit)).map Prod.snd
    let _ ← value.finite?
    match times value factor with
    | .fin q => some (Number.ofRat (Number.roundInt q))
    | v => some v

/-- `value.toFixed(digits)` of a finite number that is not negative. -/
def toFixed (q : ℚ) (digits : Nat) : Text :=
  if (10 : ℚ) ^ 21 ≤ q then numberText q
  else
    let n := (Number.roundInt (q * 10 ^ digits)).toNat
    if digits = 0 then decimal n
    else decimal (n / 10 ^ digits) ++ 46 :: padZero digits (decimal (n % 10 ^ digits))

/-- `n` in the last unit in which it is at least one, with its unit. -/
def inUnits (q : ℚ) : Nat → List String → ℚ × Nat × Text
  | i, [] => (q, i, [])
  | i, [unit] => (q, i, js unit)
  | i, unit :: units => if 1024 ≤ q then inUnits (q / 1024) (i + 1) units else (q, i, js unit)

def formatBytes (value : Number) : Text :=
  match value with
  | .fin q =>
    if q ≤ 0 then js "0 B"
    else
      let (n, i, unit) := inUnits q 0 ["B", "KiB", "MiB", "GiB", "TiB"]
      toFixed n (if n < 10 ∧ 0 < i then 1 else 0) ++ 32 :: unit
  | _ => js "0 B"

/-- `/^[a-zA-Z0-9][a-zA-Z0-9_.-]*$/` -/
def DOCKER_NAME_RE : Text → Bool
  | [] => false
  | u :: s => (isLower u || isUpper u || isDigit u) &&
      s.all fun v => isLower v || isUpper v || isDigit v || v == 95 || v == 46 || v == 45

/-- The names of a job: the prefix and a number of at least three digits. -/
def generatedNames (namePrefix : Text) (count : Nat) : List Text :=
  (List.range count).map fun i => namePrefix ++ padZero 3 (decimal (i + 1))

example : (parsePorts (js "8080-8082:80/tcp, 9000:9000")).mappings =
    [⟨8080, 8082, 80, .tcp, false⟩, ⟨9000, 9000, 9000, .tcp, true⟩] := by decide +kernel

end BoredManager.Container.Create
