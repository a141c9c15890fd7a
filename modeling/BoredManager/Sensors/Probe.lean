import BoredManager.Js.Number
import BoredManager.Js.OrderedMap
import Mathlib.Data.List.Sort

/-! Hardware sensors: the readings of `sensors -u` or of the hwmon listing, their labels, and the
chart point of a kind. -/
namespace BoredManager.Sensors
open BoredManager.Js

inductive SensorKind where
  | temp
  | fan
  | voltage
  | power
  | current
deriving DecidableEq

/-- A reading; its kind and its unit are undefined where the specification lacks them. -/
structure SensorReading where
  chip : Text
  label : Text
  kind : Option SensorKind
  value : ℚ
  unit : Option Text
  max : Option ℚ
  crit : Option ℚ
deriving DecidableEq

def isWord (u : Nat) : Bool := isDigit u || isLower u || isUpper u || u == 95

/-! ### Chips and kinds -/

def busNames : List Text :=
  [js "isa", js "pci", js "virtual", js "acpi", js "i2c", js "spi", js "mdio", js "scsi", js "usb",
    js "platform", js "hid", js "thermal"]

/-- `-(?:isa|pci|…)-\w+` as a whole text -/
def isBusSuffix (s : Text) : Bool :=
  busNames.any fun bus =>
    let head := 45 :: bus ++ [45]
    let address := s.drop head.length
    head.isPrefixOf s && !address.isEmpty && address.all isWord

/-- coretemp-isa-0000 -> coretemp, nvme-pci-0100 -> nvme -/
def shortChip : Text → Text
  | [] => []
  | u :: s => if isBusSuffix (u :: s) then [] else u :: shortChip s

structure KindSpec where
  kind : Option SensorKind
  unit : Option Text
  /-- sysfs reports these scaled up; without a divisor the quotient is `NaN` -/
  sysfsDivisor : Option ℚ

/-- hwmon feature prefixes. `constructor` is what every object inherits, without the fields of a
specification; no other inherited name is lower case letters only, and none has a divisor. -/
def KINDS (name : Text) : Option KindSpec :=
  if name = js "temp" then some ⟨some .temp, some (js "°C"), some 1000⟩
  else if name = js "fan" then some ⟨some .fan, some (js "RPM"), some 1⟩
  else if name = js "in" then some ⟨some .voltage, some (js "V"), some 1000⟩
  else if name = js "power" then some ⟨some .power, some (js "W"), some 1000000⟩
  else if name = js "curr" then some ⟨some .current, some (js "A"), some 1000⟩
  else if name = js "constructor" then some ⟨none, none, none⟩
  else none

/-- Drop readings a chip cannot plausibly have measured. -/
def isPlausible (kind : Option SensorKind) (value : ℚ) : Bool :=
  match kind with
  | some .temp => decide (0 < value ∧ value ≤ 250)
  | some .fan => decide (0 ≤ value ∧ value < 100000)
  | _ => true

/-! ### `sensors -u` -/

structure Entry where
  spec : KindSpec
  input : Option ℚ
  max : Option ℚ
  crit : Option ℚ

structure LmState where
  raw : List SensorReading
  chip : Text
  label : Text
  pending : OrderedMap Text Entry

def Entry.reading (chip label key : Text) (r : Entry) : Option SensorReading :=
  match r.input with
  | some value =>
    if isPlausible r.spec.kind value then
      some ⟨chip, if label = [] then key else label, r.spec.kind, value, r.spec.unit, r.max, r.crit⟩
    else none
  | none => none

def LmState.flush (s : LmState) : LmState :=
  { s with
    raw := s.raw ++ s.pending.entries.filterMap fun e => e.2.reading s.chip s.label e.1
    pending := .empty }

/-- `/^(\S[^:]*):\s*$/`, and the trimmed label -/
def featureLabel : Text → Option Text
  | [] => none
  | u :: rest =>
    match rest.dropWhile (· ≠ 58) with
    | _ :: tail =>
      if isSpace u = false ∧ tail.all isSpace then some (trim (u :: rest.takeWhile (· ≠ 58))) else none
    | [] => none

/-- `-?[\d.]+` -/
def numberRun (s : Text) : Option Text :=
  let sign := s.take (if s.head? = some 45 then 1 else 0)
  let digits := (s.drop sign.length).takeWhile fun u => isDigit u || u == 46
  if digits = [] then none else some (sign ++ digits)

/-- `/^\s+([a-z]+)(\d+)_(\w+):\s*(-?[\d.]+)/` on a line that begins with a blank -/
def valueLine (line : Text) : Option (Text × Text × Text × Text) :=
  let s := line.dropWhile isSpace
  let name := s.takeWhile isLower
  let s := s.dropWhile isLower
  let digits := s.takeWhile isDigit
  match s.dropWhile isDigit with
  | 95 :: s =>
    let field := s.takeWhile isWord
    match s.dropWhile isWord with
    | 58 :: s =>
      if name ≠ [] ∧ digits ≠ [] ∧ field ≠ [] then
        (numberRun (s.dropWhile isSpace)).map fun number => (name, digits, field, number)
      else none
    | _ => none
  | _ => none

def Entry.set (field : Text) (value : ℚ) (e : Entry) : Entry :=
  if field = js "input" then { e with input := some value }
  else if field = js "max" then { e with max := some value }
  else if field = js "crit" then { e with crit := some value }
  else e

def LmState.value (s : LmState) (line : Text) : LmState :=
  match valueLine line with
  | none => s
  | some (name, digits, field, number) =>
    match KINDS name, (Number.parseFloat number).finite? with
    | some spec, some value =>
      let key := name ++ digits
      let entry := (s.pending.get? key).getD ⟨spec, none, none, none⟩
      { s with pending := s.pending.set key (entry.set field value) }
    | _, _ => s

def LmState.line (s : LmState) (line : Text) : LmState :=
  if trim line = [] then s
  else if (line.head?.map isSpace) = some false then
    match featureLabel line with
    | some label => { s.flush with label := label }
    | none => if 58 ∈ line then s else { s.flush with chip := trim line, label := [] }
  else s.value line

def parseLmSensors (text : Text) : List SensorReading :=
  ((text.splitOn 10).foldl LmState.line ⟨[], [], [], .empty⟩).flush.raw

/-! ### The hwmon listing -/

def scaled (spec : KindSpec) (s : Option Text) : Option ℚ :=
  match s with
  | none => none
  | some text =>
    if text = [] then none
    else match (Number.parseFloat text).finite?, spec.sysfsDivisor with
      | some n, some divisor => some (Number.double (n / divisor))
      | _, _ => none

/-- `s.replace(/\d+$/, '')` -/
def dropDigits (s : Text) : Text := (s.reverse.dropWhile isDigit).reverse

def hwmonReading (line : Text) : Option SensorReading :=
  match (trim line).splitOn 124 with
  | chip :: key :: label :: input :: more =>
    match KINDS (dropDigits key) with
    | none => none
    | some spec =>
      match scaled spec (some input) with
      | none => none
      | some value =>
        if isPlausible spec.kind value then
          some ⟨chip, if label = [] then key else label, spec.kind, value, spec.unit,
            scaled spec more[0]?, scaled spec more[1]?⟩
        else none
  | _ => none

def parseHwmon (text : Text) : List SensorReading := (text.splitOn 10).filterMap hwmonReading

/-! ### Labels -/

def kindText : Option SensorKind → Text
  | some .temp => js "temp"
  | some .fan => js "fan"
  | some .voltage => js "voltage"
  | some .power => js "power"
  | some .current => js "current"
  | none => js "undefined"

/-- How often a text is listed. -/
def count (list : List Text) (k : Text) : Nat := list.count k

def keyed (kind : Option SensorKind) (label : Text) : Text := kindText kind ++ 124 :: label

def shortLabel (r : SensorReading) : Text := shortChip r.chip ++ 32 :: r.label
def fullLabel (r : SensorReading) : Text := r.chip ++ 32 :: r.label

def plain (raw : List SensorReading) : Text → Nat := count (raw.map fun r => keyed r.kind r.label)
def short (raw : List SensorReading) : Text → Nat := count (raw.map fun r => keyed r.kind (shortLabel r))

/-- Another reading of the kind has the label. -/
def isShared (raw : List SensorReading) (r : SensorReading) : Bool :=
  !r.chip.isEmpty && !decide (plain raw (keyed r.kind r.label) < 2)

/-- Another reading of the kind gets the same label from its short chip name. -/
def isAmbiguous (raw : List SensorReading) (r : SensorReading) : Bool :=
  !decide (short raw (keyed r.kind (shortLabel r)) < 2)

def labelOf (raw : List SensorReading) (r : SensorReading) : Text :=
  if isShared raw r then (if isAmbiguous raw r then fullLabel r else shortLabel r) else r.label

def finalize (raw : List SensorReading) : List SensorReading :=
  raw.map fun r => { r with label := labelOf raw r }

/-! ### The snapshot -/

def kindIndex : Option SensorKind → Int
  | some .temp => 0
  | some .fan => 1
  | some .voltage => 2
  | some .power => 3
  | some .current => 4
  | none => -1

section parse
variable (localeCompare : Text → Text → Int)

def compareReadings (a b : SensorReading) : Int :=
  let kinds := kindIndex a.kind - kindIndex b.kind
  let chips := localeCompare a.chip b.chip
  if kinds ≠ 0 then kinds else if chips ≠ 0 then chips else localeCompare a.label b.label

/-- The raw readings of the format that is used. -/
def rawReadings (sensorsText hwmonText : Text) : List SensorReading :=
  let lm := parseLmSensors sensorsText
  if lm ≠ [] then lm else parseHwmon hwmonText

def parseSensors (sensorsText hwmonText : Text) : List SensorReading :=
  (finalize (rawReadings sensorsText hwmonText)).mergeSort
    fun a b => decide (compareReadings localeCompare a b ≤ 0)

end parse

structure SensorsSnapshot where
  t : ℚ
  sensors : List SensorReading

/-- `point[label] = value`: a number does not become an object's prototype. -/
def assign (point : OrderedMap Text ℚ) (label : Text) (value : ℚ) : OrderedMap Text ℚ :=
  if label = js "__proto__" then point else point.set label value

def addReading (point : OrderedMap Text ℚ) (s : SensorReading) : OrderedMap Text ℚ :=
  if s.label = js "t" then point else assign point s.label s.value

def ofKind (snap : SensorsSnapshot) (kind : SensorKind) (limit : Nat) : List SensorReading :=
  (snap.sensors.filter fun s => s.kind = some kind).take limit

/-- Pivot one snapshot into a chart point for a single kind. -/
def toKindPoint (snap : SensorsSnapshot) (kind : SensorKind) (limit : Nat) : Option (OrderedMap Text ℚ) :=
  let rows := ofKind snap kind limit
  if rows = [] then none
  else
    let point := rows.foldl addReading (OrderedMap.empty.set (js "t") snap.t)
    if 1 < point.keys.length then some point else none

end BoredManager.Sensors
