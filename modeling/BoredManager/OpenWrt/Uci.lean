import BoredManager.Posix.Words
import BoredManager.OpenWrt.AccountList

/-! The pure UCI builders: the lines of a PPPoE batch, and what `uci batch`
reads in them. -/
namespace BoredManager.OpenWrt
open BoredManager.Js BoredManager.Posix

structure PppoeBuildOptions where
  ifacePrefix : Text
  carrier : Text
  seqFrom : Number
  tableBase : Number
  vlan : Option Number

structure PppoeSectionPlan where
  seq : Int
  section_ : Text
  table : Int
  device : Text
  vlan : Option Int
  lines : List Text

def maxPppoeSequence : Int := 99999

/-- Quote one UCI batch value using POSIX single-quote escaping. -/
def uciQuote (value : Text) : Text := singleQuote value

/-- `/^[a-z][a-z0-9]{0,3}$/`. -/
def isPppoePrefix : Text → Bool
  | [] => false
  | u :: s => isLower u && decide (s.length ≤ 3) && s.all fun v => isLower v || isDigit v

def isAlnum (u : Nat) : Bool := isLower u || isUpper u || isDigit u

/-- `/^[A-Za-z0-9][A-Za-z0-9_.:@-]{0,31}$/`. -/
def isSafeDeviceName : Text → Bool
  | [] => false
  | u :: s => isAlnum u && decide (s.length ≤ 31) &&
      s.all fun v => isAlnum v || v == 95 || v == 46 || v == 58 || v == 64 || v == 45

def wholeNumber (value : Number) (label : Text) : Except Text Int :=
  match value.integer? with
  | some n => .ok n
  | none => .error (label ++ js " must be a whole number")

def validVlan : Option Number → Except Text (Option Int)
  | none => .ok none
  | some value => do
    let vlan ← wholeNumber value (js "VLAN")
    if vlan < 1 ∨ 4094 < vlan then .error (js "VLAN must be between 1 and 4094")
    else .ok (some vlan)

def padPppoeSequence (seq : Number) : Except Text Text := do
  let value ← wholeNumber seq (js "PPPoE sequence")
  if value < 1 ∨ maxPppoeSequence < value then
    .error (js "PPPoE sequence must be between 1 and 99999")
  else .ok (padZero 5 (decimalInt value))

def prefixProblem : Text :=
  js "PPPoE prefix must be 1-4 lowercase letters or digits and start with a letter"

def pppoeSectionName (ifacePrefix : Text) (seq : Number) : Except Text Text := do
  if !isPppoePrefix ifacePrefix then .error prefixProblem
  else
    let name := ifacePrefix ++ (← padPppoeSequence seq)
    if 15 < (js "pppoe-" ++ name).length then
      .error (js "PPPoE interface name pppoe-" ++ name ++ js " is too long")
    else .ok name

def pppoeTableId (tableBase seq : Number) : Except Text Int := do
  let base ← wholeNumber tableBase (js "table base")
  let table := base + (← wholeNumber seq (js "PPPoE sequence"))
  if base < 1 ∨ 2147483647 < table then
    .error (js "PPPoE routing table is outside the supported range")
  else .ok table

def vlanSectionName (vlan : Int) : Text := js "bmv" ++ decimalInt vlan

/-- One setting of the network package: a section's type, or an option of it. -/
structure UciSetting where
  section_ : Text
  option : Option Text
  value : Text
deriving DecidableEq

/-- The batch line: a type stands bare, an option's value is quoted. -/
def UciSetting.line (s : UciSetting) : Text :=
  match s.option with
  | none => js "set network." ++ s.section_ ++ js "=" ++ s.value
  | some o => js "set network." ++ s.section_ ++ js "." ++ o ++ js "=" ++ uciQuote s.value

/-- The assignment the line is meant to make. -/
def UciSetting.assignment (s : UciSetting) : Text :=
  match s.option with
  | none => js "network." ++ s.section_ ++ js "=" ++ s.value
  | some o => js "network." ++ s.section_ ++ js "." ++ o ++ js "=" ++ s.value

def vlanDevice (carrier : Text) (vlan : Int) : Text := carrier ++ js "." ++ decimalInt vlan

def vlanSettings (carrier : Text) (vlan : Int) : List UciSetting :=
  let name := vlanSectionName vlan
  [⟨name, none, js "device"⟩,
   ⟨name, some (js "type"), js "8021q"⟩,
   ⟨name, some (js "ifname"), carrier⟩,
   ⟨name, some (js "vid"), decimalInt vlan⟩,
   ⟨name, some (js "name"), vlanDevice carrier vlan⟩]

def vlanLines (carrier : Text) (vlan : Int) : Except Text (List Text) :=
  let device := vlanDevice carrier vlan
  if 15 < device.length then
    .error (js "VLAN device " ++ device ++ js " is longer than Linux IFNAMSIZ")
  else .ok ((vlanSettings carrier vlan).map UciSetting.line)

def interfaceSettings (name device user pass : Text) (table : Int) : List UciSetting :=
  [⟨name, none, js "interface"⟩,
   ⟨name, some (js "proto"), js "pppoe"⟩,
   ⟨name, some (js "device"), device⟩,
   ⟨name, some (js "username"), user⟩,
   ⟨name, some (js "password"), pass⟩,
   ⟨name, some (js "ipv6"), js "0"⟩,
   ⟨name, some (js "peerdns"), js "0"⟩,
   ⟨name, some (js "defaultroute"), js "1"⟩,
   ⟨name, some (js "ip4table"), decimalInt table⟩,
   ⟨name, some (js "metric"), decimalInt table⟩]

/-- `seqFrom + index`. -/
def addIndex : Number → Nat → Number
  | .fin q, i => .fin (q + i)
  | v, _ => v

def deviceOf (carrier : Text) : Option Int → Text
  | none => carrier
  | some v => vlanDevice carrier v

/-- The body of the `rows.map` in `buildPppoeSections`. -/
def buildPppoeSection (options : PppoeBuildOptions) (batchVlan : Option Int) (row : PppoeInputRow)
    (index : Nat) : Except Text PppoeSectionPlan := do
  let seq := addIndex options.seqFrom index
  let name ← pppoeSectionName options.ifacePrefix seq
  let table ← pppoeTableId options.tableBase seq
  let vlan ← validVlan ((row.vlan.or batchVlan).map Number.ofInt)
  let device := deviceOf options.carrier vlan
  if 15 < device.length then
    .error (js "device " ++ device ++ js " is longer than Linux IFNAMSIZ")
  else .ok {
    seq := seq.integer?.getD 0, section_ := name, table, device, vlan,
    lines := (interfaceSettings name device row.user row.pass table).map UciSetting.line }

def buildSectionsFrom (options : PppoeBuildOptions) (batchVlan : Option Int) :
    Nat → List PppoeInputRow → Except Text (List PppoeSectionPlan)
  | _, [] => .ok []
  | index, row :: rows => do
    let plan ← buildPppoeSection options batchVlan row index
    let plans ← buildSectionsFrom options batchVlan (index + 1) rows
    .ok (plan :: plans)

def buildPppoeSections (rows : List PppoeInputRow) (options : PppoeBuildOptions) :
    Except Text (List PppoeSectionPlan) := do
  if !isPppoePrefix options.ifacePrefix then .error prefixProblem
  else if !isSafeDeviceName options.carrier then
    .error (js "carrier is not a safe interface name")
  else
    let batchVlan ← validVlan options.vlan
    buildSectionsFrom options batchVlan 0 rows

/-- The line loop: a VLAN device is described before its first section. -/
def linesFrom (carrier : Text) : List Int → List PppoeSectionPlan → Except Text (List Text)
  | _, [] => .ok []
  | emittedVlans, plan :: plans =>
    match plan.vlan with
    | some vlan =>
      if vlan ∈ emittedVlans then do
        let rest ← linesFrom carrier emittedVlans plans
        .ok (plan.lines ++ rest)
      else do
        let device ← vlanLines carrier vlan
        let rest ← linesFrom carrier (vlan :: emittedVlans) plans
        .ok (device ++ plan.lines ++ rest)
    | none => do
      let rest ← linesFrom carrier emittedVlans plans
      .ok (plan.lines ++ rest)

/-- Deterministic line builder used by both chunk planning and golden tests. -/
def buildPppoeUciLines (rows : List PppoeInputRow) (options : PppoeBuildOptions) :
    Except Text (List Text) := do
  let sections ← buildPppoeSections rows options
  linesFrom options.carrier [] sections

end BoredManager.OpenWrt
