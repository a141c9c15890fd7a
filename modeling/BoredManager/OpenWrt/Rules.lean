import BoredManager.OpenWrt.Uci
import BoredManager.Shared.Check

/-! The rules of the OpenWRT module: the stored overrides, the effective rules, and the form that
checks and applies them. -/
namespace BoredManager.OpenWrt
open BoredManager.Js BoredManager.Shared

inductive NumericRule where
  | tableBase | rulePrefBase | catchAllPrefBase | catchAllTable | uciChunkSize | chunkDelayMs
  | ruleChunkLines | execTimeoutSec | maxBatchRows | wanErrorGraceSec | wanWarnUptimeSec
  | releaseGraceSec | autoRedialAfterMin | maxEvents | stickyCap
deriving DecidableEq

inductive BooleanRule where
  | remapOnWanError | stickyByMac
deriving DecidableEq

inductive ZoneMode where
  | wildcard | networks
deriving DecidableEq

structure OwrtRules where
  numeric : NumericRule → Int
  boolean : BooleanRule → Bool
  ifacePrefix : Text
  zoneName : Text
  zoneMode : ZoneMode
  leaseFile : Text

/-- Only values different from `DEFAULT_RULES` are written. -/
structure PartialRules where
  numeric : NumericRule → Option Int
  boolean : BooleanRule → Option Bool
  ifacePrefix : Option Text
  zoneName : Option Text
  zoneMode : Option ZoneMode
  leaseFile : Option Text

def NumericRule.key : NumericRule → String
  | tableBase => "tableBase"
  | rulePrefBase => "rulePrefBase"
  | catchAllPrefBase => "catchAllPrefBase"
  | catchAllTable => "catchAllTable"
  | uciChunkSize => "uciChunkSize"
  | chunkDelayMs => "chunkDelayMs"
  | ruleChunkLines => "ruleChunkLines"
  | execTimeoutSec => "execTimeoutSec"
  | maxBatchRows => "maxBatchRows"
  | wanErrorGraceSec => "wanErrorGraceSec"
  | wanWarnUptimeSec => "wanWarnUptimeSec"
  | releaseGraceSec => "releaseGraceSec"
  | autoRedialAfterMin => "autoRedialAfterMin"
  | maxEvents => "maxEvents"
  | stickyCap => "stickyCap"

def DEFAULT_RULES : OwrtRules where
  numeric
    | .tableBase => 10000
    | .rulePrefBase => 20000
    | .catchAllPrefBase => 29900
    | .catchAllTable => 29999
    | .uciChunkSize => 100
    | .chunkDelayMs => 1000
    | .ruleChunkLines => 500
    | .execTimeoutSec => 60
    | .maxBatchRows => 5000
    | .wanErrorGraceSec => 30
    | .wanWarnUptimeSec => 60
    | .releaseGraceSec => 300
    | .autoRedialAfterMin => 0
    | .maxEvents => 200
    | .stickyCap => 6000
  boolean _ := true
  ifacePrefix := js "pd"
  zoneName := js "bmwanpool"
  zoneMode := .wildcard
  leaseFile := js "/tmp/dhcp.leases"

/-- The least and the greatest value of a rule. -/
def RULE_BOUNDS : NumericRule → Int × Int
  | .tableBase => (1000, 25000)
  | .rulePrefBase => (1000, 28999)
  | .catchAllPrefBase => (2000, 29999)
  | .catchAllTable => (2000, 32766)
  | .uciChunkSize => (1, 1000)
  | .chunkDelayMs => (0, 60000)
  | .ruleChunkLines => (50, 2000)
  | .execTimeoutSec => (10, 600)
  | .maxBatchRows => (1, 5000)
  | .wanErrorGraceSec => (0, 3600)
  | .wanWarnUptimeSec => (0, 3600)
  | .releaseGraceSec => (0, 86400)
  | .autoRedialAfterMin => (0, 1440)
  | .maxEvents => (20, 1000)
  | .stickyCap => (100, 10000)

def NUMERIC_KEYS : List NumericRule :=
  [.tableBase, .rulePrefBase, .catchAllPrefBase, .catchAllTable, .uciChunkSize, .chunkDelayMs,
    .ruleChunkLines, .execTimeoutSec, .maxBatchRows, .wanErrorGraceSec, .wanWarnUptimeSec,
    .releaseGraceSec, .autoRedialAfterMin, .maxEvents, .stickyCap]

def validNumber (key : NumericRule) (value : Int) : Bool :=
  (RULE_BOUNDS key).1 ≤ value && value ≤ (RULE_BOUNDS key).2

/-- `/^[a-z][a-z0-9_]{0,31}$/` -/
def UCI_NAME : Text → Bool
  | [] => false
  | u :: s => isLower u && decide (s.length ≤ 31) && s.all fun v => isLower v || isDigit v || v == 95

def validLeaseFile (value : Text) : Bool :=
  decide (value.length ≤ 256) &&
    (match value with
      | 47 :: s => s ≠ [] && s.all fun v => isAlnum v || v == 95 || v == 46 || v == 47 || v == 45
      | _ => false) &&
    !(value.splitOn 47).contains (js "..")

def PartialRules.empty : PartialRules :=
  ⟨fun _ => none, fun _ => none, none, none, none, none⟩

/-- `{ ...DEFAULT_RULES, ...rules }` -/
def overlay (rules : PartialRules) : OwrtRules where
  numeric key := (rules.numeric key).getD (DEFAULT_RULES.numeric key)
  boolean key := (rules.boolean key).getD (DEFAULT_RULES.boolean key)
  ifacePrefix := rules.ifacePrefix.getD DEFAULT_RULES.ifacePrefix
  zoneName := rules.zoneName.getD DEFAULT_RULES.zoneName
  zoneMode := rules.zoneMode.getD DEFAULT_RULES.zoneMode
  leaseFile := rules.leaseFile.getD DEFAULT_RULES.leaseFile

def PartialRules.without (rules : PartialRules) (keys : List NumericRule) : PartialRules :=
  { rules with numeric := fun key => if key ∈ keys then none else rules.numeric key }

def OwrtRules.prioritiesOverlap (rules : OwrtRules) : Bool :=
  rules.numeric .catchAllPrefBase ≤ rules.numeric .rulePrefBase

def OwrtRules.tablesOverlap (rules : OwrtRules) : Bool :=
  rules.numeric .catchAllTable ≤ rules.numeric .tableBase + rules.numeric .maxBatchRows

/-- Valid overrides that are no defaults. A field of another type counts as absent. -/
def keepValid (raw : PartialRules) : PartialRules where
  numeric key := (raw.numeric key).filter fun v => validNumber key v && v ≠ DEFAULT_RULES.numeric key
  boolean key := (raw.boolean key).filter fun v => v ≠ DEFAULT_RULES.boolean key
  ifacePrefix := raw.ifacePrefix.filter fun v => isPppoePrefix v && v ≠ DEFAULT_RULES.ifacePrefix
  zoneName := raw.zoneName.filter fun v => UCI_NAME v && v ≠ DEFAULT_RULES.zoneName
  zoneMode := raw.zoneMode.filter fun v => v ≠ DEFAULT_RULES.zoneMode
  leaseFile := raw.leaseFile.filter fun v => validLeaseFile v && v ≠ DEFAULT_RULES.leaseFile

/-- The rules of the module config, as `normalize` reads them. -/
def normalize (raw : PartialRules) : PartialRules :=
  let rules := keepValid raw
  let rules := if (overlay rules).prioritiesOverlap
    then rules.without [.rulePrefBase, .catchAllPrefBase] else rules
  if (overlay rules).tablesOverlap
    then rules.without [.tableBase, .maxBatchRows, .catchAllTable] else rules

/-- `effectiveRules` of a stored document. -/
def effectiveRules (stored : PartialRules) : OwrtRules := overlay (normalize stored)

/-! ### The form -/

/-- The fields of the form: `text(values, key)`, and the fields that are booleans. -/
structure RulesForm where
  text : String → Text
  boolean : BooleanRule → Option Bool

/-- A number that the form gives: none when the field is empty or not valid. -/
def RulesForm.entered (form : RulesForm) (key : NumericRule) : Option Int :=
  if form.text key.key = [] then none
  else (Number.ofText (form.text key.key)).integer?.filter (validNumber key)

/-- Whether a field of the form makes an error finding. -/
def RulesForm.invalid (form : RulesForm) : Bool :=
  (NUMERIC_KEYS.any fun key => form.text key.key ≠ [] && (form.entered key).isNone) ||
    (form.text "ifacePrefix" ≠ [] && !isPppoePrefix (form.text "ifacePrefix")) ||
    (form.text "zoneName" ≠ [] && !UCI_NAME (form.text "zoneName")) ||
    (form.text "zoneMode" ≠ [] && form.text "zoneMode" ≠ js "wildcard" &&
      form.text "zoneMode" ≠ js "networks") ||
    (form.text "leaseFile" ≠ [] && !validLeaseFile (form.text "leaseFile"))

/-- A text field that is filled in and valid. -/
def enteredText (valid : Text → Bool) (text : Text) : Option Text :=
  if text ≠ [] ∧ valid text = true then some text else none

/-- `{ ...DEFAULT_RULES, ...entered }` -/
def RulesForm.candidate (form : RulesForm) : OwrtRules :=
  overlay {
    numeric := form.entered
    boolean := form.boolean
    ifacePrefix := enteredText isPppoePrefix (form.text "ifacePrefix")
    zoneName := enteredText UCI_NAME (form.text "zoneName")
    zoneMode := if form.text "zoneMode" = js "wildcard" then some .wildcard
      else if form.text "zoneMode" = js "networks" then some .networks else none
    leaseFile := enteredText validLeaseFile (form.text "leaseFile") }

/-- What must not change under batches and binding instances. -/
structure Numbering where
  tableBase : Int
  rulePrefBase : Int
  catchAllPrefBase : Int
  catchAllTable : Int
  zoneName : Text
  zoneMode : ZoneMode
deriving DecidableEq

def OwrtRules.numbering (rules : OwrtRules) : Numbering where
  tableBase := rules.numeric .tableBase
  rulePrefBase := rules.numeric .rulePrefBase
  catchAllPrefBase := rules.numeric .catchAllPrefBase
  catchAllTable := rules.numeric .catchAllTable
  zoneName := rules.zoneName
  zoneMode := rules.zoneMode

/-- The fields of a candidate that are no defaults. -/
def OwrtRules.kept (rules : OwrtRules) : PartialRules where
  numeric key := if rules.numeric key ≠ DEFAULT_RULES.numeric key then some (rules.numeric key) else none
  boolean key := if rules.boolean key ≠ DEFAULT_RULES.boolean key then some (rules.boolean key) else none
  ifacePrefix := if rules.ifacePrefix ≠ DEFAULT_RULES.ifacePrefix then some rules.ifacePrefix else none
  zoneName := if rules.zoneName ≠ DEFAULT_RULES.zoneName then some rules.zoneName else none
  zoneMode := if rules.zoneMode ≠ DEFAULT_RULES.zoneMode then some rules.zoneMode else none
  leaseFile := if rules.leaseFile ≠ DEFAULT_RULES.leaseFile then some rules.leaseFile else none

/-- What a check without an error finding would save. -/
def RulesForm.checked (form : RulesForm) (current : OwrtRules) (hasTopology : Bool) :
    Option PartialRules :=
  if form.invalid || form.candidate.prioritiesOverlap || form.candidate.tablesOverlap ||
      (hasTopology && form.candidate.numbering ≠ current.numbering) then none
  else some form.candidate.kept

/-- What `issue` reads besides the payload. -/
structure Stamp where
  values : Value
  sweptAt : Int
  namedAt : Int
  storedAt : Int
  random : Text

/-- The call of `issue` for a payload. -/
def Stamp.issue {T : Type} (stamp : Stamp) (payload : T) : CheckSession.Issue T :=
  ⟨stamp.values, payload, stamp.sweptAt, stamp.namedAt, stamp.storedAt, stamp.random⟩

end BoredManager.OpenWrt
