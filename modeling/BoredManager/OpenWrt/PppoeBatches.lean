import BoredManager.OpenWrt.PppoeJobs
import BoredManager.OpenWrt.Rules

/-! PPPoE batches of one router: what a check plans, what an apply verifies and records, and what
a delete removes. Checks and applies wait for the router in the middle. `lower` is
`toLowerCase`. -/
namespace BoredManager.OpenWrt.Batches
open BoredManager.Js BoredManager.Shared BoredManager.Machine

structure VlanDevice where
  ifname : Option Text
  vid : Option Int
  name : Option Text

structure RouterInventory where
  carrierExists : Bool
  sections : List Text
  tables : List Int
  vlanDevices : List (Text × VlanDevice)

/-- A stored batch, and the table base with which its job writes it to the router. -/
structure StoredBatch where
  record : PppoeBatchRecord
  base : Int

/-- A plan that a check froze. -/
structure BatchPlan where
  name : Text
  carrier : Text
  ifacePrefix : Text
  vlan : Option Int
  rows : List PppoeInputRow
  seqFrom : Nat
  seqTo : Nat
  rules : OwrtRules

/-- What a check has validated when it asks the router. -/
structure BatchForm where
  name : Text
  carrier : Text
  ifacePrefix : Text
  vlan : Option Int
  rows : List PppoeInputRow
  rules : OwrtRules

/-- The manager: `checking` and `applying` wait for the router's inventory. -/
structure Manager where
  nextSeq : Int
  batches : List StoredBatch
  session : CheckSession BatchPlan
  checking : List BatchForm
  applying : List BatchPlan

def BATCH_NAME_MAX : Nat := 80

/-! ### Sequences -/

def allocationLimit (rules : OwrtRules) : Int :=
  min 99999 (rules.numeric .catchAllTable - rules.numeric .tableBase - 1)

def overlaps (aFrom aTo bFrom bTo : Nat) : Bool := aFrom ≤ bTo && bFrom ≤ aTo

/-- The section or the table of a sequence is there already. -/
def RouterInventory.uses (inventory : RouterInventory) (ifacePrefix : Text) (rules : OwrtRules)
    (seq : Nat) : Bool :=
  (pppoeSectionName ifacePrefix (.ofInt seq)).toOption.any (· ∈ inventory.sections) ||
    (pppoeTableId (.ofInt (rules.numeric .tableBase)) (.ofInt seq)).toOption.any (· ∈ inventory.tables)

/-- Behind the stored batches that the range overlaps. -/
def movedTo (batches : List StoredBatch) (seqFrom seqTo : Nat) : Nat :=
  batches.foldl (fun moved batch =>
    if overlaps seqFrom seqTo batch.record.seqFrom batch.record.seqTo
    then max moved (batch.record.seqTo + 1) else moved) seqFrom

/-- The loop of `scanSequenceRange` from one start; it moves on in every turn. -/
def scanSequenceRange (count : Nat) (ifacePrefix : Text) (rules : OwrtRules)
    (batches : List StoredBatch) (inventory : RouterInventory) (maxFrom : Int) :
    Nat → Nat → Option (Nat × Nat)
  | 0, _ => none
  | fuel + 1, seqFrom =>
    if maxFrom < seqFrom ∨ allocationLimit rules < (seqFrom : Int) + count - 1 then none
    else
      let seqTo := seqFrom + count - 1
      let moved := movedTo batches seqFrom seqTo
      if moved ≠ seqFrom then scanSequenceRange count ifacePrefix rules batches inventory maxFrom fuel moved
      else match (List.range' seqFrom (seqTo + 1 - seqFrom)).find? (inventory.uses ifacePrefix rules) with
        | some collision =>
          scanSequenceRange count ifacePrefix rules batches inventory maxFrom fuel (collision + 1)
        | none => some (seqFrom, seqTo)

/-- The scan from a start up to the last start that is allowed. -/
def scanFrom (count : Nat) (ifacePrefix : Text) (rules : OwrtRules) (batches : List StoredBatch)
    (inventory : RouterInventory) (startFrom : Nat) (maxFrom : Int) : Option (Nat × Nat) :=
  scanSequenceRange count ifacePrefix rules batches inventory maxFrom
    (maxFrom + 1 - (max 1 startFrom : Nat)).toNat (max 1 startFrom)

def findSequenceRange (count : Nat) (ifacePrefix : Text) (rules : OwrtRules) (nextSeq : Int)
    (batches : List StoredBatch) (inventory : RouterInventory) : Option (Nat × Nat) :=
  let start := (max 1 nextSeq).toNat
  (scanFrom count ifacePrefix rules batches inventory start (allocationLimit rules)).or
    (if 1 < start then scanFrom count ifacePrefix rules batches inventory 1 (start - 1) else none)

def rangeStillFree (plan : BatchPlan) (rules : OwrtRules) (batches : List StoredBatch)
    (inventory : RouterInventory) : Bool :=
  !(batches.any fun batch =>
    overlaps plan.seqFrom plan.seqTo batch.record.seqFrom batch.record.seqTo) &&
  !(List.range' plan.seqFrom (plan.seqTo + 1 - plan.seqFrom)).any (inventory.uses plan.ifacePrefix rules)

/-! ### Checks -/

/-- What the form gives: its texts, and the uploaded or the pasted list. -/
structure BatchValues where
  text : String → Text
  listFile : Text
  listText : Text

/-- The batch VLAN; an error is none. -/
def parseOptionalVlan (raw : Text) : Option (Option Int) :=
  if raw = [] ∨ raw = js "0" then some none
  else match (Number.ofText raw).integer? with
    | some v => if 1 ≤ v ∧ v ≤ 4094 then some (some v) else none
    | none => none

def isControl (u : Nat) : Bool := u ≤ 31 || u == 127

def nameTaken (lower : Text → Text) (batches : List StoredBatch) (name : Text) : Bool :=
  batches.any fun batch => lower batch.record.name == lower name

def requestedVlans (rows : List PppoeInputRow) (batchVlan : Option Int) : List Int :=
  ((if rows.any (·.vlan.isNone) then batchVlan.toList else []) ++ rows.filterMap (·.vlan)).dedup

/-- The VLAN section is there and describes another device. -/
def vlanConflict (inventory : RouterInventory) (carrier : Text) (vlan : Int) : Bool :=
  (inventory.vlanDevices.lookup (vlanSectionName vlan)).any fun existing =>
    !(existing.ifname = some carrier && existing.vid = some vlan &&
      existing.name = some (vlanDevice carrier vlan))

/-- The part of `check` before the router is asked: none when there is an error finding. -/
def validate (lower : Text → Text) (rules : OwrtRules) (batches : List StoredBatch)
    (values : BatchValues) : Option BatchForm :=
  let name := values.text "name"
  let carrier := values.text "carrier"
  let ifacePrefix := if values.text "prefix" = [] then rules.ifacePrefix else values.text "prefix"
  let source := if trim values.listFile = [] then values.listText else values.listFile
  let parsed := parsePppoeList source
  let maxRows := min (hardMaxBatchRows : Int) (max 1 (rules.numeric .maxBatchRows))
  match parseOptionalVlan (values.text "vlan") with
  | none => none
  | some vlan =>
    if name = [] ∨ BATCH_NAME_MAX < name.length ∨ name.any isControl ∨ nameTaken lower batches name ∨
        isSafeDeviceName carrier = false ∨ isPppoePrefix ifacePrefix = false ∨
        parsed.rows.length < 1 ∨ maxRows < parsed.rows.length ∨ parsed.errors ≠ [] then none
    else some ⟨name, carrier, ifacePrefix, vlan, parsed.rows, rules⟩

/-- The part of `check` behind the router's answer. -/
def planBatch (m : Manager) (form : BatchForm) (inventory : RouterInventory) : Option BatchPlan :=
  let vlans := requestedVlans form.rows form.vlan
  if inventory.carrierExists = false ∨
      vlans.any (fun vlan => 15 < (vlanDevice form.carrier vlan).length ||
        vlanConflict inventory form.carrier vlan) then none
  else (findSequenceRange form.rows.length form.ifacePrefix form.rules m.nextSeq m.batches
      inventory).map fun range =>
    ⟨form.name, form.carrier, form.ifacePrefix, form.vlan, form.rows, range.1, range.2, form.rules⟩

/-! ### Applies -/

/-- What of the rules a plan depends on. -/
def applyRulesFingerprint (rules : OwrtRules) : List Int × Text × ZoneMode :=
  ([.tableBase, .catchAllTable, .uciChunkSize, .chunkDelayMs, .execTimeoutSec,
    .maxBatchRows].map rules.numeric, rules.zoneName, rules.zoneMode)

/-- The part of `apply` before the router is asked. -/
def takePlan (m : Manager) (rules : OwrtRules) (connected : Bool) (token : Text) (values : Value)
    (now : Int) : Manager :=
  let taken := m.session.take token values now
  let m := { m with session := taken.1 }
  match taken.2 with
  | none => m
  | some plan =>
    if connected = false ∨ applyRulesFingerprint rules ≠ applyRulesFingerprint plan.rules then m
    else { m with applying := m.applying ++ [plan] }

def BatchPlan.options (plan : BatchPlan) : PppoeBuildOptions :=
  ⟨plan.ifacePrefix, plan.carrier, .ofInt plan.seqFrom, .ofInt (plan.rules.numeric .tableBase),
    plan.vlan.map .ofInt⟩

def BatchPlan.stored (plan : BatchPlan) (id : Text) (now : Int) : StoredBatch where
  record :=
    { id
      name := plan.name
      ifacePrefix := plan.ifacePrefix
      carrier := plan.carrier
      vlan := plan.vlan.map .ofInt
      createdAt := now
      count := plan.rows.length
      seqFrom := plan.seqFrom
      seqTo := plan.seqTo }
  base := plan.rules.numeric .tableBase

def withoutBatch (id : Text) (batches : List StoredBatch) : List StoredBatch :=
  batches.filter fun batch => decide (batch.record.id ≠ id)

/-- The part of `apply` behind the router's answer; `started` says whether the job could start. -/
def record (lower : Text → Text) (m : Manager) (plan : BatchPlan) (inventory : RouterInventory)
    (id : Text) (now : Int) (started : Bool) : Manager :=
  if inventory.carrierExists = false ∨
      (requestedVlans plan.rows plan.vlan).any (vlanConflict inventory plan.carrier) ∨
      nameTaken lower m.batches plan.name ∨ rangeStillFree plan plan.rules m.batches inventory = false then m
  else match planPppoeChunks plan.rows plan.options (plan.rules.numeric .uciChunkSize) with
    | .error _ => m
    | .ok _ =>
      let batches := m.batches ++ [plan.stored id now]
      { m with
        nextSeq := max m.nextSeq (plan.seqTo + 1)
        batches := if started then batches else withoutBatch id batches }

/-- What happens to the manager. An inventory that could not be read is none. -/
inductive Event where
  | check (values : BatchValues)
  | planned (index : Nat) (inventory : Option RouterInventory) (stamp : Stamp)
  | apply (connected : Bool) (token : Text) (values : Value) (now : Int)
  | recorded (index : Nat) (inventory : Option RouterInventory) (id : Text) (now : Int) (started : Bool)
  | deleted (id : Text)

/-- One event, under the rules that are effective then. -/
def step (lower : Text → Text) (m : Manager) (rules : OwrtRules) : Event → Manager
  | .check values =>
    match validate lower rules m.batches values with
    | none => m
    | some form => { m with checking := m.checking ++ [form] }
  | .planned index inventory stamp =>
    match m.checking[index]? with
    | none => m
    | some form =>
      let m := { m with checking := m.checking.eraseIdx index }
      match inventory.bind (planBatch m form) with
      | none => m
      | some plan => { m with session := m.session.issue (stamp.issue plan) }
  | .apply connected token values now => takePlan m rules connected token values now
  | .recorded index inventory id now started =>
    match m.applying[index]? with
    | none => m
    | some plan =>
      let m := { m with applying := m.applying.eraseIdx index }
      match inventory with
      | none => m
      | some inventory => record lower m plan inventory id now started
  | .deleted id => { m with batches := withoutBatch id m.batches }

def start (nextSeq : Int) (batches : List StoredBatch) : Manager :=
  ⟨nextSeq, batches, .createCheckSession, [], []⟩

end BoredManager.OpenWrt.Batches
