import BoredManager.OpenWrt.Planner.Attribution
import BoredManager.OpenWrt.Planner.FreeWans

/-! The assignment of clients to WANs: rules of unknown clients are kept for a
grace, valid rules are kept, clients leave WANs that stay in error, and waiting
clients take the free WANs in order. -/
namespace BoredManager.OpenWrt.Planner
open BoredManager.Js

structure WorkingAssignment where
  mac : Option Text
  ip : Text
  wan : Text
  table : Nat
  pref : Option Nat
  assignedAt : Int
deriving DecidableEq

variable (input : ReconcileInput) (subnet : ParsedSubnet)

/-! ### Rules that no client owns -/

structure OrphanPass where
  usedWans : List Text
  orphans : List OrphanMemory
  opaqueAssignments : List WorkingAssignment

def oldOrphans : OrderedMap RuleChange OrphanMemory :=
  .ofList (input.oldMemory.orphans.map fun entry => (entry.key, entry))

/-- A rule of no known client, on a WAN of the pool, within one release grace. -/
def orphanOf (entry : WorkingActual) : Option (OrphanMemory × WorkingAssignment) :=
  if entry.mac.isSome then none
  else
    match (nonEmpty entry.wan).bind (poolByName input).get? with
    | none => none
    | some wan =>
      let firstMissingAt := (((oldOrphans input).get? entry.key).map
        OrphanMemory.firstMissingAt).getD input.now
      if wan.table = some entry.table ∧ input.now - firstMissingAt < input.releaseGraceMs then
        some (⟨entry.key, entry.ip, entry.table, entry.pref, firstMissingAt⟩,
          ⟨none, entry.ip, wan.name, entry.table, some entry.pref, firstMissingAt⟩)
      else none

def orphanStep (state : OrphanPass) (entry : WorkingActual) : OrphanPass :=
  match orphanOf input entry with
  | none => state
  | some (orphan, assignment) =>
    if assignment.wan ∈ state.usedWans then state
    else {
      usedWans := assignment.wan :: state.usedWans
      orphans := state.orphans ++ [orphan]
      opaqueAssignments := state.opaqueAssignments ++ [assignment] }

def orphanPass : OrphanPass :=
  if input.instance_.running then (actual input subnet).foldl (orphanStep input) ⟨[], [], []⟩
  else ⟨[], [], []⟩

/-! ### Rules that keep their client -/

structure PreservePass where
  usedWans : List Text
  usedMacs : List Text
  assignments : OrderedMap Text WorkingAssignment
  actualByMac : OrderedMap Text WorkingActual

/-- A client on a WAN: it keeps the time of its assignment if it was there before. -/
def assignTo (mac : Text) (device : DeviceMemory) (wan : PlannerWan) (table : Nat)
    (pref : Option Nat) : WorkingAssignment :=
  let previous := ((previousDevices input).get? mac).filter fun device =>
    device.wan == some wan.name
  { mac := some mac, ip := device.ip, wan := wan.name, table, pref
    assignedAt := (previous.map DeviceMemory.assignedAt).getD input.now }

/-- The assignment that a rule stands for, if its client and its WAN are as the
table says. -/
def preservedBy (entry : WorkingActual) : Option (Text × WorkingAssignment) :=
  match entry.mac with
  | none => none
  | some mac =>
    if mac ∈ held input ∨ (forced input).has mac then none
    else
      match workingDevice input subnet mac, (nonEmpty entry.wan).bind (poolByName input).get? with
      | some device, some wan =>
        if wan.table = some entry.table then
          some (mac, assignTo input mac device wan entry.table (some entry.pref))
        else none
      | _, _ => none

def preserveStep (state : PreservePass) (entry : WorkingActual) : PreservePass :=
  match preservedBy input subnet entry with
  | none => state
  | some (mac, assignment) =>
    if mac ∈ state.usedMacs ∨ assignment.wan ∈ state.usedWans then state
    else {
      usedWans := assignment.wan :: state.usedWans
      usedMacs := mac :: state.usedMacs
      assignments := state.assignments.set mac assignment
      actualByMac := state.actualByMac.set mac entry }

def preservePass : PreservePass :=
  let start : PreservePass := ⟨(orphanPass input subnet).usedWans, [], .empty, .empty⟩
  if input.instance_.running then (actual input subnet).foldl (preserveStep input subnet) start
  else start

/-! ### WANs in error -/

/-- Error timers reset across a reboot of the router. -/
def previousErrors : OrderedMap Text WanErrorMemory :=
  if input.rebooted then .empty
  else .ofList (input.oldMemory.wanErrors.map fun entry => (entry.wan, entry))

def nextErrors : List WanErrorMemory :=
  (input.wans.filter fun wan => wanState wan input.policy.wanWarnUptimeSec = .error).map fun wan =>
    ⟨wan.name, (((previousErrors input).get? wan.name).map WanErrorMemory.since).getD input.now⟩

def errorSince : OrderedMap Text Int :=
  .ofList ((nextErrors input).map fun entry => (entry.wan, entry.since))

def freeWansOf (usedWans : List Text) : List PlannerWan :=
  input.wans.filter fun wan =>
    wanUsable wan input.policy.wanWarnUptimeSec && decide (wan.name ∉ usedWans)

/-- The assignment's WAN has been in error for the whole grace. -/
def overdue (assignment : WorkingAssignment) : Bool :=
  ((errorSince input).get? assignment.wan).any fun since =>
    decide (input.errorGraceMs ≤ input.now - since)

def errorSinceOf (assignment : WorkingAssignment) : Int :=
  ((errorSince input).get? assignment.wan).getD input.now

def remapBefore (a b : Text × WorkingAssignment) : Bool :=
  if errorSinceOf input a.2 ≠ errorSinceOf input b.2 then
    decide (errorSinceOf input a.2 < errorSinceOf input b.2)
  else decide (a.2.pref.getD 0 ≤ b.2.pref.getD 0)

def remapCandidates : List (Text × WorkingAssignment) :=
  ((preservePass input subnet).assignments.entries.filter fun e => overdue input e.2).insertionSort
    fun a b => remapBefore input a b = true

structure RemapPass where
  usedWans : List Text
  assignments : OrderedMap Text WorkingAssignment
  priority : List ForcedReassign

/-- One client leaves for each WAN that is free at the start. -/
def remapLoop : Nat → List (Text × WorkingAssignment) → RemapPass → RemapPass
  | _, [], state => state
  | 0, _ :: _, state => state
  | remapCapacity + 1, (mac, assignment) :: candidates, state =>
    remapLoop remapCapacity candidates {
      usedWans := state.usedWans.filter (· ≠ assignment.wan)
      assignments := state.assignments.erase mac
      priority := state.priority ++ [⟨mac, some assignment.wan⟩] }

def remapPass : RemapPass :=
  let preserved := preservePass input subnet
  let start : RemapPass := ⟨preserved.usedWans, preserved.assignments, (forced input).values⟩
  if input.instance_.running && input.instance_.remap then
    remapLoop (freeWansOf input preserved.usedWans).length (remapCandidates input subnet) start
  else start

/-! ### The queue -/

def queueStep (leased assigned : Text → Bool) (queue : OrderedMap Text WaitingMemory)
    (entry : WaitingMemory) : OrderedMap Text WaitingMemory :=
  match normalizedMac entry.mac with
  | some mac =>
    if !leased mac || assigned mac || queue.has mac then queue
    else queue.set mac { entry with mac }
  | none => queue

def enqueueStep (assigned : Text → Bool) (now : Int)
    (state : OrderedMap Text WaitingMemory × Int) (mac : Text) :
    OrderedMap Text WaitingMemory × Int :=
  if assigned mac || state.1.has mac then state
  else (state.1.set mac ⟨mac, now, state.2⟩, state.2 + 1)

def waitingBefore (a b : WaitingMemory) : Bool := decide (a.order ≤ b.order)

def currentInOrder : List (Text × CurrentLease) :=
  (currentLeases input subnet).entries.insertionSort fun a b => a.2.index ≤ b.2.index

/-- The clients that wait, with the next sequence number: the old queue first, then
the new leases in the order of the file. -/
def queuePass : OrderedMap Text WaitingMemory × Int :=
  let assigned := (remapPass input subnet).assignments.has
  let waiting := input.oldMemory.waiting.insertionSort fun a b => waitingBefore a b = true
  let queue := waiting.foldl (queueStep (currentLeases input subnet).has assigned) .empty
  ((currentInOrder input subnet).map Prod.fst).foldl (enqueueStep assigned input.now)
    (queue, input.oldMemory.nextOrder)

/-- Forced and remapped clients come before the queue; each client asks once. -/
def requestStep (state : List ForcedReassign) (request : ForcedReassign) : List ForcedReassign :=
  if request.mac ∈ held input ∨ request.mac ∈ state.map ForcedReassign.mac then state
  else state ++ [request]

def allocationOrder : List ForcedReassign :=
  let priority := (remapPass input subnet).priority.filter fun request =>
    (currentLeases input subnet).has request.mac
  let queue := (queuePass input subnet).1.values.insertionSort fun a b => waitingBefore a b = true
  (priority ++ queue.map fun entry => (⟨entry.mac, none⟩ : ForcedReassign)).foldl (requestStep input) []

structure AllocationState where
  usedWans : List Text
  assignments : OrderedMap Text WorkingAssignment
  freeWans : FreeWanPool
  random : SeededRandom

/-- The WAN that a request takes: the client's sticky choice unless it was forced
away, else a random one. -/
def selectWan (freeWans : FreeWanPool) (random : SeededRandom) (request : ForcedReassign) :
    Option (PlannerWan × FreeWanPool) × SeededRandom :=
  let choice := if !(forced input).has request.mac && input.instance_.sticky then
      ((stickyByMac input).get? request.mac).filter fun choice => freeWans.has choice.wan
    else none
  match choice.bind fun choice => freeWans.takeNamed choice.wan with
  | some taken => (some taken, random)
  | none => freeWans.takeRandom random request.avoidWan

def allocateStep (state : AllocationState) (request : ForcedReassign) : AllocationState :=
  if !input.instance_.running || state.assignments.has request.mac then state
  else
    match workingDevice input subnet request.mac with
    | none => state
    | some device =>
      match selectWan input state.freeWans state.random request with
      | (none, random) => { state with random }
      | (some (selected, freeWans), random) =>
        match selected.table with
        | none => { state with freeWans, random }
        | some table => {
            usedWans := selected.name :: state.usedWans
            assignments := state.assignments.set request.mac
              (assignTo input request.mac device selected table none)
            freeWans, random }

def allocationPass : AllocationState :=
  let remapped := remapPass input subnet
  (allocationOrder input subnet).foldl (allocateStep input subnet) {
    usedWans := remapped.usedWans
    assignments := remapped.assignments
    freeWans := .ofList (freeWansOf input remapped.usedWans)
    random := .ofSeed (input.randomSeed.getD 1) }

/-! ### Preferences -/

/-- A managed preference whose rule is not the planner's. -/
def reservesPref (rule : IpRule) : Bool :=
  input.policy.manages rule.pref &&
    match ruleIp rule.source with
    | some ip => decide ((⟨rule.pref, ip, rule.table⟩ : RuleChange) ∉
        (actual input subnet).map WorkingActual.key)
    | none => true

def availablePrefs : List Nat :=
  let policy := input.policy
  (List.range' policy.rulePrefBase (policy.catchAllPrefBase - policy.rulePrefBase)).filter
    fun pref => !input.rules.any fun rule => reservesPref input subnet rule && rule.pref == pref

/-- An assignment keeps a preference that is still available. -/
def keepPrefs : List Nat → List WorkingAssignment → List Nat × List WorkingAssignment
  | available, [] => (available, [])
  | available, assignment :: rest =>
    match assignment.pref with
    | none =>
      let (left, kept) := keepPrefs available rest
      (left, assignment :: kept)
    | some pref =>
      if pref ∈ available then
        let (left, kept) := keepPrefs (available.filter (· ≠ pref)) rest
        (left, assignment :: kept)
      else
        let (left, kept) := keepPrefs available rest
        (left, { assignment with pref := none } :: kept)

structure PrefSearch where
  available : List Nat
  nextPref : Nat

/-- The first available preference from `nextPref` on. -/
def takePref (policy : PlannerPolicy) (search : PrefSearch) : Option Nat × PrefSearch :=
  match (List.range' search.nextPref (policy.catchAllPrefBase - search.nextPref)).find?
      fun pref => decide (pref ∈ search.available) with
  | some pref => (some pref, ⟨search.available.filter (· ≠ pref), pref + 1⟩)
  | none => (none, { search with nextPref := max search.nextPref policy.catchAllPrefBase })

def takePrefs (policy : PlannerPolicy) :
    PrefSearch → List WorkingAssignment → PrefSearch × List WorkingAssignment
  | search, [] => (search, [])
  | search, assignment :: rest =>
    match assignment.pref with
    | some _ =>
      let (search, placed) := takePrefs policy search rest
      (search, assignment :: placed)
    | none =>
      let (pref, search) := takePref policy search
      let (search, placed) := takePrefs policy search rest
      (search, { assignment with pref } :: placed)

/-- Every assignment with its preference: the kept ones reserve theirs first, then
clients search before rules of unknown clients do. -/
def placedAssignments : List WorkingAssignment :=
  let opaques := (orphanPass input subnet).opaqueAssignments
  let assignments := (allocationPass input subnet).assignments.values
  let (available, opaques) := keepPrefs (availablePrefs input subnet) opaques
  let (available, assignments) := keepPrefs available assignments
  let (search, assignments) :=
    takePrefs input.policy ⟨available, input.policy.rulePrefBase⟩ assignments
  let (_, opaques) := takePrefs input.policy search opaques
  opaques ++ assignments

structure DesiredAssignment where
  pref : Nat
  ip : Text
  table : Nat
  wan : Text
  mac : Option Text
  assignedAt : Int
deriving DecidableEq

def DesiredAssignment.key (entry : DesiredAssignment) : RuleChange :=
  ⟨entry.pref, entry.ip, entry.table⟩

def WorkingAssignment.desired (assignment : WorkingAssignment) : Option DesiredAssignment :=
  assignment.pref.map fun pref => {
    pref, ip := assignment.ip, table := assignment.table, wan := assignment.wan
    mac := assignment.mac, assignedAt := assignment.assignedAt }

/-- An assignment for which no preference is left is dropped. -/
def desired : List DesiredAssignment :=
  ((placedAssignments input subnet).filterMap WorkingAssignment.desired).insertionSort
    fun a b => a.pref ≤ b.pref

end BoredManager.OpenWrt.Planner
