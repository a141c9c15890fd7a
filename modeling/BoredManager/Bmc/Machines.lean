import BoredManager.Machine.Keyed
import BoredManager.Js.OrderedMap
import BoredManager.Js.Text

/-! The machines of the BMC module: the document with its revisions, what a probe tells of a machine,
and the page of cards that is built from both. -/
namespace BoredManager.Bmc
open BoredManager.Js BoredManager.Machine

/-! ### The document -/

/-- The fields that a form has. -/
structure Fields where
  name : Text
  ip : Text
  port : Nat
  username : Text
  password : Text
  note : Text
deriving DecidableEq

/-- A revision is the number of its draw. -/
structure BmcMachine where
  id : Text
  revision : Nat
  fields : Fields
deriving DecidableEq

/-- The stored machines: one of each id, each with a revision that was drawn. -/
structure ConfigStore where
  machines : List BmcMachine
  drawn : Nat
  nodup : (machines.map BmcMachine.id).Nodup
  old : ∀ m ∈ machines, m.revision < drawn

namespace ConfigStore

def find (c : ConfigStore) (id : Text) : Option BmcMachine :=
  c.machines.find? fun m => decide (m.id = id)

theorem find_eq_some {c : ConfigStore} {id : Text} {m : BmcMachine} :
    c.find id = some m ↔ m ∈ c.machines ∧ m.id = id := by
  constructor
  · intro h
    exact ⟨List.mem_of_find?_eq_some h, by simpa using List.find?_some h⟩
  · rintro ⟨hm, rfl⟩
    cases hfind : c.find m.id with
    | none => exact absurd (List.find?_eq_none.mp hfind m hm) (by simp)
    | some other =>
      have hid : other.id = m.id := by simpa using List.find?_some hfind
      exact congrArg some (List.inj_on_of_nodup_map c.nodup (List.mem_of_find?_eq_some hfind) hm hid)

theorem mem_putKeyed {e m : BmcMachine} {ms : List BmcMachine} (h : m ∈ putKeyed BmcMachine.id e ms) :
    m = e ∨ m ∈ ms := by
  induction ms with
  | nil => exact .inl (List.mem_singleton.mp h)
  | cons x xs ih =>
    rw [putKeyed] at h
    split_ifs at h
    · exact (List.mem_cons.mp h).imp_right (List.mem_cons_of_mem _)
    · obtain rfl | h := List.mem_cons.mp h
      · exact .inr List.mem_cons_self
      · exact (ih h).imp_right (List.mem_cons_of_mem _)

theorem nodup_putKeyed {e : BmcMachine} {ms : List BmcMachine} (h : (ms.map BmcMachine.id).Nodup) :
    ((putKeyed BmcMachine.id e ms).map BmcMachine.id).Nodup := by
  by_cases hmem : e.id ∈ ms.map BmcMachine.id
  · rw [putKeyed_of_mem h hmem, map_key_change]
    exact h
  · rw [putKeyed_of_not_mem hmem, List.map_append, List.map_singleton, ← List.concat_eq_append]
    exact h.concat hmem

/-- A machine is saved in the place of the one of its id or at the end, with a revision of its own. -/
def save (c : ConfigStore) (id : Text) (fields : Fields) : ConfigStore where
  machines := putKeyed BmcMachine.id ⟨id, c.drawn, fields⟩ c.machines
  drawn := c.drawn + 1
  nodup := nodup_putKeyed c.nodup
  old m hm := by
    obtain rfl | hm := mem_putKeyed hm
    · exact Nat.lt_succ_self _
    · exact Nat.lt_succ_of_lt (c.old m hm)

def remove (c : ConfigStore) (id : Text) : ConfigStore where
  machines := dropKey BmcMachine.id id c.machines
  drawn := c.drawn
  nodup := c.nodup.sublist (List.filter_sublist.map _)
  old m hm := c.old m (List.mem_of_mem_filter hm)

end ConfigStore

/-! ### What a probe tells -/

inductive Power where
  | on | off
deriving DecidableEq

inductive Reach where
  | ok | unreachable | auth | error
deriving DecidableEq

structure MachineRuntimeState where
  revision : Nat
  power : Option Power
  reach : Reach
  lastSeen : Option Int
  lastError : Text
deriving DecidableEq

/-- The answer of `chassis power status`: what was parsed of it, or what went wrong. -/
inductive IpmiResult where
  | answered (power : Option Power)
  | failed (reach : Reach) (message : Text)
deriving DecidableEq

/-- `readState`, with the state that was known when the probe began. -/
def readState (machine : BmcMachine) (previous : Option MachineRuntimeState) (result : IpmiResult)
    (now : Int) : MachineRuntimeState :=
  match result with
  | .failed reach message =>
    { revision := machine.revision
      power := previous.bind MachineRuntimeState.power
      reach := reach
      lastSeen := previous.bind MachineRuntimeState.lastSeen
      lastError := message }
  | .answered none =>
    { revision := machine.revision
      power := none
      reach := .error
      lastSeen := some now
      lastError := js "The BMC answer did not contain a chassis power state." }
  | .answered (some power) =>
    { revision := machine.revision, power := some power, reach := .ok, lastSeen := some now
      lastError := [] }

/-! ### Cards -/

inductive ItemStatus where
  | ok | warn | bad | unknown
deriving DecidableEq

def describeState (state : Option MachineRuntimeState) : ItemStatus × Text :=
  match state with
  | none => (.unknown, js "Not checked yet")
  | some state =>
    if state.reach = .auth then (.warn, js "Auth failed")
    else if state.reach ≠ .ok then (.bad, js "Unreachable")
    else match state.power with
      | some .on => (.ok, js "Power on")
      | some .off => (.unknown, js "Power off")
      | none => (.bad, js "Unreachable")

structure MachineCounts where
  total : Nat
  on : Nat
  off : Nat
  unreachable : Nat
  authFailed : Nat
  unknown : Nat
deriving DecidableEq

def MachineCounts.count (c : MachineCounts) (state : Option MachineRuntimeState) : MachineCounts :=
  match state with
  | none => { c with unknown := c.unknown + 1 }
  | some state =>
    if state.reach = .ok ∧ state.power = some .on then { c with on := c.on + 1 }
    else if state.reach = .ok ∧ state.power = some .off then { c with off := c.off + 1 }
    else if state.reach = .auth then { c with authFailed := c.authFailed + 1 }
    else { c with unreachable := c.unreachable + 1 }

/-- The sum over the statuses. -/
def MachineCounts.sum (c : MachineCounts) : Nat :=
  c.on + c.off + c.unreachable + c.authFailed + c.unknown

theorem MachineCounts.sum_count (c : MachineCounts) (state : Option MachineRuntimeState) :
    (c.count state).sum = c.sum + 1 := by
  cases state with
  | none => simp only [count, sum]; omega
  | some state =>
    simp only [count]
    split_ifs <;> simp only [sum] <;> omega

structure MachineCard where
  id : Text
  revision : Nat
  name : Text
  ip : Text
  port : Nat
  status : ItemStatus
  powerLabel : Text
  note : Text
  lastSeen : Option Int
deriving DecidableEq

def machineCard (machine : BmcMachine) (state : Option MachineRuntimeState) : MachineCard :=
  { id := machine.id
    revision := machine.revision
    name := machine.fields.name
    ip := machine.fields.ip
    port := machine.fields.port
    status := (describeState state).1
    powerLabel := (describeState state).2
    note := machine.fields.note
    lastSeen := state.bind MachineRuntimeState.lastSeen }

structure MachinesPayload where
  counts : MachineCounts
  machines : List MachineCard
deriving DecidableEq

/-- The state of a machine that is shown: the one of its revision. -/
def shownState (states : Text → Option MachineRuntimeState) (machine : BmcMachine) :
    Option MachineRuntimeState :=
  (states machine.id).filter fun state => decide (state.revision = machine.revision)

def buildMachinesPayload (machines : List BmcMachine) (states : Text → Option MachineRuntimeState) :
    MachinesPayload :=
  { counts := machines.foldl (fun c machine => c.count (shownState states machine))
      ⟨machines.length, 0, 0, 0, 0, 0⟩
    machines := machines.map fun machine => machineCard machine (shownState states machine) }

/-- The counts of a page add up to its cards. -/
theorem sum_counts (machines : List BmcMachine) (states : Text → Option MachineRuntimeState) :
    (buildMachinesPayload machines states).counts.sum =
      (buildMachinesPayload machines states).machines.length := by
  have hfold : ∀ c : MachineCounts, (machines.foldl (fun c machine =>
      c.count (shownState states machine)) c).sum = c.sum + machines.length := by
    induction machines with
    | nil => simp
    | cons machine machines ih =>
      intro c
      rw [List.foldl_cons, ih, MachineCounts.sum_count, List.length_cons]
      omega
  rw [buildMachinesPayload, List.length_map, hfold]
  simp [MachineCounts.sum]

end BoredManager.Bmc
