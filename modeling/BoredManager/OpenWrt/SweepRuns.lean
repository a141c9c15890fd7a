import BoredManager.OpenWrt.FastSweep
import BoredManager.Machine.Runs

/-! Runs of fast-sweep ticks against a router, and when the automations are handed
what the router answered. -/
namespace BoredManager.OpenWrt
open BoredManager.Js BoredManager.Shared BoredManager.Machine

variable {jsonParse : Text → Option Json} {sweep : FastSweep}

/-- A connected tick: what it reads, and the router that answers its command. -/
structure SweepTick where
  setting : TickSetting
  router : RouterState

def SweepTick.exec (tick : SweepTick) (includeDump : Bool) : ExecResult :=
  .returned 0
    (fastSweepOutput tick.setting.rulePrefBase tick.setting.ranges includeDump tick.router)

def FastSweep.tick (jsonParse : Text → Option Json) (sweep : FastSweep) (tick : SweepTick) :
    FastSweep × List HookCall :=
  sweep.sample jsonParse tick.setting tick.exec

/-- The rules of the last model. -/
def FastSweep.rules (sweep : FastSweep) : List IpRule := (sweep.latest.map (·.rules)).getD []

/-- The ticks of a run, each with the state after it and the hooks it called. -/
def sweepRun (jsonParse : Text → Option Json) :
    FastSweep → List SweepTick → List (SweepTick × FastSweep × List HookCall)
  | _, [] => []
  | sweep, tick :: ticks =>
    (tick, sweep.tick jsonParse tick) :: sweepRun jsonParse (sweep.tick jsonParse tick).1 ticks

/-- The kernel's rule as the planner knows it: only a table with a number counts. -/
def KernelRule.toIpRule (rule : KernelRule) : Option IpRule :=
  if rule.table.all isDigit then
    let table := Awk.wholeNumber rule.table
    if table = 0 then none else some ⟨rule.pref, rule.source, table⟩
  else none

/-- The model says what the router printed: its numeric rules in the managed range, the
leases that are active, and the counters of its devices, the pool's only summed. -/
structure SeesRouter (jsonParse : Text → Option Json) (tick : SweepTick)
    (rules : List KernelRule) (after : FastSweep) (model : RouterModel) : Prop where
  rules : ∀ rule : IpRule, rule ∈ model.rules ↔
    ∃ shown ∈ printedRules tick.setting.rulePrefBase rules, shown.toIpRule = some rule
  leases : model.leases = activeLeases (parseLeases tick.router.leases.text) tick.setting.now
    (routerLocaltime jsonParse tick.router.sys.text)
  counters : ∃ dev, after.previousDev = some dev ∧ model.poolDev = dev.poolDev ∧
    ∀ name, dev.devices.get? name =
      ((otherDevices tick.setting.ranges tick.router.devices).reverse.find?
        fun device => decide (device.name = name)).map fun device => ⟨device.rx, device.tx⟩
  pool : let pool := poolDevices tick.setting.ranges tick.router.devices
    model.poolDev = ⟨pool.length, awkSum (pool.map (·.rx)), awkSum (pool.map (·.tx))⟩

/-- In each tick `onSample` is called, once and with what the router printed, exactly
when the router listed its rules. -/
def BindingSeesRouter (jsonParse : Text → Option Json) (sweep : FastSweep)
    (ticks : List SweepTick) : Prop :=
  ∀ entry ∈ sweepRun jsonParse sweep ticks,
    match entry.1.router.rules with
    | some rules => ∃ model, entry.2.2.filterMap HookCall.sampled = [model] ∧
        SeesRouter jsonParse entry.1 rules entry.2.1 model
    | none => entry.2.2.filterMap HookCall.sampled = []

/-- No output has a section under the sentinel's name: it has an underscore. -/
theorem rulesOk_splitSections (stdout : Text) : rulesOk (splitSections stdout) = false := by
  have hnone : (splitSections stdout).get? (js "RULES_OK") = none := by
    refine OrderedMap.get?_eq_none.mpr fun hmem => ?_
    have h := isUpper_of_mem_splitSections hmem 95 (by decide)
    exact absurd h (by decide)
  rw [rulesOk, sectionText, hnone]
  decide

@[simp] theorem FastSweep.readDump_latest (dump : Text) :
    (sweep.readDump jsonParse dump).latest = sweep.latest := by
  unfold FastSweep.readDump FastSweep.forceDumpNextTick
  split <;> rfl

variable (setting : TickSetting)

theorem readSections_calls (includeDump : Bool) {sections : OrderedMap Text Text}
    (h : rulesOk sections = false) :
    (sweep.readSections jsonParse setting includeDump sections).2 = [] := by
  simp [FastSweep.readSections, hookCalls, h]

/-- Without the sentinel the rules of the last model are kept. -/
theorem readSections_rules (includeDump : Bool) {sections : OrderedMap Text Text}
    (h : rulesOk sections = false) :
    (sweep.readSections jsonParse setting includeDump sections).1.rules = sweep.rules := by
  simp only [FastSweep.readSections, FastSweep.rules, h, Bool.false_eq_true, if_false,
    Option.map_some, Option.getD_some]
  cases includeDump with
  | true =>
    simp only [if_true, FastSweep.readDump_latest]
    split <;> rfl
  | false =>
    simp only [Bool.false_eq_true, if_false]
    split <;> rfl

/-- Whatever the command returns, a tick calls no hook. -/
theorem sample_calls (exec : Bool → ExecResult) : (sweep.sample jsonParse setting exec).2 = [] := by
  unfold FastSweep.sample
  dsimp only
  split
  · rfl
  · split
    · rfl
    · exact readSections_calls _ _ (rulesOk_splitSections _)

theorem sample_rules (exec : Bool → ExecResult) :
    (sweep.sample jsonParse setting exec).1.rules = sweep.rules := by
  have hforce : (if setting.forceDump then sweep.forceDumpNextTick else sweep).latest =
      sweep.latest := by
    cases setting.forceDump <;> rfl
  unfold FastSweep.sample
  dsimp only
  split
  · simp only [FastSweep.rules, hforce]
  · split
    · simp only [FastSweep.rules, hforce]
    · rw [readSections_rules _ _ (rulesOk_splitSections _)]
      simp only [FastSweep.rules, hforce]

/-- No run of sweeps reads a rule: the kept model has those it had at the start. -/
theorem rules_of_run (inputs : List (TickSetting × (Bool → ExecResult))) :
    (run (fun sweep input => (sweep.sample jsonParse input.1 input.2).1) sweep inputs).rules =
      sweep.rules := by
  induction inputs generalizing sweep with
  | nil => rfl
  | cons input inputs ih => rw [run_cons, ih, sample_rules]

theorem calls_of_mem_sweepRun {ticks : List SweepTick} {entry : SweepTick × FastSweep × List HookCall}
    (h : entry ∈ sweepRun jsonParse sweep ticks) : entry.1 ∈ ticks ∧ entry.2.2 = [] := by
  induction ticks generalizing sweep with
  | nil => cases h
  | cons tick ticks ih =>
    rcases List.mem_cons.mp h with rfl | h
    · exact ⟨List.mem_cons_self, sample_calls _ _⟩
    · exact ⟨List.mem_cons_of_mem _ (ih h).1, (ih h).2⟩

theorem exists_of_mem_ticks (jsonParse : Text → Option Json) (sweep : FastSweep)
    {ticks : List SweepTick} {tick : SweepTick} (h : tick ∈ ticks) :
    ∃ entry ∈ sweepRun jsonParse sweep ticks, entry.1 = tick := by
  induction ticks generalizing sweep with
  | nil => cases h
  | cons first ticks ih =>
    rcases List.mem_cons.mp h with rfl | h
    · exact ⟨_, List.mem_cons_self, rfl⟩
    · obtain ⟨entry, he, htick⟩ := ih (sweep.tick jsonParse first).1 h
      exact ⟨entry, List.mem_cons_of_mem _ he, htick⟩

/-- The binding engine sees the router's answers exactly in the runs in which the
router never lists its rules. -/
theorem binding_sees_router_iff (jsonParse : Text → Option Json) (sweep : FastSweep)
    (ticks : List SweepTick) :
    BindingSeesRouter jsonParse sweep ticks ↔ ∀ tick ∈ ticks, tick.router.rules = none := by
  constructor
  · intro h tick htick
    obtain ⟨entry, he, rfl⟩ := exists_of_mem_ticks jsonParse sweep htick
    have hentry := h entry he
    cases hr : entry.1.router.rules with
    | none => rfl
    | some rules =>
      rw [hr] at hentry
      obtain ⟨model, hcalls, _⟩ := hentry
      rw [(calls_of_mem_sweepRun he).2] at hcalls
      cases hcalls
  · intro h entry he
    obtain ⟨htick, hcalls⟩ := calls_of_mem_sweepRun he
    rw [h entry.1 htick, hcalls]
    rfl

/-- A router with one LAN client and one rule for it; `ubus` prints nothing. -/
def answeringTick : SweepTick where
  setting := {
    now := 1700000000000, rulePrefBase := 20000, ranges := [⟨js "pd", 1, 10⟩]
    pppoeErrors := .empty, forceDump := false
    onRouterRebootThrows := false, onSampleThrows := false }
  router := {
    sys := .nothing
    devices := [⟨js "br-lan", List.replicate 16 7, by decide, by decide⟩]
    leases := ⟨js "1700003600 aa:bb:cc:00:00:01 192.168.1.10 phone *\n", by decide, by decide⟩
    rules := some [⟨20001, js "192.168.1.10", [], js "10001", by decide, by decide, by decide⟩]
    dump := .nothing }

theorem answering_router_unseen :
    ¬BindingSeesRouter (fun _ => none) FastSweep.initial [answeringTick] := by
  intro h
  obtain ⟨model, hcalls, _⟩ := h _ List.mem_cons_self
  rw [FastSweep.tick, sample_calls] at hcalls
  cases hcalls

end BoredManager.OpenWrt
