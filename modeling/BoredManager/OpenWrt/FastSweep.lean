import BoredManager.OpenWrt.SweepOutput

/-! The fast sweep: one tick runs the command, cuts its output into sections, keeps
the last good model and hands the model to the automations when the kernel's rules
could be read. -/
namespace BoredManager.OpenWrt
open BoredManager.Js BoredManager.Shared

variable (jsonParse : Text → Option Json)

/-- A lease with its expiry on the app's clock; the router's clock may be fractional. -/
structure RouterLease where
  expires : ℚ
  mac : Text
  ip : Text
  host : Text
deriving DecidableEq

structure RouterModel where
  t : Int
  sys : RouterSystemState
  ifaces : List IfaceState
  poolDev : PoolDeviceCounters
  leases : List RouterLease
  rules : List IpRule
  rates : OrderedMap Text DeviceCounters

def poolRateKey : Text := js "__pool__"

/-- The lease as the app's clock sees it, or `none` when it is over. -/
def normalizedLease (lease : Lease) (now : Int) (routerNowSec : Option ℚ) : Option RouterLease :=
  let onAppClock (expires : ℚ) : RouterLease := ⟨expires, lease.mac, lease.ip, lease.host⟩
  match routerNowSec with
  | some sec =>
    if lease.expires = 0 then some (onAppClock 0)
    else
      let remaining : ℚ := lease.expires - sec
      if remaining ≤ 0 then none else some (onAppClock (⌊(now : ℚ) / 1000⌋ + remaining))
  | none => some (onAppClock lease.expires)

def RouterLease.rank (lease : RouterLease) : ℚ :=
  if lease.expires = 0 then maxSafeNat else lease.expires

/-- The latest lease of each hardware address. -/
def activeLeases (leases : List Lease) (now : Int) (routerNowSec : Option ℚ) : List RouterLease :=
  let step (byMac : OrderedMap Text RouterLease) (lease : Lease) : OrderedMap Text RouterLease :=
    match normalizedLease lease now routerNowSec with
    | none => byMac
    | some lease =>
      let oldRank := ((byMac.get? lease.mac).map RouterLease.rank).getD (-1)
      if oldRank ≤ lease.rank then byMac.set lease.mac lease else byMac
  (leases.foldl step .empty).values

def dumpCadence (ifaceCount : Nat) : Nat :=
  if ifaceCount ≤ 500 then 1 else if ifaceCount ≤ 2000 then 2 else 3

structure FastSweep where
  latest : Option RouterModel
  previousAt : Int
  previousDev : Option ProcNetDevSnapshot
  previousUptime : ℚ
  cachedIfaces : List IfaceState
  ticksSinceDump : Nat
  dumpNextTick : Bool
  fastFailed : Bool
  hookFailed : Bool

def FastSweep.initial : FastSweep := {
  latest := none, previousAt := 0, previousDev := none, previousUptime := 0
  cachedIfaces := [], ticksSinceDump := maxSafeNat, dumpNextTick := true
  fastFailed := false, hookFailed := false }

def FastSweep.forceDumpNextTick (sweep : FastSweep) : FastSweep :=
  { sweep with dumpNextTick := true }

/-- The rate since the last tick; none before the first, or after a reboot. -/
def FastSweep.calculateRates (sweep : FastSweep) (current : ProcNetDevSnapshot) (now : Int) :
    OrderedMap Text DeviceCounters :=
  let deltaSec : ℚ := if sweep.previousAt = 0 then 0 else ((now - sweep.previousAt : Int) : ℚ) / 1000
  let elapsed : ℚ := if 0 < deltaSec then max deltaSec (1 / 1000) else 0
  let rate (counter : ℚ) (before : Option ℚ) : ℚ :=
    match before with
    | some before => if 0 < elapsed then max 0 ((counter - before) / elapsed) else 0
    | none => 0
  let previous (name : Text) := sweep.previousDev.bind fun dev => dev.devices.get? name
  let rates := current.devices.entries.foldl (fun (rates : OrderedMap Text DeviceCounters) entry =>
    rates.set entry.1
      { rx := rate entry.2.rx ((previous entry.1).map (·.rx))
        tx := rate entry.2.tx ((previous entry.1).map (·.tx)) }) .empty
  rates.set poolRateKey
    { rx := rate current.poolDev.rx (sweep.previousDev.map (·.poolDev.rx))
      tx := rate current.poolDev.tx (sweep.previousDev.map (·.poolDev.tx)) }

/-- What a tick reads besides the router: the clock, the configuration and the errors
that the slow probe has found, and which of the hooks throw. -/
structure TickSetting where
  now : Int
  rulePrefBase : Nat
  ranges : List ManagedPppoeRange
  pppoeErrors : OrderedMap Text Text
  forceDump : Bool
  onRouterRebootThrows : Bool
  onSampleThrows : Bool

inductive HookCall where
  | onRouterReboot (model : RouterModel)
  | onSample (model : RouterModel)

def HookCall.sampled : HookCall → Option RouterModel
  | .onSample model => some model
  | .onRouterReboot _ => none

inductive ExecResult where
  | throws
  | returned (code : Int) (stdout : Text)

/-- The calls of the hooks and whether one threw. -/
def hookCalls (setting : TickSetting) (rulesOk rebooted : Bool) (model : RouterModel) :
    List HookCall × Bool :=
  if !rulesOk then ([], false)
  else if rebooted && setting.onRouterRebootThrows then ([.onRouterReboot model], true)
  else ((if rebooted then [.onRouterReboot model] else []) ++ [.onSample model],
    setting.onSampleThrows)

def sectionText (sections : OrderedMap Text Text) (name : String) : Text :=
  (sections.get? (js name)).getD []

/-- `(sections.get('RULES_OK') ?? '').trim() === '1'` -/
def rulesOk (sections : OrderedMap Text Text) : Bool :=
  trim (sectionText sections "RULES_OK") == js "1"

def FastSweep.readDump (sweep : FastSweep) (dump : Text) : FastSweep :=
  if validDump jsonParse dump then
    { sweep with cachedIfaces := parseDump jsonParse dump, ticksSinceDump := 0 }
  else sweep.forceDumpNextTick

/-- The part of `sample` after the command has returned data. -/
def FastSweep.readSections (sweep : FastSweep) (setting : TickSetting) (includeDump : Bool)
    (sections : OrderedMap Text Text) : FastSweep × List HookCall :=
  let systemText := sectionText sections "SYS"
  let system := parseSystemInfo jsonParse systemText
  let rebooted := decide (0 < sweep.previousUptime) && decide (0 < system.uptimeSec) &&
    decide (system.uptimeSec + 5 < sweep.previousUptime)
  let sweep :=
    if rebooted then
      { sweep with previousAt := 0, previousDev := none, dumpNextTick := true }
    else sweep
  let sweep := { sweep with previousUptime := system.uptimeSec }
  let sweep :=
    if includeDump then sweep.readDump jsonParse (sectionText sections "DUMP") else sweep
  let ifaces := sweep.cachedIfaces.map fun iface =>
    { iface with
      errorCode := (nonEmpty iface.errorCode).or
        (if iface.up then none else setting.pppoeErrors.get? iface.name) }
  let dev := parseProcNetDev (sectionText sections "DEV")
  let model : RouterModel := {
    t := setting.now
    sys := system
    ifaces
    poolDev := dev.poolDev
    leases := activeLeases (parseLeases (sectionText sections "LEASES")) setting.now
      (routerLocaltime jsonParse systemText)
    rules :=
      if rulesOk sections then parseIpRules (sectionText sections "RULES")
      else (sweep.latest.map (·.rules)).getD []
    rates := sweep.calculateRates dev setting.now }
  let (calls, threw) := hookCalls setting (rulesOk sections) rebooted model
  ({ sweep with
      previousAt := setting.now, previousDev := some dev, latest := some model,
      hookFailed := threw }, calls)

/-- One tick, `exec` being the answer to the command with or without the dump. -/
def FastSweep.sample (sweep : FastSweep) (setting : TickSetting) (exec : Bool → ExecResult) :
    FastSweep × List HookCall :=
  let sweep := if setting.forceDump then sweep.forceDumpNextTick else sweep
  let ticksSinceDump := sweep.ticksSinceDump + 1
  let includeDump := sweep.dumpNextTick || sweep.cachedIfaces.isEmpty ||
    decide (dumpCadence sweep.cachedIfaces.length ≤ ticksSinceDump)
  let sweep := { sweep with
    ticksSinceDump, dumpNextTick := if includeDump then false else sweep.dumpNextTick }
  match exec includeDump with
  | .throws => ({ sweep with fastFailed := true }, [])
  | .returned code stdout =>
    if code ≠ 0 ∧ trim stdout = [] then ({ sweep with fastFailed := true }, [])
    else
      { sweep with fastFailed := false }.readSections jsonParse setting includeDump
        (splitSections stdout)

end BoredManager.OpenWrt
