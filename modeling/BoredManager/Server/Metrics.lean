import BoredManager.Js.Number
import BoredManager.Machine.Runs
import BoredManager.Shared.Shell
import Mathlib.Algebra.Order.BigOperators.Group.List
import Mathlib.Tactic.Linarith
import Mathlib.Tactic.NormNum

/-! The system metrics of one machine: what a sample reads of the network interfaces and the disks,
and the rates that the next sample makes of it. -/
namespace BoredManager.Server.Metrics
open BoredManager.Js
open BoredManager.Shared (splitSections)

/-! ### Reading a section -/

/-- `parseInt(text, 10) || 0`, of a text without blanks. -/
def parseInt (text : Text) : Int :=
  let (negative, digits) := Number.splitSign text
  let n : Int := ((Number.radixValue 10 (digits.takeWhile isDigit)).getD 0 : Nat)
  if negative then -n else n

/-- A counter among the fields of a line. -/
def field (f : List Text) (i : Nat) : Int := parseInt (f.getD i [])

/-- What `.` does not stand for. -/
def isLineEnd (u : Nat) : Bool := u == 10 || u == 13 || u == 8232 || u == 8233

/-- `/^\s*([^\s:]+):\s*(.*)$/`: the interface, and the fields of its counters. -/
def netLine (line : Text) : Option (Text × List Text) :=
  let inName := fun u => !isSpace u && u != 58
  let s := line.dropWhile isSpace
  let name := s.takeWhile inName
  match s.dropWhile inName with
  | 58 :: rest =>
    let values := rest.dropWhile isSpace
    if name = [] ∨ values.any isLineEnd = true ∨ name = js "lo" then none
    else some (name, splitRuns isSpace (trim values))
  | _ => none

/-- A device name: a fixed beginning, and at least one unit of a kind behind it. -/
def namedBy (start : Text) (kind : Nat → Bool) (name : Text) : Bool :=
  start.isPrefixOf name && !(name.drop start.length).isEmpty && (name.drop start.length).all kind

/-- `/^nvme\d+n\d+$/` -/
def isNvme (name : Text) : Bool :=
  let rest := name.drop 4
  (js "nvme").isPrefixOf name && !(rest.takeWhile isDigit).isEmpty &&
    namedBy (js "n") isDigit (rest.dropWhile isDigit)

/-- Partitions, loop, dm and ram devices are excluded so the same bytes are not counted twice. -/
def physicalDisk (name : Text) : Bool :=
  namedBy (js "sd") isLower name || isNvme name || namedBy (js "vd") isLower name ||
    namedBy (js "xvd") isLower name || namedBy (js "mmcblk") isDigit name ||
    namedBy (js "hd") isLower name

def diskLine (line : Text) : Option (Text × List Text) :=
  let f := splitRuns isSpace (trim line)
  if f.length < 14 ∨ physicalDisk (f.getD 2 []) = false then none else some (f.getD 2 [], f)

def lines (sec : OrderedMap Text Text) (name : String) : List Text :=
  ((sec.get? (js name)).getD []).splitOn 10

/-- The counters of the devices, one for each line. -/
def netDevices (sec : OrderedMap Text Text) (i : Nat) : List (Text × Int) :=
  ((lines sec "NET").filterMap netLine).map fun d => (d.1, field d.2 i)

def diskDevices (sec : OrderedMap Text Text) (i : Nat) : List (Text × Int) :=
  ((lines sec "DISK").filterMap diskLine).map fun d => (d.1, field d.2 i * 512)

def sumOf (devices : List (Text × Int)) : Int := (devices.map Prod.snd).sum

/-! ### The service -/

structure CollectorSettings where
  cpu : Bool
  memory : Bool
  network : Bool
  disk : Bool
deriving DecidableEq

structure RawSample where
  t : Nat
  netRxBytes : Int
  netTxBytes : Int
  diskReadBytes : Int
  diskWriteBytes : Int

structure SystemSnapshot where
  t : Nat
  netRx : ℚ
  netTx : ℚ
  diskRead : ℚ
  diskWrite : ℚ

structure ReadFileResult where
  ok : Bool
  text : Text

/-- `running` is what a sample has read before it awaits its sections. -/
structure SystemMetricsService where
  prev : Option RawSample
  collectors : CollectorSettings
  collectorsRevision : Nat
  suppressNetworkRate : Bool
  suppressDiskRate : Bool
  running : Option (CollectorSettings × Nat)

namespace SystemMetricsService

def new : SystemMetricsService := ⟨none, ⟨true, true, true, true⟩, 0, false, false, none⟩

variable (s : SystemMetricsService)

/-- Only the sections whose collector is enabled are read on the target. -/
def configure (collectors : CollectorSettings) : SystemMetricsService := {
  s with
  suppressNetworkRate := s.suppressNetworkRate || (!s.collectors.network && collectors.network)
  suppressDiskRate := s.suppressDiskRate || (!s.collectors.disk && collectors.disk)
  collectors
  collectorsRevision := if s.collectors = collectors then s.collectorsRevision
    else s.collectorsRevision + 1 }

def reset : SystemMetricsService := {
  s with
  collectorsRevision := s.collectorsRevision + 1
  prev := none
  suppressNetworkRate := false
  suppressDiskRate := false }

/-- The names of the files that are read. -/
def fileSections (c : CollectorSettings) : List Text :=
  (if c.cpu then [js "STAT"] else []) ++ (if c.memory then [js "MEM"] else []) ++
    (if c.network then [js "NET"] else []) ++ (if c.disk then [js "DISK"] else []) ++
    [js "UPTIME", js "LOAD"]

/-- What the target answers: its files, or nothing where it has no fast path, and the exit code and
the output of the composite command. -/
structure Answer where
  files : Option (List ReadFileResult)
  code : Int
  stdout : Text

def compositeSections (a : Answer) : Option (OrderedMap Text Text) :=
  if a.code ≠ 0 ∧ a.stdout = [] then none else some (splitSections a.stdout)

def sampleSections (c : CollectorSettings) (a : Answer) : Option (OrderedMap Text Text) :=
  match a.files with
  | none => compositeSections a
  | some files =>
    if files.any (fun file => !file.ok) = true then compositeSections a
    else some ((fileSections c).zipIdx.foldl
      (fun sections name => sections.set name.1 ((files[name.2]?.map ReadFileResult.text).getD []))
      .empty)

def rawSample (t : Nat) (sec : OrderedMap Text Text) : RawSample where
  t
  netRxBytes := sumOf (netDevices sec 0)
  netTxBytes := sumOf (netDevices sec 8)
  diskReadBytes := sumOf (diskDevices sec 5)
  diskWriteBytes := sumOf (diskDevices sec 9)

def dt (prev raw : RawSample) : ℚ := max (((raw.t : ℚ) - prev.t) / 1000) (1 / 1000)

def rate (suppressed : Bool) (before now : Int) (dt : ℚ) : ℚ :=
  if suppressed then 0 else max 0 (((now : ℚ) - before) / dt)

def snapshot (prev raw : RawSample) : SystemSnapshot where
  t := raw.t
  netRx := rate s.suppressNetworkRate prev.netRxBytes raw.netRxBytes (dt prev raw)
  netTx := rate s.suppressNetworkRate prev.netTxBytes raw.netTxBytes (dt prev raw)
  diskRead := rate s.suppressDiskRate prev.diskReadBytes raw.diskReadBytes (dt prev raw)
  diskWrite := rate s.suppressDiskRate prev.diskWriteBytes raw.diskWriteBytes (dt prev raw)

/-- The sections of a sample are there. -/
def record (t : Nat) (sec : OrderedMap Text Text) : SystemMetricsService := {
  s with
  prev := some (rawSample t sec)
  suppressNetworkRate := s.suppressNetworkRate && !s.collectors.network
  suppressDiskRate := s.suppressDiskRate && !s.collectors.disk }

/-- What `record` emits: rates need two samples. -/
def emitted (t : Nat) (sec : OrderedMap Text Text) : Option SystemSnapshot :=
  s.prev.map fun prev => s.snapshot prev (rawSample t sec)

/-- The sections of the sample that runs, unless it is out of date or the target gave none. -/
def answered (a : Answer) : Option (OrderedMap Text Text) :=
  s.running.bind fun started =>
    if started.2 = s.collectorsRevision then sampleSections started.1 a else none

end SystemMetricsService

end BoredManager.Server.Metrics

/-! When the rates are those of the devices: the counters are summed before they are subtracted, so
what appears counts in full, and what is gone takes as much away. -/
namespace BoredManager.Server.Metrics
open BoredManager.Js BoredManager.Machine

variable {s : SystemMetricsService} {t : Nat} {l now before : List (Text × Int)}

inductive Counter where
  | netRx | netTx | diskRead | diskWrite
deriving DecidableEq

instance decidableForallCounter (P : Counter → Prop) [DecidablePred P] : Decidable (∀ c, P c) :=
  decidable_of_iff (P .netRx ∧ P .netTx ∧ P .diskRead ∧ P .diskWrite)
    ⟨fun h c => by
      cases c with
      | netRx => exact h.1
      | netTx => exact h.2.1
      | diskRead => exact h.2.2.1
      | diskWrite => exact h.2.2.2,
    fun h => ⟨h .netRx, h .netTx, h .diskRead, h .diskWrite⟩⟩

def Counter.section : Counter → Text
  | .netRx | .netTx => js "NET"
  | .diskRead | .diskWrite => js "DISK"

def Counter.devices (sec : OrderedMap Text Text) : Counter → List (Text × Int)
  | .netRx => netDevices sec 0
  | .netTx => netDevices sec 8
  | .diskRead => diskDevices sec 5
  | .diskWrite => diskDevices sec 9

def SystemSnapshot.rate (snap : SystemSnapshot) : Counter → ℚ
  | .netRx => snap.netRx
  | .netTx => snap.netTx
  | .diskRead => snap.diskRead
  | .diskWrite => snap.diskWrite

def RawSample.bytes (raw : RawSample) : Counter → Int
  | .netRx => raw.netRxBytes
  | .netTx => raw.netTxBytes
  | .diskRead => raw.diskReadBytes
  | .diskWrite => raw.diskWriteBytes

def CollectorSettings.collects (collectors : CollectorSettings) : Counter → Bool
  | .netRx | .netTx => collectors.network
  | .diskRead | .diskWrite => collectors.disk

def SystemMetricsService.suppresses (s : SystemMetricsService) : Counter → Bool
  | .netRx | .netTx => s.suppressNetworkRate
  | .diskRead | .diskWrite => s.suppressDiskRate

/-! ### Devices of two samples -/

def names (l : List (Text × Int)) : List Text := (l.map Prod.fst).eraseDups

/-- A device's counter. -/
def valueOf (l : List (Text × Int)) (name : Text) : Int := sumOf (l.filter fun d => decide (d.1 = name))

/-- The devices that both samples have. -/
def common (before now : List (Text × Int)) : List Text :=
  (names now).filter fun name => decide (name ∈ before.map Prod.fst)

/-- What the counters of these devices went up. -/
def increase (before now : List (Text × Int)) : Int :=
  ((common before now).map fun name => valueOf now name - valueOf before name).sum

/-- The counters of the devices that one sample has and the other has not. -/
def alone (l other : List (Text × Int)) : Int :=
  sumOf (l.filter fun d => !decide (d.1 ∈ other.map Prod.fst))

/-- The sum over the devices of a list that names them all is the sum over the lines. -/
theorem sum_valueOf {list : List Text} (hnodup : list.Nodup) (l : List (Text × Int)) :
    (list.map (valueOf l)).sum = sumOf (l.filter fun d => decide (d.1 ∈ list)) := by
  induction list with
  | nil =>
    simp [sumOf]
  | cons name list ih =>
    obtain ⟨hnew, hrest⟩ := List.nodup_cons.mp hnodup
    rw [List.map_cons, List.sum_cons, ih hrest]
    clear ih
    induction l with
    | nil => rfl
    | cons d l ih =>
      simp only [valueOf, sumOf] at ih ⊢
      by_cases hname : d.1 = name
      · have hout : d.1 ∉ list := hname ▸ hnew
        simp [hname, hnew] at ih ⊢
        omega
      · by_cases hin : d.1 ∈ list
        · simp [hname, hin] at ih ⊢
          omega
        · simp [hname, hin] at ih ⊢
          omega

theorem sumOf_filter (p : Text × Int → Bool) (l : List (Text × Int)) :
    sumOf l = sumOf (l.filter p) + sumOf (l.filter fun d => !p d) := by
  induction l with
  | nil => rfl
  | cons d l ih =>
    simp only [sumOf] at ih ⊢
    by_cases hp : p d = true
    · simp [hp] at ih ⊢
      omega
    · simp [hp] at ih ⊢
      omega

theorem sum_map_sub (f g : Text → Int) (list : List Text) :
    (list.map fun name => f name - g name).sum = (list.map f).sum - (list.map g).sum := by
  induction list with
  | nil => rfl
  | cons name list ih =>
    simp only [List.map_cons, List.sum_cons, ih]
    omega

theorem mem_names {name : Text} : name ∈ names l ↔ name ∈ l.map Prod.fst := List.mem_eraseDups

theorem nodup_common (before now : List (Text × Int)) : (common before now).Nodup :=
  (nodup_eraseDups _).filter _

theorem mem_common {name : Text} :
    name ∈ common before now ↔ name ∈ now.map Prod.fst ∧ name ∈ before.map Prod.fst := by
  rw [common, List.mem_filter, mem_names, decide_eq_true_eq]

/-- The sums differ by what the common devices moved, what appeared, and what is gone. -/
theorem sumOf_sub (before now : List (Text × Int)) :
    sumOf now - sumOf before = increase before now + alone now before - alone before now := by
  have hnow := sumOf_filter (fun d => decide (d.1 ∈ before.map Prod.fst)) now
  have hbefore := sumOf_filter (fun d => decide (d.1 ∈ now.map Prod.fst)) before
  have hcommonNow : ((common before now).map (valueOf now)).sum =
      sumOf (now.filter fun d => decide (d.1 ∈ before.map Prod.fst)) := by
    rw [sum_valueOf (nodup_common before now)]
    refine congrArg sumOf (List.filter_congr fun d hd => ?_)
    have hmem : d.1 ∈ now.map Prod.fst := List.mem_map_of_mem hd
    simp only [mem_common, hmem, true_and]
  have hcommonBefore : ((common before now).map (valueOf before)).sum =
      sumOf (before.filter fun d => decide (d.1 ∈ now.map Prod.fst)) := by
    rw [sum_valueOf (nodup_common before now)]
    refine congrArg sumOf (List.filter_congr fun d hd => ?_)
    have hmem : d.1 ∈ before.map Prod.fst := List.mem_map_of_mem hd
    simp only [mem_common, hmem, and_true]
  rw [increase, sum_map_sub, hcommonNow, hcommonBefore, alone, alone]
  omega

/-! ### Runs -/

inductive Event where
  | configure (collectors : CollectorSettings)
  | reset
  | begun
  | answered (t : Nat) (answer : SystemMetricsService.Answer)
  | failed

/-- The service, and beside it the sections of its previous sample and the collectors that were
switched on since. -/
structure World where
  service : SystemMetricsService
  sections : OrderedMap Text Text
  switched : Counter → Bool

def start : World := ⟨.new, .empty, fun _ => false⟩

/-- The sample at its end: a run is over, and if its answer counts, it is the previous sample now. -/
def World.answered (w : World) (t : Nat) (answer : SystemMetricsService.Answer) : World :=
  let ended : SystemMetricsService := { w.service with running := none }
  match w.service.answered answer with
  | none => { w with service := ended }
  | some sec => ⟨ended.record t sec, sec, fun _ => false⟩

def step (w : World) : Event → World
  | .configure collectors => {
    w with
    service := w.service.configure collectors
    switched c := w.switched c || (!w.service.collectors.collects c && collectors.collects c) }
  | .reset => { w with service := w.service.reset }
  | .begun => {
    w with
    service := {
      w.service with
      running := some (w.service.running.getD (w.service.collectors, w.service.collectorsRevision)) } }
  | .answered t answer => w.answered t answer
  | .failed => { w with service := { w.service with running := none } }

/-- The times go up, and a device that stays never counts down. -/
def Steady (w : World) : Event → Prop
  | .answered t answer => ∀ prev ∈ w.service.prev, ∀ sec ∈ w.service.answered answer, prev.t < t ∧
    ∀ c : Counter, ∀ name ∈ common (c.devices w.sections) (c.devices sec),
      valueOf (c.devices w.sections) name ≤ valueOf (c.devices sec) name
  | _ => True

/-- The counters of devices that appear are at most those of devices that are gone, where the rate is
not suppressed. -/
def Covered (w : World) : Event → Prop
  | .answered _ answer => w.service.prev ≠ none → ∀ sec ∈ w.service.answered answer, ∀ c : Counter,
    w.service.suppresses c = true ∨
      alone (c.devices sec) (c.devices w.sections) ≤ alone (c.devices w.sections) (c.devices sec)
  | _ => True

instance decidableSteady (w : World) (event : Event) : Decidable (Steady w event) := by
  cases event <;> (unfold Steady; infer_instance)

instance decidableCovered (w : World) (event : Event) : Decidable (Covered w event) := by
  cases event <;> (unfold Covered; infer_instance)

/-- No rate of the snapshot is invented. -/
structure Honest (w : World) (prev : RawSample) (sec : OrderedMap Text Text) (snap : SystemSnapshot)
    (c : Counter) : Prop where
  bounded : snap.rate c * (((snap.t : ℚ) - prev.t) / 1000) ≤
    increase (c.devices w.sections) (c.devices sec)
  switched : w.switched c = true → snap.rate c = 0
  missing : w.sections.has c.section = false → snap.rate c = 0

/-- What the event emits is honest. -/
def EmitsHonest (w : World) : Event → Prop
  | .answered t answer => ∀ prev ∈ w.service.prev, ∀ sec ∈ w.service.answered answer,
    ∀ snap ∈ w.service.emitted t sec, ∀ c, Honest w prev sec snap c
  | _ => True

/-! ### One sample -/

theorem netDevices_missing {sec : OrderedMap Text Text} (h : sec.get? (js "NET") = none) (i : Nat) :
    netDevices sec i = [] := by
  rw [netDevices, lines, h]
  rfl

theorem diskDevices_missing {sec : OrderedMap Text Text} (h : sec.get? (js "DISK") = none) (i : Nat) :
    diskDevices sec i = [] := by
  rw [diskDevices, lines, h]
  rfl

/-- A section that is not there has no device. -/
theorem devices_missing {sec : OrderedMap Text Text} {c : Counter} (h : sec.has c.section = false) :
    c.devices sec = [] := by
  rw [OrderedMap.has, Option.isSome_eq_false_iff, Option.isNone_iff_eq_none] at h
  cases c with
  | netRx => exact netDevices_missing h 0
  | netTx => exact netDevices_missing h 8
  | diskRead => exact diskDevices_missing h 5
  | diskWrite => exact diskDevices_missing h 9

theorem bytes_rawSample (t : Nat) (sec : OrderedMap Text Text) (c : Counter) :
    (SystemMetricsService.rawSample t sec).bytes c = sumOf (c.devices sec) := by
  cases c <;> rfl

theorem rate_snapshot (s : SystemMetricsService) (prev raw : RawSample) (c : Counter) :
    (s.snapshot prev raw).rate c = SystemMetricsService.rate (s.suppresses c) (prev.bytes c)
      (raw.bytes c) (SystemMetricsService.dt prev raw) := by
  cases c <;> rfl

/-- In milliseconds that go up, the time that the rate is over is the time that has passed. -/
theorem dt_eq {prev raw : RawSample} (h : prev.t < raw.t) :
    SystemMetricsService.dt prev raw = ((raw.t : ℚ) - prev.t) / 1000 ∧
      0 < ((raw.t : ℚ) - prev.t) / 1000 := by
  have hone : (prev.t : ℚ) + 1 ≤ raw.t := by exact_mod_cast h
  have hle : (1 : ℚ) / 1000 ≤ ((raw.t : ℚ) - prev.t) / 1000 := by
    rw [div_le_div_iff_of_pos_right (by norm_num)]
    linarith
  exact ⟨max_eq_left hle, lt_of_lt_of_le (by norm_num) hle⟩

/-- A rate that is not suppressed, times the time, is what the sums went up. -/
theorem rate_mul (before now : Int) {dt : ℚ} (h : 0 < dt) :
    SystemMetricsService.rate false before now dt * dt = ((max 0 (now - before) : Int) : ℚ) := by
  have hmul : max 0 (((now : ℚ) - before) / dt) * dt = max (0 * dt) (((now : ℚ) - before) / dt * dt) :=
    max_mul_of_nonneg _ _ (le_of_lt h)
  rw [SystemMetricsService.rate]
  simp only [Bool.false_eq_true, if_false]
  rw [hmul, zero_mul, div_mul_cancel₀ _ (ne_of_gt h)]
  push_cast
  rfl

theorem increase_nonneg {before now : List (Text × Int)}
    (h : ∀ name ∈ common before now, valueOf before name ≤ valueOf now name) :
    0 ≤ increase before now := by
  rw [increase]
  refine List.sum_nonneg fun n hn => ?_
  obtain ⟨name, hname, rfl⟩ := List.mem_map.mp hn
  have := h name hname
  omega

/-- The rate of one counter is honest exactly if it is suppressed or what appeared is covered by what
is gone. -/
theorem honest_iff {w : World} {prev : RawSample} {sec : OrderedMap Text Text} {c : Counter}
    (hprev : prev.bytes c = sumOf (c.devices w.sections)) (ht : prev.t < t)
    (hsteady : ∀ name ∈ common (c.devices w.sections) (c.devices sec),
      valueOf (c.devices w.sections) name ≤ valueOf (c.devices sec) name)
    (hswitched : w.switched c = true → w.service.suppresses c = true) :
    Honest w prev sec (w.service.snapshot prev (SystemMetricsService.rawSample t sec)) c ↔
      (w.service.suppresses c = true ∨
        alone (c.devices sec) (c.devices w.sections) ≤ alone (c.devices w.sections) (c.devices sec)) := by
  have hincrease := increase_nonneg hsteady
  have hrate := rate_snapshot w.service prev (SystemMetricsService.rawSample t sec) c
  have hlater : prev.t < (SystemMetricsService.rawSample t sec).t := ht
  obtain ⟨hdt, hpos⟩ := dt_eq hlater
  rw [hprev, bytes_rawSample, hdt] at hrate
  cases hsuppressed : w.service.suppresses c with
  | true =>
    rw [hsuppressed] at hrate
    have hzero : (w.service.snapshot prev (SystemMetricsService.rawSample t sec)).rate c = 0 := hrate
    refine iff_of_true ⟨?_, fun _ => hzero, fun _ => hzero⟩ (.inl rfl)
    rw [hzero, zero_mul]
    exact_mod_cast hincrease
  | false =>
    rw [hsuppressed] at hrate
    have hmul := rate_mul (sumOf (c.devices w.sections)) (sumOf (c.devices sec)) hpos
    rw [← hrate] at hmul
    have hsub := sumOf_sub (c.devices w.sections) (c.devices sec)
    have hbounded : (w.service.snapshot prev (SystemMetricsService.rawSample t sec)).rate c *
        (((SystemMetricsService.rawSample t sec).t - prev.t : ℚ) / 1000) ≤
          increase (c.devices w.sections) (c.devices sec) ↔
        alone (c.devices sec) (c.devices w.sections) ≤
          alone (c.devices w.sections) (c.devices sec) := by
      rw [hmul, Int.cast_le, max_le_iff]
      omega
    constructor
    · exact fun h => .inr (hbounded.mp h.bounded)
    · rintro (hcontra | hcovered)
      · cases hcontra
      · refine ⟨hbounded.mpr hcovered, fun hsw => ?_, fun hmissing => ?_⟩
        · rw [hswitched hsw] at hsuppressed
          cases hsuppressed
        · have hbefore := devices_missing hmissing
          rw [hbefore] at hcovered hsub
          have hnone : sumOf (c.devices sec) ≤ 0 := by
            have hno : increase [] (c.devices sec) = 0 := by
              have hcommon : common [] (c.devices sec) = [] := by
                rw [common, List.filter_eq_nil_iff]
                simp
              rw [increase, hcommon]
              rfl
            have hgone : alone [] (c.devices sec) = 0 := rfl
            have hempty : sumOf [] = 0 := rfl
            omega
          have hempty : sumOf (c.devices w.sections) = 0 := by rw [hbefore]; rfl
          have hmax : max 0 (sumOf (c.devices sec) - sumOf (c.devices w.sections)) = 0 := by
            rw [hempty]
            omega
          rw [hmax, Int.cast_zero] at hmul
          exact (mul_eq_zero.mp hmul).resolve_right (ne_of_gt hpos)

/-! ### Runs -/

/-- The previous sample is that of the sections; a collector that was switched on since has its rate
suppressed. -/
structure Inv (w : World) : Prop where
  bytes : ∀ prev ∈ w.service.prev, ∀ c, prev.bytes c = sumOf (Counter.devices w.sections c)
  switched : ∀ c, w.service.prev ≠ none → w.switched c = true → w.service.suppresses c = true

theorem inv_step (w : World) (event : Event) (h : Inv w) : Inv (step w event) := by
  cases event with
  | configure collectors =>
    refine ⟨h.bytes, fun c hprev hsw => ?_⟩
    have hold := h.switched c hprev
    cases c <;>
      simp only [step, SystemMetricsService.configure, SystemMetricsService.suppresses,
        CollectorSettings.collects, Bool.or_eq_true] at hold hsw ⊢ <;>
      exact hsw.imp_left hold
  | reset => exact ⟨fun prev hprev => (by cases hprev), fun c hprev => absurd rfl hprev⟩
  | begun => exact ⟨h.bytes, h.switched⟩
  | answered t answer =>
    rw [step, World.answered]
    dsimp only
    split
    · exact ⟨h.bytes, h.switched⟩
    · refine ⟨fun prev hprev c => ?_, fun c _ hsw => (by cases hsw)⟩
      cases hprev
      exact bytes_rawSample _ _ c
  | failed => exact ⟨h.bytes, h.switched⟩

theorem inv_run (events : List Event) : Inv (run step start events) :=
  List.foldlRecOn events step ⟨fun prev hprev => (by cases hprev), fun c hprev => absurd rfl hprev⟩
    fun w hw event _ => inv_step w event hw

theorem covered_iff {w : World} {event : Event} (h : Inv w) (hsteady : Steady w event) :
    Covered w event ↔ EmitsHonest w event := by
  cases event with
  | answered t answer =>
    rw [Covered, EmitsHonest]
    constructor
    · intro hcovered prev hprev sec hsec snap hsnap c
      obtain ⟨ht, hcounters⟩ := hsteady prev hprev sec hsec
      have hne : w.service.prev ≠ none := by
        rw [Option.mem_def.mp hprev]
        exact Option.some_ne_none _
      rw [SystemMetricsService.emitted, Option.mem_def.mp hprev] at hsnap
      cases hsnap
      exact (honest_iff (h.bytes prev hprev c) ht (hcounters c) (h.switched c hne)).mpr
        (hcovered hne sec hsec c)
    · intro hhonest hne sec hsec c
      obtain ⟨prev, hprev⟩ := Option.ne_none_iff_exists'.mp hne
      obtain ⟨ht, hcounters⟩ := hsteady prev hprev sec hsec
      have hsnap : w.service.snapshot prev (SystemMetricsService.rawSample t sec) ∈
          w.service.emitted t sec := by
        rw [SystemMetricsService.emitted, hprev]
        rfl
      exact (honest_iff (h.bytes prev hprev c) ht (hcounters c) (h.switched c hne)).mp
        (hhonest prev hprev sec hsec _ hsnap c)
  | _ => exact Iff.rfl

/-- In a run in which times go up and no device that stays counts down, every rate is bounded by what
the devices of both samples moved, and is 0 behind a sample without the section and behind a
collector's switch, exactly if at each sample what appears is covered by what is gone. -/
theorem rates_not_invented_iff {events : List Event} (hsteady : Guarded step Steady start events) :
    Guarded step Covered start events ↔
      ∀ before event more, before ++ event :: more = events →
        EmitsHonest (run step start before) event := by
  rw [guarded_iff] at hsteady ⊢
  constructor
  · intro h before event more hsplit
    exact (covered_iff (inv_run before) (hsteady before event more hsplit)).mp
      (h before event more hsplit)
  · intro h before event more hsplit
    exact (covered_iff (inv_run before) (hsteady before event more hsplit)).mpr
      (h before event more hsplit)

/-- What a target answers over a command. -/
def printed (text : String) : SystemMetricsService.Answer := ⟨none, 0, js text⟩

/-- `eth0` stands still, and `tun0` comes with 5000 bytes behind it. -/
def interfaceComes : List Event :=
  [.begun, .answered 1000 (printed "===NET===\neth0: 100 0 0 0 0 0 0 0 200\n"),
    .begun, .answered 2000 (printed "===NET===\neth0: 100 0 0 0 0 0 0 0 200\ntun0: 5000\n")]

/-- A run in which both samples have `eth0`, and only that: it moves 60 bytes. -/
def interfaceStays : List Event :=
  [.begun, .answered 1000 (printed "===NET===\neth0: 100 0 0 0 0 0 0 0 200\n"),
    .begun, .answered 2000 (printed "===NET===\neth0: 160 0 0 0 0 0 0 0 200\n")]

theorem rates_of_one_interface :
    EmitsHonest (run step start (interfaceStays.take 3)) (interfaceStays.getD 3 .reset) := by
  have hsteady : Guarded step Steady start interfaceStays := by decide +kernel
  have hcovered : Guarded step Covered start interfaceStays := by decide +kernel
  exact (rates_not_invented_iff hsteady).mp hcovered _ _ [] rfl

/-- Nothing moved on the interface that both samples have, and the rate is 5000 bytes a second. -/
theorem interface_counts_in_full :
    Guarded step Steady start interfaceComes ∧
      ¬EmitsHonest (run step start (interfaceComes.take 3)) (interfaceComes.getD 3 .reset) := by
  refine ⟨by decide +kernel, fun h => ?_⟩
  have hbounded := (h _ rfl _ rfl _ rfl .netRx).bounded
  revert hbounded
  decide +kernel

end BoredManager.Server.Metrics
