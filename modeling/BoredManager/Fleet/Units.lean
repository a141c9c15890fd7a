import BoredManager.Fleet.Config
import BoredManager.Fleet.Fanout
import BoredManager.Js.Blanks
import BoredManager.Shared.Sections

/-! The sweep script on a monitored machine, and the parsers for what it says back. -/
namespace BoredManager.Fleet.Units
open BoredManager.Js BoredManager.Shared

structure UnitState where
  unit : Text
  load : Text
  active : Text
  sub : Text
  fileState : Text
  description : Text
deriving DecidableEq

structure HostFacts where
  hostname : Text
  os : Text
  systemd : Bool
  uid : Option Int
  pkg : Text
  kernel : Text
  uptimeSec : Int
  sudoNoPassword : Bool
  units : List UnitState
  watched : List UnitState
  truncated : Bool

inductive UnitScope where
  | watched | running | all
deriving DecidableEq

/-- The rules that a sweep reads, within the bounds that a check accepts. -/
structure SweepRules where
  unitScope : UnitScope
  maxUnitsPerHost : Nat
  min_le : 10 ≤ maxUnitsPerHost
  le_max : maxUnitsPerHost ≤ 500

/-! ### The parsers -/

/-- `line.trim().split(/\s+/)` -/
def words (line : Text) : List Text := splitRuns isSpace (trim line)

/-- One line of an ID section. -/
def property (line : Text) : Option (Text × Text) :=
  match line.dropWhile (· ≠ 61) with
  | [] => none
  | _ :: rest =>
    let key := line.takeWhile (· ≠ 61)
    if key = [] then none else some (trim key, trim rest)

def parseIdSection (text : Text) : OrderedMap Text Text :=
  .ofList ((text.splitOn 10).filterMap property)

/-- The loop of `parseListUnits`, with the units so far. -/
def readUnits (cap : Nat) : List UnitState → List Text → List UnitState × Bool
  | units, [] => (units, false)
  | units, raw :: rest =>
    if trim raw = [] then readUnits cap units rest
    else match words raw with
      | unit :: load :: active :: sub :: more =>
        if cap ≤ units.length then (units, true)
        else readUnits cap (units ++ [⟨unit, load, active, sub, [], join [32] more⟩]) rest
      | _ => readUnits cap units rest

/-- `UNIT LOAD ACTIVE SUB DESCRIPTION`, the last one with spaces in it. -/
def parseListUnits (text : Text) (cap : Nat) : List UnitState × Bool :=
  readUnits cap [] (text.splitOn 10)

/-- Behind a line feed: what stands behind the last line feed of the blanks that follow. -/
def afterBlankLines (s : Text) : Option Text :=
  let run := s.takeWhile isSpace
  if 10 ∈ run then
    some ((run.reverse.takeWhile (· ≠ 10)).reverse ++ s.dropWhile isSpace)
  else none

def splitBlocksFrom : Nat → Text → List Text
  | 0, s => [s]
  | _ + 1, [] => [[]]
  | fuel + 1, u :: s =>
    match (if u = 10 then afterBlankLines s else none) with
    | some rest => [] :: splitBlocksFrom fuel rest
    | none => (splitBlocksFrom fuel s).modifyHead (u :: ·)

/-- `text.split(/\n\s*\n/)` -/
def splitBlocks (text : Text) : List Text := splitBlocksFrom text.length text

def blockState (block : Text) : Option UnitState :=
  let props := parseIdSection block
  let said (name : String) : Text := (props.get? (js name)).getD []
  if said "Id" = [] then none
  else some ⟨said "Id", said "LoadState", said "ActiveState", said "SubState", said "UnitFileState",
    said "Description"⟩

/-- `systemctl show` prints one block per unit, blocks split by a blank line. -/
def parseShow (text : Text) : List UnitState := (splitBlocks text).filterMap blockState

def parseSweep (stdout : Text) (cap : Nat) : HostFacts :=
  let sections := splitSections stdout
  let id := parseIdSection ((sections.get? (js "ID")).getD [])
  let said (name : String) : Text := (id.get? (js name)).getD []
  let listed := parseListUnits ((sections.get? (js "UNITS")).getD []) cap
  { hostname := said "host"
    os := said "os"
    systemd := said "init" = js "systemd"
    uid := parseInt (said "uid")
    pkg := said "pkg"
    kernel := said "kernel"
    uptimeSec := ((Number.parseFloat (said "uptime")).finite?.map Number.truncRat).getD 0
    sudoNoPassword := said "sudo" = js "yes"
    units := listed.1
    watched := parseShow ((sections.get? (js "WATCHED")).getD [])
    truncated := listed.2 }

/-! ### The machine -/

/-- A word of a listing. -/
structure Word where
  text : Text
  ne_nil : text ≠ []
  solid : ∀ u ∈ text, isSpace u = false

/-- Blanks on one line. -/
def IsGap (gap : Text) : Prop := ∀ u ∈ gap, isSpace u = true ∧ u ≠ 10

instance (gap : Text) : Decidable (IsGap gap) := inferInstanceAs (Decidable (∀ _ ∈ _, _))

/-- A line of `systemctl list-units`: four columns, and behind them the description. -/
structure ListedUnit where
  unit : Word
  load : Word
  active : Word
  sub : Word
  indent : Text
  gaps : Text × Text × Text
  tail : Text
  indent_gap : IsGap indent
  gaps_gap : IsGap gaps.1 ∧ IsGap gaps.2.1 ∧ IsGap gaps.2.2
  gaps_ne_nil : gaps.1 ≠ [] ∧ gaps.2.1 ≠ [] ∧ gaps.2.2 ≠ []
  tail_blank : ∀ u ∈ tail.head?, isSpace u = true
  tail_line : 10 ∉ tail

def ListedUnit.line (u : ListedUnit) : Text :=
  u.indent ++ (u.unit.text ++ (u.gaps.1 ++ (u.load.text ++ (u.gaps.2.1 ++ (u.active.text ++
    (u.gaps.2.2 ++ (u.sub.text ++ u.tail)))))))

/-- A block of `systemctl show`: `Key=Value` lines, among them the unit's name. -/
structure ShownUnit where
  props : List (Text × Text)
  keys_nodup : (props.map Prod.fst).Nodup
  keys : ∀ p ∈ props, p.1 ≠ [] ∧ ∀ u ∈ p.1, isUpper u = true ∨ isLower u = true
  values : ∀ p ∈ props, 10 ∉ p.2
  id : Text
  id_mem : (js "Id", id) ∈ props
  id_ne_nil : trim id ≠ []

def ShownUnit.lines (u : ShownUnit) : List Text := u.props.map fun p => p.1 ++ 61 :: p.2

/-- What a block says of a property. -/
def ShownUnit.said (u : ShownUnit) (name : String) : Text :=
  ((u.props.find? fun p => decide (p.1 = js name)).map fun p => trim p.2).getD []

/-- The state that a block states. -/
def ShownUnit.state (u : ShownUnit) : UnitState :=
  ⟨u.said "Id", u.said "LoadState", u.said "ActiveState", u.said "SubState", u.said "UnitFileState",
    u.said "Description"⟩

/-- A monitored machine: what its commands answer. -/
structure Machine where
  hostname : Text
  os : Text
  systemd : Bool
  uid : Text
  kernel : Text
  uptime : Text
  pkg : Option Text
  noPassword : Bool
  list : UnitScope → List ListedUnit
  shows : Text → ShownUnit
  one_line : ∀ line ∈ [hostname, os, uid, kernel, uptime] ++ pkg.toList, 10 ∉ line

def Machine.idLines (m : Machine) : List Text :=
  [js "host=" ++ m.hostname, js "os=" ++ m.os,
    js "init=" ++ (if m.systemd then js "systemd" else js "other"), js "uid=" ++ m.uid,
    js "kernel=" ++ m.kernel, js "uptime=" ++ m.uptime] ++ (m.pkg.map (js "pkg=" ++ ·)).toList ++
    [js "sudo=" ++ (if m.noPassword then js "yes" else js "no")]

/-- The units that a sweep asks `list-units` for. -/
def Machine.listed (m : Machine) (scope : UnitScope) : List ListedUnit :=
  if scope = .watched then [] else m.list scope

/-- `[...new Set(watched.map((w) => w.unit).filter(isValidUnit))]` -/
def watchedNames (watched : List Config.WatchedUnit) : List Text :=
  ((watched.map (·.unit)).filter Config.isValidUnit).eraseDups

/-- `head -n` of a listing. -/
def headCount (rules : SweepRules) : Nat := max 10 rules.maxUnitsPerHost

/-- The lines that the script of `sweepPayload` prints on a machine. -/
def Machine.sweepLines (m : Machine) (watched : List Config.WatchedUnit) (rules : SweepRules) :
    List Text :=
  [js "===ID==="] ++ m.idLines ++
  (if rules.unitScope = .watched then []
    else [js "===UNITS==="] ++ ((m.list rules.unitScope).map ListedUnit.line).take (headCount rules)) ++
  (if watchedNames watched = [] then []
    else [js "===WATCHED==="] ++
      [[]].intercalate ((watchedNames watched).map fun unit => (m.shows unit).lines)) ++
  [js "===END==="]

def Machine.sweep (m : Machine) (watched : List Config.WatchedUnit) (rules : SweepRules) : Text :=
  (m.sweepLines watched rules).flatMap echo

/-! ### What a sweep owes the reader -/

/-- The columns of a listing. -/
def UnitState.columns (u : UnitState) : Text × Text × Text × Text := (u.unit, u.load, u.active, u.sub)

def ListedUnit.columns (u : ListedUnit) : Text × Text × Text × Text :=
  (u.unit.text, u.load.text, u.active.text, u.sub.text)

/-- The facts hold the first units up to the cap and the blocks of the watched ones, and say when a
listed unit is missing. -/
structure SaysSo (m : Machine) (watched : List Config.WatchedUnit) (rules : SweepRules)
    (facts : HostFacts) : Prop where
  units : facts.units.map UnitState.columns =
    ((m.listed rules.unitScope).take rules.maxUnitsPerHost).map ListedUnit.columns
  watched : facts.watched = (watchedNames watched).map fun unit => (m.shows unit).state
  truncated : facts.truncated = true ↔ facts.units.length < (m.listed rules.unitScope).length

end BoredManager.Fleet.Units
