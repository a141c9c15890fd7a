import BoredManager.Fleet.Net
import BoredManager.Machine.Keyed
import BoredManager.Shared.Check

/-! The config document of the fleet module: what the user typed, read defensively, and the two
editors of it. Each connected machine has editors and a cache of its own. -/
namespace BoredManager.Fleet.Config
open BoredManager.Js BoredManager.Shared BoredManager.Machine BoredManager.Fleet.Net

inductive AuthMode where
  | agent | key | password
deriving DecidableEq

inductive SudoMode where
  | none | sudoN | sudoPassword
deriving DecidableEq

structure TargetRule where
  id : Text
  kind : TargetKind
  value : Text
  label : Option Text
  enabled : Bool
  port : Int
  username : Text
  auth : AuthMode
  keyPath : Option Text
  password : Option Text
  sudoMode : SudoMode
  sudoPassword : Option Text
  excludes : List Text
  createdAt : Int
deriving DecidableEq

structure WatchedUnit where
  id : Text
  unit : Text
  label : Option Text
  critical : Bool
  packages : Option Text
  installCommand : Option Text
  enableOnInstall : Bool
  startOnInstall : Bool
  appliesTo : Option Text
deriving DecidableEq

structure FleetConfig where
  targets : List TargetRule
  watched : List WatchedUnit
deriving DecidableEq

def MAX_TARGETS : Nat := 200
def MAX_WATCHED : Nat := 100

def emptyConfig : FleetConfig := ⟨[], []⟩

/-! ### Reading the document -/

/-- `text || undefined` -/
def orUndefined (text : Text) : Option Text := if text = [] then none else some text

def keptText (value : Option Text) : Option Text := value.bind orUndefined

def asPort (port : Int) : Int := if 0 < port ∧ port < 65536 then port else 22

def unitSuffixes : List Text := [js ".service", js ".socket", js ".timer", js ".target", js ".path",
  js ".mount", js ".slice", js ".scope"]

def hasUnitSuffix (name : Text) : Bool := unitSuffixes.any fun suffix => suffix.isSuffixOf name

def normalizeUnit (raw : Text) : Text :=
  let name := trim raw
  if name = [] then []
  else if hasUnitSuffix name then name
  else name ++ js ".service"

def TargetRule.read (t : TargetRule) : Option TargetRule :=
  if t.id = [] ∨ trim t.value = [] then none
  else some { t with
    value := trim t.value
    label := keptText t.label
    port := asPort t.port
    keyPath := keptText t.keyPath
    password := keptText t.password
    sudoPassword := keptText t.sudoPassword
    excludes := t.excludes.filter fun ip => (ipToInt ip).isSome }

def WatchedUnit.read (w : WatchedUnit) : Option WatchedUnit :=
  if w.id = [] ∨ normalizeUnit w.unit = [] then none
  else some { w with
    unit := normalizeUnit w.unit
    label := keptText w.label
    packages := keptText w.packages
    installCommand := keptText w.installCommand
    appliesTo := keptText w.appliesTo }

def normalize (config : FleetConfig) : FleetConfig := {
  targets := readBack TargetRule.id TargetRule.read MAX_TARGETS [] config.targets
  watched := readBack WatchedUnit.id WatchedUnit.read MAX_WATCHED [] config.watched }

/-- The first free id of fifty draws, else one by the clock. -/
def makeId (start : Text) (taken : List Text) (draws : List Text) (clock : Text) : Text :=
  (((draws.take 50).map fun draw => start ++ 95 :: draw).find? fun id =>
    decide (id ∉ taken)).getD (start ++ 95 :: clock)

/-! ### The checks -/

/-- `splitList`: the parts between blanks, commas and semicolons. -/
def splitList (raw : Text) : List Text :=
  (raw.splitOnP fun u => isSpace u || u == 44 || u == 59).filter (· ≠ [])

/-- The form of a target: its texts, the number of its port field, which is 22 for an empty one,
and the tick box. -/
structure TargetForm where
  kind : Text
  value : Text
  label : Text
  username : Text
  auth : Text
  sudoMode : Text
  keyPath : Text
  password : Text
  sudoPassword : Text
  excludes : Text
  port : Option Int
  enabled : Bool
deriving DecidableEq

/-- What a check reads beside the document: the largest range, whether the machine has `sshpass`,
and the draws and clock readings for a new rule. -/
structure Surroundings where
  maxHosts : Int
  sshpass : Bool
  draws : List Text
  clock : Text
  now : Int
deriving DecidableEq

def asKind (value : Text) : TargetKind :=
  if value = js "cidr" then .cidr else if value = js "range" then .range else .host

def asAuth (value : Text) : AuthMode :=
  if value = js "key" then .key else if value = js "password" then .password else .agent

def asSudo (value : Text) : SudoMode :=
  if value = js "sudo-n" then .sudoN else if value = js "sudo-password" then .sudoPassword else .none

/-- `/^[A-Za-z0-9._-]{1,64}$/` -/
def isUserName (name : Text) : Bool :=
  decide (0 < name.length) && decide (name.length ≤ 64) &&
    name.all fun u => isDigit u || isLower u || isUpper u || u == 46 || u == 95 || u == 45

/-- `password || existing?.password` -/
def keptPassword (typed : Text) (stored : Option Text) : Option Text :=
  (orUndefined typed).or (keptText stored)

namespace TargetForm
variable (form : TargetForm) (env : Surroundings) (existing : Option TargetRule)

def user : Text := if trim form.username = [] then js "root" else trim form.username

def secret : Option Text := keptPassword (trim form.password) (existing.bind TargetRule.password)

def sudoSecret : Option Text :=
  keptPassword (trim form.sudoPassword) (existing.bind TargetRule.sudoPassword)

def excluded : List Text := splitList (trim form.excludes)

/-- The findings that block, in the order of the source. -/
def blocked : Bool :=
  let value := trim form.value
  let listed := enumerateRule (asKind (trim form.kind)) value env.maxHosts
  let auth := asAuth (trim form.auth)
  decide (value = []) || listed.problem.isSome ||
    form.port.all (fun port => decide (port < 1 ∨ 65535 < port)) ||
    !isUserName form.user || decide (env.maxHosts < listed.total) ||
    (auth == .key && decide (trim form.keyPath = [])) ||
    (auth == .password && (form.secret existing).isNone) ||
    (auth == .password && !env.sshpass) ||
    (asSudo (trim form.sudoMode) == .sudoPassword && (form.sudoSecret existing).isNone) ||
    form.excluded.any fun ip => (ipToInt ip).isNone

def rule (taken : List Text) : TargetRule := {
  id := (existing.map TargetRule.id).getD (makeId (js "t") taken env.draws env.clock)
  kind := asKind (trim form.kind)
  value := trim form.value
  label := orUndefined (trim form.label)
  enabled := form.enabled
  port := form.port.getD 22
  username := form.user
  auth := asAuth (trim form.auth)
  keyPath := orUndefined (trim form.keyPath)
  password := form.secret existing
  sudoMode := asSudo (trim form.sudoMode)
  sudoPassword := form.sudoSecret existing
  excludes := form.excluded
  createdAt := (existing.map TargetRule.createdAt).getD env.now }

end TargetForm

/-- What the check resolved; `editing` is none when this is a new rule. -/
structure TargetPlan where
  rule : TargetRule
  editing : Option Text
deriving DecidableEq

/-- The entry that a check edits: none for a new one, an error where it is gone. -/
def editedEntry {α : Type} (id : α → Text) (editing : Option Text) (entries : List α) :
    Option (Option α) :=
  match editing.bind orUndefined with
  | none => some none
  | some key => (entries.find? fun e => decide (id e = key)).map some

def FleetConfig.checkTarget (config : FleetConfig) (editing : Option Text) (form : TargetForm)
    (env : Surroundings) : Option TargetPlan :=
  match editedEntry TargetRule.id editing config.targets with
  | none => none
  | some existing =>
    if form.blocked env existing then none
    else some ⟨form.rule env existing (config.targets.map TargetRule.id), editing⟩

structure WatchedForm where
  unit : Text
  label : Text
  severity : Text
  packages : Text
  installCommand : Text
  appliesTo : Text
  enableOnInstall : Bool
  startOnInstall : Bool
deriving DecidableEq

/-- `UNIT_NAME_RE` and the length. -/
def isValidUnit (unit : Text) : Bool :=
  decide (unit.length ≤ 128) &&
    (unit.all fun u => isDigit u || isLower u || isUpper u || u == 64 || u == 58 || u == 95 ||
      u == 46 || u == 45) &&
    unitSuffixes.any fun suffix => suffix.isSuffixOf unit && decide (suffix.length < unit.length)

/-- `/https?:\/\//i` somewhere in the text. -/
def hasUrl (text : Text) : Bool :=
  (toLowerAscii text).tails.any fun rest =>
    (js "http://").isPrefixOf rest || (js "https://").isPrefixOf rest

/-- The payload of a watched unit's check: the source keeps `def` alone. -/
structure WatchedPlan where
  unit : WatchedUnit
  editing : Option Text
deriving DecidableEq

def WatchedForm.definition (form : WatchedForm) (id : Text) : WatchedUnit := {
  id
  unit := normalizeUnit (trim form.unit)
  label := orUndefined (trim form.label)
  critical := decide (trim form.severity = js "critical")
  packages := orUndefined (trim form.packages)
  installCommand := orUndefined (trim form.installCommand)
  enableOnInstall := form.enableOnInstall
  startOnInstall := form.startOnInstall
  appliesTo := orUndefined (trim form.appliesTo) }

def FleetConfig.checkWatched (config : FleetConfig) (editing : Option Text) (form : WatchedForm)
    (env : Surroundings) : Option WatchedPlan :=
  match editedEntry WatchedUnit.id editing config.watched with
  | none => none
  | some existing =>
    let unit := normalizeUnit (trim form.unit)
    let clash := config.watched.any fun e => decide (e.unit = unit) && decide (some e.id ≠ editing)
    if unit = [] || !isValidUnit unit || clash || hasUrl (trim form.installCommand) then none
    else some ⟨form.definition ((existing.map WatchedUnit.id).getD
      (makeId (js "w") (config.watched.map WatchedUnit.id) env.draws env.clock)), editing⟩

/-! ### The machines -/

/-- The module instance of a connected machine: its `ConfigStore` and its editors' sessions. -/
structure Instance where
  cache : Option FleetConfig
  targets : CheckSession TargetPlan
  watched : CheckSession WatchedPlan

/-- The document on disk and the instances, with the edits that succeeded, in order. -/
structure World (ι : Type*) where
  document : FleetConfig
  instances : ι → Instance
  targetEdits : List (Edit TargetRule Text)
  watchedEdits : List (Edit WatchedUnit Text)

def Instance.start : Instance := ⟨none, .createCheckSession, .createCheckSession⟩

def World.start {ι : Type*} : World ι := ⟨emptyConfig, fun _ => .start, [], []⟩

inductive Action where
  | checkTarget (editing : Option Text) (form : TargetForm) (env : Surroundings)
      (stamp : CheckSession.Issue Unit)
  | applyTarget (editing : Option Text) (token : Text) (values : Value) (now : Int)
  | deleteTarget (id : Text)
  | checkWatched (editing : Option Text) (form : WatchedForm) (env : Surroundings)
      (stamp : CheckSession.Issue Unit)
  | applyWatched (editing : Option Text) (token : Text) (values : Value) (now : Int)
  | deleteWatched (id : Text)
  | reset

/-- The call of `issue` for a payload. -/
def carrying {T : Type} (stamp : CheckSession.Issue Unit) (payload : T) : CheckSession.Issue T :=
  ⟨stamp.values, payload, stamp.sweptAt, stamp.namedAt, stamp.storedAt, stamp.random⟩

/-- The edit that a plan stands for. -/
def TargetPlan.edit (plan : TargetPlan) : Edit TargetRule Text :=
  if (plan.editing.bind orUndefined).isSome then .change plan.rule else .add plan.rule

def WatchedPlan.edit (plan : WatchedPlan) : Edit WatchedUnit Text :=
  if (plan.editing.bind orUndefined).isSome then .change plan.unit else .add plan.unit

namespace World
variable {ι : Type*} [DecidableEq ι]

/-- `ConfigStore.read` -/
def read (w : World ι) (i : ι) : FleetConfig := (w.instances i).cache.getD (normalize w.document)

def set (w : World ι) (i : ι) (inst : Instance) : World ι :=
  { w with instances := Function.update w.instances i inst }

/-- `ConfigStore.update`: the document is written through the instance's cache. -/
def update (w : World ι) (i : ι) (mutate : FleetConfig → FleetConfig) : World ι :=
  let config := mutate (w.read i)
  { w.set i { w.instances i with cache := some config } with document := config }

/-- A read leaves the cache filled. -/
def touch (w : World ι) (i : ι) : World ι :=
  w.set i { w.instances i with cache := some (w.read i) }

def checkTarget (w : World ι) (i : ι) (editing : Option Text) (form : TargetForm)
    (env : Surroundings) (stamp : CheckSession.Issue Unit) : World ι :=
  match (w.read i).checkTarget editing form env with
  | none => w.touch i
  | some plan => w.set i { w.instances i with
      cache := some (w.read i), targets := (w.instances i).targets.issue (carrying stamp plan) }

def applyTarget (w : World ι) (i : ι) (editing : Option Text) (token : Text) (values : Value)
    (now : Int) : World ι :=
  let taken := (w.instances i).targets.take token values now
  let spent := w.set i { w.instances i with targets := taken.1 }
  match taken.2 with
  | none => spent
  | some plan =>
    if plan.editing ≠ editing then spent
    else { spent.update i fun config =>
        { config with targets := putKeyed TargetRule.id plan.rule config.targets } with
      targetEdits := w.targetEdits ++ [plan.edit] }

def deleteTarget (w : World ι) (i : ι) (id : Text) : World ι :=
  let config := w.read i
  let deleted := w.update i fun config =>
    { config with targets := dropKey TargetRule.id id config.targets }
  if (dropKey TargetRule.id id config.targets).length = config.targets.length then deleted
  else { deleted with targetEdits := w.targetEdits ++ [.remove id] }

def checkWatched (w : World ι) (i : ι) (editing : Option Text) (form : WatchedForm)
    (env : Surroundings) (stamp : CheckSession.Issue Unit) : World ι :=
  match (w.read i).checkWatched editing form env with
  | none => w.touch i
  | some plan => w.set i { w.instances i with
      cache := some (w.read i), watched := (w.instances i).watched.issue (carrying stamp plan) }

def applyWatched (w : World ι) (i : ι) (editing : Option Text) (token : Text) (values : Value)
    (now : Int) : World ι :=
  let taken := (w.instances i).watched.take token values now
  let spent := w.set i { w.instances i with watched := taken.1 }
  match taken.2 with
  | none => spent
  | some plan =>
    if (editing.bind orUndefined).any fun id => decide (plan.unit.id ≠ id) then spent
    else { spent.update i fun config =>
        { config with watched := putKeyed WatchedUnit.id plan.unit config.watched } with
      watchedEdits := w.watchedEdits ++ [plan.edit] }

def deleteWatched (w : World ι) (i : ι) (id : Text) : World ι :=
  let config := w.read i
  let deleted := w.update i fun config =>
    { config with watched := dropKey WatchedUnit.id id config.watched }
  if (dropKey WatchedUnit.id id config.watched).length = config.watched.length then deleted
  else { deleted with watchedEdits := w.watchedEdits ++ [.remove id] }

/-- `config.reset()`, `targets.clear()`, `watched.clear()`. -/
def reset (w : World ι) (i : ι) : World ι :=
  w.set i ⟨none, (w.instances i).targets.clear, (w.instances i).watched.clear⟩

def step (w : World ι) : ι × Action → World ι
  | (i, .checkTarget editing form env stamp) => w.checkTarget i editing form env stamp
  | (i, .applyTarget editing token values now) => w.applyTarget i editing token values now
  | (i, .deleteTarget id) => w.deleteTarget i id
  | (i, .checkWatched editing form env stamp) => w.checkWatched i editing form env stamp
  | (i, .applyWatched editing token values now) => w.applyWatched i editing token values now
  | (i, .deleteWatched id) => w.deleteWatched i id
  | (i, .reset) => w.reset i

end World
end BoredManager.Fleet.Config
