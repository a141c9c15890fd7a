import BoredManager.Js.OrderedMap
import BoredManager.Shared.Hostname

/-! The application settings: their current shape, the defaults, the migrations from
older schemas and `normalizeAppSettings`. Records with free keys are ordered maps. -/
namespace BoredManager.Shared
open BoredManager.Js

def settingsVersion : Int := 7

structure OverviewLayoutItem (ι : Type) where
  i : ι
  x : Int
  y : Int
  w : Int
deriving DecidableEq

structure OverviewLayout (ι : Type) where
  lg : Option (List (OverviewLayoutItem ι))
  md : Option (List (OverviewLayoutItem ι))
deriving DecidableEq

/-- A layout id after a renaming: a text, or the member that every object inherits
under the old id. -/
inductive LayoutId where
  | text (id : Text)
  | inherited (member : Text)
deriving DecidableEq

structure HistorySettings where
  enabled : Bool
  retentionHours : Int
  maxStorageMB : Int
deriving DecidableEq

structure ServerSettings where
  port : Int
  host : Text
  allowedHosts : List Text
  trustProxy : Bool
deriving DecidableEq

structure SessionIdle where
  value : Int
  unit : Text
deriving DecidableEq

structure AuthSettings where
  enabled : Bool
  maxFailures : Int
  sessionIdle : SessionIdle
deriving DecidableEq

structure UpdateSettings where
  repo : Text
  lastUrl : Text
deriving DecidableEq

structure AppSettings where
  theme : Text
  density : Text
  densityAutoDetected : Bool
  historyWindow : Int
  refresh : OrderedMap Text Text
  slowRefresh : OrderedMap Text Int
  overviewWidgets : OrderedMap Text Bool
  overviewLayout : OverviewLayout LayoutId
  /-- The keys of `DEFAULT_SETTINGS.collectors`, in order. -/
  collectors : List (Text × Bool)
  detailPolling : List (Text × Text)
  history : HistorySettings
  server : ServerSettings
  auth : AuthSettings
  update : UpdateSettings
deriving DecidableEq

def themes : List Text := [js "dark", js "light", js "system"]
def densities : List Text := [js "low", js "medium", js "high"]
def refreshSpeeds : List Text := [js "high", js "normal", js "low", js "paused"]
def detailModes : List Text := [js "tab", js "always", js "off"]
def idleUnits : List Text := [js "minute", js "hour", js "day"]

/-! `APP_SETTINGS_LIMITS` -/

def maxHistoryWindowSeconds : Int := 2678400
def maxSlowRefreshSeconds : Int := 86400
def maxHistoryRetentionHours : Int := 8760
def maxHistoryStorageMB : Int := 100000
def maxAuthFailures : Int := 1000
def maxSessionIdleValue : Int := 3650
def maxAllowedHosts : Nat := 64
def maxLayoutCoordinate : Int := 1000000
def maxLayoutWidth : Int := 6

/-! `DEFAULT_SETTINGS` -/

def defaultRefresh : OrderedMap Text Text := .ofList [
  (js "system", js "normal"), (js "sensors", js "normal"), (js "gpu", js "normal"),
  (js "container", js "normal"), (js "processes", js "normal"), (js "network", js "normal"),
  (js "disk", js "normal"), (js "bmc", js "normal"), (js "openwrt", js "normal"),
  (js "service-fleet", js "low")]

def defaultSlowRefresh : OrderedMap Text Int := .ofList [
  (js "storage", 60), (js "container", 300), (js "network", 60), (js "bmc", 60),
  (js "openwrt", 60), (js "service-fleet", 120)]

def defaultCollectors : List (Text × Bool) := [
  (js "cpu", true), (js "memory", true), (js "network", true), (js "disk", true),
  (js "packages", true)]

def defaultDetailPolling : List (Text × Text) := [
  (js "network", js "tab"), (js "disk", js "tab"), (js "gpu", js "always"),
  (js "sensors", js "always"), (js "container", js "always"), (js "overviewTop", js "tab")]

def defaultUpdateRepo : Text := js "FireStarsSoft/Bored-Manager"

/-- v2 card names, and the current widget ids. -/
def v2CardIds : List (Text × Text) := [
  (js "gpu", js "gpu.summary"), (js "docker", js "container.summary"),
  (js "sensors", js "sensors.summary"), (js "filesystems", js "disk.filesystems"),
  (js "gpuProcesses", js "gpu.processes"), (js "dockerCounts", js "container.resources")]

/-- v5 widget ids, and those of v6: Docker became the Container module. -/
def v5CardIds : List (Text × Text) := [
  (js "docker.summary", js "container.summary"),
  (js "docker.resources", js "container.resources")]

/-- The members that an object literal inherits, with the text of each as a key. -/
def inheritedMembers : List (Text × Text) := [
  (js "constructor", js "function Object() { [native code] }"),
  (js "__defineGetter__", js "function __defineGetter__() { [native code] }"),
  (js "__defineSetter__", js "function __defineSetter__() { [native code] }"),
  (js "hasOwnProperty", js "function hasOwnProperty() { [native code] }"),
  (js "__lookupGetter__", js "function __lookupGetter__() { [native code] }"),
  (js "__lookupSetter__", js "function __lookupSetter__() { [native code] }"),
  (js "isPrototypeOf", js "function isPrototypeOf() { [native code] }"),
  (js "propertyIsEnumerable", js "function propertyIsEnumerable() { [native code] }"),
  (js "toString", js "function toString() { [native code] }"),
  (js "valueOf", js "function valueOf() { [native code] }"),
  (js "__proto__", js "[object Object]"),
  (js "toLocaleString", js "function toLocaleString() { [native code] }")]

def lookup (table : List (Text × Text)) (key : Text) : Option Text :=
  (table.find? fun e => decide (e.1 = key)).map Prod.snd

/-- `ids[id] ?? id` as a layout id. -/
def renameId (ids : List (Text × Text)) (id : Text) : LayoutId :=
  match lookup ids id with
  | some new => .text new
  | none => if (lookup inheritedMembers id).isSome then .inherited id else .text id

/-- `ids[key] ?? key` as a property key. -/
def renameKey (ids : List (Text × Text)) (key : Text) : Text :=
  ((lookup ids key).or (lookup inheritedMembers key)).getD key

/-- `record[key] = value` of a text, number or boolean: an assignment to the prototype
is ignored. -/
def setProperty {ν : Type} (record : OrderedMap Text ν) (key : Text) (value : ν) :
    OrderedMap Text ν :=
  if key = js "__proto__" then record else record.set key value

/-- Set the properties whose values are accepted. -/
def setAccepted {ν : Type} (accept : Json → Option ν) (record : OrderedMap Text ν)
    (entries : List (Text × Json)) : OrderedMap Text ν :=
  entries.foldl (fun record entry =>
    match accept entry.2 with
    | some value => setProperty record entry.1 value
    | none => record) record

def schemaVersion (raw : Json) : Int :=
  match truncated (raw.field? (js "settingsVersion")) with
  | some z => max 0 z
  | none => 0

def normalizeAllowedHostsFrom (urlHostname : Text → Option Text) (out : List Text) :
    List Json → List Text
  | [] => out
  | entry :: entries =>
    match (normalizeAllowedHostname urlHostname entry).filter (· ≠ []) with
    | none => normalizeAllowedHostsFrom urlHostname out entries
    | some hostname =>
      if hostname ∈ out then normalizeAllowedHostsFrom urlHostname out entries
      else if maxAllowedHosts ≤ out.length + 1 then out ++ [hostname]
      else normalizeAllowedHostsFrom urlHostname (out ++ [hostname]) entries

def normalizeAllowedHosts (urlHostname : Text → Option Text) (value : Option Json) : List Text :=
  match value with
  | some (.arr items) => normalizeAllowedHostsFrom urlHostname [] items
  | _ => []

/-- `renameIntervalKey`: the value moves to the new key unless that one is there. -/
def renameIntervalKey (source : List (Text × Json)) (old new : Text) : List (Text × Json) :=
  match source.find? fun e => decide (e.1 = old) with
  | none => source
  | some entry =>
    let kept := source.filter fun e => decide (e.1 ≠ old)
    if new ∈ source.map Prod.fst then kept else kept ++ [(new, entry.2)]

def acceptSpeed : Json → Option Text
  | .str s => if s ∈ refreshSpeeds then some s else none
  | _ => none

def acceptSeconds (value : Json) : Option Int :=
  boundedInteger (some value) 0 maxSlowRefreshSeconds

def acceptBoolean : Json → Option Bool
  | .bool b => some b
  | _ => none

def normalizeRefresh (entries : List (Text × Json)) : OrderedMap Text Text :=
  setAccepted acceptSpeed defaultRefresh entries

def normalizeSlowRefresh (entries : List (Text × Json)) : OrderedMap Text Int :=
  setAccepted acceptSeconds defaultSlowRefresh entries

def normalizeBooleanRecord (value : Option Json) : OrderedMap Text Bool :=
  setAccepted acceptBoolean .empty (entriesOf value)

def normalizeCollectors (value : Option Json) : List (Text × Bool) :=
  defaultCollectors.map fun e => (e.1, booleanOr ((asRecord value).field? e.1) e.2)

def normalizeDetailPolling (value : Option Json) : List (Text × Text) :=
  defaultDetailPolling.map fun e => (e.1, oneOf ((asRecord value).field? e.1) detailModes e.2)

def normalizeLayoutItem (value : Json) : Option (OverviewLayoutItem Text) :=
  if !value.isRecord then none
  else do
    let id := stringValue (value.field? (js "i")) [] false false 256
    let x ← boundedInteger (value.field? (js "x")) 0 maxLayoutCoordinate
    let y ← boundedInteger (value.field? (js "y")) 0 maxLayoutCoordinate
    let w ← boundedInteger (value.field? (js "w")) 1 maxLayoutWidth
    if id = [] then none else some { i := id, x, y, w }

/-- The valid items, the first of each id. -/
def normalizeItems (seen : List Text) : List Json → List (OverviewLayoutItem Text)
  | [] => []
  | item :: items =>
    match normalizeLayoutItem item with
    | none => normalizeItems seen items
    | some valid =>
      if valid.i ∈ seen then normalizeItems seen items
      else valid :: normalizeItems (valid.i :: seen) items

def normalizeBreakpoint (value : Option Json) : Option (List (OverviewLayoutItem Text)) :=
  (value.bind Json.items?).map (normalizeItems [])

def normalizeLayout (value : Option Json) : OverviewLayout Text :=
  let raw := asRecord value
  { lg := normalizeBreakpoint (raw.field? (js "lg")), md := normalizeBreakpoint (raw.field? (js "md")) }

def renameKeys (source : OrderedMap Text Bool) (ids : List (Text × Text)) : OrderedMap Text Bool :=
  source.entries.foldl (fun out e => setProperty out (renameKey ids e.1) e.2) .empty

def mapItemIds {ι κ : Type} (f : ι → κ) (items : List (OverviewLayoutItem ι)) :
    List (OverviewLayoutItem κ) :=
  items.map fun item => { i := f item.i, x := item.x, y := item.y, w := item.w }

def mapLayoutIds {ι κ : Type} (f : ι → κ) (layout : OverviewLayout ι) : OverviewLayout κ :=
  { lg := layout.lg.map (mapItemIds f), md := layout.md.map (mapItemIds f) }

def renameLayout (layout : OverviewLayout Text) (ids : List (Text × Text)) :
    OverviewLayout LayoutId :=
  mapLayoutIds (renameId ids) layout

def migrateV2Widgets (value : Option Json) : OrderedMap Text Bool :=
  (entriesOf value).foldl (fun out e =>
    match acceptBoolean e.2 with
    | some enabled => setProperty out (renameKey v2CardIds e.1) enabled
    | none => out) .empty

/-- `Object.assign(target, source)` -/
def assign (target source : OrderedMap Text Bool) : OrderedMap Text Bool :=
  source.entries.foldl (fun out e => setProperty out e.1 e.2) target

def normalizeIdle (value : Option Json) : SessionIdle :=
  let raw := asRecord value
  { value := finiteInteger (raw.field? (js "value")) 0 0 maxSessionIdleValue
    unit := oneOf (raw.field? (js "unit")) idleUnits (js "hour") }

/-- The layout ids that the schema of the document gives: renamed once for each
schema change the document is older than. -/
def migrateLayout (version : Int) (layout : OverviewLayout Text) : OverviewLayout LayoutId :=
  if version < 3 then renameLayout layout v2CardIds
  else if version < 6 then renameLayout layout v5CardIds
  else mapLayoutIds .text layout

def migrateWidgets (version : Int) (raw : Json) : OrderedMap Text Bool :=
  let widgets := normalizeBooleanRecord (raw.field? (js "overviewWidgets"))
  if version < 3 then assign widgets (migrateV2Widgets (raw.field? (js "overviewExtended")))
  else if version < 6 then renameKeys widgets v5CardIds
  else widgets

def migrateIntervals (version : Int) (value : Option Json) : List (Text × Json) :=
  let entries := entriesOf value
  if version < 6 then renameIntervalKey entries (js "docker") (js "container") else entries

/-- `value == null` -/
def isNullish : Option Json → Bool
  | none | some .null => true
  | some _ => false

def legacySlowRefresh (raw : Json) (slowRefresh : OrderedMap Text Int) : OrderedMap Text Int :=
  if isNullish (raw.field? (js "slowRefresh")) then
    match boundedInteger (raw.field? (js "refreshSlow")) 0 maxSlowRefreshSeconds with
    | some seconds => slowRefresh.set (js "storage") seconds
    | none => slowRefresh
  else slowRefresh

def normalizeUpdate (version : Int) (raw : Json) : UpdateSettings :=
  let updateRaw := asRecord (raw.field? (js "update"))
  let lastUrl := stringValue (updateRaw.field? (js "lastUrl")) [] false true 8192
  { repo := stringValue (updateRaw.field? (js "repo")) defaultUpdateRepo false false 512
    lastUrl :=
      if version < 4 then stringValue (raw.field? (js "lastUpdateUrl")) lastUrl false true 8192
      else lastUrl }

def normalizeHistory (value : Option Json) : HistorySettings :=
  let historyRaw := asRecord value
  { enabled := booleanOr (historyRaw.field? (js "enabled")) true
    retentionHours :=
      finiteInteger (historyRaw.field? (js "retentionHours")) 6 1 maxHistoryRetentionHours
    maxStorageMB :=
      finiteInteger (historyRaw.field? (js "maxStorageMB")) 200 10 maxHistoryStorageMB }

def normalizeServer (urlHostname : Text → Option Text) (value : Option Json) : ServerSettings :=
  let serverRaw := asRecord value
  { port := finiteInteger (serverRaw.field? (js "port")) 8686 1 65535
    host := stringValue (serverRaw.field? (js "host")) (js "0.0.0.0") true false 255
    allowedHosts := normalizeAllowedHosts urlHostname (serverRaw.field? (js "allowedHosts"))
    trustProxy := booleanOr (serverRaw.field? (js "trustProxy")) false }

def normalizeAuth (value : Option Json) : AuthSettings :=
  let authRaw := asRecord value
  { enabled := booleanOr (authRaw.field? (js "enabled")) false
    maxFailures := finiteInteger (authRaw.field? (js "maxFailures")) 5 1 maxAuthFailures
    sessionIdle := normalizeIdle (authRaw.field? (js "sessionIdle")) }

def normalizeTheme (version : Int) (raw : Json) : Text :=
  if version < 5 then js "dark" else oneOf (raw.field? (js "theme")) themes (js "dark")

/-- Bring settings from disk, imports or RPC into the complete current shape. -/
def normalizeAppSettings (urlHostname : Text → Option Text) (value : Option Json) : AppSettings :=
  let raw := asRecord value
  let version := schemaVersion raw
  { theme := normalizeTheme version raw
    density := oneOf (raw.field? (js "density")) densities (js "medium")
    densityAutoDetected := booleanOr (raw.field? (js "densityAutoDetected")) false
    historyWindow := finiteInteger (raw.field? (js "historyWindow")) 60 1 maxHistoryWindowSeconds
    refresh := normalizeRefresh (migrateIntervals version (raw.field? (js "refresh")))
    slowRefresh := legacySlowRefresh raw
      (normalizeSlowRefresh (migrateIntervals version (raw.field? (js "slowRefresh"))))
    overviewWidgets := migrateWidgets version raw
    overviewLayout := migrateLayout version (normalizeLayout (raw.field? (js "overviewLayout")))
    collectors := normalizeCollectors (raw.field? (js "collectors"))
    detailPolling := normalizeDetailPolling (raw.field? (js "detailPolling"))
    history := normalizeHistory (raw.field? (js "history"))
    server := normalizeServer urlHostname (raw.field? (js "server"))
    auth := normalizeAuth (raw.field? (js "auth"))
    update := normalizeUpdate version raw }

/-! The settings as a JSON value. -/

def recordJson {ν : Type} (toJson : ν → Json) (entries : List (Text × ν)) : Json :=
  .obj (entries.map fun e => (e.1, toJson e.2))

/-- The property `i`: a function is left out, and the prototype is an empty object. -/
def LayoutId.fields : LayoutId → List (Text × Json)
  | .text id => [(js "i", .str id)]
  | .inherited member => if member = js "__proto__" then [(js "i", .obj [])] else []

def OverviewLayoutItem.toJson (item : OverviewLayoutItem LayoutId) : Json :=
  .obj (item.i.fields ++ [(js "x", jsonInt item.x), (js "y", jsonInt item.y), (js "w", jsonInt item.w)])

def breakpointFields (key : String) (items : Option (List (OverviewLayoutItem LayoutId))) :
    List (Text × Json) :=
  (items.map fun items => (js key, Json.arr (items.map OverviewLayoutItem.toJson))).toList

def OverviewLayout.toJson (layout : OverviewLayout LayoutId) : Json :=
  .obj (breakpointFields "lg" layout.lg ++ breakpointFields "md" layout.md)

def HistorySettings.toJson (history : HistorySettings) : Json := .obj [
  (js "enabled", .bool history.enabled), (js "retentionHours", jsonInt history.retentionHours),
  (js "maxStorageMB", jsonInt history.maxStorageMB)]

def ServerSettings.toJson (server : ServerSettings) : Json := .obj [
  (js "port", jsonInt server.port), (js "host", .str server.host),
  (js "allowedHosts", .arr (server.allowedHosts.map Json.str)),
  (js "trustProxy", .bool server.trustProxy)]

def SessionIdle.toJson (idle : SessionIdle) : Json := .obj [
  (js "value", jsonInt idle.value), (js "unit", .str idle.unit)]

def AuthSettings.toJson (auth : AuthSettings) : Json := .obj [
  (js "enabled", .bool auth.enabled), (js "maxFailures", jsonInt auth.maxFailures),
  (js "sessionIdle", auth.sessionIdle.toJson)]

def UpdateSettings.toJson (update : UpdateSettings) : Json := .obj [
  (js "repo", .str update.repo), (js "lastUrl", .str update.lastUrl)]

def AppSettings.toJson (settings : AppSettings) : Json := .obj [
  (js "settingsVersion", jsonInt settingsVersion),
  (js "theme", .str settings.theme),
  (js "density", .str settings.density),
  (js "densityAutoDetected", .bool settings.densityAutoDetected),
  (js "historyWindow", jsonInt settings.historyWindow),
  (js "refresh", recordJson Json.str settings.refresh.entries),
  (js "slowRefresh", recordJson jsonInt settings.slowRefresh.entries),
  (js "overviewWidgets", recordJson Json.bool settings.overviewWidgets.entries),
  (js "overviewLayout", settings.overviewLayout.toJson),
  (js "collectors", recordJson Json.bool settings.collectors),
  (js "detailPolling", recordJson Json.str settings.detailPolling),
  (js "history", settings.history.toJson),
  (js "server", settings.server.toJson),
  (js "auth", settings.auth.toJson),
  (js "update", settings.update.toJson)]

end BoredManager.Shared
