import BoredManager.Js.Outcome
import BoredManager.Shared.AppSettings

/-! The settings file of the server: the strict check of a document, the save and the
load. The file is the JSON value that its text parses to. -/
namespace BoredManager.Server
open BoredManager.Js BoredManager.Shared

/-- Nothing, or the error of a failed check. -/
def require (holds : Bool) (error : String) : Except Text Unit :=
  if holds then .ok () else .error (js error)

/-- `String(value)` where it can be one of the units: a list of one prints its item. -/
def unitText : Json → Text
  | .str s => s
  | .arr [item] => unitText item
  | _ => []

def isHostText (value : Option Json) : Bool :=
  match value with
  | some (.str s) => !(trim s).isEmpty && s.length ≤ 255
  | _ => false

def isBoolean (value : Option Json) : Bool :=
  match value with
  | some (.bool _) => true
  | _ => false

def isShortList (value : Option Json) : Bool :=
  match value with
  | some (.arr items) => items.length ≤ maxAllowedHosts
  | _ => false

def listItems (value : Option Json) : List Json := (value.bind Json.items?).getD []

def validateServer (urlHostname : Text → Option Text) (version : Int) (value : Option Json) :
    Except Text Unit := do
  require ((value.map Json.isRecord).getD false) "server settings must be an object"
  let server := asRecord value
  require (isIntegerIn (server.field? (js "port")) 1 65535) "server.port is invalid"
  require (isHostText (server.field? (js "host"))) "server.host is invalid"
  if 7 ≤ version then
    require (isShortList (server.field? (js "allowedHosts"))) "server.allowedHosts is invalid"
    require ((listItems (server.field? (js "allowedHosts"))).all fun entry =>
        ((normalizeAllowedHostname urlHostname entry).filter (· ≠ [])).isSome)
      "server.allowedHosts contains an invalid hostname"
    require (isBoolean (server.field? (js "trustProxy"))) "server.trustProxy must be boolean"

/-- An omitted `auth` is the installer's stub; a malformed one is corruption. -/
def validateAuth (value : Option Json) : Except Text Unit :=
  match value with
  | none => .ok ()
  | some value => do
    require value.isRecord "auth settings must be an object"
    require (isBoolean (value.field? (js "enabled"))) "auth.enabled must be boolean"
    require (isIntegerIn (value.field? (js "maxFailures")) 1 maxAuthFailures)
      "auth.maxFailures is invalid"
    require (((value.field? (js "sessionIdle")).map Json.isRecord).getD false)
      "auth.sessionIdle must be an object"
    let idle := asRecord (value.field? (js "sessionIdle"))
    require (isIntegerIn (idle.field? (js "value")) 0 maxSessionIdleValue)
      "auth.sessionIdle.value is invalid"
    require (decide (((idle.field? (js "unit")).map unitText).getD [] ∈ idleUnits))
      "auth.sessionIdle.unit is invalid"

def validateSettingsDocument (urlHostname : Text → Option Text) (value : Json) :
    Except Text Json := do
  require value.isRecord "settings must be a JSON object"
  require (value.field? (js "settingsVersion")).isSome "settingsVersion is required"
  require (isIntegerIn (value.field? (js "settingsVersion")) 0 settingsVersion)
    "settingsVersion must be an integer from 0 to 7"
  let version := schemaVersion value
  if 4 ≤ version then
    validateServer urlHostname version (value.field? (js "server"))
    validateAuth (value.field? (js "auth"))
  pure value

/-- `saveSettings`: what it returns, and the file it leaves. -/
def saveSettings (urlHostname : Text → Option Text) (settings : Json) :
    Except Text (AppSettings × Json) := do
  let document ← validateSettingsDocument urlHostname settings
  let merged := normalizeAppSettings urlHostname (some document)
  pure (merged, merged.toJson)

/-- `loadSettings` of a file that is there: what it returns, and the file it leaves. -/
def loadSettings (urlHostname : Text → Option Text) (file : Json) :
    Except Text (AppSettings × Json) := do
  let raw ← validateSettingsDocument urlHostname file
  let merged := normalizeAppSettings urlHostname (some raw)
  pure (merged, if schemaVersion raw = settingsVersion then file else merged.toJson)

end BoredManager.Server
