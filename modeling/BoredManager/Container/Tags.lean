import BoredManager.Js.OrderedMap
import BoredManager.Machine.Earliest
import BoredManager.Shared.Check

/-! Labels the user invents, and which containers wear them: the document of a host, the store that
caches it, and the ways in which tags are made, changed, attached and dropped. `lower` is
`toLowerCase`. -/
namespace BoredManager.Container
open BoredManager.Js BoredManager.Shared BoredManager.Machine

structure TagRecord where
  id : Text
  name : Text
  color : Text
  description : Text
  createdAt : Int
deriving DecidableEq

/-- The tags and the members of a host's document. -/
structure HostData where
  tags : List TagRecord
  members : OrderedMap Text (List Text)

def HostData.ids (data : HostData) : List Text := data.tags.map TagRecord.id

/-! ### The document -/

/-- The first tag of each id, with an id and a name. -/
def keptTags (tags : List TagRecord) : List TagRecord :=
  tags.foldl (fun kept t =>
    if t.id = [] ∨ t.name = [] ∨ t.id ∈ kept.map TagRecord.id then kept else kept ++ [t]) []

/-- A document as it is read; what is no text in it is empty, other types are left out. -/
def normalize (raw : HostData) : HostData :=
  let tags := keptTags raw.tags
  let seen := tags.map TagRecord.id
  { tags := tags
    members := raw.members.entries.foldl (fun members e =>
      let kept := e.2.filter (· ∈ seen)
      if kept = [] then members else members.set e.1 kept.eraseDups) .empty }

/-- The first of fifty draws that is not taken, or the clock's id. -/
def makeId (idPrefix : Text) (draws : List Text) (clock : Text) (taken : List Text) : Text :=
  (((draws.take 50).map fun draw => idPrefix ++ 95 :: draw).find? (· ∉ taken)).getD
    (idPrefix ++ 95 :: clock)

def FORM_COLOR_SWATCHES : List Text :=
  ["#ef4444", "#f97316", "#f59e0b", "#eab308", "#84cc16", "#22c55e", "#10b981", "#14b8a6", "#06b6d4",
    "#3b82f6", "#8b5cf6", "#ec4899"].map js

/-- The least-used colour of the palette. -/
def leastUsedColour (lower : Text → Text) (tags : List TagRecord) : Text :=
  let count := fun hex => (tags.filter fun t => decide (lower t.color = hex)).length
  (FORM_COLOR_SWATCHES.foldl (lighter (fun _ => true) count) (none, tags.length + 1)).1.getD
    (js "#ef4444")

def attach (data : HostData) (ref tagId : Text) : HostData :=
  let ids := (data.members.get? ref).getD []
  if tagId ∈ ids then data else { data with members := data.members.set ref (ids ++ [tagId]) }

def detach (data : HostData) (ref tagId : Text) : HostData :=
  match data.members.get? ref with
  | none => data
  | some ids =>
    let kept := ids.filter (· ≠ tagId)
    { data with members := if kept = [] then data.members.erase ref else data.members.set ref kept }

def attachAll (data : HostData) (refs : List Text) (tagId : Text) : HostData :=
  refs.foldl (fun data ref => attach data ref tagId) data

def detachAll (data : HostData) (refs : List Text) (tagId : Text) : HostData :=
  refs.foldl (fun data ref => detach data ref tagId) data

/-! ### The store -/

structure Badge where
  label : Text
  color : Text
deriving DecidableEq

structure TagValues where
  name : Text
  color : Text
  description : Text

/-- What a check has resolved. -/
structure TagPlan where
  values : TagValues
  refs : List Text

/-- The host store and the tag store over it. No badge cache has been built at first. -/
structure TagStore where
  disk : HostData
  cache : Option HostData
  revision : Nat
  badgeCache : OrderedMap Text (List Badge)
  badgeCacheRevision : Option Nat
  session : CheckSession TagPlan

def TagStore.read (s : TagStore) : TagStore × HostData :=
  match s.cache with
  | some data => (s, data)
  | none =>
    let data := normalize s.disk
    ({ s with cache := some data, revision := s.revision + 1 }, data)

/-- Change the document and write it; a write that fails leaves the change in memory. -/
def TagStore.update (s : TagStore) (mutate : HostData → HostData × Except Text Text) (written : Bool) :
    TagStore × Except Text Text :=
  let (s, data) := s.read
  let (data, result) := mutate data
  ({ s with
      cache := some data
      revision := s.revision + 1
      disk := if written then data else s.disk }, result)

/-- Forget what was read. -/
def TagStore.reset (s : TagStore) : TagStore := { s with cache := none, revision := s.revision + 1 }

/-- The badges of a row's tags; an id without a tag has none. -/
def badgesOf (byId : OrderedMap Text TagRecord) (ids : List Text) : List Badge :=
  ids.filterMap fun id => (byId.get? id).map fun tag => ⟨tag.name, tag.color⟩

def buildBadgeCache (data : HostData) : OrderedMap Text (List Badge) :=
  let byId : OrderedMap Text TagRecord := .ofList (data.tags.map fun t => (t.id, t))
  data.members.entries.foldl (fun out e =>
    if badgesOf byId e.2 = [] then out else out.set e.1 (badgesOf byId e.2)) .empty

def TagStore.badgesFor (s : TagStore) (ref : Text) : TagStore × List Badge :=
  let (s, data) := s.read
  let s := if s.badgeCacheRevision = some s.revision then s
    else { s with badgeCache := buildBadgeCache data, badgeCacheRevision := some s.revision }
  (s, (s.badgeCache.get? ref).getD [])

/-! ### Checks and applies -/

def isWordUnit (u : Nat) : Bool := isDigit u || isLower u || isUpper u || u == 95

/-- `/^[\w][\w .-]{0,31}$/` -/
def TAG_NAME_RE : Text → Bool
  | [] => false
  | u :: s => isWordUnit u && decide (s.length ≤ 31) &&
      s.all fun v => isWordUnit v || v == 32 || v == 46 || v == 45

/-- `/^#[0-9a-fA-F]{6}$/` -/
def isHexColour : Text → Bool
  | 35 :: s => s.length == 6 && s.all fun u => isHexLower u || (65 ≤ u && u ≤ 70)
  | _ => false

def MAX_DESCRIPTION : Nat := 500

structure RefSource where
  dockerAll : List Text
  dockerRunning : List Text
  incusAll : List Text

def resolveApplyTo (refs : RefSource) (applyTo : Text) : List Text :=
  if applyTo = js "all-running-docker" then refs.dockerRunning
  else if applyTo = js "all-docker" then refs.dockerAll
  else if applyTo = js "all-incus" then refs.incusAll
  else if applyTo = js "all" then refs.dockerAll ++ refs.incusAll
  else []

/-- Another tag than the one with the id has the name, whatever the case. -/
def nameTaken (lower : Text → Text) (data : HostData) (id : Option Text) (name : Text) : Bool :=
  data.tags.any fun t => decide (some t.id ≠ id ∧ lower t.name = lower name)

/-- The tag that a form edits; an empty id is none. -/
def edited (id : Option Text) : Option Text := id.filter (· ≠ [])

/-- The check of a form, with its token if there is no error finding. -/
def TagStore.check (lower : Text → Text) (s : TagStore) (id : Option Text) (form : String → Text)
    (refs : RefSource) (call : TagPlan → CheckSession.Issue TagPlan) : TagStore × Option Text :=
  let (s, data) := s.read
  let existing := (edited id).bind fun id => data.tags.find? fun t => decide (t.id = id)
  let colour := form "color"
  if (edited id).isSome && existing.isNone then (s, none)
  else if TAG_NAME_RE (form "name") = false ∨ nameTaken lower data id (form "name") = true ∨
      (colour ≠ [] ∧ isHexColour colour = false) ∨ MAX_DESCRIPTION < (form "description").length then
    (s, none)
  else
    let resolved := if colour ≠ [] then colour
      else (existing.bind fun t => if t.color = [] then none else some t.color).getD
        (leastUsedColour lower data.tags)
    let plan : TagPlan := ⟨⟨form "name", resolved, form "description"⟩, resolveApplyTo refs (form "applyTo")⟩
    ({ s with session := s.session.issue (call plan) }, some (s.session.tokenOf (call plan)))

/-- What a creation draws: its random texts, the clock's text, and the time. -/
structure Draws where
  random : List Text
  clock : Text
  now : Int

def Draws.id (draws : Draws) (data : HostData) : Text := makeId (js "tg") draws.random draws.clock data.ids

def push (data : HostData) (tag : TagRecord) : HostData := { data with tags := data.tags ++ [tag] }

/-- The first tag with the id gets the values. -/
def editFirst (id : Text) (values : TagValues) : List TagRecord → List TagRecord
  | [] => []
  | t :: tags =>
    if t.id = id then
      { t with name := values.name, color := values.color, description := values.description } :: tags
    else t :: editFirst id values tags

def editTag (data : HostData) (id : Text) (values : TagValues) : HostData :=
  { data with tags := editFirst id values data.tags }

/-- The mutation of `apply`. -/
def applyPlan (id : Option Text) (plan : TagPlan) (draws : Draws) (data : HostData) :
    HostData × Except Text Text :=
  match edited id with
  | some id =>
    if id ∉ data.ids then (data, .error (js "that tag no longer exists"))
    else (attachAll (editTag data id plan.values) plan.refs id, .ok id)
  | none =>
    let id := draws.id data
    let tag := ⟨id, plan.values.name, plan.values.color, plan.values.description, draws.now⟩
    (attachAll (push data tag) plan.refs id, .ok id)

def TagStore.apply (s : TagStore) (id : Option Text) (token : Text) (values : Value) (now : Int)
    (draws : Draws) (written : Bool) : TagStore × Except Text Text :=
  let taken := s.session.take token values now
  let s := { s with session := taken.1 }
  match taken.2 with
  | none => (s, .error (js "that check has expired or the form changed - check again"))
  | some plan => s.update (applyPlan id plan draws) written

/-! ### The other ways -/

/-- The mutation of `remove`: the first tag with the id goes, and every membership in it. -/
def removeTag (id : Text) (data : HostData) : HostData × Except Text Text :=
  if id ∉ data.ids then (data, .error (js "no such tag"))
  else
    ({ tags := data.tags.eraseP fun t => decide (t.id = id)
       members := data.members.entries.foldl (fun members e =>
         let kept := e.2.filter (· ≠ id)
         if kept = [] then members.erase e.1 else members.set e.1 kept) data.members }, .ok [])

inductive TagMode where
  | assign | unassign
deriving DecidableEq

def findByName (lower : Text → Text) (data : HostData) (name : Text) : Option TagRecord :=
  data.tags.find? fun t => decide (lower t.name = lower name)

/-- The tag of a name: there already, or made on the spot. -/
def ensureTag (lower : Text → Text) (data : HostData) (name : Text) (draws : Draws) : HostData × Text :=
  match findByName lower data name with
  | some tag => (data, tag.id)
  | none =>
    (push data ⟨draws.id data, name, leastUsedColour lower data.tags, [], draws.now⟩, draws.id data)

/-- The mutation of `bulk`. -/
def bulkTags (lower : Text → Text) (refs : List Text) (mode : TagMode) (name : Text) (draws : Draws)
    (data : HostData) : HostData × Except Text Text :=
  match mode with
  | .assign =>
    let ensured := ensureTag lower data name draws
    (attachAll ensured.1 refs ensured.2, .ok (decimal refs.length))
  | .unassign =>
    match findByName lower data name with
    | none => (data, .error (js "no tag called \"" ++ name ++ js "\""))
    | some tag => (detachAll data refs tag.id, .ok (decimal refs.length))

def TagStore.bulk (lower : Text → Text) (s : TagStore) (keys : List Text) (engine : Text)
    (mode : Option TagMode) (tagName : Text) (draws : Draws) (written : Bool) :
    TagStore × Except Text Text :=
  let refs := keys.map fun key => engine ++ 58 :: key
  let name := trim tagName
  if refs = [] then (s, .error (js "nothing selected"))
  else if TAG_NAME_RE name = false then (s, .error (js "\"" ++ name ++ js "\" is not a usable tag name"))
  else match mode with
    | none => (s, .error (js "unknown tag mode"))
    | some mode => s.update (bulkTags lower refs mode name draws) written

/-- The mutation of `prune`. -/
def pruneMembers (live : List Text) (data : HostData) : HostData × Except Text Text :=
  let gone := data.members.keys.filter (· ∉ live)
  ({ data with members := gone.foldl OrderedMap.erase data.members }, .ok (decimal gone.length))

/-- The mutation of `ensureAndAttach`. -/
def ensureAttached (lower : Text → Text) (name : Text) (refs : List Text) (draws : Draws)
    (data : HostData) : HostData × Except Text Text :=
  let ensured := ensureTag lower data name draws
  (attachAll ensured.1 refs ensured.2, .ok [])

/-- What happens to the store; a write may fail. -/
inductive TagEvent where
  | check (id : Option Text) (form : String → Text) (refs : RefSource)
      (call : TagPlan → CheckSession.Issue TagPlan)
  | apply (id : Option Text) (token : Text) (values : Value) (now : Int) (draws : Draws) (written : Bool)
  | remove (id : Text) (written : Bool)
  | bulk (keys : List Text) (engine : Text) (mode : Option TagMode) (tagName : Text) (draws : Draws)
      (written : Bool)
  | prune (refs : RefSource) (written : Bool)
  | ensureAndAttach (name : Text) (refs : List Text) (draws : Draws) (written : Bool)
  | badgesFor (ref : Text)
  | reset

def TagStore.step (lower : Text → Text) (s : TagStore) : TagEvent → TagStore
  | .check id form refs call => (s.check lower id form refs call).1
  | .apply id token values now draws written => (s.apply id token values now draws written).1
  | .remove id written => (s.update (removeTag id) written).1
  | .bulk keys engine mode tagName draws written => (s.bulk lower keys engine mode tagName draws written).1
  | .prune refs written => (s.update (pruneMembers (refs.dockerAll ++ refs.incusAll)) written).1
  | .ensureAndAttach name refs draws written =>
    if TAG_NAME_RE name = false then s else (s.update (ensureAttached lower name refs draws) written).1
  | .badgesFor ref => (s.badgesFor ref).1
  | .reset => s.reset

/-- A store over a document on disk. -/
def TagStore.start (disk : HostData) : TagStore := ⟨disk, none, 0, .empty, none, .createCheckSession⟩

end BoredManager.Container
