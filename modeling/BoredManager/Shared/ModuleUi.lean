import BoredManager.Js.NumberText
import BoredManager.Shared.Modules

/-! The check of a module's page or widget: a tree of blocks, each of which may name a data
source, methods and streams that its manifest has to declare. -/
namespace BoredManager.Shared.ModuleUi
open BoredManager.Js

/-- What the check reads of a valid manifest: the events of its streams are their names. -/
structure Manifest where
  id : Text
  methods : List Text
  streams : List Text

inductive BlockType where
  | section_
  | subnav
  | note
  | stat
  | meter
  | chart
  | pie
  | keyValue
  | list
  | table
  | statusCards
  | log
  | terminal
  | actions
  | form
  | checkForm
  | conditional
deriving DecidableEq

def BLOCK_TYPES : List (Text × BlockType) :=
  [(js "section", .section_), (js "subnav", .subnav), (js "note", .note), (js "stat", .stat),
    (js "meter", .meter), (js "chart", .chart), (js "pie", .pie), (js "keyValue", .keyValue),
    (js "list", .list), (js "table", .table), (js "statusCards", .statusCards), (js "log", .log),
    (js "terminal", .terminal), (js "actions", .actions), (js "form", .form),
    (js "checkForm", .checkForm), (js "conditional", .conditional)]

def MODULE_ICON_NAMES : List Text :=
  [js "Activity", js "Boxes", js "Cable", js "Container", js "Cpu", js "FileText",
    js "FolderTree", js "Gauge", js "HardDrive", js "Info", js "Layers", js "ListTree",
    js "Network", js "Server", js "Settings2", js "Sparkles", js "Tag", js "Thermometer", js "Zap"]

def CHART_SERIES_COLORS : List Text :=
  [js "primary", js "cpu", js "mem", js "gpu", js "docker", js "net", js "disk", js "download",
    js "upload", js "success", js "warning", js "destructive", js "muted"]

def VALUE_FORMATS : List Text :=
  [js "bytes", js "rate", js "pct", js "temp", js "number", js "text", js "duration", js "badges"]

def FORM_INPUTS : List Text :=
  [js "number", js "text", js "select", js "checkbox", js "password", js "textarea", js "file",
    js "color"]

def MAX_SPEC_BLOCKS : Nat := 20000
def MAX_SPEC_DEPTH : Nat := 64
def MAX_COLLECTION_ITEMS : Nat := 10000

/-! ### Values -/

mutual

/-- `String(value)`; a record with a `toString` of its own has no text, which throws. -/
def textOf? : Json → Option Text
  | .null => some (js "null")
  | .bool b => some (if b then js "true" else js "false")
  | .num (.fin q) => some (numberText q)
  | .num (.inf negative) => some (if negative then js "-Infinity" else js "Infinity")
  | .num .nan => some (js "NaN")
  | .str s => some s
  | .arr items => (itemTexts? items).map (join (js ","))
  | .obj fields => if fields.any (·.1 == js "toString") then none else some (js "[object Object]")

def itemTexts? : List Json → Option (List Text)
  | [] => some []
  | .null :: items => (itemTexts? items).map ([] :: ·)
  | item :: items => (textOf? item).bind fun text => (itemTexts? items).map (text :: ·)

end

/-- `String(value)` of a field, which may be absent. -/
def stringOf : Option Json → Except Text Text
  | none => .ok (js "undefined")
  | some value =>
    match textOf? value with
    | some text => .ok text
    | none => .error (js "Cannot convert object to primitive value")

/-- `value != null` -/
def isGiven : Option Json → Bool
  | none => false
  | some .null => false
  | some _ => true

def isOneOf (value : Option Json) (texts : List Text) : Bool :=
  match value with
  | some (.str s) => decide (s ∈ texts)
  | _ => false

/-- `typeof value === 'string' && value` -/
def isFilled : Option Json → Bool
  | some (.str s) => decide (s ≠ [])
  | _ => false

/-- The items of a value that is an array. -/
def elements (value : Option Json) : List Json := (value.bind Json.items?).getD []

/-! ### Checks -/

/-- The problems that a check finds, or the text of what it throws. -/
abbrev Check := Except Text (List Text)

/-- One check after another. -/
def checkAll : List Check → Check
  | [] => .ok []
  | .error text :: _ => .error text
  | .ok problems :: checks => (checkAll checks).map (problems ++ ·)

def pushIf (condition : Bool) (message : Text) : Check := .ok (if condition then [message] else [])

/-- A problem with a value in its text. -/
def pushValue (condition : Bool) (before : Text) (value : Option Json) (after : Text) : Check :=
  if condition then (stringOf value).map fun text => [before ++ text ++ after] else .ok []

/-- The check of what is in a record. -/
def checkRecord (place : Text) (value : Option Json) (check : Json → Check) : Check :=
  match value with
  | some (.obj fields) => check (.obj fields)
  | _ => pushIf true (place ++ js " is not an object")

def itemPlace (place : Text) (i : Nat) : Text := place ++ js "[" ++ decimal i ++ js "]"

/-- The check of each item of an array. -/
def checkEach (place : Text) (items : List Json) (check : Text → Json → Check) : Check :=
  checkAll (items.zipIdx.map fun e => check (itemPlace place e.2) e.1)

def checkRequiredString (place : Text) (value : Option Json) : Check :=
  pushIf (match value with
    | some (.str s) => decide (trim s = [])
    | _ => true) (place ++ js " is missing")

def checkOptionalString (place : Text) (value : Option Json) : Check :=
  pushIf (isGiven value && !(match value with
    | some (.str _) => true
    | _ => false)) (place ++ js " is not a string")

def checkOptionalBoolean (place : Text) (value : Option Json) : Check :=
  pushIf (isGiven value && !(match value with
    | some (.bool _) => true
    | _ => false)) (place ++ js " is not a boolean")

/-- A finite number with a least value, and a whole one if `integer`. -/
def isNumber (value : Option Json) (least : Option ℚ) (integer : Bool) : Bool :=
  match value with
  | some (.num v) =>
    (!integer || v.integer?.isSome) &&
      v.finite?.any fun q => least.all fun least => decide (least ≤ q)
  | _ => false

def checkOptionalFiniteNumber (place : Text) (value : Option Json) (least : Option ℚ)
    (integer : Bool) : Check :=
  pushIf (isGiven value && !isNumber value least integer) (place ++ js " is not a valid number")

/-- An array of strings; the callers that want one at all want it not empty. -/
def checkStringArray (place : Text) (value : Option Json) (nonEmpty : Bool) : Check :=
  if !isGiven value && !nonEmpty then .ok []
  else
    match value with
    | some (.arr items) =>
      if nonEmpty && items.isEmpty || items.any fun item => !isFilled (some item) then
        pushIf true (place ++ js " is not an array of non-empty strings")
      else pushIf (decide (MAX_COLLECTION_ITEMS < items.length))
        (place ++ js " contains too many items")
    | _ => pushIf true (place ++ js " is not an array of non-empty strings")

def checkObjectArray (place : Text) (value : Option Json) (required nonEmpty : Bool) : Check :=
  if !isGiven value && !required then .ok []
  else
    let problem := place ++ js " is not a" ++ (if nonEmpty then js " non-empty" else js "n") ++
      js " array"
    match value with
    | some (.arr items) =>
      if nonEmpty && items.isEmpty then pushIf true problem
      else pushIf (decide (MAX_COLLECTION_ITEMS < items.length))
        (place ++ js " contains too many items")
    | _ => pushIf true problem

def checkFormat (place : Text) (format : Option Json) : Check :=
  pushValue (isGiven format && !isOneOf format VALUE_FORMATS) (place ++ js ": \"") format
    (js "\" is not a value format")

variable (manifest : Manifest)

def checkMethod (place : Text) (method : Option Json) : Check :=
  pushValue (!isOneOf method manifest.methods) (place ++ js ": method \"") method
    (js "\" is not declared in manifest.methods")

def checkHistoryStream (place : Text) (stream : Option Json) : Check :=
  match stream with
  | some (.str name) =>
    if name = [] then pushIf true (place ++ js ".stream is missing")
    else pushIf (!ownsHistoryStream manifest.id name && !decide (name ∈ CORE_HISTORY_STREAMS))
      (place ++ js ": history stream \"" ++ name ++ js "\" belongs to another module - use \"" ++
        manifest.id ++ js "\", \"" ++ manifest.id ++ js "-<name>\", or one of " ++
        join (js ", ") CORE_HISTORY_STREAMS)
  | _ => pushIf true (place ++ js ".stream is missing")

/-- The source itself, by its kind. -/
def checkKind (place : Text) (s : Json) : Check :=
  let kind := s.field? (js "kind")
  if isOneOf kind [js "stream"] then
    checkAll [
      pushValue (!isOneOf (s.field? (js "event")) manifest.streams) (place ++ js ": stream \"")
        (s.field? (js "event")) (js "\" is not declared in manifest.streams"),
      checkOptionalString (place ++ js ".path") (s.field? (js "path"))]
  else if isOneOf kind [js "invoke"] then
    checkAll [
      checkMethod manifest place (s.field? (js "method")),
      pushIf (isGiven (s.field? (js "args")) && !((s.field? (js "args")).bind Json.items?).isSome)
        (place ++ js ".args is not an array"),
      checkOptionalString (place ++ js ".intervalKey") (s.field? (js "intervalKey")),
      checkOptionalString (place ++ js ".path") (s.field? (js "path"))]
  else if isOneOf kind [js "history"] then
    checkAll [
      checkHistoryStream manifest place (s.field? (js "stream")),
      checkStringArray (place ++ js ".keys") (s.field? (js "keys")) true]
  else if isOneOf kind [js "core"] then
    checkAll [
      pushValue (!isOneOf (s.field? (js "stream")) [js "system", js "top", js "services"])
        (place ++ js ": \"") (s.field? (js "stream"))
        (js "\" is not a core stream (system, top, services)"),
      checkOptionalString (place ++ js ".path") (s.field? (js "path"))]
  else pushValue true (place ++ js ".kind \"") kind (js "\" is not a data source kind")

def checkSource (place : Text) (source : Option Json) : Check :=
  match source with
  | some (.obj fields) => checkKind manifest place (.obj fields)
  | _ => pushIf true (place ++ js " is missing")

def checkPrompt (place : Text) (prompt : Option Json) : Check :=
  if isGiven prompt then
    checkRecord place prompt fun prompt => checkAll [
      checkRequiredString (place ++ js ".label") (prompt.field? (js "label")),
      pushIf (!isOneOf (prompt.field? (js "input")) [js "number", js "text"])
        (place ++ js ".input must be number or text"),
      checkOptionalString (place ++ js ".initialKey") (prompt.field? (js "initialKey"))]
  else .ok []

def checkDanger (place : Text) (kind : Option Json) : Check :=
  pushIf (isGiven kind && !isOneOf kind [js "default", js "danger"])
    (place ++ js ".kind must be default or danger")

def checkAction (place : Text) (action : Option Json) : Check :=
  checkRecord place action fun a => checkAll [
    checkRequiredString (place ++ js ".label") (a.field? (js "label")),
    checkMethod manifest place (a.field? (js "method")),
    checkStringArray (place ++ js ".argsFromRow") (a.field? (js "argsFromRow")) false,
    pushIf (isGiven (a.field? (js "args")) && !((a.field? (js "args")).bind Json.items?).isSome)
      (place ++ js ".args is not an array"),
    checkOptionalString (place ++ js ".confirm") (a.field? (js "confirm")),
    checkDanger place (a.field? (js "kind")),
    checkPrompt (place ++ js ".prompt") (a.field? (js "prompt"))]

/-- An array of actions, and each of them. -/
def checkActions (place : Text) (actions : Option Json) (required : Bool) : Check :=
  checkAll [
    checkObjectArray place actions required required,
    checkEach place (elements actions) fun place action => checkAction manifest place (some action)]

/-! ### Forms -/

def checkOptions (place : Text) (input options : Option Json) : Check :=
  if isGiven options then
    checkAll [
      pushIf (!isOneOf input [js "select"]) (place ++ js ".options only applies to a select"),
      checkObjectArray (place ++ js ".options") options false true,
      checkEach (place ++ js ".options") (elements options) fun place option =>
        checkRecord place (some option) fun option => checkAll [
          checkRequiredString (place ++ js ".value") (option.field? (js "value")),
          checkRequiredString (place ++ js ".label") (option.field? (js "label"))]]
  else .ok []

def checkInitial (place : Text) (initial : Option Json) : Check :=
  pushIf (match initial with
    | some (.arr _) | some (.obj _) => true
    | _ => false) (place ++ js ".initial has an unsupported type")

/-- What a field has besides its key. -/
def checkField (place : Text) (f : Json) : Check :=
  let input := f.field? (js "input")
  let optionsFrom := f.field? (js "optionsFrom")
  let accept := f.field? (js "accept")
  let maxKb := f.field? (js "maxKb")
  let options := f.field? (js "options")
  checkAll [
    pushValue (!isOneOf input FORM_INPUTS) (place ++ js ".input \"") input
      (js "\" is not a form input"),
    pushIf (isGiven optionsFrom && !isOneOf input [js "select"])
      (place ++ js ".optionsFrom only applies to a select"),
    if isGiven optionsFrom then checkSource manifest (place ++ js ".optionsFrom") optionsFrom
      else .ok [],
    pushIf (isGiven accept && !isOneOf input [js "file"])
      (place ++ js ".accept only applies to a file input"),
    checkOptionalString (place ++ js ".accept") accept,
    pushIf (isGiven maxKb && !isOneOf input [js "file"])
      (place ++ js ".maxKb only applies to a file input"),
    checkOptionalFiniteNumber (place ++ js ".maxKb") maxKb (some 1) false,
    checkOptionalBoolean (place ++ js ".omitOnApply") (f.field? (js "omitOnApply")),
    checkRequiredString (place ++ js ".label") (f.field? (js "label")),
    checkOptionalString (place ++ js ".placeholder") (f.field? (js "placeholder")),
    checkOptionalString (place ++ js ".help") (f.field? (js "help")),
    checkOptionalString (place ++ js ".initialFromScope") (f.field? (js "initialFromScope")),
    checkInitial place (f.field? (js "initial")),
    checkOptions place input options,
    pushIf (isGiven options && isGiven optionsFrom)
      (place ++ js " cannot declare both options and optionsFrom")]

/-- `key` of a field, if it is one. -/
def keyOf? (field : Json) : Option Text :=
  match field.field? (js "key") with
  | some (.str key) => if key = [] then none else some key
  | _ => none

def checkKey (place : Text) (seen : List Text) (f : Json) : Check :=
  match keyOf? f with
  | none => pushIf true (place ++ js ".key is missing")
  | some key => pushIf (decide (key ∈ seen)) (place ++ js ".key \"" ++ key ++ js "\" is used twice")

/-- The fields from index `i` on, behind those with the keys `seen`. -/
def checkFieldsFrom (place : Text) (seen : List Text) (i : Nat) : List Json → Check
  | [] => .ok []
  | field :: fields =>
    checkAll [
      checkRecord (itemPlace place i) (some field) fun f => checkAll [
        checkKey (itemPlace place i) seen f, checkField manifest (itemPlace place i) f],
      checkFieldsFrom place ((keyOf? field).toList ++ seen) (i + 1) fields]

def checkFields (place : Text) (fields : Option Json) : Check :=
  match fields with
  | some (.arr (field :: fields)) => checkFieldsFrom manifest place [] 0 (field :: fields)
  | _ => pushIf true (place ++ js " is empty")

/-! ### Blocks -/

def checkSection (place : Text) (b : Json) : Check :=
  checkAll [
    checkObjectArray (place ++ js ".blocks") (b.field? (js "blocks")) true false,
    checkOptionalString (place ++ js ".title") (b.field? (js "title")),
    checkOptionalString (place ++ js ".slowTarget") (b.field? (js "slowTarget")),
    checkOptionalFiniteNumber (place ++ js ".columns") (b.field? (js "columns")) (some 1) true]

/-- `id` of a subnav item: a lowercase letter and at most 31 more letters, digits and dashes. -/
def subnavId? (item : Json) : Option Text :=
  match item.field? (js "id") with
  | some (.str id) =>
    if id.head?.any isLower && id.all isIdUnit && decide (id.length ≤ 32) then some id else none
  | _ => none

def checkSubnavItem (place : Text) (ids : List Text) (item : Json) : Check :=
  checkAll [
    match subnavId? item with
    | none => pushIf true (place ++ js ".id is not a valid subnav id")
    | some id => pushIf (decide (id ∈ ids)) (place ++ js ".id \"" ++ id ++ js "\" is used twice"),
    checkRequiredString (place ++ js ".label") (item.field? (js "label")),
    pushValue (isGiven (item.field? (js "icon")) &&
        !isOneOf (item.field? (js "icon")) MODULE_ICON_NAMES)
      (place ++ js ".icon \"") (item.field? (js "icon")) (js "\" is not a module icon"),
    checkObjectArray (place ++ js ".blocks") (item.field? (js "blocks")) true false]

def checkSubnavItems (place : Text) (ids : List Text) (i : Nat) : List Json → Check
  | [] => .ok []
  | item :: items =>
    checkAll [
      checkRecord (itemPlace place i) (some item) (checkSubnavItem (itemPlace place i) ids),
      checkSubnavItems place ((subnavId? item).toList ++ ids) (i + 1) items]

def checkSubnav (place : Text) (b : Json) : Check :=
  let items := elements (b.field? (js "items"))
  checkAll [
    pushIf (!((b.field? (js "items")).bind Json.items?).isSome || decide (items.length < 1) ||
        decide (32 < items.length))
      (place ++ js ".items must be an array of 1 to 32 items"),
    checkSubnavItems (place ++ js ".items") [] 0 items,
    pushIf (isGiven (b.field? (js "initial")) &&
        !isOneOf (b.field? (js "initial")) (items.filterMap subnavId?))
      (place ++ js ".initial must name a subnav item")]

def checkNote (place : Text) (b : Json) : Check :=
  let lines := elements (b.field? (js "lines"))
  checkAll [
    checkOptionalString (place ++ js ".title") (b.field? (js "title")),
    pushIf (decide (lines.length < 1) || decide (32 < lines.length) ||
        lines.any fun line => match line with
          | .str s => decide (trim s = [])
          | _ => true)
      (place ++ js ".lines must be an array of 1 to 32 non-empty strings"),
    pushIf (isGiven (b.field? (js "tone")) &&
        !isOneOf (b.field? (js "tone")) [js "info", js "warning"])
      (place ++ js ".tone must be info or warning")]

/-- The fields that `stat` and `meter` share. -/
def checkFigure (place : Text) (b : Json) : Check :=
  checkAll [
    pushIf (!isFilled (b.field? (js "label"))) (place ++ js ".label is missing"),
    checkSource manifest (place ++ js ".source") (b.field? (js "source")),
    checkFormat place (b.field? (js "format"))]

def checkSpark (place : Text) (spark : Option Json) : Check :=
  if isGiven spark then
    checkRecord place spark fun spark => checkAll [
      checkSource manifest (place ++ js ".source") (spark.field? (js "source")),
      checkRequiredString (place ++ js ".key") (spark.field? (js "key"))]
  else .ok []

def checkStat (place : Text) (b : Json) : Check :=
  checkAll [
    checkFigure manifest place b,
    checkSpark manifest (place ++ js ".spark") (b.field? (js "spark"))]

def checkMeter (place : Text) (b : Json) : Check :=
  checkAll [
    checkFigure manifest place b,
    checkOptionalFiniteNumber (place ++ js ".max") (b.field? (js "max")) none false]

def checkSeries (place : Text) (s : Json) : Check :=
  checkAll [
    checkRequiredString (place ++ js ".key") (s.field? (js "key")),
    checkRequiredString (place ++ js ".label") (s.field? (js "label")),
    checkOptionalString (place ++ js ".unit") (s.field? (js "unit")),
    pushIf (isGiven (s.field? (js "axis")) &&
        !isOneOf (s.field? (js "axis")) [js "left", js "right"])
      (place ++ js ".axis must be left or right"),
    checkFormat place (s.field? (js "format")),
    pushValue (isGiven (s.field? (js "color")) &&
        !isOneOf (s.field? (js "color")) CHART_SERIES_COLORS)
      (place ++ js ".color \"") (s.field? (js "color")) (js "\" is not a chart colour")]

def checkChart (place : Text) (b : Json) : Check :=
  let series := b.field? (js "series")
  let hasRightAxis := (elements series).any fun s => isOneOf (s.field? (js "axis")) [js "right"]
  checkAll [
    checkSource manifest (place ++ js ".source") (b.field? (js "source")),
    pushIf (!isOneOf (b.field? (js "kind")) [js "line", js "area", js "bar"])
      (place ++ js ".kind must be line, area or bar"),
    pushIf (series.isSome && (elements series).isEmpty) (place ++ js ".series is empty"),
    checkEach (place ++ js ".series") (elements series) fun place s =>
      checkRecord place (some s) (checkSeries place),
    checkOptionalString (place ++ js ".title") (b.field? (js "title")),
    checkOptionalString (place ++ js ".unit") (b.field? (js "unit")),
    checkOptionalBoolean (place ++ js ".stacked") (b.field? (js "stacked")),
    checkOptionalFiniteNumber (place ++ js ".window") (b.field? (js "window")) (some 1) false,
    pushIf ((match b.field? (js "stacked") with
        | some (.bool stacked) => stacked
        | _ => false) && hasRightAxis)
      (place ++ js ": stacked cannot be used with a right axis"),
    pushIf (isGiven (b.field? (js "maxSeries")) &&
        !isNumber (b.field? (js "maxSeries")) (some 1) false)
      (place ++ js ".maxSeries must be a positive number"),
    pushIf (isGiven (b.field? (js "decimals")) &&
        !isNumber (b.field? (js "decimals")) (some 0) false)
      (place ++ js ".decimals must be a non-negative number"),
    checkFormat place (b.field? (js "format"))]

def checkSlice (place : Text) (s : Json) : Check :=
  checkAll [
    pushIf (!isFilled (s.field? (js "key"))) (place ++ js ".key is missing"),
    pushIf (!isFilled (s.field? (js "label"))) (place ++ js ".label is missing"),
    pushIf (!isOneOf (s.field? (js "status")) [js "ok", js "warn", js "bad", js "unknown"])
      (place ++ js ".status must be ok, warn, bad or unknown")]

def checkCenter (place : Text) (center : Option Json) : Check :=
  if isGiven center then
    checkRecord place center fun center => checkAll [
      pushIf (!isFilled (center.field? (js "key"))) (place ++ js ".key is missing"),
      checkOptionalString (place ++ js ".label") (center.field? (js "label"))]
  else .ok []

def checkPie (place : Text) (b : Json) : Check :=
  let slices := elements (b.field? (js "slices"))
  checkAll [
    checkSource manifest (place ++ js ".source") (b.field? (js "source")),
    pushIf slices.isEmpty (place ++ js ".slices is empty"),
    checkEach (place ++ js ".slices") slices fun place s =>
      checkRecord place (some s) (checkSlice place),
    checkCenter (place ++ js ".center") (b.field? (js "center")),
    checkOptionalString (place ++ js ".emptyText") (b.field? (js "emptyText")),
    checkFormat place (b.field? (js "format"))]

def checkKeyValueRow (place : Text) (row : Json) : Check :=
  checkAll [
    checkRequiredString (place ++ js ".key") (row.field? (js "key")),
    checkRequiredString (place ++ js ".label") (row.field? (js "label")),
    checkFormat place (row.field? (js "format"))]

def checkKeyValue (place : Text) (b : Json) : Check :=
  checkAll [
    checkSource manifest (place ++ js ".source") (b.field? (js "source")),
    checkObjectArray (place ++ js ".rows") (b.field? (js "rows")) true true,
    checkEach (place ++ js ".rows") (elements (b.field? (js "rows"))) fun place row =>
      checkRecord place (some row) (checkKeyValueRow place)]

/-- The fields that the columns of `list` and `table` share. -/
def checkColumn (place : Text) (column : Json) : Check :=
  checkAll [
    checkRequiredString (place ++ js ".key") (column.field? (js "key")),
    checkOptionalString (place ++ js ".label") (column.field? (js "label")),
    checkFormat place (column.field? (js "format")),
    pushIf (isGiven (column.field? (js "align")) &&
        !isOneOf (column.field? (js "align")) [js "left", js "right"])
      (place ++ js ".align must be left or right")]

def checkList (place : Text) (b : Json) : Check :=
  checkAll [
    checkSource manifest (place ++ js ".source") (b.field? (js "source")),
    checkObjectArray (place ++ js ".columns") (b.field? (js "columns")) true true,
    checkEach (place ++ js ".columns") (elements (b.field? (js "columns"))) fun place column =>
      checkRecord place (some column) (checkColumn place),
    checkOptionalFiniteNumber (place ++ js ".limit") (b.field? (js "limit")) (some 1) true,
    checkOptionalString (place ++ js ".emptyText") (b.field? (js "emptyText"))]

def checkTableColumn (place : Text) (column : Json) : Check :=
  checkAll [
    checkColumn place column,
    checkOptionalBoolean (place ++ js ".sortable") (column.field? (js "sortable")),
    checkOptionalBoolean (place ++ js ".aggregate") (column.field? (js "aggregate"))]

def checkSortDefault (place : Text) (sortDefault : Option Json) : Check :=
  if isGiven sortDefault then
    checkRecord place sortDefault fun sortDefault => checkAll [
      checkRequiredString (place ++ js ".key") (sortDefault.field? (js "key")),
      pushIf (!isOneOf (sortDefault.field? (js "dir")) [js "asc", js "desc"])
        (place ++ js ".dir must be asc or desc")]
  else .ok []

def checkGroupMode (place : Text) (mode : Json) : Check :=
  checkAll [
    checkRequiredString (place ++ js ".id") (mode.field? (js "id")),
    checkRequiredString (place ++ js ".label") (mode.field? (js "label")),
    checkRequiredString (place ++ js ".key") (mode.field? (js "key")),
    checkOptionalString (place ++ js ".parentIdKey") (mode.field? (js "parentIdKey"))]

/-- `value === true` -/
def isTrue (value : Option Json) : Bool := match value with
  | some (.bool b) => b
  | _ => false

def checkTable (place : Text) (b : Json) : Check :=
  checkAll [
    checkSource manifest (place ++ js ".source") (b.field? (js "source")),
    checkObjectArray (place ++ js ".columns") (b.field? (js "columns")) true true,
    checkEach (place ++ js ".columns") (elements (b.field? (js "columns"))) fun place column =>
      checkRecord place (some column) (checkTableColumn place),
    checkOptionalString (place ++ js ".rowKey") (b.field? (js "rowKey")),
    checkStringArray (place ++ js ".filterKeys") (b.field? (js "filterKeys")) false,
    checkOptionalBoolean (place ++ js ".selectable") (b.field? (js "selectable")),
    checkOptionalString (place ++ js ".emptyText") (b.field? (js "emptyText")),
    checkSortDefault (place ++ js ".sortDefault") (b.field? (js "sortDefault")),
    checkObjectArray (place ++ js ".groupModes") (b.field? (js "groupModes")) false false,
    checkEach (place ++ js ".groupModes") (elements (b.field? (js "groupModes"))) fun place mode =>
      checkRecord place (some mode) (checkGroupMode place),
    checkActions manifest (place ++ js ".rowActions") (b.field? (js "rowActions")) false,
    checkActions manifest (place ++ js ".bulkActions") (b.field? (js "bulkActions")) false,
    checkObjectArray (place ++ js ".rowDetail") (b.field? (js "rowDetail")) false false,
    pushIf (isTrue (b.field? (js "selectable")) && !isFilled (b.field? (js "rowKey")))
      (place ++ js ".rowKey is required when selectable is true"),
    pushIf (!(elements (b.field? (js "bulkActions"))).isEmpty &&
        !isTrue (b.field? (js "selectable")))
      (place ++ js ".bulkActions needs selectable: true, or nothing can reach them")]

def checkCardItems (place : Text) (items : Option Json) : Check :=
  if isGiven items then
    checkRecord place items fun items => checkAll [
      pushIf (!isFilled (items.field? (js "key"))) (place ++ js ".key is missing"),
      checkOptionalFiniteNumber (place ++ js ".visibleRows") (items.field? (js "visibleRows"))
        (some 1) true,
      checkAll ([js "labelKey", js "statusKey", js "pinnedKey", js "pinnedFilterLabel",
        js "emptyText"].map fun field =>
          checkOptionalString (place ++ js "." ++ field) (items.field? field))]
  else pushIf true (place ++ js " is missing")

def checkCardNote (place : Text) (note : Option Json) : Check :=
  if isGiven note then
    checkRecord place note fun note => checkAll [
      checkRequiredString (place ++ js ".key") (note.field? (js "key")),
      checkOptionalString (place ++ js ".label") (note.field? (js "label")),
      checkOptionalBoolean (place ++ js ".startOpen") (note.field? (js "startOpen"))]
  else .ok []

def checkCardColumns (place : Text) (columns : Option Json) : Check :=
  if isGiven columns then
    checkRecord place columns fun columns => checkAll (
      [js "default", js "min", js "max"].map fun field =>
        checkOptionalFiniteNumber (place ++ js "." ++ field) (columns.field? field) (some 1) true)
  else .ok []

def checkStatusCards (place : Text) (b : Json) : Check :=
  checkAll [
    checkSource manifest (place ++ js ".source") (b.field? (js "source")),
    checkAll ([js "rowKey", js "titleKey", js "statusKey"].map fun field =>
      pushIf (!isFilled (b.field? field)) (place ++ js "." ++ field ++ js " is missing")),
    checkCardItems (place ++ js ".items") (b.field? (js "items")),
    checkOptionalString (place ++ js ".subtitleKey") (b.field? (js "subtitleKey")),
    checkOptionalString (place ++ js ".emptyText") (b.field? (js "emptyText")),
    checkCardNote (place ++ js ".note") (b.field? (js "note")),
    checkCardColumns (place ++ js ".columns") (b.field? (js "columns")),
    checkActions manifest (place ++ js ".rowActions") (b.field? (js "rowActions")) false,
    checkObjectArray (place ++ js ".rowDetail") (b.field? (js "rowDetail")) false false]

/-- A method that may be left out. -/
def checkOptionalMethod (place : Text) (method : Option Json) : Check :=
  if isGiven method then checkMethod manifest place method else .ok []

def checkLog (place : Text) (b : Json) : Check :=
  checkAll [
    pushIf (!isFilled (b.field? (js "event"))) (place ++ js ".event is missing"),
    checkOptionalMethod manifest (place ++ js ".startMethod") (b.field? (js "startMethod")),
    checkOptionalMethod manifest (place ++ js ".stopMethod") (b.field? (js "stopMethod")),
    checkStringArray (place ++ js ".argsFromScope") (b.field? (js "argsFromScope")) false]

def checkTerminal (place : Text) (b : Json) : Check :=
  checkAll [
    pushIf (!isFilled (b.field? (js "label"))) (place ++ js ".label is missing"),
    pushIf (!isFilled (b.field? (js "commandTemplate")))
      (place ++ js ".commandTemplate is missing")]

def checkForm (place : Text) (b : Json) : Check :=
  checkAll [
    checkOptionalString (place ++ js ".title") (b.field? (js "title")),
    checkFields manifest (place ++ js ".fields") (b.field? (js "fields")),
    checkAction manifest (place ++ js ".submit") (b.field? (js "submit"))]

def checkCheckForm (place : Text) (b : Json) : Check :=
  checkAll [
    checkOptionalString (place ++ js ".title") (b.field? (js "title")),
    checkFields manifest (place ++ js ".fields") (b.field? (js "fields")),
    checkMethod manifest (place ++ js ".checkMethod") (b.field? (js "checkMethod")),
    checkMethod manifest (place ++ js ".applyMethod") (b.field? (js "applyMethod")),
    checkStringArray (place ++ js ".argsFromScope") (b.field? (js "argsFromScope")) false,
    checkOptionalString (place ++ js ".checkLabel") (b.field? (js "checkLabel")),
    checkOptionalString (place ++ js ".applyLabel") (b.field? (js "applyLabel")),
    checkDanger place (b.field? (js "kind"))]

def checkWhen (place : Text) (when : Option Json) : Check :=
  if isGiven when then
    checkRecord place when fun when => checkAll [
      checkSource manifest (place ++ js ".source") (when.field? (js "source")),
      checkOptionalString (place ++ js ".path") (when.field? (js "path")),
      pushIf (!isOneOf (when.field? (js "op")) [js "exists", js "eq", js "gt"])
        (place ++ js ".op must be exists, eq or gt")]
  else pushIf true (place ++ js " is missing")

def checkConditional (place : Text) (b : Json) : Check :=
  checkAll [
    checkWhen manifest (place ++ js ".when") (b.field? (js "when")),
    checkObjectArray (place ++ js ".blocks") (b.field? (js "blocks")) true false,
    checkObjectArray (place ++ js ".else") (b.field? (js "else")) false false]

def blockType? (b : Json) : Option BlockType :=
  match b.field? (js "type") with
  | some (.str type) => (BLOCK_TYPES.find? fun e => decide (e.1 = type)).map Prod.snd
  | _ => none

/-- The fields of a block, by its type. -/
def checkFieldsOf (place : Text) (b : Json) : BlockType → Check
  | .section_ => checkSection place b
  | .subnav => checkSubnav place b
  | .note => checkNote place b
  | .stat => checkStat manifest place b
  | .meter => checkMeter manifest place b
  | .chart => checkChart manifest place b
  | .pie => checkPie manifest place b
  | .keyValue => checkKeyValue manifest place b
  | .list => checkList manifest place b
  | .table => checkTable manifest place b
  | .statusCards => checkStatusCards manifest place b
  | .log => checkLog manifest place b
  | .terminal => checkTerminal place b
  | .actions => checkActions manifest (place ++ js ".actions") (b.field? (js "actions")) true
  | .form => checkForm manifest place b
  | .checkForm => checkCheckForm manifest place b
  | .conditional => checkConditional manifest place b

def checkBlock (place : Text) (block : Json) : Check :=
  checkRecord place (some block) fun b =>
    match blockType? b with
    | none => pushValue true (place ++ js ".type \"") (b.field? (js "type"))
      (js "\" is not a known block type")
    | some type => checkFieldsOf manifest place b type

/-! ### The whole page -/

/-- The arrays of blocks in a block, each with its path. -/
def nestedBlockArrays (block : Json) : List (Text × List Json) :=
  let array (key : Text) : List (Text × List Json) :=
    (((block.field? key).bind Json.items?).map fun blocks => (key, blocks)).toList
  array (js "blocks") ++ array (js "rowDetail") ++ array (js "else") ++
    (elements (block.field? (js "items"))).zipIdx.filterMap fun e =>
      ((e.1.field? (js "blocks")).bind Json.items?).map fun blocks =>
        (itemPlace (js "items") e.2 ++ js ".blocks", blocks)

structure Walk where
  problems : List Text
  blockCount : Nat

/-- One turn of the loop over the blocks; `enter` is the walk over a nested array. -/
def visit (enter : List Json → Text → Walk → Except Text Walk) (path : Text) (w : Walk)
    (e : Json × Nat) : Except Text Walk :=
  if MAX_SPEC_BLOCKS < w.blockCount + 1 then .ok { w with blockCount := w.blockCount + 1 }
  else
    match checkBlock manifest (itemPlace path e.2) e.1 with
    | .error text => .error text
    | .ok problems =>
      (nestedBlockArrays e.1).foldlM
        (fun w nested => enter nested.2 (itemPlace path e.2 ++ js "." ++ nested.1) w)
        ⟨w.problems ++ problems, w.blockCount + 1⟩

/-- `walk(blocks, path, depth)`, with the levels that are left: none where the depth is over
the maximum. -/
def walk : Nat → List Json → Text → Walk → Except Text Walk
  | 0, _, path, w =>
    .ok { w with problems := w.problems ++ [path ++ js " exceeds the maximum nesting depth"] }
  | levels + 1, blocks, path, w => blocks.zipIdx.foldlM (visit manifest (walk levels) path) w

/-- `/https?:\/\//i.test(text)` -/
def hasUrl (text : Text) : Bool :=
  (toLowerAscii text).tails.any fun rest =>
    (js "http://").isPrefixOf rest || (js "https://").isPrefixOf rest

mutual

def containsUrl : Json → Bool
  | .str s => hasUrl s
  | .arr items => anyUrl items
  | .obj fields => fieldUrl fields
  | _ => false

def anyUrl : List Json → Bool
  | [] => false
  | item :: items => containsUrl item || anyUrl items

def fieldUrl : List (Text × Json) → Bool
  | [] => false
  | (_, value) :: fields => containsUrl value || fieldUrl fields

end

/-- The reasons why a page or widget is unusable. -/
def specProblems (spec : Json) : Check :=
  match spec with
  | .obj fields =>
    match (Json.obj fields).field? (js "blocks") with
    | some (.arr topBlocks) => do
      let first ← checkOptionalFiniteNumber (js "spec.window")
        ((Json.obj fields).field? (js "window")) (some 1) false
      let w ← walk manifest (MAX_SPEC_DEPTH + 1) topBlocks (js "blocks") ⟨first, 0⟩
      .ok (w.problems ++
        (if MAX_SPEC_BLOCKS < w.blockCount then [js "spec contains too many blocks"] else []) ++
        if containsUrl spec then
          [js "spec contains a URL (http:// or https://) - modules may not reference remote content"]
        else [])
    | _ => .ok [js "spec.blocks is missing"]
  | _ => .ok [js "spec is not an object"]

end BoredManager.Shared.ModuleUi
