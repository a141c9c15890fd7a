import BoredManager.Js.Outcome
import BoredManager.Machine.Forest
import BoredManager.Shared.ModuleUi

/-! An accepted page or widget has known blocks only, at any depth, which use only what the
manifest declares. -/
namespace BoredManager.Shared.ModuleUi
open BoredManager.Js BoredManager.Machine

/-! ### What a block uses -/

/-- The value of a field that is given. -/
def given (b : Json) (key : Text) : List Json :=
  (b.field? key).toList.filter fun value => isGiven (some value)

/-- The values in the block positions of a block. -/
def childBlocks (b : Json) : List Json :=
  match blockType? b with
  | some .section_ => elements (b.field? (js "blocks"))
  | some .subnav =>
    (elements (b.field? (js "items"))).flatMap fun item => elements (item.field? (js "blocks"))
  | some .table | some .statusCards => elements (b.field? (js "rowDetail"))
  | some .conditional => elements (b.field? (js "blocks")) ++ elements (b.field? (js "else"))
  | _ => []

/-- The values in the data-source positions of a block: its source, that of a sparkline, of a
select's options and of a condition. -/
def sourcesOf (b : Json) : List Json :=
  match blockType? b with
  | some .stat => given b (js "source") ++ (given b (js "spark")).flatMap (given · (js "source"))
  | some .meter | some .chart | some .pie | some .keyValue | some .list | some .table
  | some .statusCards => given b (js "source")
  | some .form | some .checkForm =>
    (elements (b.field? (js "fields"))).flatMap (given · (js "optionsFrom"))
  | some .conditional => (given b (js "when")).flatMap (given · (js "source"))
  | _ => []

def actionsOf (b : Json) : List Json :=
  match blockType? b with
  | some .table =>
    elements (b.field? (js "rowActions")) ++ elements (b.field? (js "bulkActions"))
  | some .statusCards => elements (b.field? (js "rowActions"))
  | some .actions => elements (b.field? (js "actions"))
  | some .form => given b (js "submit")
  | _ => []

/-- The methods that a block names itself: the check and the apply of a form, the start and the stop
of a log. -/
def ownMethodsOf (b : Json) : List Json :=
  match blockType? b with
  | some .checkForm => given b (js "checkMethod") ++ given b (js "applyMethod")
  | some .log => given b (js "startMethod") ++ given b (js "stopMethod")
  | _ => []

/-- The values that name a method, in a data source, an action or the block itself. -/
def methodsOf (b : Json) : List Json :=
  ((sourcesOf b).filter fun s => isOneOf (s.field? (js "kind")) [js "invoke"]).flatMap
      (given · (js "method")) ++
    (actionsOf b).flatMap (given · (js "method")) ++
    ownMethodsOf b

/-- The block is of a known type, and the methods and streams that it names are declared; a
history stream is one of the module or of the app. -/
structure UsesDeclared (manifest : Manifest) (b : Json) : Prop where
  known : b.isRecord = true ∧ (blockType? b).isSome
  methods : ∀ m ∈ methodsOf b, ∃ name ∈ manifest.methods, m = .str name
  streams : ∀ s ∈ sourcesOf b, s.field? (js "kind") = some (.str (js "stream")) →
    ∃ event ∈ manifest.streams, s.field? (js "event") = some (.str event)
  history : ∀ s ∈ sourcesOf b, s.field? (js "kind") = some (.str (js "history")) →
    ∃ name, s.field? (js "stream") = some (.str name) ∧
      (ownsHistoryStream manifest.id name = true ∨ name ∈ CORE_HISTORY_STREAMS)

/-! ### Checks that find nothing -/

variable {manifest : Manifest} {place : Text} {b : Json}

theorem checkAll_eq_nil {checks : List Check} :
    checkAll checks = .ok [] ↔ ∀ check ∈ checks, check = .ok [] := by
  induction checks with
  | nil => simp [checkAll]
  | cons check checks ih =>
    cases check with
    | error text => simp [checkAll]
    | ok problems =>
      rw [checkAll]
      cases hrest : checkAll checks with
      | error text =>
        have hne : ¬ ∀ check ∈ checks, check = .ok [] := by simp [← ih, hrest]
        simp only [Except.map, List.forall_mem_cons]
        exact iff_of_false (by simp) fun h => hne h.2
      | ok rest =>
        rw [hrest] at ih
        simp only [Except.map, List.forall_mem_cons, ← ih]
        simp

theorem of_checkAll {checks : List Check} {check : Check} (h : checkAll checks = .ok [])
    (hmem : check ∈ checks) : check = .ok [] := checkAll_eq_nil.mp h check hmem

theorem of_pushIf {condition : Bool} {message : Text} (h : pushIf condition message = .ok []) :
    condition = false := by
  cases condition with
  | false => rfl
  | true => cases h

theorem of_pushValue {condition : Bool} {before after : Text} {value : Option Json}
    (h : pushValue condition before value after = .ok []) : condition = false := by
  cases condition with
  | false => rfl
  | true =>
    rw [pushValue, if_pos rfl] at h
    cases hs : stringOf value with
    | error text => simp [hs, Except.map] at h
    | ok text => simp [hs, Except.map] at h

theorem of_checkRecord {value : Option Json} {check : Json → Check}
    (h : checkRecord place value check = .ok []) :
    ∃ record, value = some record ∧ record.isRecord = true ∧ check record = .ok [] := by
  rw [checkRecord.eq_def] at h
  split at h
  · exact ⟨_, rfl, rfl, h⟩
  · cases of_pushIf h

theorem of_checkEach {items : List Json} {check : Text → Json → Check}
    (h : checkEach place items check = .ok []) {item : Json} (hmem : item ∈ items) :
    ∃ place, check place item = .ok [] := by
  obtain ⟨i, hi, rfl⟩ := List.getElem_of_mem hmem
  refine ⟨itemPlace place i, of_checkAll h (List.mem_map.mpr ⟨(items[i], i), ?_, rfl⟩)⟩
  exact List.mem_zipIdx_iff_getElem?.mpr (by simp [hi])

theorem of_isOneOf {value : Option Json} {texts : List Text} (h : isOneOf value texts = true) :
    ∃ text ∈ texts, value = some (.str text) := by
  rw [isOneOf.eq_def] at h
  split at h
  · exact ⟨_, of_decide_eq_true h, rfl⟩
  · cases h

theorem mem_given {key : Text} {value : Json} :
    value ∈ given b key ↔ b.field? key = some value ∧ isGiven (some value) = true := by
  simp [given, Option.mem_toList]

/-! ### The parts of a block -/

theorem of_checkMethod {value : Json} (h : checkMethod manifest place (some value) = .ok []) :
    ∃ name ∈ manifest.methods, value = .str name := by
  have hknown := of_pushValue h
  rw [Bool.not_eq_false'] at hknown
  obtain ⟨name, hmem, heq⟩ := of_isOneOf hknown
  exact ⟨name, hmem, Option.some.inj heq⟩

theorem method_of_given {key : Text} (h : checkMethod manifest place (b.field? key) = .ok []) :
    ∀ m ∈ given b key, ∃ name ∈ manifest.methods, m = .str name := by
  intro m hm
  obtain ⟨hfield, -⟩ := mem_given.mp hm
  exact of_checkMethod (hfield ▸ h)

theorem method_of_optional {key : Text}
    (h : checkOptionalMethod manifest place (b.field? key) = .ok []) :
    ∀ m ∈ given b key, ∃ name ∈ manifest.methods, m = .str name := by
  intro m hm
  obtain ⟨hfield, hgiven⟩ := mem_given.mp hm
  rw [checkOptionalMethod, hfield, if_pos hgiven] at h
  exact of_checkMethod h

/-- A source names a declared method or stream, or a history stream of the module or the app. -/
structure SourceDeclared (manifest : Manifest) (s : Json) : Prop where
  method : isOneOf (s.field? (js "kind")) [js "invoke"] = true →
    ∀ m ∈ given s (js "method"), ∃ name ∈ manifest.methods, m = .str name
  stream : s.field? (js "kind") = some (.str (js "stream")) →
    ∃ event ∈ manifest.streams, s.field? (js "event") = some (.str event)
  history : s.field? (js "kind") = some (.str (js "history")) →
    ∃ name, s.field? (js "stream") = some (.str name) ∧
      (ownsHistoryStream manifest.id name = true ∨ name ∈ CORE_HISTORY_STREAMS)

theorem of_checkHistoryStream {stream : Option Json}
    (h : checkHistoryStream manifest place stream = .ok []) :
    ∃ name, stream = some (.str name) ∧
      (ownsHistoryStream manifest.id name = true ∨ name ∈ CORE_HISTORY_STREAMS) := by
  rw [checkHistoryStream.eq_def] at h
  split at h
  · rename_i name
    split_ifs at h
    · cases of_pushIf h
    · have hnone := of_pushIf h
      refine ⟨name, rfl, ?_⟩
      simpa only [Bool.and_eq_false_iff, Bool.not_eq_false', decide_eq_true_eq] using hnone
  · cases of_pushIf h

theorem of_checkKind {s : Json} (h : checkKind manifest place s = .ok []) :
    SourceDeclared manifest s := by
  have hother : ∀ kind : Text, isOneOf (some (.str kind)) [kind] = true := by simp [isOneOf]
  rw [checkKind] at h
  split_ifs at h with hstream hinvoke hhistory hcore
  · obtain ⟨kind, hkind, heq⟩ := of_isOneOf hstream
    obtain rfl := List.mem_singleton.mp hkind
    have hevent := of_pushValue (of_checkAll h List.mem_cons_self)
    rw [Bool.not_eq_false'] at hevent
    refine ⟨fun hi => ?_, fun _ => of_isOneOf hevent, fun hh => ?_⟩
    · rw [heq] at hi
      cases hi
    · rw [heq] at hh
      cases hh
  · obtain ⟨kind, hkind, heq⟩ := of_isOneOf hinvoke
    obtain rfl := List.mem_singleton.mp hkind
    refine ⟨fun _ => method_of_given (of_checkAll h List.mem_cons_self), fun hs => ?_, fun hh => ?_⟩
    · rw [heq] at hs
      cases hs
    · rw [heq] at hh
      cases hh
  · obtain ⟨kind, hkind, heq⟩ := of_isOneOf hhistory
    obtain rfl := List.mem_singleton.mp hkind
    refine ⟨fun hi => absurd hi hinvoke, fun hs => ?_,
      fun _ => of_checkHistoryStream (of_checkAll h List.mem_cons_self)⟩
    rw [hs] at hstream
    exact absurd (hother _) hstream
  · refine ⟨fun hi => absurd hi hinvoke, fun hs => ?_, fun hh => ?_⟩
    · rw [hs] at hstream
      exact absurd (hother _) hstream
    · rw [hh] at hhistory
      exact absurd (hother _) hhistory
  · cases of_pushValue h

theorem of_checkSource {source : Json} (h : checkSource manifest place (some source) = .ok []) :
    SourceDeclared manifest source := by
  rw [checkSource.eq_def] at h
  split at h
  · rename_i fields heq
    cases heq
    exact of_checkKind h
  · cases of_pushIf h

theorem source_of_given {key : Text} (h : checkSource manifest place (b.field? key) = .ok []) :
    ∀ s ∈ given b key, SourceDeclared manifest s := by
  intro s hs
  obtain ⟨hfield, -⟩ := mem_given.mp hs
  exact of_checkSource (hfield ▸ h)

theorem of_checkAction {action : Json} (h : checkAction manifest place (some action) = .ok []) :
    ∀ m ∈ given action (js "method"), ∃ name ∈ manifest.methods, m = .str name := by
  obtain ⟨record, heq, -, hpassed⟩ := of_checkRecord h
  cases heq
  exact method_of_given (of_checkAll hpassed (List.mem_cons_of_mem _ List.mem_cons_self))

theorem of_checkActions {actions : Option Json} {required : Bool}
    (h : checkActions manifest place actions required = .ok []) :
    ∀ m ∈ (elements actions).flatMap (given · (js "method")),
      ∃ name ∈ manifest.methods, m = .str name := by
  intro m hm
  obtain ⟨action, haction, hm⟩ := List.mem_flatMap.mp hm
  obtain ⟨place, hpassed⟩ :=
    of_checkEach (of_checkAll h (List.mem_cons_of_mem _ List.mem_cons_self)) haction
  exact of_checkAction hpassed m hm

theorem of_checkFieldsFrom {fields : List Json} {seen : List Text} {i : Nat}
    (h : checkFieldsFrom manifest place seen i fields = .ok []) :
    ∀ s ∈ fields.flatMap (given · (js "optionsFrom")), SourceDeclared manifest s := by
  induction fields generalizing seen i with
  | nil => simp
  | cons field fields ih =>
    intro s hs
    rw [checkFieldsFrom] at h
    rw [List.flatMap_cons, List.mem_append] at hs
    obtain hs | hs := hs
    · obtain ⟨record, heq, -, hpassed⟩ := of_checkRecord (of_checkAll h List.mem_cons_self)
      cases heq
      obtain ⟨hfield, hgiven⟩ := mem_given.mp hs
      have hall := of_checkAll hpassed (List.mem_cons_of_mem _ List.mem_cons_self)
      have hsource := of_checkAll hall
        (List.mem_cons_of_mem _ (List.mem_cons_of_mem _ List.mem_cons_self))
      rw [hfield, if_pos hgiven] at hsource
      exact of_checkSource hsource
    · exact ih (of_checkAll h (List.mem_cons_of_mem _ List.mem_cons_self)) s hs

theorem of_checkFields {fields : Option Json}
    (h : checkFields manifest place fields = .ok []) :
    ∀ s ∈ (elements fields).flatMap (given · (js "optionsFrom")), SourceDeclared manifest s := by
  rw [checkFields.eq_def] at h
  split at h
  · exact of_checkFieldsFrom h
  · cases of_pushIf h

/-! ### Blocks -/

/-- What a block names is declared. -/
structure Declares (manifest : Manifest) (b : Json) : Prop where
  sources : ∀ s ∈ sourcesOf b, SourceDeclared manifest s
  actions : ∀ m ∈ (actionsOf b).flatMap (given · (js "method")),
    ∃ name ∈ manifest.methods, m = .str name
  own : ∀ m ∈ ownMethodsOf b, ∃ name ∈ manifest.methods, m = .str name

theorem of_checkFigure (h : checkFigure manifest place b = .ok []) :
    ∀ s ∈ given b (js "source"), SourceDeclared manifest s :=
  source_of_given (of_checkAll h (List.mem_cons_of_mem _ List.mem_cons_self))

theorem of_checkSpark (h : checkSpark manifest place (b.field? (js "spark")) = .ok []) :
    ∀ s ∈ (given b (js "spark")).flatMap (given · (js "source")), SourceDeclared manifest s := by
  intro s hs
  obtain ⟨spark, hspark, hs⟩ := List.mem_flatMap.mp hs
  obtain ⟨hfield, hgiven⟩ := mem_given.mp hspark
  rw [checkSpark, hfield, if_pos hgiven] at h
  obtain ⟨_, heq, -, hpassed⟩ := of_checkRecord h
  cases heq
  exact source_of_given (of_checkAll hpassed List.mem_cons_self) s hs

theorem of_checkWhen (h : checkWhen manifest place (b.field? (js "when")) = .ok []) :
    ∀ s ∈ (given b (js "when")).flatMap (given · (js "source")), SourceDeclared manifest s := by
  intro s hs
  obtain ⟨condition, hcondition, hs⟩ := List.mem_flatMap.mp hs
  obtain ⟨hfield, hgiven⟩ := mem_given.mp hcondition
  rw [checkWhen, hfield, if_pos hgiven] at h
  obtain ⟨_, heq, -, hpassed⟩ := of_checkRecord h
  cases heq
  exact source_of_given (of_checkAll hpassed List.mem_cons_self) s hs

/-- A block whose only uses are those of its source. -/
theorem declares_of_source (hsources : sourcesOf b = given b (js "source"))
    (hactions : actionsOf b = []) (hown : ownMethodsOf b = [])
    (h : checkSource manifest place (b.field? (js "source")) = .ok []) : Declares manifest b := by
  refine ⟨hsources ▸ source_of_given h, ?_, ?_⟩
  · simp [hactions]
  · simp [hown]

theorem declares_of_fields {type : BlockType} (htype : blockType? b = some type)
    (h : checkFieldsOf manifest place b type = .ok []) : Declares manifest b := by
  cases type with
  | section_ | subnav | note | terminal =>
    refine ⟨?_, ?_, ?_⟩ <;> simp [sourcesOf, actionsOf, ownMethodsOf, htype]
  | stat =>
    have hfigure : checkFigure manifest place b = .ok [] := of_checkAll h List.mem_cons_self
    have hspark : checkSpark manifest (place ++ js ".spark") (b.field? (js "spark")) = .ok [] :=
      of_checkAll h (by simp)
    refine ⟨fun s hs => ?_, by simp [actionsOf, htype], by simp [ownMethodsOf, htype]⟩
    simp only [sourcesOf, htype, List.mem_append] at hs
    obtain hs | hs := hs
    · exact of_checkFigure hfigure s hs
    · exact of_checkSpark hspark s hs
  | meter =>
    have hfigure : checkFigure manifest place b = .ok [] := of_checkAll h List.mem_cons_self
    refine ⟨?_, by simp [actionsOf, htype], by simp [ownMethodsOf, htype]⟩
    simpa only [sourcesOf, htype] using of_checkFigure hfigure
  | chart | pie | keyValue | list =>
    refine declares_of_source ?_ ?_ ?_ (of_checkAll h List.mem_cons_self)
    all_goals simp [sourcesOf, actionsOf, ownMethodsOf, htype]
  | table =>
    have hsource : checkSource manifest (place ++ js ".source") (b.field? (js "source")) = .ok [] :=
      of_checkAll h List.mem_cons_self
    have hrow : checkActions manifest (place ++ js ".rowActions") (b.field? (js "rowActions")) false =
        .ok [] := of_checkAll h (by simp)
    have hbulk : checkActions manifest (place ++ js ".bulkActions") (b.field? (js "bulkActions"))
        false = .ok [] := of_checkAll h (by simp)
    refine ⟨?_, fun m hm => ?_, by simp [ownMethodsOf, htype]⟩
    · simpa only [sourcesOf, htype] using source_of_given hsource
    · simp only [actionsOf, htype, List.flatMap_append, List.mem_append] at hm
      obtain hm | hm := hm
      · exact of_checkActions hrow m hm
      · exact of_checkActions hbulk m hm
  | statusCards =>
    have hsource : checkSource manifest (place ++ js ".source") (b.field? (js "source")) = .ok [] :=
      of_checkAll h List.mem_cons_self
    have hrow : checkActions manifest (place ++ js ".rowActions") (b.field? (js "rowActions")) false =
        .ok [] := of_checkAll h (by simp)
    refine ⟨?_, ?_, by simp [ownMethodsOf, htype]⟩
    · simpa only [sourcesOf, htype] using source_of_given hsource
    · simpa only [actionsOf, htype] using of_checkActions hrow
  | log =>
    have hstart : checkOptionalMethod manifest (place ++ js ".startMethod")
        (b.field? (js "startMethod")) = .ok [] := of_checkAll h (by simp)
    have hstop : checkOptionalMethod manifest (place ++ js ".stopMethod")
        (b.field? (js "stopMethod")) = .ok [] := of_checkAll h (by simp)
    refine ⟨by simp [sourcesOf, htype], by simp [actionsOf, htype], fun m hm => ?_⟩
    simp only [ownMethodsOf, htype, List.mem_append] at hm
    obtain hm | hm := hm
    · exact method_of_optional hstart m hm
    · exact method_of_optional hstop m hm
  | actions =>
    refine ⟨by simp [sourcesOf, htype], ?_, by simp [ownMethodsOf, htype]⟩
    simpa only [actionsOf, htype] using of_checkActions h
  | form =>
    have hfields : checkFields manifest (place ++ js ".fields") (b.field? (js "fields")) = .ok [] :=
      of_checkAll h (by simp)
    have hsubmit : checkAction manifest (place ++ js ".submit") (b.field? (js "submit")) = .ok [] :=
      of_checkAll h (by simp)
    refine ⟨?_, fun m hm => ?_, by simp [ownMethodsOf, htype]⟩
    · simpa only [sourcesOf, htype] using of_checkFields hfields
    · simp only [actionsOf, htype] at hm
      obtain ⟨submit, hgiven, hm⟩ := List.mem_flatMap.mp hm
      obtain ⟨hfield, -⟩ := mem_given.mp hgiven
      exact of_checkAction (hfield ▸ hsubmit) m hm
  | checkForm =>
    have hfields : checkFields manifest (place ++ js ".fields") (b.field? (js "fields")) = .ok [] :=
      of_checkAll h (by simp)
    have hcheck : checkMethod manifest (place ++ js ".checkMethod") (b.field? (js "checkMethod")) =
        .ok [] := of_checkAll h (by simp)
    have happly : checkMethod manifest (place ++ js ".applyMethod") (b.field? (js "applyMethod")) =
        .ok [] := of_checkAll h (by simp)
    refine ⟨?_, by simp [actionsOf, htype], fun m hm => ?_⟩
    · simpa only [sourcesOf, htype] using of_checkFields hfields
    · simp only [ownMethodsOf, htype, List.mem_append] at hm
      obtain hm | hm := hm
      · exact method_of_given hcheck m hm
      · exact method_of_given happly m hm
  | conditional =>
    have hwhen : checkWhen manifest (place ++ js ".when") (b.field? (js "when")) = .ok [] :=
      of_checkAll h List.mem_cons_self
    refine ⟨?_, by simp [actionsOf, htype], by simp [ownMethodsOf, htype]⟩
    simpa only [sourcesOf, htype] using of_checkWhen hwhen

/-- A block that passes uses only what is declared. -/
theorem uses_of_checkBlock (h : checkBlock manifest place b = .ok []) :
    UsesDeclared manifest b := by
  obtain ⟨_, heq, hrecord, hpassed⟩ := of_checkRecord h
  cases heq
  split at hpassed
  · cases of_pushValue hpassed
  · rename_i type htype
    have hdeclares := declares_of_fields htype hpassed
    refine ⟨⟨hrecord, htype ▸ rfl⟩, fun m hm => ?_, fun s hs => (hdeclares.sources s hs).stream,
      fun s hs => (hdeclares.sources s hs).history⟩
    rw [methodsOf, List.mem_append, List.mem_append] at hm
    obtain (hm | hm) | hm := hm
    · obtain ⟨s, hs, hm⟩ := List.mem_flatMap.mp hm
      obtain ⟨hsource, hinvoke⟩ := List.mem_filter.mp hs
      exact (hdeclares.sources s hsource).method hinvoke m hm
    · exact hdeclares.actions m hm
    · exact hdeclares.own m hm

/-! ### The walk over a page -/

/-- The blocks that the walk enters from a block. -/
def nestedBlocks (b : Json) : List Json := (nestedBlockArrays b).flatMap Prod.snd

theorem flatMap_array (b : Json) (key : Text) :
    ((((b.field? key).bind Json.items?).map fun blocks => (key, blocks)).toList).flatMap Prod.snd =
      elements (b.field? key) := by
  rw [elements]
  cases (b.field? key).bind Json.items? with
  | none => rfl
  | some blocks => simp

theorem flatMap_items (items : List Json) (i : Nat) :
    ((items.zipIdx i).filterMap fun e =>
      ((e.1.field? (js "blocks")).bind Json.items?).map fun blocks =>
        (itemPlace (js "items") e.2 ++ js ".blocks", blocks)).flatMap Prod.snd =
      items.flatMap fun item => elements (item.field? (js "blocks")) := by
  induction items generalizing i with
  | nil => rfl
  | cons item items ih =>
    rw [List.zipIdx_cons, List.flatMap_cons, ← ih (i + 1), elements]
    cases hblocks : (item.field? (js "blocks")).bind Json.items? with
    | none => simp only [List.filterMap_cons, hblocks, Option.map_none, Option.getD_none,
        List.nil_append]
    | some blocks => simp only [List.filterMap_cons, hblocks, Option.map_some, Option.getD_some,
        List.flatMap_cons]

theorem nestedBlocks_eq (b : Json) : nestedBlocks b =
    elements (b.field? (js "blocks")) ++ elements (b.field? (js "rowDetail")) ++
      elements (b.field? (js "else")) ++
      (elements (b.field? (js "items"))).flatMap fun item => elements (item.field? (js "blocks")) := by
  simp only [nestedBlocks, nestedBlockArrays, List.flatMap_append, flatMap_array, flatMap_items]

/-- The walk enters every block position, whatever the type of the block. -/
theorem childBlocks_sublist (b : Json) : (childBlocks b).Sublist (nestedBlocks b) := by
  rw [nestedBlocks_eq, childBlocks]
  split
  · exact (List.sublist_append_left _ _).trans
      ((List.sublist_append_left _ _).trans (List.sublist_append_left _ _))
  · exact List.sublist_append_right _ _
  · exact (List.sublist_append_right _ _).trans
      ((List.sublist_append_left _ _).trans (List.sublist_append_left _ _))
  · exact (List.sublist_append_right _ _).trans
      ((List.sublist_append_left _ _).trans (List.sublist_append_left _ _))
  · exact ((List.sublist_append_left _ _).append (List.Sublist.refl _)).trans
      (List.sublist_append_left _ _)
  · exact List.nil_sublist _

/-- A walk over blocks with so many levels left: the count only grows, and where no problem is found
and the count stays within its bound, all blocks were checked and counted. -/
structure Walked (manifest : Manifest) (levels : Nat) (blocks : List Json) (w w' : Walk) : Prop where
  count : w.blockCount ≤ w'.blockCount
  problems : ∃ more, w'.problems = w.problems ++ more
  checked : w'.problems = [] → w'.blockCount ≤ MAX_SPEC_BLOCKS →
    ∀ depth, ∀ b ∈ Forest.level nestedBlocks blocks depth,
      depth < levels ∧ ∃ place, checkBlock manifest place b = .ok []
  counted : w'.problems = [] → w'.blockCount ≤ MAX_SPEC_BLOCKS →
    w'.blockCount = w.blockCount + Forest.size nestedBlocks blocks levels

variable {levels : Nat} {blocks more : List Json} {w w' w'' : Walk} {path : Text}

theorem walked_nil (w : Walk) : Walked manifest levels [] w w :=
  ⟨le_refl _, ⟨[], by simp⟩, by simp, by simp⟩

theorem walked_append (h : Walked manifest levels blocks w w')
    (hmore : Walked manifest levels more w' w'') :
    Walked manifest levels (blocks ++ more) w w'' := by
  obtain ⟨found, hfound⟩ := h.problems
  obtain ⟨found', hfound'⟩ := hmore.problems
  have hfirst : w''.problems = [] → w'.problems = [] := fun hnil => by
    rw [hfound', List.append_eq_nil_iff] at hnil
    exact hnil.1
  refine ⟨h.count.trans hmore.count, ⟨found ++ found', ?_⟩, fun hnil hle depth b hb => ?_,
    fun hnil hle => ?_⟩
  · rw [hfound', hfound, List.append_assoc]
  · rw [Forest.level_append, List.mem_append] at hb
    obtain hb | hb := hb
    · exact h.checked (hfirst hnil) (hmore.count.trans hle) depth b hb
    · exact hmore.checked hnil hle depth b hb
  · rw [Forest.size_append, hmore.counted hnil hle,
      h.counted (hfirst hnil) (hmore.count.trans hle), Nat.add_assoc]

/-- A block that is checked, and the walk over what it contains. -/
theorem walked_block {place : Text} {found : List Text}
    (hfound : checkBlock manifest place b = .ok found)
    (h : Walked manifest levels (nestedBlocks b) ⟨w.problems ++ found, w.blockCount + 1⟩ w') :
    Walked manifest (levels + 1) [b] w w' := by
  obtain ⟨rest, hrest⟩ := h.problems
  have hchildren : ([b] : List Json).flatMap nestedBlocks = nestedBlocks b := by simp
  refine ⟨(Nat.le_succ _).trans h.count, ⟨found ++ rest, ?_⟩, fun hnil hle depth c hc => ?_,
    fun hnil hle => ?_⟩
  · rw [hrest, List.append_assoc]
  · cases depth with
    | zero =>
      obtain rfl := List.mem_singleton.mp hc
      rw [hrest, List.append_eq_nil_iff, List.append_eq_nil_iff] at hnil
      exact ⟨Nat.succ_pos _, place, hnil.1.2 ▸ hfound⟩
    | succ depth =>
      rw [Forest.level, hchildren] at hc
      obtain ⟨hlt, hpassed⟩ := h.checked hnil hle depth c hc
      exact ⟨Nat.succ_lt_succ hlt, hpassed⟩
  · rw [Forest.size_succ, hchildren, h.counted hnil hle, List.length_singleton, Nat.add_assoc]

/-- Where there are too many blocks, the rest is passed over. -/
theorem walked_skip (hmany : MAX_SPEC_BLOCKS < w.blockCount + 1) :
    Walked manifest levels [b] w { w with blockCount := w.blockCount + 1 } :=
  ⟨Nat.le_succ _, ⟨[], by simp⟩, fun _ hle => absurd hmany (Nat.not_lt.mpr hle),
    fun _ hle => absurd hmany (Nat.not_lt.mpr hle)⟩

theorem walked_arrays {arrays : List (Text × List Json)}
    {enter : List Json → Text → Walk → Except Text Walk}
    (henter : ∀ blocks path w w', enter blocks path w = .ok w' →
      Walked manifest levels blocks w w')
    (h : arrays.foldlM (fun w nested => enter nested.2 (path ++ js "." ++ nested.1) w) w = .ok w') :
    Walked manifest levels (arrays.flatMap Prod.snd) w w' := by
  induction arrays generalizing w with
  | nil =>
    cases h
    exact walked_nil _
  | cons nested arrays ih =>
    rw [List.foldlM_cons] at h
    cases hfirst : enter nested.2 (path ++ js "." ++ nested.1) w with
    | error text =>
      rw [hfirst] at h
      cases h
    | ok first =>
      rw [hfirst] at h
      rw [List.flatMap_cons]
      exact walked_append (henter _ _ _ _ hfirst) (ih h)

theorem walked_visit {enter : List Json → Text → Walk → Except Text Walk}
    (henter : ∀ blocks path w w', enter blocks path w = .ok w' →
      Walked manifest levels blocks w w')
    {e : Json × Nat} (h : visit manifest enter path w e = .ok w') :
    Walked manifest (levels + 1) [e.1] w w' := by
  rw [visit] at h
  split_ifs at h with hmany
  · cases h
    exact walked_skip hmany
  · cases hfound : checkBlock manifest (itemPlace path e.2) e.1 with
    | error text =>
      rw [hfound] at h
      cases h
    | ok found =>
      rw [hfound] at h
      exact walked_block hfound (walked_arrays henter h)

theorem walked_of_walk (h : walk manifest levels blocks path w = .ok w') :
    Walked manifest levels blocks w w' := by
  induction levels generalizing blocks path w w' with
  | zero =>
    rw [walk] at h
    cases h
    exact ⟨le_refl _, ⟨_, rfl⟩, by simp, by simp⟩
  | succ levels ih =>
    rw [walk] at h
    generalize 0 = i at h
    induction blocks generalizing i w with
    | nil =>
      cases h
      exact walked_nil _
    | cons b blocks ih' =>
      rw [List.zipIdx_cons, List.foldlM_cons] at h
      cases hfirst : visit manifest (walk manifest levels) path w (b, i) with
      | error text =>
        rw [hfirst] at h
        cases h
      | ok first =>
        rw [hfirst] at h
        have hvisit : Walked manifest (levels + 1) [b] w first :=
          walked_visit (fun _ _ _ _ => ih) hfirst
        exact walked_append hvisit (ih' (i + 1) h)

/-! ### Accepted pages -/

/-- The blocks of a page, nested so many levels deep. -/
def blocksAt (spec : Json) (depth : Nat) : List Json :=
  Forest.level childBlocks (elements (spec.field? (js "blocks"))) depth

/-- What an accepted page may rely on. -/
structure Accepted (manifest : Manifest) (spec : Json) : Prop where
  uses : ∀ depth, ∀ b ∈ blocksAt spec depth, UsesDeclared manifest b
  depth : ∀ depth, blocksAt spec depth ≠ [] → depth ≤ 64
  count : ∀ depth, ((List.range depth).map fun d => (blocksAt spec d).length).sum ≤ 20000

/-- What the check has found nothing in. -/
theorem walk_of_accepted {spec : Json} (h : specProblems manifest spec = .ok []) :
    ∃ w w', walk manifest (MAX_SPEC_DEPTH + 1) (elements (spec.field? (js "blocks"))) (js "blocks") w =
      .ok w' ∧ w.blockCount = 0 ∧ w'.problems = [] ∧ w'.blockCount ≤ MAX_SPEC_BLOCKS := by
  rw [specProblems.eq_def] at h
  split at h
  · rename_i fields
    split at h
    · rename_i topBlocks hblocks
      obtain ⟨first, -, h⟩ := bind_eq_ok.mp h
      obtain ⟨w', hwalk, hrest⟩ := bind_eq_ok.mp h
      have hproblems := Except.ok.inj hrest
      rw [List.append_eq_nil_iff, List.append_eq_nil_iff] at hproblems
      obtain ⟨⟨hnil, hcount⟩, -⟩ := hproblems
      refine ⟨⟨first, 0⟩, w', ?_, rfl, hnil, ?_⟩
      · rw [hblocks]
        exact hwalk
      · by_contra hmany
        rw [if_pos (Nat.not_le.mp hmany)] at hcount
        cases hcount
    · cases h
  · cases h

/-- A page or widget without problems has known blocks only, which use only what the manifest
declares; there are at most 20000, nested at most 64 levels deep. -/
theorem accepted_uses_declared (manifest : Manifest) (spec : Json)
    (h : specProblems manifest spec = .ok []) : Accepted manifest spec := by
  obtain ⟨w, w', hwalk, hstart, hnil, hle⟩ := walk_of_accepted h
  have hwalked := walked_of_walk hwalk
  have hchecked := hwalked.checked hnil hle
  have hcounted := hwalked.counted hnil hle
  have hvisited : ∀ depth, ∀ b ∈ blocksAt spec depth,
      b ∈ Forest.level nestedBlocks (elements (spec.field? (js "blocks"))) depth :=
    fun depth b hb =>
      (Forest.level_sublist nestedBlocks childBlocks_sublist (List.Sublist.refl _) depth).subset hb
  refine ⟨fun depth b hb => ?_, fun depth hne => ?_, fun depth => ?_⟩
  · obtain ⟨-, place, hpassed⟩ := hchecked depth b (hvisited depth b hb)
    exact uses_of_checkBlock hpassed
  · obtain ⟨b, hb⟩ := List.exists_mem_of_ne_nil _ hne
    obtain ⟨hlt, -⟩ := hchecked depth b (hvisited depth b hb)
    exact Nat.lt_succ_iff.mp hlt
  · have hempty : ∀ d, MAX_SPEC_DEPTH + 1 ≤ d →
        Forest.level nestedBlocks (elements (spec.field? (js "blocks"))) d = [] := by
      intro d hd
      by_contra hne
      obtain ⟨b, hb⟩ := List.exists_mem_of_ne_nil _ hne
      exact absurd (hchecked d b hb).1 (Nat.not_lt.mpr hd)
    calc Forest.size childBlocks (elements (spec.field? (js "blocks"))) depth
        ≤ Forest.size nestedBlocks (elements (spec.field? (js "blocks"))) depth :=
          Forest.size_mono nestedBlocks childBlocks_sublist _ depth
      _ ≤ Forest.size nestedBlocks (elements (spec.field? (js "blocks"))) (MAX_SPEC_DEPTH + 1) :=
          Forest.size_le nestedBlocks hempty depth
      _ = w'.blockCount := by rw [hcounted, hstart, Nat.zero_add]
      _ ≤ 20000 := hle

/-- A section with a figure from a stream, and a log. -/
def plainSpec : Json := .obj [(js "blocks", .arr [
  .obj [(js "type", .str (js "section")), (js "blocks", .arr [
    .obj [(js "type", .str (js "stat")), (js "label", .str (js "Load")),
      (js "format", .str (js "pct")),
      (js "source", .obj [(js "kind", .str (js "stream")), (js "event", .str (js "tick"))])]])],
  .obj [(js "type", .str (js "log")), (js "event", .str (js "line")),
    (js "startMethod", .str (js "follow"))]])]

theorem accepted_uses_declared_plain : Accepted ⟨js "disk", [js "follow"], [js "tick"]⟩ plainSpec :=
  accepted_uses_declared ⟨js "disk", [js "follow"], [js "tick"]⟩ plainSpec (by decide +kernel)

end BoredManager.Shared.ModuleUi
