import BoredManager.Js.Json

/-! Module ids and the history streams that belong to them. A stream is a module's own when
it is the id or starts with the id and a dash; dashes are also legal inside an id. -/
namespace BoredManager.Shared
open BoredManager.Js

/-- Ids that the app uses for itself; the streams it writes are among them. -/
def RESERVED_MODULE_IDS : List Text :=
  [js "overview", js "packages", js "terminals", js "settings", js "core", js "app",
    js "module", js "modules", js "system", js "top", js "services", js "metrics"]

def CORE_HISTORY_STREAMS : List Text := [js "system", js "top", js "services"]

/-- `[a-z0-9-]` -/
def isIdUnit (u : Nat) : Bool := isLower u || isDigit u || u == 45

/-- `/^[a-z][a-z0-9-]*$/` -/
def HISTORY_STREAM_PATTERN (stream : Text) : Bool :=
  stream.head?.any isLower && stream.all isIdUnit

/-- `/^[a-z][a-z0-9-]{1,31}$/` -/
def MODULE_ID_PATTERN (id : Text) : Bool :=
  id.head?.any isLower && id.all isIdUnit && decide (2 ≤ id.length ∧ id.length ≤ 32)

def ownsHistoryStream (moduleId stream : Text) : Bool :=
  stream == moduleId || (moduleId ++ js "-").isPrefixOf stream

/-- Why a module may not write a stream, `none` when it may. -/
def historyStreamProblem (moduleId stream : Text) : Option Text :=
  if HISTORY_STREAM_PATTERN stream = false then
    some (js "history stream \"" ++ stream ++
      js "\" is not a valid name (lowercase letters, digits and dashes)")
  else if ownsHistoryStream moduleId stream = false then
    some (js "history stream \"" ++ stream ++ js "\" belongs to another module (write to \"" ++
      moduleId ++ js "\" or \"" ++ moduleId ++ js "-<name>\")")
  else none

/-- Why an id cannot be used, `none` when it is fine. -/
def moduleIdProblem : Json → Option Text
  | .str id =>
    if id = [] then some (js "no id")
    else if MODULE_ID_PATTERN id = false then
      some (js "\"" ++ id ++
        js "\" is not a valid id (lowercase letters, digits and dashes, 2-32 characters)")
    else if id ∈ RESERVED_MODULE_IDS then
      some (js "\"" ++ id ++ js "\" is a name the app uses itself")
    else none
  | _ => some (js "no id")

/-- `ctx.addHistory(point, stream)` of a module that is still active: the stream that the
point goes to, or the error. -/
def addHistory (id : Text) (stream : Option Text) : Except Text Text :=
  let name := stream.getD id
  match historyStreamProblem id name with
  | some problem => .error problem
  | none => .ok name

/-- The longer id continues the shorter one with a dash. -/
def Continues (longer shorter : Text) : Prop := shorter ++ js "-" <+: longer

instance (longer shorter : Text) : Decidable (Continues longer shorter) :=
  inferInstanceAs (Decidable (_ <+: _))

/-- The streams of two modules are apart, and neither writes a stream of the app. -/
structure OneOwner (a b : Text) : Prop where
  apart : ∀ stream, ¬(historyStreamProblem a stream = none ∧ historyStreamProblem b stream = none)
  core : ∀ stream ∈ CORE_HISTORY_STREAMS,
    historyStreamProblem a stream ≠ none ∧ historyStreamProblem b stream ≠ none
  appends : ∀ stream name, addHistory a stream = .ok name → historyStreamProblem b name ≠ none

variable {a b id stream : Text}

theorem ownsHistoryStream_iff :
    ownsHistoryStream id stream = true ↔ stream = id ∨ Continues stream id := by
  simp [ownsHistoryStream, Continues]

theorem historyStreamProblem_eq_none : historyStreamProblem id stream = none ↔
    HISTORY_STREAM_PATTERN stream = true ∧ (stream = id ∨ Continues stream id) := by
  rw [← ownsHistoryStream_iff, historyStreamProblem]
  cases HISTORY_STREAM_PATTERN stream <;> cases ownsHistoryStream id stream <;> simp

theorem moduleIdProblem_eq_none : moduleIdProblem (.str id) = none ↔
    MODULE_ID_PATTERN id = true ∧ id ∉ RESERVED_MODULE_IDS := by
  rw [moduleIdProblem]
  by_cases hempty : id = []
  · rw [hempty]
    decide
  rw [if_neg hempty]
  cases MODULE_ID_PATTERN id <;> by_cases hreserved : id ∈ RESERVED_MODULE_IDS <;>
    simp [hreserved]

theorem addHistory_ok {stream : Option Text} {name : Text} (h : addHistory id stream = .ok name) :
    historyStreamProblem id name = none := by
  rw [addHistory] at h
  cases hproblem : historyStreamProblem id (stream.getD id) with
  | some problem => simp [hproblem] at h
  | none =>
    simp only [hproblem, Except.ok.injEq] at h
    rw [← h]
    exact hproblem

/-- Any id within the pattern is a stream name. -/
theorem stream_of_id (h : MODULE_ID_PATTERN id = true) : HISTORY_STREAM_PATTERN id = true := by
  simp only [Bool.and_eq_true, MODULE_ID_PATTERN] at h
  rw [HISTORY_STREAM_PATTERN, h.1.1, h.1.2]
  rfl

/-- A module may write the stream of its own name. -/
theorem writes_own (h : moduleIdProblem (.str id) = none) : historyStreamProblem id id = none :=
  historyStreamProblem_eq_none.mpr ⟨stream_of_id (moduleIdProblem_eq_none.mp h).1, .inl rfl⟩

/-- No stream of the app has a dash, so only an id of that name could own it. -/
theorem core_not_writable (hid : moduleIdProblem (.str id) = none)
    (h : stream ∈ CORE_HISTORY_STREAMS) : historyStreamProblem id stream ≠ none := by
  intro hnone
  have hdash : ∀ core ∈ CORE_HISTORY_STREAMS, 45 ∉ core ∧ core ∈ RESERVED_MODULE_IDS := by decide
  obtain ⟨hplain, hreserved⟩ := hdash stream h
  obtain rfl | hcontinues := (historyStreamProblem_eq_none.mp hnone).2
  · exact (moduleIdProblem_eq_none.mp hid).2 hreserved
  · exact hplain (hcontinues.subset (by simp [js, units]))

/-- Of two ids of one stream, one is the other or goes on after it with a dash. -/
theorem continues_of_shared (ha : stream = a ∨ Continues stream a)
    (hb : stream = b ∨ Continues stream b) : a = b ∨ Continues a b ∨ Continues b a := by
  obtain rfl | ha := ha
  · obtain rfl | hb := hb
    · exact .inl rfl
    · exact .inr (.inl hb)
  obtain rfl | hb := hb
  · exact .inr (.inr ha)
  -- the shorter of the two starts lies in the longer one
  rcases Nat.lt_trichotomy a.length b.length with hlt | heq | hlt
  · refine .inr (.inr ((List.prefix_of_prefix_length_le ha ((List.prefix_append b _).trans hb) ?_)))
    simpa [js, units] using Nat.succ_le_of_lt hlt
  · refine .inl ?_
    exact (List.prefix_of_prefix_length_le ((List.prefix_append a _).trans ha)
      ((List.prefix_append b _).trans hb) heq.le).eq_of_length heq
  · refine .inr (.inl ((List.prefix_of_prefix_length_le hb ((List.prefix_append a _).trans ha) ?_)))
    simpa [js, units] using Nat.succ_le_of_lt hlt

/-- Two different modules have streams apart exactly when neither id goes on after the
other with a dash. -/
theorem streams_have_one_owner (ha : moduleIdProblem (.str a) = none)
    (hb : moduleIdProblem (.str b) = none) (hne : a ≠ b) :
    OneOwner a b ↔ ¬Continues a b ∧ ¬Continues b a := by
  constructor
  · intro h
    constructor
    · intro hab
      exact h.apart a ⟨writes_own ha, historyStreamProblem_eq_none.mpr
        ⟨stream_of_id (moduleIdProblem_eq_none.mp ha).1, .inr hab⟩⟩
    · intro hba
      exact h.apart b ⟨historyStreamProblem_eq_none.mpr
        ⟨stream_of_id (moduleIdProblem_eq_none.mp hb).1, .inr hba⟩, writes_own hb⟩
  · rintro ⟨hab, hba⟩
    have hapart : ∀ stream,
        ¬(historyStreamProblem a stream = none ∧ historyStreamProblem b stream = none) := by
      rintro stream ⟨h1, h2⟩
      obtain heq | h | h := continues_of_shared (historyStreamProblem_eq_none.mp h1).2
        (historyStreamProblem_eq_none.mp h2).2
      · exact hne heq
      · exact hab h
      · exact hba h
    exact ⟨hapart, fun stream hcore => ⟨core_not_writable ha hcore, core_not_writable hb hcore⟩,
      fun stream name hok hnone => hapart name ⟨addHistory_ok hok, hnone⟩⟩

theorem streams_have_one_owner_plain :
    OneOwner (js "net-work") (js "network") ↔
      ¬Continues (js "net-work") (js "network") ∧ ¬Continues (js "network") (js "net-work") :=
  streams_have_one_owner (by decide) (by decide) (by decide)

/-- The modules `net` and `net-work` both write the stream `net-work`. -/
theorem stream_has_two_owners :
    moduleIdProblem (.str (js "net")) = none ∧ moduleIdProblem (.str (js "net-work")) = none ∧
      js "net" ≠ js "net-work" ∧ historyStreamProblem (js "net-work") (js "net-work") = none ∧
      historyStreamProblem (js "net") (js "net-work") = none ∧
      addHistory (js "net") (some (js "net-work")) = .ok (js "net-work") := by decide

end BoredManager.Shared
