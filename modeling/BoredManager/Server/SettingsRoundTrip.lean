import BoredManager.Server.Settings
import BoredManager.Shared.SettingsReadback

/-! Saving accepted settings and loading them again: when the file gives back what was
saved, in terms of the layout ids of the document. -/
namespace BoredManager.Server
open BoredManager.Js BoredManager.Shared

variable {urlHostname : Text → Option Text}

/-- Normalized settings pass the strict check. -/
theorem validateSettingsDocument_toJson {settings : AppSettings}
    (h : IsSettings urlHostname settings) :
    validateSettingsDocument urlHostname settings.toJson = .ok settings.toJson := by
  have hversion : schemaVersion settings.toJson = 7 := schemaVersion_toJson settings
  have hhost : isHostText (some (.str settings.server.host)) = true := by
    obtain ⟨htrim, hne, hlen⟩ := h.host
    simp [isHostText, htrim rfl, hne rfl, hlen]
  have hshort : isShortList (some (.arr (settings.server.allowedHosts.map Json.str))) = true := by
    simpa [isShortList] using h.allowedHosts.length
  have hnames : ((settings.server.allowedHosts.map Json.str).all fun entry =>
      ((normalizeAllowedHostname urlHostname entry).filter (· ≠ [])).isSome) = true := by
    rw [List.all_map, List.all_eq_true]
    intro host hmem
    obtain ⟨hnormal, hne⟩ := h.allowedHosts.normal host hmem
    rw [Function.comp_apply, hnormal]
    simp [Option.filter, hne]
  have hserver : validateServer urlHostname 7 (some settings.server.toJson) = .ok () := by
    change (do
      require true "server settings must be an object"
      require (isIntegerIn (some (jsonInt settings.server.port)) 1 65535) "server.port is invalid"
      require (isHostText (some (.str settings.server.host))) "server.host is invalid"
      require (isShortList (some (.arr (settings.server.allowedHosts.map Json.str))))
        "server.allowedHosts is invalid"
      require ((settings.server.allowedHosts.map Json.str).all fun entry =>
          ((normalizeAllowedHostname urlHostname entry).filter (· ≠ [])).isSome)
        "server.allowedHosts contains an invalid hostname"
      require true "server.trustProxy must be boolean") = .ok ()
    rw [isIntegerIn_jsonInt h.port, hhost, hshort, hnames]
    rfl
  have hauth : validateAuth (some settings.auth.toJson) = .ok () := by
    change (do
      require true "auth settings must be an object"
      require true "auth.enabled must be boolean"
      require (isIntegerIn (some (jsonInt settings.auth.maxFailures)) 1 maxAuthFailures)
        "auth.maxFailures is invalid"
      require true "auth.sessionIdle must be an object"
      require (isIntegerIn (some (jsonInt settings.auth.sessionIdle.value)) 0 maxSessionIdleValue)
        "auth.sessionIdle.value is invalid"
      require (decide (unitText (.str settings.auth.sessionIdle.unit) ∈ idleUnits))
        "auth.sessionIdle.unit is invalid") = .ok ()
    have hunit : unitText (.str settings.auth.sessionIdle.unit) ∈ idleUnits := by
      rw [unitText]
      exact h.idleUnit
    rw [isIntegerIn_jsonInt h.maxFailures, isIntegerIn_jsonInt h.idleValue, decide_eq_true hunit]
    rfl
  change (do
    require true "settings must be a JSON object"
    require true "settingsVersion is required"
    require (isIntegerIn (some (jsonInt settingsVersion)) 0 settingsVersion)
      "settingsVersion must be an integer from 0 to 7"
    if 4 ≤ schemaVersion settings.toJson then
      validateServer urlHostname (schemaVersion settings.toJson) (some settings.server.toJson)
      validateAuth (some settings.auth.toJson)
    pure settings.toJson) = Except.ok settings.toJson
  rw [hversion, isIntegerIn_jsonInt (by decide), hserver, hauth]
  rfl

/-- What is claimed of an accepted document: normalizing is idempotent on it, its
normal form is accepted, saving and then loading returns what was saved, and the
layout ids of each breakpoint are distinct. -/
structure Survives (urlHostname : Text → Option Text) (value : Json) : Prop where
  idempotent : normalizeAppSettings urlHostname
      (some (normalizeAppSettings urlHostname (some value)).toJson) =
    normalizeAppSettings urlHostname (some value)
  accepted : ∃ document, validateSettingsDocument urlHostname
    (normalizeAppSettings urlHostname (some value)).toJson = .ok document
  roundTrip : ∃ saved file, saveSettings urlHostname value = .ok (saved, file) ∧
    ∃ left, loadSettings urlHostname file = .ok (saved, left)
  distinct : (∀ items ∈ (normalizeAppSettings urlHostname (some value)).overviewLayout.lg,
      (items.map (·.i)).Nodup) ∧
    ∀ items ∈ (normalizeAppSettings urlHostname (some value)).overviewLayout.md,
      (items.map (·.i)).Nodup

/-- The renaming table of a schema older than 6. -/
def renamingTable (version : Int) : List (Text × Text) :=
  if version < 3 then v2CardIds else v5CardIds

/-- No id is the name of a member that every object inherits, and no id stands beside
the one it is renamed to. -/
def RenamesApart (ids : List (Text × Text)) (items : List (OverviewLayoutItem Text)) : Prop :=
  (∀ item ∈ items, lookup inheritedMembers item.i = none) ∧
    ∀ e ∈ ids, ¬(e.1 ∈ items.map (·.i) ∧ e.2 ∈ items.map (·.i))

/-- The condition on the document: it has the ids of the current schema, or the old ids
of each breakpoint do not clash with the new ones. -/
def LayoutSurvives (value : Json) : Prop :=
  let layout := normalizeLayout (value.field? (js "overviewLayout"))
  6 ≤ schemaVersion value ∨
    (∀ items ∈ layout.lg, RenamesApart (renamingTable (schemaVersion value)) items) ∧
      ∀ items ∈ layout.md, RenamesApart (renamingTable (schemaVersion value)) items

/-- What the renaming tables are like. -/
structure IsRenaming (ids : List (Text × Text)) : Prop where
  keys : ∀ e ∈ ids, lookup ids e.1 = some e.2
  values : ∀ e ∈ ids, ∀ f ∈ ids, e.2 = f.2 → e.1 = f.1
  apart : ∀ e ∈ ids, e.1 ≠ e.2 ∧ lookup ids e.2 = none
  inherited : ∀ e ∈ inheritedMembers, lookup ids e.1 = none

theorem isRenaming_table (version : Int) : IsRenaming (renamingTable version) := by
  unfold renamingTable
  split
  · exact ⟨by decide, by decide, by decide, by decide⟩
  · exact ⟨by decide, by decide, by decide, by decide⟩

theorem mem_of_lookup {table : List (Text × Text)} {key value : Text}
    (h : lookup table key = some value) : (key, value) ∈ table := by
  obtain ⟨e, he, rfl⟩ := Option.map_eq_some_iff.mp h
  have hkey := List.find?_some he
  rw [← of_decide_eq_true hkey]
  exact List.mem_of_find?_eq_some he

theorem renameId_of_some {ids : List (Text × Text)} {id new : Text} (h : lookup ids id = some new) :
    renameId ids id = .text new := by
  rw [renameId, h]

theorem renameId_of_none {ids : List (Text × Text)} {id : Text} (h : lookup ids id = none)
    (hown : lookup inheritedMembers id = none) : renameId ids id = .text id := by
  rw [renameId, h, hown]
  rfl

/-- Renaming keeps the ids of a breakpoint distinct texts exactly when none is inherited
and no old id stands beside its new one. -/
theorem distinctTexts_rename_iff {ids : List (Text × Text)} (hids : IsRenaming ids)
    {items : List (OverviewLayoutItem Text)} (hnodup : (items.map (·.i)).Nodup) :
    DistinctTexts (mapItemIds (renameId ids) items) ↔ RenamesApart ids items := by
  have hmap : (mapItemIds (renameId ids) items).map (·.i) =
      (items.map (·.i)).map (renameId ids) := by
    simp [mapItemIds]
  have htexts : (∀ item ∈ mapItemIds (renameId ids) items, ∃ id, item.i = .text id) ↔
      ∀ item ∈ items, lookup inheritedMembers item.i = none := by
    constructor
    · intro h item hitem
      obtain ⟨id, hid⟩ := h _ (List.mem_map_of_mem hitem)
      cases hown : lookup inheritedMembers item.i with
      | none => rfl
      | some member =>
        have hlookup := hids.inherited _ (mem_of_lookup hown)
        dsimp only at hid hlookup
        rw [renameId, hlookup, hown] at hid
        cases hid
    · intro h item hitem
      obtain ⟨source, hsource, rfl⟩ := List.mem_map.mp hitem
      cases hlookup : lookup ids source.i with
      | some new => exact ⟨new, renameId_of_some hlookup⟩
      | none => exact ⟨_, renameId_of_none hlookup (h source hsource)⟩
  unfold DistinctTexts RenamesApart
  rw [hmap, htexts, and_comm]
  refine and_congr_right fun hown => ?_
  have hown' : ∀ id ∈ items.map (·.i), lookup inheritedMembers id = none := by
    intro id hid
    obtain ⟨item, hitem, rfl⟩ := List.mem_map.mp hid
    exact hown item hitem
  generalize items.map (·.i) = l at hnodup hown'
  constructor
  · rintro h e he ⟨hold, hnew⟩
    have hsame : renameId ids e.1 = renameId ids e.2 := by
      rw [renameId_of_some (hids.keys e he), renameId_of_none (hids.apart e he).2 (hown' _ hnew)]
    exact (hids.apart e he).1 (List.inj_on_of_nodup_map h hold hnew hsame)
  · intro h
    refine List.Nodup.map_on (fun a ha b hb hab => ?_) hnodup
    cases hla : lookup ids a with
    | some new =>
      rw [renameId_of_some hla] at hab
      cases hlb : lookup ids b with
      | some other =>
        rw [renameId_of_some hlb] at hab
        cases hab
        exact hids.values _ (mem_of_lookup hla) _ (mem_of_lookup hlb) rfl
      | none =>
        rw [renameId_of_none hlb (hown' b hb)] at hab
        cases hab
        exact absurd ⟨ha, hb⟩ (h _ (mem_of_lookup hla))
    | none =>
      rw [renameId_of_none hla (hown' a ha)] at hab
      cases hlb : lookup ids b with
      | some other =>
        rw [renameId_of_some hlb] at hab
        cases hab
        exact absurd ⟨hb, ha⟩ (h _ (mem_of_lookup hlb))
      | none =>
        rw [renameId_of_none hlb (hown' b hb)] at hab
        cases hab
        rfl

theorem distinctTexts_text {items : List (OverviewLayoutItem Text)}
    (hnodup : (items.map (·.i)).Nodup) : DistinctTexts (mapItemIds .text items) := by
  have hmap : (mapItemIds LayoutId.text items).map (·.i) = (items.map (·.i)).map .text := by
    simp [mapItemIds]
  refine ⟨?_, fun item hitem => ?_⟩
  · rw [hmap]
    exact hnodup.map fun a b hab => by cases hab; rfl
  · obtain ⟨source, -, rfl⟩ := List.mem_map.mp hitem
    exact ⟨_, rfl⟩

/-- What holds of the items of a breakpoint after a mapping of their ids. -/
theorem forall_mapped_items {f : Text → LayoutId} {P : List (OverviewLayoutItem LayoutId) → Prop}
    {Q : List (OverviewLayoutItem Text) → Prop} (value : Option Json)
    (h : ∀ items : List (OverviewLayoutItem Text), (items.map (·.i)).Nodup →
      (P (mapItemIds f items) ↔ Q items)) :
    (∀ items ∈ (normalizeBreakpoint value).map (mapItemIds f), P items) ↔
      ∀ items ∈ normalizeBreakpoint value, Q items := by
  cases hbreakpoint : normalizeBreakpoint value with
  | none => simp
  | some items =>
    obtain ⟨list, -, rfl⟩ := Option.map_eq_some_iff.mp hbreakpoint
    simpa using h _ (normalizeItems_spec [] list).1

theorem distinctLayout_migrate_iff (version : Int) (value : Option Json) :
    DistinctLayout (migrateLayout version (normalizeLayout value)) ↔ 6 ≤ version ∨
      (∀ items ∈ (normalizeLayout value).lg, RenamesApart (renamingTable version) items) ∧
        ∀ items ∈ (normalizeLayout value).md, RenamesApart (renamingTable version) items := by
  by_cases hold : 6 ≤ version
  · have hmigrate : migrateLayout version (normalizeLayout value) =
        mapLayoutIds .text (normalizeLayout value) := by
      rw [migrateLayout, if_neg (by omega), if_neg (by omega)]
    rw [hmigrate]
    refine iff_of_true ⟨?_, ?_⟩ (.inl hold)
    · exact (forall_mapped_items (Q := fun _ => True) _ fun items hnodup =>
        iff_of_true (distinctTexts_text hnodup) trivial).mpr fun _ _ => trivial
    · exact (forall_mapped_items (Q := fun _ => True) _ fun items hnodup =>
        iff_of_true (distinctTexts_text hnodup) trivial).mpr fun _ _ => trivial
  · have hmigrate : migrateLayout version (normalizeLayout value) =
        mapLayoutIds (renameId (renamingTable version)) (normalizeLayout value) := by
      unfold migrateLayout renamingTable renameLayout
      split
      · rfl
      · rw [if_pos (by omega)]
    rw [hmigrate, or_iff_right hold]
    exact and_congr
      (forall_mapped_items _ fun _ hnodup => distinctTexts_rename_iff (isRenaming_table _) hnodup)
      (forall_mapped_items _ fun _ hnodup => distinctTexts_rename_iff (isRenaming_table _) hnodup)

theorem isRecord_of_accepted {value document : Json}
    (h : validateSettingsDocument urlHostname value = .ok document) :
    asRecord (some value) = value := by
  cases value with
  | obj fields => rfl
  | _ => cases h

/-- Accepted settings survive a save and a load exactly when their layout ids survive
the renamings. -/
theorem settings_survive_iff (hurl : CanonicalIpv6 urlHostname) {value : Json}
    (haccepted : validateSettingsDocument urlHostname value = .ok value) :
    Survives urlHostname value ↔ LayoutSurvives value := by
  have hsettings := isSettings_normalizeAppSettings hurl (some value)
  have hread := normalizeAppSettings_readback hsettings
  have hlayout : (normalizeAppSettings urlHostname (some value)).overviewLayout =
      migrateLayout (schemaVersion value) (normalizeLayout (value.field? (js "overviewLayout"))) := by
    conv_lhs => rw [normalizeAppSettings]
    rw [isRecord_of_accepted haccepted]
  have hdistinct : LayoutSurvives value ↔
      DistinctLayout (normalizeAppSettings urlHostname (some value)).overviewLayout := by
    rw [hlayout]
    exact (distinctLayout_migrate_iff _ _).symm
  have hsave : saveSettings urlHostname value = .ok (normalizeAppSettings urlHostname (some value),
      (normalizeAppSettings urlHostname (some value)).toJson) := by
    rw [saveSettings, haccepted]
    rfl
  rw [hdistinct, ← layout_readback_iff hsettings.overviewLayout]
  have hvalid := validateSettingsDocument_toJson hsettings
  constructor
  · intro h
    have hidem := h.idempotent
    rw [hread] at hidem
    exact congrArg AppSettings.overviewLayout hidem
  · intro hback
    have hidem : normalizeAppSettings urlHostname
        (some (normalizeAppSettings urlHostname (some value)).toJson) =
        normalizeAppSettings urlHostname (some value) := by
      rw [hread, hback]
    have hload : loadSettings urlHostname (normalizeAppSettings urlHostname (some value)).toJson =
        .ok (normalizeAppSettings urlHostname (some value),
          (normalizeAppSettings urlHostname (some value)).toJson) := by
      rw [loadSettings, hvalid]
      change Except.ok (normalizeAppSettings urlHostname
        (some (normalizeAppSettings urlHostname (some value)).toJson), _) = _
      rw [hidem, ite_self]
    have hdistinct := (layout_readback_iff hsettings.overviewLayout).mp hback
    exact {
      idempotent := hidem
      accepted := ⟨_, hvalid⟩
      roundTrip := ⟨_, _, hsave, _, hload⟩
      distinct := ⟨fun items h => (hdistinct.1 items h).1, fun items h => (hdistinct.2 items h).1⟩ }

/-- The URL parser on the loopback address, which is its own form. -/
def urlLoopback (hostname : Text) : Option Text :=
  if hostname = js "::1" then some (js "::1") else none

theorem urlLoopback_canonical : CanonicalIpv6 urlLoopback := by
  have haddress : ∀ {hostname address}, urlLoopback hostname = some address →
      address = js "::1" := by
    intro hostname address h
    unfold urlLoopback at h
    split at h
    · cases h
      rfl
    · cases h
  refine ⟨fun h => ?_, fun h => ?_, fun h => ?_, fun h => ?_⟩ <;> rw [haddress h] <;> decide

/-- A document of a schema, with a server and a layout of the given card ids. -/
def layoutDocument (version : Int) (ids : List String) : Json := .obj [
  (js "settingsVersion", jsonInt version),
  (js "server", .obj [(js "port", jsonInt 8686), (js "host", .str (js "0.0.0.0")),
    (js "allowedHosts", .arr [.str (js "[::1]")]), (js "trustProxy", .bool false)]),
  (js "overviewLayout", .obj [(js "lg", .arr (ids.map fun id => .obj [(js "i", .str (js id)),
    (js "x", jsonInt 0), (js "y", jsonInt 0), (js "w", jsonInt 3)]))])]

theorem settings_survive_current :
    Survives urlLoopback (layoutDocument 7 ["container.summary", "docker.summary"]) :=
  (settings_survive_iff urlLoopback_canonical rfl).mpr (.inl (by decide))

/-- A document of schema 5 with the cards of both modules: the old id takes the name of
the new one, and the second normalization drops it. -/
theorem settings_lost_with_both_cards :
    validateSettingsDocument urlLoopback
        (layoutDocument 5 ["docker.summary", "container.summary"]) =
      .ok (layoutDocument 5 ["docker.summary", "container.summary"]) ∧
    ¬Survives urlLoopback (layoutDocument 5 ["docker.summary", "container.summary"]) := by
  refine ⟨rfl, fun h => ?_⟩
  have hlayout : (normalizeAppSettings urlLoopback
      (some (layoutDocument 5 ["docker.summary", "container.summary"]))).overviewLayout.lg =
      some [⟨.text (js "container.summary"), 0, 0, 3⟩, ⟨.text (js "container.summary"), 0, 0, 3⟩] := by
    decide +kernel
  have hnodup := h.distinct.1 _ hlayout
  exact absurd hnodup (by decide)

end BoredManager.Server
