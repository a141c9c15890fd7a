import BoredManager.Shared.SettingsShape

/-! Normalized settings are settings, and normalizing the JSON of settings gives them
back up to the ids of their layout. -/
namespace BoredManager.Shared
open BoredManager.Js

variable {urlHostname : Text → Option Text} {settings : AppSettings}

/-- A list of hosts that normalizing leaves alone. -/
structure IsAllowedHosts (urlHostname : Text → Option Text) (hosts : List Text) : Prop where
  nodup : hosts.Nodup
  length : hosts.length ≤ maxAllowedHosts
  normal : ∀ host ∈ hosts, normalizeAllowedHostname urlHostname (.str host) = some host ∧ host ≠ []

theorem isAllowedHosts_normalized (hurl : CanonicalIpv6 urlHostname) {out : List Text}
    (h : IsAllowedHosts urlHostname out) (hroom : out.length < maxAllowedHosts) (items : List Json) :
    IsAllowedHosts urlHostname (normalizeAllowedHostsFrom urlHostname out items) := by
  induction items generalizing out with
  | nil => exact h
  | cons entry items ih =>
    rw [normalizeAllowedHostsFrom]
    cases hentry : (normalizeAllowedHostname urlHostname entry).filter (· ≠ []) with
    | none => exact ih h hroom
    | some host =>
      obtain ⟨hnormal, hne⟩ := Option.filter_eq_some_iff.mp hentry
      dsimp only
      split
      · exact ih h hroom
      · rename_i hnew
        have hnext : IsAllowedHosts urlHostname (out ++ [host]) := {
          nodup := List.nodup_append.mpr ⟨h.nodup, List.nodup_singleton _, fun a ha b hb => by
            rintro rfl
            exact hnew (List.mem_singleton.mp hb ▸ ha)⟩
          length := by rw [List.length_append, List.length_singleton]; omega
          normal := fun x hx => by
            rcases List.mem_append.mp hx with hx | hx
            · exact h.normal x hx
            · rw [List.mem_singleton.mp hx]
              exact ⟨normalizeAllowedHostname_idem hurl hnormal, by simpa using hne⟩ }
        split
        · exact hnext
        · rename_i hmore
          exact ih hnext (by simpa using hmore)

theorem normalizeAllowedHosts_readback (done : List Text) {hosts : List Text}
    (h : IsAllowedHosts urlHostname (done ++ hosts)) :
    normalizeAllowedHostsFrom urlHostname done (hosts.map Json.str) = done ++ hosts := by
  induction hosts generalizing done with
  | nil => simp [normalizeAllowedHostsFrom]
  | cons host hosts ih =>
    obtain ⟨hnormal, hne⟩ := h.normal host (by simp)
    have hnew : host ∉ done := fun hmem =>
      (List.nodup_append.mp h.nodup).2.2 host hmem host List.mem_cons_self rfl
    have haccepted : (normalizeAllowedHostname urlHostname (.str host)).filter (· ≠ []) =
        some host := by
      rw [hnormal]
      simp [Option.filter, hne]
    rw [List.map_cons, normalizeAllowedHostsFrom, haccepted]
    dsimp only
    rw [if_neg hnew]
    split
    · rename_i hfull
      have hlength := h.length
      rw [List.length_append, List.length_cons] at hlength
      have hnil : hosts = [] := List.length_eq_zero_iff.mp (by omega)
      rw [hnil]
    · rw [ih (done ++ [host]) (by simpa using h)]
      simp

def IsLayout (layout : OverviewLayout LayoutId) : Prop :=
  (∀ items ∈ layout.lg, ∀ item ∈ items, IsLayoutItem item) ∧
    ∀ items ∈ layout.md, ∀ item ∈ items, IsLayoutItem item

/-- What normalized settings are, the distinctness of layout ids apart. -/
structure IsSettings (urlHostname : Text → Option Text) (settings : AppSettings) : Prop where
  theme : settings.theme ∈ themes
  density : settings.density ∈ densities
  historyWindow : 1 ≤ settings.historyWindow ∧ settings.historyWindow ≤ maxHistoryWindowSeconds
  refresh : IsRecordOf defaultRefresh (· ∈ refreshSpeeds) settings.refresh
  slowRefresh : IsRecordOf defaultSlowRefresh (fun z => 0 ≤ z ∧ z ≤ maxSlowRefreshSeconds)
    settings.slowRefresh
  overviewWidgets : IsRecordOf .empty (fun _ => True) settings.overviewWidgets
  overviewLayout : IsLayout settings.overviewLayout
  collectors : settings.collectors.map Prod.fst = defaultCollectors.map Prod.fst
  detailPolling : settings.detailPolling.map Prod.fst = defaultDetailPolling.map Prod.fst
  detailModes : ∀ e ∈ settings.detailPolling, e.2 ∈ detailModes
  retentionHours : 1 ≤ settings.history.retentionHours ∧
    settings.history.retentionHours ≤ maxHistoryRetentionHours
  maxStorageMB : 10 ≤ settings.history.maxStorageMB ∧
    settings.history.maxStorageMB ≤ maxHistoryStorageMB
  port : 1 ≤ settings.server.port ∧ settings.server.port ≤ 65535
  host : IsStringValue true false 255 settings.server.host
  allowedHosts : IsAllowedHosts urlHostname settings.server.allowedHosts
  maxFailures : 1 ≤ settings.auth.maxFailures ∧ settings.auth.maxFailures ≤ maxAuthFailures
  idleValue : 0 ≤ settings.auth.sessionIdle.value ∧
    settings.auth.sessionIdle.value ≤ maxSessionIdleValue
  idleUnit : settings.auth.sessionIdle.unit ∈ idleUnits
  repo : IsStringValue false false 512 settings.update.repo
  lastUrl : IsStringValue false true 8192 settings.update.lastUrl

theorem normalizeLayout_readback {layout : OverviewLayout LayoutId} :
    normalizeLayout (some layout.toJson) = {
      lg := layout.lg.map fun items => normalizeItems [] (items.map OverviewLayoutItem.toJson)
      md := layout.md.map fun items => normalizeItems [] (items.map OverviewLayoutItem.toJson) } := by
  obtain ⟨lg, md⟩ := layout
  cases lg <;> cases md <;> rfl

/-- The ids of each breakpoint are distinct texts. -/
def DistinctLayout (layout : OverviewLayout LayoutId) : Prop :=
  (∀ items ∈ layout.lg, DistinctTexts items) ∧ ∀ items ∈ layout.md, DistinctTexts items

theorem layout_readback_iff {layout : OverviewLayout LayoutId} (h : IsLayout layout) :
    mapLayoutIds .text (normalizeLayout (some layout.toJson)) = layout ↔ DistinctLayout layout := by
  obtain ⟨lg, md⟩ := layout
  have hbreakpoint : ∀ bp : Option (List (OverviewLayoutItem LayoutId)),
      (∀ items ∈ bp, ∀ item ∈ items, IsLayoutItem item) →
      ((bp.map fun items => normalizeItems [] (items.map OverviewLayoutItem.toJson)).map
        (mapItemIds LayoutId.text) = bp ↔ ∀ items ∈ bp, DistinctTexts items) := by
    intro bp hbp
    cases bp with
    | none => simp
    | some items =>
      rw [Option.map_some, Option.map_some, Option.some.injEq,
        normalizeItems_readback_iff (hbp items rfl)]
      simp
  rw [normalizeLayout_readback, mapLayoutIds, OverviewLayout.mk.injEq]
  exact and_congr (hbreakpoint lg h.1) (hbreakpoint md h.2)

theorem schemaVersion_toJson (settings : AppSettings) : schemaVersion settings.toJson = 7 := by
  have hfield : settings.toJson.field? (js "settingsVersion") = some (jsonInt settingsVersion) := rfl
  rw [schemaVersion, hfield, truncated_jsonInt]
  decide

theorem history_readback {history : HistorySettings}
    (hhours : 1 ≤ history.retentionHours ∧ history.retentionHours ≤ maxHistoryRetentionHours)
    (hstorage : 10 ≤ history.maxStorageMB ∧ history.maxStorageMB ≤ maxHistoryStorageMB) :
    normalizeHistory (some history.toJson) = history := by
  change HistorySettings.mk history.enabled
    (finiteInteger (some (jsonInt history.retentionHours)) 6 1 maxHistoryRetentionHours)
    (finiteInteger (some (jsonInt history.maxStorageMB)) 200 10 maxHistoryStorageMB) = history
  rw [finiteInteger_jsonInt _ hhours, finiteInteger_jsonInt _ hstorage]

theorem server_readback {server : ServerSettings} (hport : 1 ≤ server.port ∧ server.port ≤ 65535)
    (hhost : IsStringValue true false 255 server.host)
    (hhosts : IsAllowedHosts urlHostname server.allowedHosts) :
    normalizeServer urlHostname (some server.toJson) = server := by
  change ServerSettings.mk (finiteInteger (some (jsonInt server.port)) 8686 1 65535)
    (stringValue (some (.str server.host)) (js "0.0.0.0") true false 255)
    (normalizeAllowedHostsFrom urlHostname [] (server.allowedHosts.map Json.str))
    server.trustProxy = server
  rw [finiteInteger_jsonInt _ hport, stringValue_of_isStringValue _ hhost,
    normalizeAllowedHosts_readback [] hhosts, List.nil_append]

theorem auth_readback {auth : AuthSettings}
    (hmax : 1 ≤ auth.maxFailures ∧ auth.maxFailures ≤ maxAuthFailures)
    (hvalue : 0 ≤ auth.sessionIdle.value ∧ auth.sessionIdle.value ≤ maxSessionIdleValue)
    (hunit : auth.sessionIdle.unit ∈ idleUnits) :
    normalizeAuth (some auth.toJson) = auth := by
  change AuthSettings.mk auth.enabled
    (finiteInteger (some (jsonInt auth.maxFailures)) 5 1 maxAuthFailures)
    ⟨finiteInteger (some (jsonInt auth.sessionIdle.value)) 0 0 maxSessionIdleValue,
      oneOf (some (.str auth.sessionIdle.unit)) idleUnits (js "hour")⟩ = auth
  rw [finiteInteger_jsonInt _ hmax, finiteInteger_jsonInt _ hvalue, oneOf_str _ hunit]

/-- Settings are read back from their JSON, their layout by its own reading. -/
theorem normalizeAppSettings_readback (h : IsSettings urlHostname settings) :
    normalizeAppSettings urlHostname (some settings.toJson) =
      { settings with
        overviewLayout :=
          mapLayoutIds .text (normalizeLayout (some settings.overviewLayout.toJson)) } := by
  have hversion : schemaVersion (asRecord (some settings.toJson)) = 7 :=
    schemaVersion_toJson settings
  have htheme : normalizeTheme 7 (asRecord (some settings.toJson)) = settings.theme :=
    oneOf_str _ h.theme
  have hdensity : oneOf ((asRecord (some settings.toJson)).field? (js "density")) densities
      (js "medium") = settings.density := oneOf_str _ h.density
  have hwindow : finiteInteger ((asRecord (some settings.toJson)).field? (js "historyWindow")) 60 1
      maxHistoryWindowSeconds = settings.historyWindow := finiteInteger_jsonInt _ h.historyWindow
  have hrefresh : normalizeRefresh (migrateIntervals 7
      ((asRecord (some settings.toJson)).field? (js "refresh"))) = settings.refresh :=
    setAccepted_readback (fun s hs => by simp [acceptSpeed, hs]) h.refresh
  have hslow : legacySlowRefresh (asRecord (some settings.toJson)) (normalizeSlowRefresh
      (migrateIntervals 7 ((asRecord (some settings.toJson)).field? (js "slowRefresh")))) =
      settings.slowRefresh :=
    setAccepted_readback (fun z hz => boundedInteger_jsonInt hz.1 hz.2) h.slowRefresh
  have hwidgets : migrateWidgets 7 (asRecord (some settings.toJson)) = settings.overviewWidgets :=
    setAccepted_readback (fun _ _ => rfl) h.overviewWidgets
  have hcollectors : normalizeCollectors ((asRecord (some settings.toJson)).field?
      (js "collectors")) = settings.collectors :=
    map_readback Json.bool booleanOr (fun _ => True) (fun _ _ _ => rfl) h.collectors (by decide)
      fun _ _ => trivial
  have hdetail : normalizeDetailPolling ((asRecord (some settings.toJson)).field?
      (js "detailPolling")) = settings.detailPolling :=
    map_readback Json.str (fun value fallback => oneOf value detailModes fallback) (· ∈ detailModes)
      (fun _ _ hs => oneOf_str _ hs) h.detailPolling (by decide) h.detailModes
  have hhistory : normalizeHistory ((asRecord (some settings.toJson)).field? (js "history")) =
      settings.history := history_readback h.retentionHours h.maxStorageMB
  have hserver : normalizeServer urlHostname ((asRecord (some settings.toJson)).field?
      (js "server")) = settings.server := server_readback h.port h.host h.allowedHosts
  have hauth : normalizeAuth ((asRecord (some settings.toJson)).field? (js "auth")) =
      settings.auth := auth_readback h.maxFailures h.idleValue h.idleUnit
  have hupdate : normalizeUpdate 7 (asRecord (some settings.toJson)) = settings.update := by
    change UpdateSettings.mk (stringValue (some (.str settings.update.repo)) defaultUpdateRepo false
      false 512) (stringValue (some (.str settings.update.lastUrl)) [] false true 8192) = _
    rw [stringValue_of_isStringValue _ h.repo, stringValue_of_isStringValue _ h.lastUrl]
  simp only [normalizeAppSettings, hversion, htheme, hdensity, hwindow, hrefresh, hslow, hwidgets,
    hcollectors, hdetail, hhistory, hserver, hauth, hupdate]
  rfl

/-! Normalized settings are settings. -/

theorem IsRecordOf.set {ν : Type} {defaults record : OrderedMap Text ν} {good : ν → Prop}
    (h : IsRecordOf defaults good record) {key : Text} (hkey : key ≠ js "__proto__") {value : ν}
    (hvalue : good value) : IsRecordOf defaults good (record.set key value) := by
  have hset := h.setProperty key hvalue
  rwa [BoredManager.Shared.setProperty, if_neg hkey] at hset

theorem isRecordOf_self {ν : Type} {defaults : OrderedMap Text ν} {good : ν → Prop}
    (hgood : ∀ e ∈ defaults.entries, good e.2) (hproto : js "__proto__" ∉ defaults.keys) :
    IsRecordOf defaults good defaults := ⟨List.prefix_rfl, hgood, hproto⟩

theorem foldl_setProperty_isRecordOf {α : Type} {good : Bool → Prop} (key : α → Text)
    (value : α → Bool) (hgood : ∀ b, good b) (l : List α) {record : OrderedMap Text Bool}
    (h : IsRecordOf .empty good record) :
    IsRecordOf .empty good (l.foldl (fun out a => setProperty out (key a) (value a)) record) := by
  induction l generalizing record with
  | nil => exact h
  | cons a l ih => exact ih (h.setProperty _ (hgood _))

theorem migrateWidgets_isRecordOf (version : Int) (raw : Json) :
    IsRecordOf .empty (fun _ => True) (migrateWidgets version raw) := by
  have hempty : IsRecordOf .empty (fun _ : Bool => True) .empty :=
    isRecordOf_self (by simp [OrderedMap.empty]) (by simp [OrderedMap.empty, OrderedMap.keys])
  have hwidgets : IsRecordOf .empty (fun _ => True)
      (normalizeBooleanRecord (raw.field? (js "overviewWidgets"))) :=
    hempty.setAccepted (fun _ _ _ => trivial) _
  unfold migrateWidgets
  dsimp only
  split
  · exact foldl_setProperty_isRecordOf _ _ (fun _ => trivial) _ hwidgets
  · split
    · exact foldl_setProperty_isRecordOf _ _ (fun _ => trivial) _ hempty
    · exact hwidgets

theorem legacySlowRefresh_isRecordOf {record : OrderedMap Text Int} (raw : Json)
    (h : IsRecordOf defaultSlowRefresh (fun z => 0 ≤ z ∧ z ≤ maxSlowRefreshSeconds) record) :
    IsRecordOf defaultSlowRefresh (fun z => 0 ≤ z ∧ z ≤ maxSlowRefreshSeconds)
      (legacySlowRefresh raw record) := by
  unfold legacySlowRefresh
  split
  · cases hlegacy : boundedInteger (raw.field? (js "refreshSlow")) 0 maxSlowRefreshSeconds with
    | none => exact h
    | some seconds => exact h.set (by decide) (boundedInteger_mem hlegacy)
  · exact h

theorem normalizeTheme_mem (version : Int) (raw : Json) : normalizeTheme version raw ∈ themes := by
  unfold normalizeTheme
  split
  · decide
  · exact oneOf_mem _ (by decide)

theorem normalizeUpdate_spec (version : Int) (raw : Json) :
    IsStringValue false false 512 (normalizeUpdate version raw).repo ∧
      IsStringValue false true 8192 (normalizeUpdate version raw).lastUrl := by
  have hurl : IsStringValue false true 8192 (stringValue
      ((asRecord (raw.field? (js "update"))).field? (js "lastUrl")) [] false true 8192) :=
    isStringValue_stringValue _ ⟨fun h => (by cases h), fun h => (by cases h), by simp⟩
  refine ⟨isStringValue_stringValue _ ⟨fun h => (by cases h), fun _ => by decide, by decide⟩, ?_⟩
  unfold normalizeUpdate
  dsimp only
  split
  · exact isStringValue_stringValue _ hurl
  · exact hurl

theorem isLayoutItem_rename {item : OverviewLayoutItem Text} (ids : List (Text × Text))
    (hids : ∀ e ∈ ids, e.2 ≠ [] ∧ e.2.length ≤ 256)
    (h : IsLayoutItem ⟨.text item.i, item.x, item.y, item.w⟩) :
    IsLayoutItem ⟨renameId ids item.i, item.x, item.y, item.w⟩ := by
  obtain ⟨hx, hy, hw, hid⟩ := h
  refine ⟨hx, hy, hw, fun id heq => ?_⟩
  dsimp only at heq
  unfold renameId at heq
  cases hlookup : lookup ids item.i with
  | some new =>
    rw [hlookup] at heq
    cases heq
    obtain ⟨e, he, rfl⟩ := Option.map_eq_some_iff.mp hlookup
    exact hids e (List.mem_of_find?_eq_some he)
  | none =>
    rw [hlookup] at heq
    dsimp only at heq
    split at heq
    · cases heq
    · cases heq
      exact hid _ rfl

/-- Mapping the ids of a normalized layout, item by item. -/
theorem isLayout_mapLayoutIds {f : Text → LayoutId} (value : Option Json)
    (hf : ∀ item : OverviewLayoutItem Text, IsLayoutItem ⟨.text item.i, item.x, item.y, item.w⟩ →
      IsLayoutItem ⟨f item.i, item.x, item.y, item.w⟩) :
    IsLayout (mapLayoutIds f (normalizeLayout value)) := by
  have hbreakpoint : ∀ v : Option Json, ∀ items ∈ (normalizeBreakpoint v).map (mapItemIds f),
      ∀ item ∈ items, IsLayoutItem item := by
    intro v items hitems item hitem
    obtain ⟨source, hsource, rfl⟩ := Option.map_eq_some_iff.mp hitems
    obtain ⟨list, -, rfl⟩ := Option.map_eq_some_iff.mp hsource
    obtain ⟨before, hbefore, rfl⟩ := List.mem_map.mp hitem
    exact hf before ((normalizeItems_spec [] list).2 before hbefore).2
  exact ⟨hbreakpoint _, hbreakpoint _⟩

theorem isLayout_migrateLayout (version : Int) (value : Option Json) :
    IsLayout (migrateLayout version (normalizeLayout value)) := by
  unfold migrateLayout
  split
  · exact isLayout_mapLayoutIds _ fun _ h => isLayoutItem_rename _ (by decide) h
  · split
    · exact isLayout_mapLayoutIds _ fun _ h => isLayoutItem_rename _ (by decide) h
    · exact isLayout_mapLayoutIds _ fun _ h => h

theorem isSettings_normalizeAppSettings (hurl : CanonicalIpv6 urlHostname) (value : Option Json) :
    IsSettings urlHostname (normalizeAppSettings urlHostname value) where
  theme := normalizeTheme_mem _ _
  density := oneOf_mem _ (by decide)
  historyWindow := finiteInteger_mem _ (by decide)
  refresh := (isRecordOf_self (by decide) (by decide)).setAccepted (fun v w hw => by
    cases v with
    | str s =>
      simp only [acceptSpeed] at hw
      split at hw
      · cases hw
        assumption
      · cases hw
    | _ => cases hw) _
  slowRefresh := legacySlowRefresh_isRecordOf _
    ((isRecordOf_self (by decide) (by decide)).setAccepted (fun _ _ hw => boundedInteger_mem hw) _)
  overviewWidgets := migrateWidgets_isRecordOf _ _
  overviewLayout := isLayout_migrateLayout _ _
  collectors := by simp [normalizeAppSettings, normalizeCollectors, Function.comp_def]
  detailPolling := by simp [normalizeAppSettings, normalizeDetailPolling, Function.comp_def]
  detailModes := by
    intro e he
    obtain ⟨d, hd, rfl⟩ := List.mem_map.mp he
    exact oneOf_mem _ ((by decide : ∀ d ∈ defaultDetailPolling, d.2 ∈ detailModes) d hd)
  retentionHours := finiteInteger_mem _ (by decide)
  maxStorageMB := finiteInteger_mem _ (by decide)
  port := finiteInteger_mem _ (by decide)
  host := isStringValue_stringValue _ ⟨fun _ => by decide, fun _ => by decide, by decide⟩
  allowedHosts := by
    have hempty : IsAllowedHosts urlHostname [] := ⟨List.nodup_nil, by simp, by simp⟩
    change IsAllowedHosts urlHostname (normalizeAllowedHosts urlHostname _)
    unfold normalizeAllowedHosts
    split
    · exact isAllowedHosts_normalized hurl hempty (by decide) _
    · exact hempty
  maxFailures := finiteInteger_mem _ (by decide)
  idleValue := finiteInteger_mem _ (by decide)
  idleUnit := oneOf_mem _ (by decide)
  repo := (normalizeUpdate_spec _ _).1
  lastUrl := (normalizeUpdate_spec _ _).2

end BoredManager.Shared
