import BoredManager.Server.SettingsRoundTrip

/-! A patch of the settings: the fields that it names, the document that a browser sends for
it, and what the server makes of that document. -/
namespace BoredManager.Client
open BoredManager.Js BoredManager.Shared BoredManager.Server

structure HistoryPatch where
  enabled : Option Bool
  retentionHours : Option Int
  maxStorageMB : Option Int
deriving DecidableEq

structure ServerPatch where
  port : Option Int
  host : Option Text
  allowedHosts : Option (List Text)
  trustProxy : Option Bool
deriving DecidableEq

structure AuthPatch where
  enabled : Option Bool
  maxFailures : Option Int
  sessionIdle : Option SessionIdle
deriving DecidableEq

structure UpdatePatch where
  repo : Option Text
  lastUrl : Option Text
deriving DecidableEq

structure SettingsPatch where
  theme : Option Text
  density : Option Text
  densityAutoDetected : Option Bool
  historyWindow : Option Int
  refresh : OrderedMap Text Text
  slowRefresh : OrderedMap Text Int
  overviewWidgets : OrderedMap Text Bool
  overviewLayout : Option (OverviewLayout LayoutId)
  collectors : OrderedMap Text Bool
  detailPolling : OrderedMap Text Text
  history : HistoryPatch
  server : ServerPatch
  auth : AuthPatch
  update : UpdatePatch
deriving DecidableEq

def SettingsPatch.empty : SettingsPatch := {
  theme := none, density := none, densityAutoDetected := none, historyWindow := none
  refresh := .empty, slowRefresh := .empty, overviewWidgets := .empty, overviewLayout := none
  collectors := .empty, detailPolling := .empty, history := ⟨none, none, none⟩
  server := ⟨none, none, none, none⟩, auth := ⟨none, none, none⟩, update := ⟨none, none⟩ }

/-! ### The merge -/

/-- `{ ...target, ...source }` of records with free keys. -/
def spread {ν : Type} (target source : OrderedMap Text ν) : OrderedMap Text ν :=
  source.entries.foldl (fun out e => out.set e.1 e.2) target

/-- The same for a record of fixed keys. -/
def spreadFixed {ν : Type} (target : List (Text × ν)) (source : OrderedMap Text ν) :
    List (Text × ν) :=
  target.map fun e => (e.1, (source.get? e.1).getD e.2)

def HistoryPatch.merge (patch : HistoryPatch) (cur : HistorySettings) : HistorySettings := {
  enabled := patch.enabled.getD cur.enabled
  retentionHours := patch.retentionHours.getD cur.retentionHours
  maxStorageMB := patch.maxStorageMB.getD cur.maxStorageMB }

def ServerPatch.merge (patch : ServerPatch) (cur : ServerSettings) : ServerSettings := {
  port := patch.port.getD cur.port
  host := patch.host.getD cur.host
  allowedHosts := patch.allowedHosts.getD cur.allowedHosts
  trustProxy := patch.trustProxy.getD cur.trustProxy }

def AuthPatch.merge (patch : AuthPatch) (cur : AuthSettings) : AuthSettings := {
  enabled := patch.enabled.getD cur.enabled
  maxFailures := patch.maxFailures.getD cur.maxFailures
  sessionIdle := patch.sessionIdle.getD cur.sessionIdle }

def UpdatePatch.merge (patch : UpdatePatch) (cur : UpdateSettings) : UpdateSettings := {
  repo := patch.repo.getD cur.repo
  lastUrl := patch.lastUrl.getD cur.lastUrl }

/-- The `next` of `updateSettings`. -/
def SettingsPatch.merge (patch : SettingsPatch) (cur : AppSettings) : AppSettings := {
  theme := patch.theme.getD cur.theme
  density := patch.density.getD cur.density
  densityAutoDetected := patch.densityAutoDetected.getD cur.densityAutoDetected
  historyWindow := patch.historyWindow.getD cur.historyWindow
  refresh := spread cur.refresh patch.refresh
  slowRefresh := spread cur.slowRefresh patch.slowRefresh
  overviewWidgets := spread cur.overviewWidgets patch.overviewWidgets
  overviewLayout := patch.overviewLayout.getD cur.overviewLayout
  collectors := spreadFixed cur.collectors patch.collectors
  detailPolling := spreadFixed cur.detailPolling patch.detailPolling
  history := patch.history.merge cur.history
  server := patch.server.merge cur.server
  auth := patch.auth.merge cur.auth
  update := patch.update.merge cur.update }

/-! ### Fields -/

/-- A field of the settings, with the type of its values. -/
inductive Field : Type → Type where
  | theme : Field Text
  | density : Field Text
  | densityAutoDetected : Field Bool
  | historyWindow : Field Int
  | refresh (key : Text) : Field Text
  | slowRefresh (key : Text) : Field Int
  | overviewWidget (key : Text) : Field Bool
  | overviewLayout : Field (OverviewLayout LayoutId)
  | collector (key : Text) : Field Bool
  | detailPolling (key : Text) : Field Text
  | historyEnabled : Field Bool
  | retentionHours : Field Int
  | maxStorageMB : Field Int
  | port : Field Int
  | host : Field Text
  | allowedHosts : Field (List Text)
  | trustProxy : Field Bool
  | authEnabled : Field Bool
  | maxFailures : Field Int
  | sessionIdle : Field SessionIdle
  | repo : Field Text
  | lastUrl : Field Text

def fixedAt {ν : Type} (entries : List (Text × ν)) (key : Text) : Option ν :=
  (entries.find? fun e => decide (e.1 = key)).map Prod.snd

def settingAt (settings : AppSettings) : {α : Type} → Field α → Option α
  | _, .theme => some settings.theme
  | _, .density => some settings.density
  | _, .densityAutoDetected => some settings.densityAutoDetected
  | _, .historyWindow => some settings.historyWindow
  | _, .refresh key => settings.refresh.get? key
  | _, .slowRefresh key => settings.slowRefresh.get? key
  | _, .overviewWidget key => settings.overviewWidgets.get? key
  | _, .overviewLayout => some settings.overviewLayout
  | _, .collector key => fixedAt settings.collectors key
  | _, .detailPolling key => fixedAt settings.detailPolling key
  | _, .historyEnabled => some settings.history.enabled
  | _, .retentionHours => some settings.history.retentionHours
  | _, .maxStorageMB => some settings.history.maxStorageMB
  | _, .port => some settings.server.port
  | _, .host => some settings.server.host
  | _, .allowedHosts => some settings.server.allowedHosts
  | _, .trustProxy => some settings.server.trustProxy
  | _, .authEnabled => some settings.auth.enabled
  | _, .maxFailures => some settings.auth.maxFailures
  | _, .sessionIdle => some settings.auth.sessionIdle
  | _, .repo => some settings.update.repo
  | _, .lastUrl => some settings.update.lastUrl

/-- What the patch says about a field. -/
def SettingsPatch.at (patch : SettingsPatch) : {α : Type} → Field α → Option α
  | _, .theme => patch.theme
  | _, .density => patch.density
  | _, .densityAutoDetected => patch.densityAutoDetected
  | _, .historyWindow => patch.historyWindow
  | _, .refresh key => patch.refresh.get? key
  | _, .slowRefresh key => patch.slowRefresh.get? key
  | _, .overviewWidget key => patch.overviewWidgets.get? key
  | _, .overviewLayout => patch.overviewLayout
  | _, .collector key => patch.collectors.get? key
  | _, .detailPolling key => patch.detailPolling.get? key
  | _, .historyEnabled => patch.history.enabled
  | _, .retentionHours => patch.history.retentionHours
  | _, .maxStorageMB => patch.history.maxStorageMB
  | _, .port => patch.server.port
  | _, .host => patch.server.host
  | _, .allowedHosts => patch.server.allowedHosts
  | _, .trustProxy => patch.server.trustProxy
  | _, .authEnabled => patch.auth.enabled
  | _, .maxFailures => patch.auth.maxFailures
  | _, .sessionIdle => patch.auth.sessionIdle
  | _, .repo => patch.update.repo
  | _, .lastUrl => patch.update.lastUrl

/-- The values that normalizing leaves alone. -/
def InRange (urlHostname : Text → Option Text) : {α : Type} → Field α → α → Prop
  | _, .theme, value => value ∈ themes
  | _, .density, value => value ∈ densities
  | _, .densityAutoDetected, _ => True
  | _, .historyWindow, value => 1 ≤ value ∧ value ≤ maxHistoryWindowSeconds
  | _, .refresh key, value => key ≠ js "__proto__" ∧ value ∈ refreshSpeeds
  | _, .slowRefresh key, value => key ≠ js "__proto__" ∧ 0 ≤ value ∧ value ≤ maxSlowRefreshSeconds
  | _, .overviewWidget key, _ => key ≠ js "__proto__"
  | _, .overviewLayout, value => IsLayout value ∧ DistinctLayout value
  | _, .collector key, _ => key ∈ defaultCollectors.map Prod.fst
  | _, .detailPolling key, value => key ∈ defaultDetailPolling.map Prod.fst ∧ value ∈ detailModes
  | _, .historyEnabled, _ => True
  | _, .retentionHours, value => 1 ≤ value ∧ value ≤ maxHistoryRetentionHours
  | _, .maxStorageMB, value => 10 ≤ value ∧ value ≤ maxHistoryStorageMB
  | _, .port, value => 1 ≤ value ∧ value ≤ 65535
  | _, .host, value => IsStringValue true false 255 value
  | _, .allowedHosts, value => IsAllowedHosts urlHostname value
  | _, .trustProxy, _ => True
  | _, .authEnabled, _ => True
  | _, .maxFailures, value => 1 ≤ value ∧ value ≤ maxAuthFailures
  | _, .sessionIdle, value =>
    (0 ≤ value.value ∧ value.value ≤ maxSessionIdleValue) ∧ value.unit ∈ idleUnits
  | _, .repo, value => IsStringValue false false 512 value
  | _, .lastUrl, value => IsStringValue false true 8192 value

def SettingsPatch.InRange (urlHostname : Text → Option Text) (patch : SettingsPatch) : Prop :=
  ∀ {α : Type} (field : Field α) (value : α), patch.at field = some value →
    Client.InRange urlHostname field value

/-- Settings that the server's file gives back as they are. -/
structure Stored (urlHostname : Text → Option Text) (settings : AppSettings) : Prop where
  normal : IsSettings urlHostname settings
  distinct : DistinctLayout settings.overviewLayout

/-! ### What the server makes of a document -/

variable {urlHostname : Text → Option Text} {cur : AppSettings} {patch : SettingsPatch}

/-- A document of stored settings is saved as it is. -/
theorem saveSettings_stored {settings : AppSettings} (h : Stored urlHostname settings) :
    saveSettings urlHostname settings.toJson = .ok (settings, settings.toJson) := by
  have hread : normalizeAppSettings urlHostname (some settings.toJson) = settings := by
    rw [normalizeAppSettings_readback h.normal, (layout_readback_iff h.normal.overviewLayout).mpr
      h.distinct]
  rw [saveSettings, validateSettingsDocument_toJson h.normal]
  change Except.ok (normalizeAppSettings urlHostname (some settings.toJson), _) = _
  rw [hread]

/-! ### The merge field by field -/

theorem or_some_getD {α : Type} (a : Option α) (b : α) : some (a.getD b) = a.or (some b) := by
  cases a <;> rfl

theorem get?_spread {ν : Type} (target source : OrderedMap Text ν) (key : Text) :
    (spread target source).get? key = (source.get? key).or (target.get? key) := by
  have hsource : (OrderedMap.ofList source.entries).get? key = source.get? key := by
    ext value
    rw [OrderedMap.get?_ofList_of_nodup source.nodup, OrderedMap.get?_eq_some]
  rw [spread, OrderedMap.get?_foldl_set, ← OrderedMap.get?_ofList, hsource]

theorem fixedAt_spreadFixed {ν : Type} {target : List (Text × ν)} (source : OrderedMap Text ν)
    {key : Text} (hkey : source.has key = true → key ∈ target.map Prod.fst) :
    fixedAt (spreadFixed target source) key = (source.get? key).or (fixedAt target key) := by
  rw [fixedAt, fixedAt, spreadFixed, List.find?_map]
  cases hfind : target.find? fun e => decide (e.1 = key) with
  | none =>
    have hnone : source.get? key = none := by
      by_contra hne
      obtain ⟨e, he, rfl⟩ := List.mem_map.mp (hkey (Option.isSome_iff_ne_none.mpr hne))
      exact List.find?_eq_none.mp hfind e he (decide_eq_true rfl)
    rw [hnone]
    simpa [Function.comp_def] using hfind
  | some e =>
    have he : e.1 = key := by simpa using List.find?_some hfind
    subst he
    simp only [Function.comp_def, hfind, Option.map_some]
    exact or_some_getD _ _

/-- The document has the patch's value where the patch has one, and the copy's elsewhere. -/
theorem settingAt_merge (hcur : Stored urlHostname cur) (hpatch : patch.InRange urlHostname)
    {α : Type} (field : Field α) :
    settingAt (patch.merge cur) field = (patch.at field).or (settingAt cur field) := by
  cases field
  case refresh key => exact get?_spread _ _ _
  case slowRefresh key => exact get?_spread _ _ _
  case overviewWidget key => exact get?_spread _ _ _
  case collector key =>
    refine fixedAt_spreadFixed _ fun hhas => ?_
    obtain ⟨value, hv⟩ := OrderedMap.has_iff_get.mp hhas
    rw [hcur.normal.collectors]
    exact hpatch (.collector key) value hv
  case detailPolling key =>
    refine fixedAt_spreadFixed _ fun hhas => ?_
    obtain ⟨value, hv⟩ := OrderedMap.has_iff_get.mp hhas
    rw [hcur.normal.detailPolling]
    exact (hpatch (.detailPolling key) value hv).1
  all_goals exact or_some_getD _ _

theorem isRecordOf_spread {ν : Type} {defaults target source : OrderedMap Text ν}
    {good : ν → Prop} (h : IsRecordOf defaults good target)
    (hsource : ∀ key value, source.get? key = some value → key ≠ js "__proto__" ∧ good value) :
    IsRecordOf defaults good (spread target source) := by
  have hentries : ∀ e ∈ source.entries, e.1 ≠ js "__proto__" ∧ good e.2 := fun e he =>
    hsource e.1 e.2 (OrderedMap.get?_eq_some.mpr he)
  exact List.foldlRecOn (motive := IsRecordOf defaults good) source.entries
    (fun out e => out.set e.1 e.2) h fun out hout e he =>
      hout.set (hentries e he).1 (hentries e he).2

theorem stored_merge (hcur : Stored urlHostname cur) (hpatch : patch.InRange urlHostname) :
    Stored urlHostname (patch.merge cur) := by
  have hs := hcur.normal
  have hget : ∀ {α : Type} {P : α → Prop} {old : α} {new : Option α}, P old →
      (∀ value, new = some value → P value) → P (new.getD old) := by
    intro α P old new hold hnew
    cases new with
    | none => exact hold
    | some value => exact hnew value rfl
  have hlayout : IsLayout (patch.merge cur).overviewLayout ∧
      DistinctLayout (patch.merge cur).overviewLayout :=
    hget ⟨hs.overviewLayout, hcur.distinct⟩ (hpatch .overviewLayout)
  have hidle := hget (P := fun idle : SessionIdle =>
    (0 ≤ idle.value ∧ idle.value ≤ maxSessionIdleValue) ∧ idle.unit ∈ idleUnits)
    ⟨hs.idleValue, hs.idleUnit⟩ (hpatch .sessionIdle)
  refine ⟨?_, hlayout.2⟩
  exact {
    theme := hget hs.theme (hpatch .theme)
    density := hget hs.density (hpatch .density)
    historyWindow := hget (P := fun z => 1 ≤ z ∧ z ≤ maxHistoryWindowSeconds) hs.historyWindow
      (hpatch .historyWindow)
    refresh := isRecordOf_spread hs.refresh fun key => hpatch (.refresh key)
    slowRefresh := isRecordOf_spread hs.slowRefresh fun key => hpatch (.slowRefresh key)
    overviewWidgets := isRecordOf_spread hs.overviewWidgets fun key value hv =>
      ⟨hpatch (.overviewWidget key) value hv, trivial⟩
    overviewLayout := hlayout.1
    collectors := by
      rw [← hs.collectors]
      simp [SettingsPatch.merge, spreadFixed, Function.comp_def]
    detailPolling := by
      rw [← hs.detailPolling]
      simp [SettingsPatch.merge, spreadFixed, Function.comp_def]
    detailModes := by
      intro e he
      obtain ⟨d, hd, rfl⟩ := List.mem_map.mp he
      exact hget (hs.detailModes d hd) fun value hv => (hpatch (.detailPolling d.1) value hv).2
    retentionHours := hget (P := fun z => 1 ≤ z ∧ z ≤ maxHistoryRetentionHours) hs.retentionHours
      (hpatch .retentionHours)
    maxStorageMB := hget (P := fun z => 10 ≤ z ∧ z ≤ maxHistoryStorageMB) hs.maxStorageMB
      (hpatch .maxStorageMB)
    port := hget (P := fun z => 1 ≤ z ∧ z ≤ 65535) hs.port (hpatch .port)
    host := hget hs.host (hpatch .host)
    allowedHosts := hget hs.allowedHosts (hpatch .allowedHosts)
    maxFailures := hget (P := fun z => 1 ≤ z ∧ z ≤ maxAuthFailures) hs.maxFailures
      (hpatch .maxFailures)
    idleValue := hidle.1
    idleUnit := hidle.2
    repo := hget hs.repo (hpatch .repo)
    lastUrl := hget hs.lastUrl (hpatch .lastUrl) }

end BoredManager.Client
