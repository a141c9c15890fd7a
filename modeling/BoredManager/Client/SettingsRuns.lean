import BoredManager.Client.SettingsPatch
import BoredManager.Machine.Runs

/-! Browsers that change the settings: each sends the whole document that its patch makes of its
own copy, and the server puts each document in the place of the last one. -/
namespace BoredManager.Client
open BoredManager.Js BoredManager.Shared BoredManager.Server BoredManager.Machine

/-- A `settings:set` on its way: the patch, and the copy that it was merged over. -/
structure Call where
  browser : Nat
  patch : SettingsPatch
  base : AppSettings
deriving DecidableEq

/-- The document that the call carries. -/
def Call.document (call : Call) : AppSettings := call.patch.merge call.base

structure State where
  /-- `appSettings` of the server, which is what is on disk. -/
  saved : AppSettings
  /-- `get().settings` of each browser. -/
  settings : Nat → Option AppSettings
  /-- The calls on their way, in the order in which they were made. -/
  calls : List Call
  /-- The settings that the server has sent to each browser and that are on their way. -/
  replies : Nat → List AppSettings
  /-- The patches of the calls that were made, and of those that were saved. -/
  issued : List SettingsPatch
  accepted : List SettingsPatch

def State.start (saved : AppSettings) : State := ⟨saved, fun _ => none, [], fun _ => [], [], []⟩

inductive Event where
  /-- The server answers the browser's `settings:get`. -/
  | read (browser : Nat)
  /-- The browser calls `updateSettings`. -/
  | update (browser : Nat) (patch : SettingsPatch)
  /-- The server takes the browser's first call. -/
  | handle (browser : Nat)
  /-- The browser takes the server's first answer. -/
  | receive (browser : Nat)

namespace State

def reply (s : State) (browser : Nat) : State :=
  { s with replies := Function.update s.replies browser (s.replies browser ++ [s.saved]) }

/-- Without settings `updateSettings` throws. -/
def update (s : State) (browser : Nat) (patch : SettingsPatch) : State :=
  match s.settings browser with
  | none => s
  | some base => { s with calls := s.calls ++ [⟨browser, patch, base⟩], issued := s.issued ++ [patch] }

def firstCall (s : State) (browser : Nat) : Option Call :=
  s.calls.find? fun call => call.browser == browser

/-- `settings:set`: a document that is not accepted changes nothing. -/
def handle (urlHostname : Text → Option Text) (s : State) (browser : Nat) : State :=
  match s.firstCall browser with
  | none => s
  | some call =>
    let taken := { s with calls := s.calls.eraseP fun call => call.browser == browser }
    match saveSettings urlHostname call.document.toJson with
    | .error _ => taken
    | .ok (merged, _) =>
      { taken with saved := merged, accepted := s.accepted ++ [call.patch] }.reply browser

def receive (s : State) (browser : Nat) : State :=
  match s.replies browser with
  | [] => s
  | settings :: rest => { s with
      settings := Function.update s.settings browser (some settings)
      replies := Function.update s.replies browser rest }

def step (urlHostname : Text → Option Text) (s : State) : Event → State
  | .read browser => s.reply browser
  | .update browser patch => s.update browser patch
  | .handle browser => s.handle urlHostname browser
  | .receive browser => s.receive browser

end State

/-- Two patches that name no field in common. -/
def Apart (p q : SettingsPatch) : Prop :=
  ∀ {α : Type} (field : Field α), p.at field = none ∨ q.at field = none

/-- The patches are apart and in range, and when the server takes a call, the copy that its
document was made of is still what is saved. -/
def Allowed (urlHostname : Text → Option Text) (s : State) : Event → Prop
  | .update _ patch => patch.InRange urlHostname ∧ ∀ other ∈ s.issued, Apart other patch
  | .handle browser => ∀ call, s.firstCall browser = some call → call.base = s.saved
  | _ => True

/-- Every accepted patch is in the saved settings, and every call made was accepted or is on its
way. -/
structure Kept (s : State) : Prop where
  fields : ∀ patch ∈ s.accepted, ∀ {α : Type} (field : Field α) (value : α),
    patch.at field = some value → settingAt s.saved field = some value
  settled : (s.accepted ++ s.calls.map Call.patch).Perm s.issued

/-- What every step keeps, beside it. -/
structure Sound (urlHostname : Text → Option Text) (s : State) : Prop where
  stored : Stored urlHostname s.saved
  inRange : ∀ patch ∈ s.issued, patch.InRange urlHostname
  apart : s.issued.Pairwise Apart
  kept : Kept s

variable {urlHostname : Text → Option Text} {s : State} {browser : Nat}

theorem Apart.symm {p q : SettingsPatch} (h : Apart p q) : Apart q p := fun field => (h field).symm

instance : Std.Symm Apart := ⟨fun _ _ => Apart.symm⟩

theorem firstCall_perm {call : Call} (h : s.firstCall browser = some call) :
    s.calls.Perm (call :: s.calls.eraseP fun call => call.browser == browser) := by
  induction hcalls : s.calls generalizing s with
  | nil =>
    rw [State.firstCall, hcalls] at h
    cases h
  | cons c calls ih =>
    rw [State.firstCall, hcalls, List.find?_cons] at h
    rw [List.eraseP_cons]
    cases hc : c.browser == browser with
    | true =>
      rw [hc] at h
      cases h
      exact List.Perm.refl _
    | false =>
      rw [hc] at h
      have hperm := ih (s := { s with calls := calls }) h rfl
      exact (hperm.cons c).trans (List.Perm.swap _ _ _)

theorem sound_update (h : Sound urlHostname s) {patch : SettingsPatch}
    (hok : Allowed urlHostname s (.update browser patch)) :
    Sound urlHostname (s.update browser patch) := by
  simp only [State.update]
  cases s.settings browser with
  | none => exact h
  | some base =>
    obtain ⟨hrange, hapart⟩ := hok
    refine ⟨h.stored, fun p hp => ?_, ?_, h.kept.fields, ?_⟩
    · rcases List.mem_append.mp hp with hp | hp
      · exact h.inRange p hp
      · rw [List.mem_singleton.mp hp]
        exact hrange
    · refine List.pairwise_append.mpr ⟨h.apart, List.pairwise_singleton _ _, fun p hp q hq => ?_⟩
      rw [List.mem_singleton.mp hq]
      exact hapart p hp
    · simpa [← List.append_assoc] using h.kept.settled.append_right [patch]

/-- A document made of what is saved is saved as the patch over it. -/
theorem handle_eq (h : Sound urlHostname s) {call : Call} (hcall : s.firstCall browser = some call)
    (hbase : call.base = s.saved) : s.handle urlHostname browser =
      { s with
        calls := s.calls.eraseP fun call => call.browser == browser
        saved := call.patch.merge s.saved
        accepted := s.accepted ++ [call.patch] }.reply browser := by
  have hmem : call.patch ∈ s.issued := h.kept.settled.mem_iff.mp
    (List.mem_append_right _ (List.mem_map_of_mem (List.mem_of_find?_eq_some hcall)))
  have hsave := saveSettings_stored (stored_merge h.stored (h.inRange _ hmem))
  simp only [State.handle, hcall, Call.document, hbase, hsave]

theorem sound_handle (h : Sound urlHostname s) (hok : Allowed urlHostname s (.handle browser)) :
    Sound urlHostname (s.handle urlHostname browser) := by
  cases hcall : s.firstCall browser with
  | none =>
    simp only [State.handle, hcall]
    exact h
  | some call =>
    rw [handle_eq h hcall (hok call hcall)]
    have hperm := (firstCall_perm hcall).map Call.patch
    have hissued : (s.accepted ++ [call.patch] ++ (s.calls.eraseP fun call =>
        call.browser == browser).map Call.patch).Perm s.issued := by
      rw [List.append_assoc]
      exact (hperm.symm.append_left s.accepted).trans h.kept.settled
    have hmem : call.patch ∈ s.issued := hissued.subset (by simp)
    refine ⟨stored_merge h.stored (h.inRange _ hmem), h.inRange, h.apart, ?_, hissued⟩
    intro patch hpatch α field value hv
    change settingAt (call.patch.merge s.saved) field = some value
    rw [settingAt_merge h.stored (h.inRange _ hmem)]
    rcases List.mem_append.mp hpatch with hold | hnew
    · -- an earlier patch: the new one does not name its field
      have hpair : (s.accepted ++ [call.patch]).Pairwise Apart :=
        (List.pairwise_append.mp (hissued.symm.pairwise h.apart Apart.symm)).1
      have hapart : Apart patch call.patch :=
        (List.pairwise_append.mp hpair).2.2 patch hold call.patch List.mem_cons_self
      have hnone : call.patch.at field = none :=
        (hapart field).resolve_left fun hn => by rw [hv] at hn; cases hn
      rw [hnone]
      exact h.kept.fields patch hold field value hv
    · rw [← List.mem_singleton.mp hnew, hv]
      rfl

theorem sound_step {event : Event} (h : Sound urlHostname s) (hok : Allowed urlHostname s event) :
    Sound urlHostname (s.step urlHostname event) := by
  cases event with
  | read browser => exact ⟨h.stored, h.inRange, h.apart, h.kept.fields, h.kept.settled⟩
  | update browser patch => exact sound_update h hok
  | handle browser => exact sound_handle h hok
  | receive browser =>
    simp only [State.step, State.receive]
    split
    · exact h
    · exact ⟨h.stored, h.inRange, h.apart, h.kept.fields, h.kept.settled⟩

def defaultSettings : AppSettings := normalizeAppSettings urlLoopback none

theorem stored_defaultSettings : Stored urlLoopback defaultSettings :=
  ⟨isSettings_normalizeAppSettings urlLoopback_canonical none, fun _ h => (by cases h),
    fun _ h => (by cases h)⟩

def themePatch (theme : Text) : SettingsPatch := { SettingsPatch.empty with theme := some theme }

def densityPatch (density : Text) : SettingsPatch :=
  { SettingsPatch.empty with density := some density }

theorem inRange_themePatch {theme : Text} (h : theme ∈ themes) :
    (themePatch theme).InRange urlHostname := by
  intro α field value hv
  cases field <;> cases hv
  exact h

theorem inRange_densityPatch {density : Text} (h : density ∈ densities) :
    (densityPatch density).InRange urlHostname := by
  intro α field value hv
  cases field <;> cases hv
  exact h

theorem apart_theme_density (theme density : Text) :
    Apart (themePatch theme) (densityPatch density) := by
  intro α field
  cases field
  case theme => exact .inr rfl
  all_goals exact .inl rfl

/-- One browser reads the settings after the other's patch is saved. -/
def inTurn : List Event := [.read 0, .receive 0, .update 0 (themePatch (js "light")), .handle 0,
  .read 1, .receive 1, .update 1 (densityPatch (js "high")), .handle 1]

end BoredManager.Client
