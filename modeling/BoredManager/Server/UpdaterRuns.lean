import BoredManager.Machine.Runs
import BoredManager.Server.Updater

/-! Only the revalidated tree is handed to the helper, in the runs in which the workspace of a
confirmed helper is still the current one. -/
namespace BoredManager.Server.Update
open BoredManager.Js BoredManager.Machine Updater

variable {D : Type} {tools : Tools D} {s t : Updater D}

/-- The digest of the tree is the one computed when a tree last passed. -/
def Handed.Validated (tools : Tools D) (s : Updater D) (h : Handed) : Prop :=
  ∃ digest, s.validated = some digest ∧ digestUpdateTree tools.sha h.tree = .ok digest

/-- The workspace that the stage works in is the current one. -/
def Stage.InWork (workspace : Option Nat) : Stage → Prop
  | .extracting work _ => workspace = some work
  | .digesting root _ => workspace = some root.work
  | _ => True

structure Inv (tools : Tools D) (s : Updater D) : Prop where
  workspace : ∀ w, s.workspace = some w → (s.disk w).isSome ∧ w < s.workspaces
  staged : ∀ r, s.stagedRoot = some r → s.workspace = some r.work
  ready : s.state.phase = .ready →
    s.stagedRoot.isSome ∧ s.stagedDigest.isSome ∧ s.stagedDigest = s.validated
  older : ∀ before ∈ s.waiting, ∀ w, s.workspace = some w → w < before
  aborted : s.waiting ≠ [] → s.current = false
  inWork : ∀ op, s.operation = some op → s.isCurrent op = true → op.stage.InWork s.workspace
  busy : s.operation.isSome ∨ s.waiting ≠ [] →
    s.state.phase ≠ .ready ∧ s.handed = none ∧ s.stagedRoot = none ∧
      (s.call = .free ∨ s.call = .checking)
  redigesting : ∀ root, s.call = .redigesting root → s.handed = none ∧ (s.stagedDigest = none ∨
    s.state.phase = .ready ∧ s.stagedRoot = some root ∧ (s.treeAt root).isSome)
  launching : ∀ h, s.call = .launching h → s.handed = none ∧ h.Validated tools s
  handed : ∀ h, s.handed = some h →
    s.state.phase = .applying ∧ s.workspace = some h.root.work ∧ h.Validated tools s
  answered : s.answer = some (.ok ()) → s.handed.isSome

/-- What a removal leaves as it was. -/
structure Discards (s t : Updater D) : Prop where
  state : t.state = s.state
  operation : t.operation = s.operation
  generation : t.generation = s.generation
  workspaces : t.workspaces = s.workspaces
  call : t.call = s.call
  waiting : t.waiting = s.waiting
  closed : t.closed = s.closed
  validated : t.validated = s.validated
  handed : t.handed = s.handed
  answer : t.answer = s.answer
  workspace : t.workspace = none ∨ t.workspace = s.workspace
  stagedRoot : t.stagedRoot = none ∨ t.stagedRoot = s.stagedRoot ∧ t.workspace = s.workspace
  stagedDigest : t.stagedDigest = none ∨ t.stagedDigest = s.stagedDigest
  kept : ∀ w, t.workspace = some w → (s.disk w).isSome → (t.disk w).isSome
  only : ∀ w, t.disk w = none → (s.disk w).isSome → s.workspace = some w

theorem discards (s : Updater D) (rm : Removal) : Discards s (s.discardWorkspace rm).1 := by
  cases hw : s.workspace with
  | none =>
    simp only [discardWorkspace, hw]
    constructor <;> grind
  | some work =>
    cases rm with
    | removed =>
      simp only [discardWorkspace, hw]
      constructor <;> grind [setDisk]
    | failed message left =>
      simp only [discardWorkspace, hw]
      constructor <;> grind [setDisk]

theorem discards_state (hd : Discards s t) (state : UpdateState) :
    Discards { s with state } { t with state } :=
  ⟨rfl, hd.operation, hd.generation, hd.workspaces, hd.call, hd.waiting, hd.closed, hd.validated,
    hd.handed, hd.answer, hd.workspace, hd.stagedRoot, hd.stagedDigest, hd.kept, hd.only⟩

/-- An operation has settled, and nothing is staged. -/
structure Ends (s t : Updater D) : Prop where
  operation : t.operation = none
  call : t.call = .free
  waiting : t.waiting = s.waiting
  handed : t.handed = s.handed
  answer : t.answer = s.answer
  workspaces : t.workspaces = s.workspaces
  phase : t.state.phase ≠ .ready
  stagedRoot : t.stagedRoot = none
  workspace : t.workspace = none ∨ t.workspace = s.workspace
  kept : ∀ w, t.workspace = some w → (s.disk w).isSome → (t.disk w).isSome

theorem inv_of_ends (h : Inv tools s) (hbusy : s.operation.isSome) (hends : Ends s t) :
    Inv tools t := by
  obtain ⟨-, hhanded, -, -⟩ := h.busy (.inl hbusy)
  have hnone : t.handed = none := hends.handed.trans hhanded
  have hsame : ∀ w, t.workspace = some w → s.workspace = some w := by
    intro w hw
    obtain hgone | hsame := hends.workspace
    · rw [hgone] at hw
      cases hw
    · exact hsame ▸ hw
  constructor
  · intro w hw
    obtain ⟨hdisk, hlt⟩ := h.workspace w (hsame w hw)
    exact ⟨hends.kept w hw hdisk, hends.workspaces ▸ hlt⟩
  · simp [hends.stagedRoot]
  · exact fun hready => absurd hready hends.phase
  · exact fun before hb w hw => h.older before (hends.waiting ▸ hb) w (hsame w hw)
  · simp [Updater.current, hends.operation]
  · simp [hends.operation]
  · exact fun _ => ⟨hends.phase, hnone, hends.stagedRoot, .inl hends.call⟩
  · simp [hends.call]
  · simp [hends.call]
  · simp [hnone]
  · rw [hends.answer, hends.handed]
    exact h.answered

/-! ### The steps of an operation -/

theorem ends_settle (h : Inv tools s) (hbusy : s.operation.isSome) : Ends s s.settle := by
  obtain ⟨hphase, -, hstaged, -⟩ := h.busy (.inl hbusy)
  exact ⟨rfl, rfl, rfl, rfl, rfl, rfl, hphase, hstaged, .inr rfl, fun _ _ hdisk => hdisk⟩

theorem inv_settle (h : Inv tools s) (hbusy : s.operation.isSome) : Inv tools s.settle :=
  inv_of_ends h hbusy (ends_settle h hbusy)

/-- The workspace is removed, or not, and the operation ends in an error. -/
theorem inv_discard_settle (h : Inv tools s) (hbusy : s.operation.isSome) (rm : Removal)
    {state : UpdateState} (hphase : state.phase = .error) :
    Inv tools { (s.discardWorkspace rm).1 with state }.settle := by
  have hd := discards s rm
  obtain ⟨-, -, hstaged, -⟩ := h.busy (.inl hbusy)
  have hnone : (s.discardWorkspace rm).1.stagedRoot = none := by
    obtain hnone | ⟨hsame, -⟩ := hd.stagedRoot
    · exact hnone
    · exact hsame.trans hstaged
  exact inv_of_ends h hbusy ⟨rfl, rfl, hd.waiting, hd.handed, hd.answer, hd.workspaces,
    by simp [settle, hphase], hnone, hd.workspace, hd.kept⟩

theorem inv_state (h : Inv tools s) (hbusy : s.operation.isSome) {state : UpdateState}
    (hphase : state.phase ≠ .ready) : Inv tools { s with state } := by
  obtain ⟨-, hhanded, hstaged, hcall⟩ := h.busy (.inl hbusy)
  refine ⟨h.workspace, h.staged, fun hready => absurd hready hphase, h.older, h.aborted, h.inWork,
    fun _ => ⟨hphase, hhanded, hstaged, hcall⟩, fun root hroot => ?_, h.launching, ?_, h.answered⟩
  · obtain hfree | hchecking := hcall
    · cases hfree.symm.trans hroot
    · cases hchecking.symm.trans hroot
  · exact fun handed hsome => by cases hhanded.symm.trans hsome

theorem inv_checksum (h : Inv tools s) (checksum : Bool) : Inv tools { s with checksum } :=
  ⟨h.workspace, h.staged, h.ready, h.older, h.aborted, h.inWork, h.busy, h.redigesting,
    h.launching, h.handed, h.answered⟩

theorem inv_await (h : Inv tools s) (hbusy : s.operation.isSome) {stage : Stage}
    (hstage : stage.InWork s.workspace) : Inv tools (s.await stage) := by
  obtain ⟨op, hop⟩ := Option.isSome_iff_exists.mp hbusy
  have hcurrent : (s.await stage).current = s.current := by
    simp [Updater.current, await, hop, isCurrent]
  refine ⟨h.workspace, h.staged, h.ready, h.older, fun hw => ?_, fun op' hop' _ => ?_,
    fun _ => h.busy (.inl hbusy), h.redigesting, h.launching, h.handed, h.answered⟩
  · exact hcurrent.trans (h.aborted hw)
  · simp only [await, hop, Option.map_some, Option.some_inj] at hop'
    subst hop'
    exact hstage

/-- Files that are there get other contents. -/
theorem inv_files (h : Inv tools s) (hcall : ∀ root, s.call ≠ .redigesting root) (work : Nat)
    (tree : Folder) : Inv tools (s.setDisk work ((s.disk work).map fun _ => tree)) := by
  refine ⟨fun w hw => ?_, h.staged, h.ready, h.older, h.aborted, h.inWork, h.busy,
    fun root hroot => absurd hroot (hcall root), h.launching, h.handed, h.answered⟩
  obtain ⟨hdisk, hlt⟩ := h.workspace w hw
  refine ⟨?_, hlt⟩
  simp only [setDisk]
  split_ifs with heq
  · subst heq
    simpa using hdisk
  · exact hdisk

theorem not_redigesting (h : Inv tools s) (hbusy : s.operation.isSome) (root : Root) :
    s.call ≠ .redigesting root := by
  obtain ⟨-, -, -, hfree | hchecking⟩ := h.busy (.inl hbusy)
  · simp [hfree]
  · simp [hchecking]

theorem inv_failCheck (h : Inv tools s) (hbusy : s.operation.isSome) (message : Text)
    (rm : Removal) : Inv tools (s.failCheck tools message rm) := by
  rw [failCheck]
  split_ifs
  · exact inv_discard_settle h hbusy rm rfl
  · exact inv_settle h hbusy

theorem inv_inspectArchive (h : Inv tools s) (hbusy : s.operation.isSome) (label : Text)
    (rm : Removal) : Inv tools (s.inspectArchive tools label rm) := by
  rw [inspectArchive]
  split
  · rename_i work hwork
    exact inv_await h hbusy hwork
  · exact inv_failCheck h hbusy _ rm

theorem inv_afterChecksum (h : Inv tools s) (hbusy : s.operation.isSome) (url : Text)
    (rm : Removal) : Inv tools (s.afterChecksum tools url rm) := by
  rw [afterChecksum]
  split_ifs
  · have hstate : Inv tools { s with state := { s.state with phase := .extracting } } :=
      inv_state h hbusy (by simp)
    exact inv_inspectArchive hstate hbusy url rm
  · exact inv_settle h hbusy

theorem inv_transferred (h : Inv tools s) (hbusy : s.operation.isSome) (url : Text)
    (result : Except Text Unit) (rm : Removal) : Inv tools (s.transferred tools url result rm) := by
  cases result with
  | error message => exact inv_failCheck h hbusy message rm
  | ok =>
    simp only [transferred]
    split_ifs
    · exact inv_await (inv_checksum h false) hbusy trivial
    · exact inv_settle h hbusy

theorem inv_sidecarRead (h : Inv tools s) (hbusy : s.operation.isSome) (url : Text)
    (sidecar : Sidecar) (rm : Removal) : Inv tools (s.sidecarRead tools url sidecar rm) := by
  cases sidecar with
  | missing => exact inv_afterChecksum (inv_checksum h false) hbusy url rm
  | malformed => exact inv_afterChecksum h hbusy url rm
  | unreadable message =>
    simp only [sidecarRead]
    split_ifs
    · exact inv_failCheck h hbusy message rm
    · exact inv_settle h hbusy
  | digest expected =>
    simp only [sidecarRead]
    split_ifs
    · exact inv_await h hbusy trivial
    · exact inv_settle h hbusy

theorem inv_hashed (h : Inv tools s) (hbusy : s.operation.isSome) (url expected : Text)
    (actual : Except Text Text) (rm : Removal) :
    Inv tools (s.hashed tools url expected actual rm) := by
  cases actual with
  | error message => exact inv_failCheck h hbusy message rm
  | ok actual =>
    simp only [hashed]
    split_ifs
    · exact inv_failCheck h hbusy _ rm
    · exact inv_afterChecksum (inv_checksum h true) hbusy url rm

/-- A tree has passed: it is staged, with its digest. -/
theorem inv_ready (h : Inv tools s) (hbusy : s.operation.isSome) (hcurrent : s.current = true)
    {root : Root} (hroot : s.workspace = some root.work) {digest : D}
    (hdigest : s.stagedDigest = some digest) (hvalidated : s.validated = some digest)
    (state : UpdateState) : Inv tools { s with stagedRoot := some root, state }.settle := by
  obtain ⟨-, hhanded, -, -⟩ := h.busy (.inl hbusy)
  have hwaiting : s.waiting = [] := by
    by_contra hne
    cases hcurrent.symm.trans (h.aborted hne)
  constructor
  · exact h.workspace
  · intro r hr
    cases hr
    exact hroot
  · exact fun _ => ⟨rfl, by simp [settle, hdigest], hdigest.trans hvalidated.symm⟩
  · simp [settle, hwaiting]
  · exact fun hne => absurd hwaiting hne
  · simp [settle]
  · simp [settle, hwaiting]
  · simp [settle]
  · simp [settle]
  · simp [settle, hhanded]
  · exact h.answered

theorem inv_staged (h : Inv tools s) (hbusy : s.operation.isSome) {root : Option Root}
    (hroot : root = none) (digest validated : Option D) : Inv tools { s with
      stagedRoot := root, stagedDigest := digest, validated := validated } := by
  obtain ⟨hphase, hhanded, -, hcall⟩ := h.busy (.inl hbusy)
  refine ⟨h.workspace, by simp [hroot], fun hready => absurd hready hphase, h.older, h.aborted,
    h.inWork, fun _ => ⟨hphase, hhanded, hroot, hcall⟩, fun r hr => ?_, fun handed hlaunch => ?_,
    fun handed hsome => ?_, h.answered⟩
  · exact absurd hr (not_redigesting h hbusy r)
  · obtain hfree | hchecking := hcall
    · cases hfree.symm.trans hlaunch
    · cases hchecking.symm.trans hlaunch
  · cases hhanded.symm.trans hsome

theorem inv_finishInspect (h : Inv tools s) (hbusy : s.operation.isSome) (root : Option Root)
    (validation : Validation) (rm : Removal)
    (hpass : s.current = true → validation.pass = true → ∃ r digest, root = some r ∧
      s.workspace = some r.work ∧ s.stagedDigest = some digest ∧ s.validated = some digest) :
    Inv tools (s.finishInspect root validation rm) := by
  rw [finishInspect]
  split_ifs with hcurrent hok
  · obtain ⟨r, digest, rfl, hroot, hdigest, hvalidated⟩ := hpass hcurrent hok
    exact inv_ready h hbusy hcurrent hroot hdigest hvalidated _
  · refine inv_discard_settle (inv_staged h hbusy rfl s.stagedDigest s.validated) hbusy rm ?_
    rfl
  · exact inv_settle h hbusy

theorem inv_validateExtracted (h : Inv tools s) (hbusy : s.operation.isSome) {work : Nat}
    (hwork : s.workspace = some work) (label : Text) (tree : Folder) (rm : Removal) :
    Inv tools (s.validateExtracted tools work label tree rm) := by
  have hstate : Inv tools { s with state := { s.state with
      phase := .validating, url := some label } } := inv_state h hbusy (by simp)
  rw [validateExtracted]
  split
  · exact inv_finishInspect hstate hbusy none _ rm fun _ hpass => by cases hpass
  · dsimp only
    split
    · exact inv_await hstate hbusy hwork
    · exact inv_finishInspect hstate hbusy _ _ rm fun _ hpass => absurd hpass ‹_›

theorem inv_extracted (h : Inv tools s) (hbusy : s.operation.isSome) {work : Nat}
    (hwork : s.current = true → s.workspace = some work) (label : Text)
    (result : Except Text Unit) (tree : Folder) (rm : Removal) :
    Inv tools (s.extracted tools work label result tree rm) := by
  have hfiles := inv_files h (not_redigesting h hbusy) work tree
  rw [extracted.eq_def]
  dsimp only
  split
  · cases result with
    | error message => exact inv_discard_settle hfiles hbusy rm rfl
    | ok => exact inv_validateExtracted hfiles hbusy (hwork ‹_›) label tree rm
  · exact inv_settle hfiles hbusy

theorem inv_digested (h : Inv tools s) (hbusy : s.operation.isSome) {root : Root}
    (hroot : s.current = true → s.workspace = some root.work) (validation : Validation)
    (fault : Option Text) (stray : D) (rm : Removal) :
    Inv tools (s.digested tools root validation fault stray rm) := by
  obtain ⟨-, -, hstaged, -⟩ := h.busy (.inl hbusy)
  rw [digested]
  split
  · rename_i digest _
    refine inv_finishInspect (inv_staged h hbusy hstaged (some digest) (some digest)) hbusy _ _ rm
      fun hcurrent _ => ?_
    exact ⟨root, digest, rfl, hroot hcurrent, rfl, rfl⟩
  · split
    · refine inv_discard_settle (inv_staged h hbusy rfl s.stagedDigest s.validated) hbusy rm ?_
      rfl
    · exact inv_settle h hbusy

theorem inv_operationStep [DecidableEq D] (h : Inv tools s) {op : Operation}
    (hop : s.operation = some op) {e : Event D} (hstep : s.operationStep tools op e = some t) :
    Inv tools t := by
  have hbusy : s.operation.isSome := hop ▸ rfl
  have hcurrent : s.current = s.isCurrent op := by simp [Updater.current, hop]
  cases e with
  | progress received total =>
    simp only [operationStep] at hstep
    split at hstep
    · split_ifs at hstep
      · cases hstep
        exact inv_state h hbusy (h.busy (.inl hbusy)).1
      · cases hstep
        exact h
    · cases hstep
  | transferred result rm =>
    simp only [operationStep] at hstep
    split at hstep
    · cases hstep
      exact inv_transferred h hbusy _ result rm
    · cases hstep
  | sidecar sidecar rm =>
    simp only [operationStep] at hstep
    split at hstep
    · cases hstep
      exact inv_sidecarRead h hbusy _ sidecar rm
    · cases hstep
  | hashed actual rm =>
    simp only [operationStep] at hstep
    split at hstep
    · cases hstep
      exact inv_hashed h hbusy _ _ actual rm
    · cases hstep
  | extracted result tree rm =>
    simp only [operationStep] at hstep
    split at hstep
    · rename_i work label hstage
      cases hstep
      refine inv_extracted h hbusy (fun hcur => ?_) label result tree rm
      have hwork := h.inWork op hop (hcurrent.symm.trans hcur)
      rwa [hstage] at hwork
    · cases hstep
  | digested fault stray rm =>
    simp only [operationStep] at hstep
    split at hstep
    · rename_i root validation hstage
      cases hstep
      refine inv_digested h hbusy (fun hcur => ?_) validation fault stray rm
      have hwork := h.inWork op hop (hcurrent.symm.trans hcur)
      rwa [hstage] at hwork
    · cases hstep
  | _ => cases hstep

/-! ### Cancels -/

/-- With no operation left, the workspace is removed, or not. -/
theorem inv_discarded (h : Inv tools s) (hop : s.operation = none) (hhanded : s.handed = none)
    (hd : Discards s t) (hdigest : ∀ root, s.call = .redigesting root → t.stagedDigest = none)
    {state : UpdateState} (hphase : state.phase ≠ .ready) : Inv tools { t with state } := by
  have hnone : t.handed = none := hd.handed.trans hhanded
  have hoperation : t.operation = none := hd.operation.trans hop
  have hsame : ∀ w, t.workspace = some w → s.workspace = some w := by
    intro w hw
    obtain hnone | hsame := hd.workspace
    · cases hnone.symm.trans hw
    · exact hsame.symm.trans hw
  constructor
  · intro w hw
    obtain ⟨hdisk, hlt⟩ := h.workspace w (hsame w hw)
    exact ⟨hd.kept w hw hdisk, hd.workspaces ▸ hlt⟩
  · intro r hr
    obtain hgone | ⟨hstaged, hworkspace⟩ := hd.stagedRoot
    · cases hgone.symm.trans hr
    · exact hworkspace.trans (h.staged r (hstaged.symm.trans hr))
  · exact fun hready => absurd hready hphase
  · exact fun before hb w hw => h.older before (hd.waiting ▸ hb) w (hsame w hw)
  · simp [Updater.current, hoperation]
  · simp [hoperation]
  · rintro (hbusy | hwaiting)
    · simp [hoperation] at hbusy
    · obtain ⟨-, -, hstaged, hcall⟩ := h.busy (.inr (hd.waiting ▸ hwaiting))
      refine ⟨hphase, hnone, ?_, hd.call.symm ▸ hcall⟩
      obtain hgone | ⟨hsame, -⟩ := hd.stagedRoot
      · exact hgone
      · exact hsame.trans hstaged
  · exact fun root hroot => ⟨hnone, .inl (hdigest root (hd.call.symm.trans hroot))⟩
  · intro handed hlaunch
    obtain ⟨-, hvalidated⟩ := h.launching handed (hd.call.symm.trans hlaunch)
    exact ⟨hnone, by simpa only [Handed.Validated, hd.validated] using hvalidated⟩
  · simp [hnone]
  · intro hanswer
    have := h.answered (hd.answer.symm.trans hanswer)
    simp [hhanded] at this

/-- A removal after the staged tree has been forgotten. -/
theorem discards_forgotten
    (hd : Discards { s with stagedRoot := none, stagedDigest := none } t) :
    Discards s t ∧ t.stagedDigest = none := by
  have hstaged : t.stagedRoot = none := by
    obtain hnone | ⟨hsame, -⟩ := hd.stagedRoot
    · exact hnone
    · exact hsame
  have hdigest : t.stagedDigest = none := hd.stagedDigest.elim id id
  exact ⟨⟨hd.state, hd.operation, hd.generation, hd.workspaces, hd.call, hd.waiting, hd.closed,
    hd.validated, hd.handed, hd.answer, hd.workspace, .inl hstaged, .inl hdigest, hd.kept,
    hd.only⟩, hdigest⟩

theorem finishCancel_eq (tools : Tools D) (s : Updater D) (rm : Removal) :
    ∃ (t : Updater D) (state : UpdateState), s.finishCancel tools rm = { t with state } ∧
      Discards s t ∧ t.stagedDigest = none ∧ state.phase ≠ .ready := by
  obtain ⟨hd, hdigest⟩ :=
    discards_forgotten (discards { s with stagedRoot := none, stagedDigest := none } rm)
  rw [finishCancel]
  split
  · rename_i t message heq
    rw [heq] at hd hdigest
    exact ⟨t, _, rfl, hd, hdigest, by simp⟩
  · rename_i t heq
    rw [heq] at hd hdigest
    exact ⟨t, _, rfl, hd, hdigest, by simp⟩

theorem inv_finishCancel (h : Inv tools s) (hop : s.operation = none) (hhanded : s.handed = none)
    (rm : Removal) : Inv tools (s.finishCancel tools rm) := by
  obtain ⟨t, state, heq, hd, hdigest, hphase⟩ := finishCancel_eq tools s rm
  rw [heq]
  exact inv_discarded h hop hhanded hd (fun _ _ => hdigest) hphase

/-- A cancel has gone on. -/
theorem inv_resumed (h : Inv tools s) {before : Nat} {rest : List Nat}
    (hwaiting : s.waiting = before :: rest) : Inv tools { s with waiting := rest } := by
  have hne : s.waiting ≠ [] := by simp [hwaiting]
  refine ⟨h.workspace, h.staged, h.ready, fun b hb => ?_, fun _ => h.aborted hne, h.inWork,
    fun _ => h.busy (.inr hne), h.redigesting, h.launching, h.handed, h.answered⟩
  exact h.older b (hwaiting ▸ List.mem_cons_of_mem before hb)

theorem handed_none (h : Inv tools s) (hphase : s.state.phase ≠ .applying) : s.handed = none := by
  cases hs : s.handed with
  | none => rfl
  | some handed => exact absurd (h.handed handed hs).1 hphase

/-- The operation in progress is aborted, and the cancel waits for it. -/
theorem inv_abort (h : Inv tools s) {op : Operation} (hop : s.operation = some op) :
    Inv tools { s with
      generation := s.generation + 1, operation := some { op with aborted := true },
      waiting := s.waiting ++ [s.workspaces] } := by
  have hbusy := h.busy (.inl (hop ▸ rfl))
  refine ⟨h.workspace, h.staged, h.ready, fun before hb w hw => ?_, fun _ => ?_, ?_,
    fun _ => hbusy, h.redigesting, h.launching, h.handed, h.answered⟩
  · obtain hb | hb := List.mem_append.mp hb
    · exact h.older before hb w hw
    · obtain rfl := List.mem_singleton.mp hb
      exact (h.workspace w hw).2
  · simp [Updater.current, isCurrent]
  · rintro op' hop' hcurrent
    cases hop'
    simp [isCurrent] at hcurrent

theorem inv_generation (h : Inv tools s) (hop : s.operation = none) (generation : Nat) :
    Inv tools { s with generation } := by
  refine ⟨h.workspace, h.staged, h.ready, h.older, fun _ => ?_, fun op hsome => ?_, h.busy,
    h.redigesting, h.launching, h.handed, h.answered⟩
  · simp [Updater.current, hop]
  · cases hop.symm.trans hsome

theorem inv_cancel (h : Inv tools s) (rm : Removal) : Inv tools (s.cancel tools rm) := by
  rw [cancel]
  split_ifs with hphase
  · exact h
  · dsimp only
    split
    · rename_i op hop
      exact inv_abort h hop
    · rename_i hop
      have hhanded := handed_none h hphase
      exact inv_finishCancel (inv_generation h hop (s.generation + 1)) hop hhanded rm

/-! ### The start of an operation -/

/-- Nothing is going on, and no update is being installed. -/
structure Idle (s : Updater D) : Prop where
  operation : s.operation = none
  waiting : s.waiting = []
  call : s.call = .free
  handed : s.handed = none

/-- A workspace has been made. -/
structure Makes (s t : Updater D) (work : Nat) : Prop where
  idle : Idle s → Idle t
  answer : t.answer = s.answer
  workspace : t.workspace = some work
  disk : (t.disk work).isSome
  workspaces : work < t.workspaces
  stagedRoot : t.stagedRoot = none

theorem createWorkspace_cases (h : Inv tools s) (rm : Removal) (made : Except Text Unit) :
    (∃ t message, s.createWorkspace rm made = (t, .error message) ∧ Discards s t) ∨
      ∃ t work, s.createWorkspace rm made = (t, .ok work) ∧ Makes s t work := by
  have hd := discards s rm
  rw [createWorkspace]
  split
  · rename_i t message heq
    rw [heq] at hd
    exact .inl ⟨t, message, rfl, hd⟩
  · rename_i t heq
    have ht : Discards s t := by rwa [heq] at hd
    cases made with
    | error message => exact .inl ⟨t, message, rfl, ht⟩
    | ok =>
      refine .inr ⟨_, _, rfl, fun hidle => ?_, ht.answer, rfl, by simp [setDisk],
        Nat.lt_succ_self _, ?_⟩
      · exact ⟨ht.operation.trans hidle.operation, ht.waiting.trans hidle.waiting,
          ht.call.trans hidle.call, ht.handed.trans hidle.handed⟩
      · -- what was staged is gone with its workspace
        change t.stagedRoot = none
        obtain hnone | ⟨hsame, hworkspace⟩ := ht.stagedRoot
        · exact hnone
        · cases hr : s.stagedRoot with
          | none => exact hsame.trans hr
          | some r =>
            have hw := h.staged r hr
            cases rm with
            | removed =>
              simp only [discardWorkspace, hw, Prod.mk.injEq] at heq
              rw [← heq.1]
            | failed message left => simp [discardWorkspace, hw] at heq

theorem inv_made (h : Inv tools s) (hidle : Idle s) {work : Nat} (hmade : Makes s t work)
    {state : UpdateState} (hphase : state.phase ≠ .ready) : Inv tools { t with state } := by
  obtain ⟨hop, hwaiting, hcall, hhanded⟩ := hmade.idle hidle
  constructor
  · intro w hw
    cases hmade.workspace.symm.trans hw
    exact ⟨hmade.disk, hmade.workspaces⟩
  · simp [hmade.stagedRoot]
  · exact fun hready => absurd hready hphase
  · simp [hwaiting]
  · exact fun hne => absurd hwaiting hne
  · simp [hop]
  · simp [hop, hwaiting]
  · simp [hcall]
  · simp [hcall]
  · simp [hhanded]
  · intro hanswer
    have := h.answered (hmade.answer.symm.trans hanswer)
    simp [hidle.handed] at this

theorem inv_begin (h : Inv tools s) (hidle : Idle s) {stage : Stage}
    (hstage : stage.InWork s.workspace) (hphase : s.state.phase ≠ .ready) :
    Inv tools { s.beginOperation stage with call := .checking } := by
  obtain ⟨-, hwaiting, -, hhanded⟩ := hidle
  refine ⟨h.workspace, by simp [beginOperation], fun hready => absurd hready hphase, ?_,
    fun hne => absurd hwaiting hne, ?_, fun _ => ⟨hphase, hhanded, rfl, .inr rfl⟩, ?_, ?_, ?_,
    h.answered⟩
  · simp [beginOperation, hwaiting]
  · rintro op hop -
    simp only [beginOperation, Option.some_inj] at hop
    subst hop
    exact hstage
  · simp
  · simp
  · simp [beginOperation, hhanded]

theorem inv_idle (h : Inv tools s) (hidle : Idle s) {state : UpdateState}
    (hphase : state.phase ≠ .ready) : Inv tools { s with state } := by
  refine inv_discarded h hidle.operation hidle.handed ?_ (fun root hroot => ?_) hphase
  · exact ⟨rfl, rfl, rfl, rfl, rfl, rfl, rfl, rfl, rfl, rfl, .inr rfl, .inr ⟨rfl, rfl⟩, .inr rfl,
      fun _ _ hdisk => hdisk, fun w hnone hsome => by simp [hnone] at hsome⟩
  · cases hidle.call.symm.trans hroot

theorem inv_unmade (h : Inv tools s) (hidle : Idle s) (hd : Discards s t) {state : UpdateState}
    (hphase : state.phase ≠ .ready) : Inv tools { t with state } :=
  inv_discarded h hidle.operation hidle.handed hd
    (fun _ hroot => by cases hidle.call.symm.trans hroot) hphase

theorem inv_check (h : Inv tools s) (hidle : s.state.phase ≠ .applying → Idle s)
    (hop : s.operation = none) (rawUrl : Text) (rm : Removal) (made : Except Text Unit) :
    Inv tools (s.check tools rawUrl rm made) := by
  rw [check, if_neg (by simp [hop])]
  by_cases hphase : s.state.phase = .applying
  · rwa [if_pos hphase]
  have hidle := hidle hphase
  rw [if_neg hphase]
  cases tools.normalizeUrl rawUrl with
  | error message => exact inv_idle h hidle (by simp)
  | ok url =>
    obtain ⟨t, message, heq, hd⟩ | ⟨t, work, heq, hmade⟩ := createWorkspace_cases h rm made
    · simp only [heq]
      exact inv_unmade h hidle hd (by simp)
    · simp only [heq]
      have hbegun : Inv tools { t with state := { t.state with
          phase := .downloading, url := some url, error := none, validation := none,
          progress := some (0, none) } } := inv_made h hidle hmade (by simp)
      have hmadeIdle := hmade.idle hidle
      exact inv_begin hbegun ⟨hmadeIdle.operation, hmadeIdle.waiting, hmadeIdle.call,
        hmadeIdle.handed⟩ trivial (by simp)

theorem inv_checkFile (h : Inv tools s) (hidle : s.state.phase ≠ .applying → Idle s)
    (hop : s.operation = none) (upload : Except Text Unit) (rm : Removal)
    (made copied : Except Text Unit) (rm' : Removal) :
    Inv tools (s.checkFile tools upload rm made copied rm') := by
  rw [checkFile.eq_def, if_neg (by simp [hop])]
  by_cases hphase : s.state.phase = .applying
  · rwa [if_pos hphase]
  have hidle := hidle hphase
  rw [if_neg hphase]
  cases upload with
  | error message => exact inv_idle h hidle (by simp)
  | ok =>
    obtain ⟨t, message, heq, hd⟩ | ⟨t, work, heq, hmade⟩ := createWorkspace_cases h rm made
    · simp only [heq]
      exact inv_unmade h hidle hd (by simp)
    · simp only [heq]
      have hmadeIdle := hmade.idle hidle
      cases copied with
      | error message =>
        -- the new workspace is removed again, or not
        have hmid : Inv tools { t with state := { t.state with phase := .error } } :=
          inv_made h hidle hmade (by simp)
        have hd := discards_state (discards t rm') { t.state with phase := .error }
        exact inv_discarded hmid hmadeIdle.operation hmadeIdle.handed hd
          (fun _ hroot => by cases hmadeIdle.call.symm.trans hroot) (by simp)
      | ok =>
        have hbegun : Inv tools { t with state := { t.state with
            phase := .extracting, url := some (js "upload"), error := none, validation := none,
            progress := none } } := inv_made h hidle hmade (by simp)
        exact inv_begin hbegun ⟨hmadeIdle.operation, hmadeIdle.waiting, hmadeIdle.call,
          hmadeIdle.handed⟩ hmade.workspace (by simp)

/-! ### Apply -/

theorem inv_refuse (h : Inv tools s) (error : Text) : Inv tools (s.refuse error) := by
  refine ⟨h.workspace, h.staged, h.ready, h.older, h.aborted, h.inWork, fun hbusy => ?_, ?_, ?_,
    h.handed, ?_⟩
  · obtain ⟨hphase, hhanded, hstaged, -⟩ := h.busy hbusy
    exact ⟨hphase, hhanded, hstaged, .inl rfl⟩
  · simp [refuse]
  · simp [refuse]
  · simp [refuse]

theorem inv_apply (h : Inv tools s) (fault : Option Text) : Inv tools (s.apply tools fault) := by
  rw [Updater.apply]
  split
  · rename_i root digest work hroot hdigest hwork
    split_ifs with hphase hop hdev
    · exact inv_refuse h _
    · exact inv_refuse h _
    · exact inv_refuse h _
    cases fault with
    | some message => exact inv_refuse h _
    | none =>
      dsimp only
      split_ifs with hpass
      · exact inv_refuse h _
      · have hready : s.state.phase = .ready := not_not.mp hphase
        have hidle : ¬ (s.operation.isSome ∨ s.waiting ≠ []) :=
          fun hbusy => (h.busy hbusy).1 hready
        have hhanded := handed_none h (by simp [hready])
        have htree : (s.treeAt root).isSome := by
          cases ht : s.treeAt root with
          | some tree => rfl
          | none => simp [ht, Tools.validateUpdateTree] at hpass
        refine ⟨h.workspace, h.staged, h.ready, h.older, h.aborted, h.inWork,
          fun hbusy => absurd hbusy hidle, ?_, ?_, h.handed, h.answered⟩
        · rintro r hr
          cases hr
          exact ⟨hhanded, .inr ⟨hready, hroot, htree⟩⟩
        · simp
  · exact inv_refuse h _

theorem digestAt_ok {root : Root} {fault : Option Text} {stray digest : D} {tree : Folder}
    (htree : s.treeAt root = some tree) (h : s.digestAt tools root fault stray = .ok digest) :
    digestUpdateTree tools.sha tree = .ok digest := by
  cases fault with
  | some message => cases h
  | none => simpa only [digestAt, htree] using h

/-- The helper is started on the tree that has just been digested. -/
theorem inv_redigested [DecidableEq D] (h : Inv tools s) {root : Root}
    (hcall : s.call = .redigesting root) (fault : Option Text) (stray : D) (helper : Helper) :
    Inv tools (s.redigested tools root fault stray helper) := by
  rw [redigested.eq_def]
  cases hread : s.digestAt tools root fault stray with
  | error message => exact inv_refuse h _
  | ok digest =>
    dsimp only
    split_ifs with hdigest
    · exact inv_refuse h _
    cases helper with
    | missing => exact inv_refuse h _
    | uncopied message => exact inv_refuse h _
    | staged =>
      obtain ⟨hhanded, hgone | ⟨hready, hroot, htree⟩⟩ := h.redigesting root hcall
      · exact absurd (hgone.symm ▸ not_not.mp hdigest) (by simp)
      obtain ⟨-, -, hvalidated⟩ := h.ready hready
      obtain ⟨tree, htree⟩ := Option.isSome_iff_exists.mp htree
      have hidle : ¬ (s.operation.isSome ∨ s.waiting ≠ []) :=
        fun hbusy => (h.busy hbusy).1 hready
      dsimp only
      split
      · rename_i work staged _ hstaged
        cases hroot.symm.trans hstaged
        refine ⟨h.workspace, h.staged, h.ready, h.older, h.aborted, h.inWork,
          fun hbusy => absurd hbusy hidle, by simp, ?_, h.handed, h.answered⟩
        rintro handed hlaunch
        cases hlaunch
        refine ⟨hhanded, digest, ?_, ?_⟩
        · exact hvalidated.symm.trans (not_not.mp hdigest).symm
        · rw [htree]
          exact digestAt_ok htree hread
      · exact inv_refuse h _

/-- The helper has been confirmed while its workspace is the current one. -/
theorem inv_launched (h : Inv tools s) {handed : Handed} (hcall : s.call = .launching handed)
    (result : Except Text Unit) (hallowed : result = .ok () → s.workspace = some handed.root.work) :
    Inv tools (s.launched tools handed result) := by
  cases result with
  | error message => exact inv_refuse h _
  | ok =>
    obtain ⟨-, hvalidated⟩ := h.launching handed hcall
    have hidle : ¬ (s.operation.isSome ∨ s.waiting ≠ []) := by
      intro hbusy
      obtain ⟨-, -, -, hfree | hchecking⟩ := h.busy hbusy
      · cases hfree.symm.trans hcall
      · cases hchecking.symm.trans hcall
    refine ⟨h.workspace, h.staged, by simp [launched], h.older, h.aborted, h.inWork,
      fun hbusy => absurd hbusy hidle, by simp [launched], by simp [launched], ?_, fun _ => rfl⟩
    rintro other hother
    cases hother
    exact ⟨rfl, hallowed rfl, hvalidated⟩

/-! ### Runs -/

/-- The workspace of the helper that is being started. -/
def Call.helperWork : Call → Option Nat
  | .launching handed => some handed.root.work
  | _ => none

def Event.isConfirmed : Event D → Bool
  | .launched (.ok ()) => true
  | _ => false

/-- When the start of the helper is confirmed, its workspace is still the current one: no cancel
has removed it since. -/
def Allowed (s : Updater D) (e : Event D) : Prop :=
  e.isConfirmed = true → ∀ work ∈ s.call.helperWork, s.workspace = some work

instance (s : Updater D) (e : Event D) : Decidable (Allowed s e) :=
  inferInstanceAs (Decidable (_ → _))

theorem inv_idleStep [DecidableEq D] (h : Inv tools s) (hop : s.operation = none)
    (hwaiting : s.waiting = []) (hcall : s.call = .free) {e : Event D}
    (hstep : s.idleStep tools e = some t) : Inv tools t := by
  have hidle : s.state.phase ≠ .applying → Idle s :=
    fun hphase => ⟨hop, hwaiting, hcall, handed_none h hphase⟩
  cases e with
  | check rawUrl rm made =>
    cases hstep
    exact inv_check h hidle hop rawUrl rm made
  | checkFile upload rm made copied rm' =>
    cases hstep
    exact inv_checkFile h hidle hop upload rm made copied rm'
  | cancel rm =>
    cases hstep
    exact inv_cancel h rm
  | apply fault =>
    cases hstep
    exact inv_apply h fault
  | tamper work tree =>
    cases hstep
    exact inv_files h (by simp [hcall]) work tree
  | _ => cases hstep

/-- What a step is. -/
inductive Takes [DecidableEq D] (tools : Tools D) (s : Updater D) : Event D → Updater D → Prop
  | resume (before : Nat) (rest : List Nat) (rm : Removal) (hop : s.operation = none)
      (hwaiting : s.waiting = before :: rest) :
      Takes tools s (.resume rm) { s.finishCancel tools rm with waiting := rest }
  | cleanClose (rm : Removal) (hop : s.operation = none → s.waiting = []) :
      Takes tools s (.cleanClose rm) { s.cancel tools rm with closed := true }
  | operation (op : Operation) (e : Event D) (t : Updater D) (hop : s.operation = some op)
      (hstep : s.operationStep tools op e = some t) : Takes tools s e t
  | redigested (root : Root) (fault : Option Text) (stray : D) (helper : Helper)
      (hcall : s.call = .redigesting root) :
      Takes tools s (.redigested fault stray helper) (s.redigested tools root fault stray helper)
  | launched (handed : Handed) (result : Except Text Unit) (hcall : s.call = .launching handed) :
      Takes tools s (.launched result) (s.launched tools handed result)
  | idle (e : Event D) (t : Updater D) (hop : s.operation = none) (hwaiting : s.waiting = [])
      (hcall : s.call = .free) (hstep : s.idleStep tools e = some t) : Takes tools s e t

theorem takes_of_step [DecidableEq D] {e : Event D} (hstep : s.step tools e = some t) :
    Takes tools s e t := by
  rw [step] at hstep
  split at hstep
  · rename_i before rest hop hwaiting
    split at hstep
    · cases hstep
      exact .resume before rest _ hop hwaiting
    · cases hstep
  · rename_i operation waiting hbusy
    split at hstep
    · split_ifs at hstep
      cases hstep
      refine .cleanClose _ fun hop => ?_
      cases hw : s.waiting with
      | nil => rfl
      | cons before rest => exact absurd hw (hbusy before rest hop)
    · split at hstep
      · exact .operation _ _ t ‹_› hstep
      · rename_i hop
        split at hstep
        · rename_i root _ _ _ hcall _
          cases hstep
          exact .redigested root _ _ _ hcall
        · rename_i handed _ hcall _
          cases hstep
          exact .launched handed _ hcall
        · refine .idle _ t hop ?_ ‹_› hstep
          cases hw : s.waiting with
          | nil => rfl
          | cons before rest => exact absurd hw (hbusy before rest hop)
        · cases hstep

theorem inv_step [DecidableEq D] (h : Inv tools s) {e : Event D} (hallowed : Allowed s e)
    (hstep : s.step tools e = some t) : Inv tools t := by
  cases takes_of_step hstep with
  | resume before rest rm hop hwaiting =>
    obtain ⟨-, hhanded, -, -⟩ := h.busy (.inr (by simp [hwaiting]))
    have hcancelled : Inv tools (s.finishCancel tools rm) := inv_finishCancel h hop hhanded rm
    obtain ⟨t, state, heq, hd, -, -⟩ := finishCancel_eq tools s rm
    rw [heq] at hcancelled ⊢
    exact inv_resumed hcancelled (hd.waiting.trans hwaiting)
  | cleanClose rm hop =>
    obtain ⟨h1, h2, h3, h4, h5, h6, h7, h8, h9, h10, h11⟩ := inv_cancel h rm
    exact ⟨h1, h2, h3, h4, h5, h6, h7, h8, h9, h10, h11⟩
  | operation op e t hop hstep => exact inv_operationStep h hop hstep
  | redigested root fault stray helper hcall => exact inv_redigested h hcall fault stray helper
  | launched handed result hcall =>
    refine inv_launched h hcall result fun hok => ?_
    subst hok
    exact hallowed rfl handed.root.work (by simp [hcall, Call.helperWork])
  | idle e t hop hwaiting hcall hstep => exact inv_idleStep h hop hwaiting hcall hstep

/-- What a step of an operation leaves as it was, if the operation is no longer the current one. -/
def Silent (s t : Updater D) : Prop := t.state = s.state ∧ t.stagedRoot = s.stagedRoot

theorem silent_failCheck (h : s.current = false) (message : Text) (rm : Removal) :
    Silent s (s.failCheck tools message rm) := by
  rw [failCheck, if_neg (by simp [h])]
  exact ⟨rfl, rfl⟩

theorem silent_afterChecksum (h : s.current = false) (url : Text) (rm : Removal) :
    Silent s (s.afterChecksum tools url rm) := by
  rw [afterChecksum, if_neg (by simp [h])]
  exact ⟨rfl, rfl⟩

theorem silent_checksum {checksum : Bool} (h : Silent { s with checksum } t) : Silent s t := h

theorem silent_sidecarRead (h : s.current = false) (url : Text) (sidecar : Sidecar)
    (rm : Removal) : Silent s (s.sidecarRead tools url sidecar rm) := by
  cases sidecar with
  | missing =>
    have hskipped : ({ s with checksum := false } : Updater D).current = false := h
    exact silent_checksum (silent_afterChecksum hskipped url rm)
  | malformed => exact silent_afterChecksum h url rm
  | unreadable message =>
    simp only [sidecarRead, h]
    exact ⟨rfl, rfl⟩
  | digest expected =>
    simp only [sidecarRead, h]
    exact ⟨rfl, rfl⟩

theorem silent_hashed (h : s.current = false) (url expected : Text) (actual : Except Text Text)
    (rm : Removal) : Silent s (s.hashed tools url expected actual rm) := by
  cases actual with
  | error message => exact silent_failCheck h message rm
  | ok actual =>
    simp only [hashed]
    split
    · exact silent_failCheck h _ rm
    · have hverified : ({ s with checksum := true } : Updater D).current = false := h
      exact silent_checksum (silent_afterChecksum hverified url rm)

theorem silent_extracted (h : s.current = false) (work : Nat) (label : Text)
    (result : Except Text Unit) (tree : Folder) (rm : Removal) :
    Silent s (s.extracted tools work label result tree rm) := by
  have hwritten : (s.setDisk work ((s.disk work).map fun _ => tree)).current = false := h
  rw [extracted.eq_def]
  dsimp only
  rw [if_neg (by simp [hwritten])]
  exact ⟨rfl, rfl⟩

theorem silent_digested (h : s.current = false) (root : Root) (validation : Validation)
    (fault : Option Text) (stray : D) (rm : Removal) :
    Silent s (s.digested tools root validation fault stray rm) := by
  rw [digested]
  split
  · rename_i digest _
    have hassigned : ({ s with stagedDigest := some digest, validated := some digest } :
        Updater D).current = false := h
    rw [finishInspect, if_neg (by simp [hassigned])]
    exact ⟨rfl, rfl⟩
  · rw [if_neg (by simp [h])]
    exact ⟨rfl, rfl⟩

theorem silent_operationStep [DecidableEq D] {op : Operation} (hop : s.operation = some op)
    (hcurrent : s.isCurrent op = false) {e : Event D} (hstep : s.operationStep tools op e = some t) :
    Silent s t := by
  have h : s.current = false := by simp [Updater.current, hop, hcurrent]
  cases e with
  | progress received total =>
    simp only [operationStep, h] at hstep
    split at hstep
    · cases hstep
      exact ⟨rfl, rfl⟩
    · cases hstep
  | transferred result rm =>
    simp only [operationStep] at hstep
    split at hstep
    · cases hstep
      cases result with
      | error message => exact silent_failCheck h message rm
      | ok =>
        simp only [transferred, h]
        exact ⟨rfl, rfl⟩
    · cases hstep
  | sidecar sidecar rm =>
    simp only [operationStep] at hstep
    split at hstep
    · cases hstep
      exact silent_sidecarRead h _ sidecar rm
    · cases hstep
  | hashed actual rm =>
    simp only [operationStep] at hstep
    split at hstep
    · cases hstep
      exact silent_hashed h _ _ actual rm
    · cases hstep
  | extracted result tree rm =>
    simp only [operationStep] at hstep
    split at hstep
    · cases hstep
      exact silent_extracted h _ _ result tree rm
    · cases hstep
  | digested fault stray rm =>
    simp only [operationStep] at hstep
    split at hstep
    · cases hstep
      exact silent_digested h _ _ fault stray rm
    · cases hstep
  | _ => cases hstep

/-- What the service promises of a state. -/
structure Safe [DecidableEq D] (tools : Tools D) (s : Updater D) : Prop where
  ready : s.state.phase = .ready → s.stagedRoot.isSome ∧ s.stagedDigest.isSome
  answered : s.answer = some (.ok ()) → s.handed.isSome
  handed : ∀ h, s.handed = some h →
    s.workspace = some h.root.work ∧ (s.disk h.root.work).isSome ∧ h.Validated tools s
  silent : ∀ op, s.operation = some op → s.isCurrent op = false →
    ∀ e t, s.operationStep tools op e = some t →
      t.state = s.state ∧ t.stagedRoot.bind t.treeAt = s.stagedRoot.bind s.treeAt
  cancelled : s.waiting ≠ [] → ∀ op, s.operation = some op → s.isCurrent op = false
  resumes : ∀ before ∈ s.waiting, ∀ rm w, (s.disk w).isSome →
    (s.finishCancel tools rm).disk w = none → w < before
  cancels : ∀ rm w, (s.disk w).isSome → (s.cancel tools rm).disk w = none → w < s.workspaces

theorem removed_of_cancel (rm : Removal) {w : Nat} (hdisk : (s.disk w).isSome)
    (hgone : (s.finishCancel tools rm).disk w = none) : s.workspace = some w := by
  obtain ⟨t, state, heq, hd, -, -⟩ := finishCancel_eq tools s rm
  rw [heq] at hgone
  exact hd.only w hgone hdisk

theorem safe_of_inv [DecidableEq D] (h : Inv tools s) : Safe tools s := by
  constructor
  · exact fun hready => ⟨(h.ready hready).1, (h.ready hready).2.1⟩
  · exact h.answered
  · intro handed hsome
    obtain ⟨-, hworkspace, hvalidated⟩ := h.handed handed hsome
    exact ⟨hworkspace, (h.workspace _ hworkspace).1, hvalidated⟩
  · intro op hop hcurrent e t hstep
    obtain ⟨hstate, hroot⟩ := silent_operationStep hop hcurrent hstep
    obtain ⟨-, -, hstaged, -⟩ := h.busy (.inl (hop ▸ rfl))
    exact ⟨hstate, by rw [hroot, hstaged]; rfl⟩
  · intro hwaiting op hop
    simpa [Updater.current, hop] using h.aborted hwaiting
  · exact fun before hb rm w hdisk hgone => h.older before hb w (removed_of_cancel rm hdisk hgone)
  · intro rm w hdisk hgone
    rw [cancel] at hgone
    split_ifs at hgone
    · simp [hgone] at hdisk
    · dsimp only at hgone
      split at hgone
      · have hnone : s.disk w = none := hgone
        simp [hnone] at hdisk
      · have hdisk' : (({ s with generation := s.generation + 1 } : Updater D).disk w).isSome :=
          hdisk
        have hw : ({ s with generation := s.generation + 1 } : Updater D).workspace = some w :=
          removed_of_cancel rm hdisk' hgone
        exact (h.workspace w hw).2

theorem inv_start : Inv tools ({} : Updater D) := by
  constructor <;> simp

theorem inv_next [DecidableEq D] (h : Inv tools s) {e : Event D} (hallowed : Allowed s e) :
    Inv tools (s.next tools e) := by
  rw [next]
  cases hstep : s.step tools e with
  | none => exact h
  | some t => exact inv_step h hallowed hstep

/-- Only the validated tree of the current workspace is handed to the helper. -/
theorem only_validated_handed [DecidableEq D] (tools : Tools D) (events : List (Event D))
    (h : Guarded (Updater.next tools) Allowed {} events) :
    Safe tools (run (Updater.next tools) {} events) := by
  have hstep : ∀ s e, Inv tools s → Allowed s e → Inv tools (Updater.next tools s e) :=
    fun _ _ h => inv_next h
  exact safe_of_inv (run_preserves hstep h inv_start)

/-- The digest is the bytes themselves, and every tree passes. -/
def plainTools : Tools (List Nat) :=
  ⟨id, fun _ _ => ⟨true, some (js "2.0.0")⟩, .ok, fun message _ => message, false⟩

/-- A check up to the staged tree, and `apply` up to the start of the helper. -/
def launchEvents : List (Event (List Nat)) :=
  [.check (js "https://github.com/a/b.zip") .removed (.ok ()), .transferred (.ok ()) .removed,
    .sidecar .missing .removed,
    .extracted (.ok ()) [(js "package.json", .file [123, 125])] .removed, .digested none [] .removed,
    .apply none, .redigested none [] .staged]

theorem only_validated_handed_launch :
    (run (Updater.next plainTools) {} (launchEvents ++ [.launched (.ok ())])).handed.isSome = true ∧
      Safe plainTools (run (Updater.next plainTools) {} (launchEvents ++ [.launched (.ok ())])) :=
  ⟨by decide +kernel, only_validated_handed plainTools _ (by decide +kernel)⟩

/-- The app is closed while the helper starts: what it gets is gone. -/
theorem closed_while_launching :
    ¬Safe plainTools (run (Updater.next plainTools) {}
      (launchEvents ++ [.cleanClose .removed, .launched (.ok ())])) := by
  intro h
  have hgone : (run (Updater.next plainTools) {}
      (launchEvents ++ [.cleanClose .removed, .launched (.ok ())])).workspace = none := by
    decide +kernel
  have hanswer : (run (Updater.next plainTools) {}
      (launchEvents ++ [.cleanClose .removed, .launched (.ok ())])).handed.isSome = true := by
    decide +kernel
  obtain ⟨handed, hsome⟩ := Option.isSome_iff_exists.mp hanswer
  obtain ⟨hworkspace, -, -⟩ := h.handed handed hsome
  cases hgone.symm.trans hworkspace

end BoredManager.Server.Update
