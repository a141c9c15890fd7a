import BoredManager.Server.Transactions

/-! Every operation on a module is done whole or not at all: each step of a transaction can be undone
until its last, whatever becomes of the calls, and what is undone is told so. -/
namespace BoredManager.Server.Transactions
open BoredManager.Js BoredManager.Calls BoredManager.Faults

variable {τ : Type} {v : Visible τ} {j : TransactionJournal} {d d' : Disk τ} {calm : Prop}

/-! ### Undoing a transaction -/

/-- A transaction that is under way: what is in memory is what the journal says, up to what the file of
an untouched one has yet to learn. -/
inductive Pending (v : Visible τ) (d : Disk τ) (t : Option ActiveTransaction) : Prop
  | none (h : Clean v d) (hmemory : t = none)
  | untouched (j journal : TransactionJournal) (hostStopped : Bool) (h : Untouched v j d)
      (hphase : journal.phase.isUntouched = true) (hmemory : t = some ⟨journal, hostStopped⟩)
  | mutated (j : TransactionJournal) (hostStopped : Bool) (hrecords : Records v j) (h : Mutated v j d)
      (hphase : j.phase.isMutated = true) (hmemory : t = some ⟨j, hostStopped⟩)

theorem Pending.settles {t : Option ActiveTransaction} (h : Pending v d t) : Settles v d := by
  cases h with
  | none h hmemory => exact .clean h
  | untouched j journal hostStopped h hphase hmemory => exact h.settles
  | mutated j hostStopped hrecords h hphase hmemory => exact .mutated j hrecords h hphase

theorem Pending.of_mutated {j : TransactionJournal} {hostStopped : Bool}
    (h : Pending v d (some ⟨j, hostStopped⟩)) (hphase : phaseMayHaveMutatedState j.phase = true) :
    (Records v j ∧ j.phase.isMutated = true) ∧ Mutated v j d := by
  cases h with
  | none h hmemory => cases hmemory
  | untouched j' journal hostStopped h huntouched hmemory =>
    cases hmemory
    rw [isUntouched_mayHaveMutated huntouched] at hphase
    cases hphase
  | mutated j' hostStopped hrecords h hmutated hmemory =>
    cases hmemory
    exact ⟨⟨hrecords, hmutated⟩, h⟩

theorem Pending.of_untouched {journal : TransactionJournal} {hostStopped : Bool}
    (h : Pending v d (some ⟨journal, hostStopped⟩))
    (hphase : phaseMayHaveMutatedState journal.phase ≠ true) : ∃ j, Untouched v j d := by
  cases h with
  | none h hmemory => cases hmemory
  | untouched j journal hostStopped h huntouched hmemory => exact ⟨j, h⟩
  | mutated j hostStopped hrecords h hmutated hmemory =>
    cases hmemory
    exact absurd (isMutated_mayHaveMutated hmutated) hphase

theorem spec_rollbackTransaction (v : Visible τ) :
    Spec calm (fun d t => Pending v d t) (rollbackTransaction (τ := τ)) (fun _ d _ => Clean v d)
      fun _ d _ => Settles v d := by
  rw [rollbackTransaction]
  refine spec_memory fun t => ?_
  cases t with
  | none =>
    refine spec_pure fun d _ h => ?_
    cases h.2 with
    | none h hmemory => exact h
    | untouched j journal hostStopped h hphase hmemory => cases hmemory
    | mutated j hostStopped hrecords h hphase hmemory => cases hmemory
  | some transaction =>
    obtain ⟨j, hostStopped⟩ := transaction
    by_cases hphase : phaseMayHaveMutatedState j.phase = true
    · refine spec_fact (fun d t h => (h.2.of_mutated hphase).1) fun ⟨hrecords, hmutated⟩ =>
        spec_pre (N := fun d _ => Mutated v j d) ?_ fun d t h => (h.2.of_mutated hphase).2
      have hundo : ∀ {α : Type} {x : Program τ α} {P : Assertion τ} {Q : α → Assertion τ},
          Spec calm P x Q (fun _ d _ => Mutated v j d) → Spec calm P x Q fun _ d _ => Settles v d :=
        fun hx => hx.weaken (fun _ h => h) (fun _ _ h => h)
          fun _ _ h => ⟨h.1, .mutated j hrecords h.2 hmutated⟩
      simp only [hphase, if_true, hrecords.registry]
      exact spec_bind (hundo (spec_idle fun _ _ h _ => h)) fun _ =>
        spec_bind (hundo (spec_restoreModuleFolder hrecords)) fun _ =>
        spec_bind (hundo (spec_restorePersistentFiles hrecords)) fun _ =>
        spec_bind (spec_writeModuleRegistry hrecords hmutated) fun _ =>
        spec_when (fun _ => spec_idle fun _ _ h _ => .mutated j hrecords h.1.mutated hmutated)
          (fun _ _ _ h => h) (spec_markRolledBack hrecords hmutated)
    · simp only [hphase, Bool.false_eq_true, if_false]
      refine spec_pre (N := fun d _ => ∃ j, Untouched v j d) ?_ fun d t h => h.2.of_untouched hphase
      refine spec_when (fun _ => spec_idle fun _ _ h _ => h.elim fun _ h => h.settles) (fun _ _ _ h => h) ?_
      rintro w ⟨⟨j, h⟩, hcalm⟩
      exact spec_removeUntouchedTransaction w ⟨h, hcalm⟩

/-! ### A transaction on its way -/

/-- The journal of a module of which it is not known yet what it was. -/
def firstJournal (v : Visible τ) (operation : TransactionOperation) (id : Text) : TransactionJournal :=
  ⟨operation, id, .preparing, (v.modules id).folder.isSome, none, false, false, false⟩

/-- The journal that says what the module was. -/
def journalOf (v : Visible τ) (operation : TransactionOperation) (id : Text) (phase : TransactionPhase) :
    TransactionJournal :=
  ⟨operation, id, phase, (v.modules id).folder.isSome, some v.registry, (v.modules id).config.isSome,
    (v.modules id).configBackup.isSome, (v.modules id).data.isSome⟩

theorem records_journalOf (v : Visible τ) (operation : TransactionOperation) (id : Text)
    (phase : TransactionPhase) : Records v (journalOf v operation id phase) := ⟨rfl, rfl, rfl, rfl, rfl⟩

/-- A step that throws leaves a transaction to be undone. If the process stops, the files settle to what
was, or to what a step that was through has made of it. -/
def Halted (v : Visible τ) (A : Visible τ → Prop) : Halt → Assertion τ
  | .thrown => fun d t => Pending v d t
  | .stopped => fun d _ => Settles v d ∨ ∃ v', A v' ∧ Settles v' d

variable {A : Visible τ → Prop} {P : Assertion τ} {Q : Assertion τ}

theorem Pending.halted {t : Option ActiveTransaction} (h : Pending v d t) (halt : Halt) :
    Halted v A halt d t := by
  cases halt with
  | thrown => exact h
  | stopped => exact .inl h.settles

/-- A step of which every outcome can be undone. -/
theorem spec_step {full : Disk τ → Disk τ} {part : Left τ → Disk τ → Disk τ}
    (hfull : ∀ d t, P d t → Q (full d) t) (hpending : ∀ d t, Q d t → Pending v d t)
    (hpart : ∀ left d t, P d t → Pending v (part left d) t) :
    Spec calm P (sysCall full part) (fun _ => Q) (Halted v A) :=
  spec_sysCall hfull (fun left d t h halt => (hpart left d t h).halted halt)
    fun d t h => (hpending _ t (hfull d t h)).halted .stopped

/-- The journal in the file, then the phase in memory. -/
theorem spec_advance {j : TransactionJournal} {hostStopped : Bool} {phase : TransactionPhase}
    {R : Halt → Assertion τ} (hmemory : ∀ d t, P d t → t = some ⟨j, hostStopped⟩)
    (hnext : ∀ d t, P d t → Q { d with journal := some { j with phase } }
      (some ⟨{ j with phase }, hostStopped⟩))
    (hkeep : ∀ d t, P d t → ∀ halt, R halt d t)
    (hdone : ∀ d t, P d t → R .stopped { d with journal := some { j with phase } } t) :
    Spec calm P (advance phase) (fun _ => Q) R := by
  rw [advance]
  refine spec_memory fun t => spec_fact (φ := t = some ⟨j, hostStopped⟩) ?_ fun ht => ?_
  · rintro d _ ⟨rfl, h⟩
    exact hmemory d _ h
  subst ht
  refine spec_bind (M := fun journal d _ => journal = { j with phase } ∧
    Q d (some ⟨{ j with phase }, hostStopped⟩)) ?_ fun journal => ?_
  · rw [writeJournal]
    exact spec_bind (M := fun _ d _ => Q d (some ⟨{ j with phase }, hostStopped⟩)) (spec_atomic
      (fun d _ h => hnext d _ h.2) (fun d t h => hkeep d t (h.1 ▸ h.2)) fun d t h => hdone d t (h.1 ▸ h.2))
      fun _ => spec_pure fun _ _ h => ⟨rfl, h⟩
  · refine spec_fact (fun _ _ h => h.1) fun hjournal => ?_
    subst hjournal
    exact spec_remember fun _ _ h => h.2

/-- What a transaction has made so far, and nothing of the module is changed. -/
structure Preparing (v : Visible τ) (j : TransactionJournal) (active : ActiveTransaction)
    (candidate : Option τ) (snapshot : Option (Snapshot τ)) (d : Disk τ) (t : Option ActiveTransaction) :
    Prop where
  untouched : Untouched v j d
  candidate : d.candidate = candidate
  snapshot : d.snapshot = snapshot
  memory : t = some active
  phase : active.journal.phase.isUntouched = true

section
variable {active : ActiveTransaction} {candidate : Option τ} {t : Option ActiveTransaction}

theorem Preparing.pending {snapshot : Option (Snapshot τ)}
    (h : Preparing v j active candidate snapshot d t) : Pending v d t := .untouched j active.journal active.hostStopped h.untouched h.phase h.memory

theorem Preparing.onSnapshot {s : Snapshot τ} (h : Preparing v j active candidate (some s) d t)
    (f : Snapshot τ → Snapshot τ) : Preparing v j active candidate (some (f s)) (onSnapshot f d) t :=
  ⟨h.untouched.same rfl rfl rfl rfl rfl rfl, h.candidate, congrArg (Option.map f) h.snapshot, h.memory,
    h.phase⟩

/-- Something is copied into the snapshot. -/
theorem spec_onSnapshot {s : Snapshot τ} (f : Snapshot τ → Snapshot τ)
    (part : Left τ → Snapshot τ → Snapshot τ) :
    Spec calm (Preparing v j active candidate (some s))
      (sysCall (onSnapshot f) fun left => onSnapshot (part left))
      (fun _ => Preparing v j active candidate (some (f s))) (Halted v A) :=
  spec_step (fun _ _ h => h.onSnapshot f) (fun _ _ h => h.pending)
    fun left _ _ h => (h.onSnapshot (part left)).pending

theorem spec_copyPrivateFile {s : Snapshot τ} {id : Text} {source : Module τ → Option Text}
    {destination : Snapshot τ → Option Text} {write : Option Text → Snapshot τ → Snapshot τ}
    {part : Left τ → Option Text} (hsource : (source (v.modules id)).isSome = true)
    (hfree : destination s = none) :
    Spec calm (Preparing v j active candidate (some s)) (copyPrivateFile id source destination write part)
      (fun _ => Preparing v j active candidate (some (write (source (v.modules id)) s))) (Halted v A) := by
  rw [copyPrivateFile]
  refine spec_disk fun d₀ => spec_fact (φ := d₀.modules = v.modules ∧ d₀.snapshot = some s) ?_
    fun ⟨hmodules, hsnapshot⟩ => ?_
  · rintro d t ⟨rfl, h⟩
    exact ⟨h.untouched.kept.modules, h.snapshot⟩
  rw [hmodules, hsnapshot]
  refine spec_check ?_ (spec_bind (spec_pre (spec_onSnapshot _ _) fun _ _ h => h.2) fun _ =>
    spec_idle fun _ _ h => h.pending.halted)
  rintro d t - (hnone | htaken)
  · rw [hnone] at hsource
    cases hsource
  · rw [Option.any_some, hfree] at htaken
    cases htaken

theorem spec_cpModuleData {s : Snapshot τ} {id : Text} (hsource : (v.modules id).data.isSome = true)
    (hfree : s.moduleData = none) :
    Spec calm (Preparing v j active candidate (some s)) (cpModuleData (τ := τ) id)
      (fun _ => Preparing v j active candidate (some { s with moduleData := (v.modules id).data }))
      (Halted v A) := by
  rw [cpModuleData]
  refine spec_disk fun d₀ => spec_fact (φ := d₀.modules = v.modules ∧ d₀.snapshot = some s) ?_
    fun ⟨hmodules, hsnapshot⟩ => ?_
  · rintro d t ⟨rfl, h⟩
    exact ⟨h.untouched.kept.modules, h.snapshot⟩
  rw [hmodules, hsnapshot]
  refine spec_check ?_ (spec_pre (spec_onSnapshot _ fun left s => { s with moduleData := left.tree })
    fun _ _ h => h.2)
  rintro d t - (hnone | htaken)
  · rw [hnone] at hsource
    cases hsource
  · rw [Option.any_some, hfree] at htaken
    cases htaken

/-- All that the module has beside its folder. -/
def Visible.snapshot (v : Visible τ) (id : Text) : Snapshot τ :=
  ⟨(v.modules id).config, (v.modules id).configBackup, (v.modules id).data⟩

theorem spec_capturePersistentSnapshot {journal : TransactionJournal} (hrecords : Records v journal) :
    Spec calm (Preparing v j active candidate none) (capturePersistentSnapshot (τ := τ) journal)
      (fun _ => Preparing v j active candidate (some (v.snapshot journal.id))) (Halted v A) := by
  have hnone : ∀ {α : Type} {flag : Bool} {held : Option α}, flag = held.isSome → ¬flag = true →
      held = none := by
    rintro α flag held rfl h
    exact Option.not_isSome_iff_eq_none.mp h
  have hroot : ∀ d t, Preparing v j active candidate none d t →
      Preparing v j active candidate (some .empty)
        { d with snapshot := some (d.snapshot.getD .empty) } t := by
    intro d t h
    refine ⟨h.untouched.same rfl rfl rfl rfl rfl rfl, h.candidate, ?_, h.memory, h.phase⟩
    rw [h.snapshot]
    rfl
  rw [capturePersistentSnapshot]
  refine spec_bind (spec_step hroot (fun _ _ h => h.pending) fun _ _ _ h => h.pending) fun _ =>
    spec_bind (spec_idle fun _ _ h => h.pending.halted) fun _ => ?_
  refine spec_when (M := Preparing v j active candidate (some ⟨(v.modules journal.id).config, none, none⟩))
    (fun hflag => spec_copyPrivateFile (hrecords.configPrimary.symm.trans hflag) rfl)
    (fun hflag d t h => ?_) ?_
  · rw [hnone hrecords.configPrimary hflag]
    exact h
  refine spec_when (M := Preparing v j active candidate
      (some ⟨(v.modules journal.id).config, (v.modules journal.id).configBackup, none⟩))
    (fun hflag => spec_copyPrivateFile (hrecords.configBackup.symm.trans hflag) rfl)
    (fun hflag d t h => ?_) ?_
  · rw [hnone hrecords.configBackup hflag]
    exact h
  split
  · rename_i hflag
    exact spec_cpModuleData (hrecords.moduleData.symm.trans hflag) rfl
  · rename_i hflag
    refine spec_pure fun d t h => ?_
    rw [Visible.snapshot, hnone hrecords.moduleData hflag]
    exact h

/-- The phase goes on while the module is untouched. -/
theorem spec_advance_untouched {journal : TransactionJournal} {hostStopped : Bool}
    {snapshot : Option (Snapshot τ)} {phase : TransactionPhase} (hphase : phase.isUntouched = true) :
    Spec calm (Preparing v j ⟨journal, hostStopped⟩ candidate snapshot) (advance (τ := τ) phase)
      (fun _ => Preparing v { journal with phase } ⟨{ journal with phase }, hostStopped⟩ candidate snapshot)
      (Halted v A) := by
  have hnext : ∀ d t, Preparing v j ⟨journal, hostStopped⟩ candidate snapshot d t →
      Preparing v { journal with phase } ⟨{ journal with phase }, hostStopped⟩ candidate snapshot
        { d with journal := some { journal with phase } } (some ⟨{ journal with phase }, hostStopped⟩) :=
    fun d t h => ⟨⟨⟨rfl, h.untouched.kept.modules, h.untouched.kept.registry, h.untouched.kept.restore,
      h.untouched.kept.displaced⟩, hphase, h.untouched.backup⟩, h.candidate, h.snapshot, rfl, hphase⟩
  exact spec_advance (fun _ _ h => h.memory) hnext (fun _ _ h => h.pending.halted)
    fun d t h => .inl (hnext d t h).pending.settles

end

/-- From the first journal to the one with which the module may be touched. -/
theorem spec_stopAndSnapshot {operation : TransactionOperation} {id : Text} {candidate : Option τ} :
    Spec calm
      (Preparing v (firstJournal v operation id) ⟨firstJournal v operation id, false⟩ candidate none)
      (stopAndSnapshot (τ := τ) id)
      (fun _ => Preparing v (journalOf v operation id .prepared) ⟨journalOf v operation id .prepared, true⟩
        candidate (some (v.snapshot id))) (Halted v A) := by
  rw [stopAndSnapshot]
  refine spec_bind (spec_idle fun _ _ h => h.pending.halted) fun _ => spec_memory fun t₀ =>
    spec_fact (fun _ _ h => h.2.memory) fun ht => ?_
  subst ht
  refine spec_disk fun d₀ => spec_fact (φ := d₀.modules = v.modules ∧ d₀.registry = v.registry) ?_
    fun ⟨hmodules, hregistry⟩ => ?_
  · rintro d t ⟨rfl, -, h⟩
    exact ⟨h.untouched.kept.modules, h.untouched.kept.registry⟩
  simp only [hmodules, hregistry]
  have hrecords := records_journalOf v operation id .preparing
  have hadvance : ∀ {j : TransactionJournal} {before phase : TransactionPhase}
      {snapshot : Option (Snapshot τ)}, phase.isUntouched = true → Spec calm
      (Preparing v j ⟨journalOf v operation id before, true⟩ candidate snapshot) (advance phase)
      (fun _ => Preparing v (journalOf v operation id phase) ⟨journalOf v operation id phase, true⟩
        candidate snapshot) (Halted v A) := fun h => spec_advance_untouched h
  refine spec_bind (M := fun _ => Preparing v (firstJournal v operation id)
    ⟨journalOf v operation id .preparing, true⟩ candidate none) (spec_remember fun d t h => ?_) fun _ =>
    spec_bind (hadvance rfl) fun _ =>
    spec_bind (spec_capturePersistentSnapshot hrecords) fun _ =>
    spec_bind (spec_assertSnapshotComplete hrecords fun _ _ h => h.snapshot) fun _ => hadvance rfl
  obtain ⟨-, -, h⟩ := h
  exact ⟨h.untouched, h.candidate, h.snapshot, rfl, rfl⟩

/-! ### Touching the module -/

/-- The files in the middle of a transaction. -/
def midway (v : Visible τ) (operation : TransactionOperation) (id : Text) (phase : TransactionPhase)
    (m : Module τ) (registry : Registry) (candidate backup : Option τ) : Disk τ :=
  ⟨Function.update v.modules id m, registry, candidate, backup, none, none, some (v.snapshot id),
    some (journalOf v operation id phase)⟩

def Midway (v : Visible τ) (operation : TransactionOperation) (id : Text) (phase : TransactionPhase)
    (m : Module τ) (registry : Registry) (candidate backup : Option τ) : Assertion τ := fun d t =>
  d = midway v operation id phase m registry candidate backup ∧
    t = some ⟨journalOf v operation id phase, true⟩

section
variable {operation : TransactionOperation} {id : Text} {phase : TransactionPhase} {m m' : Module τ}
variable {registry registry' : Registry} {candidate candidate' backup backup' : Option τ}
variable {t : Option ActiveTransaction}

/-- The old folder is there, as the backup or in its place. -/
def Safe (v : Visible τ) (id : Text) (m : Module τ) (backup : Option τ) : Prop :=
  (backup = (v.modules id).folder ∧ backup.isSome = true) ∨
    backup = none ∧ ((v.modules id).folder.isSome = true → m.folder = (v.modules id).folder)

theorem Midway.pending (h : Midway v operation id phase m registry candidate backup d t)
    (hphase : phase.isMutated = true) (hsafe : Safe v id m backup) : Pending v d t := by
  obtain ⟨rfl, ht⟩ := h
  have hself : (Function.update v.modules id m) id = m := Function.update_self ..
  refine .mutated (journalOf v operation id phase) true (records_journalOf v operation id phase)
    ⟨⟨rfl, rfl, ?_, fun _ => ⟨rfl, rfl⟩⟩, ?_⟩ hphase ht
  · change Function.update v.modules id m = Function.update v.modules id (Function.update v.modules id m id)
    rw [hself]
  · obtain hbackup | ⟨hnone, hplace⟩ := hsafe
    · exact .inl hbackup
    · exact .inr ⟨hnone, fun hsome => (congrArg Module.folder hself).trans (hplace hsome)⟩

/-- One call between two such states. -/
theorem spec_midway {full : Disk τ → Disk τ} {part : Left τ → Disk τ → Disk τ}
    (hphase : phase.isMutated = true)
    (hfull : full (midway v operation id phase m registry candidate backup) =
      midway v operation id phase m' registry' candidate' backup') (hsafe : Safe v id m' backup')
    (hpart : ∀ left, ∃ m₁, part left (midway v operation id phase m registry candidate backup) =
      midway v operation id phase m₁ registry candidate backup ∧ Safe v id m₁ backup) :
    Spec calm (Midway v operation id phase m registry candidate backup) (sysCall full part)
      (fun _ => Midway v operation id phase m' registry' candidate' backup') (Halted v A) := by
  refine spec_step (fun d t h => ⟨?_, h.2⟩) (fun _ _ h => h.pending hphase hsafe) fun left d t h => ?_
  · rw [h.1, hfull]
  · obtain ⟨m₁, hm₁, hsafe₁⟩ := hpart left
    exact Midway.pending ⟨(congrArg (part left) h.1).trans hm₁, h.2⟩ hphase hsafe₁

theorem spec_atomic_midway {full : Disk τ → Disk τ} (hphase : phase.isMutated = true)
    (hfull : full (midway v operation id phase m registry candidate backup) =
      midway v operation id phase m' registry' candidate' backup') (hsafe : Safe v id m backup)
    (hsafe' : Safe v id m' backup') :
    Spec calm (Midway v operation id phase m registry candidate backup) (atomic full : Program τ Unit)
      (fun _ => Midway v operation id phase m' registry' candidate' backup') (Halted v A) :=
  spec_midway hphase hfull hsafe' fun _ => ⟨m, rfl, hsafe⟩

theorem spec_advance_midway {next : TransactionPhase}
    (hpending : ∀ d t, Midway v operation id phase m registry candidate backup d t → Pending v d t)
    (hphase : next.isMutated = true) (hsafe : Safe v id m backup) :
    Spec calm (Midway v operation id phase m registry candidate backup) (advance next)
      (fun _ => Midway v operation id next m registry candidate backup) (Halted v A) := by
  refine spec_advance (fun _ _ h => h.2) (fun d t h => ⟨?_, rfl⟩) (fun d t h => (hpending d t h).halted)
    fun d t h => .inl ?_
  · rw [h.1]
    rfl
  · rw [h.1]
    exact (Midway.pending (t := some ⟨journalOf v operation id next, true⟩) ⟨rfl, rfl⟩ hphase hsafe).settles

/-- With the last phase the transaction is done. -/
theorem spec_commit (hphase : phase.isMutated = true) (hsafe : Safe v id m backup)
    (hdone : A ⟨Function.update v.modules id m, registry⟩)
    (hlooks : committedLooksComplete (journalOf v operation id .committed)
      (midway v operation id .committed m registry candidate backup) = true) :
    Spec calm (Midway v operation id phase m registry candidate backup) (advance .committed)
      (fun _ d _ => ∃ v' j, A v' ∧ Kept v' j d ∧ committedLooksComplete j d = true) (Halted v A) := by
  have hkept : Kept ⟨Function.update v.modules id m, registry⟩ (journalOf v operation id .committed)
      (midway v operation id .committed m registry candidate backup) := ⟨rfl, rfl, rfl, rfl, rfl⟩
  refine spec_advance (fun _ _ h => h.2) (fun d t h => ?_) (fun d t h => (h.pending hphase hsafe).halted)
    fun d t h => .inr ⟨_, hdone, ?_⟩
  · rw [h.1]
    exact ⟨_, _, hdone, hkept, hlooks⟩
  · rw [h.1]
    exact .committed _ hkept hlooks

theorem onModule_midway (f : Module τ → Module τ) :
    onModule id f (midway v operation id phase m registry candidate backup) =
      midway v operation id phase (f m) registry candidate backup := by
  simp only [onModule, midway, Function.update_self, Function.update_idem]

theorem midway_self : (midway v operation id phase m registry candidate backup).modules id = m :=
  Function.update_self ..

/-- The old folder becomes the backup. -/
theorem spec_renameTarget (hphase : phase.isMutated = true) (hsome : (v.modules id).folder.isSome = true) :
    Spec calm (Midway v operation id phase (v.modules id) registry candidate none)
      (renameTarget (τ := τ) id)
      (fun _ => Midway v operation id phase { v.modules id with folder := none } registry candidate
        (v.modules id).folder) (Halted v A) := by
  rw [renameTarget]
  refine spec_disk fun d₀ => spec_fact (fun _ _ ⟨hd, h⟩ => hd.symm.trans h.1) fun hd₀ => ?_
  subst hd₀
  refine spec_check ?_ (spec_pre (spec_atomic_midway hphase ?_ (.inr ⟨rfl, fun _ => rfl⟩)
    (.inl ⟨rfl, hsome⟩)) fun _ _ h => h.2)
  · intro _ _ _ hnone
    rw [midway_self] at hnone
    rw [hnone] at hsome
    cases hsome
  · rw [midway_self]
    exact onModule_midway fun m => { m with folder := none }

theorem spec_renameCandidate {tree : τ} (hphase : phase.isMutated = true) (hfolder : m.folder = none)
    (hsafe : Safe v id m backup) (hsafe' : Safe v id { m with folder := some tree } backup) :
    Spec calm (Midway v operation id phase m registry (some tree) backup) (renameCandidate (τ := τ) id)
      (fun _ => Midway v operation id phase { m with folder := some tree } registry none backup)
      (Halted v A) := by
  rw [renameCandidate]
  refine spec_disk fun d₀ => spec_fact (fun _ _ ⟨hd, h⟩ => hd.symm.trans h.1) fun hd₀ => ?_
  subst hd₀
  refine spec_check ?_ (spec_pre (spec_atomic_midway hphase ?_ hsafe hsafe') fun _ _ h => h.2)
  · rintro _ _ _ (hnone | hfull)
    · cases hnone
    · rw [midway_self, hfolder] at hfull
      cases hfull
  · exact onModule_midway fun m => { m with folder := some tree }

theorem spec_record {host : Host τ} {staged : StagedModule τ} {now : Nat} {tree : τ} (hid : staged.id = id)
    (hphase : phase.isMutated = true) (hfolder : m.folder = some tree) (hsafe : Safe v id m backup) :
    Spec calm (Midway v operation id phase m registry candidate backup) (record host staged now)
      (fun _ => Midway v operation id phase m (Function.update registry id (some (recordedState
        (registry id) staged.version (host.moduleFolderHash tree) staged.source now))) candidate backup)
      (Halted v A) := by
  subst hid
  rw [record]
  refine spec_disk fun d₀ => spec_fact (fun _ _ ⟨hd, h⟩ => hd.symm.trans h.1) fun hd₀ => ?_
  subst hd₀
  rw [midway_self, hfolder]
  exact spec_pre (spec_atomic_midway hphase rfl hsafe hsafe) fun _ _ h => h.2

/-- What is the module's own may be anything when it has started. -/
theorem spec_activate (hphase : phase.isMutated = true)
    (hsafe : ∀ config configBackup data, Safe v id ⟨m.folder, config, configBackup, data⟩ backup) :
    Spec calm (Midway v operation id phase m registry candidate backup) (activate (τ := τ) id)
      (fun _ d t => ∃ config configBackup data,
        Midway v operation id phase ⟨m.folder, config, configBackup, data⟩ registry candidate backup d t)
      (Halted v A) := by
  rintro ⟨d, t, fates⟩ ⟨⟨rfl, rfl⟩, hcalm⟩
  cases fates with
  | nil => exact ⟨⟨_, _, _, rfl, rfl⟩, hcalm⟩
  | cons fate fates =>
    obtain ⟨ending, left⟩ := fate
    have hnext : Midway v operation id phase ⟨m.folder, left.primary, left.backup, left.tree⟩ registry
        candidate backup (onModule id (fun m => { m with
          config := left.primary, configBackup := left.backup, data := left.tree })
          (midway v operation id phase m registry candidate backup))
        (some ⟨journalOf v operation id phase, true⟩) := ⟨onModule_midway _, rfl⟩
    have hgoes : calm → ending = .goes := fun h => hcalm h _ List.mem_cons_self
    have hpending := hnext.pending hphase (hsafe left.primary left.backup left.tree)
    cases ending with
    | goes => exact ⟨⟨_, _, _, hnext⟩, fun h fate hmem => hcalm h fate (List.mem_cons_of_mem _ hmem)⟩
    | throws => exact ⟨fun h => (by cases hgoes h), hpending⟩
    | stops done => exact ⟨fun h => (by cases hgoes h), hpending.halted .stopped⟩

end

/-! ### Installing -/

section
variable {operation : TransactionOperation} {id : Text} {phase : TransactionPhase} {m : Module τ}
variable {registry : Registry} {candidate candidate' backup : Option τ} {snapshot : Option (Snapshot τ)}
variable {active : ActiveTransaction} {t : Option ActiveTransaction}

/-- Nothing is pending, in the files or in memory. -/
def Idle (v : Visible τ) : Assertion τ := fun d t => Clean v d ∧ t = none

theorem Idle.pending (h : Idle v d t) : Pending v d t := .none h.1 h.2

theorem spec_beginTransaction {hadTarget : Bool} (hhad : hadTarget = (v.modules id).folder.isSome) :
    Spec calm (Idle v) (beginTransaction (τ := τ) operation id hadTarget)
      (fun _ => Preparing v (firstJournal v operation id) ⟨firstJournal v operation id, false⟩ none none)
      (Halted v A) := by
  subst hhad
  have huntouched : ∀ d t, Idle v d t → Untouched v (firstJournal v operation id)
      { d with journal := some (firstJournal v operation id) } :=
    fun d t h => ⟨⟨rfl, h.1.modules, h.1.registry, h.1.restore, h.1.displaced⟩, rfl, h.1.backup⟩
  rw [beginTransaction, writeJournal]
  refine spec_bind (M := fun journal d _ => journal = firstJournal v operation id ∧
    Untouched v (firstJournal v operation id) d ∧ d.candidate = none ∧ d.snapshot = none) ?_
    fun journal => ?_
  · exact spec_bind (spec_atomic (fun d t h => ⟨rfl, huntouched d t h, h.1.candidate, h.1.snapshot⟩)
      (fun d t h => h.pending.halted) fun d t h => .inl (huntouched d t h).settles) fun _ =>
      spec_pure fun _ _ h => h
  · refine spec_fact (fun _ _ h => h.1) fun hjournal => ?_
    subst hjournal
    exact spec_remember fun d t h => ⟨h.2.1, h.2.2.1, h.2.2.2, rfl, rfl⟩

theorem Preparing.withCandidate (h : Preparing v j active candidate snapshot d t) (candidate' : Option τ) :
    Preparing v j active candidate' snapshot { d with candidate := candidate' } t :=
  ⟨h.untouched.same rfl rfl rfl rfl rfl rfl, rfl, h.snapshot, h.memory, h.phase⟩

theorem spec_cpCandidate (source : τ) :
    Spec calm (Preparing v j active none snapshot) (cpCandidate source)
      (fun _ => Preparing v j active (some source) snapshot) (Halted v A) := by
  rw [cpCandidate]
  refine spec_disk fun d₀ => spec_fact (fun d t ⟨hd, h⟩ => hd ▸ h.candidate) fun hnone => spec_check ?_
    (spec_pre (spec_step (fun d t h => h.withCandidate _) (fun _ _ h => h.pending)
      fun left d t h => (h.withCandidate left.tree).pending) fun _ _ h => h.2)
  intro _ _ _ hsome
  rw [hnone] at hsome
  cases hsome

theorem spec_compile {host : Host τ} {source : τ} :
    Spec calm (Preparing v j active (some source) snapshot)
      (sysCall (fun d => { d with candidate := d.candidate.map host.compileModuleAt })
        fun (left : Left τ) d => { d with candidate := left.tree })
      (fun _ => Preparing v j active (some (host.compileModuleAt source)) snapshot) (Halted v A) := by
  refine spec_step (fun d t h => ?_) (fun _ _ h => h.pending)
    fun left d t h => (h.withCandidate left.tree).pending
  rw [h.candidate]
  exact h.withCandidate _

/-- From the last state in which the module is untouched to the first in which it may be. -/
theorem spec_touch : Spec calm
    (Preparing v (journalOf v operation id .prepared) ⟨journalOf v operation id .prepared, true⟩ candidate
      (some (v.snapshot id))) (advance (τ := τ) .movingTarget)
    (fun _ => Midway v operation id .movingTarget (v.modules id) v.registry candidate none)
    (Halted v A) := by
  have hmidway : ∀ d t, Preparing v (journalOf v operation id .prepared)
      ⟨journalOf v operation id .prepared, true⟩ candidate (some (v.snapshot id)) d t →
      Midway v operation id .prepared (v.modules id) v.registry candidate none d t := by
    rintro ⟨modules, registry, candidate, backup, restore, displaced, snapshot, journal⟩ t h
    refine ⟨?_, h.memory⟩
    rw [midway, Function.update_eq_self]
    obtain ⟨⟨⟨rfl, rfl, rfl, rfl, rfl⟩, -, rfl⟩, rfl, rfl, -, -⟩ := h
    rfl
  refine spec_advance (fun _ _ h => h.memory) (fun d t h => ⟨?_, rfl⟩) (fun _ _ h => h.pending.halted)
    fun d t h => .inl ?_
  · rw [(hmidway d t h).1]
    rfl
  · rw [(hmidway d t h).1]
    exact (Midway.pending (t := some ⟨journalOf v operation id .movingTarget, true⟩) ⟨rfl, rfl⟩ rfl
      (.inr ⟨rfl, fun _ => rfl⟩)).settles

end

/-- What an installation makes of the modules. -/
def Installed (host : Host τ) (staged : StagedModule τ) (now : Nat) (v v' : Visible τ) : Prop :=
  host.exactModuleTreeHash staged.root = staged.treeSha256 ∧
    v'.registry = Function.update v.registry staged.id (some (recordedState (v.registry staged.id)
      staged.version (host.moduleFolderHash (host.compileModuleAt staged.root)) staged.source now)) ∧
    ∃ m : Module τ, m.folder = some (host.compileModuleAt staged.root) ∧
      v'.modules = Function.update v.modules staged.id m

/-- What a transaction that is through has left. -/
def Committed (A : Visible τ → Prop) : Assertion τ := fun d _ =>
  ∃ v' j, A v' ∧ Kept v' j d ∧ committedLooksComplete j d = true

/-- When the old folder is out of its place, it is the backup, if there is one. -/
theorem safe_moved (v : Visible τ) (id : Text) (m : Module τ) : Safe v id m (v.modules id).folder := by
  cases hold : (v.modules id).folder with
  | none => exact .inr ⟨rfl, fun hsome => by rw [hold] at hsome; cases hsome⟩
  | some old => exact .inl ⟨hold.symm, rfl⟩

/-- The new folder takes the place of the old one, if there is one, and starts. -/
theorem spec_swap {host : Host τ} {staged : StagedModule τ} {now : Nat} {tree : τ} {hadPrevious : Bool}
    (hhad : hadPrevious = (v.modules staged.id).folder.isSome)
    (htree : tree = host.compileModuleAt staged.root)
    (hdigest : host.exactModuleTreeHash staged.root = staged.treeSha256) :
    Spec calm (Midway v .install staged.id .movingTarget (v.modules staged.id) v.registry (some tree) none)
      (do
        if hadPrevious = true then renameTarget staged.id
        advance .promotingCandidate
        renameCandidate staged.id
        advance .updatingState
        record host staged now
        activate staged.id
        advance .committed)
      (fun _ => Committed (Installed host staged now v)) (Halted v (Installed host staged now v)) := by
  have hsafe := safe_moved v staged.id
  subst hhad
  refine spec_when (M := Midway v .install staged.id .movingTarget
    { v.modules staged.id with folder := none } v.registry (some tree) (v.modules staged.id).folder) (fun hsome => spec_renameTarget rfl hsome)
    (fun hnot d t h => ?_) ?_
  · have hnone := Option.not_isSome_iff_eq_none.mp hnot
    have hsame : { v.modules staged.id with folder := none } = v.modules staged.id :=
      Module.ext hnone.symm rfl rfl rfl
    rw [hsame, hnone]
    exact h
  refine spec_bind (spec_advance_midway (fun _ _ h => h.pending rfl (hsafe _)) rfl (hsafe _)) fun _ =>
    spec_bind (spec_renameCandidate rfl rfl (hsafe _) (hsafe _)) fun _ =>
    spec_bind (spec_advance_midway (fun _ _ h => h.pending rfl (hsafe _)) rfl (hsafe _)) fun _ =>
    spec_bind (spec_record rfl rfl rfl (hsafe _)) fun _ =>
    spec_bind (spec_activate rfl fun _ _ _ => hsafe _) fun _ => ?_
  rintro w ⟨⟨config, configBackup, data, h⟩, hcalm⟩
  subst htree
  have hmodule : (midway v .install staged.id .committed ⟨some (host.compileModuleAt staged.root), config,
      configBackup, data⟩ (Function.update v.registry staged.id (some (recordedState (v.registry staged.id)
        staged.version (host.moduleFolderHash (host.compileModuleAt staged.root)) staged.source now))) none
      (v.modules staged.id).folder).modules staged.id = _ := midway_self
  refine spec_commit rfl (hsafe _) ⟨hdigest, rfl, _, rfl, rfl⟩ ?_ w ⟨h, hcalm⟩
  rw [committedLooksComplete]
  exact congrArg (fun m : Module τ => m.folder.isSome) hmodule

/-- Every step of an installation can be undone until the last, and from then on it is done. -/
theorem spec_installSteps {host : Host τ} {staged : StagedModule τ} {now : Nat} {hadPrevious : Bool}
    (hhad : hadPrevious = (v.modules staged.id).folder.isSome)
    (hcalm : calm → host.exactModuleTreeHash staged.root = staged.treeSha256) :
    Spec calm (Idle v) (installSteps host staged now hadPrevious)
      (fun _ => Committed (Installed host staged now v)) (Halted v (Installed host staged now v)) := by
  rw [installSteps]
  refine spec_bind (spec_idle fun _ _ h => h.pending.halted) fun _ =>
    spec_bind (spec_beginTransaction hhad) fun _ => spec_bind (spec_cpCandidate staged.root) fun _ => ?_
  refine spec_guard (fun h => not_not.mpr (hcalm h)) (fun _ _ _ h => h.pending) fun hdigest => ?_
  exact spec_bind spec_compile fun _ => spec_bind (spec_idle fun _ _ h => h.pending.halted) fun _ =>
    spec_bind spec_stopAndSnapshot fun _ => spec_bind (spec_idle fun _ _ h => h.pending.halted) fun _ =>
    spec_bind spec_touch fun _ => spec_swap hhad rfl (not_not.mp hdigest)

/-! ### Removing -/

/-- What the removal of an installed module makes of the modules. -/
def Uninstalled (id : Text) (v v' : Visible τ) : Prop :=
  ((v.modules id).folder.isSome = true ∧ v.registry id ≠ none) ∧
    v' = ⟨Function.update v.modules id ⟨none, none, none, none⟩, Function.update v.registry id none⟩

theorem spec_uninstallSteps {id : Text} (hsome : (v.modules id).folder.isSome = true)
    (hinstalled : v.registry id ≠ none) :
    Spec calm (Idle v) (uninstallSteps (τ := τ) id) (fun _ => Committed (Uninstalled id v))
      (Halted v (Uninstalled id v)) := by
  have hsafe := safe_moved v id
  have hrm : ∀ (m : Module τ) (f : Module τ → Module τ), Spec calm
      (Midway v .uninstall id .updatingState m v.registry none (v.modules id).folder)
      (atomic (onModule id f) : Program τ Unit)
      (fun _ => Midway v .uninstall id .updatingState (f m) v.registry none (v.modules id).folder)
      (Halted v (Uninstalled id v)) := fun m f =>
    spec_atomic_midway rfl (onModule_midway f) (hsafe _) (hsafe _)
  rw [uninstallSteps]
  refine spec_bind (spec_beginTransaction hsome.symm) fun _ => spec_bind spec_stopAndSnapshot fun _ =>
    spec_bind spec_touch fun _ => spec_bind (spec_renameTarget rfl hsome) fun _ =>
    spec_bind (spec_advance_midway (fun _ _ h => h.pending rfl (hsafe _)) rfl (hsafe _)) fun _ =>
    spec_bind (hrm _ _) fun _ => spec_bind (hrm _ _) fun _ =>
    spec_bind (spec_midway rfl (onModule_midway _) (hsafe _) fun left =>
      ⟨_, onModule_midway _, hsafe _⟩) fun _ =>
    spec_bind (spec_atomic_midway rfl rfl (hsafe _) (hsafe _)) fun _ =>
    spec_commit rfl (hsafe _) ⟨⟨hsome, hinstalled⟩, rfl⟩ ?_
  rw [committedLooksComplete]
  exact congrArg (fun m : Module τ => m.folder.isNone) midway_self

/-! ### Operations, and what they return -/

inductive Operation (τ : Type) where
  | install (host : Host τ) (staged : StagedModule τ) (now : Nat)
  | uninstall (id : Text)

def Operation.perform : Operation τ → Program τ Outcome
  | .install host staged now => Transactions.install host staged now
  | .uninstall id => Transactions.uninstall id

def Operation.Applies : Operation τ → Visible τ → Visible τ → Prop
  | .install host staged now => Installed host staged now
  | .uninstall id => Uninstalled id

/-- The candidate is still what has been checked. -/
def Operation.Sound : Operation τ → Prop
  | .install host staged _ => host.exactModuleTreeHash staged.root = staged.treeSha256
  | .uninstall _ => True

/-- What can be said of the files with an outcome. -/
def Reported (v : Visible τ) (A : Visible τ → Prop) : Outcome → Disk τ → Prop
  | .refused => fun _ => False
  | .done => fun d => ∃ v', A v' ∧ Clean v' d
  | .uncleaned => fun d => ∃ v', A v' ∧ Settles v' d
  | .restored => Clean v
  | .unrecovered => Settles v

/-- The files settle to what was or to what the operation makes of it. -/
def Either (v : Visible τ) (A : Visible τ → Prop) (d : Disk τ) : Prop :=
  Settles v d ∨ ∃ v', A v' ∧ Settles v' d

theorem spec_transact {steps : Program τ Unit}
    (hsteps : Spec calm (Idle v) steps (fun _ => Committed A) (Halted v A)) :
    Spec calm (fun d _ => Clean v d) (transact steps)
      (fun outcome d _ => (calm → outcome = .done) ∧ Reported v A outcome d)
      fun halt d _ => halt = .stopped ∧ Either v A d := by
  rw [transact]
  refine spec_bind (M := fun _ => Idle v) (spec_remember fun _ _ h => ⟨h, rfl⟩) fun _ =>
    spec_bind (spec_attempt hsteps) fun through => ?_
  cases through with
  | true =>
    rw [if_pos rfl]
    rintro w ⟨(⟨-, v', j, hv', hkept, hlooks⟩ | ⟨hfalse, -⟩), hcalm⟩
    · have hsettles : ∀ d, Kept v' j d → Settles v' d :=
        fun d h => .committed j h (hkept.looks h hlooks)
      refine (spec_attempt (spec_removeTransactionArtifacts hsettles)).weaken (fun _ h => h) ?_ ?_ w
        ⟨hkept, hcalm⟩
      · rintro outcome w ⟨⟨rfl, h⟩ | ⟨rfl, hnot, h⟩, hw⟩
        · exact ⟨⟨fun _ => rfl, v', hv', h⟩, hw⟩
        · exact ⟨⟨fun h => absurd h hnot, v', hv', h⟩, hw⟩
      · rintro halt w ⟨hnot, hhalt, h⟩
        exact ⟨hnot, hhalt, .inr ⟨v', hv', h⟩⟩
    · cases hfalse
  | false =>
    rw [if_neg Bool.false_ne_true]
    rintro w ⟨(⟨hfalse, -⟩ | ⟨-, hnot, h⟩), hcalm⟩
    · cases hfalse
    · refine (spec_attempt (spec_rollbackTransaction v)).weaken (fun _ h => h) ?_ ?_ w ⟨h, hcalm⟩
      · rintro outcome w ⟨⟨rfl, h⟩ | ⟨rfl, -, h⟩, hw⟩
        · exact ⟨⟨fun h => absurd h hnot, h⟩, hw⟩
        · exact ⟨⟨fun h => absurd h hnot, h⟩, hw⟩
      · rintro halt w ⟨hnot, hhalt, h⟩
        exact ⟨hnot, hhalt, .inl h⟩

/-- With no journal there is nothing to settle. -/
theorem Settles.clean_of_none (h : Settles v d) (hnone : d.journal = none) : Clean v d := by
  cases h with
  | clean h => exact h
  | untouched j h hphase hbackup => rw [h.journal] at hnone; cases hnone
  | mutated j hrecords h hphase => rw [h.saved.journal] at hnone; cases hnone
  | rolledBack j h hphase => rw [h.journal] at hnone; cases hnone
  | committed j h hlooks => rw [h.journal] at hnone; cases hnone

theorem spec_perform (calm : Prop) (v : Visible τ) (operation : Operation τ)
    (hsound : calm → operation.Sound) (d₀ : Disk τ) :
    Spec calm (fun d _ => d = d₀ ∧ Settles v d) operation.perform
      (fun outcome d _ => outcome = .refused ∧ d = d₀ ∨
        (calm → outcome = .done) ∧ Reported v (operation.Applies v) outcome d)
      fun halt d _ => halt = .stopped ∧ Either v (operation.Applies v) d := by
  have htransact : ∀ {steps : Program τ Unit},
      Spec calm (Idle v) steps (fun _ => Committed (operation.Applies v)) (Halted v (operation.Applies v)) →
      Spec calm (fun d _ => Clean v d) (transact steps) (fun outcome d _ => outcome = .refused ∧ d = d₀ ∨
        (calm → outcome = .done) ∧ Reported v (operation.Applies v) outcome d)
        fun halt d _ => halt = .stopped ∧ Either v (operation.Applies v) d :=
    fun h => (spec_transact h).weaken (fun _ h => h) (fun _ _ h => ⟨.inr h.1, h.2⟩) fun _ _ h => h
  cases operation with
  | install host staged now =>
    rw [Operation.perform, install]
    refine spec_disk fun d₁ => ?_
    by_cases hpending : d₁.journal.isSome = true
    · rw [if_pos hpending]
      exact spec_pure fun _ _ h => .inl ⟨rfl, h.2.1⟩
    · rw [if_neg hpending]
      have hclean : ∀ {d : Disk τ}, d = d₁ ∧ d = d₀ ∧ Settles v d → Clean v d := by
        rintro d ⟨rfl, -, h⟩
        exact h.clean_of_none (Option.not_isSome_iff_eq_none.mp hpending)
      refine spec_fact (φ := d₁.modules = v.modules) (fun _ _ h => h.1 ▸ (hclean h).modules)
        fun hmodules => ?_
      refine spec_pre (htransact (spec_installSteps ?_ hsound)) fun _ _ h => hclean h
      rw [hmodules]
  | uninstall id =>
    rw [Operation.perform, uninstall]
    refine spec_disk fun d₁ => ?_
    by_cases hrefused : d₁.journal.isSome = true ∨ d₁.registry id = none ∨ (d₁.modules id).folder = none
    · rw [if_pos hrefused]
      exact spec_pure fun _ _ h => .inl ⟨rfl, h.2.1⟩
    · rw [if_neg hrefused]
      obtain ⟨hpending, hthere⟩ := not_or.mp hrefused
      obtain ⟨hregistry, hfolder⟩ := not_or.mp hthere
      have hclean : ∀ {d : Disk τ}, d = d₁ ∧ d = d₀ ∧ Settles v d → Clean v d := by
        rintro d ⟨rfl, -, h⟩
        exact h.clean_of_none (Option.not_isSome_iff_eq_none.mp hpending)
      refine spec_fact (φ := d₁.modules = v.modules ∧ d₁.registry = v.registry)
        (fun _ _ h => h.1 ▸ ⟨(hclean h).modules, (hclean h).registry⟩) fun ⟨hmodules, hregistry'⟩ => ?_
      rw [hmodules] at hfolder
      rw [hregistry'] at hregistry
      exact spec_pre (htransact (spec_uninstallSteps (Option.isSome_iff_ne_none.mpr hfolder) hregistry))
        fun _ _ h => hclean h

/-! ### Runs of the server -/

/-- An operation and a recovery come with what becomes of their calls. -/
inductive Event (τ : Type) where
  | perform (operation : Operation τ) (fates : List (Fate (Left τ)))
  | recover (fates : List (Fate (Left τ)))
  | writes (id : Text) (config configBackup : Option Text) (data : Option τ)

/-- Whether the process stops in a call or not, what is left are the files. A module that runs writes
what is its own while no transaction on it is pending. -/
def step (d : Disk τ) : Event τ → Disk τ
  | .perform operation fates => (final (operation.perform ⟨d, none, fates⟩)).disk
  | .recover fates => (final (recoverPendingTransactions ⟨d, none, fates⟩)).disk
  | .writes id config configBackup data =>
    if d.journal.any (fun journal => journal.id = id) = true then d
    else onModule id (fun m => { m with config, configBackup, data }) d

def run (d : Disk τ) (events : List (Event τ)) : Disk τ := events.foldl step d

def Visible.onModule (id : Text) (f : Module τ → Module τ) (v : Visible τ) : Visible τ :=
  { v with modules := Function.update v.modules id (f (v.modules id)) }

/-- What an event does when it is done whole. -/
def Event.Applies : Event τ → Visible τ → Visible τ → Prop
  | .perform operation _ => operation.Applies
  | .recover _ => fun _ _ => False
  | .writes id config configBackup data => fun v v' =>
    v' = v.onModule id fun m => { m with config, configBackup, data }

/-- Each event is done whole or not at all. -/
def Whole : List (Event τ) → Visible τ → Visible τ → Prop
  | [], v, v' => v' = v
  | event :: events, v, v' => ∃ v₁, (v₁ = v ∨ event.Applies v v₁) ∧ Whole events v₁ v'

/-- The files when nothing is pending. -/
def Visible.files (v : Visible τ) : Disk τ := ⟨v.modules, v.registry, none, none, none, none, none, none⟩

theorem Clean.eq (h : Clean v d) : d = v.files := by
  obtain ⟨modules, registry, candidate, backup, restore, displaced, snapshot, journal⟩ := d
  obtain ⟨rfl, rfl, rfl, rfl, rfl, rfl, rfl, rfl⟩ := h
  rfl

theorem clean_files (v : Visible τ) : Clean v v.files := ⟨rfl, rfl, rfl, rfl, rfl, rfl, rfl, rfl⟩

/-- A transaction on one module leaves the others alone. -/
theorem Settles.onModule {id : Text} {f : Module τ → Module τ} (h : Settles v d)
    (hfree : ∀ j, d.journal = some j → j.id ≠ id) :
    Settles (v.onModule id f) (Transactions.onModule id f d) := by
  have hmodules : d.modules = v.modules →
      (Transactions.onModule id f d).modules = (v.onModule id f).modules :=
    fun h => congrArg (fun modules : Text → Module τ => Function.update modules id (f (modules id))) h
  have hother : ∀ {i : Text}, i ≠ id → (Transactions.onModule id f d).modules i = d.modules i :=
    fun hne => Function.update_of_ne hne ..
  have hvisible : ∀ {i : Text}, i ≠ id → (v.onModule id f).modules i = v.modules i :=
    fun hne => Function.update_of_ne hne ..
  cases h with
  | clean h => exact .clean ⟨hmodules h.modules, h.registry, h.candidate, h.backup, h.restore, h.displaced,
      h.snapshot, h.journal⟩
  | untouched j h hphase hbackup =>
    exact .untouched j ⟨h.journal, hmodules h.modules, h.registry, h.restore, h.displaced⟩ hphase hbackup
  | rolledBack j h hphase =>
    exact .rolledBack j ⟨h.journal, hmodules h.modules, h.registry, h.restore, h.displaced⟩ hphase
  | committed j h hlooks =>
    refine .committed j ⟨h.journal, hmodules h.modules, h.registry, h.restore, h.displaced⟩ ?_
    rw [committedLooksComplete, hother (hfree j h.journal)]
    exact hlooks
  | mutated j hrecords h hphase =>
    have hne := hfree j h.saved.journal
    have hv := hvisible hne
    have hd := hother hne
    refine .mutated j ⟨hrecords.registry, ?_, ?_, ?_, ?_⟩ ⟨⟨h.saved.journal, ?_, ?_, ?_⟩, ?_⟩ hphase
    · rw [hv]; exact hrecords.hadTarget
    · rw [hv]; exact hrecords.configPrimary
    · rw [hv]; exact hrecords.configBackup
    · rw [hv]; exact hrecords.moduleData
    · rw [hv]; exact h.saved.snapshot
    · rw [hd]
      have hsame : d.modules id = v.modules id := by
        rw [h.saved.others]
        exact Function.update_of_ne hne.symm ..
      calc Function.update d.modules id (f (d.modules id))
          = Function.update (Function.update v.modules j.id (d.modules j.id)) id (f (v.modules id)) := by
            rw [hsame, ← h.saved.others]
        _ = Function.update (Function.update v.modules id (f (v.modules id))) j.id (d.modules j.id) :=
            Function.update_comm hne ..
    · rw [hv]; exact h.saved.exchange
    · rw [FolderSaved, hv, hd]; exact h.folder

theorem Reported.either {A : Visible τ → Prop} {outcome : Outcome} (h : Reported v A outcome d) :
    Either v A d := by
  cases outcome with
  | refused => exact h.elim
  | done =>
    obtain ⟨v', hv', h⟩ := h
    exact .inr ⟨v', hv', .clean h⟩
  | uncleaned => exact .inr h
  | restored => exact .inl (.clean h)
  | unrecovered => exact .inl h

/-- Whatever becomes of its calls, an event is done whole or not at all. -/
theorem settles_step (h : Settles v d) (event : Event τ) :
    ∃ v', (v' = v ∨ event.Applies v v') ∧ Settles v' (step d event) := by
  cases event with
  | perform operation fates =>
    have heither : Either v (operation.Applies v) (step d (.perform operation fates)) := by
      refine Spec.final (spec_perform False v operation False.elim d) (fun outcome d' _ houtcome => ?_)
        (fun _ _ _ h => h.2) ⟨rfl, h⟩
      obtain ⟨-, rfl⟩ | ⟨-, hreported⟩ := houtcome
      · exact .inl h
      · exact hreported.either
    obtain hsame | ⟨v', hv', hsettles⟩ := heither
    · exact ⟨v, .inl rfl, hsame⟩
    · exact ⟨v', .inr hv', hsettles⟩
  | recover fates => exact ⟨v, .inl rfl, Spec.final (spec_recoverPendingTransactions False v)
      (fun _ _ _ h => .clean h) (fun _ _ _ h => h) h⟩
  | writes id config configBackup data =>
    rw [step]
    split
    · exact ⟨v, .inl rfl, h⟩
    · rename_i hfree
      refine ⟨_, .inr rfl, h.onModule fun j hj hid => hfree ?_⟩
      rw [hj, Option.any_some]
      exact decide_eq_true hid

theorem settles_run (h : Settles v d) (events : List (Event τ)) :
    ∃ v', Whole events v v' ∧ Settles v' (run d events) := by
  induction events generalizing v d with
  | nil => exact ⟨v, rfl, h⟩
  | cons event events ih =>
    obtain ⟨v₁, hevent, h₁⟩ := settles_step h event
    obtain ⟨v', hwhole, h'⟩ := ih h₁
    exact ⟨v', ⟨v₁, hevent, hwhole⟩, h'⟩

/-- The recovery that no failing call disturbs ends with these files. -/
def Recovers (d : Disk τ) (v : Visible τ) : Prop :=
  ∃ n w, recoverPendingTransactions ⟨d, none, []⟩ = .ok n w ∧ w.disk = v.files

theorem Settles.recovers (h : Settles v d) : Recovers d v := by
  have hx := spec_recoverPendingTransactions True v ⟨d, none, []⟩ ⟨h, fun _ _ hmem => by cases hmem⟩
  cases hresult : recoverPendingTransactions ⟨d, none, []⟩ with
  | ok n w =>
    rw [hresult] at hx
    exact ⟨n, w, hresult, hx.1.eq⟩
  | error halt w =>
    rw [hresult] at hx
    exact absurd trivial hx.1

/-- Over any run of operations, recoveries and writes, whichever of their calls throws or stops the
process: the next recovery that goes through leaves exactly the files that some of the operations, each
done whole, would have left. -/
theorem transactions_atomic (v : Visible τ) (events : List (Event τ)) :
    ∃ v', Whole events v v' ∧ Recovers (run v.files events) v' := by
  obtain ⟨v', hwhole, h⟩ := settles_run (.clean (clean_files v)) events
  exact ⟨v', hwhole, h.recovers⟩

/-- What the user is told of an operation. -/
def Honest (v : Visible τ) (operation : Operation τ) (d : Disk τ) : Outcome → Disk τ → Prop
  | .refused => fun d' => d' = d
  | .done => fun d' => ∃ v', operation.Applies v v' ∧ d' = v'.files
  | .uncleaned => fun d' => ∃ v', operation.Applies v v' ∧ Recovers d' v'
  | .restored => fun d' => d' = v.files
  | .unrecovered => fun d' => Recovers d' v

theorem Reported.honest {operation : Operation τ} {outcome : Outcome}
    (h : Reported v (operation.Applies v) outcome d') : Honest v operation d outcome d' := by
  cases outcome with
  | refused => exact h.elim
  | done =>
    obtain ⟨v', hv', h⟩ := h
    exact ⟨v', hv', h.eq⟩
  | uncleaned =>
    obtain ⟨v', hv', h⟩ := h
    exact ⟨v', hv', h.recovers⟩
  | restored => exact Clean.eq h
  | unrecovered => exact Settles.recovers h

/-- In every state of a run, the outcome of an operation says what has become of the files, and an
operation that does not fail anywhere is done or refused. -/
theorem outcomes_honest (v : Visible τ) (events : List (Event τ)) (operation : Operation τ)
    (fates : List (Fate (Left τ))) : ∃ v₁, Whole events v v₁ ∧
      match operation.perform ⟨run v.files events, none, fates⟩ with
      | .ok outcome w => Honest v₁ operation (run v.files events) outcome w.disk ∧
          (operation.Sound → (∀ fate ∈ fates, fate.ending = .goes) → outcome = .done ∨ outcome = .refused)
      | .error halt w => halt = .stopped ∧
          (Recovers w.disk v₁ ∨ ∃ v', operation.Applies v₁ v' ∧ Recovers w.disk v') := by
  obtain ⟨v₁, hwhole, h⟩ := settles_run (.clean (clean_files v)) events
  refine ⟨v₁, hwhole, ?_⟩
  have hx := spec_perform (operation.Sound ∧ ∀ fate ∈ fates, fate.ending = .goes) v₁ operation And.left
    (run v.files events) ⟨run v.files events, none, fates⟩ ⟨⟨rfl, h⟩, fun hcalm => hcalm.2⟩
  cases hresult : operation.perform ⟨run v.files events, none, fates⟩ with
  | ok outcome w =>
    rw [hresult] at hx
    obtain ⟨⟨rfl, hsame⟩ | ⟨hdone, hreported⟩, -⟩ := hx
    · exact ⟨hsame, fun _ _ => .inr rfl⟩
    · exact ⟨hreported.honest, fun hsound hfates => .inl (hdone ⟨hsound, hfates⟩)⟩
  | error halt w =>
    rw [hresult] at hx
    obtain ⟨-, hhalt, hsettles | ⟨v', hv', hsettles⟩⟩ := hx
    · exact ⟨hhalt, .inl hsettles.recovers⟩
    · exact ⟨hhalt, .inr ⟨v', hv', hsettles.recovers⟩⟩

end BoredManager.Server.Transactions
