import BoredManager.Fleet.Config
import BoredManager.Js.Blanks

/-! No edit of the fleet's config is lost where every write goes through a cache that shows the
document, no check is applied to what has changed since, and the lists have room. -/
namespace BoredManager.Fleet.Config
open BoredManager.Js BoredManager.Shared BoredManager.Machine BoredManager.Fleet.Net

variable {ι : Type*} {w : World ι} {i : ι}

/-! ### What a check resolves reads as itself -/

@[simp] theorem keptText_orUndefined (text : Text) :
    keptText (orUndefined text) = orUndefined text := by
  by_cases h : text = []
  · simp [orUndefined, keptText, h]
  · simp [orUndefined, keptText, h]

@[simp] theorem keptText_keptText (value : Option Text) : keptText (keptText value) = keptText value := by
  cases value with
  | none => rfl
  | some text => exact keptText_orUndefined text

theorem keptText_keptPassword (typed : Text) (stored : Option Text) :
    keptText (keptPassword typed stored) = keptPassword typed stored := by
  rw [keptPassword]
  by_cases h : typed = []
  · simp [orUndefined, h]
  · simp [orUndefined, keptText, h]

theorem makeId_ne_nil (start : Text) (taken draws : List Text) (clock : Text) :
    makeId start taken draws clock ≠ [] := by
  rw [makeId]
  cases hfind : ((draws.take 50).map fun draw => start ++ 95 :: draw).find? fun id =>
      decide (id ∉ taken) with
  | none => simp
  | some id =>
    obtain ⟨draw, -, rfl⟩ := List.mem_map.mp (List.mem_of_find?_eq_some hfind)
    simp

theorem rule_reads {form : TargetForm} {env : Surroundings} {existing : Option TargetRule}
    (taken : List Text) (h : form.blocked env existing = false)
    (hid : ∀ t, existing = some t → t.id ≠ []) :
    (form.rule env existing taken).read = some (form.rule env existing taken) := by
  simp only [TargetForm.blocked, Bool.or_eq_false_iff, decide_eq_false_iff_not] at h
  obtain ⟨⟨⟨⟨⟨⟨⟨⟨⟨hvalue, -⟩, hport⟩, -⟩, -⟩, -⟩, -⟩, -⟩, -⟩, hexcludes⟩ := h
  have hid' : (form.rule env existing taken).id ≠ [] := by
    cases existing with
    | none => exact makeId_ne_nil _ _ _ _
    | some t => exact hid t rfl
  have hport' : asPort (form.port.getD 22) = form.port.getD 22 := by
    cases hp : form.port with
    | none => rfl
    | some port =>
      rw [hp] at hport
      simp only [Option.all_some, decide_eq_false_iff_not] at hport
      exact if_pos ⟨by simp only [Option.getD_some]; omega, by simp only [Option.getD_some]; omega⟩
  have hexcluded : (form.excluded.filter fun ip => (ipToInt ip).isSome) = form.excluded := by
    refine List.filter_eq_self.mpr fun ip hip => ?_
    have hsome : ¬ipToInt ip = none := by simpa using List.any_eq_false.mp hexcludes ip hip
    exact Option.isSome_iff_ne_none.mpr hsome
  have hne : ¬((form.rule env existing taken).id = [] ∨
      trim (form.rule env existing taken).value = []) :=
    not_or.mpr ⟨hid', by simpa [TargetForm.rule, trim_trim] using hvalue⟩
  rw [TargetRule.read, if_neg hne]
  simp only [TargetForm.rule, trim_trim, keptText_orUndefined, hport', TargetForm.secret,
    TargetForm.sudoSecret, keptText_keptPassword, hexcluded]

theorem trim_append {s t : Text} (hs : trim s = s) (hne : s ≠ []) (ht : ∀ u ∈ t.getLast?, isSpace u = false)
    (htne : t ≠ []) : trim (s ++ t) = s ++ t := by
  refine trim_of_ends (fun u hu => ?_) fun u hu => ?_
  · rw [List.head?_append_of_ne_nil _ hne, ← hs] at hu
    exact head?_trim_not_space hu
  · rw [List.getLast?_append_of_ne_nil _ htne] at hu
    exact ht u hu

theorem normalizeUnit_normalizeUnit (raw : Text) :
    normalizeUnit (normalizeUnit raw) = normalizeUnit raw := by
  by_cases hnil : trim raw = []
  · have hempty : normalizeUnit raw = [] := by simp [normalizeUnit, hnil]
    rw [hempty]
    rfl
  · by_cases hsuffix : hasUnitSuffix (trim raw) = true
    · simp [normalizeUnit, hnil, hsuffix, trim_trim]
    · have htrim : trim (trim raw ++ js ".service") = trim raw ++ js ".service" :=
        trim_append (trim_trim raw) hnil (by decide) (by decide)
      have hhas : hasUnitSuffix (trim raw ++ js ".service") = true :=
        List.any_eq_true.mpr ⟨js ".service", List.mem_cons_self, by simp⟩
      simp [normalizeUnit, hnil, hsuffix, htrim, hhas]

theorem definition_reads {form : WatchedForm} {id : Text} (hid : id ≠ [])
    (hunit : normalizeUnit (trim form.unit) ≠ []) :
    (form.definition id).read = some (form.definition id) := by
  have hne : ¬((form.definition id).id = [] ∨ normalizeUnit (form.definition id).unit = []) :=
    not_or.mpr ⟨hid, by simpa [WatchedForm.definition, normalizeUnit_normalizeUnit] using hunit⟩
  rw [WatchedUnit.read, if_neg hne]
  simp only [WatchedForm.definition, normalizeUnit_normalizeUnit, keptText_orUndefined]

theorem editedEntry_mem {α : Type} {id : α → Text} {editing : Option Text} {entries : List α}
    {existing : Option α} (h : editedEntry id editing entries = some existing) {e : α}
    (he : existing = some e) : e ∈ entries := by
  subst he
  simp only [editedEntry] at h
  split at h
  · cases h
  · obtain ⟨e', hfind, heq⟩ := Option.map_eq_some_iff.mp h
    cases heq
    exact List.mem_of_find?_eq_some hfind

theorem id_ne_nil_of_read {t : TargetRule} (h : t.read = some t) : t.id ≠ [] := fun hid => by
  rw [TargetRule.read, if_pos (.inl hid)] at h
  cases h

theorem id_ne_nil_of_readUnit {u : WatchedUnit} (h : u.read = some u) : u.id ≠ [] := fun hid => by
  rw [WatchedUnit.read, if_pos (.inl hid)] at h
  cases h

/-- A document whose entries read as themselves. -/
structure Readable (config : FleetConfig) : Prop where
  targets : ∀ t ∈ config.targets, t.read = some t
  watched : ∀ u ∈ config.watched, u.read = some u

theorem checkTarget_reads {config : FleetConfig} (hc : Readable config) {editing : Option Text}
    {form : TargetForm} {env : Surroundings} {plan : TargetPlan}
    (h : config.checkTarget editing form env = some plan) : plan.rule.read = some plan.rule := by
  simp only [FleetConfig.checkTarget] at h
  split at h
  · cases h
  · rename_i existing he
    split at h
    · cases h
    · rename_i hblocked
      cases h
      exact rule_reads _ (by simpa using hblocked) fun t ht =>
        id_ne_nil_of_read (hc.targets t (editedEntry_mem he ht))

theorem checkWatched_reads {config : FleetConfig} (hc : Readable config) {editing : Option Text}
    {form : WatchedForm} {env : Surroundings} {plan : WatchedPlan}
    (h : config.checkWatched editing form env = some plan) : plan.unit.read = some plan.unit := by
  simp only [FleetConfig.checkWatched] at h
  split at h
  · cases h
  · rename_i existing he
    split at h
    · cases h
    · rename_i hblocked
      cases h
      simp only [Bool.or_eq_true, decide_eq_true_eq, not_or] at hblocked
      refine definition_reads ?_ hblocked.1.1.1
      cases existing with
      | none => exact makeId_ne_nil _ _ _ _
      | some u => exact id_ne_nil_of_readUnit (hc.watched u (editedEntry_mem he rfl))

/-! ### The runs -/

/-- What is claimed of the document at a moment: it is what the edits made of the empty one, reading
it gives it back, and no unit is watched twice. -/
structure Kept (w : World ι) : Prop where
  targets : w.document.targets = w.targetEdits.foldl (Edit.apply TargetRule.id) []
  watched : w.document.watched = w.watchedEdits.foldl (Edit.apply WatchedUnit.id) []
  readBack : normalize w.document = w.document
  units : (w.document.watched.map WatchedUnit.unit).Nodup

/-- The instance has no cache, or one that shows the document. -/
def World.Fresh (w : World ι) (i : ι) : Prop := ∀ config ∈ (w.instances i).cache, config = w.document

/-- The plan still fits the list: what it changes is there, what it adds is new and has room. -/
def Fits {α : Type} (id : α → Text) (limit : Nat) (entries : List α) (e : α) (change : Bool) : Prop :=
  if change then id e ∈ entries.map id else id e ∉ entries.map id ∧ entries.length < limit

def TargetPlan.changes (plan : TargetPlan) : Bool := (plan.editing.bind orUndefined).isSome
def WatchedPlan.changes (plan : WatchedPlan) : Bool := (plan.editing.bind orUndefined).isSome

def Allowed (w : World ι) : ι × Action → Prop
  | (i, .applyTarget editing token values now) =>
    ∀ plan ∈ ((w.instances i).targets.take token values now).2, plan.editing = editing →
      w.Fresh i ∧ Fits TargetRule.id MAX_TARGETS w.document.targets plan.rule plan.changes
  | (i, .deleteTarget _) => w.Fresh i
  | (i, .applyWatched _ token values now) =>
    ∀ plan ∈ ((w.instances i).watched.take token values now).2,
      w.Fresh i ∧ Fits WatchedUnit.id MAX_WATCHED w.document.watched plan.unit plan.changes ∧
        ∀ other ∈ w.document.watched, other.unit = plan.unit.unit → other.id = plan.unit.id
  | (i, .deleteWatched _) => w.Fresh i
  | _ => True

instance (w : World ι) (i : ι) : Decidable (w.Fresh i) :=
  inferInstanceAs (Decidable (∀ config ∈ (w.instances i).cache, config = w.document))

instance {α : Type} (id : α → Text) (limit : Nat) (entries : List α) (e : α) (change : Bool) :
    Decidable (Fits id limit entries e change) :=
  inferInstanceAs (Decidable (if change then _ else _))

instance decidableAllowed (w : World ι) : (action : ι × Action) → Decidable (Allowed w action)
  | (i, .applyTarget editing token values now) => inferInstanceAs (Decidable
      (∀ plan ∈ ((w.instances i).targets.take token values now).2, plan.editing = editing →
        w.Fresh i ∧ Fits TargetRule.id MAX_TARGETS w.document.targets plan.rule plan.changes))
  | (i, .deleteTarget _) => inferInstanceAs (Decidable (w.Fresh i))
  | (i, .applyWatched _ token values now) => inferInstanceAs (Decidable
      (∀ plan ∈ ((w.instances i).watched.take token values now).2,
        w.Fresh i ∧ Fits WatchedUnit.id MAX_WATCHED w.document.watched plan.unit plan.changes ∧
          ∀ other ∈ w.document.watched, other.unit = plan.unit.unit → other.id = plan.unit.id))
  | (i, .deleteWatched _) => inferInstanceAs (Decidable (w.Fresh i))
  | (_, .checkTarget ..) | (_, .checkWatched ..) | (_, .reset) => .isTrue trivial

/-- What every step keeps. -/
structure Sound (w : World ι) : Prop where
  targets : Shelf TargetRule.id TargetRule.read MAX_TARGETS w.targetEdits w.document.targets
  watched : Shelf WatchedUnit.id WatchedUnit.read MAX_WATCHED w.watchedEdits w.document.watched
  units : (w.document.watched.map WatchedUnit.unit).Nodup
  caches : ∀ i, ∀ config ∈ (w.instances i).cache, Readable config
  targetPlans : ∀ i, ∀ e ∈ (w.instances i).targets.openTokens.entries,
    e.2.payload.rule.read = some e.2.payload.rule
  watchedPlans : ∀ i, ∀ e ∈ (w.instances i).watched.openTokens.entries,
    e.2.payload.unit.read = some e.2.payload.unit

theorem Sound.normal (h : Sound w) : normalize w.document = w.document := by
  rw [normalize, h.targets.reads, h.watched.reads]

theorem Sound.kept (h : Sound w) : Kept w := ⟨h.targets.effect, h.watched.effect, h.normal, h.units⟩

theorem Sound.readable (h : Sound w) (i : ι) : Readable (w.read i) := by
  rw [World.read]
  cases hc : (w.instances i).cache with
  | none =>
    rw [Option.getD_none, h.normal]
    exact ⟨h.targets.normal, h.watched.normal⟩
  | some config => exact h.caches i config hc

theorem Sound.read_eq (h : Sound w) (hf : w.Fresh i) : w.read i = w.document := by
  rw [World.read]
  cases hc : (w.instances i).cache with
  | none => exact h.normal
  | some config => exact hf config hc

/-- An instance that is good for the world it stands in. -/
structure GoodInstance (inst : Instance) : Prop where
  cache : ∀ config ∈ inst.cache, Readable config
  targets : ∀ e ∈ inst.targets.openTokens.entries, e.2.payload.rule.read = some e.2.payload.rule
  watched : ∀ e ∈ inst.watched.openTokens.entries, e.2.payload.unit.read = some e.2.payload.unit

theorem Sound.instance (h : Sound w) (i : ι) : GoodInstance (w.instances i) :=
  ⟨h.caches i, h.targetPlans i, h.watchedPlans i⟩

theorem sound_of_instances {w' : World ι} (hi : ∀ i, GoodInstance (w'.instances i))
    (ht : Shelf TargetRule.id TargetRule.read MAX_TARGETS w'.targetEdits w'.document.targets)
    (hw : Shelf WatchedUnit.id WatchedUnit.read MAX_WATCHED w'.watchedEdits w'.document.watched)
    (hu : (w'.document.watched.map WatchedUnit.unit).Nodup) : Sound w' :=
  ⟨ht, hw, hu, fun i => (hi i).cache, fun i => (hi i).targets, fun i => (hi i).watched⟩

theorem goodInstance_update [DecidableEq ι] (h : Sound w) {inst : Instance} (hinst : GoodInstance inst) (j : ι) :
    GoodInstance (Function.update w.instances i inst j) := by
  by_cases hj : j = i
  · subst hj
    rwa [Function.update_self]
  · rw [Function.update_of_ne hj]
    exact h.instance j

section
variable [DecidableEq ι]

theorem Sound.set (h : Sound w) {inst : Instance} (hinst : GoodInstance inst) : Sound (w.set i inst) :=
  sound_of_instances (goodInstance_update h hinst) h.targets h.watched h.units

/-- A write through an instance: its cache is the new document. -/
def World.write (w : World ι) (i : ι) (inst : Instance) (config : FleetConfig)
    (targetEdits : List (Edit TargetRule Text)) (watchedEdits : List (Edit WatchedUnit Text)) :
    World ι :=
  ⟨config, Function.update w.instances i { inst with cache := some config }, targetEdits, watchedEdits⟩

theorem Sound.write (h : Sound w) {inst : Instance} (hinst : GoodInstance inst)
    (config : FleetConfig) {targetEdits : List (Edit TargetRule Text)}
    {watchedEdits : List (Edit WatchedUnit Text)}
    (ht : Shelf TargetRule.id TargetRule.read MAX_TARGETS targetEdits config.targets)
    (hw : Shelf WatchedUnit.id WatchedUnit.read MAX_WATCHED watchedEdits config.watched)
    (hu : (config.watched.map WatchedUnit.unit).Nodup) :
    Sound (w.write i inst config targetEdits watchedEdits) := by
  have hgood : GoodInstance { inst with cache := some config } :=
    ⟨fun c hc => Option.mem_some.mp hc ▸ ⟨ht.normal, hw.normal⟩, hinst.targets, hinst.watched⟩
  exact sound_of_instances (goodInstance_update h hgood) ht hw hu

/-! ### One action -/

theorem issue_payloads {T : Type} {P : T → Prop} {s : CheckSession T} {stamp : CheckSession.Issue Unit}
    {payload : T} (hs : ∀ e ∈ s.openTokens.entries, P e.2.payload) (hp : P payload) :
    ∀ e ∈ (s.issue (carrying stamp payload)).openTokens.entries, P e.2.payload := by
  intro e he
  rcases OrderedMap.mem_entries_set.mp he with rfl | ⟨hold, -⟩
  · exact hp
  · exact hs e ((CheckSession.sweep_entries_sublist _ _).subset hold)

theorem take_payloads {T : Type} {P : T → Prop} {s : CheckSession T} (token : Text) (values : Value)
    (now : Int) (hs : ∀ e ∈ s.openTokens.entries, P e.2.payload) :
    (∀ e ∈ (s.take token values now).1.openTokens.entries, P e.2.payload) ∧
      ∀ payload, (s.take token values now).2 = some payload → P payload := by
  refine ⟨fun e he => hs e ((CheckSession.take_fst_entries s token values now).mp he).1, ?_⟩
  intro payload hp
  obtain ⟨e, he, -, -, rfl⟩ := CheckSession.take_eq_some.mp hp
  exact hs _ he

theorem sound_checkTarget (h : Sound w) (editing : Option Text) (form : TargetForm)
    (env : Surroundings) (stamp : CheckSession.Issue Unit) :
    Sound (w.checkTarget i editing form env stamp) := by
  have hread : ∀ config ∈ some (w.read i), Readable config := fun c hc =>
    Option.mem_some.mp hc ▸ h.readable i
  simp only [World.checkTarget]
  cases hplan : (w.read i).checkTarget editing form env with
  | none => exact h.set ⟨hread, h.targetPlans i, h.watchedPlans i⟩
  | some plan =>
    have hp : plan.rule.read = some plan.rule := checkTarget_reads (h.readable i) hplan
    exact h.set ⟨hread, issue_payloads (P := fun plan : TargetPlan => plan.rule.read = some plan.rule)
      (h.targetPlans i) hp, h.watchedPlans i⟩

theorem sound_checkWatched (h : Sound w) (editing : Option Text) (form : WatchedForm)
    (env : Surroundings) (stamp : CheckSession.Issue Unit) :
    Sound (w.checkWatched i editing form env stamp) := by
  have hread : ∀ config ∈ some (w.read i), Readable config := fun c hc =>
    Option.mem_some.mp hc ▸ h.readable i
  simp only [World.checkWatched]
  cases hplan : (w.read i).checkWatched editing form env with
  | none => exact h.set ⟨hread, h.targetPlans i, h.watchedPlans i⟩
  | some plan =>
    have hp : plan.unit.read = some plan.unit := checkWatched_reads (h.readable i) hplan
    exact h.set ⟨hread, h.targetPlans i, issue_payloads
      (P := fun plan : WatchedPlan => plan.unit.read = some plan.unit) (h.watchedPlans i) hp⟩

/-- A plan that fits is put on the shelf as the edit that it stands for. -/
theorem shelf_put {α : Type} {id : α → Text} {read : α → Option α} {limit : Nat}
    {edits : List (Edit α Text)} {entries : List α} {e : α} {change : Bool}
    (h : Shelf id read limit edits entries) (hread : read e = some e)
    (hfits : Fits id limit entries e change) :
    Shelf id read limit (edits ++ [if change then .change e else .add e]) (putKeyed id e entries) := by
  cases change with
  | true =>
    simp only [Fits, if_true] at hfits ⊢
    exact h.change hread hfits
  | false =>
    simp only [Fits, Bool.false_eq_true, if_false] at hfits ⊢
    exact h.add hread hfits.1 hfits.2

theorem applyTarget_eq {editing : Option Text} {token : Text} {values : Value} {now : Int}
    {plan : TargetPlan} (hplan : ((w.instances i).targets.take token values now).2 = some plan)
    (hed : plan.editing = editing) : w.applyTarget i editing token values now =
      w.write i { w.instances i with targets := ((w.instances i).targets.take token values now).1 }
        { w.read i with targets := putKeyed TargetRule.id plan.rule (w.read i).targets }
        (w.targetEdits ++ [plan.edit]) w.watchedEdits := by
  simp [World.applyTarget, hplan, hed, World.update, World.set, World.write, World.read]

theorem sound_applyTarget (h : Sound w) {editing : Option Text} {token : Text} {values : Value}
    {now : Int} (hok : Allowed w (i, .applyTarget editing token values now)) :
    Sound (w.applyTarget i editing token values now) := by
  have htaken := take_payloads (P := fun plan : TargetPlan => plan.rule.read = some plan.rule)
    token values now (h.targetPlans i)
  have hinst : GoodInstance { w.instances i with
      targets := ((w.instances i).targets.take token values now).1 } :=
    ⟨h.caches i, htaken.1, h.watchedPlans i⟩
  have hspent := h.set (i := i) hinst
  cases hplan : ((w.instances i).targets.take token values now).2 with
  | none =>
    simp only [World.applyTarget, hplan]
    exact hspent
  | some plan =>
    by_cases hed : plan.editing = editing
    · obtain ⟨hfresh, hfits⟩ := hok plan hplan hed
      rw [applyTarget_eq hplan hed, h.read_eq hfresh]
      exact h.write hinst _ (shelf_put h.targets (htaken.2 plan hplan) hfits) h.watched h.units
    · simp only [World.applyTarget, hplan, if_pos hed]
      exact hspent

theorem applyWatched_eq {editing : Option Text} {token : Text} {values : Value} {now : Int}
    {plan : WatchedPlan} (hplan : ((w.instances i).watched.take token values now).2 = some plan)
    (hed : ((editing.bind orUndefined).any fun id => decide (plan.unit.id ≠ id)) = false) :
    w.applyWatched i editing token values now =
      w.write i { w.instances i with watched := ((w.instances i).watched.take token values now).1 }
        { w.read i with watched := putKeyed WatchedUnit.id plan.unit (w.read i).watched }
        w.targetEdits (w.watchedEdits ++ [plan.edit]) := by
  simp only [World.applyWatched, hplan, hed]
  simp [World.update, World.set, World.write, World.read]

/-- A unit that no other entry has is put in without a double. -/
theorem units_put {entries : List WatchedUnit} {u : WatchedUnit}
    (hn : (entries.map WatchedUnit.unit).Nodup) (hids : (entries.map WatchedUnit.id).Nodup)
    (hother : ∀ other ∈ entries, other.unit = u.unit → other.id = u.id) :
    ((putKeyed WatchedUnit.id u entries).map WatchedUnit.unit).Nodup := by
  by_cases hmem : u.id ∈ entries.map WatchedUnit.id
  · rw [putKeyed_of_mem hids hmem, List.map_map, List.nodup_map_iff_inj_on (List.Nodup.of_map _ hids)]
    intro a ha b hb heq
    have hinj := List.inj_on_of_nodup_map hids
    simp only [Function.comp_apply] at heq
    by_cases hia : a.id = u.id <;> by_cases hib : b.id = u.id
    · exact hinj ha hb (hia.trans hib.symm)
    · rw [if_pos hia, if_neg hib] at heq
      exact absurd (hother b hb heq.symm) hib
    · rw [if_neg hia, if_pos hib] at heq
      exact absurd (hother a ha heq) hia
    · rw [if_neg hia, if_neg hib] at heq
      exact List.inj_on_of_nodup_map hn ha hb heq
  · rw [putKeyed_of_not_mem hmem, List.map_append, List.map_singleton, ← List.concat_eq_append]
    refine hn.concat fun hunit => ?_
    obtain ⟨other, ho, heq⟩ := List.mem_map.mp hunit
    exact hmem (hother other ho heq ▸ List.mem_map_of_mem ho)

theorem sound_applyWatched (h : Sound w) {editing : Option Text} {token : Text} {values : Value}
    {now : Int} (hok : Allowed w (i, .applyWatched editing token values now)) :
    Sound (w.applyWatched i editing token values now) := by
  have htaken := take_payloads (P := fun plan : WatchedPlan => plan.unit.read = some plan.unit)
    token values now (h.watchedPlans i)
  have hinst : GoodInstance { w.instances i with
      watched := ((w.instances i).watched.take token values now).1 } :=
    ⟨h.caches i, h.targetPlans i, htaken.1⟩
  have hspent := h.set (i := i) hinst
  cases hplan : ((w.instances i).watched.take token values now).2 with
  | none =>
    simp only [World.applyWatched, hplan]
    exact hspent
  | some plan =>
    cases hed : (editing.bind orUndefined).any fun id => decide (plan.unit.id ≠ id) with
    | false =>
      obtain ⟨hfresh, hfits, hother⟩ := hok plan hplan
      rw [applyWatched_eq hplan hed, h.read_eq hfresh]
      exact h.write hinst _ h.targets (shelf_put h.watched (htaken.2 plan hplan) hfits)
        (units_put h.units h.watched.nodup hother)
    | true =>
      simp only [World.applyWatched, hplan, hed, if_true]
      exact hspent

theorem sound_deleteTarget (h : Sound w) (id : Text) (hfresh : w.Fresh i) :
    Sound (w.deleteTarget i id) := by
  have hread := h.read_eq hfresh
  have hsound := h.write (i := i) (h.instance i) { w.document with
    targets := dropKey TargetRule.id id w.document.targets } (h.targets.remove id) h.watched h.units
  simp only [World.deleteTarget, World.update, World.set, hread]
  split
  · rename_i hlength
    have hsame := dropKey_of_length hlength
    have hkeep := h.write (i := i) (h.instance i) w.document h.targets h.watched h.units
    rw [hsame]
    exact hkeep
  · exact hsound

theorem sound_deleteWatched (h : Sound w) (id : Text) (hfresh : w.Fresh i) :
    Sound (w.deleteWatched i id) := by
  have hread := h.read_eq hfresh
  have hunits : ((dropKey WatchedUnit.id id w.document.watched).map WatchedUnit.unit).Nodup :=
    h.units.sublist (List.filter_sublist.map _)
  have hsound := h.write (i := i) (h.instance i) { w.document with
    watched := dropKey WatchedUnit.id id w.document.watched } h.targets (h.watched.remove id) hunits
  simp only [World.deleteWatched, World.update, World.set, hread]
  split
  · rename_i hlength
    have hsame := dropKey_of_length hlength
    have hkeep := h.write (i := i) (h.instance i) w.document h.targets h.watched h.units
    rw [hsame]
    exact hkeep
  · exact hsound

theorem sound_step (h : Sound w) {action : ι × Action} (hok : Allowed w action) :
    Sound (w.step action) := by
  obtain ⟨i, action⟩ := action
  cases action with
  | checkTarget editing form env stamp => exact sound_checkTarget h editing form env stamp
  | applyTarget editing token values now => exact sound_applyTarget h hok
  | deleteTarget id => exact sound_deleteTarget h id hok
  | checkWatched editing form env stamp => exact sound_checkWatched h editing form env stamp
  | applyWatched editing token values now => exact sound_applyWatched h hok
  | deleteWatched id => exact sound_deleteWatched h id hok
  | reset => exact h.set ⟨fun _ hc => (by cases hc), fun _ he => (by cases he), fun _ he => (by cases he)⟩

/-- Where every write goes through a cache that shows the document, and every plan still fits when
it is applied, no edit is lost: at every moment the document is what the edits make of the empty one,
it is read back whole, and no unit is watched twice. -/
theorem edits_kept {actions : List (ι × Action)}
    (h : Guarded World.step Allowed (World.start : World ι) actions) :
    ∀ before more, before ++ more = actions → Kept (run World.step (World.start : World ι) before) := by
  intro before more hsplit
  subst hsplit
  have hstart : Sound (World.start : World ι) := sound_of_instances
    (fun _ => ⟨fun _ hc => (by cases hc), fun _ he => (by cases he), fun _ he => (by cases he)⟩)
    .empty .empty List.nodup_nil
  have hstep : ∀ (w : World ι) action, Sound w → Allowed w action → Sound (w.step action) :=
    fun _ _ hw hok => sound_step hw hok
  exact (run_preserves hstep (guarded_left h) hstart).kept

def sampleStamp : CheckSession.Issue Unit := ⟨.null, (), 0, 1, 1, []⟩

def sampleToken (n : Nat) : Text := CheckSession.tokenText n 1 []

def sampleForm (value : Text) : TargetForm :=
  ⟨js "host", value, [], [], [], [], [], [], [], [], some 22, true⟩

def sampleUnit (unit : Text) : WatchedForm := ⟨unit, [], [], [], [], [], true, true⟩

def sampleEnv (draw : Text) : Surroundings := ⟨4096, true, [draw], js "1", 1⟩

def checkRule (editing : Option Text) (value draw : Text) : Action :=
  .checkTarget editing (sampleForm value) (sampleEnv draw) sampleStamp

def applyRule (editing : Option Text) (n : Nat) : Action := .applyTarget editing (sampleToken n) .null 1

def checkUnit (unit draw : Text) : Action :=
  .checkWatched none (sampleUnit unit) (sampleEnv draw) sampleStamp

def applyUnit (n : Nat) : Action := .applyWatched none (sampleToken n) .null 1

/-- Two hosts in turn: the second reads the document after the first has written it. -/
def inTurn : List (Bool × Action) := [
  (false, checkRule none (js "10.0.0.5") (js "a1")), (false, applyRule none 1),
  (true, checkRule none (js "10.0.0.6") (js "b2")), (true, applyRule none 1),
  (true, checkUnit (js "docker") (js "c3")), (true, applyUnit 1),
  (false, .reset), (false, .deleteTarget (js "t_a1"))]

theorem edits_kept_in_turn : Kept (run World.step (World.start : World Bool) inTurn) :=
  edits_kept (by decide +kernel) inTurn [] (List.append_nil _)

/-- A host with an old cache writes over the other's rule; a rule that is deleted while its form is
open comes back; and a unit checked twice before it is applied is watched twice. -/
theorem edits_lost :
    ¬Kept (run World.step (World.start : World Bool) [
        (true, checkRule none (js "10.0.0.6") (js "b2")),
        (false, checkRule none (js "10.0.0.5") (js "a1")), (false, applyRule none 1),
        (true, applyRule none 1)]) ∧
      ¬Kept (run World.step (World.start : World Bool) [
        (false, checkRule none (js "10.0.0.5") (js "a1")), (false, applyRule none 1),
        (false, checkRule (some (js "t_a1")) (js "10.0.0.7") (js "d4")),
        (false, .deleteTarget (js "t_a1")), (false, applyRule (some (js "t_a1")) 2)]) ∧
      ¬Kept (run World.step (World.start : World Bool) [
        (false, checkUnit (js "docker") (js "c3")), (false, checkUnit (js "docker") (js "e5")),
        (false, applyUnit 1), (false, applyUnit 2)]) := by
  refine ⟨fun h => ?_, fun h => ?_, fun h => ?_⟩
  · exact absurd h.targets (by decide +kernel)
  · exact absurd h.targets (by decide +kernel)
  · exact absurd h.units (by decide +kernel)

end

end BoredManager.Fleet.Config
