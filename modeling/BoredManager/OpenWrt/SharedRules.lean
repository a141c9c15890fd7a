import BoredManager.OpenWrt.PppoeNumbers
import Mathlib.Data.Fintype.Basic

/-! The one rules config of all routers. Each router checks, applies and resets the rules with an
editor of its own, and stores its own batches and binding instances. -/
namespace BoredManager.OpenWrt.SharedRules
open BoredManager.Js BoredManager.Shared BoredManager.Machine BoredManager.OpenWrt.Batches

variable {ι : Type*} [DecidableEq ι]

/-- The module instance of a router and its host store. -/
structure Router where
  manager : Manager
  instances : List Text
  editor : CheckSession PartialRules

structure World (ι : Type*) where
  config : PartialRules
  router : ι → Router

def Router.hasTopology (r : Router) : Bool := !r.manager.batches.isEmpty || !r.instances.isEmpty

inductive Action where
  | check (form : RulesForm) (stamp : Stamp)
  | apply (token : Text) (values : Value) (now : Int)
  | reset
  | pppoe (event : Event)
  | bindingCreated (id : Text)
  | bindingDeleted (id : Text)

def World.effective (w : World ι) : OwrtRules := effectiveRules w.config

def World.setRules (w : World ι) (rules : PartialRules) : World ι := { w with config := normalize rules }

def World.setRouter (w : World ι) (i : ι) (r : Router) : World ι :=
  { w with router := Function.update w.router i r }

/-- One action at one router. -/
def step (lower : Text → Text) (w : World ι) : ι × Action → World ι
  | (i, .check form stamp) =>
    match form.checked w.effective (w.router i).hasTopology with
    | none => w
    | some kept =>
      w.setRouter i { w.router i with editor := (w.router i).editor.issue (stamp.issue kept) }
  | (i, .apply token values now) =>
    let taken := (w.router i).editor.take token values now
    let spent := w.setRouter i { w.router i with editor := taken.1 }
    match taken.2 with
    | none => spent
    | some rules => spent.setRules rules
  | (i, .reset) =>
    if (w.router i).hasTopology && decide (w.effective.numbering ≠ DEFAULT_RULES.numbering) then w
    else (w.setRules .empty).setRouter i { w.router i with editor := (w.router i).editor.clear }
  | (i, .pppoe event) =>
    w.setRouter i
      { w.router i with manager := Batches.step lower (w.router i).manager w.effective event }
  | (i, .bindingCreated id) =>
    w.setRouter i { w.router i with instances := (w.router i).instances ++ [id] }
  | (i, .bindingDeleted id) =>
    w.setRouter i { w.router i with instances := (w.router i).instances.filter (· ≠ id) }

/-- A router's host store: the next sequence, the batches and the instances. -/
structure HostRecords where
  nextSeq : Int
  batches : List StoredBatch
  instances : List Text

def start (config : PartialRules) (host : ι → HostRecords) : World ι where
  config := config
  router i := ⟨Batches.start (host i).nextSeq (host i).batches, (host i).instances, .createCheckSession⟩

/-! ### Payloads -/

theorem overlay_kept (rules : OwrtRules) : overlay rules.kept = rules := by
  have hkept : ∀ {β : Type} [DecidableEq β] (v d : β), (if v ≠ d then some v else none).getD d = v := by
    intro β _ v d
    split_ifs with h
    · rfl
    · exact (not_not.mp h).symm
  cases rules
  simp only [overlay, OwrtRules.kept, hkept]

theorem keepValid_kept {rules : OwrtRules}
    (hnumeric : ∀ key, rules.numeric key ≠ DEFAULT_RULES.numeric key → validNumber key (rules.numeric key) = true)
    (hiface : rules.ifacePrefix ≠ DEFAULT_RULES.ifacePrefix → isPppoePrefix rules.ifacePrefix = true)
    (hzone : rules.zoneName ≠ DEFAULT_RULES.zoneName → UCI_NAME rules.zoneName = true)
    (hlease : rules.leaseFile ≠ DEFAULT_RULES.leaseFile → validLeaseFile rules.leaseFile = true) :
    keepValid rules.kept = rules.kept := by
  have hkeep : ∀ {β : Type} [DecidableEq β] {v d : β} {p : β → Bool}, (v ≠ d → p v = true) →
      (if v ≠ d then some v else none).filter (fun u => p u && decide (u ≠ d)) =
        if v ≠ d then some v else none := by
    intro β _ v d p hp
    split_ifs with h
    · simp [hp h, h]
    · rfl
  have hdiffer : ∀ {β : Type} [DecidableEq β] {v d : β},
      (if v ≠ d then some v else none).filter (fun u => decide (u ≠ d)) =
        if v ≠ d then some v else none := by
    intro β _ v d
    split_ifs with h
    · simp [h]
    · rfl
  simp only [keepValid, OwrtRules.kept, hkeep hiface, hkeep hzone, hkeep hlease, hdiffer,
    fun key => hkeep (hnumeric key)]

theorem enteredText_valid {valid : Text → Bool} {text v : Text} (h : enteredText valid text = some v) :
    valid v = true := by
  rw [enteredText, Option.ite_none_right_eq_some] at h
  obtain ⟨⟨-, hvalid⟩, h⟩ := h
  cases h
  exact hvalid

theorem entered_valid {form : RulesForm} {key : NumericRule} {v : Int} (h : form.entered key = some v) :
    validNumber key v = true := by
  rw [RulesForm.entered, Option.ite_none_left_eq_some] at h
  exact (Option.filter_eq_some_iff.mp h.2).2

/-- What differs from a default was entered. -/
theorem getD_ne {β : Type} {o : Option β} {d : β} {p : β → Bool} (hp : ∀ v, o = some v → p v = true)
    (h : o.getD d ≠ d) : p (o.getD d) = true := by
  cases o with
  | none => exact absurd rfl h
  | some v => exact hp v rfl

theorem keepValid_candidate (form : RulesForm) :
    keepValid form.candidate.kept = form.candidate.kept :=
  keepValid_kept (fun _ => getD_ne fun _ => entered_valid) (getD_ne fun _ => enteredText_valid)
    (getD_ne fun _ => enteredText_valid) (getD_ne fun _ => enteredText_valid)

/-- The rules that are effective once a checked payload is saved are the ones that the check
compared. -/
def Sound (payload : PartialRules) : Prop := effectiveRules (normalize payload) = overlay payload

theorem sound_checked {form : RulesForm} {current : OwrtRules} {hasTopology : Bool}
    {payload : PartialRules} (h : form.checked current hasTopology = some payload) : Sound payload := by
  rw [RulesForm.checked, Option.ite_none_left_eq_some] at h
  obtain ⟨hgood, h⟩ := h
  cases h
  simp only [Bool.or_eq_true, not_or, Bool.not_eq_true] at hgood
  obtain ⟨⟨⟨-, hpriorities⟩, htables⟩, -⟩ := hgood
  have hsame : normalize form.candidate.kept = form.candidate.kept := by
    simp only [normalize, keepValid_candidate, overlay_kept, hpriorities, htables, Bool.false_eq_true,
      if_false]
  rw [Sound, effectiveRules, hsame, hsame]

/-! ### The manager under the effective rules -/

/-- The table base of every batch that an event leaves: of a batch before, or of a waiting plan. -/
theorem base_of_step {lower : Text → Text} {m : Manager} {rules : OwrtRules} {event : Event}
    {b : StoredBatch} (h : b ∈ (Batches.step lower m rules event).batches) :
    b ∈ m.batches ∨ ∃ plan ∈ m.applying, b.base = plan.rules.numeric .tableBase := by
  cases event with
  | check values =>
    rw [Batches.step] at h
    cases hform : validate lower rules m.batches values <;> (rw [hform] at h; exact .inl h)
  | planned index inventory stamp =>
    rw [Batches.step] at h
    cases hform : m.checking[index]? with
    | none => rw [hform] at h; exact .inl h
    | some form =>
      rw [hform] at h
      dsimp only at h
      split at h <;> exact .inl h
  | apply connected token values now =>
    rw [Batches.step, takePlan] at h
    dsimp only at h
    split at h
    · exact .inl h
    · split_ifs at h <;> exact .inl h
  | recorded index inventory id now started =>
    rw [Batches.step] at h
    cases hplan : m.applying[index]? with
    | none => rw [hplan] at h; exact .inl h
    | some plan =>
      rw [hplan] at h
      cases inventory with
      | none => exact .inl h
      | some inventory =>
        dsimp only at h
        obtain heq | ⟨-, -, nextSeq, heq⟩ := record_cases lower { m with applying := m.applying.eraseIdx index }
          plan inventory id now started
        · rw [heq] at h
          exact .inl h
        · rw [heq] at h
          have hmem : b ∈ m.batches ++ [plan.stored id now] := by
            dsimp only at h
            split_ifs at h
            · exact h
            · exact List.mem_of_mem_filter h
          obtain hold | hnew := List.mem_append.mp hmem
          · exact .inl hold
          · rw [List.mem_singleton.mp hnew]
            exact .inr ⟨plan, List.mem_of_getElem? hplan, rfl⟩
  | deleted id => exact .inl (List.mem_of_mem_filter h)

theorem applying_of_record {lower : Text → Text} {m : Manager} {plan : BatchPlan}
    {inventory : RouterInventory} {id : Text} {now : Int} {started : Bool} :
    (record lower m plan inventory id now started).applying = m.applying := by
  obtain heq | ⟨-, -, nextSeq, heq⟩ := record_cases lower m plan inventory id now started
  all_goals rw [heq]

/-- A plan waits for its router only when its rules have the table base that is effective. -/
theorem applying_of_step {lower : Text → Text} {m : Manager} {rules : OwrtRules} {event : Event}
    {plan : BatchPlan} (h : plan ∈ (Batches.step lower m rules event).applying) :
    plan ∈ m.applying ∨ plan.rules.numeric .tableBase = rules.numeric .tableBase := by
  cases event with
  | check values =>
    rw [Batches.step] at h
    cases hform : validate lower rules m.batches values <;> (rw [hform] at h; exact .inl h)
  | planned index inventory stamp =>
    rw [Batches.step] at h
    cases hform : m.checking[index]? with
    | none => rw [hform] at h; exact .inl h
    | some form =>
      rw [hform] at h
      dsimp only at h
      split at h <;> exact .inl h
  | apply connected token values now =>
    rw [Batches.step, takePlan] at h
    dsimp only at h
    split at h
    · exact .inl h
    · split_ifs at h with hrefused
      · exact .inl h
      · obtain hold | hnew := List.mem_append.mp h
        · exact .inl hold
        · rw [List.mem_singleton.mp hnew]
          simp only [not_or, not_not] at hrefused
          have hnumeric := congrArg Prod.fst hrefused.2
          simp only [applyRulesFingerprint, List.map_cons, List.cons.injEq] at hnumeric
          exact .inr hnumeric.1.symm
  | recorded index inventory id now started =>
    rw [Batches.step] at h
    cases hplan : m.applying[index]? with
    | none => rw [hplan] at h; exact .inl h
    | some other =>
      rw [hplan] at h
      cases inventory with
      | none => exact .inl (List.mem_of_mem_eraseIdx h)
      | some inventory =>
        dsimp only at h
        rw [applying_of_record] at h
        exact .inl (List.mem_of_mem_eraseIdx h)
  | deleted id => exact .inl h

/-! ### The lock -/

/-- Some router stores a batch or a binding instance. -/
def World.Holds (w : World ι) : Prop := ∃ i, (w.router i).hasTopology = true

/-- Some batch apply waits for its router's inventory. -/
def World.Waits (w : World ι) : Prop := ∃ i, (w.router i).manager.applying ≠ []

/-- The lock of the form, over all the routers and the applies that wait. -/
def World.Unlocks (w : World ι) (rules : OwrtRules) : Prop :=
  (w.Holds → rules.numbering = w.effective.numbering) ∧
    (w.Waits → rules.numeric .tableBase = w.effective.numeric .tableBase)

/-- The rules that an action saves pass the lock at the moment of saving. -/
def World.Allowed (w : World ι) : ι × Action → Prop
  | (i, .apply token values now) =>
    ∀ payload ∈ ((w.router i).editor.take token values now).2, w.Unlocks (overlay payload)
  | (i, .reset) =>
    ((w.router i).hasTopology = true → w.effective.numbering = DEFAULT_RULES.numbering) →
      w.Unlocks DEFAULT_RULES
  | _ => True

/-- What every allowed action keeps. -/
structure Kept (w : World ι) : Prop where
  base : ∀ i, ∀ b ∈ (w.router i).manager.batches, b.base = w.effective.numeric .tableBase
  applying : ∀ i, ∀ plan ∈ (w.router i).manager.applying,
    plan.rules.numeric .tableBase = w.effective.numeric .tableBase
  sound : ∀ i, ∀ e ∈ (w.router i).editor.openTokens.entries, Sound e.2.payload

/-- A change of one router. -/
theorem Kept.setRouter {w : World ι} (h : Kept w) (i : ι) {r : Router}
    (hbase : ∀ b ∈ r.manager.batches, b.base = w.effective.numeric .tableBase)
    (happlying : ∀ plan ∈ r.manager.applying,
      plan.rules.numeric .tableBase = w.effective.numeric .tableBase)
    (hsound : ∀ e ∈ r.editor.openTokens.entries, Sound e.2.payload) : Kept (w.setRouter i r) := by
  have hcases : ∀ j, (w.setRouter i r).router j = r ∨ (w.setRouter i r).router j = w.router j := by
    intro j
    by_cases hj : j = i
    · subst hj
      exact .inl (Function.update_self ..)
    · exact .inr (Function.update_of_ne hj ..)
  constructor
  all_goals
    intro j
    obtain hj | hj := hcases j
    all_goals rw [hj]
  · exact hbase
  · exact h.base j
  · exact happlying
  · exact h.applying j
  · exact hsound
  · exact h.sound j

omit [DecidableEq ι] in
/-- Rules that pass the lock may be saved. -/
theorem Kept.setRules {w : World ι} (h : Kept w) {payload : PartialRules} (hsound : Sound payload)
    (hunlocks : w.Unlocks (overlay payload)) : Kept (w.setRules payload) := by
  have heffective : (w.setRules payload).effective = overlay payload := hsound
  refine ⟨fun i b hb => ?_, fun i plan hplan => ?_, h.sound⟩
  · have hsome : (w.router i).manager.batches.isEmpty = false :=
      List.isEmpty_eq_false_iff_exists_mem.mpr ⟨b, hb⟩
    have hholds : w.Holds := ⟨i, by rw [Router.hasTopology, hsome]; rfl⟩
    rw [h.base i b hb, heffective]
    exact (congrArg Numbering.tableBase (hunlocks.1 hholds)).symm
  · rw [h.applying i plan hplan, heffective]
    exact (hunlocks.2 ⟨i, List.ne_nil_of_mem hplan⟩).symm

theorem overlay_empty : overlay .empty = DEFAULT_RULES := rfl

theorem sound_empty : Sound .empty := by
  have hempty : normalize .empty = .empty := rfl
  rw [Sound, effectiveRules, hempty, hempty]

theorem kept_step (lower : Text → Text) (w : World ι) (action : ι × Action) (h : Kept w)
    (hallowed : w.Allowed action) : Kept (step lower w action) := by
  obtain ⟨i, action⟩ := action
  cases action with
  | check form stamp =>
    rw [step]
    cases hform : form.checked w.effective (w.router i).hasTopology with
    | none => exact h
    | some kept =>
      refine h.setRouter i (h.base i) (h.applying i) fun e he => ?_
      obtain ⟨call, hcall, -, hstored⟩ | ⟨hold, -, -⟩ :=
        CheckSession.step_entries (c := .issue (stamp.issue kept)) he
      · cases hcall
        rw [hstored]
        exact sound_checked hform
      · exact h.sound i e hold
  | apply token values now =>
    have hspent : Kept (w.setRouter i
        { w.router i with editor := ((w.router i).editor.take token values now).1 }) :=
      h.setRouter i (h.base i) (h.applying i) fun e he =>
        h.sound i e ((CheckSession.take_fst_entries (w.router i).editor token values now).mp he).1
    rw [step]
    dsimp only
    cases htaken : ((w.router i).editor.take token values now).2 with
    | none => exact hspent
    | some payload =>
      obtain ⟨e, he, -, -, rfl⟩ := CheckSession.take_eq_some.mp htaken
      have hsaved := h.setRules (h.sound i (token, e) he) (hallowed _ htaken)
      exact hsaved.setRouter i (hsaved.base i) (hsaved.applying i) fun other hother =>
        h.sound i other
          ((CheckSession.take_fst_entries (w.router i).editor token values now).mp hother).1
  | reset =>
    rw [step]
    by_cases hrefused : ((w.router i).hasTopology &&
        decide (w.effective.numbering ≠ DEFAULT_RULES.numbering)) = true
    · rw [if_pos hrefused]
      exact h
    · rw [if_neg hrefused]
      have hunlocks : w.Unlocks DEFAULT_RULES := hallowed fun htopology => by
        simpa [htopology] using hrefused
      have hsaved := h.setRules sound_empty (overlay_empty ▸ hunlocks)
      exact hsaved.setRouter i (hsaved.base i) (hsaved.applying i) (by simp [CheckSession.clear, OrderedMap.empty])
  | pppoe event =>
    refine h.setRouter i (fun b hb => ?_) (fun plan hplan => ?_) (h.sound i)
    · obtain hold | ⟨plan, hplan, hbase⟩ := base_of_step hb
      · exact h.base i b hold
      · exact hbase.trans (h.applying i plan hplan)
    · obtain hold | hnew := applying_of_step hplan
      · exact h.applying i plan hold
      · exact hnew
  | bindingCreated id => exact h.setRouter i (h.base i) (h.applying i) (h.sound i)
  | bindingDeleted id => exact h.setRouter i (h.base i) (h.applying i) (h.sound i)

/-- Under records an allowed action leaves the numbering alone. -/
theorem numbering_step (lower : Text → Text) {w : World ι} {action : ι × Action} (h : Kept w)
    (hallowed : w.Allowed action) (hholds : w.Holds) :
    (step lower w action).effective.numbering = w.effective.numbering := by
  obtain ⟨i, action⟩ := action
  cases action with
  | check form stamp =>
    rw [step]
    cases hform : form.checked w.effective (w.router i).hasTopology <;> rfl
  | apply token values now =>
    rw [step]
    dsimp only
    cases htaken : ((w.router i).editor.take token values now).2 with
    | none => rfl
    | some payload =>
      obtain ⟨e, he, -, -, rfl⟩ := CheckSession.take_eq_some.mp htaken
      have hsound : Sound e.payload := h.sound i (token, e) he
      have hnext : (w.setRules e.payload).effective = overlay e.payload := hsound
      calc (w.setRules e.payload).effective.numbering = (overlay e.payload).numbering := by rw [hnext]
        _ = w.effective.numbering := (hallowed _ htaken).1 hholds
  | reset =>
    rw [step]
    by_cases hrefused : ((w.router i).hasTopology &&
        decide (w.effective.numbering ≠ DEFAULT_RULES.numbering)) = true
    · rw [if_pos hrefused]
    · rw [if_neg hrefused]
      have hunlocks : w.Unlocks DEFAULT_RULES := hallowed fun htopology => by
        simpa [htopology] using hrefused
      have hnext : (w.setRules .empty).effective = DEFAULT_RULES := sound_empty.trans overlay_empty
      calc (w.setRules .empty).effective.numbering = DEFAULT_RULES.numbering := by rw [hnext]
        _ = w.effective.numbering := hunlocks.1 hholds
  | pppoe event => rfl
  | bindingCreated id => rfl
  | bindingDeleted id => rfl

/-- In every run whose saved rules pass the lock at the moment of saving, a stored batch keeps the
table base it was written with, and the numbering does not change under records. -/
theorem numbering_is_kept (lower : Text → Text) (config : PartialRules) (host : ι → HostRecords)
    (hhost : ∀ i, ∀ b ∈ (host i).batches, b.base = (effectiveRules config).numeric .tableBase)
    (actions : List (ι × Action))
    (hallowed : Guarded (step lower) World.Allowed (start config host) actions) :
    let w := run (step lower) (start config host) actions
    (∀ i, ∀ b ∈ (w.router i).manager.batches, b.base = w.effective.numeric .tableBase) ∧
      ∀ action, w.Allowed action → w.Holds →
        (step lower w action).effective.numbering = w.effective.numbering := by
  intro w
  have hstart : Kept (start config host) :=
    ⟨hhost, fun i => by simp [start, Batches.start],
      fun i => by simp [start, CheckSession.createCheckSession, OrderedMap.empty]⟩
  have hkept : Kept w := run_preserves (kept_step lower) hallowed hstart
  exact ⟨hkept.base, fun action => numbering_step lower hkept⟩

instance [Fintype ι] (w : World ι) : Decidable w.Holds := inferInstanceAs (Decidable (∃ _, _))

instance [Fintype ι] (w : World ι) : Decidable w.Waits := inferInstanceAs (Decidable (∃ _, _))

instance [Fintype ι] (w : World ι) (rules : OwrtRules) : Decidable (w.Unlocks rules) :=
  inferInstanceAs (Decidable (_ ∧ _))

instance [Fintype ι] (w : World ι) : (action : ι × Action) → Decidable (w.Allowed action)
  | (_, .check _ _) => inferInstanceAs (Decidable True)
  | (_, .apply _ _ _) => inferInstanceAs (Decidable (∀ payload ∈ _, _))
  | (_, .reset) => inferInstanceAs (Decidable (_ → _))
  | (_, .pppoe _) => inferInstanceAs (Decidable True)
  | (_, .bindingCreated _) => inferInstanceAs (Decidable True)
  | (_, .bindingDeleted _) => inferInstanceAs (Decidable True)

/-- Two routers without records. -/
def noRecords : Bool → HostRecords := fun _ => ⟨1, [], []⟩

/-- A check of the form with a table base, and its apply. -/
def checkTables (tableBase random : Text) : Bool × Action :=
  (false, .check ⟨fun key => if key = "tableBase" then tableBase else [], fun _ => none⟩
    ⟨.null, 0, 0, 0, random⟩)

def applyTables (token : Text) : Bool × Action := (false, .apply token .null 1)

/-- The other router creates a batch. -/
def createdBatch : List (Bool × Action) :=
  (createEvents (js "a") (js "chk_1_0_x") (js "x")).map fun event => (true, .pppoe event.2)

theorem numbering_is_kept_two :
    let actions := [checkTables (js "12000") (js "r"), applyTables (js "chk_1_0_r")] ++ createdBatch ++
      [checkTables (js "12000") (js "s"), applyTables (js "chk_2_0_s")]
    let w := run (step id) (start .empty noRecords) actions
    w.Holds ∧ (∀ i, ∀ b ∈ (w.router i).manager.batches, b.base = w.effective.numeric .tableBase) ∧
      ∀ action, w.Allowed action → w.Holds →
        (step id w action).effective.numbering = w.effective.numbering :=
  ⟨by decide +kernel, numbering_is_kept id .empty noRecords (by simp [noRecords]) _ (by decide +kernel)⟩

/-- A token that was checked before the batch changes the table base under it. -/
theorem numbering_changes_under_a_batch :
    let w := run (step id) (start .empty noRecords) (checkTables (js "12000") (js "r") :: createdBatch)
    let after := step id w (applyTables (js "chk_1_0_r"))
    w.Holds ∧ after.effective.numbering ≠ w.effective.numbering ∧
      ∃ b ∈ (after.router true).manager.batches, b.base ≠ after.effective.numeric .tableBase := by
  decide +kernel

end BoredManager.OpenWrt.SharedRules
