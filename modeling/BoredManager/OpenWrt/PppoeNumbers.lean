import BoredManager.OpenWrt.PppoeBatches
import BoredManager.OpenWrt.PppoeJobRuns
import BoredManager.Js.NumberText

/-! The sequences of the stored batches of one router: in every run they are apart and below the
catch-all table, as long as the table rules do not change. -/
namespace BoredManager.OpenWrt.Batches
open BoredManager.Js BoredManager.Js.Number BoredManager.Shared BoredManager.Machine

variable {lower : Text → Text} {rules : OwrtRules} {m : Manager} {tableBase catchAllTable : Int}
  {count : Nat} {ifacePrefix : Text} {batches : List StoredBatch} {inventory : RouterInventory}

/-- The table rules that do not change. -/
def SameTables (tableBase catchAllTable : Int) (rules : OwrtRules) : Prop :=
  rules.numeric .tableBase = tableBase ∧ rules.numeric .catchAllTable = catchAllTable

instance (tableBase catchAllTable : Int) (rules : OwrtRules) :
    Decidable (SameTables tableBase catchAllTable rules) := inferInstanceAs (Decidable (_ ∧ _))

/-- The greatest sequence under some table rules. -/
def lastSequence (tableBase catchAllTable : Int) : Int := min 99999 (catchAllTable - tableBase - 1)

/-- A range of sequences that begins with one and ends by the last. -/
def Fits (last : Int) (seqFrom seqTo : Nat) : Prop :=
  1 ≤ seqFrom ∧ seqFrom ≤ seqTo ∧ (seqTo : Int) ≤ last

/-- Two batches without a common sequence or name. -/
structure Apart (lower : Text → Text) (a b : StoredBatch) : Prop where
  ranges : a.record.seqTo < b.record.seqFrom ∨ b.record.seqTo < a.record.seqFrom
  names : lower a.record.name ≠ lower b.record.name

/-! ### The search -/

theorem le_movedTo (batches : List StoredBatch) (seqFrom seqTo : Nat) :
    seqFrom ≤ movedTo batches seqFrom seqTo := by
  refine List.foldlRecOn batches _ (motive := fun moved => seqFrom ≤ moved) le_rfl ?_
  intro moved hmoved batch _
  split_ifs
  · exact le_trans hmoved (le_max_left _ _)
  · exact hmoved

/-- A range that the scan finds begins behind its start and ends by the limit. -/
theorem scan_spec {maxFrom : Int} {fuel seqFrom : Nat} {range : Nat × Nat}
    (h : scanSequenceRange count ifacePrefix rules batches inventory maxFrom fuel seqFrom = some range) :
    seqFrom ≤ range.1 ∧ range.2 = range.1 + count - 1 ∧ (range.1 : Int) + count - 1 ≤ allocationLimit rules := by
  induction fuel generalizing seqFrom with
  | zero => cases h
  | succ fuel ih =>
    rw [scanSequenceRange] at h
    by_cases hend : maxFrom < seqFrom ∨ allocationLimit rules < (seqFrom : Int) + count - 1
    · rw [if_pos hend] at h
      cases h
    rw [if_neg hend] at h
    dsimp only at h
    by_cases hmoved : movedTo batches seqFrom (seqFrom + count - 1) ≠ seqFrom
    · rw [if_pos hmoved] at h
      have hle := le_movedTo batches seqFrom (seqFrom + count - 1)
      obtain ⟨hfrom, hrest⟩ := ih h
      exact ⟨hle.trans hfrom, hrest⟩
    rw [if_neg hmoved] at h
    cases hfind : (List.range' seqFrom (seqFrom + count - 1 + 1 - seqFrom)).find?
        (inventory.uses ifacePrefix rules) with
    | some collision =>
      rw [hfind] at h
      have hmem := List.mem_range'_1.mp (List.mem_of_find?_eq_some hfind)
      obtain ⟨hfrom, hrest⟩ := ih h
      exact ⟨by omega, hrest⟩
    | none =>
      rw [hfind] at h
      cases h
      exact ⟨le_rfl, rfl, by omega⟩

theorem scanFrom_spec {maxFrom : Int} {startFrom : Nat} {range : Nat × Nat} (hcount : 1 ≤ count)
    (h : scanFrom count ifacePrefix rules batches inventory startFrom maxFrom = some range) :
    Fits (allocationLimit rules) range.1 range.2 := by
  obtain ⟨hfrom, hto, hlimit⟩ := scan_spec h
  refine ⟨by omega, by omega, by omega⟩

theorem findSequenceRange_spec {nextSeq : Int} {range : Nat × Nat} (hcount : 1 ≤ count)
    (h : findSequenceRange count ifacePrefix rules nextSeq batches inventory = some range) :
    Fits (allocationLimit rules) range.1 range.2 := by
  rw [findSequenceRange, Option.or_eq_some_iff] at h
  obtain h | ⟨-, h⟩ := h
  · exact scanFrom_spec hcount h
  · split_ifs at h
    exact scanFrom_spec hcount h

/-! ### Steps -/

/-- What every event keeps. -/
structure Valid (lower : Text → Text) (tableBase catchAllTable : Int) (m : Manager) : Prop where
  apart : m.batches.Pairwise (Apart lower)
  fits : ∀ b ∈ m.batches, Fits (lastSequence tableBase catchAllTable) b.record.seqFrom b.record.seqTo
  checking : ∀ form ∈ m.checking, SameTables tableBase catchAllTable form.rules ∧ 1 ≤ form.rows.length
  tokens : ∀ e ∈ m.session.openTokens.entries,
    Fits (lastSequence tableBase catchAllTable) e.2.payload.seqFrom e.2.payload.seqTo
  applying : ∀ plan ∈ m.applying, Fits (lastSequence tableBase catchAllTable) plan.seqFrom plan.seqTo

theorem Valid.without (h : Valid lower tableBase catchAllTable m) (id : Text) :
    Valid lower tableBase catchAllTable { m with batches := withoutBatch id m.batches } :=
  ⟨h.apart.sublist List.filter_sublist, fun b hb => h.fits b (List.mem_of_mem_filter hb), h.checking,
    h.tokens, h.applying⟩

theorem validate_some {values : BatchValues} {form : BatchForm}
    (h : validate lower rules batches values = some form) :
    form.rules = rules ∧ 1 ≤ form.rows.length := by
  cases hvlan : parseOptionalVlan (values.text "vlan") with
  | none => simp [validate, hvlan] at h
  | some vlan =>
    simp only [validate, hvlan] at h
    rw [Option.ite_none_left_eq_some] at h
    obtain ⟨hgood, h⟩ := h
    cases h
    simp only [not_or, not_lt] at hgood
    exact ⟨rfl, hgood.2.2.2.2.2.2.1⟩

theorem planBatch_some {form : BatchForm} {plan : BatchPlan}
    (h : planBatch m form inventory = some plan) (hrows : 1 ≤ form.rows.length) :
    Fits (allocationLimit form.rules) plan.seqFrom plan.seqTo := by
  simp only [planBatch] at h
  split_ifs at h
  obtain ⟨range, hrange, rfl⟩ := Option.map_eq_some_iff.mp h
  exact findSequenceRange_spec hrows hrange

/-- A range that is still free is apart from every stored batch. -/
theorem apart_of_free {plan : BatchPlan} (hfree : rangeStillFree plan rules batches inventory = true)
    (hname : nameTaken lower batches plan.name = false) (id : Text) (now : Int) :
    ∀ b ∈ batches, Apart lower b (plan.stored id now) := by
  intro b hb
  rw [rangeStillFree, Bool.and_eq_true, Bool.not_eq_true', Bool.not_eq_true'] at hfree
  have hrange := List.any_eq_false.mp hfree.1 b hb
  have hdiffer := List.any_eq_false.mp hname b hb
  simp only [overlaps, Bool.and_eq_true, decide_eq_true_eq, not_and, not_le] at hrange
  refine ⟨?_, fun heq => hdiffer (beq_iff_eq.mpr heq)⟩
  change b.record.seqTo < plan.seqFrom ∨ plan.seqTo < b.record.seqFrom
  by_cases hle : plan.seqFrom ≤ b.record.seqTo
  · exact .inr (hrange hle)
  · exact .inl (by omega)

/-- What a recorded plan does: nothing, or a batch more that may be taken back at once. -/
theorem record_cases (lower : Text → Text) (m : Manager) (plan : BatchPlan)
    (inventory : RouterInventory) (id : Text) (now : Int) (started : Bool) :
    record lower m plan inventory id now started = m ∨
      (rangeStillFree plan plan.rules m.batches inventory = true ∧
        nameTaken lower m.batches plan.name = false ∧
        ∃ nextSeq, (record lower m plan inventory id now started) =
          { m with
            nextSeq := nextSeq
            batches := if started then m.batches ++ [plan.stored id now]
              else withoutBatch id (m.batches ++ [plan.stored id now]) }) := by
  by_cases hbad : inventory.carrierExists = false ∨
      (requestedVlans plan.rows plan.vlan).any (vlanConflict inventory plan.carrier) = true ∨
      nameTaken lower m.batches plan.name = true ∨ rangeStillFree plan plan.rules m.batches inventory = false
  · exact .inl (if_pos hbad)
  have hrecord : record lower m plan inventory id now started = _ := if_neg hbad
  rw [hrecord]
  obtain ⟨-, -, hname, hfree⟩ : _ ∧ _ ∧ _ ∧ _ := by simpa only [not_or] using hbad
  cases planPppoeChunks plan.rows plan.options (plan.rules.numeric .uciChunkSize) with
  | error _ => exact .inl rfl
  | ok _ =>
    exact .inr ⟨Bool.not_eq_false _ ▸ hfree, Bool.eq_false_iff.mpr hname, _, rfl⟩

theorem valid_record {plan : BatchPlan} (h : Valid lower tableBase catchAllTable m)
    (hplan : Fits (lastSequence tableBase catchAllTable) plan.seqFrom plan.seqTo)
    (inventory : RouterInventory) (id : Text) (now : Int) (started : Bool) :
    Valid lower tableBase catchAllTable (record lower m plan inventory id now started) := by
  obtain heq | ⟨hfree, hname, nextSeq, heq⟩ := record_cases lower m plan inventory id now started
  · rw [heq]
    exact h
  · have hmore : Valid lower tableBase catchAllTable
        { m with nextSeq := nextSeq, batches := m.batches ++ [plan.stored id now] } := by
      refine ⟨?_, fun b hb => ?_, h.checking, h.tokens, h.applying⟩
      · refine List.pairwise_append.mpr ⟨h.apart, List.pairwise_singleton _ _, fun b hb c hc => ?_⟩
        rw [List.mem_singleton.mp hc]
        exact apart_of_free hfree hname id now b hb
      · obtain hb | hb := List.mem_append.mp hb
        · exact h.fits b hb
        · rw [List.mem_singleton.mp hb]
          exact hplan
    rw [heq]
    split_ifs
    · exact hmore
    · exact hmore.without id

theorem valid_take (h : Valid lower tableBase catchAllTable m) (rules : OwrtRules) (connected : Bool)
    (token : Text) (values : Value) (now : Int) :
    Valid lower tableBase catchAllTable (takePlan m rules connected token values now) := by
  have hopen : ∀ e ∈ (m.session.take token values now).1.openTokens.entries,
      Fits (lastSequence tableBase catchAllTable) e.2.payload.seqFrom e.2.payload.seqTo := fun e he =>
    h.tokens e ((CheckSession.take_fst_entries m.session token values now).mp he).1
  rw [takePlan]
  dsimp only
  cases htaken : (m.session.take token values now).2 with
  | none => exact ⟨h.apart, h.fits, h.checking, hopen, h.applying⟩
  | some plan =>
    dsimp only
    split_ifs
    · exact ⟨h.apart, h.fits, h.checking, hopen, h.applying⟩
    · refine ⟨h.apart, h.fits, h.checking, hopen, fun p hp => ?_⟩
      obtain hp | hp := List.mem_append.mp hp
      · exact h.applying p hp
      · rw [List.mem_singleton.mp hp]
        obtain ⟨e, he, -, -, rfl⟩ := CheckSession.take_eq_some.mp htaken
        exact h.tokens _ he

theorem valid_issue (h : Valid lower tableBase catchAllTable m) {plan : BatchPlan}
    (hplan : Fits (lastSequence tableBase catchAllTable) plan.seqFrom plan.seqTo) (stamp : Stamp) :
    Valid lower tableBase catchAllTable { m with session := m.session.issue (stamp.issue plan) } := by
  refine ⟨h.apart, h.fits, h.checking, fun e he => ?_, h.applying⟩
  obtain ⟨call, hcall, -, hstored⟩ | ⟨hold, -, -⟩ :=
    CheckSession.step_entries (c := .issue (stamp.issue plan)) he
  · cases hcall
    rw [hstored]
    exact hplan
  · exact h.tokens e hold

/-- An event, under rules with the same tables. -/
theorem valid_step (m : Manager) (event : OwrtRules × Event) (h : Valid lower tableBase catchAllTable m)
    (hsame : SameTables tableBase catchAllTable event.1) :
    Valid lower tableBase catchAllTable (step lower m event.1 event.2) := by
  obtain ⟨rules, event⟩ := event
  cases event with
  | check values =>
    rw [step]
    cases hform : validate lower rules m.batches values with
    | none => exact h
    | some form =>
      refine ⟨h.apart, h.fits, fun f hf => ?_, h.tokens, h.applying⟩
      obtain hf | hf := List.mem_append.mp hf
      · exact h.checking f hf
      · obtain ⟨hrules, hrows⟩ := validate_some hform
        rw [List.mem_singleton.mp hf, hrules]
        exact ⟨hsame, hrows⟩
  | planned index inventory stamp =>
    rw [step]
    cases hform : m.checking[index]? with
    | none => exact h
    | some form =>
      have hrest : Valid lower tableBase catchAllTable
          { m with checking := m.checking.eraseIdx index } :=
        ⟨h.apart, h.fits, fun f hf => h.checking f (List.mem_of_mem_eraseIdx hf), h.tokens, h.applying⟩
      dsimp only
      cases hplan : inventory.bind (planBatch { m with checking := m.checking.eraseIdx index } form) with
      | none => exact hrest
      | some plan =>
        obtain ⟨found, -, hfound⟩ := Option.bind_eq_some_iff.mp hplan
        obtain ⟨⟨htable, hcatch⟩, hrows⟩ := h.checking form (List.mem_of_getElem? hform)
        have hfits := planBatch_some hfound hrows
        rw [allocationLimit, htable, hcatch] at hfits
        exact valid_issue hrest hfits stamp
  | apply connected token values now => exact valid_take h rules connected token values now
  | recorded index inventory id now started =>
    rw [step]
    cases hplan : m.applying[index]? with
    | none => exact h
    | some plan =>
      have hrest : Valid lower tableBase catchAllTable
          { m with applying := m.applying.eraseIdx index } :=
        ⟨h.apart, h.fits, h.checking, h.tokens, fun p hp => h.applying p (List.mem_of_mem_eraseIdx hp)⟩
      cases inventory with
      | none => exact hrest
      | some inventory =>
        exact valid_record hrest (h.applying plan (List.mem_of_getElem? hplan)) inventory id now started
  | deleted id => exact h.without id

/-! ### Sections and tables -/

theorem mem_batchSequences {record : PppoeBatchRecord} {seq : Nat} (h : seq ∈ batchSequences record) :
    record.seqFrom ≤ seq ∧ seq ≤ record.seqTo ∧ 1 ≤ seq := by
  obtain ⟨hmem, -⟩ := List.mem_filter.mp h
  obtain ⟨index, hindex, rfl⟩ := List.mem_map.mp hmem
  rw [List.mem_range] at hindex
  omega

/-- The zeros before a sequence do not change its value. -/
theorem continueValue_padZero (width n : Nat) :
    continueValue 10 (padZero width (decimal n)) 0 = n := by
  rw [padZero, continueValue_append, continueValue_zeros, Nat.zero_mul, continueValue_decimal]

theorem length_padZero {width : Nat} {s : Text} (h : s.length ≤ width) :
    (padZero width s).length = width := by
  rw [padZero, List.length_append, List.length_replicate, Nat.sub_add_cancel h]

/-- One section name belongs to one sequence, whatever the prefixes are. -/
theorem pppoeSectionName_injective {p q name : Text} {x y : Nat}
    (hx : pppoeSectionName p (.ofInt x) = .ok name) (hy : pppoeSectionName q (.ofInt y) = .ok name) :
    x = y := by
  have hfive : ∀ {z : Nat}, z ≤ 99999 → (decimal z).length ≤ 5 := fun hz =>
    length_radixText (by omega) (by omega)
  obtain ⟨m, hm, hp⟩ := pppoeSectionName_ok hx
  obtain ⟨n, hn, hq⟩ := pppoeSectionName_ok hy
  obtain rfl : (x : Int) = m := by simpa using hm
  obtain rfl : (y : Int) = n := by simpa using hn
  have hlengthX := length_padZero (hfive (pppoeSectionName_managed hx).1)
  have hlengthY := length_padZero (hfive (pppoeSectionName_managed hy).1)
  have hpadded := List.append_inj_right' (hp.symm.trans hq) (hlengthX.trans hlengthY.symm)
  calc x = continueValue 10 (padZero 5 (decimal x)) 0 := (continueValue_padZero 5 x).symm
    _ = continueValue 10 (padZero 5 (decimal y)) 0 := congrArg (continueValue 10 · 0) hpadded
    _ = y := continueValue_padZero 5 y

theorem pppoeTableId_eq {tableBase : Int} {seq : Nat} {table : Int}
    (h : pppoeTableId (.ofInt tableBase) (.ofInt seq) = .ok table) : table = tableBase + seq := by
  obtain ⟨n, hn, htable⟩ := pppoeTableId_ok h
  obtain rfl : (seq : Int) = n := by simpa using hn
  simpa [wholeOf] using htable

/-! ### Runs -/

/-- The stored batches share no sequence, no name, no section and no table. -/
structure Exclusive (lower : Text → Text) (tableBase catchAllTable : Int)
    (batches : List StoredBatch) : Prop where
  ranges : batches.Pairwise fun a b =>
    a.record.seqTo < b.record.seqFrom ∨ b.record.seqTo < a.record.seqFrom
  names : batches.Pairwise fun a b => lower a.record.name ≠ lower b.record.name
  limits : ∀ b ∈ batches, Fits (min 99999 (catchAllTable - tableBase - 1)) b.record.seqFrom
    b.record.seqTo
  sections : batches.Pairwise fun a b => ∀ x ∈ batchSequences a.record,
    ∀ y ∈ batchSequences b.record, ∀ name,
      pppoeSectionName a.record.ifacePrefix (.ofInt x) = .ok name →
        pppoeSectionName b.record.ifacePrefix (.ofInt y) ≠ .ok name
  tables : batches.Pairwise fun a b => ∀ x ∈ batchSequences a.record,
    ∀ y ∈ batchSequences b.record, ∀ table,
      pppoeTableId (.ofInt tableBase) (.ofInt x) = .ok table →
        pppoeTableId (.ofInt tableBase) (.ofInt y) ≠ .ok table
  catchAll : ∀ b ∈ batches, ∀ x ∈ batchSequences b.record,
    pppoeTableId (.ofInt tableBase) (.ofInt x) ≠ .ok catchAllTable

theorem Apart.sequences {a b : StoredBatch} (h : Apart lower a b) {x y : Nat}
    (hx : x ∈ batchSequences a.record) (hy : y ∈ batchSequences b.record) : x ≠ y := by
  have hxs := mem_batchSequences hx
  have hys := mem_batchSequences hy
  have hranges := h.ranges
  omega

theorem Valid.exclusive (h : Valid lower tableBase catchAllTable m) :
    Exclusive lower tableBase catchAllTable m.batches := by
  have happart := h.apart.imp_of_mem (S := fun a b => ∀ x ∈ batchSequences a.record,
    ∀ y ∈ batchSequences b.record, x ≠ y) fun _ _ hab x hx y hy => hab.sequences hx hy
  refine ⟨h.apart.imp Apart.ranges, h.apart.imp Apart.names, h.fits, ?_, ?_, ?_⟩
  · exact happart.imp fun hab x hx y hy name hname hother =>
      hab x hx y hy (pppoeSectionName_injective hname hother)
  · refine happart.imp fun hab x hx y hy table htable hother => hab x hx y hy ?_
    have heq := (pppoeTableId_eq htable).symm.trans (pppoeTableId_eq hother)
    omega
  · intro b hb x hx htable
    have hlimits := (h.fits b hb).2.2
    have hsequence := mem_batchSequences hx
    have heq := pppoeTableId_eq htable
    rw [lastSequence] at hlimits
    omega

/-- As long as the table rules do not change, the stored batches are exclusive at every moment of
every run. -/
theorem batches_are_exclusive (lower : Text → Text) (tableBase catchAllTable nextSeq : Int)
    (batches : List StoredBatch) (hapart : batches.Pairwise (Apart lower))
    (hfits : ∀ b ∈ batches, Fits (lastSequence tableBase catchAllTable) b.record.seqFrom
      b.record.seqTo)
    (events : List (OwrtRules × Event))
    (hsame : ∀ event ∈ events, SameTables tableBase catchAllTable event.1) :
    Exclusive lower tableBase catchAllTable
      (run (fun m event => step lower m event.1 event.2) (start nextSeq batches) events).batches := by
  have hstart : Valid lower tableBase catchAllTable (start nextSeq batches) :=
    ⟨hapart, hfits, by simp [start], by simp [start, CheckSession.createCheckSession, OrderedMap.empty], by simp [start]⟩
  have hguarded : Guarded (fun m event => step lower m event.1 event.2)
      (fun _ event => SameTables tableBase catchAllTable event.1) (start nextSeq batches) events :=
    guarded_of_forall hsame _
  exact (run_preserves valid_step hguarded hstart).exclusive

/-- A form with two accounts, and its way to a stored batch under a check token. -/
def createEvents (name token random : Text) : List (OwrtRules × Event) :=
  let text := fun key => if key = "name" then name else if key = "carrier" then js "eth1" else []
  let inventory : RouterInventory := ⟨true, [], [], []⟩
  [.check ⟨text, [], js "u1|p1\nu2|p2"⟩, .planned 0 inventory ⟨.null, 0, 0, 0, random⟩,
    .apply true token .null 1, .recorded 0 inventory name 1 true].map fun event =>
      (DEFAULT_RULES, event)

def twoBatches : List (OwrtRules × Event) :=
  createEvents (js "a") (js "chk_1_0_x") (js "x") ++ createEvents (js "b") (js "chk_2_0_y") (js "y")

theorem batches_are_exclusive_two :
    ((run (fun m event => step id m event.1 event.2) (start 1 []) twoBatches).batches.map
      fun b => (b.record.seqFrom, b.record.seqTo)) = [(1, 2), (3, 4)] ∧
      Exclusive id 10000 29999
        (run (fun m event => step id m event.1 event.2) (start 1 []) twoBatches).batches :=
  ⟨by decide +kernel, batches_are_exclusive id 10000 29999 1 [] (by simp) (by simp) twoBatches
    (by decide +kernel)⟩

end BoredManager.OpenWrt.Batches
