import BoredManager.OpenWrt.PppoeNumbers

/-! The search for a range of sequences with the errors of its names and tables. It terminates, and
it misses no free range: what a turn jumps over meets the batch or the collision it jumps behind. -/
namespace BoredManager.OpenWrt.Batches
open BoredManager.Js

variable {count : Nat} {ifacePrefix : Text} {rules : OwrtRules} {batches : List StoredBatch}
  {inventory : RouterInventory}

/-- The first of some sequences whose section or table is there already. -/
def RouterInventory.collision (inventory : RouterInventory) (ifacePrefix : Text) (rules : OwrtRules) :
    Nat → Nat → Except Text (Option Nat)
  | _, 0 => .ok none
  | seq, left + 1 => do
    let name ← pppoeSectionName ifacePrefix (.ofInt seq)
    if name ∈ inventory.sections then .ok (some seq)
    else
      let table ← pppoeTableId (.ofInt (rules.numeric .tableBase)) (.ofInt seq)
      if table ∈ inventory.tables then .ok (some seq)
      else inventory.collision ifacePrefix rules (seq + 1) left

theorem collision_bounds {seq left found : Nat}
    (h : inventory.collision ifacePrefix rules seq left = .ok (some found)) :
    seq ≤ found ∧ found < seq + left := by
  induction left generalizing seq with
  | zero => cases h
  | succ left ih =>
    rw [RouterInventory.collision] at h
    obtain ⟨name, -, h⟩ := bind_eq_ok.mp h
    split at h
    · cases h
      omega
    obtain ⟨table, -, h⟩ := bind_eq_ok.mp h
    split at h
    · cases h
      omega
    · have := ih h
      omega

/-- The loop of `scanSequenceRange`: every turn that goes on begins further behind. -/
def searchFrom (count : Nat) (ifacePrefix : Text) (rules : OwrtRules) (batches : List StoredBatch)
    (inventory : RouterInventory) (maxFrom : Int) (seqFrom : Nat) : Except Text (Option (Nat × Nat)) :=
  if _hend : maxFrom < seqFrom ∨ allocationLimit rules < (seqFrom : Int) + count - 1 then .ok none
  else if hmoved : movedTo batches seqFrom (seqFrom + count - 1) ≠ seqFrom then
    searchFrom count ifacePrefix rules batches inventory maxFrom
      (movedTo batches seqFrom (seqFrom + count - 1))
  else match hfound : inventory.collision ifacePrefix rules seqFrom count with
    | .error problem => .error problem
    | .ok (some collision) =>
      searchFrom count ifacePrefix rules batches inventory maxFrom (collision + 1)
    | .ok none => .ok (some (seqFrom, seqFrom + count - 1))
termination_by (maxFrom + 1 - seqFrom).toNat
decreasing_by
  · have := le_movedTo batches seqFrom (seqFrom + count - 1)
    omega
  · have := collision_bounds hfound
    omega

/-- `findSequenceRange`: behind the next sequence first, then before it. -/
def searchSequenceRange (count : Nat) (ifacePrefix : Text) (rules : OwrtRules) (nextSeq : Int)
    (batches : List StoredBatch) (inventory : RouterInventory) : Except Text (Option (Nat × Nat)) := do
  let limit := allocationLimit rules
  let start := (max 1 nextSeq).toNat
  match ← searchFrom count ifacePrefix rules batches inventory limit start with
  | some range => .ok (some range)
  | none =>
    if 1 < start then searchFrom count ifacePrefix rules batches inventory (start - 1) 1
    else .ok none

/-- A sequence of no batch whose section and table are not there. -/
structure Unused (ifacePrefix : Text) (rules : OwrtRules) (batches : List StoredBatch)
    (inventory : RouterInventory) (seq : Nat) : Prop where
  batches : ∀ b ∈ batches, ¬ (b.record.seqFrom ≤ seq ∧ seq ≤ b.record.seqTo)
  sections : ifacePrefix ++ padZero 5 (decimal seq) ∉ inventory.sections
  tables : rules.numeric .tableBase + seq ∉ inventory.tables

/-- A range of unused sequences from one to the limit. -/
structure Free (count : Nat) (ifacePrefix : Text) (rules : OwrtRules) (batches : List StoredBatch)
    (inventory : RouterInventory) (seqFrom : Nat) : Prop where
  pos : 1 ≤ seqFrom
  limit : (seqFrom : Int) + count - 1 ≤ min 99999
    (rules.numeric .catchAllTable - rules.numeric .tableBase - 1)
  unused : ∀ seq, seqFrom ≤ seq → seq < seqFrom + count →
    Unused ifacePrefix rules batches inventory seq

/-! ### Collisions -/

theorem pppoeSectionName_total (hpref : isPppoePrefix ifacePrefix = true) {seq : Nat} (hpos : 1 ≤ seq)
    (hlast : seq ≤ 99999) :
    pppoeSectionName ifacePrefix (.ofInt seq) = .ok (ifacePrefix ++ padZero 5 (decimal seq)) := by
  have hlength : ifacePrefix.length ≤ 4 := by
    cases ifacePrefix with
    | nil => cases hpref
    | cons u s =>
      simp only [isPppoePrefix, Bool.and_eq_true, decide_eq_true_eq] at hpref
      have hrest : s.length ≤ 3 := hpref.1.2
      rw [List.length_cons]
      omega
  have hpad : padPppoeSequence (.ofInt seq) = .ok (padZero 5 (decimal seq)) := by
    have hrange : ¬ ((seq : Int) < 1 ∨ maxPppoeSequence < seq) := by rw [maxPppoeSequence]; omega
    simp only [padPppoeSequence, wholeNumber, Number.integer?_ofInt, bind, Except.bind]
    rw [if_neg hrange, decimalInt, if_neg (by omega), Int.natAbs_natCast]
  have hwidth : (padZero 5 (decimal seq)).length = 5 :=
    length_padZero (Number.length_radixText (by omega) (by omega))
  have hfits : ¬ 15 < (js "pppoe-" ++ (ifacePrefix ++ padZero 5 (decimal seq))).length := by
    have hsix : (js "pppoe-").length = 6 := by decide
    simp only [List.length_append, hwidth, hsix]
    omega
  simp only [pppoeSectionName, hpref, hpad, bind, Except.bind]
  rw [if_neg hfits]
  rfl

theorem pppoeTableId_ofInt {tableBase : Int} {seq : Nat} :
    pppoeTableId (.ofInt tableBase) (.ofInt seq) =
      if tableBase < 1 ∨ 2147483647 < tableBase + seq
      then .error (js "PPPoE routing table is outside the supported range")
      else .ok (tableBase + seq) := by
  simp only [pppoeTableId, wholeNumber, Number.integer?_ofInt, bind, Except.bind]

/-- What the loop over a range finds: no sequence of it is used, or the first one that is, or the
tables leave the range of table numbers. -/
theorem collision_cases (rules : OwrtRules) (inventory : RouterInventory)
    (hpref : isPppoePrefix ifacePrefix = true) {seq left : Nat} (hpos : 1 ≤ seq)
    (hlast : seq + left ≤ 100000) :
    (inventory.collision ifacePrefix rules seq left = .ok none ∧
        ∀ n, seq ≤ n → n < seq + left → ifacePrefix ++ padZero 5 (decimal n) ∉ inventory.sections ∧
          rules.numeric .tableBase + n ∉ inventory.tables) ∨
      (∃ found, inventory.collision ifacePrefix rules seq left = .ok (some found) ∧
        (ifacePrefix ++ padZero 5 (decimal found) ∈ inventory.sections ∨
          rules.numeric .tableBase + found ∈ inventory.tables)) ∨
      (∃ problem, inventory.collision ifacePrefix rules seq left = .error problem) ∧
        (rules.numeric .tableBase < 1 ∨ 2147483647 < rules.numeric .tableBase + (seq + left - 1)) := by
  induction left generalizing seq with
  | zero => exact .inl ⟨rfl, by omega⟩
  | succ left ih =>
    simp only [RouterInventory.collision, pppoeSectionName_total hpref hpos (by omega), bind, Except.bind]
    by_cases hsection : ifacePrefix ++ padZero 5 (decimal seq) ∈ inventory.sections
    · exact .inr (.inl ⟨seq, if_pos hsection, .inl hsection⟩)
    rw [if_neg hsection]
    by_cases hrange : rules.numeric .tableBase < 1 ∨ 2147483647 < rules.numeric .tableBase + seq
    · rw [pppoeTableId_ofInt, if_pos hrange]
      exact .inr (.inr ⟨⟨_, rfl⟩, by omega⟩)
    rw [pppoeTableId_ofInt, if_neg hrange]
    by_cases htable : rules.numeric .tableBase + seq ∈ inventory.tables
    · exact .inr (.inl ⟨seq, if_pos htable, .inr htable⟩)
    simp only [if_neg htable]
    obtain ⟨heq, hrest⟩ | hfound | ⟨hproblem, hbad⟩ := ih (show 1 ≤ seq + 1 by omega) (by omega)
    · refine .inl ⟨heq, fun n hfrom hto => ?_⟩
      by_cases hn : n = seq
      · exact hn ▸ ⟨hsection, htable⟩
      · exact hrest n (by omega) (by omega)
    · exact .inr (.inl hfound)
    · exact .inr (.inr ⟨hproblem, by push_cast at hbad ⊢; omega⟩)

/-! ### The search -/

theorem lt_movedTo {b : StoredBatch} (hb : b ∈ batches) {seqFrom seqTo : Nat}
    (h : overlaps seqFrom seqTo b.record.seqFrom b.record.seqTo = true) :
    b.record.seqTo < movedTo batches seqFrom seqTo := by
  obtain ⟨front, back, rfl⟩ := List.append_of_mem hb
  rw [movedTo, List.foldl_append, List.foldl_cons, if_pos h]
  generalize front.foldl _ _ = before
  refine List.foldlRecOn back _ (motive := fun moved => b.record.seqTo < moved)
    (lt_of_lt_of_le (Nat.lt_succ_self _) (le_max_right _ _)) ?_
  intro moved hmoved batch _
  split_ifs
  · exact lt_of_lt_of_le hmoved (le_max_left _ _)
  · exact hmoved

/-- Behind its start the moved start is the one behind a batch that the range overlaps. -/
theorem movedTo_cases (batches : List StoredBatch) (seqFrom seqTo : Nat) :
    movedTo batches seqFrom seqTo = seqFrom ∨
      ∃ b ∈ batches, overlaps seqFrom seqTo b.record.seqFrom b.record.seqTo = true ∧
        movedTo batches seqFrom seqTo = b.record.seqTo + 1 := by
  refine List.foldlRecOn batches _ (motive := fun moved => moved = seqFrom ∨
    ∃ b ∈ batches, overlaps seqFrom seqTo b.record.seqFrom b.record.seqTo = true ∧
      moved = b.record.seqTo + 1) (.inl rfl) ?_
  intro moved hmoved b hb
  split_ifs with hover
  · obtain hle | hle := le_total (b.record.seqTo + 1) moved
    · rwa [max_eq_left hle]
    · exact .inr ⟨b, hb, hover, max_eq_right hle⟩
  · exact hmoved

/-- A range with a used sequence is not free. -/
theorem Free.absurd {seqFrom seq : Nat} (h : Free count ifacePrefix rules batches inventory seqFrom)
    (hused : ¬ Unused ifacePrefix rules batches inventory seq) (hfrom : seqFrom ≤ seq)
    (hto : seq < seqFrom + count) : False :=
  hused (h.unused seq hfrom hto)

/-- No range that begins before the end of an overlapped batch is free. -/
theorem not_free_of_overlaps (hcount : 1 ≤ count) {b : StoredBatch} (hb : b ∈ batches)
    (hvalid : b.record.seqFrom ≤ b.record.seqTo) {seqFrom first : Nat}
    (hover : overlaps seqFrom (seqFrom + count - 1) b.record.seqFrom b.record.seqTo = true)
    (hfirst : seqFrom ≤ first) (hlast : first ≤ b.record.seqTo) :
    ¬ Free count ifacePrefix rules batches inventory first := by
  intro hfree
  simp only [overlaps, Bool.and_eq_true, decide_eq_true_eq] at hover
  have hmeets : ¬ Unused ifacePrefix rules batches inventory (max first b.record.seqFrom) :=
    fun hunused => hunused.batches b hb ⟨le_max_right _ _, max_le hlast hvalid⟩
  exact hfree.absurd hmeets (le_max_left _ _) (by omega)

/-- When the start stays, the range meets no batch. -/
theorem not_mem_batch (hmoved : movedTo batches seqFrom (seqFrom + count - 1) = seqFrom)
    {b : StoredBatch} (hb : b ∈ batches) {seq : Nat} (hfrom : seqFrom ≤ seq)
    (hto : seq < seqFrom + count) : ¬ (b.record.seqFrom ≤ seq ∧ seq ≤ b.record.seqTo) := by
  intro hin
  have hover : overlaps seqFrom (seqFrom + count - 1) b.record.seqFrom b.record.seqTo = true := by
    simp only [overlaps, Bool.and_eq_true, decide_eq_true_eq]
    omega
  have := lt_movedTo hb hover
  omega

/-- What the scan answers: a free range, or none when no free range has one of the starts, or an error
when the tables leave the range of table numbers. -/
def Answers (count : Nat) (ifacePrefix : Text) (rules : OwrtRules) (batches : List StoredBatch)
    (inventory : RouterInventory) (starts : Nat → Prop) : Except Text (Option (Nat × Nat)) → Prop
  | .ok (some range) =>
    range.2 + 1 = range.1 + count ∧ Free count ifacePrefix rules batches inventory range.1
  | .ok none => ∀ first, starts first → ¬ Free count ifacePrefix rules batches inventory first
  | .error _ => rules.numeric .tableBase < 1 ∨ 2147483648 < rules.numeric .catchAllTable

/-- More starts may be asked for as long as they are not free. -/
theorem Answers.more {starts others : Nat → Prop} {answer : Except Text (Option (Nat × Nat))}
    (h : Answers count ifacePrefix rules batches inventory starts answer)
    (hmore : ∀ first, others first → starts first ∨
      ¬ Free count ifacePrefix rules batches inventory first) :
    Answers count ifacePrefix rules batches inventory others answer := by
  cases answer with
  | error _ => exact h
  | ok found =>
    cases found with
    | some _ => exact h
    | none => exact fun first hfirst => (hmore first hfirst).elim (h first) id

/-- The scan misses no free range: by induction on the turns of the loop. -/
theorem searchFrom_answers (rules : OwrtRules) (inventory : RouterInventory) (hcount : 1 ≤ count)
    (hpref : isPppoePrefix ifacePrefix = true)
    (hvalid : ∀ b ∈ batches, b.record.seqFrom ≤ b.record.seqTo) (maxFrom : Int) (seqFrom : Nat)
    (hpos : 1 ≤ seqFrom) :
    Answers count ifacePrefix rules batches inventory
      (fun first => seqFrom ≤ first ∧ (first : Int) ≤ maxFrom)
      (searchFrom count ifacePrefix rules batches inventory maxFrom seqFrom) := by
  fun_induction searchFrom count ifacePrefix rules batches inventory maxFrom seqFrom with
  | case1 seqFrom hend =>
    intro first hfirst hfree
    have hlimit := hfree.limit
    rw [allocationLimit] at hend
    omega
  | case2 seqFrom hend hmoved ih =>
    have hle := le_movedTo batches seqFrom (seqFrom + count - 1)
    refine (ih (hpos.trans hle)).more fun first hfirst => ?_
    obtain hstay | ⟨b, hb, hover, hto⟩ := movedTo_cases batches seqFrom (seqFrom + count - 1)
    · exact absurd hstay hmoved
    by_cases hbehind : movedTo batches seqFrom (seqFrom + count - 1) ≤ first
    · exact .inl ⟨hbehind, hfirst.2⟩
    · exact .inr (not_free_of_overlaps hcount hb (hvalid b hb) hover hfirst.1 (by omega))
  | case3 seqFrom hend hmoved problem hfound =>
    rw [allocationLimit] at hend
    have hbad := collision_cases rules inventory hpref hpos (show seqFrom + count ≤ 100000 by omega)
    simp only [hfound, reduceCtorEq, false_and, exists_false, false_or] at hbad
    rw [Answers]
    have := hbad.2
    omega
  | case4 seqFrom hend hmoved collision hfound ih =>
    have hbounds := collision_bounds hfound
    refine (ih (by omega)).more fun first hfirst => ?_
    by_cases hbehind : collision + 1 ≤ first
    · exact .inl ⟨hbehind, hfirst.2⟩
    rw [allocationLimit] at hend
    have hthere := collision_cases rules inventory hpref hpos (show seqFrom + count ≤ 100000 by omega)
    simp only [hfound, reduceCtorEq, false_and, false_or, or_false, Except.ok.injEq, Option.some.injEq,
      exists_eq_left', exists_false] at hthere
    have hused : ¬ Unused ifacePrefix rules batches inventory collision := fun hunused =>
      hthere.elim hunused.sections hunused.tables
    exact .inr fun hfree => hfree.absurd hused (by omega) (by omega)
  | case5 seqFrom hend hmoved hfound =>
    rw [allocationLimit] at hend
    have hnone := collision_cases rules inventory hpref hpos (show seqFrom + count ≤ 100000 by omega)
    simp only [hfound, reduceCtorEq, false_and, or_false, Except.ok.injEq, exists_false, true_and] at hnone
    refine ⟨by dsimp only; omega, hpos, by omega, fun seq hfrom hto => ?_⟩
    have hfree := hnone seq hfrom hto
    exact ⟨fun b hb => not_mem_batch (not_not.mp hmoved) hb hfrom hto, hfree.1, hfree.2⟩

/-- The search is sound and complete: a range that it finds is free, and when it finds none there is
no free range of the length at all. -/
theorem search_is_complete (count : Nat) (hcount : 1 ≤ count) (ifacePrefix : Text)
    (hpref : isPppoePrefix ifacePrefix = true) (rules : OwrtRules) (nextSeq : Int)
    (batches : List StoredBatch)
    (hvalid : ∀ b ∈ batches, 1 ≤ b.record.seqFrom ∧ b.record.seqFrom ≤ b.record.seqTo)
    (inventory : RouterInventory) :
    Answers count ifacePrefix rules batches inventory (fun _ => True)
      (searchSequenceRange count ifacePrefix rules nextSeq batches inventory) := by
  have hanswers := fun maxFrom first => searchFrom_answers rules inventory hcount hpref
    (fun b hb => (hvalid b hb).2) maxFrom first
  have hupper := hanswers (allocationLimit rules) (max 1 nextSeq).toNat (by omega)
  rw [searchSequenceRange]
  cases hfirst : searchFrom count ifacePrefix rules batches inventory (allocationLimit rules)
      (max 1 nextSeq).toNat with
  | error problem =>
    rw [hfirst] at hupper
    exact hupper
  | ok found =>
    rw [hfirst] at hupper
    cases found with
    | some range => exact hupper
    | none =>
      -- Every start is behind the next sequence, or before it.
      have hlast : ∀ first, Free count ifacePrefix rules batches inventory first →
          (first : Int) ≤ allocationLimit rules := by
        intro first hfree
        have hlimit := hfree.limit
        rw [allocationLimit]
        omega
      change Answers count ifacePrefix rules batches inventory (fun _ => True)
        (if 1 < (max 1 nextSeq).toNat then _ else _)
      split_ifs with hstart
      · refine (hanswers _ 1 le_rfl).more fun first _ => ?_
        by_cases hfree : Free count ifacePrefix rules batches inventory first
        · refine .inl ⟨hfree.pos, ?_⟩
          by_contra hbehind
          exact hupper first ⟨by omega, hlast first hfree⟩ hfree
        · exact .inr hfree
      · intro first _ hfree
        exact hupper first ⟨by have := hfree.pos; omega, hlast first hfree⟩ hfree

theorem search_is_complete_default :
    (1 ≤ 2 ∧ isPppoePrefix (js "pd") = true) ∧
      Answers 2 (js "pd") DEFAULT_RULES [] ⟨true, [js "pd00001"], [10004], []⟩ (fun _ => True)
        (searchSequenceRange 2 (js "pd") DEFAULT_RULES 1 [] ⟨true, [js "pd00001"], [10004], []⟩) :=
  ⟨by decide, search_is_complete 2 (by decide) (js "pd") (by decide) DEFAULT_RULES 1 [] (by simp)
    ⟨true, [js "pd00001"], [10004], []⟩⟩

/-! ### The search of the checks -/

theorem uses_eq (hpref : isPppoePrefix ifacePrefix = true) {seq : Nat} (hpos : 1 ≤ seq)
    (hlast : seq ≤ 99999) (hbase : 1 ≤ rules.numeric .tableBase)
    (htable : rules.numeric .tableBase + seq ≤ 2147483647) :
    inventory.uses ifacePrefix rules seq =
      (decide (ifacePrefix ++ padZero 5 (decimal seq) ∈ inventory.sections) ||
        decide (rules.numeric .tableBase + seq ∈ inventory.tables)) := by
  rw [RouterInventory.uses, pppoeSectionName_total hpref hpos hlast, pppoeTableId_ofInt,
    if_neg (by omega)]
  rfl

theorem collision_eq_find (hpref : isPppoePrefix ifacePrefix = true)
    (hbase : 1 ≤ rules.numeric .tableBase) {seq left : Nat} (hpos : 1 ≤ seq)
    (hlast : seq + left ≤ 100000)
    (htable : rules.numeric .tableBase + (seq + left) ≤ 2147483648) :
    inventory.collision ifacePrefix rules seq left =
      .ok ((List.range' seq left).find? (inventory.uses ifacePrefix rules)) := by
  induction left generalizing seq with
  | zero => rfl
  | succ left ih =>
    rw [List.range'_succ, List.find?_cons, uses_eq hpref hpos (by omega) hbase (by omega),
      RouterInventory.collision, pppoeSectionName_total hpref hpos (by omega), pppoeTableId_ofInt,
      if_neg (by omega)]
    have hrest := ih (show 1 ≤ seq + 1 by omega) (by omega) (by push_cast at htable ⊢; omega)
    by_cases hsection : ifacePrefix ++ padZero 5 (decimal seq) ∈ inventory.sections
    · simp [hsection, bind, Except.bind]
    by_cases htable : rules.numeric .tableBase + seq ∈ inventory.tables
    · simp [hsection, htable, bind, Except.bind]
    · simpa [hsection, htable, bind, Except.bind] using hrest

/-- With fuel for every start that is left the scan is the loop. -/
theorem searchFrom_eq_scan (hpref : isPppoePrefix ifacePrefix = true)
    (hbase : 1 ≤ rules.numeric .tableBase) (hcatch : rules.numeric .catchAllTable ≤ 2147483648)
    (maxFrom : Int) (seqFrom fuel : Nat) (hpos : 1 ≤ seqFrom)
    (hfuel : (maxFrom + 1 - seqFrom).toNat ≤ fuel) :
    searchFrom count ifacePrefix rules batches inventory maxFrom seqFrom =
      .ok (scanSequenceRange count ifacePrefix rules batches inventory maxFrom fuel seqFrom) := by
  induction fuel generalizing seqFrom with
  | zero => rw [searchFrom, dif_pos (by omega), scanSequenceRange]
  | succ fuel ih =>
    rw [searchFrom, scanSequenceRange]
    by_cases hend : maxFrom < seqFrom ∨ allocationLimit rules < (seqFrom : Int) + count - 1
    · rw [dif_pos hend, if_pos hend]
    rw [dif_neg hend, if_neg hend]
    dsimp only
    have hle := le_movedTo batches seqFrom (seqFrom + count - 1)
    by_cases hmoved : movedTo batches seqFrom (seqFrom + count - 1) ≠ seqFrom
    · rw [dif_pos hmoved, if_pos hmoved]
      exact ih _ (hpos.trans hle) (by omega)
    rw [dif_neg hmoved, if_neg hmoved, Nat.sub_add_cancel (by omega), Nat.add_sub_cancel_left]
    have hlimit := hend
    rw [allocationLimit] at hlimit
    have hfind : inventory.collision ifacePrefix rules seqFrom count = .ok _ :=
      collision_eq_find hpref hbase hpos (by omega) (by omega)
    split
    · rename_i hfound
      rw [hfind] at hfound
      cases hfound
    · rename_i collision hfound
      have hbounds := collision_bounds hfound
      rw [hfind] at hfound
      rw [Except.ok.inj hfound]
      exact ih _ (by omega) (by omega)
    · rename_i hfound
      rw [hfind] at hfound
      rw [Except.ok.inj hfound]

/-- Under tables in the range of table numbers the search is the one of the checks. -/
theorem searchSequenceRange_eq_find (hpref : isPppoePrefix ifacePrefix = true)
    (hbase : 1 ≤ rules.numeric .tableBase) (hcatch : rules.numeric .catchAllTable ≤ 2147483648)
    (nextSeq : Int) :
    searchSequenceRange count ifacePrefix rules nextSeq batches inventory =
      .ok (findSequenceRange count ifacePrefix rules nextSeq batches inventory) := by
  have hscan : ∀ maxFrom first, 1 ≤ first →
      searchFrom count ifacePrefix rules batches inventory maxFrom first =
        .ok (scanFrom count ifacePrefix rules batches inventory first maxFrom) := by
    intro maxFrom first hpos
    rw [scanFrom, max_eq_right hpos]
    exact searchFrom_eq_scan hpref hbase hcatch maxFrom first _ hpos le_rfl
  have hstart : 1 ≤ (max 1 nextSeq).toNat := by omega
  simp only [searchSequenceRange, findSequenceRange, hscan _ _ hstart, hscan _ 1 le_rfl, bind,
    Except.bind]
  cases scanFrom count ifacePrefix rules batches inventory (max 1 nextSeq).toNat
    (allocationLimit rules) with
  | some range => rfl
  | none =>
    dsimp only
    split_ifs <;> rfl

end BoredManager.OpenWrt.Batches
