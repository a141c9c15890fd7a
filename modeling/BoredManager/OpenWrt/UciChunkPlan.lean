import BoredManager.OpenWrt.UciChunks

/-! The chunks of a PPPoE batch say what the batch says; after each of them every VLAN device that is
in use has been defined once. -/
namespace BoredManager.OpenWrt.Chunks
open BoredManager.Js BoredManager.Machine.Emission

variable {options : PppoeBuildOptions} {plan : PppoeSectionPlan} {plans : List PppoeSectionPlan}
  {parts : List (List PppoeSectionPlan)} {carrier : Text} {index : Nat} {first : Int}

/-! ### The loops as emissions -/

/-- The devices of the plan's VLANs have names of a length that the kernel takes. -/
def Fits (carrier : Text) (plan : PppoeSectionPlan) : Prop :=
  ∀ vlan, plan.vlan = some vlan → (vlanDevice carrier vlan).length ≤ 15

def linesAfter (carrier : Text) (seen : List Int) (plans : List PppoeSectionPlan) : List Text :=
  emit PppoeSectionPlan.vlan (vlanDefinition carrier) PppoeSectionPlan.lines seen plans

theorem vlanLines_of_fits {vlan : Int} (h : Fits carrier plan) (hvlan : plan.vlan = some vlan) :
    vlanLines carrier vlan = .ok (vlanDefinition carrier vlan) := by
  rw [vlanLines]
  exact if_neg (Nat.not_lt.mpr (h vlan hvlan))

theorem linesFrom_eq (h : ∀ plan ∈ plans, Fits carrier plan) (seen : List Int) :
    linesFrom carrier seen plans = .ok (linesAfter carrier seen plans) := by
  induction plans generalizing seen with
  | nil => rfl
  | cons plan plans ih =>
    have hrest := ih fun p hp => h p (List.mem_cons_of_mem plan hp)
    rw [linesFrom, linesAfter, emit]
    cases hvlan : plan.vlan with
    | none => rw [hrest]; rfl
    | some vlan =>
      by_cases hmem : vlan ∈ seen
      · simp only [if_pos hmem, hrest]
        rfl
      · simp only [if_neg hmem, hrest, vlanLines_of_fits (h plan List.mem_cons_self) hvlan]
        rfl

theorem chunkLines_eq (h : ∀ plan ∈ plans, Fits carrier plan) (seen : List Int) :
    chunkLines carrier seen plans =
      .ok (linesAfter carrier seen plans, seenAfter PppoeSectionPlan.vlan seen plans) := by
  induction plans generalizing seen with
  | nil => rfl
  | cons plan plans ih =>
    have hrest := ih fun p hp => h p (List.mem_cons_of_mem plan hp)
    rw [chunkLines, linesAfter, emit, seenAfter]
    cases hvlan : plan.vlan with
    | none => rw [hrest]; rfl
    | some vlan =>
      by_cases hmem : vlan ∈ seen
      · simp only [if_pos hmem, hrest]
        rfl
      · simp only [if_neg hmem, hrest, vlanLines_of_fits (h plan List.mem_cons_self) hvlan]
        rfl

/-- What a chunk says of its part of the sections. -/
structure OfPart (part : List PppoeSectionPlan) (chunk : PppoeUciChunk) : Prop where
  names : chunk.sections = part.map PppoeSectionPlan.section_
  seqFrom : chunk.seqFrom = (part.head?.map PppoeSectionPlan.seq).getD 0
  seqTo : chunk.seqTo = (part.getLast?.map PppoeSectionPlan.seq).getD 0

theorem planChunksFrom_eq (h : ∀ part ∈ parts, ∀ plan ∈ part, Fits carrier plan) (total index : Nat)
    (seen : List Int) :
    ∃ chunks, planChunksFrom carrier total index seen parts = .ok chunks ∧
      List.Forall₂ OfPart parts chunks ∧ chunks.map PppoeUciChunk.lines =
        emitEach PppoeSectionPlan.vlan (vlanDefinition carrier) PppoeSectionPlan.lines seen parts := by
  induction parts generalizing index seen with
  | nil => exact ⟨[], rfl, .nil, rfl⟩
  | cons part parts ih =>
    obtain ⟨rest, hrest, hparts, hlines⟩ := ih (fun p hp => h p (List.mem_cons_of_mem part hp))
      (index + 1) (seenAfter PppoeSectionPlan.vlan seen part)
    have hpart := chunkLines_eq (h part List.mem_cons_self) seen
    let chunk : PppoeUciChunk := {
      index := index + 1, total, lines := linesAfter carrier seen part
      seqFrom := (part.head?.map PppoeSectionPlan.seq).getD 0
      seqTo := (part.getLast?.map PppoeSectionPlan.seq).getD 0
      sections := part.map PppoeSectionPlan.section_ }
    refine ⟨chunk :: rest, ?_, .cons ⟨rfl, rfl, rfl⟩ hparts, ?_⟩
    · rw [planChunksFrom, hpart]
      exact bind_eq_ok.mpr ⟨_, rfl, bind_eq_ok.mpr ⟨rest, hrest, rfl⟩⟩
    · rw [List.map_cons, hlines, emitEach]
      rfl

theorem names_of_parts {chunks : List PppoeUciChunk} (h : List.Forall₂ OfPart parts chunks) :
    chunks.flatMap PppoeUciChunk.sections = parts.flatten.map PppoeSectionPlan.section_ := by
  induction h with
  | nil => rfl
  | cons hpart _ ih => rw [List.flatMap_cons, ih, hpart.names, List.flatten_cons, List.map_append]

/-! ### Sequences -/

/-- Plans that are numbered from a first sequence. -/
def Numbered : Int → List PppoeSectionPlan → Prop
  | _, [] => True
  | first, plan :: plans => plan.seq = first ∧ Numbered (first + 1) plans

theorem numbered_append {first : Int} {a b : List PppoeSectionPlan} :
    Numbered first (a ++ b) ↔ Numbered first a ∧ Numbered (first + a.length) b := by
  induction a generalizing first with
  | nil => simp [Numbered]
  | cons plan a ih =>
    have hshift : first + 1 + (a.length : Int) = first + (plan :: a).length := by
      rw [List.length_cons]
      push_cast
      omega
    rw [List.cons_append, Numbered, Numbered, ih, hshift, and_assoc]

theorem Numbered.last (h : Numbered first plans) (hne : plans ≠ []) :
    (plans.getLast?.map PppoeSectionPlan.seq).getD 0 = first + plans.length - 1 := by
  induction plans generalizing first with
  | nil => exact absurd rfl hne
  | cons plan plans ih =>
    obtain ⟨hseq, hrest⟩ := h
    cases plans with
    | nil => simpa using hseq
    | cons plan' plans =>
      have hlast := ih hrest (List.cons_ne_nil _ _)
      rw [List.getLast?_cons_cons, hlast, List.length_cons, List.length_cons, List.length_cons]
      push_cast
      omega

theorem consecutive {chunks : List PppoeUciChunk} (h : List.Forall₂ OfPart parts chunks)
    (hne : ∀ part ∈ parts, part ≠ []) (hseq : Numbered first parts.flatten) :
    Consecutive first chunks := by
  induction h generalizing first with
  | nil => trivial
  | @cons part chunk parts chunks hpart _ ih =>
    obtain ⟨hthis, hrest⟩ := numbered_append.mp hseq
    have hnonempty := hne part List.mem_cons_self
    have hlength : chunk.sections.length = part.length := by rw [hpart.names, List.length_map]
    refine ⟨?_, ?_, ?_, ?_⟩
    · rw [hpart.names]
      simpa using hnonempty
    · rw [hpart.seqFrom]
      cases part with
      | nil => exact absurd rfl hnonempty
      | cons plan part => exact hthis.1
    · rw [hpart.seqTo, hthis.last hnonempty, hlength]
    · rw [hlength]
      exact ih (fun p hp => hne p (List.mem_cons_of_mem part hp)) hrest

theorem Numbered.length_le (h : Numbered first plans) (hpos : 1 ≤ first)
    (hmax : ∀ plan ∈ plans, plan.seq ≤ 99999) : plans.length ≤ 99999 := by
  cases plans with
  | nil => exact Nat.zero_le _
  | cons plan plans =>
    have hlast := h.last (List.cons_ne_nil _ _)
    obtain ⟨last, hmem⟩ : ∃ last, (plan :: plans).getLast? = some last :=
      ⟨_, List.getLast?_eq_some_getLast (List.cons_ne_nil _ _)⟩
    have hle := hmax last (List.mem_of_getLast? hmem)
    rw [hmem] at hlast
    have hseq : last.seq = first + (plan :: plans).length - 1 := hlast
    omega

/-! ### The sections of a batch -/

/-- What an accepted section has. -/
structure Planned (options : PppoeBuildOptions) (plan : PppoeSectionPlan) : Prop where
  pref : isPppoePrefix options.ifacePrefix = true
  seq_range : 1 ≤ plan.seq ∧ plan.seq ≤ 99999
  name : plan.section_ = options.ifacePrefix ++ padZero 5 (decimal plan.seq.toNat)
  device : plan.device = deviceOf options.carrier plan.vlan
  short : plan.device.length ≤ 15
  vlan_range : ∀ vlan, plan.vlan = some vlan → 1 ≤ vlan ∧ vlan ≤ 4094
  lines : ∃ user pass table, plan.lines =
    (interfaceSettings plan.section_ plan.device user pass table).map UciSetting.line

theorem Planned.fits (h : Planned options plan) : Fits options.carrier plan := by
  intro vlan hvlan
  have hshort := h.short
  rwa [h.device, hvlan] at hshort

theorem addIndex_eq {v : Number} {index : Nat} {n : Int} (h : (addIndex v index).integer? = some n) :
    v = .ofInt (n - index) := by
  have hsum := Number.integer?_eq_some.mp h
  cases v with
  | fin q =>
    have hq : q + index = n := by simpa [addIndex, Number.ofInt] using hsum
    rw [Number.ofInt, Number.fin.injEq]
    push_cast
    linarith
  | inf b => cases hsum
  | nan => cases hsum

theorem validVlan_range {value : Option Number} {vlan : Int} (h : validVlan value = .ok (some vlan)) :
    1 ≤ vlan ∧ vlan ≤ 4094 := by
  cases value with
  | none => cases h
  | some v =>
    obtain ⟨n, -, h⟩ := bind_eq_ok.mp h
    obtain ⟨hrange, h⟩ := ite_error_eq_ok.mp h
    cases h
    omega

theorem Numbered.count_le (h : Numbered first plans) (hall : ∀ plan ∈ plans, Planned options plan) :
    plans.length ≤ 99999 := by
  cases plans with
  | nil => exact Nat.zero_le _
  | cons plan plans =>
    have hpos := (hall plan List.mem_cons_self).seq_range.1
    rw [h.1] at hpos
    exact h.length_le hpos fun p hp => (hall p hp).seq_range.2

theorem buildPppoeSection_planned {batchVlan : Option Int} {row : PppoeInputRow}
    (hpref : isPppoePrefix options.ifacePrefix = true)
    (h : buildPppoeSection options batchVlan row index = .ok plan) :
    Planned options plan ∧ options.seqFrom = .ofInt (plan.seq - index) := by
  obtain ⟨name, hname, h⟩ := bind_eq_ok.mp h
  obtain ⟨table, -, h⟩ := bind_eq_ok.mp h
  obtain ⟨vlan, hvlan, h⟩ := bind_eq_ok.mp h
  obtain ⟨hshort, h⟩ := ite_error_eq_ok.mp h
  cases h
  obtain ⟨-, hname⟩ := ite_error_eq_ok.mp hname
  obtain ⟨padded, hpadded, hname⟩ := bind_eq_ok.mp hname
  obtain ⟨-, hname⟩ := ite_error_eq_ok.mp hname
  cases hname
  obtain ⟨n, hn, hpadded⟩ := bind_eq_ok.mp hpadded
  obtain ⟨hrange, hpadded⟩ := ite_error_eq_ok.mp hpadded
  cases hpadded
  have hseq := wholeNumber_ok hn
  have hpos : 1 ≤ n ∧ n ≤ 99999 := by
    rw [maxPppoeSequence] at hrange
    omega
  have htext : decimalInt n = decimal n.toNat := by
    rw [decimalInt, if_neg (by omega)]
    congr 1
    omega
  refine ⟨⟨hpref, ?_, ?_, rfl, Nat.not_lt.mp hshort, ?_, ⟨_, _, _, rfl⟩⟩, ?_⟩
  · simpa [hseq] using hpos
  · simp [hseq, htext]
  · intro v hv
    cases hv
    exact validVlan_range hvlan
  · rw [hseq]
    exact addIndex_eq hseq

theorem buildSectionsFrom_planned {batchVlan : Option Int} {rows : List PppoeInputRow}
    (hpref : isPppoePrefix options.ifacePrefix = true)
    (h : buildSectionsFrom options batchVlan index rows = .ok plans) :
    (∀ plan ∈ plans, Planned options plan) ∧ (plans ≠ [] → ∃ first : Int, options.seqFrom = .ofInt first) ∧
      ∀ first : Int, (plans ≠ [] → options.seqFrom = .ofInt first) → Numbered (first + index) plans := by
  induction rows generalizing index plans with
  | nil =>
    cases h
    exact ⟨fun plan hplan => (by cases hplan), fun hne => absurd rfl hne, fun _ _ => trivial⟩
  | cons row rows ih =>
    obtain ⟨plan, hplan, h⟩ := bind_eq_ok.mp h
    obtain ⟨rest, hrest, h⟩ := bind_eq_ok.mp h
    cases h
    obtain ⟨hplanned, hfrom⟩ := buildPppoeSection_planned hpref hplan
    obtain ⟨hall, -, hnumbered⟩ := ih hrest
    refine ⟨fun p hp => (List.mem_cons.mp hp).elim (fun heq => heq ▸ hplanned) (hall p),
      fun _ => ⟨_, hfrom⟩, ?_⟩
    intro first hfirst
    have hfirst := hfirst (List.cons_ne_nil _ _)
    have hseq : plan.seq - index = first := by
      have heq := hfrom.symm.trans hfirst
      rw [Number.ofInt, Number.ofInt, Number.fin.injEq] at heq
      exact_mod_cast heq
    refine ⟨by omega, ?_⟩
    have hnext := hnumbered first fun _ => hfirst
    push_cast at hnext
    rwa [add_assoc]

/-! ### Names and lines -/

/-- No interface is called like a VLAN's section: five digits stand where that has letters or ends. -/
theorem section_ne_vlanSection (h : Planned options plan) {vlan : Int} (hvlan : 1 ≤ vlan ∧ vlan ≤ 4094) :
    plan.section_ ≠ vlanSectionName vlan := by
  have htext : decimalInt vlan = decimal vlan.natAbs := by rw [decimalInt, if_neg (by omega)]
  have hshort : (decimal vlan.natAbs).length ≤ 4 :=
    Number.length_radixText (by norm_num) (lt_of_le_of_lt (by omega : vlan.natAbs ≤ 4094) (by norm_num))
  have hdigits : ∀ u ∈ padZero 5 (decimal plan.seq.toNat), isDigit u = true := by
    intro u hu
    obtain hu | hu := List.mem_append.mp hu
    · rw [List.eq_of_mem_replicate hu]
      rfl
    · exact isDigit_of_mem_decimal hu
  have hlong : 5 ≤ (padZero 5 (decimal plan.seq.toNat)).length := by
    rw [padZero, List.length_append, List.length_replicate]
    omega
  have hbmv : vlanSectionName vlan = 98 :: 109 :: 118 :: decimal vlan.natAbs := by
    rw [vlanSectionName, htext]
    rfl
  rw [h.name, hbmv]
  cases hpadded : padZero 5 (decimal plan.seq.toNat) with
  | nil => rw [hpadded] at hlong; cases hlong
  | cons d digits =>
    rw [hpadded] at hdigits hlong
    have hd := hdigits d List.mem_cons_self
    intro heq
    have hlength := congrArg List.length heq
    simp only [List.length_append, List.length_cons] at hlength hlong
    cases hpref : options.ifacePrefix with
    | nil =>
      have hname := h.pref
      rw [hpref] at hname
      cases hname
    | cons a rest =>
      rw [hpref] at heq hlength
      cases rest with
      | nil =>
        cases heq
        cases hd
      | cons b rest =>
        cases rest with
        | nil =>
          cases heq
          cases hd
        | cons c rest =>
          simp only [List.length_cons] at hlength
          omega

theorem alnum_section (h : Planned options plan) : ∀ u ∈ plan.section_, isAlnum u = true := by
  intro u hu
  rw [h.name] at hu
  obtain hu | hu := List.mem_append.mp hu
  · exact (isAlnum_of_isPppoePrefix h.pref).2 u hu
  · exact isAlnum_of_mem_padZero hu

theorem alnum_vlanSection {vlan : Int} (h : 1 ≤ vlan) : ∀ u ∈ vlanSectionName vlan, isAlnum u = true := by
  intro u hu
  rw [vlanSectionName, decimalInt, if_neg (by omega)] at hu
  obtain hu | hu := List.mem_append.mp hu
  · exact (by decide : ∀ u ∈ js "bmv", isAlnum u = true) u hu
  · simp [isAlnum, isDigit_of_mem_decimal hu]

theorem append_stop_inj {a b r t : Text} {c d : Nat} (ha : ∀ u ∈ a, isAlnum u = true)
    (hb : ∀ u ∈ b, isAlnum u = true) (hc : isAlnum c = false) (hd : isAlnum d = false)
    (h : a ++ c :: r = b ++ d :: t) : a = b ∧ c = d := by
  have htake : ∀ {a r : Text} {c : Nat}, (∀ u ∈ a, isAlnum u = true) → isAlnum c = false →
      (a ++ c :: r).takeWhile isAlnum = a := by
    intro a r c ha hc
    rw [List.takeWhile_append_of_pos ha, List.takeWhile_cons, hc]
    exact List.append_nil a
  have hab : a = b := by
    rw [← htake (r := r) ha hc, ← htake (r := t) hb hd, h]
  rw [hab] at h
  exact ⟨hab, (List.cons.inj (List.append_cancel_left h)).1⟩

/-- A line tells its section, and whether it is the one that makes it. -/
theorem line_inj {s t : UciSetting} (hs : ∀ u ∈ s.section_, isAlnum u = true)
    (ht : ∀ u ∈ t.section_, isAlnum u = true) (h : s.line = t.line) :
    s.section_ = t.section_ ∧ (s.option = none ↔ t.option = none) := by
  have hshape : ∀ s : UciSetting, ∃ rest, s.line =
      js "set network." ++ (s.section_ ++ (if s.option = none then 61 else 46) :: rest) := by
    intro s
    rw [UciSetting.line]
    cases s.option with
    | none => exact ⟨s.value, by simp [js, units]⟩
    | some o => exact ⟨o ++ js "=" ++ uciQuote s.value, by simp [js, units]⟩
  obtain ⟨r, hr⟩ := hshape s
  obtain ⟨r', hr'⟩ := hshape t
  rw [hr, hr'] at h
  have hstop : ∀ o : Option Text, isAlnum (if o = none then 61 else 46) = false := by
    intro o
    split <;> rfl
  obtain ⟨hsection, hsign⟩ := append_stop_inj hs ht (hstop _) (hstop _) (List.append_cancel_left h)
  refine ⟨hsection, ?_⟩
  split_ifs at hsign with ho ho' ho' <;> simp_all

theorem vlanTypeLine_inj {vlan vlan' : Int} (h : 1 ≤ vlan) (h' : 1 ≤ vlan')
    (heq : vlanTypeLine vlan = vlanTypeLine vlan') : vlan = vlan' := by
  have hname := (line_inj (alnum_vlanSection h) (alnum_vlanSection h') heq).1
  have hdigits : decimal vlan.natAbs = decimal vlan'.natAbs := by
    have hcut := List.append_cancel_left (show js "bmv" ++ _ = js "bmv" ++ _ from hname)
    rwa [decimalInt, decimalInt, if_neg (by omega), if_neg (by omega)] at hcut
  have habs := Number.radixText_injective (r := 10) (by norm_num) (by norm_num) hdigits
  omega

/-- A definition makes its own section once, and no other. -/
theorem count_vlanDefinition {vlan vlan' : Int} (h : 1 ≤ vlan) (h' : 1 ≤ vlan') (carrier : Text) :
    (vlanDefinition carrier vlan).count (vlanTypeLine vlan') = if vlan = vlan' then 1 else 0 := by
  have hsplit : vlanDefinition carrier vlan =
      vlanTypeLine vlan :: (vlanSettings carrier vlan).tail.map UciSetting.line := rfl
  have htail : vlanTypeLine vlan' ∉ (vlanSettings carrier vlan).tail.map UciSetting.line := by
    intro hmem
    obtain ⟨s, hs, heq⟩ := List.mem_map.mp hmem
    have hsection : s.section_ = vlanSectionName vlan ∧ s.option ≠ none := by
      simp only [vlanSettings, List.tail_cons, List.mem_cons, List.not_mem_nil, or_false] at hs
      rcases hs with rfl | rfl | rfl | rfl <;> exact ⟨rfl, Option.some_ne_none _⟩
    have halnum := alnum_vlanSection h
    rw [← hsection.1] at halnum
    exact hsection.2 ((line_inj halnum (alnum_vlanSection h') heq).2.mpr rfl)
  rw [hsplit, List.count_cons, List.count_eq_zero.mpr htail, Nat.zero_add]
  by_cases heq : vlan = vlan'
  · rw [heq, if_pos rfl, if_pos (beq_self_eq_true _)]
  · rw [if_neg heq, if_neg]
    intro hline
    exact heq (vlanTypeLine_inj h h' (eq_of_beq hline))

theorem count_lines (h : Planned options plan) {vlan : Int} (hvlan : 1 ≤ vlan ∧ vlan ≤ 4094) :
    plan.lines.count (vlanTypeLine vlan) = 0 := by
  obtain ⟨user, pass, table, hlines⟩ := h.lines
  rw [hlines, List.count_eq_zero]
  intro hmem
  obtain ⟨s, hs, heq⟩ := List.mem_map.mp hmem
  have hsection : s.section_ = plan.section_ := by
    simp only [interfaceSettings, List.mem_cons, List.not_mem_nil, or_false] at hs
    rcases hs with rfl | rfl | rfl | rfl | rfl | rfl | rfl | rfl | rfl | rfl <;> rfl
  have halnum := alnum_section h
  rw [← hsection] at halnum
  have hinj := (line_inj halnum (alnum_vlanSection hvlan.1) heq).1
  exact section_ne_vlanSection h hvlan (hsection.symm.trans hinj)

/-- Lines that were written from the start define every VLAN they use, once. -/
theorem definesOnce (h : ∀ plan ∈ plans, Planned options plan) :
    DefinesOnce options.carrier plans (linesAfter options.carrier [] plans) := by
  intro plan hplan vlan hvlan
  have hrange := (h plan hplan).vlan_range vlan hvlan
  refine ⟨?_, define_infix_emit hplan hvlan (List.not_mem_nil), ?_⟩
  · rw [(h plan hplan).device, hvlan]
    rfl
  · exact count_emit_of_needed
      (fun p hp vlan' hvlan' =>
        count_vlanDefinition ((h p hp).vlan_range vlan' hvlan').1 hrange.1 options.carrier)
      (fun p hp => count_lines (h p hp) hrange) List.not_mem_nil ⟨plan, hplan, hvlan⟩

/-- Chunking a batch changes nothing, whatever the chunk size, and is safe to cut short. -/
theorem planPppoeChunks_refines {rows : List PppoeInputRow} {options : PppoeBuildOptions}
    {sections : List PppoeSectionPlan} (h : buildPppoeSections rows options = .ok sections)
    (requested : Number) :
    ∃ chunks lines, planPppoeChunks rows options requested = .ok chunks ∧
      buildPppoeUciLines rows options = .ok lines ∧ Refines options sections lines chunks := by
  have hsections := h
  rw [buildPppoeSections] at hsections
  obtain ⟨hpref, hsections⟩ := ite_error_eq_ok.mp hsections
  obtain ⟨-, hsections⟩ := ite_error_eq_ok.mp hsections
  obtain ⟨batchVlan, -, hsections⟩ := bind_eq_ok.mp hsections
  obtain ⟨hplanned, hfirst, hnumbered⟩ := buildSectionsFrom_planned (by simpa using hpref) hsections
  obtain ⟨first, hfirst⟩ : ∃ first : Int, sections ≠ [] → options.seqFrom = .ofInt first := by
    by_cases hne : sections = []
    · exact ⟨0, fun h => absurd hne h⟩
    · obtain ⟨first, hfirst⟩ := hfirst hne
      exact ⟨first, fun _ => hfirst⟩
  have hseq : Numbered first sections := by simpa using hnumbered first hfirst
  have hcount : sections.length ≤ 99999 := hseq.count_le hplanned
  have hfits : ∀ plan ∈ sections, Fits options.carrier plan := fun plan hplan => (hplanned plan hplan).fits
  -- the parts that the sections are cut into
  let size := OpenWrt.effectivePppoeChunkSize sections.length (wholeSize sections.length requested)
  let parts := OpenWrt.chunkValues sections size
  have hparts : chunkValues sections (effectivePppoeChunkSize sections.length requested) = parts :=
    chunkValues_eq hcount requested
  have hflatten : parts.flatten = sections := flatten_chunkValues sections size
  have hfits' : ∀ part ∈ parts, ∀ plan ∈ part, Fits options.carrier plan :=
    fun part hpart plan hplan => hfits plan (hflatten ▸ List.mem_flatten_of_mem hpart hplan)
  obtain ⟨chunks, hchunks, hof, hlines⟩ :=
    planChunksFrom_eq hfits' parts.length 0 []
  have hwritten : ∀ n, (chunks.take n).flatMap PppoeUciChunk.lines =
      linesAfter options.carrier [] (parts.take n).flatten := fun n => by
    rw [List.flatMap, List.map_take, hlines, emitEach_take, flatten_emitEach, linesAfter]
  have hsize : sections.length ≤ 100 * chunkSizeOf size := by
    have hbound : sections.length ≤ 100 * size := by
      have hle : (sections.length + 99) / 100 ≤ size := (le_max_right _ _).trans (le_max_right _ _)
      omega
    have hle := toNat_le_chunkSizeOf (size : Int)
    omega
  refine ⟨chunks, linesAfter options.carrier [] sections, ?_, ?_, ?_, ?_, ?_, ?_, fun n => ?_⟩
  · rw [planPppoeChunks]
    refine bind_eq_ok.mpr ⟨sections, h, ?_⟩
    rw [hparts]
    exact hchunks
  · rw [buildPppoeUciLines]
    exact bind_eq_ok.mpr ⟨sections, h, linesFrom_eq hfits []⟩
  · rw [List.flatMap, hlines, flatten_emitEach, hflatten, linesAfter]
  · rw [names_of_parts hof, hflatten]
  · refine ⟨first, hfirst, consecutive hof (chunkFrom_ne_nil ?_) (hflatten.symm ▸ hseq)⟩
    rw [chunkSizeOf]
    omega
  · rw [← hof.length_eq]
    exact length_chunkFrom_le hsize
  · refine ⟨(parts.take n).flatten, ⟨(parts.drop n).flatten, ?_⟩, names_of_parts (List.forall₂_take n hof), ?_⟩
    · rw [← List.flatten_append, List.take_append_drop, hflatten]
    · rw [hwritten]
      refine definesOnce fun plan hplan => hplanned plan ?_
      obtain ⟨part, hpart, hmem⟩ := List.mem_flatten.mp hplan
      exact hflatten ▸ List.mem_flatten_of_mem (List.mem_of_mem_take hpart) hmem

/-- Two accounts of one VLAN, and one of another. -/
def threeAccounts : List PppoeInputRow :=
  [⟨js "a", js "p", none⟩, ⟨js "b", js "p", some 30⟩, ⟨js "c", js "p", none⟩]

def onVlan : PppoeBuildOptions := ⟨js "pd", js "eth1", .fin 1, .fin 10000, some (.fin 7)⟩

theorem planPppoeChunks_refines_three_accounts :
    ∃ sections chunks lines, buildPppoeSections threeAccounts onVlan = .ok sections ∧
      planPppoeChunks threeAccounts onVlan (.fin (-1 / 2)) = .ok chunks ∧
        buildPppoeUciLines threeAccounts onVlan = .ok lines ∧ Refines onVlan sections lines chunks := by
  have accepted : (buildPppoeSections threeAccounts onVlan).isOk = true := by decide +kernel
  cases h : buildPppoeSections threeAccounts onVlan with
  | error e => rw [h] at accepted; cases accepted
  | ok sections =>
    obtain ⟨chunks, lines, hchunks, hlines, hrefines⟩ := planPppoeChunks_refines h (.fin (-1 / 2))
    exact ⟨sections, chunks, lines, rfl, hchunks, hlines, hrefines⟩

end BoredManager.OpenWrt.Chunks
