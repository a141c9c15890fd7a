import BoredManager.Fleet.Actions
import BoredManager.Js.Digits
import BoredManager.Js.Radix

/-! When an action that succeeds ran all of its steps, for every report that stops anywhere. -/
namespace BoredManager.Fleet.Actions
open BoredManager.Js BoredManager.Fleet.Jobs BoredManager.Fleet.Sweeps BoredManager.Fleet.Targets

variable {ls before rest : List Text} {line text : Text} {c : CurrentStep} {steps : List Step}
  {runs : List Ran} {entries : List (Step × Ran)} {n : Nat}

/-! ### What the marker lines of a text announce -/

def isPlain (line : Text) : Bool := line ≠ STEP_FRAME.step && line ≠ STEP_FRAME.say

/-- The name and the exit code that a frame has, read from its lines before its output. -/
def frameHead (c : CurrentStep) (ls : List Text) : Text × Int :=
  let c := (ls.takeWhile isPlain).foldl readStep c
  (c.name, c.rc)

def fresh : CurrentStep := ⟨[], 0, []⟩

/-- What the marker lines announce, one after another. -/
def heads : List Text → List (Text × Int)
  | [] => []
  | line :: ls => if line = STEP_FRAME.step then frameHead fresh ls :: heads ls else heads ls

/-- A line of a frame that is neither its name nor its exit code. -/
def isIdle (line : Text) : Bool := !(js "name=").isPrefixOf line && !(js "rc=").isPrefixOf line

def headOf (r : StepResult) : Text × Int := (r.name, r.rc)

theorem frameHead_say (c : CurrentStep) (ls : List Text) :
    frameHead c (STEP_FRAME.say :: ls) = (c.name, c.rc) := by
  have hsay : isPlain STEP_FRAME.say = false := by decide
  simp [frameHead, hsay]

theorem frameHead_step (c : CurrentStep) (ls : List Text) :
    frameHead c (STEP_FRAME.step :: ls) = (c.name, c.rc) := by
  have hstep : isPlain STEP_FRAME.step = false := by decide
  simp [frameHead, hstep]

theorem frameHead_plain (hline : isPlain line = true) (c : CurrentStep) (ls : List Text) :
    frameHead c (line :: ls) = frameHead (readStep c line) ls := by
  simp [frameHead, hline]

theorem readStep_idle (h : isIdle line = true) (c : CurrentStep) : readStep c line = c := by
  simp only [isIdle, Bool.and_eq_true, Bool.not_eq_true'] at h
  simp [readStep, h.1, h.2]

/-- Behind its output a frame changes only what it says. -/
theorem flush_said (ls : List Text) (out : List StepResult) (c : CurrentStep) :
    ((ls.foldl readStepLine ⟨out, some c, true⟩).flush).map headOf =
        out.map headOf ++ (c.name, c.rc) :: heads ls ∧
      ((ls.foldl readStepLine ⟨out, some c, false⟩).flush).map headOf =
        out.map headOf ++ frameHead c ls :: heads ls := by
  induction ls generalizing out c with
  | nil => exact ⟨by simp [Steps.flush, headOf, heads], by simp [Steps.flush, headOf, heads, frameHead]⟩
  | cons line ls ih =>
    simp only [List.foldl_cons, readStepLine, heads]
    by_cases hstep : line = STEP_FRAME.step
    · subst hstep
      rw [if_pos rfl, if_pos rfl, if_pos rfl, frameHead_step]
      have hnext := (ih (Steps.flush ⟨out, some c, true⟩) fresh).2
      have hnext' := (ih (Steps.flush ⟨out, some c, false⟩) fresh).2
      exact ⟨hnext.trans (by simp [Steps.flush, headOf]), hnext'.trans (by simp [Steps.flush, headOf])⟩
    · rw [if_neg hstep, if_neg hstep, if_neg hstep]
      by_cases hsay : line = STEP_FRAME.say
      · subst hsay
        rw [frameHead_say]
        exact ⟨by simpa using (ih out c).1, by simpa using (ih out c).1⟩
      · have hplain : isPlain line = true := by simp [isPlain, hstep, hsay]
        rw [frameHead_plain hplain]
        simp only [if_neg hsay, if_true]
        exact ⟨(ih out { c with say := c.say ++ [line] }).1, (ih out (readStep c line)).2⟩

theorem heads_parseSteps (text : Text) : (parseSteps text).map headOf = heads (lines text) := by
  rw [parseSteps]
  induction lines text with
  | nil => rfl
  | cons line ls ih =>
    rw [List.foldl_cons, readStepLine, heads]
    by_cases hstep : line = STEP_FRAME.step
    · rw [if_pos hstep, if_pos hstep]
      exact (flush_said ls [] fresh).2
    · rw [if_neg hstep, if_neg hstep]
      exact ih

theorem heads_eq_nil : heads ls = [] ↔ STEP_FRAME.step ∉ ls := by
  induction ls with
  | nil => simp [heads]
  | cons line ls ih =>
    rw [heads, List.mem_cons]
    split_ifs with h
    · simp [h]
    · rw [ih]
      exact ⟨fun hls => not_or.mpr ⟨fun heq => h heq.symm, hls⟩, fun hls => (not_or.mp hls).2⟩

/-- Where lines begin that a frame does not read, the frames before them end. -/
theorem heads_append (before : List Text) (hidle : isIdle line = true)
    (hline : line = STEP_FRAME.step ∨ rest = []) :
    heads (before ++ line :: rest) = heads before ++ heads (line :: rest) := by
  have hframe : ∀ (ls : List Text) (c : CurrentStep),
      frameHead c (ls ++ line :: rest) = frameHead c ls := by
    intro ls
    induction ls with
    | nil =>
      intro c
      by_cases hplain : isPlain line = true
      · have hrest : rest = [] := hline.resolve_left fun heq => by simp [heq, isPlain] at hplain
        rw [List.nil_append, frameHead_plain hplain, readStep_idle hidle, hrest]
      · simp [frameHead, hplain]
    | cons first ls ih =>
      intro c
      by_cases hplain : isPlain first = true
      · rw [List.cons_append, frameHead_plain hplain, frameHead_plain hplain, ih]
      · simp [frameHead, hplain]
  induction before with
  | nil => rfl
  | cons first before ih =>
    rw [List.cons_append, heads, heads]
    split_ifs with h
    · rw [ih, hframe, List.cons_append]
    · exact ih

/-! ### Exit codes that were cut -/

theorem le_continueValue (s : Text) (a : Nat) : a ≤ Number.continueValue 10 s a := by
  induction s generalizing a with
  | nil => exact le_rfl
  | cons u s ih =>
    have hnext := ih (a * 10 + (Number.digitValue u).getD 0)
    have hstep : Number.continueValue 10 (u :: s) a =
        Number.continueValue 10 s (a * 10 + (Number.digitValue u).getD 0) := rfl
    omega

theorem continueValue_lt {s : Text} (h : Number.IsRadixText 10 s) (a : Nat) :
    Number.continueValue 10 s a < (a + 1) * 10 ^ s.length := by
  induction s generalizing a with
  | nil => simp [Number.continueValue]
  | cons u s ih =>
    obtain ⟨d, hd, hu⟩ := h u List.mem_cons_self
    have hnext := ih (fun v hv => h v (List.mem_cons_of_mem _ hv)) (a * 10 + d)
    have hstep : Number.continueValue 10 (u :: s) a = Number.continueValue 10 s (a * 10 + d) := by
      simp [Number.continueValue, hu]
    calc Number.continueValue 10 (u :: s) a
        < (a * 10 + d + 1) * 10 ^ s.length := hstep ▸ hnext
      _ ≤ ((a + 1) * 10) * 10 ^ s.length := Nat.mul_le_mul_right _ (by omega)
      _ = (a + 1) * 10 ^ (u :: s).length := by rw [List.length_cons, Nat.pow_succ']; ring

/-- A number's digits do not begin with a zero. -/
theorem decimal_head {rc : Nat} (hrc : rc ≠ 0) :
    ∃ u d s, decimal rc = u :: s ∧ Number.digitValue u = some d ∧ 0 < d := by
  obtain ⟨u, s, hdigits⟩ := List.exists_cons_of_ne_nil (Number.radixText_ne_nil 10 rc)
  have hall : Number.IsRadixText 10 (u :: s) :=
    hdigits ▸ Number.isRadixText_radixText (by omega) (by omega) rc
  have hvalue : Number.continueValue 10 (u :: s) 0 = rc :=
    hdigits ▸ Number.continueValue_radixText (by omega) (by omega) rc
  obtain ⟨d, hd, hu⟩ := hall u List.mem_cons_self
  refine ⟨u, d, s, hdigits, hu, Nat.pos_of_ne_zero fun hzero => ?_⟩
  have hrest : Number.continueValue 10 s 0 = rc := by
    rw [← hvalue]
    simp [Number.continueValue, hu, hzero]
  have hlt := continueValue_lt (fun v hv => hall v (List.mem_cons_of_mem _ hv)) 0
  rw [hrest, Nat.zero_add, Nat.one_mul] at hlt
  cases s with
  | nil => simp at hlt; exact hrc hlt
  | cons v s =>
    have hlen := Number.length_radixText (by simp) hlt
    rw [hdigits] at hlen
    simp at hlen

theorem parseInt_digits {s : Text} (hs : s ≠ []) (h : ∀ u ∈ s, isDigit u = true) :
    parseInt (trim s) = some (Number.continueValue 10 s 0 : Int) := by
  have htrim : trim s = s := trim_eq_self fun u hu => Number.not_isSpace_of_isDigit (h u hu)
  have hsign : Number.splitSign s = (false, s) := by
    obtain ⟨u, t, rfl⟩ := List.exists_cons_of_ne_nil hs
    have hu := h u List.mem_cons_self
    rw [Number.splitSign.eq_3 (u :: t) (by rintro r ⟨⟩; simp [isDigit] at hu)
      (by rintro r ⟨⟩; simp [isDigit] at hu)]
  have hradix : Number.IsRadixText 10 s := by
    intro u hu
    have hdigit := h u hu
    simp only [isDigit, Bool.and_eq_true, decide_eq_true_eq] at hdigit
    have hcases : ∀ d < 10, Number.digitValue (48 + d) = some d := by decide
    refine ⟨u - 48, by omega, ?_⟩
    rw [← hcases (u - 48) (by omega)]
    congr 1
    omega
  have hself : s.takeWhile isDigit = s := List.takeWhile_eq_self_iff.mpr h
  rw [parseInt, htrim, hsign]
  simp only [hself, Number.radixValue_eq hs hradix]
  rfl

theorem parseInt_decimal (rc : Nat) : parseInt (trim (decimal rc)) = some (rc : Int) := by
  have hvalue : Number.continueValue 10 (decimal rc) 0 = rc :=
    Number.continueValue_radixText (by omega) (by omega) rc
  have hne : decimal rc ≠ [] := Number.radixText_ne_nil 10 rc
  rw [parseInt_digits hne fun u hu => isDigit_of_mem_decimal hu, hvalue]

/-- An exit code is not zero as soon as its first digit arrived. -/
theorem parseInt_cut {rc k : Nat} (hk : 0 < k) :
    (parseInt (trim ((decimal rc).take k))).getD 0 ≠ 0 ↔ rc ≠ 0 := by
  have hne : (decimal rc).take k ≠ [] := by
    rw [Ne, List.take_eq_nil_iff, not_or]
    exact ⟨by omega, Number.radixText_ne_nil 10 rc⟩
  rw [parseInt_digits hne fun u hu => isDigit_of_mem_decimal (List.mem_of_mem_take hu)]
  constructor
  · rintro hvalue rfl
    apply hvalue
    have hzero : decimal 0 = [48] := by decide
    obtain ⟨k, rfl⟩ := Nat.exists_eq_add_one.mpr hk
    rw [hzero, List.take_succ_cons, List.take_nil]
    decide
  · intro hrc
    obtain ⟨u, d, s, hdigits, hu, hd⟩ := decimal_head hrc
    obtain ⟨k, rfl⟩ := Nat.exists_eq_add_one.mpr hk
    have hvalue : Number.continueValue 10 (u :: s.take k) 0 = Number.continueValue 10 (s.take k) d := by
      simp [Number.continueValue, hu]
    have hle := le_continueValue (s.take k) d
    rw [hdigits, List.take_succ_cons, hvalue, Option.getD_some]
    omega

/-! ### Lines that were cut -/

theorem lines_cut (a b : Bytes) (n : Nat) :
    lines (utf8Text ((a ++ 10 :: b).take n)) =
      if n ≤ a.length then lines (utf8Text (a.take n))
      else lines (utf8Text a) ++ lines (utf8Text (b.take (n - a.length - 1))) := by
  split_ifs with h
  · rw [List.take_append_of_le_length h]
  · obtain ⟨k, hk⟩ : ∃ k, n = a.length + (k + 1) := ⟨n - a.length - 1, by omega⟩
    have hsub : n - a.length - 1 = k := by omega
    rw [hsub, hk, List.take_length_add_append, List.take_succ_cons, lines_bytes]

/-- Only a unit of the text itself is an ASCII byte of it. -/
theorem mem_utf8_ascii {s : Text} {b : Nat} (hb : b ∈ utf8 s) (hascii : b < 128) : b ∈ s := by
  have hpoint : ∀ c, b ∈ utf8Point c → b = c := by
    intro c hmem
    obtain ⟨-, hc⟩ | ⟨-, -, hc⟩ | ⟨-, -, hc⟩ | ⟨-, hc⟩ := utf8Point_cases c <;>
      rw [hc] at hmem <;> simp at hmem <;> omega
  have hunit : ∀ u, b ∈ utf8Unit u → b = u := by
    intro u hmem
    rw [utf8Unit] at hmem
    have hself := hpoint _ hmem
    split_ifs at hself
    · omega
    · exact hself
  induction s using utf8.induct with
  | case1 => cases hb
  | case2 u => exact List.mem_singleton.mpr (hunit u hb)
  | case3 u v rest hpair ih =>
    rw [utf8, if_pos hpair] at hb
    obtain hb | hb := List.mem_append.mp hb
    · have hwide : 65536 ≤ pairPoint u v := Nat.le_add_right_of_le (Nat.le_add_right _ _)
      exact absurd (hpoint _ hb) (by omega)
    · exact List.mem_cons_of_mem u (List.mem_cons_of_mem v (ih hb))
  | case4 u v rest hpair ih =>
    rw [utf8, if_neg hpair] at hb
    obtain hb | hb := List.mem_append.mp hb
    · rw [hunit u hb]
      exact List.mem_cons_self
    · exact List.mem_cons_of_mem u (ih hb)

/-- A decoder inside a character whose code point is no ASCII one. -/
def Wide (s : Utf8State) : Prop := s.needed = 0 ∨ 128 ≤ s.least

theorem wide_utf8First {u b : Nat} (hu : u < 128) :
    (u ∈ (utf8First b).1 → u = b) ∧ Wide (utf8First b).2 := by
  unfold utf8First
  split
  · exact ⟨List.mem_singleton.mp, .inl rfl⟩
  split
  · exact ⟨fun hmem => absurd (List.mem_singleton.mp hmem) (by omega), .inl rfl⟩
  split
  · exact ⟨fun hmem => absurd hmem List.not_mem_nil, .inr (by simp [Utf8State.least]; omega)⟩
  split
  · refine ⟨fun hmem => absurd hmem List.not_mem_nil, .inr ?_⟩
    simp only [Utf8State.least]
    split <;> omega
  split
  · refine ⟨fun hmem => absurd hmem List.not_mem_nil, .inr ?_⟩
    simp only [Utf8State.least]
    split <;> omega
  · exact ⟨fun hmem => absurd (List.mem_singleton.mp hmem) (by omega), .inl rfl⟩

theorem le_of_mem_pointUnits {u c : Nat} (hc : 128 ≤ c) (h : u ∈ pointUnits c) : 128 ≤ u := by
  rw [pointUnits] at h
  split_ifs at h <;> simp at h <;> omega

theorem wide_utf8Step {s : Utf8State} {u b : Nat} (hs : Wide s) (hu : u < 128) :
    (u ∈ (utf8Step s b).1 → u = b) ∧ Wide (utf8Step s b).2 := by
  unfold utf8Step
  split
  · exact wide_utf8First hu
  rename_i hpos
  have hleast := hs.resolve_left hpos
  split
  · rename_i hrange
    split
    · rename_i hlast
      simp only [Utf8State.least, hlast, Nat.sub_self, Nat.pow_zero, Nat.mul_one] at hleast
      have hpoint : 128 ≤ s.point * 64 + (b - 128) := by omega
      generalize s.point * 64 + (b - 128) = c at hpoint
      refine ⟨fun hmem => ?_, .inl rfl⟩
      have hge := le_of_mem_pointUnits hpoint hmem
      omega
    · refine ⟨fun hmem => absurd hmem List.not_mem_nil, .inr ?_⟩
      obtain ⟨k, hk⟩ : ∃ k, s.needed = k + 2 := ⟨s.needed - 2, by omega⟩
      simp only [Utf8State.least, hk, Nat.reduceSub] at hleast ⊢
      calc 128 ≤ (s.point * 64 + (s.lower - 128)) * 64 ^ (k + 1) := hleast
        _ ≤ (s.point * 64 + (b - 128)) * 64 ^ (k + 1) := Nat.mul_le_mul_right _ (by omega)
        _ = _ := by rw [Nat.pow_succ']; simp; ring
  · obtain ⟨hfirst, hwide⟩ := wide_utf8First (b := b) hu
    refine ⟨fun hmem => ?_, hwide⟩
    obtain hmark | hmem := List.mem_cons.mp hmem
    · omega
    · exact hfirst hmem

/-- The ASCII units of decoded bytes are among the bytes. -/
theorem mem_utf8From {s : Utf8State} {u : Nat} {bytes : Bytes} (hs : Wide s) (hu : u < 128)
    (hmem : u ∈ utf8From s bytes) : u ∈ bytes := by
  induction bytes generalizing s with
  | nil =>
    rw [utf8From] at hmem
    split at hmem
    · exact hmem
    · exact absurd (List.mem_singleton.mp hmem) (by omega)
  | cons b bytes ih =>
    obtain ⟨hfirst, hwide⟩ := wide_utf8Step (b := b) hs hu
    rw [utf8From_cons] at hmem
    obtain hmem | hmem := List.mem_append.mp hmem
    · rw [hfirst hmem]
      exact List.mem_cons_self
    · exact List.mem_cons_of_mem b (ih hwide hmem)

theorem plain_utf8Text {bytes : Bytes} (h : 10 ∉ bytes) : 10 ∉ utf8Text bytes := fun hmem =>
  h (mem_utf8From (.inl rfl) (by omega) hmem)

/-! ### A frame that was cut -/

/-- Of the frames announced, one has an exit code other than zero. -/
def Alarmed (announced : List (Text × Int)) : Prop := ∃ head ∈ announced, head.2 ≠ 0

instance (announced : List (Text × Int)) : Decidable (Alarmed announced) :=
  inferInstanceAs (Decidable (∃ head ∈ announced, _))

def announced (bytes : Bytes) : List (Text × Int) := heads (lines (utf8Text bytes))

/-- However much of it arrives, a report begins with a marker line or is a single line. -/
def Opens (report : Bytes) : Prop :=
  ∀ m, ∃ line rest, lines (utf8Text (report.take m)) = line :: rest ∧ isIdle line = true ∧
    (line = STEP_FRAME.step ∨ rest = [])

theorem alarmed_append {a b : List (Text × Int)} : Alarmed (a ++ b) ↔ Alarmed a ∨ Alarmed b := by
  simp only [Alarmed, List.mem_append, or_and_right, exists_or]

theorem alarmed_cons {a : Text × Int} {b : List (Text × Int)} :
    Alarmed (a :: b) ↔ a.2 ≠ 0 ∨ Alarmed b := by
  simp [Alarmed]

theorem not_alarmed_nil : ¬Alarmed [] := by simp [Alarmed]

theorem not_alarmed_line (h : line ≠ STEP_FRAME.step) : ¬Alarmed (heads [line]) := by
  rw [heads, if_neg h]
  exact not_alarmed_nil

theorem not_alarmed_cut (bytes : Bytes) {k : Nat} (hk : k = 0) : ¬Alarmed (announced (bytes.take k)) := by
  rw [hk, List.take_zero]
  decide

def nameLine (step : Step) : Bytes := js "name=" ++ utf8 step.name
def rcLine (ran : Ran) : Bytes := js "rc=" ++ decimal ran.rc

theorem printStep_append (entry : Step × Ran) (rest : Bytes) :
    printStep entry ++ rest = STEP_FRAME.step ++ 10 :: (nameLine entry.1 ++ 10 :: (rcLine entry.2 ++
      10 :: (STEP_FRAME.say ++ 10 :: (entry.2.said ++ 10 :: rest)))) := by
  have hopen : js "===BMSTEP===\nname=" = STEP_FRAME.step ++ 10 :: js "name=" := by decide
  have hrc : js "\nrc=" = 10 :: js "rc=" := by decide
  have hsay : js "\n===BMSAY===\n" = 10 :: (STEP_FRAME.say ++ [10]) := by decide
  have hend : js "\n" = [10] := by decide
  simp [printStep, heading, opening, nameLine, rcLine, hopen, hrc, hsay, hend]

/-- From the line behind the exit code on. -/
theorem cut_say {report : Bytes} (hopens : Opens report) (c : CurrentStep) (said : Bytes) (k : Nat) :
    frameHead c (lines (utf8Text ((STEP_FRAME.say ++ 10 :: (said ++ 10 :: report)).take k))) =
        (c.name, c.rc) ∧
      (Alarmed (announced ((STEP_FRAME.say ++ 10 :: (said ++ 10 :: report)).take k)) ↔
        Alarmed (announced (said.take (k - 12))) ∨
          Alarmed (announced (report.take (k - 12 - said.length - 1)))) := by
  have hlength : STEP_FRAME.say.length = 11 := by decide
  have hsay : lines (utf8Text STEP_FRAME.say) = [STEP_FRAME.say] := by decide
  rw [announced, lines_cut, hlength]
  split_ifs with hk
  · have hcut : ∀ k < 12, lines (utf8Text (STEP_FRAME.say.take k)) = [STEP_FRAME.say.take k] ∧
        isIdle (STEP_FRAME.say.take k) = true ∧ STEP_FRAME.say.take k ≠ STEP_FRAME.step := by decide
    obtain ⟨hline, hidle, hne⟩ := hcut k (by omega)
    rw [hline]
    refine ⟨?_, iff_of_false (not_alarmed_line hne) (not_or.mpr
      ⟨not_alarmed_cut said (by omega), not_alarmed_cut report (by omega)⟩)⟩
    by_cases hplain : isPlain (STEP_FRAME.say.take k) = true
    · rw [frameHead_plain hplain, readStep_idle hidle]
      rfl
    · simp [frameHead, hplain]
  · rw [hsay, List.singleton_append, frameHead_say, heads, if_neg (by decide), ← announced]
    refine ⟨rfl, ?_⟩
    rw [announced, lines_cut, show k - 11 - 1 = k - 12 by omega]
    split_ifs with hsaid
    · rw [← announced]
      exact (or_iff_left (not_alarmed_cut report (by omega))).symm
    · obtain ⟨line, rest, hlines, hidle, hline⟩ := hopens (k - 12 - said.length - 1)
      rw [List.take_of_length_le (l := said) (by omega), announced, announced, hlines,
        heads_append _ hidle hline, alarmed_append]

theorem readStep_rc (h : (js "rc=").isPrefixOf line = false) (c : CurrentStep) :
    (readStep c line).rc = c.rc := by
  rw [readStep]
  split_ifs with hname hrc
  · rfl
  · rw [h] at hrc
    cases hrc
  · rfl

theorem frameHead_line (c : CurrentStep) (hplain : isPlain line = true) :
    frameHead c [line] = ((readStep c line).name, (readStep c line).rc) := by
  rw [frameHead_plain hplain]
  rfl

theorem readStep_code (c : CurrentStep) (digits : Text) :
    (readStep c (js "rc=" ++ digits)).rc = (parseInt (trim digits)).getD 0 := by
  have hrc : js "rc=" = [114, 99, 61] := by decide
  have hname : js "name=" = [110, 97, 109, 101, 61] := by decide
  simp [readStep, hrc, hname]

theorem lines_code (ran : Ran) (k : Nat) :
    lines (utf8Text ((rcLine ran).take k)) = [(rcLine ran).take k] := by
  have hunit : ∀ u ∈ rcLine ran, u < 128 ∧ u ≠ 10 := by
    intro u hu
    obtain hu | hu := List.mem_append.mp hu
    · exact (by decide : ∀ u ∈ js "rc=", u < 128 ∧ u ≠ 10) u hu
    · have hdigit := isDigit_of_mem_decimal hu
      simp only [isDigit, Bool.and_eq_true, decide_eq_true_eq] at hdigit
      omega
  exact lines_ascii (fun u hu => (hunit u (List.mem_of_mem_take hu)).1)
    fun hmem => (hunit 10 (List.mem_of_mem_take hmem)).2 rfl

/-- A line that begins otherwise than with an equals sign is no marker. -/
theorem plain_of_head (h : line.head? ≠ some 61) : isPlain line = true ∧ line ≠ STEP_FRAME.step := by
  have hstep : line ≠ STEP_FRAME.step := by
    rintro rfl
    exact h (by decide)
  have hsay : line ≠ STEP_FRAME.say := by
    rintro rfl
    exact h (by decide)
  exact ⟨by simp [isPlain, hstep, hsay], hstep⟩

theorem plain_code (ran : Ran) (k : Nat) : isPlain ((rcLine ran).take k) = true ∧
    (rcLine ran).take k ≠ STEP_FRAME.step := by
  apply plain_of_head
  cases k with
  | zero => simp
  | succ k =>
    have hrc : rcLine ran = 114 :: 99 :: 61 :: decimal ran.rc := by
      rw [rcLine, show js "rc=" = [114, 99, 61] by decide]
      rfl
    simp [hrc]

theorem code_cut {c : CurrentStep} (hc : c.rc = 0) (ran : Ran) (k : Nat) :
    (readStep c ((rcLine ran).take k)).rc ≠ 0 ↔ ran.rc ≠ 0 ∧ 3 < k := by
  have hlength : (js "rc=").length = 3 := by decide
  by_cases hk : 3 < k
  · obtain ⟨m, rfl⟩ : ∃ m, k = 3 + (m + 1) := ⟨k - 4, by omega⟩
    have hline : (rcLine ran).take (3 + (m + 1)) = js "rc=" ++ (decimal ran.rc).take (m + 1) := by
      rw [rcLine, ← hlength, List.take_length_add_append]
    rw [hline, readStep_code, parseInt_cut (by omega)]
    exact (and_iff_left hk).symm
  · have hline : (rcLine ran).take k = (js "rc=").take k := by
      rw [rcLine, List.take_append_of_le_length (by omega)]
    have hcases : ∀ k < 4, (readStep ⟨c.name, 0, c.say⟩ ((js "rc=").take k)).rc = 0 := by
      intro k hk
      have hrc : js "rc=" = [114, 99, 61] := by decide
      have hname : js "name=" = [110, 97, 109, 101, 61] := by decide
      have hnone : parseInt (trim []) = none := by decide
      obtain rfl | rfl | rfl | rfl : k = 0 ∨ k = 1 ∨ k = 2 ∨ k = 3 := by omega
      all_goals simp [readStep, hrc, hname, hnone]
    rw [hline]
    obtain ⟨name, rc, say⟩ := c
    subst hc
    exact iff_of_false (fun h => h (hcases k (by omega))) fun h => hk h.2

/-- From the exit code on. -/
theorem cut_code {report : Bytes} (hopens : Opens report) {c : CurrentStep} (hc : c.rc = 0)
    (ran : Ran) (k : Nat) :
    ((frameHead c (lines (utf8Text ((rcLine ran ++
          10 :: (STEP_FRAME.say ++ 10 :: (ran.said ++ 10 :: report))).take k)))).2 ≠ 0 ↔
        ran.rc ≠ 0 ∧ 3 < k) ∧
      (Alarmed (announced ((rcLine ran ++
          10 :: (STEP_FRAME.say ++ 10 :: (ran.said ++ 10 :: report))).take k)) ↔
        Alarmed (announced (ran.said.take (k - (rcLine ran).length - 13))) ∨
          Alarmed (announced (report.take (k - (rcLine ran).length - 14 - ran.said.length)))) := by
  have hcode : 3 < (rcLine ran).length := by
    have hdigits := List.length_pos_of_ne_nil (Number.radixText_ne_nil 10 ran.rc)
    have hlength : (js "rc=").length = 3 := by decide
    rw [rcLine, List.length_append, hlength, decimal]
    omega
  obtain ⟨hplain, hne⟩ := plain_code ran k
  rw [announced, lines_cut]
  split_ifs with hk
  · rw [lines_code, frameHead_line c hplain]
    exact ⟨code_cut hc ran k, iff_of_false (not_alarmed_line hne) (not_or.mpr
      ⟨not_alarmed_cut _ (by omega), not_alarmed_cut _ (by omega)⟩)⟩
  · have hself := lines_code ran (rcLine ran).length
    have hwhole := plain_code ran (rcLine ran).length
    have hvalue := code_cut hc ran (rcLine ran).length
    rw [List.take_length] at hself hwhole hvalue
    obtain ⟨hhead, halarm⟩ := cut_say hopens (readStep c (rcLine ran)) ran.said
      (k - (rcLine ran).length - 1)
    rw [hself, List.singleton_append, frameHead_plain hwhole.1, hhead, heads, if_neg hwhole.2,
      ← announced, halarm, hvalue]
    refine ⟨and_congr_right fun _ => iff_of_true hcode (by omega), ?_⟩
    rw [show k - (rcLine ran).length - 1 - 12 = k - (rcLine ran).length - 13 by omega,
      show k - (rcLine ran).length - 13 - ran.said.length - 1 =
        k - (rcLine ran).length - 14 - ran.said.length by omega]

theorem lines_name {step : Step} (hname : 10 ∉ step.name) (k : Nat) :
    lines (utf8Text ((nameLine step).take k)) = [utf8Text ((nameLine step).take k)] := by
  refine lines_plain (plain_utf8Text fun hmem => ?_)
  obtain hmem | hmem := List.mem_append.mp (List.mem_of_mem_take hmem)
  · exact absurd hmem (by decide)
  · exact hname (mem_utf8_ascii hmem (by omega))

/-- What arrived of a name is neither a marker nor an exit code. -/
theorem name_cut (step : Step) (k : Nat) :
    isPlain (utf8Text ((nameLine step).take k)) = true ∧
      utf8Text ((nameLine step).take k) ≠ STEP_FRAME.step ∧
      (js "rc=").isPrefixOf (utf8Text ((nameLine step).take k)) = false := by
  have hrc : js "rc=" = [114, 99, 61] := by decide
  cases k with
  | zero =>
    rw [List.take_zero]
    exact ⟨by decide, by decide, by decide⟩
  | succ k =>
    have hhead : ∃ t, utf8Text ((nameLine step).take (k + 1)) = 110 :: t := by
      have hname : js "name=" = 110 :: js "ame=" := by decide
      rw [nameLine, hname, List.cons_append, List.take_succ_cons]
      exact ⟨_, utf8Text_ascii [] (by omega) _⟩
    obtain ⟨t, ht⟩ := hhead
    rw [ht]
    have hhead : (110 :: t).head? ≠ some 61 := by simp
    obtain ⟨hplain, hstep⟩ := plain_of_head hhead
    exact ⟨hplain, hstep, by rw [hrc]; rfl⟩

/-- From the name on. -/
theorem cut_name {report : Bytes} (hopens : Opens report) {entry : Step × Ran}
    (hname : 10 ∉ entry.1.name) (k : Nat) :
    ((frameHead fresh (lines (utf8Text ((nameLine entry.1 ++ 10 :: (rcLine entry.2 ++
          10 :: (STEP_FRAME.say ++ 10 :: (entry.2.said ++ 10 :: report)))).take k)))).2 ≠ 0 ↔
        entry.2.rc ≠ 0 ∧ (nameLine entry.1).length + 4 < k) ∧
      (Alarmed (announced ((nameLine entry.1 ++ 10 :: (rcLine entry.2 ++
          10 :: (STEP_FRAME.say ++ 10 :: (entry.2.said ++ 10 :: report)))).take k)) ↔
        Alarmed (announced (entry.2.said.take
            (k - (nameLine entry.1).length - 1 - (rcLine entry.2).length - 13))) ∨
          Alarmed (announced (report.take
            (k - (nameLine entry.1).length - 1 - (rcLine entry.2).length - 14 -
              entry.2.said.length)))) := by
  rw [announced, lines_cut]
  split_ifs with hk
  · obtain ⟨hplain, hne, hrc⟩ := name_cut entry.1 k
    rw [lines_name hname, frameHead_line fresh hplain, readStep_rc hrc]
    refine ⟨iff_of_false (fun h => h rfl) (by omega), iff_of_false (not_alarmed_line hne) (not_or.mpr
      ⟨not_alarmed_cut _ (by omega), not_alarmed_cut _ (by omega)⟩)⟩
  · have hself := lines_name hname (nameLine entry.1).length
    have hwhole := name_cut entry.1 (nameLine entry.1).length
    rw [List.take_length] at hself hwhole
    obtain ⟨hplain, hne, hrc⟩ := hwhole
    have hzero : (readStep fresh (utf8Text (nameLine entry.1))).rc = 0 := readStep_rc hrc fresh
    obtain ⟨hhead, halarm⟩ := cut_code hopens hzero entry.2 (k - (nameLine entry.1).length - 1)
    rw [hself, List.singleton_append, frameHead_plain hplain, heads, if_neg hne, ← announced, halarm,
      hhead]
    exact ⟨and_congr_right fun _ => by omega, Iff.rfl⟩

theorem length_opening (step : Step) : (opening step).length = (nameLine step).length + 17 := by
  have hopen : (js "===BMSTEP===\nname=").length = 18 := by decide
  have hname : (js "name=").length = 5 := by decide
  have hrc : (js "\nrc=").length = 4 := by decide
  simp only [opening, nameLine, List.length_append, hopen, hname, hrc]
  omega

theorem length_heading (entry : Step × Ran) :
    (heading entry).length = (nameLine entry.1).length + (rcLine entry.2).length + 27 := by
  have hrc : (js "rc=").length = 3 := by decide
  have hsay : (js "\n===BMSAY===\n").length = 13 := by decide
  simp only [heading, rcLine, List.length_append, length_opening, hrc, hsay]
  omega

theorem length_printStep (entry : Step × Ran) :
    (printStep entry).length = (heading entry).length + entry.2.said.length + 1 := by
  have hend : (js "\n").length = 1 := by decide
  simp only [printStep, List.length_append, hend]

/-- What arrives of a frame and of the report behind it announces a failure where it shows the exit
code of a failure, or where the output or the rest announces one. -/
theorem alarmed_frame {report : Bytes} (hopens : Opens report) {entry : Step × Ran}
    (hname : 10 ∉ entry.1.name) (n : Nat) :
    Alarmed (announced ((printStep entry ++ report).take n)) ↔
      (entry.2.rc ≠ 0 ∧ (opening entry.1).length < n) ∨
        Alarmed (announced (entry.2.said.take (n - (heading entry).length))) ∨
        Alarmed (announced (report.take (n - (printStep entry).length))) := by
  have hlength : STEP_FRAME.step.length = 12 := by decide
  have hopening := length_opening entry.1
  have hheading := length_heading entry
  have hprint := length_printStep entry
  rw [printStep_append, announced, lines_cut, hlength]
  split_ifs with hn
  · have hcut : ∀ k < 13, lines (utf8Text (STEP_FRAME.step.take k)) = [STEP_FRAME.step.take k] ∧
        ¬Alarmed (heads [STEP_FRAME.step.take k]) := by decide
    obtain ⟨hline, hnone⟩ := hcut n (by omega)
    rw [hline]
    exact iff_of_false hnone (not_or.mpr ⟨by omega, not_or.mpr
      ⟨not_alarmed_cut _ (by omega), not_alarmed_cut _ (by omega)⟩⟩)
  · have hstep : lines (utf8Text STEP_FRAME.step) = [STEP_FRAME.step] := by decide
    obtain ⟨hhead, halarm⟩ := cut_name hopens hname (n - 13)
    rw [hstep, List.singleton_append, heads, if_pos rfl, alarmed_cons, ← announced,
      show n - 12 - 1 = n - 13 by omega, halarm, hhead]
    rw [show n - 13 - (nameLine entry.1).length - 1 - (rcLine entry.2).length - 13 =
        n - (heading entry).length by omega,
      show n - 13 - (nameLine entry.1).length - 1 - (rcLine entry.2).length - 14 -
        entry.2.said.length = n - (printStep entry).length by omega]
    exact or_congr_left (and_congr_right fun _ => by omega)

/-! ### The report -/

theorem opens_nil : Opens [] := fun m => ⟨[], [], by simp [lines]; rfl, by decide, .inr rfl⟩

/-- What arrives of a report that has a frame. -/
theorem lines_frame (entry : Step × Ran) (report : Bytes) (m : Nat) :
    (m < 12 ∧ lines (utf8Text ((printStep entry ++ report).take m)) = [STEP_FRAME.step.take m]) ∨
      12 ≤ m ∧ ∃ rest, lines (utf8Text ((printStep entry ++ report).take m)) =
        STEP_FRAME.step :: rest := by
  have hlength : STEP_FRAME.step.length = 12 := by decide
  have hcut : ∀ k < 13, lines (utf8Text (STEP_FRAME.step.take k)) = [STEP_FRAME.step.take k] := by
    decide
  rw [printStep_append, lines_cut, hlength]
  split_ifs with hm
  · rw [hcut m (by omega)]
    by_cases hfull : m = 12
    · exact .inr ⟨hfull.ge, [], by rw [List.take_of_length_le (by omega)]⟩
    · exact .inl ⟨by omega, rfl⟩
  · have hstep : lines (utf8Text STEP_FRAME.step) = [STEP_FRAME.step] := by decide
    exact .inr ⟨by omega, _, by rw [hstep, List.singleton_append]⟩

theorem opens_report (entries : List (Step × Ran)) : Opens (entries.flatMap printStep) := by
  cases entries with
  | nil => exact opens_nil
  | cons entry entries =>
    intro m
    rw [List.flatMap_cons]
    obtain ⟨hm, hlines⟩ | ⟨-, rest, hlines⟩ := lines_frame entry (entries.flatMap printStep) m
    · have hidle : ∀ k < 12, isIdle (STEP_FRAME.step.take k) = true := by decide
      exact ⟨_, [], hlines, hidle m hm, .inr rfl⟩
    · exact ⟨_, rest, hlines, by decide, .inl rfl⟩

/-- The first `n` bytes of the frames show a failure: the first digit of an exit code other than
zero, or an output that announces one in a frame of its own. -/
def ShowsFailure : List (Step × Ran) → Nat → Prop
  | [], _ => False
  | entry :: entries, n =>
    (entry.2.rc ≠ 0 ∧ (opening entry.1).length < n) ∨
      Alarmed (announced (entry.2.said.take (n - (heading entry).length))) ∨
      ShowsFailure entries (n - (printStep entry).length)

theorem alarmed_report (hnames : ∀ entry ∈ entries, 10 ∉ entry.1.name) (n : Nat) :
    Alarmed (announced ((entries.flatMap printStep).take n)) ↔ ShowsFailure entries n := by
  induction entries generalizing n with
  | nil =>
    rw [List.flatMap_nil, List.take_nil]
    exact iff_of_false (by decide) id
  | cons entry entries ih =>
    rw [List.flatMap_cons, alarmed_frame (opens_report entries) (hnames entry List.mem_cons_self),
      ih fun e he => hnames e (List.mem_cons_of_mem entry he), ShowsFailure]

theorem announced_eq_nil (entries : List (Step × Ran)) (n : Nat) :
    announced ((entries.flatMap printStep).take n) = [] ↔
      ((entries.flatMap printStep).take n).length < 12 := by
  cases entries with
  | nil =>
    rw [List.flatMap_nil, List.take_nil]
    exact iff_of_true (by decide) (by decide)
  | cons entry entries =>
    have hlong : 12 ≤ (printStep entry ++ entries.flatMap printStep).length := by
      have hopening := length_opening entry.1
      have hheading := length_heading entry
      have hprint := length_printStep entry
      rw [List.length_append]
      omega
    rw [List.flatMap_cons, announced, heads_eq_nil, List.length_take]
    obtain ⟨hn, hlines⟩ | ⟨hn, rest, hlines⟩ := lines_frame entry (entries.flatMap printStep) n
    · have hne : ∀ k < 12, STEP_FRAME.step ∉ [STEP_FRAME.step.take k] := by decide
      exact iff_of_true (hlines ▸ hne n hn) (by omega)
    · exact iff_of_false (by simp [hlines]) (by omega)

/-! ### The whole report -/

theorem utf8Text_ascii_append {a : Bytes} (ha : ∀ c ∈ a, c < 128) (b : Bytes) :
    utf8Text (a ++ b) = a ++ utf8Text b := by
  induction a with
  | nil => rfl
  | cons c a ih =>
    have hfirst := utf8Text_ascii [] (ha c List.mem_cons_self) (a ++ b)
    rw [ih fun x hx => ha x (List.mem_cons_of_mem c hx)] at hfirst
    exact hfirst

theorem readStep_name (c : CurrentStep) (name : Bytes) :
    readStep c (utf8Text (js "name=" ++ name)) = { c with name := trim (utf8Text name) } := by
  have hname : js "name=" = [110, 97, 109, 101, 61] := by decide
  rw [utf8Text_ascii_append (by decide), hname]
  simp [readStep, hname]

/-- What a whole frame announces, its output included. -/
def shown (entry : Step × Ran) : List (Text × Int) :=
  (trim (utf8Text (utf8 entry.1.name)), (entry.2.rc : Int)) :: announced entry.2.said

theorem announced_frame {report : Bytes} (hopens : Opens report) {entry : Step × Ran}
    (hname : 10 ∉ entry.1.name) :
    announced (printStep entry ++ report) = shown entry ++ announced report := by
  have hstep : lines (utf8Text STEP_FRAME.step) = [STEP_FRAME.step] := by decide
  have hsay : lines (utf8Text STEP_FRAME.say) = [STEP_FRAME.say] := by decide
  have hline := lines_name hname (nameLine entry.1).length
  have hcode := lines_code entry.2 (rcLine entry.2).length
  obtain ⟨hplain, hne, -⟩ := name_cut entry.1 (nameLine entry.1).length
  have hplainCode := plain_code entry.2 (rcLine entry.2).length
  rw [List.take_length] at hline hcode hplain hne hplainCode
  obtain ⟨line, rest, hlines, hidle, hfirst⟩ := hopens report.length
  rw [List.take_length] at hlines
  have hvalue : ∀ c, frameHead c (rcLine entry.2 :: STEP_FRAME.say ::
      (lines (utf8Text entry.2.said) ++ line :: rest)) = (c.name, (entry.2.rc : Int)) := by
    intro c
    rw [frameHead_plain hplainCode.1, frameHead_say, rcLine, readStep_code, parseInt_decimal]
    have hrc : js "rc=" = [114, 99, 61] := by decide
    have hname : js "name=" = [110, 97, 109, 101, 61] := by decide
    simp [readStep, hrc, hname]
  rw [announced, printStep_append]
  simp only [lines_bytes, hstep, hline, hcode, hsay, List.singleton_append, hlines, shown, announced]
  rw [heads, if_pos rfl, heads, if_neg hne, heads, if_neg hplainCode.2, heads, if_neg (by decide),
    heads_append _ hidle hfirst, frameHead_plain hplain, hvalue, nameLine, readStep_name]
  rfl

theorem announced_report (hnames : ∀ entry ∈ entries, 10 ∉ entry.1.name) :
    announced (entries.flatMap printStep) = entries.flatMap shown := by
  induction entries with
  | nil => decide
  | cons entry entries ih =>
    rw [List.flatMap_cons, announced_frame (opens_report entries) (hnames entry List.mem_cons_self),
      ih fun e he => hnames e (List.mem_cons_of_mem entry he), List.flatMap_cons]

theorem length_shown (entries : List (Step × Ran)) :
    entries.length ≤ (entries.flatMap shown).length := by
  induction entries with
  | nil => exact le_rfl
  | cons entry entries ih =>
    rw [List.flatMap_cons, List.length_append, List.length_cons]
    have hone : 1 ≤ (shown entry).length := by simp [shown]
    omega

/-- The frames are one entry for each step when no name changes on the way and no output announces
a frame. -/
theorem shown_exact : entries.flatMap shown = entries.map (fun e => (e.1.name, (e.2.rc : Int))) ↔
    ∀ entry ∈ entries, trim (utf8Text (utf8 entry.1.name)) = entry.1.name ∧
      announced entry.2.said = [] := by
  induction entries with
  | nil => simp
  | cons entry entries ih =>
    rw [List.forall_mem_cons, ← ih, List.flatMap_cons, List.map_cons, shown, List.cons_append,
      List.cons.injEq, Prod.mk.injEq]
    constructor
    · rintro ⟨⟨hname, -⟩, hrest⟩
      have hlength := congrArg List.length hrest
      have hlong := length_shown entries
      rw [List.length_append, List.length_map] at hlength
      have hnone : announced entry.2.said = [] := List.length_eq_zero_iff.mp (by omega)
      rw [hnone, List.nil_append] at hrest
      exact ⟨⟨hname, hnone⟩, hrest⟩
    · rintro ⟨⟨hname, hnone⟩, hrest⟩
      rw [hnone, List.nil_append]
      exact ⟨⟨hname, rfl⟩, hrest⟩

theorem scalars_of_append {s t : Text} (h : Scalars (s ++ t))
    (ht : ∀ u ∈ t, isSpace u = true) : Scalars s := by
  generalize hst : s ++ t = w at h
  induction h generalizing s with
  | nil => rw [(List.append_eq_nil_iff.mp hst).1]; exact .nil
  | unit range _ ih =>
    cases s with
    | nil => exact .nil
    | cons v s =>
      obtain ⟨rfl, hrest⟩ := List.cons.inj hst
      exact .unit range (ih hrest)
  | pair high low _ ih =>
    cases s with
    | nil => exact .nil
    | cons v s =>
      obtain ⟨rfl, hrest⟩ := List.cons.inj hst
      cases s with
      | nil =>
        change t = _ at hrest
        have hspace := ht _ (hrest ▸ List.mem_cons_self)
        simp only [isSpace, Bool.or_eq_true, Bool.and_eq_true, decide_eq_true_eq, beq_iff_eq] at hspace
        omega
      | cons v s =>
        obtain ⟨rfl, htail⟩ := List.cons.inj hrest
        exact .pair high low (ih htail)

theorem scalars_dropWhile {s : Text} (h : Scalars s) : Scalars (s.dropWhile isSpace) := by
  induction h with
  | nil => exact .nil
  | unit range rest ih =>
    rw [List.dropWhile_cons]
    split_ifs
    · exact ih
    · exact .unit range rest
  | @pair u v s high low rest ih =>
    have hnone : isSpace u = false := by
      simp only [isSpace, Bool.or_eq_false_iff, Bool.and_eq_false_iff, decide_eq_false_iff_not,
        beq_eq_false_iff_ne]
      omega
    rw [List.dropWhile_cons, hnone]
    exact .pair high low rest

theorem scalars_trim {s : Text} (h : Scalars s) : Scalars (trim s) := by
  have hcut : Js.trim s ++ ((s.dropWhile isSpace).reverse.takeWhile isSpace).reverse =
      s.dropWhile isSpace := by
    rw [Js.trim, ← List.reverse_append, List.takeWhile_append_dropWhile, List.reverse_reverse]
  have hdrop := scalars_dropWhile h
  rw [← hcut] at hdrop
  exact scalars_of_append hdrop fun u hu => List.mem_takeWhile_imp (List.mem_reverse.mp hu)

/-- A trimmed name comes back as it was when it has no lone surrogate. -/
theorem name_kept {name : Text} (htrim : trim name = name) :
    trim (utf8Text (utf8 name)) = name ↔ Scalars name := by
  constructor
  · intro h
    rw [← h]
    exact scalars_trim (scalars_utf8Text _)
  · intro h
    rw [utf8Text_utf8 h, htrim]

/-! ### The verdict on an action -/

/-- An action and what came of it: the steps asked for, those that the script came to, and how many
bytes of its report arrived. -/
structure Action where
  steps : List Step
  runs : List Ran
  arrived : Nat
  asked : steps ≠ []
  fits : runs.length ≤ steps.length
  names : ∀ step ∈ steps, 10 ∉ step.name ∧ trim step.name = step.name

variable {a : Action} {result : FanoutResult}

def Action.frames (a : Action) : List (Step × Ran) := a.steps.zip a.runs

/-- What arrived of the report. -/
def Action.received (a : Action) : Bytes := (stepReport a.steps a.runs).take a.arrived

/-- The answer that the fan-out gives for the machine. -/
def Action.answer (a : Action) (ip : Text) (rc : Int) (stderr : Text) : FanoutResult :=
  ⟨ip, rc, utf8Text a.received, stderr⟩

/-- Every step that was asked for ran with exit code 0. -/
def Action.Succeeded (a : Action) : Prop :=
  a.runs.length = a.steps.length ∧ ∀ ran ∈ a.runs, ran.rc = 0

/-- The report arrived as a whole, and no output contains the marker line. -/
def Action.Clear (a : Action) : Prop :=
  a.runs.length = a.steps.length ∧ (stepReport a.steps a.runs).length ≤ a.arrived ∧
    ∀ ran ∈ a.runs, ¬HasMarker (utf8Text ran.output)

structure Faithful (setup : Setup) (roster : Roster) (a : Action) (result : FanoutResult) : Prop where
  now : (runNow setup roster result.ip (.ok [result])).isOk = true → a.Succeeded
  job : (judge result).1 = true → a.Succeeded
  entries : a.Clear → (parseSteps result.stdout).map headOf =
    a.frames.map fun e => (e.1.name, (e.2.rc : Int))

theorem judge_isOk : (judge result).1 = true ↔ result.rc = 0 ∧ heads (lines result.stdout) ≠ [] ∧
    ¬Alarmed (heads (lines result.stdout)) := by
  have hnil : heads (lines result.stdout) = [] ↔ parseSteps result.stdout = [] := by
    rw [← heads_parseSteps, List.map_eq_nil_iff]
  have halarm : Alarmed (heads (lines result.stdout)) ↔
      (parseSteps result.stdout).filter (fun step => step.rc ≠ 0) ≠ [] := by
    rw [← heads_parseSteps, Ne, List.filter_eq_nil_iff]
    simp [Alarmed, headOf]
  rw [Ne, hnil, halarm, not_not, judge]
  by_cases hreach : classifyReach result = .ok
  · rw [if_neg (not_not.mpr hreach)]
    dsimp only
    by_cases hdone : parseSteps result.stdout = []
    · rw [if_pos hdone]
      exact iff_of_false (by simp) fun h => h.2.1 hdone
    · rw [if_neg hdone]
      split_ifs with hfailed
      · exact iff_of_true rfl ⟨classifyReach_ok.mp hreach, hdone, hfailed⟩
      · exact iff_of_false (by simp) fun h => hfailed h.2.2
  · rw [if_pos hreach]
    exact iff_of_false (by simp) fun h => hreach (classifyReach_ok.mpr h.1)

/-- `runNow` reports success only where a job does. -/
theorem judge_of_runNow {setup : Setup} {roster : Roster} {ip : Text}
    (h : (runNow setup roster ip (.ok [result])).isOk = true) : (judge result).1 = true := by
  rw [runNow] at h
  cases hproblem : controlProblem setup roster ip with
  | some problem =>
    rw [hproblem] at h
    cases h
  | none =>
    rw [hproblem] at h
    dsimp only at h
    by_cases hreach : classifyReach result = .ok
    · rw [if_neg (not_not.mpr hreach)] at h
      by_cases hdone : parseSteps result.stdout = []
      · rw [if_pos hdone] at h
        cases h
      · rw [if_neg hdone] at h
        by_cases hfailed : (parseSteps result.stdout).filter (fun step => step.rc ≠ 0) = []
        · rw [judge, if_neg (not_not.mpr hreach)]
          dsimp only
          rw [if_neg hdone, if_pos hfailed]
        · rw [if_pos hfailed] at h
          cases h
    · rw [if_pos hreach] at h
      cases h

/-- What makes the report tell the truth: all steps succeeded, or ssh failed, or not even the first
marker line arrived, or a failure shows; and every name is well-formed, and the cut of an output
leaves no marker line. -/
structure Action.Telling (a : Action) (rc : Int) : Prop where
  verdict : a.Succeeded ∨ rc ≠ 0 ∨ a.received.length < 12 ∨ ShowsFailure a.frames a.arrived
  frames : a.Clear → (∀ step ∈ a.steps, Scalars step.name) ∧
    ∀ ran ∈ a.runs, ¬HasMarker (utf8Text ran.said)

theorem Action.plain_names (a : Action) : ∀ entry ∈ a.frames, 10 ∉ entry.1.name := fun _ he =>
  (a.names _ (List.of_mem_zip he).1).1

theorem judge_answer {ip : Text} {rc : Int} {stderr : Text} :
    (judge (a.answer ip rc stderr)).1 = true ↔
      ¬(rc ≠ 0 ∨ a.received.length < 12 ∨ ShowsFailure a.frames a.arrived) := by
  have hnone := announced_eq_nil a.frames a.arrived
  have halarm := alarmed_report a.plain_names a.arrived
  rw [judge_isOk, not_or, not_or, not_not]
  exact and_congr Iff.rfl (and_congr (not_congr hnone) (not_congr halarm))

/-- With as many runs as steps, the frames have all of both. -/
theorem frames_forall (hlength : a.runs.length = a.steps.length) {p : Step → Prop} {q : Ran → Prop} :
    (∀ entry ∈ a.frames, p entry.1 ∧ q entry.2) ↔ (∀ step ∈ a.steps, p step) ∧ ∀ ran ∈ a.runs, q ran := by
  have hsteps : a.frames.map Prod.fst = a.steps := List.map_fst_zip hlength.ge
  have hruns : a.frames.map Prod.snd = a.runs := List.map_snd_zip hlength.le
  rw [← hsteps, ← hruns]
  simp only [List.forall_mem_map]
  exact ⟨fun h => ⟨fun e he => (h e he).1, fun e he => (h e he).2⟩,
    fun h e he => ⟨h.1 e he, h.2 e he⟩⟩

theorem entries_answer (hclear : a.Clear) {ip : Text} {rc : Int} {stderr : Text} :
    (parseSteps (a.answer ip rc stderr).stdout).map headOf =
        a.frames.map (fun e => (e.1.name, (e.2.rc : Int))) ↔
      (∀ step ∈ a.steps, Scalars step.name) ∧ ∀ ran ∈ a.runs, ¬HasMarker (utf8Text ran.said) := by
  obtain ⟨hlength, hwhole, -⟩ := hclear
  have hreceived : a.received = a.frames.flatMap printStep := List.take_of_length_le hwhole
  have hshown : heads (lines (a.answer ip rc stderr).stdout) = a.frames.flatMap shown := by
    rw [← announced_report a.plain_names, ← hreceived]
    rfl
  rw [heads_parseSteps, hshown, shown_exact]
  rw [frames_forall hlength (p := fun step => trim (utf8Text (utf8 step.name)) = step.name)
    (q := fun ran => announced ran.said = [])]
  exact and_congr (forall₂_congr fun step hstep => name_kept (a.names step hstep).2)
    (forall₂_congr fun _ _ => heads_eq_nil)

/-- Two units to restart; the first command read the rest of the script as its input. -/
def swallowed : Action where
  steps := [⟨js "ssh.service", js "systemctl restart 'ssh.service'"⟩,
    ⟨js "cron.service", js "systemctl restart 'cron.service'"⟩]
  runs := [⟨0, []⟩]
  arrived := 1000
  asked := by decide
  fits := by decide
  names := by decide

/-- A machine that is swept, with a root login. -/
def server : TargetRule := ⟨js "1", .host, js "192.0.2.1", true, []⟩

def serverSetup : Setup where
  targets := [server]
  maxHosts := 256
  maxParallel := 1
  maxUnitsPerHost := 120
  criticalDownIsRed := true
  watched := []
  login := fun _ => ⟨[], .none⟩
  facts := fun _ => none

def serverRoster : Roster where
  live := OrderedMap.ofList [(js "192.0.2.1", ⟨js "192.0.2.1", server, .ok, [],
    some ⟨[], [], [], true, 0, false, [], [], false⟩, [], .ok, [], [], [], 0⟩)]
  hosts := .empty

end BoredManager.Fleet.Actions
