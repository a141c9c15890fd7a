import BoredManager.Fleet.Fanout

/-! Who can write into whose answer: the frames of a batch stay apart as long as no machine
prints a marker on a line of its own and every output ends its last line. -/
namespace BoredManager.Fleet
open BoredManager.Js

variable {batch : List Machine} {m : Machine} {line text : Text} {f : Frames}

namespace Machine

def out (m : Machine) : Text := utf8Text m.stdout
/-- The part of the complaint that is printed. -/
def err (m : Machine) : Text := utf8Text (m.stderr.take 2000)
def code (m : Machine) : Text := utf8Text m.exitText
/-- What the file of the exit code reads; 255 when it is missing. -/
def exitCode (m : Machine) : Option Int := parseInt (trim m.code)

end Machine

def IsMarker (line : Text) : Prop :=
  line = FRAME.host ∨ line = FRAME.rc ∨ line = FRAME.out ∨ line = FRAME.err

instance (line : Text) : Decidable (IsMarker line) := inferInstanceAs (Decidable (_ ∨ _))

/-- An output without the line feed that ends its last line. -/
def chomp (text : Text) : Text := if text.getLast? = some 10 then text.dropLast else text

/-- A dotted address. -/
structure IsAddress (ip : Text) : Prop where
  nonempty : ip ≠ []
  units : ∀ u ∈ ip, isDigit u = true ∨ u = 46

/-- The complaint has no marker on a line, and the file of the exit code is one line. -/
structure Quiet (m : Machine) : Prop where
  err : ∀ line ∈ lines m.err, ¬IsMarker line
  code : 10 ∉ m.code ∧ ¬IsMarker m.code

/-- The output has no marker on a line and ends its last line, and the file of the exit code
reads a number. -/
structure Clean (m : Machine) : Prop where
  unmarked : ∀ line ∈ lines m.out, ¬IsMarker line
  ended : m.out = [] ∨ m.out.getLast? = some 10
  readable : m.exitCode ≠ none

/-- The answer of one machine is about that machine: it is the answer that the machine gets
in a batch of its own, with its own output and code. -/
structure Own (m : Machine) (alone answer : FanoutResult) : Prop where
  alone : answer = alone
  stdout : answer.stdout = chomp m.out
  code : ∀ rc, m.exitCode = some rc → answer.rc = rc
  ok : classifyReach answer = .ok → m.exitCode = some 0

/-- Every target of the batch has its own answer. -/
def KeptApart (batch : List Machine) (stderr : Text) : Prop :=
  List.Forall₂ (fun m answer => Own m (answerIn [m] stderr m) answer) batch (runBatch batch stderr)

theorem keptApart_iff {stderr : Text} : KeptApart batch stderr ↔
    ∀ m ∈ batch, Own m (answerIn [m] stderr m) (answerIn batch stderr m) := by
  rw [KeptApart, runBatch, List.forall₂_map_right_iff, List.forall₂_same]

/-! ### Lines -/

theorem lines_line (s t : Text) : lines (s ++ 10 :: t) = lines s ++ lines t :=
  List.splitOnP_append_cons s t (by decide)

theorem lines_plain (h : 10 ∉ text) : lines text = [text] :=
  List.splitOnP_eq_singleton fun u hu => by
    rw [beq_eq_false_iff_ne]
    rintro rfl
    exact h hu

theorem lines_ne_nil (text : Text) : lines text ≠ [] := List.splitOnP_ne_nil _ _

theorem join_lines (text : Text) : join [10] (lines text) = text := List.intercalate_splitOn 10

theorem plain_of_mem_lines (h : line ∈ lines text) : 10 ∉ line := by
  intro hmem
  have hsep := (not_mem_of_mem_splitOnP h hmem).2
  simp at hsep

/-- A text is one list of lines, the lists without a line and with one empty line apart. -/
theorem lines_join {ls : List Text} (h : ∀ line ∈ ls, 10 ∉ line) (hne : ls ≠ []) :
    lines (join [10] ls) = ls := List.splitOn_intercalate 10 h hne

/-- What is printed after an output joins its last line. -/
theorem lines_append (s : Text) {t : Text} (ht : 10 ∉ t) :
    ∃ front last, lines s = front ++ [last] ∧ lines (s ++ t) = front ++ [last ++ t] := by
  induction s with
  | nil => exact ⟨[], [], rfl, lines_plain ht⟩
  | cons u s ih =>
    obtain ⟨front, last, hs, hst⟩ := ih
    simp only [lines, List.splitOn_eq_splitOnP] at hs hst ⊢
    by_cases hu : u = 10
    · refine ⟨[] :: front, last, ?_, ?_⟩
      · simp [List.splitOnP_cons_eq_if_modifyHead, hu, hs]
      · simp [List.splitOnP_cons_eq_if_modifyHead, hu, hst]
    · cases front with
      | nil =>
        refine ⟨[], u :: last, ?_, ?_⟩
        · simp [List.splitOnP_cons_eq_if_modifyHead, hu, hs]
        · simp [List.splitOnP_cons_eq_if_modifyHead, hu, hst]
      | cons first front =>
        refine ⟨(u :: first) :: front, last, ?_, ?_⟩
        · simp [List.splitOnP_cons_eq_if_modifyHead, hu, hs]
        · simp [List.splitOnP_cons_eq_if_modifyHead, hu, hst]

theorem join_snoc {ls : List Text} (h : ls ≠ []) (last : Text) :
    join [10] (ls ++ [last]) = join [10] ls ++ 10 :: last := by
  induction ls with
  | nil => exact absurd rfl h
  | cons first ls ih =>
    cases ls with
    | nil => simp [join, List.intercalate_cons_cons]
    | cons second ls =>
      have htail := ih (List.cons_ne_nil second ls)
      simp only [join, List.cons_append, List.intercalate_cons_cons, List.append_assoc] at htail ⊢
      rw [htail]

/-- Only a text that ends its last line has an empty last line. -/
theorem last_line_ne_nil (hne : text ≠ []) (hend : text.getLast? ≠ some 10) {front : List Text}
    {last : Text} (h : lines text = front ++ [last]) : last ≠ [] := by
  rintro rfl
  have htext := join_lines text
  rw [h] at htext
  cases front with
  | nil => exact hne (by rw [← htext]; rfl)
  | cons first front =>
    rw [join_snoc (List.cons_ne_nil first front)] at htext
    exact hend (by rw [← htext]; simp)

theorem chomp_ended (h : text.getLast? = some 10) : text = chomp text ++ [10] := by
  rw [chomp, if_pos h]
  exact (List.dropLast_append_getLast? 10 h).symm

theorem chomp_open (h : text.getLast? ≠ some 10) : chomp text = text := if_neg h

/-- The lines before a marker that follows an ended output are the lines of that output. -/
theorem lines_ended (h : text = [] ∨ text.getLast? = some 10) {t : Text} (ht : 10 ∉ t) :
    ∃ ls, lines (text ++ t) = ls ++ [t] ∧ join [10] ls = chomp text ∧
      ∀ line ∈ ls, line ∈ lines text := by
  obtain rfl | h := h
  · exact ⟨[], lines_plain ht, rfl, by simp⟩
  · have hsplit : ∀ t, lines (text ++ t) = lines (chomp text) ++ lines t := by
      intro t
      conv_lhs => rw [chomp_ended h, List.append_assoc]
      exact lines_line _ _
    refine ⟨lines (chomp text), by rw [hsplit, lines_plain ht], join_lines _, ?_⟩
    have hself := hsplit []
    rw [List.append_nil] at hself
    intro line hline
    rw [hself]
    exact List.mem_append_left _ hline

/-! ### Reading one frame -/

/-- The lines of a frame after its first one. -/
def frameLines (m : Machine) : List Text :=
  m.ip :: FRAME.rc :: m.code :: FRAME.out :: (lines (m.out ++ FRAME.err) ++ lines m.err)

/-- A frame with the marker that goes before it, as the report has it. -/
theorem printFrame_append (m : Machine) (rest : Bytes) :
    printFrame m ++ rest = FRAME.host ++ 10 :: (m.ip ++ 10 :: (FRAME.rc ++ 10 :: (m.exitText ++
      10 :: (FRAME.out ++ 10 :: (m.stdout ++ FRAME.err ++ 10 :: (m.stderr.take 2000 ++
        10 :: rest)))))) := by
  have hhost : js "===BMHOST===\n" = FRAME.host ++ [10] := by decide
  have hrc : js "\n===BMRC===\n" = 10 :: (FRAME.rc ++ [10]) := by decide
  have hout : js "\n===BMOUT===\n" = 10 :: (FRAME.out ++ [10]) := by decide
  have herr : js "===BMERR===\n" = FRAME.err ++ [10] := by decide
  have hend : js "\n" = [10] := by decide
  simp [printFrame, hhost, hrc, hout, herr, hend]

theorem lines_bytes (a b : Bytes) :
    lines (utf8Text (a ++ 10 :: b)) = lines (utf8Text a) ++ lines (utf8Text b) := by
  rw [utf8Text_ascii a (by decide) b, lines_line]

theorem lines_ascii {s : Text} (h : ∀ c ∈ s, c < 128) (hplain : 10 ∉ s) :
    lines (utf8Text s) = [s] := by
  have hself : utf8Text s = s := utf8Text_append_ascii [] h
  rw [hself, lines_plain hplain]

theorem IsAddress.ascii {ip : Text} (h : IsAddress ip) : ∀ u ∈ ip, 46 ≤ u ∧ u < 58 := by
  intro u hu
  obtain hdigit | rfl := h.units u hu
  · simp only [isDigit, Bool.and_eq_true, decide_eq_true_eq] at hdigit
    omega
  · omega

theorem IsAddress.plain {ip : Text} (h : IsAddress ip) : 10 ∉ ip := by
  intro hmem
  have hunit := h.ascii 10 hmem
  omega

theorem IsAddress.trimmed {ip : Text} (h : IsAddress ip) : trim ip = ip := by
  refine trim_eq_self fun u hu => ?_
  have hunit := h.ascii u hu
  simp only [isSpace, Bool.or_eq_false_iff, Bool.and_eq_false_iff, decide_eq_false_iff_not,
    beq_eq_false_iff_ne]
  omega

/-- Every marker begins with an equals sign. -/
theorem head_of_marker (h : IsMarker line) : line.head? = some 61 := by
  obtain rfl | rfl | rfl | rfl := h <;> decide

theorem IsAddress.unmarked {ip : Text} (h : IsAddress ip) : ¬IsMarker ip := by
  intro hmarker
  have hunit := h.ascii 61 (List.mem_of_mem_head? (head_of_marker hmarker))
  omega

theorem lines_report (haddr : ∀ m ∈ batch, IsAddress m.ip) (hcode : ∀ m ∈ batch, 10 ∉ m.code) :
    lines (utf8Text (report batch)) =
      batch.flatMap (fun m => FRAME.host :: frameLines m) ++ [[]] := by
  induction batch with
  | nil => rfl
  | cons m batch ih =>
    have hip : lines (utf8Text m.ip) = [m.ip] :=
      lines_ascii (fun u hu => by have := (haddr m List.mem_cons_self).ascii u hu; omega)
        (haddr m List.mem_cons_self).plain
    have hout : utf8Text (m.stdout ++ FRAME.err) = m.out ++ FRAME.err :=
      utf8Text_append_ascii _ (by decide)
    have hmarker : ∀ marker ∈ [FRAME.host, FRAME.rc, FRAME.out],
        lines (utf8Text marker) = [marker] := by decide
    have hrest := ih (fun k hk => haddr k (List.mem_cons_of_mem m hk))
      fun k hk => hcode k (List.mem_cons_of_mem m hk)
    have hself : lines (utf8Text m.exitText) = [m.code] := lines_plain (hcode m List.mem_cons_self)
    have hreport : report (m :: batch) = printFrame m ++ report batch := rfl
    rw [hreport, printFrame_append]
    simp only [lines_bytes, hmarker FRAME.host (by simp), hmarker FRAME.rc (by simp),
      hmarker FRAME.out (by simp), hip, hself, hout, hrest]
    simp [frameLines, Machine.err]

theorem read_inside {ls : List Text} (h : FRAME.host ∉ ls) (out : List FanoutResult)
    (p : Current × Target) :
    ls.foldl readLine ⟨out, some p.1, p.2⟩ =
      ⟨out, some (ls.foldl readInside p).1, (ls.foldl readInside p).2⟩ := by
  induction ls generalizing p with
  | nil => rfl
  | cons line ls ih =>
    have hline : line ≠ FRAME.host := fun heq => h (by simp [heq])
    have hstep : readLine ⟨out, some p.1, p.2⟩ line =
        ⟨out, some (readInside p line).1, (readInside p line).2⟩ := by
      rw [readLine, if_neg hline]
    rw [List.foldl_cons, List.foldl_cons, hstep]
    exact ih (fun hmem => h (List.mem_cons_of_mem line hmem)) (readInside p line)

theorem read_frame {ls : List Text} (h : FRAME.host ∉ ls) (f : Frames) :
    (FRAME.host :: ls).foldl readLine f = ⟨f.flush, some (ls.foldl readInside (.fresh, .none)).1,
      (ls.foldl readInside (.fresh, .none)).2⟩ := by
  have hstep : readLine f FRAME.host = ⟨f.flush, some .fresh, .none⟩ := by
    rw [readLine, if_pos rfl]
  rw [List.foldl_cons, hstep]
  exact read_inside h f.flush (.fresh, .none)

theorem readInside_plain (h : ¬IsMarker line) (p : Current × Target) :
    readInside p line = put line p := by
  simp only [IsMarker, not_or] at h
  rw [readInside, if_neg h.2.1, if_neg h.2.2.1, if_neg h.2.2.2]

theorem inside_out {ls : List Text} (h : ∀ line ∈ ls, ¬IsMarker line) (c : Current) :
    ls.foldl readInside (c, .out) = ({ c with body := c.body ++ ls }, .out) := by
  induction ls generalizing c with
  | nil => simp
  | cons line ls ih =>
    rw [List.foldl_cons, readInside_plain (h line List.mem_cons_self)]
    have hrest := ih (fun l hl => h l (List.mem_cons_of_mem line hl))
      { c with body := c.body ++ [line] }
    simpa [put] using hrest

theorem inside_err {ls : List Text} (h : ∀ line ∈ ls, ¬IsMarker line) (c : Current) :
    ls.foldl readInside (c, .err) = ({ c with err := c.err ++ ls }, .err) := by
  induction ls generalizing c with
  | nil => simp
  | cons line ls ih =>
    rw [List.foldl_cons, readInside_plain (h line List.mem_cons_self)]
    have hrest := ih (fun l hl => h l (List.mem_cons_of_mem line hl))
      { c with err := c.err ++ [line] }
    simpa [put] using hrest

/-- The exit code that the answer shows. -/
def shownCode (m : Machine) : Int := m.exitCode.getD 0

/-- Up to the marker of the output, a frame names its machine and its exit code. -/
theorem inside_head (haddr : IsAddress m.ip) (hcode : ¬IsMarker m.code) (ls : List Text) :
    (m.ip :: FRAME.rc :: m.code :: FRAME.out :: ls).foldl readInside (.fresh, .none) =
      ls.foldl readInside (⟨m.ip, shownCode m, [], []⟩, .out) := by
  have hrc : ∀ p : Current × Target, readInside p FRAME.rc = (p.1, .rc) := fun p => if_pos rfl
  have hout : ∀ p : Current × Target, readInside p FRAME.out = (p.1, .out) := by
    intro p
    rw [readInside, if_neg (by decide), if_pos rfl]
  simp only [List.foldl_cons, hrc, hout]
  rw [readInside_plain haddr.unmarked, readInside_plain hcode, put, haddr.trimmed]
  rfl

/-- The answer of a machine that keeps to its frame. -/
def ownResult (m : Machine) : FanoutResult := ⟨m.ip, shownCode m, chomp m.out, trim m.err⟩

/-- What is read of a frame whose output has no marker on a line and ends its last line. -/
theorem inside_clean (haddr : IsAddress m.ip) (hquiet : Quiet m)
    (hmark : ∀ line ∈ lines m.out, ¬IsMarker line)
    (hend : m.out = [] ∨ m.out.getLast? = some 10) :
    ∃ body, join [10] body = chomp m.out ∧ FRAME.host ∉ frameLines m ∧
      (frameLines m).foldl readInside (.fresh, .none) =
        (⟨m.ip, shownCode m, body, lines m.err⟩, .err) := by
  obtain ⟨body, hlines, hjoin, hbody⟩ := lines_ended hend (by decide : 10 ∉ FRAME.err)
  have hplain : ∀ line ∈ body, ¬IsMarker line := fun line hline => hmark line (hbody line hline)
  have herr : ∀ c : Current, readInside (c, .out) FRAME.err = (c, .err) := by
    intro c
    rw [readInside, if_neg (by decide), if_neg (by decide), if_pos rfl]
  refine ⟨body, hjoin, ?_, ?_⟩
  · simp only [frameLines, hlines, List.mem_cons, List.mem_append, List.not_mem_nil, or_false,
      not_or]
    refine ⟨fun h => haddr.unmarked (.inl h.symm), by decide, fun h => hquiet.code.2 (.inl h.symm),
      by decide, ⟨fun h => hplain _ h (.inl rfl), by decide⟩, fun h => hquiet.err _ h (.inl rfl)⟩
  · rw [frameLines, inside_head haddr hquiet.code.2, hlines, List.foldl_append, List.foldl_append,
      inside_out hplain, List.foldl_cons, herr, List.foldl_nil, inside_err hquiet.err]
    simp

/-- Right after a frame, an empty line only adds a line feed to the complaint. -/
def Resting (f : Frames) : Prop :=
  ∀ c ∈ f.current, f.target = .err ∧ c.err ≠ []

theorem trim_line_feed (s : Text) : trim (s ++ [10]) = trim s := by
  have hcut : ∀ t : Text, (t ++ [10]).reverse.dropWhile isSpace = t.reverse.dropWhile isSpace := by
    intro t
    rw [List.reverse_append, List.reverse_singleton, List.singleton_append,
      List.dropWhile_cons_of_pos (by decide)]
  rw [trim, trim, List.dropWhile_append]
  split
  · rename_i hspace
    rw [List.isEmpty_iff.mp hspace]
    decide
  · rw [hcut]

theorem flush_resting (h : Resting f) : (readLine f []).flush = f.flush := by
  obtain ⟨out, current, target⟩ := f
  cases current with
  | none => rfl
  | some c =>
    obtain ⟨htarget, hne⟩ := h c rfl
    dsimp only at htarget
    have hstep : readLine ⟨out, some c, target⟩ [] =
        ⟨out, some { c with err := c.err ++ [[]] }, .err⟩ := by
      rw [htarget]
      rfl
    rw [hstep]
    simp [Frames.flush, Current.result, join_snoc hne, trim_line_feed]

/-! ### Reading a whole report -/

theorem read_report (haddr : ∀ m ∈ batch, IsAddress m.ip) (hquiet : ∀ m ∈ batch, Quiet m)
    (hmark : ∀ m ∈ batch, ∀ line ∈ lines m.out, ¬IsMarker line)
    (hend : ∀ m ∈ batch, m.out = [] ∨ m.out.getLast? = some 10) (hf : Resting f) :
    ∃ g, (batch.flatMap fun m => FRAME.host :: frameLines m).foldl readLine f = g ∧ Resting g ∧
      g.flush = f.flush ++ batch.map ownResult := by
  induction batch generalizing f with
  | nil => exact ⟨f, rfl, hf, by simp⟩
  | cons m batch ih =>
    obtain ⟨body, hjoin, hhost, hread⟩ := inside_clean (haddr m List.mem_cons_self)
      (hquiet m List.mem_cons_self) (hmark m List.mem_cons_self) (hend m List.mem_cons_self)
    have hframe := read_frame hhost f
    rw [hread] at hframe
    have hrest : Resting ⟨f.flush, some ⟨m.ip, shownCode m, body, lines m.err⟩, .err⟩ := by
      rintro c ⟨⟩
      exact ⟨rfl, lines_ne_nil _⟩
    obtain ⟨g, hg, hresting, hflush⟩ := ih (fun k hk => haddr k (List.mem_cons_of_mem m hk))
      (fun k hk => hquiet k (List.mem_cons_of_mem m hk))
      (fun k hk => hmark k (List.mem_cons_of_mem m hk))
      (fun k hk => hend k (List.mem_cons_of_mem m hk)) hrest
    refine ⟨g, ?_, hresting, ?_⟩
    · rw [List.flatMap_cons, List.foldl_append, hframe, hg]
    · rw [hflush]
      simp [Frames.flush, Current.result, ownResult, hjoin, join_lines]

/-- The frames that are read back are one for every machine, in order. -/
theorem parse_report (haddr : ∀ m ∈ batch, IsAddress m.ip) (hquiet : ∀ m ∈ batch, Quiet m)
    (hmark : ∀ m ∈ batch, ∀ line ∈ lines m.out, ¬IsMarker line)
    (hend : ∀ m ∈ batch, m.out = [] ∨ m.out.getLast? = some 10) :
    parseFrames (utf8Text (report batch)) = batch.map ownResult := by
  obtain ⟨g, hg, hresting, hflush⟩ := read_report haddr hquiet hmark hend
    (f := ⟨[], none, .none⟩) (by rintro c ⟨⟩)
  rw [parseFrames, lines_report haddr fun m hm => (hquiet m hm).code.1, List.foldl_append, hg,
    List.foldl_cons, List.foldl_nil, flush_resting hresting, hflush]
  rfl

/-- With different addresses every machine gets the result of its own frame. -/
theorem answerIn_own (hips : (batch.map Machine.ip).Nodup) (haddr : ∀ m ∈ batch, IsAddress m.ip)
    (hquiet : ∀ m ∈ batch, Quiet m) (hmark : ∀ m ∈ batch, ∀ line ∈ lines m.out, ¬IsMarker line)
    (hend : ∀ m ∈ batch, m.out = [] ∨ m.out.getLast? = some 10) (stderr : Text) (hm : m ∈ batch) :
    answerIn batch stderr m = ownResult m := by
  rw [answerIn, answerOf, parse_report haddr hquiet hmark hend, List.findRev?_eq_find?_reverse]
  have hsome : ((batch.map ownResult).reverse.find? (·.ip == m.ip)).isSome = true := by
    rw [List.find?_isSome]
    exact ⟨ownResult m, by simpa using ⟨m, hm, rfl⟩, by simp [ownResult]⟩
  obtain ⟨r, hr⟩ := Option.isSome_iff_exists.mp hsome
  have hip : r.ip = m.ip := by simpa using List.find?_some hr
  obtain ⟨k, hk, rfl⟩ := List.mem_map.mp (List.mem_reverse.mp (List.mem_of_find?_eq_some hr))
  rw [hr, List.inj_on_of_nodup_map hips hk hm hip]
  rfl

theorem classifyReach_ok {r : FanoutResult} : classifyReach r = .ok ↔ r.rc = 0 := by
  have hcomplaint : ∀ c ∈ complaints, c.1 ≠ .ok := by decide
  constructor
  · intro h
    by_contra hrc
    rw [classifyReach, if_neg hrc] at h
    split at h
    · cases h
    split at h
    · cases h
    split at h
    · rename_i complaint hfind
      exact hcomplaint _ (List.mem_of_find?_eq_some hfind) h
    split at h
    · cases h
    split at h
    · cases h
    split at h <;> cases h
  · intro h
    rw [classifyReach, if_pos h]

theorem own_ownResult (h : Clean m) : Own m (ownResult m) (ownResult m) where
  alone := rfl
  stdout := rfl
  code rc hrc := by simp [ownResult, shownCode, hrc]
  ok hok := by
    obtain ⟨rc, hrc⟩ := Option.ne_none_iff_exists'.mp h.readable
    have hzero := classifyReach_ok.mp hok
    simp only [ownResult, shownCode, hrc, Option.getD_some] at hzero
    rw [hrc, hzero]

/-! ### What an answer can show -/

/-- The lines of a result's output are no markers, wherever they come from. -/
def Unmarked (body : List Text) : Prop := ∀ line ∈ body, ¬IsMarker line ∧ 10 ∉ line

structure UnmarkedFrames (f : Frames) : Prop where
  out : ∀ r ∈ f.out, ∃ body, Unmarked body ∧ r.stdout = join [10] body
  current : ∀ c ∈ f.current, Unmarked c.body

theorem UnmarkedFrames.flush (h : UnmarkedFrames f) :
    ∀ r ∈ f.flush, ∃ body, Unmarked body ∧ r.stdout = join [10] body := by
  intro r hr
  obtain hr | hr := List.mem_append.mp hr
  · exact h.out r hr
  · obtain ⟨c, hc, rfl⟩ := Option.map_eq_some_iff.mp (Option.mem_toList.mp hr)
    exact ⟨c.body, h.current c hc, rfl⟩

theorem unmarked_readInside (hhost : line ≠ FRAME.host) (hline : 10 ∉ line)
    {p : Current × Target} (hp : Unmarked p.1.body) : Unmarked (readInside p line).1.body := by
  by_cases hmarker : IsMarker line
  · have hkeep : (readInside p line).1 = p.1 := by
      rw [readInside]
      obtain h | h | h | h := hmarker
      · exact absurd h hhost
      all_goals split_ifs <;> rfl
    rw [hkeep]
    exact hp
  rw [readInside_plain hmarker]
  obtain ⟨c, target⟩ := p
  cases target with
  | out =>
    intro l hl
    obtain hl | hl := List.mem_append.mp hl
    · exact hp l hl
    · rw [List.mem_singleton.mp hl]
      exact ⟨hmarker, hline⟩
  | _ => exact hp

theorem UnmarkedFrames.readLine (h : UnmarkedFrames f) (hline : 10 ∉ line) :
    UnmarkedFrames (readLine f line) := by
  rw [Fleet.readLine]
  split
  · refine ⟨h.flush, ?_⟩
    rintro c ⟨⟩ l hl
    cases hl
  rename_i hhost
  cases hcurrent : f.current with
  | none => exact h
  | some c =>
    refine ⟨h.out, ?_⟩
    rintro d ⟨⟩
    exact unmarked_readInside hhost hline (h.current c hcurrent)

theorem unmarked_lines {ls : List Text} (hls : ∀ line ∈ ls, 10 ∉ line) (h : UnmarkedFrames f) :
    UnmarkedFrames (ls.foldl readLine f) := by
  induction ls generalizing f with
  | nil => exact h
  | cons line ls ih =>
    exact ih (fun l hl => hls l (List.mem_cons_of_mem line hl))
      (h.readLine (hls line List.mem_cons_self))

/-- No answer shows a marker as a line of its output. -/
theorem answerOf_unmarked (res : ExecResult) (ip : Text) :
    ∃ body, Unmarked body ∧ (answerOf res ip).stdout = join [10] body := by
  have hframes : UnmarkedFrames ((lines res.stdout).foldl readLine ⟨[], none, .none⟩) :=
    unmarked_lines (fun line hline => plain_of_mem_lines hline) ⟨by simp, by simp⟩
  rw [answerOf]
  cases hfind : (parseFrames res.stdout).findRev? (·.ip == ip) with
  | none => exact ⟨[], by simp [Unmarked], rfl⟩
  | some r =>
    rw [List.findRev?_eq_find?_reverse] at hfind
    exact hframes.flush r (List.mem_reverse.mp (List.mem_of_find?_eq_some hfind))

/-- An output that is shown as it is has no marker on a line. -/
theorem unmarked_of_shown {res : ExecResult} {ip : Text}
    (h : (answerOf res ip).stdout = chomp text) : ∀ line ∈ lines text, ¬IsMarker line := by
  obtain ⟨body, hbody, hjoin⟩ := answerOf_unmarked res ip
  have hempty : ¬IsMarker [] := by decide
  have hchomp : ∀ line ∈ lines (chomp text), ¬IsMarker line := by
    rw [← h, hjoin]
    by_cases hne : body = []
    · rw [hne]
      intro line hline
      rw [List.mem_singleton.mp hline]
      exact hempty
    · rw [lines_join (fun line hline => (hbody line hline).2) hne]
      exact fun line hline => (hbody line hline).1
  by_cases hend : text.getLast? = some 10
  · rw [chomp_ended hend, lines_line]
    intro line hline
    obtain hline | hline := List.mem_append.mp hline
    · exact hchomp line hline
    · rw [List.mem_singleton.mp hline]
      exact hempty
  · rwa [chomp_open hend] at hchomp

/-- The marker of the complaint is read as a marker only at the start of a line. -/
theorem not_marker_append {t : Text} (h : t ≠ []) : ¬IsMarker (t ++ FRAME.err) := by
  have hcut : ∀ marker ∈ [FRAME.host, FRAME.rc, FRAME.out, FRAME.err], ∀ k < 13, 0 < k →
      marker.drop k ≠ FRAME.err := by decide
  have hlength : ∀ marker ∈ [FRAME.host, FRAME.rc, FRAME.out, FRAME.err], marker.length < 13 := by
    decide
  have hpos := List.length_pos_iff.mpr h
  have hnot : ∀ marker ∈ [FRAME.host, FRAME.rc, FRAME.out, FRAME.err], t ++ FRAME.err ≠ marker := by
    intro marker hmarker heq
    have hlen := hlength marker hmarker
    rw [← heq, List.length_append] at hlen
    refine hcut marker hmarker t.length (by omega) hpos ?_
    rw [← heq, List.drop_left]
  rintro (heq | heq | heq | heq)
  all_goals exact hnot _ (by simp) heq

/-- An output that does not end its last line takes the marker and the complaint with it. -/
theorem ended_of_shown (haddr : IsAddress m.ip) (hquiet : Quiet m)
    (hmark : ∀ line ∈ lines m.out, ¬IsMarker line) {stderr : Text}
    (h : (answerIn [m] stderr m).stdout = chomp m.out) :
    m.out = [] ∨ m.out.getLast? = some 10 := by
  by_contra hopen
  rw [not_or] at hopen
  obtain ⟨front, last, hlines, hglued⟩ := lines_append m.out (by decide : 10 ∉ FRAME.err)
  have hlast := last_line_ne_nil hopen.1 hopen.2 hlines
  have hbody : ∀ line ∈ front ++ [last ++ FRAME.err] ++ lines m.err ++ [[]], ¬IsMarker line := by
    simp only [List.mem_append, List.mem_singleton]
    rintro line (((hline | rfl) | hline) | rfl)
    · exact hmark line (by rw [hlines]; exact List.mem_append_left _ hline)
    · exact not_marker_append hlast
    · exact hquiet.err line hline
    · decide
  have hframe : frameLines m ++ [[]] = m.ip :: FRAME.rc :: m.code :: FRAME.out ::
      (front ++ [last ++ FRAME.err] ++ lines m.err ++ [[]]) := by
    simp [frameLines, hglued]
  have hhost : FRAME.host ∉ frameLines m ++ [[]] := by
    rw [hframe]
    simp only [List.mem_cons, not_or]
    exact ⟨fun heq => haddr.unmarked (.inl heq.symm), by decide,
      fun heq => hquiet.code.2 (.inl heq.symm), by decide, fun hmem => hbody _ hmem (.inl rfl)⟩
  -- one frame whose output runs to its end
  have hparse : parseFrames (utf8Text (report [m])) = [⟨m.ip, shownCode m,
      join [10] (front ++ [last ++ FRAME.err] ++ lines m.err ++ [[]]), trim (join [10] [])⟩] := by
    have hlinesOf : lines (utf8Text (report [m])) =
        [m].flatMap (fun m => FRAME.host :: frameLines m) ++ [[]] :=
      lines_report (by simpa using haddr) (by simpa using hquiet.code.1)
    rw [List.flatMap_singleton, List.cons_append] at hlinesOf
    rw [parseFrames, hlinesOf, read_frame hhost, hframe, inside_head haddr hquiet.code.2,
      inside_out hbody]
    rfl
  have hshown : (answerIn [m] stderr m).stdout =
      join [10] (front ++ [last ++ FRAME.err] ++ lines m.err ++ [[]]) := by
    rw [answerIn, answerOf, hparse]
    simp
  rw [hshown, chomp_open hopen.2, ← join_lines m.out] at h
  have hplain : ∀ line ∈ front ++ [last ++ FRAME.err] ++ lines m.err ++ [[]], 10 ∉ line := by
    simp only [List.mem_append, List.mem_singleton]
    rintro line (((hline | rfl) | hline) | rfl)
    · have hout : line ∈ lines m.out := by
        rw [hlines]
        exact List.mem_append_left _ hline
      exact plain_of_mem_lines hout
    · have hout : last ++ FRAME.err ∈ lines (m.out ++ FRAME.err) := by
        rw [hglued]
        simp
      exact plain_of_mem_lines hout
    · exact plain_of_mem_lines hline
    · simp
  have hsame := congrArg lines h
  rw [lines_join hplain (by simp), join_lines, hlines] at hsame
  have hlength := congrArg List.length hsame
  simp at hlength

/-- A target that answered. -/
def answered (ip stdout : String) : Machine := ⟨js ip, some (js "0\n"), js stdout, []⟩

/-- A target that ssh could not reach. -/
def unreached (ip : String) : Machine := ⟨js ip, some (js "255\n"), [], js "No route to host"⟩

/-- A target that prints a frame of another one. -/
def forger : Machine :=
  answered "10.0.0.2" "===BMHOST===\n10.0.0.1\n===BMRC===\n0\n===BMOUT===\nup\n"

/-- A target whose exit code could not be written. -/
def unwritten : Machine := ⟨js "10.0.0.1", some [], [], []⟩

end BoredManager.Fleet
