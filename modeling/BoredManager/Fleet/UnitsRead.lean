import BoredManager.Fleet.Units

/-! A sweep's answer read back: what the machine cut away is gone before the parser counts, so the
parser never says that anything is missing. -/
namespace BoredManager.Fleet.Units
open BoredManager.Js BoredManager.Shared

variable {s t rest word gap : Text} {lines : List Text} {m : Machine} {rules : SweepRules}
  {watched : List Config.WatchedUnit}

/-! ### Words -/

theorem splitRunsFrom_word (hsolid : ∀ u ∈ word, isSpace u = false) (hrest : rest.head?.all isSpace) :
    splitRunsFrom isSpace false (word ++ rest) =
      match rest with
      | [] => [word]
      | _ :: more => word :: splitRunsFrom isSpace true more := by
  induction word with
  | nil =>
    cases rest with
    | nil => rfl
    | cons u more =>
      have hspace : isSpace u = true := by simpa using hrest
      rw [List.nil_append, splitRunsFrom, if_pos hspace, if_neg (by decide)]
  | cons u word ih =>
    have hu : ¬isSpace u = true := by simp [hsolid u List.mem_cons_self]
    rw [List.cons_append, splitRunsFrom, if_neg hu, ih fun v hv => hsolid v (List.mem_cons_of_mem _ hv)]
    cases rest <;> rfl

theorem splitRunsFrom_gap (hgap : ∀ u ∈ gap, isSpace u = true) (hne : word ≠ [])
    (hsolid : ∀ u ∈ word, isSpace u = false) :
    splitRunsFrom isSpace true (gap ++ (word ++ rest)) = splitRunsFrom isSpace false (word ++ rest) := by
  induction gap with
  | nil =>
    obtain ⟨u, word, rfl⟩ := List.exists_cons_of_ne_nil hne
    have hu : ¬isSpace u = true := by simp [hsolid u List.mem_cons_self]
    rw [List.nil_append, List.cons_append, splitRunsFrom, splitRunsFrom, if_neg hu, if_neg hu]
  | cons u gap ih =>
    rw [List.cons_append, splitRunsFrom, if_pos (hgap u List.mem_cons_self), if_pos rfl,
      ih fun v hv => hgap v (List.mem_cons_of_mem _ hv)]

/-- A column, and the columns behind it. -/
theorem splitRunsFrom_column {next : Text} (hsolid : ∀ u ∈ word, isSpace u = false)
    (hgap : ∀ u ∈ gap, isSpace u = true) (hgapne : gap ≠ []) (hne : next ≠ [])
    (hnext : ∀ u ∈ next, isSpace u = false) :
    splitRunsFrom isSpace false (word ++ (gap ++ (next ++ rest))) =
      word :: splitRunsFrom isSpace false (next ++ rest) := by
  obtain ⟨u, gap, rfl⟩ := List.exists_cons_of_ne_nil hgapne
  have hu : isSpace u = true := hgap u List.mem_cons_self
  rw [splitRunsFrom_word hsolid (by simp [hu])]
  exact congrArg (word :: ·)
    (splitRunsFrom_gap (fun v hv => hgap v (List.mem_cons_of_mem _ hv)) hne hnext)

theorem trim_append_left (h : ∀ u ∈ s, isSpace u = true) : trim (s ++ t) = trim t := by
  rw [trim, trim, List.dropWhile_append_of_pos h]

/-- The words of a listed line begin with its columns. -/
theorem ListedUnit.words_line (u : ListedUnit) :
    ∃ more, words u.line = u.unit.text :: u.load.text :: u.active.text :: u.sub.text :: more := by
  obtain ⟨hgap1, hgap2, hgap3⟩ := u.gaps_gap
  obtain ⟨hne1, hne2, hne3⟩ := u.gaps_ne_nil
  have hindent : trim u.line = trim (u.unit.text ++ (u.gaps.1 ++ (u.load.text ++ (u.gaps.2.1 ++
      (u.active.text ++ (u.gaps.2.2 ++ (u.sub.text ++ u.tail))))))) :=
    trim_append_left fun v hv => (u.indent_gap v hv).1
  -- the core of the line ends at the fourth column
  have hcore : u.unit.text ++ (u.gaps.1 ++ (u.load.text ++ (u.gaps.2.1 ++ (u.active.text ++
      (u.gaps.2.2 ++ (u.sub.text ++ u.tail)))))) = (u.unit.text ++ (u.gaps.1 ++ (u.load.text ++
      (u.gaps.2.1 ++ (u.active.text ++ (u.gaps.2.2 ++ u.sub.text)))))) ++ u.tail := by
    simp only [List.append_assoc]
  obtain ⟨tail, blanks, htail, -, htrim⟩ := trim_append_tail (t := u.tail)
    (c := u.unit.text ++ (u.gaps.1 ++ (u.load.text ++ (u.gaps.2.1 ++ (u.active.text ++
      (u.gaps.2.2 ++ u.sub.text))))))
    (List.append_ne_nil_of_left_ne_nil u.unit.ne_nil _)
    (fun v hv => by
      rw [List.head?_append_of_ne_nil _ u.unit.ne_nil] at hv
      exact u.unit.solid v (List.mem_of_head? hv))
    (fun v hv => by
      simp only [← List.append_assoc] at hv
      rw [List.getLast?_append_of_ne_nil _ u.sub.ne_nil] at hv
      exact u.sub.solid v (List.mem_of_getLast? hv))
  have hblank : tail.head?.all isSpace := by
    cases tail with
    | nil => rfl
    | cons v tail =>
      have hv := u.tail_blank v (by rw [htail]; rfl)
      simpa using hv
  rw [words, splitRuns, hindent, hcore, htrim]
  simp only [List.append_assoc]
  rw [splitRunsFrom_column u.unit.solid (fun v hv => (hgap1 v hv).1) hne1 u.load.ne_nil u.load.solid,
    splitRunsFrom_column u.load.solid (fun v hv => (hgap2 v hv).1) hne2 u.active.ne_nil u.active.solid,
    splitRunsFrom_column u.active.solid (fun v hv => (hgap3 v hv).1) hne3 u.sub.ne_nil u.sub.solid,
    splitRunsFrom_word u.sub.solid hblank]
  cases tail with
  | nil => exact ⟨_, rfl⟩
  | cons v tail => exact ⟨_, rfl⟩

theorem ListedUnit.trim_line_ne_nil (u : ListedUnit) : trim u.line ≠ [] := by
  intro hnil
  obtain ⟨more, hwords⟩ := u.words_line
  rw [words, hnil] at hwords
  injection hwords with _ hrest
  cases hrest

theorem ListedUnit.one_line (u : ListedUnit) : 10 ∉ u.line := by
  have hword : ∀ w : Word, 10 ∉ w.text := fun w hmem => by cases w.solid 10 hmem
  have hgap : ∀ {gap}, IsGap gap → 10 ∉ gap := fun h hmem => (h 10 hmem).2 rfl
  obtain ⟨hgap1, hgap2, hgap3⟩ := u.gaps_gap
  simp only [ListedUnit.line, List.mem_append, not_or]
  exact ⟨hgap u.indent_gap, hword _, hgap hgap1, hword _, hgap hgap2, hword _, hgap hgap3, hword _,
    u.tail_line⟩

/-! ### The listing -/

/-- Lines that fit under the cap are all read, and nothing is reported missing. -/
theorem readUnits_lines {cap : Nat} {units : List UnitState} (listed : List ListedUnit)
    (hfit : units.length + listed.length ≤ cap) :
    ∃ read, readUnits cap units (listed.map ListedUnit.line) = (units ++ read, false) ∧
      read.map UnitState.columns = listed.map ListedUnit.columns := by
  induction listed generalizing units with
  | nil => exact ⟨[], by rw [List.append_nil]; rfl, rfl⟩
  | cons u listed ih =>
    rw [List.length_cons] at hfit
    obtain ⟨more, hwords⟩ := u.words_line
    generalize hnew : UnitState.mk u.unit.text u.load.text u.active.text u.sub.text [] (join [32] more) = new
    have hstep : readUnits cap units ((u :: listed).map ListedUnit.line) =
        readUnits cap (units ++ [new]) (listed.map ListedUnit.line) := by
      rw [List.map_cons, readUnits, if_neg u.trim_line_ne_nil, hwords]
      dsimp only
      rw [if_neg (by omega), hnew]
    have hlength : (units ++ [new]).length + listed.length ≤ cap := by
      rw [List.length_append, List.length_singleton]
      omega
    obtain ⟨read, heq, hcolumns⟩ := ih hlength
    refine ⟨new :: read, ?_, ?_⟩
    · rw [hstep, heq, List.append_assoc, List.singleton_append]
    · rw [List.map_cons, hcolumns, ← hnew]
      rfl

/-! ### The blocks -/

/-- Every line behind the first begins with no blank, and the text ends with no line feed. -/
def Solid : Text → Prop
  | [] => True
  | u :: s => (u = 10 → s.head?.any fun v => !isSpace v) ∧ Solid s

theorem solid_of_one_line (h : 10 ∉ s) : Solid s := by
  induction s with
  | nil => trivial
  | cons u s ih =>
    rw [List.mem_cons, not_or] at h
    exact ⟨fun heq => absurd heq.symm h.1, ih h.2⟩

theorem Solid.append_line (hs : Solid s) (hhead : t.head?.any fun v => !isSpace v) (ht : Solid t)
    (hone : 10 ∉ s) : Solid (s ++ 10 :: t) := by
  induction s with
  | nil => exact ⟨fun _ => hhead, ht⟩
  | cons u s ih =>
    rw [List.mem_cons, not_or] at hone
    exact ⟨fun heq => absurd heq.symm hone.1, ih hs.2 hone.2⟩

/-- Lines that begin with no blank make one block. -/
theorem solid_join (h : ∀ line ∈ lines, 10 ∉ line ∧ (line.head?.any fun v => !isSpace v)) :
    Solid (join [10] lines) := by
  induction lines with
  | nil => trivial
  | cons line lines ih =>
    obtain ⟨hone, -⟩ := h line List.mem_cons_self
    cases lines with
    | nil =>
      have hjoin : join [10] [line] = line := by simp [join]
      rw [hjoin]
      exact solid_of_one_line hone
    | cons next lines =>
      have hjoin : join [10] (line :: next :: lines) = line ++ 10 :: join [10] (next :: lines) := by
        rw [join, List.intercalate_cons_of_ne_nil (List.cons_ne_nil _ _), List.append_assoc]
        rfl
      have hnext := (h next (by simp)).2
      have hhead : (join [10] (next :: lines)).head?.any fun v => !isSpace v := by
        cases next with
        | nil => cases hnext
        | cons v next => cases lines <;> simpa [join] using hnext
      rw [hjoin]
      exact (solid_of_one_line hone).append_line hhead
        (ih fun l hl => h l (List.mem_cons_of_mem _ hl)) hone

theorem afterBlankLines_solid (h : s.head?.any fun v => !isSpace v) : afterBlankLines s = none := by
  cases s with
  | nil => rfl
  | cons u s =>
    have hu : ¬isSpace u = true := by simpa using h
    rw [afterBlankLines, List.takeWhile_cons_of_neg hu]
    rfl

theorem splitBlocksFrom_solid {fuel : Nat} (h : Solid s) : splitBlocksFrom fuel s = [s] := by
  induction s generalizing fuel with
  | nil => cases fuel <;> rfl
  | cons u s ih =>
    cases fuel with
    | zero => rfl
    | succ fuel =>
      have hnone : (if u = 10 then afterBlankLines s else none) = none := by
        split_ifs with hu
        · exact afterBlankLines_solid (h.1 hu)
        · rfl
      rw [splitBlocksFrom, hnone, ih h.2]
      rfl

/-- A block ends at the blank line behind it. -/
theorem splitBlocksFrom_append {fuel : Nat} (h : Solid s) (hhead : t.head?.any fun v => !isSpace v)
    (hfuel : s.length < fuel) :
    splitBlocksFrom fuel (s ++ 10 :: 10 :: t) = s :: splitBlocksFrom (fuel - s.length - 1) t := by
  induction s generalizing fuel with
  | nil =>
    obtain ⟨fuel, rfl⟩ : ∃ n, fuel = n + 1 := ⟨fuel - 1, by simp at hfuel; omega⟩
    have hafter : afterBlankLines (10 :: t) = some t := by
      have htake : t.takeWhile isSpace = [] ∧ t.dropWhile isSpace = t := by
        cases t with
        | nil => exact ⟨rfl, rfl⟩
        | cons v t =>
          have hv : ¬isSpace v = true := by simpa using hhead
          exact ⟨List.takeWhile_cons_of_neg hv, List.dropWhile_cons_of_neg hv⟩
      rw [afterBlankLines, List.takeWhile_cons_of_pos rfl, List.dropWhile_cons_of_pos rfl, htake.1, htake.2]
      rfl
    rw [List.nil_append, splitBlocksFrom, if_pos rfl, hafter]
    rfl
  | cons u s ih =>
    obtain ⟨fuel, rfl⟩ : ∃ n, fuel = n + 1 := ⟨fuel - 1, by rw [List.length_cons] at hfuel; omega⟩
    rw [List.length_cons] at hfuel
    have hnone : (if u = 10 then afterBlankLines (s ++ 10 :: 10 :: t) else none) = none := by
      split_ifs with hu
      · have hs := h.1 hu
        refine afterBlankLines_solid ?_
        cases s with
        | nil => cases hs
        | cons v s => exact hs
      · rfl
    rw [List.cons_append, splitBlocksFrom, hnone]
    dsimp only
    rw [ih h.2 (by omega), List.modifyHead_cons, List.length_cons]
    congr 2
    omega

theorem ShownUnit.props_ne_nil (u : ShownUnit) : u.props ≠ [] := List.ne_nil_of_mem u.id_mem

theorem ShownUnit.line_head (u : ShownUnit) :
    ∀ line ∈ u.lines, 10 ∉ line ∧ (line.head?.any fun v => !isSpace v) ∧ line.head? ≠ some 61 := by
  intro line hline
  obtain ⟨p, hp, rfl⟩ := List.mem_map.mp hline
  obtain ⟨hne, hkey⟩ := u.keys p hp
  obtain ⟨v, key, hcons⟩ := List.exists_cons_of_ne_nil hne
  have hletter : ∀ w ∈ p.1, w ≠ 10 ∧ isSpace w = false ∧ w ≠ 61 := by
    intro w hw
    have hw := hkey w hw
    simp only [isUpper, isLower, Bool.and_eq_true, decide_eq_true_eq] at hw
    refine ⟨by omega, ?_, by omega⟩
    simp only [isSpace, Bool.or_eq_false_iff, Bool.and_eq_false_iff, decide_eq_false_iff_not,
      beq_eq_false_iff_ne]
    omega
  have hv := hletter v (by rw [hcons]; exact List.mem_cons_self)
  refine ⟨?_, ?_, ?_⟩
  · simp only [List.mem_append, List.mem_cons, not_or]
    exact ⟨fun hmem => (hletter 10 hmem).1 rfl, by decide, u.values p hp⟩
  · rw [hcons]
    simpa using hv.2.1
  · rw [hcons]
    simpa using hv.2.2

theorem ShownUnit.block_head (u : ShownUnit) (rest : Text) :
    (join [10] u.lines ++ rest).head?.any fun v => !isSpace v := by
  obtain ⟨p, props, hcons⟩ := List.exists_cons_of_ne_nil u.props_ne_nil
  obtain ⟨-, hhead, -⟩ := u.line_head (p.1 ++ 61 :: p.2) (by
    rw [ShownUnit.lines, hcons]
    exact List.mem_cons_self)
  have hlines : u.lines = (p.1 ++ 61 :: p.2) :: props.map fun p => p.1 ++ 61 :: p.2 := by
    rw [ShownUnit.lines, hcons]
    rfl
  rw [hlines]
  generalize p.1 ++ 61 :: p.2 = line at hhead ⊢
  cases line with
  | nil => cases hhead
  | cons v line => cases props <;> simpa [join] using hhead

theorem ShownUnit.solid_block (u : ShownUnit) : Solid (join [10] u.lines) :=
  solid_join fun line hline => ⟨(u.line_head line hline).1, (u.line_head line hline).2.1⟩

theorem join_append {before after : List Text} (hbefore : before ≠ []) (hafter : after ≠ []) :
    join [10] (before ++ after) = join [10] before ++ 10 :: join [10] after := by
  induction before with
  | nil => exact absurd rfl hbefore
  | cons line before ih =>
    have hjoin : ∀ {more : List Text}, more ≠ [] →
        join [10] (line :: more) = line ++ 10 :: join [10] more := by
      intro more hmore
      rw [join, List.intercalate_cons_of_ne_nil hmore, List.append_assoc]
      rfl
    cases before with
    | nil =>
      have hone : join [10] [line] = line := by simp [join]
      rw [List.singleton_append, hjoin hafter, hone]
    | cons next before =>
      rw [List.cons_append, hjoin (by simp), ih (by simp), hjoin (by simp), List.append_assoc,
        List.cons_append]

/-- The text of blocks, a blank line between two. -/
def showText (blocks : List ShownUnit) : Text :=
  join [10] ([[]].intercalate (blocks.map ShownUnit.lines))

theorem showText_cons_cons (u next : ShownUnit) (blocks : List ShownUnit) :
    showText (u :: next :: blocks) = join [10] u.lines ++ 10 :: 10 :: showText (next :: blocks) := by
  have hmore : [[]].intercalate ((next :: blocks).map ShownUnit.lines) ≠ [] := by
    rw [List.map_cons]
    cases blocks with
    | nil =>
      rw [List.map_nil, List.intercalate_singleton, ShownUnit.lines]
      simpa using next.props_ne_nil
    | cons other blocks => simp [List.intercalate_cons_of_ne_nil]
  have hlist : [[]].intercalate ((u :: next :: blocks).map ShownUnit.lines) =
      u.lines ++ ([[]] ++ [[]].intercalate ((next :: blocks).map ShownUnit.lines)) := by
    rw [List.map_cons, List.intercalate_cons_of_ne_nil (by simp), List.append_assoc]
  have hlines : u.lines ≠ [] := by
    rw [ShownUnit.lines]
    simpa using u.props_ne_nil
  rw [showText, hlist, join_append hlines (by simp), join_append (by simp) hmore]
  rfl

/-- The parser finds the blocks. -/
theorem splitBlocksFrom_showText (u : ShownUnit) (blocks : List ShownUnit) {fuel : Nat}
    (hfuel : (showText (u :: blocks)).length ≤ fuel) :
    splitBlocksFrom fuel (showText (u :: blocks)) = (u :: blocks).map fun b => join [10] b.lines := by
  induction blocks generalizing u fuel with
  | nil =>
    have hone : showText [u] = join [10] u.lines := by
      rw [showText, List.map_singleton, List.intercalate_singleton]
    rw [hone, splitBlocksFrom_solid u.solid_block]
    rfl
  | cons next blocks ih =>
    rw [showText_cons_cons] at hfuel ⊢
    rw [List.length_append, List.length_cons, List.length_cons] at hfuel
    have hhead : (showText (next :: blocks)).head?.any fun v => !isSpace v := by
      cases blocks with
      | nil =>
        have hblock := next.block_head []
        rw [List.append_nil] at hblock
        rw [showText, List.map_singleton, List.intercalate_singleton]
        exact hblock
      | cons other blocks =>
        rw [showText_cons_cons]
        exact next.block_head _
    rw [splitBlocksFrom_append u.solid_block hhead (by omega), ih next (by omega)]
    rfl

theorem ShownUnit.property_line (u : ShownUnit) {p : Text × Text} (hp : p ∈ u.props) :
    property (p.1 ++ 61 :: p.2) = some (p.1, trim p.2) := by
  obtain ⟨hne, hkey⟩ := u.keys p hp
  have hletter : ∀ w ∈ p.1, isSpace w = false ∧ decide (w ≠ 61) = true := by
    intro w hw
    have hw := hkey w hw
    simp only [isUpper, isLower, Bool.and_eq_true, decide_eq_true_eq] at hw
    refine ⟨?_, decide_eq_true (by omega)⟩
    simp only [isSpace, Bool.or_eq_false_iff, Bool.and_eq_false_iff, decide_eq_false_iff_not,
      beq_eq_false_iff_ne]
    omega
  have hfree : ∀ w ∈ p.1, decide (w ≠ 61) = true := fun w hw => (hletter w hw).2
  have htake : (p.1 ++ 61 :: p.2).takeWhile (fun w => decide (w ≠ 61)) = p.1 := by
    rw [List.takeWhile_append_of_pos hfree, List.takeWhile_cons_of_neg (by decide), List.append_nil]
  have hdrop : (p.1 ++ 61 :: p.2).dropWhile (fun w => decide (w ≠ 61)) = 61 :: p.2 := by
    rw [List.dropWhile_append_of_pos hfree, List.dropWhile_cons_of_neg (by decide)]
  simp only [property, hdrop, htake, if_neg hne, trim_eq_self fun w hw => (hletter w hw).1]

/-- What a block says of a property is what one of its lines holds. -/
theorem ShownUnit.find?_eq_some (u : ShownUnit) (key value : Text) :
    ((u.props.find? fun p => decide (p.1 = key)).map fun p => trim p.2) = some value ↔
      (key, value) ∈ u.props.map fun p => (p.1, trim p.2) := by
  have hget : ((u.props.find? fun p => decide (p.1 = key)).map fun p => trim p.2) =
      ((⟨u.props, u.keys_nodup⟩ : OrderedMap Text Text).get? key).map trim := by
    rw [OrderedMap.get?, Option.map_map]
    rfl
  rw [hget, Option.map_eq_some_iff, List.mem_map]
  constructor
  · rintro ⟨v, hv, rfl⟩
    exact ⟨(key, v), OrderedMap.get?_eq_some.mp hv, rfl⟩
  · rintro ⟨p, hp, heq⟩
    injection heq with hkey hvalue
    exact ⟨p.2, OrderedMap.get?_eq_some.mpr (hkey ▸ hp), hvalue⟩

/-- A block is read as the state that it states. -/
theorem ShownUnit.blockState_lines (u : ShownUnit) : blockState (join [10] u.lines) = some u.state := by
  have hcut : (join [10] u.lines).splitOn 10 = u.lines := by
    refine List.splitOn_intercalate 10 (fun line hline => (u.line_head line hline).1) ?_
    rw [ShownUnit.lines]
    simpa using u.props_ne_nil
  have hread : u.lines.filterMap property = u.props.map fun p => (p.1, trim p.2) := by
    rw [ShownUnit.lines, List.filterMap_map, ← List.filterMap_eq_map]
    exact List.filterMap_congr fun p hp => u.property_line hp
  have hkeys : (u.props.map fun p => (p.1, trim p.2)).map Prod.fst = u.props.map Prod.fst := by
    rw [List.map_map]
    rfl
  have hsaid : ∀ name, ((parseIdSection (join [10] u.lines)).get? (js name)).getD [] = u.said name := by
    intro name
    rw [parseIdSection, hcut, hread, ShownUnit.said]
    congr 1
    refine Option.ext fun value => ?_
    rw [OrderedMap.get?_ofList_of_nodup (hkeys ▸ u.keys_nodup), u.find?_eq_some]
  have hid : u.said "Id" = trim u.id := by
    rw [ShownUnit.said, (u.find?_eq_some (js "Id") (trim u.id)).mpr
      (List.mem_map.mpr ⟨(js "Id", u.id), u.id_mem, rfl⟩)]
    rfl
  have hne : u.said "Id" ≠ [] := hid ▸ u.id_ne_nil
  simp only [blockState, hsaid, if_neg hne]
  rfl

/-- The watched states are the printed blocks. -/
theorem parseShow_showText (blocks : List ShownUnit) :
    parseShow (showText blocks) = blocks.map ShownUnit.state := by
  cases blocks with
  | nil => rfl
  | cons u blocks =>
    rw [parseShow, splitBlocks, splitBlocksFrom_showText u blocks le_rfl, List.filterMap_map,
      ← List.filterMap_eq_map]
    exact List.filterMap_congr fun b _ => b.blockState_lines

/-! ### The sections -/

/-- The sections of the script's output. -/
def Machine.sections (m : Machine) (watched : List Config.WatchedUnit) (rules : SweepRules) :
    List (Text × List Text) :=
  [(js "ID", m.idLines)] ++
  (if rules.unitScope = .watched then []
    else [(js "UNITS", ((m.list rules.unitScope).map ListedUnit.line).take (headCount rules))]) ++
  (if watchedNames watched = [] then []
    else [(js "WATCHED",
      [[]].intercalate ((watchedNames watched).map fun unit => (m.shows unit).lines))]) ++
  [(js "END", [[]])]

theorem Machine.sweep_eq (m : Machine) (watched : List Config.WatchedUnit) (rules : SweepRules) :
    m.sweep watched rules = join [10] (sectionLines (m.sections watched rules)) := by
  have hlines : sectionLines (m.sections watched rules) = m.sweepLines watched rules ++ [[]] := by
    have hid : marker (js "ID") = js "===ID===" := rfl
    have hunits : marker (js "UNITS") = js "===UNITS===" := rfl
    have hwatched : marker (js "WATCHED") = js "===WATCHED===" := rfl
    have hend : marker (js "END") = js "===END===" := rfl
    rw [Machine.sections, Machine.sweepLines]
    split_ifs <;> simp [sectionLines, hid, hunits, hwatched, hend]
  rw [hlines, join_append_lines _ (by simp)]
  exact (List.append_nil _).symm

theorem mem_intercalate_blank {blocks : List (List Text)} {line : Text}
    (h : line ∈ [[]].intercalate blocks) : line = [] ∨ ∃ block ∈ blocks, line ∈ block := by
  induction blocks with
  | nil => cases h
  | cons block blocks ih =>
    by_cases hnil : blocks = []
    · subst hnil
      rw [List.intercalate_singleton] at h
      exact .inr ⟨block, List.mem_cons_self, h⟩
    · rw [List.intercalate_cons_of_ne_nil hnil, List.mem_append, List.mem_append, List.mem_singleton] at h
      obtain (h | h) | h := h
      · exact .inr ⟨block, List.mem_cons_self, h⟩
      · exact .inl h
      · exact (ih h).imp_right fun ⟨b, hb, hline⟩ => ⟨b, List.mem_cons_of_mem _ hb, hline⟩

theorem ListedUnit.isTextLine (u : ListedUnit) : IsTextLine u.line := by
  obtain ⟨v, gap, hgap⟩ := List.exists_cons_of_ne_nil u.gaps_ne_nil.1
  have hv : v ∈ u.gaps.1 := hgap ▸ List.mem_cons_self
  have hmem : v ∈ u.line := by simp [ListedUnit.line, hv]
  exact ⟨u.one_line, markerName_of_space hmem (u.gaps_gap.1 v hv).1⟩

theorem ShownUnit.isTextLine (u : ShownUnit) (h : s ∈ u.lines) : IsTextLine s := by
  obtain ⟨hone, hhead, hequals⟩ := u.line_head s h
  refine ⟨hone, ?_⟩
  cases s with
  | nil => rfl
  | cons v s => exact markerName_of_head (u := v) rfl fun heq => hequals (by rw [heq]; rfl)

theorem Machine.isTextLine_idLines (m : Machine) : ∀ line ∈ m.idLines, IsTextLine line := by
  have hline : ∀ (v : Nat) (name text : Text), v ≠ 61 → 10 ∉ v :: name → 10 ∉ text →
      IsTextLine (v :: name ++ text) := by
    intro v name text hv hname htext
    refine ⟨?_, markerName_of_head (u := v) rfl hv⟩
    rw [List.mem_append, not_or]
    exact ⟨hname, htext⟩
  have hone := m.one_line
  simp only [List.cons_append, List.nil_append, List.forall_mem_cons, Option.mem_toList] at hone
  obtain ⟨hhost, hos, huid, hkernel, huptime, hpkg⟩ := hone
  simp only [Machine.idLines, List.forall_mem_append, List.forall_mem_cons, List.not_mem_nil,
    false_implies, implies_true, and_true, Option.mem_toList]
  refine ⟨⟨⟨hline _ _ _ (by decide) (by decide) hhost, hline _ _ _ (by decide) (by decide) hos,
    ?_, hline _ _ _ (by decide) (by decide) huid, hline _ _ _ (by decide) (by decide) hkernel,
    hline _ _ _ (by decide) (by decide) huptime⟩, ?_⟩, ?_⟩
  · exact hline _ _ _ (by decide) (by decide) (by split_ifs <;> decide)
  · intro line hmem
    obtain ⟨pkg, hpkgs, rfl⟩ := Option.map_eq_some_iff.mp hmem
    exact hline _ _ _ (by decide) (by decide) (hpkg pkg hpkgs)
  · exact hline _ _ _ (by decide) (by decide) (by split_ifs <;> decide)

theorem Machine.isTextLine_sections (m : Machine) (watched : List Config.WatchedUnit) (rules : SweepRules) :
    ∀ s ∈ m.sections watched rules, ∀ line ∈ s.2, IsTextLine line := by
  have hunits : ∀ line ∈ ((m.list rules.unitScope).map ListedUnit.line).take (headCount rules),
      IsTextLine line := by
    intro line hline
    obtain ⟨u, -, rfl⟩ := List.mem_map.mp (List.mem_of_mem_take hline)
    exact u.isTextLine
  have hblank : IsTextLine [] := ⟨List.not_mem_nil, rfl⟩
  have hshow : ∀ line ∈ [[]].intercalate ((watchedNames watched).map fun unit => (m.shows unit).lines),
      IsTextLine line := by
    intro line hline
    obtain rfl | ⟨block, hblock, hline⟩ := mem_intercalate_blank hline
    · exact hblank
    · obtain ⟨unit, -, rfl⟩ := List.mem_map.mp hblock
      exact (m.shows unit).isTextLine hline
  have hid := m.isTextLine_idLines
  rw [Machine.sections]
  split_ifs <;> simp only [List.forall_mem_append, List.forall_mem_cons, List.not_mem_nil,
    false_implies, implies_true, and_true, List.append_nil] <;> simp_all

theorem Machine.splitSections_sweep (m : Machine) (watched : List Config.WatchedUnit) (rules : SweepRules) :
    splitSections (m.sweep watched rules) =
      .ofList ((m.sections watched rules).map fun s => (s.1, join [10] s.2)) := by
  have hid : IsName (js "ID") := by decide
  have hunits : IsName (js "UNITS") := by decide
  have hwatched : IsName (js "WATCHED") := by decide
  have hend : IsName (js "END") := by decide
  rw [m.sweep_eq]
  refine splitSections_sectionLines (by simp [Machine.sections]) ?_ (m.isTextLine_sections watched rules)
  rw [Machine.sections]
  split_ifs <;> simp [hid, hunits, hwatched, hend]

/-- The section of the units holds what `head` let through. -/
theorem Machine.get?_units (m : Machine) (watched : List Config.WatchedUnit) (rules : SweepRules) :
    ((splitSections (m.sweep watched rules)).get? (js "UNITS")).getD [] =
      join [10] (((m.listed rules.unitScope).map ListedUnit.line).take (headCount rules)) := by
  rw [m.splitSections_sweep, OrderedMap.get?_ofList, Machine.sections, Machine.listed]
  split_ifs
  · rw [List.map_nil, List.take_nil]
    rfl
  · rw [List.map_nil, List.take_nil]
    rfl
  · rfl
  · rfl

theorem Machine.get?_watched (m : Machine) (watched : List Config.WatchedUnit) (rules : SweepRules) :
    ((splitSections (m.sweep watched rules)).get? (js "WATCHED")).getD [] =
      showText ((watchedNames watched).map m.shows) := by
  have hshow : showText ((watchedNames watched).map m.shows) =
      join [10] ([[]].intercalate ((watchedNames watched).map fun unit => (m.shows unit).lines)) := by
    rw [showText, List.map_map]
    rfl
  rw [hshow, m.splitSections_sweep, OrderedMap.get?_ofList, Machine.sections]
  split_ifs with hscope hnames hnames
  · rw [hnames]
    rfl
  · rfl
  · rw [hnames]
    rfl
  · rfl

/-! ### What the sweep says -/

theorem headCount_eq (rules : SweepRules) : headCount rules = rules.maxUnitsPerHost :=
  max_eq_right rules.min_le

/-- Whatever a machine lists, its answer holds the units up to the cap, and never says that one is
missing. -/
theorem parseListUnits_sweep (m : Machine) (watched : List Config.WatchedUnit) (rules : SweepRules) :
    (parseSweep (m.sweep watched rules) rules.maxUnitsPerHost).units.map UnitState.columns =
        ((m.listed rules.unitScope).take rules.maxUnitsPerHost).map ListedUnit.columns ∧
      (parseSweep (m.sweep watched rules) rules.maxUnitsPerHost).truncated = false := by
  have hfit : (List.nil : List UnitState).length +
      ((m.listed rules.unitScope).take rules.maxUnitsPerHost).length ≤ rules.maxUnitsPerHost := by
    rw [List.length_nil, List.length_take]
    omega
  obtain ⟨read, hread, hcolumns⟩ := readUnits_lines _ hfit
  have hlisted : parseListUnits (((splitSections (m.sweep watched rules)).get? (js "UNITS")).getD [])
      rules.maxUnitsPerHost = (read, false) := by
    rw [m.get?_units, headCount_eq, parseListUnits, ← List.map_take, ← List.nil_append read, ← hread]
    cases hlines : (m.listed rules.unitScope).take rules.maxUnitsPerHost with
    | nil => rfl
    | cons u more =>
      have hone : ∀ line ∈ (u :: more).map ListedUnit.line, 10 ∉ line := by
        intro line hline
        obtain ⟨v, -, rfl⟩ := List.mem_map.mp hline
        exact v.one_line
      rw [join, List.splitOn_intercalate 10 hone (by simp)]
  exact ⟨(congrArg (fun p => p.1.map UnitState.columns) hlisted).trans hcolumns, congrArg Prod.snd hlisted⟩

/-- A sweep says what it hides exactly when it hides nothing: when the machine lists no more units
than the cap. -/
theorem parseSweep_says_so_iff (m : Machine) (watched : List Config.WatchedUnit) (rules : SweepRules) :
    SaysSo m watched rules (parseSweep (m.sweep watched rules) rules.maxUnitsPerHost) ↔
      (m.listed rules.unitScope).length ≤ rules.maxUnitsPerHost := by
  obtain ⟨hunits, htruncated⟩ := parseListUnits_sweep m watched rules
  have hcount : (parseSweep (m.sweep watched rules) rules.maxUnitsPerHost).units.length =
      min rules.maxUnitsPerHost (m.listed rules.unitScope).length := by
    have hlength := congrArg List.length hunits
    simpa using hlength
  constructor
  · intro h
    have hmissing := h.truncated
    rw [htruncated, hcount] at hmissing
    have hnot : ¬min rules.maxUnitsPerHost (m.listed rules.unitScope).length <
        (m.listed rules.unitScope).length := fun hlt => by cases hmissing.mpr hlt
    omega
  · intro hfit
    refine ⟨hunits, ?_, ?_⟩
    · have hwatched : (parseSweep (m.sweep watched rules) rules.maxUnitsPerHost).watched =
          parseShow (((splitSections (m.sweep watched rules)).get? (js "WATCHED")).getD []) := rfl
      rw [hwatched, m.get?_watched, parseShow_showText, List.map_map]
      rfl
    · rw [htruncated, hcount]
      refine ⟨fun h => ?_, fun h => ?_⟩
      · cases h
      · omega

/-- A running service, of eleven. -/
def running (i : Fin 11) : ListedUnit where
  unit := ⟨(97 + i.val) :: js ".service", by simp, by revert i; decide⟩
  load := ⟨js "loaded", by decide, by decide⟩
  active := ⟨js "active", by decide, by decide⟩
  sub := ⟨js "running", by decide, by decide⟩
  indent := []
  gaps := (js " ", js " ", js " ")
  tail := js " A service"
  indent_gap := by decide
  gaps_gap := by decide
  gaps_ne_nil := by decide
  tail_blank := by decide
  tail_line := by decide

def elevenServices : Machine where
  hostname := js "web1"
  os := js "Debian GNU/Linux 12"
  systemd := true
  uid := js "0"
  kernel := js "6.1.0"
  uptime := js "86400.25"
  pkg := some (js "apt-get")
  noPassword := true
  list := fun _ => (List.finRange 11).map running
  shows := fun _ => ⟨[(js "Id", js "a.service")], by decide, by decide, by decide, js "a.service",
    by decide, by decide⟩
  one_line := by decide

def tenLines : SweepRules := ⟨.running, 10, by decide, by decide⟩

theorem hidden_without_a_word :
    ¬SaysSo elevenServices [] tenLines
      (parseSweep (elevenServices.sweep [] tenLines) tenLines.maxUnitsPerHost) := by
  intro h
  have hmissing := h.truncated
  have hshort : (parseSweep (elevenServices.sweep [] tenLines) tenLines.maxUnitsPerHost).units.length <
      (elevenServices.listed tenLines.unitScope).length := by decide +kernel
  have hsays := hmissing.mpr hshort
  revert hsays
  decide +kernel

end BoredManager.Fleet.Units
