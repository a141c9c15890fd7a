import BoredManager.Js.Blanks
import BoredManager.Js.Chunks
import BoredManager.Js.Number
import Mathlib.Data.List.Infix

/-! The rows of the GPU monitor's output: which lines are rows, and what a row says of its GPU. -/
namespace BoredManager.Gpu.Stream
open BoredManager.Js

variable {line : Text} {rows : List Text}

/-- How many fields the query returns; a shorter row was cut off. -/
def GPU_FIELDS : Nat := 17

/-- `parseFloat(v)`, or 0. -/
def num (v : Text) : ℚ := ((Number.parseFloat v).finite?).getD 0

/-- `line.split(',').map((field) => field.trim())` -/
def fieldsOf (line : Text) : List Text := (line.splitOnP (· == 44)).map trim

structure GpuInfo where
  index : ℚ
  name : Text
  utilization : ℚ
  memUtil : ℚ
  memUsedMiB : ℚ
  memTotalMiB : ℚ
  temp : ℚ
  powerDraw : ℚ
  powerLimit : ℚ
  powerMin : ℚ
  powerMax : ℚ
  powerDefault : ℚ
  fan : ℚ
  clockSm : ℚ
  clockMem : ℚ
  persistence : Bool
  driverVersion : Text

/-- The GPU of a row's fields. -/
def gpuOf (f : List Text) : GpuInfo where
  index := num (f.getD 0 [])
  name := f.getD 1 []
  utilization := num (f.getD 2 [])
  memUtil := num (f.getD 3 [])
  memUsedMiB := num (f.getD 4 [])
  memTotalMiB := num (f.getD 5 [])
  temp := num (f.getD 6 [])
  powerDraw := num (f.getD 7 [])
  powerLimit := num (f.getD 8 [])
  powerMin := num (f.getD 9 [])
  powerMax := num (f.getD 10 [])
  powerDefault := num (f.getD 11 [])
  fan := num (f.getD 12 [])
  clockSm := num (f.getD 13 [])
  clockMem := num (f.getD 14 [])
  persistence := (toLowerAscii (f.getD 15 [])).tails.any (js "enabled").isPrefixOf
  driverVersion := f.getD 16 []

def parseLine (line : Text) : Option GpuInfo :=
  if trim line = [] then none
  else if (fieldsOf line).length < GPU_FIELDS then none
  else some (gpuOf (fieldsOf line))

def parseGpus (text : Text) : List GpuInfo :=
  ((trim text).splitOn 10).filterMap parseLine

/-- The lines that the stream takes for rows. -/
def IsRow (line : Text) : Prop := GPU_FIELDS ≤ (fieldsOf line).length

instance (line : Text) : Decidable (IsRow line) := inferInstanceAs (Decidable (_ ≤ _))

def indexOf (line : Text) : ℚ := num ((fieldsOf line).getD 0 [])

/-- The well-formed rows of an output. -/
def rowsOf (output : Text) : List Text := (completeLines output).filter fun line => decide (IsRow line)

/-! ### Blanks do not count -/

theorem trim_cons_space {u : Nat} (hu : isSpace u = true) (s : Text) : trim (u :: s) = trim s := by
  rw [trim, trim, List.dropWhile_cons_of_pos hu]

theorem trim_append_space {u : Nat} (hu : isSpace u = true) (s : Text) : trim (s ++ [u]) = trim s :=
  trim_append_spaces (by simpa using hu)

theorem comma_of_space {u : Nat} (hu : isSpace u = true) : (u == 44) = false := by
  rw [beq_eq_false_iff_ne]
  rintro rfl
  exact absurd hu (by decide)

theorem fieldsOf_cons_space {u : Nat} (hu : isSpace u = true) (line : Text) :
    fieldsOf (u :: line) = fieldsOf line := by
  rw [fieldsOf, List.splitOnP_cons_eq_if_modifyHead, comma_of_space hu, fieldsOf]
  cases hs : line.splitOnP (· == 44) with
  | nil => rfl
  | cons first rest =>
    simp only [Bool.false_eq_true, if_false, List.modifyHead_cons, List.map_cons,
      trim_cons_space hu]

theorem fieldsOf_append_space {u : Nat} (hu : isSpace u = true) (line : Text) :
    fieldsOf (line ++ [u]) = fieldsOf line := by
  obtain ⟨front, last, hs, happend⟩ := splitOnP_snoc (p := (· == 44)) (comma_of_space hu) line
  rw [fieldsOf, fieldsOf, hs, happend, List.map_append, List.map_append, List.map_singleton,
    List.map_singleton, trim_append_space hu]

theorem parseLine_nil : parseLine [] = none := rfl

theorem parseLine_cons_space {u : Nat} (hu : isSpace u = true) (line : Text) :
    parseLine (u :: line) = parseLine line := by
  rw [parseLine, parseLine, trim_cons_space hu, fieldsOf_cons_space hu]

theorem parseLine_append_space {u : Nat} (hu : isSpace u = true) (line : Text) :
    parseLine (line ++ [u]) = parseLine line := by
  rw [parseLine, parseLine, trim_append_space hu, fieldsOf_append_space hu]

/-- The GPUs of a text's lines. -/
def gpusOf (text : Text) : List GpuInfo := (text.splitOnP (· == 10)).filterMap parseLine

theorem gpusOf_cons_space {u : Nat} (hu : isSpace u = true) (text : Text) :
    gpusOf (u :: text) = gpusOf text := by
  rw [gpusOf, List.splitOnP_cons_eq_if_modifyHead, gpusOf]
  split_ifs
  · rw [List.filterMap_cons_none parseLine_nil]
  · cases hs : text.splitOnP (· == 10) with
    | nil => rfl
    | cons first rest =>
      rw [List.modifyHead_cons, List.filterMap_cons, List.filterMap_cons, parseLine_cons_space hu]

theorem gpusOf_append_space {u : Nat} (hu : isSpace u = true) (text : Text) :
    gpusOf (text ++ [u]) = gpusOf text := by
  by_cases hline : (u == 10) = true
  · rw [gpusOf, List.splitOnP_append_cons (p := (· == 10)) text [] hline, List.filterMap_append, List.splitOnP_nil,
      List.filterMap_cons_none parseLine_nil, List.filterMap_nil, List.append_nil, gpusOf]
  · rw [Bool.not_eq_true] at hline
    obtain ⟨front, last, hs, happend⟩ := splitOnP_snoc (p := (· == 10)) hline text
    rw [gpusOf, gpusOf, hs, happend, List.filterMap_append, List.filterMap_append,
      List.filterMap_cons, List.filterMap_cons, parseLine_append_space hu]

theorem gpusOf_dropWhile (text : Text) : gpusOf (text.dropWhile isSpace) = gpusOf text := by
  induction text with
  | nil => rfl
  | cons u text ih =>
    by_cases hu : isSpace u = true
    · rw [List.dropWhile_cons_of_pos hu, ih, gpusOf_cons_space hu]
    · rw [List.dropWhile_cons_of_neg hu]

theorem gpusOf_append_spaces {blanks : Text} (h : ∀ u ∈ blanks, isSpace u = true) (text : Text) :
    gpusOf (text ++ blanks) = gpusOf text := by
  induction blanks generalizing text with
  | nil => rw [List.append_nil]
  | cons u blanks ih =>
    have hrest := fun v hv => h v (List.mem_cons_of_mem _ hv)
    rw [List.append_cons, ih hrest, gpusOf_append_space (h u List.mem_cons_self)]

theorem parseGpus_eq (text : Text) : parseGpus text = gpusOf text := by
  obtain ⟨blanks, hblanks, htext⟩ := exists_trim_append text
  have htrim : parseGpus text = gpusOf (trim text) := by
    rw [parseGpus, List.splitOn_eq_splitOnP, gpusOf]
  rw [htrim, ← gpusOf_append_spaces hblanks, ← htext, gpusOf_dropWhile]

/-! ### Rows -/

/-- A row has a comma, so it is not blank. -/
theorem trim_row_ne_nil (h : IsRow line) : trim line ≠ [] := by
  intro hnil
  obtain ⟨blanks, hblanks, hdrop⟩ := exists_trim_append line
  rw [hnil, List.nil_append] at hdrop
  have hall : ∀ u ∈ line, isSpace u = true := by
    intro u hu
    rw [← List.takeWhile_append_dropWhile (p := isSpace) (l := line), hdrop] at hu
    obtain hu | hu := List.mem_append.mp hu
    · exact List.mem_takeWhile_imp hu
    · exact hblanks u hu
  have hone : line.splitOnP (· == 44) = [line] :=
    List.splitOnP_eq_singleton fun u hu => comma_of_space (hall u hu)
  rw [IsRow, fieldsOf, hone] at h
  exact absurd h (by simp [GPU_FIELDS])

theorem parseLine_row (h : IsRow line) : parseLine line = some (gpuOf (fieldsOf line)) := by
  rw [parseLine, if_neg (trim_row_ne_nil h), if_neg (Nat.not_lt.mpr h)]

/-- A batch of rows is read row by row. -/
theorem parseGpus_join (hne : rows ≠ []) (hrows : ∀ row ∈ rows, IsRow row ∧ 10 ∉ row) :
    parseGpus (join [10] rows) = rows.map fun row => gpuOf (fieldsOf row) := by
  have hlines : (join [10] rows).splitOnP (· == 10) = rows := by
    rw [← List.splitOn_eq_splitOnP]
    exact List.splitOn_intercalate 10 (fun row hrow => (hrows row hrow).2) hne
  rw [parseGpus_eq, gpusOf, hlines, ← List.filterMap_eq_map]
  exact List.filterMap_congr fun row hrow => parseLine_row (hrows row hrow).1

theorem rowsOf_append (output data : Text) :
    rowsOf (output ++ data) = rowsOf output ++ rowsOf (openLine output ++ data) := by
  rw [rowsOf, completeLines_append, List.filter_append, rowsOf, rowsOf]

theorem row_of_mem_rowsOf {output row : Text} (h : row ∈ rowsOf output) : IsRow row ∧ 10 ∉ row := by
  obtain ⟨hline, hrow⟩ := List.mem_filter.mp h
  exact ⟨of_decide_eq_true hrow, not_mem_of_mem_completeLines hline⟩

end BoredManager.Gpu.Stream
