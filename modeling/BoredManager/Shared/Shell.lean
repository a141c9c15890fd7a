import BoredManager.Js.OrderedMap
import BoredManager.Js.Text
import BoredManager.Posix.Words

/-! Quoting for the shell, and the marker lines that cut the output of one batched shell
command into named sections. -/
namespace BoredManager.Shared
open BoredManager.Js

/-- The text between single quotes, each quote in it as `'\''`. -/
def shQuote (s : Text) : Text := Posix.singleQuote s

/-- `/^===([A-Z]+)===$/`, with the name. -/
def markerName (line : Text) : Option Text :=
  match line with
  | 61 :: 61 :: 61 :: rest =>
    let name := rest.takeWhile isUpper
    if name ≠ [] ∧ rest.dropWhile isUpper = [61, 61, 61] then some name else none
  | _ => none

/-- The marker line of a name. -/
def marker (name : Text) : Text := js "===" ++ name ++ js "==="

structure SplitState where
  sections : OrderedMap Text Text
  current : Text
  buf : List Text

def SplitState.flush (st : SplitState) : SplitState := {
  st with
  sections := if st.current = [] then st.sections else st.sections.set st.current (join [10] st.buf)
  buf := [] }

def SplitState.step (st : SplitState) (line : Text) : SplitState :=
  match markerName line with
  | some name => { st.flush with current := name }
  | none => { st with buf := st.buf ++ [line] }

/-- The sections of a combined output, by name. -/
def splitSections (out : Text) : OrderedMap Text Text :=
  ((out.splitOnP (· == 10)).foldl SplitState.step ⟨.empty, [], []⟩).flush.sections

theorem isUpper_of_markerName {line name : Text} (h : markerName line = some name) :
    name ≠ [] ∧ ∀ u ∈ name, isUpper u = true := by
  unfold markerName at h
  split at h
  · rename_i rest
    dsimp only at h
    split at h
    · rename_i hn
      cases h
      exact ⟨hn.1, fun u hu => List.all_eq_true.mp List.all_takeWhile u hu⟩
    · cases h
  · cases h

/-- Every name read so far is made of capital letters. -/
structure SplitState.Capitals (st : SplitState) : Prop where
  current : ∀ u ∈ st.current, isUpper u = true
  keys : ∀ key ∈ st.sections.keys, ∀ u ∈ key, isUpper u = true

theorem SplitState.Capitals.flush {st : SplitState} (h : st.Capitals) : st.flush.Capitals := by
  refine ⟨h.current, fun key hk u hu => ?_⟩
  unfold SplitState.flush at hk
  dsimp only at hk
  split at hk
  · exact h.keys key hk u hu
  · rcases OrderedMap.mem_keys_set.mp hk with rfl | hk
    · exact h.current u hu
    · exact h.keys key hk u hu

theorem SplitState.Capitals.step {st : SplitState} (h : st.Capitals) (line : Text) :
    (st.step line).Capitals := by
  unfold SplitState.step
  split
  · rename_i name hname
    exact ⟨(isUpper_of_markerName hname).2, h.flush.keys⟩
  · exact ⟨h.current, h.keys⟩

/-- A section's name is made of capital letters, whatever the output. -/
theorem isUpper_of_mem_splitSections {out key : Text} (h : key ∈ (splitSections out).keys) :
    ∀ u ∈ key, isUpper u = true := by
  have hinit : (⟨.empty, [], []⟩ : SplitState).Capitals := {
    current := by simp
    keys := by simp [OrderedMap.empty, OrderedMap.keys] }
  have hrun := List.foldlRecOn (motive := SplitState.Capitals) (out.splitOnP (· == 10))
    SplitState.step hinit fun st hst line _ => hst.step line
  exact hrun.flush.keys key h

end BoredManager.Shared
