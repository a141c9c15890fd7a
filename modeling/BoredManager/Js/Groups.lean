import BoredManager.Js.OrderedMap

/-! Maps from keys to lists, filled one value at a time: what is collected is what was put in,
in order under every key. -/
namespace BoredManager.Js.OrderedMap
variable {κ ν : Type*} [DecidableEq κ] {m : OrderedMap κ (List ν)} {k : κ} {v : ν}

/-- `const list = map.get(k) ?? []; list.push(v); map.set(k, list)` -/
def push (m : OrderedMap κ (List ν)) (k : κ) (v : ν) : OrderedMap κ (List ν) :=
  m.set k ((m.get? k).getD [] ++ [v])

/-- The values of all lists, each with its key. -/
def pairs (m : OrderedMap κ (List ν)) : List (κ × ν) := m.entries.flatMap fun e => e.2.map (e.1, ·)

def groups (l : List (κ × ν)) : OrderedMap κ (List ν) := l.foldl (fun m e => m.push e.1 e.2) empty

theorem getD_push (m : OrderedMap κ (List ν)) (k j : κ) (v : ν) :
    ((m.push k v).get? j).getD [] =
      if j = k then (m.get? k).getD [] ++ [v] else (m.get? j).getD [] := by
  rw [push, get?_set]
  split <;> rfl

omit [DecidableEq κ] in
@[simp] theorem pairs_empty : (empty : OrderedMap κ (List ν)).pairs = [] := rfl

theorem pairs_push (m : OrderedMap κ (List ν)) (k : κ) (v : ν) :
    (m.push k v).pairs.Perm (m.pairs ++ [(k, v)]) := by
  obtain ⟨es, hn⟩ := m
  simp only [push, get?, pairs, set]
  clear hn
  induction es with
  | nil => simp [setEntries]
  | cons e es ih =>
    by_cases he : e.1 = k
    · subst he
      simp only [setEntries, if_true, List.find?_cons, decide_true, Option.map_some,
        Option.getD_some, List.flatMap_cons, List.map_append, List.map_cons, List.map_nil,
        List.append_assoc]
      exact List.Perm.append_left _ List.perm_append_comm
    · simp only [setEntries, he, if_false, List.find?_cons, decide_false, List.flatMap_cons,
        List.append_assoc]
      exact List.Perm.append_left _ ih

theorem pairs_foldl_push (l : List (κ × ν)) (m : OrderedMap κ (List ν)) :
    (l.foldl (fun m e => m.push e.1 e.2) m).pairs.Perm (m.pairs ++ l) := by
  induction l generalizing m with
  | nil => simp
  | cons e l ih =>
    have hfirst := (pairs_push m e.1 e.2).append_right l
    rw [List.append_assoc, List.singleton_append] at hfirst
    exact (ih (m.push e.1 e.2)).trans hfirst

theorem pairs_groups (l : List (κ × ν)) : (groups l).pairs.Perm l := pairs_foldl_push l empty

theorem getD_foldl_push (l : List (κ × ν)) (m : OrderedMap κ (List ν)) (k : κ) :
    ((l.foldl (fun m e => m.push e.1 e.2) m).get? k).getD [] =
      (m.get? k).getD [] ++ (l.filter fun e => decide (e.1 = k)).map Prod.snd := by
  induction l generalizing m with
  | nil => simp
  | cons e l ih =>
    rw [List.foldl_cons, ih, getD_push]
    by_cases he : e.1 = k
    · subst he
      simp
    · rw [if_neg fun h => he h.symm, List.filter_cons_of_neg (by simpa using he)]

/-- The list of a key holds its values in order. -/
theorem getD_groups (l : List (κ × ν)) (k : κ) :
    ((groups l).get? k).getD [] = (l.filter fun e => decide (e.1 = k)).map Prod.snd :=
  (getD_foldl_push l empty k).trans rfl

end BoredManager.Js.OrderedMap
