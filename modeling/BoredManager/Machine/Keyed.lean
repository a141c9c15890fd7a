import Mathlib.Data.List.Nodup

/-! Lists of entries with keys: an entry is put in the place of the one of its key or at the end,
entries are dropped by key, and a list is read back entry by entry, up to a limit. -/
namespace BoredManager.Machine
variable {α κ : Type*} [DecidableEq κ] (key : α → κ)

/-- The first entry of the key is replaced; without one the entry goes to the end. -/
def putKeyed (e : α) : List α → List α
  | [] => [e]
  | x :: xs => if key x = key e then e :: xs else x :: putKeyed e xs

def dropKey (k : κ) (entries : List α) : List α := entries.filter fun x => decide (key x ≠ k)

/-- The valid entries, the first of each key, up to the limit. -/
def readBack (read : α → Option α) (limit : Nat) (out : List α) : List α → List α
  | [] => out
  | x :: xs =>
    match read x with
    | none => readBack read limit out xs
    | some e =>
      if key e ∈ out.map key then readBack read limit out xs
      else if limit ≤ out.length + 1 then out ++ [e]
      else readBack read limit (out ++ [e]) xs

/-- What a user means: a new entry, another text of one that is there, or its end. -/
inductive Edit (α κ : Type*) where
  | add (e : α)
  | change (e : α)
  | remove (k : κ)

def Edit.apply (entries : List α) : Edit α κ → List α
  | .add e => entries ++ [e]
  | .change e => entries.map fun x => if key x = key e then e else x
  | .remove k => dropKey key k entries

variable {key} {entries : List α} {e : α} {k : κ}

theorem putKeyed_of_not_mem (h : key e ∉ entries.map key) : putKeyed key e entries = entries ++ [e] := by
  induction entries with
  | nil => rfl
  | cons x xs ih =>
    rw [List.map_cons, List.mem_cons, not_or] at h
    rw [putKeyed, if_neg (Ne.symm h.1), ih h.2, List.cons_append]

theorem putKeyed_of_mem (hn : (entries.map key).Nodup) (h : key e ∈ entries.map key) :
    putKeyed key e entries = entries.map fun x => if key x = key e then e else x := by
  induction entries with
  | nil => cases h
  | cons x xs ih =>
    obtain ⟨hx, hn⟩ := List.nodup_cons.mp hn
    rw [putKeyed, List.map_cons]
    by_cases hkey : key x = key e
    · have hrest : (xs.map fun y => if key y = key e then e else y) = xs.map id :=
        List.map_congr_left fun y hy => if_neg fun heq : key y = key e =>
          hx ((hkey.trans heq.symm) ▸ List.mem_map_of_mem hy)
      rw [if_pos hkey, if_pos hkey, hrest, List.map_id]
    · have hmem : key e ∈ xs.map key := (List.mem_cons.mp h).resolve_left (Ne.symm hkey)
      rw [if_neg hkey, if_neg hkey, ih hn hmem]

theorem map_key_change : (entries.map fun x => if key x = key e then e else x).map key =
    entries.map key := by
  rw [List.map_map]
  refine List.map_congr_left fun x _ => ?_
  by_cases h : key x = key e
  · simp [h]
  · simp [h]

/-- Entries that read as themselves, one of each key and not too many, are read back whole. -/
theorem readBack_self {read : α → Option α} {limit : Nat} (out : List α)
    (hread : ∀ x ∈ entries, read x = some x) (hn : ((out ++ entries).map key).Nodup)
    (hlimit : (out ++ entries).length ≤ limit) :
    readBack key read limit out entries = out ++ entries := by
  induction entries generalizing out with
  | nil => simp [readBack]
  | cons x xs ih =>
    have hfresh : key x ∉ out.map key := fun hmem => by
      rw [List.map_append, List.map_cons] at hn
      exact (List.nodup_append.mp hn).2.2 _ hmem _ List.mem_cons_self rfl
    rw [List.length_append, List.length_cons] at hlimit
    simp only [readBack, hread x List.mem_cons_self, hfresh, if_false]
    split
    · have hnil : xs = [] := List.eq_nil_of_length_eq_zero (by omega)
      rw [hnil]
    · rw [ih (out ++ [x]) (fun y hy => hread y (List.mem_cons_of_mem _ hy)) (by simpa using hn)
        (by simp only [List.length_append, List.length_cons, List.length_nil]; omega)]
      simp

/-- A list of entries that is what the edits make, and that is read back whole. -/
structure Shelf (key : α → κ) (read : α → Option α) (limit : Nat) (edits : List (Edit α κ))
    (entries : List α) : Prop where
  effect : entries = edits.foldl (Edit.apply key) []
  normal : ∀ x ∈ entries, read x = some x
  nodup : (entries.map key).Nodup
  length : entries.length ≤ limit

namespace Shelf
variable {read : α → Option α} {limit : Nat} {edits : List (Edit α κ)}

theorem empty : Shelf key read limit [] [] :=
  ⟨rfl, fun _ h => (by cases h), List.nodup_nil, Nat.zero_le _⟩

theorem reads (h : Shelf key read limit edits entries) :
    readBack key read limit [] entries = entries :=
  readBack_self [] h.normal h.nodup h.length

theorem add (h : Shelf key read limit edits entries) (hread : read e = some e)
    (hfresh : key e ∉ entries.map key) (hroom : entries.length < limit) :
    Shelf key read limit (edits ++ [.add e]) (putKeyed key e entries) := by
  rw [putKeyed_of_not_mem hfresh]
  refine ⟨?_, fun x hx => ?_, ?_, by simpa using Nat.succ_le_of_lt hroom⟩
  · rw [List.foldl_append, ← h.effect]
    rfl
  · rcases List.mem_append.mp hx with hx | hx
    · exact h.normal x hx
    · rw [List.mem_singleton.mp hx]
      exact hread
  · rw [List.map_append, List.map_singleton, ← List.concat_eq_append]
    exact h.nodup.concat hfresh

theorem change (h : Shelf key read limit edits entries) (hread : read e = some e)
    (hmem : key e ∈ entries.map key) :
    Shelf key read limit (edits ++ [.change e]) (putKeyed key e entries) := by
  rw [putKeyed_of_mem h.nodup hmem]
  refine ⟨?_, fun x hx => ?_, by rw [map_key_change]; exact h.nodup,
    by rw [List.length_map]; exact h.length⟩
  · rw [List.foldl_append, ← h.effect]
    rfl
  · obtain ⟨y, hy, rfl⟩ := List.mem_map.mp hx
    split
    · exact hread
    · exact h.normal y hy

theorem remove (h : Shelf key read limit edits entries) (k : κ) :
    Shelf key read limit (edits ++ [.remove k]) (dropKey key k entries) := by
  refine ⟨?_, fun x hx => h.normal x (List.mem_of_mem_filter hx),
    h.nodup.sublist (List.filter_sublist.map key),
    Nat.le_trans List.filter_sublist.length_le h.length⟩
  rw [List.foldl_append, ← h.effect]
  rfl

end Shelf

/-- Dropping a key that is not there drops nothing. -/
theorem dropKey_of_length (h : (dropKey key k entries).length = entries.length) :
    dropKey key k entries = entries := List.filter_sublist.eq_of_length h

end BoredManager.Machine
