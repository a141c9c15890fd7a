import Mathlib.Data.List.Nodup

/-! Claims of resources: each claimant claims one resource, and a resource belongs to the one who
claims it alone. -/
namespace BoredManager.Machine
variable {κ ν : Type*} [DecidableEq ν]

/-- Those who claim a resource, in the order of their claims. -/
def claimants (claims : List (κ × ν)) (resource : ν) : List κ :=
  (claims.filter fun c => decide (c.2 = resource)).map Prod.fst

def sole : List κ → Option κ
  | [w] => some w
  | _ => none

/-- The first of several. -/
def firstOfMany : List κ → Option κ
  | w :: _ :: _ => some w
  | _ => none

variable {claims : List (κ × ν)} {resource : ν} {w : κ}

theorem mem_claimants : w ∈ claimants claims resource ↔ (w, resource) ∈ claims := by
  rw [claimants, List.mem_map]
  constructor
  · rintro ⟨⟨v, r⟩, hmem, rfl⟩
    obtain ⟨hmem, hr⟩ := List.mem_filter.mp hmem
    exact of_decide_eq_true hr ▸ hmem
  · exact fun hmem => ⟨(w, resource), List.mem_filter.mpr ⟨hmem, decide_eq_true rfl⟩, rfl⟩

theorem claimants_concat_self (claims : List (κ × ν)) (c : κ × ν) :
    claimants (claims ++ [c]) c.2 = claimants claims c.2 ++ [c.1] := by
  rw [claimants, List.filter_append, List.filter_cons_of_pos (by simp), List.map_append]
  rfl

theorem claimants_concat_of_ne {c : κ × ν} (hne : c.2 ≠ resource) :
    claimants (claims ++ [c]) resource = claimants claims resource := by
  rw [claimants, List.filter_append, List.filter_cons_of_neg (by simpa using hne), List.filter_nil,
    List.append_nil, claimants]

theorem nodup_claimants (h : (claims.map Prod.fst).Nodup) : (claimants claims resource).Nodup :=
  h.sublist (List.filter_sublist.map Prod.fst)

theorem sole_eq_some {l : List κ} : sole l = some w ↔ l = [w] := by
  cases l with
  | nil => simp [sole]
  | cons v l => cases l <;> simp [sole]

/-- A resource has a sole claimant exactly when one claims it and no other does. -/
theorem sole_claimants (h : (claims.map Prod.fst).Nodup) :
    sole (claimants claims resource) = some w ↔
      (w, resource) ∈ claims ∧ ∀ v, (v, resource) ∈ claims → v = w := by
  rw [sole_eq_some]
  constructor
  · intro hone
    have hmem : ∀ v, (v, resource) ∈ claims ↔ v = w := fun v => by
      rw [← mem_claimants, hone, List.mem_singleton]
    exact ⟨(hmem w).mpr rfl, fun v hv => (hmem v).mp hv⟩
  · rintro ⟨hmem, hother⟩
    have hnodup : (claimants claims resource).Nodup := nodup_claimants h
    have hin := mem_claimants.mpr hmem
    have hall : ∀ v ∈ claimants claims resource, v = w := fun v hv => hother v (mem_claimants.mp hv)
    cases hl : claimants claims resource with
    | nil => simp [hl] at hin
    | cons u l =>
      rw [hl] at hall hnodup
      have hu : u = w := hall u List.mem_cons_self
      cases l with
      | nil => rw [hu]
      | cons v l =>
        have hv : v = w := hall v (List.mem_cons_of_mem u List.mem_cons_self)
        simp [hu, hv] at hnodup

end BoredManager.Machine
