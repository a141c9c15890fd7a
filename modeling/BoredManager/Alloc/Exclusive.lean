import Mathlib.Data.List.Nodup
import Mathlib.Data.List.Perm.Basic
import Mathlib.Tactic.Common

/-! Exclusive holding: no resource has two holders. One form records the resources
in use, the other the ones that are left. -/
namespace BoredManager.Alloc

variable {α ρ : Type*} {resource : α → ρ} {used : List ρ} {holders : List α}

/-- Distinct resources, and the used ones are those that are held. -/
structure Exclusive (resource : α → ρ) (used : List ρ) (holders : List α) : Prop where
  nodup : (holders.map resource).Nodup
  marked : ∀ r, r ∈ used ↔ ∃ a ∈ holders, resource a = r

namespace Exclusive

theorem nil : Exclusive resource [] [] := ⟨List.nodup_nil, fun _ => by simp⟩

theorem perm {holders' : List α} (h : Exclusive resource used holders)
    (hp : holders'.Perm holders) : Exclusive resource used holders' :=
  ⟨(hp.map resource).nodup_iff.mpr h.nodup, fun r => by simp only [h.marked, hp.mem_iff]⟩

/-- A resource that is not in use is given to a new holder. -/
theorem grant (h : Exclusive resource used holders) {a : α} (ha : resource a ∉ used) :
    Exclusive resource (resource a :: used) (a :: holders) := by
  refine ⟨?_, fun r => ?_⟩
  · rw [List.map_cons, List.nodup_cons]
    refine ⟨fun hm => ?_, h.nodup⟩
    obtain ⟨b, hb, heq⟩ := List.mem_map.mp hm
    exact ha ((h.marked _).mpr ⟨b, hb, heq⟩)
  · simp only [List.mem_cons, h.marked, exists_eq_or_imp]
    exact or_congr_left eq_comm

/-- A holder leaves, and its resource is free again. -/
theorem revoke [DecidableEq ρ] {a : α} (h : Exclusive resource used (a :: holders)) :
    Exclusive resource (used.filter (· ≠ resource a)) holders := by
  have hn := List.nodup_cons.mp h.nodup
  have hne : ∀ b ∈ holders, resource b ≠ resource a := fun b hb heq =>
    hn.1 (heq ▸ List.mem_map_of_mem hb)
  refine ⟨hn.2, fun r => ?_⟩
  rw [List.mem_filter, h.marked, decide_eq_true_eq]
  constructor
  · rintro ⟨⟨b, hb, rfl⟩, hr⟩
    exact ⟨b, (List.mem_cons.mp hb).resolve_left fun heq => hr (heq ▸ rfl), rfl⟩
  · rintro ⟨b, hb, rfl⟩
    exact ⟨⟨b, List.mem_cons_of_mem _ hb, rfl⟩, hne b hb⟩

end Exclusive

variable {available taken : List ρ}

/-- Distinct resources, none of them left in the store. -/
structure Taken (available taken : List ρ) : Prop where
  nodup : taken.Nodup
  gone : ∀ r ∈ taken, r ∉ available

namespace Taken

theorem nil : Taken available ([] : List ρ) := ⟨List.nodup_nil, fun _ h => by cases h⟩

/-- One resource of the store is taken. -/
theorem take [DecidableEq ρ] {before after : List ρ} (h : Taken available (before ++ after))
    {r : ρ} (hr : r ∈ available) :
    Taken (available.filter (· ≠ r)) (before ++ r :: after) := by
  refine ⟨?_, fun s hs => ?_⟩
  · rw [List.nodup_middle, List.nodup_cons]
    exact ⟨fun hm => h.gone r hm hr, h.nodup⟩
  · rcases List.mem_cons.mp ((List.perm_middle).mem_iff.mp hs) with rfl | hs
    · simp
    · exact fun hm => h.gone s hs (List.mem_of_mem_filter hm)

end Taken
end BoredManager.Alloc
