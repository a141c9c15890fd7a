import Mathlib.Data.List.Nodup
import Mathlib.Tactic.Common

/-! What became of the payloads that a queue accepted, when a later payload may take the place
of a soft one with its key, and soft ones may be dropped. -/
namespace BoredManager.Machine

variable {α κ : Type*} (soft : α → Bool) (key : α → κ)

/-- A later soft payload with the same key was accepted. -/
def Superseded (accepted : List α) (n : ℕ) (a : α) : Prop :=
  ∃ m b, n < m ∧ accepted[m]? = some b ∧ soft b = true ∧ key b = key a

/-- `entries` are the payloads that were handed on, then those that are queued, each with the
number under which it was accepted. -/
structure Ledger (entries : List (α × ℕ)) (accepted : List α) (dropped : List ℕ) : Prop where
  own : ∀ e ∈ entries, accepted[e.2]? = some e.1
  once : (entries.map Prod.snd).Nodup
  order : entries.filter (fun e => !soft e.1) = accepted.zipIdx.filter fun e => !soft e.1
  fate : ∀ n a, accepted[n]? = some a →
    (a, n) ∈ entries ∨ (soft a = true ∧ (Superseded soft key accepted n a ∨ n ∈ dropped))

variable {soft key} {entries : List (α × ℕ)} {accepted : List α} {dropped : List ℕ}

theorem Ledger.empty : Ledger soft key [] [] [] := by
  refine ⟨nofun, List.nodup_nil, rfl, fun n a h => ?_⟩
  simp at h

theorem Ledger.lt_length (h : Ledger soft key entries accepted dropped) {e : α × ℕ}
    (he : e ∈ entries) : e.2 < accepted.length :=
  (List.getElem?_eq_some_iff.mp (h.own e he)).1

theorem Superseded.append {n : ℕ} {a : α} (h : Superseded soft key accepted n a) (more : List α) :
    Superseded soft key (accepted ++ more) n a := by
  obtain ⟨m, b, hnm, hb, hsoft, hkey⟩ := h
  refine ⟨m, b, hnm, ?_, hsoft, hkey⟩
  rw [List.getElem?_append_left (List.getElem?_eq_some_iff.mp hb).1, hb]

/-- A payload is accepted, at the end or in the place of a soft one with its key. -/
theorem Ledger.accept {front taken rest : List (α × ℕ)}
    (h : Ledger soft key (front ++ taken ++ rest) accepted dropped) (a : α)
    (htaken : (taken = [] ∧ rest = []) ∨
      ∃ old, taken = [old] ∧ soft old.1 = true ∧ soft a = true ∧ key old.1 = key a) :
    Ledger soft key (front ++ (a, accepted.length) :: rest) (accepted ++ [a]) dropped := by
  have hsub : (front ++ rest).Sublist (front ++ taken ++ rest) := by
    rw [List.append_assoc]
    exact (List.Sublist.refl _).append (List.sublist_append_right _ _)
  have hmem : ∀ e, e ∈ front ++ (a, accepted.length) :: rest ↔
      e = (a, accepted.length) ∨ e ∈ front ++ rest := fun e => by
    simp only [List.mem_append, List.mem_cons]
    tauto
  have hlast : (accepted ++ [a])[accepted.length]? = some a := by simp
  have hleft : ∀ {n b}, accepted[n]? = some b → (accepted ++ [a])[n]? = some b := fun hb => by
    rw [List.getElem?_append_left (List.getElem?_eq_some_iff.mp hb).1, hb]
  constructor
  · intro e he
    rcases (hmem e).mp he with rfl | he
    · exact hlast
    · exact hleft (h.own e (hsub.mem he))
  · have hperm : (front ++ (a, accepted.length) :: rest).Perm
        ((a, accepted.length) :: (front ++ rest)) := List.perm_middle
    rw [(hperm.map Prod.snd).nodup_iff, List.map_cons, List.nodup_cons]
    refine ⟨fun hin => ?_, h.once.sublist (hsub.map _)⟩
    obtain ⟨e, he, heq⟩ := List.mem_map.mp hin
    have := h.lt_length (hsub.mem he)
    omega
  · have horder := h.order
    have hnew : (accepted ++ [a]).zipIdx.filter (fun e => !soft e.1) =
        accepted.zipIdx.filter (fun e => !soft e.1) ++
          [(a, accepted.length)].filter fun e => !soft e.1 := by
      rw [List.zipIdx_append, List.filter_append]
      simp
    rw [hnew, ← horder]
    rcases htaken with ⟨rfl, rfl⟩ | ⟨old, rfl, hold, ha, -⟩
    · simp
    · simp [List.filter_append, hold, ha]
  · intro n b hb
    rcases Nat.lt_trichotomy n accepted.length with hn | rfl | hn
    · rw [List.getElem?_append_left hn] at hb
      rcases h.fate n b hb with hin | ⟨hsoft, hlater | hdrop⟩
      · rw [List.append_assoc, List.mem_append, List.mem_append] at hin
        rcases hin with hin | hin | hin
        · exact .inl (by simp [hin])
        · rcases htaken with ⟨rfl, -⟩ | ⟨old, rfl, hold, ha, hkey⟩
          · cases hin
          · have hb' : (b, n) = old := List.mem_singleton.mp hin
            subst hb'
            exact .inr ⟨hold, .inl ⟨_, a, hn, hlast, ha, hkey.symm⟩⟩
        · exact .inl (by simp [hin])
      · exact .inr ⟨hsoft, .inl (hlater.append [a])⟩
      · exact .inr ⟨hsoft, .inr hdrop⟩
    · rw [hlast, Option.some.injEq] at hb
      subst hb
      exact .inl (by simp)
    · rw [List.getElem?_eq_none (by simp; omega)] at hb
      cases hb

/-- A soft payload is dropped. -/
theorem Ledger.drop {front rest : List (α × ℕ)} {e : α × ℕ}
    (h : Ledger soft key (front ++ e :: rest) accepted dropped) (hsoft : soft e.1 = true) :
    Ledger soft key (front ++ rest) accepted (dropped ++ [e.2]) := by
  have hsub : (front ++ rest).Sublist (front ++ e :: rest) :=
    (List.Sublist.refl _).append (List.sublist_cons_self _ _)
  refine ⟨fun f hf => h.own f (hsub.mem hf), h.once.sublist (hsub.map _), ?_, fun n a ha => ?_⟩
  · rw [← h.order]
    simp [List.filter_append, hsoft]
  · rcases h.fate n a ha with hin | ⟨hs, hlater | hdrop⟩
    · rw [List.mem_append, List.mem_cons] at hin
      rcases hin with hin | rfl | hin
      · exact .inl (by simp [hin])
      · exact .inr ⟨hsoft, .inr (by simp)⟩
      · exact .inl (by simp [hin])
    · exact .inr ⟨hs, .inl hlater⟩
    · exact .inr ⟨hs, .inr (by simp [hdrop])⟩

end BoredManager.Machine
