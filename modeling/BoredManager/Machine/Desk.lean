import Mathlib.Data.List.Nodup
import Mathlib.Tactic.Common

/-! A desk that takes requests, queues them or answers them at once, and answers the queued
ones one after another. Requests are known by the number under which they came in. -/
namespace BoredManager.Machine

variable {α ρ : Type*}

/-- The replies to one request. -/
def repliesTo (sent : List (ℕ × ρ)) (n : ℕ) : List ρ :=
  (sent.filter fun p => p.1 == n).map Prod.snd

/-- The replies to one request, as they are sent. -/
def addressed (n : ℕ) (replies : List ρ) : List (ℕ × ρ) := replies.map fun r => (n, r)

theorem repliesTo_append (sent more : List (ℕ × ρ)) (n : ℕ) :
    repliesTo (sent ++ more) n = repliesTo sent n ++ repliesTo more n := by
  simp [repliesTo]

theorem repliesTo_addressed (n : ℕ) (replies : List ρ) :
    repliesTo (addressed n replies) n = replies := by
  simp [repliesTo, addressed, List.filter_map, Function.comp_def]

theorem repliesTo_addressed_of_ne {m n : ℕ} (h : m ≠ n) (replies : List ρ) :
    repliesTo (addressed m replies) n = [] := by
  simp [repliesTo, addressed, h]

theorem repliesTo_of_lt {sent : List (ℕ × ρ)} {n : ℕ} (h : ∀ p ∈ sent, p.1 < n) :
    repliesTo sent n = [] := by
  rw [repliesTo, List.map_eq_nil_iff, List.filter_eq_nil_iff]
  intro p hp heq
  have := h p hp
  have : p.1 = n := by simpa using heq
  omega

theorem mem_addressed {n : ℕ} {replies : List ρ} {p : ℕ × ρ} (h : p ∈ addressed n replies) :
    p.1 = n := by
  obtain ⟨r, -, rfl⟩ := List.mem_map.mp h
  rfl

variable (settles : α → List ρ → Prop)

/-- `queued` are the requests that ever waited, `pending` those that still do. -/
structure Desk (received : List α) (queued pending : List ℕ) (sent : List (ℕ × ρ)) : Prop where
  bound : ∀ p ∈ sent, p.1 < received.length
  queuedBound : ∀ n ∈ queued, n < received.length
  queuedSorted : queued.Pairwise (· < ·)
  pendingQueued : ∀ n ∈ pending, n ∈ queued
  waiting : ∀ n ∈ pending, repliesTo sent n = []
  settled : ∀ n a, received[n]? = some a → n ∉ pending → settles a (repliesTo sent n)
  sorted : pending.Pairwise (· < ·)
  behind : ∀ p ∈ sent, p.1 ∈ queued → ∀ n ∈ pending, p.1 < n
  inOrder : (sent.filter fun p => decide (p.1 ∈ queued)).Pairwise fun p q => p.1 < q.1

variable {settles} {received : List α} {queued pending : List ℕ} {sent : List (ℕ × ρ)}

theorem Desk.empty : Desk settles ([] : List α) [] [] ([] : List (ℕ × ρ)) := by
  refine ⟨nofun, nofun, .nil, nofun, nofun, fun n a h => ?_, .nil, nofun, .nil⟩
  simp at h

theorem snoc_sorted {l : List ℕ} {n : ℕ} (h : l.Pairwise (· < ·)) (hlt : ∀ m ∈ l, m < n) :
    (l ++ [n]).Pairwise (· < ·) := by
  refine List.pairwise_append.mpr ⟨h, List.pairwise_singleton _ _, fun m hm k hk => ?_⟩
  rw [List.mem_singleton.mp hk]
  exact hlt m hm

/-- A request comes in and waits. -/
theorem Desk.take (h : Desk settles received queued pending sent) (a : α) :
    Desk settles (received ++ [a]) (queued ++ [received.length]) (pending ++ [received.length])
      sent := by
  have hold : ∀ p ∈ sent, (p.1 ∈ queued ++ [received.length] ↔ p.1 ∈ queued) := by
    intro p hp
    have := h.bound p hp
    simp only [List.mem_append, List.mem_singleton, or_iff_left_iff_imp]
    omega
  constructor
  · intro p hp
    have := h.bound p hp
    simp only [List.length_append, List.length_singleton]
    omega
  · intro n hn
    simp only [List.length_append, List.length_singleton]
    rcases List.mem_append.mp hn with hn | hn
    · have := h.queuedBound n hn
      omega
    · rw [List.mem_singleton.mp hn]
      omega
  · exact snoc_sorted h.queuedSorted h.queuedBound
  · intro n hn
    rcases List.mem_append.mp hn with hn | hn
    · exact List.mem_append_left _ (h.pendingQueued n hn)
    · exact List.mem_append_right _ hn
  · intro n hn
    rcases List.mem_append.mp hn with hn | hn
    · exact h.waiting n hn
    · rw [List.mem_singleton.mp hn]
      exact repliesTo_of_lt h.bound
  · intro n b hb hn
    simp only [List.mem_append, List.mem_singleton, not_or] at hn
    have hlt : n < (received ++ [a]).length := (List.getElem?_eq_some_iff.mp hb).1
    rw [List.length_append, List.length_singleton] at hlt
    rw [List.getElem?_append_left (by omega)] at hb
    exact h.settled n b hb hn.1
  · exact snoc_sorted h.sorted fun n hn => h.queuedBound n (h.pendingQueued n hn)
  · intro p hp hq n hn
    rcases List.mem_append.mp hn with hn | hn
    · exact h.behind p hp ((hold p hp).mp hq) n hn
    · rw [List.mem_singleton.mp hn]
      exact h.bound p hp
  · rw [List.filter_congr fun p hp => decide_eq_decide.mpr (hold p hp)]
    exact h.inOrder

/-- A request comes in and is answered at once. -/
theorem Desk.answer (h : Desk settles received queued pending sent) {a : α} {replies : List ρ}
    (hsettles : settles a replies) :
    Desk settles (received ++ [a]) queued pending (sent ++ addressed received.length replies) := by
  have hother : ∀ n, n ≠ received.length →
      repliesTo (sent ++ addressed received.length replies) n = repliesTo sent n := fun n hn => by
    rw [repliesTo_append, repliesTo_addressed_of_ne (Ne.symm hn), List.append_nil]
  have hnew : ∀ p ∈ addressed received.length replies, p.1 ∉ queued := fun p hp hq => by
    have := h.queuedBound _ hq
    rw [mem_addressed hp] at this
    omega
  constructor
  · intro p hp
    simp only [List.length_append, List.length_singleton]
    rcases List.mem_append.mp hp with hp | hp
    · have := h.bound p hp
      omega
    · rw [mem_addressed hp]
      omega
  · intro n hn
    have := h.queuedBound n hn
    simp only [List.length_append, List.length_singleton]
    omega
  · exact h.queuedSorted
  · exact h.pendingQueued
  · intro n hn
    have := h.queuedBound n (h.pendingQueued n hn)
    rw [hother n (by omega)]
    exact h.waiting n hn
  · intro n b hb hn
    have hlt : n < (received ++ [a]).length := (List.getElem?_eq_some_iff.mp hb).1
    rw [List.length_append, List.length_singleton] at hlt
    by_cases hlast : n = received.length
    · subst hlast
      rw [List.getElem?_concat_length, Option.some.injEq] at hb
      rw [repliesTo_append, repliesTo_of_lt h.bound, repliesTo_addressed, ← hb]
      exact hsettles
    · rw [List.getElem?_append_left (by omega)] at hb
      rw [hother n hlast]
      exact h.settled n b hb hn
  · exact h.sorted
  · intro p hp hq
    rcases List.mem_append.mp hp with hp | hp
    · exact h.behind p hp hq
    · exact absurd hq (hnew p hp)
  · have hnone : (addressed received.length replies).filter (fun p => decide (p.1 ∈ queued)) = [] :=
      List.filter_eq_nil_iff.mpr fun p hp => by simpa using hnew p hp
    rw [List.filter_append, hnone, List.append_nil]
    exact h.inOrder

/-- The first of the waiting requests is done with. -/
theorem Desk.finish {n : ℕ} (h : Desk settles received queued (n :: pending) sent) {a : α}
    (ha : received[n]? = some a) {replies : List ρ} (hsettles : settles a replies)
    (hone : replies.length ≤ 1) :
    Desk settles received queued pending (sent ++ addressed n replies) := by
  have hsorted := List.pairwise_cons.mp h.sorted
  have hn : n ∈ queued := h.pendingQueued n List.mem_cons_self
  have hother : ∀ m, m ≠ n → repliesTo (sent ++ addressed n replies) m = repliesTo sent m :=
    fun m hm => by
      rw [repliesTo_append, repliesTo_addressed_of_ne (Ne.symm hm), List.append_nil]
  constructor
  · intro p hp
    rcases List.mem_append.mp hp with hp | hp
    · exact h.bound p hp
    · rw [mem_addressed hp]
      exact h.queuedBound n hn
  · exact h.queuedBound
  · exact h.queuedSorted
  · exact fun m hm => h.pendingQueued m (List.mem_cons_of_mem _ hm)
  · intro m hm
    have := hsorted.1 m hm
    rw [hother m (by omega)]
    exact h.waiting m (List.mem_cons_of_mem _ hm)
  · intro m b hb hm
    by_cases hmn : m = n
    · subst hmn
      rw [ha, Option.some.injEq] at hb
      rw [repliesTo_append, h.waiting m List.mem_cons_self, repliesTo_addressed, ← hb]
      exact hsettles
    · rw [hother m hmn]
      refine h.settled m b hb ?_
      rw [List.mem_cons, not_or]
      exact ⟨hmn, hm⟩
  · exact hsorted.2
  · intro p hp hq m hm
    rcases List.mem_append.mp hp with hp | hp
    · exact h.behind p hp hq m (List.mem_cons_of_mem _ hm)
    · rw [mem_addressed hp]
      exact hsorted.1 m hm
  · rw [List.filter_append]
    refine List.pairwise_append.mpr ⟨h.inOrder, ?_, fun p hp q hq => ?_⟩
    · refine List.Pairwise.filter _ ?_
      match replies, hone with
      | [], _ => exact List.Pairwise.nil
      | [r], _ => exact List.pairwise_singleton _ _
    · rw [mem_addressed (List.mem_filter.mp hq).1]
      obtain ⟨hp, hpq⟩ := List.mem_filter.mp hp
      exact h.behind p hp (by simpa using hpq) n List.mem_cons_self

end BoredManager.Machine
