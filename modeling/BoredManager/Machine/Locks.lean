import Mathlib.Data.List.Nodup
import Mathlib.Tactic.Common

/-! Named locks with a queue each, and jobs that take several of them one after another: who is
first in a queue has the lock. -/
namespace BoredManager.Machine

variable {κ : Type*}

/-- `held` are the locks a job has; it waits for `name`, and will then ask for `rest`. -/
inductive Stage (κ : Type*) where
  | idle
  | acquiring (held : List κ) (name : κ) (rest : List κ)
  | running (held : List κ)
  | done
deriving DecidableEq

namespace Stage

def held : Stage κ → List κ
  | .idle => []
  | .acquiring held _ _ => held
  | .running held => held
  | .done => []

/-- The locks in whose queues the job stands. -/
def queued : Stage κ → List κ
  | .idle => []
  | .acquiring held name _ => held ++ [name]
  | .running held => held
  | .done => []

/-- All the locks that the job has or will ask for. -/
def names : Stage κ → List κ
  | .idle => []
  | .acquiring held name rest => held ++ name :: rest
  | .running held => held
  | .done => []

theorem mem_queued_of_held {stage : Stage κ} {n : κ} (h : n ∈ stage.held) : n ∈ stage.queued := by
  cases stage with
  | idle => cases h
  | acquiring held name rest => exact List.mem_append_left _ h
  | running held => exact h
  | done => cases h

end Stage

structure Locks (κ : Type*) where
  stage : ℕ → Stage κ
  tails : κ → List ℕ

namespace Locks
variable {l : Locks κ} {i j : ℕ} {n : κ}

def free : Locks κ := ⟨fun _ => .idle, fun _ => []⟩

def setStage (l : Locks κ) (j : ℕ) (stage : Stage κ) : Locks κ :=
  { l with stage := fun i => if i = j then stage else l.stage i }

variable [DecidableEq κ]

def enqueue (l : Locks κ) (j : ℕ) (name : κ) : Locks κ :=
  { l with tails := fun n => if n = name then l.tails n ++ [j] else l.tails n }

/-- The job, having what it holds, asks for the next of these locks, or runs. -/
def ask (l : Locks κ) (j : ℕ) (held : List κ) : List κ → Locks κ
  | [] => l.setStage j (.running held)
  | name :: rest => (l.setStage j (.acquiring held name rest)).enqueue j name

/-- A job begins that needs these locks. -/
def begin (l : Locks κ) (j : ℕ) (names : List κ) : Locks κ :=
  match l.stage j with
  | .idle => l.ask j [] names
  | _ => l

/-- The job gets the lock that it waits for. -/
def pass (l : Locks κ) (j : ℕ) : Locks κ :=
  match l.stage j with
  | .acquiring held name rest =>
    if (l.tails name).head? = some j then l.ask j (held ++ [name]) rest else l
  | _ => l

/-- The job ends and leaves the queues of its locks. -/
def finish (l : Locks κ) (j : ℕ) : Locks κ :=
  match l.stage j with
  | .running held =>
    { l.setStage j .done with
      tails := fun n => if n ∈ held then (l.tails n).filter (· ≠ j) else l.tails n }
  | _ => l

/-- A job stands in the queues of the locks it has and of the one it waits for, and is first where it
has the lock. -/
structure Orderly (l : Locks κ) : Prop where
  mem : ∀ n j, j ∈ l.tails n ↔ n ∈ (l.stage j).queued
  nodup : ∀ j, (l.stage j).names.Nodup
  first : ∀ n j, n ∈ (l.stage j).held → (l.tails n).head? = some j

omit [DecidableEq κ] in
/-- Two jobs never have the same lock. -/
theorem Orderly.exclusive (h : l.Orderly) (hi : n ∈ (l.stage i).held) (hj : n ∈ (l.stage j).held) :
    i = j :=
  Option.some.inj ((h.first n i hi).symm.trans (h.first n j hj))

omit [DecidableEq κ] in
theorem orderly_free : (free : Locks κ).Orderly :=
  ⟨fun _ _ => by simp [free, Stage.queued], fun _ => List.nodup_nil, fun _ _ h => by cases h⟩

omit [DecidableEq κ] in
@[simp] theorem stage_setStage (stage : Stage κ) :
    (l.setStage j stage).stage i = if i = j then stage else l.stage i := rfl

@[simp] theorem stage_enqueue : (l.enqueue j n).stage = l.stage := rfl

theorem stage_ask_of_ne (held names : List κ) (h : i ≠ j) : (l.ask j held names).stage i = l.stage i := by
  cases names <;> simp [ask, h]

theorem stage_ask (held names : List κ) : (l.ask j held names).stage j =
    match names with
    | [] => .running held
    | name :: rest => .acquiring held name rest := by
  cases names <;> simp [ask]

theorem names_ask (held names : List κ) : ((l.ask j held names).stage j).names = held ++ names := by
  cases names <;> simp [ask, Stage.names]

theorem stage_begin_of_ne (names : List κ) (h : i ≠ j) : (l.begin j names).stage i = l.stage i := by
  rw [begin]
  split
  · exact stage_ask_of_ne [] names h
  · rfl

theorem stage_pass_of_ne (h : i ≠ j) : (l.pass j).stage i = l.stage i := by
  rw [pass]
  split
  · split
    · exact stage_ask_of_ne _ _ h
    · rfl
  · rfl

/-- The locks that a job needs stay the same while it gets them. -/
theorem names_pass : ((l.pass j).stage j).names = (l.stage j).names := by
  rw [pass]
  split
  · rename_i held name rest hstage
    split
    · rw [names_ask, hstage, Stage.names, List.append_assoc, List.singleton_append]
    · rfl
  · rfl

/-- A job that stands in the queues of what it has, and is first there, asks for more. -/
theorem Orderly.ask (h : l.Orderly) {held names : List κ} (hqueued : (l.stage j).queued = held)
    (hfirst : ∀ n ∈ held, (l.tails n).head? = some j) (hnodup : (held ++ names).Nodup) :
    (l.ask j held names).Orderly := by
  cases names with
  | nil =>
    refine ⟨fun n i => ?_, fun i => ?_, fun n i hi => ?_⟩
    · by_cases hij : i = j
      · subst hij
        have hmem := h.mem n i
        rw [hqueued] at hmem
        simpa [Locks.ask, Stage.queued, setStage] using hmem
      · simpa [Locks.ask, setStage, hij] using h.mem n i
    · by_cases hij : i = j
      · simpa [Locks.ask, hij, Stage.names] using hnodup
      · simpa [Locks.ask, hij] using h.nodup i
    · by_cases hij : i = j
      · subst hij
        exact hfirst n (by simpa [Locks.ask, Stage.held] using hi)
      · exact h.first n i (by simpa [Locks.ask, hij] using hi)
  | cons name rest =>
    have hfresh : name ∉ held := fun hmem =>
      (List.nodup_append.mp hnodup).2.2 name hmem name List.mem_cons_self rfl
    refine ⟨fun n i => ?_, fun i => ?_, fun n i hi => ?_⟩
    · by_cases hij : i = j
      · subst hij
        have hmem := h.mem n i
        rw [hqueued] at hmem
        by_cases hn : n = name <;> simp [Locks.ask, enqueue, setStage, Stage.queued, hn, hmem]
      · have hmem := h.mem n i
        by_cases hn : n = name <;> simpa [Locks.ask, enqueue, setStage, hij, hn] using hmem
    · by_cases hij : i = j
      · simpa [Locks.ask, hij, Stage.names] using hnodup
      · simpa [Locks.ask, hij] using h.nodup i
    · have hfirst' : (l.tails n).head? = some i := by
        by_cases hij : i = j
        · subst hij
          exact hfirst n (by simpa [Locks.ask, Stage.held] using hi)
        · exact h.first n i (by simpa [Locks.ask, hij] using hi)
      have hne : l.tails n ≠ [] := fun hnil => by simp [hnil] at hfirst'
      by_cases hn : n = name
      · subst hn
        simpa [Locks.ask, enqueue, setStage, List.head?_append_of_ne_nil _ hne] using hfirst'
      · simpa [Locks.ask, enqueue, setStage, hn] using hfirst'

theorem Orderly.begin (h : l.Orderly) {names : List κ} (hnodup : names.Nodup) :
    (l.begin j names).Orderly := by
  rw [Locks.begin]
  split
  · rename_i hidle
    exact h.ask (by rw [hidle]; rfl) (by simp) hnodup
  · exact h

theorem Orderly.pass (h : l.Orderly) : (l.pass j).Orderly := by
  rw [Locks.pass]
  split
  · rename_i held name rest hstage
    split
    · rename_i hhead
      refine h.ask (by rw [hstage]; rfl) (fun n hn => ?_) ?_
      · obtain hn | hn := List.mem_append.mp hn
        · exact h.first n j (by rw [hstage]; exact hn)
        · obtain rfl := List.mem_singleton.mp hn
          exact hhead
      · have := h.nodup j
        rw [hstage] at this
        simpa [Stage.names] using this
    · exact h
  · exact h

theorem Orderly.finish (h : l.Orderly) : (l.finish j).Orderly := by
  rw [Locks.finish]
  split
  · rename_i held hstage
    have hqueued : ∀ n, j ∈ l.tails n ↔ n ∈ held := fun n => by
      have := h.mem n j
      rwa [hstage] at this
    refine ⟨fun n i => ?_, fun i => ?_, fun n i hi => ?_⟩
    · have hmem := h.mem n i
      by_cases hij : i = j
      · subst hij
        by_cases hn : n ∈ held
        · simp [setStage, Stage.queued, hn]
        · simp [setStage, Stage.queued, hn, hqueued]
      · by_cases hn : n ∈ held <;> simp [setStage, hij, hn, hmem]
    · by_cases hij : i = j
      · simp [setStage, hij, Stage.names]
      · simpa [setStage, hij] using h.nodup i
    · by_cases hij : i = j
      · simp [setStage, hij, Stage.held] at hi
      · have hi : n ∈ (l.stage i).held := by simpa [setStage, hij] using hi
        by_cases hn : n ∈ held
        · exact absurd (h.exclusive hi (by rw [hstage]; exact hn)) hij
        · simpa [hn] using h.first n i hi
  · exact h

end Locks
end BoredManager.Machine
