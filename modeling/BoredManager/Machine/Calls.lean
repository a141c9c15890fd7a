import Mathlib.Tactic.Common

/-! Programs that change a state and may throw on the way: what a run that returned went
through, and what every run keeps, whether it returns or throws. -/
namespace BoredManager.Calls
variable {ε σ α β : Type}

/-- The state at the end of a run. -/
def final : EStateM.Result ε σ α → σ
  | .ok _ s => s
  | .error _ s => s

/-- Whether a run threw. -/
def threw : EStateM.Result ε σ α → Bool
  | .ok _ _ => false
  | .error _ _ => true

/-- However the run ends, the property still holds. -/
def Keeps (inv : σ → Prop) (x : EStateM ε σ α) : Prop := ∀ s, inv s → inv (final (x s))

/-- Throws when there is something to throw. -/
def fails : Option ε → EStateM ε σ Unit
  | some e => throw e
  | none => pure ()

/-- Changes the state. -/
def act (f : σ → σ) : EStateM ε σ Unit := fun s => .ok () (f s)

theorem bind_ok {x : EStateM ε σ α} {f : α → EStateM ε σ β} {s s' : σ} {b : β} :
    (x >>= f) s = .ok b s' ↔ ∃ a t, x s = .ok a t ∧ f a t = .ok b s' := by
  change EStateM.bind x f s = .ok b s' ↔ _
  unfold EStateM.bind
  cases hx : x s <;> simp

theorem bind_of_ok {x : EStateM ε σ α} {s t : σ} {a : α} (h : x s = .ok a t)
    (f : α → EStateM ε σ β) : (x >>= f) s = f a t := by
  change EStateM.bind x f s = f a t
  rw [EStateM.bind, h]

theorem bind_of_error {x : EStateM ε σ α} {s t : σ} {e : ε} (h : x s = .error e t)
    (f : α → EStateM ε σ β) : (x >>= f) s = .error e t := by
  change EStateM.bind x f s = .error e t
  rw [EStateM.bind, h]

theorem tryCatch_of_ok {x : EStateM ε σ α} {s t : σ} {a : α} (h : x s = .ok a t)
    (f : ε → EStateM ε σ α) : tryCatch x f s = .ok a t := by
  change EStateM.tryCatch x f s = .ok a t
  rw [EStateM.tryCatch, h]

theorem tryCatch_of_error {x : EStateM ε σ α} {s t : σ} {e : ε} (h : x s = .error e t)
    (f : ε → EStateM ε σ α) : tryCatch x f s = f e t := by
  change EStateM.tryCatch x f s = f e t
  rw [EStateM.tryCatch, h]
  rfl

theorem fails_ok {fault : Option ε} {s s' : σ} {u : Unit} (h : fails fault s = .ok u s') :
    fault = none ∧ s' = s := by
  cases fault with
  | none =>
    cases h
    exact ⟨rfl, rfl⟩
  | some e => cases h

theorem tryCatch_ok {x : EStateM ε σ α} {f : ε → EStateM ε σ α} {s s' : σ} {a : α}
    (h : tryCatch x f s = .ok a s') :
    x s = .ok a s' ∨ ∃ e t, x s = .error e t ∧ f e t = .ok a s' := by
  change EStateM.tryCatch x f s = .ok a s' at h
  unfold EStateM.tryCatch at h
  cases hx : x s with
  | ok b t =>
    rw [hx] at h
    exact .inl h
  | error e t =>
    rw [hx] at h
    exact .inr ⟨e, t, rfl, h⟩

section
variable {inv : σ → Prop}

theorem Keeps.pure (a : α) : Keeps inv (pure a : EStateM ε σ α) := fun _ h => h

theorem Keeps.throw (e : ε) : Keeps inv (throw e : EStateM ε σ α) := fun _ h => h

theorem Keeps.fails (fault : Option ε) : Keeps inv (fails fault : EStateM ε σ Unit) := by
  cases fault with
  | none => exact Keeps.pure ()
  | some e => exact Keeps.throw e

theorem Keeps.act {f : σ → σ} (h : ∀ s, inv s → inv (f s)) : Keeps inv (act f : EStateM ε σ Unit) :=
  h

theorem Keeps.bind {x : EStateM ε σ α} {f : α → EStateM ε σ β} (hx : Keeps inv x)
    (hf : ∀ a, Keeps inv (f a)) : Keeps inv (x >>= f) := by
  intro s hs
  change inv (final (EStateM.bind x f s))
  have hmid := hx s hs
  unfold EStateM.bind
  cases hr : x s with
  | ok a t =>
    rw [hr] at hmid
    exact hf a t hmid
  | error e t =>
    rw [hr] at hmid
    exact hmid

theorem Keeps.tryCatch {x : EStateM ε σ α} {f : ε → EStateM ε σ α} (hx : Keeps inv x)
    (hf : ∀ e, Keeps inv (f e)) : Keeps inv (tryCatch x f) := by
  intro s hs
  change inv (final (EStateM.tryCatch x f s))
  have hmid := hx s hs
  unfold EStateM.tryCatch
  cases hr : x s with
  | ok a t =>
    rw [hr] at hmid
    exact hmid
  | error e t =>
    rw [hr] at hmid
    exact hf e t hmid

theorem Keeps.ite {c : Prop} [Decidable c] {x y : EStateM ε σ α} (hx : Keeps inv x)
    (hy : Keeps inv y) : Keeps inv (if c then x else y) := by
  split
  · exact hx
  · exact hy

end

/-- A run from a state with the one property returns with the second or throws with the third. -/
def Meets (pre : σ → Prop) (x : EStateM ε σ α) (post : α → σ → Prop) (err : ε → σ → Prop) : Prop :=
  ∀ s, pre s → match x s with
    | .ok a t => post a t
    | .error e t => err e t

section
variable {pre : σ → Prop} {post : α → σ → Prop} {err : ε → σ → Prop}

theorem Meets.pure {a : α} (h : ∀ s, pre s → post a s) :
    Meets pre (pure a : EStateM ε σ α) post err := h

theorem Meets.throw {e : ε} (h : ∀ s, pre s → err e s) :
    Meets pre (throw e : EStateM ε σ α) post err := h

theorem Meets.get {pre : σ → Prop} {err : ε → σ → Prop} :
    Meets pre (get : EStateM ε σ σ) (fun a s => a = s ∧ pre s) err := fun _ hs => ⟨rfl, hs⟩

theorem Meets.ite {c : Prop} [Decidable c] {x y : EStateM ε σ α} (hx : c → Meets pre x post err)
    (hy : ¬c → Meets pre y post err) : Meets pre (if c then x else y) post err := by
  split
  · exact hx ‹c›
  · exact hy ‹¬c›

theorem Meets.bind {x : EStateM ε σ α} {f : α → EStateM ε σ β} {mid : α → σ → Prop}
    {post : β → σ → Prop} (hx : Meets pre x mid err) (hf : ∀ a, Meets (mid a) (f a) post err) :
    Meets pre (x >>= f) post err := by
  intro s hs
  have hmid := hx s hs
  cases hr : x s with
  | ok a t =>
    rw [hr] at hmid
    rw [bind_of_ok hr]
    exact hf a t hmid
  | error e t =>
    rw [hr] at hmid
    rw [bind_of_error hr]
    exact hmid

theorem Meets.tryCatch {x : EStateM ε σ α} {f : ε → EStateM ε σ α} {mid : ε → σ → Prop}
    (hx : Meets pre x post mid) (hf : ∀ e, Meets (mid e) (f e) post err) :
    Meets pre (tryCatch x f) post err := by
  intro s hs
  have hmid := hx s hs
  cases hr : x s with
  | ok a t =>
    rw [hr] at hmid
    rw [tryCatch_of_ok hr]
    exact hmid
  | error e t =>
    rw [hr] at hmid
    rw [tryCatch_of_error hr]
    exact hf e t hmid

theorem Meets.weaken {x : EStateM ε σ α} {pre' : σ → Prop} {post' : α → σ → Prop}
    {err' : ε → σ → Prop} (hx : Meets pre' x post' err') (hpre : ∀ s, pre s → pre' s)
    (hpost : ∀ a s, post' a s → post a s) (herr : ∀ e s, err' e s → err e s) :
    Meets pre x post err := by
  intro s hs
  have hmid := hx s (hpre s hs)
  cases hr : x s with
  | ok a t =>
    rw [hr] at hmid
    exact hpost a t hmid
  | error e t =>
    rw [hr] at hmid
    exact herr e t hmid

end

end BoredManager.Calls
