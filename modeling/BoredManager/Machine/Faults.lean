import BoredManager.Machine.Calls

/-! Programs whose calls may throw, or stop the process, and leave what they do half done: the rules by
which one shows what is on the disk then. -/
namespace BoredManager.Faults
open BoredManager.Calls

/-- A call that stops the process may have done its work before. -/
inductive Ending where
  | goes | throws | stops (done : Bool)
deriving DecidableEq

/-- What becomes of a call, and what it leaves if it does not go through. -/
structure Fate (δ : Type) where
  ending : Ending
  left : δ

/-- A program that ends early threw an error, or its process stopped. -/
inductive Halt where
  | thrown | stopped
deriving DecidableEq

/-- What outlives the process, what does not, and what becomes of the next calls. -/
structure World (σ μ δ : Type) where
  disk : σ
  memory : μ
  fates : List (Fate δ)

abbrev Program (σ μ δ α : Type) := EStateM Halt (World σ μ δ) α

variable {σ μ δ α β : Type}

/-- A call of the system; `part` is what it does when it throws, or stops before its end. -/
def sysCall (full : σ → σ) (part : δ → σ → σ) : Program σ μ δ Unit := fun w =>
  match w.fates with
  | [] => .ok () { w with disk := full w.disk }
  | ⟨.goes, _⟩ :: fates => .ok () { w with disk := full w.disk, fates := fates }
  | ⟨.throws, left⟩ :: fates => .error .thrown { w with disk := part left w.disk, fates := fates }
  | ⟨.stops true, _⟩ :: fates => .error .stopped { w with disk := full w.disk, fates := fates }
  | ⟨.stops false, left⟩ :: fates => .error .stopped { w with disk := part left w.disk, fates := fates }

/-- A call that does its work or nothing. -/
def atomic (full : σ → σ) : Program σ μ δ Unit := sysCall full fun _ => id

/-- A call that leaves the disk alone. -/
def idle : Program σ μ δ Unit := atomic id

def disk : Program σ μ δ σ := do return (← get).disk

def memory : Program σ μ δ μ := do return (← get).memory

def remember (m : μ) : Program σ μ δ Unit := modify fun w => { w with memory := m }

/-- What a `try` and its `catch` return; a process that has stopped returns nothing. -/
def attempt (x : Program σ μ δ Unit) (ok failed : α) : Program σ μ δ α :=
  tryCatch (do x; return ok) fun
    | .thrown => return failed
    | .stopped => throw .stopped

/-! ### Assertions -/

abbrev Assertion (σ μ : Type) := σ → μ → Prop

/-- No call throws or stops, if `calm` says so. -/
def On (calm : Prop) (P : Assertion σ μ) (w : World σ μ δ) : Prop :=
  P w.disk w.memory ∧ (calm → ∀ fate ∈ w.fates, fate.ending = .goes)

/-- How a program ends early, which it never does if no call throws or stops. -/
def Err (calm : Prop) (R : Halt → Assertion σ μ) (halt : Halt) (w : World σ μ δ) : Prop :=
  ¬calm ∧ R halt w.disk w.memory

/-- Whatever becomes of its calls, the program returns with `Q` or ends early with `R`. -/
abbrev Spec (calm : Prop) (P : Assertion σ μ) (x : Program σ μ δ α) (Q : α → Assertion σ μ)
    (R : Halt → Assertion σ μ) : Prop :=
  Meets (On calm P) x (fun a => On calm (Q a)) (Err calm R)

section
variable {calm : Prop} {P Q : Assertion σ μ} {R : Halt → Assertion σ μ}

theorem spec_sysCall {full : σ → σ} {part : δ → σ → σ}
    (hfull : ∀ d t, P d t → Q (full d) t)
    (hpart : ∀ left d t, P d t → ∀ halt, R halt (part left d) t)
    (hdone : ∀ d t, P d t → R .stopped (full d) t) :
    Spec calm P (sysCall full part) (fun _ => Q) R := by
  rintro ⟨d, t, fates⟩ ⟨hd, hcalm⟩
  cases fates with
  | nil => exact ⟨hfull d t hd, fun _ _ hmem => by cases hmem⟩
  | cons fate fates =>
    obtain ⟨ending, left⟩ := fate
    have hrest : calm → ∀ fate ∈ fates, fate.ending = .goes :=
      fun h fate hmem => hcalm h fate (List.mem_cons_of_mem _ hmem)
    have hfirst : calm → ending = .goes := fun h => hcalm h _ List.mem_cons_self
    cases ending with
    | goes => exact ⟨hfull d t hd, hrest⟩
    | throws => exact ⟨fun h => (by cases hfirst h), hpart left d t hd .thrown⟩
    | stops done =>
      cases done with
      | true => exact ⟨fun h => (by cases hfirst h), hdone d t hd⟩
      | false => exact ⟨fun h => (by cases hfirst h), hpart left d t hd .stopped⟩

theorem spec_atomic {full : σ → σ} (hfull : ∀ d t, P d t → Q (full d) t)
    (hkeep : ∀ d t, P d t → ∀ halt, R halt d t) (hdone : ∀ d t, P d t → R .stopped (full d) t) :
    Spec calm P (atomic full : Program σ μ δ Unit) (fun _ => Q) R :=
  spec_sysCall hfull (fun _ => hkeep) hdone

theorem spec_idle (hkeep : ∀ d t, P d t → ∀ halt, R halt d t) :
    Spec calm P (idle : Program σ μ δ Unit) (fun _ => P) R :=
  spec_atomic (fun _ _ h => h) hkeep fun d t h => hkeep d t h .stopped

theorem spec_remember {m : μ} (h : ∀ d t, P d t → Q d m) :
    Spec calm P (remember m : Program σ μ δ Unit) (fun _ => Q) R :=
  fun _ hw => ⟨h _ _ hw.1, hw.2⟩

/-- The disk is read: what follows is checked for each value that it may have. -/
theorem spec_disk {f : σ → Program σ μ δ α} {Q : α → Assertion σ μ}
    (h : ∀ d, Spec calm (fun d' t => d' = d ∧ P d' t) (f d) Q R) : Spec calm P (disk >>= f) Q R := by
  rintro ⟨d, t, fates⟩ ⟨hd, hcalm⟩
  exact h d ⟨d, t, fates⟩ ⟨⟨rfl, hd⟩, hcalm⟩

theorem spec_memory {f : μ → Program σ μ δ α} {Q : α → Assertion σ μ}
    (h : ∀ t, Spec calm (fun d t' => t' = t ∧ P d t) (f t) Q R) :
    Spec calm P (memory >>= f) Q R :=
  fun w hw => h w.memory w ⟨⟨rfl, hw.1⟩, hw.2⟩

theorem spec_pure {a : α} {Q : α → Assertion σ μ} (h : ∀ d t, P d t → Q a d t) :
    Spec calm P (pure a : Program σ μ δ α) Q R := fun _ hw => ⟨h _ _ hw.1, hw.2⟩

theorem spec_pre {N : Assertion σ μ} {x : Program σ μ δ α} {Q : α → Assertion σ μ}
    (h : Spec calm N x Q R) (hpre : ∀ d t, P d t → N d t) : Spec calm P x Q R :=
  fun w hw => h w ⟨hpre _ _ hw.1, hw.2⟩

/-- What the assertion says whatever the disk is. -/
theorem spec_fact {φ : Prop} {x : Program σ μ δ α} {Q : α → Assertion σ μ} (hfact : ∀ d t, P d t → φ)
    (h : φ → Spec calm P x Q R) : Spec calm P x Q R :=
  fun w hw => h (hfact _ _ hw.1) w hw

theorem spec_bind {x : Program σ μ δ α} {f : α → Program σ μ δ β} {M : α → Assertion σ μ}
    {Q : β → Assertion σ μ} (hx : Spec calm P x M R) (hf : ∀ a, Spec calm (M a) (f a) Q R) :
    Spec calm P (x >>= f) Q R := Meets.bind hx hf

/-- A check that holds. -/
theorem spec_check {c : Prop} [Decidable c] {f : Unit → Program σ μ δ α} {Q : α → Assertion σ μ}
    (hc : ∀ d t, P d t → ¬c) (h : Spec calm P (f ()) Q R) :
    Spec calm P (if c then throw .thrown >>= f else f ()) Q R := by
  intro w hw
  rw [if_neg (hc _ _ hw.1)]
  exact h w hw

/-- A check that may fail where something may fail at all. -/
theorem spec_guard {c : Prop} [Decidable c] {f : Unit → Program σ μ δ α} {Q : α → Assertion σ μ}
    (hcalm : calm → ¬c) (hthrow : c → ∀ d t, P d t → R .thrown d t) (h : ¬c → Spec calm P (f ()) Q R) :
    Spec calm P (if c then throw .thrown >>= f else f ()) Q R := by
  by_cases hc : c
  · rw [if_pos hc]
    exact fun w hw => ⟨fun h => hcalm h hc, hthrow hc _ _ hw.1⟩
  · rw [if_neg hc]
    exact h hc

/-- Something that is done on a condition only. -/
theorem spec_when {c : Prop} [Decidable c] {x : Program σ μ δ Unit} {f : Unit → Program σ μ δ α}
    {M : Assertion σ μ} {Q : α → Assertion σ μ} (hx : c → Spec calm P x (fun _ => M) R)
    (hskip : ¬c → ∀ d t, P d t → M d t) (hf : Spec calm M (f ()) Q R) :
    Spec calm P (if c then x >>= f else f ()) Q R := by
  split
  · exact spec_bind (hx ‹c›) fun _ => hf
  · exact spec_pre hf (hskip ‹¬c›)

/-- Two branches that go on together. -/
theorem spec_branch {c : Prop} [Decidable c] {x y : Program σ μ δ α} {f : α → Program σ μ δ β}
    {M : α → Assertion σ μ} {Q : β → Assertion σ μ} (hx : Spec calm P (if c then x else y) M R)
    (hf : ∀ a, Spec calm (M a) (f a) Q R) :
    Spec calm P (if c then x >>= f else y >>= f) Q R := by
  split at hx
  · rw [if_pos ‹c›]
    exact spec_bind hx hf
  · rw [if_neg ‹¬c›]
    exact spec_bind hx hf

/-- A handler that does its best and throws again. -/
theorem spec_rethrow {x : Program σ μ δ Unit} {post : α → World σ μ δ → Prop}
    (h : Spec False P x (fun _ d t => ∀ halt, R halt d t) R) :
    Meets (Err calm (fun _ => P) .thrown) (x >>= fun _ => throw .thrown) post (Err calm R) := by
  rintro w ⟨hcalm, hw⟩
  have hx := h w ⟨hw, False.elim⟩
  cases hresult : x w with
  | ok u t =>
    rw [hresult] at hx
    rw [bind_of_ok hresult]
    exact ⟨hcalm, hx.1 .thrown⟩
  | error e t =>
    rw [hresult] at hx
    rw [bind_of_error hresult]
    exact ⟨hcalm, hx.2⟩

theorem spec_attempt {x : Program σ μ δ Unit} {ok failed : α} (hx : Spec calm P x (fun _ => Q) R) :
    Spec calm P (attempt x ok failed) (fun a d t => (a = ok ∧ Q d t) ∨ (a = failed ∧ ¬calm ∧ R .thrown d t))
      fun halt d t => halt = .stopped ∧ R .stopped d t := by
  rw [attempt]
  refine Meets.tryCatch (spec_bind hx fun _ => spec_pure fun _ _ h => .inl ⟨rfl, h⟩) fun halt => ?_
  cases halt with
  | thrown => exact Meets.pure fun w h => ⟨.inr ⟨rfl, h.1, h.2⟩, fun hcalm => absurd hcalm h.1⟩
  | stopped => exact Meets.throw fun w h => ⟨h.1, rfl, h.2⟩

end

/-- What is on the disk when a program has returned or ended early. -/
theorem Spec.final {P : Assertion σ μ} {x : Program σ μ δ α} {Q : α → Assertion σ μ}
    {R : Halt → Assertion σ μ} {W : σ → Prop} {d : σ} {t : μ} {fates : List (Fate δ)}
    (h : Spec False P x Q R) (hQ : ∀ a d t, Q a d t → W d) (hR : ∀ halt d t, R halt d t → W d)
    (hd : P d t) : W (Calls.final (x ⟨d, t, fates⟩)).disk := by
  have hx := h ⟨d, t, fates⟩ ⟨hd, False.elim⟩
  cases hresult : x ⟨d, t, fates⟩ with
  | ok a w =>
    rw [hresult] at hx
    exact hQ a _ _ hx.1
  | error halt w =>
    rw [hresult] at hx
    exact hR halt _ _ hx.2

end BoredManager.Faults
