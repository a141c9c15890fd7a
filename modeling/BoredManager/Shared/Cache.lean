import BoredManager.Js.OrderedMap
import BoredManager.Js.Radix
import BoredManager.Machine.Runs
import Mathlib.Data.List.Induction

/-! The cache of module reads: concurrent reads of a key share one load, a value that
loads is kept for its time to live, and clearing a key or everything cuts off the loads
that were started before. -/
namespace BoredManager.Shared
open BoredManager.Js BoredManager.Js.Number
open BoredManager.Machine (run)

structure CacheEntry (V : Type*) where
  value : V
  expiresAt : Number

/-- How far a load is: the call of `load` waits for its microtask, the loaded value is
awaited, or its callbacks have run and `finally` waits. -/
inductive Stage where
  | queued | loading | settled
deriving DecidableEq

structure Load where
  key : Text
  startedAtRevision : Text
  stage : Stage

/-- The cache, with the loads whose `finally` has not run, by the number of their promise. -/
structure TtlCache (V : Type*) where
  values : OrderedMap Text (CacheEntry V)
  pending : OrderedMap Text Nat
  revisions : OrderedMap Text Nat
  globalRevision : Nat
  loads : OrderedMap Nat Load
  promises : Nat

/-- What `get` returns: a resolved promise of a cached value, the promise of an active
load, or that of a new one. -/
inductive Answer (V : Type*) where
  | cached (value : V)
  | active (promise : Nat)
  | started (promise : Nat)

namespace TtlCache
variable {V : Type*}

/-- `createTtlCache(...)`. -/
def createTtlCache : TtlCache V := ⟨.empty, .empty, .empty, 0, .empty, 0⟩

/-- The duration that a reading of `ttlMs` gives. -/
def ttl (value : Number) : Nat :=
  match value.finite? with
  | some q => (truncRat q).toNat
  | none => 0

def revision (s : TtlCache V) (key : Text) : Text :=
  decimal s.globalRevision ++ 58 :: decimal ((s.revisions.get? key).getD 0)

/-- The rest of `get` when no value is cached. -/
def request (s : TtlCache V) (key : Text) : TtlCache V × Answer V :=
  match s.pending.get? key with
  | some promise => (s, .active promise)
  | none =>
    ({ s with
      loads := s.loads.set s.promises ⟨key, s.revision key, .queued⟩
      pending := s.pending.set key s.promises
      promises := s.promises + 1 }, .started s.promises)

def get (s : TtlCache V) (key : Text) (now : Number) : TtlCache V × Answer V :=
  match s.values.get? key with
  | some current =>
    if now.lt current.expiresAt then (s, .cached current.value)
    else request { s with values := s.values.erase key } key
  | none => request s key

/-- The microtask that calls `load`. -/
def begin (s : TtlCache V) (promise : Nat) : TtlCache V :=
  match s.loads.get? promise with
  | some load =>
    if load.stage = .queued then
      { s with loads := s.loads.set promise { load with stage := .loading } }
    else s
  | none => s

/-- The callback of a loaded value, with the readings of `ttlMs` and of the clock. -/
def complete (s : TtlCache V) (promise : Nat) (value : V) (ttlMs now : Number) : TtlCache V :=
  match s.loads.get? promise with
  | some load =>
    if load.stage = .loading then
      { s with
        values :=
          if 0 < ttl ttlMs ∧ s.revision load.key = load.startedAtRevision then
            s.values.set load.key ⟨value, now.add (ofInt (ttl ttlMs))⟩
          else s.values
        loads := s.loads.set promise { load with stage := .settled } }
    else s
  | none => s

/-- A load that rejects, or throws. -/
def fail (s : TtlCache V) (promise : Nat) : TtlCache V :=
  match s.loads.get? promise with
  | some load =>
    if load.stage = .loading then
      { s with loads := s.loads.set promise { load with stage := .settled } }
    else s
  | none => s

/-- The `finally` callback. -/
def finish (s : TtlCache V) (promise : Nat) : TtlCache V :=
  match s.loads.get? promise with
  | some load =>
    if load.stage = .settled then
      { s with
        pending :=
          if s.pending.get? load.key = some promise then s.pending.erase load.key else s.pending
        loads := s.loads.erase promise }
    else s
  | none => s

def clear (s : TtlCache V) : Option Text → TtlCache V
  | none => { s with globalRevision := s.globalRevision + 1, values := .empty, pending := .empty }
  | some key =>
    { s with
      revisions := s.revisions.set key ((s.revisions.get? key).getD 0 + 1)
      values := s.values.erase key
      pending := s.pending.erase key }

/-- What can happen, in any order: calls of `get` and `clear`, and the callbacks of the
loads. A callback that is not due does nothing. -/
inductive Event (V : Type*) where
  | get (key : Text) (now : Number)
  | clear (key : Option Text)
  | begin (promise : Nat)
  | complete (promise : Nat) (value : V) (ttlMs now : Number)
  | fail (promise : Nat)
  | finish (promise : Nat)

def step (s : TtlCache V) : Event V → TtlCache V
  | .get key now => (s.get key now).1
  | .clear key => s.clear key
  | .begin promise => s.begin promise
  | .complete promise value ttlMs now => s.complete promise value ttlMs now
  | .fail promise => s.fail promise
  | .finish promise => s.finish promise

/-- The cache after a history of events. -/
def after (events : List (Event V)) : TtlCache V := run step createTtlCache events

/-- A clear of the key, or of everything. -/
def Event.Covers (key : Text) : Event V → Prop
  | .clear none => True
  | .clear (some k) => k = key
  | _ => False

/-- The call of `get` that started a load, with the events since. -/
structure StartedIn (events : List (Event V)) (promise : Nat) (key : Text) where
  before : List (Event V)
  now : Number
  since : List (Event V)
  split : events = before ++ .get key now :: since
  started : ((after before).get key now).2 = .started promise

/-- No clear that covers the key since the load was started. -/
def StartedIn.Current {events : List (Event V)} {promise : Nat} {key : Text}
    (i : StartedIn events promise key) : Prop :=
  ∀ event ∈ i.since, ¬event.Covers key

/-- The load has given a value, which is kept until `expiresAt`. -/
def StartedIn.Completed {events : List (Event V)} {promise : Nat} {key : Text}
    (i : StartedIn events promise key) (value : V) (expiresAt : Number) : Prop :=
  ∃ early ttlMs now late, i.since = early ++ .complete promise value ttlMs now :: late ∧
    0 < ttl ttlMs ∧ expiresAt = now.add (ofInt (ttl ttlMs)) ∧
    ∃ load, (after (i.before ++ .get key i.now :: early)).loads.get? promise = some load ∧
      load.stage = .loading

/-- The load was settled by a rejection. -/
def StartedIn.Failed {events : List (Event V)} {promise : Nat} {key : Text}
    (i : StartedIn events promise key) : Prop :=
  ∃ early late, i.since = early ++ .fail promise :: late ∧
    ∃ load, (after (i.before ++ .get key i.now :: early)).loads.get? promise = some load ∧
      load.stage = .loading

/-- What a call of `get` may rely on after a history of events. -/
structure Coherent (events : List (Event V)) (key : Text) (now : Number) : Prop where
  /-- A cached value comes from a load started since the last clear, before its expiry. -/
  cached : ∀ value, ((after events).get key now).2 = .cached value →
    ∃ promise, ∃ i : StartedIn events promise key, i.Current ∧
      ∃ expiresAt, i.Completed value expiresAt ∧ now.lt expiresAt = true
  /-- A shared promise is of a load started since the last clear and not finished. -/
  active : ∀ promise, ((after events).get key now).2 = .active promise →
    promise ∈ (after events).loads.keys ∧ ∃ i : StartedIn events promise key, i.Current
  /-- Between clears one load of a key is in flight. -/
  single : ∀ p q, ∀ i : StartedIn events p key, ∀ j : StartedIn events q key, i.Current →
    j.Current → p ∈ (after events).loads.keys → q ∈ (after events).loads.keys → p = q
  /-- A call while it is in flight gets its promise, or its value. -/
  shared : ∀ promise, ∀ i : StartedIn events promise key, i.Current →
    promise ∈ (after events).loads.keys →
    ((after events).get key now).2 = .active promise ∨
      ∃ value expiresAt, ((after events).get key now).2 = .cached value ∧
        i.Completed value expiresAt
  /-- A rejected load never gives a value to the cache. -/
  rejected : ∀ promise, ∀ i : StartedIn events promise key, i.Failed →
    ∀ value expiresAt, ¬i.Completed value expiresAt

theorem after_snoc (events : List (Event V)) (event : Event V) :
    after (events ++ [event]) = step (after events) event := by
  rw [after, run, List.foldl_append]
  rfl

/-! Revisions only grow, and a clear makes a new one. -/

theorem takeWhile_decimal (n : Nat) (rest : Text) :
    (decimal n ++ 58 :: rest).takeWhile isDigit = decimal n := by
  rw [List.takeWhile_append_of_pos fun u hu => isDigit_of_mem_decimal hu]
  exact List.append_nil _

theorem decimal_injective : Function.Injective decimal :=
  radixText_injective (by omega) (by omega)

/-- The clears that a key has seen. -/
def clears (s : TtlCache V) (key : Text) : Nat :=
  s.globalRevision + (s.revisions.get? key).getD 0

theorem clears_eq_of_revision {s t : TtlCache V} {key : Text}
    (h : s.revision key = t.revision key) : s.clears key = t.clears key := by
  have hglobal := takeWhile_decimal s.globalRevision (decimal ((s.revisions.get? key).getD 0))
  rw [← revision, h, revision, takeWhile_decimal] at hglobal
  rw [revision, revision, hglobal] at h
  have hkey := List.append_cancel_left h
  injection hkey with _ hkey
  rw [clears, clears, decimal_injective hglobal, decimal_injective hkey]

/-- The three ways that `get` goes. -/
theorem get_cases (s : TtlCache V) (key : Text) (now : Number) :
    (∃ current, s.values.get? key = some current ∧ now.lt current.expiresAt = true ∧
      s.get key now = (s, .cached current.value)) ∨
    ∃ values : OrderedMap Text (CacheEntry V), values.entries.Sublist s.values.entries ∧
      values.get? key = none ∧
      ((∃ promise, s.pending.get? key = some promise ∧
        s.get key now = ({ s with values := values }, .active promise)) ∨
      (s.pending.get? key = none ∧
        s.get key now = ({ s with
          values := values
          loads := s.loads.set s.promises ⟨key, s.revision key, .queued⟩
          pending := s.pending.set key s.promises
          promises := s.promises + 1 }, .started s.promises))) := by
  have hrequest : ∀ values : OrderedMap Text (CacheEntry V),
      (∃ promise, s.pending.get? key = some promise ∧
        request { s with values := values } key = ({ s with values := values }, .active promise)) ∨
      (s.pending.get? key = none ∧
        request { s with values := values } key = ({ s with
          values := values
          loads := s.loads.set s.promises ⟨key, s.revision key, .queued⟩
          pending := s.pending.set key s.promises
          promises := s.promises + 1 }, .started s.promises)) := by
    intro values
    cases hpending : s.pending.get? key with
    | none => exact .inr ⟨rfl, by simp only [request, hpending]; rfl⟩
    | some promise => exact .inl ⟨promise, rfl, by simp only [request, hpending]⟩
  cases hvalue : s.values.get? key with
  | none =>
    refine .inr ⟨s.values, .refl _, hvalue, ?_⟩
    simp only [get, hvalue]
    exact hrequest s.values
  | some current =>
    simp only [get, hvalue]
    split
    · rename_i hlive
      exact .inl ⟨current, rfl, hlive, rfl⟩
    · exact .inr ⟨s.values.erase key, List.filter_sublist, by simp, hrequest _⟩

theorem clears_step (s : TtlCache V) (event : Event V) (key : Text) :
    s.clears key ≤ (step s event).clears key ∧
      (event.Covers key → s.clears key < (step s event).clears key) := by
  cases event with
  | get k now =>
    have hsame : ((step s (.get k now)).clears key) = s.clears key := by
      rcases get_cases s k now with ⟨current, -, -, h⟩ | ⟨values, -, -, ⟨_, -, h⟩ | ⟨-, h⟩⟩ <;>
        simp only [step, h] <;> rfl
    exact ⟨hsame.ge, False.elim⟩
  | clear k =>
    cases k with
    | none =>
      simp only [step, clear, clears]
      exact ⟨by omega, fun _ => by omega⟩
    | some k =>
      simp only [step, clear, clears, OrderedMap.get?_set]
      by_cases hk : key = k
      · subst hk
        rw [if_pos rfl, Option.getD_some]
        exact ⟨by omega, fun _ => by omega⟩
      · rw [if_neg hk]
        exact ⟨le_rfl, fun h => absurd h.symm hk⟩
  | begin p =>
    refine ⟨le_of_eq ?_, False.elim⟩
    simp only [step, begin]
    split <;> [split; skip] <;> rfl
  | complete p value ttlMs now =>
    refine ⟨le_of_eq ?_, False.elim⟩
    simp only [step, complete]
    split <;> [split; skip] <;> rfl
  | fail p =>
    refine ⟨le_of_eq ?_, False.elim⟩
    simp only [step, fail]
    split <;> [split; skip] <;> rfl
  | finish p =>
    refine ⟨le_of_eq ?_, False.elim⟩
    simp only [step, finish]
    split <;> [split; skip] <;> rfl

/-- A key whose revision is the same has not been cleared. -/
theorem not_covers_of_clears_eq {s : TtlCache V} {events : List (Event V)} {key : Text}
    (h : (run step s events).clears key = s.clears key) : ∀ event ∈ events, ¬event.Covers key := by
  have hgrow : ∀ (events : List (Event V)) (s : TtlCache V),
      s.clears key ≤ (run step s events).clears key := fun events s =>
    List.foldlRecOn events step (motive := fun t : TtlCache V => s.clears key ≤ t.clears key) le_rfl
      fun t h e _ => h.trans (clears_step t e key).1
  induction events generalizing s with
  | nil => intro event hevent; cases hevent
  | cons first events ih =>
    have hrest := hgrow events (step s first)
    change (run step (step s first) events).clears key = _ at h
    have hfirst := clears_step s first key
    intro event hevent hcovers
    rcases List.mem_cons.mp hevent with rfl | hevent
    · have := hfirst.2 hcovers
      omega
    · have heq : (run step (step s first) events).clears key = (step s first).clears key := by omega
      exact ih heq event hevent hcovers

/-! What one event does to the values, the pending promises and the loads. -/

theorem complete_cases (s : TtlCache V) (p : Nat) (value : V) (ttlMs now : Number) :
    s.complete p value ttlMs now = s ∨
      ∃ load, s.loads.get? p = some load ∧ load.stage = .loading ∧
        s.complete p value ttlMs now = { s with
          values :=
            if 0 < ttl ttlMs ∧ s.revision load.key = load.startedAtRevision then
              s.values.set load.key ⟨value, now.add (ofInt (ttl ttlMs))⟩
            else s.values
          loads := s.loads.set p { load with stage := .settled } } := by
  rw [complete]
  split
  · rename_i load hload
    split
    · rename_i hstage
      exact .inr ⟨load, hload, hstage, rfl⟩
    · exact .inl rfl
  · exact .inl rfl

/-- A callback that only moves a load to its next stage. -/
theorem stage_cases {s t : TtlCache V} {event : Event V} {p : Nat}
    (hevent : event = .begin p ∨ event = .fail p) (ht : t = step s event) :
    t = s ∨ ∃ load stage, s.loads.get? p = some load ∧
      t = { s with loads := s.loads.set p { load with stage := stage } } := by
  rcases hevent with rfl | rfl
  · rw [ht, step, begin]
    split
    · rename_i load hload
      split
      · exact .inr ⟨load, _, hload, rfl⟩
      · exact .inl rfl
    · exact .inl rfl
  · rw [ht, step, fail]
    split
    · rename_i load hload
      split
      · exact .inr ⟨load, _, hload, rfl⟩
      · exact .inl rfl
    · exact .inl rfl

theorem finish_cases (s : TtlCache V) (p : Nat) :
    s.finish p = s ∨
      ∃ load, s.loads.get? p = some load ∧ load.stage = .settled ∧
        s.finish p = { s with
          pending :=
            if s.pending.get? load.key = some p then s.pending.erase load.key else s.pending
          loads := s.loads.erase p } := by
  rw [finish]
  split
  · rename_i load hload
    split
    · rename_i hstage
      exact .inr ⟨load, hload, hstage, rfl⟩
    · exact .inl rfl
  · exact .inl rfl

/-- A stored value was there before, or a load has just completed with the revision it
was started at. -/
theorem step_values {s : TtlCache V} {event : Event V} {key : Text} {e : CacheEntry V}
    (h : (key, e) ∈ (step s event).values.entries) :
    ((key, e) ∈ s.values.entries ∧ ¬event.Covers key) ∨
      ∃ p ttlMs now load, event = .complete p e.value ttlMs now ∧ s.loads.get? p = some load ∧
        load.stage = .loading ∧ load.key = key ∧ s.revision key = load.startedAtRevision ∧
        0 < ttl ttlMs ∧ e.expiresAt = now.add (ofInt (ttl ttlMs)) := by
  cases event with
  | get k now =>
    refine .inl ⟨?_, id⟩
    rcases get_cases s k now with ⟨current, -, -, hget⟩ | ⟨values, hsub, -, ⟨_, -, hget⟩ | ⟨-, hget⟩⟩
    · simpa only [step, hget] using h
    · simp only [step, hget] at h
      exact hsub.subset h
    · simp only [step, hget] at h
      exact hsub.subset h
  | clear k =>
    cases k with
    | none => cases h
    | some k =>
      obtain ⟨hold, hne⟩ := OrderedMap.mem_entries_erase.mp h
      exact .inl ⟨hold, fun hcovers => hne hcovers.symm⟩
  | begin p =>
    refine .inl ⟨?_, id⟩
    rcases stage_cases (.inl rfl) (rfl : step s (.begin p) = _) with heq | ⟨load, stage, -, heq⟩ <;>
      rw [heq] at h <;> exact h
  | complete p value ttlMs now =>
    rcases complete_cases s p value ttlMs now with heq | ⟨load, hload, hstage, heq⟩
    · rw [step, heq] at h
      exact .inl ⟨h, id⟩
    · rw [step, heq] at h
      dsimp only at h
      split at h
      · rename_i hstore
        rcases OrderedMap.mem_entries_set.mp h with hnew | ⟨hold, -⟩
        · injection hnew with hkey he
          subst hkey he
          exact .inr ⟨p, ttlMs, now, load, rfl, hload, hstage, rfl, hstore.2, hstore.1, rfl⟩
        · exact .inl ⟨hold, id⟩
      · exact .inl ⟨h, id⟩
  | fail p =>
    refine .inl ⟨?_, id⟩
    rcases stage_cases (.inr rfl) (rfl : step s (.fail p) = _) with heq | ⟨load, stage, -, heq⟩ <;>
      rw [heq] at h <;> exact h
  | finish p =>
    refine .inl ⟨?_, id⟩
    rcases finish_cases s p with heq | ⟨load, -, -, heq⟩ <;> rw [step, heq] at h <;> exact h

/-- A load was there before, for the same key and revision, or `get` has just started it. -/
theorem step_loads {s : TtlCache V} {event : Event V} {p : Nat} {load : Load}
    (h : (step s event).loads.get? p = some load) :
    (∃ old, s.loads.get? p = some old ∧ load.key = old.key ∧
      load.startedAtRevision = old.startedAtRevision) ∨
      ∃ key now, event = .get key now ∧ (s.get key now).2 = .started p ∧ p = s.promises ∧
        load = ⟨key, s.revision key, .queued⟩ := by
  have hset : ∀ {q : Nat} {old : Load} {stage : Stage}, s.loads.get? q = some old →
      (s.loads.set q { old with stage := stage }).get? p = some load →
      ∃ old, s.loads.get? p = some old ∧ load.key = old.key ∧
        load.startedAtRevision = old.startedAtRevision := by
    intro q old stage hold h
    rw [OrderedMap.get?_set] at h
    split at h
    · rename_i hpq
      cases h
      exact ⟨old, hpq ▸ hold, rfl, rfl⟩
    · exact ⟨load, h, rfl, rfl⟩
  cases event with
  | get k now =>
    rcases get_cases s k now with ⟨current, -, -, hget⟩ | ⟨values, -, -, ⟨_, -, hget⟩ | ⟨-, hget⟩⟩
    · simp only [step, hget] at h
      exact .inl ⟨load, h, rfl, rfl⟩
    · simp only [step, hget] at h
      exact .inl ⟨load, h, rfl, rfl⟩
    · simp only [step, hget, OrderedMap.get?_set] at h
      split at h
      · rename_i hp
        cases h
        exact .inr ⟨k, now, rfl, by rw [hget, hp], hp, rfl⟩
      · exact .inl ⟨load, h, rfl, rfl⟩
  | clear k =>
    cases k <;> exact .inl ⟨load, h, rfl, rfl⟩
  | begin q =>
    rcases stage_cases (.inl rfl) (rfl : step s (.begin q) = _) with heq | ⟨old, stage, hold, heq⟩
    · rw [heq] at h
      exact .inl ⟨load, h, rfl, rfl⟩
    · rw [heq] at h
      exact .inl (hset hold h)
  | complete q value ttlMs now =>
    rcases complete_cases s q value ttlMs now with heq | ⟨old, hold, -, heq⟩
    · rw [step, heq] at h
      exact .inl ⟨load, h, rfl, rfl⟩
    · rw [step, heq] at h
      exact .inl (hset hold h)
  | fail q =>
    rcases stage_cases (.inr rfl) (rfl : step s (.fail q) = _) with heq | ⟨old, stage, hold, heq⟩
    · rw [heq] at h
      exact .inl ⟨load, h, rfl, rfl⟩
    · rw [heq] at h
      exact .inl (hset hold h)
  | finish q =>
    rcases finish_cases s q with heq | ⟨old, -, -, heq⟩
    · rw [step, heq] at h
      exact .inl ⟨load, h, rfl, rfl⟩
    · rw [step, heq, OrderedMap.get?_erase] at h
      split at h
      · cases h
      · exact .inl ⟨load, h, rfl, rfl⟩

/-- A pending promise was there before, or `get` has just made it. -/
theorem step_pending {s : TtlCache V} {event : Event V} {key : Text} {p : Nat}
    (h : (step s event).pending.get? key = some p) :
    (s.pending.get? key = some p ∧ ¬event.Covers key) ∨
      ∃ now, event = .get key now ∧ (s.get key now).2 = .started p := by
  cases event with
  | get k now =>
    rcases get_cases s k now with ⟨current, -, -, hget⟩ | ⟨values, -, -, ⟨_, -, hget⟩ | ⟨-, hget⟩⟩
    · simp only [step, hget] at h
      exact .inl ⟨h, id⟩
    · simp only [step, hget] at h
      exact .inl ⟨h, id⟩
    · simp only [step, hget, OrderedMap.get?_set] at h
      split at h
      · rename_i hk
        cases h
        subst hk
        exact .inr ⟨now, rfl, by rw [hget]⟩
      · exact .inl ⟨h, id⟩
  | clear k =>
    cases k with
    | none => cases h
    | some k =>
      simp only [step, clear, OrderedMap.get?_erase] at h
      split at h
      · cases h
      · rename_i hne
        exact .inl ⟨h, fun hcovers => hne hcovers.symm⟩
  | begin q =>
    rcases stage_cases (.inl rfl) (rfl : step s (.begin q) = _) with heq | ⟨old, stage, -, heq⟩ <;>
      rw [heq] at h <;> exact .inl ⟨h, id⟩
  | complete q value ttlMs now =>
    rcases complete_cases s q value ttlMs now with heq | ⟨old, -, -, heq⟩ <;>
      rw [step, heq] at h <;> exact .inl ⟨h, id⟩
  | fail q =>
    rcases stage_cases (.inr rfl) (rfl : step s (.fail q) = _) with heq | ⟨old, stage, -, heq⟩ <;>
      rw [heq] at h <;> exact .inl ⟨h, id⟩
  | finish q =>
    rcases finish_cases s q with heq | ⟨old, -, -, heq⟩
    · rw [step, heq] at h
      exact .inl ⟨h, id⟩
    · rw [step, heq] at h
      dsimp only at h
      split at h
      · rw [OrderedMap.get?_erase] at h
        split at h
        · cases h
        · exact .inl ⟨h, id⟩
      · exact .inl ⟨h, id⟩

/-- The promise of a load that stays in flight stays pending, unless its key is cleared. -/
theorem pending_kept {s : TtlCache V} {event : Event V} {key : Text} {p : Nat}
    (hpending : s.pending.get? key = some p) (hcovers : ¬event.Covers key)
    (hflight : p ∈ (step s event).loads.keys) : (step s event).pending.get? key = some p := by
  cases event with
  | get k now =>
    rcases get_cases s k now with ⟨current, -, -, hget⟩ | ⟨values, -, -, ⟨_, -, hget⟩ | ⟨hnone, hget⟩⟩
    · simpa only [step, hget] using hpending
    · simpa only [step, hget] using hpending
    · have hne : key ≠ k := by
        rintro rfl
        rw [hnone] at hpending
        cases hpending
      simpa only [step, hget, OrderedMap.get?_set, if_neg hne] using hpending
  | clear k =>
    cases k with
    | none => exact absurd trivial hcovers
    | some k =>
      have hne : key ≠ k := fun h => hcovers h.symm
      simpa only [step, clear, OrderedMap.get?_erase, if_neg hne] using hpending
  | begin q =>
    rcases stage_cases (.inl rfl) (rfl : step s (.begin q) = _) with heq | ⟨old, stage, -, heq⟩ <;>
      rw [heq] <;> exact hpending
  | complete q value ttlMs now =>
    rcases complete_cases s q value ttlMs now with heq | ⟨old, -, -, heq⟩ <;>
      rw [step, heq] <;> exact hpending
  | fail q =>
    rcases stage_cases (.inr rfl) (rfl : step s (.fail q) = _) with heq | ⟨old, stage, -, heq⟩ <;>
      rw [heq] <;> exact hpending
  | finish q =>
    rcases finish_cases s q with heq | ⟨old, -, -, heq⟩
    · rw [step, heq]
      exact hpending
    · rw [step, heq] at hflight ⊢
      dsimp only at hflight ⊢
      have hpq : p ≠ q := by
        rintro rfl
        obtain ⟨e, he⟩ := OrderedMap.mem_keys.mp hflight
        exact (OrderedMap.mem_entries_erase.mp he).2 rfl
      split
      · rename_i hown
        have hne : key ≠ old.key := by
          rintro rfl
          rw [hpending] at hown
          exact hpq (Option.some.inj hown)
        rwa [OrderedMap.get?_erase, if_neg hne]
      · exact hpending

/-! Every promise has a number of its own. -/

theorem started_state {s : TtlCache V} {key : Text} {now : Number} {p : Nat}
    (h : (s.get key now).2 = .started p) :
    p = s.promises ∧ (step s (.get key now)).promises = p + 1 ∧
      (step s (.get key now)).loads.get? p = some ⟨key, s.revision key, .queued⟩ ∧
      (step s (.get key now)).pending.get? key = some p ∧
      (step s (.get key now)).values.get? key = none := by
  rcases get_cases s key now with ⟨current, -, -, hget⟩ | ⟨values, -, hvalues, ⟨_, -, hget⟩ | ⟨-, hget⟩⟩
  · rw [hget] at h
    cases h
  · rw [hget] at h
    cases h
  · rw [hget] at h
    cases h
    simp only [step, hget, OrderedMap.get?_set, if_true, hvalues, and_self]

theorem promises_step (s : TtlCache V) (event : Event V) :
    s.promises ≤ (step s event).promises := by
  cases event with
  | get k now =>
    rcases get_cases s k now with ⟨current, -, -, hget⟩ | ⟨values, -, -, ⟨_, -, hget⟩ | ⟨-, hget⟩⟩ <;>
      simp only [step, hget] <;> omega
  | clear k => cases k <;> exact le_rfl
  | begin q =>
    rcases stage_cases (.inl rfl) (rfl : step s (.begin q) = _) with heq | ⟨old, stage, -, heq⟩ <;>
      rw [heq]
  | complete q value ttlMs now =>
    rcases complete_cases s q value ttlMs now with heq | ⟨old, -, -, heq⟩ <;> rw [step, heq]
  | fail q =>
    rcases stage_cases (.inr rfl) (rfl : step s (.fail q) = _) with heq | ⟨old, stage, -, heq⟩ <;>
      rw [heq]
  | finish q =>
    rcases finish_cases s q with heq | ⟨old, -, -, heq⟩ <;> rw [step, heq]

theorem mem_loads_iff {s : TtlCache V} {p : Nat} :
    p ∈ s.loads.keys ↔ ∃ load, s.loads.get? p = some load := by
  rw [← OrderedMap.has_iff, OrderedMap.has_iff_get]

/-- A numbered promise in flight after an event was in flight before it. -/
theorem flight_before {s : TtlCache V} {event : Event V} {p : Nat} (hp : p < s.promises)
    (h : p ∈ (step s event).loads.keys) : p ∈ s.loads.keys := by
  obtain ⟨load, hload⟩ := mem_loads_iff.mp h
  rcases step_loads hload with ⟨old, hold, -⟩ | ⟨key, now, -, -, hpromise, -⟩
  · exact mem_loads_iff.mpr ⟨old, hold⟩
  · omega

/-- A load leaves only with its pending promise. -/
theorem flight_after {s : TtlCache V} {p : Nat} {load : Load} (h : s.loads.get? p = some load)
    (event : Event V) :
    p ∈ (step s event).loads.keys ∨ (step s event).pending.get? load.key ≠ some p := by
  have hset : ∀ (q : Nat) (other : Load), p ∈ (s.loads.set q other).keys := fun q other =>
    OrderedMap.mem_keys_set.mpr (.inr (mem_loads_iff.mpr ⟨load, h⟩))
  have hmem : p ∈ s.loads.keys := mem_loads_iff.mpr ⟨load, h⟩
  cases event with
  | get k now =>
    left
    rcases get_cases s k now with ⟨current, -, -, hget⟩ | ⟨values, -, -, ⟨_, -, hget⟩ | ⟨-, hget⟩⟩
    · simpa only [step, hget] using hmem
    · simpa only [step, hget] using hmem
    · simpa only [step, hget] using hset _ _
  | clear k => cases k <;> exact .inl hmem
  | begin q =>
    rcases stage_cases (.inl rfl) (rfl : step s (.begin q) = _) with heq | ⟨old, stage, -, heq⟩
    · rw [heq]
      exact .inl hmem
    · rw [heq]
      exact .inl (hset _ _)
  | complete q value ttlMs now =>
    rcases complete_cases s q value ttlMs now with heq | ⟨old, -, -, heq⟩
    · rw [step, heq]
      exact .inl hmem
    · rw [step, heq]
      exact .inl (hset _ _)
  | fail q =>
    rcases stage_cases (.inr rfl) (rfl : step s (.fail q) = _) with heq | ⟨old, stage, -, heq⟩
    · rw [heq]
      exact .inl hmem
    · rw [heq]
      exact .inl (hset _ _)
  | finish q =>
    rcases finish_cases s q with heq | ⟨old, hold, -, heq⟩
    · rw [step, heq]
      exact .inl hmem
    · rw [step, heq]
      by_cases hpq : p = q
      · subst hpq
        rw [h] at hold
        cases hold
        right
        dsimp only
        split
        · simp
        · rename_i hother
          exact hother
      · left
        obtain ⟨e, he⟩ := OrderedMap.mem_keys.mp hmem
        exact OrderedMap.mem_keys.mpr ⟨e, OrderedMap.mem_entries_erase.mpr ⟨he, hpq⟩⟩

/-! The load that a call of `get` started, at the end of any history since. -/
section Started
variable {before : List (Event V)} {key : Text} {now : Number} {p : Nat}

theorem history_snoc (since : List (Event V)) (event : Event V) :
    after (before ++ .get key now :: (since ++ [event])) =
      step (after (before ++ .get key now :: since)) event := by
  rw [← after_snoc]
  simp

theorem history_start :
    after (before ++ [.get key now]) = step (after before) (.get key now) := after_snoc _ _

theorem load_of_started (hstarted : ((after before).get key now).2 = .started p)
    (since : List (Event V)) :
    p < (after (before ++ .get key now :: since)).promises ∧
      ∀ load, (after (before ++ .get key now :: since)).loads.get? p = some load →
        load.key = key ∧ load.startedAtRevision = (after before).revision key := by
  induction since using List.reverseRecOn with
  | nil =>
    obtain ⟨-, hpromises, hload, -⟩ := started_state hstarted
    rw [history_start]
    refine ⟨by omega, fun load h => ?_⟩
    rw [hload] at h
    cases h
    exact ⟨rfl, rfl⟩
  | append_singleton since event ih =>
    rw [history_snoc]
    refine ⟨ih.1.trans_le (promises_step _ _), fun load h => ?_⟩
    rcases step_loads h with ⟨old, hold, hkey, hrevision⟩ | ⟨k, t, -, -, hp, -⟩
    · rw [hkey, hrevision]
      exact ih.2 old hold
    · omega

theorem pending_of_started (hstarted : ((after before).get key now).2 = .started p)
    {since : List (Event V)} (hcurrent : ∀ event ∈ since, ¬event.Covers key)
    (hflight : p ∈ (after (before ++ .get key now :: since)).loads.keys) :
    (after (before ++ .get key now :: since)).pending.get? key = some p := by
  induction since using List.reverseRecOn with
  | nil =>
    rw [history_start]
    exact (started_state hstarted).2.2.2.1
  | append_singleton since event ih =>
    rw [history_snoc] at hflight ⊢
    exact pending_kept (ih (fun e he => hcurrent e (List.mem_append_left _ he))
      (flight_before (load_of_started hstarted since).1 hflight))
      (hcurrent event (List.mem_append_right _ (List.mem_singleton_self _))) hflight

end Started

def StartedIn.extend {events : List (Event V)} {p : Nat} {key : Text} (i : StartedIn events p key)
    (event : Event V) : StartedIn (events ++ [event]) p key :=
  ⟨i.before, i.now, i.since ++ [event], by
    have h := congrArg (· ++ [event]) i.split
    simpa using h, i.started⟩

theorem StartedIn.Current.extend {events : List (Event V)} {p : Nat} {key : Text}
    {i : StartedIn events p key} (h : i.Current) {event : Event V} (hevent : ¬event.Covers key) :
    (i.extend event).Current := by
  intro e he
  rcases List.mem_append.mp he with he | he
  · exact h e he
  · rwa [List.mem_singleton.mp he]

theorem StartedIn.Completed.extend {events : List (Event V)} {p : Nat} {key : Text}
    {i : StartedIn events p key} {value : V} {expiresAt : Number} (h : i.Completed value expiresAt)
    (event : Event V) : (i.extend event).Completed value expiresAt := by
  obtain ⟨early, ttlMs, now, late, hsince, hrest⟩ := h
  refine ⟨early, ttlMs, now, late ++ [event], ?_, hrest⟩
  change i.since ++ [event] = _
  rw [hsince]
  simp

theorem load_of_startedIn {events : List (Event V)} {p : Nat} {key : Text}
    (i : StartedIn events p key) :
    p < (after events).promises ∧ ∀ load, (after events).loads.get? p = some load →
      load.key = key ∧ load.startedAtRevision = (after i.before).revision key := by
  obtain ⟨before, now, since, rfl, hstarted⟩ := i
  exact load_of_started hstarted since

theorem pending_of_startedIn {events : List (Event V)} {p : Nat} {key : Text}
    (i : StartedIn events p key) (hcurrent : i.Current) (hflight : p ∈ (after events).loads.keys) :
    (after events).pending.get? key = some p := by
  obtain ⟨before, now, since, rfl, hstarted⟩ := i
  exact pending_of_started hstarted hcurrent hflight

/-- A load whose revision is still that of its key has been started since the last clear. -/
theorem current_of_revision {events : List (Event V)} {p : Nat} {key : Text}
    (i : StartedIn events p key)
    (h : (after events).revision key = (after i.before).revision key) : i.Current := by
  obtain ⟨before, now, since, rfl, hstarted⟩ := i
  have hclears := clears_eq_of_revision h
  rw [after, run, List.foldl_append] at hclears
  have hcovers : ∀ event ∈ (.get key now :: since : List (Event V)), ¬event.Covers key :=
    not_covers_of_clears_eq hclears
  exact fun event hevent => hcovers event (List.mem_cons_of_mem _ hevent)

/-- Every load in flight was started by a call of `get` for its key. -/
theorem started_of_flight (events : List (Event V)) {p : Nat} {load : Load}
    (h : (after events).loads.get? p = some load) : Nonempty (StartedIn events p load.key) := by
  induction events using List.reverseRecOn generalizing load with
  | nil => cases h
  | append_singleton events event ih =>
    rw [after_snoc] at h
    rcases step_loads h with ⟨old, hold, hkey, -⟩ | ⟨key, now, rfl, hstarted, -, rfl⟩
    · obtain ⟨i⟩ := ih hold
      rw [hkey]
      exact ⟨i.extend event⟩
    · exact ⟨⟨events, now, [], rfl, hstarted⟩⟩

/-- A pending promise is that of a load in flight, started since the last clear. -/
theorem started_of_pending (events : List (Event V)) {key : Text} {p : Nat}
    (h : (after events).pending.get? key = some p) :
    p ∈ (after events).loads.keys ∧ ∃ i : StartedIn events p key, i.Current := by
  induction events using List.reverseRecOn with
  | nil => cases h
  | append_singleton events event ih =>
    rw [after_snoc] at h ⊢
    rcases step_pending h with ⟨hold, hcovers⟩ | ⟨now, rfl, hstarted⟩
    · obtain ⟨hflight, i, hcurrent⟩ := ih hold
      obtain ⟨load, hload⟩ := mem_loads_iff.mp hflight
      refine ⟨?_, i.extend event, hcurrent.extend hcovers⟩
      refine (flight_after hload event).resolve_right fun hne => hne ?_
      rwa [((load_of_startedIn i).2 load hload).1]
    · exact ⟨mem_loads_iff.mpr ⟨_, (started_state hstarted).2.2.1⟩,
        ⟨events, now, [], rfl, hstarted⟩, fun e he => by cases he⟩

/-- A completed load of the current revision, seen from its start. -/
theorem completed_now {events : List (Event V)} {p : Nat} {load : Load} {value : V}
    {ttlMs now : Number} (hload : (after events).loads.get? p = some load)
    (hstage : load.stage = .loading) (hpos : 0 < ttl ttlMs) (i : StartedIn events p load.key) :
    (i.extend (.complete p value ttlMs now)).Completed value (now.add (ofInt (ttl ttlMs))) := by
  refine ⟨i.since, ttlMs, now, [], rfl, hpos, rfl, load, ?_, hstage⟩
  change (after (i.before ++ .get load.key i.now :: i.since)).loads.get? p = some load
  rw [← i.split]
  exact hload

/-- A stored value was given by a load started since the last clear. -/
theorem completed_of_value (events : List (Event V)) {key : Text} {e : CacheEntry V}
    (h : (key, e) ∈ (after events).values.entries) :
    ∃ p, ∃ i : StartedIn events p key, i.Current ∧ i.Completed e.value e.expiresAt := by
  induction events using List.reverseRecOn generalizing e with
  | nil => cases h
  | append_singleton events event ih =>
    rw [after_snoc] at h
    rcases step_values h with ⟨hold, hcovers⟩ |
      ⟨p, ttlMs, now, load, rfl, hload, hstage, rfl, hrevision, hpos, hexpires⟩
    · obtain ⟨p, i, hcurrent, hcompleted⟩ := ih hold
      exact ⟨p, i.extend event, hcurrent.extend hcovers, hcompleted.extend event⟩
    · obtain ⟨i⟩ := started_of_flight events hload
      have hcurrent := current_of_revision i
        (hrevision.trans ((load_of_startedIn i).2 load hload).2)
      refine ⟨p, i.extend _, hcurrent.extend id, ?_⟩
      rw [hexpires]
      exact completed_now hload hstage hpos i

/-- While a load is in flight, what is stored for its key is what it gave. -/
theorem completed_of_flight {before : List (Event V)} {key : Text} {now : Number} {p : Nat}
    (hstarted : ((after before).get key now).2 = .started p) {since : List (Event V)}
    (hcurrent : ∀ event ∈ since, ¬event.Covers key)
    (hflight : p ∈ (after (before ++ .get key now :: since)).loads.keys) {e : CacheEntry V}
    (h : (key, e) ∈ (after (before ++ .get key now :: since)).values.entries) :
    (⟨before, now, since, rfl, hstarted⟩ : StartedIn (before ++ .get key now :: since) p
      key).Completed e.value e.expiresAt := by
  induction since using List.reverseRecOn generalizing e with
  | nil =>
    rw [history_start] at h
    have hnone := (started_state hstarted).2.2.2.2
    rw [OrderedMap.get?_eq_some.mpr h] at hnone
    cases hnone
  | append_singleton since event ih =>
    rw [history_snoc] at hflight h
    have hearly : ∀ e ∈ since, ¬e.Covers key := fun e he => hcurrent e (List.mem_append_left _ he)
    have hold := flight_before (load_of_started hstarted since).1 hflight
    rcases step_values h with ⟨hvalue, -⟩ |
      ⟨q, ttlMs, t, load, rfl, hload, hstage, hkey, hrevision, hpos, hexpires⟩
    · obtain ⟨early, ttlMs, t, late, hsince, hrest⟩ := ih hearly hold hvalue
      refine ⟨early, ttlMs, t, late ++ [event], ?_, hrest⟩
      change since ++ [event] = _
      change since = _ at hsince
      rw [hsince]
      simp
    · -- the load that completes is the one in flight
      subst hkey
      obtain ⟨j⟩ := started_of_flight _ hload
      have hstart := ((load_of_startedIn j).2 load hload).2
      have hq := pending_of_startedIn j (current_of_revision j (hrevision.trans hstart))
        (mem_loads_iff.mpr ⟨load, hload⟩)
      rw [pending_of_started hstarted hearly hold] at hq
      cases hq
      exact ⟨since, ttlMs, t, [], rfl, hpos, hexpires, load, hload, hstage⟩

/-! A load settles once. -/

/-- The load of the promise, if it is still there, has settled. -/
def Settled (p : Nat) (s : TtlCache V) : Prop :=
  p < s.promises ∧ ∀ load, s.loads.get? p = some load → load.stage = .settled

theorem settled_set {s : TtlCache V} {p q : Nat} {old other : Load} (h : Settled p s)
    (hold : s.loads.get? q = some old) (hstage : old.stage ≠ .settled) :
    ∀ load, (s.loads.set q other).get? p = some load → load.stage = .settled := by
  intro load hload
  rw [OrderedMap.get?_set] at hload
  split at hload
  · rename_i hpq
    exact absurd (h.2 old (hpq ▸ hold)) hstage
  · exact h.2 load hload

theorem settled_step {s : TtlCache V} {p : Nat} (h : Settled p s) (event : Event V) :
    Settled p (step s event) := by
  refine ⟨h.1.trans_le (promises_step s event), ?_⟩
  cases event with
  | get k now =>
    rcases get_cases s k now with ⟨current, -, -, hget⟩ | ⟨values, -, -, ⟨_, -, hget⟩ | ⟨-, hget⟩⟩
    · simpa only [step, hget] using h.2
    · simpa only [step, hget] using h.2
    · have hne : p ≠ s.promises := h.1.ne
      simpa only [step, hget, OrderedMap.get?_set, if_neg hne] using h.2
  | clear k => cases k <;> exact h.2
  | begin q =>
    rw [step, begin]
    split
    · rename_i old hold
      split
      · rename_i hstage
        exact settled_set h hold (by rw [hstage]; decide)
      · exact h.2
    · exact h.2
  | complete q value ttlMs now =>
    rcases complete_cases s q value ttlMs now with heq | ⟨old, hold, hstage, heq⟩
    · rw [step, heq]
      exact h.2
    · rw [step, heq]
      exact settled_set h hold (by rw [hstage]; decide)
  | fail q =>
    rw [step, fail]
    split
    · rename_i old hold
      split
      · rename_i hstage
        exact settled_set h hold (by rw [hstage]; decide)
      · exact h.2
    · exact h.2
  | finish q =>
    rcases finish_cases s q with heq | ⟨old, -, -, heq⟩
    · rw [step, heq]
      exact h.2
    · rw [step, heq]
      intro load hload
      rw [OrderedMap.get?_erase] at hload
      split at hload
      · cases hload
      · exact h.2 load hload

theorem settled_run {s : TtlCache V} {p : Nat} (h : Settled p s) (events : List (Event V)) :
    Settled p (run step s events) :=
  List.foldlRecOn events step h fun _ h event _ => settled_step h event

theorem settled_of_complete {s : TtlCache V} {p : Nat} {load : Load} (hp : p < s.promises)
    (hload : s.loads.get? p = some load) (hstage : load.stage = .loading) (value : V)
    (ttlMs now : Number) : Settled p (step s (.complete p value ttlMs now)) := by
  refine ⟨hp.trans_le (promises_step s _), fun other hother => ?_⟩
  simp only [step, complete, hload, hstage, if_true, OrderedMap.get?_set] at hother
  cases hother
  rfl

theorem settled_of_fail {s : TtlCache V} {p : Nat} {load : Load} (hp : p < s.promises)
    (hload : s.loads.get? p = some load) (hstage : load.stage = .loading) :
    Settled p (step s (.fail p)) := by
  refine ⟨hp.trans_le (promises_step s _), fun other hother => ?_⟩
  simp only [step, fail, hload, hstage, if_true, OrderedMap.get?_set] at hother
  cases hother
  rfl

/-- Two places of a list are in one order or the other. -/
theorem split_order {α : Type*} {a b c d : List α} {x y : α} (h : a ++ x :: b = c ++ y :: d) :
    (a = c ∧ x = y) ∨ (∃ m, c = a ++ x :: m) ∨ ∃ m, a = c ++ y :: m := by
  induction a generalizing c with
  | nil =>
    cases c with
    | nil =>
      injection h with h
      exact .inl ⟨rfl, h⟩
    | cons z c =>
      injection h with h
      exact .inr (.inl ⟨c, by rw [h]; rfl⟩)
  | cons w a ih =>
    cases c with
    | nil =>
      injection h with h
      exact .inr (.inr ⟨a, by rw [h]; rfl⟩)
    | cons z c =>
      injection h with hw h
      subst hw
      rcases ih h with ⟨rfl, hxy⟩ | ⟨m, rfl⟩ | ⟨m, rfl⟩
      · exact .inl ⟨rfl, hxy⟩
      · exact .inr (.inl ⟨m, rfl⟩)
      · exact .inr (.inr ⟨m, rfl⟩)

theorem not_loading_of_settled {events more : List (Event V)} {p : Nat} {event : Event V}
    (h : Settled p (step (after events) event)) {load : Load}
    (hload : (after (events ++ event :: more)).loads.get? p = some load) :
    load.stage ≠ .loading := by
  rw [after, run, List.foldl_append, List.foldl_cons] at hload
  rw [(settled_run h more).2 load hload]
  decide

theorem not_completed_of_failed {events : List (Event V)} {p : Nat} {key : Text}
    {i : StartedIn events p key} (hfailed : i.Failed) (value : V) (expiresAt : Number) :
    ¬i.Completed value expiresAt := by
  rintro ⟨early, ttlMs, now, late, hsince, -, -, load, hload, hstage⟩
  obtain ⟨early', late', hsince', load', hload', hstage'⟩ := hfailed
  have hlt := fun since => (load_of_started i.started since).1
  rcases split_order (hsince.symm.trans hsince') with ⟨-, heq⟩ | ⟨m, rfl⟩ | ⟨m, rfl⟩
  · cases heq
  · rw [← List.cons_append, ← List.append_assoc] at hload'
    exact not_loading_of_settled (settled_of_complete (hlt early) hload hstage value ttlMs now)
      hload' hstage'
  · rw [← List.cons_append, ← List.append_assoc] at hload
    exact not_loading_of_settled (settled_of_fail (hlt early') hload' hstage') hload hstage

end TtlCache
end BoredManager.Shared
