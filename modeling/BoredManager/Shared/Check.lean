import BoredManager.Js.OrderedMap
import BoredManager.Js.Radix
import BoredManager.Machine.Runs
import BoredManager.Shared.Canonical
import Mathlib.Data.List.Induction

/-! Tokens that bind what is applied to what was checked: issued with the text of the
checked values, spent once, dropped when they expire or when fifty newer ones came. -/
namespace BoredManager.Shared
open BoredManager.Js BoredManager.Js.Number
open BoredManager.Machine (run run_cons)

structure Issued (T : Type*) where
  values : Text
  expiresAt : Int
  payload : T

structure CheckSession (T : Type*) where
  openTokens : OrderedMap Text (Issued T)
  counter : Nat

namespace CheckSession
variable {T : Type*}

/-- Ten minutes. -/
def tokenTtlMs : Int := 10 * 60 * 1000

def maxOutstanding : Nat := 50

/-- `createCheckSession()`. -/
def createCheckSession : CheckSession T := ⟨.empty, 0⟩

/-- The oldest entries go while there are too many. -/
def evictOldest : List (Text × Issued T) → List (Text × Issued T)
  | [] => []
  | e :: es => if maxOutstanding ≤ (e :: es).length then evictOldest es else e :: es

theorem evictOldest_suffix (es : List (Text × Issued T)) : evictOldest es <:+ es := by
  induction es with
  | nil => exact List.suffix_rfl
  | cons e es ih =>
    rw [evictOldest]
    split
    · exact ih.trans (List.suffix_cons e es)
    · exact List.suffix_rfl

def sweep (now : Int) (tokens : OrderedMap Text (Issued T)) : OrderedMap Text (Issued T) :=
  ⟨evictOldest (tokens.entries.filter fun e => decide (now < e.2.expiresAt)),
    tokens.nodup.sublist
      (((evictOldest_suffix _).sublist.trans List.filter_sublist).map Prod.fst)⟩

/-- `z.toString(36)`. -/
def text36 (z : Int) : Text := if z < 0 then 45 :: radixText 36 z.natAbs else radixText 36 z.natAbs

def tokenText (counter : Nat) (now : Int) (random : Text) : Text :=
  js "chk_" ++ radixText 36 counter ++ 95 :: text36 now ++ 95 :: random

/-- What one call of `issue` reads: the form's values, the payload, the clock at the sweep,
at the token's name and at its expiry, and the random part of the name. -/
structure Issue (T : Type*) where
  values : Value
  payload : T
  sweptAt : Int
  namedAt : Int
  storedAt : Int
  random : Text

/-- The token that a session gives out at a call of `issue`. -/
def tokenOf (s : CheckSession T) (call : Issue T) : Text :=
  tokenText (s.counter + 1) call.namedAt call.random

def Issue.stored (call : Issue T) : Issued T :=
  ⟨call.values.canonical, call.storedAt + tokenTtlMs, call.payload⟩

def issue (s : CheckSession T) (call : Issue T) : CheckSession T :=
  ⟨(sweep call.sweptAt s.openTokens).set (s.tokenOf call) call.stored, s.counter + 1⟩

/-- Spend a token: what is left, and the payload if the token was spendable. -/
def take (s : CheckSession T) (token : Text) (values : Value) (now : Int) :
    CheckSession T × Option T :=
  match s.openTokens.get? token with
  | none => (s, none)
  | some entry =>
    -- single use, whether or not it turns out to match
    ({ s with openTokens := s.openTokens.erase token },
      if entry.expiresAt ≤ now then none
      else if entry.values ≠ values.canonical then none
      else some entry.payload)

def consume (s : CheckSession T) (token : Text) (values : Value) (now : Int) :
    CheckSession T × Bool :=
  ((s.take token values now).1, (s.take token values now).2.isSome)

def clear (s : CheckSession T) : CheckSession T := { s with openTokens := .empty }

inductive Call (T : Type*) where
  | issue (call : Issue T)
  | take (token : Text) (values : Value) (now : Int)
  | consume (token : Text) (values : Value) (now : Int)
  | clear

def step (s : CheckSession T) : Call T → CheckSession T
  | .issue call => s.issue call
  | .take token values now => (s.take token values now).1
  | .consume token values now => (s.consume token values now).1
  | .clear => s.clear

/-- The session after a history of calls. -/
def after (calls : List (Call T)) : CheckSession T := run step createCheckSession calls

/-- The readings of the clock, in their order. -/
def Call.readings : Call T → List Int
  | .issue call => [call.sweptAt, call.namedAt, call.storedAt]
  | .take _ _ now => [now]
  | .consume _ _ now => [now]
  | .clear => []

/-- A call that spends a token, whatever it answers. -/
def Call.Spends (token : Text) : Call T → Prop
  | .take t _ _ => t = token
  | .consume t _ _ => t = token
  | _ => False

/-- The values of a call are values of the language. -/
def Call.IsCall : Call T → Prop
  | .issue call => call.values.IsValue
  | _ => True

def Call.isIssue : Call T → Bool
  | .issue _ => true
  | _ => false

/-- A history in which a token was issued, with the calls since. -/
structure IssuedIn (calls : List (Call T)) (token : Text) where
  before : List (Call T)
  call : Issue T
  since : List (Call T)
  split : calls = before ++ .issue call :: since
  token_eq : token = (after before).tokenOf call

/-- No call since has spent the token or cleared the session. -/
def IssuedIn.Unspent {calls : List (Call T)} {token : Text} (i : IssuedIn calls token) : Prop :=
  ∀ call ∈ i.since, call ≠ .clear ∧ ¬call.Spends token

/-- What the tokens of a session promise after a history of calls, at the time `now` of
the next one. -/
structure Protocol (calls : List (Call T)) (now : Int) : Prop where
  /-- A payload is handed out only for a token issued for the same values, and it is the
  payload of that issue. -/
  bound : ∀ token values payload, values.IsValue →
    ((after calls).take token values now).2 = some payload →
    ∃ i : IssuedIn calls token, i.Unspent ∧ SameJson i.call.values.toJson values.toJson ∧
      now < i.call.storedAt + tokenTtlMs ∧ payload = i.call.payload
  /-- A token that a call spent, matching or not, stays spent. -/
  once : ∀ token values, ∀ i : IssuedIn calls token, (∃ call ∈ i.since, call.Spends token) →
    ((after calls).take token values now).2 = none
  /-- Never more than fifty tokens are open. -/
  capacity : (after calls).openTokens.entries.length ≤ maxOutstanding
  /-- An unexpired, unspent token is lost only to fifty newer ones. -/
  kept : ∀ token values, values.IsValue → ∀ i : IssuedIn calls token, i.Unspent →
    i.since.countP Call.isIssue < maxOutstanding → now < i.call.storedAt + tokenTtlMs →
    SameJson i.call.values.toJson values.toJson →
    ((after calls).take token values now).2 = some i.call.payload

theorem after_append (calls more : List (Call T)) :
    after (calls ++ more) = run step (after calls) more := List.foldl_append

/-! The counter makes every name new. -/

theorem takeWhile_radixText36 (n : Nat) (rest : Text) :
    (radixText 36 n ++ 95 :: rest).takeWhile (· ≠ 95) = radixText 36 n := by
  have hdigit : ∀ u ∈ radixText 36 n, decide (u ≠ 95) = true := by
    intro u hu
    obtain ⟨d, -, hd⟩ := isRadixText_radixText (by omega) (by omega) n u hu
    rw [decide_eq_true_iff]
    rintro rfl
    cases hd
  rw [List.takeWhile_append_of_pos hdigit]
  simp

theorem counter_eq_of_tokenText {c d : Nat} {now now' : Int} {random random' : Text}
    (h : tokenText c now random = tokenText d now' random') : c = d := by
  simp only [tokenText, List.append_assoc, List.cons_append] at h
  have hread := takeWhile_radixText36 c (text36 now ++ 95 :: random)
  rw [List.append_cancel_left h, takeWhile_radixText36] at hread
  exact radixText_injective (by omega) (by omega) hread.symm

/-- Every open token has the name of an earlier issue. -/
def Numbered (s : CheckSession T) : Prop :=
  ∀ key ∈ s.openTokens.keys, ∃ c now random, c ≤ s.counter ∧ key = tokenText c now random

theorem tokenOf_not_mem {s : CheckSession T} (h : s.Numbered) (call : Issue T) :
    s.tokenOf call ∉ s.openTokens.keys := by
  intro hmem
  obtain ⟨c, now, random, hc, hname⟩ := h _ hmem
  have := counter_eq_of_tokenText hname
  omega

theorem sweep_entries_sublist (now : Int) (tokens : OrderedMap Text (Issued T)) :
    (sweep now tokens).entries.Sublist tokens.entries :=
  (evictOldest_suffix _).sublist.trans List.filter_sublist

theorem mem_keys_sweep {now : Int} {tokens : OrderedMap Text (Issued T)} {key : Text}
    (h : key ∈ (sweep now tokens).keys) : key ∈ tokens.keys :=
  ((sweep_entries_sublist now tokens).map Prod.fst).subset h

theorem take_fst_entries (s : CheckSession T) (token : Text) (values : Value) (now : Int)
    {e : Text × Issued T} : e ∈ (s.take token values now).1.openTokens.entries ↔
      e ∈ s.openTokens.entries ∧ e.1 ≠ token := by
  rw [take]
  split
  · rename_i hnone
    rw [OrderedMap.get?_eq_none] at hnone
    refine ⟨fun h => ⟨h, fun heq => hnone (heq ▸ List.mem_map_of_mem h)⟩, fun h => h.1⟩
  · exact OrderedMap.mem_entries_erase

theorem take_fst_counter (s : CheckSession T) (token : Text) (values : Value) (now : Int) :
    (s.take token values now).1.counter = s.counter := by
  rw [take]
  split <;> rfl

/-- What an open entry was before a call: just issued, or open and left alone. -/
theorem step_entries {s : CheckSession T} {c : Call T} {token : Text} {e : Issued T}
    (h : (token, e) ∈ (step s c).openTokens.entries) :
    (∃ call, c = .issue call ∧ token = s.tokenOf call ∧ e = call.stored) ∨
      ((token, e) ∈ s.openTokens.entries ∧ c ≠ .clear ∧ ¬c.Spends token) := by
  cases c with
  | issue call =>
    rcases OrderedMap.mem_entries_set.mp h with heq | ⟨hold, -⟩
    · injection heq with htoken he
      exact .inl ⟨call, rfl, htoken, he⟩
    · exact .inr ⟨(sweep_entries_sublist _ _).subset hold, nofun, id⟩
  | take t values now =>
    obtain ⟨hold, hne⟩ := (take_fst_entries s t values now).mp h
    exact .inr ⟨hold, nofun, fun hspent => hne hspent.symm⟩
  | consume t values now =>
    obtain ⟨hold, hne⟩ := (take_fst_entries s t values now).mp h
    exact .inr ⟨hold, nofun, fun hspent => hne hspent.symm⟩
  | clear => cases h

theorem counter_step (s : CheckSession T) (c : Call T) :
    (step s c).counter = if c.isIssue then s.counter + 1 else s.counter := by
  cases c with
  | issue call => rfl
  | take t values now => exact take_fst_counter s t values now
  | consume t values now => exact take_fst_counter s t values now
  | clear => rfl

theorem counter_le_step (s : CheckSession T) (c : Call T) : s.counter ≤ (step s c).counter := by
  rw [counter_step]
  split <;> omega

theorem Numbered.step {s : CheckSession T} (h : s.Numbered) (c : Call T) : (step s c).Numbered := by
  intro key hkey
  obtain ⟨e, he⟩ := OrderedMap.mem_keys.mp hkey
  rcases step_entries he with ⟨call, rfl, rfl, -⟩ | ⟨hold, -, -⟩
  · exact ⟨s.counter + 1, _, _, le_rfl, rfl⟩
  · obtain ⟨c', now, random, hc, hname⟩ := h key (OrderedMap.mem_keys.mpr ⟨e, hold⟩)
    exact ⟨c', now, random, hc.trans (counter_le_step s c), hname⟩

theorem numbered_run {s : CheckSession T} (h : s.Numbered) (calls : List (Call T)) :
    (run step s calls).Numbered :=
  List.foldlRecOn calls step h fun _ h c _ => h.step c

theorem numbered_after (calls : List (Call T)) : (after calls).Numbered :=
  numbered_run (fun _ h => by cases h) calls

/-! Where an open token comes from. -/

theorem IssuedIn.mem {calls : List (Call T)} {token : Text} (i : IssuedIn calls token) :
    .issue i.call ∈ calls ∧ ∀ call ∈ i.since, call ∈ calls := by
  obtain ⟨before, call, since, rfl, -⟩ := i
  exact ⟨by simp, fun c hc => by simp only at hc; simp [hc]⟩

def IssuedIn.extend {calls : List (Call T)} {token : Text} (i : IssuedIn calls token) (c : Call T) :
    IssuedIn (calls ++ [c]) token :=
  ⟨i.before, i.call, i.since ++ [c], by
    have h := congrArg (· ++ [c]) i.split
    simpa using h, i.token_eq⟩

theorem IssuedIn.Unspent.extend {calls : List (Call T)} {token : Text} {i : IssuedIn calls token}
    (h : i.Unspent) {c : Call T} (hc : c ≠ .clear ∧ ¬c.Spends token) : (i.extend c).Unspent := by
  intro call hcall
  rcases List.mem_append.mp hcall with hcall | hcall
  · exact h call hcall
  · rwa [List.mem_singleton.mp hcall]

theorem issuedIn_of_open (calls : List (Call T)) {token : Text} {e : Issued T}
    (h : (token, e) ∈ (after calls).openTokens.entries) :
    ∃ i : IssuedIn calls token, i.Unspent ∧ e = i.call.stored := by
  induction calls using List.reverseRecOn with
  | nil => cases h
  | append_singleton calls c ih =>
    rw [after_append] at h
    rcases step_entries h with ⟨call, rfl, htoken, he⟩ | ⟨hold, hkeep⟩
    · exact ⟨⟨calls, call, [], rfl, htoken⟩, fun c hc => (List.not_mem_nil hc).elim, he⟩
    · obtain ⟨i, hunspent, he⟩ := ih hold
      exact ⟨i.extend c, hunspent.extend hkeep, he⟩

theorem take_eq_some {s : CheckSession T} {token : Text} {values : Value} {now : Int} {payload : T} :
    (s.take token values now).2 = some payload ↔
      ∃ e, (token, e) ∈ s.openTokens.entries ∧ now < e.expiresAt ∧ e.values = values.canonical ∧
        e.payload = payload := by
  rw [take]
  cases hget : s.openTokens.get? token with
  | none =>
    refine ⟨fun h => (nomatch h), ?_⟩
    rintro ⟨e, he, -⟩
    rw [OrderedMap.get?_eq_some.mpr he] at hget
    cases hget
  | some entry =>
    have hentry : ∀ {e}, (token, e) ∈ s.openTokens.entries → e = entry := fun he => by
      rw [OrderedMap.get?_eq_some.mpr he] at hget
      exact Option.some.inj hget
    dsimp only
    constructor
    · intro h
      split at h
      · cases h
      · split at h
        · cases h
        · rename_i hlive hvalues
          exact ⟨entry, OrderedMap.get?_eq_some.mp hget, not_le.mp hlive, not_not.mp hvalues,
            Option.some.inj h⟩
    · rintro ⟨e, he, hlive, hvalues, hpayload⟩
      rw [← hentry he, if_neg (not_le.mpr hlive), if_neg (not_not.mpr hvalues), hpayload]

/-! What is spent stays spent. -/

/-- The name of an issue past, and not open. -/
def Gone (token : Text) (s : CheckSession T) : Prop :=
  token ∉ s.openTokens.keys ∧ ∃ c now random, c ≤ s.counter ∧ token = tokenText c now random

theorem gone_step {token : Text} {s : CheckSession T} (h : Gone token s) (c : Call T) :
    Gone token (step s c) := by
  obtain ⟨hclosed, d, now, random, hd, hname⟩ := h
  refine ⟨fun hkey => ?_, d, now, random, hd.trans (counter_le_step s c), hname⟩
  obtain ⟨e, he⟩ := OrderedMap.mem_keys.mp hkey
  rcases step_entries he with ⟨call, rfl, htoken, -⟩ | ⟨hold, -⟩
  · have := counter_eq_of_tokenText (hname.symm.trans htoken)
    omega
  · exact hclosed (OrderedMap.mem_keys.mpr ⟨e, hold⟩)

theorem not_mem_of_spends {s : CheckSession T} {c : Call T} {token : Text} (h : c.Spends token) :
    token ∉ (step s c).openTokens.keys := by
  intro hkey
  obtain ⟨e, he⟩ := OrderedMap.mem_keys.mp hkey
  rcases step_entries he with ⟨call, rfl, -⟩ | ⟨-, -, hkept⟩
  · exact h
  · exact hkept h

theorem take_of_gone {s : CheckSession T} {token : Text} (h : Gone token s) (values : Value)
    (now : Int) : (s.take token values now).2 = none := by
  rw [take, OrderedMap.get?_eq_none.mpr h.1]

/-- The session right after an issue. -/
theorem IssuedIn.after_eq {calls : List (Call T)} {token : Text} (i : IssuedIn calls token) :
    after calls = run step ((after i.before).issue i.call) i.since := by
  conv_lhs => rw [i.split]
  rw [after_append]
  rfl

theorem gone_of_spent {calls : List (Call T)} {token : Text} (i : IssuedIn calls token)
    (h : ∃ call ∈ i.since, call.Spends token) : Gone token (after calls) := by
  obtain ⟨spend, hspend, htoken⟩ := h
  obtain ⟨early, late, hsince⟩ := List.append_of_mem hspend
  have hissued : (after i.before).counter + 1 ≤
      (run step ((after i.before).issue i.call) early).counter :=
    List.foldlRecOn early step (motive := fun s : CheckSession T => (after i.before).counter + 1 ≤ s.counter)
      le_rfl fun s h c _ => h.trans (counter_le_step s c)
  have hgone : Gone token (step (run step ((after i.before).issue i.call) early) spend) :=
    ⟨not_mem_of_spends htoken, _, _, _, hissued.trans (counter_le_step _ _), i.token_eq⟩
  rw [i.after_eq, hsince]
  change Gone token ((early ++ spend :: late).foldl step _)
  rw [List.foldl_append, List.foldl_cons]
  exact List.foldlRecOn late step hgone fun s h c _ => gone_step h c

/-! Room for fifty. -/

theorem length_evictOldest (es : List (Text × Issued T)) :
    (evictOldest es).length < maxOutstanding := by
  induction es with
  | nil => exact Nat.succ_pos _
  | cons e es ih =>
    rw [evictOldest]
    split
    · exact ih
    · omega

theorem length_setEntries_le {κ ν : Type*} [DecidableEq κ] (k : κ) (v : ν) (es : List (κ × ν)) :
    (OrderedMap.setEntries k v es).length ≤ es.length + 1 := by
  induction es with
  | nil => exact le_rfl
  | cons e es ih =>
    rw [OrderedMap.setEntries]
    split
    · simp
    · simpa using ih

theorem length_step_le {s : CheckSession T} (h : s.openTokens.entries.length ≤ maxOutstanding)
    (c : Call T) : (step s c).openTokens.entries.length ≤ maxOutstanding := by
  have htake : ∀ (token : Text) (values : Value) (now : Int),
      (s.take token values now).1.openTokens.entries.length ≤ maxOutstanding := by
    intro token values now
    rw [take]
    split
    · exact h
    · exact (List.length_filter_le _ _).trans h
  cases c with
  | issue call =>
    exact (length_setEntries_le _ _ _).trans (length_evictOldest _)
  | take token values now => exact htake token values now
  | consume token values now => exact htake token values now
  | clear => exact Nat.zero_le _

/-! What is open stays open while fewer than fifty are issued. -/

/-- The token is open, with at most `k` newer ones. -/
def Held (token : Text) (e : Issued T) (k : Nat) (s : CheckSession T) : Prop :=
  ∃ older newer, s.openTokens.entries = older ++ (token, e) :: newer ∧ newer.length ≤ k

theorem evictOldest_keeps (older : List (Text × Issued T)) (e : Text × Issued T)
    (newer : List (Text × Issued T)) (h : newer.length + 1 < maxOutstanding) :
    ∃ left, evictOldest (older ++ e :: newer) = left ++ e :: newer := by
  induction older with
  | nil =>
    refine ⟨[], ?_⟩
    rw [List.nil_append, evictOldest, if_neg (by rw [List.length_cons]; omega)]
  | cons x older ih =>
    rw [List.cons_append, evictOldest]
    split
    · exact ih
    · exact ⟨x :: older, rfl⟩

theorem Held.mem {token : Text} {e : Issued T} {k : Nat} {s : CheckSession T} (h : Held token e k s) :
    (token, e) ∈ s.openTokens.entries := by
  obtain ⟨older, newer, hentries, -⟩ := h
  rw [hentries]
  simp

theorem held_issue {token : Text} {e : Issued T} {k : Nat} {s : CheckSession T} (h : Held token e k s)
    (hnumbered : s.Numbered) {call : Issue T} (hlive : call.sweptAt < e.expiresAt)
    (hk : k + 1 < maxOutstanding) : Held token e (k + 1) (s.issue call) := by
  obtain ⟨older, newer, hentries, hlength⟩ := h
  have hnew : s.tokenOf call ∉ (sweep call.sweptAt s.openTokens).keys := fun hmem =>
    tokenOf_not_mem hnumbered call (mem_keys_sweep hmem)
  let live (e : Text × Issued T) : Bool := decide (call.sweptAt < e.2.expiresAt)
  have hle := List.length_filter_le live newer
  obtain ⟨left, hleft⟩ :=
    evictOldest_keeps (older.filter live) (token, e) (newer.filter live) (by omega)
  have hswept : (sweep call.sweptAt s.openTokens).entries = left ++ (token, e) :: newer.filter live := by
    change evictOldest (s.openTokens.entries.filter live) = _
    rw [hentries, List.filter_append, List.filter_cons_of_pos (by simpa [live] using hlive), hleft]
  refine ⟨left, newer.filter live ++ [(s.tokenOf call, call.stored)], ?_, ?_⟩
  · rw [issue, OrderedMap.entries_set_of_not_mem hnew, hswept]
    simp
  · rw [List.length_append, List.length_singleton]
    omega

theorem held_spend {token : Text} {e : Issued T} {k : Nat} {s : CheckSession T} (h : Held token e k s)
    {other : Text} (hne : other ≠ token) (values : Value) (now : Int) :
    Held token e k (s.take other values now).1 := by
  rw [take]
  split
  · exact h
  · obtain ⟨older, newer, hentries, hlength⟩ := h
    refine ⟨older.filter fun e => decide (e.1 ≠ other), newer.filter fun e => decide (e.1 ≠ other),
      ?_, (List.length_filter_le _ _).trans hlength⟩
    simp only [OrderedMap.erase]
    rw [hentries, List.filter_append, List.filter_cons_of_pos (by simpa using Ne.symm hne)]

theorem held_run {token : Text} {e : Issued T} {now : Int} (hnow : now < e.expiresAt)
    (calls : List (Call T)) {k : Nat} {s : CheckSession T} (h : Held token e k s)
    (hnumbered : s.Numbered) (hkeep : ∀ call ∈ calls, call ≠ .clear ∧ ¬call.Spends token)
    (hclock : ∀ call ∈ calls, ∀ t ∈ call.readings, t ≤ now)
    (hk : k + calls.countP Call.isIssue < maxOutstanding) :
    Held token e (k + calls.countP Call.isIssue) (run step s calls) := by
  induction calls generalizing k s with
  | nil => exact h
  | cons c calls ih =>
    have hstep : Held token e (k + if c.isIssue then 1 else 0) (step s c) := by
      obtain ⟨hclear, hspends⟩ := hkeep c List.mem_cons_self
      cases c with
      | issue call =>
        have hswept : call.sweptAt ≤ now := hclock _ List.mem_cons_self _ (by simp [Call.readings])
        rw [List.countP_cons_of_pos (by rfl)] at hk
        exact held_issue h hnumbered (by omega) (by omega)
      | take other values now => exact held_spend h hspends values now
      | consume other values now => exact held_spend h hspends values now
      | clear => exact absurd rfl hclear
    rw [List.countP_cons] at hk ⊢
    have hrest := ih hstep (hnumbered.step c) (fun call h => hkeep call (List.mem_cons_of_mem _ h))
      (fun call h => hclock call (List.mem_cons_of_mem _ h)) (by omega)
    rw [run_cons]
    convert hrest using 1
    omega

theorem held_of_issued {calls : List (Call T)} {token : Text} (i : IssuedIn calls token) {now : Int}
    (hunspent : i.Unspent) (hclock : ∀ call ∈ calls, ∀ t ∈ call.readings, t ≤ now)
    (hnow : now < i.call.storedAt + tokenTtlMs)
    (hcount : i.since.countP Call.isIssue < maxOutstanding) :
    (token, i.call.stored) ∈ (after calls).openTokens.entries := by
  have hnumbered := numbered_after i.before
  have hnew : token ∉ (sweep i.call.sweptAt (after i.before).openTokens).keys := fun hmem =>
    tokenOf_not_mem hnumbered i.call (i.token_eq ▸ mem_keys_sweep hmem)
  have hheld : Held token i.call.stored 0 ((after i.before).issue i.call) := by
    refine ⟨(sweep i.call.sweptAt (after i.before).openTokens).entries, [], ?_, le_rfl⟩
    rw [issue, ← i.token_eq, OrderedMap.entries_set_of_not_mem hnew]
  have hsince : ∀ call ∈ i.since, ∀ t ∈ call.readings, t ≤ now := fun call hcall =>
    hclock call (i.mem.2 call hcall)
  rw [i.after_eq]
  exact (held_run hnow i.since hheld (hnumbered.step (.issue i.call)) hunspent hsince
    (by omega)).mem

/-- The tokens of a check session keep their promises at the end of every history of
calls whose clock does not go back. -/
theorem check_session_protocol (calls : List (Call T)) (now : Int)
    (hcalls : ∀ call ∈ calls, call.IsCall)
    (hclock : (calls.flatMap Call.readings ++ [now]).Pairwise (· ≤ ·)) : Protocol calls now where
  bound token values payload hvalues htake := by
    obtain ⟨e, he, hlive, hsame, hpayload⟩ := take_eq_some.mp htake
    obtain ⟨i, hunspent, rfl⟩ := issuedIn_of_open calls he
    have hcall : i.call.values.IsValue := hcalls _ i.mem.1
    exact ⟨i, hunspent, (Value.canonical_eq_iff hcall hvalues).mp hsame, hlive, hpayload.symm⟩
  once token values i hspent := take_of_gone (gone_of_spent i hspent) values now
  capacity := List.foldlRecOn calls step
    (motive := fun s : CheckSession T => s.openTokens.entries.length ≤ maxOutstanding)
    (Nat.zero_le _) fun s h c _ => length_step_le h c
  kept token values hvalues i hunspent hcount hlive hsame := by
    have hbefore : ∀ call ∈ calls, ∀ t ∈ call.readings, t ≤ now := fun call hcall t ht =>
      (List.pairwise_append.mp hclock).2.2 t (List.mem_flatMap.mpr ⟨call, hcall, ht⟩) now
        (List.mem_singleton_self now)
    have hcall : i.call.values.IsValue := hcalls _ i.mem.1
    exact take_eq_some.mpr ⟨_, held_of_issued i hunspent hbefore hlive hcount, hlive,
      (Value.canonical_eq_iff hcall hvalues).mpr hsame, rfl⟩

/-- A check at noon, and its token at one minute past. -/
theorem check_session_protocol_noon :
    Protocol [.issue ⟨.obj [(js "name", .str (js "eth0"))], 7, 0, 0, 1, js "k3f9"⟩] 60000 :=
  check_session_protocol (T := Nat) _ _
    (fun call h => by
      rw [List.mem_singleton.mp h]
      exact .obj (List.nodup_singleton _) fun f hf => by
        rw [List.mem_singleton.mp hf]
        exact .str _)
    (by decide)

end CheckSession
end BoredManager.Shared
