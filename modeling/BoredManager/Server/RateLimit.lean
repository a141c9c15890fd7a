import BoredManager.Machine.Runs
import Mathlib.Algebra.Order.Field.Rat
import Mathlib.Tactic.Linarith
import Mathlib.Tactic.Positivity
import Mathlib.Tactic.Ring

/-! The inbound rate limit of one socket: a bucket of tokens that a clock refills, and that every
frame of a proper form takes one from. The clock may step back. -/
namespace BoredManager.Server.RateLimit
open BoredManager.Machine

structure Limits where
  maxPayload : Nat
  ratePerSecond : ℚ
  rateBurst : ℚ
  rate_nonneg : 0 ≤ ratePerSecond
  burst_nonneg : 0 ≤ rateBurst

structure ClientState where
  closed : Bool
  tokens : ℚ
  lastRefill : ℚ
deriving DecidableEq

/-- A frame and what the clock says when it arrives; `closes` if the socket is closed for another
reason once the frame has its token. -/
structure Arrival where
  now : ℚ
  isBinary : Bool
  bytes : Nat
  closes : Bool
deriving DecidableEq

variable (limits : Limits)

def attach (now : ℚ) : ClientState := ⟨false, limits.rateBurst, now⟩

/-- Whether there was a token, and the state after it was taken. -/
def takeRateToken (s : ClientState) (now : ℚ) : Bool × ClientState :=
  let elapsed := max 0 (now - s.lastRefill)
  let tokens := min limits.rateBurst (s.tokens + elapsed * limits.ratePerSecond / 1000)
  if tokens < 1 then (false, { s with tokens := tokens, lastRefill := now })
  else (true, { s with tokens := tokens - 1, lastRefill := now })

/-- Whether a frame gets past the rate limit, and the state after it. -/
def acceptInput (s : ClientState) (a : Arrival) : Bool × ClientState :=
  if s.closed then (false, s)
  else if a.isBinary then (false, { s with closed := true })
  else if limits.maxPayload < a.bytes then (false, { s with closed := true })
  else
    let (token, s) := takeRateToken limits s a.now
    if token then (true, { s with closed := a.closes }) else (false, { s with closed := true })

def receive (s : ClientState) (a : Arrival) : ClientState := (acceptInput limits s a).2

/-- How many of these frames get past the rate limit. -/
def accepted (s : ClientState) : List Arrival → Nat
  | [] => 0
  | a :: arrivals =>
    (if (acceptInput limits s a).1 then 1 else 0) + accepted (receive limits s a) arrivals

/-- How far the clock goes forward from one reading to the next. -/
def advance (last : ℚ) : List Arrival → ℚ
  | [] => 0
  | a :: arrivals => max 0 (a.now - last) + advance a.now arrivals

variable {limits} {s : ClientState}

theorem advance_nonneg (last : ℚ) (arrivals : List Arrival) : 0 ≤ advance last arrivals := by
  induction arrivals generalizing last with
  | nil => exact le_rfl
  | cons a arrivals ih => exact add_nonneg (le_max_left _ _) (ih a.now)

/-- Without a step back the clock goes forward from its first reading to its last. -/
theorem advance_eq {last : ℚ} {arrivals : List Arrival}
    (h : (last :: arrivals.map Arrival.now).Pairwise (· ≤ ·)) :
    advance last arrivals = (arrivals.map Arrival.now).getLastD last - last := by
  induction arrivals generalizing last with
  | nil => simp [advance]
  | cons a arrivals ih =>
    obtain ⟨hfirst, hrest⟩ := List.pairwise_cons.mp h
    have hle : last ≤ a.now := hfirst a.now List.mem_cons_self
    rw [advance, ih hrest, max_eq_right (by linarith), List.map_cons, List.getLastD_cons]
    ring

/-- What the bucket holds never leaves its bounds. -/
def Bounded (limits : Limits) (s : ClientState) : Prop := 0 ≤ s.tokens ∧ s.tokens ≤ limits.rateBurst

theorem takeRateToken_spec (h : Bounded limits s) (now : ℚ) :
    Bounded limits (takeRateToken limits s now).2 ∧ (takeRateToken limits s now).2.lastRefill = now ∧
      (if (takeRateToken limits s now).1 then 1 else 0) + (takeRateToken limits s now).2.tokens ≤
        min limits.rateBurst (s.tokens + max 0 (now - s.lastRefill) * limits.ratePerSecond / 1000) := by
  obtain ⟨hlow, -⟩ := h
  have helapsed : 0 ≤ max 0 (now - s.lastRefill) := le_max_left _ _
  have hrefill : 0 ≤ max 0 (now - s.lastRefill) * limits.ratePerSecond / 1000 :=
    div_nonneg (mul_nonneg helapsed limits.rate_nonneg) (by norm_num)
  have hmin : 0 ≤ min limits.rateBurst
      (s.tokens + max 0 (now - s.lastRefill) * limits.ratePerSecond / 1000) :=
    le_min limits.burst_nonneg (by linarith)
  have hburst := min_le_left limits.rateBurst
    (s.tokens + max 0 (now - s.lastRefill) * limits.ratePerSecond / 1000)
  rw [takeRateToken]
  split
  · exact ⟨⟨hmin, hburst⟩, rfl, by simp⟩
  · rename_i hone
    have hone := not_lt.mp hone
    refine ⟨⟨?_, ?_⟩, rfl, ?_⟩
    · dsimp only
      linarith
    · dsimp only
      linarith
    · simp

theorem bounded_receive (h : Bounded limits s) (a : Arrival) : Bounded limits (receive limits s a) := by
  obtain ⟨hbounded, -, -⟩ := takeRateToken_spec h a.now
  rw [receive, acceptInput]
  split_ifs
  · exact h
  · exact h
  · exact h
  · generalize takeRateToken limits s a.now = r at hbounded
    obtain ⟨token, s'⟩ := r
    cases token with
    | true => exact hbounded
    | false => exact hbounded

theorem bounded_attach (now : ℚ) : Bounded limits (attach limits now) :=
  ⟨limits.burst_nonneg, le_rfl⟩

/-- A closed socket takes nothing. -/
theorem accepted_of_closed (h : s.closed = true) (arrivals : List Arrival) :
    accepted limits s arrivals = 0 := by
  induction arrivals with
  | nil => rfl
  | cons a arrivals ih =>
    have hclosed : acceptInput limits s a = (false, s) := by simp [acceptInput, h]
    rw [accepted, receive, hclosed, ih]
    rfl

/-- The frames that get past the limit are paid for by what the bucket holds and by its refills. -/
theorem accepted_le_tokens (h : Bounded limits s) (arrivals : List Arrival) :
    (accepted limits s arrivals : ℚ) ≤
      s.tokens + limits.ratePerSecond * advance s.lastRefill arrivals / 1000 := by
  induction arrivals generalizing s with
  | nil =>
    simp only [accepted, advance, Nat.cast_zero, mul_zero, zero_div, add_zero]
    exact h.1
  | cons a arrivals ih =>
    obtain ⟨hbounded, hlast, hpaid⟩ := takeRateToken_spec h a.now
    have hrate : 0 ≤ limits.ratePerSecond * advance s.lastRefill (a :: arrivals) / 1000 :=
      div_nonneg (mul_nonneg limits.rate_nonneg (advance_nonneg _ _)) (by norm_num)
    have hnone : ∀ s', (s'.closed = true) → acceptInput limits s a = (false, s') →
        (accepted limits s (a :: arrivals) : ℚ) ≤
          s.tokens + limits.ratePerSecond * advance s.lastRefill (a :: arrivals) / 1000 := by
      intro s' hclosed heq
      rw [accepted, receive, heq, accepted_of_closed hclosed]
      simp only [Bool.false_eq_true, if_false, add_zero, Nat.cast_zero]
      linarith [h.1]
    by_cases hclosed : s.closed = true
    · exact hnone s hclosed (by simp [acceptInput, hclosed])
    by_cases hbinary : a.isBinary = true
    · exact hnone { s with closed := true } rfl (by simp [acceptInput, hclosed, hbinary])
    by_cases hbytes : limits.maxPayload < a.bytes
    · exact hnone { s with closed := true } rfl (by simp [acceptInput, hclosed, hbinary, hbytes])
    have hinput : acceptInput limits s a =
        if (takeRateToken limits s a.now).1 then
          (true, { (takeRateToken limits s a.now).2 with closed := a.closes })
        else (false, { (takeRateToken limits s a.now).2 with closed := true }) := by
      simp [acceptInput, hclosed, hbinary, hbytes]
    generalize takeRateToken limits s a.now = r at hbounded hlast hpaid hinput
    obtain ⟨token, s'⟩ := r
    cases token with
    | false => exact hnone { s' with closed := true } rfl hinput
    | true =>
      obtain ⟨closed, tokens, last⟩ := s'
      obtain rfl : last = a.now := hlast
      have hnext : Bounded limits ⟨a.closes, tokens, a.now⟩ := hbounded
      have hrest := ih hnext
      have hpaid : 1 + tokens ≤ s.tokens + max 0 (a.now - s.lastRefill) * limits.ratePerSecond / 1000 :=
        le_trans (by simpa using hpaid) (min_le_right _ _)
      rw [accepted, receive, hinput, if_pos rfl, if_pos rfl, advance]
      push_cast
      dsimp only at hrest ⊢
      linarith

/-- From any arrival on, the frames that get past the limit are paid for by a full bucket and by the
refills after that arrival. -/
theorem accepted_le_burst (h : Bounded limits s) (a : Arrival) (rest : List Arrival) :
    (accepted limits s (a :: rest) : ℚ) ≤
      limits.rateBurst + limits.ratePerSecond * advance a.now rest / 1000 := by
  have hadvance : 0 ≤ limits.ratePerSecond * advance a.now rest / 1000 :=
    div_nonneg (mul_nonneg limits.rate_nonneg (advance_nonneg _ _)) (by norm_num)
  obtain ⟨hbounded, hlast, hpaid⟩ := takeRateToken_spec h a.now
  by_cases htoken : (acceptInput limits s a).1 = true
  · have hinput : acceptInput limits s a =
        (true, { (takeRateToken limits s a.now).2 with closed := a.closes }) ∧
          (takeRateToken limits s a.now).1 = true := by
      rw [acceptInput] at htoken ⊢
      split_ifs at htoken ⊢
      generalize takeRateToken limits s a.now = r at htoken ⊢
      obtain ⟨token, s'⟩ := r
      cases token with
      | true => exact ⟨rfl, rfl⟩
      | false => cases htoken
    have hrest := accepted_le_tokens (s := { (takeRateToken limits s a.now).2 with closed := a.closes })
      hbounded rest
    rw [hinput.2, if_pos rfl] at hpaid
    have hpaid := le_trans hpaid (min_le_left _ _)
    rw [accepted, if_pos htoken, receive, hinput.1]
    push_cast
    rw [hlast] at hrest
    linarith
  · have hclosed : (receive limits s a).closed = true := by
      rw [receive, acceptInput]
      rw [acceptInput] at htoken
      split_ifs at htoken ⊢ with hwas
      · exact hwas
      · rfl
      · rfl
      · generalize takeRateToken limits s a.now = r at htoken ⊢
        obtain ⟨token, s'⟩ := r
        cases token with
        | true => simp at htoken
        | false => rfl
    rw [accepted, if_neg htoken, accepted_of_closed hclosed]
    simp only [Nat.cast_zero, add_zero]
    linarith [limits.burst_nonneg]

/-- The bucket stays in its bounds, and what passes from one arrival to another is paid for by a full
bucket and by the forward steps of the clock between them; without a step back these make up no more
than what lies between its readings. -/
structure RateLimited (limits : Limits) (s : ClientState) (a : Arrival) (rest : List Arrival) : Prop where
  bounded : Bounded limits s
  passed : (accepted limits s (a :: rest) : ℚ) ≤
    limits.rateBurst + limits.ratePerSecond * advance a.now rest / 1000
  monotone : (a.now :: rest.map Arrival.now).Pairwise (· ≤ ·) → ∀ m M : ℚ,
    (∀ now ∈ a.now :: rest.map Arrival.now, m ≤ now ∧ now ≤ M) →
      (accepted limits s (a :: rest) : ℚ) ≤
        limits.rateBurst + limits.ratePerSecond * (M - m) / 1000

/-- For every clock and all limits, after any arrivals. -/
theorem rate_limited (limits : Limits) (now : ℚ) (before : List Arrival) (a : Arrival)
    (rest : List Arrival) : RateLimited limits (run (receive limits) (attach limits now) before) a rest := by
  have hbounded : Bounded limits (run (receive limits) (attach limits now) before) :=
    List.foldlRecOn before _ (bounded_attach now) fun _ h a _ => bounded_receive h a
  have hpassed := accepted_le_burst hbounded a rest
  refine ⟨hbounded, hpassed, fun hsorted m M hrange => hpassed.trans ?_⟩
  have hlast : (rest.map Arrival.now).getLastD a.now ∈ a.now :: rest.map Arrival.now :=
    List.getLastD_mem_cons
  have hfirst := (hrange a.now List.mem_cons_self).1
  have hadvance : advance a.now rest ≤ M - m := by
    rw [advance_eq hsorted]
    linarith [(hrange _ hlast).2]
  have := mul_le_mul_of_nonneg_left hadvance limits.rate_nonneg
  linarith

def onePerSecond : Limits := ⟨65536, 1, 2, by norm_num, by norm_num⟩

def frameAt (now : ℚ) : Arrival := ⟨now, false, 10, false⟩

/-- A clock that is set back refills the bucket again with the second it has already counted. -/
theorem clock_set_back :
    ¬ (accepted onePerSecond (attach onePerSecond 0) ([0, 1000, 0, 1000].map frameAt) : ℚ) ≤
      onePerSecond.rateBurst + onePerSecond.ratePerSecond * (1000 - 0) / 1000 := by
  decide +kernel

end BoredManager.Server.RateLimit
