import BoredManager.Server.Attempts

/-! Runs of the requests on one connection: what an attempt that is superseded can still do, what the
manager reports, and where a password goes. -/
namespace BoredManager.Server.Attempts
open BoredManager.Js BoredManager.Machine

variable {s t u : ConnectionManager} {i : Nat} {a b : Attempt}

/-! ### What becomes of an attempt -/

/-- The attempt has neither succeeded nor failed with an error of its own. -/
def Attempt.Unheard (a : Attempt) : Prop :=
  a.published = none ∧ ∀ error, a.stage ≠ .settled (.failed error)

/-- What becomes of an attempt from the request generation `now` on. -/
structure Moves (now : Nat) (a b : Attempt) : Prop where
  generation : b.generation = a.generation
  cfg : b.cfg = a.cfg
  published : ∀ p, a.published = some p → b.published = some p
  superseded : a.generation < now → a.Unheard → b.Unheard

theorem Moves.of_alike {now : Nat} (h : Alike a b) : Moves now a b where
  generation := h.generation
  cfg := h.cfg
  published p hp := by
    rw [Attempt.published] at hp ⊢
    rwa [h.stage]
  superseded _ hunheard := by
    rw [Attempt.Unheard, Attempt.published] at hunheard ⊢
    rwa [h.stage]

theorem Moves.trans {now later : Nat} {c : Attempt} (hab : Moves now a b) (hbc : Moves later b c)
    (hle : now ≤ later) : Moves now a c where
  generation := hbc.generation.trans hab.generation
  cfg := hbc.cfg.trans hab.cfg
  published p hp := hbc.published p (hab.published p hp)
  superseded hlt ha := hbc.superseded (by have := hab.generation; omega) (hab.superseded hlt ha)

/-- The attempts go on, and the requests are counted upwards. -/
structure Evolves (s t : ConnectionManager) : Prop where
  requests : s.requestGeneration ≤ t.requestGeneration
  attempts : ∀ (i : Nat) (a : Attempt), s.attempts[i]? = some a →
    ∃ b, t.attempts[i]? = some b ∧ Moves s.requestGeneration a b

theorem Evolves.refl (s : ConnectionManager) : Evolves s s :=
  ⟨Nat.le_refl _, fun _ a hget => ⟨a, hget, .of_alike ⟨rfl, rfl, rfl, rfl⟩⟩⟩

theorem Evolves.trans (hst : Evolves s t) (htu : Evolves t u) : Evolves s u := by
  refine ⟨Nat.le_trans hst.requests htu.requests, fun i a hget => ?_⟩
  obtain ⟨b, hb, hab⟩ := hst.attempts i a hget
  obtain ⟨c, hc, hbc⟩ := htu.attempts i b hb
  exact ⟨c, hc, hab.trans hbc hst.requests⟩

/-- A step of one attempt. -/
theorem evolves_set (hget : s.attempts[i]? = some a) (hmoves : Moves s.requestGeneration a b)
    (hattempts : t.attempts = s.attempts.set i b) (hrequests : t.requestGeneration = s.requestGeneration) :
    Evolves s t := by
  refine ⟨Nat.le_of_eq hrequests.symm, fun j c hc => ?_⟩
  rw [hattempts]
  by_cases hij : j = i
  · subst hij
    cases hget.symm.trans hc
    exact ⟨b, List.getElem?_set_self (List.getElem?_eq_some_iff.mp hget).1, hmoves⟩
  · exact ⟨c, (List.getElem?_set_ne (Ne.symm hij)).trans hc, .of_alike ⟨rfl, rfl, rfl, rfl⟩⟩

/-- An attempt that has published nothing goes on, or is settled. -/
theorem moves_stage {stage : Stage} {now : Nat} (hpublished : a.published = none)
    (hsuperseded : a.generation < now → Attempt.Unheard { a with stage }) :
    Moves now a { a with stage } where
  generation := rfl
  cfg := rfl
  published p hp := by
    rw [hpublished] at hp
    cases hp
  superseded hlt _ := hsuperseded hlt

theorem unheard_of_stage (h : a.stage = .building ∨ (∃ candidate, a.stage = .probing candidate) ∨
    (∃ error, a.stage = .failing error) ∨ a.stage = .settled .cancelled) : a.Unheard := by
  rw [Attempt.Unheard, Attempt.published]
  obtain h | ⟨candidate, h⟩ | ⟨error, h⟩ | h := h <;> rw [h] <;>
    exact ⟨rfl, fun error hcontra => by cases hcontra⟩

/-- Who is not the newest is cancelled. -/
theorem rejection_of_ne (h : a.generation ≠ s.requestGeneration) (error : Option Text) :
    s.rejection a error = .cancelled := by
  cases error with
  | none => rfl
  | some error =>
    refine if_neg fun hcontra => h ?_
    rw [ConnectionManager.isCurrent, Bool.and_eq_true, beq_iff_eq] at hcontra
    exact hcontra.2

theorem evolves_small (hstep : Small s t) : Evolves s t := by
  cases hstep with
  | request request =>
    refine ⟨?_, fun i a hget => ?_⟩
    · rw [requestGeneration_request]
      exact Nat.le_succ _
    · obtain ⟨b, hb, halike⟩ := getElem?_request hget request
      exact ⟨b, hb, .of_alike halike⟩
  | thrown i a error hget hopen =>
    have hnone : a.published = none := by
      rw [Attempt.published]
      obtain h | ⟨error, h⟩ := hopen <;> rw [h]
    refine evolves_set hget (moves_stage hnone fun hlt => ?_) rfl rfl
    exact unheard_of_stage (.inr (.inr (.inr
      (congrArg Stage.settled (rejection_of_ne (Nat.ne_of_lt hlt) error)))))
  | probing i a hget hstage =>
    refine evolves_set hget (moves_stage (by rw [Attempt.published, hstage])
      fun _ => ?_) rfl rfl
    exact unheard_of_stage (.inr (.inl ⟨_, rfl⟩))
  | stillborn i a hget hstage =>
    refine evolves_set hget (moves_stage (by rw [Attempt.published, hstage])
      fun _ => ?_) rfl rfl
    exact unheard_of_stage (.inr (.inr (.inl ⟨_, rfl⟩)))
  | discard i a candidate error hget hstage =>
    refine evolves_set hget (moves_stage (by rw [Attempt.published, hstage])
      fun _ => ?_) rfl rfl
    exact unheard_of_stage (.inr (.inr (.inl ⟨_, rfl⟩)))
  | publish i a candidate capability hget hstage hcurrent =>
    refine evolves_set hget (moves_stage (by rw [Attempt.published, hstage])
      fun hlt => ?_) rfl rfl
    rw [ConnectionManager.isCurrent, Bool.and_eq_true, beq_iff_eq] at hcurrent
    exact absurd hcurrent.2 (Nat.ne_of_lt hlt)
  | replaced i a executor capability hget hstage =>
    refine evolves_set (b := { a with stage := .settled (.connected executor capability) }) hget ?_ rfl rfl
    refine ⟨rfl, rfl, fun p hp => ?_, fun _ hunheard => ?_⟩
    · rw [Attempt.published, hstage] at hp
      exact hp
    · have hnone := hunheard.1
      rw [Attempt.published, hstage] at hnone
      cases hnone
  | cleaned i =>
    rw [ConnectionManager.cleaned]
    split
    · rename_i generation cfg outcome aborted listed hget
      refine evolves_set (b := ⟨generation, cfg, .settled outcome, aborted, false, true⟩) hget ?_ rfl rfl
      exact ⟨rfl, rfl, fun _ hp => hp, fun _ hunheard => hunheard⟩
    · exact .refl s
  | disconnected k =>
    rw [ConnectionManager.disconnected]
    split
    · split
      · exact ⟨Nat.le_refl _, (Evolves.refl s).attempts⟩
      · exact .refl s
    · exact .refl s

theorem evolves_lost (s : ConnectionManager) (executor generation : Nat) :
    Evolves s (s.handleConnectionLost executor generation) := by
  rw [ConnectionManager.handleConnectionLost]
  split
  · exact ⟨Nat.le_refl _, (Evolves.refl s).attempts⟩
  · exact .refl s

theorem evolves_step (s : ConnectionManager) (event : Event) : Evolves s (step s event) :=
  step_keeps (fun _ _ hstep h => h.trans (evolves_small hstep))
    (fun t executor generation h => h.trans (evolves_lost t executor generation)) s event (.refl s)

theorem evolves_run (s : ConnectionManager) (events : List Event) : Evolves s (run step s events) :=
  List.foldlRecOn events step (.refl s) fun _ h event _ => h.trans (evolves_step _ event)

/-- An attempt that a later request has superseded before its executor was published. -/
def Superseded (s : ConnectionManager) (i : Nat) : Prop :=
  ∃ a, s.attempts[i]? = some a ∧ a.generation < s.requestGeneration ∧ a.Unheard

/-- From then on it can only be cancelled: it publishes no executor and reports no error of its own. -/
theorem superseded_run {s : ConnectionManager} {i : Nat} (h : Superseded s i) (events : List Event) :
    Superseded (run step s events) i := by
  obtain ⟨a, hget, hlt, hunheard⟩ := h
  have hevolves := evolves_run s events
  obtain ⟨b, hb, hmoves⟩ := hevolves.attempts i a hget
  refine ⟨b, hb, ?_, hmoves.superseded hlt hunheard⟩
  have := hmoves.generation
  have := hevolves.requests
  omega

def sshConfig (sudoPassword : Text) : ConnectionConfig :=
  ⟨⟨.ssh, none, some [104], some [117]⟩, sudoPassword⟩

/-- The first of two requests, while it builds, and then. -/
theorem superseded_run_first : Superseded (run step
    (run step start [.request (.connect (sshConfig [])), .request (.connect (sshConfig [112]))])
    [.builtExecutor 0 (.error []), .disposalEnded 0]) 0 :=
  superseded_run ⟨_, rfl, by decide, rfl, fun error hcontra => by cases hcontra⟩ _

/-! ### What the manager reports -/

/-- What is reported is of the current executor: its attempt, what that attempt's probe has found, and
the password that the probe has verified. Without an executor nothing is kept. -/
structure Honest (s : ConnectionManager) : Prop where
  absent : s.executor = none → s.config = none ∧ s.sudoState = .none ∧ s.sudoPassword = []
  current : ∀ e, s.executor = some e → ∃ a ∈ s.attempts, ∃ capability,
    a.published = some (e, capability) ∧ s.config = some a.cfg.toCommittedConfig ∧
      s.sudoState = capability.sudoState ∧
      s.sudoPassword = if capability.sudoState = .passwordVerified then a.cfg.sudoPassword else []
  connected : s.phase = .connected → s.executor ≠ none
  idle : s.phase = .idle → s.executor = none

/-- The executor and what is kept of it stay, and the phase says nothing new. -/
theorem honest_follows (h : Honest s) (hevolves : Evolves s t)
    (hkept : t.executor = s.executor ∧ t.config = s.config ∧ t.sudoState = s.sudoState ∧
      t.sudoPassword = s.sudoPassword)
    (hconnected : t.phase = .connected → s.phase = .connected ∨ s.executor ≠ none)
    (hidle : t.phase = .idle → s.phase = .idle ∨ s.executor = none) : Honest t := by
  obtain ⟨hexecutor, hconfig, hstate, hpassword⟩ := hkept
  constructor
  case absent =>
    intro hnone
    rw [hconfig, hstate, hpassword]
    exact h.absent (hexecutor ▸ hnone)
  case current =>
    intro e he
    obtain ⟨a, ha, capability, hpublished, hkept⟩ := h.current e (hexecutor ▸ he)
    obtain ⟨i, hget⟩ := List.mem_iff_getElem?.mp ha
    obtain ⟨b, hb, hmoves⟩ := hevolves.attempts i a hget
    refine ⟨b, List.mem_of_getElem? hb, capability, hmoves.published _ hpublished, ?_⟩
    rw [hconfig, hstate, hpassword, hmoves.cfg]
    exact hkept
  case connected =>
    intro hphase
    rw [hexecutor]
    exact (hconnected hphase).elim h.connected id
  case idle =>
    intro hphase
    rw [hexecutor]
    exact (hidle hphase).elim h.idle id

theorem restPhase_connected (h : s.restPhase = .connected) : s.executor ≠ none := by
  intro hnone
  rw [ConnectionManager.restPhase, hnone] at h
  cases h

theorem restPhase_idle (h : s.restPhase = .idle) : s.executor = none := by
  cases hexecutor : s.executor with
  | none => rfl
  | some e =>
    rw [ConnectionManager.restPhase, hexecutor] at h
    cases h

/-- A step without an executor to keep. -/
theorem honest_of_none (hnone : t.executor = none)
    (habsent : t.config = none ∧ t.sudoState = .none ∧ t.sudoPassword = [])
    (hphase : t.phase ≠ .connected) : Honest t where
  absent _ := habsent
  current e he := by
    rw [hnone] at he
    cases he
  connected h := absurd h hphase
  idle _ := hnone

theorem honest_small (hstep : Small s t) (h : Honest s) : Honest t := by
  have hevolves := evolves_small hstep
  cases hstep with
  | request request =>
    cases request with
    | connect cfg =>
      exact honest_follows h hevolves ⟨rfl, rfl, rfl, rfl⟩ (fun hphase => by cases hphase)
        fun hphase => by cases hphase
    | disconnect => exact honest_of_none rfl ⟨rfl, rfl, rfl⟩ fun hphase => by cases hphase
  | thrown i a error hget hopen =>
    refine honest_follows h hevolves ⟨rfl, rfl, rfl, rfl⟩ (fun hphase => ?_) fun hphase => ?_ <;>
      change (if _ then s.restPhase else s.phase) = _ at hphase <;> split at hphase
    · exact .inr (restPhase_connected hphase)
    · exact .inl hphase
    · exact .inr (restPhase_idle hphase)
    · exact .inl hphase
  | probing | stillborn | discard | replaced =>
    exact honest_follows h hevolves ⟨rfl, rfl, rfl, rfl⟩ .inl .inl
  | publish i a candidate capability hget hstage hcurrent =>
    have hlt := (List.getElem?_eq_some_iff.mp hget).1
    constructor
    case absent => exact fun hcontra => by cases hcontra
    case current =>
      intro e he
      cases he
      refine ⟨_, List.mem_of_getElem? (List.getElem?_set_self hlt), capability, ?_, rfl, rfl, rfl⟩
      cases s.executor <;> rfl
    case connected => exact fun _ hcontra => by cases hcontra
    case idle => exact fun hcontra => by cases hcontra
  | cleaned i =>
    rw [ConnectionManager.cleaned] at hevolves ⊢
    split
    · rename_i hget
      rw [hget] at hevolves
      refine honest_follows h hevolves ⟨rfl, rfl, rfl, rfl⟩ (fun hphase => ?_) fun hphase => ?_ <;>
        dsimp only at hphase <;> split at hphase
      · cases hphase
      · exact .inl hphase
      · rename_i hnone
        exact .inr hnone.2.1
      · exact .inl hphase
    · exact h
  | disconnected k =>
    rw [ConnectionManager.disconnected]
    split
    · split
      · refine honest_follows h ⟨Nat.le_refl _, (Evolves.refl s).attempts⟩ ⟨rfl, rfl, rfl, rfl⟩
          (fun hphase => ?_) fun hphase => ?_ <;>
          dsimp only at hphase <;> split at hphase
        · exact .inr (restPhase_connected hphase)
        · exact .inl hphase
        · exact .inr (restPhase_idle hphase)
        · exact .inl hphase
      · exact h
    · exact h

theorem honest_lost (h : Honest s) (executor generation : Nat) :
    Honest (s.handleConnectionLost executor generation) := by
  rw [ConnectionManager.handleConnectionLost]
  split
  · refine honest_of_none rfl ⟨rfl, rfl, rfl⟩ ?_
    dsimp only
    split <;> exact fun hcontra => by cases hcontra
  · exact h

theorem honest_of_run (events : List Event) : Honest (run step start events) := by
  have hstart : Honest start := honest_of_none rfl ⟨rfl, rfl, rfl⟩ fun hcontra => by cases hcontra
  exact List.foldlRecOn events step hstart fun s h event _ => step_keeps
    (fun _ _ hstep h => honest_small hstep h)
    (fun _ executor generation h => honest_lost h executor generation) s event h

/-- With an executor `status` is what the hook was told before the swap that made it current, and the
password that is kept is the one that its probe has verified. Without one there is neither. -/
def Reported (s : ConnectionManager) : Prop :=
  match s.status with
  | none => s.executor = none ∧ s.sudoPassword = [] ∧ s.phase ≠ .connected
  | some status => s.phase ≠ .idle ∧ ∃ e, s.executor = some e ∧ ∃ a ∈ s.attempts, ∃ capability,
      a.published = some (e, capability) ∧ status = statusFor a.cfg capability.sudoState ∧
      s.sudoPassword = if capability.sudoState = .passwordVerified then a.cfg.sudoPassword else []

/-- A password counts as verified if it is not empty and `sudo` has accepted it. -/
theorem verified_of_probe {sudoPassword : Text} {answers : Answers} {capability : Capability}
    (h : probeCandidate sudoPassword answers = .ok capability)
    (hverified : capability.sudoState = .passwordVerified) :
    sudoPassword ≠ [] ∧ ∃ result, answers.verified = .ok result ∧ result.code = 0 := by
  obtain ⟨probe, -, h⟩ := bind_eq_ok.mp h
  obtain ⟨-, h⟩ := ite_error_eq_ok.mp h
  obtain ⟨-, h⟩ := ite_error_eq_ok.mp h
  have hpure : ∀ {c : Capability}, (pure c : Except Text Capability) = .ok capability →
      c.sudoState = .passwordVerified := by
    intro c hc
    rw [Except.ok.inj hc]
    exact hverified
  dsimp only at h
  split at h
  · cases hpure h
  · obtain ⟨passwordless, -, h⟩ := bind_eq_ok.mp h
    split at h
    · cases hpure h
    · split at h
      · cases hpure h
      · rename_i hpassword
        obtain ⟨verified, hverify, h⟩ := bind_eq_ok.mp h
        split at h
        · rename_i hcode
          exact ⟨hpassword, verified, hverify, hcode⟩
        · cases hpure h

/-- What an attempt has published is what its probe has found. -/
def Probed (s : ConnectionManager) : Prop :=
  ∀ a ∈ s.attempts, ∀ e capability, a.published = some (e, capability) →
    ∃ answers, probeCandidate a.cfg.sudoPassword answers = .ok capability

theorem probed_small (hstep : Small s t) (h : Probed s) : Probed t := by
  have hset : ∀ {i : Nat} {b : Attempt}, (∀ e capability, b.published = some (e, capability) →
      ∃ answers, probeCandidate b.cfg.sudoPassword answers = .ok capability) →
      ∀ c ∈ s.attempts.set i b, ∀ e capability, c.published = some (e, capability) →
        ∃ answers, probeCandidate c.cfg.sudoPassword answers = .ok capability := by
    intro i b hb c hc
    obtain hc | rfl := List.mem_or_eq_of_mem_set hc
    · exact h c hc
    · exact hb
  cases hstep with
  | request request =>
    intro b hb e capability hpublished
    cases request with
    | connect cfg =>
      obtain hb | hb := List.mem_append.mp hb
      · obtain ⟨a, ha, rfl⟩ := List.mem_map.mp hb
        exact h a ha e capability hpublished
      · cases List.mem_singleton.mp hb
        cases hpublished
    | disconnect =>
      obtain ⟨c, hc, rfl⟩ := List.mem_map.mp hb
      obtain ⟨a, ha, rfl⟩ := List.mem_map.mp hc
      exact h a ha e capability hpublished
  | thrown i a error hget hopen =>
    refine hset fun e capability hpublished => ?_
    have hrejection : ∀ outcome, s.rejection a error = outcome →
        ∀ e capability, outcome ≠ .connected e capability := by
      rintro _ rfl e capability hcontra
      cases error with
      | none => cases hcontra
      | some error =>
        rw [ConnectionManager.rejection] at hcontra
        split at hcontra <;> cases hcontra
    rw [Attempt.published] at hpublished
    dsimp only at hpublished
    split at hpublished
    · rename_i hcontra
      cases hcontra
    · rename_i e' capability' hstage
      exact absurd (Stage.settled.inj hstage) (hrejection _ rfl e' capability')
    · cases hpublished
  | probing | stillborn | discard => exact hset fun e capability hpublished => by cases hpublished
  | publish i a candidate capability hget hstage hcurrent answers hprobe =>
    refine hset fun e found hpublished => ⟨answers, ?_⟩
    have hfound : found = capability := by
      cases hexecutor : s.executor <;> rw [hexecutor] at hpublished <;> cases hpublished <;> rfl
    rw [hfound]
    exact hprobe
  | replaced i a executor capability hget hstage =>
    refine hset fun e found hpublished => ?_
    refine h a (List.mem_of_getElem? hget) e found ?_
    rw [Attempt.published, hstage]
    exact hpublished
  | cleaned i =>
    rw [ConnectionManager.cleaned]
    split
    · rename_i hget
      exact hset fun e capability hpublished =>
        h _ (List.mem_of_getElem? hget) e capability hpublished
    · exact h
  | disconnected k =>
    rw [ConnectionManager.disconnected]
    split
    · split <;> exact h
    · exact h

theorem probed_of_run (events : List Event) : Probed (run step start events) := by
  refine List.foldlRecOn events step (fun _ hmem => by cases hmem) fun s h event _ => ?_
  refine step_keeps (fun _ _ hstep h => probed_small hstep h) (fun s executor generation h => ?_) s event h
  rw [ConnectionManager.handleConnectionLost]
  split <;> exact h

/-- `execSudo`: the executor, its command line and its standard input. -/
def ConnectionManager.execSudo (s : ConnectionManager) (command : Text) (stdin : Option Text) :
    Option (Nat × Text × Option Text) :=
  s.executor.map fun e => (e, Connection.execSudo ⟨s.sudoState, s.sudoPassword⟩ command stdin)

/-- In front of what the caller gives stands the password that came with the attempt that has built the
executor, and `sudo` has accepted it there. -/
def VerifiedThere (s : ConnectionManager) (e : Nat) (stdin input : Option Text) : Prop :=
  ∃ a ∈ s.attempts, ∃ capability, a.published = some (e, capability) ∧
    input = some (a.cfg.sudoPassword ++ [10] ++ stdin.getD []) ∧ a.cfg.sudoPassword ≠ [] ∧
    ∃ answers result, probeCandidate a.cfg.sudoPassword answers = .ok capability ∧
      answers.verified = .ok result ∧ result.code = 0

/-- A user who may use `sudo` with a password. -/
def userAnswers : Answers where
  probe := .ok ⟨0, [49, 10, 76, 105, 110, 117, 120], []⟩
  passwordless := .ok ⟨1, [], []⟩
  verified := .ok ⟨0, [], []⟩

/-- One attempt, until its executor is current. -/
def connectEvents : List Event :=
  [.request (.connect (sshConfig [112])), .builtExecutor 0 (.ok ()), .probed 0 userAnswers [] none]

end BoredManager.Server.Attempts
