import BoredManager.Js.Number
import BoredManager.Js.NumberText
import BoredManager.Js.OrderedMap
import BoredManager.Js.Utf8
import BoredManager.Machine.Runs
import Mathlib.Data.List.Induction

/-! The SSH host keys that were accepted, and the challenges that ask for one. -/
namespace BoredManager.Server.HostKeys
open BoredManager.Js BoredManager.Machine

def CHALLENGE_TTL_MS : Nat := 60000
def MAX_PENDING_CHALLENGES : Nat := 256

inductive Kind where
  | unknown | changed
deriving DecidableEq, Repr

structure HostKeyChallenge where
  kind : Kind
  fingerprint : Text
  host : Text
  port : Number
  token : Text
  expiresAt : Nat

structure PendingChallenge extends HostKeyChallenge where
  hostId : Text

structure HostKeyConfirmation where
  fingerprint : Text
  token : Text
deriving DecidableEq

inductive CheckError where
  | invalidHost
  | invalidFingerprint
  | writeFailed
  | hostKey (challenge : HostKeyChallenge)
  /-- Still at the draw of a token. -/
  | drawing

/-- `randomBytes(32).toString('base64url')` -/
structure Token where
  text : Text
  length : text.length = 43

/-- A call of `checkHostKey`: its arguments, what `randomBytes` gives in turn, and whether the file
can be written. -/
structure Call where
  host : Text
  port : Number
  fingerprint : Text
  confirmation : Option HostKeyConfirmation
  now : Nat
  draws : List Token
  written : Bool

abbrev Pending := OrderedMap Text PendingChallenge

variable (toLowerCase : Text → Text)

def hostId (host : Text) (port : Number) : Except CheckError Text :=
  let normalizedHost := toLowerCase (trim host)
  if normalizedHost.length = 0 ∨ normalizedHost.length > 506 then .error .invalidHost
  else match port.integer? with
    | some port =>
      if 1 ≤ port ∧ port ≤ 65535 then .ok (normalizedHost ++ 58 :: decimal port.toNat)
      else .error .invalidHost
    | none => .error .invalidHost

def isHex (u : Nat) : Bool := isDigit u || (97 ≤ u && u ≤ 102) || (65 ≤ u && u ≤ 70)

def fingerprintValue (fingerprint : Text) : Except CheckError Text :=
  if fingerprint.length = 64 ∧ fingerprint.all isHex then .ok (toLowerAscii fingerprint)
  else .error .invalidFingerprint

def rememberHostKey (hosts : OrderedMap Text Text) (host : Text) (port : Number) (fingerprint : Text) :
    Except CheckError (OrderedMap Text Text) := do
  let id ← hostId toLowerCase host port
  let fingerprint ← fingerprintValue fingerprint
  pure (hosts.set id fingerprint)

def sameToken (left right : Text) : Bool := utf8 left = utf8 right

/-- The entries of a map that stay, in their order. -/
def keep (pending : Pending) (entries : List (Text × PendingChallenge))
    (h : entries.Sublist pending.entries) : Pending :=
  ⟨entries, pending.nodup.sublist (h.map Prod.fst)⟩

/-- The expired ones go, then the oldest until there is room for one. (No token is empty, so the
loop never stops at one.) -/
def pruneChallenges (pending : Pending) (now : Nat) : Pending :=
  let alive := pending.entries.filter fun entry => now < entry.2.expiresAt
  keep pending (alive.drop (alive.length - (MAX_PENDING_CHALLENGES - 1)))
    ((List.drop_sublist _ _).trans List.filter_sublist)

def issueChallenge (pending : Pending) (kind : Kind) (host : Text) (port : Number)
    (fingerprint : Text) (now : Nat) (draws : List Token) : Pending × CheckError :=
  let pending := pruneChallenges pending now
  match draws.find? fun token => !pending.has token.text with
  | none => (pending, .drawing)
  | some token =>
    match hostId toLowerCase host port with
    | .error e => (pending, e)
    | .ok id =>
      let challenge : HostKeyChallenge :=
        ⟨kind, fingerprint, trim host, port, token.text, now + CHALLENGE_TTL_MS⟩
      (pending.set token.text ⟨challenge, id⟩, .hostKey challenge)

def confirmationMatches (pending : Pending) (id fingerprint : Text)
    (confirmation : Option HostKeyConfirmation) (now : Nat) : Pending × Except CheckError Bool :=
  match confirmation with
  | none => (pending, .ok false)
  | some confirmation =>
    match pending.get? confirmation.token with
    | none => (pending, .ok false)
    | some challenge =>
      (pending.erase confirmation.token,
        if challenge.expiresAt ≤ now ∨ challenge.hostId ≠ id ∨ challenge.fingerprint ≠ fingerprint then
          .ok false
        else match fingerprintValue confirmation.fingerprint with
          | .error e => .error e
          | .ok confirmed =>
            .ok (confirmed = fingerprint && sameToken challenge.token confirmation.token))

/-- The file, and the challenges that the process waits for. -/
structure World where
  hosts : OrderedMap Text Text
  pending : Pending

def World.checkHostKey (w : World) (call : Call) : World × Except CheckError Unit :=
  match fingerprintValue call.fingerprint with
  | .error e => (w, .error e)
  | .ok normalized =>
    match hostId toLowerCase call.host call.port with
    | .error e => (w, .error e)
    | .ok id =>
      let stored := w.hosts.get? id
      if stored = some normalized then
        match call.confirmation with
        | some confirmation => ({ w with pending := w.pending.erase confirmation.token }, .ok ())
        | none => (w, .ok ())
      else
        match confirmationMatches w.pending id normalized call.confirmation call.now with
        | (pending, .error e) => ({ w with pending }, .error e)
        | (pending, .ok true) =>
          match rememberHostKey toLowerCase w.hosts call.host call.port normalized with
          | .error e => ({ w with pending }, .error e)
          | .ok hosts =>
            if call.written then ({ hosts, pending }, .ok ())
            else ({ w with pending }, .error .writeFailed)
        | (pending, .ok false) =>
          let kind := if stored.isSome then .changed else .unknown
          let issued := issueChallenge toLowerCase pending kind call.host call.port normalized
            call.now call.draws
          ({ w with pending := issued.1 }, .error issued.2)

def World.step (w : World) (call : Call) : World := (w.checkHostKey toLowerCase call).1

/-- The process begins with the file as it is. -/
def World.start (hosts : OrderedMap Text Text) : World := ⟨hosts, .empty⟩

end BoredManager.Server.HostKeys

/-! A host key is accepted only where it is known or its challenge was confirmed, whatever calls
come before; and when a confirmation is spent, and does not replace another key unseen. -/
namespace BoredManager.Server.HostKeys
open BoredManager.Js BoredManager.Machine

variable {toLowerCase : Text → Text} {w : World} {call : Call} {pending : Pending}
  {challenge : PendingChallenge} {confirmation : HostKeyConfirmation} {id fingerprint token : Text}

theorem erase_of_get?_eq_none (h : pending.get? token = none) : pending.erase token = pending := by
  obtain ⟨entries, hnodup⟩ := pending
  rw [OrderedMap.get?_eq_none] at h
  simp only [OrderedMap.erase, OrderedMap.mk.injEq, List.filter_eq_self, decide_eq_true_eq]
  rintro entry hentry rfl
  exact h (List.mem_map_of_mem hentry)

/-! The id of a host. -/

theorem hostId_ok {host : Text} {port : Number} (h : hostId toLowerCase host port = .ok id) :
    ∃ n : Nat, port = .ofInt n ∧ id = toLowerCase (trim host) ++ 58 :: decimal n := by
  simp only [hostId] at h
  split_ifs at h
  split at h
  · rename_i n hn
    split_ifs at h with hrange
    injection h with h
    refine ⟨n.toNat, ?_, h.symm⟩
    rw [Int.toNat_of_nonneg (by omega)]
    exact Number.integer?_eq_some.mp hn
  · cases h

/-- The text up to its last colon, and what follows. -/
theorem append_colon_cancel {s t : Text} {m n : Nat}
    (h : s ++ 58 :: decimal m = t ++ 58 :: decimal n) : s = t ∧ m = n := by
  have htake : ∀ (s : Text) (m : Nat), (s ++ 58 :: decimal m).reverse.takeWhile isDigit =
      (decimal m).reverse := by
    intro s m
    rw [List.reverse_append, List.reverse_cons, List.append_assoc, List.takeWhile_append_of_pos]
    · simp [isDigit]
    · intro u hu
      exact isDigit_of_mem_decimal (List.mem_reverse.mp hu)
  have hdigits := congrArg (fun x : Text => x.reverse.takeWhile isDigit) h
  simp only [htake] at hdigits
  have hsame := List.reverse_injective hdigits
  rw [hsame] at h
  exact ⟨List.append_cancel_right h, Number.radixText_injective (by omega) (by omega) hsame⟩

/-- An id names one normalized host and one port. -/
theorem hostId_injective {host host' : Text} {port port' : Number}
    (h : hostId toLowerCase host port = .ok id) (h' : hostId toLowerCase host' port' = .ok id) :
    toLowerCase (trim host) = toLowerCase (trim host') ∧ port = port' := by
  obtain ⟨m, rfl, hm⟩ := hostId_ok h
  obtain ⟨n, rfl, hn⟩ := hostId_ok h'
  obtain ⟨hhost, rfl⟩ := append_colon_cancel (hm.symm.trans hn)
  exact ⟨hhost, rfl⟩

theorem fingerprintValue_ok {text : Text} (h : fingerprintValue text = .ok fingerprint) :
    fingerprintValue fingerprint = .ok fingerprint := by
  simp only [fingerprintValue] at h ⊢
  split_ifs at h with hhex
  injection h with h
  have hlower : ∀ u, isHex u → isHex (if isUpper u then u + 32 else u) ∧
      (if isUpper u then u + 32 else u) = if isUpper (if isUpper u then u + 32 else u) then
        (if isUpper u then u + 32 else u) + 32 else if isUpper u then u + 32 else u := by
    intro u hu
    simp only [isHex, isDigit, isUpper, Bool.or_eq_true, Bool.and_eq_true, decide_eq_true_eq] at hu ⊢
    split_ifs <;> omega
  subst h
  rw [if_pos]
  · congr 1
    simp only [toLowerAscii, List.map_map]
    refine (List.map_congr_left fun u hu => ?_).symm
    exact (hlower u (List.all_eq_true.mp hhex.2 u hu)).2
  · refine ⟨by simpa [toLowerAscii] using hhex.1, List.all_eq_true.mpr fun v hv => ?_⟩
    obtain ⟨u, hu, rfl⟩ := List.mem_map.mp hv
    exact (hlower u (List.all_eq_true.mp hhex.2 u hu)).1

/-! What a call can do. -/

/-- The call names a host, a port and a fingerprint. -/
structure Names (toLowerCase : Text → Text) (call : Call) (id fingerprint : Text) : Prop where
  named : hostId toLowerCase call.host call.port = .ok id
  presented : fingerprintValue call.fingerprint = .ok fingerprint

theorem Names.unique {id' fingerprint' : Text} (h : Names toLowerCase call id fingerprint)
    (h' : Names toLowerCase call id' fingerprint') : id = id' ∧ fingerprint = fingerprint' :=
  ⟨Except.ok.inj (h.named.symm.trans h'.named), Except.ok.inj (h.presented.symm.trans h'.presented)⟩

/-- The confirmation of the call is that of a pending challenge, for its host and fingerprint. -/
structure Confirms (w : World) (call : Call) (id fingerprint : Text)
    (confirmation : HostKeyConfirmation) (challenge : PendingChallenge) : Prop where
  submitted : call.confirmation = some confirmation
  waiting : w.pending.get? confirmation.token = some challenge
  inTime : call.now < challenge.expiresAt
  host : challenge.hostId = id
  shown : challenge.fingerprint = fingerprint
  confirmed : fingerprintValue confirmation.fingerprint = .ok fingerprint
  token : sameToken challenge.token confirmation.token

/-- The call issues the challenge. -/
structure Issues (toLowerCase : Text → Text) (w : World) (call : Call) (challenge : PendingChallenge) :
    Prop where
  issued : (w.checkHostKey toLowerCase call).2 = .error (.hostKey challenge.toHostKeyChallenge)
  names : Names toLowerCase call challenge.hostId challenge.fingerprint
  expires : challenge.expiresAt = call.now + CHALLENGE_TTL_MS

/-- The challenges that a submitted token leaves. -/
def Pending.without (pending : Pending) (confirmation : Option HostKeyConfirmation) : Pending :=
  match confirmation with
  | some confirmation => pending.erase confirmation.token
  | none => pending

theorem get?_without {confirmation : Option HostKeyConfirmation}
    (h : (pending.without confirmation).get? token = some challenge) :
    pending.get? token = some challenge ∧ ∀ c, confirmation = some c → token ≠ c.token := by
  cases confirmation with
  | none => exact ⟨h, fun c hc => by cases hc⟩
  | some c =>
    rw [Pending.without, OrderedMap.get?_erase] at h
    split_ifs at h with hc
    exact ⟨h, fun c' hc' => by cases hc'; exact hc⟩

theorem length_erase_le : (pending.erase token).entries.length ≤ pending.entries.length :=
  List.length_filter_le _ _

theorem length_without_le (pending : Pending) (confirmation : Option HostKeyConfirmation) :
    (pending.without confirmation).entries.length ≤ pending.entries.length := by
  cases confirmation with
  | none => exact le_rfl
  | some c => exact length_erase_le

theorem length_set_le : (pending.set token challenge).entries.length ≤ pending.entries.length + 1 := by
  by_cases h : token ∈ pending.keys
  · have hkeys : ∀ entries : List (Text × PendingChallenge), token ∈ entries.map Prod.fst →
        (OrderedMap.setEntries token challenge entries).length = entries.length := by
      intro entries hmem
      induction entries with
      | nil => cases hmem
      | cons entry entries ih =>
        rw [OrderedMap.setEntries]
        split_ifs with hentry
        · rfl
        · obtain heq | hrest := List.mem_cons.mp hmem
          · exact absurd heq.symm hentry
          · rw [List.length_cons, ih hrest, List.length_cons]
    exact (hkeys _ h).le.trans (Nat.le_succ _)
  · rw [OrderedMap.entries_set_of_not_mem h, List.length_append]
    exact le_rfl

theorem get?_prune {now : Nat} (h : (pruneChallenges pending now).get? token = some challenge) :
    pending.get? token = some challenge := by
  rw [OrderedMap.get?_eq_some] at h ⊢
  simp only [pruneChallenges, keep] at h
  have halive := List.mem_of_mem_drop h
  exact (List.mem_filter.mp halive).1

theorem length_prune_lt (pending : Pending) (now : Nat) :
    (pruneChallenges pending now).entries.length < MAX_PENDING_CHALLENGES := by
  have hmax : 0 < MAX_PENDING_CHALLENGES := Nat.succ_pos 255
  rw [pruneChallenges, keep, List.length_drop]
  generalize MAX_PENDING_CHALLENGES = limit at hmax ⊢
  omega

variable {submitted : Option HostKeyConfirmation} {now : Nat}

theorem confirmationMatches_fst :
    (confirmationMatches pending id fingerprint submitted now).1 = pending.without submitted := by
  cases submitted with
  | none => rfl
  | some confirmation =>
    cases hpending : pending.get? confirmation.token with
    | none =>
      simp only [confirmationMatches, hpending, Pending.without]
      exact (erase_of_get?_eq_none hpending).symm
    | some challenge => simp only [confirmationMatches, hpending, Pending.without]

theorem confirmationMatches_true :
    (confirmationMatches w.pending id fingerprint call.confirmation call.now).2 = .ok true ↔
      ∃ confirmation challenge, Confirms w call id fingerprint confirmation challenge := by
  constructor
  · intro h
    cases hsubmitted : call.confirmation with
    | none => simp [confirmationMatches, hsubmitted] at h
    | some confirmation =>
      cases hpending : w.pending.get? confirmation.token with
      | none => simp [confirmationMatches, hsubmitted, hpending] at h
      | some challenge =>
        simp only [confirmationMatches, hsubmitted, hpending] at h
        split_ifs at h with hbad
        · cases h
        · split at h
          · cases h
          · rename_i confirmed hconfirmed
            have htrue := Except.ok.inj h
            rw [Bool.and_eq_true] at htrue
            push Not at hbad
            refine ⟨confirmation, challenge, hsubmitted, hpending, hbad.1, hbad.2.1, hbad.2.2, ?_,
              htrue.2⟩
            rw [hconfirmed, of_decide_eq_true htrue.1]
  · rintro ⟨confirmation, challenge, h⟩
    have hgood : ¬(challenge.expiresAt ≤ call.now ∨ challenge.hostId ≠ id ∨
        challenge.fingerprint ≠ fingerprint) := by
      simp [h.inTime, h.host, h.shown]
    simp only [confirmationMatches, h.submitted, h.waiting, if_neg hgood, h.confirmed, h.token]
    simp

theorem confirmationMatches_error {e : CheckError}
    (h : (confirmationMatches pending id fingerprint submitted now).2 = .error e) :
    e = .invalidFingerprint := by
  cases hsubmitted : submitted with
  | none => simp [confirmationMatches, hsubmitted] at h
  | some confirmation =>
    cases hpending : pending.get? confirmation.token with
    | none => simp [confirmationMatches, hsubmitted, hpending] at h
    | some challenge =>
      simp only [confirmationMatches, hsubmitted, hpending] at h
      split_ifs at h
      split at h
      · rename_i e' hconfirmed
        cases h
        simp only [fingerprintValue] at hconfirmed
        split_ifs at hconfirmed
        exact (Except.error.inj hconfirmed).symm
      · cases h

variable {kind : Kind} {host : Text} {port : Number} {draws : List Token}

theorem length_issue_le : (issueChallenge toLowerCase pending kind host port fingerprint now
    draws).1.entries.length ≤ MAX_PENDING_CHALLENGES := by
  have hprune := length_prune_lt pending now
  rw [issueChallenge]
  split
  · exact hprune.le
  · split
    · exact hprune.le
    · exact length_set_le.trans hprune

/-- A challenge that is there after an issue was there before, or is the one issued. -/
theorem issueChallenge_get? (h : (issueChallenge toLowerCase pending kind host port fingerprint now
    draws).1.get? token = some challenge) : pending.get? token = some challenge ∨
      (issueChallenge toLowerCase pending kind host port fingerprint now draws).2 =
          .hostKey challenge.toHostKeyChallenge ∧
        challenge.token = token ∧ challenge.fingerprint = fingerprint ∧
        hostId toLowerCase host port = .ok challenge.hostId ∧
        challenge.expiresAt = now + CHALLENGE_TTL_MS := by
  rw [issueChallenge] at h ⊢
  split at h
  · exact .inl (get?_prune h)
  · rename_i drawn hdrawn
    split at h
    · exact .inl (get?_prune h)
    · rename_i id hid
      rw [OrderedMap.get?_set] at h
      split_ifs at h with htoken
      · right
        cases h
        exact ⟨rfl, htoken.symm, rfl, hid, rfl⟩
      · exact .inl (get?_prune h)

theorem check_unnamed (h : ∀ id fingerprint, ¬Names toLowerCase call id fingerprint) :
    ∃ e, w.checkHostKey toLowerCase call = (w, .error e) ∧ ∀ issued, e ≠ .hostKey issued := by
  rw [World.checkHostKey]
  cases hpresented : fingerprintValue call.fingerprint with
  | error e =>
    refine ⟨e, rfl, fun issued he => ?_⟩
    simp only [fingerprintValue] at hpresented
    split_ifs at hpresented
    cases hpresented.trans (congrArg _ he)
  | ok fingerprint =>
    cases hnamed : hostId toLowerCase call.host call.port with
    | ok id => exact absurd ⟨hnamed, hpresented⟩ (h id fingerprint)
    | error e =>
      refine ⟨e, rfl, fun issued he => ?_⟩
      simp only [hostId] at hnamed
      split_ifs at hnamed
      · cases hnamed.trans (congrArg _ he)
      · split at hnamed
        · split_ifs at hnamed
          cases hnamed.trans (congrArg _ he)
        · cases hnamed.trans (congrArg _ he)

theorem check_known (hnames : Names toLowerCase call id fingerprint)
    (hstored : w.hosts.get? id = some fingerprint) : w.checkHostKey toLowerCase call =
      ({ w with pending := Pending.without w.pending call.confirmation }, .ok ()) := by
  rw [World.checkHostKey]
  simp only [hnames.presented, hnames.named, if_pos hstored]
  cases call.confirmation <;> rfl

theorem check_confirmed (hnames : Names toLowerCase call id fingerprint)
    (hstored : w.hosts.get? id ≠ some fingerprint)
    (hconfirms : Confirms w call id fingerprint confirmation challenge) :
    w.checkHostKey toLowerCase call = if call.written then
      (⟨w.hosts.set id fingerprint, Pending.without w.pending call.confirmation⟩, .ok ())
      else ({ w with pending := Pending.without w.pending call.confirmation }, .error .writeFailed) := by
  have hmatch : confirmationMatches w.pending id fingerprint call.confirmation call.now =
      (Pending.without w.pending call.confirmation, .ok true) :=
    Prod.ext confirmationMatches_fst (confirmationMatches_true.mpr ⟨_, _, hconfirms⟩)
  have hremember : rememberHostKey toLowerCase w.hosts call.host call.port fingerprint =
      .ok (w.hosts.set id fingerprint) := by
    rw [rememberHostKey, hnames.named, fingerprintValue_ok hnames.presented]
    rfl
  rw [World.checkHostKey]
  simp only [hnames.presented, hnames.named, if_neg hstored, hmatch, hremember]

theorem check_refused (hnames : Names toLowerCase call id fingerprint)
    (hstored : w.hosts.get? id ≠ some fingerprint)
    (hnot : ¬∃ confirmation challenge, Confirms w call id fingerprint confirmation challenge) :
    w.checkHostKey toLowerCase call = ({ w with
        pending := Pending.without w.pending call.confirmation }, .error .invalidFingerprint) ∨
      ∃ kind, w.checkHostKey toLowerCase call =
        ({ w with pending := (issueChallenge toLowerCase (Pending.without w.pending call.confirmation)
            kind call.host call.port fingerprint call.now call.draws).1 },
          .error (issueChallenge toLowerCase (Pending.without w.pending call.confirmation)
            kind call.host call.port fingerprint call.now call.draws).2) := by
  rw [World.checkHostKey]
  simp only [hnames.presented, hnames.named, if_neg hstored]
  cases hmatch : confirmationMatches w.pending id fingerprint call.confirmation call.now with
  | mk left answer =>
    obtain rfl : left = Pending.without w.pending call.confirmation :=
      (congrArg Prod.fst hmatch).symm.trans confirmationMatches_fst
    cases answer with
    | error e =>
      cases confirmationMatches_error (congrArg Prod.snd hmatch)
      exact .inl rfl
    | ok matched =>
      cases matched with
      | true => exact absurd (confirmationMatches_true.mp (congrArg Prod.snd hmatch)) hnot
      | false => exact .inr ⟨_, rfl⟩

/-- What a call does, and why. -/
inductive Effect (toLowerCase : Text → Text) (w : World) (call : Call) :
    World × Except CheckError Unit → Prop
  | unnamed (e : CheckError) (hnames : ∀ id fingerprint, ¬Names toLowerCase call id fingerprint)
      (he : ∀ issued, e ≠ .hostKey issued) : Effect toLowerCase w call (w, .error e)
  | known {id fingerprint : Text} (hnames : Names toLowerCase call id fingerprint)
      (hstored : w.hosts.get? id = some fingerprint) : Effect toLowerCase w call
        ({ w with pending := Pending.without w.pending call.confirmation }, .ok ())
  | confirmed {id fingerprint : Text} {confirmation : HostKeyConfirmation}
      {challenge : PendingChallenge} (hnames : Names toLowerCase call id fingerprint)
      (hstored : w.hosts.get? id ≠ some fingerprint)
      (hconfirms : Confirms w call id fingerprint confirmation challenge) (hwritten : call.written) :
      Effect toLowerCase w call
        (⟨w.hosts.set id fingerprint, Pending.without w.pending call.confirmation⟩, .ok ())
  | refused {id fingerprint : Text} (e : CheckError) (hnames : Names toLowerCase call id fingerprint) :
      Effect toLowerCase w call
        ({ w with pending := Pending.without w.pending call.confirmation }, .error e)
  | challenged {id fingerprint : Text} (kind : Kind)
      (hnames : Names toLowerCase call id fingerprint) : Effect toLowerCase w call
        ({ w with pending := (issueChallenge toLowerCase (Pending.without w.pending call.confirmation)
            kind call.host call.port fingerprint call.now call.draws).1 },
          .error (issueChallenge toLowerCase (Pending.without w.pending call.confirmation)
            kind call.host call.port fingerprint call.now call.draws).2)

theorem check_effect (toLowerCase : Text → Text) (w : World) (call : Call) :
    Effect toLowerCase w call (w.checkHostKey toLowerCase call) := by
  by_cases hnames : ∃ id fingerprint, Names toLowerCase call id fingerprint
  · obtain ⟨id, fingerprint, hnames⟩ := hnames
    by_cases hstored : w.hosts.get? id = some fingerprint
    · rw [check_known hnames hstored]
      exact .known hnames hstored
    · by_cases hconfirms : ∃ confirmation challenge,
        Confirms w call id fingerprint confirmation challenge
      · obtain ⟨confirmation, challenge, hconfirms⟩ := hconfirms
        rw [check_confirmed hnames hstored hconfirms]
        split_ifs with hwritten
        · exact .confirmed hnames hstored hconfirms hwritten
        · exact .refused _ hnames
      · obtain hcheck | ⟨kind, hcheck⟩ := check_refused hnames hstored hconfirms
        · rw [hcheck]
          exact .refused _ hnames
        · rw [hcheck]
          exact .challenged kind hnames
  · push Not at hnames
    obtain ⟨e, hcheck, he⟩ := check_unnamed (w := w) hnames
    rw [hcheck]
    exact .unnamed e hnames he

/-- The stored fingerprint is the one presented. -/
def Known (toLowerCase : Text → Text) (w : World) (call : Call) : Prop :=
  ∃ id fingerprint, Names toLowerCase call id fingerprint ∧ w.hosts.get? id = some fingerprint

theorem ok_of_check (h : (w.checkHostKey toLowerCase call).2 = .ok ()) :
    Known toLowerCase w call ∨ ∃ id fingerprint confirmation challenge,
      Names toLowerCase call id fingerprint ∧
        Confirms w call id fingerprint confirmation challenge := by
  have heffect := check_effect toLowerCase w call
  generalize w.checkHostKey toLowerCase call = result at h heffect
  cases heffect with
  | known hnames hstored => exact .inl ⟨_, _, hnames, hstored⟩
  | confirmed hnames _ hconfirms _ => exact .inr ⟨_, _, _, _, hnames, hconfirms⟩
  | unnamed _ _ _ | refused _ _ | challenged _ _ => cases h

/-- The file changes only at the host of a confirmed call, which returns. -/
theorem hosts_step {other : Text}
    (h : (w.step toLowerCase call).hosts.get? other ≠ w.hosts.get? other) :
    ∃ fingerprint confirmation challenge, Names toLowerCase call other fingerprint ∧
      w.hosts.get? other ≠ some fingerprint ∧ call.written = true ∧
      Confirms w call other fingerprint confirmation challenge ∧
      (w.checkHostKey toLowerCase call).2 = .ok () ∧
      (w.step toLowerCase call).hosts.get? other = some fingerprint := by
  have heffect := check_effect toLowerCase w call
  rw [World.step] at h ⊢
  generalize w.checkHostKey toLowerCase call = result at h heffect ⊢
  cases heffect with
  | confirmed hnames hstored hconfirms hwritten =>
    rw [OrderedMap.get?_set] at h ⊢
    split_ifs at h with hother
    · subst hother
      exact ⟨_, _, _, hnames, hstored, hwritten, hconfirms, rfl, if_pos rfl⟩
    · exact absurd rfl h
  | unnamed _ _ _ | known _ _ | refused _ _ | challenged _ _ => exact absurd rfl h

/-- A call that names a host leaves what its token leaves, and what it issues. -/
theorem pending_named (hnames : Names toLowerCase call id fingerprint)
    (h : (w.step toLowerCase call).pending.get? token = some challenge) :
    (Pending.without w.pending call.confirmation).get? token = some challenge ∨
      Issues toLowerCase w call challenge ∧ challenge.token = token := by
  have heffect := check_effect toLowerCase w call
  rw [World.step] at h
  generalize hcheck : w.checkHostKey toLowerCase call = result at h heffect
  cases heffect with
  | unnamed _ hnone _ => exact absurd hnames (hnone id fingerprint)
  | known _ _ | confirmed _ _ _ _ | refused _ _ => exact .inl h
  | challenged kind hnames =>
    obtain hold | ⟨hissued, htoken, rfl, hid, hexpires⟩ := issueChallenge_get? h
    · exact .inl hold
    · exact .inr ⟨⟨by rw [hcheck, hissued], ⟨hid, hnames.presented⟩, hexpires⟩, htoken⟩

theorem pending_step (h : (w.step toLowerCase call).pending.get? token = some challenge) :
    w.pending.get? token = some challenge ∨
      Issues toLowerCase w call challenge ∧ challenge.token = token := by
  by_cases hnames : ∃ id fingerprint, Names toLowerCase call id fingerprint
  · obtain ⟨id, fingerprint, hnames⟩ := hnames
    exact (pending_named hnames h).imp (fun h => (get?_without h).1) fun h => h
  · push Not at hnames
    obtain ⟨e, hcheck, -⟩ := check_unnamed (w := w) hnames
    rw [World.step, hcheck] at h
    exact .inl h

theorem length_step (h : w.pending.entries.length ≤ MAX_PENDING_CHALLENGES) :
    (w.step toLowerCase call).pending.entries.length ≤ MAX_PENDING_CHALLENGES := by
  have hwithout := (length_without_le w.pending call.confirmation).trans h
  have heffect := check_effect toLowerCase w call
  rw [World.step]
  generalize w.checkHostKey toLowerCase call = result at heffect ⊢
  cases heffect with
  | unnamed _ _ _ => exact h
  | known _ _ | confirmed _ _ _ _ | refused _ _ => exact hwithout
  | challenged _ _ => exact length_issue_le

/-! Where a token is spent, and no other key is replaced unseen. -/

/-- A token that is submitted is spent, and a stored fingerprint is replaced only through a
challenge that says so. -/
structure Proper (toLowerCase : Text → Text) (w : World) (call : Call) : Prop where
  spent : ∀ confirmation, call.confirmation = some confirmation →
    (w.step toLowerCase call).pending.get? confirmation.token = none ∨
      ∃ challenge, Issues toLowerCase w call challenge ∧ challenge.token = confirmation.token
  seen : ∀ id stored, w.hosts.get? id = some stored →
    (w.step toLowerCase call).hosts.get? id = some stored ∨
      ∃ confirmation challenge, call.confirmation = some confirmation ∧
        w.pending.get? confirmation.token = some challenge ∧ challenge.kind = .changed

/-- A call with a pending token names a host and a fingerprint, and nothing is stored for a host
whose challenge it confirms and that was unknown. -/
structure Allowed (toLowerCase : Text → Text) (w : World) (call : Call) : Prop where
  names : ∀ confirmation, call.confirmation = some confirmation →
    w.pending.has confirmation.token → ∃ id fingerprint, Names toLowerCase call id fingerprint
  first : ∀ id fingerprint confirmation challenge, Names toLowerCase call id fingerprint →
    Confirms w call id fingerprint confirmation challenge → challenge.kind = .unknown →
    call.written → w.hosts.get? id = none ∨ w.hosts.get? id = some fingerprint

theorem proper_iff : Proper toLowerCase w call ↔ Allowed toLowerCase w call := by
  constructor
  · intro h
    constructor
    · intro confirmation hsubmitted hpending
      by_contra hnames
      push Not at hnames
      obtain ⟨e, hcheck, he⟩ := check_unnamed (w := w) hnames
      obtain ⟨challenge, hwaiting⟩ := OrderedMap.has_iff_get.mp hpending
      obtain hnone | ⟨issued, hissues, -⟩ := h.spent confirmation hsubmitted
      · rw [World.step, hcheck, hwaiting] at hnone
        cases hnone
      · have hissued := hissues.issued
        rw [hcheck] at hissued
        exact he _ (Except.error.inj hissued)
    · intro id fingerprint confirmation challenge hnames hconfirms hkind hwritten
      by_contra hother
      push Not at hother
      obtain ⟨hsome, hdifferent⟩ := hother
      obtain ⟨stored, hstored⟩ := Option.ne_none_iff_exists'.mp hsome
      obtain hsame | ⟨confirmation', challenge', hsubmitted, hwaiting, hchanged⟩ :=
        h.seen id stored hstored
      · rw [World.step, check_confirmed hnames hdifferent hconfirms, if_pos hwritten,
          OrderedMap.get?_set, if_pos rfl, ← hstored] at hsame
        exact hdifferent hsame.symm
      · cases hsubmitted.symm.trans hconfirms.submitted
        cases hwaiting.symm.trans hconfirms.waiting
        cases hchanged.symm.trans hkind
  · intro h
    constructor
    · intro confirmation hsubmitted
      cases hafter : (w.step toLowerCase call).pending.get? confirmation.token with
      | none => exact .inl rfl
      | some challenge =>
        right
        obtain hbefore | ⟨hissues, htoken⟩ := pending_step hafter
        · obtain ⟨id, fingerprint, hnames⟩ := h.names confirmation hsubmitted
            (OrderedMap.has_iff_get.mpr ⟨challenge, hbefore⟩)
          obtain hwithout | ⟨hissues, htoken⟩ := pending_named hnames hafter
          · exact absurd rfl ((get?_without hwithout).2 confirmation hsubmitted)
          · exact ⟨challenge, hissues, htoken⟩
        · exact ⟨challenge, hissues, htoken⟩
    · intro id stored hstored
      by_cases hsame : (w.step toLowerCase call).hosts.get? id = w.hosts.get? id
      · exact .inl (hsame.trans hstored)
      · right
        obtain ⟨fingerprint, confirmation, challenge, hnames, hdifferent, hwritten, hconfirms, -⟩ :=
          hosts_step hsame
        refine ⟨confirmation, challenge, hconfirms.submitted, hconfirms.waiting, ?_⟩
        cases hkind : challenge.kind with
        | changed => rfl
        | unknown =>
          obtain hnone | hequal := h.first id fingerprint confirmation challenge hnames hconfirms
            hkind hwritten
          · cases hstored.symm.trans hnone
          · exact absurd hequal hdifferent

/-! Runs. -/

variable (toLowerCase) in
def after (hosts : OrderedMap Text Text) (calls : List Call) : World :=
  run (World.step toLowerCase) (World.start hosts) calls

/-- A challenge that is pending after some calls was pending before them, or one of them has
issued it. -/
theorem pending_run {calls : List Call}
    (h : (run (World.step toLowerCase) w calls).pending.get? token = some challenge) :
    w.pending.get? token = some challenge ∨ ∃ before issuing more, before ++ issuing :: more = calls ∧
      Issues toLowerCase (run (World.step toLowerCase) w before) issuing challenge ∧
      challenge.token = token := by
  induction calls using List.reverseRecOn with
  | nil => exact .inl h
  | append_singleton calls last ih =>
    rw [run_append] at h
    obtain hbefore | ⟨hissues, htoken⟩ := pending_step h
    · refine (ih hbefore).imp (fun h => h) ?_
      rintro ⟨before, issuing, more, rfl, hissues⟩
      exact ⟨before, issuing, more ++ [last], by simp, hissues⟩
    · exact .inr ⟨calls, last, [], rfl, hissues, htoken⟩

/-- The call confirms a challenge that one of the calls before it has issued, less than 60 seconds
ago, for its host, port and fingerprint. -/
def Consent (toLowerCase : Text → Text) (hosts : OrderedMap Text Text) (calls : List Call)
    (call : Call) : Prop :=
  ∃ confirmation before issuing more challenge fingerprint,
    call.confirmation = some confirmation ∧ before ++ issuing :: more = calls ∧
    ((after toLowerCase hosts before).checkHostKey toLowerCase issuing).2 =
      .error (.hostKey challenge) ∧
    challenge.token = confirmation.token ∧
    toLowerCase (trim issuing.host) = toLowerCase (trim call.host) ∧ issuing.port = call.port ∧
    fingerprintValue issuing.fingerprint = .ok fingerprint ∧
    fingerprintValue call.fingerprint = .ok fingerprint ∧
    fingerprintValue confirmation.fingerprint = .ok fingerprint ∧ call.now < issuing.now + 60000

theorem consent_of_confirms {hosts : OrderedMap Text Text} {calls : List Call}
    (hnames : Names toLowerCase call id fingerprint)
    (h : Confirms (after toLowerCase hosts calls) call id fingerprint confirmation challenge) :
    Consent toLowerCase hosts calls call := by
  obtain hempty | ⟨before, issuing, more, hsplit, hissues, htoken⟩ := pending_run h.waiting
  · cases hempty
  · have hissued := hissues.names
    rw [h.host, h.shown] at hissued
    obtain ⟨hhost, hport⟩ := hostId_injective hissued.named hnames.named
    refine ⟨confirmation, before, issuing, more, challenge.toHostKeyChallenge, fingerprint,
      h.submitted, hsplit, hissues.issued, htoken, hhost, hport, hissued.presented, hnames.presented,
      h.confirmed, ?_⟩
    have hexpires : challenge.expiresAt = issuing.now + 60000 := hissues.expires
    rw [← hexpires]
    exact h.inTime

/-- The call returns through the confirmation with the token. -/
def Takes (toLowerCase : Text → Text) (w : World) (call : Call) (token : Text) : Prop :=
  (w.checkHostKey toLowerCase call).2 = .ok () ∧ ¬Known toLowerCase w call ∧
    ∃ confirmation, call.confirmation = some confirmation ∧ confirmation.token = token

theorem takes_pending (h : Takes toLowerCase w call token) :
    (∃ challenge, w.pending.get? token = some challenge) ∧
      (w.step toLowerCase call).pending.get? token = none := by
  obtain ⟨hok, hnot, submitted, hsubmitted, rfl⟩ := h
  obtain hknown | ⟨id, fingerprint, confirmation, challenge, hnames, hconfirms⟩ := ok_of_check hok
  · exact absurd hknown hnot
  · cases hsubmitted.symm.trans hconfirms.submitted
    refine ⟨⟨challenge, hconfirms.waiting⟩, ?_⟩
    cases hafter : (w.step toLowerCase call).pending.get? submitted.token with
    | none => rfl
    | some later =>
      obtain hwithout | ⟨hissues, -⟩ := pending_named hnames hafter
      · exact absurd rfl ((get?_without hwithout).2 submitted hsubmitted)
      · cases hok.symm.trans hissues.issued

/-- In every run a call returns only where its key is known or was consented to, the file changes
only in such a call and at its host, a token is taken once for each time it is issued, and at most
256 challenges are pending. A submitted token is spent, and a stored key replaced only through a
challenge that says so, in exactly the runs whose calls with a pending token name a host and a
fingerprint, and confirm an unknown host only where nothing is stored. -/
theorem informed_consent (toLowerCase : Text → Text) (hosts : OrderedMap Text Text)
    (calls : List Call) :
    (Guarded (World.step toLowerCase) (Allowed toLowerCase) (World.start hosts) calls ↔
      ∀ before call more, before ++ call :: more = calls →
        Proper toLowerCase (after toLowerCase hosts before) call) ∧
    (∀ before call more, before ++ call :: more = calls →
      (((after toLowerCase hosts before).checkHostKey toLowerCase call).2 = .ok () →
        Known toLowerCase (after toLowerCase hosts before) call ∨
          Consent toLowerCase hosts before call) ∧
      ∀ id, (after toLowerCase hosts (before ++ [call])).hosts.get? id ≠
          (after toLowerCase hosts before).hosts.get? id →
        Consent toLowerCase hosts before call ∧
        ((after toLowerCase hosts before).checkHostKey toLowerCase call).2 = .ok () ∧
        ∃ fingerprint, Names toLowerCase call id fingerprint ∧
          (after toLowerCase hosts (before ++ [call])).hosts.get? id = some fingerprint) ∧
    (∀ before first middle second more token,
      before ++ first :: (middle ++ second :: more) = calls →
      Takes toLowerCase (after toLowerCase hosts before) first token →
      Takes toLowerCase (after toLowerCase hosts (before ++ first :: middle)) second token →
      ∃ early issuing late challenge, early ++ issuing :: late = middle ∧
        Issues toLowerCase (after toLowerCase hosts (before ++ first :: early)) issuing challenge ∧
        challenge.token = token) ∧
    (after toLowerCase hosts calls).pending.entries.length ≤ 256 := by
  refine ⟨?_, ?_, ?_, ?_⟩
  · have hinv : ∀ (w : World) (call : Call), True → True := fun _ _ _ => trivial
    have hiff : ∀ (w : World) (call : Call), True →
        (Allowed toLowerCase w call ↔ Proper toLowerCase w call) := fun _ _ _ => proper_iff.symm
    exact (guarded_congr hinv hiff trivial calls).trans guarded_iff
  · intro before call more _
    constructor
    · intro hok
      refine (ok_of_check hok).imp (fun h => h) ?_
      rintro ⟨id, fingerprint, confirmation, challenge, hnames, hconfirms⟩
      exact consent_of_confirms hnames hconfirms
    · intro id hchange
      have hstep : after toLowerCase hosts (before ++ [call]) =
          (after toLowerCase hosts before).step toLowerCase call := run_append _ _ _
      rw [hstep] at hchange ⊢
      obtain ⟨fingerprint, confirmation, challenge, hnames, -, -, hconfirms, hok, hnew⟩ :=
        hosts_step hchange
      exact ⟨consent_of_confirms hnames hconfirms, hok, fingerprint, hnames, hnew⟩
  · intro before first middle second more token _ hfirst hsecond
    have hspent := (takes_pending hfirst).2
    obtain ⟨challenge, hwaiting⟩ := (takes_pending hsecond).1
    rw [after, run_append, run_cons] at hwaiting
    obtain hbefore | ⟨early, issuing, late, hsplit, hissues, htoken⟩ := pending_run hwaiting
    · cases hspent.symm.trans hbefore
    · refine ⟨early, issuing, late, challenge, hsplit, ?_, htoken⟩
      rw [after, run_append, run_cons]
      exact hissues
  · have hstep : ∀ (w : World) (call : Call),
        w.pending.entries.length ≤ MAX_PENDING_CHALLENGES → True →
        (w.step toLowerCase call).pending.entries.length ≤ MAX_PENDING_CHALLENGES :=
      fun _ _ h _ => length_step h
    exact run_preserves hstep (guarded_of_forall (P := fun _ => True) (fun _ _ => trivial) _)
      (Nat.zero_le _)

/-! Two attempts at a host that nobody knows, and both keys confirmed. -/

def sampleToken (u : Nat) : Token := ⟨List.replicate 43 u, List.length_replicate⟩

/-- An attempt that meets the fingerprint `u…u`, with a confirmation of it or without one. -/
def attempt (u : Nat) (confirmed : Bool) : Call where
  host := js "nas.local"
  port := .fin 22
  fingerprint := List.replicate 64 u
  confirmation := if confirmed then some ⟨List.replicate 64 u, (sampleToken u).text⟩ else none
  now := 1000
  draws := [sampleToken u]
  written := true

/-- The first key is replaced by the second through a challenge that knew of neither, and a token
that comes with a malformed fingerprint stays. -/
theorem unknown_replaces :
    ¬Proper toLowerAscii (after toLowerAscii .empty
        [attempt 97 false, attempt 98 false, attempt 98 true]) (attempt 97 true) ∧
      ¬Proper toLowerAscii (after toLowerAscii .empty [attempt 97 false])
        { attempt 97 true with fingerprint := [] } := by
  constructor
  · intro h
    have hstored : (after toLowerAscii .empty [attempt 97 false, attempt 98 false,
        attempt 98 true]).hosts.get? (js "nas.local:22") = some (List.replicate 64 98) := by
      decide +kernel
    have hreplaced : ((after toLowerAscii .empty [attempt 97 false, attempt 98 false,
        attempt 98 true]).step toLowerAscii (attempt 97 true)).hosts.get? (js "nas.local:22") =
          some (List.replicate 64 97) := by
      decide +kernel
    have hkind : ((after toLowerAscii .empty [attempt 97 false, attempt 98 false,
        attempt 98 true]).pending.get? (sampleToken 97).text).map (fun c => c.kind) =
          some .unknown := by
      decide +kernel
    obtain hsame | ⟨confirmation, challenge, hsubmitted, hwaiting, hchanged⟩ := h.seen _ _ hstored
    · rw [hreplaced] at hsame
      revert hsame
      decide
    · cases hsubmitted
      rw [hwaiting, Option.map_some, hchanged] at hkind
      cases hkind
  · intro h
    have hstays : (((after toLowerAscii .empty [attempt 97 false]).step toLowerAscii
        { attempt 97 true with fingerprint := [] }).pending.get? (sampleToken 97).text).isSome := by
      decide +kernel
    obtain hnone | ⟨challenge, hissues, -⟩ := h.spent _ rfl
    · rw [hnone] at hstays
      cases hstays
    · have hshown := hissues.names.presented
      cases hshown

end BoredManager.Server.HostKeys
