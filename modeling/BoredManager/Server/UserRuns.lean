import BoredManager.Server.Users

/-! A version that was returned before the password or the account went is not current again, in the
runs in which no account is given a version that its name has had, and scrypt tells the passwords
apart. -/
namespace BoredManager.Server.Users
open BoredManager.Js BoredManager.Machine

variable {scrypt : Scrypt} {users : List StoredUser} {username u : Text} {w : World}

/-! What the mutations do to a look-up. -/

theorem find_append (user : StoredUser) (h : find users user.username = none) :
    find (users ++ [user]) u = if u = user.username then some user else find users u := by
  rw [find, List.find?_append]
  split_ifs with hu
  · rw [hu, show users.find? (fun other => other.username = user.username) = none from h]
    simp
  · simp [find, Ne.symm hu]

theorem find_filter : find (users.filter fun user => user.username ≠ username) u =
    if u = username then none else find users u := by
  induction users with
  | nil => simp [find]
  | cons user users ih =>
    rw [find] at ih ⊢
    rw [List.filter_cons]
    by_cases huser : user.username = username
    · rw [if_neg (by simpa using huser), ih]
      split_ifs with hu
      · rfl
      · rw [find, find, List.find?_cons_of_neg]
        simpa [huser] using Ne.symm hu
    · rw [if_pos (by simpa using huser)]
      by_cases hu : user.username = u
      · rw [List.find?_cons_of_pos (by simpa using hu), if_neg (hu ▸ huser), find,
          List.find?_cons_of_pos (by simpa using hu)]
      · rw [List.find?_cons_of_neg (by simpa using hu), ih, find, find,
          List.find?_cons_of_neg (by simpa using hu)]

theorem find_amend {change : StoredUser → StoredUser}
    (hname : ∀ user, (change user).username = user.username) :
    find (amend users username change) u =
      if u = username then (find users u).map change else find users u := by
  induction users with
  | nil => simp [find, amend]
  | cons user users ih =>
    rw [amend]
    by_cases huser : user.username = username
    · rw [if_pos huser]
      by_cases hu : user.username = u
      · have hchange : (change user).username = u := (hname user).trans hu
        rw [find, List.find?_cons_of_pos (by simpa using hchange), if_pos (hu ▸ huser), find,
          List.find?_cons_of_pos (by simpa using hu)]
        rfl
      · have hchange : (change user).username ≠ u := fun h => hu ((hname user).symm.trans h)
        rw [find, List.find?_cons_of_neg (by simpa using hchange), find,
          List.find?_cons_of_neg (by simpa using hu), if_neg fun h => hu (huser.trans h.symm)]
    · rw [if_neg huser]
      by_cases hu : user.username = u
      · rw [find, List.find?_cons_of_pos (by simpa using hu), find,
          List.find?_cons_of_pos (by simpa using hu), if_neg fun h => huser (hu.trans h)]
      · rw [find, List.find?_cons_of_neg (by simpa using hu), find,
          List.find?_cons_of_neg (by simpa using hu)]
        exact ih

variable {users' : List StoredUser} {password salt : Text} {now : Nat}

theorem nameProblem_eq_none (h : nameProblem username users = none) :
    find users username = none := by
  rw [nameProblem] at h
  split_ifs at h with _ hexists
  exact Option.not_isSome_iff_eq_none.mp hexists

theorem createUser_ok (h : createUser scrypt users username password salt now = .ok users') :
    isUsername username ∧ passwordProblem password = none ∧ find users username = none ∧
      ∀ u, find users' u = if u = username then some ⟨username, scrypt.hash password salt, salt, now, none, 1⟩
      else find users u := by
  rw [createUser] at h
  split_ifs at h with hname
  split at h
  · cases h
  · split at h
    · cases h
    · rename_i hproblem
      cases h
      have hnone := nameProblem_eq_none hproblem
      exact ⟨by simpa using hname, by assumption, hnone,
        fun u => find_append ⟨username, _, salt, now, none, 1⟩ hnone⟩

theorem deleteUser_ok (h : deleteUser users username = .ok users') (u : Text) :
    find users' u = if u = username then none else find users u := by
  rw [deleteUser] at h
  split_ifs at h
  cases h
  exact find_filter

theorem setPassword_ok (h : setPassword scrypt users username password salt = .ok users') :
    passwordProblem password = none ∧ ∃ user, find users username = some user ∧
      user.sessionVersion < MAX_SAFE_INTEGER ∧ ∀ u, find users' u = if u = username then some { user with
        salt
        passwordHash := scrypt.hash password salt
        sessionVersion := user.sessionVersion + 1 }
      else find users u := by
  rw [setPassword] at h
  split_ifs at h
  split at h
  · cases h
  · split at h
    · cases h
    · rename_i user hfind
      split_ifs at h
      cases h
      refine ⟨by assumption, user, hfind, by omega, fun u => (find_amend ?_).trans ?_⟩
      · exact fun _ => rfl
      split_ifs with hu
      · rw [hu, hfind]
        rfl
      · rfl

theorem recordLogin_ok {expected : Option Nat}
    (h : recordLogin users username expected now = some users') (u : Text) :
    find users' u = if u = username then
      (find users u).map fun user => { user with lastLoginAt := some now } else find users u := by
  rw [recordLogin] at h
  split at h
  · cases h
  · split_ifs at h
    cases h
    exact find_amend fun _ => rfl

/-! The condition and the invariant. -/

/-- Scrypt tells the password that is presented from the account's, and from the dummy. -/
def Verification.Told (scrypt : Scrypt) (w : World) (call : Verification) : Prop :=
  ofHex (scrypt.hash call.password scrypt.DUMMY_SALT) ≠ scrypt.DUMMY_EXPECTED ∧
    ∀ user password, find w.users call.username = some user →
      w.passwords call.username = some password →
      ofHex (scrypt.hash call.password user.salt) = ofHex (scrypt.hash password user.salt) →
      call.password = password

/-- The version that a new account or a new password gets is none that was returned for the name
before its password or its account went. -/
def Allowed (scrypt : Scrypt) (w : World) : UserEvent → Prop
  | .create username password _ _ => isUsername username → passwordProblem password = none →
      find w.users username = none → (username, 1) ∉ w.stale
  | .setPassword username password _ => passwordProblem password = none →
      ∀ user, find w.users username = some user → user.sessionVersion < MAX_SAFE_INTEGER →
      (username, user.sessionVersion + 1) ∉ w.stale
  | .finish index => ∀ call, w.calls[index]? = some call → call.Told scrypt w
  | _ => True

/-- An account with a password has the hash of the one it was given. -/
def Hashed (scrypt : Scrypt) (w : World) : Prop :=
  ∀ username user, find w.users username = some user → user.hasPassword →
    ∃ password, w.passwords username = some password ∧
      ofHex user.passwordHash = ofHex (scrypt.hash password user.salt)

structure Kept (scrypt : Scrypt) (w : World) : Prop where
  hashed : Hashed scrypt w
  known : ∀ issue ∈ w.returned, (issue.username, issue.sessionVersion) ∈ w.stale ∨
    ∃ user, find w.users issue.username = some user ∧ user.sessionVersion = issue.sessionVersion
  gone : ∀ u v, (u, v) ∈ w.stale → ∀ user, find w.users u = some user → user.sessionVersion ≠ v
  right : ∀ issue ∈ w.returned, issue.current = some issue.password

theorem kept_start (database : Database scrypt) : Kept scrypt (World.start scrypt database) := by
  constructor
  · exact database.hashed
  · intro issue h
    cases h
  · intro u v h
    cases h
  · intro issue h
    cases h

theorem mem_versionsOf {v : Nat} (h : (u, v) ∈ w.versionsOf username) :
    u = username ∧ ∃ issue ∈ w.returned, issue.username = u ∧ issue.sessionVersion = v := by
  obtain ⟨issue, hmem, heq⟩ := List.mem_map.mp h
  obtain ⟨hreturned, hname⟩ := List.mem_filter.mp hmem
  cases heq
  exact ⟨by simpa using hname, issue, hreturned, rfl, rfl⟩

theorem versionsOf_mem {issue : Issue} (h : issue ∈ w.returned) :
    (issue.username, issue.sessionVersion) ∈ w.versionsOf issue.username :=
  List.mem_map.mpr ⟨issue, List.mem_filter.mpr ⟨h, by simp⟩, rfl⟩

/-- What the mutations leave of the accounts of other names. -/
theorem hashed_other {v : World} (h : Hashed scrypt w)
    (hfind : ∀ u, u ≠ username → find v.users u = find w.users u)
    (hpasswords : ∀ u, u ≠ username → v.passwords u = w.passwords u)
    (hnew : ∀ user, find v.users username = some user → user.hasPassword →
      ∃ password, v.passwords username = some password ∧
        ofHex user.passwordHash = ofHex (scrypt.hash password user.salt)) : Hashed scrypt v := by
  intro u user huser hpassword
  by_cases hu : u = username
  · subst hu
    exact hnew user huser hpassword
  · rw [hfind u hu] at huser
    rw [hpasswords u hu]
    exact h u user huser hpassword

theorem kept_create (h : Kept scrypt w) (hok : Allowed scrypt w (.create username password salt now)) :
    Kept scrypt (w.create scrypt username password salt now) := by
  rw [World.create]
  split
  · rename_i users hcreate
    obtain ⟨hname, hproblem, hnone, hfind⟩ := createUser_ok hcreate
    have hold : ∀ u, u ≠ username → find users u = find w.users u := fun u hu => by
      rw [hfind, if_neg hu]
    have hnew := (hfind username).trans (if_pos rfl)
    constructor
    · refine hashed_other h.hashed hold (fun u hu => if_neg hu) fun user huser _ => ?_
      cases hnew.symm.trans huser
      exact ⟨password, if_pos rfl, rfl⟩
    · intro issue hissue
      refine (h.known issue hissue).imp id ?_
      rintro ⟨user, huser, hversion⟩
      have hother : issue.username ≠ username := fun heq => by
        rw [heq, hnone] at huser
        cases huser
      exact ⟨user, (hold _ hother).trans huser, hversion⟩
    · intro u v hstale user huser
      by_cases hu : u = username
      · subst hu
        cases hnew.symm.trans huser
        rintro rfl
        exact hok hname hproblem hnone hstale
      · exact h.gone u v hstale user ((hold u hu).symm.trans huser)
    · exact h.right
  · exact h

/-- A change of password or account: what was returned for the name is stale from now on. -/
theorem known_change {users' : List StoredUser} (h : Kept scrypt w)
    (hold : ∀ u, u ≠ username → find users' u = find w.users u) {issue : Issue}
    (hissue : issue ∈ w.returned) :
    (issue.username, issue.sessionVersion) ∈ w.stale ++ w.versionsOf username ∨
      ∃ user, find users' issue.username = some user ∧
        user.sessionVersion = issue.sessionVersion := by
  by_cases hname : issue.username = username
  · subst hname
    exact .inl (List.mem_append_right _ (versionsOf_mem hissue))
  · obtain hstale | ⟨user, huser, hversion⟩ := h.known issue hissue
    · exact .inl (List.mem_append_left _ hstale)
    · exact .inr ⟨user, (hold _ hname).trans huser, hversion⟩

theorem kept_delete (h : Kept scrypt w) : Kept scrypt (w.delete username) := by
  rw [World.delete]
  split
  · rename_i users hdelete
    have hfind := deleteUser_ok hdelete
    have hold : ∀ u, u ≠ username → find users u = find w.users u := fun u hu => by
      rw [hfind, if_neg hu]
    have hnew := (hfind username).trans (if_pos rfl)
    constructor
    · refine hashed_other h.hashed hold (fun u hu => if_neg hu) fun user huser _ => ?_
      cases hnew.symm.trans huser
    · exact fun issue hissue => known_change h hold hissue
    · intro u v hstale user huser
      by_cases hu : u = username
      · subst hu
        cases hnew.symm.trans huser
      · obtain hstale | hversions := List.mem_append.mp hstale
        · exact h.gone u v hstale user ((hold u hu).symm.trans huser)
        · exact absurd (mem_versionsOf hversions).1 hu
    · exact h.right
  · exact h

theorem kept_change (h : Kept scrypt w) (hok : Allowed scrypt w (.setPassword username password salt)) :
    Kept scrypt (w.change scrypt username password salt) := by
  rw [World.change]
  split
  · rename_i users hset
    obtain ⟨hproblem, before, hbefore, hlimit, hfind⟩ := setPassword_ok hset
    have hold : ∀ u, u ≠ username → find users u = find w.users u := fun u hu => by
      rw [hfind, if_neg hu]
    have hnew := (hfind username).trans (if_pos rfl)
    have hfresh := hok hproblem before hbefore hlimit
    constructor
    · refine hashed_other h.hashed hold (fun u hu => if_neg hu) fun user huser _ => ?_
      cases hnew.symm.trans huser
      exact ⟨password, if_pos rfl, rfl⟩
    · exact fun issue hissue => known_change h hold hissue
    · intro u v hstale user huser
      by_cases hu : u = username
      · subst hu
        cases hnew.symm.trans huser
        rintro rfl
        obtain hstale | hversions := List.mem_append.mp hstale
        · exact hfresh hstale
        · obtain ⟨-, issue, hissue, hname, hversion⟩ := mem_versionsOf hversions
          obtain hstale | ⟨user, huser, hsame⟩ := h.known issue hissue
          · exact hfresh (by rwa [hname, hversion] at hstale)
          · rw [hname, hbefore] at huser
            cases huser
            simp only at hversion
            omega
      · obtain hstale | hversions := List.mem_append.mp hstale
        · exact h.gone u v hstale user ((hold u hu).symm.trans huser)
        · exact absurd (mem_versionsOf hversions).1 hu
    · exact h.right
  · exact h

/-- A version that the queue returns is the account's, and was asked for with its password. -/
theorem finish_some {call : Verification} {v : Nat} (h : Hashed scrypt w) (hcall : call.Told scrypt w)
    (hfinish : call.finish scrypt w.users = some v) :
    w.passwords call.username = some call.password ∧
      ∃ user, find w.users call.username = some user ∧ user.sessionVersion = v := by
  rw [Verification.finish] at hfinish
  split at hfinish
  · rename_i user current huser hcurrent
    split_ifs at hfinish with hsame
    obtain ⟨hpasses, hhash, hsalt, -⟩ := hsame
    refine ⟨?_, current, hcurrent, Option.some.inj hfinish⟩
    rw [Verification.passes, huser] at hpasses
    by_cases hpassword : user.hasPassword
    · rw [Option.filter_some_pos hpassword] at hpasses
      have hcurrentpw : current.hasPassword := by
        rwa [StoredUser.hasPassword, hhash]
      obtain ⟨password, hpw, hstored⟩ := h call.username current hcurrent hcurrentpw
      rw [hpw]
      have hequal := of_decide_eq_true hpasses
      rw [← hhash, ← hsalt, hstored] at hequal
      exact congrArg some (hcall.2 current password hcurrent hpw hequal.symm).symm
    · rw [Option.filter_some_neg (by simpa using hpassword)] at hpasses
      exact absurd (of_decide_eq_true hpasses).symm hcall.1
  · cases hfinish

theorem kept_finish {index : Nat} (h : Kept scrypt w) (hok : Allowed scrypt w (.finish index)) :
    Kept scrypt (w.finish scrypt index) := by
  rw [World.finish]
  split
  · exact h
  · rename_i call hcall
    have hnew : ∀ issue, issue ∈ ((call.finish scrypt w.users).map fun sessionVersion =>
        (⟨call.username, call.password, sessionVersion, w.passwords call.username⟩ : Issue)).toList →
        issue.current = some issue.password ∧ ∃ user, find w.users issue.username = some user ∧
          user.sessionVersion = issue.sessionVersion := by
      intro issue hissue
      obtain ⟨v, hfinish, rfl⟩ := Option.map_eq_some_iff.mp (Option.mem_toList.mp hissue)
      exact finish_some h.hashed (hok call hcall) hfinish
    constructor
    · exact h.hashed
    · intro issue hissue
      obtain hold | hissue := List.mem_append.mp hissue
      · exact h.known issue hold
      · exact .inr (hnew issue hissue).2
    · exact h.gone
    · intro issue hissue
      obtain hold | hissue := List.mem_append.mp hissue
      · exact h.right issue hold
      · exact (hnew issue hissue).1

/-- A login changes nothing that a session or a verification reads. -/
theorem kept_login {expected : Option Nat} (h : Kept scrypt w) :
    Kept scrypt (w.login username expected now) := by
  rw [World.login]
  split
  · rename_i users hlogin
    have hfind := recordLogin_ok hlogin
    have hback : ∀ u user, find users u = some user → ∃ old, find w.users u = some old ∧
        user.passwordHash = old.passwordHash ∧ user.salt = old.salt ∧
        user.sessionVersion = old.sessionVersion := by
      intro u user huser
      rw [hfind] at huser
      split_ifs at huser
      · obtain ⟨old, hold, rfl⟩ := Option.map_eq_some_iff.mp huser
        exact ⟨old, hold, rfl, rfl, rfl⟩
      · exact ⟨user, huser, rfl, rfl, rfl⟩
    constructor
    · intro u user huser hpassword
      obtain ⟨old, hold, hhash, hsalt, -⟩ := hback u user huser
      have holdpw : old.hasPassword := by rwa [StoredUser.hasPassword, ← hhash]
      rw [hhash, hsalt]
      exact h.hashed u old hold holdpw
    · intro issue hissue
      refine (h.known issue hissue).imp id ?_
      rintro ⟨old, hold, hversion⟩
      rw [hfind, hold]
      split_ifs
      · exact ⟨_, rfl, hversion⟩
      · exact ⟨_, rfl, hversion⟩
    · intro u v hstale user huser
      obtain ⟨old, hold, -, -, hversion⟩ := hback u user huser
      rw [hversion]
      exact h.gone u v hstale old hold
    · exact h.right
  · exact h

theorem kept_step {event : UserEvent} (h : Kept scrypt w) (hok : Allowed scrypt w event) :
    Kept scrypt (w.step scrypt event) := by
  cases event with
  | create username password salt now => exact kept_create h hok
  | delete username => exact kept_delete h
  | setPassword username password salt => exact kept_change h hok
  | verify username password => exact ⟨h.hashed, h.known, h.gone, h.right⟩
  | finish index => exact kept_finish h hok
  | recordLogin username expected now => exact kept_login h
  | crash => exact ⟨h.hashed, h.known, h.gone, h.right⟩

/-- Stale entries stay. -/
theorem stale_step {entry : Text × Nat} (event : UserEvent) (h : entry ∈ w.stale) :
    entry ∈ (w.step scrypt event).stale := by
  cases event with
  | create username password salt now =>
    change entry ∈ (w.create scrypt username password salt now).stale
    rw [World.create]
    split <;> exact h
  | delete username =>
    change entry ∈ (w.delete username).stale
    rw [World.delete]
    split
    · exact List.mem_append_left _ h
    · exact h
  | setPassword username password salt =>
    change entry ∈ (w.change scrypt username password salt).stale
    rw [World.change]
    split
    · exact List.mem_append_left _ h
    · exact h
  | finish index =>
    change entry ∈ (w.finish scrypt index).stale
    rw [World.finish]
    split <;> exact h
  | recordLogin username expected now =>
    change entry ∈ (w.login username expected now).stale
    rw [World.login]
    split <;> exact h
  | verify username password => exact h
  | crash => exact h

/-- The event is a `setPassword` or a `deleteUser` of the name that takes effect. -/
def Ends (scrypt : Scrypt) (w : World) (username : Text) : UserEvent → Prop
  | .setPassword name password salt => name = username ∧
      ∃ users, setPassword scrypt w.users name password salt = .ok users
  | .delete name => name = username ∧ ∃ users, deleteUser w.users name = .ok users
  | _ => False

theorem stale_of_ends {event : UserEvent} {issue : Issue} (hissue : issue ∈ w.returned)
    (h : Ends scrypt w issue.username event) :
    (issue.username, issue.sessionVersion) ∈ (w.step scrypt event).stale := by
  cases event with
  | setPassword name password salt =>
    obtain ⟨rfl, users, hset⟩ := h
    change _ ∈ (w.change scrypt issue.username password salt).stale
    rw [World.change, hset]
    exact List.mem_append_right _ (versionsOf_mem hissue)
  | delete name =>
    obtain ⟨rfl, users, hdelete⟩ := h
    change _ ∈ (w.delete issue.username).stale
    rw [World.delete, hdelete]
    exact List.mem_append_right _ (versionsOf_mem hissue)
  | create _ _ _ _ | verify _ _ | finish _ | recordLogin _ _ _ | crash => cases h

theorem not_current {v : Nat} (h : Kept scrypt w) (hstale : (u, v) ∈ w.stale) :
    sessionIsCurrent w.users u v = false := by
  rw [sessionIsCurrent]
  split_ifs
  · rfl
  · split
    · rename_i user huser
      exact decide_eq_false (h.gone u v hstale user huser)
    · rfl

/-- Where no account is given a version that is stale for its name, and scrypt tells passwords
apart, every version was returned for the account's password, and is never current again once the
password or the account went. -/
theorem sessions_end (database : Database scrypt) (events : List UserEvent)
    (h : Guarded (World.step scrypt) (Allowed scrypt) (World.start scrypt database) events) :
    (∀ issue ∈ (run (World.step scrypt) (World.start scrypt database) events).returned,
      issue.current = some issue.password) ∧
    ∀ before event later more, before ++ event :: (later ++ more) = events →
      ∀ issue ∈ (run (World.step scrypt) (World.start scrypt database) before).returned,
      Ends scrypt (run (World.step scrypt) (World.start scrypt database) before) issue.username event →
      sessionIsCurrent
        (run (World.step scrypt) (World.start scrypt database) (before ++ event :: later)).users
        issue.username issue.sessionVersion = false := by
  have hstep : ∀ w event, Kept scrypt w → Allowed scrypt w event → Kept scrypt (w.step scrypt event) :=
    fun _ _ => kept_step
  refine ⟨(run_preserves hstep h (kept_start database)).right, ?_⟩
  intro before event later more hsplit issue hissue hends
  have hguarded : Guarded (World.step scrypt) (Allowed scrypt) (World.start scrypt database)
      (before ++ event :: later) := by
    apply guarded_left
    rwa [List.append_assoc, List.cons_append, hsplit]
  apply not_current (run_preserves hstep hguarded (kept_start database))
  have hkeep : ∀ (w : World) event, (issue.username, issue.sessionVersion) ∈ w.stale → True →
      (issue.username, issue.sessionVersion) ∈ (w.step scrypt event).stale :=
    fun _ event hstale _ => stale_step event hstale
  rw [run_append, run_cons]
  exact run_preserves hkeep (guarded_of_forall (P := fun _ => True) (fun _ _ => trivial) _)
    (stale_of_ends hissue hends)

/-! Two passwords under their salts. -/

def firstSalt : Text := js "00112233445566778899aabbccddeeff"
def otherSalt : Text := js "ffeeddccbbaa99887766554433221100"

/-- What scrypt makes of them, and of the first one under the dummy salt. -/
def sample : Scrypt where
  hash password salt :=
    if password = js "first-pass" then
      if salt = firstSalt then
        js "a43440c5b4280790f9e6cda02fc982e4102345f562d69fba9369f65ac37683ed" ++
          js "fd7121a909554fa7f9029fa26e768ec183a31d0195bff867ea31aeec63f136d9"
      else
        js "0d3812f3a219f606c23c2cc054a1c19bffa955debf4f87280f7c70596bec4359" ++
          js "654c4615433119189889a95b2480edbe868bd018ec4c856dea533a35b1e477f2"
    else
      js "612f834f732c21d0bfa2a55a06f22e61fdee071dbdb6ef27bd033483058a174f" ++
        js "57b1a7b7a099ac9fe8456291a1cafd45ba9f5c51eb62d66112a86758e841f029"
  DUMMY_SALT := List.replicate 32 48
  DUMMY_EXPECTED := List.replicate 64 7

def noUsers : Database sample := ⟨[], fun _ => none, fun _ _ h => by cases h⟩

/-- An account, and a login with its password. -/
def firstLogin : List UserEvent :=
  [.create (js "operator") (js "first-pass") firstSalt 1, .verify (js "operator") (js "first-pass"),
    .finish 0]

theorem sessions_end_of_password :
    sessionIsCurrent
      (run (World.step sample) (World.start sample noUsers)
        (firstLogin ++ [.setPassword (js "operator") (js "other-pass") otherSalt])).users
      (js "operator") 1 = false := by
  have hissue : (⟨js "operator", js "first-pass", 1, some (js "first-pass")⟩ : Issue) ∈
      (run (World.step sample) (World.start sample noUsers) firstLogin).returned := by decide +kernel
  have hguarded : Guarded (World.step sample) (Allowed sample) (World.start sample noUsers)
      (firstLogin ++ [.setPassword (js "operator") (js "other-pass") otherSalt]) := by
    refine ⟨fun _ _ _ h => (by cases h), trivial, fun call hcall => ?_, fun _ _ _ _ h => (by cases h),
      trivial⟩
    cases hcall
    refine ⟨by decide +kernel, fun user password _ hpassword _ => ?_⟩
    exact Option.some.inj hpassword
  exact (sessions_end noUsers _ hguarded).2 firstLogin _ [] [] rfl _ hissue ⟨rfl, _, rfl⟩

theorem recreated_account_revives :
    (⟨js "operator", js "first-pass", 1, some (js "first-pass")⟩ : Issue) ∈
        (run (World.step sample) (World.start sample noUsers) firstLogin).returned ∧
      Ends sample (run (World.step sample) (World.start sample noUsers) firstLogin) (js "operator")
        (.delete (js "operator")) ∧
      sessionIsCurrent
        (run (World.step sample) (World.start sample noUsers) (firstLogin ++
          .delete (js "operator") :: [.create (js "operator") (js "other-pass") otherSalt 2])).users
        (js "operator") 1 = true := by
  refine ⟨by decide +kernel, ⟨rfl, _, rfl⟩, by decide +kernel⟩

end BoredManager.Server.Users
