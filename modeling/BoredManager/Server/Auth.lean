import BoredManager.Js.OrderedMap
import BoredManager.Js.Radix
import BoredManager.Server.Users

/-! Logging in, and the lockout: failures are counted for each username and each client address, in a
file that is read at every attempt and capped when it is written. -/
namespace BoredManager.Server.Auth
open BoredManager.Js BoredManager.Machine
open BoredManager.Server.Users (isUsername MAX_PASSWORD_LENGTH)

def MAX_LOCK_ENTRIES : Nat := 2048

structure LockEntry where
  failures : Nat
  lockedAt : Option Nat
  updatedAt : Nat
deriving DecidableEq

structure LockFile where
  users : OrderedMap Text LockEntry
  ips : OrderedMap Text LockEntry

def emptyLock : LockFile := ⟨.empty, .empty⟩

/-- Locked entries come first, and among them those that failed last. -/
def comesFirst (left right : Text × LockEntry) : Bool :=
  if left.2.lockedAt.isSome = right.2.lockedAt.isSome then decide (right.2.updatedAt ≤ left.2.updatedAt)
  else left.2.lockedAt.isSome

def cappedEntries (entries : List (Text × LockEntry)) : List (Text × LockEntry) :=
  if entries.length ≤ MAX_LOCK_ENTRIES then entries
  else (entries.mergeSort comesFirst).take MAX_LOCK_ENTRIES

theorem nodup_cappedEntries {entries : List (Text × LockEntry)} (h : (entries.map Prod.fst).Nodup) :
    ((cappedEntries entries).map Prod.fst).Nodup := by
  rw [cappedEntries]
  split
  · exact h
  · have hsorted : ((entries.mergeSort comesFirst).map Prod.fst).Nodup :=
      ((List.mergeSort_perm entries comesFirst).map Prod.fst).nodup_iff.mpr h
    exact hsorted.sublist ((List.take_sublist _ _).map Prod.fst)

def cappedMap (source : OrderedMap Text LockEntry) : OrderedMap Text LockEntry :=
  ⟨cappedEntries source.entries, nodup_cappedEntries source.nodup⟩

/-- What `writeLock` leaves in the file. -/
def writeLock (value : LockFile) : LockFile := ⟨cappedMap value.users, cappedMap value.ips⟩

def newEntry (now : Nat) : LockEntry := ⟨0, none, now⟩

def entryLocked (entry : Option LockEntry) (max : Nat) : Bool :=
  entry.any fun entry => entry.lockedAt.isSome || decide (max ≤ entry.failures)

/-- `/^[0-9a-f:.%]+$/i`, of at most 128 units, or `unknown`. -/
def isAddress (ip : Text) : Bool :=
  ip = js "unknown" || (!ip.isEmpty && ip.length ≤ 128 && ip.all fun u =>
    isHexLower u || (65 ≤ u && u ≤ 70) || u == 58 || u == 46 || u == 37)

def loginInputProblem (username password : Text) : Option Text :=
  if isUsername username = false then some (js "invalid username or password")
  else if password.length = 0 then some (js "invalid username or password")
  else if MAX_PASSWORD_LENGTH < password.length then
    some (js "password must be at most " ++ decimal MAX_PASSWORD_LENGTH ++ js " characters")
  else none

/-- The settings of the login that stay as they are: normalized, so that at least one failure is
allowed. -/
structure AuthSettings where
  maxFailures : Nat
  positive : 1 ≤ maxFailures

inductive LoginAttempt where
  | malformed (error : Text)
  | locked
  | invalid (failures remaining : Nat) (locked : Bool)
  | success (authVersion : Nat)
deriving DecidableEq

structure Login where
  username : Text
  password : Text
  ip : Text
deriving DecidableEq

/-- The attempt that runs awaits the verification of its password, or the record of its login with
the lock file that it has read. -/
inductive Stage where
  | verifying
  | recording (lock : LockFile) (authVersion : Nat)

/-- `waiting` is the queue behind `loginTail`. The last three fields watch the run: the names and
addresses that an attempt has left locked, and the failed verifications of a name since its last
success or unlock. -/
structure AuthService where
  file : LockFile
  waiting : List Login
  running : Option (Login × Stage)
  answers : List (Login × LoginAttempt)
  lockedUsers : List Text
  lockedIps : List Text
  failed : Text → Nat

def start (file : LockFile) : AuthService := ⟨file, [], none, [], [], [], fun _ => 0⟩

variable (settings : AuthSettings)

def lockedOut (lock : LockFile) (login : Login) : Bool :=
  entryLocked (lock.users.get? login.username) settings.maxFailures ||
    entryLocked (lock.ips.get? login.ip) settings.maxFailures

/-- An entry with one more failure. -/
def fail (entry : Option LockEntry) (now : Nat) : LockEntry :=
  let old := entry.getD (newEntry now)
  let failures := old.failures + 1
  ⟨failures, if settings.maxFailures ≤ failures then some now else old.lockedAt, now⟩

namespace AuthService
variable (s : AuthService)

def answer (login : Login) (attempt : LoginAttempt) : AuthService := {
  s with
  running := none
  answers := s.answers ++ [(login, attempt)] }

/-- The call itself: what is malformed is answered at once, the rest waits for its turn. -/
def attemptLogin (login : Login) : AuthService :=
  match loginInputProblem login.username login.password with
  | some error => { s with answers := s.answers ++ [(login, .malformed error)] }
  | none =>
    if isAddress login.ip = false then
      { s with answers := s.answers ++ [(login, .malformed (js "invalid client address"))] }
    else { s with waiting := s.waiting ++ [login] }

/-- The next attempt reads the lock before it verifies anything. -/
def begun : AuthService :=
  match s.running, s.waiting with
  | none, login :: rest =>
    if lockedOut settings s.file login = true then { s with waiting := rest }.answer login .locked
    else { s with waiting := rest, running := some (login, .verifying) }
  | _, _ => s

/-- The attempt failed: both counters go up. -/
def countFailure (login : Login) (lock : LockFile) (now : Nat) : AuthService :=
  let user := fail settings (lock.users.get? login.username) now
  let ip := fail settings (lock.ips.get? login.ip) now
  let failures := max user.failures ip.failures
  { s with
    file := writeLock ⟨lock.users.set login.username user, lock.ips.set login.ip ip⟩
    lockedUsers := if user.lockedAt.isSome then login.username :: s.lockedUsers else s.lockedUsers
    lockedIps := if ip.lockedAt.isSome then login.ip :: s.lockedIps else s.lockedIps
    failed username := if username = login.username then s.failed username + 1 else s.failed username
  }.answer login (.invalid failures (settings.maxFailures - failures)
    (decide (settings.maxFailures ≤ user.failures) || decide (settings.maxFailures ≤ ip.failures)))

/-- The verification is through: the lock is read again. -/
def verified (authVersion : Option Nat) (now : Nat) : AuthService :=
  match s.running with
  | some (login, .verifying) =>
    if lockedOut settings s.file login = true then s.answer login .locked
    else
      match authVersion with
      | some authVersion => { s with running := some (login, .recording s.file authVersion) }
      | none => s.countFailure settings login s.file now
  | _ => s

/-- The login is recorded, or the account is another now. -/
def recorded (ok : Bool) (now : Nat) : AuthService :=
  match s.running with
  | some (login, .recording lock authVersion) =>
    if ok then
      { s with
        file := writeLock ⟨lock.users.erase login.username, lock.ips.erase login.ip⟩
        failed username := if username = login.username then 0 else s.failed username
      }.answer login (.success authVersion)
    else s.countFailure settings login lock now
  | _ => s

/-- The `unlock` subcommand, in a process of its own. -/
def unlock : AuthService := {
  s with
  file := emptyLock
  lockedUsers := []
  lockedIps := []
  failed _ := 0 }

end AuthService

inductive Event where
  | attemptLogin (login : Login)
  | begun
  | verified (authVersion : Option Nat) (now : Nat)
  | recorded (ok : Bool) (now : Nat)
  | threw
  | unlock

/-- `threw` is a verification or a record that fails. -/
def step (s : AuthService) : Event → AuthService
  | .attemptLogin login => s.attemptLogin login
  | .begun => s.begun settings
  | .verified authVersion now => s.verified settings authVersion now
  | .recorded ok now => s.recorded settings ok now
  | .threw => { s with running := none }
  | .unlock => s.unlock

/-! ### What the cap leaves alone -/

variable {settings} {s : AuthService} {lock : LockFile} {login : Login} {now : Nat}

/-- Beside the key's own entry, fewer entries than the cap. -/
def Fits (map : OrderedMap Text LockEntry) (key : Text) : Prop :=
  (map.erase key).entries.length < MAX_LOCK_ENTRIES

def FitsBoth (lock : LockFile) (login : Login) : Prop :=
  Fits lock.users login.username ∧ Fits lock.ips login.ip

/-- What an attempt writes drops no entry. -/
def Room (settings : AuthSettings) (s : AuthService) : Event → Prop
  | .verified none _ =>
    match s.running with
    | some (login, .verifying) => lockedOut settings s.file login = false → FitsBoth s.file login
    | _ => True
  | .recorded _ _ =>
    match s.running with
    | some (login, .recording lock _) => FitsBoth lock login
    | _ => True
  | _ => True

theorem cappedMap_eq {map : OrderedMap Text LockEntry} (h : map.entries.length ≤ MAX_LOCK_ENTRIES) :
    cappedMap map = map := by
  have hentries : cappedEntries map.entries = map.entries := if_pos h
  cases map with
  | mk entries nodup => exact OrderedMap.mk.injEq .. |>.mpr hentries

theorem length_set_le (map : OrderedMap Text LockEntry) (key : Text) (entry : LockEntry) :
    (map.set key entry).entries.length ≤ (map.erase key).entries.length + 1 := by
  cases hget : map.get? key with
  | none =>
    have hkey := OrderedMap.get?_eq_none.mp hget
    have herase : (map.erase key).entries = map.entries := List.filter_eq_self.mpr fun e he =>
      decide_eq_true fun heq => hkey (List.mem_map.mpr ⟨e, he, heq⟩)
    rw [OrderedMap.entries_set_of_not_mem hkey, herase, List.length_append]
    exact Nat.le_refl _
  | some old =>
    have hperm := (OrderedMap.entries_perm_erase (OrderedMap.get?_eq_some.mp hget)).length_eq
    rw [OrderedMap.length_entries_set, OrderedMap.has, hget, hperm]
    exact Nat.le_refl _

theorem cappedMap_set {map : OrderedMap Text LockEntry} {key : Text} (h : Fits map key)
    (entry : LockEntry) : cappedMap (map.set key entry) = map.set key entry :=
  cappedMap_eq ((length_set_le map key entry).trans h)

theorem cappedMap_erase {map : OrderedMap Text LockEntry} {key : Text} (h : Fits map key) :
    cappedMap (map.erase key) = map.erase key :=
  cappedMap_eq (Nat.le_of_lt h)

/-! ### The invariant -/

/-- The file refuses what has been left locked, and counts every failed verification. -/
structure Keeps (settings : AuthSettings) (s : AuthService) (lock : LockFile) : Prop where
  users : ∀ username ∈ s.lockedUsers,
    entryLocked (lock.users.get? username) settings.maxFailures = true
  ips : ∀ ip ∈ s.lockedIps, entryLocked (lock.ips.get? ip) settings.maxFailures = true
  counts : ∀ username, s.failed username ≤ ((lock.users.get? username).map LockEntry.failures).getD 0

/-- No attempt runs for what is locked, and no name fails more often than the settings allow. -/
structure LockHolds (settings : AuthSettings) (s : AuthService) : Prop where
  refused : ∀ running ∈ s.running,
    running.1.username ∉ s.lockedUsers ∧ running.1.ip ∉ s.lockedIps
  few : ∀ username, s.failed username ≤ settings.maxFailures

structure Inv (settings : AuthSettings) (s : AuthService) : Prop where
  holds : LockHolds settings s
  file : Keeps settings s s.file
  recording : ∀ login lock authVersion, s.running = some (login, .recording lock authVersion) →
    Keeps settings s lock ∧ lockedOut settings lock login = false

theorem inv_start (settings : AuthSettings) (file : LockFile) : Inv settings (start file) where
  holds := ⟨fun running h => (by cases h), fun username => Nat.zero_le _⟩
  file := ⟨fun username h => (by cases h), fun ip h => (by cases h), fun username => Nat.zero_le _⟩
  recording := fun login lock authVersion h => by cases h

theorem Keeps.not_locked (h : Keeps settings s lock) (hlogin : lockedOut settings lock login = false) :
    login.username ∉ s.lockedUsers ∧ login.ip ∉ s.lockedIps := by
  rw [lockedOut, Bool.or_eq_false_iff] at hlogin
  constructor
  · intro hmem
    have := h.users _ hmem
    rw [hlogin.1] at this
    cases this
  · intro hmem
    have := h.ips _ hmem
    rw [hlogin.2] at this
    cases this

/-- A run that is over keeps everything else. -/
theorem Inv.answered (h : Inv settings s) (login : Login) (attempt : LoginAttempt) :
    Inv settings (s.answer login attempt) where
  holds := ⟨fun running hrunning => (by cases hrunning), h.holds.few⟩
  file := ⟨h.file.users, h.file.ips, h.file.counts⟩
  recording := fun other lock authVersion hrunning => by cases hrunning

/-- Below the limit, an entry that fails once more is at most at the limit, and is locked there. -/
theorem fail_failures (entry : Option LockEntry) :
    (fail settings entry now).failures = (entry.map LockEntry.failures).getD 0 + 1 := by
  cases entry <;> rfl

theorem fail_le {entry : Option LockEntry} (h : entryLocked entry settings.maxFailures = false) :
    (fail settings entry now).failures ≤ settings.maxFailures := by
  rw [fail_failures]
  cases entry with
  | none => exact settings.positive
  | some entry =>
    have hboth := Bool.or_eq_false_iff.mp h
    have := of_decide_eq_false hboth.2
    change entry.failures + 1 ≤ settings.maxFailures
    omega

theorem locked_of_isSome {entry : LockEntry} (h : entry.lockedAt.isSome = true) (max : Nat) :
    entryLocked (some entry) max = true :=
  Bool.or_eq_true_iff.mpr (.inl h)

/-- A name that has just been left locked is locked in the map, and the others stay as they were. -/
theorem locked_set {map : OrderedMap Text LockEntry} {names : List Text} {name other : Text}
    {entry : LockEntry} (hnames : ∀ name ∈ names, entryLocked (map.get? name) settings.maxFailures = true)
    (hnew : name ∉ names)
    (hmem : other ∈ if entry.lockedAt.isSome = true then name :: names else names) :
    entryLocked ((map.set name entry).get? other) settings.maxFailures = true := by
  rw [OrderedMap.get?_set]
  by_cases hother : other = name
  · rw [if_pos hother]
    by_cases hlocked : entry.lockedAt.isSome = true
    · exact locked_of_isSome hlocked _
    · rw [if_neg hlocked, hother] at hmem
      exact absurd hmem hnew
  · rw [if_neg hother]
    refine hnames other ?_
    split at hmem
    · exact (List.mem_cons.mp hmem).resolve_left hother
    · exact hmem

/-- A failure that drops no entry is counted for its name, and refuses it from the limit on. -/
theorem inv_countFailure (h : Inv settings s) (hkeeps : Keeps settings s lock)
    (hlogin : lockedOut settings lock login = false) (hfits : FitsBoth lock login) :
    Inv settings (s.countFailure settings login lock now) := by
  obtain ⟨hnewUser, hnewIp⟩ := hkeeps.not_locked hlogin
  have huser := (Bool.or_eq_false_iff.mp hlogin).1
  rw [AuthService.countFailure]
  generalize huserEntry : fail settings (lock.users.get? login.username) now = user
  generalize hipEntry : fail settings (lock.ips.get? login.ip) now = ip
  have hfailures : user.failures =
      ((lock.users.get? login.username).map LockEntry.failures).getD 0 + 1 :=
    huserEntry ▸ fail_failures _
  have hlimit : user.failures ≤ settings.maxFailures := huserEntry ▸ fail_le huser
  have hwrite : writeLock ⟨lock.users.set login.username user, lock.ips.set login.ip ip⟩ =
      ⟨lock.users.set login.username user, lock.ips.set login.ip ip⟩ := by
    rw [writeLock, cappedMap_set hfits.1, cappedMap_set hfits.2]
  rw [hwrite]
  refine ⟨⟨fun running hrunning => (by cases hrunning), fun username => ?_⟩,
    ⟨fun username hmem => locked_set hkeeps.users hnewUser hmem,
      fun address hmem => locked_set hkeeps.ips hnewIp hmem, fun username => ?_⟩,
    fun other otherLock authVersion hrunning => by cases hrunning⟩
  · have hcount := hkeeps.counts username
    have hfew := h.holds.few username
    rw [AuthService.answer]
    dsimp only
    split
    · rename_i heq
      rw [heq] at hcount ⊢
      omega
    · exact hfew
  · have hcount := hkeeps.counts username
    rw [AuthService.answer]
    dsimp only
    rw [OrderedMap.get?_set]
    split
    · rename_i heq
      rw [heq] at hcount
      change s.failed username + 1 ≤ user.failures
      rw [heq]
      omega
    · exact hcount

theorem inv_begun (h : Inv settings s) : Inv settings (s.begun settings) := by
  rw [AuthService.begun.eq_def]
  split
  · rename_i login rest hrunning hwaiting
    split
    · have hinv : Inv settings { s with waiting := rest } :=
        ⟨⟨h.holds.refused, h.holds.few⟩, ⟨h.file.users, h.file.ips, h.file.counts⟩,
          fun login lock authVersion heq => by
            obtain ⟨hkeeps, hlogin⟩ := h.recording login lock authVersion heq
            exact ⟨⟨hkeeps.users, hkeeps.ips, hkeeps.counts⟩, hlogin⟩⟩
      exact hinv.answered login .locked
    · rename_i hlocked
      rw [Bool.not_eq_true] at hlocked
      refine ⟨⟨fun running heq => ?_, h.holds.few⟩, ⟨h.file.users, h.file.ips, h.file.counts⟩,
        fun other lock authVersion heq => by cases heq⟩
      cases heq
      exact h.file.not_locked hlocked
  · exact h

theorem inv_verified (h : Inv settings s) {authVersion : Option Nat}
    (hroom : Room settings s (.verified authVersion now)) :
    Inv settings (s.verified settings authVersion now) := by
  rw [AuthService.verified]
  cases hrunning : s.running with
  | none => exact h
  | some running =>
    obtain ⟨login, stage⟩ := running
    cases stage with
    | recording lock version => exact h
    | verifying =>
      dsimp only
      split
      · exact h.answered login .locked
      · rename_i hlocked
        rw [Bool.not_eq_true] at hlocked
        cases authVersion with
        | some version =>
          refine ⟨⟨fun running heq => ?_, h.holds.few⟩, ⟨h.file.users, h.file.ips, h.file.counts⟩,
            fun other lock authVersion heq => ?_⟩
          · cases heq
            exact h.file.not_locked hlocked
          · cases heq
            exact ⟨⟨h.file.users, h.file.ips, h.file.counts⟩, hlocked⟩
        | none =>
          rw [Room, hrunning] at hroom
          exact inv_countFailure h h.file hlocked (hroom hlocked)

/-- A success forgets the failures of its name and its address, which were not locked. -/
theorem inv_recorded (h : Inv settings s) {ok : Bool} (hroom : Room settings s (.recorded ok now)) :
    Inv settings (s.recorded settings ok now) := by
  rw [AuthService.recorded]
  cases hrunning : s.running with
  | none => exact h
  | some running =>
    obtain ⟨login, stage⟩ := running
    cases stage with
    | verifying => exact h
    | recording lock version =>
      obtain ⟨hkeeps, hlogin⟩ := h.recording login lock version hrunning
      rw [Room, hrunning] at hroom
      dsimp only
      cases ok with
      | false => exact inv_countFailure h hkeeps hlogin hroom
      | true =>
        obtain ⟨hnewUser, hnewIp⟩ := hkeeps.not_locked hlogin
        have hwrite : writeLock ⟨lock.users.erase login.username, lock.ips.erase login.ip⟩ =
            ⟨lock.users.erase login.username, lock.ips.erase login.ip⟩ := by
          rw [writeLock, cappedMap_erase hroom.1, cappedMap_erase hroom.2]
        rw [if_pos rfl, hwrite]
        refine ⟨⟨fun running hnone => (by cases hnone), fun username => ?_⟩,
          ⟨fun username hmem => ?_, fun ip hmem => ?_, fun username => ?_⟩,
          fun other otherLock authVersion hnone => by cases hnone⟩
        · rw [AuthService.answer]
          dsimp only
          split
          · exact Nat.zero_le _
          · exact h.holds.few username
        · have hne : username ≠ login.username := fun heq => hnewUser (heq ▸ hmem)
          rw [AuthService.answer, OrderedMap.get?_erase, if_neg hne]
          exact hkeeps.users username hmem
        · have hne : ip ≠ login.ip := fun heq => hnewIp (heq ▸ hmem)
          rw [AuthService.answer, OrderedMap.get?_erase, if_neg hne]
          exact hkeeps.ips ip hmem
        · rw [AuthService.answer, OrderedMap.get?_erase]
          dsimp only
          split
          · exact Nat.zero_le _
          · exact hkeeps.counts username

theorem inv_step (s : AuthService) (event : Event) (h : Inv settings s)
    (hroom : Room settings s event) : Inv settings (step settings s event) := by
  cases event with
  | attemptLogin login =>
    have hsame : ∀ answers waiting, Inv settings { s with answers, waiting } := fun answers waiting =>
      ⟨⟨h.holds.refused, h.holds.few⟩, ⟨h.file.users, h.file.ips, h.file.counts⟩,
        fun other lock authVersion heq => by
          obtain ⟨hkeeps, hlogin⟩ := h.recording other lock authVersion heq
          exact ⟨⟨hkeeps.users, hkeeps.ips, hkeeps.counts⟩, hlogin⟩⟩
    rw [step, AuthService.attemptLogin]
    split
    · exact hsame _ _
    · split
      · exact hsame _ _
      · exact hsame _ _
  | begun => exact inv_begun h
  | verified authVersion now => exact inv_verified h hroom
  | recorded ok now => exact inv_recorded h hroom
  | threw =>
    exact ⟨⟨fun running hnone => (by cases hnone), h.holds.few⟩,
      ⟨h.file.users, h.file.ips, h.file.counts⟩, fun login lock authVersion hnone => by cases hnone⟩
  | unlock =>
    refine ⟨⟨fun running hrunning => ⟨List.not_mem_nil, List.not_mem_nil⟩, fun username => Nat.zero_le _⟩,
      ⟨fun username hmem => (by cases hmem), fun ip hmem => (by cases hmem), fun username => Nat.zero_le _⟩,
      fun login lock authVersion heq => ⟨⟨fun username hmem => (by cases hmem),
        fun ip hmem => (by cases hmem), fun username => Nat.zero_le _⟩,
        (h.recording login lock authVersion heq).2⟩⟩

/-- The turn of an attempt whose name or address has been left locked ends at once, in `locked`. -/
def Refuses (settings : AuthSettings) (s : AuthService) : Event → Prop
  | .begun => ∀ login rest, s.running = none → s.waiting = login :: rest →
    login.username ∈ s.lockedUsers ∨ login.ip ∈ s.lockedIps →
      s.begun settings = { s with waiting := rest }.answer login .locked
  | _ => True

theorem Inv.refuses (h : Inv settings s) (event : Event) : Refuses settings s event := by
  cases event with
  | begun =>
    intro login rest hrunning hwaiting hlocked
    have hlogin : lockedOut settings s.file login = true := by
      rw [lockedOut, Bool.or_eq_true]
      exact hlocked.imp (h.file.users _) (h.file.ips _)
    rw [AuthService.begun, hrunning, hwaiting]
    exact if_pos hlogin
  | _ => trivial

/-- In every run in which no write of an attempt meets a map that is full with the entries of
others, what an attempt has left locked is refused until the unlock, without a verification, and no
name fails more verifications than the settings allow between two successes or unlocks. -/
theorem lockout_holds {file : LockFile} {events : List Event}
    (h : Guarded (step settings) (Room settings) (start file) events) :
    ∀ before event more, before ++ event :: more = events →
      LockHolds settings (run (step settings) (start file) (before ++ [event])) ∧
        Refuses settings (run (step settings) (start file) before) event := by
  intro before event more hsplit
  have hall : before ++ [event] ++ more = events := by
    rw [List.append_assoc]
    exact hsplit
  have hguarded := guarded_left (hall ▸ h)
  have hinv := run_preserves inv_step hguarded (inv_start settings file)
  have hbefore := run_preserves inv_step (guarded_left hguarded) (inv_start settings file)
  exact ⟨hinv.holds, hbefore.refuses event⟩

/-! ### A lock that the cap drops -/

theorem comesFirst_trans (a b c : Text × LockEntry) (hab : comesFirst a b = true)
    (hbc : comesFirst b c = true) : comesFirst a c = true := by
  grind [comesFirst]

theorem comesFirst_total (a b : Text × LockEntry) : (comesFirst a b || comesFirst b a) = true := by
  grind [comesFirst]

/-- Names that are each locked by one failure, one after the other. -/
def lockedInTurn (name : Nat → Text) : Nat → OrderedMap Text LockEntry
  | 0 => .empty
  | n + 1 => (lockedInTurn name n).set (name n) ⟨1, some (n + 1), n + 1⟩

theorem entries_lockedInTurn {name : Nat → Text} (hname : Function.Injective name) (n : Nat) :
    (lockedInTurn name n).entries =
      (List.range n).map fun i => (name i, (⟨1, some (i + 1), i + 1⟩ : LockEntry)) := by
  induction n with
  | zero => rfl
  | succ n ih =>
    have hnew : name n ∉ (lockedInTurn name n).keys := by
      rw [OrderedMap.keys, ih, List.map_map]
      intro hmem
      obtain ⟨i, hi, heq⟩ := List.mem_map.mp hmem
      rw [hname heq, List.mem_range] at hi
      exact Nat.lt_irrefl _ hi
    rw [lockedInTurn, OrderedMap.entries_set_of_not_mem hnew, ih, List.range_succ, List.map_append]
    rfl

theorem get?_lockedInTurn {name : Nat → Text} (hname : Function.Injective name) (n : Nat) :
    (lockedInTurn name n).get? (name n) = none := by
  rw [OrderedMap.get?_eq_none, OrderedMap.keys, entries_lockedInTurn hname, List.map_map]
  intro hmem
  obtain ⟨i, hi, heq⟩ := List.mem_map.mp hmem
  rw [hname heq, List.mem_range] at hi
  exact Nat.lt_irrefl _ hi

/-- One entry more than the cap, and the first of them is gone. -/
theorem first_dropped {name : Nat → Text} (hname : Function.Injective name) {n : Nat}
    (hn : n = MAX_LOCK_ENTRIES) : (cappedMap (lockedInTurn name (n + 1))).get? (name 0) = none := by
  have hentries := entries_lockedInTurn hname (n + 1)
  have hnodup := (lockedInTurn name (n + 1)).nodup
  rw [OrderedMap.get?_eq_none]
  intro hmem
  change name 0 ∈ (cappedEntries (lockedInTurn name (n + 1)).entries).map Prod.fst
    at hmem
  generalize (lockedInTurn name (n + 1)).entries = entries at hentries hnodup hmem
  have hlength : entries.length = n + 1 := by
    rw [hentries, List.length_map, List.length_range]
  have hlarge : ¬entries.length ≤ MAX_LOCK_ENTRIES := by omega
  rw [cappedEntries, if_neg hlarge] at hmem
  have hperm := List.mergeSort_perm entries comesFirst
  have hsorted := List.pairwise_mergeSort comesFirst_trans comesFirst_total entries
  have hdistinct : ((entries.mergeSort comesFirst).map Prod.fst).Nodup :=
    (hperm.map Prod.fst).nodup_iff.mpr hnodup
  generalize entries.mergeSort comesFirst = sorted at hmem hperm hsorted hdistinct
  -- what the cap leaves over is a last entry, and no entry stays before it that is older
  have hrest : (sorted.drop MAX_LOCK_ENTRIES).length = 1 := by
    rw [List.length_drop, hperm.length_eq, hlength]
    omega
  obtain ⟨last, hlast⟩ := List.length_eq_one_iff.mp hrest
  have hsplit : sorted = sorted.take MAX_LOCK_ENTRIES ++ [last] := by
    rw [← hlast, List.take_append_drop]
  rw [hsplit] at hsorted hdistinct
  obtain ⟨first, hfirst, hfirstName⟩ := List.mem_map.mp hmem
  have hbefore := (List.pairwise_append.mp hsorted).2.2 first hfirst last (List.mem_singleton_self _)
  have hknown : ∀ entry ∈ sorted, ∃ i, entry = (name i, ⟨1, some (i + 1), i + 1⟩) := by
    intro entry hentry
    rw [hperm.mem_iff, hentries] at hentry
    obtain ⟨i, -, heq⟩ := List.mem_map.mp hentry
    exact ⟨i, heq.symm⟩
  obtain ⟨i, hi⟩ := hknown first (List.mem_of_mem_take hfirst)
  obtain ⟨j, hj⟩ := hknown last (hsplit ▸ List.mem_append_right _ (List.mem_singleton_self _))
  have hzero : i = 0 := hname ((congrArg Prod.fst hi).symm.trans hfirstName)
  subst hzero hi hj
  have hj : j = 0 := by
    have hle : j + 1 ≤ 0 + 1 := of_decide_eq_true hbefore
    omega
  subst hj
  rw [List.map_append] at hdistinct
  exact (List.nodup_append.mp hdistinct).2.2 (name 0) (List.mem_map_of_mem hfirst) (name 0)
    (List.mem_singleton_self _) rfl

/-- One failure locks. -/
def strict : AuthSettings := ⟨1, Nat.one_pos⟩

def userName (i : Nat) : Text := js "user" ++ decimal i

/-- A wrong password for a name that nobody has tried, from an address that nobody has used. -/
def guess (i : Nat) : List Event :=
  [.attemptLogin ⟨userName i, js "x", decimal i⟩, .begun, .verified none (i + 1)]

def guesses (n : Nat) : List Event := (List.range n).flatMap guess

theorem userName_injective : Function.Injective userName := fun _ _ h =>
  Number.radixText_injective (by omega) (by omega) (List.append_cancel_left h)

theorem length_decimal_le {i : Nat} (h : i < 2049) : (decimal i).length ≤ 4 :=
  Number.length_radixText (r := 10) (by omega) (by omega)

theorem isUsername_userName {i : Nat} (h : i < 2049) : isUsername (userName i) = true := by
  have hlength := length_decimal_le h
  have hall : (decimal i).all (fun u => isLower u || isDigit u || u == 95 || u == 45) = true :=
    List.all_eq_true.mpr fun u hu => by
      rw [isDigit_of_mem_decimal hu, Bool.or_true]
      rfl
  have hrest : (js "ser" ++ decimal i).length = 3 + (decimal i).length := List.length_append
  change (isLower 117 && decide (2 ≤ (js "ser" ++ decimal i).length) &&
    decide ((js "ser" ++ decimal i).length ≤ 31) && (js "ser" ++ decimal i).all _) = true
  rw [hrest, List.all_append, hall, decide_eq_true (by omega), decide_eq_true (by omega)]
  decide

theorem isAddress_decimal {i : Nat} (h : i < 2049) : isAddress (decimal i) = true := by
  have hlength := length_decimal_le h
  have hall : (decimal i).all (fun u =>
      isHexLower u || (65 ≤ u && u ≤ 70) || u == 58 || u == 46 || u == 37) = true :=
    List.all_eq_true.mpr fun u hu => by
      rw [isHexLower, isDigit_of_mem_decimal hu]
      rfl
  have hsome : (decimal i).isEmpty = false :=
    List.isEmpty_eq_false_iff.mpr (Number.radixText_ne_nil 10 i)
  rw [isAddress, hall, hsome, decide_eq_true (show (decimal i).length ≤ 128 by omega)]
  exact Bool.or_true _

theorem decimal_ne_ffff (i : Nat) : decimal i ≠ js "ffff" := by
  intro h
  have hmem : 102 ∈ decimal i := h ▸ (by decide)
  exact absurd (isDigit_of_mem_decimal hmem) (by decide)

/-- After so many guesses, each name and each address is locked. -/
structure Guessed (n : Nat) (s : AuthService) : Prop where
  file : s.file = ⟨cappedMap (lockedInTurn userName n), cappedMap (lockedInTurn decimal n)⟩
  waiting : s.waiting = []
  running : s.running = none
  locked : ∀ i < n, userName i ∈ s.lockedUsers

theorem cappedMap_lockedInTurn {name : Nat → Text} (hname : Function.Injective name) {n : Nat}
    (h : n ≤ MAX_LOCK_ENTRIES) : cappedMap (lockedInTurn name n) = lockedInTurn name n := by
  refine cappedMap_eq ?_
  rw [entries_lockedInTurn hname, List.length_map, List.length_range]
  exact h

theorem guessed_succ {n : Nat} (h : Guessed n s) (hn : n ≤ MAX_LOCK_ENTRIES) :
    Guessed (n + 1) (run (step strict) s (guess n)) := by
  have hname := isUsername_userName (Nat.lt_succ_of_le hn)
  have haddress := isAddress_decimal (Nat.lt_succ_of_le hn)
  have hdecimal : Function.Injective decimal := Number.radixText_injective (by omega) (by omega)
  have hfile := h.file
  rw [cappedMap_lockedInTurn userName_injective hn, cappedMap_lockedInTurn hdecimal hn] at hfile
  have huser : s.file.users.get? (userName n) = none := by
    rw [hfile]
    exact get?_lockedInTurn userName_injective n
  have hip : s.file.ips.get? (decimal n) = none := by
    rw [hfile]
    exact get?_lockedInTurn hdecimal n
  have hproblem : loginInputProblem (userName n) (js "x") = none := by
    rw [loginInputProblem, hname]
    rfl
  have hopen : lockedOut strict s.file ⟨userName n, js "x", decimal n⟩ = false := by
    rw [lockedOut, huser, hip]
    rfl
  have hattempt : s.attemptLogin ⟨userName n, js "x", decimal n⟩ =
      { s with waiting := [⟨userName n, js "x", decimal n⟩] } := by
    rw [AuthService.attemptLogin, hproblem, h.waiting]
    dsimp only
    rw [haddress]
    rfl
  have hbegun : ({ s with waiting := [⟨userName n, js "x", decimal n⟩] } : AuthService).begun strict =
      { s with waiting := [], running := some (⟨userName n, js "x", decimal n⟩, .verifying) } := by
    rw [AuthService.begun, h.running]
    dsimp only
    rw [hopen]
    rfl
  rw [guess, run_cons, run_cons, run_cons, run_nil]
  change Guessed (n + 1) (((s.attemptLogin _).begun strict).verified strict none (n + 1))
  rw [hattempt, hbegun, AuthService.verified]
  dsimp only
  rw [hopen]
  refine ⟨?_, rfl, rfl, fun i hi => ?_⟩
  · change writeLock ⟨s.file.users.set (userName n) (fail strict (s.file.users.get? (userName n)) (n + 1)),
      s.file.ips.set (decimal n) (fail strict (s.file.ips.get? (decimal n)) (n + 1))⟩ = _
    rw [huser, hip, hfile]
    rfl
  · change userName i ∈ userName n :: s.lockedUsers
    obtain hlt | heq := Nat.lt_succ_iff_lt_or_eq.mp hi
    · exact List.mem_cons_of_mem _ (h.locked i hlt)
    · rw [heq]
      exact List.mem_cons_self ..

theorem guessed (n : Nat) (hn : n ≤ MAX_LOCK_ENTRIES + 1) :
    Guessed n (run (step strict) (start emptyLock) (guesses n)) := by
  induction n with
  | zero => exact ⟨rfl, rfl, rfl, fun i hi => absurd hi (Nat.not_lt_zero i)⟩
  | succ n ih =>
    have hguesses : guesses (n + 1) = guesses n ++ guess n := by
      rw [guesses, List.range_succ, List.flatMap_append, List.flatMap_singleton]
      rfl
    rw [hguesses, run_append]
    exact guessed_succ (ih (by omega)) (by omega)

theorem mem_keys_of_cappedMap {map : OrderedMap Text LockEntry} {key : Text}
    (h : key ∈ (cappedMap map).keys) : key ∈ map.keys := by
  obtain ⟨entry, hentry, rfl⟩ := List.mem_map.mp h
  refine List.mem_map_of_mem ?_
  change entry ∈ cappedEntries map.entries at hentry
  rw [cappedEntries] at hentry
  split at hentry
  · exact hentry
  · exact List.mem_mergeSort.mp (List.mem_of_mem_take hentry)

theorem not_lockHolds {n : Nat} (hn : n = MAX_LOCK_ENTRIES) :
    ¬LockHolds strict (run (step strict) (start emptyLock)
      (guesses (n + 1) ++ [.attemptLogin ⟨userName 0, js "y", js "ffff"⟩, .begun])) := by
  have hdecimal : Function.Injective decimal := Number.radixText_injective (by omega) (by omega)
  have h := guessed (n + 1) (by omega)
  rw [run_append]
  generalize run (step strict) (start emptyLock) (guesses (n + 1)) = s at h
  have huser : s.file.users.get? (userName 0) = none := by
    rw [h.file]
    exact first_dropped userName_injective hn
  have hip : s.file.ips.get? (js "ffff") = none := by
    rw [h.file, OrderedMap.get?_eq_none]
    intro hmem
    have hkey := mem_keys_of_cappedMap hmem
    rw [OrderedMap.keys, entries_lockedInTurn hdecimal, List.map_map] at hkey
    obtain ⟨i, -, heq⟩ := List.mem_map.mp hkey
    exact decimal_ne_ffff i heq
  have hopen : lockedOut strict s.file ⟨userName 0, js "y", js "ffff"⟩ = false := by
    rw [lockedOut, huser, hip]
    rfl
  have hattempt : s.attemptLogin ⟨userName 0, js "y", js "ffff"⟩ =
      { s with waiting := [⟨userName 0, js "y", js "ffff"⟩] } := by
    rw [AuthService.attemptLogin, h.waiting]
    rfl
  intro hholds
  have hrunning : (⟨userName 0, js "y", js "ffff"⟩, Stage.verifying) ∈
      (run (step strict) s [.attemptLogin ⟨userName 0, js "y", js "ffff"⟩, .begun]).running := by
    change _ ∈ ((s.attemptLogin _).begun strict).running
    rw [hattempt, AuthService.begun, h.running]
    dsimp only
    rw [hopen]
    rfl
  have hlocked : (run (step strict) s
      [.attemptLogin ⟨userName 0, js "y", js "ffff"⟩, .begun]).lockedUsers = s.lockedUsers := by
    change ((s.attemptLogin _).begun strict).lockedUsers = s.lockedUsers
    rw [hattempt, AuthService.begun, h.running]
    dsimp only
    rw [hopen]
    rfl
  have hrefused := (hholds.refused _ hrunning).1
  rw [hlocked] at hrefused
  exact hrefused (h.locked 0 (by omega))

/-- After 2049 names have been locked, the password of the first is verified once more. -/
theorem oldest_lock_dropped :
    ¬LockHolds strict (run (step strict) (start emptyLock) (guesses (MAX_LOCK_ENTRIES + 1) ++
      [.attemptLogin ⟨userName 0, js "y", js "ffff"⟩, .begun])) :=
  not_lockHolds rfl

/-- One failure of a name, and its next attempt at its turn. -/
def lockedOnce : List Event :=
  [.attemptLogin ⟨js "alice", js "x", js "::1"⟩, .begun, .verified none 1,
    .attemptLogin ⟨js "alice", js "y", js "::2"⟩]

theorem fits_empty (key : Text) : Fits .empty key := by
  change 0 < MAX_LOCK_ENTRIES
  decide

theorem second_attempt_refused :
    LockHolds strict (run (step strict) (start emptyLock) (lockedOnce ++ [.begun])) ∧
      Refuses strict (run (step strict) (start emptyLock) lockedOnce) .begun := by
  have hroom : Guarded (step strict) (Room strict) (start emptyLock) (lockedOnce ++ [.begun]) :=
    ⟨trivial, trivial, fun _ => ⟨fits_empty _, fits_empty _⟩, trivial, trivial, trivial⟩
  exact lockout_holds hroom lockedOnce .begun [] rfl

end BoredManager.Server.Auth
