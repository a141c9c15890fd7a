import BoredManager.Js.Number
import BoredManager.Machine.Runs

/-! The accounts of the server, and the calls that change and verify them. A mutation is one step
of the queue; a verification reads the file, hashes, and looks again in the queue. -/
namespace BoredManager.Server.Users
open BoredManager.Js BoredManager.Js.Number BoredManager.Machine

def MAX_PASSWORD_LENGTH : Nat := 4096
def MAX_SAFE_INTEGER : Nat := 2 ^ 53 - 1
def DEFAULT_USERNAME : Text := js "bored-admin"

/-- `/^[a-z][a-z0-9_-]{2,31}$/.test(username)` -/
def isUsername : Text → Bool
  | first :: rest => isLower first && 2 ≤ rest.length && rest.length ≤ 31 &&
      rest.all fun u => isLower u || isDigit u || u == 95 || u == 45
  | [] => false

structure StoredUser where
  username : Text
  passwordHash : Text
  salt : Text
  createdAt : Nat
  lastLoginAt : Option Nat
  sessionVersion : Nat
deriving DecidableEq, Repr

inductive UserProblem where
  | invalidName | nameExists | emptyPassword | longPassword | defaultAccount | missing | versionLimit
deriving DecidableEq, Repr

/-- What `node:crypto` gives: the derived key as hex, and the random dummy of a failed lookup. -/
structure Scrypt where
  hash : Text → Text → Text
  DUMMY_SALT : Text
  DUMMY_EXPECTED : List Nat

/-- `Buffer.from(text, 'hex')`: up to the first pair that is no byte. -/
def ofHex : Text → List Nat
  | a :: b :: rest =>
    match digitValue a, digitValue b with
    | some x, some y => if x < 16 ∧ y < 16 then (16 * x + y) :: ofHex rest else []
    | _, _ => []
  | _ => []

def find (users : List StoredUser) (username : Text) : Option StoredUser :=
  users.find? fun user => user.username = username

/-- The first entry of the name is changed in place. -/
def amend (users : List StoredUser) (username : Text) (change : StoredUser → StoredUser) :
    List StoredUser :=
  match users with
  | [] => []
  | user :: rest =>
    if user.username = username then change user :: rest else user :: amend rest username change

def nameProblem (username : Text) (users : List StoredUser) : Option UserProblem :=
  if !isUsername username then some .invalidName
  else if (find users username).isSome then some .nameExists
  else none

def passwordProblem (password : Text) : Option UserProblem :=
  if password = [] then some .emptyPassword
  else if password.length > MAX_PASSWORD_LENGTH then some .longPassword
  else none

variable (scrypt : Scrypt) (users : List StoredUser)

def createUser (username password salt : Text) (now : Nat) :
    Except UserProblem (List StoredUser) :=
  if !isUsername username then .error .invalidName
  else match passwordProblem password with
    | some problem => .error problem
    | none =>
      match nameProblem username users with
      | some problem => .error problem
      | none => .ok (users ++ [{
          username
          passwordHash := scrypt.hash password salt
          salt
          createdAt := now
          lastLoginAt := none
          sessionVersion := 1 }])

def deleteUser (username : Text) : Except UserProblem (List StoredUser) :=
  if username = DEFAULT_USERNAME then .error .defaultAccount
  else if !isUsername username then .error .invalidName
  else if (find users username).isSome then
    .ok (users.filter fun user => user.username ≠ username)
  else .error .missing

def setPassword (username password salt : Text) : Except UserProblem (List StoredUser) :=
  if !isUsername username then .error .invalidName
  else match passwordProblem password with
    | some problem => .error problem
    | none =>
      match find users username with
      | none => .error .missing
      | some user =>
        if user.sessionVersion ≥ MAX_SAFE_INTEGER then .error .versionLimit
        else .ok (amend users username fun user => { user with
          salt
          passwordHash := scrypt.hash password salt
          sessionVersion := user.sessionVersion + 1 })

/-- A call of `verifyForSession` at its hash, with the account it has read. -/
structure Verification where
  username : Text
  password : Text
  user : Option StoredUser
deriving DecidableEq, Repr

def verifyForSession (username password : Text) : Option Verification :=
  if !isUsername username || password.length = 0 || password.length > MAX_PASSWORD_LENGTH then none
  else some ⟨username, password, find users username⟩

/-- The account has a password. -/
def StoredUser.hasPassword (user : StoredUser) : Bool := user.passwordHash ≠ []

def Verification.passes (call : Verification) : Bool :=
  match call.user.filter StoredUser.hasPassword with
  | some user => ofHex user.passwordHash = ofHex (scrypt.hash call.password user.salt)
  | none => scrypt.DUMMY_EXPECTED = ofHex (scrypt.hash call.password scrypt.DUMMY_SALT)

/-- What the queue makes of the call. -/
def Verification.finish (call : Verification) : Option Nat :=
  match call.user, find users call.username with
  | some user, some current =>
    if call.passes scrypt ∧ current.passwordHash = user.passwordHash ∧ current.salt = user.salt ∧
        current.sessionVersion = user.sessionVersion then
      some current.sessionVersion
    else none
  | _, _ => none

def sessionIsCurrent (username : Text) (sessionVersion : Nat) : Bool :=
  if sessionVersion > MAX_SAFE_INTEGER ∨ sessionVersion < 1 then false
  else match find users username with
    | some user => user.sessionVersion = sessionVersion
    | none => false

def recordLogin (username : Text) (expectedSessionVersion : Option Nat) (now : Nat) :
    Option (List StoredUser) :=
  match find users username with
  | none => none
  | some user =>
    if expectedSessionVersion.isSome ∧ expectedSessionVersion ≠ some user.sessionVersion then none
    else some (amend users username fun user => { user with lastLoginAt := some now })

/-- A version that `verifyForSession` has returned, and the account's password at that moment. -/
structure Issue where
  username : Text
  password : Text
  sessionVersion : Nat
  current : Option Text
deriving DecidableEq, Repr

/-- The file and the calls under way. For the statements: the password of every account, what was
returned, and of that what was returned before the account's password or the account went. -/
structure World where
  users : List StoredUser
  calls : List Verification
  passwords : Text → Option Text
  returned : List Issue
  stale : List (Text × Nat)

namespace World

variable (w : World)

/-- The versions that were returned for the name. -/
def versionsOf (username : Text) : List (Text × Nat) :=
  (w.returned.filter fun issue => issue.username = username).map fun issue =>
    (issue.username, issue.sessionVersion)

def setPasswordOf (username : Text) (password : Option Text) : Text → Option Text :=
  fun u => if u = username then password else w.passwords u

def create (username password salt : Text) (now : Nat) : World :=
  match createUser scrypt w.users username password salt now with
  | .ok users => { w with users, passwords := w.setPasswordOf username (some password) }
  | .error _ => w

/-- The write of a deletion; the sessions are revoked later, or never. -/
def delete (username : Text) : World :=
  match deleteUser w.users username with
  | .ok users => { w with
      users
      passwords := w.setPasswordOf username none
      stale := w.stale ++ w.versionsOf username }
  | .error _ => w

def change (username password salt : Text) : World :=
  match setPassword scrypt w.users username password salt with
  | .ok users => { w with
      users
      passwords := w.setPasswordOf username (some password)
      stale := w.stale ++ w.versionsOf username }
  | .error _ => w

def verify (username password : Text) : World :=
  { w with calls := w.calls ++ (verifyForSession w.users username password).toList }

def finish (index : Nat) : World :=
  match w.calls[index]? with
  | none => w
  | some call =>
    { w with
      calls := w.calls.eraseIdx index
      returned := w.returned ++ ((call.finish scrypt w.users).map fun sessionVersion =>
        ⟨call.username, call.password, sessionVersion, w.passwords call.username⟩).toList }

def login (username : Text) (expectedSessionVersion : Option Nat) (now : Nat) : World :=
  match recordLogin w.users username expectedSessionVersion now with
  | some users => { w with users }
  | none => w

end World

inductive UserEvent where
  | create (username password salt : Text) (now : Nat)
  | delete (username : Text)
  | setPassword (username password salt : Text)
  | verify (username password : Text)
  /-- The queue comes to the verification with this index. -/
  | finish (index : Nat)
  | recordLogin (username : Text) (expectedSessionVersion : Option Nat) (now : Nat)
  /-- The calls under way are lost. -/
  | crash
deriving DecidableEq, Repr

def World.step (w : World) : UserEvent → World
  | .create username password salt now => w.create scrypt username password salt now
  | .delete username => w.delete username
  | .setPassword username password salt => w.change scrypt username password salt
  | .verify username password => w.verify username password
  | .finish index => w.finish scrypt index
  | .recordLogin username expected now => w.login username expected now
  | .crash => { w with calls := [] }

/-- A file to begin with, and the passwords of its accounts. -/
structure Database where
  users : List StoredUser
  passwords : Text → Option Text
  hashed : ∀ username user, find users username = some user → user.hasPassword →
    ∃ password, passwords username = some password ∧
      ofHex user.passwordHash = ofHex (scrypt.hash password user.salt)

def World.start (database : Database scrypt) : World :=
  ⟨database.users, [], database.passwords, [], []⟩

end BoredManager.Server.Users
