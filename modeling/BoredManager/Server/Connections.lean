import BoredManager.Js.Base64
import BoredManager.Machine.Runs

/-! The saved connections of the accounts, with their passwords under AES-256-GCM. -/
namespace BoredManager.Server.Connections
open BoredManager.Js BoredManager.Machine

/-- AES-256-GCM under the key of the installation: from an iv and the bytes the tag and the
body, and back. -/
structure Aes where
  encrypt : Bytes → Bytes → Bytes × Bytes
  decrypt : Bytes → Bytes → Bytes → Option Bytes
  decrypt_encrypt : ∀ iv plain, decrypt iv (encrypt iv plain).1 (encrypt iv plain).2 = some plain
  tag_length : ∀ iv plain, (encrypt iv plain).1.length = 16
  body_length : ∀ iv plain, (encrypt iv plain).2.length = plain.length
  tag_bytes : ∀ iv plain, ∀ b ∈ (encrypt iv plain).1, b < 256
  body_bytes : ∀ iv plain, (∀ b ∈ plain, b < 256) → ∀ b ∈ (encrypt iv plain).2, b < 256

def IV_BYTES : Nat := 12
def TAG_BYTES : Nat := 16

/-- `randomBytes(IV_BYTES)` -/
structure Iv where
  bytes : Bytes
  length : bytes.length = 12
  range : ∀ b ∈ bytes, b < 256

/-- `enc2:` -/
def PREFIX : Text := [101, 110, 99, 50, 58]

variable (aes : Aes)

def encryptString (iv : Iv) (plain : Text) : Text :=
  let sealed := aes.encrypt iv.bytes (utf8 plain)
  PREFIX ++ toBase64 (iv.bytes ++ sealed.1 ++ sealed.2)

def isEncrypted (payload : Option Text) : Bool :=
  match payload with
  | some payload => PREFIX.isPrefixOf payload
  | none => false

def decryptString (payload : Option Text) : Option Text :=
  match payload with
  | none => none
  | some payload =>
    if PREFIX.isPrefixOf payload then
      let raw := ofBase64 (payload.drop PREFIX.length)
      if raw.length ≤ IV_BYTES + TAG_BYTES then none
      else (aes.decrypt (raw.take IV_BYTES) ((raw.drop IV_BYTES).take TAG_BYTES)
        (raw.drop (IV_BYTES + TAG_BYTES))).map utf8Text
    else none

structure SavedConnection where
  id : Text
  label : Text
  host : Text
  port : Nat
  username : Text
  hasSavedPassword : Bool
deriving DecidableEq, Repr

structure StoredConnection extends SavedConnection where
  encryptedPassword : Option Text
  encryptedSudoPassword : Option Text
deriving DecidableEq, Repr

/-- What a successful connect hands over. -/
structure Remembered where
  host : Text
  port : Nat
  username : Text
  label : Option Text
  password : Option Text
  sudoPassword : Option Text
  clearSudoPassword : Bool
  rememberPassword : Bool
deriving DecidableEq, Repr

/-- A value that is there and not empty. -/
def given (value : Option Text) : Option Text := value.filter fun text => text ≠ []

def connectionId (username host : Text) (port : Nat) : Text :=
  username ++ 64 :: host ++ 58 :: decimal port

def listConnections (list : List StoredConnection) : List SavedConnection :=
  list.map fun connection => { connection.toSavedConnection with
    hasSavedPassword := isEncrypted connection.encryptedPassword ||
      isEncrypted connection.encryptedSudoPassword }

/-- The stored secret, unless a new one comes. -/
def replaced (iv : Iv) (remember : Bool) (value stored : Option Text) : Option Text :=
  match given value with
  | some plain => if remember then some (encryptString aes iv plain) else stored
  | none => stored

def rememberConnection (list : List StoredConnection) (cfg : Remembered) (iv sudoIv : Iv) :
    List StoredConnection :=
  let id := connectionId cfg.username cfg.host cfg.port
  let existing := list.find? fun c => c.id = id
  let entry : StoredConnection := {
    id
    label := (given cfg.label).getD id
    host := cfg.host
    port := cfg.port
    username := cfg.username
    hasSavedPassword := false
    encryptedPassword := replaced aes iv cfg.rememberPassword cfg.password
      (existing.bind StoredConnection.encryptedPassword)
    encryptedSudoPassword :=
      if cfg.clearSudoPassword then none
      else replaced aes sudoIv cfg.rememberPassword cfg.sudoPassword
        (existing.bind StoredConnection.encryptedSudoPassword) }
  (entry :: list.eraseP fun c => c.id = id).take 15

structure Credentials where
  password : Option Text
  sudoPassword : Option Text
deriving DecidableEq, Repr

def getSavedCredentials (list : List StoredConnection) (id : Text) : Option Credentials :=
  (list.find? fun c => c.id = id).map fun found =>
    ⟨decryptString aes found.encryptedPassword, decryptString aes found.encryptedSudoPassword⟩

/-- What reconnects to a saved machine. -/
structure ConnectionConfig where
  label : Text
  host : Text
  port : Nat
  username : Text
  password : Text
  sudoPassword : Option Text
deriving DecidableEq, Repr

def getSavedConnectionConfig (list : List StoredConnection) (id : Text) : Option ConnectionConfig :=
  match list.find? fun c => c.id = id with
  | none => none
  | some found =>
    match given (decryptString aes found.encryptedPassword) with
    | none => none
    | some password => some ⟨found.label, found.host, found.port, found.username, password,
        decryptString aes found.encryptedSudoPassword⟩

def deleteConnection (list : List StoredConnection) (id : Text) : List StoredConnection :=
  list.filter fun c => c.id ≠ id

/-- The lists of the owners. -/
abbrev World := Text → List StoredConnection

inductive ConnectionEvent where
  | remember (owner : Text) (cfg : Remembered) (iv sudoIv : Iv)
  | delete (owner id : Text)

def World.step (w : World) : ConnectionEvent → World
  | .remember owner cfg iv sudoIv => fun o =>
    if o = owner then rememberConnection aes (w owner) cfg iv sudoIv else w o
  | .delete owner id => fun o => if o = owner then deleteConnection (w owner) id else w o

def World.start : World := fun _ => []

end BoredManager.Server.Connections
