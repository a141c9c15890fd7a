import BoredManager.Container.CreateDocker
import BoredManager.Posix.Lines

/-! Creating Incus instances: what the check lets through, and what a job runs for each instance. -/
namespace BoredManager.Container.Create
open BoredManager.Js BoredManager.Posix BoredManager.Shared

/-! ### The check -/

/-- `/^[A-Za-z][A-Za-z0-9-]*$/` -/
def INCUS_NAME_RE : Text → Bool
  | [] => false
  | u :: s => (isLower u || isUpper u) && s.all fun v => isLower v || isUpper v || isDigit v || v == 45

/-- A letter or a digit, and behind it letters, digits and any of `.`, `_`, `:`, `@`, `/` and `-`. -/
def INCUS_REF_RE : Text → Bool
  | [] => false
  | u :: s => (isLower u || isUpper u || isDigit u) &&
      s.all fun v => isLower v || isUpper v || isDigit v ||
        v == 46 || v == 95 || v == 58 || v == 64 || v == 47 || v == 45

/-- `/^[a-z_][a-z0-9_-]{0,31}$/` -/
def LINUX_USER_RE : Text → Bool
  | [] => false
  | u :: s => (isLower u || u == 95) && decide (s.length ≤ 31) &&
      s.all fun v => isLower v || isDigit v || v == 95 || v == 45

def raw (values : FormValues) (key : String) : Text :=
  match values.get? (js key) with
  | some (.text s) => s
  | _ => []

/-- The machine and the module as the check finds them. -/
structure IncusHost where
  maxCreateCount : Int
  minPasswordLen : ℚ
  templates : List TemplateRecord
  incusPresent : Bool
  memTotalBytes : Number
  existingNames : List Text
  profiles : List Text
  networks : List Text
  pools : List Text

structure IncusPlan where
  names : List Text
  image : Text
  vm : Bool
  profile : Text
  network : Text
  storagePool : Text
  cpuLimit : Text
  memoryLimit : Text
  username : Text
  password : Text
  sshKey : Text
  script : Text
  tag : Text
  parallel : Bool
  abortOnError : Bool
  saveAsTemplate : Bool
  templateName : Text
  values : FormValues

/-- R-CI-03 -/
def incusNameErrors (namePrefix : Text) (names taken : List Text) : List Text :=
  if INCUS_NAME_RE namePrefix = false then [js "Name prefix is not usable"]
  else
    let clashes := names.filter (· ∈ taken)
    if clashes = [] then [] else [decimal clashes.length ++ js " of those names are taken"]

/-- R-CI-04 -/
def incusImageErrors (image : Text) : List Text :=
  if image = [] then [js "An image is required (for example images:ubuntu/24.04)"]
  else if INCUS_REF_RE image = false then [quotedSpec image " is not a usable image reference"]
  else []

/-- One row of `checkRefs`. -/
def refErrors (label : String) (wanted : Text) (available : List Text) : List Text :=
  if wanted = [] then []
  else if INCUS_REF_RE wanted = false then [js label ++ 32 :: quotedSpec wanted " is not a usable name"]
  else if wanted ∈ available then []
  else [js label ++ 32 :: quotedSpec wanted " does not exist"]

/-- Profile, network and storage pool all have to exist before anything launches. -/
def IncusHost.checkRefs (host : IncusHost) (values : FormValues) : List Text :=
  refErrors "Profile" (text values "profile") host.profiles ++
    refErrors "Network" (text values "network") host.networks ++
    refErrors "Storage pool" (text values "storagePool") host.pools

/-- R-CI-06 -/
def loginErrors (minPasswordLen : ℚ) (username password : Text) : List Text :=
  if username ≠ [] then
    (if LINUX_USER_RE username = false then [quotedSpec username " is not a usable Linux user name"] else []) ++
      if (password.length : ℚ) < minPasswordLen then
        [js "The password is shorter than " ++ numberText minPasswordLen ++ js " characters"] else []
  else if password ≠ [] then [js "A password without a user name has nothing to set"]
  else []

/-- R-CI-07 -/
def incusMemoryErrors (memoryLimit : Text) (count : Option Int) (total : Number) : List Text :=
  if memoryLimit = [] then []
  else match parseMemory memoryLimit with
    | none => [quotedSpec memoryLimit " is not a memory size (try 1GiB)"]
    | some per =>
      match count.filter (0 < ·) with
      | none => []
      | some count =>
        let wanted := times per count.toNat
        if total ≠ .fin 0 ∧ total.lt wanted = true then
          [formatBytes wanted ++ js " is more memory than this machine has"] else []

/-- The errors of the check behind its first one, and the plan it would issue a token for. -/
def IncusHost.errorsAndPlan (host : IncusHost) (input : FormValues) : List Text × IncusPlan :=
  let values := mergeTemplate input host.templates
  let count := countOf values
  let namePrefix := text values "namePrefix"
  let image := text values "image"
  let names := generatedNames namePrefix (min (count.getD 0) host.maxCreateCount).toNat
  let username := text values "username"
  let password := raw values "password"
  let memoryLimit := text values "memoryLimit"
  let script := text values "startupScript"
  let errors := countErrors host.maxCreateCount count ++
    incusNameErrors namePrefix names host.existingNames ++ incusImageErrors image ++
    host.checkRefs values ++ loginErrors host.minPasswordLen username password ++
    incusMemoryErrors memoryLimit count host.memTotalBytes ++
    (if MAX_SCRIPT_BYTES < script.length then
      [js "The startup script is over " ++ decimal MAX_SCRIPT_BYTES ++ js " characters"] else [])
  (errors, {
    names := names, image := image, vm := decide (text values "instanceType" = js "vm")
    profile := text values "profile", network := text values "network"
    storagePool := text values "storagePool", cpuLimit := text values "cpuLimit"
    memoryLimit := memoryLimit, username := username, password := password
    sshKey := trim (raw values "sshAuthorizedKey"), script := script, tag := text values "tag"
    parallel := decide (text values "concurrency" = js "parallel")
    abortOnError := decide (text values "onError" = js "abort")
    saveAsTemplate := flag values "saveAsTemplate", templateName := text values "templateName"
    values := values })

/-- The plan of a check that is ok. -/
def IncusHost.check (host : IncusHost) (input : FormValues) : Option IncusPlan :=
  if host.incusPresent = false then none
  else
    let (errors, plan) := host.errorsAndPlan input
    if errors = [] then some plan else none

/-! ### The commands of a job -/

/-- A command that the module runs on the host, and what it writes to its input. -/
structure Exec where
  command : Text
  stdin : Option Text

def launchCommand (plan : IncusPlan) (name : Text) : Text :=
  let args := [js "incus", js "launch", shQuote plan.image, shQuote name]
  let args := if plan.vm then args ++ [js "--vm"] else args
  let args := if plan.profile ≠ [] then args ++ [js "-p", shQuote plan.profile] else args
  let args := if plan.cpuLimit ≠ [] then args ++ [js "-c", shQuote (js "limits.cpu=" ++ plan.cpuLimit)] else args
  let args := if plan.memoryLimit ≠ [] then
    args ++ [js "-c", shQuote (js "limits.memory=" ++ plan.memoryLimit)] else args
  let args := if plan.tag ≠ [] then
    args ++ [js "-c", shQuote (js "user.bored-manager.tags=" ++ plan.tag)] else args
  let args := if plan.network ≠ [] then args ++ [js "-n", shQuote plan.network] else args
  let args := if plan.storagePool ≠ [] then args ++ [js "-s", shQuote plan.storagePool] else args
  join [32] args

/-- What `waitRunning` asks until the instance runs. -/
def waitCommand (name : Text) : Text :=
  js "incus info " ++ shQuote name ++ js " 2>/dev/null | grep -i '^Status:'"

def useraddScript (username : Text) : Text :=
  js "useradd -m -s /bin/bash " ++ username ++ js " 2>/dev/null || adduser -D " ++ username ++
    js " 2>/dev/null; true"

def keyScript (username : Text) : Text :=
  let home := js "/home/" ++ username
  js "mkdir -p " ++ home ++ js "/.ssh && cat >> " ++ home ++ js "/.ssh/authorized_keys && " ++
    js "chmod 700 " ++ home ++ js "/.ssh && chmod 600 " ++ home ++ js "/.ssh/authorized_keys && " ++
    js "chown -R " ++ username ++ js " " ++ home ++ js "/.ssh"

def shellIn (name script : Text) : Text :=
  js "incus exec " ++ shQuote name ++ js " -- sh -c " ++ shQuote script

def chpasswdCommand (name : Text) : Text := js "incus exec " ++ shQuote name ++ js " -- chpasswd"

/-- The commands of `provision` in their order; one that fails ends the item. -/
def provision (plan : IncusPlan) (name : Text) : List Exec :=
  (if plan.username ≠ [] then
    [⟨shellIn name (useraddScript plan.username), none⟩,
      ⟨chpasswdCommand name, some (plan.username ++ 58 :: plan.password ++ [10])⟩] ++
      if plan.sshKey ≠ [] then [⟨shellIn name (keyScript plan.username), some (plan.sshKey ++ [10])⟩] else []
  else []) ++
    if plan.script ≠ [] then [⟨shellIn name plan.script, none⟩] else []

/-! ### What the guest reads -/

/-- A line of `chpasswd`: the user before the first colon, and the password behind it. -/
def record (line : Text) : Option (Text × Text) :=
  match line.dropWhile (· ≠ 58) with
  | _ :: password => some (line.takeWhile (· ≠ 58), password)
  | [] => none

/-- The lines of an input, each ended by a line feed; a last one may be without. -/
def inputLines (stdin : Text) : List Text :=
  let pieces := stdin.splitOn 10
  if pieces.getLast? = some [] then pieces.dropLast else pieces

def chpasswdRecords (stdin : Text) : List (Option (Text × Text)) := (inputLines stdin).map record

/-! ### What a job owes -/

def launchWords (plan : IncusPlan) (name : Text) : List Token :=
  [plainWord (js "incus"), plainWord (js "launch"), protectedWord plan.image, protectedWord name] ++
    (if plan.vm then [plainWord (js "--vm")] else []) ++
    (if plan.profile ≠ [] then [plainWord (js "-p"), protectedWord plan.profile] else []) ++
    (if plan.cpuLimit ≠ [] then [plainWord (js "-c"), protectedWord (js "limits.cpu=" ++ plan.cpuLimit)] else []) ++
    (if plan.memoryLimit ≠ [] then
      [plainWord (js "-c"), protectedWord (js "limits.memory=" ++ plan.memoryLimit)] else []) ++
    (if plan.tag ≠ [] then
      [plainWord (js "-c"), protectedWord (js "user.bored-manager.tags=" ++ plan.tag)] else []) ++
    (if plan.network ≠ [] then [plainWord (js "-n"), protectedWord plan.network] else []) ++
    if plan.storagePool ≠ [] then [plainWord (js "-s"), protectedWord plan.storagePool] else []

/-- `incus exec name -- argv`, the instance and the last argument protected. -/
def guestShell (name script : Text) : List Token :=
  [plainWord (js "incus"), plainWord (js "exec"), protectedWord name, plainWord (js "--"),
    plainWord (js "sh"), plainWord (js "-c"), protectedWord script]

def guestChpasswd (name : Text) : List Token :=
  [plainWord (js "incus"), plainWord (js "exec"), protectedWord name, plainWord (js "--"),
    plainWord (js "chpasswd")]

def waitWords (name : Text) : List Token :=
  [plainWord (js "incus"), plainWord (js "info"), protectedWord name, plainWord (js "2"),
    .operator (js ">"), plainWord (js "/dev/null"), .operator (js "|"), plainWord (js "grep"),
    plainWord (js "-i"), protectedWord (js "^Status:")]

/-- The guest's words for making a user. -/
def useraddWords (username : Text) : List Token :=
  [plainWord (js "useradd"), plainWord (js "-m"), plainWord (js "-s"), plainWord (js "/bin/bash"),
    plainWord username, plainWord (js "2"), .operator (js ">"), plainWord (js "/dev/null"),
    .operator (js "||"), plainWord (js "adduser"), plainWord (js "-D"), plainWord username,
    plainWord (js "2"), .operator (js ">"), plainWord (js "/dev/null"), .operator (js ";"),
    plainWord (js "true")]

/-- The guest's words for a key: its input goes behind what the user's file of keys has. -/
def keyWords (username : Text) : List Token :=
  let home := js "/home/" ++ username
  let ssh := plainWord (home ++ js "/.ssh")
  let keys := plainWord (home ++ js "/.ssh/authorized_keys")
  let andThen := Token.operator (js "&&")
  [plainWord (js "mkdir"), plainWord (js "-p"), ssh, andThen, plainWord (js "cat"), .operator (js ">>"),
    keys, andThen, plainWord (js "chmod"), plainWord (js "700"), ssh, andThen, plainWord (js "chmod"),
    plainWord (js "600"), keys, andThen, plainWord (js "chown"), plainWord (js "-R"), plainWord username, ssh]

/-- What a command is meant to read: nothing, one record of a user and a password, or bytes. -/
inductive Input where
  | nothing
  | login (user password : Text)
  | bytes (s : Text)

def Reads : Option Text → Input → Prop
  | none, .nothing => True
  | some stdin, .login user password => chpasswdRecords stdin = [some (user, password)]
  | some stdin, .bytes s => stdin = s
  | _, _ => False

/-- The commands that `provision` is meant to run: their words, and what they read. -/
def intended (plan : IncusPlan) (name : Text) : List (List Token × Input) :=
  (if plan.username ≠ [] then
    [(guestShell name (useraddScript plan.username), .nothing),
      (guestChpasswd name, .login plan.username plan.password)] ++
      if plan.sshKey ≠ [] then
        [(guestShell name (keyScript plan.username), .bytes (plan.sshKey ++ [10]))] else []
  else []) ++
    if plan.script ≠ [] then [(guestShell name plan.script, .nothing)] else []

/-- Every text of the form stays in the word, the record or the input that it is meant for. -/
structure InjectionFree (plan : IncusPlan) (name : Text) : Prop where
  launch : tokens (launchCommand plan name) = some (launchWords plan name)
  wait : tokens (waitCommand name) = some (waitWords name)
  steps : List.Forall₂ (fun run meant => tokens run.command = some meant.1 ∧ Reads run.stdin meant.2)
    (provision plan name) (intended plan name)
  guest : plan.username ≠ [] →
    tokens (useraddScript plan.username) = some (useraddWords plan.username) ∧
      tokens (keyScript plan.username) = some (keyWords plan.username)

end BoredManager.Container.Create
