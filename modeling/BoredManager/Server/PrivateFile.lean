import BoredManager.Js.Text
import BoredManager.Machine.Calls
import Mathlib.Logic.Function.Basic

/-! Private JSON files: a write replaces the backup and then the file, each through a temporary
file and a rename; a read falls back to the backup and repairs the file. Any call of the system
may throw, and the process may stop in any of them. -/
namespace BoredManager.Server.PrivateFile
open BoredManager.Js BoredManager.Calls

/-- The files of the directory by name. -/
abbrev Files := Text → Option Text

/-- How a call of the system ends. A call that does not go through may have left its work
undone, or done as far as the given text. -/
inductive Fate where
  | goes
  | throws (code : Text) (left : Option Text)
  | stops (left : Option Text)

/-- A program that ends early threw an error, or its process stopped. -/
inductive Halt where
  | thrown (code : Text)
  | stopped

structure World where
  files : Files
  fates : List Fate
  draws : List Text

/-- What a call of a private-file function meets: the process id, the random names, and how
the calls of the system end. -/
structure Env where
  pid : Text
  draws : List Text
  fates : List Fate

abbrev Program (α : Type) := EStateM Halt World α

/-- A call of the system that changes the files. -/
def sysCall (full : Files → Files) (part : Text → Files → Files) : Program Unit := fun w =>
  match w.fates with
  | .throws code left :: fates =>
    .error (.thrown code) { w with files := left.elim w.files (part · w.files), fates := fates }
  | .stops left :: fates =>
    .error .stopped { w with files := left.elim w.files (part · w.files), fates := fates }
  | .goes :: fates => .ok () { w with files := full w.files, fates := fates }
  | [] => .ok () { w with files := full w.files }

/-- A call of the system that changes no file of the directory. -/
def idle : Program Unit := sysCall id fun _ => id

/-- `try { … } catch { }` -/
def quiet (x : Program Unit) : Program Unit :=
  tryCatch x fun halt => match halt with
    | .thrown _ => pure ()
    | .stopped => throw .stopped

/-- `try { … } finally { … }` around calls that throw; a stopped process cleans nothing up. -/
def orElse {α : Type} (x : Program α) (cleanup : Program Unit) : Program α :=
  tryCatch x fun halt => match halt with
    | .thrown code => do
      cleanup
      throw (.thrown code)
    | .stopped => throw .stopped

def create (name : Text) (files : Files) : Files := Function.update files name (some [])

def rename (source target : Text) (files : Files) : Files :=
  Function.update (Function.update files target (files source)) source none

def mkdirSync : Program Unit := idle
def fsyncSync : Program Unit := idle
def closeSync : Program Unit := idle
def chmodQuiet : Program Unit := quiet idle

/-- `openSync(name, 'wx')` -/
def openSync (name : Text) : Program Unit := do
  if ((← get).files name).isSome then throw (.thrown (js "EEXIST"))
  else sysCall (create name) fun _ => create name

/-- `writeFileSync(fd, data)` on the new file. -/
def writeFileSync (name data : Text) : Program Unit :=
  sysCall (Function.update · name (some data)) fun left files => Function.update files name (some left)

def renameSync (source target : Text) : Program Unit :=
  sysCall (rename source target) fun _ => rename source target

/-- `rmSync(name, { force: true })` in its own `try`. -/
def rmQuiet (name : Text) : Program Unit :=
  quiet (sysCall (Function.update · name none) fun _ files => Function.update files name none)

/-- `openSync`, `fsyncSync` and `closeSync` of the directory. -/
def fsyncDirectoryQuiet : Program Unit :=
  quiet (do
    idle
    orElse fsyncSync (quiet closeSync)
    quiet closeSync)

def backupFile (file : Text) : Text := file ++ js ".bak"

def temporaryFile (target pid hex : Text) : Text :=
  js "." ++ target ++ js "." ++ pid ++ js "." ++ hex ++ js ".tmp"

/-- `randomBytes(12).toString('hex')` -/
def draw : Program Text := fun w => .ok (w.draws.headD []) { w with draws := w.draws.tail }

/-- The attempts to make a temporary file, with so many left after this one. The last name
that was tried is removed when there is no file. -/
def openTemporary (target pid : Text) : Nat → Program Text
  | 0 => do
    let temp := temporaryFile target pid (← draw)
    orElse (openSync temp) (rmQuiet temp)
    return temp
  | left+1 => do
    let temp := temporaryFile target pid (← draw)
    tryCatch (do openSync temp; return temp) fun halt => match halt with
      | .thrown code =>
        if code = js "EEXIST" then openTemporary target pid left
        else do
          rmQuiet temp
          throw (.thrown code)
      | .stopped => throw .stopped

def replacePrivateFile (target pid data : Text) : Program Unit := do
  mkdirSync
  chmodQuiet
  let temp ← openTemporary target pid 9
  orElse (do
    orElse (do
      writeFileSync temp data
      fsyncSync
      closeSync) (quiet closeSync)
    renameSync temp target) (rmQuiet temp)
  chmodQuiet
  fsyncDirectoryQuiet

/-- With `backup`, the recovery copy is written first. -/
def writeAtomicPrivateFile (file pid data : Text) (backup : Bool) : Program Unit := do
  if backup then replacePrivateFile (backupFile file) pid data
  replacePrivateFile file pid data

variable {ν α : Type}

def writeAtomicPrivateJson (stringify : ν → Option Text) (file pid : Text) (value : ν) :
    Program Unit :=
  match stringify value with
  | none => throw (.thrown (js "cannot serialize JSON for \"" ++ file ++ js "\""))
  | some text => writeAtomicPrivateFile file pid text true

inductive Candidate (α : Type) where
  | missing
  | invalid (problem : Text)
  | value (value : α) (text : Text)

/-- `parse` is `JSON.parse` and the caller's parser; its error is a message. -/
def readCandidate (parse : Text → Except Text α) (files : Files) (file : Text) : Candidate α :=
  match files file with
  | none => .missing
  | some text =>
    match parse text with
    | .ok value => .value value text
    | .error message => .invalid (js "invalid (" ++ message ++ js ")")

def candidateProblem : Candidate α → Text
  | .missing => js "missing"
  | .invalid problem => problem
  | .value .. => js "valid"

inductive PrivateJsonRead (α : Type) where
  | value (value : α) (recovered : Bool)
  | missing

def cannotLoad (file label : Text) (primary recovery : Candidate α) : Text :=
  js "Cannot load " ++ label ++ js " \"" ++ file ++ js "\": primary is " ++
    candidateProblem primary ++ js "; backup is " ++ candidateProblem recovery

/-- What `readPrivateJson` does when the file gives no value. -/
def recover (parse : Text → Except Text α) (file pid label : Text) (primary : Candidate α) :
    Program (PrivateJsonRead α) := do
  match readCandidate parse (← get).files (backupFile file) with
  | .value value text => do
    quiet (replacePrivateFile file pid text)
    return .value value true
  | recovery =>
    match primary, recovery with
    | .missing, .missing => return .missing
    | _, _ => throw (.thrown (cannotLoad file label primary recovery))

def readPrivateJson (parse : Text → Except Text α) (file pid label : Text) :
    Program (PrivateJsonRead α) := do
  match readCandidate parse (← get).files file with
  | .value value _ => return .value value false
  | primary => recover parse file pid label primary

end BoredManager.Server.PrivateFile

/-! Private JSON over interrupted writes and reads: from a completed write on the file always
holds a text that the parser accepts, of that write or of a later one. -/
namespace BoredManager.Server.PrivateFile
open BoredManager.Js BoredManager.Calls

variable {ν α : Type} {file target other pid data : Text} {a b : Option Text}

/-- A property of the files, in a world. -/
def On (P : Files → Prop) (w : World) : Prop := P w.files

/-- What the two files hold. -/
def Two (target other : Text) (a b : Option Text) (files : Files) : Prop :=
  files target = a ∧ files other = b

/-- The file holds what it held, or the new data. -/
def Either (target other : Text) (a b : Option Text) (data : Text) (files : Files) : Prop :=
  (files target = a ∨ files target = some data) ∧ files other = b

/-- The names of a file and of its backup, in one order or the other. -/
structure Pair (target other : Text) : Prop where
  ne : target ≠ other
  short : target.length ≤ other.length + 4 ∧ other.length ≤ target.length + 4

theorem pair_backup (file : Text) : Pair (backupFile file) file := by
  have hlength : (backupFile file).length = file.length + 4 := by
    rw [backupFile, List.length_append]
    rfl
  refine ⟨fun h => ?_, by omega⟩
  rw [h] at hlength
  omega

theorem pair_file (file : Text) : Pair file (backupFile file) :=
  ⟨(pair_backup file).ne.symm, (pair_backup file).short.symm⟩

theorem length_temporaryFile (target pid hex : Text) :
    target.length + 7 ≤ (temporaryFile target pid hex).length := by
  have hdot : (js ".").length = 1 := rfl
  have hend : (js ".tmp").length = 4 := rfl
  simp only [temporaryFile, List.length_append, hdot, hend]
  omega

/-- A temporary file is neither the file nor its backup. -/
theorem Pair.temporary (h : Pair target other) (pid hex : Text) :
    temporaryFile target pid hex ≠ target ∧ temporaryFile target pid hex ≠ other := by
  have hlong := length_temporaryFile target pid hex
  have hshort := h.short
  constructor
  all_goals
    intro heq
    rw [heq] at hlong
    omega

/-- A property that a change of a temporary file leaves alone. -/
def Ignores (P : Files → Prop) (temp : Text) : Prop :=
  ∀ files content, P files → P (Function.update files temp content)

theorem ignores_two {temp : Text} (h : temp ≠ target ∧ temp ≠ other) :
    Ignores (Two target other a b) temp := by
  rintro files content ⟨ha, hb⟩
  exact ⟨by rw [Function.update_of_ne h.1.symm, ha], by rw [Function.update_of_ne h.2.symm, hb]⟩

theorem ignores_either {temp : Text} (h : temp ≠ target ∧ temp ≠ other) :
    Ignores (Either target other a b data) temp := by
  rintro files content ⟨ha, hb⟩
  exact ⟨by rwa [Function.update_of_ne h.1.symm], by rw [Function.update_of_ne h.2.symm, hb]⟩

/-! ### The calls of the system -/

section
variable {P Q R : Files → Prop} {β : Type}

theorem meets_sysCall {full : Files → Files} {part : Text → Files → Files}
    (hfull : ∀ files, P files → Q (full files)) (hstay : ∀ files, P files → R files)
    (hpart : ∀ files left, P files → R (part left files)) :
    Meets (On P) (sysCall full part) (fun _ => On Q) (fun _ => On R) := by
  intro w hw
  obtain ⟨files, fates, draws⟩ := w
  have hleft : ∀ left : Option Text, R (left.elim files (part · files)) := by
    rintro (_ | left)
    · exact hstay files hw
    · exact hpart files left hw
  cases fates with
  | nil => exact hfull files hw
  | cons fate fates =>
    cases fate with
    | goes => exact hfull files hw
    | throws code left => exact hleft left
    | stops left => exact hleft left

theorem meets_idle : Meets (On P) idle (fun _ => On P) (fun _ => On P) :=
  meets_sysCall (fun _ h => h) (fun _ h => h) (fun _ _ h => h)

theorem meets_quiet {x : Program Unit} (h : Meets (On P) x (fun _ => On P) (fun _ => On P)) :
    Meets (On P) (quiet x) (fun _ => On P) (fun _ => On P) := by
  refine Meets.tryCatch h fun halt => ?_
  cases halt with
  | thrown code => exact Meets.pure fun _ hw => hw
  | stopped => exact Meets.throw fun _ hw => hw

theorem meets_orElse {x : Program β} {cleanup : Program Unit} {pre : World → Prop}
    {post : β → World → Prop} (hx : Meets pre x post fun _ => On R)
    (hcleanup : Meets (On R) cleanup (fun _ => On R) (fun _ => On R)) :
    Meets pre (orElse x cleanup) post fun _ => On R := by
  refine Meets.tryCatch hx fun halt => ?_
  cases halt with
  | thrown code => exact Meets.bind hcleanup fun _ => Meets.throw fun _ hw => hw
  | stopped => exact Meets.throw fun _ hw => hw

theorem meets_rmQuiet {temp : Text} (h : Ignores P temp) :
    Meets (On P) (rmQuiet temp) (fun _ => On P) (fun _ => On P) :=
  meets_quiet (meets_sysCall (fun files => h files none) (fun _ hf => hf)
    fun files _ => h files none)

theorem meets_openSync {temp : Text} (h : Ignores P temp) :
    Meets (On P) (openSync temp) (fun _ => On P) (fun _ => On P) := by
  refine Meets.bind Meets.get fun w => Meets.ite (fun _ => ?_) fun _ => ?_
  · exact Meets.throw fun _ hw => hw.2
  · exact (meets_sysCall (fun files => h files (some [])) (fun _ hf => hf)
      fun files _ => h files (some [])).weaken (fun _ hw => hw.2) (fun _ _ hw => hw) fun _ _ hw => hw

/-- A name that a draw gave, with what held before. -/
theorem meets_draw {err : Halt → World → Prop} :
    Meets (On P) draw (fun _ => On P) err := fun _ hw => hw

/-- An attempt to open a temporary file leaves the two files alone. -/
theorem meets_openTemporary (h : ∀ hex, Ignores P (temporaryFile target pid hex)) (left : Nat) :
    Meets (On P) (openTemporary target pid left)
      (fun temp w => On P w ∧ ∃ hex, temp = temporaryFile target pid hex) (fun _ => On P) := by
  induction left with
  | zero =>
    refine Meets.bind meets_draw fun hex => Meets.bind ?_ fun _ => Meets.pure fun w hw => ⟨hw, hex, rfl⟩
    exact meets_orElse (meets_openSync (h hex)) (meets_rmQuiet (h hex))
  | succ left ih =>
    refine Meets.bind meets_draw fun hex => ?_
    have hopen : Meets (On P) (do openSync (temporaryFile target pid hex); return _)
        (fun temp w => On P w ∧ ∃ hex, temp = temporaryFile target pid hex) (fun _ => On P) :=
      Meets.bind (meets_openSync (h hex)) fun _ => Meets.pure fun w hw => ⟨hw, hex, rfl⟩
    refine Meets.tryCatch hopen fun halt => ?_
    cases halt with
    | thrown code =>
      refine Meets.ite (fun _ => ih) fun _ => ?_
      exact Meets.bind (meets_rmQuiet (h hex)) fun _ => Meets.throw fun _ hw => hw
    | stopped => exact Meets.throw fun _ hw => hw

end

/-! ### Replacing a file -/

/-- The data goes to the temporary file, and from there to the file at once. -/
theorem meets_rename (h : Pair target other) {temp : Text} (htemp : temp ≠ target ∧ temp ≠ other)
    (data : Text) (a b : Option Text) :
    Meets (On (Two target other a b)) (do
      orElse (do
        writeFileSync temp data
        fsyncSync
        closeSync) (quiet closeSync)
      renameSync temp target)
      (fun _ => On (Two target other (some data) b)) (fun _ => On (Either target other a b data)) := by
  have hwritten : ∀ left : Text, ∀ files, Two target other a b files →
      Two target other a b (Function.update files temp (some left)) :=
    fun left files => ignores_two htemp files (some left)
  have hwrite : Meets (On (Two target other a b)) (writeFileSync temp data)
      (fun _ => On fun files => Two target other a b files ∧ files temp = some data)
      (fun _ => On (Two target other a b)) :=
    meets_sysCall (fun files hf => ⟨hwritten data files hf, Function.update_self temp _ files⟩)
      (fun _ hf => hf) fun files left hf => hwritten left files hf
  have hkeep : Meets (On fun files => Two target other a b files ∧ files temp = some data) idle
      (fun _ => On fun files => Two target other a b files ∧ files temp = some data)
      (fun _ => On (Two target other a b)) :=
    meets_idle.weaken (fun _ hw => hw) (fun _ _ hw => hw) fun _ _ hw => hw.1
  have hrenamed : ∀ files, Two target other a b files ∧ files temp = some data →
      Two target other (some data) b (rename temp target files) := by
    rintro files ⟨⟨-, hb⟩, hdata⟩
    rw [rename, Two, Function.update_of_ne htemp.1.symm, Function.update_of_ne htemp.2.symm,
      Function.update_self, Function.update_of_ne h.ne.symm]
    exact ⟨hdata, hb⟩
  have hfirst := meets_orElse (Meets.bind hwrite fun _ => Meets.bind hkeep fun _ => hkeep)
    (meets_quiet meets_idle)
  refine Meets.bind (hfirst.weaken (fun _ hw => hw) (fun _ _ hw => hw)
    fun _ _ hw => ⟨.inl hw.1, hw.2⟩) fun _ => ?_
  exact meets_sysCall hrenamed (fun _ hf => ⟨.inl hf.1.1, hf.1.2⟩)
    fun files _ hf => ⟨.inr (hrenamed files hf).1, (hrenamed files hf).2⟩

/-- A replacement that returns leaves the new data; one that does not leaves the old data or
the new. The other file keeps what it had. -/
theorem meets_replace (h : Pair target other) (pid data : Text) (a b : Option Text) :
    Meets (On (Two target other a b)) (replacePrivateFile target pid data)
      (fun _ => On (Two target other (some data) b)) (fun _ => On (Either target other a b data)) := by
  have hkeep : ∀ {P : Files → Prop} {x : Program Unit},
      (∀ files, P files → Either target other a b data files) →
      Meets (On P) x (fun _ => On P) (fun _ => On P) →
      Meets (On P) x (fun _ => On P) (fun _ => On (Either target other a b data)) :=
    fun hP hx => hx.weaken (fun _ hw => hw) (fun _ _ hw => hw) fun _ w hw => hP w.files hw
  have hold : ∀ files, Two target other a b files → Either target other a b data files :=
    fun files hf => ⟨.inl hf.1, hf.2⟩
  have hnew : ∀ files, Two target other (some data) b files → Either target other a b data files :=
    fun files hf => ⟨.inr hf.1, hf.2⟩
  refine Meets.bind (hkeep hold meets_idle) fun _ => ?_
  refine Meets.bind (hkeep hold (meets_quiet meets_idle)) fun _ => ?_
  refine Meets.bind ((meets_openTemporary (fun hex => ignores_two (h.temporary pid hex)) 9).weaken
    (fun _ hw => hw) (fun _ _ hw => hw) fun _ w hw => hold w.files hw) fun temp => ?_
  rintro w ⟨hw, hex, rfl⟩
  have hrename := meets_orElse (meets_rename h (h.temporary pid hex) data a b)
    (meets_rmQuiet (ignores_either (h.temporary pid hex)))
  have hclose : Meets (On (Two target other (some data) b)) fsyncDirectoryQuiet
      (fun _ => On (Two target other (some data) b)) (fun _ => On (Two target other (some data) b)) :=
    meets_quiet (Meets.bind meets_idle fun _ =>
      Meets.bind (meets_orElse meets_idle (meets_quiet meets_idle)) fun _ => meets_quiet meets_idle)
  exact Meets.bind hrename (fun _ => Meets.bind (hkeep hnew (meets_quiet meets_idle))
    fun _ => hkeep hnew hclose) w hw

/-- A write that returns leaves the new data in the file; one that does not leaves the old data
or the new. -/
theorem meets_write (file pid data : Text) (a : Option Text) :
    Meets (On fun files => files file = a) (writeAtomicPrivateFile file pid data true)
      (fun _ => On fun files => files file = some data)
      (fun _ => On fun files => files file = a ∨ files file = some data) := by
  intro w hw
  have hbackup := meets_replace (pair_backup file) pid data (w.files (backupFile file)) a
  have hfile := meets_replace (pair_file file) pid data a (some data)
  refine Meets.bind (hbackup.weaken (fun _ hw => hw) (fun _ _ hw => hw) fun _ _ hw => .inl hw.2)
    (fun _ => ?_) w ⟨rfl, hw⟩
  exact hfile.weaken (fun _ hw => ⟨hw.2, hw.1⟩) (fun _ _ hw => hw.1) fun _ _ hw => hw.1

/-! ### Runs -/

/-- A call on the file, which may be interrupted. -/
inductive Call (ν : Type) where
  | write (value : ν) (env : Env)
  | read (label : Text) (env : Env)

def Env.world (env : Env) (files : Files) : World := ⟨files, env.fates, env.draws⟩

variable {stringify : ν → Option Text} {parse : Text → Except Text α}

def writeIn (stringify : ν → Option Text) (file : Text) (files : Files) (value : ν) (env : Env) :
    EStateM.Result Halt World Unit :=
  writeAtomicPrivateJson stringify file env.pid value (env.world files)

def readIn (parse : Text → Except Text α) (file : Text) (files : Files) (label : Text) (env : Env) :
    EStateM.Result Halt World (PrivateJsonRead α) :=
  readPrivateJson parse file env.pid label (env.world files)

/-- The files after a call, however it ends. -/
def perform (stringify : ν → Option Text) (parse : Text → Except Text α) (file : Text)
    (files : Files) : Call ν → Files
  | .write value env => (final (writeIn stringify file files value env)).files
  | .read label env => (final (readIn parse file files label env)).files

def filesAfter (stringify : ν → Option Text) (parse : Text → Except Text α) (file : Text)
    (files : Files) (calls : List (Call ν)) : Files :=
  calls.foldl (perform stringify parse file) files

/-- What is read of a text that a write puts into the file. -/
def WrittenBy (stringify : ν → Option Text) (parse : Text → Except Text α) (calls : List (Call ν))
    (w : α) : Prop :=
  ∃ value env text, .write value env ∈ calls ∧ stringify value = some text ∧ parse text = .ok w

/-- The parser accepts every value that is written. -/
def Accepted (stringify : ν → Option Text) (parse : Text → Except Text α) (calls : List (Call ν)) :
    Prop :=
  ∀ value env, .write value env ∈ calls → ∀ text, stringify value = some text →
    ∃ w, parse text = .ok w

/-- The file holds a text whose value has the property. -/
def Holds (parse : Text → Except Text α) (file : Text) (P : α → Prop) (files : Files) : Prop :=
  ∃ text w, files file = some text ∧ parse text = .ok w ∧ P w

theorem readCandidate_holds {P : α → Prop} {files : Files} (h : Holds parse file P files) :
    ∃ w text, readCandidate parse files file = .value w text ∧ P w := by
  obtain ⟨text, w, hfile, hparse, hw⟩ := h
  exact ⟨w, text, by rw [readCandidate, hfile]; dsimp only; rw [hparse], hw⟩

/-- A file that holds a value is read without any call of the system. -/
theorem read_holds {P : α → Prop} {files : Files} (h : Holds parse file P files) (label : Text)
    (env : Env) : ∃ w, P w ∧
      readIn parse file files label env = .ok (.value w false) (env.world files) := by
  obtain ⟨w, text, hcandidate, hw⟩ := readCandidate_holds h
  have hget : (get : Program World) (env.world files) = .ok (env.world files) (env.world files) := rfl
  refine ⟨w, hw, ?_⟩
  rw [readIn, readPrivateJson, bind_of_ok hget]
  simp only [Env.world, hcandidate]
  rfl

/-- A read that returned the value of the backup and whose recovery write completed. -/
structure Recovered (parse : Text → Except Text α) (file : Text) (files : Files) (label : Text)
    (env : Env) (w : α) : Prop where
  returned : ∃ t, readIn parse file files label env = .ok (.value w true) t
  completed : ∀ text, files (backupFile file) = some text →
    ∃ t, replacePrivateFile file env.pid text (env.world files) = .ok () t

theorem readCandidate_value {files : Files} {name text : Text} {w : α}
    (h : readCandidate parse files name = .value w text) :
    files name = some text ∧ parse text = .ok w := by
  rw [readCandidate] at h
  cases hfile : files name with
  | none => rw [hfile] at h; cases h
  | some content =>
    rw [hfile] at h
    dsimp only at h
    cases hparse : parse content with
    | error message => rw [hparse] at h; cases h
    | ok value =>
      rw [hparse] at h
      cases h
      exact ⟨rfl, hparse⟩

/-- After a recovery that completed, the file holds the value that was read. -/
theorem holds_recovered {files : Files} {label : Text} {env : Env} {w : α}
    (h : Recovered parse file files label env w) :
    ∃ text t, readIn parse file files label env = .ok (.value w true) t ∧
      t.files file = some text ∧ parse text = .ok w := by
  obtain ⟨t, hreturned⟩ := h.returned
  have hget : (get : Program World) (env.world files) = .ok (env.world files) (env.world files) := rfl
  have hread := hreturned
  rw [readIn, readPrivateJson, bind_of_ok hget] at hread
  have hrecover : recover parse file env.pid label (readCandidate parse files file)
      (env.world files) = .ok (.value w true) t := by
    cases hprimary : readCandidate parse files file with
    | value value text =>
      simp only [Env.world, hprimary] at hread
      cases hread
    | missing => simpa only [Env.world, hprimary] using hread
    | invalid problem => simpa only [Env.world, hprimary] using hread
  rw [recover, bind_of_ok hget] at hrecover
  cases hbackup : readCandidate parse files (backupFile file) with
  | value value text =>
    obtain ⟨htext, hparse⟩ := readCandidate_value hbackup
    obtain ⟨u, hu⟩ := h.completed text htext
    have hquiet : quiet (replacePrivateFile file env.pid text) (env.world files) = .ok () u :=
      tryCatch_of_ok hu _
    simp only [Env.world, hbackup] at hrecover
    obtain ⟨⟨⟩, t', ht', hpure⟩ := bind_ok.mp hrecover
    obtain rfl : u = t' := by
      have hsame := hquiet.symm.trans ht'
      cases hsame
      rfl
    cases hpure
    have hpost := meets_replace (pair_file file) env.pid text (files file) (files (backupFile file))
      (env.world files) ⟨rfl, rfl⟩
    rw [hu] at hpost
    exact ⟨text, t, hreturned, hpost.1, hparse⟩
  | missing =>
    simp only [Env.world, hbackup] at hrecover
    cases hprimary : readCandidate parse files file <;> rw [hprimary] at hrecover <;> cases hrecover
  | invalid problem =>
    simp only [Env.world, hbackup] at hrecover
    cases hprimary : readCandidate parse files file <;> rw [hprimary] at hrecover <;> cases hrecover

/-- After a write that completed, the file holds what is read of it. -/
theorem holds_written {files : Files} {value : ν} {env : Env} {u : Unit} {t : World}
    (hdone : writeIn stringify file files value env = .ok u t)
    (haccept : Accepted stringify parse [.write value env]) :
    Holds parse file (WrittenBy stringify parse [.write value env]) t.files := by
  rw [writeIn, writeAtomicPrivateJson] at hdone
  cases htext : stringify value with
  | none =>
    rw [htext] at hdone
    cases hdone
  | some text =>
    rw [htext] at hdone
    dsimp only at hdone
    obtain ⟨w, hparse⟩ := haccept value env List.mem_cons_self text htext
    have hmeets := meets_write file env.pid text (files file) (env.world files) rfl
    rw [hdone] at hmeets
    exact ⟨text, w, hmeets, hparse, value, env, text, List.mem_cons_self, htext, hparse⟩

/-- Whatever interrupts it, a call leaves in the file a value it had or one that the call
writes. -/
theorem holds_perform {P Q : α → Prop} {files : Files} {call : Call ν}
    (hP : Holds parse file P files) (hkeep : ∀ w, P w → Q w)
    (haccept : Accepted stringify parse [call])
    (hwrites : ∀ w, WrittenBy stringify parse [call] w → Q w) :
    Holds parse file Q (perform stringify parse file files call) := by
  have hold : Holds parse file Q files := by
    obtain ⟨text, w, hfile, hparse, hw⟩ := hP
    exact ⟨text, w, hfile, hparse, hkeep w hw⟩
  cases call with
  | read label env =>
    obtain ⟨w, -, hread⟩ := read_holds hP label env
    rw [perform, hread]
    exact hold
  | write value env =>
    rw [perform, writeIn, writeAtomicPrivateJson]
    cases htext : stringify value with
    | none => exact hold
    | some text =>
      obtain ⟨w, hparse⟩ := haccept value env List.mem_cons_self text htext
      have hnew : ∀ files : Files, files file = some text → Holds parse file Q files :=
        fun files hfile => ⟨text, w, hfile, hparse,
          hwrites w ⟨value, env, text, List.mem_cons_self, htext, hparse⟩⟩
      have hsame : ∀ next : Files, next file = files file → Holds parse file Q next := by
        intro next hnext
        obtain ⟨text, w, hfile, hparse, hw⟩ := hold
        exact ⟨text, w, hnext.trans hfile, hparse, hw⟩
      have hmeets := meets_write file env.pid text (files file) (env.world files) rfl
      dsimp only
      cases hrun : writeAtomicPrivateFile file env.pid text true (env.world files) with
      | ok u t =>
        rw [hrun] at hmeets
        exact hnew t.files hmeets
      | error halt t =>
        rw [hrun] at hmeets
        obtain hmeets | hmeets := hmeets
        · exact hsame t.files hmeets
        · exact hnew t.files hmeets

/-- After any calls the file holds a value it had or one that the calls wrote. -/
theorem holds_run {P : α → Prop} {files : Files} {calls : List (Call ν)}
    (hP : Holds parse file P files) (haccept : Accepted stringify parse calls) :
    Holds parse file (fun w => P w ∨ WrittenBy stringify parse calls w)
      (filesAfter stringify parse file files calls) := by
  induction calls generalizing P files with
  | nil =>
    obtain ⟨text, w, hfile, hparse, hw⟩ := hP
    exact ⟨text, w, hfile, hparse, .inl hw⟩
  | cons call calls ih =>
    have hfirst := holds_perform (Q := fun w => P w ∨ WrittenBy stringify parse [call] w) hP
      (fun _ => .inl)
      (fun value env hmem => haccept value env (by simp [List.mem_singleton.mp hmem]))
      fun _ => .inr
    obtain ⟨text, w, hfile, hparse, hw⟩ := ih hfirst fun value env hmem =>
      haccept value env (List.mem_cons_of_mem call hmem)
    refine ⟨text, w, hfile, hparse, ?_⟩
    obtain (hw | ⟨value, env, content, hmem, hrest⟩) | ⟨value, env, content, hmem, hrest⟩ := hw
    · exact .inl hw
    · exact .inr ⟨value, env, content, by simp [List.mem_singleton.mp hmem], hrest⟩
    · exact .inr ⟨value, env, content, List.mem_cons_of_mem call hmem, hrest⟩

/-- A read returns a value with the property. -/
def Reads (parse : Text → Except Text α) (file : Text) (files : Files) (P : α → Prop) : Prop :=
  ∀ label env, ∃ w recovered t, readIn parse file files label env = .ok (.value w recovered) t ∧ P w

theorem Holds.reads {P : α → Prop} {files : Files} (h : Holds parse file P files) :
    Reads parse file files P := by
  intro label env
  obtain ⟨w, hw, hread⟩ := read_holds h label env
  exact ⟨w, false, _, hread, hw⟩

/-- From a completed write on, reads return its value or that of a write after it; from a
completed recovery on, reads return the recovered value or that of a write after it. -/
theorem private_json_survives (files : Files) (calls : List (Call ν))
    (haccept : Accepted stringify parse calls) :
    (∀ before value env later u t, calls = before ++ .write value env :: later →
      writeIn stringify file (filesAfter stringify parse file files before) value env = .ok u t →
      Reads parse file (filesAfter stringify parse file files calls)
        (WrittenBy stringify parse (.write value env :: later))) ∧
    (∀ before label env later w, calls = before ++ .read label env :: later →
      Recovered parse file (filesAfter stringify parse file files before) label env w →
      Reads parse file (filesAfter stringify parse file files calls)
        fun v => v = w ∨ WrittenBy stringify parse later v) := by
  have haccepts : ∀ {before later : List (Call ν)} {call}, calls = before ++ call :: later →
      Accepted stringify parse later := fun heq value env hmem =>
    haccept value env (by simp [heq, hmem])
  have hafter : ∀ {before later : List (Call ν)} {call}, calls = before ++ call :: later →
      filesAfter stringify parse file files calls = filesAfter stringify parse file
        (perform stringify parse file (filesAfter stringify parse file files before) call) later := by
    intro before later call heq
    rw [heq, filesAfter, List.foldl_append]
    rfl
  constructor
  · intro before value env later u t heq hdone
    have hwritten : Holds parse file (WrittenBy stringify parse [.write value env])
        (perform stringify parse file (filesAfter stringify parse file files before)
          (.write value env)) := by
      rw [perform, hdone]
      refine holds_written hdone fun value' env' hmem => haccept value' env' ?_
      rw [heq, List.mem_singleton.mp hmem]
      simp
    obtain ⟨text, w, hfile, hparse, hw⟩ := holds_run hwritten (haccepts heq)
    rw [hafter heq]
    refine Holds.reads ⟨text, w, hfile, hparse, ?_⟩
    obtain ⟨value', env', content, hmem, hrest⟩ | ⟨value', env', content, hmem, hrest⟩ := hw
    · exact ⟨value', env', content, by simp [List.mem_singleton.mp hmem], hrest⟩
    · exact ⟨value', env', content, List.mem_cons_of_mem _ hmem, hrest⟩
  · intro before label env later w heq hrecovered
    obtain ⟨text, t, hread, hfile, hparse⟩ := holds_recovered hrecovered
    have hholds : Holds parse file (· = w)
        (perform stringify parse file (filesAfter stringify parse file files before)
          (.read label env : Call ν)) := by
      rw [perform, hread]
      exact ⟨text, w, hfile, hparse, rfl⟩
    rw [hafter heq]
    exact (holds_run hholds (haccepts heq)).reads

/-- The JSON text of a flag, and what a parser of flags reads. -/
def flagText (flag : Bool) : Option Text := some (if flag then js "true" else js "false")

def readFlag (text : Text) : Except Text Bool :=
  if text = js "true" then .ok true
  else if text = js "false" then .ok false else .error (js "no flag")

/-- A write, and one whose process stops on the way: at the rename of the backup. -/
def twoWrites : List (Call Bool) :=
  [.write true ⟨js "7", [], []⟩,
    .write false ⟨js "8", [], [.goes, .goes, .goes, .goes, .goes, .goes, .stops (some [])]⟩]

theorem private_json_survives_two :
    Reads readFlag (js "flag.json")
      (filesAfter flagText readFlag (js "flag.json") (fun _ => none) twoWrites)
      (WrittenBy flagText readFlag twoWrites) := by
  have haccept : Accepted flagText readFlag twoWrites := by
    rintro (_ | _) env - text htext
    · exact ⟨false, by cases htext; decide⟩
    · exact ⟨true, by cases htext; decide⟩
  have hreturns : threw (writeIn flagText (js "flag.json") (fun _ => none) true ⟨js "7", [], []⟩) =
      false := by decide +kernel
  cases hwrite : writeIn flagText (js "flag.json") (fun _ => none) true ⟨js "7", [], []⟩ with
  | ok u t =>
    exact (private_json_survives (fun _ => none) twoWrites haccept).1 [] true _ _ u t rfl hwrite
  | error halt t =>
    rw [hwrite] at hreturns
    cases hreturns

end BoredManager.Server.PrivateFile
