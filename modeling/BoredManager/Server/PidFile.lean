import BoredManager.Js.Digits
import BoredManager.Machine.Runs

/-! The PID file, and the processes that want to own it: every file operation of `acquirePidFile`
and of a lease's `release` is one step. -/
namespace BoredManager.Server.Pid
open BoredManager.Js BoredManager.Machine

def MAX_SAFE_INTEGER : Nat := 2 ^ 53 - 1

/-- `/^\d+$/.test(raw) ? Number(raw) : NaN` of a trimmed content, when it is a safe integer above 0. -/
def ownerOf (raw : Text) : Option Nat :=
  let raw := trim raw
  if raw ≠ [] ∧ raw.all isDigit then
    match (Number.ofText raw).integer? with
    | some owner => if 0 < owner ∧ owner ≤ MAX_SAFE_INTEGER then some owner.toNat else none
    | none => none
  else none

inductive Refusal where
  | invalidProcessId
  | alreadyRunning (owner : Nat)
  | notAcquired
deriving DecidableEq, Repr

/-- Where a process stands; the file it created, if it has one, is an inode. -/
inductive Phase where
  | idle
  /-- At `writeFileSync` with the flag `wx`. -/
  | creating (attempt : Nat)
  /-- The file is created, its contents are not written. -/
  | writing (inode : Nat)
  | reading (attempt : Nat)
  /-- The file was read. -/
  | checking (attempt : Nat) (raw : Text)
  | unlinking (attempt : Nat)
  | holding (inode : Nat)
  /-- `release` was called. -/
  | releasing (inode : Nat)
  /-- `release` has found its own pid in the file. -/
  | removing (inode : Nat)
  | released
  | refused (why : Refusal)
  | crashed
deriving DecidableEq, Repr

namespace Phase

/-- The process exists. -/
def live : Phase → Bool
  | idle | crashed => false
  | _ => true

/-- The file that the process created and has not given up. -/
def inode? : Phase → Option Nat
  | writing inode | holding inode | releasing inode | removing inode => some inode
  | _ => none

/-- The process may begin an acquisition: a new process, or one that has no lease. -/
def free : Phase → Bool
  | idle | released | refused _ | crashed => true
  | _ => false

/-- The next turn of the loop. -/
def again (attempt : Nat) : Phase :=
  if attempt + 1 < 4 then creating (attempt + 1) else refused .notAcquired

end Phase

/-- The processes by their pid, and the file: what the path names, and what was ever created. -/
structure World where
  phase : Nat → Phase
  file : Option Nat
  contents : Nat → Text
  inodes : Nat

namespace World

/-- No process has begun, and the path holds anything or nothing. -/
def start (initial : Option Text) : World :=
  ⟨fun _ => .idle, initial.map fun _ => 0, fun _ => initial.getD [], 1⟩

variable (w : World)

def set (pid : Nat) (phase : Phase) : World :=
  { w with phase := fun p => if p = pid then phase else w.phase p }

/-- `acquirePidFile` is called. -/
def acquire (pid : Nat) : World :=
  if (w.phase pid).free then
    w.set pid (if 0 < pid ∧ pid ≤ MAX_SAFE_INTEGER then .creating 0 else .refused .invalidProcessId)
  else w

/-- The next step of a process; `alive` is what `kill(owner, 0)` says of an owner that is none of
these processes. -/
def next (pid : Nat) (alive : Bool) : World :=
  match w.phase pid with
  | .creating attempt =>
    match w.file with
    | some _ => w.set pid (.reading attempt)
    | none => { w with
        file := some w.inodes
        contents := fun i => if i = w.inodes then [] else w.contents i
        inodes := w.inodes + 1 }.set pid (.writing w.inodes)
  | .writing inode =>
    { w with contents := fun i => if i = inode then decimal pid else w.contents i }.set pid
      (.holding inode)
  | .reading attempt =>
    match w.file with
    | some inode => w.set pid (.checking attempt (w.contents inode))
    | none => w.set pid (.again attempt)
  | .checking attempt raw =>
    match ownerOf raw with
    | some owner =>
      if (w.phase owner).live || alive then w.set pid (.refused (.alreadyRunning owner))
      else w.set pid (.unlinking attempt)
    | none => w.set pid (.unlinking attempt)
  | .unlinking attempt => { w with file := none }.set pid (.again attempt)
  | .releasing inode =>
    match w.file with
    | some found => w.set pid (if trim (w.contents found) = decimal pid then .removing inode else .released)
    | none => w.set pid .released
  | .removing _ => { w with file := none }.set pid .released
  | _ => w

def release (pid : Nat) : World :=
  match w.phase pid with
  | .holding inode => w.set pid (.releasing inode)
  | _ => w

def crash (pid : Nat) : World := w.set pid .crashed

end World

inductive PidEvent where
  | acquire (pid : Nat)
  | next (pid : Nat) (alive : Bool)
  | release (pid : Nat)
  | crash (pid : Nat)
deriving DecidableEq, Repr

/-- The process that takes the step. -/
def PidEvent.pid : PidEvent → Nat
  | .acquire pid | .next pid _ | .release pid | .crash pid => pid

def World.step (w : World) : PidEvent → World
  | .acquire pid => w.acquire pid
  | .next pid alive => w.next pid alive
  | .release pid => w.release pid
  | .crash pid => w.crash pid

end BoredManager.Server.Pid

/-! One lease per file, in the runs in which no reclaim unlinks the file of a living process; and
in every run an acquisition ends after at most four attempts. -/
namespace BoredManager.Server.Pid
open BoredManager.Js BoredManager.Js.Number BoredManager.Machine

variable {w : World} {pid : Nat} {phase : Phase}

/-- The process owns the file, as far as it knows. -/
def Phase.holds : Phase → Bool
  | holding _ | releasing _ | removing _ => true
  | _ => false

/-- The process is in the loop of `acquirePidFile`. -/
def Phase.acquiring : Phase → Bool
  | creating _ | writing _ | reading _ | checking _ _ | unlinking _ => true
  | _ => false

/-- The turn of the loop. -/
def Phase.attempt? : Phase → Option Nat
  | creating attempt | reading attempt | checking attempt _ | unlinking attempt => some attempt
  | _ => none

/-- The unlink of a reclaim finds no file at the path that a process has created, and writes
or holds. -/
def Allowed (w : World) : PidEvent → Prop
  | .next pid _ => (∃ attempt, w.phase pid = .unlinking attempt) →
      ∀ i, w.file = some i → ∀ q, (w.phase q).inode? ≠ some i
  | _ => True

/-- What the owners of a file may rely on. -/
structure Exclusive (w : World) : Prop where
  single : ∀ p q, (w.phase p).holds → (w.phase q).holds → p = q
  own : ∀ p, (w.phase p).holds → ∃ i, w.file = some i ∧ trim (w.contents i) = decimal p

/-- The files that processes have created and not given up: at most one, and it is at the path. -/
structure Sole (w : World) : Prop where
  current : ∀ p i, (w.phase p).inode? = some i → w.file = some i
  single : ∀ p q i j, (w.phase p).inode? = some i → (w.phase q).inode? = some j → p = q
  written : ∀ p i, (w.phase p).inode? = some i → w.phase p ≠ .writing i → w.contents i = decimal p

theorem sole_start (initial : Option Text) : Sole (World.start initial) := by
  constructor <;> simp [World.start, Phase.inode?]

@[simp] theorem World.set_same : (w.set pid phase).phase pid = phase := if_pos rfl

theorem World.set_other {q : Nat} (h : q ≠ pid) : (w.set pid phase).phase q = w.phase q := if_neg h

theorem trim_decimal (n : Nat) : trim (decimal n) = decimal n :=
  trim_eq_self fun u hu => not_isSpace_of_isDigit (isDigit_decimal n u hu)

theorem exists_inode_of_holds (h : phase.holds) :
    ∃ i, phase.inode? = some i ∧ phase ≠ .writing i := by
  cases phase <;> simp_all [Phase.holds, Phase.inode?]

theorem exclusive_of_sole (h : Sole w) : Exclusive w := by
  constructor
  · intro p q hp hq
    obtain ⟨i, hi, -⟩ := exists_inode_of_holds hp
    obtain ⟨j, hj, -⟩ := exists_inode_of_holds hq
    exact h.single p q i j hi hj
  · intro p hp
    obtain ⟨i, hi, hwriting⟩ := exists_inode_of_holds hp
    refine ⟨i, h.current p i hi, ?_⟩
    rw [h.written p i hi hwriting, trim_decimal]

/-- A process that has no file, or keeps the one it has written. -/
theorem sole_set (h : Sole w) (hphase : ∀ i, phase.inode? = some i →
    (w.phase pid).inode? = some i ∧ w.phase pid ≠ .writing i) : Sole (w.set pid phase) := by
  have hold : ∀ p i, ((w.set pid phase).phase p).inode? = some i → (w.phase p).inode? = some i := by
    intro p i hi
    by_cases hp : p = pid
    · subst hp
      rw [World.set_same] at hi
      exact (hphase i hi).1
    · rwa [World.set_other hp] at hi
  constructor
  · exact fun p i hi => h.current p i (hold p i hi)
  · exact fun p q i j hi hj => h.single p q i j (hold p i hi) (hold q j hj)
  · intro p i hi hwriting
    refine h.written p i (hold p i hi) ?_
    by_cases hp : p = pid
    · subst hp
      rw [World.set_same] at hi
      exact (hphase i hi).2
    · rwa [World.set_other hp] at hwriting

theorem sole_drop (h : Sole w) (hphase : phase.inode? = none) : Sole (w.set pid phase) := by
  apply sole_set h
  simp [hphase]

/-- Nobody has a file where the path is free. -/
theorem no_inode (h : Sole w) (hfile : w.file = none) (p : Nat) : (w.phase p).inode? = none := by
  cases hp : (w.phase p).inode? with
  | none => rfl
  | some i => cases hfile.symm.trans (h.current p i hp)

/-- Where nobody has a file, what the path and the files hold does not matter. -/
theorem sole_of_none {v : World} (h : ∀ p, (v.phase p).inode? = none) : Sole v := by
  constructor <;> simp [h]

theorem inode?_again (attempt : Nat) : (Phase.again attempt).inode? = none := by
  rw [Phase.again]
  split_ifs <;> rfl

theorem sole_acquire (h : Sole w) : Sole (w.acquire pid) := by
  rw [World.acquire]
  split_ifs
  · exact sole_drop h rfl
  · exact sole_drop h rfl
  · exact h

theorem sole_next {alive : Bool} (h : Sole w) (hok : Allowed w (.next pid alive)) :
    Sole (w.next pid alive) := by
  cases hphase : w.phase pid with
  | creating attempt =>
    cases hfile : w.file with
    | some i =>
      simp only [World.next, hphase, hfile]
      exact sole_drop h rfl
    | none =>
      have hnone := no_inode h hfile
      simp only [World.next, hphase, hfile]
      have honly : ∀ p i, (((w.set pid (.writing w.inodes)).phase p).inode? = some i →
          p = pid ∧ i = w.inodes) := by
        intro p i hi
        by_cases hp : p = pid
        · subst hp
          rw [World.set_same] at hi
          exact ⟨rfl, (Option.some.inj hi).symm⟩
        · rw [World.set_other hp, hnone p] at hi
          cases hi
      constructor
      · exact fun p i hi => congrArg some (honly p i hi).2.symm
      · exact fun p q i j hi hj => (honly p i hi).1.trans (honly q j hj).1.symm
      · intro p i hi hwriting
        obtain ⟨rfl, rfl⟩ := honly p i hi
        exact absurd World.set_same hwriting
  | writing inode =>
    have hpid : (w.phase pid).inode? = some inode := by simp [hphase, Phase.inode?]
    simp only [World.next, hphase]
    have hold : ∀ p i, ((w.set pid (.holding inode)).phase p).inode? = some i →
        p = pid ∧ i = inode := by
      intro p i hi
      by_cases hp : p = pid
      · subst hp
        rw [World.set_same] at hi
        exact ⟨rfl, (Option.some.inj hi).symm⟩
      · rw [World.set_other hp] at hi
        exact absurd (h.single p pid i inode hi hpid) hp
    constructor
    · intro p i hi
      rw [(hold p i hi).2]
      exact h.current pid inode hpid
    · exact fun p q i j hi hj => (hold p i hi).1.trans (hold q j hj).1.symm
    · intro p i hi _
      obtain ⟨rfl, rfl⟩ := hold p i hi
      exact if_pos rfl
  | reading attempt =>
    cases hfile : w.file with
    | some i =>
      simp only [World.next, hphase, hfile]
      exact sole_drop h rfl
    | none =>
      simp only [World.next, hphase, hfile]
      exact sole_drop h (inode?_again attempt)
  | checking attempt raw =>
    simp only [World.next, hphase]
    split
    · split_ifs
      · exact sole_drop h rfl
      · exact sole_drop h rfl
    · exact sole_drop h rfl
  | unlinking attempt =>
    have hnone : ∀ p, (w.phase p).inode? = none := by
      intro p
      cases hp : (w.phase p).inode? with
      | none => rfl
      | some i => exact absurd hp (hok ⟨attempt, hphase⟩ i (h.current p i hp) p)
    simp only [World.next, hphase]
    apply sole_of_none
    intro p
    by_cases hp : p = pid
    · subst hp
      rw [World.set_same]
      exact inode?_again attempt
    · rw [World.set_other hp]
      exact hnone p
  | releasing inode =>
    cases hfile : w.file with
    | some found =>
      simp only [World.next, hphase, hfile]
      split_ifs
      · apply sole_set h
        simp [hphase, Phase.inode?]
      · exact sole_drop h rfl
    | none =>
      simp only [World.next, hphase, hfile]
      exact sole_drop h rfl
  | removing inode =>
    have hpid : (w.phase pid).inode? = some inode := by simp [hphase, Phase.inode?]
    simp only [World.next, hphase]
    apply sole_of_none
    intro p
    by_cases hp : p = pid
    · subst hp
      rw [World.set_same]
      rfl
    · rw [World.set_other hp]
      cases hi : (w.phase p).inode? with
      | none => rfl
      | some i => exact absurd (h.single p pid i inode hi hpid) hp
  | idle | holding _ | released | refused _ | crashed =>
    simpa only [World.next, hphase] using h

theorem sole_step {event : PidEvent} (h : Sole w) (hok : Allowed w event) : Sole (w.step event) := by
  cases event with
  | acquire pid => exact sole_acquire h
  | next pid alive => exact sole_next h hok
  | release pid =>
    change Sole (w.release pid)
    rw [World.release]
    split
    · rename_i inode hphase
      apply sole_set h
      simp [hphase, Phase.inode?]
    · exact h
  | crash pid => exact sole_drop h rfl

/-! How long an acquisition takes. -/

/-- The steps that are left to a process in the loop. -/
def Phase.left : Phase → Nat
  | creating attempt => 4 * (4 - attempt)
  | reading attempt => 4 * (4 - attempt) - 1
  | checking attempt _ => 4 * (4 - attempt) - 2
  | unlinking attempt => 4 * (4 - attempt) - 3
  | writing _ => 1
  | _ => 0

/-- At most four turns. -/
def Phase.InTime (phase : Phase) : Prop := ∀ attempt, phase.attempt? = some attempt → attempt < 4

theorem again_inTime (attempt : Nat) : (Phase.again attempt).InTime := by
  intro k hk
  rw [Phase.again] at hk
  split_ifs at hk with hlt
  · cases hk
    exact hlt
  · cases hk

theorem left_again (attempt : Nat) : (Phase.again attempt).left ≤ 4 * (4 - attempt) - 4 := by
  rw [Phase.again]
  split_ifs
  · simp only [Phase.left]
    omega
  · exact Nat.zero_le _

theorem next_other {alive : Bool} {q : Nat} (h : q ≠ pid) :
    (w.next pid alive).phase q = w.phase q := by
  rw [World.next]
  split
  all_goals try split
  all_goals try split_ifs
  all_goals first | rfl | exact World.set_other h

/-- A step of a process in the loop brings it nearer to the end. -/
theorem left_next {alive : Bool} (hloop : (w.phase pid).acquiring) (htime : (w.phase pid).InTime) :
    ((w.next pid alive).phase pid).InTime ∧
      ((w.next pid alive).phase pid).left + 1 ≤ (w.phase pid).left := by
  cases hphase : w.phase pid with
  | creating attempt =>
    have hlt : attempt < 4 := htime attempt (by rw [hphase]; rfl)
    cases hfile : w.file with
    | some _ =>
      simp only [World.next, hphase, hfile, World.set_same, Phase.left]
      exact ⟨fun k hk => by cases hk; exact hlt, by omega⟩
    | none =>
      simp only [World.next, hphase, hfile, World.set_same, Phase.left]
      exact ⟨fun k hk => (by cases hk), by omega⟩
  | writing inode =>
    simp only [World.next, hphase, World.set_same, Phase.left]
    exact ⟨fun k hk => (by cases hk), by omega⟩
  | reading attempt =>
    have hlt : attempt < 4 := htime attempt (by rw [hphase]; rfl)
    cases hfile : w.file with
    | some _ =>
      simp only [World.next, hphase, hfile, World.set_same, Phase.left]
      exact ⟨fun k hk => by cases hk; exact hlt, by omega⟩
    | none =>
      have hleft := left_again attempt
      have hreading : (Phase.reading attempt).left = 4 * (4 - attempt) - 1 := rfl
      simp only [World.next, hphase, hfile, World.set_same]
      exact ⟨again_inTime attempt, by omega⟩
  | checking attempt raw =>
    have hlt : attempt < 4 := htime attempt (by rw [hphase]; rfl)
    have hgone : (Phase.unlinking attempt).InTime := fun k hk => by
      cases hk
      exact hlt
    simp only [World.next, hphase]
    split
    · split_ifs
      · rw [World.set_same]
        exact ⟨fun k hk => (by cases hk), by simp only [Phase.left]; omega⟩
      · rw [World.set_same]
        exact ⟨hgone, by simp only [Phase.left]; omega⟩
    · rw [World.set_same]
      exact ⟨hgone, by simp only [Phase.left]; omega⟩
  | unlinking attempt =>
    have hlt : attempt < 4 := htime attempt (by rw [hphase]; rfl)
    have hleft := left_again attempt
    have hunlinking : (Phase.unlinking attempt).left = 4 * (4 - attempt) - 3 := rfl
    simp only [World.next, hphase, World.set_same]
    exact ⟨again_inTime attempt, by omega⟩
  | idle | holding _ | releasing _ | removing _ | released | refused _ | crashed =>
    rw [hphase] at hloop
    cases hloop

theorem step_other {event : PidEvent} {q : Nat} (h : q ≠ event.pid) :
    (w.step event).phase q = w.phase q := by
  cases event with
  | acquire p =>
    change (w.acquire p).phase q = w.phase q
    rw [World.acquire]
    split_ifs
    · exact World.set_other h
    · exact World.set_other h
    · rfl
  | next p alive => exact next_other h
  | release p =>
    change (w.release p).phase q = w.phase q
    rw [World.release]
    split
    · exact World.set_other h
    · rfl
  | crash p => exact World.set_other h

def PidEvent.isStepOf (pid : Nat) : PidEvent → Bool
  | .next p _ => p = pid
  | _ => false

/-- While a process is in the loop, its own steps are the only ones that move it. -/
theorem left_step {event : PidEvent} (hloop : (w.phase pid).acquiring)
    (htime : (w.phase pid).InTime) (hstill : ((w.step event).phase pid).acquiring) :
    ((w.step event).phase pid).InTime ∧
      ((w.step event).phase pid).left + (if event.isStepOf pid then 1 else 0) ≤
        (w.phase pid).left := by
  have hsame : (w.step event).phase pid = w.phase pid → event.isStepOf pid = false →
      ((w.step event).phase pid).InTime ∧
        ((w.step event).phase pid).left + (if event.isStepOf pid then 1 else 0) ≤
          (w.phase pid).left := by
    intro heq hnot
    rw [heq, hnot]
    exact ⟨htime, le_rfl⟩
  by_cases hpid : pid = event.pid
  · cases event with
    | acquire p =>
      obtain rfl : pid = p := hpid
      apply hsame _ rfl
      have hbusy : ¬(w.phase pid).free := by
        cases hphase : w.phase pid <;> simp_all [Phase.free, Phase.acquiring]
      change (w.acquire pid).phase pid = w.phase pid
      rw [World.acquire, if_neg hbusy]
    | next p alive =>
      obtain rfl : pid = p := hpid
      rw [show (PidEvent.next pid alive).isStepOf pid = true by simp [PidEvent.isStepOf], if_pos rfl]
      exact left_next hloop htime
    | release p =>
      obtain rfl : pid = p := hpid
      apply hsame _ rfl
      change (w.release pid).phase pid = w.phase pid
      rw [World.release]
      split
      · rename_i inode hholds
        rw [hholds] at hloop
        cases hloop
      · rfl
    | crash p =>
      obtain rfl : pid = p := hpid
      rw [show w.step (.crash pid) = w.set pid .crashed from rfl, World.set_same] at hstill
      cases hstill
  · apply hsame (step_other hpid)
    cases event with
    | next p alive => simpa [PidEvent.isStepOf] using fun h : p = pid => hpid h.symm
    | acquire _ | release _ | crash _ => rfl

/-- The steps that a process takes in one stay in the loop. -/
theorem steps_of_acquiring {events : List PidEvent} (htime : (w.phase pid).InTime)
    (hloop : ∀ before more, before ++ more = events →
      ((run World.step w before).phase pid).acquiring) :
    events.countP (PidEvent.isStepOf pid) + ((run World.step w events).phase pid).left ≤
      (w.phase pid).left := by
  induction events generalizing w with
  | nil => simp
  | cons event events ih =>
    obtain ⟨htime', hless⟩ := left_step (w := w) (hloop [] (event :: events) rfl) htime
      (hloop [event] events rfl)
    have hrest := ih htime' fun before more hsplit =>
      hloop (event :: before) more (congrArg (event :: ·) hsplit)
    rw [List.countP_cons, run_cons]
    omega

theorem left_pos (hloop : phase.acquiring) (htime : phase.InTime) : 0 < phase.left := by
  cases phase <;> simp_all [Phase.acquiring, Phase.left, Phase.InTime, Phase.attempt?] <;> omega

theorem left_le (phase : Phase) : phase.left ≤ 16 := by
  cases phase <;> simp only [Phase.left] <;> omega

theorem inTime_set {q : Nat} (h : (w.phase q).InTime) (hphase : phase.attempt? = none) :
    ((w.set pid phase).phase q).InTime := by
  by_cases hq : q = pid
  · subst hq
    rw [World.set_same]
    intro k hk
    cases hphase.symm.trans hk
  · rwa [World.set_other hq]

theorem attempt?_next {alive : Bool} (h : ¬(w.phase pid).acquiring) :
    ((w.next pid alive).phase pid).attempt? = none := by
  cases hphase : w.phase pid with
  | releasing inode =>
    cases hfile : w.file with
    | some found =>
      simp only [World.next, hphase, hfile, World.set_same]
      split_ifs <;> rfl
    | none =>
      simp only [World.next, hphase, hfile, World.set_same]
      rfl
  | removing inode =>
    simp only [World.next, hphase, World.set_same]
    rfl
  | idle | holding _ | released | refused _ | crashed =>
    simp only [World.next, hphase]
    rfl
  | creating _ | writing _ | reading _ | checking _ _ | unlinking _ =>
    rw [hphase] at h
    exact absurd rfl h

theorem inTime_step {event : PidEvent} (h : ∀ q, (w.phase q).InTime) (q : Nat) :
    ((w.step event).phase q).InTime := by
  cases event with
  | acquire p =>
    change ((w.acquire p).phase q).InTime
    rw [World.acquire]
    split_ifs
    · by_cases hq : q = p
      · subst hq
        rw [World.set_same]
        intro k hk
        cases hk
        decide
      · rw [World.set_other hq]
        exact h q
    · exact inTime_set (h q) rfl
    · exact h q
  | next p alive =>
    by_cases hq : q = p
    · subst hq
      by_cases hloop : (w.phase q).acquiring
      · exact (left_next hloop (h q)).1
      · intro k hk
        cases (attempt?_next hloop).symm.trans hk
    · change ((w.next p alive).phase q).InTime
      rw [next_other hq]
      exact h q
  | release p =>
    change ((w.release p).phase q).InTime
    rw [World.release]
    split
    · exact inTime_set (h q) rfl
    · exact h q
  | crash p => exact inTime_set (h q) rfl

theorem inTime_run (initial : Option Text) (events : List PidEvent) (q : Nat) :
    ((run World.step (World.start initial) events).phase q).InTime := by
  have hstart : ∀ q, ((World.start initial).phase q).InTime := fun q k hk => by cases hk
  have hstep : ∀ w event, (∀ q, (World.phase w q).InTime) → True →
      ∀ q, ((World.step w event).phase q).InTime := fun _ _ h _ => inTime_step h
  exact run_preserves hstep (guarded_of_forall (P := fun _ => True) (fun _ _ => trivial) _) hstart q

/-- As long as no reclaim unlinks a file that a process has created, and writes or holds, there is
one owner and it finds its pid. In every run a process is in the loop for at most four turns, and
for fewer than sixteen of its steps. -/
theorem one_server (initial : Option Text) (events : List PidEvent) :
    (Guarded World.step Allowed (World.start initial) events →
      ∀ before more, before ++ more = events →
        Exclusive (run World.step (World.start initial) before)) ∧
    (∀ p attempt, ((run World.step (World.start initial) events).phase p).attempt? = some attempt →
      attempt < 4) ∧
    ∀ before stay more p, before ++ (stay ++ more) = events →
      (∀ first rest, first ++ rest = stay →
        ((run World.step (World.start initial) (before ++ first)).phase p).acquiring) →
      stay.countP (PidEvent.isStepOf p) < 16 := by
  refine ⟨fun h before more hsplit => ?_, inTime_run initial events, ?_⟩
  · have hstep : ∀ w event, Sole w → Allowed w event → Sole (w.step event) := fun _ _ => sole_step
    subst hsplit
    exact exclusive_of_sole (run_preserves hstep (guarded_left h) (sole_start initial))
  · intro before stay more p _ hloop
    have htime := inTime_run initial before p
    have hstay : ∀ first rest, first ++ rest = stay →
        ((run World.step (run World.step (World.start initial) before) first).phase p).acquiring :=
      fun first rest hsplit => by
        rw [← run_append]
        exact hloop first rest hsplit
    have hsteps := steps_of_acquiring htime hstay
    have hend := left_pos (hloop stay [] (List.append_nil _)) (inTime_run initial (before ++ stay) p)
    rw [run_append] at hend
    have hle := left_le ((run World.step (World.start initial) before).phase p)
    omega

/-- Only this process has begun. -/
def Alone (pid : Nat) (w : World) : Prop := ∀ q, q ≠ pid → w.phase q = .idle

theorem allowed_of_alone {event : PidEvent} (h : Alone pid w) (he : event.pid = pid) :
    Allowed w event := by
  cases event with
  | next p alive =>
    cases he
    rintro ⟨attempt, hphase⟩ i _ q
    by_cases hq : q = p
    · subst hq
      simp [hphase, Phase.inode?]
    · simp [h q hq, Phase.inode?]
  | acquire _ | release _ | crash _ => trivial

theorem guarded_alone {events : List PidEvent} (h : Alone pid w) (he : ∀ e ∈ events, e.pid = pid) :
    Guarded World.step Allowed w events := by
  induction events generalizing w with
  | nil => trivial
  | cons event events ih =>
    have hevent := he event List.mem_cons_self
    refine ⟨allowed_of_alone h hevent, ih ?_ fun e hmem => he e (List.mem_cons_of_mem _ hmem)⟩
    intro q hq
    rw [step_other (hevent ▸ hq)]
    exact h q hq

/-- A stale file is reclaimed by its only visitor. -/
theorem one_server_reclaims :
    ∀ before more, before ++ more = [.acquire 7, .next 7 false, .next 7 false, .next 7 false,
        .next 7 false, .next 7 false, .next 7 false, .release 7, .next 7 false, .next 7 false] →
      Exclusive (run World.step (World.start (some [97])) before) :=
  (one_server (some [97]) _).1 (guarded_alone (fun _ _ => rfl : Alone 7 _) (by decide))

/-- The second server reads the first one's file before its pid is written, and takes it for stale. -/
def takeover : List PidEvent :=
  [.acquire 1, .acquire 2, .next 1 false, .next 2 false, .next 2 false, .next 1 false,
    .next 2 false, .next 2 false, .next 2 false, .next 2 false]

theorem two_owners :
    ¬∀ (initial : Option Text) (events : List PidEvent),
      Exclusive (run World.step (World.start initial) events) := by
  intro h
  have hfirst : ((run World.step (World.start none) takeover).phase 1).holds = true := by
    decide +kernel
  have hsecond : ((run World.step (World.start none) takeover).phase 2).holds = true := by
    decide +kernel
  cases (h none takeover).single 1 2 hfirst hsecond

end BoredManager.Server.Pid
