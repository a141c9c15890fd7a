import BoredManager.Js.Text
import BoredManager.Machine.Runs

/-! The installer of the runtimes: its state, and the commands it has started on the machine. -/
namespace BoredManager.Container.Install
open BoredManager.Js BoredManager.Machine

def MAX_LINES : Nat := 500

inductive RuntimeKind where
  | docker | incus
deriving DecidableEq, Repr

/-- What a check has frozen. -/
structure Plan where
  kind : RuntimeKind
  command : Text
deriving DecidableEq, Repr

structure InstallState where
  running : Bool
  kind : Option RuntimeKind
  ok : Option Bool
  log : List Text
deriving DecidableEq, Repr

namespace InstallState

def idle : InstallState := ⟨false, none, none, []⟩

/-- `text.replace(/\n+$/, '')` -/
def withoutNewlines (text : Text) : Text := (text.reverse.dropWhile fun u => u = 10).reverse

/-- The lines go to the log, which keeps the last of them. -/
def push (state : InstallState) (text : Text) : InstallState :=
  if trim text = [] then state
  else
    let log := state.log ++ (withoutNewlines text).splitOn 10
    { state with log := log.drop (log.length - MAX_LINES) }

/-- An install has begun: `# command`. -/
def begin (plan : Plan) : InstallState :=
  push ⟨true, some plan.kind, none, []⟩ (35 :: 32 :: plan.command)

def exitText : Option Nat → Text
  | some 0 => js "# done"
  | some code => js "# exited with code " ++ decimal code
  | none => js "# exited with code unknown"

/-- The command has exited by itself. -/
def exited (state : InstallState) (code : Option Nat) : InstallState :=
  push { state with running := false, ok := some (code = some 0) } (exitText code)

/-- The promise of its stream was rejected. -/
def failed (state : InstallState) (plan : Plan) (error : Text) : InstallState :=
  ⟨false, some plan.kind, some false, state.log ++ [error]⟩

def cancel (state : InstallState) : InstallState :=
  push { state with running := false, ok := some false } (js "# cancelled")

end InstallState

/-- Where a command is. While its stream is opening it may already run. -/
inductive Phase where
  | opening | streaming | exited
deriving DecidableEq, Repr

structure Command where
  plan : Plan
  phase : Phase
  killed : Bool
deriving DecidableEq, Repr

/-- The installer and the commands by the order of their start. -/
structure World where
  commands : List Command
  state : InstallState
  handle : Option Nat
  cancelled : Bool

namespace World

def start : World := ⟨[], .idle, none, false⟩

variable (w : World)

def setPhase (n : Nat) (phase : Phase) : World :=
  { w with commands := w.commands.modify n fun c => { c with phase } }

/-- The command has this phase. -/
def inPhase (n : Nat) (phase : Phase) : Bool := (w.commands[n]?.map Command.phase) = some phase

/-- `apply`, with a token that is taken. -/
def apply (plan : Plan) : World :=
  if w.state.running ∨ plan.command = [] then w
  else { w with
    commands := w.commands ++ [⟨plan, .opening, false⟩]
    state := .begin plan
    cancelled := false }

/-- The promise of `streamSudo` resolves. -/
def opened (n : Nat) : World :=
  if w.inPhase n .opening then { w.setPhase n .streaming with handle := some n } else w

def rejected (n : Nat) (error : Text) : World :=
  match w.commands[n]? with
  | some ⟨plan, .opening, _⟩ => { w.setPhase n .exited with state := w.state.failed plan error }
  | _ => w

/-- `onData` -/
def data (n : Nat) (text : Text) : World :=
  if w.inPhase n .streaming then { w with state := w.state.push text } else w

/-- `onExit` -/
def exit (n : Nat) (code : Option Nat) : World :=
  if w.inPhase n .streaming then
    let w := { w.setPhase n .exited with handle := none }
    if w.cancelled then w else { w with state := w.state.exited code }
  else w

def kill : World :=
  match w.handle with
  | some n => { w with
      commands := w.commands.modify n fun c => { c with killed := true }
      handle := none }
  | none => w

def cancel : World :=
  if w.state.running then
    let w := { w with cancelled := true }.kill
    { w with state := w.state.cancel }
  else w

def reset : World :=
  { { w with cancelled := true }.kill with state := .idle }

end World

inductive InstallEvent where
  | apply (plan : Plan)
  | opened (n : Nat)
  | rejected (n : Nat) (error : Text)
  | data (n : Nat) (text : Text)
  | exit (n : Nat) (code : Option Nat)
  | cancel
  | reset
deriving DecidableEq, Repr

def World.step (w : World) : InstallEvent → World
  | .apply plan => w.apply plan
  | .opened n => w.opened n
  | .rejected n error => w.rejected n error
  | .data n text => w.data n text
  | .exit n code => w.exit n code
  | .cancel => w.cancel
  | .reset => w.reset

end BoredManager.Container.Install

/-! The installer tracks its newest install where none is begun before every earlier command has
exited, and none is cancelled while its stream opens. -/
namespace BoredManager.Container.Install
open BoredManager.Js BoredManager.Machine

variable {w : World} {n : Nat} {c : Command} {event : InstallEvent}

/-! What the status is meant to be: that of the newest install, whatever older commands do. -/

structure Tracker where
  newest : Option Nat
  state : InstallState
  cancelled : Bool

variable {t : Tracker}

namespace Tracker

def start : Tracker := ⟨none, .idle, false⟩

def apply (t : Tracker) (w : World) (plan : Plan) : Tracker :=
  if t.state.running ∨ plan.command = [] then t else ⟨some w.commands.length, .begin plan, false⟩

def rejected (t : Tracker) (w : World) (n : Nat) (error : Text) : Tracker :=
  match w.commands[n]? with
  | some ⟨plan, .opening, _⟩ =>
    if t.newest = some n then { t with state := t.state.failed plan error } else t
  | _ => t

def data (t : Tracker) (w : World) (n : Nat) (text : Text) : Tracker :=
  if w.inPhase n .streaming ∧ t.newest = some n then { t with state := t.state.push text } else t

def exit (t : Tracker) (w : World) (n : Nat) (code : Option Nat) : Tracker :=
  if w.inPhase n .streaming ∧ t.newest = some n ∧ t.cancelled = false then
    { t with state := t.state.exited code }
  else t

def cancel (t : Tracker) : Tracker :=
  if t.state.running then { t with state := t.state.cancel, cancelled := true } else t

/-- The world tells what can happen at all. -/
def step (t : Tracker) (w : World) : InstallEvent → Tracker
  | .apply plan => t.apply w plan
  | .opened _ => t
  | .rejected n error => t.rejected w n error
  | .data n text => t.data w n text
  | .exit n code => t.exit w n code
  | .cancel => t.cancel
  | .reset => ⟨none, .idle, true⟩

end Tracker

/-- The installer and the tracker beside it. -/
structure Both where
  world : World
  tracker : Tracker

def Both.start : Both := ⟨.start, .start⟩

def Both.step (b : Both) (event : InstallEvent) : Both :=
  ⟨b.world.step event, b.tracker.step b.world event⟩

/-- An install begins when every earlier command has exited, nothing is cancelled while a stream
opens, and a command that a reset has killed puts out nothing more. -/
def Allowed (b : Both) : InstallEvent → Prop
  | .apply plan => b.world.state.running = false → plan.command ≠ [] →
      ∀ c ∈ b.world.commands, c.phase = .exited
  | .cancel => b.world.state.running = true → ∀ c ∈ b.world.commands, c.phase ≠ .opening
  | .reset => ∀ c ∈ b.world.commands, c.phase ≠ .opening
  | .data n _ => b.world.inPhase n .streaming → b.tracker.newest = some n
  | _ => True

instance decidableAllowed (b : Both) : (event : InstallEvent) → Decidable (Allowed b event)
  | .apply plan => inferInstanceAs (Decidable (b.world.state.running = false → plan.command ≠ [] →
      ∀ c ∈ b.world.commands, c.phase = .exited))
  | .cancel => inferInstanceAs (Decidable (b.world.state.running = true →
      ∀ c ∈ b.world.commands, c.phase ≠ .opening))
  | .reset => inferInstanceAs (Decidable (∀ c ∈ b.world.commands, c.phase ≠ .opening))
  | .data n _ => inferInstanceAs (Decidable (b.world.inPhase n .streaming = true →
      b.tracker.newest = some n))
  | .opened _ | .rejected _ _ | .exit _ _ => .isTrue trivial

/-- The command runs, or may run, and was not killed. -/
def Command.alive (c : Command) : Bool := c.phase ≠ .exited && !c.killed

/-- What the status page and the machine show. -/
structure Tracks (w : World) (t : Tracker) : Prop where
  state : w.state = t.state
  cancelled : w.cancelled = t.cancelled
  handle : ∀ n, w.handle = some n ↔ t.newest = some n ∧
    ∃ c, w.commands[n]? = some c ∧ c.phase = .streaming ∧ c.killed = false
  single : ∀ (m n : Nat) (c d : Command), w.commands[m]? = some c → w.commands[n]? = some d → c.alive → d.alive → m = n
  stopped : w.state.running = false → ∀ c ∈ w.commands, c.phase ≠ .exited → c.killed = true

/-- What stands between the steps of a run. -/
structure Sound (w : World) (t : Tracker) : Prop where
  state : w.state = t.state
  cancelled : w.cancelled = t.cancelled
  last : ∀ n c, w.commands[n]? = some c → c.phase ≠ .exited → n + 1 = w.commands.length
  quiet : (∀ c ∈ w.commands, c.phase = .exited) → w.handle = none ∧ w.state.running = false
  opening : ∀ n c, w.commands[n]? = some c → c.phase = .opening → t.newest = some n ∧
    c.killed = false ∧ w.handle = none ∧ w.state.running = true ∧ w.cancelled = false
  streaming : ∀ n c, w.commands[n]? = some c → c.phase = .streaming →
    (t.newest = some n ∧ c.killed = false ∧ w.handle = some n ∧ w.state.running = true ∧
      w.cancelled = false) ∨
    (c.killed = true ∧ w.handle = none ∧ w.state.running = false ∧ w.cancelled = true)

theorem sound_start : Sound .start .start := by
  constructor <;> simp [World.start, Tracker.start, InstallState.idle]

theorem tracks_of_sound (h : Sound w t) : Tracks w t := by
  have halive : ∀ (n : Nat) (c : Command), w.commands[n]? = some c → c.phase ≠ .exited →
      c.killed = false ∧ w.state.running = true ∨ c.killed = true ∧ w.handle = none := by
    intro n c hc hphase
    cases hp : c.phase with
    | opening =>
      obtain ⟨-, hkilled, -, hrunning, -⟩ := h.opening n c hc hp
      exact .inl ⟨hkilled, hrunning⟩
    | streaming =>
      obtain ⟨-, hkilled, -, hrunning, -⟩ | ⟨hkilled, hhandle, -⟩ := h.streaming n c hc hp
      · exact .inl ⟨hkilled, hrunning⟩
      · exact .inr ⟨hkilled, hhandle⟩
    | exited => exact absurd hp hphase
  constructor
  · exact h.state
  · exact h.cancelled
  · intro n
    constructor
    · intro hhandle
      by_cases hquiet : ∀ c ∈ w.commands, c.phase = .exited
      · cases (h.quiet hquiet).1.symm.trans hhandle
      · push Not at hquiet
        obtain ⟨c, hmem, hphase⟩ := hquiet
        obtain ⟨m, hm⟩ := List.mem_iff_getElem?.mp hmem
        cases hp : c.phase with
        | opening => cases (h.opening m c hm hp).2.2.1.symm.trans hhandle
        | streaming =>
          obtain ⟨hnewest, hkilled, hm', -⟩ | ⟨-, hnone, -⟩ := h.streaming m c hm hp
          · cases hm'.symm.trans hhandle
            exact ⟨hnewest, c, hm, hp, hkilled⟩
          · cases hnone.symm.trans hhandle
        | exited => exact absurd hp hphase
    · rintro ⟨-, c, hc, hp, hkilled⟩
      obtain ⟨-, -, hhandle, -⟩ | ⟨hdead, -⟩ := h.streaming n c hc hp
      · exact hhandle
      · cases hkilled.symm.trans hdead
  · intro m n c d hc hd hcalive hdalive
    simp only [Command.alive, Bool.and_eq_true, decide_eq_true_eq] at hcalive hdalive
    have hm := h.last m c hc hcalive.1
    have hn := h.last n d hd hdalive.1
    omega
  · intro hrunning c hmem hphase
    obtain ⟨n, hn⟩ := List.mem_iff_getElem?.mp hmem
    obtain ⟨-, hrun⟩ | ⟨hkilled, -⟩ := halive n c hn hphase
    · cases hrun.symm.trans hrunning
    · exact hkilled

@[simp] theorem push_running (state : InstallState) (text : Text) :
    (state.push text).running = state.running := by
  rw [InstallState.push]
  split_ifs <;> rfl

theorem begin_running (plan : Plan) : (InstallState.begin plan).running = true :=
  push_running _ _

theorem exited_running (state : InstallState) (code : Option Nat) :
    (state.exited code).running = false := push_running _ _

theorem cancel_running (state : InstallState) : state.cancel.running = false := push_running _ _

theorem inPhase_iff {phase : Phase} :
    w.inPhase n phase = true ↔ ∃ c, w.commands[n]? = some c ∧ c.phase = phase := by
  rw [World.inPhase, decide_eq_true_eq, Option.map_eq_some_iff]

/-- Every command but one is as it was. -/
theorem modify_cases {commands : List Command} {change : Command → Command} {m : Nat}
    (h : (commands.modify n change)[m]? = some c) :
    (m ≠ n ∧ commands[m]? = some c) ∨ m = n ∧ ∃ d, commands[n]? = some d ∧ c = change d := by
  rw [List.getElem?_modify, Option.map_eq_map, Option.map_eq_some_iff] at h
  obtain ⟨d, hd, heq⟩ := h
  by_cases hm : n = m
  · subst hm
    rw [if_pos rfl] at heq
    exact .inr ⟨rfl, d, hd, heq.symm⟩
  · rw [if_neg hm] at heq
    subst heq
    exact .inl ⟨Ne.symm hm, hd⟩

/-- Where one command has not exited, all others have. -/
theorem others_exited (h : Sound w t) {d : Command} {m : Nat} (hn : w.commands[n]? = some c)
    (hc : c.phase ≠ .exited) (hm : w.commands[m]? = some d) (hne : m ≠ n) : d.phase = .exited := by
  by_contra hd
  have hlast := h.last n c hn hc
  have hlast' := h.last m d hm hd
  omega

theorem sound_apply {plan : Plan} (h : Sound w t) (hok : Allowed ⟨w, t⟩ (.apply plan)) :
    Sound (w.apply plan) (t.apply w plan) := by
  rw [World.apply, Tracker.apply, ← h.state]
  split_ifs with hrefused
  · exact h
  · push Not at hrefused
    have hexited := hok (by simpa using hrefused.1) hrefused.2
    have hquiet := h.quiet hexited
    have hnew : ∀ n c, (w.commands ++ [⟨plan, .opening, false⟩])[n]? = some c →
        c.phase ≠ .exited → n = w.commands.length ∧ c = ⟨plan, .opening, false⟩ := by
      intro n c hc hphase
      obtain hlt | hge := Nat.lt_or_ge n w.commands.length
      · rw [List.getElem?_append_left hlt] at hc
        exact absurd (hexited c (List.mem_of_getElem? hc)) hphase
      · rw [List.getElem?_append_right hge] at hc
        obtain ⟨hzero, heq⟩ := List.getElem?_eq_some_iff.mp hc
        have hn : n = w.commands.length := by simp at hzero; omega
        subst hn
        simpa using heq.symm
    constructor
    · rfl
    · rfl
    · intro n c hc hphase
      rw [(hnew n c hc hphase).1, List.length_append]
      rfl
    · intro hall
      have hlast := hall ⟨plan, .opening, false⟩ (by simp)
      cases hlast
    · intro n c hc hphase
      obtain ⟨rfl, rfl⟩ := hnew n c hc (by simp [hphase])
      exact ⟨rfl, rfl, hquiet.1, begin_running plan, rfl⟩
    · intro n c hc hphase
      obtain ⟨-, rfl⟩ := hnew n c hc (by simp [hphase])
      cases hphase

theorem sound_opened (h : Sound w t) : Sound (w.opened n) t := by
  rw [World.opened]
  split_ifs with hphase
  · obtain ⟨d, hd, hopening⟩ := inPhase_iff.mp hphase
    obtain ⟨hnewest, hkilled, -, hrunning, hcancelled⟩ := h.opening n d hd hopening
    have hlast := h.last n d hd (by simp [hopening])
    have hothers : ∀ m c, (w.commands.modify n fun c => { c with phase := .streaming })[m]? = some c →
        c.phase ≠ .exited → m = n ∧ c = { d with phase := .streaming } := by
      intro m c hc hc'
      obtain ⟨hne, hm⟩ | ⟨rfl, d', hd', rfl⟩ := modify_cases hc
      · exact absurd (others_exited h hd (by simp [hopening]) hm hne) hc'
      · cases hd.symm.trans hd'
        exact ⟨rfl, rfl⟩
    constructor
    · exact h.state
    · exact h.cancelled
    · intro m c hc hc'
      rw [(hothers m c hc hc').1, World.setPhase, List.length_modify]
      exact hlast
    · intro hall
      have hmem : ({ d with phase := .streaming } : Command) ∈ w.commands.modify n fun c =>
          { c with phase := .streaming } := by
        refine List.mem_of_getElem? (i := n) ?_
        rw [List.getElem?_modify, hd, Option.map_eq_map, Option.map_some, if_pos rfl]
      cases hall _ hmem
    · intro m c hc hc'
      obtain ⟨-, rfl⟩ := hothers m c hc (by simp [hc'])
      cases hc'
    · intro m c hc hc'
      obtain ⟨rfl, rfl⟩ := hothers m c hc (by simp [hc'])
      exact .inl ⟨hnewest, hkilled, rfl, hrunning, hcancelled⟩
  · exact h

/-- A command that exits leaves none that has not. -/
theorem sound_exited {d : Command} {state : InstallState} {cancelled : Bool} (h : Sound w t)
    (hd : w.commands[n]? = some d) (hphase : d.phase ≠ .exited) (newest : Option Nat)
    (hstate : state.running = false) :
    Sound ⟨w.commands.modify n fun c => { c with phase := .exited }, state, none, cancelled⟩
      ⟨newest, state, cancelled⟩ := by
  have hall : ∀ (m : Nat) (c : Command), (w.commands.modify n fun c => { c with phase := .exited })[m]? = some c →
      c.phase = .exited := by
    intro m c hc
    obtain ⟨hne, hm⟩ | ⟨rfl, d', hd', rfl⟩ := modify_cases hc
    · exact others_exited h hd hphase hm hne
    · rfl
  constructor
  · rfl
  · rfl
  · intro m c hc hc'
    exact absurd (hall m c hc) hc'
  · exact fun _ => ⟨rfl, hstate⟩
  · intro m c hc hc'
    cases (hall m c hc).symm.trans hc'
  · intro m c hc hc'
    cases (hall m c hc).symm.trans hc'

theorem sound_state {state : InstallState} (h : Sound w t)
    (hrunning : state.running = w.state.running) :
    Sound { w with state := state } { t with state := state } := by
  constructor
  · rfl
  · exact h.cancelled
  · exact h.last
  · rw [hrunning]
    exact h.quiet
  · rw [hrunning]
    exact h.opening
  · rw [hrunning]
    exact h.streaming

theorem sound_rejected {error : Text} (h : Sound w t) :
    Sound (w.rejected n error) (t.rejected w n error) := by
  rw [World.rejected, Tracker.rejected]
  cases hcommand : w.commands[n]? with
  | none => exact h
  | some c =>
    obtain ⟨plan, phase, killed⟩ := c
    cases phase with
    | opening =>
      obtain ⟨hnewest, -, hhandle, -⟩ := h.opening n _ hcommand rfl
      simp only [if_pos hnewest, World.setPhase, hhandle, ← h.state, ← h.cancelled]
      exact sound_exited h hcommand (by simp) _ rfl
    | streaming | exited => exact h

theorem sound_data {text : Text} (h : Sound w t) (hok : Allowed ⟨w, t⟩ (.data n text)) :
    Sound (w.data n text) (t.data w n text) := by
  rw [World.data, Tracker.data]
  by_cases hphase : w.inPhase n .streaming
  · rw [if_pos hphase, if_pos ⟨hphase, hok hphase⟩, ← h.state]
    exact sound_state h (push_running _ _)
  · rw [if_neg hphase, if_neg fun hboth => hphase hboth.1]
    exact h

theorem sound_exit {code : Option Nat} (h : Sound w t) :
    Sound (w.exit n code) (t.exit w n code) := by
  rw [World.exit, Tracker.exit]
  by_cases hphase : w.inPhase n .streaming
  · obtain ⟨d, hd, hstreaming⟩ := inPhase_iff.mp hphase
    rw [if_pos hphase]
    dsimp only [World.setPhase]
    obtain ⟨hnewest, -, -, -, hcancelled⟩ | ⟨-, -, hrunning, hcancelled⟩ := h.streaming n d hd hstreaming
    · have hnot : t.cancelled = false := h.cancelled.symm.trans hcancelled
      rw [if_neg (by simp [hcancelled]), if_pos ⟨hphase, hnewest, hnot⟩, ← h.state, ← h.cancelled]
      exact sound_exited h hd (by simp [hstreaming]) _ (exited_running _ _)
    · have hnot : t.cancelled = true := h.cancelled.symm.trans hcancelled
      rw [if_pos hcancelled, if_neg (by simp [hnot]), h.state, h.cancelled]
      exact sound_exited h hd (by simp [hstreaming]) _ (h.state ▸ hrunning)
  · rw [if_neg hphase, if_neg fun hboth => hphase hboth.1]
    exact h

@[simp] theorem kill_state (w : World) : w.kill.state = w.state := by
  rw [World.kill]
  split <;> rfl

/-- Where no stream opens, a kill reaches the command that runs. -/
theorem sound_kill {state : InstallState} (h : Sound w t)
    (hopening : ∀ c ∈ w.commands, c.phase ≠ .opening) (newest : Option Nat)
    (hstate : state.running = false) :
    Sound { ({ w with cancelled := true } : World).kill with state := state }
      ⟨newest, state, true⟩ := by
  cases hhandle : w.handle with
  | none =>
    simp only [World.kill]
    constructor
    · rfl
    · rfl
    · exact h.last
    · exact fun _ => ⟨rfl, hstate⟩
    · intro m c hc hphase
      exact absurd hphase (hopening c (List.mem_of_getElem? hc))
    · intro m c hc hphase
      obtain ⟨-, -, hm, -⟩ | ⟨hkilled, -⟩ := h.streaming m c hc hphase
      · cases hhandle.symm.trans hm
      · exact .inr ⟨hkilled, rfl, hstate, rfl⟩
  | some n =>
    simp only [World.kill]
    have hphase : ∀ (m : Nat) (c : Command),
        (w.commands.modify n fun c => { c with killed := true })[m]? = some c →
        ∃ d, w.commands[m]? = some d ∧ c.phase = d.phase ∧ (d.phase = .streaming → c.killed = true) := by
      intro m c hc
      obtain ⟨hne, hm⟩ | ⟨rfl, d, hd, rfl⟩ := modify_cases hc
      · refine ⟨c, hm, rfl, fun hstreaming => ?_⟩
        obtain ⟨-, -, hm', -⟩ | ⟨hkilled, -⟩ := h.streaming m c hm hstreaming
        · cases hhandle.symm.trans hm'
          exact absurd rfl hne
        · exact hkilled
      · exact ⟨d, hd, rfl, fun _ => rfl⟩
    constructor
    · rfl
    · rfl
    · intro m c hc hc'
      obtain ⟨d, hd, hsame, -⟩ := hphase m c hc
      rw [List.length_modify]
      exact h.last m d hd (hsame ▸ hc')
    · exact fun _ => ⟨rfl, hstate⟩
    · intro m c hc hc'
      obtain ⟨d, hd, hsame, -⟩ := hphase m c hc
      exact absurd (hsame.symm.trans hc') (hopening d (List.mem_of_getElem? hd))
    · intro m c hc hc'
      obtain ⟨d, hd, hsame, hkilled⟩ := hphase m c hc
      exact .inr ⟨hkilled (hsame.symm.trans hc'), rfl, hstate, rfl⟩

theorem sound_step {event : InstallEvent} (h : Sound w t) (hok : Allowed ⟨w, t⟩ event) :
    Sound (w.step event) (t.step w event) := by
  cases event with
  | apply plan => exact sound_apply h hok
  | opened n => exact sound_opened h
  | rejected n error => exact sound_rejected h
  | data n text => exact sound_data h hok
  | exit n code => exact sound_exit h
  | cancel =>
    change Sound w.cancel t.cancel
    rw [World.cancel, Tracker.cancel, ← h.state]
    split_ifs with hrunning
    · have hkill := sound_kill h (hok hrunning) t.newest (cancel_running w.state)
      simp only [kill_state]
      exact hkill
    · exact h
  | reset => exact sound_kill h hok none rfl

/-- Where an install begins when every earlier command has exited, nothing is cancelled or reset
while a stream opens, and what a reset has killed puts out nothing more, the status is that of the
newest install, the handle is its stream's, at most one command is alive that was not killed, and
none as soon as the status does not say that one runs. -/
theorem tracks_newest {events : List InstallEvent} (h : Guarded Both.step Allowed .start events) :
    ∀ before more, before ++ more = events →
      Tracks (run Both.step .start before).world (run Both.step .start before).tracker := by
  intro before more hsplit
  have hstart : Sound Both.start.world Both.start.tracker := sound_start
  have hstep : ∀ (b : Both) event, Sound b.world b.tracker → Allowed b event →
      Sound (b.step event).world (b.step event).tracker := fun _ _ => sound_step
  subst hsplit
  exact tracks_of_sound (run_preserves hstep (guarded_left h) hstart)

def samplePlan : Plan := ⟨.docker, js "dnf install -y moby-engine"⟩

/-- An install, its output, a cancel and its late exit, and the next install. -/
theorem tracks_two_installs :
    Tracks (run Both.step .start [.apply samplePlan, .opened 0, .data 0 (js "Resolving"), .cancel,
        .exit 0 none, .apply samplePlan, .opened 1]).world
      (run Both.step .start [.apply samplePlan, .opened 0, .data 0 (js "Resolving"), .cancel,
        .exit 0 none, .apply samplePlan, .opened 1]).tracker := by
  refine tracks_newest ?_ _ [] (List.append_nil _)
  decide +kernel

/-- A cancel while the stream opens leaves the command alive, and so two with the next install; and
a late exit of a killed command ends the status of the next one and drops its handle. -/
theorem cancel_misses_opening :
    ¬Tracks (run Both.step .start [.apply samplePlan, .cancel]).world
        (run Both.step .start [.apply samplePlan, .cancel]).tracker ∧
      ¬Tracks (run Both.step .start [.apply samplePlan, .opened 0, .cancel, .apply samplePlan,
          .opened 1, .exit 0 none]).world
        (run Both.step .start [.apply samplePlan, .opened 0, .cancel, .apply samplePlan,
          .opened 1, .exit 0 none]).tracker := by
  constructor
  · intro h
    have hrunning : (run Both.step .start [.apply samplePlan, .cancel]).world.state.running = false := by
      decide +kernel
    have halive : (run Both.step .start [.apply samplePlan, .cancel]).world.commands =
        [⟨samplePlan, .opening, false⟩] := by
      decide +kernel
    have hstopped := h.stopped hrunning ⟨samplePlan, .opening, false⟩
      (by rw [halive]; exact List.mem_singleton.mpr rfl) (by simp)
    cases hstopped
  · intro h
    have hdiffer := h.state
    revert hdiffer
    decide +kernel

end BoredManager.Container.Install
