import BoredManager.Client.Store
import BoredManager.Machine.Runs

/-! One machine at a time: every run of the store in which no stale continuation takes effect shows
only the active machine, and comes to rest on the machine the user chose. -/
namespace BoredManager.Client.State
open BoredManager.Js BoredManager.Machine

theorem machineId_of_find {machines : List MachineStatus} {id : Text} {m : MachineStatus}
    (h : find machines id = some m) : m.machineId = id := by
  simpa using List.find?_some h

theorem listed_eq_some {machines : List MachineStatus} {id : Option Text} {b : Text} :
    listed machines id = some b ↔ id = some b ∧ b ≠ [] ∧ (find machines b).isSome := by
  simp [listed, Option.filter_eq_some_iff]

/-- A status push that waits and will show this machine. -/
def Request.switchesTo (b : Text) : Request → Bool
  | .specs (.status p) => p.switches && decide (p.preferred = some b)
  | .specs .nobody => false
  | .specs (.reseed _) => false
  | .history _ _ => false
  | .terminals _ => false
  | .status => false

/-- What waits for this request sets the status again. -/
def Request.settles : Request → Bool
  | .specs (.status _) => true
  | .specs (.reseed _) => true
  | .specs .nobody => false
  | .history _ _ => false
  | .terminals _ => false
  | .status => true

def Waits (kind : Request → Bool) (pending : List Request) : Prop := ∃ r ∈ pending, kind r = true

instance (kind : Request → Bool) (pending : List Request) : Decidable (Waits kind pending) :=
  inferInstanceAs (Decidable (∃ r ∈ pending, kind r = true))

section waits
variable {kind : Request → Bool} {pending : List Request}

theorem Waits.append (h : Waits kind pending) (more : List Request) : Waits kind (pending ++ more) := by
  obtain ⟨r, hr, hkind⟩ := h
  exact ⟨r, List.mem_append_left _ hr, hkind⟩

theorem Waits.tail {r : Request} (h : Waits kind (r :: pending)) (hr : kind r = false) :
    Waits kind pending := by
  obtain ⟨r', hmem, hkind⟩ := h
  obtain rfl | hmem := List.mem_cons.mp hmem
  · rw [hr] at hkind
    cases hkind
  · exact ⟨r', hmem, hkind⟩

theorem Request.settles_of_switchesTo {r : Request} {b : Text} (h : r.switchesTo b = true) :
    r.settles = true := by
  cases r with
  | specs waiter =>
    cases waiter with
    | nobody => cases h
    | status p => rfl
    | reseed machines => rfl
  | history id generation => cases h
  | terminals id => cases h
  | status => cases h

theorem Waits.settling {b : Text} (h : Waits (Request.switchesTo b) pending) :
    Waits Request.settles pending := by
  obtain ⟨r, hr, hto⟩ := h
  exact ⟨r, hr, Request.settles_of_switchesTo hto⟩

end waits

namespace AppState
variable {s : AppState}

/-- All that the store holds comes from the machine it shows. -/
structure OneMachine (s : AppState) : Prop where
  system : ∀ x ∈ s.system, some x.machineId = s.activeMachineId
  top : ∀ x, s.topNow = some x → some x.machineId = s.activeMachineId
  terminals : ∀ x ∈ s.terminals, some x.machineId = s.activeMachineId

/-- With nothing in flight, the machine the user chose is shown with its entry of the list. -/
def AtRest (s : AppState) : Prop :=
  s.pending = [] → ∀ b, s.chosen = some b →
    s.activeMachineId = some b ∧ ∃ machine ∈ s.machines, machine.machineId = b ∧ s.status = some machine

structure Sane (s : AppState) : Prop where
  one : s.OneMachine
  rest : s.AtRest

def Listed (s : AppState) : Prop := ∀ b, s.chosen = some b → b ≠ [] ∧ (find s.machines b).isSome

/-- The machine that the user chose is shown, or a push that waits will show it; the status is its
entry, or will be set again. -/
structure Follows (s : AppState) : Prop where
  listed : s.Listed
  active : ∀ b, s.chosen = some b → s.activeMachineId = some b ∨ Waits (Request.switchesTo b) s.pending
  status : ∀ b, s.chosen = some b → Waits Request.settles s.pending ∨ s.status = find s.machines b

structure Sound (s : AppState) : Prop where
  one : s.OneMachine
  follows : s.Follows

theorem Sound.sane (h : Sound s) : Sane s := by
  refine ⟨h.one, fun hrest b hb => ?_⟩
  obtain hactive | ⟨p, hp, -⟩ := h.follows.active b hb
  · obtain ⟨r, hr, -⟩ | hstatus := h.follows.status b hb
    · rw [hrest] at hr
      cases hr
    · obtain ⟨m, hm⟩ := Option.isSome_iff_exists.mp (h.follows.listed b hb).2
      exact ⟨hactive, m, List.mem_of_find?_eq_some hm, machineId_of_find hm, hstatus.trans hm⟩
  · rw [hrest] at hp
    cases hp

theorem sound_start (storage : Bool) (stored : Option Text) : Sound (start storage stored) := by
  refine ⟨⟨by simp [start], by simp [start], by simp [start]⟩, ⟨?_, ?_, ?_⟩⟩ <;>
    simp [start, Listed]

/-! ### Showing a machine -/

@[simp] theorem persistActiveMachine_eq (machineId : Option Text) :
    s.persistActiveMachine machineId = { s with stored := (s.persistActiveMachine machineId).stored } := by
  rw [persistActiveMachine]
  split <;> rfl

theorem showNothing_eq : s.showNothing = { s with
    system := [], topNow := none, terminals := [], activeMachineId := none, status := none,
    stored := s.showNothing.stored } := by
  rw [showNothing, persistActiveMachine_eq]
  rfl

/-- `setActiveMachine` shows the machine of the list, or nothing. -/
theorem setActiveMachine_cases (s : AppState) (machineId : Option Text) :
    (listed s.machines machineId = none ∧ ∃ stored, s.setActiveMachine machineId = { s with
      machineSeedGeneration := s.machineSeedGeneration + 1, system := [], topNow := none,
      terminals := [], activeMachineId := none, status := none, stored := stored }) ∨
    ∃ id, listed s.machines machineId = some id ∧ ∃ stored, s.setActiveMachine machineId = { s with
      machineSeedGeneration := s.machineSeedGeneration + 1, system := [], topNow := none,
      terminals := [], activeMachineId := some id, status := find s.machines id, stored := stored,
      pending := s.pending ++ [.history id (s.machineSeedGeneration + 1)] } := by
  rw [setActiveMachine]
  dsimp only
  split
  · rename_i hnone
    refine .inl ⟨?_, _, showNothing_eq⟩
    cases hl : listed s.machines machineId with
    | none => rfl
    | some id =>
      obtain ⟨rfl, hne, hfind⟩ := listed_eq_some.mp hl
      simp [Option.filter, hne] at hnone
      simp [hnone] at hfind
  · rename_i m hm
    obtain ⟨id, hid, hfind⟩ := Option.bind_eq_some_iff.mp hm
    obtain ⟨rfl, hne⟩ := Option.filter_eq_some_iff.mp hid
    have hmid := machineId_of_find hfind
    refine .inr ⟨id, listed_eq_some.mpr ⟨rfl, by simpa using hne, by simp [hfind]⟩, ?_⟩
    subst hmid
    rw [persistActiveMachine_eq, hfind]
    exact ⟨_, rfl⟩

theorem Listed.showNothing (h : s.Listed)
    (hto : ∀ b, s.chosen = some b → Waits (Request.switchesTo b) s.pending) : Sound s.showNothing := by
  rw [showNothing_eq]
  exact ⟨⟨by simp, by simp, by simp⟩, h, fun b hb => .inr (hto b hb),
    fun b hb => .inl (hto b hb).settling⟩

/-- Showing a machine is right if it is the chosen one, or if a later push will show that one. -/
theorem Listed.setActiveMachine (h : s.Listed) {machineId : Option Text}
    (hto : ∀ b, s.chosen = some b → machineId = some b ∨ Waits (Request.switchesTo b) s.pending) :
    Sound (s.setActiveMachine machineId) := by
  obtain ⟨hnone, stored, heq⟩ | ⟨id, hid, stored, heq⟩ := s.setActiveMachine_cases machineId
  · rw [heq]
    have hlater : ∀ b, s.chosen = some b → Waits (Request.switchesTo b) s.pending := by
      intro b hb
      obtain rfl | hlater := hto b hb
      · rw [listed_eq_some.mpr ⟨rfl, h b hb⟩] at hnone
        cases hnone
      · exact hlater
    exact ⟨⟨by simp, by simp, by simp⟩, h, fun b hb => .inr (hlater b hb),
      fun b hb => .inl (hlater b hb).settling⟩
  · rw [heq]
    obtain ⟨rfl, -⟩ := listed_eq_some.mp hid
    refine ⟨⟨by simp, by simp, by simp⟩, h, fun b hb => ?_, fun b hb => ?_⟩
    · exact (hto b hb).imp_right fun hlater => hlater.append _
    · obtain heq | hlater := hto b hb
      · cases heq
        exact .inr rfl
      · exact .inl (hlater.append _).settling

/-! ### Requests -/

theorem Follows.request (h : s.Follows) (r : Request) : (s.request r).Follows :=
  ⟨h.listed, fun b hb => (h.active b hb).imp_right fun hto => hto.append _,
    fun b hb => (h.status b hb).imp_left fun hset => hset.append _⟩

theorem OneMachine.request (h : s.OneMachine) (r : Request) : (s.request r).OneMachine :=
  ⟨h.system, h.top, h.terminals⟩

theorem Sound.request (h : Sound s) (r : Request) : Sound (s.request r) :=
  ⟨h.one.request r, h.follows.request r⟩

/-- A reply that nothing waits for that shows a machine or sets the status. -/
theorem Follows.pop (h : s.Follows) {r : Request} {rest : List Request} (hp : s.pending = r :: rest)
    (hr : r.settles = false) : Follows { s with pending := rest } := by
  obtain ⟨hlisted, hactive, hstatus⟩ := h
  rw [hp] at hactive hstatus
  refine ⟨hlisted, fun b hb => ?_, fun b hb => ?_⟩
  · refine (hactive b hb).imp_right fun hto => hto.tail ?_
    exact Bool.eq_false_iff.mpr fun hswitch => by simp [Request.settles_of_switchesTo hswitch] at hr
  · exact (hstatus b hb).imp_left fun hset => hset.tail hr

/-! ### Lists of machines -/

theorem preferred_of_active {machines : List MachineStatus} {b : Text}
    (hactive : s.activeMachineId = some b) (hb : listed machines (some b) = some b) :
    s.preferred machines = some b := by
  rw [preferred, hactive, hb]
  rfl

theorem chosen_setMachines {machines : List MachineStatus} {b : Text}
    (h : (s.setMachines machines).chosen = some b) :
    s.chosen = some b ∧ listed machines (some b) = some b := by
  obtain ⟨hchosen, hb⟩ := listed_eq_some.mp (show listed machines s.chosen = some b from h)
  exact ⟨hchosen, listed_eq_some.mpr ⟨rfl, hb⟩⟩

theorem listed_setMachines (s : AppState) (machines : List MachineStatus) :
    (s.setMachines machines).Listed :=
  fun _ hb => (listed_eq_some.mp hb).2

theorem OneMachine.setMachines (h : s.OneMachine) (machines : List MachineStatus) :
    (s.setMachines machines).OneMachine :=
  ⟨h.system, h.top, h.terminals⟩

/-- The end of a handler is right if it shows the chosen machine, or sets its status, or something
later does. -/
theorem OneMachine.followStatus (h : s.OneMachine) (hlisted : s.Listed) {p : Push}
    (hswitch : p.switches = true → ∀ b, s.chosen = some b →
      p.preferred = some b ∨ Waits (Request.switchesTo b) s.pending)
    (hkeep : p.switches = false → ∀ b, s.chosen = some b →
      (s.activeMachineId = some b ∨ Waits (Request.switchesTo b) s.pending) ∧
      (Waits Request.settles s.pending ∨ p.preferred.bind (find p.machines) = find s.machines b)) :
    Sound (s.followStatus p) := by
  rw [AppState.followStatus]
  split
  · rename_i hto
    exact hlisted.setActiveMachine (hswitch hto)
  · rename_i hto
    have hkeep := hkeep (Bool.eq_false_iff.mpr hto)
    exact ⟨⟨h.system, h.top, h.terminals⟩, hlisted, fun b hb => (hkeep b hb).1,
      fun b hb => (hkeep b hb).2⟩

theorem Sound.onStatus (h : Sound s) (machines : List MachineStatus) : Sound (s.onStatus machines) := by
  have hactive : ∀ b, (s.setMachines machines).chosen = some b →
      s.activeMachineId = some b ∨ Waits (Request.switchesTo b) s.pending :=
    fun b hb => h.follows.active b (chosen_setMachines hb).1
  have hpreferred : ∀ b, (s.setMachines machines).chosen = some b → s.activeMachineId = some b →
      (s.push machines).preferred = some b :=
    fun b hb hab => preferred_of_active hab (chosen_setMachines hb).2
  rw [AppState.onStatus]
  split
  · refine ⟨(h.one.setMachines machines).request _, listed_setMachines s machines, fun b hb => ?_,
      fun b hb => ?_⟩
    · exact (hactive b hb).imp_right fun hto => hto.append _
    · exact .inl ⟨_, List.mem_append_right _ (List.mem_singleton_self _), rfl⟩
  · refine (h.one.setMachines machines).followStatus (listed_setMachines s machines)
      (fun _ b hb => ?_) (fun _ b hb => ⟨hactive b hb, ?_⟩)
    · exact (hactive b hb).imp_left (hpreferred b hb)
    · obtain hab | hto := hactive b hb
      · rw [hpreferred b hb hab]
        exact .inr rfl
      · exact .inl hto.settling

/-- The end of a reseed. -/
theorem sound_seed (hactive : ∀ b, s.chosen = some b →
      s.activeMachineId = some b ∨ Waits (Request.switchesTo b) s.pending)
    (machines : List MachineStatus) :
    Sound (s.seed machines) := by
  have hto : ∀ b, (s.setMachines machines).chosen = some b →
      (((s.setMachines machines).preferred machines).filter fun id => decide (id ≠ [])) = some b ∨
        Waits (Request.switchesTo b) s.pending := by
    intro b hb
    obtain ⟨hchosen, hlisted⟩ := chosen_setMachines hb
    refine (hactive b hchosen).imp_left fun hab => ?_
    have hpref : (s.setMachines machines).preferred machines = some b := preferred_of_active hab hlisted
    rw [hpref, Option.filter_eq_some_iff]
    exact ⟨rfl, decide_eq_true (listed_eq_some.mp hlisted).2.1⟩
  rw [AppState.seed]
  split
  · rename_i hnone
    refine (listed_setMachines s machines).showNothing fun b hb => ?_
    exact (hto b hb).resolve_left fun heq => by cases hnone.symm.trans heq
  · rename_i id hid
    refine (listed_setMachines s machines).setActiveMachine fun b hb => ?_
    exact (hto b hb).imp_left fun heq => hid.symm.trans heq

/-! ### Replies -/

/-- The steps at which no continuation that read the store before its `await` acts on what has
changed since: terminals come for the machine that is still shown; a status push that was held up by
the module specs shows the chosen machine or sets the status from its present entry, unless another
one that waits will do so; and a list that would have corrected the status does not fail to come. -/
def Allowed (s : AppState) (event : AppEvent) : Prop :=
  match event, s.pending with
  | .reply (.terminals list), .terminals id :: _ =>
    ∀ t ∈ list, some t.machineId = id → id = s.activeMachineId
  | .reply _, .specs (.status p) :: rest => ∀ b ∈ s.chosen,
    if p.switches then p.preferred = some b ∨ Waits (Request.switchesTo b) rest
    else Waits Request.settles rest ∨ p.preferred.bind (find p.machines) = find s.machines b
  | .reply (.status _), .status :: _ => True
  | .reply _, .status :: rest => ∀ b ∈ s.chosen,
    Waits Request.settles rest ∨ s.status = find s.machines b
  | _, _ => True

instance (s : AppState) (event : AppEvent) : Decidable (s.Allowed event) := by
  unfold Allowed
  split <;> infer_instance

/-- A reply to a request that shows no machine and sets no status, before it takes effect. -/
theorem Sound.pop (h : Sound s) {r : Request} {rest : List Request} (hp : s.pending = r :: rest)
    (hr : r.settles = false) : Sound { s with pending := rest } :=
  ⟨⟨h.one.system, h.one.top, h.one.terminals⟩, h.follows.pop hp hr⟩

/-- What still is known when a request that may set the status is answered. -/
theorem Follows.active_tail (h : s.Follows) {r : Request} {rest : List Request}
    (hp : s.pending = r :: rest) {b : Text} (hr : r.switchesTo b = false) (hb : s.chosen = some b) :
    s.activeMachineId = some b ∨ Waits (Request.switchesTo b) rest := by
  have hactive := h.active b hb
  rw [hp] at hactive
  exact hactive.imp_right fun hto => hto.tail hr

theorem Sound.answered_history (h : Sound s) {id : Text} {generation : Nat} (answer : Answer) :
    Sound (s.answered (.history id generation) answer) := by
  cases answer with
  | history system top =>
    rw [answered]
    split
    · exact h
    · rename_i hgo
      push Not at hgo
      refine Sound.request (s := { s with
          system := system.map (Sample.mk id), topNow := top.map (Sample.mk id) })
        ⟨⟨?_, ?_, h.one.terminals⟩, h.follows.listed, h.follows.active, h.follows.status⟩ _
      · intro x hx
        obtain ⟨t, -, rfl⟩ := List.mem_map.mp hx
        exact hgo.2.symm
      · intro x hx
        obtain ⟨t, -, rfl⟩ := Option.map_eq_some_iff.mp hx
        exact hgo.2.symm
  | specs => exact h
  | terminals list => exact h
  | status machines => exact h
  | failed => exact h

theorem Sound.answered_terminals (h : Sound s) {id : Option Text} (answer : Answer)
    (hok : ∀ list, answer = .terminals list → ∀ t ∈ list, some t.machineId = id →
      id = s.activeMachineId) : Sound (s.answered (.terminals id) answer) := by
  cases answer with
  | terminals list =>
    refine ⟨⟨h.one.system, h.one.top, fun t ht => ?_⟩, h.follows.listed, h.follows.active,
      h.follows.status⟩
    obtain ⟨hmem, hid⟩ := List.mem_filter.mp ht
    have hid : some t.machineId = id := of_decide_eq_true hid
    exact hid.trans (hok list rfl t hmem hid)
  | specs => exact h
  | history system top => exact h
  | status machines => exact h
  | failed => exact h

theorem Sound.answered_status (h : Sound s) {rest : List Request} (hp : s.pending = .status :: rest)
    (answer : Answer) (hok : s.Allowed (.reply answer)) :
    Sound ({ s with pending := rest }.answered .status answer) := by
  have hactive := fun b (hb : s.chosen = some b) => h.follows.active_tail hp (b := b) rfl hb
  have hone : OneMachine { s with pending := rest } := ⟨h.one.system, h.one.top, h.one.terminals⟩
  have hlost : (∀ b, s.chosen = some b → Waits Request.settles rest ∨ s.status = find s.machines b) →
      Sound { s with pending := rest } := fun hstatus => ⟨hone, h.follows.listed, hactive, hstatus⟩
  simp only [Allowed, hp] at hok
  cases answer with
  | status machines =>
    refine ⟨⟨hone.system, hone.top, hone.terminals⟩, h.follows.listed, fun b hb => ?_, fun b hb => ?_⟩
    · exact (hactive b hb).imp_right fun hto => (hto.append _).append _
    · exact .inl ⟨_, List.mem_append_right _ (List.mem_singleton_self _), rfl⟩
  | specs => exact hlost hok
  | history system top => exact hlost hok
  | terminals list => exact hlost hok
  | failed => exact hlost hok

theorem Sound.resume_push (h : Sound s) {rest : List Request} {p : Push}
    (hp : s.pending = .specs (.status p) :: rest) {answer : Answer}
    (hok : s.Allowed (.reply answer)) : Sound ({ s with pending := rest }.followStatus p) := by
  simp only [Allowed, hp] at hok
  have hone : OneMachine { s with pending := rest } := ⟨h.one.system, h.one.top, h.one.terminals⟩
  refine hone.followStatus h.follows.listed (fun hto b hb => ?_)
    (fun hto b hb => ⟨?_, ?_⟩)
  · have := hok b hb
    rwa [if_pos hto] at this
  · exact h.follows.active_tail hp (by simp [Request.switchesTo, hto]) hb
  · have := hok b hb
    rwa [if_neg (by simp [hto])] at this

theorem Sound.reply (h : Sound s) {answer : Answer} (hok : s.Allowed (.reply answer)) :
    Sound (s.reply answer) := by
  rw [AppState.reply]
  split
  · exact h
  · rename_i r rest hp
    cases r with
    | specs waiter =>
      cases waiter with
      | nobody => exact h.pop hp rfl
      | status p => exact h.resume_push hp hok
      | reseed machines =>
        exact sound_seed (s := { s with pending := rest })
          (fun b hb => h.follows.active_tail hp rfl hb) machines
    | history id generation => exact (h.pop hp rfl).answered_history answer
    | terminals id =>
      refine (h.pop hp rfl).answered_terminals answer fun list heq => ?_
      subst heq
      simpa only [Allowed, hp] using hok
    | status => exact h.answered_status hp answer hok

/-! ### Runs -/

theorem Sound.step {event : AppEvent} (h : Sound s) (hok : s.Allowed event) : Sound (s.step event) := by
  cases event with
  | setActiveMachine machineId =>
    refine Listed.setActiveMachine (s := { s with chosen := listed s.machines machineId })
      (fun b hb => (listed_eq_some.mp hb).2) fun b hb => .inl (listed_eq_some.mp hb).1
  | status machines => exact h.onStatus machines
  | reconnected => exact h.request _
  | system sample now =>
    rw [AppState.step]
    split
    · rename_i hactive
      refine ⟨⟨fun x hx => ?_, h.one.top, h.one.terminals⟩, h.follows.listed, h.follows.active,
        h.follows.status⟩
      obtain hx | hx := List.mem_append.mp ((List.dropWhile_sublist _).subset hx)
      · exact h.one.system x hx
      · obtain rfl := List.mem_singleton.mp hx
        exact hactive
    · exact h
  | top sample =>
    rw [AppState.step]
    split
    · rename_i hactive
      refine ⟨⟨h.one.system, fun x hx => ?_, h.one.terminals⟩, h.follows.listed, h.follows.active,
        h.follows.status⟩
      cases hx
      exact hactive
    · exact h
  | terminalExit => exact h.request _
  | listChanged => exact h.request _
  | reply answer => exact h.reply hok

/-- From any stored machine, in every run in which no continuation acts on what it read before. -/
theorem store_sane {storage : Bool} {stored : Option Text} {events : List AppEvent}
    (h : Guarded step Allowed (start storage stored) events) :
    Sane (run step (start storage stored) events) :=
  (run_preserves (fun _ _ hs hok => Sound.step hs hok) h (sound_start storage stored)).sane

/-! ### Three machines -/

def entry (name : String) (revision : Nat) : MachineStatus := ⟨js name, revision, none, none, none⟩

/-- Two machines come up, and the first of them is shown. -/
def twoMachines : List AppEvent :=
  [.status [entry "web" 1, entry "db" 1], .reply .specs, .reply (.history [7] none),
    .reply (.terminals [])]

/-- A terminal ends just before the user turns to the other machine. -/
def exitThenChoice (after : List TerminalInfo) : List AppEvent :=
  twoMachines ++ [.terminalExit, .setActiveMachine (some (js "db")), .reply (.terminals after),
    .reply (.history [] none), .reply (.terminals [])]

/-- A machine comes up while the one shown is connected anew, and the user turns to the other. -/
def pushThenChoice (revision : Nat) : List AppEvent :=
  twoMachines ++ [.status [entry "web" revision, entry "db" 1, entry "nas" 1],
    .setActiveMachine (some (js "db")), .reply .specs, .reply (.history [] none),
    .reply (.history [] none), .reply (.terminals [])]

theorem store_sane_exit : Sane (run step (start true none) (exitThenChoice [⟨js "t1", js "db"⟩])) :=
  store_sane (by decide +kernel)

/-- The terminals of the machine that was left are shown for the other one; and a push takes back the
user's choice. -/
theorem two_machines_mixed :
    ¬ (run step (start true none)
      ((exitThenChoice [⟨js "t1", js "web"⟩]).take 7)).OneMachine ∧
    ¬ (run step (start true none) (pushThenChoice 2)).AtRest := by
  constructor
  · intro h
    have hshown := h.terminals ⟨js "t1", js "web"⟩ (by decide +kernel)
    exact absurd hshown (by decide +kernel)
  · intro h
    have hshown := h (by decide +kernel) (js "db") (by decide +kernel)
    exact absurd hshown.1 (by decide +kernel)

end AppState
end BoredManager.Client.State
