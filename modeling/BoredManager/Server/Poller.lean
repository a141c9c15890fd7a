import BoredManager.Js.Number
import BoredManager.Server.SessionRegistryRuns

/-! A repeating job with its interval timer and its entry in the session registry. -/
namespace BoredManager.Server.Polling
open BoredManager.Js BoredManager.Machine BoredManager.Server.Registry

/-- `n > 0`. -/
def isPositive : Number → Bool
  | .fin q => 0 < q
  | .inf negative => !negative
  | .nan => false

/-- `n <= 0`. -/
def isNonpositive : Number → Bool
  | .fin q => q ≤ 0
  | .inf negative => negative
  | .nan => false

/-- `a === b` on numbers. -/
def isSame (a b : Number) : Bool := a ≠ .nan && a = b

/-- The poller, with the timers that run, the ticks under way and the registry. -/
structure Poller where
  timer : Option Nat
  running : Bool
  inFlight : Bool
  registryId : Option Nat
  intervalMs : Number
  /-- The interval timers that were set and not cleared, and how many were set. -/
  timers : List Nat
  created : Nat
  executing : Nat
  ticks : Nat
  registry : SessionRegistry
  /-- The entries that were registered for this poller. -/
  own : List Nat
deriving DecidableEq

namespace Poller

def new : Poller := ⟨none, false, false, none, .fin 0, [], 0, 0, 0, .new, []⟩

variable (p : Poller)

def clearTimer : Poller :=
  match p.timer with
  | some timer => { p with timers := p.timers.erase timer, timer := none }
  | none => p

def clear : Poller :=
  let p := { p with running := false }.clearTimer
  match p.registryId with
  | some id => { p with registry := p.registry.unregister id, registryId := none }
  | none => p

def stop : Poller := p.clear

/-- `registry.register`, which calls the disposer at once when the shutdown has begun. -/
def register : Poller :=
  let id := p.registry.counter + 1
  let late := p.registry.state ≠ .active
  let p := { p with registry := p.registry.register, own := id :: p.own }
  let p := if late then p.stop else p
  { p with registryId := some id }

def loop : Poller :=
  if !p.running || p.inFlight then p
  else { p with inFlight := true, executing := p.executing + 1, ticks := p.ticks + 1 }

def setInterval : Poller :=
  { p with timers := p.timers ++ [p.created + 1], created := p.created + 1, timer := some (p.created + 1) }

def start (intervalMs : Number) : Poller :=
  if isPositive intervalMs && p.running && isSame p.intervalMs intervalMs then p
  else
    let p := p.clear
    if isNonpositive intervalMs then p
    else { p with running := true, intervalMs := intervalMs }.register.loop.setInterval

/-- The interval timer calls `loop`. -/
def fire (timer : Nat) : Poller := if timer ∈ p.timers then p.loop else p

/-- A tick completes or fails. -/
def finish : Poller :=
  if 0 < p.executing then { p with inFlight := false, executing := p.executing - 1 } else p

/-- `registry.dispose(id)`. -/
def dispose (id : Nat) : Poller :=
  let q := { p with registry := p.registry.dispose id }
  if id ∈ p.registry.items ∧ id ∈ p.own then q.stop else q

/-- `registry.disposeAll()` up to its first `await`: the first round calls every disposer. -/
def disposeAll : Poller :=
  let round := .disposeAll :: (List.replicate p.registry.items.length .call ++ [.collect])
  let q := { p with registry := run SessionRegistry.step p.registry round }
  if p.registry.shutdown = .none ∧ ∃ id ∈ p.registry.items, id ∈ p.own then q.stop else q

/-- What else happens to the registry: only the poller has the ids of its entries. -/
def others : RegistryEvent → Poller
  | .dispose _ | .disposeAll | .call => p
  | .unregister id => if id ∈ p.own then p else { p with registry := p.registry.unregister id }
  | event => { p with registry := p.registry.step event }

end Poller

inductive PollerEvent where
  | start (intervalMs : Number) | stop | fire (timer : Nat) | finish
  | dispose (id : Nat) | disposeAll | others (event : RegistryEvent)
deriving DecidableEq

def Poller.step (p : Poller) : PollerEvent → Poller
  | .start intervalMs => p.start intervalMs
  | .stop => p.stop
  | .fire timer => p.fire timer
  | .finish => p.finish
  | .dispose id => p.dispose id
  | .disposeAll => p.disposeAll
  | .others event => p.others event

end BoredManager.Server.Polling

/-! Ticks never overlap, and a poller has one timer and one entry while it is active and none
otherwise, exactly as long as it is not started once the registry has begun its shutdown. -/
namespace BoredManager.Server.Polling
open BoredManager.Js BoredManager.Machine BoredManager.Server.Registry

variable {p q : Poller} {id : Nat} {event : PollerEvent}

/-- The poller's entries in the registry. -/
def Poller.entries (p : Poller) : List Nat := p.registry.items.filter (· ∈ p.own)

theorem mem_entries : id ∈ p.entries ↔ id ∈ p.registry.items ∧ id ∈ p.own := by
  simp [Poller.entries]

/-- What holds at every moment of every run. -/
structure Kept (p : Poller) : Prop where
  registry : Sound p.registry
  begun : ∀ id ∈ p.own, id ≤ p.registry.counter
  single : p.executing = if p.inFlight then 1 else 0
  held : p.timers = p.timer.toList
  interval : p.running = true → isNonpositive p.intervalMs = false
  on : p.running = true → p.registry.state = .active ∧ p.timer.isSome = true ∧
    ∃ id, p.registryId = some id ∧ p.entries = [id]
  off : p.running = false → p.registry.state = .active →
    p.timer = none ∧ p.registryId = none ∧ p.entries = []

theorem kept_new : Kept .new :=
  ⟨sound_new, by simp [Poller.new], rfl, rfl, nofun, nofun, fun _ _ => ⟨rfl, rfl, rfl⟩⟩

theorem Kept.entry (h : Kept p) (hid : id ∈ p.entries) : p.registryId = some id := by
  by_cases hstate : p.registry.state = .active
  · cases hrunning : p.running with
    | true =>
      obtain ⟨-, -, own, hown, hentries⟩ := h.on hrunning
      rw [hentries, List.mem_singleton] at hid
      rw [hid, hown]
    | false =>
      rw [(h.off hrunning hstate).2.2] at hid
      cases hid
  · rw [Poller.entries, h.registry.items_of_not_active hstate] at hid
    cases hid

/-- What `clear` leaves. -/
structure Cleared (p q : Poller) : Prop where
  running : q.running = false
  timer : q.timer = none
  timers : q.timers = []
  registryId : q.registryId = none
  entries : q.entries = []
  sound : Sound q.registry
  state : q.registry.state = p.registry.state
  counter : q.registry.counter = p.registry.counter
  own : q.own = p.own
  inFlight : q.inFlight = p.inFlight
  executing : q.executing = p.executing
  ticks : q.ticks = p.ticks

theorem clearTimer_eq (h : p.timers = p.timer.toList) :
    p.clearTimer = { p with timers := [], timer := none } := by
  obtain ⟨timer, running, inFlight, registryId, intervalMs, timers, created⟩ := p
  cases timer with
  | none =>
    cases h
    rfl
  | some timer =>
    cases h
    simp [Poller.clearTimer]

theorem cleared_clear (hheld : p.timers = p.timer.toList) (hsound : Sound p.registry)
    (hentry : ∀ id ∈ p.entries, p.registryId = some id) : Cleared p p.clear := by
  have htimer : ({ p with running := false } : Poller).clearTimer =
      { p with running := false, timers := [], timer := none } := clearTimer_eq hheld
  rw [Poller.clear, htimer]
  dsimp only
  split
  · rename_i own hown
    obtain ⟨hitems, hstate, hcounter⟩ := unregister_cases p.registry own
    refine ⟨rfl, rfl, rfl, rfl, List.eq_nil_iff_forall_not_mem.mpr fun id hmem => ?_,
      hsound.unregister own, hstate, hcounter, rfl, rfl, rfl, rfl⟩
    obtain ⟨hitem, hmine⟩ := mem_entries.mp hmem
    dsimp only at hitem hmine
    rw [hitems] at hitem
    have hsame := hentry id (mem_entries.mpr ⟨List.mem_of_mem_erase hitem, hmine⟩)
    rw [hown] at hsame
    cases hsame
    exact hsound.nodup_items.not_mem_erase hitem
  · rename_i hnone
    refine ⟨rfl, rfl, rfl, hnone, List.eq_nil_iff_forall_not_mem.mpr fun id hmem => ?_, hsound, rfl,
      rfl, rfl, rfl, rfl, rfl⟩
    have hsome := hentry id hmem
    rw [hnone] at hsome
    cases hsome

/-- A poller that was cleared, its registry aside. -/
theorem Cleared.kept (h : Cleared p q) (hbegun : ∀ id ∈ p.own, id ≤ p.registry.counter)
    (hsingle : p.executing = if p.inFlight then 1 else 0) : Kept q := by
  refine ⟨h.sound, fun id hid => ?_, ?_, ?_, fun hrunning => ?_, fun hrunning => ?_, fun _ _ =>
    ⟨h.timer, h.registryId, h.entries⟩⟩
  · rw [h.own] at hid
    rw [h.counter]
    exact hbegun id hid
  · rw [h.executing, h.inFlight]
    exact hsingle
  · rw [h.timers, h.timer]
    rfl
  · rw [h.running] at hrunning
    cases hrunning
  · rw [h.running] at hrunning
    cases hrunning

theorem Kept.cleared (h : Kept p) : Cleared p p.clear :=
  cleared_clear h.held h.registry fun _ hid => h.entry hid

theorem Kept.stop (h : Kept p) : Kept p.stop := h.cleared.kept h.begun h.single

theorem loop_of_not_running (h : p.running = false) : p.loop = p := by
  rw [Poller.loop, if_pos (by simp [h])]

theorem Kept.finish (h : Kept p) : Kept p.finish := by
  rw [Poller.finish]
  split_ifs with hpos
  · refine ⟨h.registry, h.begun, ?_, h.held, h.interval, h.on, h.off⟩
    have hone := h.single
    dsimp only
    split_ifs at hone
    · simp [hone]
    · omega
  · exact h

theorem filter_erase_of_not {l own : List Nat} (hnodup : l.Nodup) (hnot : id ∉ own) :
    (l.erase id).filter (· ∈ own) = l.filter (· ∈ own) := by
  rw [hnodup.erase_eq_filter, List.filter_filter]
  refine List.filter_congr fun x _ => ?_
  by_cases hx : x ∈ own
  · have hne : x ≠ id := fun heq => hnot (heq ▸ hx)
    simp [hx, hne]
  · simp [hx]

/-- Changes of the registry that leave the poller's entries. -/
theorem Kept.registry_change (h : Kept p) {r : SessionRegistry} (hsound : Sound r)
    (hcounter : p.registry.counter ≤ r.counter) (hactive : r.state = .active ↔ p.registry.state = .active)
    (hentries : r.items.filter (· ∈ p.own) = p.entries) : Kept { p with registry := r } := by
  refine ⟨hsound, fun id hid => (h.begun id hid).trans hcounter, h.single, h.held, h.interval,
    fun hrunning => ?_, fun hrunning hstate => ?_⟩
  · obtain ⟨hstate, htimer, id, hid, hone⟩ := h.on hrunning
    exact ⟨hactive.mpr hstate, htimer, id, hid, hentries.trans hone⟩
  · obtain ⟨htimer, hid, hnone⟩ := h.off hrunning (hactive.mp hstate)
    exact ⟨htimer, hid, hentries.trans hnone⟩

theorem Kept.dispose (h : Kept p) (id : Nat) : Kept (p.dispose id) := by
  obtain ⟨hitems, hstate, hcounter⟩ := dispose_cases p.registry id
  have hsound := h.registry.dispose id
  rw [Poller.dispose]
  split_ifs with hown
  · refine Cleared.kept (cleared_clear h.held hsound fun own hmem => ?_) (hcounter.symm ▸ h.begun) h.single
    obtain ⟨hitem, hmine⟩ := mem_entries.mp hmem
    dsimp only at hitem hmine
    rw [hitems] at hitem
    exact h.entry (mem_entries.mpr ⟨List.mem_of_mem_erase hitem, hmine⟩)
  · refine h.registry_change hsound hcounter.symm.le (by rw [hstate]) ?_
    rw [hitems]
    by_cases hmem : id ∈ p.registry.items
    · exact filter_erase_of_not h.registry.nodup_items fun hmine => hown ⟨hmem, hmine⟩
    · rw [List.erase_of_not_mem hmem]
      rfl

theorem Kept.disposeAll (h : Kept p) : Kept p.disposeAll := by
  obtain ⟨hsound, hbegun, hcounter⟩ := h.registry.round_run p.registry.items.length
  have hnotactive : (run SessionRegistry.step p.registry
      (.disposeAll :: (List.replicate p.registry.items.length .call ++ [.collect]))).state ≠ .active :=
    fun hactive => hbegun (hsound.active.mp hactive)
  have hitems := hsound.items_of_not_active hnotactive
  rw [Poller.disposeAll]
  split_ifs with hown
  · refine Cleared.kept (cleared_clear h.held hsound fun own hmem => ?_) (hcounter.symm ▸ h.begun) h.single
    have hitem := (mem_entries.mp hmem).1
    dsimp only at hitem
    rw [hitems] at hitem
    cases hitem
  · have hnot : p.running = true → False := fun hrunning => by
      obtain ⟨hactive, -, id, -, hone⟩ := h.on hrunning
      have hmem : id ∈ p.entries := by rw [hone]; exact List.mem_cons_self
      obtain ⟨hitem, hmine⟩ := mem_entries.mp hmem
      exact hown ⟨h.registry.active.mp hactive, id, hitem, hmine⟩
    exact ⟨hsound, hcounter.symm ▸ h.begun, h.single, h.held, h.interval,
      fun hrunning => (hnot hrunning).elim, fun _ hactive => absurd hactive hnotactive⟩

theorem Kept.others (h : Kept p) (event : RegistryEvent) : Kept (p.others event) := by
  have hquiet : ∀ event : RegistryEvent, event ≠ .register → (∀ id, event ≠ .unregister id) →
      (∀ id, event ≠ .dispose id) → event ≠ .disposeAll →
      Kept { p with registry := p.registry.step event } := fun event hr hu hd ha => by
    obtain ⟨hitems, hcounter, hactive⟩ := h.registry.quiet_step hr hu hd ha
    exact h.registry_change (h.registry.step event) hcounter.symm.le hactive (by rw [hitems]; rfl)
  cases event with
  | dispose id => exact h
  | disposeAll => exact h
  | call => exact h
  | unregister id =>
    rw [Poller.others]
    split_ifs with hmine
    · exact h
    · obtain ⟨hitems, hstate, hcounter⟩ := unregister_cases p.registry id
      refine h.registry_change (h.registry.unregister id) hcounter.symm.le (by rw [hstate]) ?_
      rw [hitems]
      exact filter_erase_of_not h.registry.nodup_items hmine
  | register =>
    obtain ⟨hcounter, hstate, hitems⟩ := register_cases p.registry
    change Kept { p with registry := p.registry.register }
    refine h.registry_change h.registry.register (by omega) (by rw [hstate]) ?_
    have hfresh : p.registry.counter + 1 ∉ p.own := fun hmine => by
      have hle := h.begun _ hmine
      omega
    obtain ⟨-, hitems⟩ | ⟨-, hitems⟩ := hitems
    · simp [hitems, Poller.entries, hfresh]
    · rw [hitems]
      rfl
  | collect => exact hquiet .collect nofun nofun nofun nofun
  | settle id => exact hquiet (.settle id) nofun nofun nofun nofun
  | forget id => exact hquiet (.forget id) nofun nofun nofun nofun
  | wake => exact hquiet .wake nofun nofun nofun nofun
  | expire => exact hquiet .expire nofun nofun nofun nofun
  | look => exact hquiet .look nofun nofun nofun nofun
  | close => exact hquiet .close nofun nofun nofun nofun
  | resolve => exact hquiet .resolve nofun nofun nofun nofun

theorem loop_cases (p : Poller) : p.loop = p ∨ p.running = true ∧ p.inFlight = false ∧
    p.loop = { p with inFlight := true, executing := p.executing + 1, ticks := p.ticks + 1 } := by
  rw [Poller.loop]
  split_ifs with hidle
  · exact .inl rfl
  · simp only [Bool.or_eq_true, Bool.not_eq_true', not_or, Bool.not_eq_false,
      Bool.not_eq_true] at hidle
    exact .inr ⟨hidle.1, hidle.2, rfl⟩

theorem single_loop (h : p.executing = if p.inFlight then 1 else 0) :
    p.loop.executing = if p.loop.inFlight then 1 else 0 := by
  obtain hsame | ⟨-, hnot, hloop⟩ := loop_cases p
  · rw [hsame]
    exact h
  · rw [hloop]
    rw [hnot] at h
    simpa using h

/-- `loop` begins a tick or does nothing. -/
theorem Kept.loop (h : Kept p) : Kept p.loop := by
  have hsingle := single_loop h.single
  obtain hsame | ⟨-, -, hloop⟩ := loop_cases p
  · rw [hsame]
    exact h
  · rw [hloop] at hsingle ⊢
    exact ⟨h.registry, h.begun, hsingle, h.held, h.interval, h.on, h.off⟩

theorem Kept.fire (h : Kept p) (timer : Nat) : Kept (p.fire timer) := by
  rw [Poller.fire]
  split_ifs
  · exact h.loop
  · exact h

/-- The end of `start`: a first tick and the timer. -/
theorem kept_setInterval (hregistry : Sound p.registry) (hbegun : ∀ id ∈ p.own, id ≤ p.registry.counter)
    (hsingle : p.executing = if p.inFlight then 1 else 0) (htimers : p.timers = [])
    (hinterval : p.running = true → isNonpositive p.intervalMs = false)
    (hon : p.running = true → p.registry.state = .active ∧
      ∃ id, p.registryId = some id ∧ p.entries = [id])
    (hoff : p.running = false → p.registry.state ≠ .active) : Kept p.loop.setInterval := by
  have hsingle := single_loop hsingle
  have hframe : p.loop.registry = p.registry ∧ p.loop.own = p.own ∧ p.loop.timers = p.timers ∧
      p.loop.running = p.running ∧ p.loop.intervalMs = p.intervalMs ∧
      p.loop.registryId = p.registryId := by
    obtain hsame | ⟨-, -, hloop⟩ := loop_cases p
    · rw [hsame]
      exact ⟨rfl, rfl, rfl, rfl, rfl, rfl⟩
    · rw [hloop]
      exact ⟨rfl, rfl, rfl, rfl, rfl, rfl⟩
  obtain ⟨hr, hown, ht, hrun, hinter, hid⟩ := hframe
  have hentries : p.loop.setInterval.entries = p.entries := by
    change p.loop.registry.items.filter (· ∈ p.loop.own) = _
    rw [hr, hown]
    rfl
  refine ⟨?_, ?_, hsingle, ?_, ?_, fun hrunning => ?_, fun hrunning hactive => ?_⟩
  · exact hr.symm ▸ hregistry
  · intro id hmem
    change id ≤ p.loop.registry.counter
    rw [hr]
    exact hbegun id (hown ▸ hmem)
  · change p.loop.timers ++ _ = _
    rw [ht, htimers]
    rfl
  · change p.loop.running = true → isNonpositive p.loop.intervalMs = false
    rw [hrun, hinter]
    exact hinterval
  · obtain ⟨hactive, id, hsome, hone⟩ := hon (hrun.symm.trans hrunning)
    exact ⟨hr.symm ▸ hactive, rfl, id, hid.trans hsome, hentries.trans hone⟩
  · exact absurd (hr ▸ hactive) (hoff (hrun.symm.trans hrunning))

/-- A poller that was cleared and set running. -/
theorem kept_register (hregistry : Sound p.registry) (hbegun : ∀ id ∈ p.own, id ≤ p.registry.counter)
    (hsingle : p.executing = if p.inFlight then 1 else 0) (htimer : p.timer = none)
    (htimers : p.timers = []) (hentries : p.entries = []) (hrunning : p.running = true)
    (hinterval : isNonpositive p.intervalMs = false) :
    Kept p.register.loop.setInterval ∧ (p.registry.state = .active → p.register.running = true) ∧
      (p.registry.state ≠ .active → p.register.running = false ∧ p.register.ticks = p.ticks) := by
  have hsound := hregistry.register
  obtain ⟨hcounter, hstate, hitems⟩ := register_cases p.registry
  have hown : ∀ id ∈ (p.registry.counter + 1) :: p.own, id ≤ p.registry.register.counter := by
    intro id hid
    obtain rfl | hid := List.mem_cons.mp hid
    · exact hcounter.symm.le
    · have hle := hbegun id hid
      omega
  by_cases hactive : p.registry.state = .active
  · obtain ⟨-, hitems⟩ | ⟨hnot, -⟩ := hitems
    · have hone : p.registry.register.items.filter (· ∈ (p.registry.counter + 1) :: p.own) =
          [p.registry.counter + 1] := by
        have hold : p.registry.items.filter (· ∈ (p.registry.counter + 1) :: p.own) = [] := by
          refine List.filter_eq_nil_iff.mpr fun id hid hmine => ?_
          obtain rfl | hmine := List.mem_cons.mp (of_decide_eq_true hmine)
          · have hle := hregistry.item_le hid
            omega
          · have hmem : id ∈ p.entries := mem_entries.mpr ⟨hid, hmine⟩
            rw [hentries] at hmem
            cases hmem
        rw [hitems, List.filter_append, hold]
        simp
      have hregister : p.register = { p with
          registry := p.registry.register
          own := (p.registry.counter + 1) :: p.own
          registryId := some (p.registry.counter + 1) } := by
        rw [Poller.register]
        simp [hactive]
      rw [hregister]
      refine ⟨kept_setInterval hsound hown hsingle htimers (fun _ => hinterval)
        (fun _ => ⟨hstate.trans hactive, _, rfl, hone⟩) fun hnot => ?_, fun _ => hrunning,
        fun hnot => absurd hactive hnot⟩
      rw [show p.running = false from hnot] at hrunning
      cases hrunning
    · exact absurd hactive hnot
  · have hlate : p.registry.register.state ≠ .active := fun h => hactive (hstate.symm.trans h)
    obtain ⟨late, hlate_eq⟩ : ∃ late : Poller, late = { p with
        registry := p.registry.register, own := (p.registry.counter + 1) :: p.own } := ⟨_, rfl⟩
    have hregister : p.register = { late.clear with registryId := some (p.registry.counter + 1) } := by
      rw [Poller.register, hlate_eq]
      simp [hactive, Poller.stop]
    have hcleared : Cleared late late.clear := by
      refine cleared_clear ?_ ?_ fun id hid => ?_
      · rw [hlate_eq]
        dsimp only
        rw [htimers, htimer]
        rfl
      · rw [hlate_eq]
        exact hsound
      · have hitem := (mem_entries.mp hid).1
        rw [hlate_eq] at hitem
        dsimp only at hitem
        rw [hsound.items_of_not_active hlate] at hitem
        cases hitem
    have hbelow : ∀ id ∈ late.clear.own, id ≤ late.clear.registry.counter := by
      rw [hcleared.own, hcleared.counter, hlate_eq]
      exact hown
    have hticks : late.clear.executing = if late.clear.inFlight then 1 else 0 := by
      rw [hcleared.executing, hcleared.inFlight, hlate_eq]
      exact hsingle
    have hstopped : late.clear.running = true → False := fun hrun => by
      rw [hcleared.running] at hrun
      cases hrun
    have hnot : late.clear.registry.state ≠ .active := by
      rw [hcleared.state, hlate_eq]
      exact hlate
    rw [hregister]
    refine ⟨kept_setInterval hcleared.sound hbelow hticks hcleared.timers
      (fun hrun => (hstopped hrun).elim) (fun hrun => (hstopped hrun).elim) fun _ => hnot,
      fun h => absurd h hactive, fun _ => ⟨hcleared.running, hcleared.ticks.trans (by rw [hlate_eq])⟩⟩

theorem running_setInterval (p : Poller) : p.loop.setInterval.running = p.running := by
  obtain hsame | ⟨-, -, hloop⟩ := loop_cases p
  · rw [hsame]
    rfl
  · rw [hloop]
    rfl

theorem nonpositive_of_positive {n : Number} (h : isPositive n = true) : isNonpositive n = false := by
  cases n with
  | fin q =>
    simp only [isPositive, isNonpositive, decide_eq_true_eq, decide_eq_false_iff_not, not_le] at h ⊢
    exact h
  | inf negative => simpa [isPositive, isNonpositive] using h
  | nan => rfl

/-- What `start` does: nothing, a mere stop, or a new beginning. -/
theorem start_cases (h : Kept p) (intervalMs : Number) :
    p.start intervalMs = p ∧ p.running = true ∧ isNonpositive intervalMs = false ∨
      isNonpositive intervalMs = true ∧ p.start intervalMs = p.clear ∨
      isNonpositive intervalMs = false ∧ Kept (p.start intervalMs) ∧
        (p.registry.state = .active → (p.start intervalMs).running = true) ∧
        (p.registry.state ≠ .active → (p.start intervalMs).running = false ∧
          (p.start intervalMs).timers ≠ [] ∧ (p.start intervalMs).ticks = p.ticks) := by
  by_cases hsame : (isPositive intervalMs && p.running && isSame p.intervalMs intervalMs) = true
  · rw [Poller.start, if_pos hsame]
    simp only [Bool.and_eq_true] at hsame
    exact .inl ⟨rfl, hsame.1.2, nonpositive_of_positive hsame.1.1⟩
  cases hnone : isNonpositive intervalMs with
  | true =>
    refine .inr (.inl ⟨rfl, ?_⟩)
    rw [Poller.start, if_neg hsame]
    simp [hnone]
  | false =>
    have hcleared := h.cleared
    obtain ⟨q, hq⟩ : ∃ q : Poller, q = { p.clear with running := true, intervalMs := intervalMs } :=
      ⟨_, rfl⟩
    have hstart : p.start intervalMs = q.register.loop.setInterval := by
      rw [Poller.start, if_neg hsame, hq]
      simp [hnone]
    have hbegun : ∀ id ∈ q.own, id ≤ q.registry.counter := by
      rw [hq]
      dsimp only
      rw [hcleared.own, hcleared.counter]
      exact h.begun
    have hsingle : q.executing = if q.inFlight then 1 else 0 := by
      rw [hq]
      dsimp only
      rw [hcleared.executing, hcleared.inFlight]
      exact h.single
    have hstate : q.registry.state = p.registry.state := by
      rw [hq]
      exact hcleared.state
    obtain ⟨hkept, hactive, hlate⟩ := kept_register (hq ▸ hcleared.sound) hbegun hsingle
      (hq ▸ hcleared.timer) (hq ▸ hcleared.timers) (hq ▸ hcleared.entries) (by rw [hq]) (hq ▸ hnone)
    rw [hstart]
    refine .inr (.inr ⟨rfl, hkept, fun h => ?_, fun h => ?_⟩)
    · exact (running_setInterval _).trans (hactive (hstate.trans h))
    · obtain ⟨hstopped, hticks⟩ := hlate fun hactive => h (hstate.symm.trans hactive)
      rw [loop_of_not_running hstopped]
      refine ⟨hstopped, List.append_ne_nil_of_right_ne_nil _ (List.cons_ne_nil _ _), ?_⟩
      refine hticks.trans ?_
      rw [hq]
      exact hcleared.ticks

theorem Kept.start (h : Kept p) (intervalMs : Number) : Kept (p.start intervalMs) := by
  obtain ⟨hsame, -⟩ | ⟨-, hclear⟩ | ⟨-, hkept, -⟩ := start_cases h intervalMs
  · rw [hsame]
    exact h
  · rw [hclear]
    exact h.stop
  · exact hkept

theorem Kept.step (h : Kept p) (event : PollerEvent) : Kept (p.step event) := by
  cases event with
  | start intervalMs => exact h.start intervalMs
  | stop => exact h.stop
  | fire timer => exact h.fire timer
  | finish => exact h.finish
  | dispose id => exact h.dispose id
  | disposeAll => exact h.disposeAll
  | others event => exact h.others event

/-! ### One timer and one entry -/

/-- At most one tick is executing, and there are one timer and one entry while the poller is
active and none otherwise. -/
structure Proper (p : Poller) : Prop where
  single : p.executing ≤ 1
  active : p.running = true → p.timers.length = 1 ∧ p.entries.length = 1
  idle : p.running = false → p.timers = [] ∧ p.entries = []

/-- Unless it starts the poller after the registry has begun its shutdown. -/
def Allowed (p : Poller) (event : PollerEvent) : Prop :=
  ∀ intervalMs, event = .start intervalMs → isNonpositive intervalMs = false →
    p.registry.state = .active

/-- What holds as long as every event is allowed. -/
def Tidy (p : Poller) : Prop := Kept p ∧ (p.running = false → p.timer = none)

theorem proper_of_tidy (h : Tidy p) : Proper p := by
  refine ⟨?_, fun hrunning => ?_, fun hrunning => ?_⟩
  · rw [h.1.single]
    split_ifs <;> omega
  · obtain ⟨-, htimer, id, -, hone⟩ := h.1.on hrunning
    obtain ⟨timer, htimer⟩ := Option.isSome_iff_exists.mp htimer
    rw [h.1.held, htimer, hone]
    exact ⟨rfl, rfl⟩
  · rw [h.1.held, h.2 hrunning]
    refine ⟨rfl, List.eq_nil_iff_forall_not_mem.mpr fun id hid => ?_⟩
    by_cases hactive : p.registry.state = .active
    · rw [(h.1.off hrunning hactive).2.2] at hid
      cases hid
    · have hitem := (mem_entries.mp hid).1
      rw [h.1.registry.items_of_not_active hactive] at hitem
      cases hitem

/-- What `stop` does to the poller itself, whatever the registry is. -/
theorem stop_frame (p : Poller) (r : SessionRegistry) :
    ({ p with registry := r } : Poller).stop.running = false ∧
      ({ p with registry := r } : Poller).stop.timer = none ∧
      ({ p with registry := r } : Poller).stop.ticks = p.ticks := by
  obtain ⟨timer, running, inFlight, registryId⟩ := p
  cases timer <;> cases registryId <;> exact ⟨rfl, rfl, rfl⟩

/-- An event other than `start` stops the poller, or leaves its timer and whether it runs; it
begins a tick only if the poller is running. -/
structure Lull (p q : Poller) : Prop where
  timer : q.running = false ∧ q.timer = none ∨ q.running = p.running ∧ q.timer = p.timer
  ticks : p.running = false → q.ticks = p.ticks

theorem Lull.refl (p : Poller) : Lull p p := ⟨.inr ⟨rfl, rfl⟩, fun _ => rfl⟩

theorem Lull.stop (p : Poller) (r : SessionRegistry) :
    Lull p ({ p with registry := r } : Poller).stop :=
  have h := stop_frame p r
  ⟨.inl ⟨h.1, h.2.1⟩, fun _ => h.2.2⟩

theorem Lull.loop (p : Poller) : Lull p p.loop := by
  obtain hsame | ⟨hrunning, -, hloop⟩ := loop_cases p
  · rw [hsame]
    exact .refl p
  · rw [hloop]
    exact ⟨.inr ⟨rfl, rfl⟩, fun hidle => absurd hrunning (by simp [hidle])⟩

theorem Lull.step (p : Poller) (hstart : ∀ intervalMs, event ≠ .start intervalMs) :
    Lull p (p.step event) := by
  cases event with
  | start intervalMs => exact absurd rfl (hstart intervalMs)
  | stop => exact .stop p p.registry
  | fire timer =>
    rw [Poller.step, Poller.fire]
    split_ifs
    · exact .loop p
    · exact .refl p
  | finish =>
    rw [Poller.step, Poller.finish]
    split_ifs
    · exact ⟨.inr ⟨rfl, rfl⟩, fun _ => rfl⟩
    · exact .refl p
  | dispose id =>
    rw [Poller.step, Poller.dispose]
    split_ifs
    · exact .stop p _
    · exact ⟨.inr ⟨rfl, rfl⟩, fun _ => rfl⟩
  | disposeAll =>
    rw [Poller.step, Poller.disposeAll]
    split_ifs
    · exact .stop p _
    · exact ⟨.inr ⟨rfl, rfl⟩, fun _ => rfl⟩
  | others event =>
    cases event with
    | unregister id =>
      simp only [Poller.step, Poller.others]
      split_ifs
      · exact .refl p
      · exact ⟨.inr ⟨rfl, rfl⟩, fun _ => rfl⟩
    | _ => exact ⟨.inr ⟨rfl, rfl⟩, fun _ => rfl⟩

theorem Tidy.step (h : Tidy p) (hallowed : Allowed p event) : Tidy (p.step event) := by
  refine ⟨h.1.step event, fun hrunning => ?_⟩
  by_cases hstart : ∃ intervalMs, event = .start intervalMs
  · obtain ⟨intervalMs, rfl⟩ := hstart
    rw [Poller.step] at hrunning ⊢
    obtain ⟨hsame, -⟩ | ⟨-, hclear⟩ | ⟨hsome, -, hactive, -⟩ := start_cases h.1 intervalMs
    · rw [hsame] at hrunning ⊢
      exact h.2 hrunning
    · rw [hclear]
      exact h.1.cleared.timer
    · rw [hactive (hallowed intervalMs rfl hsome)] at hrunning
      cases hrunning
  · obtain ⟨-, hnone⟩ | ⟨hrun, htimer⟩ := (Lull.step p (not_exists.mp hstart)).timer
    · exact hnone
    · rw [htimer]
      exact h.2 (hrun.symm.trans hrunning)

theorem allowed_of_proper (h : Kept p) (hproper : Proper (p.step event)) : Allowed p event := by
  rintro intervalMs rfl hsome
  by_contra hactive
  obtain ⟨-, hrunning, -⟩ | ⟨hnone, -⟩ | ⟨-, -, -, hlate⟩ := start_cases h intervalMs
  · exact hactive (h.on hrunning).1
  · rw [hnone] at hsome
    cases hsome
  · obtain ⟨hstopped, htimers, -⟩ := hlate hactive
    exact htimers (hproper.idle hstopped).1

/-! ### No tick after a stop -/

/-- The event stops the poller, or has the registry dispose of it. -/
def Stops (p : Poller) : PollerEvent → Prop
  | .stop => True
  | .dispose id => id ∈ p.entries
  | .disposeAll => p.registry.shutdown = .none ∧ p.entries ≠ []
  | .start intervalMs => isNonpositive intervalMs = true ∨ p.registry.state ≠ .active
  | _ => False

theorem stopped (h : Kept p) (hstops : Stops p event) :
    (p.step event).running = false ∧ (p.step event).ticks = p.ticks := by
  cases event with
  | stop => exact ⟨(stop_frame p p.registry).1, (stop_frame p p.registry).2.2⟩
  | dispose id =>
    rw [Poller.step, Poller.dispose, if_pos (mem_entries.mp hstops)]
    exact ⟨(stop_frame p _).1, (stop_frame p _).2.2⟩
  | disposeAll =>
    obtain ⟨id, hid⟩ := List.exists_mem_of_ne_nil _ hstops.2
    rw [Poller.step, Poller.disposeAll, if_pos ⟨hstops.1, id, mem_entries.mp hid⟩]
    exact ⟨(stop_frame p _).1, (stop_frame p _).2.2⟩
  | start intervalMs =>
    rw [Poller.step]
    obtain ⟨-, hrunning, hsome⟩ | ⟨-, hclear⟩ | ⟨hsome, -, -, hlate⟩ := start_cases h intervalMs
    · obtain hnone | hstate := hstops
      · rw [hnone] at hsome
        cases hsome
      · exact absurd (h.on hrunning).1 hstate
    · rw [hclear]
      exact ⟨(stop_frame p p.registry).1, (stop_frame p p.registry).2.2⟩
    · obtain hnone | hstate := hstops
      · rw [hnone] at hsome
        cases hsome
      · exact ⟨(hlate hstate).1, (hlate hstate).2.2⟩
  | _ => exact hstops.elim

def after (events : List PollerEvent) : Poller := run Poller.step .new events

theorem kept_after (events : List PollerEvent) : Kept (after events) :=
  List.foldlRecOn events Poller.step kept_new fun _ h event _ => h.step event

/-- A stopped poller begins no tick until it is started again. -/
theorem ticks_run {events : List PollerEvent} (hidle : p.running = false)
    (hstart : ∀ event ∈ events, ∀ intervalMs, event ≠ .start intervalMs) :
    (run Poller.step p events).ticks = p.ticks := by
  induction events generalizing p with
  | nil => rfl
  | cons event events ih =>
    have hlull := Lull.step p (hstart event List.mem_cons_self)
    have hrunning : (p.step event).running = false := by
      obtain ⟨hnot, -⟩ | ⟨hsame, -⟩ := hlull.timer
      · exact hnot
      · exact hsame.trans hidle
    rw [run_cons, ih hrunning fun e he => hstart e (List.mem_cons_of_mem _ he), hlull.ticks hidle]

/-- Starting with the interval it already has changes nothing while the poller is active. -/
theorem start_same (h : Kept p) (hrunning : p.running = true) {intervalMs : Number}
    (hsame : isSame p.intervalMs intervalMs = true) : p.start intervalMs = p := by
  have hinterval := h.interval hrunning
  simp only [isSame, ne_eq, Bool.and_eq_true, decide_eq_true_eq, decide_not,
    Bool.not_eq_true', decide_eq_false_iff_not] at hsame
  obtain ⟨hnan, rfl⟩ := hsame
  have hpositive : isPositive p.intervalMs = true := by
    cases hn : p.intervalMs with
    | fin q =>
      rw [hn] at hinterval
      simpa [isPositive, isNonpositive] using hinterval
    | inf negative =>
      rw [hn] at hinterval
      simpa [isPositive, isNonpositive] using hinterval
    | nan => exact absurd hn hnan
  rw [Poller.start, if_pos]
  simp [hpositive, hrunning, isSame, hnan]

/-- One timer and one entry while it is active and none otherwise, in exactly the runs in which it
is never started after the registry has begun its shutdown; in every run no tick begins between a
stop and the next start, and a start with the current interval changes nothing. -/
theorem one_timer (events : List PollerEvent) :
    (Guarded Poller.step Allowed .new events ↔
      ∀ before more, before ++ more = events → Proper (after before)) ∧
    (after events).executing ≤ 1 ∧
    (∀ before event middle more, before ++ event :: (middle ++ more) = events →
      Stops (after before) event → (∀ e ∈ middle, ∀ intervalMs, e ≠ .start intervalMs) →
      (after (before ++ event :: middle)).ticks = (after before).ticks) ∧
    ∀ intervalMs, (after events).running = true →
      isSame (after events).intervalMs intervalMs = true →
      (after events).step (.start intervalMs) = after events := by
  have htidy : Tidy .new := ⟨kept_new, fun _ => rfl⟩
  have hinv : ∀ p, Tidy p → Proper p := fun _ => proper_of_tidy
  have hstep : ∀ p event, Tidy p → Allowed p event → Tidy (p.step event) := fun _ _ h ha => h.step ha
  have hbad : ∀ p event, Tidy p → Proper (p.step event) → Allowed p event :=
    fun _ _ h hproper => allowed_of_proper h.1 hproper
  refine ⟨guarded_iff_always hinv hstep hbad htidy, ?_, ?_, ?_⟩
  · rw [(kept_after events).single]
    split_ifs <;> omega
  · intro before event middle more _ hstops hstart
    obtain ⟨hidle, hticks⟩ := stopped (kept_after before) hstops
    rw [after, run_append, run_cons]
    exact (ticks_run hidle hstart).trans hticks
  · exact fun intervalMs hrunning hsame => start_same (kept_after events) hrunning hsame

/-- A poller that is started after the shutdown has begun leaves a timer behind. -/
theorem late_start_leaves_timer :
    (after [.disposeAll, .start (.fin 1000)]).running = false ∧
      (after [.disposeAll, .start (.fin 1000)]).timers = [1] ∧
      ¬Proper (after [.disposeAll, .start (.fin 1000)]) := by
  have hidle : (after [.disposeAll, .start (.fin 1000)]).running = false := by decide +kernel
  have htimers : (after [.disposeAll, .start (.fin 1000)]).timers = [1] := by decide +kernel
  refine ⟨hidle, htimers, fun h => ?_⟩
  rw [(h.idle hidle).1] at htimers
  cases htimers

end BoredManager.Server.Polling
