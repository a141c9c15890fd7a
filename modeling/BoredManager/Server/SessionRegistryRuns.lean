import BoredManager.Server.SessionRegistry
import BoredManager.Machine.Fair
import Mathlib.Data.List.Nodup
import Mathlib.Data.List.Range
import Mathlib.Data.List.Perm.Basic

/-! A clean close leaves nothing running exactly if no call that `dispose(id)` started, and none
that `register` started after the drain's last look, is still under way when it is resolved. -/
namespace BoredManager.Server.Registry
open BoredManager.Machine

variable {r : SessionRegistry} {d : Disposal} {id : Nat}

def SessionRegistry.called (r : SessionRegistry) : List Nat := r.disposals.map Disposal.id

/-- Where every id is: with the registry, about to be disposed of, disposed of, or let go. -/
def SessionRegistry.places (r : SessionRegistry) : List Nat :=
  r.items ++ r.shutdown.todo ++ r.called ++ r.unregistered

/-- What holds at every moment of every run. -/
structure Sound (r : SessionRegistry) : Prop where
  placed : r.places.Perm (List.range' 1 r.counter)
  idle : r.shutdown ≠ .none → r.items = []
  active : r.state = .active ↔ r.shutdown = .none
  disposed : r.state = .disposed → r.shutdown.ended = true
  expired : r.expired = true → r.shutdown.ended = true
  looked : r.looked ≤ r.counter
  tracked : ∀ d ∈ r.disposals, d.caller = .late → d.settled = false → d.id ∈ r.lateDisposals
  drained : ∀ d ∈ r.disposals, d.caller = .drain → d.settled = false →
    d.id ∈ r.shutdown.work ∨ r.expired = true
  seen : r.shutdown.ended = true → r.expired = true ∨ ∀ d ∈ r.disposals,
    d.caller ≠ .dispose → d.settled = false → r.looked < d.id
  waited : ∀ id ∈ r.shutdown.work, id ∈ r.called
  known : ∀ id ∈ r.lateDisposals, id ∈ r.called
  untracked : ∀ d ∈ r.disposals, d.caller = .untracked → r.shutdown.ended = true

theorem sound_new : Sound .new := by
  constructor <;> simp [SessionRegistry.new, SessionRegistry.places, SessionRegistry.called,
    Shutdown.todo, Shutdown.work, Shutdown.ended]

theorem called_disposeItem (r : SessionRegistry) (id : Nat) (caller : Caller) :
    (r.disposeItem id caller).called = r.called ++ [id] := by
  simp [SessionRegistry.called, SessionRegistry.disposeItem]

theorem placed_same {r s : SessionRegistry} (h : Sound r) (hperm : s.places.Perm r.places)
    (hcounter : s.counter = r.counter) : s.places.Perm (List.range' 1 s.counter) := by
  rw [hcounter]
  exact hperm.trans h.placed

theorem placed_new {r s : SessionRegistry} (h : Sound r)
    (hperm : s.places.Perm (r.places ++ [r.counter + 1])) (hcounter : s.counter = r.counter + 1) :
    s.places.Perm (List.range' 1 s.counter) := by
  rw [hcounter, List.range'_1_concat, Nat.add_comm 1]
  exact hperm.trans (h.placed.append_right _)

theorem mem_called (h : d ∈ r.disposals) : d.id ∈ r.called := List.mem_map_of_mem h

/-- A new call of a disposer, by `dispose(id)` or by a late `register`. -/
theorem mem_disposeItem {caller : Caller} (h : d ∈ (r.disposeItem id caller).disposals) :
    d ∈ r.disposals ∨ d = ⟨id, caller, false⟩ := by
  simpa [SessionRegistry.disposeItem] using h

theorem register_active (h : r.state = .active) :
    r.register = { r with counter := r.counter + 1, items := r.items ++ [r.counter + 1] } := by
  simp [SessionRegistry.register, h]

theorem register_late (h : r.state = .shuttingDown) :
    r.register = { r with
      counter := r.counter + 1
      disposals := r.disposals ++ [⟨r.counter + 1, .late, false⟩]
      lateDisposals := r.lateDisposals ++ [r.counter + 1] } := by
  simp [SessionRegistry.register, h, SessionRegistry.disposeItem]

theorem register_untracked (h : r.state = .disposed) :
    r.register = { r with
      counter := r.counter + 1
      disposals := r.disposals ++ [⟨r.counter + 1, .untracked, false⟩] } := by
  simp [SessionRegistry.register, h, SessionRegistry.disposeItem]

theorem count_places (r : SessionRegistry) (a : Nat) : r.places.count a =
    r.items.count a + r.shutdown.todo.count a + r.called.count a + r.unregistered.count a := by
  simp only [SessionRegistry.places, List.count_append]

/-- Calls that were started stay started. -/
theorem called_append (h : id ∈ r.called) (d : Disposal) :
    id ∈ (r.disposals ++ [d]).map Disposal.id := by
  rw [List.map_append]
  exact List.mem_append_left _ h

theorem called_new (r : SessionRegistry) (d : Disposal) :
    d.id ∈ (r.disposals ++ [d]).map Disposal.id := by
  rw [List.map_append]
  exact List.mem_append_right _ List.mem_cons_self

theorem Sound.register (h : Sound r) : Sound r.register := by
  have hlooked : r.looked < r.counter + 1 := Nat.lt_succ_of_le h.looked
  cases hstate : r.state with
  | active =>
    have hnone := h.active.mp hstate
    rw [register_active hstate]
    refine ⟨placed_new h (List.perm_iff_count.mpr fun a => ?_) rfl, fun hne => absurd hnone hne,
      h.active, h.disposed, h.expired, hlooked.le, h.tracked, h.drained, h.seen, h.waited, h.known,
      h.untracked⟩
    rw [List.count_append, count_places, count_places]
    simp only [SessionRegistry.called, List.count_append]
    omega
  | shuttingDown =>
    rw [register_late hstate]
    refine ⟨placed_new h (List.perm_iff_count.mpr fun a => ?_) rfl, h.idle, h.active, h.disposed,
      h.expired, hlooked.le, fun d hd hlate hp => ?_, fun d hd hdrain hp => ?_, fun hover => ?_,
      fun id hid => called_append (h.waited id hid) _, fun id hid => ?_, fun d hd hu => ?_⟩
    · rw [List.count_append, count_places, count_places]
      simp only [SessionRegistry.called, List.map_append, List.count_append, List.map_cons, List.map_nil]
      omega
    · obtain hd | rfl := mem_disposeItem hd
      · exact List.mem_append_left _ (h.tracked d hd hlate hp)
      · exact List.mem_append_right _ List.mem_cons_self
    · obtain hd | rfl := mem_disposeItem hd
      · exact h.drained d hd hdrain hp
      · cases hdrain
    · refine (h.seen hover).imp id fun hall d hd hcaller hp => ?_
      obtain hd | rfl := mem_disposeItem hd
      · exact hall d hd hcaller hp
      · exact hlooked
    · obtain hid | hid := List.mem_append.mp hid
      · exact called_append (h.known id hid) _
      · rw [List.mem_singleton.mp hid]
        exact called_new r ⟨r.counter + 1, .late, false⟩
    · obtain hd | rfl := mem_disposeItem hd
      · exact h.untracked d hd hu
      · cases hu
  | disposed =>
    rw [register_untracked hstate]
    refine ⟨placed_new h (List.perm_iff_count.mpr fun a => ?_) rfl, h.idle, h.active, h.disposed,
      h.expired, hlooked.le, fun d hd hlate hp => ?_, fun d hd hdrain hp => ?_, fun hover => ?_,
      fun id hid => called_append (h.waited id hid) _, fun id hid => called_append (h.known id hid) _,
      fun d hd hu => ?_⟩
    · rw [List.count_append, count_places, count_places]
      simp only [SessionRegistry.called, List.map_append, List.count_append, List.map_cons, List.map_nil]
      omega
    · obtain hd | rfl := mem_disposeItem hd
      · exact h.tracked d hd hlate hp
      · cases hlate
    · obtain hd | rfl := mem_disposeItem hd
      · exact h.drained d hd hdrain hp
      · cases hdrain
    · refine (h.seen hover).imp id fun hall d hd hcaller hp => ?_
      obtain hd | rfl := mem_disposeItem hd
      · exact hall d hd hcaller hp
      · exact hlooked
    · obtain hd | rfl := mem_disposeItem hd
      · exact h.untracked d hd hu
      · exact h.disposed hstate

theorem Sound.unregister (h : Sound r) (id : Nat) : Sound (r.unregister id) := by
  rw [SessionRegistry.unregister]
  split_ifs with hmem
  · have hnone : r.shutdown = .none := by
      by_contra hne
      rw [h.idle hne] at hmem
      cases hmem
    refine ⟨placed_same h (List.perm_iff_count.mpr fun a => ?_) rfl, fun hne => absurd hnone hne,
      h.active, h.disposed, h.expired, h.looked, h.tracked, h.drained, h.seen, h.waited, h.known,
      h.untracked⟩
    have hpos := List.count_pos_iff.mpr hmem
    rw [count_places, count_places]
    simp only [SessionRegistry.called, List.count_erase, List.count_cons, beq_iff_eq]
    split_ifs with heq
    · subst heq
      omega
    · omega
  · exact h

theorem Sound.dispose (h : Sound r) (id : Nat) : Sound (r.dispose id) := by
  rw [SessionRegistry.dispose]
  split_ifs with hmem
  · have hnone : r.shutdown = .none := by
      by_contra hne
      rw [h.idle hne] at hmem
      cases hmem
    refine ⟨placed_same h (List.perm_iff_count.mpr fun a => ?_) rfl, fun hne => absurd hnone hne,
      h.active, h.disposed, h.expired, h.looked, fun d hd hlate hp => ?_, fun d hd hdrain hp => ?_,
      fun hover => ?_, fun id hid => called_append (h.waited id hid) _,
      fun id hid => called_append (h.known id hid) _, fun d hd hu => ?_⟩
    · have hpos := List.count_pos_iff.mpr hmem
      rw [count_places, count_places, called_disposeItem, List.count_append]
      simp only [SessionRegistry.disposeItem, SessionRegistry.called, List.count_erase,
        List.count_singleton, beq_iff_eq]
      split_ifs with heq
      · subst heq
        omega
      · omega
    · obtain hd | rfl := mem_disposeItem hd
      · exact h.tracked d hd hlate hp
      · cases hlate
    · obtain hd | rfl := mem_disposeItem hd
      · exact h.drained d hd hdrain hp
      · cases hdrain
    · refine (h.seen hover).imp (fun h => h) fun hall d hd hcaller hp => ?_
      obtain hd | rfl := mem_disposeItem hd
      · exact hall d hd hcaller hp
      · exact absurd rfl hcaller
    · obtain hd | rfl := mem_disposeItem hd
      · exact h.untracked d hd hu
      · cases hu
  · exact h

theorem Sound.call (h : Sound r) : Sound r.call := by
  rw [SessionRegistry.call]
  split
  · rename_i id todo started hshutdown
    have hidle := h.idle (by simp [hshutdown])
    refine ⟨placed_same h (List.perm_iff_count.mpr fun a => ?_) rfl, fun _ => hidle,
      ⟨fun hactive => ?_, nofun⟩, fun hdisposed => ?_, fun hexpired => ?_, h.looked,
      fun d hd hlate hp => ?_, fun d hd hdrain hp => ?_, nofun, fun id hid => ?_,
      fun id hid => called_append (h.known id hid) _, fun d hd hu => ?_⟩
    · rw [count_places, count_places, called_disposeItem, List.count_append, hshutdown]
      simp only [SessionRegistry.disposeItem, SessionRegistry.called, Shutdown.todo, List.count_cons,
        List.count_nil]
      omega
    · rw [h.active.mp hactive] at hshutdown
      cases hshutdown
    · have hover := h.disposed hdisposed
      rw [hshutdown] at hover
      cases hover
    · have hover := h.expired hexpired
      rw [hshutdown] at hover
      cases hover
    · obtain hd | rfl := mem_disposeItem hd
      · exact h.tracked d hd hlate hp
      · cases hlate
    · obtain hd | rfl := mem_disposeItem hd
      · refine (h.drained d hd hdrain hp).imp (fun hmem => ?_) fun hexpired => hexpired
        rw [hshutdown] at hmem
        exact List.mem_append_left _ hmem
      · exact .inl (List.mem_append_right _ List.mem_cons_self)
    · obtain hid | hid := List.mem_append.mp hid
      · exact called_append (h.waited _ (by rw [hshutdown]; exact hid)) _
      · rw [List.mem_singleton.mp hid]
        exact called_new r ⟨_, .drain, false⟩
    · obtain hd | rfl := mem_disposeItem hd
      · have hover := h.untracked d hd hu
        rw [hshutdown] at hover
        cases hover
      · cases hu
  · exact h

/-- A round begins when no call of an earlier one is under way. -/
theorem sound_round (h : Sound r) (htodo : r.shutdown.todo = []) (hover : r.shutdown.ended = false)
    (hquiet : ∀ d ∈ r.disposals, d.caller = .drain → d.settled = true) :
    Sound { r with state := .shuttingDown }.round := by
  have hnot : r.shutdown.ended ≠ true := by simp [hover]
  refine ⟨placed_same h (List.perm_iff_count.mpr fun a => ?_) rfl, fun _ => rfl, ⟨nofun, nofun⟩,
    nofun, fun hexpired => absurd (h.expired hexpired) hnot, h.looked, h.tracked,
    fun d hd hdrain hp => ?_, nofun, nofun, h.known, fun d hd hu => absurd (h.untracked d hd hu) hnot⟩
  · rw [count_places, count_places, htodo]
    simp only [SessionRegistry.round, SessionRegistry.called, Shutdown.todo, List.count_nil]
    omega
  · rw [hquiet d hd hdrain] at hp
    cases hp

theorem Sound.shuttingDown (h : Sound r) (hnone : r.shutdown ≠ .none)
    (hover : r.shutdown.ended = false) : r.state = .shuttingDown := by
  cases hstate : r.state with
  | active => exact absurd (h.active.mp hstate) hnone
  | shuttingDown => rfl
  | disposed =>
    rw [h.disposed hstate] at hover
    cases hover

/-- Before the drain returns, its calls that are under way are those of the round. -/
theorem Sound.mem_work (h : Sound r) (hover : r.shutdown.ended = false) (hd : d ∈ r.disposals)
    (hdrain : d.caller = .drain) (hp : d.settled = false) : d.id ∈ r.shutdown.work := by
  obtain hmem | hexpired := h.drained d hd hdrain hp
  · exact hmem
  · rw [h.expired hexpired] at hover
    cases hover

theorem Sound.quiet (h : Sound r) (hover : r.shutdown.ended = false) (hwork : r.shutdown.work = [])
    (d : Disposal) (hd : d ∈ r.disposals) (hdrain : d.caller = .drain) : d.settled = true := by
  by_contra hp
  have hmem := h.mem_work hover hd hdrain (by simpa using hp)
  rw [hwork] at hmem
  cases hmem

theorem Sound.disposeAll (h : Sound r) : Sound r.disposeAll := by
  rw [SessionRegistry.disposeAll]
  split_ifs with hnone
  · exact sound_round h (by rw [hnone]; rfl) (by rw [hnone]; rfl)
      (h.quiet (by rw [hnone]; rfl) (by rw [hnone]; rfl))
  · exact h

theorem pending_of_mem (hd : d ∈ r.disposals) (hp : d.settled = false) : r.pending d.id = true :=
  List.any_eq_true.mpr ⟨d, hd, by simp [hp]⟩

theorem Sound.wake (h : Sound r) : Sound r.wake := by
  rw [SessionRegistry.wake]
  split
  · rename_i work hshutdown
    have hover : r.shutdown.ended = false := by rw [hshutdown]; rfl
    split_ifs with hwoken
    · have hstate := h.shuttingDown (by simp [hshutdown]) hover
      have hround := sound_round h (by rw [hshutdown]; rfl) hover fun d hd hdrain => ?_
      · rwa [← hstate] at hround
      · by_contra hp
        have hp : d.settled = false := by simpa using hp
        have hmem := h.mem_work hover hd hdrain hp
        rw [hshutdown] at hmem
        have hnot := (hwoken d.id hmem).1
        rw [pending_of_mem hd hp] at hnot
        cases hnot
    · exact h
  · exact h

theorem Sound.look (h : Sound r) : Sound r.look := by
  rw [SessionRegistry.look]
  split_ifs with hlooking hempty
  · have hover : r.shutdown.ended = false := by rw [hlooking]; rfl
    have hwork : r.shutdown.work = [] := by rw [hlooking]; rfl
    refine ⟨placed_same h (List.perm_iff_count.mpr fun a => ?_) rfl, fun _ => hempty.1,
      ⟨fun hactive => ?_, nofun⟩, fun _ => rfl, fun _ => rfl, le_rfl, h.tracked,
      fun d hd hdrain hp => ?_, fun _ => .inr fun d hd hcaller hp => ?_, nofun, h.known,
      fun _ _ _ => rfl⟩
    · rw [count_places, count_places, hlooking]
      rfl
    · rw [h.active.mp hactive] at hlooking
      cases hlooking
    · rw [h.quiet hover hwork d hd hdrain] at hp
      cases hp
    · cases hkind : d.caller with
      | dispose => exact absurd hkind hcaller
      | drain =>
        rw [h.quiet hover hwork d hd hkind] at hp
        cases hp
      | late =>
        have hmem := h.tracked d hd hkind hp
        rw [hempty.2] at hmem
        cases hmem
      | untracked =>
        rw [h.untracked d hd hkind] at hover
        cases hover
  · have hover : r.shutdown.ended = false := by rw [hlooking]; rfl
    have hstate := h.shuttingDown (by simp [hlooking]) hover
    have hround := sound_round h (by rw [hlooking]; rfl) hover
      (h.quiet hover (by rw [hlooking]; rfl))
    rwa [← hstate] at hround
  · exact h

theorem Sound.collect (h : Sound r) : Sound r.collect := by
  rw [SessionRegistry.collect]
  split
  · rename_i started hshutdown
    have hover : r.shutdown.ended = false := by rw [hshutdown]; rfl
    have hidle := h.idle (by simp [hshutdown])
    have hstate := h.shuttingDown (by simp [hshutdown]) hover
    have hwork : r.shutdown.work = started := by rw [hshutdown]; rfl
    have hnot : r.shutdown.ended ≠ true := by simp [hover]
    have hcount : ∀ a, r.shutdown.todo.count a = 0 := fun a => by rw [hshutdown]; rfl
    dsimp only
    split_ifs with hnil
    · obtain ⟨rfl, hlate⟩ := List.append_eq_nil_iff.mp hnil
      refine ⟨placed_same h (List.perm_iff_count.mpr fun a => ?_) rfl, fun _ => hidle,
        ⟨fun hactive => ?_, nofun⟩, fun hdisposed => ?_, fun hexpired => absurd (h.expired hexpired) hnot,
        h.looked, h.tracked, fun d hd hdrain hp => ?_, nofun, nofun, h.known,
        fun d hd hu => absurd (h.untracked d hd hu) hnot⟩
      · rw [count_places, count_places, hcount]
        rfl
      · cases hstate.symm.trans hactive
      · cases hstate.symm.trans hdisposed
      · rw [h.quiet hover hwork d hd hdrain] at hp
        cases hp
    · refine ⟨placed_same h (List.perm_iff_count.mpr fun a => ?_) rfl, fun _ => hidle,
        ⟨fun hactive => ?_, nofun⟩, fun hdisposed => ?_, fun hexpired => absurd (h.expired hexpired) hnot,
        h.looked, h.tracked, fun d hd hdrain hp => ?_, nofun, fun id hid => ?_, h.known,
        fun d hd hu => absurd (h.untracked d hd hu) hnot⟩
      · rw [count_places, count_places, hcount]
        rfl
      · cases hstate.symm.trans hactive
      · cases hstate.symm.trans hdisposed
      · have hmem := h.mem_work hover hd hdrain hp
        rw [hwork] at hmem
        exact .inl (List.mem_append_left _ hmem)
      · obtain hid | hid := List.mem_append.mp hid
        · exact h.waited id (hwork.symm ▸ hid)
        · exact h.known id hid
  · exact h

theorem Sound.expire (h : Sound r) : Sound r.expire := by
  rw [SessionRegistry.expire]
  split
  · rename_i work hshutdown
    have hidle := h.idle (by simp [hshutdown])
    refine ⟨placed_same h (List.perm_iff_count.mpr fun a => ?_) rfl, fun _ => hidle,
      ⟨fun hactive => ?_, nofun⟩, fun _ => rfl, fun _ => rfl, h.looked, h.tracked,
      fun _ _ _ _ => .inr rfl, fun _ => .inl rfl, nofun, h.known, fun _ _ _ => rfl⟩
    · rw [count_places, count_places, hshutdown]
      rfl
    · rw [h.active.mp hactive] at hshutdown
      cases hshutdown
  · exact h

theorem Sound.close (h : Sound r) : Sound r.close := by
  rw [SessionRegistry.close]
  split_ifs with hreturned
  · have hidle := h.idle (by simp [hreturned])
    have hover : r.shutdown.ended = true := by rw [hreturned]; rfl
    refine ⟨placed_same h (List.perm_iff_count.mpr fun a => ?_) rfl, fun _ => rfl, ⟨nofun, nofun⟩,
      fun _ => rfl, fun _ => rfl, h.looked, h.tracked, fun d hd hdrain hp => ?_, fun _ => h.seen hover,
      nofun, h.known, fun _ _ _ => rfl⟩
    · rw [count_places, count_places, hreturned, hidle]
      rfl
    · have hmem := h.drained d hd hdrain hp
      rwa [hreturned] at hmem
  · exact h

theorem Sound.resolve (h : Sound r) : Sound r.resolve := by
  rw [SessionRegistry.resolve]
  split_ifs with hclosed
  · have hover : r.shutdown.ended = true := by rw [hclosed]; rfl
    refine ⟨placed_same h (List.perm_iff_count.mpr fun a => ?_) rfl,
      fun _ => h.idle (by simp [hclosed]), ⟨fun hactive => ?_, nofun⟩, fun _ => rfl, fun _ => rfl,
      h.looked, h.tracked, fun d hd hdrain hp => ?_, fun _ => h.seen hover, nofun, h.known,
      fun _ _ _ => rfl⟩
    · rw [count_places, count_places, hclosed]
      rfl
    · rw [h.active.mp hactive] at hclosed
      cases hclosed
    · have hmem := h.drained d hd hdrain hp
      rwa [hclosed] at hmem
  · exact h

/-- A call after `settle` is one from before, settled or not. -/
theorem mem_settle (h : d ∈ (r.settle id).disposals) :
    ∃ e ∈ r.disposals, d.id = e.id ∧ d.caller = e.caller ∧ (d.settled = false → d = e) := by
  obtain ⟨e, he, rfl⟩ := List.mem_map.mp h
  refine ⟨e, he, ?_⟩
  split_ifs with hid
  · exact ⟨rfl, rfl, nofun⟩
  · exact ⟨rfl, rfl, fun _ => rfl⟩

theorem called_settle (r : SessionRegistry) (id : Nat) : (r.settle id).called = r.called := by
  rw [SessionRegistry.called, SessionRegistry.called, SessionRegistry.settle, List.map_map]
  refine List.map_congr_left fun d _ => ?_
  dsimp only [Function.comp]
  split_ifs <;> rfl

theorem Sound.settle (h : Sound r) (id : Nat) : Sound (r.settle id) := by
  have hcalled := called_settle r id
  refine ⟨placed_same h (List.perm_iff_count.mpr fun a => ?_) rfl, h.idle, h.active, h.disposed,
    h.expired, h.looked, fun d hd hlate hp => ?_, fun d hd hdrain hp => ?_, fun hover => ?_,
    fun id hid => hcalled.symm ▸ h.waited id hid, fun id hid => hcalled.symm ▸ h.known id hid,
    fun d hd hu => ?_⟩
  · rw [count_places, count_places, hcalled]
    rfl
  · obtain ⟨e, he, -, -, hsame⟩ := mem_settle hd
    obtain rfl := hsame hp
    exact h.tracked d he hlate hp
  · obtain ⟨e, he, -, -, hsame⟩ := mem_settle hd
    obtain rfl := hsame hp
    exact h.drained d he hdrain hp
  · refine (h.seen hover).imp (fun hexpired => hexpired) fun hall d hd hcaller hp => ?_
    obtain ⟨e, he, -, -, hsame⟩ := mem_settle hd
    obtain rfl := hsame hp
    exact hall d he hcaller hp
  · obtain ⟨e, he, -, hcaller, -⟩ := mem_settle hd
    exact h.untracked e he (hcaller.symm.trans hu)

theorem Sound.forget (h : Sound r) (id : Nat) : Sound (r.forget id) := by
  rw [SessionRegistry.forget]
  split_ifs with hpending
  · exact h
  · refine ⟨h.placed, h.idle, h.active, h.disposed, h.expired, h.looked, fun d hd hlate hp => ?_,
      h.drained, h.seen, h.waited, fun id hid => h.known id (List.mem_of_mem_erase hid), h.untracked⟩
    have hne : d.id ≠ id := fun heq => hpending (heq ▸ pending_of_mem hd hp)
    exact (List.mem_erase_of_ne hne).mpr (h.tracked d hd hlate hp)

theorem Sound.step (h : Sound r) (event : RegistryEvent) : Sound (r.step event) := by
  cases event with
  | register => exact h.register
  | unregister id => exact h.unregister id
  | dispose id => exact h.dispose id
  | disposeAll => exact h.disposeAll
  | call => exact h.call
  | collect => exact h.collect
  | settle id => exact h.settle id
  | forget id => exact h.forget id
  | wake => exact h.wake
  | expire => exact h.expire
  | look => exact h.look
  | close => exact h.close
  | resolve => exact h.resolve

def after (events : List RegistryEvent) : SessionRegistry :=
  run SessionRegistry.step .new events

theorem sound_after (events : List RegistryEvent) : Sound (after events) :=
  List.foldlRecOn events SessionRegistry.step sound_new fun _ h event _ => h.step event

theorem Sound.items_of_not_active (h : Sound r) (hstate : r.state ≠ .active) : r.items = [] :=
  h.idle fun hnone => hstate (h.active.mpr hnone)

theorem Sound.nodup (h : Sound r) : r.places.Nodup := h.placed.nodup_iff.mpr List.nodup_range'

theorem Sound.nodup_items (h : Sound r) : r.items.Nodup := by
  have hsub : r.items.Sublist r.places := (List.sublist_append_left r.items r.shutdown.todo).trans
    ((List.sublist_append_left _ r.called).trans (List.sublist_append_left _ r.unregistered))
  exact h.nodup.sublist hsub

theorem Sound.item_le (h : Sound r) {id : Nat} (hid : id ∈ r.items) : id ≤ r.counter := by
  have hmem : id ∈ r.places := by
    simp only [SessionRegistry.places, List.mem_append]
    exact .inl (.inl (.inl hid))
  have hrange := List.mem_range'_1.mp (h.placed.mem_iff.mp hmem)
  omega

theorem register_cases (r : SessionRegistry) :
    r.register.counter = r.counter + 1 ∧ r.register.state = r.state ∧
      (r.state = .active ∧ r.register.items = r.items ++ [r.counter + 1] ∨
        r.state ≠ .active ∧ r.register.items = r.items) := by
  cases hstate : r.state with
  | active => exact register_active hstate ▸ ⟨rfl, hstate, .inl ⟨rfl, rfl⟩⟩
  | shuttingDown => exact register_late hstate ▸ ⟨rfl, hstate, .inr ⟨nofun, rfl⟩⟩
  | disposed => exact register_untracked hstate ▸ ⟨rfl, hstate, .inr ⟨nofun, rfl⟩⟩

theorem unregister_cases (r : SessionRegistry) (id : Nat) :
    (r.unregister id).items = r.items.erase id ∧ (r.unregister id).state = r.state ∧
      (r.unregister id).counter = r.counter := by
  rw [SessionRegistry.unregister]
  split_ifs with hmem
  · exact ⟨rfl, rfl, rfl⟩
  · exact ⟨(List.erase_of_not_mem hmem).symm, rfl, rfl⟩

theorem dispose_cases (r : SessionRegistry) (id : Nat) :
    (r.dispose id).items = r.items.erase id ∧ (r.dispose id).state = r.state ∧
      (r.dispose id).counter = r.counter := by
  rw [SessionRegistry.dispose]
  split_ifs with hmem
  · exact ⟨rfl, rfl, rfl⟩
  · exact ⟨(List.erase_of_not_mem hmem).symm, rfl, rfl⟩

/-! ### What a clean close leaves -/

/-- Every resource that was registered and not unregistered has been disposed of once, and the
call has settled. -/
def Clean (r : SessionRegistry) : Prop :=
  ∀ id, 0 < id → id ≤ r.counter → id ∉ r.unregistered →
    r.called.count id = 1 ∧ ∀ d ∈ r.disposals, d.id = id → d.settled = true

/-- The event resolves the promise of `disposeAll`, whose drain had not given up. -/
def Resolves (r : SessionRegistry) (event : RegistryEvent) : Prop :=
  event = .resolve ∧ r.shutdown = .closed ∧ r.expired = false

/-- Unless it resolves the promise while a call of `dispose(id)`, or of a `register` after the
drain's last look, is under way. -/
def Allowed (r : SessionRegistry) (event : RegistryEvent) : Prop :=
  Resolves r event → ∀ d ∈ r.disposals, d.caller = .dispose ∨ r.looked < d.id → d.settled = true

/-- Nobody is disposed of twice. -/
theorem Sound.once (h : Sound r) : r.called.Nodup := by
  refine h.nodup.sublist ((List.sublist_append_right (r.items ++ r.shutdown.todo) r.called).trans ?_)
  exact List.sublist_append_left _ _

theorem Sound.registered (h : Sound r) {id : Nat} (hpos : 0 < id) (hle : id ≤ r.counter)
    (hover : r.shutdown.ended = true) (hkept : id ∉ r.unregistered) : id ∈ r.called := by
  have hidle := h.idle fun hnone => by
    rw [hnone] at hover
    cases hover
  have htodo : r.shutdown.todo = [] := by
    cases hs : r.shutdown <;> simp_all [Shutdown.ended, Shutdown.todo]
  have hmem : id ∈ r.places := h.placed.mem_iff.mpr (List.mem_range'_1.mpr ⟨hpos, by omega⟩)
  rw [SessionRegistry.places, hidle, htodo] at hmem
  simpa [hkept] using hmem

theorem clean_iff (h : Sound r) (hover : r.shutdown.ended = true) (hexpired : r.expired = false) :
    Clean r ↔ ∀ d ∈ r.disposals, d.caller = .dispose ∨ r.looked < d.id → d.settled = true := by
  constructor
  · intro hclean d hd _
    have hcalled := mem_called hd
    have hmem : d.id ∈ r.places := by
      rw [SessionRegistry.places]
      exact List.mem_append_left _ (List.mem_append_right _ hcalled)
    have hbounds := List.mem_range'_1.mp (h.placed.mem_iff.mp hmem)
    have hkept : d.id ∉ r.unregistered :=
      List.disjoint_of_nodup_append h.nodup (List.mem_append_right _ hcalled)
    exact (hclean d.id (by omega) (by omega) hkept).2 d hd rfl
  · intro hall id hpos hle hkept
    have hcalled := h.registered hpos hle hover hkept
    refine ⟨List.count_eq_one_of_mem h.once hcalled, fun d hd _ => ?_⟩
    by_contra hp
    have hp : d.settled = false := by simpa using hp
    obtain hno | hseen := h.seen hover
    · rw [hno] at hexpired
      cases hexpired
    · by_cases hcaller : d.caller = .dispose
      · rw [hall d hd (.inl hcaller)] at hp
        cases hp
      · rw [hall d hd (.inr (hseen d hd hcaller hp))] at hp
        cases hp

/-! ### The drain comes to its end -/

/-- The jobs that are queued, and the calls of disposers that are under way. -/
def Enabled (r : SessionRegistry) : RegistryEvent → Prop
  | .call => r.shutdown.todo ≠ []
  | .collect => ∃ started, r.shutdown = .calling [] started
  | .settle id => r.pending id = true
  | .forget id => id ∈ r.lateDisposals ∧ r.pending id = false
  | .wake => ∃ work, r.shutdown = .waiting work ∧ r.Woken work
  | .look => r.shutdown = .looking
  | .close => r.shutdown = .returned
  | .resolve => r.shutdown = .closed
  | _ => False

/-- What the drain has before it, given the late disposals. -/
def Shutdown.weight (late : List Nat) : Shutdown → Nat
  | .none => 0
  | .calling todo started => 4 + (if late = [] then 0 else 6) +
      (if todo = [] ∧ started = [] then 0 else 6) + 3 * todo.length
  | .waiting work => 5 + if ∀ id ∈ late, id ∈ work then 0 else 6
  | .looking => if late = [] then 3 else 11
  | .returned => 2
  | .closed => 1
  | .resolved => 0

def SessionRegistry.left (r : SessionRegistry) : Nat :=
  r.shutdown.weight r.lateDisposals + r.disposals.countP (fun d => !d.settled) +
    r.lateDisposals.length

theorem weight_erase (late : List Nat) (id : Nat) (s : Shutdown) :
    s.weight (late.erase id) ≤ s.weight late := by
  have hnil : late = [] → late.erase id = [] := fun h => by rw [h]; rfl
  cases s with
  | calling todo started =>
    simp only [Shutdown.weight]
    split_ifs <;> first | omega | exact absurd (hnil ‹_›) ‹_›
  | waiting work =>
    have hsub : (∀ x ∈ late, x ∈ work) → ∀ x ∈ late.erase id, x ∈ work :=
      fun h x hx => h x (List.mem_of_mem_erase hx)
    simp only [Shutdown.weight]
    by_cases hold : ∀ id ∈ late, id ∈ work
    · rw [if_pos hold, if_pos (hsub hold)]
    · rw [if_neg hold]
      split_ifs <;> omega
  | looking =>
    simp only [Shutdown.weight]
    split_ifs <;> first | omega | exact absurd (hnil ‹_›) ‹_›
  | _ => exact le_rfl

theorem pending_eq_false : r.pending id = false ↔ ∀ d ∈ r.disposals, d.id = id → d.settled = true := by
  simp [SessionRegistry.pending]

theorem settle_of_not_pending (h : r.pending id = false) : r.settle id = r := by
  have hsame : r.disposals.map (fun d => if d.id = id then { d with settled := true } else d) =
      r.disposals.map fun d => d := by
    refine List.map_congr_left fun d hd => ?_
    split_ifs with hid
    · rw [← pending_eq_false.mp h d hd hid]
    · rfl
  rw [SessionRegistry.settle, hsame, List.map_id']

theorem countP_settle {l : List Disposal} (hd : d ∈ l) (hp : d.settled = false) :
    ((l.map fun e => if e.id = d.id then { e with settled := true } else e).countP fun e =>
      !e.settled) < l.countP fun e => !e.settled := by
  have hle : ∀ l : List Disposal, ((l.map fun e =>
      if e.id = d.id then { e with settled := true } else e).countP fun e => !e.settled) ≤
        l.countP fun e => !e.settled := fun l => by
    rw [List.countP_map]
    refine List.countP_mono_left fun e _ he => ?_
    dsimp only [Function.comp] at he
    split_ifs at he
    · cases he
    · exact he
  induction l with
  | nil => cases hd
  | cons e l ih =>
    rw [List.map_cons, List.countP_cons, List.countP_cons]
    obtain rfl | hd := List.mem_cons.mp hd
    · have hrest := hle l
      simp only [if_true, hp, Bool.not_true, Bool.not_false, Bool.false_eq_true, if_false]
      omega
    · have hrest := ih hd
      by_cases hid : e.id = d.id
      · simp only [if_pos hid, Bool.not_true, Bool.false_eq_true, if_false]
        omega
      · simp only [if_neg hid]
        omega

theorem left_settle (h : r.pending id = true) : (r.settle id).left < r.left := by
  obtain ⟨d, hd, hboth⟩ := List.any_eq_true.mp h
  obtain ⟨rfl, hp⟩ : d.id = id ∧ d.settled = false := by simpa using hboth
  have hcount := countP_settle hd hp
  simp only [SessionRegistry.left, SessionRegistry.settle]
  omega

theorem left_forget (h : id ∈ r.lateDisposals) (hp : r.pending id = false) :
    (r.forget id).left < r.left := by
  have hweight := weight_erase r.lateDisposals id r.shutdown
  have hlength := List.length_erase_of_mem h
  have hpos := List.length_pos_of_mem h
  rw [SessionRegistry.forget, if_neg (by simp [hp])]
  simp only [SessionRegistry.left]
  omega

/-- After the shutdown has begun, whatever comes but a registration changes nothing or brings the
end nearer. -/
theorem step_left (h : Sound r) (hbegun : r.shutdown ≠ .none) {event : RegistryEvent}
    (hquiet : event ≠ .register) : r.step event = r ∨ (r.step event).left < r.left := by
  have hidle := h.idle hbegun
  cases event with
  | register => exact absurd rfl hquiet
  | unregister id => exact .inl (by simp [SessionRegistry.step, SessionRegistry.unregister, hidle])
  | dispose id => exact .inl (by simp [SessionRegistry.step, SessionRegistry.dispose, hidle])
  | disposeAll => exact .inl (by simp [SessionRegistry.step, SessionRegistry.disposeAll, hbegun])
  | call =>
    simp only [SessionRegistry.step, SessionRegistry.call]
    split
    · rename_i id todo started hshutdown
      refine .inr ?_
      simp only [SessionRegistry.left, SessionRegistry.disposeItem, hshutdown, Shutdown.weight,
        List.countP_append, List.length_cons]
      by_cases hlate : r.lateDisposals = []
      · simp [hlate]
        omega
      · simp [hlate]
        omega
    · exact .inl rfl
  | collect =>
    simp only [SessionRegistry.step, SessionRegistry.collect]
    split
    · rename_i started hshutdown
      refine .inr ?_
      simp only [SessionRegistry.left, hshutdown, Shutdown.weight]
      by_cases hnil : started ++ r.lateDisposals = []
      · obtain ⟨rfl, hlate⟩ := List.append_eq_nil_iff.mp hnil
        simp [hlate]
      · have hall : ∀ id ∈ r.lateDisposals, id ∈ started ++ r.lateDisposals :=
          fun id hid => List.mem_append_right _ hid
        simp only [if_neg hnil, if_pos hall]
        have hsome : started ≠ [] ∨ r.lateDisposals ≠ [] := by
          by_contra hnone
          simp only [not_or, not_not] at hnone
          exact hnil (by rw [hnone.1, hnone.2]; rfl)
        have hweight : 6 ≤ (if r.lateDisposals = [] then 0 else 6) +
            if True ∧ started = [] then 0 else 6 := by
          obtain hne | hne := hsome
          · simp [hne]
          · simp [hne]
        simp only [List.length_nil] at hweight ⊢
        omega
    · exact .inl rfl
  | settle id =>
    cases hp : r.pending id with
    | false => exact .inl (settle_of_not_pending hp)
    | true => exact .inr (left_settle hp)
  | forget id =>
    cases hp : r.pending id with
    | true => exact .inl (by simp [SessionRegistry.step, SessionRegistry.forget, hp])
    | false =>
      by_cases hmem : id ∈ r.lateDisposals
      · exact .inr (left_forget hmem hp)
      · exact .inl (by simp [SessionRegistry.step, SessionRegistry.forget, hp, List.erase_of_not_mem hmem])
  | wake =>
    simp only [SessionRegistry.step, SessionRegistry.wake]
    split
    · rename_i work hshutdown
      split_ifs with hwoken
      · refine .inr ?_
        simp only [SessionRegistry.left, SessionRegistry.round, hidle, hshutdown, Shutdown.weight]
        cases hlate : r.lateDisposals with
        | nil => simp
        | cons id late =>
          have hnot : ¬∀ x ∈ id :: late, x ∈ work := fun hall => by
            have hmem := (hwoken id (hall id List.mem_cons_self)).2
            rw [hlate] at hmem
            exact hmem List.mem_cons_self
          rw [if_neg hnot]
          simp
      · exact .inl rfl
    · exact .inl rfl
  | expire =>
    simp only [SessionRegistry.step, SessionRegistry.expire]
    split
    · rename_i work hshutdown
      refine .inr ?_
      simp only [SessionRegistry.left, hshutdown, Shutdown.weight]
      omega
    · exact .inl rfl
  | look =>
    simp only [SessionRegistry.step, SessionRegistry.look]
    split_ifs with hlooking hempty
    · refine .inr ?_
      simp only [SessionRegistry.left, hlooking, Shutdown.weight]
      split_ifs <;> omega
    · refine .inr ?_
      have hlate : r.lateDisposals ≠ [] := fun hnil => hempty ⟨hidle, hnil⟩
      simp [SessionRegistry.left, SessionRegistry.round, hlooking, Shutdown.weight, hidle, hlate]
    · exact .inl rfl
  | close =>
    simp only [SessionRegistry.step, SessionRegistry.close]
    split_ifs with hreturned
    · exact .inr (by simp [SessionRegistry.left, hreturned, Shutdown.weight])
    · exact .inl rfl
  | resolve =>
    simp only [SessionRegistry.step, SessionRegistry.resolve]
    split_ifs with hclosed
    · exact .inr (by simp [SessionRegistry.left, hclosed, Shutdown.weight])
    · exact .inl rfl

theorem step_ne_of_enabled (event : RegistryEvent) (h : Enabled r event) : r.step event ≠ r := by
  cases event with
  | call =>
    intro heq
    cases hs : r.shutdown with
    | calling todo started =>
      cases todo with
      | nil => simp [Enabled, hs, Shutdown.todo] at h
      | cons id todo =>
        have hlength := congrArg (fun s => s.disposals.length) heq
        simp [SessionRegistry.step, SessionRegistry.call, hs, SessionRegistry.disposeItem] at hlength
    | _ => simp [Enabled, hs, Shutdown.todo] at h
  | collect =>
    obtain ⟨started, hs⟩ := h
    intro heq
    have hsame := congrArg SessionRegistry.shutdown heq
    simp only [SessionRegistry.step, SessionRegistry.collect, hs] at hsame
    split_ifs at hsame
  | settle id =>
    intro heq
    have hless := left_settle h
    rw [show r.settle id = r from heq] at hless
    exact lt_irrefl _ hless
  | forget id =>
    intro heq
    have hless := left_forget h.1 h.2
    rw [show r.forget id = r from heq] at hless
    exact lt_irrefl _ hless
  | wake =>
    obtain ⟨work, hs, hwoken⟩ := h
    intro heq
    have hsame := congrArg SessionRegistry.shutdown heq
    simp [SessionRegistry.step, SessionRegistry.wake, hs, hwoken, SessionRegistry.round] at hsame
  | look =>
    have hs : r.shutdown = .looking := h
    intro heq
    have hsame := congrArg SessionRegistry.shutdown heq
    simp only [SessionRegistry.step, SessionRegistry.look, if_pos hs] at hsame
    split_ifs at hsame <;> simp [hs, SessionRegistry.round] at hsame
  | close =>
    have hs : r.shutdown = .returned := h
    intro heq
    have hsame := congrArg SessionRegistry.shutdown heq
    simp [SessionRegistry.step, SessionRegistry.close, hs] at hsame
  | resolve =>
    have hs : r.shutdown = .closed := h
    intro heq
    have hsame := congrArg SessionRegistry.shutdown heq
    simp [SessionRegistry.step, SessionRegistry.resolve, hs] at hsame
  | _ => exact h.elim

/-- Until the promise is resolved, a job is queued or a call is under way. -/
theorem exists_enabled (hbegun : r.shutdown ≠ .none) (hnot : r.shutdown ≠ .resolved) :
    ∃ event, Enabled r event := by
  cases hs : r.shutdown with
  | none => exact absurd hs hbegun
  | calling todo started =>
    cases todo with
    | nil => exact ⟨.collect, started, hs⟩
    | cons id todo => exact ⟨.call, by simp [Enabled, hs, Shutdown.todo]⟩
  | waiting work =>
    by_cases hpending : ∃ id ∈ work, r.pending id = true
    · obtain ⟨id, -, hp⟩ := hpending
      exact ⟨.settle id, hp⟩
    · have hsettled : ∀ id ∈ work, r.pending id = false := fun id hid => by
        by_contra hp
        exact hpending ⟨id, hid, by simpa using hp⟩
      by_cases hlate : ∃ id ∈ work, id ∈ r.lateDisposals
      · obtain ⟨id, hid, hmem⟩ := hlate
        exact ⟨.forget id, hmem, hsettled id hid⟩
      · exact ⟨.wake, work, hs, fun id hid => ⟨hsettled id hid, fun hmem => hlate ⟨id, hid, hmem⟩⟩⟩
  | looking => exact ⟨.look, hs⟩
  | returned => exact ⟨.close, hs⟩
  | closed => exact ⟨.resolve, hs⟩
  | resolved => exact absurd hs hnot

theorem begun_step (hbegun : r.shutdown ≠ .none) (event : RegistryEvent) :
    (r.step event).shutdown ≠ .none := by
  cases event with
  | register =>
    rw [SessionRegistry.step, SessionRegistry.register]
    cases r.state <;> exact hbegun
  | unregister id =>
    rw [SessionRegistry.step, SessionRegistry.unregister]
    split_ifs <;> exact hbegun
  | dispose id =>
    rw [SessionRegistry.step, SessionRegistry.dispose]
    split_ifs <;> exact hbegun
  | disposeAll =>
    rw [SessionRegistry.step, SessionRegistry.disposeAll, if_neg hbegun]
    exact hbegun
  | call =>
    rw [SessionRegistry.step, SessionRegistry.call]
    split
    · nofun
    · exact hbegun
  | collect =>
    rw [SessionRegistry.step, SessionRegistry.collect]
    split
    · dsimp only
      split_ifs <;> nofun
    · exact hbegun
  | settle id => exact hbegun
  | forget id =>
    rw [SessionRegistry.step, SessionRegistry.forget]
    split_ifs <;> exact hbegun
  | wake =>
    rw [SessionRegistry.step, SessionRegistry.wake]
    split
    · split_ifs
      · nofun
      · exact hbegun
    · exact hbegun
  | expire =>
    rw [SessionRegistry.step, SessionRegistry.expire]
    split
    · nofun
    · exact hbegun
  | look =>
    rw [SessionRegistry.step, SessionRegistry.look]
    split_ifs
    · nofun
    · nofun
    · exact hbegun
  | close =>
    rw [SessionRegistry.step, SessionRegistry.close]
    split_ifs
    · nofun
    · exact hbegun
  | resolve =>
    rw [SessionRegistry.step, SessionRegistry.resolve]
    split_ifs
    · nofun
    · exact hbegun

/-- What the jobs of the drain, the deadline and the disposers leave as it was. -/
theorem Sound.quiet_step (h : Sound r) {event : RegistryEvent}
    (hregister : event ≠ .register) (hunregister : ∀ id, event ≠ .unregister id)
    (hdispose : ∀ id, event ≠ .dispose id) (hall : event ≠ .disposeAll) :
    (r.step event).items = r.items ∧ (r.step event).counter = r.counter ∧
      ((r.step event).state = .active ↔ r.state = .active) := by
  have hidle := h.idle
  cases event with
  | register => exact absurd rfl hregister
  | unregister id => exact absurd rfl (hunregister id)
  | dispose id => exact absurd rfl (hdispose id)
  | disposeAll => exact absurd rfl hall
  | call =>
    simp only [SessionRegistry.step, SessionRegistry.call]
    split <;> exact ⟨rfl, rfl, Iff.rfl⟩
  | collect =>
    simp only [SessionRegistry.step, SessionRegistry.collect]
    split <;> exact ⟨rfl, rfl, Iff.rfl⟩
  | settle id => exact ⟨rfl, rfl, Iff.rfl⟩
  | forget id =>
    simp only [SessionRegistry.step, SessionRegistry.forget]
    split_ifs <;> exact ⟨rfl, rfl, Iff.rfl⟩
  | wake =>
    simp only [SessionRegistry.step, SessionRegistry.wake]
    split
    · rename_i work hs
      split_ifs
      · exact ⟨(hidle (by simp [hs])).symm, rfl, Iff.rfl⟩
      · exact ⟨rfl, rfl, Iff.rfl⟩
    · exact ⟨rfl, rfl, Iff.rfl⟩
  | expire =>
    simp only [SessionRegistry.step, SessionRegistry.expire]
    split <;> exact ⟨rfl, rfl, Iff.rfl⟩
  | look =>
    simp only [SessionRegistry.step, SessionRegistry.look]
    split_ifs with hs
    · exact ⟨rfl, rfl, Iff.rfl⟩
    · exact ⟨(hidle (by simp [hs])).symm, rfl, Iff.rfl⟩
    · exact ⟨rfl, rfl, Iff.rfl⟩
  | close =>
    simp only [SessionRegistry.step, SessionRegistry.close]
    split_ifs with hs
    · refine ⟨(hidle (by simp [hs])).symm, rfl, iff_of_false nofun fun hactive => ?_⟩
      rw [h.active.mp hactive] at hs
      cases hs
    · exact ⟨rfl, rfl, Iff.rfl⟩
  | resolve =>
    simp only [SessionRegistry.step, SessionRegistry.resolve]
    split_ifs <;> exact ⟨rfl, rfl, Iff.rfl⟩

/-- The first round of a shutdown. -/
theorem Sound.round_run (h : Sound r) (n : Nat) :
    Sound (run SessionRegistry.step r (.disposeAll :: (List.replicate n .call ++ [.collect]))) ∧
      (run SessionRegistry.step r
        (.disposeAll :: (List.replicate n .call ++ [.collect]))).shutdown ≠ .none ∧
      (run SessionRegistry.step r
        (.disposeAll :: (List.replicate n .call ++ [.collect]))).counter = r.counter := by
  rw [run_cons]
  have hstart : Sound (r.step .disposeAll) ∧ (r.step .disposeAll).shutdown ≠ .none ∧
      (r.step .disposeAll).counter = r.counter := by
    refine ⟨h.disposeAll, ?_⟩
    rw [SessionRegistry.step, SessionRegistry.disposeAll]
    split_ifs with hnone
    · exact ⟨nofun, rfl⟩
    · exact ⟨hnone, rfl⟩
  refine List.foldlRecOn (motive := fun s => Sound s ∧ s.shutdown ≠ .none ∧ s.counter = r.counter)
    _ SessionRegistry.step hstart fun s hs event hmem => ?_
  have hkind : event = .call ∨ event = .collect := by
    obtain hmem | hmem := List.mem_append.mp hmem
    · exact .inl (List.eq_of_mem_replicate hmem)
    · exact .inr (List.mem_singleton.mp hmem)
  have hsame : (s.step event).counter = s.counter := by
    obtain rfl | rfl := hkind
    all_goals exact (hs.1.quiet_step (by simp) (by simp) (by simp) (by simp)).2.1
  exact ⟨hs.1.step event, begun_step hs.2.1 event, hsame.trans hs.2.2⟩

theorem progress : Progress SessionRegistry.step Enabled (fun r => Sound r ∧ r.shutdown ≠ .none)
    (fun r => r.shutdown = .resolved) (· ≠ .register) SessionRegistry.left where
  next _ hinv hnot := exists_enabled hinv.2 hnot
  less r event hinv _ henabled := by
    have hquiet : event ≠ .register := by
      rintro rfl
      exact henabled
    exact (step_left hinv.1 hinv.2 hquiet).resolve_left (step_ne_of_enabled event henabled)
  keep r event hinv _ hquiet := by
    obtain hsame | hless := step_left hinv.1 hinv.2 hquiet
    · rw [hsame]
    · exact hless.le
  stay r event other hinv _ hquiet henabled := by
    obtain hsame | hless := step_left hinv.1 hinv.2 hquiet
    · rw [hsame]
      exact .inl henabled
    · exact .inr hless

/-- In every endless run in which the queued jobs are run and the disposers settle, and in which
the registrations come to an end, a shutdown that was asked for is resolved. -/
def Ends (events : ℕ → RegistryEvent) : Prop :=
  (∃ n, events n = .disposeAll) → (∃ n, ∀ m, n ≤ m → events m ≠ .register) →
    (∀ event, Fair SessionRegistry.step Enabled .new events event) →
    ∃ n, (trace SessionRegistry.step .new events n).shutdown = .resolved

theorem ends (events : ℕ → RegistryEvent) : Ends events := by
  rintro ⟨n, hn⟩ ⟨k, hquiet⟩ hfair
  have hsound : ∀ m, Sound (trace SessionRegistry.step .new events m) :=
    trace_inv sound_new fun _ event h => h.step event
  have hbegun : ∀ m, n + 1 ≤ m → (trace SessionRegistry.step .new events m).shutdown ≠ .none := by
    intro m hm
    induction m, hm using Nat.le_induction with
    | base =>
      rw [trace, hn, SessionRegistry.step, SessionRegistry.disposeAll]
      split_ifs with hnone
      · nofun
      · exact hnone
    | succ m _ ih => exact begun_step ih (events m)
  obtain ⟨m, -, hm⟩ := progress.eventually (fun m hm => ⟨hsound m, hbegun m (by omega)⟩)
    (fun m hm => hquiet m (by omega)) hfair (le_refl (n + 1 + k))
  exact ⟨m, hm⟩

end BoredManager.Server.Registry
