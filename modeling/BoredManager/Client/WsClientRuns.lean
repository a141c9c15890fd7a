import BoredManager.Client.WsClient

/-! Runs of the socket client: as long as no connect is made while another waits and no socket closes
behind the back of a later one, calls settle once and nothing crosses sessions. -/
namespace BoredManager.Client.Ws.WsClient
open BoredManager.Machine

variable {c : WsClient} {n : Nat}

/-! ### Sockets -/

/-- The client's socket is the newest, in the phase that the client says, and no other is in use. -/
structure Wired (c : WsClient) : Prop where
  newest : ∀ n ∈ c.socket, n + 1 = c.sockets.length
  phase : ∀ n ∈ c.socket, c.state = .connecting ∧ c.sockets[n]? = some .connecting ∨
    c.state = .opened ∧ c.sockets[n]? = some .opened
  gone : c.socket = none → c.state = .closed
  old : ∀ i, c.Live i → c.socket = some i
  stopped : c.stopped = true → c.socket = none

theorem Wired.openSocket (h : c.Wired) : c.openSocket.Wired := by
  rw [WsClient.openSocket]
  split_ifs with hstay
  · exact h
  · simp only [Bool.or_eq_true, Option.isSome_iff_ne_none, not_or, not_not, Bool.not_eq_true] at hstay
    refine ⟨by simp, by simp, by simp, fun i hi => ?_, by simp [hstay.2]⟩
    rw [Live, List.getElem?_append] at hi
    split_ifs at hi with hlt
    · have hsocket := h.old i hi
      rw [hstay.1] at hsocket
      cases hsocket
    · have hi : i - c.sockets.length = 0 := by
        by_contra hne
        obtain ⟨k, hk⟩ := Nat.exists_eq_succ_of_ne_zero hne
        simp [hk] at hi
      have heq : i = c.sockets.length := by omega
      rw [heq]

/-- Whoever reads only these fields reads the same. -/
theorem Wired.congr {d : WsClient} (h : c.Wired) (hsocket : d.socket = c.socket)
    (hsockets : d.sockets = c.sockets) (hstate : d.state = c.state)
    (hstopped : d.stopped = true → c.stopped = true) : d.Wired := by
  refine ⟨?_, ?_, ?_, ?_, ?_⟩
  · rw [hsocket, hsockets]
    exact h.newest
  · rw [hsocket, hsockets, hstate]
    exact h.phase
  · rw [hsocket, hstate]
    exact h.gone
  · intro i hi
    rw [Live, hsockets] at hi
    rw [hsocket]
    exact h.old i hi
  · intro hstop
    rw [hsocket]
    exact h.stopped (hstopped hstop)

/-- A socket that is in use is the client's. -/
theorem Wired.connecting (h : c.Wired) (hn : c.sockets[n]? = some .connecting) :
    c.socket = some n ∧ c.state = .connecting := by
  have hsocket := h.old n (.inl hn)
  obtain hphase | hphase := h.phase n hsocket
  · exact ⟨hsocket, hphase.1⟩
  · rw [hn] at hphase
    cases hphase.2

theorem live_set {phases : List Phase} {i : Nat} {phase : Phase}
    (hi : (phases.set n phase)[i]? = some .connecting ∨ (phases.set n phase)[i]? = some .opened)
    (hphase : phase = .closing ∨ phase = .closed) :
    i ≠ n ∧ (phases[i]? = some .connecting ∨ phases[i]? = some .opened) := by
  rw [List.getElem?_set] at hi
  split_ifs at hi with heq hlt
  · obtain rfl | rfl := hphase <;> simp at hi
  · simp at hi
  · exact ⟨fun h => heq h.symm, hi⟩

theorem live_close {phases : List Phase} {i : Nat}
    (hi : (phases.modify n Phase.close)[i]? = some .connecting ∨
      (phases.modify n Phase.close)[i]? = some .opened) :
    i ≠ n ∧ (phases[i]? = some .connecting ∨ phases[i]? = some .opened) := by
  rw [List.getElem?_modify] at hi
  by_cases heq : n = i
  · subst heq
    cases hphase : phases[n]? with
    | none => simp [hphase] at hi
    | some phase => cases phase <;> simp [hphase, Phase.close] at hi
  · refine ⟨fun h => heq h.symm, ?_⟩
    simpa [heq] using hi

theorem write_cases (h : c.Wired) (call : Option Nat) :
    (∃ n, c.socket = some n ∧ c.state = .opened ∧ c.write call =
      ({ c with sent := c.sent ++ [⟨⟨call, c.disconnects, some n⟩, n, c.disconnects⟩] }, false)) ∨
    (c.state ≠ .opened ∧ c.write call = ({ c.openSocket with
      outbox := c.outbox ++ [⟨call, c.disconnects, c.openSocket.socket⟩] }, false)) := by
  rw [write]
  cases hsocket : c.socket with
  | none => exact .inr ⟨by simp [h.gone hsocket], rfl⟩
  | some n =>
    obtain ⟨hstate, -⟩ | ⟨hstate, hopen⟩ := h.phase n hsocket
    · rw [hstate]
      exact .inr ⟨by simp, rfl⟩
    · rw [hstate]
      refine .inl ⟨n, rfl, rfl, ?_⟩
      simp only [transmit, hopen, hsocket, hstate]

theorem Wired.write (h : c.Wired) (call : Option Nat) : (c.write call).1.Wired := by
  obtain ⟨n, -, -, hwrite⟩ | ⟨-, hwrite⟩ := write_cases h call
  · rw [hwrite]
    exact h.congr rfl rfl rfl id
  · rw [hwrite]
    exact h.openSocket.congr rfl rfl rfl id

theorem invoke_eq (h : c.Wired) : c.invoke =
    { (c.write (some c.nextId)).1 with
      nextId := c.nextId + 1
      pending := c.pending ++ [⟨c.nextId, (c.write (some c.nextId)).1.socket⟩] } := by
  have hnext : ({ c with nextId := c.nextId + 1 } : WsClient).Wired := h.congr rfl rfl rfl id
  obtain ⟨n, hsocket, hstate, hwrite⟩ | ⟨hstate, hwrite⟩ := write_cases hnext (some c.nextId)
  · obtain ⟨m, hsocket', -, hwrite'⟩ | ⟨hstate', -⟩ := write_cases h (some c.nextId)
    · obtain rfl : n = m := Option.some.inj (hsocket.symm.trans hsocket')
      rw [invoke, hwrite, hwrite']
      simp
    · exact absurd hstate hstate'
  · obtain ⟨m, -, hstate', -⟩ | ⟨-, hwrite'⟩ := write_cases h (some c.nextId)
    · exact absurd hstate' hstate
    · rw [invoke, hwrite, hwrite']
      simp only [openSocket, Bool.false_eq_true, if_false]
      split_ifs <;> rfl

theorem Wired.step (h : c.Wired) {event : WsEvent} (hok : c.Allowed event) : (c.step event).Wired := by
  cases event with
  | connect =>
    have hnext : ({ c with stopped := false, connects := c.connects + 1 } : WsClient).Wired :=
      h.congr rfl rfl rfl (by simp)
    rw [WsClient.step, connect]
    dsimp only
    split_ifs
    · exact hnext.congr rfl rfl rfl id
    · exact Wired.openSocket (hnext.congr rfl rfl rfl id)
  | disconnect =>
    refine ⟨by simp [WsClient.step, disconnect], by simp [WsClient.step, disconnect], fun _ => rfl,
      fun i hi => ?_, fun _ => rfl⟩
    cases hsocket : c.socket with
    | none =>
      have hlive : c.Live i := by simpa [WsClient.step, disconnect, Live, hsocket] using hi
      have hcurrent := h.old i hlive
      rw [hsocket] at hcurrent
      cases hcurrent
    | some n =>
      simp only [WsClient.step, disconnect, Live, hsocket, Option.elim_some] at hi
      obtain ⟨hne, hlive⟩ := live_close hi
      have hcurrent := h.old i hlive
      rw [hsocket] at hcurrent
      exact absurd (Option.some.inj hcurrent).symm hne
  | invoke =>
    rw [WsClient.step, invoke_eq h]
    exact (h.write _).congr rfl rfl rfl id
  | send => exact h.write none
  | opened n =>
    rw [WsClient.step, opened]
    split_ifs with hphase
    · exact h
    · rw [not_not] at hphase
      obtain ⟨hsocket, hstate⟩ := h.connecting hphase
      have hlt : n < c.sockets.length := (List.getElem?_eq_some_iff.mp hphase).1
      refine ⟨?_, ?_, by simp [hsocket], fun i hi => ?_, fun hstop => h.stopped hstop⟩
      · simpa using h.newest
      · intro m hm
        obtain rfl : n = m := Option.some.inj (hsocket.symm.trans hm)
        exact .inr ⟨rfl, by simp [hlt]⟩
      · by_cases hi' : n = i
        · exact hi' ▸ hsocket
        · refine h.old i ?_
          simpa [Live, hi'] using hi
  | message n reply =>
    cases reply with
    | none => exact h
    | some id =>
      rw [WsClient.step, message]
      split_ifs
      · exact h
      · exact h.congr rfl rfl rfl fun hstop => hstop
  | closed n unauthorized =>
    rw [WsClient.step, closed]
    split_ifs
    · exact h
    · refine ⟨by simp, by simp, fun _ => rfl, fun i hi => ?_, fun _ => rfl⟩
      obtain ⟨hne, hlive⟩ := live_set hi (.inr rfl)
      have hcurrent := h.old i hlive
      obtain hsocket | hsocket := hok
      · rw [hsocket] at hcurrent
        exact absurd (Option.some.inj hcurrent).symm hne
      · rw [hsocket] at hcurrent
        cases hcurrent
  | timer =>
    rw [WsClient.step]
    split_ifs
    · exact Wired.openSocket (h.congr rfl rfl rfl id)
    · exact h

/-! ### Frames -/

/-- Frames are of this session, and were written for a socket that is not newer than the client's. -/
structure Carried (c : WsClient) : Prop where
  flushed : c.state = .opened → c.outbox = []
  session : ∀ frame ∈ c.outbox, frame.session = c.disconnects
  fresh : ∀ e ∈ c.sent, e.frame.session = e.session
  own : ∀ e ∈ c.lost, ∀ m ∈ e.written, m ≤ e.closed
  stamps : ∀ s ∈ c.pending.map Call.socket ++ c.outbox.map Frame.socket, ∀ m ∈ s,
    c.socket.isSome = true ∧ m < c.sockets.length

theorem Carried.openSocket (h : c.Carried) : c.openSocket.Carried := by
  rw [WsClient.openSocket]
  split_ifs with hstay
  · exact h
  · refine ⟨by simp, h.session, h.fresh, h.own, fun s hs m hm => ?_⟩
    have hlt := (h.stamps s hs m hm).2
    exact ⟨rfl, by rw [List.length_append]; omega⟩

/-- The stamp that a frame or a call gets. -/
theorem stamp_openSocket (hc : c.Wired) : ∀ m ∈ c.openSocket.socket,
    c.openSocket.socket.isSome = true ∧ m < c.openSocket.sockets.length := by
  intro m hm
  have hnewest := hc.openSocket.newest m hm
  exact ⟨by rw [hm]; rfl, by omega⟩

theorem Carried.write (h : c.Carried) (hc : c.Wired) (call : Option Nat) :
    (c.write call).1.Carried := by
  obtain ⟨n, hsocket, hstate, hwrite⟩ | ⟨hstate, hwrite⟩ := write_cases hc call
  · rw [hwrite]
    refine ⟨h.flushed, h.session, fun e he => ?_, h.own, h.stamps⟩
    obtain he | he := List.mem_append.mp he
    · exact h.fresh e he
    · rw [List.mem_singleton.mp he]
  · rw [hwrite]
    have ho := h.openSocket
    have hsession : c.openSocket.disconnects = c.disconnects := by
      rw [WsClient.openSocket]
      split_ifs <;> rfl
    have hsame : c.openSocket.outbox = c.outbox := by
      rw [WsClient.openSocket]
      split_ifs <;> rfl
    have hstate : c.openSocket.state ≠ .opened := by
      rw [WsClient.openSocket]
      split_ifs
      · exact hstate
      · simp
    refine ⟨fun hopen => absurd hopen hstate, fun frame hframe => ?_, ho.fresh, ho.own,
      fun s hs m hm => ?_⟩
    · obtain hframe | hframe := List.mem_append.mp hframe
      · exact hsession ▸ h.session frame hframe
      · rw [List.mem_singleton.mp hframe]
        exact hsession.symm
    · rw [List.map_append, ← List.append_assoc, List.mem_append] at hs
      obtain hs | hs := hs
      · exact ho.stamps s (by rwa [hsame]) m hm
      · obtain rfl : s = c.openSocket.socket := by simpa using hs
        exact stamp_openSocket hc m hm

@[simp] theorem openSocket_pending (c : WsClient) : c.openSocket.pending = c.pending := by
  rw [WsClient.openSocket]
  split_ifs <;> rfl

theorem write_pending (hc : c.Wired) (call : Option Nat) : (c.write call).1.pending = c.pending := by
  obtain ⟨n, -, -, hwrite⟩ | ⟨-, hwrite⟩ := write_cases hc call
  · rw [hwrite]
  · rw [hwrite]
    exact openSocket_pending c

theorem Carried.step (h : c.Carried) (hc : c.Wired) {event : WsEvent} (hok : c.Allowed event) :
    (c.step event).Carried := by
  cases event with
  | connect =>
    rw [WsClient.step, connect]
    dsimp only
    split_ifs
    · exact ⟨h.flushed, h.session, h.fresh, h.own, h.stamps⟩
    · exact Carried.openSocket ⟨h.flushed, h.session, h.fresh, h.own, h.stamps⟩
  | disconnect => exact ⟨fun _ => rfl, by rintro frame ⟨⟩, h.fresh, h.own, by rintro s ⟨⟩⟩
  | invoke =>
    have hw := h.write hc (some c.nextId)
    rw [WsClient.step, invoke_eq hc]
    refine ⟨hw.flushed, hw.session, hw.fresh, hw.own, fun s hs m hm => ?_⟩
    rw [List.map_append, List.append_assoc, List.mem_append, List.mem_append] at hs
    obtain hs | hs | hs := hs
    · exact hw.stamps s (List.mem_append_left _ (by rwa [write_pending hc])) m hm
    · obtain rfl := List.mem_singleton.mp hs
      have hnewest := (hc.write (some c.nextId)).newest m hm
      exact ⟨Option.isSome_of_mem hm, hnewest ▸ Nat.lt_succ_self m⟩
    · exact hw.stamps s (List.mem_append_right _ hs) m hm
  | send => exact h.write hc none
  | opened n =>
    rw [WsClient.step, opened]
    split_ifs
    · exact h
    · refine ⟨fun _ => rfl, by rintro frame ⟨⟩, fun e he => ?_, h.own, fun s hs m hm => ?_⟩
      · obtain he | he := List.mem_append.mp he
        · exact h.fresh e he
        · obtain ⟨frame, hframe, rfl⟩ := List.mem_map.mp he
          exact h.session frame hframe
      · rw [List.map_nil, List.append_nil] at hs
        rw [List.length_set]
        exact h.stamps s (List.mem_append_left _ hs) m hm
  | message n reply =>
    cases reply with
    | none => exact h
    | some id =>
      rw [WsClient.step, message]
      split_ifs
      · exact h
      · refine ⟨h.flushed, h.session, h.fresh, h.own, fun s hs m hm => h.stamps s ?_ m hm⟩
        have hsub := List.filter_sublist (p := fun call : Call => call.id ≠ id) (l := c.pending)
        exact ((hsub.map Call.socket).append (List.Sublist.refl _)).subset hs
  | closed n unauthorized =>
    rw [WsClient.step, closed]
    split_ifs
    · exact h
    · refine ⟨fun _ => rfl, by rintro frame ⟨⟩, h.fresh, fun e he m hm => ?_, by rintro s ⟨⟩⟩
      obtain he | he := List.mem_append.mp he
      · exact h.own e he m hm
      · obtain ⟨s, hs, rfl⟩ := List.mem_map.mp he
        obtain ⟨hsome, hlt⟩ := h.stamps s hs m hm
        obtain hsocket | hsocket := hok
        · have hnewest := hc.newest n hsocket
          dsimp only
          omega
        · rw [hsocket] at hsome
          cases hsome
  | timer =>
    rw [WsClient.step]
    split_ifs
    · exact Carried.openSocket ⟨h.flushed, h.session, h.fresh, h.own, h.stamps⟩
    · exact h

/-! ### Calls -/

/-- The calls that were made have settled or are pending, each once, and those wait for something. -/
structure Counted (c : WsClient) : Prop where
  pos : 0 < c.nextId
  account : (c.settled ++ c.pending.map Call.id).Perm (List.range' 1 (c.nextId - 1))
  waits : ∀ call ∈ c.pending, c.Waits call.id

theorem Waits.openSocket {id : Nat} (h : c.Waits id) : c.openSocket.Waits id := by
  rw [WsClient.openSocket]
  split_ifs with hstay
  · exact h
  · simp only [Bool.or_eq_true, Option.isSome_iff_ne_none, not_or, not_not] at hstay
    obtain hwaits | ⟨n, hsocket, -⟩ := h
    · exact .inl hwaits
    · rw [hstay.1] at hsocket
      cases hsocket

theorem Waits.write (hc : c.Wired) {id : Nat} (h : c.Waits id) (call : Option Nat) :
    (c.write call).1.Waits id := by
  obtain ⟨n, -, -, hwrite⟩ | ⟨-, hwrite⟩ := write_cases hc call
  · rw [hwrite]
    obtain hwaits | ⟨n, hsocket, hopen, e, he, hmine⟩ := h
    · exact .inl hwaits
    · exact .inr ⟨n, hsocket, hopen, e, List.mem_append_left _ he, hmine⟩
  · rw [hwrite]
    obtain ⟨frame, hframe, hcall⟩ | hwaits := h.openSocket
    · refine .inl ⟨frame, List.mem_append_left _ ?_, hcall⟩
      rw [WsClient.openSocket] at hframe
      split_ifs at hframe <;> exact hframe
    · exact .inr hwaits

/-- The frame that is written waits. -/
theorem waits_write (hc : c.Wired) (id : Nat) : (c.write (some id)).1.Waits id := by
  obtain ⟨n, hsocket, hstate, hwrite⟩ | ⟨-, hwrite⟩ := write_cases hc (some id)
  · rw [hwrite]
    obtain hphase | hphase := hc.phase n hsocket
    · rw [hstate] at hphase
      cases hphase.1
    · exact .inr ⟨n, hsocket, hphase.2, _, List.mem_append_right _ (List.mem_singleton_self _), rfl, rfl⟩
  · rw [hwrite]
    exact .inl ⟨_, List.mem_append_right _ (List.mem_singleton_self _), rfl⟩

theorem Counted.openSocket (h : c.Counted) : c.openSocket.Counted := by
  have hwaits := fun call hcall => (h.waits call hcall).openSocket
  rw [WsClient.openSocket] at hwaits ⊢
  split_ifs at hwaits ⊢
  · exact h
  · exact ⟨h.pos, h.account, hwaits⟩

theorem Counted.write (h : c.Counted) (hc : c.Wired) (call : Option Nat) :
    (c.write call).1.Counted := by
  have hwaits : ∀ other ∈ (c.write call).1.pending, (c.write call).1.Waits other.id := by
    rw [write_pending hc]
    exact fun other hother => (h.waits other hother).write hc call
  obtain ⟨n, -, -, hwrite⟩ | ⟨-, hwrite⟩ := write_cases hc call
  · rw [hwrite] at hwaits ⊢
    exact ⟨h.pos, h.account, hwaits⟩
  · rw [hwrite] at hwaits ⊢
    have ho := h.openSocket
    exact ⟨ho.pos, ho.account, hwaits⟩

theorem write_nextId (hc : c.Wired) (call : Option Nat) : (c.write call).1.nextId = c.nextId := by
  obtain ⟨n, -, -, hwrite⟩ | ⟨-, hwrite⟩ := write_cases hc call
  · rw [hwrite]
  · rw [hwrite]
    change c.openSocket.nextId = c.nextId
    rw [WsClient.openSocket]
    split_ifs <;> rfl

theorem Counted.step (h : c.Counted) (hc : c.Wired) (event : WsEvent) : (c.step event).Counted := by
  cases event with
  | connect =>
    rw [WsClient.step, connect]
    dsimp only
    split_ifs
    · exact ⟨h.pos, h.account, h.waits⟩
    · exact Counted.openSocket ⟨h.pos, h.account, h.waits⟩
  | disconnect =>
    refine ⟨h.pos, ?_, by rintro call ⟨⟩⟩
    simpa [WsClient.step, disconnect] using h.account
  | invoke =>
    have hw := h.write hc (some c.nextId)
    have hrange : List.range' 1 (c.nextId + 1 - 1) = List.range' 1 (c.nextId - 1) ++ [c.nextId] := by
      have hpred : c.nextId + 1 - 1 = c.nextId - 1 + 1 := by have := h.pos; omega
      have hlast : 1 + (c.nextId - 1) = c.nextId := by have := h.pos; omega
      rw [hpred, List.range'_1_concat, hlast]
    rw [WsClient.step, invoke_eq hc]
    refine ⟨Nat.succ_pos _, ?_, fun call hcall => ?_⟩
    · dsimp only
      rw [List.map_append, ← List.append_assoc, hrange, ← write_pending hc (some c.nextId)]
      refine List.Perm.append_right _ ?_
      have haccount := hw.account
      rwa [write_nextId hc] at haccount
    · obtain hcall | hcall := List.mem_append.mp hcall
      · exact hw.waits call (by rwa [write_pending hc])
      · rw [List.mem_singleton.mp hcall]
        exact waits_write hc c.nextId
  | send => exact h.write hc none
  | opened n =>
    rw [WsClient.step, opened]
    split_ifs with hphase
    · exact h
    · rw [not_not] at hphase
      obtain ⟨hsocket, hstate⟩ := hc.connecting hphase
      have hlt : n < c.sockets.length := (List.getElem?_eq_some_iff.mp hphase).1
      refine ⟨h.pos, h.account, fun call hcall => .inr ⟨n, hsocket, by simp [hlt], ?_⟩⟩
      obtain ⟨frame, hframe, hmine⟩ | ⟨m, hm, hopen, -⟩ := h.waits call hcall
      · exact ⟨_, List.mem_append_right _ (List.mem_map_of_mem hframe), rfl, hmine⟩
      · rw [Option.some.inj (hm.symm.trans hsocket), hphase] at hopen
        cases hopen
  | message n reply =>
    cases reply with
    | none => exact h
    | some id =>
      rw [WsClient.step, message]
      split_ifs
      · exact h
      · refine ⟨h.pos, ?_, fun call hcall => h.waits call (List.mem_of_mem_filter hcall)⟩
        have hkept : (c.pending.filter (·.id ≠ id)).map Call.id =
            (c.pending.map Call.id).filter (· ≠ id) := by
          rw [List.filter_map]
          rfl
        dsimp only
        rw [hkept, List.append_assoc]
        refine (List.Perm.append_left _ ?_).trans h.account
        simpa using List.filter_append_perm (fun k => decide (k = id)) (c.pending.map Call.id)
  | closed n unauthorized =>
    rw [WsClient.step, closed]
    split_ifs
    · exact h
    · refine ⟨h.pos, ?_, by rintro call ⟨⟩⟩
      simpa using h.account
  | timer =>
    rw [WsClient.step]
    split_ifs
    · exact Counted.openSocket ⟨h.pos, h.account, h.waits⟩
    · exact h

/-! ### Connects -/

/-- Of the connects since the last disconnect, one at most waits for a socket. -/
structure Awaited (c : WsClient) : Prop where
  waiting : ∀ k, c.signedOut < k → k ≤ c.connects → k ∈ c.resolved ∨ c.firstOpen = some k
  resolves : ∀ k ∈ c.due, k ∈ c.resolved

theorem Awaited.openSocket (h : c.Awaited) : c.openSocket.Awaited := by
  rw [WsClient.openSocket]
  split_ifs
  · exact h
  · exact ⟨h.waiting, h.resolves⟩

theorem Awaited.write (h : c.Awaited) (hc : c.Wired) (call : Option Nat) :
    (c.write call).1.Awaited := by
  obtain ⟨n, -, -, hwrite⟩ | ⟨-, hwrite⟩ := write_cases hc call
  · rw [hwrite]
    exact ⟨h.waiting, h.resolves⟩
  · rw [hwrite]
    exact ⟨h.openSocket.waiting, h.openSocket.resolves⟩

theorem Awaited.step (h : c.Awaited) (hc : c.Wired) {event : WsEvent} (hok : c.Allowed event) :
    (c.step event).Awaited := by
  cases event with
  | connect =>
    rw [WsClient.step, connect]
    dsimp only
    split_ifs with hstate
    · refine ⟨fun k hk hle => ?_, fun k hk => List.mem_append_left _ (h.resolves k hk)⟩
      obtain rfl | hlt := Nat.eq_or_lt_of_le hle
      · exact .inl (List.mem_append_right _ (List.mem_singleton_self _))
      · exact (h.waiting k hk (Nat.le_of_lt_succ hlt)).imp (List.mem_append_left _) id
    · refine Awaited.openSocket ⟨fun k hk hle => ?_, h.resolves⟩
      obtain rfl | hlt := Nat.eq_or_lt_of_le hle
      · exact .inr rfl
      · obtain hdone | hfirst := h.waiting k hk (Nat.le_of_lt_succ hlt)
        · exact .inl hdone
        · exact absurd (hok hstate k hfirst) (Nat.not_le_of_gt hk)
  | disconnect => exact ⟨fun k hk hle => absurd hle (Nat.not_le_of_gt hk), h.resolves⟩
  | invoke =>
    have hw := h.write hc (some c.nextId)
    rw [WsClient.step, invoke_eq hc]
    exact ⟨hw.waiting, hw.resolves⟩
  | send => exact h.write hc none
  | opened n =>
    rw [WsClient.step, opened]
    split_ifs
    · exact h
    · have hall : ∀ k, c.signedOut < k → k ≤ c.connects → k ∈ c.resolved ++ c.firstOpen.toList := by
        intro k hk hle
        obtain hdone | hfirst := h.waiting k hk hle
        · exact List.mem_append_left _ hdone
        · exact List.mem_append_right _ (by simp [hfirst])
      refine ⟨fun k hk hle => .inl (hall k hk hle), fun k hk => ?_⟩
      obtain hk | hk := List.mem_append.mp hk
      · exact List.mem_append_left _ (h.resolves k hk)
      · obtain ⟨hrange, hsince⟩ := List.mem_filter.mp hk
        exact hall k (of_decide_eq_true hsince) (Nat.le_of_lt_succ (List.mem_range.mp hrange))
  | message n reply =>
    cases reply with
    | none => exact h
    | some id =>
      rw [WsClient.step, message]
      split_ifs
      · exact h
      · exact ⟨h.waiting, h.resolves⟩
  | closed n unauthorized =>
    rw [WsClient.step, closed]
    split_ifs
    · exact h
    · exact ⟨h.waiting, h.resolves⟩
  | timer =>
    rw [WsClient.step]
    split_ifs
    · exact Awaited.openSocket ⟨h.waiting, h.resolves⟩
    · exact h

/-! ### Runs -/

structure Sound (c : WsClient) : Prop where
  wired : c.Wired
  carried : c.Carried
  counted : c.Counted
  awaited : c.Awaited

theorem sound_start : start.Sound where
  wired := ⟨by simp [start], by simp [start], fun _ => rfl, by simp [start, Live], by simp [start]⟩
  carried := ⟨fun _ => rfl, by simp [start], by simp [start], by simp [start], by simp [start]⟩
  counted := ⟨Nat.one_pos, .refl _, by simp [start]⟩
  awaited := ⟨fun k hk hle => absurd hle (Nat.not_le_of_gt hk), by simp [start]⟩

theorem Sound.step (h : c.Sound) {event : WsEvent} (hok : c.Allowed event) : (c.step event).Sound :=
  ⟨h.wired.step hok, h.carried.step h.wired hok, h.counted.step h.wired event,
    h.awaited.step h.wired hok⟩

theorem Sound.sane (h : c.Sound) : c.Sane := by
  have hnodup : (c.settled ++ c.pending.map Call.id).Nodup :=
    h.counted.account.nodup_iff.mpr List.nodup_range'
  obtain ⟨hsettled, -, hapart⟩ := List.nodup_append.mp hnodup
  refine ⟨hsettled, fun id hpos hlt => ?_, h.carried.fresh, h.carried.own, fun i j hi hj => ?_,
    fun hstate => ?_, h.awaited.resolves⟩
  · have hmem : id ∈ c.settled ++ c.pending.map Call.id := by
      rw [h.counted.account.mem_iff, List.mem_range'_1]
      omega
    obtain hdone | hpending := List.mem_append.mp hmem
    · exact .inl ⟨hdone, fun hpending => hapart id hdone id hpending rfl⟩
    · obtain ⟨call, hcall, rfl⟩ := List.mem_map.mp hpending
      exact .inr ⟨fun hdone => hapart _ hdone _ hpending rfl, hpending, h.counted.waits call hcall⟩
  · exact Option.some.inj ((h.wired.old i hi).symm.trans (h.wired.old j hj))
  · cases hsocket : c.socket with
    | none =>
      rw [h.wired.gone hsocket] at hstate
      cases hstate
    | some n =>
      obtain hphase | hphase := h.wired.phase n hsocket
      · rw [hstate] at hphase
        cases hphase.1
      · exact ⟨n, rfl, hphase.2⟩

/-- In a run all of whose events are allowed, calls settle once and frames stay in their session, at
every moment. -/
theorem client_sane (events : List WsEvent) (h : Guarded step Allowed start events) :
    ∀ before more, before ++ more = events → (run step start before).Sane := by
  rintro before more rfl
  exact (run_preserves (fun c event hc hok => Sound.step hc hok) (guarded_left h) sound_start).sane

/-- A session that ends before its socket does, and the next one, whose socket drops. -/
def twoSessions : List WsEvent :=
  [.connect, .invoke, .opened 0, .message 0 (some 1), .disconnect, .closed 0 false, .connect,
    .send, .opened 1, .invoke, .closed 1 false, .timer, .opened 2]

theorem two_sessions_sane : (run step start twoSessions).Sane :=
  client_sane twoSessions (by decide) twoSessions [] (List.append_nil _)

/-- The socket of the session before closes after the next one has sent a call. -/
def lateClose : List WsEvent :=
  [.connect, .opened 0, .disconnect, .connect, .opened 1, .invoke, .closed 0 false]

/-- The call is rejected, the open socket is forgotten, and the timer makes another beside it; and of
two connects before a socket opens the first never resolves. -/
theorem session_crossed :
    let late := run step start lateClose
    let both := run step start (lateClose ++ [.timer])
    let twice := run step start [.connect, .connect, .opened 0]
    (late.settled = [1] ∧ late.lost = [⟨some 1, 0⟩]) ∧
    (both.sockets = [.closed, .opened, .connecting] ∧ both.socket = some 2) ∧
    (twice.due = [1, 2] ∧ twice.resolved = [2]) ∧
    ¬ late.Sane ∧ ¬ both.Sane ∧ ¬ twice.Sane := by
  refine ⟨by decide, by decide, by decide, fun h => ?_, fun h => ?_, fun h => ?_⟩
  · exact absurd (h.own ⟨some 1, 0⟩ (by decide) 1 rfl) (by decide)
  · exact absurd (h.single 1 2 (.inr (by decide)) (.inl (by decide))) (by decide)
  · exact absurd (h.resolves 1 (by decide)) (by decide)

end BoredManager.Client.Ws.WsClient
