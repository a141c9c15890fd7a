import BoredManager.Gpu.Stream
import BoredManager.Machine.Runs

/-! What the snapshots of a stream are made of: rows of one attempt that stand next to each other, in
the order of the output and never twice, and none of an attempt that is over. -/
namespace BoredManager.Gpu.Stream
open BoredManager.Js BoredManager.Machine

variable {s s' : GpuService} {l : Launch} {b : Batch} {rest : List Text} {line : Text}

def Drain.batch? : Drain → Option Batch
  | .querying _ batch _ => some batch
  | .returned _ _ => none

/-- The batches that are published, sampled and queued. -/
def GpuService.pipeline (s : GpuService) : List Batch :=
  s.published.map Prod.fst ++ ((s.drain.bind Drain.batch?).toList ++ s.queuedGpuRows.toList)

/-- The rows of one batch come before those of the other. -/
def Batch.Before (a b : Batch) : Prop :=
  a.attempt < b.attempt ∨ (a.attempt = b.attempt ∧ a.first + a.rows.length ≤ b.first)

/-- The batch is a piece of what its attempt has printed, at its place. -/
def Batch.Within (b : Batch) (output : Nat → Text) : Prop :=
  ∃ before behind, rowsOf (output b.attempt) = before ++ (b.rows ++ behind) ∧ before.length = b.first

structure Batch.Sound (b : Batch) (output : Nat → Text) : Prop where
  rows_ne : b.rows ≠ []
  distinct : (b.rows.map indexOf).Nodup
  within : b.Within output

/-- The batch is over before the rows that wait in `streamRows`. -/
def Batch.Behind (b : Batch) (s : GpuService) : Prop :=
  b.attempt < s.streamAttempt ∨ (b.attempt = s.streamAttempt ∧ b.first + b.rows.length ≤ s.taken)

/-- The batch is the last one of the attempt that runs. -/
def Batch.Last (b : Batch) (s : GpuService) : Prop :=
  b.attempt = s.streamAttempt ∧ b.first + b.rows.length = s.taken

/-! ### Invariants -/

/-- Which streams are asked for, and which one runs. -/
structure Control (s : GpuService) : Prop where
  pending_le : ∀ l ∈ s.pending, l.attempt ≤ s.streamAttempt
  pending_nodup : (s.pending.map Launch.attempt).Nodup
  waiting : ∀ l ∈ s.pending, l.attempt = s.streamAttempt → s.streamHandle = none
  restart : ∀ l, s.restartTimer = some l → l.attempt = s.streamAttempt →
    s.streamHandle = none ∧ ∀ l ∈ s.pending, l.attempt ≠ s.streamAttempt
  handle : ∀ l, s.streamHandle = some l → s.Current l ∧ l ∈ s.listeners ∧ s.metricsIntervalMs ≠ 0
  listeners : ∀ l ∈ s.listeners, l.attempt < s.streamAttempt ∨ s.streamHandle = some l

/-- Where the last batch is: in the queue, at the query, or behind it. -/
def Served (s : GpuService) : Prop :=
  (∃ b, s.queuedGpuRows = some b) ∨ (s.queuedGpuRows = none ∧
    ((∃ b, s.drain.bind Drain.batch? = some b ∧ b.Last s) ∨
      (s.drain.bind Drain.batch? = none ∧ ∃ b ok, s.queries.getLast? = some (b, ok) ∧ b.Last s ∧
        (ok = true → s.published.getLast?.map Prod.fst = some b))))

/-- What is kept of the running attempt's output; `rest` are the rows of the chunk that are not read
yet. -/
structure Live (s : GpuService) (rest : List Text) (l : Launch) : Prop where
  buffer : s.streamBuffer = openLine (s.output l.attempt)
  rows : ∃ before, rowsOf (s.output l.attempt) = before ++ (s.streamRows ++ rest) ∧
    before.length = s.taken
  indexes : s.streamIndexes = s.streamRows.map indexOf
  distinct : (s.streamRows.map indexOf).Nodup
  timer : s.streamRows ≠ [] → s.batchTimer = some l
  served : s.taken ≠ 0 → Served s

/-- Nothing is kept of an attempt that does not run. -/
structure Idle (s : GpuService) : Prop where
  buffer : s.streamBuffer = []
  rows : s.streamRows = []
  indexes : s.streamIndexes = []
  queue : s.queuedGpuRows = none
  taken : s.taken = 0

structure Data (s : GpuService) (rest : List Text) : Prop where
  idle : s.streamHandle = none → Idle s
  live : ∀ l, s.streamHandle = some l → Live s rest l
  sorted : s.pipeline.Pairwise Batch.Before
  sound : ∀ b ∈ s.pipeline, b.Sound s.output ∧ b.Behind s
  last : ∀ b, s.queuedGpuRows = some b → b.Last s
  fresh : ∀ generation b includeUuids, s.drain = some (.querying generation b includeUuids) →
    b.attempt = s.streamAttempt → generation = s.metricsGeneration
  silent : ∀ a, s.streamAttempt < a ∨ (a = s.streamAttempt ∧ s.streamHandle = none) →
    s.output a = []
  asked : ∀ q ∈ s.queries, q.1.Sound s.output
  gpus : ∀ p ∈ s.published, p.2.gpus = p.1.rows.map fun row => gpuOf (fieldsOf row)

structure Inv (s : GpuService) (rest : List Text) : Prop where
  control : Control s
  data : Data s rest
  queue : s.queuedGpuRows ≠ none → s.drain ≠ none

/-! ### Attempts -/

/-- An attempt is over: nothing is kept of it, and the next one has another number. -/
structure Cleared (s s' : GpuService) : Prop extends Idle s' where
  attempt : s.streamAttempt < s'.streamAttempt
  handle : s'.streamHandle = none
  drain : s'.drain = s.drain
  output : s'.output = s.output
  queries : s'.queries = s.queries
  published : s'.published = s.published

theorem Batch.Sound.parse_ne (h : b.Sound s.output) :
    parseGpus (join [10] b.rows) = b.rows.map fun row => gpuOf (fieldsOf row) := by
  obtain ⟨before, behind, hrows, -⟩ := h.within
  refine parseGpus_join h.rows_ne fun row hrow => ?_
  have hmem : row ∈ rowsOf (s.output b.attempt) := by
    rw [hrows]
    exact List.mem_append_right _ (List.mem_append_left _ hrow)
  exact row_of_mem_rowsOf hmem

/-- A batch of an attempt that was current belongs to the past once the number goes up. -/
theorem Batch.Behind.older (h : b.Behind s) (hlt : s.streamAttempt < s'.streamAttempt) :
    b.attempt < s'.streamAttempt := by
  obtain h | h := h
  · exact Nat.lt_trans h hlt
  · exact h.1 ▸ hlt

theorem Data.cleared (h : Data s rest) (hc : Cleared s s') : Data s' [] := by
  have hsub : s'.pipeline.Sublist s.pipeline := by
    rw [GpuService.pipeline, GpuService.pipeline, hc.published, hc.drain, hc.queue]
    exact (List.Sublist.refl _).append ((List.Sublist.refl _).append (List.nil_sublist _))
  have holder : ∀ b ∈ s'.pipeline, b.attempt < s'.streamAttempt := fun b hb =>
    (h.sound b (hsub.subset hb)).2.older hc.attempt
  exact {
    idle := fun _ => hc.toIdle
    live := fun l hl => by
      rw [hc.handle] at hl
      cases hl
    sorted := h.sorted.sublist hsub
    sound := fun b hb => by
      rw [hc.output]
      exact ⟨(h.sound b (hsub.subset hb)).1, .inl (holder b hb)⟩
    last := fun b hb => by
      rw [hc.queue] at hb
      cases hb
    fresh := fun generation b includeUuids hd hb => by
      have hmem : b ∈ s'.pipeline := by
        rw [GpuService.pipeline, hd]
        simp [Drain.batch?]
      exact absurd hb (Nat.ne_of_lt (holder b hmem))
    silent := fun a ha => by
      rw [hc.output]
      refine h.silent a (.inl ?_)
      have := hc.attempt
      omega
    asked := fun q hq => by
      rw [hc.output]
      rw [hc.queries] at hq
      exact h.asked q hq
    gpus := fun p hp => by
      rw [hc.published] at hp
      exact h.gpus p hp }

theorem Control.cleared (h : Control s) (hc : Cleared s s') (hp : s'.pending.Sublist s.pending)
    (hl : s'.listeners = s.listeners) : Control s' := by
  have hpending : ∀ l ∈ s'.pending, l.attempt < s'.streamAttempt := fun l hmem =>
    Nat.lt_of_le_of_lt (h.pending_le l (hp.subset hmem)) hc.attempt
  exact {
    pending_le := fun l hmem => Nat.le_of_lt (hpending l hmem)
    pending_nodup := h.pending_nodup.sublist (hp.map _)
    waiting := fun l hmem heq => absurd heq (Nat.ne_of_lt (hpending l hmem))
    restart := fun l hr heq => ⟨hc.handle, fun l hmem => Nat.ne_of_lt (hpending l hmem)⟩
    handle := fun l hh => by
      rw [hc.handle] at hh
      cases hh
    listeners := fun l hmem => by
      rw [hl] at hmem
      obtain hlt | hhandle := h.listeners l hmem
      · exact .inl (Nat.lt_trans hlt hc.attempt)
      · exact .inl ((h.handle l hhandle).1.2 ▸ hc.attempt) }

theorem Inv.cleared (h : Inv s rest) (hc : Cleared s s') (hp : s'.pending.Sublist s.pending)
    (hl : s'.listeners = s.listeners) : Inv s' [] :=
  ⟨h.control.cleared hc hp hl, h.data.cleared hc, fun hne => absurd hc.queue hne⟩

theorem inv_stopMetrics (h : Inv s []) : Inv s.stopMetrics [] :=
  h.cleared
    { buffer := rfl, rows := rfl, indexes := rfl, queue := rfl, taken := rfl
      attempt := Nat.lt_succ_self _, handle := rfl, drain := rfl, output := rfl, queries := rfl
      published := rfl }
    (List.Sublist.refl _) rfl

/-- A stream is asked for only while none runs. -/
theorem inv_launchStream (h : Inv s []) (hnone : s.streamHandle = none) (htimer : s.restartTimer = none)
    (generation : Nat) : Inv (s.launchStream generation) [] := by
  rw [GpuService.launchStream]
  split_ifs
  · exact h
  · have hidle := h.data.idle hnone
    refine ⟨?_, h.data.cleared
      { hidle with
        attempt := Nat.lt_succ_self _, handle := hnone, drain := rfl, output := rfl, queries := rfl
        published := rfl }, h.queue⟩
    have hold : ∀ l ∈ s.pending, l.attempt < s.streamAttempt + 1 := fun l hmem =>
      Nat.lt_succ_of_le (h.control.pending_le l hmem)
    exact {
      pending_le := fun l hmem => by
        obtain rfl | hmem := List.mem_cons.mp hmem
        · exact Nat.le_refl _
        · exact Nat.le_of_lt (hold l hmem)
      pending_nodup := by
        rw [List.map_cons, List.nodup_cons]
        refine ⟨fun hmem => ?_, h.control.pending_nodup⟩
        obtain ⟨l, hl, heq⟩ := List.mem_map.mp hmem
        exact absurd heq (Nat.ne_of_lt (hold l hl))
      waiting := fun _ _ _ => hnone
      restart := fun l hl => by
        rw [htimer] at hl
        cases hl
      handle := fun l hl => by
        rw [hnone] at hl
        cases hl
      listeners := fun l hmem => by
        obtain hlt | hhandle := h.control.listeners l hmem
        · exact .inl (Nat.lt_succ_of_lt hlt)
        · rw [hnone] at hhandle
          cases hhandle }

/-- What the data of a stream does not depend on. -/
theorem Data.frame (h : Data s rest) (ms : Nat) (starting fallback refresh : Bool) (failures : Nat)
    (restart watchdog : Option Launch) (uuids : OrderedMap Text ℚ) (pending listeners : List Launch) :
    Data { s with
      metricsIntervalMs := ms, streamStarting := starting, fallbackSession := fallback
      uuidRefreshNeeded := refresh, streamFailures := failures, restartTimer := restart
      watchdogTimer := watchdog, uuidToIndex := uuids, pending := pending
      listeners := listeners } rest :=
  { h with
    idle := fun hnone => { h.idle hnone with }
    live := fun l hl => { h.live l hl with } }

theorem cleared_streamFailed (hcurrent : s.Current l) (hms : s.metricsIntervalMs ≠ 0)
    (hnone : s.streamHandle = none) : Cleared s (s.streamFailed l) := by
  rw [GpuService.streamFailed, if_neg (by simp [hcurrent, hms])]
  dsimp only
  split_ifs
  · exact {
      buffer := rfl, rows := rfl, indexes := rfl, queue := rfl, taken := rfl
      attempt := Nat.lt_succ_self _, handle := hnone, drain := rfl, output := rfl, queries := rfl
      published := rfl }
  · exact {
      buffer := rfl, rows := rfl, indexes := rfl, queue := rfl, taken := rfl
      attempt := Nat.lt_succ_self _, handle := hnone, drain := rfl, output := rfl, queries := rfl
      published := rfl }

theorem streamFailed_pending (s : GpuService) (l : Launch) :
    (s.streamFailed l).pending = s.pending ∧ (s.streamFailed l).listeners = s.listeners := by
  rw [GpuService.streamFailed]
  dsimp only
  split_ifs
  · exact ⟨rfl, rfl⟩
  · exact ⟨rfl, rfl⟩
  · exact ⟨rfl, rfl⟩

/-- The stream that runs ends. -/
theorem inv_ended (h : Inv s []) (hl : s.streamHandle = some l) :
    Inv ({ s with streamHandle := none }.streamFailed l) [] := by
  obtain ⟨hcurrent, -, hms⟩ := h.control.handle l hl
  have hcleared := cleared_streamFailed (s := { s with streamHandle := none }) hcurrent hms rfl
  obtain ⟨hpending, hlisteners⟩ := streamFailed_pending { s with streamHandle := none } l
  refine h.cleared { hcleared with } ?_ hlisteners
  rw [hpending]

theorem inv_exited (h : Inv s []) (l : Launch) : Inv (s.exited l) [] := by
  rw [GpuService.exited]
  split_ifs with hguard
  · exact h
  · exact inv_ended h (by tauto)

theorem inv_watchdogTimeout (h : Inv s []) : Inv s.watchdogTimeout [] := by
  rw [GpuService.watchdogTimeout]
  split
  · exact h
  · have hinv : Inv { s with watchdogTimer := none } [] :=
      ⟨{ h.control with }, h.data.frame _ _ _ _ _ _ _ _ _ _, h.queue⟩
    dsimp only
    split_ifs with hguard
    · exact hinv
    · exact inv_ended hinv (by tauto)

theorem inv_restartTimeout (h : Inv s []) : Inv s.restartTimeout [] := by
  rw [GpuService.restartTimeout]
  split
  · exact h
  · rename_i guard htimer
    have hinv : Inv { s with restartTimer := none } [] :=
      ⟨{ h.control with restart := fun l hl => by cases hl }, h.data.frame _ _ _ _ _ _ _ _ _ _, h.queue⟩
    dsimp only
    split_ifs with hguard
    · exact inv_launchStream hinv (h.control.restart guard htimer hguard.2).1 rfl _
    · exact hinv

/-- The other streams that are asked for have other numbers. -/
theorem attempt_ne_of_mem_erase (h : Control s) (hl : l ∈ s.pending) {other : Launch}
    (hother : other ∈ s.pending.erase l) : other ∈ s.pending ∧ other.attempt ≠ l.attempt := by
  have hnodup : s.pending.Nodup := List.Nodup.of_map _ h.pending_nodup
  obtain ⟨hne, hmem⟩ := hnodup.mem_erase_iff.mp hother
  exact ⟨hmem, fun heq => hne (List.inj_on_of_nodup_map h.pending_nodup hmem hl heq)⟩

theorem Control.erase (h : Control s) (l : Launch) :
    Control { s with pending := s.pending.erase l } :=
  { h with
    pending_le := fun other hmem => h.pending_le other (List.mem_of_mem_erase hmem)
    pending_nodup := h.pending_nodup.sublist (List.erase_sublist.map _)
    waiting := fun other hmem => h.waiting other (List.mem_of_mem_erase hmem)
    restart := fun r hr heq => by
      obtain ⟨hnone, hall⟩ := h.restart r hr heq
      exact ⟨hnone, fun other hmem => hall other (List.mem_of_mem_erase hmem)⟩ }

theorem inv_refused (h : Inv s []) (l : Launch) : Inv (s.refused l) [] := by
  rw [GpuService.refused]
  dsimp only
  split_ifs with hpending hcurrent
  · have hinv : Inv { s with pending := s.pending.erase l, streamStarting := false } [] :=
      ⟨{ h.control.erase l with }, h.data.frame _ _ _ _ _ _ _ _ _ _, h.queue⟩
    by_cases hms : s.metricsIntervalMs = 0
    · rw [GpuService.streamFailed, if_pos (.inr hms)]
      exact hinv
    · have hnone : s.streamHandle = none := h.control.waiting l hpending hcurrent.2
      obtain ⟨hp, hlisteners⟩ :=
        streamFailed_pending { s with pending := s.pending.erase l, streamStarting := false } l
      refine hinv.cleared (cleared_streamFailed hcurrent hms hnone) ?_ hlisteners
      rw [hp]
  · exact ⟨h.control.erase l, h.data.frame _ _ _ _ _ _ _ _ _ _, h.queue⟩
  · exact h

/-- Somebody listens to the new stream, which has printed nothing yet. -/
theorem inv_opened (h : Inv s []) (l : Launch) : Inv (s.opened l) [] := by
  rw [GpuService.opened]
  dsimp only
  split_ifs with hpending hguard
  · exact ⟨h.control.erase l, h.data.frame _ _ _ _ _ _ _ _ _ _, h.queue⟩
  · obtain ⟨hcurrent, hms⟩ : s.Current l ∧ s.metricsIntervalMs ≠ 0 := by
      simp only [not_or, not_not] at hguard
      exact ⟨hguard.1, hguard.2.1⟩
    have hnone : s.streamHandle = none := h.control.waiting l hpending hcurrent.2
    have hidle := h.data.idle hnone
    have hsilent : s.output l.attempt = [] := h.data.silent _ (.inr ⟨hcurrent.2, hnone⟩)
    refine ⟨?_, ?_, h.queue⟩
    · exact {
        pending_le := fun other hmem => h.control.pending_le other (List.mem_of_mem_erase hmem)
        pending_nodup := (h.control.erase l).pending_nodup
        waiting := fun other hmem heq =>
          absurd (heq.trans hcurrent.2.symm) (attempt_ne_of_mem_erase h.control hpending hmem).2
        restart := fun r hr heq =>
          absurd hcurrent.2 ((h.control.restart r hr heq).2 l hpending)
        handle := fun other hother => by
          cases hother
          exact ⟨hcurrent, List.mem_cons_self, hms⟩
        listeners := fun other hmem => by
          obtain rfl | hmem := List.mem_cons.mp hmem
          · exact .inr rfl
          · obtain hlt | hhandle := h.control.listeners other hmem
            · exact .inl hlt
            · rw [hnone] at hhandle
              cases hhandle }
    · exact {
        idle := fun hh => by cases hh
        live := fun other hother => by
          cases hother
          exact {
            buffer := by
              rw [hsilent]
              exact hidle.buffer
            rows := ⟨[], by
              rw [hsilent, hidle.rows]
              rfl, hidle.taken.symm⟩
            indexes := by
              rw [hidle.indexes, hidle.rows]
              rfl
            distinct := by
              rw [hidle.rows]
              exact List.nodup_nil
            timer := fun hne => absurd hidle.rows hne
            served := fun hne => absurd hidle.taken hne }
        sorted := h.data.sorted
        sound := h.data.sound
        last := h.data.last
        fresh := h.data.fresh
        silent := fun a ha => by
          obtain hlt | ⟨-, hh⟩ := ha
          · exact h.data.silent a (.inl hlt)
          · cases hh
        asked := h.data.asked
        gpus := h.data.gpus }
  · exact h

end BoredManager.Gpu.Stream
