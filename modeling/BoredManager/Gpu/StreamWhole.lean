import BoredManager.Gpu.StreamBatches

/-! Runs of the stream, in any order of what it prints, of its timers, of its queries and of starts,
stops and exits. -/
namespace BoredManager.Gpu.Stream
open BoredManager.Js BoredManager.Machine

variable {s s' : GpuService} {l : Launch} {b : Batch} {rest : List Text} {line : Text}

def after (events : List Event) : GpuService := run step .new events

/-! ### The invariant of a run -/

/-- The state in which `startMetrics` has stopped what ran before. -/
def GpuService.restarted (s : GpuService) (wanted : Nat) : GpuService := {
  s.stopMetrics with
  metricsIntervalMs := wanted
  streamFailures := 0
  metricsGeneration := s.stopMetrics.metricsGeneration + 1 }

theorem cleared_stopMetrics (s : GpuService) : Cleared s s.stopMetrics where
  buffer := rfl
  rows := rfl
  indexes := rfl
  queue := rfl
  taken := rfl
  attempt := Nat.lt_succ_self _
  handle := rfl
  drain := rfl
  output := rfl
  queries := rfl
  published := rfl

theorem cleared_restarted (s : GpuService) (wanted : Nat) : Cleared s (s.restarted wanted) :=
  { cleared_stopMetrics s with }

/-- Either nothing runs now, or all is as it was, or a stream is asked for anew. -/
theorem startMetrics_cases (s : GpuService) (intervalMs : ℚ) :
    s.startMetrics intervalMs = s.stopMetrics ∨ s.startMetrics intervalMs = s ∨
      ∃ wanted, s.startMetrics intervalMs = s.restarted wanted ∨ ∃ generation,
        s.startMetrics intervalMs = (s.restarted wanted).launchStream generation := by
  rw [GpuService.startMetrics]
  dsimp only
  split_ifs
  · exact .inl rfl
  · exact .inr (.inl rfl)
  · exact .inr (.inr ⟨_, .inl rfl⟩)
  · exact .inr (.inr ⟨_, .inr ⟨_, rfl⟩⟩)

theorem inv_startMetrics (h : Inv s []) (intervalMs : ℚ) : Inv (s.startMetrics intervalMs) [] := by
  have hrestarted := fun wanted =>
    h.cleared (cleared_restarted s wanted) (List.Sublist.refl _) rfl
  obtain heq | heq | ⟨wanted, heq | ⟨generation, heq⟩⟩ := startMetrics_cases s intervalMs
  · rw [heq]
    exact inv_stopMetrics h
  · rw [heq]
    exact h
  · rw [heq]
    exact hrestarted wanted
  · rw [heq]
    exact inv_launchStream (hrestarted wanted) rfl rfl generation

theorem inv_step (h : Inv s []) (event : Event) : Inv (step s event) [] := by
  cases event with
  | start intervalMs => exact inv_startMetrics h intervalMs
  | stop => exact inv_stopMetrics h
  | reset =>
    have hstop := inv_stopMetrics h
    exact ⟨{ hstop.control with }, hstop.data.frame _ _ _ _ _ _ _ _ _ _, hstop.queue⟩
  | opened l => exact inv_opened h l
  | refused l => exact inv_refused h l
  | printed l data => exact inv_printed h l data
  | exited l => exact inv_exited h l
  | restartTimeout => exact inv_restartTimeout h
  | watchdogTimeout => exact inv_watchdogTimeout h
  | batchTimeout => exact inv_batchTimeout h
  | queried t stdout => exact inv_queried h t stdout
  | resumed => exact inv_resumed h
  | polled uuids refresh =>
    exact ⟨{ h.control with }, h.data.frame _ _ _ _ _ _ _ _ _ _, h.queue⟩

theorem inv_new : Inv .new [] where
  control := {
    pending_le := by simp [GpuService.new]
    pending_nodup := List.nodup_nil
    waiting := by simp [GpuService.new]
    restart := by simp [GpuService.new]
    handle := by simp [GpuService.new]
    listeners := by simp [GpuService.new] }
  data := {
    idle := fun _ => ⟨rfl, rfl, rfl, rfl, rfl⟩
    live := by simp [GpuService.new]
    sorted := List.Pairwise.nil
    sound := by simp [GpuService.new, GpuService.pipeline]
    last := by simp [GpuService.new]
    fresh := by simp [GpuService.new]
    silent := fun _ _ => rfl
    asked := by simp [GpuService.new]
    gpus := by simp [GpuService.new] }
  queue := fun hne => absurd rfl hne

theorem inv_after (events : List Event) : Inv (after events) [] :=
  List.foldlRecOn (motive := fun s => Inv s []) events step inv_new fun _ h event _ => inv_step h event

/-! ### What is published -/

/-- The batch's rows stand next to each other among the rows of its attempt, each is of another GPU,
and the snapshot has the GPU of each row. -/
structure FromRows (output : Nat → Text) (b : Batch) (snapshot : GpuSnapshot) : Prop where
  rows_ne : b.rows ≠ []
  within : b.Within output
  gpus : snapshot.gpus = b.rows.map fun row => gpuOf (fieldsOf row)
  distinct : (snapshot.gpus.map GpuInfo.index).Nodup

/-- Once nothing runs any more, the last rows of the running attempt were sampled, and published if
the process query succeeded. -/
def Settled (s : GpuService) : Prop :=
  ∀ l, s.streamHandle = some l → s.batchTimer = none → s.drain = none →
    rowsOf (s.output l.attempt) ≠ [] → ∃ b ok, s.queries.getLast? = some (b, ok) ∧
      b.attempt = l.attempt ∧ b.rows <:+ rowsOf (s.output l.attempt) ∧ b.rows ≠ [] ∧
      (ok = true → s.published.getLast?.map Prod.fst = some b)

/-- What is published in a step, and which attempts are over after it. -/
structure Retires (s : GpuService) (event : Event) : Prop where
  published : ∃ new, (step s event).published = s.published ++ new ∧
    ∀ p ∈ new, ∃ l, s.streamHandle = some l ∧ p.1.attempt = l.attempt
  stopped : event = .stop ∨ event = .reset → s.streamAttempt < (step s event).streamAttempt
  handle : ∀ l, s.streamHandle = some l →
    (step s event).streamHandle = some l ∨ l.attempt < (step s event).streamAttempt
  forward : s.streamAttempt ≤ (step s event).streamAttempt

theorem fromRows (h : Inv s []) {p : Batch × GpuSnapshot} (hp : p ∈ s.published) :
    FromRows s.output p.1 p.2 := by
  have hmem : p.1 ∈ s.pipeline := List.mem_append_left _ (List.mem_map.mpr ⟨p, hp, rfl⟩)
  have hsound := (h.data.sound p.1 hmem).1
  have hgpus := h.data.gpus p hp
  refine ⟨hsound.rows_ne, hsound.within, hgpus, ?_⟩
  rw [hgpus, List.map_map]
  exact hsound.distinct

theorem settled (h : Inv s []) : Settled s := by
  intro l hl htimer hdrain hrows
  have hlive := h.data.live l hl
  have hqueue : s.queuedGpuRows = none := by
    by_contra hne
    exact h.queue hne hdrain
  have hwaiting : s.streamRows = [] := by
    by_contra hne
    have hon := hlive.timer hne
    rw [htimer] at hon
    cases hon
  obtain ⟨before, hprinted, hbefore⟩ := hlive.rows
  rw [hwaiting, List.append_nil, List.append_nil] at hprinted
  have htaken : s.taken ≠ 0 := by
    rw [← hbefore, ← hprinted]
    exact fun hzero => hrows (List.length_eq_zero_iff.mp hzero)
  obtain ⟨b, hb⟩ | ⟨-, ⟨b, hb, -⟩ | ⟨-, b, ok, hlast, hb, hpublished⟩⟩ := hlive.served htaken
  · rw [hqueue] at hb
    cases hb
  · rw [hdrain] at hb
    cases hb
  · have hattempt : b.attempt = l.attempt := hb.1.trans (h.control.handle l hl).1.2.symm
    have hsound := h.data.asked (b, ok) (List.mem_of_getLast? hlast)
    refine ⟨b, ok, hlast, hattempt, ?_, hsound.rows_ne, hpublished⟩
    obtain ⟨front, behind, hfront, hfirst⟩ := hsound.within
    rw [hattempt] at hfront
    have hfirst : front.length = b.first := hfirst
    have hend : b.first + b.rows.length = s.taken := hb.2
    have hlength : front.length + b.rows.length + behind.length = s.taken := by
      rw [← hbefore, ← hprinted, hfront, List.length_append, List.length_append, Nat.add_assoc]
    have hbehind : behind = [] := by
      apply List.length_eq_zero_iff.mp
      omega
    rw [hfront, hbehind, List.append_nil]
    exact List.suffix_append _ _

/-! ### Attempts that are over -/

/-- The running stream, its number and what is published stay. -/
structure SameStream (s s' : GpuService) : Prop where
  handle : s'.streamHandle = s.streamHandle
  attempt : s'.streamAttempt = s.streamAttempt
  published : s'.published = s.published

theorem sameStream_drainStreamSamples (s : GpuService) (generation : Nat) :
    SameStream s (s.drainStreamSamples generation) := by
  rw [GpuService.drainStreamSamples]
  split
  · exact ⟨rfl, rfl, rfl⟩
  · split_ifs
    · exact ⟨rfl, rfl, rfl⟩
    · exact ⟨rfl, rfl, rfl⟩
    · exact ⟨rfl, rfl, rfl⟩

theorem sameStream_flushStreamRows (s : GpuService) (l : Launch) :
    SameStream s (s.flushStreamRows l) := by
  by_cases hguard : ¬s.Current l ∨ s.streamRows = []
  · rw [GpuService.flushStreamRows, if_pos hguard]
    exact ⟨rfl, rfl, rfl⟩
  · rw [not_or, not_not] at hguard
    rw [flushStreamRows_of_current hguard.1 hguard.2]
    split_ifs
    · exact ⟨rfl, rfl, rfl⟩
    · exact { sameStream_drainStreamSamples (s.queue l) l.generation with }

theorem sameStream_readLine (s : GpuService) (l : Launch) (line : Text) :
    SameStream s (s.readLine l line) := by
  rw [GpuService.readLine]
  dsimp only
  split_ifs
  · exact { sameStream_flushStreamRows s l with }
  · exact ⟨rfl, rfl, rfl⟩
  · exact ⟨rfl, rfl, rfl⟩

theorem sameStream_readLines (lines : List Text) (s : GpuService) (l : Launch) :
    SameStream s (lines.foldl (fun s line => s.readLine l line) s) := by
  induction lines generalizing s with
  | nil => exact ⟨rfl, rfl, rfl⟩
  | cons line lines ih =>
    have hfirst := sameStream_readLine s l line
    have hrest := ih (s.readLine l line)
    exact ⟨hrest.handle.trans hfirst.handle, hrest.attempt.trans hfirst.attempt,
      hrest.published.trans hfirst.published⟩

theorem sameStream_printed (s : GpuService) (l : Launch) (data : Text) :
    SameStream s (s.printed l data) := by
  rw [GpuService.printed]
  split_ifs
  · rw [GpuService.onStreamData]
    split_ifs
    · exact ⟨rfl, rfl, rfl⟩
    · exact { sameStream_readLines _ _ l with }
  · exact ⟨rfl, rfl, rfl⟩

theorem sameStream_batchTimeout (s : GpuService) : SameStream s s.batchTimeout := by
  rw [GpuService.batchTimeout]
  split
  · exact ⟨rfl, rfl, rfl⟩
  · exact { sameStream_flushStreamRows _ _ with }

theorem sameStream_resumed (s : GpuService) : SameStream s s.resumed := by
  rw [GpuService.resumed]
  split
  · exact { sameStream_drainStreamSamples _ _ with }
  · exact ⟨rfl, rfl, rfl⟩

/-- A stream that runs goes on, or its number is over; nothing is published. -/
structure Moves (s s' : GpuService) : Prop where
  published : s'.published = s.published
  handle : ∀ l, s.streamHandle = some l →
    s'.streamHandle = some l ∨ l.attempt < s'.streamAttempt
  forward : s.streamAttempt ≤ s'.streamAttempt

theorem Moves.of_same (h : SameStream s s') : Moves s s' :=
  ⟨h.published, fun _ hl => .inl (h.handle.trans hl), Nat.le_of_eq h.attempt.symm⟩

theorem Moves.of_cleared (h : Inv s []) (hc : Cleared s s') : Moves s s' :=
  ⟨hc.published, fun l hl => .inr ((h.control.handle l hl).1.2 ▸ hc.attempt), Nat.le_of_lt hc.attempt⟩

theorem moves_launchStream (s : GpuService) (generation : Nat) :
    Moves s (s.launchStream generation) := by
  rw [GpuService.launchStream]
  split_ifs
  · exact .of_same ⟨rfl, rfl, rfl⟩
  · exact ⟨rfl, fun _ hl => .inl hl, Nat.le_succ _⟩

theorem moves_ended (h : Inv s []) (hl : s.streamHandle = some l) :
    Moves s ({ s with streamHandle := none }.streamFailed l) := by
  obtain ⟨hcurrent, -, hms⟩ := h.control.handle l hl
  have hcleared := cleared_streamFailed (s := { s with streamHandle := none }) hcurrent hms rfl
  exact .of_cleared h { hcleared with }

theorem moves_startMetrics (h : Inv s []) (intervalMs : ℚ) : Moves s (s.startMetrics intervalMs) := by
  have hrestarted := fun wanted => Moves.of_cleared h (cleared_restarted s wanted)
  obtain heq | heq | ⟨wanted, heq | ⟨generation, heq⟩⟩ := startMetrics_cases s intervalMs
  · rw [heq]
    exact .of_cleared h (cleared_stopMetrics s)
  · rw [heq]
    exact .of_same ⟨rfl, rfl, rfl⟩
  · rw [heq]
    exact hrestarted wanted
  · rw [heq]
    have hlaunch := moves_launchStream (s.restarted wanted) generation
    refine ⟨hlaunch.published.trans (hrestarted wanted).published, fun l hl => ?_,
      Nat.le_trans (hrestarted wanted).forward hlaunch.forward⟩
    obtain hnone | hlt := (hrestarted wanted).handle l hl
    · cases hnone
    · exact .inr (Nat.lt_of_lt_of_le hlt hlaunch.forward)

theorem moves_step (h : Inv s []) (event : Event) (hevent : ∀ t stdout, event ≠ .queried t stdout) :
    Moves s (step s event) := by
  cases event with
  | start intervalMs => exact moves_startMetrics h intervalMs
  | stop => exact .of_cleared h (cleared_stopMetrics s)
  | reset => exact .of_cleared h { cleared_stopMetrics s with }
  | opened l =>
    rw [step, GpuService.opened]
    dsimp only
    split_ifs with hpending hguard
    · exact .of_same ⟨rfl, rfl, rfl⟩
    · refine ⟨rfl, fun other hother => ?_, Nat.le_refl _⟩
      have hnone := h.control.waiting l hpending (by simp only [not_or, not_not] at hguard; exact hguard.1.2)
      rw [hnone] at hother
      cases hother
    · exact .of_same ⟨rfl, rfl, rfl⟩
  | refused l =>
    rw [step, GpuService.refused]
    dsimp only
    split_ifs with hpending hcurrent
    · by_cases hms : s.metricsIntervalMs = 0
      · rw [GpuService.streamFailed, if_pos (.inr hms)]
        exact .of_same ⟨rfl, rfl, rfl⟩
      · have hnone : s.streamHandle = none := h.control.waiting l hpending hcurrent.2
        have hcleared := cleared_streamFailed
          (s := { s with pending := s.pending.erase l, streamStarting := false }) hcurrent hms hnone
        exact .of_cleared h { hcleared with }
    · exact .of_same ⟨rfl, rfl, rfl⟩
    · exact .of_same ⟨rfl, rfl, rfl⟩
  | printed l data => exact .of_same (sameStream_printed s l data)
  | exited l =>
    rw [step, GpuService.exited]
    split_ifs with hguard
    · exact .of_same ⟨rfl, rfl, rfl⟩
    · exact moves_ended h (by tauto)
  | restartTimeout =>
    rw [step, GpuService.restartTimeout]
    split
    · exact .of_same ⟨rfl, rfl, rfl⟩
    · dsimp only
      split_ifs
      · exact { moves_launchStream _ _ with }
      · exact .of_same ⟨rfl, rfl, rfl⟩
  | watchdogTimeout =>
    rw [step, GpuService.watchdogTimeout]
    split
    · exact .of_same ⟨rfl, rfl, rfl⟩
    · dsimp only
      split_ifs with hguard
      · exact .of_same ⟨rfl, rfl, rfl⟩
      · have hinv : Inv { s with watchdogTimer := none } [] :=
          ⟨{ h.control with }, h.data.frame _ _ _ _ _ _ _ _ _ _, h.queue⟩
        exact { moves_ended hinv (by tauto) with }
  | batchTimeout => exact .of_same (sameStream_batchTimeout s)
  | queried t stdout => exact absurd rfl (hevent t stdout)
  | resumed => exact .of_same (sameStream_resumed s)
  | polled uuids refresh => exact .of_same ⟨rfl, rfl, rfl⟩

/-- The process query publishes for the stream that runs. -/
theorem retires_queried (h : Inv s []) (t : Nat) (stdout : Option Text) :
    Retires s (.queried t stdout) := by
  have hevent : ¬(Event.queried t stdout = .stop ∨ Event.queried t stdout = .reset) := by simp
  obtain heq | ⟨generation, b, includeUuids, hd, hcases⟩ := queried_cases s t stdout
  · have hstep : step s (.queried t stdout) = s := heq
    refine ⟨⟨[], ?_, by simp⟩, fun hor => absurd hor hevent, fun l hl => ?_, ?_⟩
    · rw [hstep, List.append_nil]
    · rw [hstep]
      exact .inl hl
    · rw [hstep]
  · obtain ⟨ok, -, heq⟩ | ⟨hcurrent, uuids, refresh, snapshot, -, heq⟩ := hcases
    · have hstep : step s (.queried t stdout) = _ := heq
      refine ⟨⟨[], ?_, by simp⟩, fun hor => absurd hor hevent, fun l hl => ?_, ?_⟩
      · rw [hstep, List.append_nil]
      · rw [hstep]
        exact .inl hl
      · rw [hstep]
    · have hstep : step s (.queried t stdout) = _ := heq
      refine ⟨⟨[(b, snapshot)], ?_, fun p hp => ?_⟩, fun hor => absurd hor hevent, fun l hl => ?_, ?_⟩
      · rw [hstep]
      · obtain rfl := List.mem_singleton.mp hp
        have hmem : b ∈ s.pipeline := by
          rw [pipeline_querying hd]
          exact List.mem_append_right _ List.mem_cons_self
        obtain ⟨hsound, hbehind⟩ := h.data.sound b hmem
        cases hh : s.streamHandle with
        | some l => exact ⟨l, rfl, hcurrent.2.trans (h.control.handle l hh).1.2.symm⟩
        | none =>
          -- nothing is left of an attempt that does not run
          have htaken := (h.data.idle hh).taken
          have hcurrent : b.attempt = s.streamAttempt := hcurrent.2
          have hlength := List.length_pos_iff.mpr hsound.rows_ne
          obtain hlt | ⟨-, hle⟩ := hbehind
          · omega
          · omega
      · rw [hstep]
        exact .inl hl
      · rw [hstep]

theorem retires (h : Inv s []) (event : Event) : Retires s event := by
  by_cases hquery : ∃ t stdout, event = .queried t stdout
  · obtain ⟨t, stdout, rfl⟩ := hquery
    exact retires_queried h t stdout
  · have hmoves := moves_step h event fun t stdout heq => hquery ⟨t, stdout, heq⟩
    refine ⟨⟨[], ?_, by simp⟩, fun hor => ?_, hmoves.handle, hmoves.forward⟩
    · rw [hmoves.published, List.append_nil]
    · obtain rfl | rfl := hor
      · exact (cleared_stopMetrics s).attempt
      · exact (cleared_stopMetrics s).attempt

/-- An attempt that is over publishes nothing any more. -/
theorem published_run (h : Inv s []) (events : List Event) {a : Nat} (ha : a < s.streamAttempt) :
    ((run step s events).published.filter fun p => decide (p.1.attempt = a)) =
      s.published.filter fun p => decide (p.1.attempt = a) := by
  induction events generalizing s with
  | nil => rfl
  | cons event events ih =>
    have hretires := retires h event
    obtain ⟨new, hpublished, hnew⟩ := hretires.published
    have hnone : (new.filter fun p => decide (p.1.attempt = a)) = [] := by
      rw [List.filter_eq_nil_iff]
      intro p hp
      obtain ⟨l, hl, hattempt⟩ := hnew p hp
      have hcurrent : l.attempt = s.streamAttempt := (h.control.handle l hl).1.2
      rw [decide_eq_true_eq]
      omega
    rw [run_cons, ih (inv_step h event) (Nat.lt_of_lt_of_le ha hretires.forward), hpublished,
      List.filter_append, hnone, List.append_nil]

end BoredManager.Gpu.Stream
