import BoredManager.Gpu.StreamRuns

/-! The way of a batch: from the rows of the output to the queue, the process query and the snapshot. -/
namespace BoredManager.Gpu.Stream
open BoredManager.Js BoredManager.Machine

variable {s s' : GpuService} {l : Launch} {b : Batch} {rest : List Text} {line : Text}

/-! ### The loop -/

theorem Inv.running (h : Inv s rest) (hq : s.queuedGpuRows = some b) : s.metricsIntervalMs ≠ 0 := by
  cases hh : s.streamHandle with
  | none =>
    rw [(h.data.idle hh).queue] at hq
    cases hq
  | some l => exact (h.control.handle l hh).2.2

theorem mem_pipeline_of_queued (hq : s.queuedGpuRows = some b) : b ∈ s.pipeline := by
  rw [GpuService.pipeline, hq]
  simp

/-- A queued batch is not without a GPU. -/
theorem take_drain (h : Data s rest) (hq : s.queuedGpuRows = some b) (generation : Nat) :
    (s.take generation b).drain = some (.querying generation b
      (s.uuidRefreshNeeded || s.uuidToIndex.entries.isEmpty)) := by
  have hsound := (h.sound b (mem_pipeline_of_queued hq)).1
  have hsome : (parseGpus (join [10] b.rows)).isEmpty = false := by
    rw [hsound.parse_ne, List.isEmpty_eq_false_iff, Ne, List.map_eq_nil_iff]
    exact hsound.rows_ne
  rw [GpuService.take]
  simp only [hsome, Bool.false_eq_true, if_false]

theorem pipeline_take (h : Data s rest) (hdrain : s.drain.bind Drain.batch? = none)
    (hq : s.queuedGpuRows = some b) (generation : Nat) :
    (s.take generation b).pipeline = s.pipeline := by
  rw [GpuService.pipeline, GpuService.pipeline, take_drain h hq, hdrain, hq]
  rfl

theorem inv_take (hc : Control s) (h : Data s rest) (hdrain : s.drain.bind Drain.batch? = none)
    (hq : s.queuedGpuRows = some b) : Inv (s.take s.metricsGeneration b) rest := by
  have hpipeline := pipeline_take h hdrain hq s.metricsGeneration
  have htake := take_drain h hq s.metricsGeneration
  have hlast := h.last b hq
  refine ⟨{ hc with }, ?_, fun hne => absurd rfl hne⟩
  exact {
    idle := fun hnone => { h.idle hnone with queue := rfl }
    live := fun l hl => { h.live l hl with
      served := fun _ => by
        refine .inr ⟨rfl, .inl ⟨b, ?_, hlast⟩⟩
        rw [htake]
        rfl }
    sorted := by
      rw [hpipeline]
      exact h.sorted
    sound := by
      rw [hpipeline]
      exact h.sound
    last := fun _ hb => by cases hb
    fresh := fun generation other includeUuids hd _ => by
      rw [htake] at hd
      cases hd
      rfl
    silent := h.silent
    asked := h.asked
    gpus := h.gpus }

/-- Once no query runs, the loop takes the next batch, or it is over. -/
theorem inv_drainStreamSamples (hc : Control s) (h : Data s rest)
    (hdrain : s.drain.bind Drain.batch? = none) (hms : s.queuedGpuRows ≠ none → s.metricsIntervalMs ≠ 0)
    (generation : Nat) : Inv (s.drainStreamSamples generation) rest := by
  rw [GpuService.drainStreamSamples]
  split
  · rename_i hq
    refine ⟨{ hc with }, ?_, fun hne => absurd hq hne⟩
    have hpipeline : GpuService.pipeline { s with drain := none } = s.pipeline := by
      rw [GpuService.pipeline, GpuService.pipeline, hdrain]
      rfl
    exact { h with
      idle := fun hnone => { h.idle hnone with }
      live := fun l hl => { h.live l hl with
        served := fun hne => by
          obtain ⟨b, hb⟩ | ⟨-, hserved⟩ := (h.live l hl).served hne
          · rw [hq] at hb
            cases hb
          · obtain ⟨b, hb, -⟩ | ⟨-, hserved⟩ := hserved
            · rw [hdrain] at hb
              cases hb
            · exact .inr ⟨hq, .inr ⟨rfl, hserved⟩⟩ }
      sorted := by
        rw [hpipeline]
        exact h.sorted
      sound := by
        rw [hpipeline]
        exact h.sound
      fresh := fun _ _ _ hd => by cases hd }
  · rename_i batch hq
    have htake := inv_take hc h hdrain hq
    split_ifs with hgeneration hzero
    · rw [hgeneration]
      exact htake
    · exact absurd hzero (hms (by simp [hq]))
    · exact htake

/-! ### Rows -/

/-- The rows that wait are queued as one batch. -/
def GpuService.queue (s : GpuService) (l : Launch) : GpuService := {
  s with
  queuedGpuRows := some ⟨l.attempt, s.streamRows, s.taken⟩
  taken := s.taken + s.streamRows.length
  streamRows := []
  streamIndexes := [] }

theorem data_queue (hc : Control s) (h : Data s rest) (hl : s.streamHandle = some l)
    (hne : s.streamRows ≠ []) : Data (s.queue l) rest := by
  have hlive := h.live l hl
  have hcurrent := (hc.handle l hl).1
  obtain ⟨before, hrows, hbefore⟩ := hlive.rows
  have hsound : Batch.Sound ⟨l.attempt, s.streamRows, s.taken⟩ s.output :=
    ⟨hne, hlive.distinct, before, rest, hrows, hbefore⟩
  have hsub : (s.published.map Prod.fst ++ (s.drain.bind Drain.batch?).toList).Sublist s.pipeline := by
    rw [GpuService.pipeline, ← List.append_assoc]
    exact List.sublist_append_left _ _
  have hpipeline : (s.queue l).pipeline =
      (s.published.map Prod.fst ++ (s.drain.bind Drain.batch?).toList) ++
        [⟨l.attempt, s.streamRows, s.taken⟩] := by
    rw [List.append_assoc]
    rfl
  exact {
    idle := fun hnone => by
      have : s.streamHandle = none := hnone
      rw [hl] at this
      cases this
    live := fun other hother => by
      obtain rfl : l = other := Option.some.inj (hl.symm.trans hother)
      exact {
        buffer := hlive.buffer
        rows := ⟨before ++ s.streamRows, hrows.trans (List.append_assoc _ _ _).symm, by
          rw [List.length_append, hbefore]
          rfl⟩
        indexes := rfl
        distinct := List.nodup_nil
        timer := fun hnil => absurd rfl hnil
        served := fun _ => .inl ⟨_, rfl⟩ }
    sorted := by
      rw [hpipeline, List.pairwise_append]
      refine ⟨h.sorted.sublist hsub, List.pairwise_singleton _ _, fun a ha c hcmem => ?_⟩
      obtain rfl := List.mem_singleton.mp hcmem
      obtain hlt | ⟨heq, hle⟩ := (h.sound a (hsub.subset ha)).2
      · exact .inl (hcurrent.2 ▸ hlt)
      · exact .inr ⟨heq.trans hcurrent.2.symm, hle⟩
    sound := fun a ha => by
      rw [hpipeline] at ha
      obtain ha | ha := List.mem_append.mp ha
      · obtain ⟨hs, hbehind⟩ := h.sound a (hsub.subset ha)
        refine ⟨hs, hbehind.imp id fun hle => ⟨hle.1, ?_⟩⟩
        exact Nat.le_trans hle.2 (Nat.le_add_right _ _)
      · obtain rfl := List.mem_singleton.mp ha
        exact ⟨hsound, .inr ⟨hcurrent.2, Nat.le_refl _⟩⟩
    last := fun a ha => by
      cases ha
      exact ⟨hcurrent.2, rfl⟩
    fresh := h.fresh
    silent := h.silent
    asked := h.asked
    gpus := h.gpus }

theorem flushStreamRows_of_current (hcurrent : s.Current l) (hne : s.streamRows ≠ []) :
    s.flushStreamRows l = if s.drain.isSome then s.queue l
      else (s.queue l).drainStreamSamples l.generation := by
  rw [GpuService.flushStreamRows, if_neg (by simp [hcurrent, hne])]
  rfl

theorem inv_flushStreamRows (h : Inv s rest) (hl : s.streamHandle = some l) :
    Inv (s.flushStreamRows l) rest := by
  obtain ⟨hcurrent, -, hms⟩ := h.control.handle l hl
  by_cases hne : s.streamRows = []
  · rw [GpuService.flushStreamRows, if_pos (.inr hne)]
    exact h
  · have hcontrol : Control (s.queue l) := { h.control with }
    have hdata := data_queue h.control h.data hl hne
    rw [flushStreamRows_of_current hcurrent hne]
    split_ifs with hdrain
    · exact ⟨hcontrol, hdata, fun _ hnone => by
        have : s.drain = none := hnone
        rw [this] at hdrain
        cases hdrain⟩
    · refine inv_drainStreamSamples hcontrol hdata ?_ (fun _ => hms) _
      rw [Bool.not_eq_true, Option.isSome_eq_false_iff, Option.isNone_iff_eq_none] at hdrain
      have hnone : (s.queue l).drain = none := hdrain
      rw [hnone]
      rfl

/-- What the loop leaves alone. -/
structure SameRows (s s' : GpuService) : Prop where
  handle : s'.streamHandle = s.streamHandle
  rows : s'.streamRows = s.streamRows
  indexes : s'.streamIndexes = s.streamIndexes

theorem sameRows_drainStreamSamples (s : GpuService) (generation : Nat) :
    SameRows s (s.drainStreamSamples generation) := by
  rw [GpuService.drainStreamSamples]
  split
  · exact ⟨rfl, rfl, rfl⟩
  · split_ifs
    · exact ⟨rfl, rfl, rfl⟩
    · exact ⟨rfl, rfl, rfl⟩
    · exact ⟨rfl, rfl, rfl⟩

/-- After a flush no row waits. -/
theorem flushStreamRows_rows (h : Inv s rest) (hl : s.streamHandle = some l) :
    (s.flushStreamRows l).streamHandle = some l ∧ (s.flushStreamRows l).streamRows = [] ∧
      (s.flushStreamRows l).streamIndexes = [] := by
  by_cases hne : s.streamRows = []
  · rw [GpuService.flushStreamRows, if_pos (.inr hne), (h.data.live l hl).indexes, hne]
    exact ⟨hl, rfl, rfl⟩
  · rw [flushStreamRows_of_current (h.control.handle l hl).1 hne]
    split_ifs
    · exact ⟨hl, rfl, rfl⟩
    · have hsame := sameRows_drainStreamSamples (s.queue l) l.generation
      exact ⟨hsame.handle.trans hl, hsame.rows, hsame.indexes⟩

/-- A row whose GPU is not there yet joins the rows that wait. -/
theorem inv_push (h : Inv s (line :: rest)) (hl : s.streamHandle = some l)
    (hnew : indexOf line ∉ s.streamIndexes) : Inv { s with
      streamRows := s.streamRows ++ [line]
      streamIndexes := s.streamIndexes ++ [indexOf line]
      watchdogTimer := some l
      batchTimer := some l } rest := by
  have hlive := h.data.live l hl
  obtain ⟨before, hrows, hbefore⟩ := hlive.rows
  refine ⟨{ h.control with }, ?_, h.queue⟩
  exact { h.data with
    idle := fun hnone => by
      have : s.streamHandle = none := hnone
      rw [hl] at this
      cases this
    live := fun other hother => by
      obtain rfl : l = other := Option.some.inj (hl.symm.trans hother)
      exact {
        buffer := hlive.buffer
        rows := ⟨before, by
          rw [hrows, List.append_assoc]
          rfl, hbefore⟩
        indexes := by
          rw [List.map_append, hlive.indexes]
          rfl
        distinct := by
          rw [List.map_append, List.nodup_append]
          refine ⟨hlive.distinct, List.nodup_singleton _, fun i hi j hj heq => hnew ?_⟩
          obtain rfl := List.mem_singleton.mp hj
          rw [hlive.indexes, ← heq]
          exact hi
        timer := fun _ => rfl
        served := hlive.served } }

theorem inv_readLine (hl : s.streamHandle = some l)
    (h : Inv s ((line :: rest).filter fun line => decide (IsRow line))) :
    Inv (s.readLine l line) (rest.filter fun line => decide (IsRow line)) ∧
      (s.readLine l line).streamHandle = some l := by
  rw [GpuService.readLine]
  by_cases hrow : IsRow line
  · rw [List.filter_cons_of_pos (by simpa using hrow)] at h
    rw [if_pos hrow]
    dsimp only
    split_ifs with hold
    · obtain ⟨hhandle, -, hindexes⟩ := flushStreamRows_rows h hl
      refine ⟨inv_push (inv_flushStreamRows h hl) hhandle ?_, hhandle⟩
      rw [hindexes]
      exact List.not_mem_nil
    · exact ⟨inv_push h hl hold, hl⟩
  · rw [List.filter_cons_of_neg (by simpa using hrow)] at h
    rw [if_neg hrow]
    exact ⟨h, hl⟩

theorem inv_readLines (lines : List Text) (hl : s.streamHandle = some l)
    (h : Inv s (lines.filter fun line => decide (IsRow line))) :
    Inv (lines.foldl (fun s line => s.readLine l line) s) [] := by
  induction lines generalizing s with
  | nil => exact h
  | cons line lines ih =>
    obtain ⟨hinv, hhandle⟩ := inv_readLine hl h
    exact ih hhandle hinv

/-! ### Output -/

/-- The attempt has printed more. -/
def GpuService.grown (s : GpuService) (l : Launch) (data : Text) : GpuService := {
  s with output := Function.update s.output l.attempt (s.output l.attempt ++ data) }

/-- The rows that an attempt has printed stay its first rows. -/
theorem rowsOf_grown (s : GpuService) (l : Launch) (data : Text) (a : Nat) :
    ∃ more, rowsOf ((s.grown l data).output a) = rowsOf (s.output a) ++ more := by
  by_cases ha : a = l.attempt
  · subst ha
    refine ⟨rowsOf (openLine (s.output l.attempt) ++ data), ?_⟩
    rw [← rowsOf_append]
    exact congrArg rowsOf (Function.update_self _ _ _)
  · refine ⟨[], ?_⟩
    rw [List.append_nil]
    exact congrArg rowsOf (Function.update_of_ne ha _ _)

theorem Batch.Sound.grown (h : b.Sound s.output) (l : Launch) (data : Text) :
    b.Sound (s.grown l data).output := by
  obtain ⟨before, behind, hrows, hbefore⟩ := h.within
  obtain ⟨more, hmore⟩ := rowsOf_grown s l data b.attempt
  refine ⟨h.rows_ne, h.distinct, before, behind ++ more, ?_, hbefore⟩
  rw [hmore, hrows, List.append_assoc, List.append_assoc]

/-- What does not depend on the text that is being read. -/
theorem Data.grown (h : Data s []) (data buffer : Text) (hl : l.attempt ≤ s.streamAttempt)
    (hidle : s.streamHandle = none → l.attempt ≠ s.streamAttempt ∧ buffer = s.streamBuffer)
    (hlive : ∀ other, s.streamHandle = some other →
      Live { s.grown l data with streamBuffer := buffer } rest other) :
    Data { s.grown l data with streamBuffer := buffer } rest :=
  { h with
    idle := fun hnone => { h.idle hnone with
      buffer := (hidle hnone).2.trans (h.idle hnone).buffer }
    live := hlive
    sound := fun b hb => ⟨(h.sound b hb).1.grown l data, (h.sound b hb).2⟩
    silent := fun a ha => by
      have hne : a ≠ l.attempt := by
        rintro rfl
        obtain hlt | ⟨heq, hnone⟩ := ha
        · exact absurd hlt (Nat.not_lt.mpr hl)
        · exact (hidle hnone).1 heq
      exact (Function.update_of_ne hne _ _).trans (h.silent a ha)
    asked := fun q hq => (h.asked q hq).grown l data }

theorem Live.grown_other (h : Live s [] l) {other : Launch} (hne : l.attempt ≠ other.attempt)
    (data : Text) : Live (s.grown other data) [] l := by
  have hsame : (s.grown other data).output l.attempt = s.output l.attempt :=
    Function.update_of_ne hne _ _
  exact { h with
    buffer := by
      rw [hsame]
      exact h.buffer
    rows := by
      rw [hsame]
      exact h.rows }

/-- A chunk completes lines, whose rows are to be read. -/
theorem Live.grown (h : Live s [] l) (data : Text) :
    Live { s.grown l data with streamBuffer := openLine (s.streamBuffer ++ data) }
      (rowsOf (s.streamBuffer ++ data)) l := by
  have houtput : (s.grown l data).output l.attempt = s.output l.attempt ++ data :=
    Function.update_self _ _ _
  obtain ⟨before, hrows, hbefore⟩ := h.rows
  exact { h with
    buffer := by
      have hopen := openLine_append (s.output l.attempt) data
      rw [← h.buffer, ← houtput] at hopen
      exact hopen.symm
    rows := ⟨before, by
      rw [houtput, rowsOf_append, hrows, ← h.buffer, List.append_nil, List.append_assoc]
      rfl, hbefore⟩ }

theorem inv_printed (h : Inv s []) (l : Launch) (data : Text) : Inv (s.printed l data) [] := by
  by_cases hmem : l ∈ s.listeners
  · have hprinted : s.printed l data = (s.grown l data).onStreamData l data := by
      rw [GpuService.printed, if_neg (not_not.mpr hmem)]
      rfl
    rw [hprinted, GpuService.onStreamData]
    obtain hlt | hhandle := h.control.listeners l hmem
    · -- nobody reads what an attempt prints that is over
      have hother : ¬(s.grown l data).Current l := fun hcurrent =>
        absurd hcurrent.2 (Nat.ne_of_lt hlt)
      rw [if_pos (.inl hother)]
      have hne : l.attempt ≠ s.streamAttempt := Nat.ne_of_lt hlt
      refine ⟨{ h.control with }, ?_, h.queue⟩
      refine h.data.grown data s.streamBuffer (Nat.le_of_lt hlt) (fun _ => ⟨hne, rfl⟩) ?_
      intro other hhandle
      refine (h.data.live other hhandle).grown_other (fun heq => hne ?_) data
      rw [← heq, (h.control.handle other hhandle).1.2]
    · obtain ⟨hcurrent, -, hms⟩ := h.control.handle l hhandle
      have hguard : ¬(¬(s.grown l data).Current l ∨ (s.grown l data).streamHandle ≠ some l) := by
        rintro (hne | hne)
        · exact hne hcurrent
        · exact hne hhandle
      rw [if_neg hguard]
      refine inv_readLines _ hhandle ⟨{ h.control with }, ?_, h.queue⟩
      refine h.data.grown data _ (Nat.le_of_eq hcurrent.2) (fun hnone => ?_) fun other hother => ?_
      · rw [hhandle] at hnone
        cases hnone
      · obtain rfl : l = other := Option.some.inj (hhandle.symm.trans hother)
        exact (h.data.live l hhandle).grown data
  · rw [GpuService.printed, if_pos hmem]
    exact h

/-! ### The process query -/

theorem pipeline_querying {generation : Nat} {includeUuids : Bool}
    (hd : s.drain = some (.querying generation b includeUuids)) :
    s.pipeline = s.published.map Prod.fst ++ b :: s.queuedGpuRows.toList := by
  rw [GpuService.pipeline, hd]
  rfl

/-- The query of a batch is over, and the batch is not published. -/
theorem inv_dropped (h : Inv s []) {generation : Nat} {includeUuids : Bool}
    (hd : s.drain = some (.querying generation b includeUuids)) {ok : Bool}
    (hok : b.Last s → ok = false) : Inv { s with
      queries := s.queries ++ [(b, ok)]
      drain := some (.returned generation false) } [] := by
  have hpipeline := pipeline_querying hd
  have hmem : b ∈ s.pipeline := by
    rw [hpipeline]
    exact List.mem_append_right _ List.mem_cons_self
  have hsub : (s.published.map Prod.fst ++ s.queuedGpuRows.toList).Sublist s.pipeline := by
    rw [hpipeline]
    exact (List.Sublist.refl _).append (List.sublist_cons_self _ _)
  refine ⟨{ h.control with }, ?_, fun _ hnone => by cases hnone⟩
  exact { h.data with
    idle := fun hnone => { h.data.idle hnone with }
    live := fun l hl => { h.data.live l hl with
      served := fun hne => by
        obtain hqueued | ⟨hqueue, hserved⟩ := (h.data.live l hl).served hne
        · exact .inl hqueued
        · refine .inr ⟨hqueue, .inr ⟨rfl, ?_⟩⟩
          obtain ⟨a, ha, hlast⟩ | ⟨hnone, -⟩ := hserved
          · rw [hd] at ha
            obtain rfl : b = a := Option.some.inj ha
            refine ⟨b, ok, ?_, hlast, fun hoktrue => ?_⟩
            · exact List.getLast?_concat
            · rw [hok hlast] at hoktrue
              cases hoktrue
          · rw [hd] at hnone
            cases hnone }
    sorted := h.data.sorted.sublist hsub
    sound := fun a ha => h.data.sound a (hsub.subset ha)
    fresh := fun _ _ _ hd => by cases hd
    asked := fun q hq => by
      obtain hq | hq := List.mem_append.mp hq
      · exact h.data.asked q hq
      · obtain rfl := List.mem_singleton.mp hq
        exact (h.data.sound b hmem).1 }

/-- The query of a batch is over, and the batch becomes a snapshot. -/
theorem inv_published (h : Inv s []) {generation : Nat} {includeUuids : Bool}
    (hd : s.drain = some (.querying generation b includeUuids)) (uuids : OrderedMap Text ℚ)
    (refresh : Bool) {snapshot : GpuSnapshot}
    (hgpus : snapshot.gpus = parseGpus (join [10] b.rows)) : Inv { s with
      queries := s.queries ++ [(b, true)]
      uuidToIndex := uuids
      uuidRefreshNeeded := refresh
      published := s.published ++ [(b, snapshot)]
      drain := some (.returned generation true) } [] := by
  have hpipeline := pipeline_querying hd
  have hmem : b ∈ s.pipeline := by
    rw [hpipeline]
    exact List.mem_append_right _ List.mem_cons_self
  have hsame : (s.published ++ [(b, snapshot)]).map Prod.fst ++ s.queuedGpuRows.toList =
      s.pipeline := by
    rw [hpipeline, List.map_append, List.append_assoc]
    rfl
  refine ⟨{ h.control with }, ?_, fun _ hnone => by cases hnone⟩
  exact { h.data with
    idle := fun hnone => { h.data.idle hnone with }
    live := fun l hl => { h.data.live l hl with
      served := fun hne => by
        obtain hqueued | ⟨hqueue, hserved⟩ := (h.data.live l hl).served hne
        · exact .inl hqueued
        · refine .inr ⟨hqueue, .inr ⟨rfl, ?_⟩⟩
          obtain ⟨a, ha, hlast⟩ | ⟨hnone, -⟩ := hserved
          · rw [hd] at ha
            obtain rfl : b = a := Option.some.inj ha
            refine ⟨b, true, List.getLast?_concat, hlast, fun _ => ?_⟩
            exact congrArg (Option.map Prod.fst) List.getLast?_concat
          · rw [hd] at hnone
            cases hnone }
    sorted := by
      have hsorted := h.data.sorted
      rw [← hsame] at hsorted
      exact hsorted
    sound := fun a ha => h.data.sound a (hsame ▸ ha)
    fresh := fun _ _ _ hd => by cases hd
    asked := fun q hq => by
      obtain hq | hq := List.mem_append.mp hq
      · exact h.data.asked q hq
      · obtain rfl := List.mem_singleton.mp hq
        exact (h.data.sound b hmem).1
    gpus := fun p hp => by
      obtain hp | hp := List.mem_append.mp hp
      · exact h.data.gpus p hp
      · obtain rfl := List.mem_singleton.mp hp
        exact hgpus.trans (h.data.sound b hmem).1.parse_ne }

/-- Only a batch of the attempt that runs is published. -/
theorem sampled_cases (s : GpuService) (t generation : Nat) (b : Batch) (includeUuids : Bool)
    (stdout : Text) :
    (¬s.Current ⟨generation, b.attempt⟩ ∧ s.sampled t generation b includeUuids stdout =
      { s with drain := some (.returned generation false) }) ∨
    (s.Current ⟨generation, b.attempt⟩ ∧ ∃ uuids refresh, ∃ snapshot : GpuSnapshot,
      snapshot.gpus = parseGpus (join [10] b.rows) ∧
      s.sampled t generation b includeUuids stdout = { s with
        uuidToIndex := uuids
        uuidRefreshNeeded := refresh
        published := s.published ++ [(b, snapshot)]
        drain := some (.returned generation true) }) := by
  by_cases hcurrent : s.Current ⟨generation, b.attempt⟩
  · rw [GpuService.sampled, if_neg (not_not.mpr hcurrent)]
    refine .inr ⟨hcurrent, _, _, _, ?_, rfl⟩
    rfl
  · refine .inl ⟨hcurrent, ?_⟩
    rw [GpuService.sampled, if_pos hcurrent]

/-- What the end of a process query does. -/
theorem queried_cases (s : GpuService) (t : Nat) (stdout : Option Text) :
    s.queried t stdout = s ∨ ∃ generation b includeUuids,
      s.drain = some (.querying generation b includeUuids) ∧
      ((∃ ok, (ok = true → ¬s.Current ⟨generation, b.attempt⟩) ∧ s.queried t stdout = { s with
        queries := s.queries ++ [(b, ok)]
        drain := some (.returned generation false) }) ∨
      (s.Current ⟨generation, b.attempt⟩ ∧ ∃ uuids refresh, ∃ snapshot : GpuSnapshot,
        snapshot.gpus = parseGpus (join [10] b.rows) ∧ s.queried t stdout = { s with
          queries := s.queries ++ [(b, true)]
          uuidToIndex := uuids
          uuidRefreshNeeded := refresh
          published := s.published ++ [(b, snapshot)]
          drain := some (.returned generation true) })) := by
  rw [GpuService.queried]
  split
  · rename_i generation b includeUuids hd
    refine .inr ⟨generation, b, includeUuids, hd, ?_⟩
    cases stdout with
    | none => exact .inl ⟨false, (fun h => by cases h), rfl⟩
    | some stdout =>
      have hsampled := sampled_cases { s with queries := s.queries ++ [(b, true)] } t generation b
        includeUuids stdout
      obtain ⟨hstale, heq⟩ | ⟨hcurrent, uuids, refresh, snapshot, hgpus, heq⟩ := hsampled
      · exact .inl ⟨true, fun _ => hstale, heq⟩
      · exact .inr ⟨hcurrent, uuids, refresh, snapshot, hgpus, heq⟩
  · exact .inl rfl

theorem inv_queried (h : Inv s []) (t : Nat) (stdout : Option Text) : Inv (s.queried t stdout) [] := by
  obtain heq | ⟨generation, b, includeUuids, hd, hcases⟩ := queried_cases s t stdout
  · rw [heq]
    exact h
  · obtain ⟨ok, hok, heq⟩ | ⟨-, uuids, refresh, snapshot, hgpus, heq⟩ := hcases
    · rw [heq]
      refine inv_dropped h hd fun hlast => ?_
      rw [← Bool.not_eq_true]
      exact fun hoktrue => hok hoktrue ⟨h.data.fresh _ _ _ hd hlast.1, hlast.1⟩
    · rw [heq]
      exact inv_published h hd uuids refresh hgpus

theorem inv_resumed (h : Inv s []) : Inv s.resumed [] := by
  rw [GpuService.resumed]
  split
  · rename_i generation published hd
    have hnone : s.drain.bind Drain.batch? = none := by
      rw [hd]
      rfl
    have hdata := h.data.frame s.metricsIntervalMs s.streamStarting s.fallbackSession
      s.uuidRefreshNeeded (if published then 0 else s.streamFailures) s.restartTimer s.watchdogTimer
      s.uuidToIndex s.pending s.listeners
    have hcontrol : Control { s with streamFailures := if published then 0 else s.streamFailures } :=
      { h.control with }
    refine inv_drainStreamSamples hcontrol hdata hnone (fun hne => ?_) _
    obtain ⟨b, hb⟩ := Option.ne_none_iff_exists'.mp hne
    exact h.running hb
  · exact h

theorem drainStreamSamples_timer (s : GpuService) (generation : Nat) :
    { s with batchTimer := none }.drainStreamSamples generation =
      { s.drainStreamSamples generation with batchTimer := none } := by
  rw [GpuService.drainStreamSamples, GpuService.drainStreamSamples]
  cases hq : s.queuedGpuRows with
  | none => rfl
  | some batch =>
    dsimp only
    split_ifs
    · rfl
    · rfl
    · rfl

theorem flushStreamRows_timer (s : GpuService) (l : Launch) :
    { s with batchTimer := none }.flushStreamRows l =
      { s.flushStreamRows l with batchTimer := none } := by
  by_cases hcurrent : s.Current l
  · by_cases hne : s.streamRows = []
    · rw [GpuService.flushStreamRows, GpuService.flushStreamRows, if_pos (.inr hne),
        if_pos (.inr hne)]
    · rw [flushStreamRows_of_current hcurrent hne,
        flushStreamRows_of_current (s := { s with batchTimer := none }) hcurrent hne]
      dsimp only
      split_ifs
      · rfl
      · exact drainStreamSamples_timer (s.queue l) l.generation
  · rw [GpuService.flushStreamRows, GpuService.flushStreamRows, if_pos (.inl hcurrent),
      if_pos (.inl hcurrent)]

/-- The timer may be off when no row waits. -/
theorem Inv.timer_off (h : Inv s []) (hrows : s.streamRows = []) :
    Inv { s with batchTimer := none } [] :=
  ⟨{ h.control with },
    { h.data with
      idle := fun hnone => { h.data.idle hnone with }
      live := fun l hl => { h.data.live l hl with timer := fun hne => absurd hrows hne } },
    h.queue⟩

theorem inv_batchTimeout (h : Inv s []) : Inv s.batchTimeout [] := by
  rw [GpuService.batchTimeout]
  split
  · exact h
  · rename_i l htimer
    rw [flushStreamRows_timer]
    by_cases hrows : s.streamRows = []
    · have hsame : s.flushStreamRows l = s := by
        rw [GpuService.flushStreamRows, if_pos (.inr hrows)]
      rw [hsame]
      exact h.timer_off hrows
    · have hhandle : s.streamHandle = some l := by
        cases hh : s.streamHandle with
        | none => exact absurd (h.data.idle hh).rows hrows
        | some other =>
          have hother := (h.data.live other hh).timer hrows
          rw [htimer] at hother
          exact congrArg some (Option.some.inj hother).symm
      exact (inv_flushStreamRows h hhandle).timer_off (flushStreamRows_rows h hhandle).2.1

end BoredManager.Gpu.Stream
