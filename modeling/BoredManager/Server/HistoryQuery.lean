import BoredManager.Server.HistoryRuns
import Mathlib.Data.List.Induction

/-! What a query answers: the files below the ring and the ring hold every accepted sample but
those that left the ring before they were flushed. -/
namespace BoredManager.Server.History
open BoredManager.Js BoredManager.Machine
open BoredManager.Shared (HISTORY_STREAM_PATTERN)

inductive Sampling where
  | add (stream : Text) (point : HistoryPoint)
  | flush

/-- No limit removes a file. -/
def Sampling.action : Sampling → Action
  | .add stream point => .add stream point
  | .flush => .flush fun _ => false

/-- The service of a host after samples and flushes. -/
def sampled (host : Text) (events : List Sampling) : Service :=
  run step (start ⟨true⟩ (some host)) (events.map Sampling.action)

/-- What one event does to the flushed and the unflushed samples of a stream. -/
def note (stream : Text) (log : List HistoryPoint × List HistoryPoint) :
    Sampling → List HistoryPoint × List HistoryPoint
  | .add name point => (log.1, if name = stream then log.2 ++ [point] else log.2)
  | .flush => (log.1 ++ log.2, [])

def logOf (stream : Text) (events : List Sampling) : List HistoryPoint × List HistoryPoint :=
  events.foldl (note stream) ([], [])

/-- The samples of a stream since the last flush. -/
def unflushed (stream : Text) (events : List Sampling) : List HistoryPoint := (logOf stream events).2

/-- The samples of a stream, in order. -/
def addedTo (stream : Text) (events : List Sampling) : List HistoryPoint :=
  events.filterMap fun event => match event with
    | .add name point => if name = stream then some point else none
    | .flush => none

/-- The sample is too old for a ring with that newest sample. -/
def Left (newest : Option HistoryPoint) (p : HistoryPoint) : Bool :=
  newest.any fun last => tooOld HISTORY_RING_MS last p

variable {stream host : Text} {events : List Sampling} {s : Service} {p q : HistoryPoint}

/-! ### Age -/

section Age
variable {ringMs : Nat} {newest last : HistoryPoint}

theorem tooOld_self (ringMs : Nat) (p : HistoryPoint) : tooOld ringMs p p = false := by
  simp [tooOld]

theorem tooOld_newer (hlt : last.t < newest.t) (h : tooOld ringMs last p = true) :
    tooOld ringMs newest p = true := by
  simp only [tooOld, decide_eq_true_eq] at h ⊢
  omega

theorem tooOld_later (hlt : p.t < q.t) (h : tooOld ringMs newest p = false) :
    tooOld ringMs newest q = false := by
  simp only [tooOld, decide_eq_false_iff_not] at h ⊢
  omega

end Age

theorem any_tooOld (ringMs : Nat) (newest p : HistoryPoint) :
    (some newest).any (fun last => tooOld ringMs last p) = tooOld ringMs newest p := rfl

theorem left_some (newest : HistoryPoint) : Left (some newest) = tooOld HISTORY_RING_MS newest := by
  funext p
  rw [Left]
  exact any_tooOld HISTORY_RING_MS newest p

/-! ### File names -/

theorem isDigit_padZero {width : Nat} {text : Text} (h : ∀ u ∈ text, isDigit u = true) :
    ∀ u ∈ padZero width text, isDigit u = true := by
  intro u hu
  obtain hu | hu := List.mem_append.mp hu
  · rw [List.eq_of_mem_replicate hu]
    rfl
  · exact h u hu

theorem isDigit_hourKey (t : Nat) : ∀ u ∈ hourKey t, isDigit u = true := by
  have hdecimal : ∀ n u, u ∈ decimal n → isDigit u = true := fun n u => isDigit_of_mem_decimal
  intro u hu
  simp only [hourKey, List.mem_append] at hu
  obtain ((hu | hu) | hu) | hu := hu
  · exact hdecimal _ u hu
  all_goals exact isDigit_padZero (hdecimal _) u hu

/-- A key belongs to one hour. -/
theorem hourKey_injective {t u : Nat} (h : hourKey t = hourKey u) : t / hourMs = u / hourMs := by
  have ht := utcDate_lt (t / 86400000)
  have hu := utcDate_lt (u / 86400000)
  simp only [hourKey] at h
  rw [padZero_two (n := (utcDate (t / 86400000)).month) (by omega),
    padZero_two (n := (utcDate (t / 86400000)).day) (by omega),
    padZero_two (n := t / hourMs % 24) (by omega),
    padZero_two (n := (utcDate (u / 86400000)).month) (by omega),
    padZero_two (n := (utcDate (u / 86400000)).day) (by omega),
    padZero_two (n := u / hourMs % 24) (by omega)] at h
  obtain ⟨h, hhour⟩ := List.append_inj' h rfl
  obtain ⟨h, hday⟩ := List.append_inj' h rfl
  obtain ⟨h, hmonth⟩ := List.append_inj' h rfl
  have hyear := Number.radixText_injective (by omega) (by omega) h
  simp only [List.cons.injEq, and_true] at hhour hday hmonth
  have hdate : utcDate (t / 86400000) = utcDate (u / 86400000) := by
    generalize utcDate (t / 86400000) = a at *
    generalize utcDate (u / 86400000) = b at *
    obtain ⟨y, m, d⟩ := a
    obtain ⟨y', m', d'⟩ := b
    simp only [UtcDate.mk.injEq] at *
    omega
  have hdays := utcDate_injective hdate
  simp only [hourMs] at hhour ⊢
  omega

/-- What stands behind the last dash of two equal texts is equal. -/
theorem cut_at_dash {a b x y : Text} (hx : 45 ∉ x) (hy : 45 ∉ y) (h : a ++ 45 :: x = b ++ 45 :: y) :
    a = b ∧ x = y := by
  have hreverse := congrArg List.reverse h
  simp only [List.reverse_append, List.reverse_cons, List.append_assoc, List.singleton_append] at hreverse
  have htake : ∀ {z w : Text}, 45 ∉ z → (z.reverse ++ 45 :: w).takeWhile (· ≠ 45) = z.reverse := by
    intro z w hz
    rw [List.takeWhile_append_of_pos]
    · simp
    · intro u hu
      simpa using fun heq : u = 45 => hz (heq ▸ List.mem_reverse.mp hu)
  have hxy : x.reverse = y.reverse := by
    rw [← htake (w := a.reverse) hx, hreverse, htake hy]
  obtain rfl := List.reverse_injective hxy
  exact ⟨List.append_cancel_right h, rfl⟩

/-- A file belongs to one stream and one hour. -/
theorem fileOf_inj {name : Text} {t u : Nat} (h : fileOf host stream t = fileOf host name u) :
    stream = name ∧ t / hourMs = u / hourMs := by
  have hdash : ∀ t, 45 ∉ hourKey t := fun t hmem => by
    have hdigit := isDigit_hourKey t 45 hmem
    simp [isDigit] at hdigit
  have hname := List.append_cancel_right (File.mk.inj h).2
  have hunits : js "-" = [45] := by decide
  rw [hunits, List.append_assoc, List.append_assoc] at hname
  obtain ⟨hstream, hkey⟩ := cut_at_dash (hdash t) (hdash u) hname
  exact ⟨hstream, hourKey_injective hkey⟩

theorem fileOf_congr {t u : Nat} (h : t / hourMs = u / hourMs) :
    fileOf host stream t = fileOf host stream u := by
  have hdays : t / 86400000 = u / 86400000 := by
    simp only [hourMs] at h
    omega
  rw [fileOf, fileOf, hourKey, hourKey, h, hdays]

/-! ### What is on disk, pending and in the ring -/

theorem appendFile_entries {entries : List (File × List HistoryPoint)}
    (h : (entries.map Prod.fst).Nodup) (files : File → List HistoryPoint) (file : File) :
    entries.foldl appendFile files file =
      files file ++ ((entries.find? fun e => decide (e.1 = file)).map Prod.snd).getD [] := by
  induction entries generalizing files with
  | nil => simp
  | cons e es ih =>
    obtain ⟨hne, hes⟩ := List.nodup_cons.mp h
    rw [List.foldl_cons, ih hes]
    by_cases he : e.1 = file
    · subst he
      have hrest : es.find? (fun x => decide (x.1 = e.1)) = none := by
        rw [List.find?_eq_none]
        exact fun x hx heq => hne (List.mem_map.mpr ⟨x, hx, by simpa using heq⟩)
      simp [appendFile, hrest]
    · have hne' : file ≠ e.1 := fun heq => he heq.symm
      simp [appendFile, he, hne']

/-- Every file gets the samples that wait for it, in order. -/
theorem append_files (s : Service) (l : List (File × HistoryPoint)) (file : File) :
    (s.append (OrderedMap.groups l)).files file =
      s.files file ++ (l.filter fun e => decide (e.1 = file)).map Prod.snd := by
  rw [← OrderedMap.getD_groups]
  exact appendFile_entries (OrderedMap.groups l).nodup s.files file

theorem mem_pairs {m : OrderedMap Text (List HistoryPoint)} :
    (stream, p) ∈ m.pairs ↔ p ∈ (m.get? stream).getD [] := by
  simp only [OrderedMap.pairs, List.mem_flatMap, List.mem_map, Prod.mk.injEq, Prod.exists]
  constructor
  · rintro ⟨k, l, hmem, q, hq, rfl, rfl⟩
    rw [OrderedMap.get?_eq_some.mpr hmem]
    exact hq
  · intro h
    cases hget : m.get? stream with
    | none => rw [hget] at h; cases h
    | some l =>
      rw [hget] at h
      exact ⟨stream, l, OrderedMap.get?_eq_some.mp hget, p, h, rfl, rfl⟩

/-- The samples of a stream that wait for a file are its pending ones of that hour. -/
theorem mem_filed {t : Nat} {m : OrderedMap Text (List HistoryPoint)} :
    p ∈ ((filed host m).filter fun e => decide (e.1 = fileOf host stream t)).map Prod.snd ↔
      p ∈ (m.get? stream).getD [] ∧ p.t / hourMs = t / hourMs := by
  simp only [filed, List.mem_map, List.mem_filter, decide_eq_true_eq, Prod.exists]
  constructor
  · rintro ⟨f, q, ⟨⟨name, r, hmem, heq⟩, hfile⟩, rfl⟩
    obtain ⟨rfl, rfl⟩ := Prod.mk.inj heq
    obtain ⟨rfl, hhour⟩ := fileOf_inj hfile
    exact ⟨mem_pairs.mp hmem, hhour⟩
  · rintro ⟨hmem, hhour⟩
    exact ⟨_, p, ⟨⟨stream, p, mem_pairs.mpr hmem, rfl⟩, fileOf_congr hhour⟩, rfl⟩

/-- What a service holds of one stream after some events. -/
structure Holds (host stream : Text) (events : List Sampling) (s : Service) : Prop where
  hosted : s.host = some host
  enabled : s.settings.enabled = true
  ring : (s.ring.get? stream).getD [] =
    (addedTo stream events).dropWhile (Left (addedTo stream events).getLast?)
  pending : (s.pending.get? stream).getD [] = unflushed stream events
  files : ∀ t p, p ∈ s.files (fileOf host stream t) ↔
    p ∈ (logOf stream events).1 ∧ p.t / hourMs = t / hourMs

theorem logOf_snoc (stream : Text) (events : List Sampling) (event : Sampling) :
    logOf stream (events ++ [event]) = note stream (logOf stream events) event :=
  List.foldl_concat _ _ _ _

theorem addedTo_eq (stream : Text) (events : List Sampling) :
    addedTo stream events = (logOf stream events).1 ++ unflushed stream events := by
  induction events using List.reverseRecOn with
  | nil => rfl
  | append_singleton events event ih =>
    rw [unflushed] at ih ⊢
    rw [logOf_snoc, addedTo, List.filterMap_append, ← addedTo, ih]
    cases event with
    | add name point => by_cases hname : name = stream <;> simp [note, hname]
    | flush => simp [note]

/-- What leaves a ring stays out when the ring gets a newer sample. -/
theorem dropWhile_dropWhile {P Q : HistoryPoint → Bool} (h : ∀ p, P p = true → Q p = true)
    (l r : List HistoryPoint) : (l.dropWhile P ++ r).dropWhile Q = (l ++ r).dropWhile Q := by
  induction l with
  | nil => rfl
  | cons x l ih =>
    by_cases hx : P x = true
    · rw [List.dropWhile_cons_of_pos hx, ih, List.cons_append, List.dropWhile_cons_of_pos (h x hx)]
    · rw [List.dropWhile_cons_of_neg hx]

theorem addedTo_snoc (stream name : Text) (events : List Sampling) (point : HistoryPoint) :
    addedTo stream (events ++ [.add name point]) =
      addedTo stream events ++ if name = stream then [point] else [] := by
  rw [addedTo, List.filterMap_append, ← addedTo]
  by_cases h : name = stream <;> simp [h]

theorem addedTo_flush (stream : Text) (events : List Sampling) :
    addedTo stream (events ++ [.flush]) = addedTo stream events := by
  rw [addedTo, List.filterMap_append, ← addedTo]
  exact List.append_nil _

theorem holds_take (h : Holds host stream events s) {name : Text} {point : HistoryPoint}
    (hincr : (addedTo stream (events ++ [.add name point])).Pairwise fun p q => p.t < q.t) :
    Holds host stream (events ++ [.add name point]) (s.take host name point) := by
  refine ⟨h.hosted, h.enabled, ?_, ?_, ?_⟩
  · rw [addedTo_snoc] at hincr ⊢
    simp only [Service.take, OrderedMap.get?_set]
    by_cases hname : name = stream
    · subst hname
      rw [if_pos rfl] at hincr
      have hnewer : ∀ q, Left (addedTo name events).getLast? q = true → Left (some point) q = true := by
        intro q hq
        cases hlast : (addedTo name events).getLast? with
        | none =>
          rw [hlast] at hq
          cases hq
        | some last =>
          have hlt := (List.pairwise_append.mp hincr).2.2 last (List.mem_of_getLast? hlast) point
            List.mem_cons_self
          rw [hlast, left_some] at hq
          rw [left_some]
          exact tooOld_newer hlt hq
      rw [if_pos rfl, if_pos rfl, Option.getD_some, h.ring, List.getLast?_concat,
        ← dropWhile_dropWhile hnewer, left_some]
    · rw [if_neg fun heq => hname heq.symm, if_neg hname, List.append_nil]
      exact h.ring
  · rw [unflushed, logOf_snoc]
    simp only [Service.take, OrderedMap.getD_push, note]
    by_cases hname : name = stream
    · subst hname
      rw [if_pos rfl, if_pos rfl, h.pending, unflushed]
    · rw [if_neg fun heq => hname heq.symm, if_neg hname, h.pending, unflushed]
  · rw [logOf_snoc]
    exact h.files

theorem holds_flush (h : Holds host stream events s) :
    Holds host stream (events ++ [.flush]) (flush (fun _ => false) s) := by
  have hlog : logOf stream (events ++ [.flush]) =
      ((logOf stream events).1 ++ unflushed stream events, []) := logOf_snoc stream events .flush
  obtain ⟨hnone, hflush⟩ | ⟨found, hfound, -, hflush⟩ := flush_cases (fun _ => false) s
  · have hnothing : unflushed stream events = [] := by
      obtain hnone | hoff | hzero := hnone
      · exact absurd (h.hosted.symm.trans hnone) (by simp)
      · exact absurd (h.enabled.symm.trans hoff) (by simp)
      · rw [pendingCount_eq, List.length_eq_zero_iff] at hzero
        refine List.eq_nil_iff_forall_not_mem.mpr fun p hp => ?_
        rw [← h.pending, ← mem_pairs, hzero] at hp
        cases hp
    rw [hflush]
    refine ⟨h.hosted, h.enabled, ?_, ?_, ?_⟩
    · rw [addedTo_flush]
      exact h.ring
    · rw [unflushed, hlog]
      rfl
    · rw [hlog, hnothing, List.append_nil]
      exact h.files
  · obtain rfl : host = found := Option.some.inj (h.hosted.symm.trans hfound)
    rw [hflush]
    refine ⟨h.hosted, h.enabled, ?_, ?_, fun t p => ?_⟩
    · rw [addedTo_flush]
      exact h.ring
    · rw [unflushed, hlog]
      rfl
    · have hfiles : (enforceLimits (fun _ => false)
          (s.append (OrderedMap.groups (filed host s.pending))).clearPending).files
            (fileOf host stream t) =
          (s.append (OrderedMap.groups (filed host s.pending))).files (fileOf host stream t) := by
        simp [enforceLimits, Service.clearPending]
      rw [hfiles, append_files, List.mem_append, h.files, mem_filed, h.pending, hlog]
      simp only [List.mem_append]
      tauto

theorem holds_sampled (hhost : host ≠ []) (hstream : HISTORY_STREAM_PATTERN stream = true)
    (hincr : (addedTo stream events).Pairwise fun p q => p.t < q.t) :
    Holds host stream events (sampled host events) := by
  induction events using List.reverseRecOn with
  | nil =>
    refine ⟨?_, rfl, rfl, rfl, fun t p => ?_⟩
    · simp [sampled, start, Service.host, hhost]
    · simp [sampled, start, logOf]
  | append_singleton events event ih =>
    have hnext : sampled host (events ++ [event]) = step (sampled host events) event.action := by
      rw [sampled, List.map_append, run_append]
      rfl
    rw [hnext]
    cases event with
    | flush =>
      rw [addedTo_flush] at hincr
      exact holds_flush (ih hincr)
    | add name point =>
      have hbefore : (addedTo stream events).Pairwise fun p q => p.t < q.t := by
        rw [addedTo_snoc] at hincr
        exact (List.pairwise_append.mp hincr).1
      have h := ih hbefore
      by_cases hname : HISTORY_STREAM_PATTERN name = true
      · have hadd : step (sampled host events) (Sampling.add name point).action =
            (sampled host events).take host name point := by
          simp only [step, Sampling.action, add, hname, h.hosted, h.enabled]
          rfl
        rw [hadd]
        exact holds_take h hincr
      · have hother : name ≠ stream := by
          rintro rfl
          exact hname hstream
        have hadd : step (sampled host events) (Sampling.add name point).action =
            sampled host events := by
          simp [step, Sampling.action, add, hname]
        have hlog : logOf stream (events ++ [.add name point]) = logOf stream events := by
          rw [logOf_snoc, note, if_neg hother]
        rw [hadd]
        refine ⟨h.hosted, h.enabled, ?_, ?_, ?_⟩
        · rw [addedTo_snoc, if_neg hother, List.append_nil]
          exact h.ring
        · rw [unflushed, hlog]
          exact h.pending
        · rw [hlog]
          exact h.files

/-! ### The answer -/

/-- Strictly later samples one after another. -/
def Later (points : List HistoryPoint) : Prop := points.Pairwise fun p q => p.t < q.t

instance (points : List HistoryPoint) : Decidable (Later points) :=
  inferInstanceAs (Decidable (List.Pairwise _ _))

theorem Later.nodup {points : List HistoryPoint} (h : Later points) : points.Nodup :=
  h.imp fun hlt heq => by rw [heq] at hlt; exact lt_irrefl _ hlt

/-- A list of strictly later samples is given by its members. -/
theorem Later.ext {l r : List HistoryPoint} (hl : Later l) (hr : Later r)
    (h : ∀ p, p ∈ l ↔ p ∈ r) : l = r := by
  refine ((List.perm_ext_iff_of_nodup hl.nodup hr.nodup).mpr h).eq_of_pairwise ?_ hl hr
  intro p q _ _ hpq hqp
  omega

/-- At one time there is one sample. -/
theorem Later.inj {points : List HistoryPoint} (h : Later points) (hp : p ∈ points)
    (hq : q ∈ points) (ht : p.t = q.t) : p = q :=
  List.inj_on_of_nodup_map (List.pairwise_map.mpr (h.imp fun hlt => hlt.ne)) hp hq ht

theorem Later.le_last {points : List HistoryPoint} {last : HistoryPoint} (h : Later points)
    (hlast : points.getLast? = some last) (hp : p ∈ points) : p.t ≤ last.t := by
  rw [← List.dropLast_append_getLast? last hlast] at h hp
  obtain hp | hp := List.mem_append.mp hp
  · exact ((List.pairwise_append.mp h).2.2 p hp last List.mem_cons_self).le
  · rw [List.mem_singleton.mp hp]

theorem dedupe_snoc (points : List HistoryPoint) (p : HistoryPoint) :
    dedupe (points ++ [p]) = if (dedupe points).getLast?.any (·.t == p.t)
      then dedupe points else dedupe points ++ [p] :=
  List.foldl_concat _ _ _ _

/-- Of samples in order `dedupe` keeps one for each time. -/
structure Deduped (points deduped : List HistoryPoint) : Prop where
  later : Later deduped
  sub : ∀ p ∈ deduped, p ∈ points
  cover : ∀ p ∈ points, ∃ q ∈ deduped, q.t = p.t

theorem dedupe_spec {points : List HistoryPoint} (h : points.Pairwise fun p q => p.t ≤ q.t) :
    Deduped points (dedupe points) := by
  induction points using List.reverseRecOn with
  | nil => exact ⟨List.Pairwise.nil, by simp [dedupe], by simp⟩
  | append_singleton points p ih =>
    obtain ⟨hlater, hsub, hcover⟩ := ih (List.pairwise_append.mp h).1
    have hbefore : ∀ q ∈ dedupe points, q.t ≤ p.t := fun q hq =>
      (List.pairwise_append.mp h).2.2 q (hsub q hq) p List.mem_cons_self
    rw [dedupe_snoc]
    cases hlast : (dedupe points).getLast? with
    | none =>
      have hempty := List.getLast?_eq_none_iff.mp hlast
      have hpoints : points = [] := List.eq_nil_iff_forall_not_mem.mpr fun q hq => by
        obtain ⟨r, hr, -⟩ := hcover q hq
        rw [hempty] at hr
        cases hr
      rw [hempty, hpoints]
      exact ⟨List.pairwise_singleton _ _, by simp, by simp⟩
    | some last =>
      have hmem := List.mem_of_getLast? hlast
      by_cases ht : last.t = p.t
      · rw [if_pos (by simp [ht])]
        refine ⟨hlater, fun q hq => List.mem_append_left _ (hsub q hq), fun q hq => ?_⟩
        obtain hq | hq := List.mem_append.mp hq
        · exact hcover q hq
        · exact ⟨last, hmem, by rw [ht, List.mem_singleton.mp hq]⟩
      · rw [if_neg (by simp [ht])]
        have hlt : ∀ q ∈ dedupe points, q.t < p.t := fun q hq => by
          have hle := hlater.le_last hlast hq
          have hlastle := hbefore last hmem
          omega
        refine ⟨?_, fun q hq => ?_, fun q hq => ?_⟩
        · refine List.pairwise_append.mpr ⟨hlater, List.pairwise_singleton _ _, ?_⟩
          intro q hq r hr
          rw [List.mem_singleton.mp hr]
          exact hlt q hq
        · obtain hq | hq := List.mem_append.mp hq
          · exact List.mem_append_left _ (hsub q hq)
          · exact List.mem_append_right _ hq
        · obtain hq | hq := List.mem_append.mp hq
          · obtain ⟨r, hr, hrt⟩ := hcover q hq
            exact ⟨r, List.mem_append_left _ hr, hrt⟩
          · exact ⟨q, List.mem_append_right _ hq, rfl⟩

/-- Samples of a stream in any order, with repetitions, are put in order and kept once. -/
theorem dedupe_sorted {points all : List HistoryPoint} (hall : Later all)
    (hsub : ∀ p ∈ points, p ∈ all) :
    Later (dedupe (points.insertionSort fun a b => a.t ≤ b.t)) ∧
      ∀ p, p ∈ dedupe (points.insertionSort fun a b => a.t ≤ b.t) ↔ p ∈ points := by
  have hmem : ∀ p, p ∈ points.insertionSort (fun a b => a.t ≤ b.t) ↔ p ∈ points := fun p =>
    (List.perm_insertionSort _ points).mem_iff
  have htotal : Std.Total fun a b : HistoryPoint => a.t ≤ b.t := ⟨fun a b => le_total a.t b.t⟩
  have htrans : IsTrans HistoryPoint fun a b => a.t ≤ b.t := ⟨fun a b c => le_trans⟩
  obtain ⟨hlater, hback, hcover⟩ :=
    dedupe_spec (List.pairwise_insertionSort (fun a b : HistoryPoint => a.t ≤ b.t) points)
  refine ⟨hlater, fun p => ⟨fun hp => (hmem p).mp (hback p hp), fun hp => ?_⟩⟩
  obtain ⟨q, hq, ht⟩ := hcover p ((hmem p).mpr hp)
  have hqall := hsub q ((hmem q).mp (hback q hq))
  rwa [← hall.inj hqall (hsub p hp) ht]

theorem mem_readFiles (h : Holds host stream events s) {fromMs toMs : Nat} :
    p ∈ readFiles s stream fromMs toMs ↔
      p ∈ (logOf stream events).1 ∧ fromMs ≤ p.t ∧ p.t ≤ toMs := by
  rw [readFiles, h.hosted]
  simp only [List.mem_flatMap, List.mem_filter, h.files, decide_eq_true_eq, List.mem_range'_1]
  constructor
  · rintro ⟨hour, -, ⟨hmem, -⟩, hrange⟩
    exact ⟨hmem, hrange⟩
  · rintro ⟨hmem, hrange⟩
    refine ⟨p.t / hourMs, ?_, ⟨hmem, ?_⟩, hrange⟩
    · simp only [hourMs]
      omega
    · simp only [hourMs]
      omega

/-- The ring of a stream: the newest sample stays in it, what left it is older than all of
it, and nothing in it would leave now. -/
theorem ring_spec {all : List HistoryPoint} (hincr : Later all) (hne : all ≠ []) :
    ∃ first ring, all.dropWhile (Left all.getLast?) = first :: ring ∧
      (∀ p ∈ first :: ring, first.t ≤ p.t ∧ Left all.getLast? p = false) ∧
      ∀ p ∈ all.takeWhile (Left all.getLast?), p.t < first.t ∧ Left all.getLast? p = true := by
  obtain ⟨last, hlast⟩ : ∃ last, all.getLast? = some last :=
    ⟨all.getLast hne, List.getLast?_eq_some_getLast hne⟩
  have hsplit := List.takeWhile_append_dropWhile (p := Left all.getLast?) (l := all)
  cases hring : all.dropWhile (Left all.getLast?) with
  | nil =>
    have hleft := List.all_takeWhile (p := Left all.getLast?) (l := all)
    rw [hring, List.append_nil] at hsplit
    rw [hsplit, List.all_eq_true] at hleft
    have hself := hleft last (List.mem_of_getLast? hlast)
    rw [hlast, left_some, tooOld_self] at hself
    cases hself
  | cons first ring =>
    have hfirst : Left all.getLast? first = false := by
      have hnot := List.head?_dropWhile_not (Left all.getLast?) all
      rw [hring] at hnot
      simpa using hnot
    rw [hring] at hsplit
    have hparts := hincr
    rw [← hsplit] at hparts
    obtain ⟨-, hlater, hcross⟩ := List.pairwise_append.mp hparts
    refine ⟨first, ring, rfl, fun p hp => ?_, fun p hp => ?_⟩
    · obtain rfl | hp := List.mem_cons.mp hp
      · exact ⟨le_rfl, hfirst⟩
      · have hlt := List.rel_of_pairwise_cons hlater hp
        refine ⟨hlt.le, ?_⟩
        rw [hlast, left_some] at hfirst ⊢
        exact tooOld_later hlt hfirst
    · have hall := List.all_eq_true.mp (List.all_takeWhile (p := Left all.getLast?) (l := all)) p hp
      exact ⟨hcross p hp first List.mem_cons_self, hall⟩

/-- A sample is collected unless it was not flushed and left the ring. -/
theorem mem_collected (h : Holds host stream events s) (hincr : Later (addedTo stream events))
    {fromMs toMs : Nat} :
    p ∈ collected s stream fromMs toMs ↔ (p ∈ addedTo stream events ∧ fromMs ≤ p.t ∧ p.t ≤ toMs) ∧
      ¬(p ∈ unflushed stream events ∧ Left (addedTo stream events).getLast? p = true) := by
  have hlog := addedTo_eq stream events
  have hnodup := hincr.nodup
  rw [hlog] at hnodup
  have hapart : p ∈ (logOf stream events).1 → p ∉ unflushed stream events :=
    fun h1 h2 => (List.nodup_append.mp hnodup).2.2 p h1 p h2 rfl
  have hmem : p ∈ addedTo stream events ↔
      p ∈ (logOf stream events).1 ∨ p ∈ unflushed stream events := by
    rw [hlog, List.mem_append]
  rw [collected, h.ring]
  by_cases hne : addedTo stream events = []
  · rw [hne] at hmem
    have hnone : p ∉ (logOf stream events).1 := fun hp => by simpa using hmem.mpr (.inl hp)
    simp [hne, mem_readFiles h, hnone]
  · obtain ⟨first, ring, hring, hin, hout⟩ := ring_spec hincr hne
    rw [hring]
    simp only [List.head?_cons, List.mem_append, List.mem_filter, decide_eq_true_eq]
    have hmemring : p ∈ addedTo stream events ↔
        p ∈ (addedTo stream events).takeWhile (Left (addedTo stream events).getLast?) ∨
          p ∈ first :: ring := by
      conv_lhs => rw [← List.takeWhile_append_dropWhile (p := Left (addedTo stream events).getLast?)
        (l := addedTo stream events), hring, List.mem_append]
    constructor
    · rintro (hfile | ⟨hp, hrange⟩)
      · split at hfile
        · obtain ⟨hp, hfrom, hto⟩ := (mem_readFiles h).mp hfile
          exact ⟨⟨hmem.mpr (.inl hp), hfrom, by omega⟩, fun hleft => hapart hp hleft.1⟩
        · cases hfile
      · refine ⟨⟨hmemring.mpr (.inr hp), hrange⟩, fun hleft => ?_⟩
        rw [(hin p hp).2] at hleft
        exact absurd hleft.2 (by simp)
    · rintro ⟨⟨hp, hrange⟩, hkept⟩
      obtain hp' | hp' := hmemring.mp hp
      · obtain ⟨hlt, hleft⟩ := hout p hp'
        have hflushed := (hmem.mp hp).resolve_right fun hu => hkept ⟨hu, hleft⟩
        refine .inl ?_
        rw [if_pos (by omega)]
        exact (mem_readFiles h).mpr ⟨hflushed, hrange.1, by omega⟩
      · exact .inr ⟨hp', hrange⟩

theorem downsample_eq {points : List HistoryPoint} {maxPoints : Int}
    (h : points.length ≤ maxPoints) : downsample points maxPoints = points := if_pos (.inl h)

/-- The answer is the samples of the range exactly when none of them left the ring before it
was flushed. -/
theorem query_complete (hhost : host ≠ []) (hstream : HISTORY_STREAM_PATTERN stream = true)
    (hincr : Later (addedTo stream events)) {fromMs toMs : Nat} {maxPoints : Int}
    (hmax : (addedTo stream events).length ≤ maxPoints) :
    query (sampled host events) stream fromMs toMs maxPoints =
        .ok ((addedTo stream events).filter fun p => fromMs ≤ p.t ∧ p.t ≤ toMs) ↔
      ∀ p ∈ unflushed stream events, fromMs ≤ p.t → p.t ≤ toMs →
        Left (addedTo stream events).getLast? p = false := by
  have h := holds_sampled hhost hstream hincr
  have hsub : ∀ p ∈ collected (sampled host events) stream fromMs toMs, p ∈ addedTo stream events :=
    fun p hp => ((mem_collected h hincr).mp hp).1.1
  obtain ⟨hlater, hmem⟩ := dedupe_sorted hincr hsub
  have hlength : (dedupe ((collected (sampled host events) stream fromMs toMs).insertionSort
      fun a b => a.t ≤ b.t)).length ≤ (addedTo stream events).length := by
    refine (List.subperm_of_subset hlater.nodup fun p hp => ?_).length_le
    exact hsub p ((hmem p).mp hp)
  have hquery : query (sampled host events) stream fromMs toMs maxPoints =
      .ok (dedupe ((collected (sampled host events) stream fromMs toMs).insertionSort
        fun a b => a.t ≤ b.t)) := by
    rw [query, if_neg (by simp [hstream])]
    dsimp only
    rw [downsample_eq (by omega)]
  rw [hquery, Except.ok.injEq]
  constructor
  · intro heq p hp hfrom hto
    have hall : p ∈ addedTo stream events := by
      rw [addedTo_eq]
      exact List.mem_append_right _ hp
    have hshown : p ∈ (addedTo stream events).filter fun p => fromMs ≤ p.t ∧ p.t ≤ toMs :=
      List.mem_filter.mpr ⟨hall, by simpa using ⟨hfrom, hto⟩⟩
    rw [← heq, hmem, mem_collected h hincr] at hshown
    exact Bool.eq_false_iff.mpr fun hleft => hshown.2 ⟨hp, hleft⟩
  · intro hkept
    refine hlater.ext (hincr.sublist List.filter_sublist) fun p => ?_
    rw [hmem, mem_collected h hincr, List.mem_filter]
    simp only [decide_eq_true_eq, and_iff_left_iff_imp]
    rintro ⟨-, hfrom, hto⟩ ⟨hp, hleft⟩
    rw [hkept p hp hfrom hto] at hleft
    cases hleft

/-- A flushed sample that left the ring, a flushed one in it, and a pending one. -/
def afternoon : List Sampling :=
  [.add (js "system") ⟨1000, []⟩, .add (js "system") ⟨900000, []⟩, .flush,
    .add (js "system") ⟨2400000, []⟩]

theorem query_complete_afternoon :
    query (sampled (js "local") afternoon) (js "system") 0 3000000 600 =
      .ok ((addedTo (js "system") afternoon).filter fun p => 0 ≤ p.t ∧ p.t ≤ 3000000) := by
  exact (query_complete (by decide) (by decide) (by decide) (by decide)).mpr (by decide)

/-- After a gap of more than half an hour without a flush, the first sample is in no file and in
no ring. -/
theorem query_misses :
    let events := [.add (js "system") ⟨1000, []⟩, .add (js "system") ⟨1801001, []⟩]
    addedTo (js "system") events = [⟨1000, []⟩, ⟨1801001, []⟩] ∧
      query (sampled (js "local") events) (js "system") 0 2000000 600 = .ok [⟨1801001, []⟩] := by
  decide +kernel

end BoredManager.Server.History
