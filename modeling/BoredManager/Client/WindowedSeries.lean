import BoredManager.Server.Downsample
import Mathlib.Data.List.Induction

/-! The series of a chart: the live buffer's samples of a time window, behind those that were read
back from the history. -/
namespace BoredManager.Client.Windows
open BoredManager.Js
open BoredManager.Server.Downsample (Point Later Stands downsample)

/-- Windows up to this length are served from the live buffer in the store. -/
def LIVE_WINDOW_SEC : ℚ := 600

def HISTORY_MS : ℚ := 5 * 60 * 1000

/-! ### The live buffer -/

/-- A sample, and the browser's clock when it came. -/
structure Received where
  sample : Point
  now : ℚ

/-- Drop samples older than `maxAgeMs` from the front of a time-ordered ring. -/
def pruneByAge (arr : List Point) (maxAgeMs now : ℚ) : List Point := arr.dropWhile fun p => p.t < now - maxAgeMs

def prune (arr : List Point) (now : ℚ) : List Point := pruneByAge arr HISTORY_MS now

/-- The store's samples once these were received. -/
def buffer (received : List Received) : List Point :=
  received.foldl (fun system r => prune (system ++ [r.sample]) r.now) []

/-! ### Thinning -/

/-- What was put out, and the bucket that is being filled. -/
structure Thinning (β : Type) where
  out : List β
  bucket : List Point
  bucketEnd : ℚ

def Thinning.take {β : Type} (average : List Point → List β) (bucketMs : ℚ) (s : Thinning β) (p : Point) :
    Thinning β :=
  if s.bucketEnd < p.t then ⟨s.out ++ average s.bucket, [p], p.t + bucketMs⟩
  else { s with bucket := s.bucket ++ [p] }

/-- At most so many buckets of samples, and what is made of a sample that stays and of a bucket. -/
def thinWith {β : Type} (single : Point → β) (average : List Point → List β) (points : List Point)
    (maxPoints : Int) : List β :=
  if points.length ≤ maxPoints ∨ maxPoints ≤ 0 then points.map single
  else match points.head?, points.getLast? with
  | some first, some last =>
    if last.t ≤ first.t then (points.drop (points.length - maxPoints.toNat)).map single
    else
      let bucketMs : ℚ := (last.t - first.t) / maxPoints
      let done := points.foldl (Thinning.take average bucketMs) ⟨[], [], first.t + bucketMs⟩
      done.out ++ average done.bucket
  | _, _ => points.map single

/-- The average of a bucket: the keys of its last sample, at its time. -/
def average (bucket : List Point) : List Point :=
  match bucket.getLast? with
  | some last =>
    let sum := fun key => (bucket.map fun p => (p.values.lookup key).getD 0).sum
    [⟨last.t, last.values.map fun e => (e.1, sum e.1 / bucket.length)⟩]
  | none => []

/-- Average samples into at most `maxPoints` buckets. -/
def thin (points : List Point) (maxPoints : Int) : List Point := thinWith id average points maxPoints

/-! ### The window -/

/-- The times that a query of the history asked for. -/
structure Range where
  fromMs : ℚ
  toMs : ℚ

/-- A chart and what the browser has for it, at a moment at which its series is computed. -/
structure Moment where
  windowSec : ℚ
  maxPoints : Int
  connected : Bool
  historyEnabled : Bool
  documentVisible : Bool
  /-- When the window was opened or changed, and what had been loaded until then. -/
  opened : ℚ
  before : Option Range
  now : ℚ
  received : List Received

def Moment.samples (m : Moment) : List Point := m.received.map Received.sample

def Moment.useArchive (m : Moment) : Bool :=
  m.connected && m.historyEnabled && decide (LIVE_WINDOW_SEC < m.windowSec)

/-- What the archive was loaded for, once the load that the effect starts has completed. -/
def Moment.loaded (m : Moment) : Option Range :=
  if m.useArchive = false then none
  else if m.documentVisible = true then some ⟨m.opened - m.windowSec * 1000, m.opened⟩
  else m.before

def Moment.inRange (m : Moment) (r : Range) : List Point :=
  m.samples.filter fun p => r.fromMs ≤ p.t ∧ p.t ≤ r.toMs

/-- The archive: the samples of its range, downsampled by the server. -/
def Moment.archive (m : Moment) : List Point :=
  match m.loaded with
  | none => []
  | some r => downsample (m.inRange r) m.maxPoints

def Moment.cutoff (m : Moment) : ℚ := m.now - m.windowSec * 1000

def Moment.recent (m : Moment) : List Point := (buffer m.received).filter fun p => m.cutoff ≤ p.t

/-- What `useWindowedSeries` gives. -/
def Moment.series (m : Moment) : List Point :=
  if m.useArchive = false then thin m.recent m.maxPoints
  else match m.archive.getLast? with
  | none => thin m.recent m.maxPoints
  | some lastArchived => m.archive ++ m.recent.filter fun p => lastArchived.t < p.t

/-! ### What its points stand for -/

/-- The samples that each point of a thinned series is made of. -/
def groupsOf (points : List Point) (maxPoints : Int) : List (List Point) :=
  thinWith (fun p => [p]) (fun bucket => if bucket = [] then [] else [bucket]) points maxPoints

/-- The samples that each point of the series is made of. -/
def Moment.groups (m : Moment) : List (List Point) :=
  match m.loaded, m.archive.getLast? with
  | some r, some lastArchived =>
    groupsOf (m.inRange r) m.maxPoints ++ (m.recent.filter fun p => lastArchived.t < p.t).map fun p => [p]
  | _, _ => groupsOf m.recent m.maxPoints

/-- A point that is its only sample, or the browser's or the server's average of its samples. -/
def StandsFor (group : List Point) (p : Point) : Prop := average group = [p] ∨ Stands group p

/-- The chart shows its whole window: in time order, every sample in it in exactly one point, and as it
is where there are few. -/
structure Moment.Whole (m : Moment) : Prop where
  made : List.Forall₂ StandsFor m.groups m.series
  ordered : Later m.groups.flatten
  complete : ∀ p ∈ m.samples, m.cutoff ≤ p.t → p ∈ m.groups.flatten
  few : m.received.length ≤ m.maxPoints → m.series = m.groups.flatten

/-- At no reception from its own on was the sample more than five minutes old. -/
def Retained (received : List Received) (p : Point) : Prop :=
  ∀ before r after, received = before ++ r :: after → r.sample = p →
    ∀ s ∈ r :: after, s.now - HISTORY_MS ≤ p.t

/-- The sample is in the range that was loaded; or it was retained, and the load has nothing or ended
before it. -/
def Moment.Covered (m : Moment) (p : Point) : Prop :=
  (∃ r ∈ m.loaded, r.fromMs ≤ p.t ∧ p.t ≤ r.toMs) ∨
    Retained m.received p ∧ ∀ r ∈ m.loaded, m.inRange r = [] ∨ r.toMs < p.t

end BoredManager.Client.Windows

/-! A chart shows its whole window exactly where every sample of it was archived or retained. -/
namespace BoredManager.Client.Windows
open BoredManager.Js
open BoredManager.Server.Downsample (Point Later Stands downsample Buckets average_of_ne_nil last_of_stands le_last)

variable {β γ : Type} {points : List Point} {maxPoints : Int} {p : Point} {m : Moment}

/-! ### Thinning -/

/-- The two ways of thinning make the same buckets. -/
theorem forall₂_thinWith {R : β → γ → Prop} {single : Point → β} {other : Point → γ}
    {average : List Point → List β} {average' : List Point → List γ} (hsingle : ∀ p, R (single p) (other p))
    (haverage : ∀ bucket, List.Forall₂ R (average bucket) (average' bucket)) (points : List Point) (maxPoints : Int) :
    List.Forall₂ R (thinWith single average points maxPoints) (thinWith other average' points maxPoints) := by
  have hmap : ∀ l : List Point, List.Forall₂ R (l.map single) (l.map other) := by
    intro l
    induction l with
    | nil => exact .nil
    | cons p l ih => exact .cons (hsingle p) ih
  have hfold : ∀ (ms : ℚ) (l : List Point) (s : Thinning β) (t : Thinning γ), s.bucket = t.bucket →
      s.bucketEnd = t.bucketEnd → List.Forall₂ R s.out t.out →
      List.Forall₂ R ((l.foldl (Thinning.take average ms) s).out ++ average (l.foldl (Thinning.take average ms) s).bucket)
        ((l.foldl (Thinning.take average' ms) t).out ++ average' (l.foldl (Thinning.take average' ms) t).bucket) := by
    intro ms l
    induction l with
    | nil =>
      intro s t hbucket _ hout
      rw [List.foldl_nil, List.foldl_nil, hbucket]
      exact List.rel_append hout (haverage t.bucket)
    | cons p l ih =>
      intro s t hbucket hend hout
      rw [List.foldl_cons, List.foldl_cons]
      refine ih _ _ ?_ ?_ ?_
      · rw [Thinning.take, Thinning.take, hend, hbucket]
        split <;> rfl
      · rw [Thinning.take, Thinning.take, hend]
        split <;> rfl
      · rw [Thinning.take, Thinning.take, hend, hbucket]
        split
        · exact List.rel_append hout (haverage t.bucket)
        · exact hout
  rw [thinWith, thinWith]
  split
  · exact hmap points
  · cases points.head? with
    | none => exact hmap points
    | some first =>
      cases points.getLast? with
      | none => exact hmap points
      | some last =>
        dsimp only
        split
        · exact hmap _
        · exact hfold _ points _ _ rfl rfl .nil

/-- The server thins in the same way. -/
theorem downsample_eq (points : List Point) (maxPoints : Int) :
    downsample points maxPoints = thinWith id Server.Downsample.average points maxPoints := by
  have hfold : ∀ (ms : ℚ) (l : List Point) (b : Buckets),
      ((l.foldl (Buckets.take ms) b).out = (l.foldl (Thinning.take Server.Downsample.average ms)
          ⟨b.out, b.bucket, b.bucketEnd⟩).out) ∧
        (l.foldl (Buckets.take ms) b).bucket = (l.foldl (Thinning.take Server.Downsample.average ms)
          ⟨b.out, b.bucket, b.bucketEnd⟩).bucket := by
    intro ms l
    induction l with
    | nil => exact fun b => ⟨rfl, rfl⟩
    | cons p l ih =>
      intro b
      have hstep : Thinning.take Server.Downsample.average ms ⟨b.out, b.bucket, b.bucketEnd⟩ p =
          ⟨(b.take ms p).out, (b.take ms p).bucket, (b.take ms p).bucketEnd⟩ := by
        rw [Thinning.take, Buckets.take]
        split <;> rfl
      rw [List.foldl_cons, List.foldl_cons, hstep]
      exact ih _
  rw [downsample, thinWith]
  simp only [List.map_id]
  split
  · rfl
  · cases points.head? with
    | none => rfl
    | some first =>
      cases points.getLast? with
      | none => rfl
      | some last =>
        have h := hfold ((last.t - first.t) / maxPoints) points ⟨[], [], first.t + (last.t - first.t) / maxPoints⟩
        dsimp only at h ⊢
        rw [h.1, h.2]

theorem flatten_map_singleton (l : List Point) : (l.map fun p => [p]).flatten = l := by
  rw [← List.flatMap_def, List.flatMap_singleton']

/-- Two samples or more take some time. -/
theorem spanned_of_many (h : Later points) (hmany : 1 < points.length) {first last : Point}
    (hfirst : points.head? = some first) (hlast : points.getLast? = some last) : first.t < last.t := by
  cases points with
  | nil => cases hfirst
  | cons p rest =>
    cases rest with
    | nil => exact absurd hmany (by simp)
    | cons q rest =>
      cases hfirst
      rw [List.getLast?_cons_cons] at hlast
      exact (List.pairwise_cons.mp h).1 last (List.mem_of_getLast? hlast)

/-- Every sample goes into one bucket, in its place. -/
theorem flatten_groupsOf (h : Later points) (maxPoints : Int) : (groupsOf points maxPoints).flatten = points := by
  have hgather : ∀ bucket : List Point, (if bucket = [] then [] else [bucket]).flatten = bucket := by
    intro bucket
    split
    · rename_i hnil
      exact hnil.symm
    · exact List.append_nil bucket
  have hfold : ∀ (ms : ℚ) (l : List Point) (s : Thinning (List Point)),
      (l.foldl (Thinning.take (fun bucket => if bucket = [] then [] else [bucket]) ms) s).out.flatten ++
        (l.foldl (Thinning.take (fun bucket => if bucket = [] then [] else [bucket]) ms) s).bucket =
      s.out.flatten ++ s.bucket ++ l := by
    intro ms l
    induction l with
    | nil => exact fun s => (List.append_nil _).symm
    | cons p l ih =>
      intro s
      rw [List.foldl_cons, ih, Thinning.take]
      split
      · rw [List.flatten_append, hgather, List.append_assoc _ [p], List.singleton_append]
      · rw [List.append_assoc, List.append_assoc, List.append_assoc, List.singleton_append]
  rw [groupsOf, thinWith]
  split
  · exact flatten_map_singleton points
  · rename_i hmany
    split
    · rename_i first last hfirst hlast
      split
      · rename_i hspan
        exact absurd (spanned_of_many h (by omega) hfirst hlast) (not_lt.mpr hspan)
      · dsimp only
        rw [List.flatten_append, hgather, hfold]
        rfl
    · exact flatten_map_singleton points

theorem stands_downsample (points : List Point) (maxPoints : Int) :
    List.Forall₂ Stands (groupsOf points maxPoints) (downsample points maxPoints) := by
  rw [downsample_eq]
  refine forall₂_thinWith (fun p => .inl rfl) (fun bucket => ?_) points maxPoints
  split
  · rename_i hnil
    rw [hnil]
    exact .nil
  · rename_i hne
    obtain ⟨q, hq, hstands⟩ := average_of_ne_nil hne
    rw [hq]
    exact .cons hstands .nil

theorem standsFor_single (p : Point) : StandsFor [p] p := .inr (.inl rfl)

theorem standsFor_thin (points : List Point) (maxPoints : Int) :
    List.Forall₂ StandsFor (groupsOf points maxPoints) (thin points maxPoints) := by
  refine forall₂_thinWith standsFor_single (fun bucket => ?_) points maxPoints
  split
  · rename_i hnil
    rw [hnil]
    exact .nil
  · rename_i hne
    have hlast := List.getLast?_eq_some_getLast hne
    have hone : ∃ q, average bucket = [q] := by
      rw [average, hlast]
      exact ⟨_, rfl⟩
    obtain ⟨q, hq⟩ := hone
    rw [hq]
    exact .cons (.inl hq) .nil

/-- Few samples stay as they are. -/
theorem thinWith_few {single : Point → β} {average : List Point → List β} (h : points.length ≤ maxPoints) :
    thinWith single average points maxPoints = points.map single := if_pos (.inl h)

/-! ### The live buffer -/

variable {received : List Received} {r : Received}

theorem buffer_append (received : List Received) (r : Received) :
    buffer (received ++ [r]) = prune (buffer received ++ [r.sample]) r.now := List.foldl_append

theorem buffer_sublist (received : List Received) : (buffer received).Sublist (received.map Received.sample) := by
  induction received using List.reverseRecOn with
  | nil => exact List.Sublist.slnil
  | append_singleton received r ih =>
    rw [buffer_append, List.map_append]
    exact (List.dropWhile_sublist _).trans (ih.append (List.Sublist.refl [r.sample]))

/-- What stands in order is dropped from the front by its time. -/
theorem mem_pruned {arr : List Point} (h : Later arr) (now : ℚ) :
    p ∈ prune arr now ↔ p ∈ arr ∧ now - HISTORY_MS ≤ p.t := by
  rw [prune, pruneByAge]
  induction arr with
  | nil => simp
  | cons q arr ih =>
    obtain ⟨hq, harr⟩ := List.pairwise_cons.mp h
    by_cases hold : q.t < now - HISTORY_MS
    · rw [List.dropWhile_cons_of_pos (by simpa using hold), ih harr]
      constructor
      · exact fun ⟨hp, hle⟩ => ⟨List.mem_cons_of_mem q hp, hle⟩
      · rintro ⟨hp, hle⟩
        obtain rfl | hp := List.mem_cons.mp hp
        · exact absurd hold (not_lt.mpr hle)
        · exact ⟨hp, hle⟩
    · rw [List.dropWhile_cons_of_neg (by simpa using hold)]
      have hle := not_lt.mp hold
      constructor
      · intro hp
        refine ⟨hp, ?_⟩
        obtain rfl | hp := List.mem_cons.mp hp
        · exact hle
        · exact hle.trans (hq p hp).le
      · exact And.left

/-- One more reception is one more moment at which a sample must not be too old. -/
theorem retained_append : Retained (received ++ [r]) p ↔
    Retained received p ∧ (p ∈ (received ++ [r]).map Received.sample → r.now - HISTORY_MS ≤ p.t) := by
  constructor
  · intro h
    constructor
    · intro before q after hsplit hq s hs
      refine h before q (after ++ [r]) (by rw [hsplit, List.append_assoc, List.cons_append]) hq s ?_
      exact List.mem_append_left [r] hs
    · intro hp
      obtain ⟨q, hmem, hq⟩ := List.mem_map.mp hp
      obtain hmem | hmem := List.mem_append.mp hmem
      · obtain ⟨before, after, hsplit⟩ := List.append_of_mem hmem
        refine h before q (after ++ [r]) (by rw [hsplit, List.append_assoc, List.cons_append]) hq r ?_
        exact List.mem_append_right (q :: after) (List.mem_singleton_self r)
      · rw [List.mem_singleton.mp hmem] at hq
        exact h received r [] rfl hq r List.mem_cons_self
  · rintro ⟨hbefore, hlast⟩ before q after hsplit hq s hs
    have hp : p ∈ (received ++ [r]).map Received.sample := by
      rw [hsplit, ← hq]
      exact List.mem_map_of_mem (List.mem_append_right before List.mem_cons_self)
    obtain rfl | ⟨init, last, rfl⟩ := after.eq_nil_or_concat
    · have hone := List.append_inj_right' hsplit rfl
      rw [List.mem_singleton.mp hs, ← (List.cons.inj hone).1]
      exact hlast hp
    · rw [List.concat_eq_append] at hsplit hs
      rw [← List.cons_append, ← List.append_assoc] at hsplit
      obtain ⟨hinit, hend⟩ := List.append_inj' hsplit rfl
      rw [← List.cons_append, ← hend] at hs
      obtain hs | hs := List.mem_append.mp hs
      · exact hbefore before q init hinit hq s hs
      · rw [List.mem_singleton.mp hs]
        exact hlast hp

theorem retained_of_not_mem (h : p ∉ received.map Received.sample) : Retained received p := by
  intro before q after hsplit hq
  rw [hsplit, ← hq] at h
  exact absurd (List.mem_map_of_mem (List.mem_append_right before List.mem_cons_self)) h

/-- The buffer has the samples that were retained. -/
theorem mem_buffer (h : Later (received.map Received.sample)) :
    p ∈ buffer received ↔ p ∈ received.map Received.sample ∧ Retained received p := by
  induction received using List.reverseRecOn with
  | nil => simp [buffer]
  | append_singleton received r ih =>
    have hsub := (buffer_sublist received).append (List.Sublist.refl [r.sample])
    rw [List.map_append] at h
    obtain ⟨hlater, -, hnew⟩ := List.pairwise_append.mp h
    rw [buffer_append, mem_pruned (h.sublist hsub), List.mem_append, ih hlater, retained_append, List.map_append,
      List.mem_append]
    constructor
    · rintro ⟨⟨hp, hretained⟩ | hp, hle⟩
      · exact ⟨.inl hp, hretained, fun _ => hle⟩
      · refine ⟨.inr hp, retained_of_not_mem fun hold => ?_, fun _ => hle⟩
        exact lt_irrefl _ (hnew p hold p hp)
    · rintro ⟨hp, hretained, hle⟩
      exact ⟨hp.imp_left fun hp => ⟨hp, hretained⟩, hle hp⟩

/-! ### The series -/

theorem later_recent (h : Later m.samples) : Later m.recent :=
  h.sublist (List.filter_sublist.trans (buffer_sublist m.received))

theorem mem_recent (h : Later m.samples) :
    p ∈ m.recent ↔ p ∈ m.samples ∧ Retained m.received p ∧ m.cutoff ≤ p.t := by
  rw [Moment.recent, List.mem_filter, mem_buffer h, decide_eq_true_eq, and_assoc]
  rfl

theorem mem_inRange {r : Range} : p ∈ m.inRange r ↔ p ∈ m.samples ∧ r.fromMs ≤ p.t ∧ p.t ≤ r.toMs := by
  rw [Moment.inRange, List.mem_filter, decide_eq_true_eq]

theorem later_inRange (h : Later m.samples) (r : Range) : Later (m.inRange r) := h.sublist List.filter_sublist

/-- The last point of the archive has the time of the last sample of its range. -/
theorem archive_last (h : Later m.samples) {r : Range} (hloaded : m.loaded = some r) :
    m.archive.getLast?.map Point.t = (m.inRange r).getLast?.map Point.t := by
  have hlast := last_of_stands (stands_downsample (m.inRange r) m.maxPoints)
  rw [flatten_groupsOf (later_inRange h r)] at hlast
  rw [Moment.archive, hloaded]
  exact hlast

theorem archive_eq_nil_iff (h : Later m.samples) {r : Range} (hloaded : m.loaded = some r) :
    m.archive.getLast? = none ↔ m.inRange r = [] := by
  rw [← Option.map_eq_none_iff (f := Point.t), archive_last h hloaded, Option.map_eq_none_iff,
    List.getLast?_eq_none_iff]

/-- The series of the buffer alone. -/
structure FromBuffer (m : Moment) : Prop where
  nothing : ∀ r ∈ m.loaded, m.inRange r = []
  series : m.series = thin m.recent m.maxPoints
  groups : m.groups = groupsOf m.recent m.maxPoints

/-- The series of an archive, and what the buffer has behind its last point. -/
structure Stitched (m : Moment) (r : Range) (last : Point) : Prop where
  loaded : m.loaded = some r
  mem : last ∈ m.inRange r
  latest : ∀ p ∈ m.inRange r, p.t ≤ last.t
  series : m.series = downsample (m.inRange r) m.maxPoints ++ m.recent.filter fun p => last.t < p.t
  groups : m.groups = groupsOf (m.inRange r) m.maxPoints ++
    (m.recent.filter fun p => last.t < p.t).map fun p => [p]

theorem loaded_of_unused (h : m.useArchive = false) : m.loaded = none := if_pos h

theorem series_cases (h : Later m.samples) : FromBuffer m ∨ ∃ r last, Stitched m r last := by
  cases hloaded : m.loaded with
  | none =>
    have harchive : m.archive = [] := by rw [Moment.archive, hloaded]
    refine .inl ⟨fun r hr => ?_, ?_, ?_⟩
    · rw [hloaded] at hr
      cases hr
    · rw [Moment.series, harchive]
      split <;> rfl
    · rw [Moment.groups, hloaded]
  | some r =>
    have hused : m.useArchive ≠ false := fun hunused => by
      rw [loaded_of_unused hunused] at hloaded
      cases hloaded
    have harchive : m.archive = downsample (m.inRange r) m.maxPoints := by rw [Moment.archive, hloaded]
    cases hlast : m.archive.getLast? with
    | none =>
      refine .inl ⟨fun s hs => ?_, ?_, ?_⟩
      · rw [hloaded] at hs
        cases hs
        exact (archive_eq_nil_iff h hloaded).mp hlast
      · rw [Moment.series, if_neg hused, hlast]
      · rw [Moment.groups, hloaded, hlast]
    | some archived =>
      have htime := archive_last h hloaded
      rw [hlast, Option.map_some] at htime
      obtain ⟨last, hrange, htime⟩ := Option.map_eq_some_iff.mp htime.symm
      refine .inr ⟨r, last, ⟨hloaded, List.mem_of_getLast? hrange,
        fun p hp => le_last (later_inRange h r) hrange hp, ?_, ?_⟩⟩
      · rw [Moment.series, if_neg hused, hlast, harchive, htime]
      · rw [Moment.groups, hloaded, hlast, htime]

theorem flatten_stitched (h : Later m.samples) {r : Range} {last : Point} (hm : Stitched m r last) :
    m.groups.flatten = m.inRange r ++ m.recent.filter fun p => last.t < p.t := by
  rw [hm.groups, List.flatten_append, flatten_groupsOf (later_inRange h r), flatten_map_singleton]

theorem later_flatten (h : Later m.samples) : Later m.groups.flatten := by
  obtain hm | ⟨r, last, hm⟩ := series_cases h
  · rw [hm.groups, flatten_groupsOf (later_recent h)]
    exact later_recent h
  · rw [flatten_stitched h hm]
    refine List.pairwise_append.mpr ⟨later_inRange h r, (later_recent h).sublist List.filter_sublist, ?_⟩
    intro p hp q hq
    exact (hm.latest p hp).trans_lt (of_decide_eq_true (List.mem_filter.mp hq).2)

theorem standsFor_groups (h : Later m.samples) : List.Forall₂ StandsFor m.groups m.series := by
  obtain hm | ⟨r, last, hm⟩ := series_cases h
  · rw [hm.groups, hm.series]
    exact standsFor_thin m.recent m.maxPoints
  · rw [hm.groups, hm.series]
    refine List.rel_append ?_ ?_
    · exact (stands_downsample _ _).imp fun _ _ hstands => .inr hstands
    · exact List.forall₂_map_left_iff.mpr (List.forall₂_same.mpr fun p _ => standsFor_single p)

/-- A sample of the window is in the series exactly if it is covered. -/
theorem mem_flatten_iff (h : Later m.samples) (hp : p ∈ m.samples) (hcutoff : m.cutoff ≤ p.t) :
    p ∈ m.groups.flatten ↔ m.Covered p := by
  obtain hm | ⟨r, last, hm⟩ := series_cases h
  · rw [hm.groups, flatten_groupsOf (later_recent h), mem_recent h]
    constructor
    · exact fun ⟨_, hretained, _⟩ => .inr ⟨hretained, fun r hr => .inl (hm.nothing r hr)⟩
    · rintro (⟨r, hr, hin⟩ | ⟨hretained, -⟩)
      · have hmem := mem_inRange.mpr ⟨hp, hin⟩
        rw [hm.nothing r hr] at hmem
        cases hmem
      · exact ⟨hp, hretained, hcutoff⟩
  · have hrange := mem_inRange.mp hm.mem
    rw [flatten_stitched h hm, List.mem_append, mem_inRange, List.mem_filter, mem_recent h, decide_eq_true_eq]
    constructor
    · rintro (⟨-, hin⟩ | ⟨⟨-, hretained, -⟩, hlast⟩)
      · exact .inl ⟨r, hm.loaded, hin⟩
      · obtain hle | hlt := le_or_gt p.t r.toMs
        · exact .inl ⟨r, hm.loaded, hrange.2.1.trans hlast.le, hle⟩
        · refine .inr ⟨hretained, fun s hs => .inr ?_⟩
          rw [hm.loaded] at hs
          cases hs
          exact hlt
    · rintro (⟨s, hs, hin⟩ | ⟨hretained, hbehind⟩)
      · rw [hm.loaded] at hs
        cases hs
        exact .inl ⟨hp, hin⟩
      · obtain hnil | hlt := hbehind r hm.loaded
        · exact absurd hm.mem (hnil ▸ List.not_mem_nil)
        · exact .inr ⟨⟨hp, hretained, hcutoff⟩, hrange.2.2.trans_lt hlt⟩

/-- Where there are few samples each is a point of its own. -/
theorem series_of_few (h : Later m.samples) (hfew : m.received.length ≤ m.maxPoints) :
    m.series = m.groups.flatten := by
  have hsamples : m.samples.length = m.received.length := List.length_map _
  obtain hm | ⟨r, last, hm⟩ := series_cases h
  · have hle : m.recent.length ≤ m.samples.length :=
      (List.filter_sublist.trans (buffer_sublist m.received)).length_le
    rw [hm.groups, hm.series, flatten_groupsOf (later_recent h), thin, thinWith_few (by omega), List.map_id]
  · have hle : (m.inRange r).length ≤ m.samples.length := List.length_filter_le _ _
    rw [flatten_stitched h hm, hm.series, downsample_eq, thinWith_few (by omega), List.map_id]

/-- A chart shows its whole window exactly if each sample of it is in the range that was loaded, or
was retained by the buffer and comes behind that range. -/
theorem window_shown_iff (h : Later m.samples) :
    m.Whole ↔ ∀ p ∈ m.samples, m.cutoff ≤ p.t → m.Covered p := by
  constructor
  · exact fun hwhole p hp hcutoff => (mem_flatten_iff h hp hcutoff).mp (hwhole.complete p hp hcutoff)
  · exact fun hcovered => {
      made := standsFor_groups h
      ordered := later_flatten h
      complete := fun p hp hcutoff => (mem_flatten_iff h hp hcutoff).mpr (hcovered p hp hcutoff)
      few := series_of_few h }

/-- Two samples, six minutes apart. -/
def twoSamples : List Received :=
  [⟨⟨0, [(js "cpu", 10)]⟩, 0⟩, ⟨⟨360000, [(js "cpu", 30)]⟩, 360000⟩]

/-- A chart of so many seconds, opened a second after the later sample. -/
def chart (windowSec : ℚ) : Moment where
  windowSec := windowSec
  maxPoints := 600
  connected := true
  historyEnabled := true
  documentVisible := true
  opened := 361000
  before := none
  now := 361000
  received := twoSamples

theorem window_shown_iff_hour :
    (chart 3600).Whole ↔ ∀ p ∈ (chart 3600).samples, (chart 3600).cutoff ≤ p.t → (chart 3600).Covered p :=
  window_shown_iff (by unfold Later; decide +kernel)

/-- A window of ten minutes is served from a buffer of five. -/
theorem ten_minutes_not_shown : ¬(chart 600).Whole := by
  intro h
  have hshown := h.complete ⟨0, [(js "cpu", 10)]⟩ (by decide +kernel) (by decide +kernel)
  exact absurd hshown (by decide +kernel)

end BoredManager.Client.Windows
