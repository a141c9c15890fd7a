import BoredManager.Server.HistoryQuery
import Mathlib.Tactic.FieldSimp

/-! Thinning a series of samples at any rational times: how many are left, which samples each of them
stands for, and with what values. -/
namespace BoredManager.Server.Downsample
open BoredManager.Js
open BoredManager.Server.History (round2)

structure Point where
  t : ℚ
  values : List (Text × ℚ)
deriving DecidableEq

/-- The average of a bucket, at the time of its last sample. -/
def average (bucket : List Point) : List Point :=
  match bucket.head?, bucket.getLast? with
  | some first, some last =>
    let sum := fun key => (bucket.map fun p => (p.values.lookup key).getD 0).sum
    [⟨last.t, first.values.map fun e => (e.1, round2 (sum e.1 / bucket.length))⟩]
  | _, _ => []

structure Buckets where
  out : List Point
  bucket : List Point
  bucketEnd : ℚ

def Buckets.take (bucketMs : ℚ) (b : Buckets) (p : Point) : Buckets :=
  if b.bucketEnd < p.t then ⟨b.out ++ average b.bucket, [p], p.t + bucketMs⟩
  else { b with bucket := b.bucket ++ [p] }

def downsample (points : List Point) (maxPoints : Int) : List Point :=
  if points.length ≤ maxPoints ∨ maxPoints ≤ 0 then points
  else match points.head?, points.getLast? with
  | some first, some last =>
    if last.t ≤ first.t then points.drop (points.length - maxPoints.toNat)
    else
      let bucketMs : ℚ := (last.t - first.t) / maxPoints
      let done := points.foldl (Buckets.take bucketMs) ⟨[], [], first.t + bucketMs⟩
      done.out ++ average done.bucket
  | _, _ => points

/-- Strictly later samples one after another. -/
def Later (points : List Point) : Prop := points.Pairwise fun p q => p.t < q.t

/-- The point that stands for a group of samples: the only one of them as it was, or one at the time
of the last with the keys of the first, each with its mean over the group, where a sample without the
key counts as zero. -/
def Stands (group : List Point) (p : Point) : Prop :=
  group = [p] ∨ ∃ first last, group.head? = some first ∧ group.getLast? = some last ∧ p.t = last.t ∧
    p.values = first.values.map fun e =>
      (e.1, round2 ((group.map fun q => (q.values.lookup e.1).getD 0).sum / group.length))

theorem average_of_ne_nil {group : List Point} (h : group ≠ []) :
    ∃ p, average group = [p] ∧ Stands group p := by
  have hhead := List.head?_eq_some_head h
  have hlast := List.getLast?_eq_some_getLast h
  simp only [average, hhead, hlast]
  exact ⟨_, rfl, .inr ⟨_, _, hhead, hlast, rfl, rfl⟩⟩

theorem Stands.last {group : List Point} {p : Point} (h : Stands group p) :
    ∃ last, group.getLast? = some last ∧ p.t = last.t := by
  obtain rfl | ⟨first, last, -, hlast, ht, -⟩ := h
  · exact ⟨p, rfl, rfl⟩
  · exact ⟨last, hlast, ht⟩

/-! ### What stands for later and later groups -/

theorem exists_group {groups : List (List Point)} {out : List Point} {p : Point}
    (h : List.Forall₂ Stands groups out) (hp : p ∈ out) : ∃ group ∈ groups, Stands group p := by
  induction h with
  | nil => cases hp
  | @cons group q groups out hq _ ih =>
    obtain rfl | hp := List.mem_cons.mp hp
    · exact ⟨group, List.mem_cons_self, hq⟩
    · obtain ⟨other, hmem, hstands⟩ := ih hp
      exact ⟨other, List.mem_cons_of_mem _ hmem, hstands⟩

theorem later_of_stands {groups : List (List Point)} {out : List Point}
    (h : List.Forall₂ Stands groups out) (hlater : Later groups.flatten) : Later out := by
  obtain ⟨-, hacross⟩ := List.pairwise_flatten.mp hlater
  clear hlater
  induction h with
  | nil => exact List.Pairwise.nil
  | @cons group p groups out hp hrest ih =>
    obtain ⟨hfirst, hacross⟩ := List.pairwise_cons.mp hacross
    refine List.pairwise_cons.mpr ⟨fun q hq => ?_, ih hacross⟩
    obtain ⟨other, hother, hstands⟩ := exists_group hrest hq
    obtain ⟨last, hlast, ht⟩ := hp.last
    obtain ⟨last', hlast', ht'⟩ := hstands.last
    rw [ht, ht']
    exact hfirst other hother last (List.mem_of_getLast? hlast) last' (List.mem_of_getLast? hlast')

/-- The last of the points has the time of the last sample. -/
theorem last_of_stands {groups : List (List Point)} {out : List Point}
    (h : List.Forall₂ Stands groups out) :
    out.getLast?.map Point.t = groups.flatten.getLast?.map Point.t := by
  induction h with
  | nil => rfl
  | @cons group p groups out hp hrest ih =>
    obtain ⟨last, hlast, ht⟩ := hp.last
    cases hrest with
    | nil => simp [hlast, ht]
    | @cons other q groups out hq _ =>
      obtain ⟨last', hlast', -⟩ := hq.last
      have hne : (other :: groups).flatten ≠ [] := by
        rw [List.flatten_cons]
        exact List.append_ne_nil_of_left_ne_nil (List.ne_nil_of_mem (List.mem_of_getLast? hlast')) _
      rw [List.flatten_cons, List.getLast?_append_of_ne_nil _ hne, ← ih, List.getLast?_cons_cons]

/-! ### The buckets -/

/-- After these samples: the groups that are done, the one that is being filled, and how far its first
sample is from the first of all. -/
structure Filled (bucketMs first : ℚ) (points : List Point) (groups : List (List Point)) (b : Buckets) :
    Prop where
  all : groups.flatten ++ b.bucket = points
  nonempty : ∀ group ∈ groups, group ≠ []
  out : List.Forall₂ Stands groups b.out
  start : ∃ p, b.bucket.head? = some p ∧ b.bucketEnd = p.t + bucketMs ∧
    (groups = [] ∧ p.t = first ∨ first + groups.length * bucketMs < p.t)

variable {bucketMs first : ℚ} {points : List Point} {groups : List (List Point)} {b : Buckets}

theorem Filled.take (h : Filled bucketMs first points groups b) (p : Point) :
    ∃ groups, Filled bucketMs first (points ++ [p]) groups (b.take bucketMs p) := by
  obtain ⟨start, hstart, hend, hfar⟩ := h.start
  have hne : b.bucket ≠ [] := fun hnil => by simp [hnil] at hstart
  rw [Buckets.take]
  split
  · rename_i hlate
    obtain ⟨q, hq, hstands⟩ := average_of_ne_nil hne
    refine ⟨groups ++ [b.bucket], ?_, ?_, ?_, p, rfl, rfl, .inr ?_⟩
    · simp [h.all]
    · intro group hgroup
      obtain hgroup | hgroup := List.mem_append.mp hgroup
      · exact h.nonempty group hgroup
      · exact List.mem_singleton.mp hgroup ▸ hne
    · rw [hq]
      exact List.rel_append h.out (.cons hstands .nil)
    · rw [hend] at hlate
      obtain ⟨rfl, hfirst⟩ | hfar := hfar
      · simp only [List.nil_append, List.length_singleton, Nat.cast_one, one_mul]
        linarith
      · simp only [List.length_append, List.length_singleton, Nat.cast_add, Nat.cast_one]
        linarith
  · refine ⟨groups, ?_, h.nonempty, h.out, start, ?_, hend, hfar⟩
    · simp [← h.all]
    · rw [List.head?_append_of_ne_nil _ hne, hstart]

theorem Filled.foldl (h : Filled bucketMs first points groups b) (more : List Point) :
    ∃ groups, Filled bucketMs first (points ++ more) groups (more.foldl (Buckets.take bucketMs) b) := by
  induction more generalizing points groups b with
  | nil => exact ⟨groups, by simpa using h⟩
  | cons p more ih =>
    obtain ⟨groups, h⟩ := h.take p
    obtain ⟨groups, h⟩ := ih h
    exact ⟨groups, by simpa using h⟩

/-- The first sample opens the first bucket. -/
theorem filled_first (hpos : 0 < bucketMs) (p : Point) :
    Filled bucketMs p.t [p] [] (Buckets.take bucketMs ⟨[], [], p.t + bucketMs⟩ p) := by
  have hnot : ¬ p.t + bucketMs < p.t := by linarith
  rw [Buckets.take, if_neg hnot]
  exact ⟨rfl, by simp, .nil, p, rfl, rfl, .inl ⟨rfl, rfl⟩⟩

/-! ### Downsampling -/

theorem le_last {points : List Point} {p last : Point} (h : Later points)
    (hlast : points.getLast? = some last) (hp : p ∈ points) : p.t ≤ last.t := by
  rw [← List.dropLast_append_getLast? last hlast] at h hp
  obtain hp | hp := List.mem_append.mp hp
  · exact ((List.pairwise_append.mp h).2.2 p hp last List.mem_cons_self).le
  · rw [List.mem_singleton.mp hp]

/-- A bucket is longer than the share of each output point, but for the first one. -/
theorem Filled.count_le (h : Filled bucketMs first points groups b) (hlater : Later points)
    {last : Point} (hlast : points.getLast? = some last) {maxPoints : Int} (hmax : 1 ≤ maxPoints)
    (hspan : last.t - first = maxPoints * bucketMs) (hpos : 0 < bucketMs) :
    ((groups.length : Int) + 1) ≤ maxPoints := by
  obtain ⟨start, hstart, -, ⟨rfl, -⟩ | hfar⟩ := h.start
  · simpa using hmax
  · have hmem : start ∈ points := by
      rw [← h.all]
      exact List.mem_append_right _ (List.mem_of_head? hstart)
    have hle := le_last hlater hlast hmem
    have hlt : (groups.length : ℚ) * bucketMs < (maxPoints : ℚ) * bucketMs := by linarith
    have hlt : (groups.length : ℚ) < maxPoints := lt_of_mul_lt_mul_right hlt hpos.le
    have hlt : (groups.length : Int) < maxPoints := by exact_mod_cast hlt
    omega

/-- What is left of the samples, and what each point that is left stands for. -/
structure Thinned (points : List Point) (maxPoints : Int) (out : List Point) : Prop where
  count : (out.length : Int) ≤ maxPoints
  later : Later out
  last : out.getLast?.map Point.t = points.getLast?.map Point.t
  groups : ∃ groups : List (List Point), groups.flatten = points ∧ List.Forall₂ Stands groups out

theorem thinned_self {points : List Point} {maxPoints : Int} (hlater : Later points)
    (hle : (points.length : Int) ≤ maxPoints) : Thinned points maxPoints points := by
  refine ⟨hle, hlater, rfl, points.map fun p => [p], ?_, ?_⟩
  · rw [← List.flatMap_def, List.flatMap_singleton']
  · exact List.forall₂_map_left_iff.mpr (List.forall₂_same.mpr fun p _ => .inl rfl)

theorem downsample_thins {points : List Point} {maxPoints : Int} (hlater : Later points)
    (hmax : 1 ≤ maxPoints) : Thinned points maxPoints (downsample points maxPoints) := by
  rw [downsample]
  split
  · rename_i hfew
    exact thinned_self hlater (hfew.resolve_right (by omega))
  · rename_i hmany
    push Not at hmany
    cases points with
    | nil => exact absurd hmany.1 (by simp; omega)
    | cons p rest =>
      have hne : rest ≠ [] := by
        rintro rfl
        have := hmany.1
        simp only [List.length_singleton, Nat.cast_one] at this
        omega
      have hlast : (p :: rest).getLast? = some (rest.getLast hne) := by
        rw [List.getLast?_eq_some_getLast (List.cons_ne_nil _ _), List.getLast_cons hne]
      have hspan : p.t < (rest.getLast hne).t :=
        (List.pairwise_cons.mp hlater).1 _ (List.getLast_mem hne)
      rw [hlast, List.head?_cons]
      dsimp only
      rw [if_neg (not_le.mpr hspan)]
      have hpos : 0 < ((rest.getLast hne).t - p.t) / maxPoints := by
        have : (0 : ℚ) < maxPoints := by exact_mod_cast (by omega : 0 < maxPoints)
        exact div_pos (by linarith) this
      obtain ⟨groups, hfilled⟩ := (filled_first hpos p).foldl rest
      have hcount := hfilled.count_le hlater hlast hmax (by field_simp) hpos
      rw [List.foldl_cons]
      generalize rest.foldl _ _ = b at hfilled
      obtain ⟨start, hstart, -⟩ := hfilled.start
      have hne' : b.bucket ≠ [] := fun hnil => by simp [hnil] at hstart
      obtain ⟨q, hq, hstands⟩ := average_of_ne_nil hne'
      have hgroups : (groups ++ [b.bucket]).flatten = p :: rest := by
        simpa using hfilled.all
      have hout : List.Forall₂ Stands (groups ++ [b.bucket]) (b.out ++ average b.bucket) := by
        rw [hq]
        exact List.rel_append hfilled.out (.cons hstands .nil)
      refine ⟨?_, later_of_stands hout (by rwa [hgroups]), ?_, _, hgroups, hout⟩
      · rw [← hout.length_eq]
        simpa using hcount
      · rw [last_of_stands hout, hgroups]

/-- The mean of a key over the points of a group that have it. -/
def meanOf (group : List Point) (key : Text) : Option ℚ :=
  let values := group.filterMap fun p => p.values.lookup key
  if values = [] then none else some (values.sum / values.length)

def cpuThenGpu : List Point := [⟨0, [(js "cpu", 1)]⟩, ⟨10, [(js "gpu", 3)]⟩]

theorem downsample_thins_two : Thinned cpuThenGpu 1 (downsample cpuThenGpu 1) :=
  downsample_thins (by unfold Later cpuThenGpu; simp) le_rfl

/-- The sample without the first key counts as a zero for it, and the key that comes later is lost. -/
theorem key_missing : ∃ p, downsample cpuThenGpu 1 = [p] ∧
    p.values.lookup (js "cpu") ≠ (meanOf cpuThenGpu (js "cpu")).map round2 ∧
    p.values.lookup (js "gpu") ≠ (meanOf cpuThenGpu (js "gpu")).map round2 :=
  ⟨⟨10, [(js "cpu", 1 / 2)]⟩, by decide +kernel, by decide +kernel, by decide +kernel⟩

/-! ### Samples at whole milliseconds -/

open BoredManager.Server in
def ofHistory (p : History.HistoryPoint) : Point := ⟨p.t, p.values⟩

open BoredManager.Server in
theorem average_ofHistory (bucket : List History.HistoryPoint) :
    average (bucket.map ofHistory) = (History.average bucket).map ofHistory := by
  rw [average, History.average, List.head?_map, List.getLast?_map]
  cases bucket.head? with
  | none => rfl
  | some first =>
    cases bucket.getLast? with
    | none => rfl
    | some last => simp [ofHistory, List.map_map, Function.comp_def]

open BoredManager.Server in
/-- What a query of the history is thinned by is this at whole milliseconds. -/
theorem downsample_ofHistory (points : List History.HistoryPoint) (maxPoints : Int) :
    downsample (points.map ofHistory) maxPoints = (History.downsample points maxPoints).map ofHistory := by
  have hfold : ∀ (bucketMs : ℚ) (points : List History.HistoryPoint) (b : History.Buckets),
      (points.map ofHistory).foldl (Buckets.take bucketMs)
          ⟨b.out.map ofHistory, b.bucket.map ofHistory, b.bucketEnd⟩ =
        (fun b : History.Buckets => ⟨b.out.map ofHistory, b.bucket.map ofHistory, b.bucketEnd⟩)
          (points.foldl (History.Buckets.take bucketMs) b) := by
    intro bucketMs points
    induction points with
    | nil => intro b; rfl
    | cons p points ih =>
      intro b
      rw [List.map_cons, List.foldl_cons, List.foldl_cons, ← ih]
      congr 1
      rw [Buckets.take, History.Buckets.take]
      by_cases hlate : b.bucketEnd < p.t
      · simp [ofHistory, hlate, average_ofHistory]
      · simp [ofHistory, hlate]
  rw [downsample, History.downsample, List.length_map]
  split
  · rfl
  · rw [List.head?_map, List.getLast?_map]
    cases points.head? with
    | none => rfl
    | some first =>
      cases points.getLast? with
      | none => rfl
      | some last =>
        simp only [Option.map_some, ofHistory, Nat.cast_le]
        split
        · rw [List.map_drop]
        · have := hfold ((last.t - first.t) / maxPoints) points ⟨[], [], first.t + (last.t - first.t) / maxPoints⟩
          simp only [List.map_nil] at this
          rw [this, List.map_append, ← average_ofHistory]

end BoredManager.Server.Downsample
