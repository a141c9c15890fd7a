import BoredManager.Js.OrderedMap
import BoredManager.Js.Text
import BoredManager.Machine.Preorder
import Mathlib.Algebra.BigOperators.Group.List.Basic
import Mathlib.Algebra.Field.Rat
import Mathlib.Data.Finset.Card
import Mathlib.Data.Finset.Filter
import Mathlib.Tactic.Abel

/-! The rows of a tree table: which row stands under which, and what a collapsed row stands in for. -/
namespace BoredManager.Client.Table
open BoredManager.Js BoredManager.Machine.Preorder

/-- What `buildTree` reads of a row: its key, the id that others refer to, the id that it refers to
itself, and its cells as numbers. -/
structure Row where
  id : Text
  parentId : Text
  parentRef : Option Text
  cells : List (Text × ℚ)
deriving DecidableEq

/-- `Number(r[key]) || 0` -/
def Row.amount (r : Row) (key : Text) : ℚ := ((r.cells.find? fun c => decide (c.1 = key)).map Prod.snd).getD 0

/-- The rows of a table, each with a key of its own. -/
structure Rows where
  list : List Row
  ids : (list.map Row.id).Nodup

/-- A sort: some order of the rows it is given. -/
structure Ordering where
  sort : List Row → List Row
  perm : ∀ l, (sort l).Perm l

structure DisplayRow where
  key : Text
  depth : Nat
  row : Row
  hasChildren : Bool
  collapsed : Bool
  aggregates : Option (OrderedMap Text ℚ)

def sumColumn (rows : List Row) (key : Text) : ℚ := (rows.map fun r => r.amount key).sum

/-! ### Who stands under whom -/

def byParentId (rows : List Row) : OrderedMap Text Row := .ofList (rows.map fun r => (r.parentId, r))

/-- The row that a row refers to, unless it is the row itself. -/
def parentOf (rows : List Row) (r : Row) : Option Row :=
  match r.parentRef.bind (byParentId rows).get? with
  | some parent => if parent ≠ r then some parent else none
  | none => none

structure Links where
  childrenOf : OrderedMap Text (List Row)
  roots : List Row

def Links.children (l : Links) (parentId : Text) : List Row := (l.childrenOf.get? parentId).getD []

def Links.add (rows : List Row) (l : Links) (r : Row) : Links :=
  match parentOf rows r with
  | some parent =>
    { l with childrenOf := l.childrenOf.set parent.parentId (l.children parent.parentId ++ [r]) }
  | none => { l with roots := l.roots ++ [r] }

def links (rows : List Row) : Links := rows.foldl (Links.add rows) ⟨.empty, []⟩

def childrenOf (rows : List Row) (r : Row) : List Row := (links rows).children r.parentId

/-! ### The display rows -/

/-- `[k, ...descendants(k)]` for the children of a row. -/
def descendants (rows : List Row) : Nat → Row → Option (List Row)
  | 0, _ => none
  | fuel + 1, r => gather (fun k => (descendants rows fuel k).map (k :: ·)) (childrenOf rows r)

/-- What a table is shown with. -/
structure View where
  ordering : Ordering
  aggregateKeys : List Text
  collapsed : List Text

def View.isCollapsed (v : View) (rows : List Row) (r : Row) : Bool :=
  !(v.ordering.sort (childrenOf rows r)).isEmpty && decide (r.id ∈ v.collapsed)

def View.aggregatesOf (v : View) (subtree : List Row) : OrderedMap Text ℚ :=
  .ofList (v.aggregateKeys.map fun k => (k, sumColumn subtree k))

def visit (rows : List Row) (v : View) : Nat → Nat → Row → Option (List DisplayRow)
  | 0, _, _ => none
  | fuel + 1, depth, r =>
    let kids := v.ordering.sort (childrenOf rows r)
    if v.isCollapsed rows r then
      (descendants rows (fuel + 1) r).map fun below =>
        [⟨r.id, depth, r, !kids.isEmpty, true, some (v.aggregatesOf (r :: below))⟩]
    else
      (gather (visit rows v fuel (depth + 1)) kids).map
        (⟨r.id, depth, r, !kids.isEmpty, false, none⟩ :: ·)

/-- The table's rows, when the recursion ends within the fuel. -/
def buildTree (rows : List Row) (v : View) (fuel : Nat) : Option (List DisplayRow) :=
  gather (visit rows v fuel 0) (v.ordering.sort (links rows).roots)

/-! ### What a table owes -/

/-- A row's parent, and the rows above a row. -/
def Parent (rows : List Row) (p r : Row) : Prop := r ∈ rows ∧ parentOf rows r = some p

def Below (rows : List Row) : Row → Row → Prop := Relation.TransGen (Parent rows)

/-- What a shown row adds to a column: its own amount, or what it stands in for. -/
def DisplayRow.shownAmount (d : DisplayRow) (key : Text) : ℚ :=
  match d.aggregates with
  | some sums => (sums.get? key).getD 0
  | none => d.row.amount key

/-- Every row is shown once, or hidden under one collapsed row that counts it. -/
structure ShowsOnce (rows : List Row) (v : View) (out : List DisplayRow) : Prop where
  every : v.collapsed = [] → (out.map DisplayRow.row).Perm rows
  once : (out.map DisplayRow.row).Nodup
  own : ∀ d ∈ out, d.row ∈ rows ∧ d.key = d.row.id ∧ (d.collapsed = true → d.row.id ∈ v.collapsed)
  under : ∀ d ∈ out, ∀ p, parentOf rows d.row = some p →
    ∃ e, [e, d].Sublist out ∧ e.row = p ∧ d.depth = e.depth + 1
  shown : ∀ r ∈ out.map DisplayRow.row, ∀ d ∈ out, d.collapsed = true → ¬Below rows d.row r
  hidden : ∀ r ∈ rows, r ∉ out.map DisplayRow.row → ∃ d ∈ out, d.collapsed = true ∧ Below rows d.row r ∧
    ∀ e ∈ out, e.collapsed = true → Below rows e.row r → e.row = d.row
  sums : ∀ d ∈ out, d.collapsed = true → ∃ below : List Row, below.Nodup ∧
    (∀ r, r ∈ below ↔ Below rows d.row r) ∧ ∀ key ∈ v.aggregateKeys, d.aggregates.bind (·.get? key) =
      some (d.row.amount key + (below.map fun r => r.amount key).sum)
  totals : ∀ key ∈ v.aggregateKeys, (out.map fun d => d.shownAmount key).sum = sumColumn rows key

/-- Each view of the rows comes to an end and shows every row once. -/
def BuildsOnce (rows : Rows) : Prop :=
  ∀ v : View, ∃ fuel out, buildTree rows.list v fuel = some out ∧ ShowsOnce rows.list v out

/-- An id that a row's parent has is that row's alone, and no row stands above itself. -/
structure WellParented (rows : List Row) : Prop where
  own_id : ∀ r ∈ rows, ∀ p, parentOf rows r = some p → ∀ q ∈ rows, q.parentId = p.parentId → q = p
  no_cycle : ∀ r, ¬Below rows r r

end BoredManager.Client.Table

/-! A tree table shows every row once exactly when no parent id is shared and no row is above
itself. -/
namespace BoredManager.Client.Table
open BoredManager.Js BoredManager.Machine.Preorder Relation

variable {rows : List Row} {v : View} {r p s : Row} {fuel depth : Nat}

/-! ### The links -/

theorem parentOf_eq_some (h : parentOf rows r = some p) :
    p ∈ rows ∧ p ≠ r ∧ r.parentRef = some p.parentId := by
  rw [parentOf] at h
  split at h
  · rename_i parent hparent
    rw [Option.ite_none_right_eq_some] at h
    obtain ⟨hne, heq⟩ := h
    cases heq
    obtain ⟨ref, href, hget⟩ := Option.bind_eq_some_iff.mp hparent
    obtain ⟨q, hq, heq⟩ := List.mem_map.mp (OrderedMap.mem_of_get?_ofList hget)
    cases heq
    exact ⟨hq, hne, href⟩
  · cases h

/-- The loop over the rows sorts each under its parent's id, or to the roots. -/
theorem foldl_add (added : List Row) (l : Links) (key : Text) :
    (added.foldl (Links.add rows) l).children key =
      l.children key ++ added.filter (fun s => (parentOf rows s).map Row.parentId = some key) ∧
    (added.foldl (Links.add rows) l).roots = l.roots ++ added.filter fun s => parentOf rows s = none := by
  induction added generalizing l with
  | nil => simp
  | cons a added ih =>
    rw [List.foldl_cons]
    obtain ⟨hchildren, hroots⟩ := ih (Links.add rows l a)
    rw [hchildren, hroots]
    cases hparent : parentOf rows a with
    | none => simp [Links.add, Links.children, hparent]
    | some parent =>
      by_cases hkey : parent.parentId = key
      · subst hkey
        simp [Links.add, Links.children, hparent]
      · have hkey' : ¬key = parent.parentId := fun h => hkey h.symm
        simp [Links.add, Links.children, hparent, hkey, hkey']

theorem childrenOf_eq (rows : List Row) (r : Row) :
    childrenOf rows r = rows.filter fun s => (parentOf rows s).map Row.parentId = some r.parentId :=
  (foldl_add rows ⟨.empty, []⟩ r.parentId).1

theorem roots_eq (rows : List Row) : (links rows).roots = rows.filter fun s => parentOf rows s = none :=
  (foldl_add rows ⟨.empty, []⟩ []).2

theorem mem_childrenOf : s ∈ childrenOf rows r ↔
    s ∈ rows ∧ ∃ p, parentOf rows s = some p ∧ p.parentId = r.parentId := by
  rw [childrenOf_eq, List.mem_filter, decide_eq_true_iff, Option.map_eq_some_iff]

theorem mem_roots : r ∈ (links rows).roots ↔ r ∈ rows ∧ parentOf rows r = none := by
  rw [roots_eq, List.mem_filter, decide_eq_true_iff]

theorem nodup_childrenOf (h : rows.Nodup) (r : Row) : (childrenOf rows r).Nodup := by
  rw [childrenOf_eq]
  exact h.filter _

theorem nodup_roots (h : rows.Nodup) : (links rows).roots.Nodup := by
  rw [roots_eq]
  exact h.filter _

theorem Rows.nodup (rows : Rows) : rows.list.Nodup := rows.ids.of_map _

/-! ### The recursions as walks -/

/-- The rows that `visit` goes on to. -/
def shownKids (rows : List Row) (v : View) (r : Row) : List Row :=
  if v.isCollapsed rows r then [] else v.ordering.sort (childrenOf rows r)

theorem map_descendants (rows : List Row) (fuel depth : Nat) (r : Row) :
    (descendants rows fuel r).map (r :: ·) =
      (walk (childrenOf rows) fuel depth r).map (List.map Prod.fst) := by
  induction fuel generalizing depth r with
  | zero => rfl
  | succ fuel ih =>
    have hsame : (fun k => (descendants rows fuel k).map (k :: ·)) =
        fun k => (walk (childrenOf rows) fuel (depth + 1) k).map (List.map Prod.fst) :=
      funext fun k => ih (depth + 1) k
    rw [descendants, hsame, gather_map, walk, Option.map_map, Option.map_map]
    rfl

/-- What the descendants are: the walk without its first row. -/
theorem descendants_eq_some {below : List Row} (h : descendants rows fuel r = some below) (depth : Nat) :
    ∃ l, walk (childrenOf rows) fuel depth r = some l ∧ l.map Prod.fst = r :: below := by
  have hmap := map_descendants rows fuel depth r
  rw [h, Option.map_some] at hmap
  exact Option.map_eq_some_iff.mp hmap.symm

theorem exists_descendants {l : List (Row × Nat)} (h : walk (childrenOf rows) fuel depth r = some l) :
    ∃ below, descendants rows fuel r = some below := by
  have hmap := map_descendants rows fuel depth r
  rw [h, Option.map_some] at hmap
  obtain ⟨below, hbelow, -⟩ := Option.map_eq_some_iff.mp hmap
  exact ⟨below, hbelow⟩

/-- What is written of a row that is shown. -/
structure Written (rows : List Row) (v : View) (d : DisplayRow) : Prop where
  key : d.key = d.row.id
  collapsed : d.collapsed = v.isCollapsed rows d.row
  plain : d.collapsed = false → d.aggregates = none
  sums : d.collapsed = true → ∃ fuel below, descendants rows fuel d.row = some below ∧
    d.aggregates = some (v.aggregatesOf (d.row :: below))

def place (d : DisplayRow) : Row × Nat := (d.row, d.depth)

/-- What holds of the visits of all rows of a list, one behind the other. -/
theorem gather_visit {kids : List Row} {out : List DisplayRow}
    (hvisit : ∀ r out, visit rows v fuel depth r = some out →
      walk (shownKids rows v) fuel depth r = some (out.map place) ∧ ∀ d ∈ out, Written rows v d)
    (h : gather (visit rows v fuel depth) kids = some out) :
    gather (walk (shownKids rows v) fuel depth) kids = some (out.map place) ∧
      ∀ d ∈ out, Written rows v d := by
  induction kids generalizing out with
  | nil =>
    cases h
    exact ⟨rfl, fun d hd => (by cases hd)⟩
  | cons k kids ih =>
    obtain ⟨first, rest, hfirst, hrest, rfl⟩ := gather_cons_eq_some.mp h
    obtain ⟨hwalk, hwritten⟩ := hvisit k first hfirst
    obtain ⟨hwalks, hall⟩ := ih hrest
    refine ⟨gather_cons_eq_some.mpr ⟨_, _, hwalk, hwalks, (List.map_append ..).symm⟩, fun d hd => ?_⟩
    exact (List.mem_append.mp hd).elim (hwritten d) (hall d)

theorem visit_spec {out : List DisplayRow} (h : visit rows v fuel depth r = some out) :
    walk (shownKids rows v) fuel depth r = some (out.map place) ∧ ∀ d ∈ out, Written rows v d := by
  induction fuel generalizing depth r out with
  | zero => cases h
  | succ fuel ih =>
    rw [visit] at h
    split at h
    · rename_i hcollapsed
      obtain ⟨below, hbelow, rfl⟩ := Option.map_eq_some_iff.mp h
      refine ⟨?_, fun d hd => ?_⟩
      · rw [walk, shownKids, if_pos hcollapsed]
        rfl
      · rw [List.mem_singleton.mp hd]
        exact ⟨rfl, hcollapsed.symm, fun h => (by cases h), fun _ => ⟨_, below, hbelow, rfl⟩⟩
    · rename_i hopen
      obtain ⟨rest, hrest, rfl⟩ := Option.map_eq_some_iff.mp h
      obtain ⟨hwalk, hwritten⟩ := gather_visit (fun _ _ => ih) hrest
      refine ⟨?_, fun d hd => ?_⟩
      · rw [walk, shownKids, if_neg hopen, hwalk]
        rfl
      · obtain rfl | hd := List.mem_cons.mp hd
        · exact ⟨rfl, (Bool.eq_false_iff.mpr hopen).symm, fun _ => rfl, fun h => (by cases h)⟩
        · exact hwritten d hd

theorem buildTree_spec {out : List DisplayRow} (h : buildTree rows v fuel = some out) :
    gather (walk (shownKids rows v) fuel 0) (v.ordering.sort (links rows).roots) =
      some (out.map place) ∧ ∀ d ∈ out, Written rows v d :=
  gather_visit (fun _ _ => visit_spec) h

theorem get?_aggregatesOf {key : Text} {subtree : List Row} (h : key ∈ v.aggregateKeys) :
    (v.aggregatesOf subtree).get? key = some (sumColumn subtree key) := by
  have hkey : key ∈ (v.aggregatesOf subtree).keys := by
    refine OrderedMap.mem_keys_ofList.mpr (List.mem_map.mpr ⟨(key, sumColumn subtree key), ?_, rfl⟩)
    exact List.mem_map.mpr ⟨key, h, rfl⟩
  obtain ⟨sum, hsum⟩ := OrderedMap.has_iff_get.mp (OrderedMap.has_iff.mpr hkey)
  obtain ⟨k, -, heq⟩ := List.mem_map.mp (OrderedMap.mem_of_get?_ofList hsum)
  cases heq
  exact hsum

/-! ### The forest of well parented rows -/

theorem Parent.mem (h : Parent rows p r) : p ∈ rows := (parentOf_eq_some h.2).1

theorem Parent.not_root (h : Parent rows p r) : r ∉ (links rows).roots := by
  intro hroot
  have hnone := (mem_roots.mp hroot).2
  rw [h.2] at hnone
  cases hnone

theorem Parent.unique {q : Row} (h : Parent rows p r) (hq : Parent rows q r) : p = q :=
  Option.some_inj.mp (h.2.symm.trans hq.2)

theorem Below.mem (h : Below rows p r) : p ∈ rows ∧ r ∈ rows := by
  induction h with
  | single h => exact ⟨h.mem, h.1⟩
  | tail _ h ih => exact ⟨ih.1, h.1⟩

/-- The rows above a row are above each other. -/
theorem Below.total {q : Row} (h : Below rows p r) (hq : Below rows q r) :
    p = q ∨ Below rows p q ∨ Below rows q p := by
  have hunique : Relator.RightUnique (Function.swap (Parent rows)) := fun _ _ _ ha hb => ha.unique hb
  have hreach := ReflTransGen.total_of_right_unique hunique (ReflTransGen.swap _ _ h.to_reflTransGen)
    (ReflTransGen.swap _ _ hq.to_reflTransGen)
  obtain hpq | hqp := hreach
  · obtain heq | hbelow := reflTransGen_iff_eq_or_transGen.mp (ReflTransGen.swap _ _ hpq)
    · exact .inl heq
    · exact .inr (.inr hbelow)
  · obtain heq | hbelow := reflTransGen_iff_eq_or_transGen.mp (ReflTransGen.swap _ _ hqp)
    · exact .inl heq.symm
    · exact .inr (.inl hbelow)

theorem mem_sort {l : List Row} : r ∈ v.ordering.sort l ↔ r ∈ l := (v.ordering.perm l).mem_iff

theorem isCollapsed_eq_true (h : v.isCollapsed rows r = true) : r.id ∈ v.collapsed := by
  rw [View.isCollapsed, Bool.and_eq_true, decide_eq_true_iff] at h
  exact h.2

theorem mem_shownKids : s ∈ shownKids rows v r ↔ s ∈ childrenOf rows r ∧ v.isCollapsed rows r = false := by
  rw [shownKids]
  split
  · rename_i h
    simp [h]
  · rename_i h
    rw [mem_sort, Bool.eq_false_iff]
    exact ⟨fun hs => ⟨hs, h⟩, And.left⟩

section forest
open Classical in
/-- How many rows stand above a row. -/
noncomputable def level (rows : List Row) (r : Row) : Nat :=
  (rows.toFinset.filter fun q => Below rows q r).card

open Classical in
theorem level_le (rows : List Row) (r : Row) : level rows r ≤ rows.length :=
  (Finset.card_filter_le _ _).trans (List.toFinset_card_le rows)

open Classical in
theorem level_lt (hcycle : ∀ r, ¬Below rows r r) (h : Parent rows p r) : level rows p < level rows r := by
  refine Finset.card_lt_card (Finset.ssubset_iff_subset_ne.mpr ⟨?_, fun heq => ?_⟩)
  · intro q hq
    obtain ⟨hmem, hbelow⟩ := Finset.mem_filter.mp hq
    exact Finset.mem_filter.mpr ⟨hmem, hbelow.tail h⟩
  · have hp : p ∈ rows.toFinset.filter fun q => Below rows q r :=
      Finset.mem_filter.mpr ⟨List.mem_toFinset.mpr h.mem, .single h⟩
    rw [← heq] at hp
    exact hcycle p (Finset.mem_filter.mp hp).2

variable (hw : WellParented rows)
include hw

theorem mem_childrenOf_iff (hr : r ∈ rows) : s ∈ childrenOf rows r ↔ Parent rows r s := by
  rw [mem_childrenOf]
  constructor
  · rintro ⟨hs, p, hp, hid⟩
    rw [hw.own_id s hs p hp r hr hid.symm]
    exact ⟨hs, hp⟩
  · rintro ⟨hs, hp⟩
    exact ⟨hs, r, hp, rfl⟩

theorem layered (hnodup : rows.Nodup) : Layered (childrenOf rows) (level rows) (· ∈ rows) where
  nodup := nodup_childrenOf hnodup
  closed _ _ _ hs := (mem_childrenOf.mp hs).1
  deeper _ hr _ hs := level_lt hw.no_cycle ((mem_childrenOf_iff hw hr).mp hs)
  single _ _ _ hr hq hs hsq := ((mem_childrenOf_iff hw hr).mp hs).unique ((mem_childrenOf_iff hw hq).mp hsq)

theorem layered_shown (hnodup : rows.Nodup) (v : View) :
    Layered (shownKids rows v) (level rows) (· ∈ rows) := by
  refine (layered hw hnodup).fewer (fun r => ?_) fun r s hs => (mem_shownKids.mp hs).1
  rw [shownKids]
  split
  · exact List.nodup_nil
  · exact (v.ordering.perm _).nodup_iff.mpr (nodup_childrenOf hnodup r)

/-- The recursion comes to its end. -/
theorem exists_visit (hnodup : rows.Nodup) (v : View) (depth : Nat) (hr : r ∈ rows)
    (hfuel : rows.length - level rows r < fuel) : ∃ out, visit rows v fuel depth r = some out := by
  induction fuel generalizing depth r with
  | zero => omega
  | succ fuel ih =>
    rw [visit]
    split
    · obtain ⟨l, hl⟩ := (layered hw hnodup).exists_walk (fun r _ => level_le rows r) depth hr hfuel
      obtain ⟨below, hbelow⟩ := exists_descendants hl
      rw [hbelow]
      exact ⟨_, rfl⟩
    · have hkids : ∀ k ∈ v.ordering.sort (childrenOf rows r), ∃ out, visit rows v fuel (depth + 1) k = some out := by
        intro k hk
        have hparent := (mem_childrenOf_iff hw hr).mp (mem_sort.mp hk)
        have hlevel := level_lt hw.no_cycle hparent
        have hle := level_le rows k
        exact ih (depth + 1) hparent.1 (by omega)
      obtain ⟨rest, hrest⟩ := exists_gather hkids
      rw [hrest]
      exact ⟨_, rfl⟩

theorem exists_buildTree (hnodup : rows.Nodup) (v : View) :
    ∃ out, buildTree rows v (rows.length + 1) = some out :=
  exists_gather fun _ hr => exists_visit hw hnodup v 0 (mem_roots.mp (mem_sort.mp hr)).1 (by omega)

theorem reaches_iff (hr : r ∈ rows) :
    ReflTransGen (fun x y => y ∈ childrenOf rows x) r s ↔ ReflTransGen (Parent rows) r s := by
  constructor
  · intro h
    have hboth : ReflTransGen (Parent rows) r s ∧ s ∈ rows := by
      induction h with
      | refl => exact ⟨.refl, hr⟩
      | tail _ hstep ih =>
        have hparent := (mem_childrenOf_iff hw ih.2).mp hstep
        exact ⟨ih.1.tail hparent, hparent.1⟩
    exact hboth.1
  · intro h
    exact ReflTransGen.mono (fun x y hxy => (mem_childrenOf_iff hw hxy.mem).mpr hxy) _ _ h

/-- The descendants of a row are the rows below it, each once. -/
theorem descendants_spec (hnodup : rows.Nodup) (hr : r ∈ rows) {below : List Row}
    (h : descendants rows fuel r = some below) :
    below.Nodup ∧ ∀ s, s ∈ below ↔ Below rows r s := by
  obtain ⟨l, hwalk, hl⟩ := descendants_eq_some h 0
  have honce : (r :: below).Nodup := hl ▸ (layered hw hnodup).nodup_walk hr hwalk
  have hmem : ∀ s, s ∈ r :: below ↔ ReflTransGen (Parent rows) r s := fun s => by
    rw [← hl, mem_walk_iff (layered hw hnodup).nodup hwalk, reaches_iff hw hr]
  obtain ⟨hself, hbelow⟩ := List.nodup_cons.mp honce
  refine ⟨hbelow, fun s => ⟨fun hs => ?_, fun hs => ?_⟩⟩
  · obtain heq | hlt := reflTransGen_iff_eq_or_transGen.mp ((hmem s).mp (List.mem_cons_of_mem r hs))
    · exact absurd (heq ▸ hs) hself
    · exact hlt
  · obtain rfl | hs' := List.mem_cons.mp ((hmem s).mpr hs.to_reflTransGen)
    · exact absurd hs (hw.no_cycle s)
    · exact hs'

end forest

/-! ### Well parented rows are shown once -/

/-- A finished table of well parented rows. -/
structure Finished (rows : List Row) (v : View) (out : List DisplayRow) : Prop where
  parented : WellParented rows
  nodup : rows.Nodup
  built : ∃ fuel, buildTree rows v fuel = some out

namespace Finished
variable {out : List DisplayRow} {d : DisplayRow} (h : Finished rows v out)
include h

theorem walked : ∃ fuel, gather (walk (shownKids rows v) fuel 0) (v.ordering.sort (links rows).roots) =
    some (out.map place) := by
  obtain ⟨fuel, hbuilt⟩ := h.built
  exact ⟨fuel, (buildTree_spec hbuilt).1⟩

theorem written (hd : d ∈ out) : Written rows v d := by
  obtain ⟨fuel, hbuilt⟩ := h.built
  exact (buildTree_spec hbuilt).2 d hd

theorem once : (out.map DisplayRow.row).Nodup := by
  obtain ⟨fuel, hwalk⟩ := h.walked
  have hroots : (v.ordering.sort (links rows).roots).Nodup :=
    (v.ordering.perm _).nodup_iff.mpr (nodup_roots h.nodup)
  have hnodup := (layered_shown h.parented h.nodup v).nodup_gather hwalk hroots
    (fun r hr => (mem_roots.mp (mem_sort.mp hr)).1) ?_
  · simpa [place, Function.comp_def] using hnodup
  · intro r hr x hx hkid
    have hparent := (mem_childrenOf_iff h.parented hx).mp (mem_shownKids.mp hkid).1
    exact hparent.not_root (mem_sort.mp hr)

theorem mem_shown_iff : r ∈ out.map DisplayRow.row ↔
    r ∈ (links rows).roots ∨ ∃ p ∈ out.map DisplayRow.row, r ∈ shownKids rows v p := by
  obtain ⟨fuel, hwalk⟩ := h.walked
  have hmem := mem_gather_iff (layered_shown h.parented h.nodup v).nodup hwalk (b := r)
  rw [mem_sort] at hmem
  simpa [place, Function.comp_def] using hmem

theorem mem_rows (hr : r ∈ out.map DisplayRow.row) : r ∈ rows := by
  obtain hroot | ⟨p, -, hkid⟩ := h.mem_shown_iff.mp hr
  · exact (mem_roots.mp hroot).1
  · exact (mem_childrenOf.mp (mem_shownKids.mp hkid).1).1

/-- A row is shown when its parent is shown and open. -/
theorem child_shown_iff (hp : Parent rows p r) : r ∈ out.map DisplayRow.row ↔
    p ∈ out.map DisplayRow.row ∧ v.isCollapsed rows p = false := by
  rw [h.mem_shown_iff]
  constructor
  · rintro (hroot | ⟨q, hq, hkid⟩)
    · exact absurd hroot hp.not_root
    · obtain ⟨hchild, hopen⟩ := mem_shownKids.mp hkid
      have hparent := (mem_childrenOf_iff h.parented (h.mem_rows hq)).mp hchild
      rw [hp.unique hparent]
      exact ⟨hq, hopen⟩
  · rintro ⟨hshown, hopen⟩
    exact .inr ⟨p, hshown, mem_shownKids.mpr ⟨(mem_childrenOf_iff h.parented hp.mem).mpr hp, hopen⟩⟩

theorem shown (hr : r ∈ out.map DisplayRow.row) (hd : d ∈ out) (hcollapsed : d.collapsed = true) :
    ¬Below rows d.row r := by
  intro hbelow
  rw [(h.written hd).collapsed] at hcollapsed
  induction hbelow with
  | single hp =>
    rw [((h.child_shown_iff hp).mp hr).2] at hcollapsed
    cases hcollapsed
  | tail _ hp ih => exact ih ((h.child_shown_iff hp).mp hr).1

theorem hidden (hr : r ∈ rows) (hhidden : r ∉ out.map DisplayRow.row) :
    ∃ d ∈ out, d.collapsed = true ∧ Below rows d.row r := by
  induction hlevel : level rows r using Nat.strongRecOn generalizing r with
  | _ n ih =>
    subst hlevel
    cases hparent : parentOf rows r with
    | none => exact absurd (h.mem_shown_iff.mpr (.inl (mem_roots.mpr ⟨hr, hparent⟩))) hhidden
    | some p =>
      have hp : Parent rows p r := ⟨hr, hparent⟩
      by_cases hshown : p ∈ out.map DisplayRow.row
      · obtain ⟨d, hd, rfl⟩ := List.mem_map.mp hshown
        refine ⟨d, hd, ?_, .single hp⟩
        rw [(h.written hd).collapsed]
        by_contra hopen
        exact hhidden ((h.child_shown_iff hp).mpr ⟨hshown, Bool.eq_false_iff.mpr hopen⟩)
      · obtain ⟨d, hd, hcollapsed, hbelow⟩ :=
          ih (level rows p) (level_lt h.parented.no_cycle hp) hp.mem hshown rfl
        exact ⟨d, hd, hcollapsed, hbelow.tail hp⟩

/-- Only one collapsed row stands above a hidden row. -/
theorem one_collapsed {e : DisplayRow} (hd : d ∈ out) (he : e ∈ out) (hdc : d.collapsed = true)
    (hec : e.collapsed = true) (hbelow : Below rows d.row r) (hbelow' : Below rows e.row r) :
    e.row = d.row := by
  obtain heq | hed | hde := hbelow'.total hbelow
  · exact heq
  · exact absurd hed (h.shown (List.mem_map_of_mem hd) he hec)
  · exact absurd hde (h.shown (List.mem_map_of_mem he) hd hdc)

theorem under (hd : d ∈ out) (hp : parentOf rows d.row = some p) :
    ∃ e, [e, d].Sublist out ∧ e.row = p ∧ d.depth = e.depth + 1 := by
  obtain ⟨fuel, hwalk⟩ := h.walked
  obtain ⟨root, hroot, part, hpart, hmem, hsub⟩ := mem_gather hwalk (List.mem_map_of_mem hd)
  obtain heq | ⟨q, hq, hkid, hdepth⟩ := parent_before hpart _ hmem
  · have hrow : d.row = root := congrArg Prod.fst heq
    rw [hrow, (mem_roots.mp (mem_sort.mp hroot)).2] at hp
    cases hp
  · obtain ⟨l, hl, heq⟩ := List.sublist_map_iff.mp (hq.trans hsub)
    obtain ⟨e, l', rfl, rfl, hrest⟩ := List.map_eq_cons_iff.mp heq.symm
    obtain ⟨d', l'', rfl, hplace, hnil⟩ := List.map_eq_cons_iff.mp hrest
    rw [List.map_eq_nil_iff.mp hnil] at hl
    have hd' : d' ∈ out := hl.subset (List.mem_cons_of_mem e List.mem_cons_self)
    have hsame : d' = d := List.inj_on_of_nodup_map h.once hd' hd (congrArg Prod.fst hplace)
    rw [hsame] at hl
    have he : e.row ∈ rows := h.mem_rows (List.mem_map_of_mem (hl.subset List.mem_cons_self))
    have hparent := (mem_childrenOf_iff h.parented he).mp (mem_shownKids.mp hkid).1
    exact ⟨e, hl, Option.some_inj.mp (hparent.2.symm.trans hp), hdepth⟩

/-- What a shown row stands in for, and what it adds to a column. -/
theorem stands_for (hd : d ∈ out) : ∃ below : List Row, below.Nodup ∧
    (∀ r, r ∈ below ↔ d.collapsed = true ∧ Below rows d.row r) ∧
      ∀ key ∈ v.aggregateKeys, d.shownAmount key = sumColumn (d.row :: below) key ∧
        (d.collapsed = true → d.aggregates.bind (·.get? key) = some (sumColumn (d.row :: below) key)) := by
  have hwritten := h.written hd
  cases hcollapsed : d.collapsed with
  | false =>
    refine ⟨[], List.nodup_nil, fun r => by simp, fun key _ => ⟨?_, fun hc => (by cases hc)⟩⟩
    rw [DisplayRow.shownAmount, hwritten.plain hcollapsed]
    exact (List.sum_singleton).symm
  | true =>
    obtain ⟨fuel, below, hbelow, hsums⟩ := hwritten.sums hcollapsed
    have hrow := h.mem_rows (List.mem_map_of_mem hd)
    obtain ⟨hnodup, hmem⟩ := descendants_spec h.parented h.nodup hrow hbelow
    have hget : ∀ key ∈ v.aggregateKeys,
        (v.aggregatesOf (d.row :: below)).get? key = some (sumColumn (d.row :: below) key) :=
      fun key hkey => get?_aggregatesOf hkey
    refine ⟨below, hnodup, fun r => by simp [hmem r], fun key hkey => ⟨?_, fun _ => ?_⟩⟩
    · rw [DisplayRow.shownAmount, hsums]
      exact congrArg (Option.getD · 0) (hget key hkey)
    · rw [hsums]
      exact hget key hkey

/-- Shown rows and what they stand in for: all rows, each once. -/
theorem covered {below : DisplayRow → List Row} (hnodup : ∀ d ∈ out, (below d).Nodup)
    (hmem : ∀ d ∈ out, ∀ r, r ∈ below d ↔ d.collapsed = true ∧ Below rows d.row r) :
    (out.flatMap fun d => d.row :: below d).Perm rows := by
  refine (List.perm_ext_iff_of_nodup ?_ h.nodup).mpr fun r => ?_
  · refine List.nodup_flatMap.mpr ⟨fun d hd => ?_, ?_⟩
    · refine List.nodup_cons.mpr ⟨fun hself => ?_, hnodup d hd⟩
      exact h.parented.no_cycle d.row ((hmem d hd d.row).mp hself).2
    · refine (List.pairwise_map.mp h.once).imp_of_mem fun {d e} hd he hne => ?_
      refine List.disjoint_left.mpr fun r hr hr' => ?_
      obtain rfl | hr := List.mem_cons.mp hr
      · obtain heq | hr' := List.mem_cons.mp hr'
        · exact hne heq
        · obtain ⟨hec, hbelow⟩ := (hmem e he _).mp hr'
          exact h.shown (List.mem_map_of_mem hd) he hec hbelow
      · obtain ⟨hdc, hbelow⟩ := (hmem d hd r).mp hr
        obtain rfl | hr' := List.mem_cons.mp hr'
        · exact h.shown (List.mem_map_of_mem he) hd hdc hbelow
        · obtain ⟨hec, hbelow'⟩ := (hmem e he r).mp hr'
          exact hne (h.one_collapsed hd he hdc hec hbelow hbelow').symm
  · rw [List.mem_flatMap]
    constructor
    · rintro ⟨d, hd, hr⟩
      obtain rfl | hr := List.mem_cons.mp hr
      · exact h.mem_rows (List.mem_map_of_mem hd)
      · exact ((hmem d hd r).mp hr).2.mem.2
    · intro hr
      by_cases hshown : r ∈ out.map DisplayRow.row
      · obtain ⟨d, hd, rfl⟩ := List.mem_map.mp hshown
        exact ⟨d, hd, List.mem_cons_self⟩
      · obtain ⟨d, hd, hcollapsed, hbelow⟩ := h.hidden hr hshown
        exact ⟨d, hd, List.mem_cons_of_mem _ ((hmem d hd r).mpr ⟨hcollapsed, hbelow⟩)⟩

theorem totals {key : Text} (hkey : key ∈ v.aggregateKeys) :
    (out.map fun d => d.shownAmount key).sum = sumColumn rows key := by
  choose! below hnodup hmem hsum using fun d (hd : d ∈ out) => h.stands_for hd
  have hamounts : out.map (fun d => d.shownAmount key) =
      out.map fun d => ((d.row :: below d).map fun r => r.amount key).sum :=
    List.map_congr_left fun d hd => (hsum d hd key hkey).1
  calc (out.map fun d => d.shownAmount key).sum
      = (((out.flatMap fun d => d.row :: below d)).map fun r => r.amount key).sum := by
        rw [hamounts, List.map_flatMap, List.flatMap, List.sum_flatten, List.map_map]
        rfl
    _ = sumColumn rows key := ((h.covered hnodup hmem).map _).sum_eq

theorem every (hopen : v.collapsed = []) : (out.map DisplayRow.row).Perm rows := by
  refine (List.perm_ext_iff_of_nodup h.once h.nodup).mpr fun r => ⟨h.mem_rows, fun hr => ?_⟩
  by_contra hhidden
  obtain ⟨d, hd, hcollapsed, -⟩ := h.hidden hr hhidden
  rw [(h.written hd).collapsed] at hcollapsed
  have hid := isCollapsed_eq_true hcollapsed
  rw [hopen] at hid
  cases hid

theorem showsOnce : ShowsOnce rows v out where
  every := h.every
  once := h.once
  own d hd := by
    refine ⟨h.mem_rows (List.mem_map_of_mem hd), (h.written hd).key, fun hcollapsed => ?_⟩
    rw [(h.written hd).collapsed] at hcollapsed
    exact isCollapsed_eq_true hcollapsed
  under d hd p hp := h.under hd hp
  shown r hr d hd hcollapsed := h.shown hr hd hcollapsed
  hidden r hr hhidden := by
    obtain ⟨d, hd, hcollapsed, hbelow⟩ := h.hidden hr hhidden
    refine ⟨d, hd, hcollapsed, hbelow, fun e he hec hbelow' => ?_⟩
    exact h.one_collapsed hd he hcollapsed hec hbelow hbelow'
  sums d hd hcollapsed := by
    obtain ⟨below, hnodup, hmem, hsum⟩ := h.stands_for hd
    refine ⟨below, hnodup, fun r => ?_, fun key hkey => (hsum key hkey).2 hcollapsed⟩
    rw [hmem r, hcollapsed]
    exact ⟨And.right, fun hbelow => ⟨rfl, hbelow⟩⟩
  totals key hkey := h.totals hkey

end Finished

/-! ### Rows that are shown once are well parented -/

/-- Nothing collapsed, in the order of the rows. -/
def unfolded : View := ⟨⟨id, fun l => .refl l⟩, [], []⟩

theorem shownKids_unfolded (rows : List Row) : shownKids rows unfolded = childrenOf rows := by
  funext r
  have hopen : unfolded.isCollapsed rows r = false := by
    rw [View.isCollapsed, Bool.and_eq_false_iff]
    exact .inr (decide_eq_false (List.not_mem_nil))
  rw [shownKids, hopen]
  rfl

section converse
variable {out : List DisplayRow} (hnodup : rows.Nodup)
  (hwalk : gather (walk (childrenOf rows) fuel 0) (links rows).roots = some (out.map place))
  (honce : (out.map DisplayRow.row).Nodup) (hevery : (out.map DisplayRow.row).Perm rows)
include hnodup hwalk honce hevery

theorem own_id_of_once {q : Row} (hr : r ∈ rows) (hp : parentOf rows r = some p) (hq : q ∈ rows)
    (hid : q.parentId = p.parentId) : q = p := by
  by_contra hne
  have hcount := count_gather (nodup_childrenOf hnodup) hwalk r
  have hrows : (out.map place).map Prod.fst = out.map DisplayRow.row := by
    simp [place, Function.comp_def]
  rw [hrows] at hcount
  -- both rows list the child
  have hparents : ([q, p] : List Row).countP (fun x => decide (r ∈ childrenOf rows x)) = 2 := by
    have hkid : r ∈ childrenOf rows p := mem_childrenOf.mpr ⟨hr, p, hp, rfl⟩
    have hkid' : r ∈ childrenOf rows q := mem_childrenOf.mpr ⟨hr, p, hp, hid.symm⟩
    simp [hkid, hkid']
  have hsubset : [q, p] ⊆ out.map DisplayRow.row := by
    refine List.cons_subset.mpr ⟨hevery.mem_iff.mpr hq, List.cons_subset.mpr ⟨?_, List.nil_subset _⟩⟩
    exact hevery.mem_iff.mpr (parentOf_eq_some hp).1
  have htwice := (List.subperm_of_subset (by simpa using hne) hsubset).countP_le
    fun x => decide (r ∈ childrenOf rows x)
  have hone := List.nodup_iff_count_le_one.mp honce r
  omega

end converse

/-- A row that is reached from a root is not above itself. -/
theorem no_cycle_reached
    (hown : ∀ r ∈ rows, ∀ p, parentOf rows r = some p → ∀ q ∈ rows, q.parentId = p.parentId → q = p)
    {root : Row} (hroot : root ∈ (links rows).roots)
    (hreach : ReflTransGen (fun x y => y ∈ childrenOf rows x) root r) : r ∈ rows ∧ ¬Below rows r r := by
  induction hreach with
  | refl =>
    refine ⟨(mem_roots.mp hroot).1, fun hcycle => ?_⟩
    obtain ⟨p, -, hp⟩ := TransGen.tail'_iff.mp hcycle
    exact hp.not_root hroot
  | tail _ hkid ih =>
    obtain ⟨hx, hacyclic⟩ := ih
    obtain ⟨hy, p, hp, hid⟩ := mem_childrenOf.mp hkid
    have hsame := hown _ hy p hp _ hx hid.symm
    refine ⟨hy, fun hcycle => hacyclic ?_⟩
    obtain ⟨q, hback, hq⟩ := TransGen.tail'_iff.mp hcycle
    have hparent : Parent rows p _ := ⟨hy, hp⟩
    rw [hsame]
    exact .head' hparent (hparent.unique hq ▸ hback)

theorem wellParented_of_buildsOnce {rows : Rows} (h : BuildsOnce rows) : WellParented rows.list := by
  obtain ⟨fuel, out, hbuilt, honce⟩ := h unfolded
  have hevery := honce.every rfl
  have hwalk := (buildTree_spec hbuilt).1
  rw [shownKids_unfolded] at hwalk
  have hown : ∀ r ∈ rows.list, ∀ p, parentOf rows.list r = some p →
      ∀ q ∈ rows.list, q.parentId = p.parentId → q = p :=
    fun r hr p hp q hq hid => own_id_of_once rows.nodup hwalk honce.once hevery hr hp hq hid
  refine ⟨hown, fun r hcycle => ?_⟩
  obtain ⟨d, hd, rfl⟩ := List.mem_map.mp (hevery.mem_iff.mpr hcycle.mem.1)
  obtain ⟨root, hroot, part, hpart, hmem, -⟩ := mem_gather hwalk (List.mem_map_of_mem hd)
  exact (no_cycle_reached hown hroot (reached hpart _ hmem)).2 hcycle

/-- Each view of the rows shows every row once exactly when the parents have ids of their own and no
row is above itself. -/
theorem buildTree_shows_every_row_once_iff (rows : Rows) : BuildsOnce rows ↔ WellParented rows.list := by
  refine ⟨wellParented_of_buildsOnce, fun hw v => ?_⟩
  obtain ⟨out, hbuilt⟩ := exists_buildTree hw rows.nodup v
  have hfinished : Finished rows.list v out := ⟨hw, rows.nodup, _, hbuilt⟩
  exact ⟨_, out, hbuilt, hfinished.showsOnce⟩

/-- Two rows that are each other's parent. -/
def ring : Rows :=
  ⟨[⟨js "a", js "1", some (js "2"), []⟩, ⟨js "b", js "2", some (js "1"), []⟩], by decide⟩

theorem ring_is_not_shown : ¬BuildsOnce ring := by
  intro h
  obtain ⟨fuel, out, hbuilt, honce⟩ := h unfolded
  have hroots : (links ring.list).roots = [] := by decide
  have hout : buildTree ring.list unfolded fuel = some [] := by
    rw [buildTree, hroots]
    rfl
  rw [hout, Option.some_inj] at hbuilt
  have hperm := honce.every rfl
  rw [← hbuilt] at hperm
  cases hperm.length_eq

end BoredManager.Client.Table
