import BoredManager.Js.Number
import BoredManager.OpenWrt.Planner.Types

/-! The pool of free WANs: constant-time removal by name or at a random place,
and the generator that picks the place. -/
namespace BoredManager.OpenWrt.Planner
open BoredManager.Js

/-- The state of the generator, a 32-bit word. -/
structure SeededRandom where
  state : BitVec 32
deriving DecidableEq

namespace SeededRandom

def ofSeed (seed : Int) : SeededRandom :=
  let word := BitVec.ofInt 32 seed
  ⟨if word = 0 then 0x9e3779b9 else word⟩

/-- The next word; the source divides it by 2^32. -/
def next (random : SeededRandom) : SeededRandom :=
  let value := random.state
  let value := value ^^^ (value <<< 13)
  let value := value ^^^ (value >>> 17)
  ⟨value ^^^ (value <<< 5)⟩

def unit (random : SeededRandom) : ℚ := random.state.toNat / 2 ^ 32

/-- `Math.floor(random.next() * size)`. -/
def scaled (random : SeededRandom) (size : Nat) : Nat :=
  ⌊Number.double (random.unit * size)⌋.toNat

end SeededRandom

structure FreeWanPool where
  values : List PlannerWan
  positions : OrderedMap Text Nat
deriving DecidableEq

namespace FreeWanPool

def ofList (values : List PlannerWan) : FreeWanPool :=
  ⟨values, .ofList (values.zipIdx.map fun e => (e.1.name, e.2))⟩

def has (pool : FreeWanPool) (name : Text) : Bool := pool.positions.has name

/-- The last WAN of the pool takes the place of the one that leaves. -/
def takeAt (pool : FreeWanPool) (index : Nat) : Option (PlannerWan × FreeWanPool) :=
  match pool.values[index]?, pool.values.getLast? with
  | some selected, some last =>
    let values := pool.values.dropLast
    let positions := pool.positions.erase selected.name
    if index < values.length then
      some (selected, ⟨values.set index last, positions.set last.name index⟩)
    else some (selected, ⟨values, positions⟩)
  | _, _ => none

def takeNamed (pool : FreeWanPool) (name : Text) : Option (PlannerWan × FreeWanPool) :=
  (pool.positions.get? name).bind pool.takeAt

/-- The place that a random draw selects: the next one if it holds `avoid`. -/
def randomIndex (pool : FreeWanPool) (random : SeededRandom) (avoid : Option Text) : Nat :=
  let size := pool.values.length
  let index := min (size - 1) (random.next.scaled size)
  if (nonEmpty avoid).isSome && decide (1 < size) &&
      (pool.values[index]?).map PlannerWan.name == avoid then (index + 1) % size
  else index

/-- A draw from an empty pool leaves the generator alone. -/
def takeRandom (pool : FreeWanPool) (random : SeededRandom) (avoid : Option Text) :
    Option (PlannerWan × FreeWanPool) × SeededRandom :=
  if pool.values = [] then (none, random)
  else (pool.takeAt (pool.randomIndex random avoid), random.next)

/-! ### What is taken leaves the pool -/

theorem takeAt_perm {pool pool' : FreeWanPool} {index : Nat} {wan : PlannerWan}
    (h : pool.takeAt index = some (wan, pool')) : pool.values.Perm (wan :: pool'.values) := by
  simp only [takeAt] at h
  split at h
  · rename_i selected last hs hl
    obtain ⟨front, hfront⟩ : ∃ front, pool.values = front ++ [last] :=
      List.getLast?_eq_some_iff.mp hl
    rw [hfront] at h hs
    simp only [List.dropLast_concat] at h
    split at h
    · -- the last WAN moves into the place that is freed
      rename_i hi
      cases h
      rw [List.getElem?_append_left hi] at hs
      have hset : front.set index last = front.take index ++ last :: front.drop (index + 1) :=
        List.set_eq_take_append_cons_drop .. |>.trans (if_pos hi)
      have hsplit : front = front.take index ++ wan :: front.drop (index + 1) := by
        rw [List.getElem?_eq_getElem hi, Option.some_inj] at hs
        rw [← hs, List.getElem_cons_drop, List.take_append_drop]
      have hlast : (front.drop (index + 1) ++ [last]).Perm (last :: front.drop (index + 1)) :=
        List.perm_append_singleton _ _
      have hmoved := (hlast.append_left (front.take index)).cons wan
      have hout : (front ++ [last]).Perm
          (wan :: (front.take index ++ (front.drop (index + 1) ++ [last]))) := by
        conv_lhs => rw [hsplit]
        rw [List.append_assoc, List.cons_append]
        exact List.perm_middle
      rw [hfront, hset]
      exact hout.trans hmoved
    · rename_i hi
      cases h
      have hlt : index < (front ++ [last]).length := (List.getElem?_eq_some_iff.mp hs).1
      have heq : index = front.length := by
        simp only [List.length_append, List.length_singleton] at hlt
        omega
      subst heq
      simp only [List.getElem?_concat_length, Option.some_inj] at hs
      rw [hfront, hs]
      exact List.perm_append_singleton _ _
  · cases h

theorem takeAt_isSome {pool : FreeWanPool} {index : Nat} (h : index < pool.values.length) :
    (pool.takeAt index).isSome := by
  have hne : pool.values ≠ [] := List.ne_nil_of_length_pos (by omega)
  simp only [takeAt, List.getElem?_eq_getElem h, List.getLast?_eq_some_getLast hne]
  split <;> rfl

theorem randomIndex_lt {pool : FreeWanPool} (h : pool.values ≠ []) (random : SeededRandom)
    (avoid : Option Text) : pool.randomIndex random avoid < pool.values.length := by
  have hpos := List.length_pos_iff.mpr h
  simp only [randomIndex]
  split
  · exact Nat.mod_lt _ hpos
  · omega

theorem takeRandom_perm {pool pool' : FreeWanPool} {random : SeededRandom} {avoid : Option Text}
    {wan : PlannerWan} (h : (pool.takeRandom random avoid).1 = some (wan, pool')) :
    pool.values.Perm (wan :: pool'.values) := by
  simp only [takeRandom] at h
  split at h
  · cases h
  · exact takeAt_perm h

theorem takeNamed_perm {pool pool' : FreeWanPool} {name : Text} {wan : PlannerWan}
    (h : pool.takeNamed name = some (wan, pool')) : pool.values.Perm (wan :: pool'.values) := by
  obtain ⟨index, -, hi⟩ := Option.bind_eq_some_iff.mp h
  exact takeAt_perm hi

/-- A draw fails on the empty pool only. -/
theorem takeRandom_isSome {pool : FreeWanPool} (h : pool.values ≠ []) (random : SeededRandom)
    (avoid : Option Text) : (pool.takeRandom random avoid).1.isSome := by
  rw [takeRandom, if_neg h]
  exact takeAt_isSome (randomIndex_lt h random avoid)

end FreeWanPool
end BoredManager.OpenWrt.Planner
