import BoredManager.Js.Doubles
import BoredManager.Machine.Emission
import BoredManager.OpenWrt.PppoeJobRuns

/-! The chunks of a PPPoE batch for a chunk size of any kind, and what has been written when a job
stops between two of them. -/
namespace BoredManager.OpenWrt.Chunks
open BoredManager.Js BoredManager.Js.Number

variable {α : Type*}

/-- `v || 1` -/
def orOne (v : Number) : Number := if v = .fin 0 ∨ v = .nan then .fin 1 else v

/-- `Math.trunc(v)` -/
def trunc : Number → Number
  | .fin q => .ofInt (truncRat q)
  | v => v

/-- `Math.max(1, Math.trunc(size) || 1)` -/
def sizeOf (sizeRaw : Number) : Number := maximum (.fin 1) (orOne (trunc sizeRaw))

/-- How many of the values that are left a slice of the size takes. -/
def sliceLength (left : Nat) : Number → Nat
  | .fin q => ⌊q⌋.toNat
  | .inf _ => left
  | .nan => 0

/-- `for (index = 0; index < values.length; index += size)`, by what is left of the values. -/
def slicesFrom (size : Number) : Nat → List α → List (List α)
  | 0, _ => []
  | _, [] => []
  | fuel + 1, values =>
    let taken := sliceLength values.length size
    values.take taken :: slicesFrom size fuel (values.drop taken)

def chunkValues (values : List α) (sizeRaw : Number) : List (List α) :=
  slicesFrom (sizeOf sizeRaw) values.length values

/-- `Math.ceil(count / MAX_PPPOE_CHUNKS) || 1` -/
def boundedSize (count : Nat) : Number := orOne (.ofInt ⌈Number.double (count / maxPppoeChunks)⌉)

/-- Honour the configured size while enforcing a bounded live job payload. -/
def effectivePppoeChunkSize (rowCount : Nat) (requested : Number) : Number :=
  maximum (sizeOf requested) (boundedSize rowCount)

def planPppoeChunks (rows : List PppoeInputRow) (options : PppoeBuildOptions)
    (requestedChunkSize : Number) : Except Text (List PppoeUciChunk) := do
  let sections ← buildPppoeSections rows options
  let chunks := chunkValues sections (effectivePppoeChunkSize sections.length requestedChunkSize)
  planChunksFrom options.carrier chunks.length 0 [] chunks

/-! ### What a plan owes -/

/-- The line that makes a VLAN's section, and all five lines of it. -/
def vlanTypeLine (vlan : Int) : Text := (⟨vlanSectionName vlan, none, js "device"⟩ : UciSetting).line

def vlanDefinition (carrier : Text) (vlan : Int) : List Text :=
  (vlanSettings carrier vlan).map UciSetting.line

/-- Chunks whose sequences follow each other from a first one. -/
def Consecutive : Int → List PppoeUciChunk → Prop
  | _, [] => True
  | first, chunk :: chunks =>
    chunk.sections ≠ [] ∧ chunk.seqFrom = first ∧ chunk.seqTo = first + chunk.sections.length - 1 ∧
      Consecutive (first + chunk.sections.length) chunks

/-- Every VLAN device of an interface that has been created is defined, once. -/
def DefinesOnce (carrier : Text) (created : List PppoeSectionPlan) (lines : List Text) : Prop :=
  ∀ plan ∈ created, ∀ vlan, plan.vlan = some vlan →
    plan.device = vlanDevice carrier vlan ∧ vlanDefinition carrier vlan <:+: lines ∧
      lines.count (vlanTypeLine vlan) = 1

/-- The chunks say what the batch says, in order, and can stop after each of them. -/
structure Refines (options : PppoeBuildOptions) (sections : List PppoeSectionPlan)
    (lines : List Text) (chunks : List PppoeUciChunk) : Prop where
  all_lines : chunks.flatMap PppoeUciChunk.lines = lines
  all_names : chunks.flatMap PppoeUciChunk.sections = sections.map PppoeSectionPlan.section_
  seqs : ∃ first : Int, (sections ≠ [] → options.seqFrom = .ofInt first) ∧ Consecutive first chunks
  at_most : chunks.length ≤ 100
  safe : ∀ n, ∃ created, created <+: sections ∧
    (chunks.take n).flatMap PppoeUciChunk.sections = created.map PppoeSectionPlan.section_ ∧
      DefinesOnce options.carrier created ((chunks.take n).flatMap PppoeUciChunk.lines)

/-! ### Sizes -/

/-- The whole size that cuts as a size of any kind does. -/
def wholeSize (count : Nat) : Number → Int
  | .fin q => truncRat q
  | .inf negative => if negative then 1 else max 1 count
  | .nan => 1

theorem sizeOf_fin (q : ℚ) : sizeOf (.fin q) = .ofInt (chunkSizeOf (truncRat q)) := by
  rw [sizeOf, trunc, orOne, chunkSizeOf]
  by_cases hzero : truncRat q = 0
  · have hz : Number.ofInt (truncRat q) = .fin 0 := by rw [hzero]; rfl
    rw [if_pos (.inl hz), if_pos hzero]
    rfl
  · have hz : ¬(Number.ofInt (truncRat q) = .fin 0 ∨ Number.ofInt (truncRat q) = .nan) := by
      simp [Number.ofInt, hzero]
    rw [if_neg hz, if_neg hzero, maximum]
    split
    · rename_i hlt
      have h : (1 : ℚ) < truncRat q := by simpa [Number.lt, Number.ofInt] using hlt
      have h' : 1 < truncRat q := by exact_mod_cast h
      rw [Int.toNat_of_nonneg (by omega), max_eq_right h'.le]
    · rename_i hlt
      have h : ¬(1 : ℚ) < truncRat q := by simpa [Number.lt, Number.ofInt] using hlt
      have h' : ¬1 < truncRat q := by exact_mod_cast h
      rw [max_eq_left (by omega)]
      rfl

theorem orOne_ofInt {z : Int} (h : z ≠ 0) : orOne (.ofInt z) = .ofInt z := by
  rw [orOne, if_neg]
  simp [Number.ofInt, h]

theorem maximum_ofInt (a b : Nat) : maximum (.ofInt a) (.ofInt b) = .ofInt (max a b : Nat) := by
  rw [maximum]
  split
  · rename_i hlt
    have h : (a : ℚ) < b := by simpa [Number.lt, Number.ofInt] using hlt
    rw [max_eq_right (by exact_mod_cast h.le)]
  · rename_i hlt
    have h : ¬(a : ℚ) < b := by simpa [Number.lt, Number.ofInt] using hlt
    rw [max_eq_left (by exact_mod_cast not_lt.mp h)]

/-- The quotient is rounded, but not so that a row is lost. -/
theorem boundedSize_eq {count : Nat} (h : count ≤ 99999) :
    boundedSize count = .ofInt (max 1 ((count + (maxPppoeChunks - 1)) / maxPppoeChunks) : Nat) := by
  obtain rfl | hpos := Nat.eq_zero_or_pos count
  · have hzero : Number.double ((0 : Nat) / (maxPppoeChunks : Nat)) = 0 := by decide +kernel
    rw [boundedSize, hzero]
    rfl
  · have hcut : count = 100 * ((count - 1) / 100) + (count - 1) % 100 + 1 := by omega
    have hcast : (count : ℚ) = 100 * ((count - 1) / 100 : Nat) + ((count - 1) % 100 : Nat) + 1 := by
      exact_mod_cast hcut
    have hrest : (((count - 1) % 100 : Nat) : ℚ) ≤ 99 := by
      exact_mod_cast (by omega : (count - 1) % 100 ≤ 99)
    have hrest' : (0 : ℚ) ≤ ((count - 1) % 100 : Nat) := by positivity
    have hceil : ⌈Number.double (count / (100 : Nat))⌉ = ((count - 1) / 100 : Nat) + 1 := by
      refine ceil_double (by omega) ?_ ?_
      · rw [le_div_iff₀ (by norm_num), hcast]
        push_cast
        linarith
      · rw [div_le_iff₀ (by norm_num), hcast]
        push_cast
        linarith
    have hsize : max 1 ((count + 99) / 100) = (count - 1) / 100 + 1 := by omega
    rw [boundedSize, maxPppoeChunks, hceil, orOne_ofInt (by omega), hsize]
    rfl

theorem effectivePppoeChunkSize_fin {count : Nat} (h : count ≤ 99999) (q : ℚ) :
    effectivePppoeChunkSize count (.fin q) =
      .ofInt (OpenWrt.effectivePppoeChunkSize count (truncRat q)) := by
  rw [effectivePppoeChunkSize, sizeOf_fin, boundedSize_eq h, maximum_ofInt]
  rfl

/-! ### Slices -/

theorem slicesFrom_ofInt (size fuel : Nat) (values : List α) :
    slicesFrom (.ofInt size) fuel values = chunkFrom size fuel values := by
  induction fuel generalizing values with
  | zero => rfl
  | succ fuel ih =>
    cases values with
    | nil => rfl
    | cons value values =>
      have hlength : sliceLength (value :: values).length (.ofInt size) = size := by
        simp [sliceLength, Number.ofInt]
      rw [slicesFrom, chunkFrom, hlength, ih]
      all_goals exact List.cons_ne_nil _ _

theorem chunkFrom_nil (size fuel : Nat) : chunkFrom size fuel ([] : List α) = [] := by
  cases fuel <;> rfl

theorem slicesFrom_nil (size : Number) (fuel : Nat) : slicesFrom size fuel ([] : List α) = [] := by
  cases fuel <;> rfl

/-- A size that the list does not reach cuts it nowhere. -/
theorem chunkFrom_of_le {size : Nat} {values : List α} (hne : values ≠ []) (h : values.length ≤ size) :
    chunkFrom size values.length values = [values] := by
  cases values with
  | nil => exact absurd rfl hne
  | cons value values =>
    rw [List.length_cons, chunkFrom, List.take_of_length_le h, List.drop_of_length_le h, chunkFrom_nil]
    exact hne

theorem slicesFrom_inf {values : List α} (hne : values ≠ []) (negative : Bool) :
    slicesFrom (.inf negative) values.length values = [values] := by
  cases values with
  | nil => exact absurd rfl hne
  | cons value values =>
    have hlength : sliceLength (value :: values).length (.inf negative) = (value :: values).length := rfl
    rw [List.length_cons, slicesFrom, hlength, List.take_length, List.drop_length, slicesFrom_nil]
    exact hne

theorem chunkValues_ofInt (values : List α) (size : Nat) :
    chunkValues values (.ofInt size) = OpenWrt.chunkValues values size := by
  have hsize : truncRat ((size : Int) : ℚ) = size := by simp [truncRat]
  rw [chunkValues, Number.ofInt, sizeOf_fin, hsize, slicesFrom_ofInt]
  rfl

theorem toNat_le_chunkSizeOf (z : Int) : z.toNat ≤ chunkSizeOf z := by
  rw [chunkSizeOf]
  split <;> omega

/-- A size of any kind cuts as a whole one does. -/
theorem chunkValues_eq {values : List α} (h : values.length ≤ 99999) (requested : Number) :
    chunkValues values (effectivePppoeChunkSize values.length requested) =
      OpenWrt.chunkValues values
        (OpenWrt.effectivePppoeChunkSize values.length (wholeSize values.length requested)) := by
  have hone : effectivePppoeChunkSize values.length (.fin 1) =
      .ofInt (OpenWrt.effectivePppoeChunkSize values.length 1) := by
    rw [effectivePppoeChunkSize_fin h]
    rfl
  cases requested with
  | fin q => rw [effectivePppoeChunkSize_fin h, chunkValues_ofInt, wholeSize]
  | nan =>
    have hnan : effectivePppoeChunkSize values.length .nan =
        effectivePppoeChunkSize values.length (.fin 1) := by
      rw [effectivePppoeChunkSize, effectivePppoeChunkSize, sizeOf_fin]
      rfl
    rw [hnan, hone, chunkValues_ofInt, wholeSize]
  | inf negative =>
    cases negative with
    | true =>
      have hleast : effectivePppoeChunkSize values.length (.inf true) =
          effectivePppoeChunkSize values.length (.fin 1) := by
        rw [effectivePppoeChunkSize, effectivePppoeChunkSize, sizeOf_fin]
        rfl
      rw [hleast, hone, chunkValues_ofInt, wholeSize]
      rfl
    | false =>
      have hinf : effectivePppoeChunkSize values.length (.inf false) = .inf false := by
        rw [effectivePppoeChunkSize, boundedSize_eq h]
        rfl
      have hall : values.length ≤ chunkSizeOf
          (OpenWrt.effectivePppoeChunkSize values.length (wholeSize values.length (.inf false))) := by
        calc values.length ≤ (wholeSize values.length (.inf false)).toNat := by
              rw [wholeSize, if_neg Bool.false_ne_true]
              omega
          _ ≤ chunkSizeOf (wholeSize values.length (.inf false)) := toNat_le_chunkSizeOf _
          _ ≤ OpenWrt.effectivePppoeChunkSize values.length (wholeSize values.length (.inf false)) :=
              le_max_left _ _
          _ ≤ _ := by
              rw [chunkSizeOf]
              split <;> omega
      rw [hinf, chunkValues, OpenWrt.chunkValues]
      cases values with
      | nil => rfl
      | cons value values =>
        rw [chunkFrom_of_le (List.cons_ne_nil _ _) hall]
        exact slicesFrom_inf (List.cons_ne_nil _ _) false

theorem length_chunkFrom_le {size k fuel : Nat} {values : List α} (h : values.length ≤ k * size) :
    (chunkFrom size fuel values).length ≤ k := by
  induction fuel generalizing k values with
  | zero => exact Nat.zero_le k
  | succ fuel ih =>
    cases values with
    | nil => exact Nat.zero_le k
    | cons value values =>
      cases k with
      | zero => simp at h
      | succ k =>
        have hdrop : ((value :: values).drop size).length ≤ k * size := by
          rw [Nat.succ_mul] at h
          rw [List.length_drop]
          omega
        rw [chunkFrom, List.length_cons]
        · exact Nat.succ_le_succ (ih hdrop)
        · exact List.cons_ne_nil _ _

theorem chunkFrom_ne_nil {size fuel : Nat} (hsize : 0 < size) {values : List α} :
    ∀ part ∈ chunkFrom size fuel values, part ≠ [] := by
  induction fuel generalizing values with
  | zero => exact fun part hpart => (by cases hpart)
  | succ fuel ih =>
    cases values with
    | nil => exact fun part hpart => (by cases hpart)
    | cons value values =>
      intro part hpart
      have hcut : chunkFrom size (fuel + 1) (value :: values) =
          (value :: values).take size :: chunkFrom size fuel ((value :: values).drop size) := rfl
      rw [hcut] at hpart
      obtain rfl | hpart := List.mem_cons.mp hpart
      · simp [hsize.ne']
      · exact ih part hpart

end BoredManager.OpenWrt.Chunks
