import Mathlib.Data.List.Nodup
import Mathlib.Data.Nat.Log
import Mathlib.Tactic.Common

/-! JavaScript strings as lists of UTF-16 code units, so that `length`, `trim`
and the splits count what the language counts, lone surrogates included. -/
namespace BoredManager.Js

abbrev Text := List Nat

instance decidableMemText (a : Text) (l : List Text) : Decidable (a ∈ l) := inferInstance

/-- The UTF-16 code units of one character. -/
def units (c : Char) : Text :=
  if c.toNat < 65536 then [c.toNat]
  else [55296 + (c.toNat - 65536) / 1024, 56320 + (c.toNat - 65536) % 1024]

/-- A string literal. -/
def js (s : String) : Text := s.toList.flatMap units

/-- A literal is its list of characters; rewritten so, it evaluates fast. -/
theorem js_ofList (l : List Char) : js (String.ofList l) = l.flatMap units :=
  congrArg (·.flatMap units) String.toList_ofList

/-- White space and line terminators, as `trim` and `\s` see them. -/
def isSpace (u : Nat) : Bool :=
  (9 ≤ u && u ≤ 13) || u == 32 || u == 160 || u == 5760 || (8192 ≤ u && u ≤ 8202) ||
    u == 8232 || u == 8233 || u == 8239 || u == 8287 || u == 12288 || u == 65279

def isDigit (u : Nat) : Bool := 48 ≤ u && u ≤ 57
def isLower (u : Nat) : Bool := 97 ≤ u && u ≤ 122
def isUpper (u : Nat) : Bool := 65 ≤ u && u ≤ 90
def isHexLower (u : Nat) : Bool := isDigit u || (97 ≤ u && u ≤ 102)

def trim (s : Text) : Text :=
  ((s.dropWhile isSpace).reverse.dropWhile isSpace).reverse

/-- `toLowerCase` on the ASCII letters. -/
def toLowerAscii (s : Text) : Text := s.map fun u => if isUpper u then u + 32 else u

/-- `text.split(/\r?\n/)`: a carriage return right before a line feed goes with it. -/
def dropCr (s : Text) : Text := if s.getLast? = some 13 then s.dropLast else s

def splitLines (s : Text) : List Text :=
  let pieces := s.splitOnP (· == 10)
  pieces.dropLast.map dropCr ++ pieces.getLast?.toList

/-- `text.split(/p+/)`: one cut for each maximal run of separators. -/
def splitRunsFrom (p : Nat → Bool) : Bool → Text → List Text
  | _, [] => [[]]
  | inRun, u :: s =>
    if p u then (if inRun then splitRunsFrom p true s else [] :: splitRunsFrom p true s)
    else (splitRunsFrom p false s).modifyHead (u :: ·)

def splitRuns (p : Nat → Bool) (s : Text) : List Text := splitRunsFrom p false s

/-- `parts.join(sep)`. -/
def join (sep : Text) (parts : List Text) : Text := sep.intercalate parts

/-- The order of code units; on addresses `localeCompare` is this order. -/
def textLe : Text → Text → Bool
  | [], _ => true
  | _ :: _, [] => false
  | u :: s, v :: t => decide (u < v) || (u == v && textLe s t)

attribute [local grind] textLe

/-- The digits of a natural number in a radix, most significant first. -/
def radixFrom (r : Nat) : Nat → Nat → Text → Text
  | 0, _, acc => acc
  | fuel+1, n, acc =>
    let d := n % r
    let acc := (if d < 10 then 48 + d else 87 + d) :: acc
    if n / r = 0 then acc else radixFrom r fuel (n / r) acc

def radixText (r n : Nat) : Text := radixFrom r (n.log2 + 1) n []

/-- `String(n)` for a whole number. -/
def decimal (n : Nat) : Text := radixText 10 n

def decimalInt (z : Int) : Text :=
  if z < 0 then 45 :: decimal z.natAbs else decimal z.natAbs

/-- `text.padStart(width, '0')`. -/
def padZero (width : Nat) (s : Text) : Text := List.replicate (width - s.length) 48 ++ s

example : splitLines (js "a\r\nb\rc\n") = [js "a", js "b\rc", []] := by decide

theorem mem_trim {u : Nat} {s : Text} (h : u ∈ trim s) : u ∈ s := by
  have h1 := (List.dropWhile_sublist isSpace).mem (List.mem_reverse.mp h)
  exact (List.dropWhile_sublist isSpace).mem (List.mem_reverse.mp h1)

theorem dropWhile_eq_self {p : Nat → Bool} {s : Text} (h : ∀ u ∈ s, p u = false) :
    s.dropWhile p = s := by
  cases s with
  | nil => rfl
  | cons u s => exact List.dropWhile_cons_of_neg (by simp [h u List.mem_cons_self])

theorem trim_eq_self {s : Text} (h : ∀ u ∈ s, isSpace u = false) : trim s = s := by
  have hrev : ∀ u ∈ s.reverse, isSpace u = false := fun u hu => h u (List.mem_reverse.mp hu)
  rw [trim, dropWhile_eq_self h, dropWhile_eq_self hrev, List.reverse_reverse]

theorem head?_trim_not_space {s : Text} {u : Nat} (h : u ∈ (trim s).head?) :
    isSpace u = false := by
  -- the right cut keeps the head of the left cut
  have hpre : trim s <+: s.dropWhile isSpace := by
    have hsuf := List.dropWhile_suffix (l := (s.dropWhile isSpace).reverse) isSpace
    have hrev := List.reverse_prefix.mpr hsuf
    rwa [List.reverse_reverse] at hrev
  obtain ⟨rest, hrest⟩ := hpre
  have hhead : u ∈ (s.dropWhile isSpace).head? := by
    cases ht : trim s with
    | nil => rw [ht] at h; cases h
    | cons v vs =>
      rw [ht] at h
      rw [← hrest, ht]
      exact h
  have hd := List.head?_dropWhile_not isSpace s
  rw [hhead] at hd
  simpa using hd

theorem dropWhile_of_head {p : Nat → Bool} {s : Text} (h : ∀ u ∈ s.head?, p u = false) :
    s.dropWhile p = s := by
  cases s with
  | nil => rfl
  | cons u s => exact List.dropWhile_cons_of_neg (by simp [h u rfl])

theorem trim_trim (s : Text) : trim (trim s) = trim s := by
  have hleft : (trim s).dropWhile isSpace = trim s :=
    dropWhile_of_head fun _ => head?_trim_not_space
  have hright : ∀ l : Text, (l.dropWhile isSpace).dropWhile isSpace = l.dropWhile isSpace := by
    refine fun l => dropWhile_of_head fun u hu => ?_
    have hd := List.head?_dropWhile_not isSpace l
    rw [hu] at hd
    simpa using hd
  have htrim : trim (trim s) = (((trim s).dropWhile isSpace).reverse.dropWhile isSpace).reverse := rfl
  rw [htrim, hleft, trim, List.reverse_reverse, hright]

theorem toLowerAscii_eq_self {s : Text} (h : ∀ u ∈ s, isUpper u = false) :
    toLowerAscii s = s := by
  have hid : ∀ u ∈ s, (if isUpper u then u + 32 else u) = u := fun u hu => by simp [h u hu]
  rw [toLowerAscii, List.map_congr_left hid, List.map_id']

/-- A unit of a text is a separator or in a piece. -/
theorem mem_splitOnP {p : Nat → Bool} {s : Text} {u : Nat} (h : u ∈ s) :
    p u = true ∨ ∃ piece ∈ s.splitOnP p, u ∈ piece := by
  induction s with
  | nil => cases h
  | cons x xs ih =>
    rw [List.splitOnP_cons_eq_if_modifyHead]
    by_cases hx : p x
    · rw [if_pos hx]
      rcases List.mem_cons.mp h with rfl | h
      · exact .inl hx
      · exact (ih h).imp id fun ⟨piece, hp, hu⟩ => ⟨piece, List.mem_cons_of_mem _ hp, hu⟩
    · rw [if_neg hx]
      cases hs : xs.splitOnP p with
      | nil => exact absurd hs (List.splitOnP_ne_nil p xs)
      | cons w ws =>
        rw [List.modifyHead_cons]
        rcases List.mem_cons.mp h with rfl | h
        · exact .inr ⟨_, List.mem_cons_self, List.mem_cons_self⟩
        · refine (ih h).imp id fun ⟨piece, hp, hu⟩ => ?_
          rw [hs] at hp
          rcases List.mem_cons.mp hp with rfl | hp
          · exact ⟨_, List.mem_cons_self, List.mem_cons_of_mem _ hu⟩
          · exact ⟨piece, List.mem_cons_of_mem _ hp, hu⟩

theorem not_mem_of_mem_splitOnP {p : Nat → Bool} {s piece : Text}
    (h : piece ∈ s.splitOnP p) {u : Nat} (hu : u ∈ piece) : u ∈ s ∧ p u = false := by
  induction s generalizing piece with
  | nil => simp_all
  | cons x xs ih =>
    rw [List.splitOnP_cons_eq_if_modifyHead] at h
    by_cases hx : p x
    · rw [if_pos hx] at h
      rcases List.mem_cons.mp h with rfl | h
      · simp at hu
      · exact ⟨List.mem_cons_of_mem _ (ih h hu).1, (ih h hu).2⟩
    · rw [if_neg hx] at h
      cases hs : xs.splitOnP p with
      | nil => exact absurd hs (List.splitOnP_ne_nil p xs)
      | cons w ws =>
        rw [hs, List.modifyHead_cons] at h
        rcases List.mem_cons.mp h with rfl | h
        · rcases List.mem_cons.mp hu with rfl | hu
          · exact ⟨by simp, by simpa using hx⟩
          · have hmem : w ∈ xs.splitOnP p := by simp [hs]
            exact ⟨List.mem_cons_of_mem _ (ih hmem hu).1, (ih hmem hu).2⟩
        · have hmem : piece ∈ xs.splitOnP p := by rw [hs]; exact List.mem_cons_of_mem _ h
          exact ⟨List.mem_cons_of_mem _ (ih hmem hu).1, (ih hmem hu).2⟩

/-- No line of a text contains a line feed, and its units are the text's. -/
theorem mem_splitLines {s line : Text} (h : line ∈ splitLines s) {u : Nat} (hu : u ∈ line) :
    u ∈ s ∧ u ≠ 10 := by
  have key : ∀ piece ∈ s.splitOnP (· == 10), ∀ v ∈ piece, v ∈ s ∧ v ≠ 10 := by
    intro piece hp v hv
    have h := not_mem_of_mem_splitOnP hp hv
    exact ⟨h.1, by simpa using h.2⟩
  rcases List.mem_append.mp h with h | h
  · obtain ⟨piece, hp, rfl⟩ := List.mem_map.mp h
    have hv : u ∈ piece := by
      unfold dropCr at hu
      split at hu
      · exact List.dropLast_subset _ hu
      · exact hu
    exact key piece (List.dropLast_subset _ hp) u hv
  · have hp : line ∈ s.splitOnP (· == 10) := List.mem_of_getLast? (by simpa using h)
    exact key line hp u hu

theorem mem_splitRunsFrom {p : Nat → Bool} {inRun : Bool} {s piece : Text}
    (h : piece ∈ splitRunsFrom p inRun s) {u : Nat} (hu : u ∈ piece) : u ∈ s := by
  induction s generalizing inRun piece with
  | nil => simp_all [splitRunsFrom]
  | cons x xs ih =>
    simp only [splitRunsFrom] at h
    split at h
    · split at h
      · exact List.mem_cons_of_mem _ (ih h hu)
      · rcases List.mem_cons.mp h with rfl | h
        · simp at hu
        · exact List.mem_cons_of_mem _ (ih h hu)
    · cases hs : splitRunsFrom p false xs with
      | nil => simp [hs] at h
      | cons w ws =>
        rw [hs, List.modifyHead_cons] at h
        rcases List.mem_cons.mp h with rfl | h
        · rcases List.mem_cons.mp hu with rfl | hu
          · simp
          · have hmem : w ∈ splitRunsFrom p false xs := by simp [hs]
            exact List.mem_cons_of_mem _ (ih hmem hu)
        · have hmem : piece ∈ splitRunsFrom p false xs := by
            rw [hs]; exact List.mem_cons_of_mem _ h
          exact List.mem_cons_of_mem _ (ih hmem hu)

theorem isDigit_of_mem_radixFrom {r : Nat} (hr : 0 < r) (h10 : r ≤ 10) (fuel n : Nat) (acc : Text)
    (hacc : ∀ u ∈ acc, isDigit u = true) : ∀ u ∈ radixFrom r fuel n acc, isDigit u = true := by
  induction fuel generalizing n acc with
  | zero => simpa [radixFrom] using hacc
  | succ fuel ih =>
    have hd : n % r < r := Nat.mod_lt _ hr
    have hcons : ∀ u ∈ (if n % r < 10 then 48 + n % r else 87 + n % r) :: acc,
        isDigit u = true := by
      intro u hu
      rcases List.mem_cons.mp hu with rfl | hu
      · rw [if_pos (by omega)]
        simp only [isDigit, Bool.and_eq_true, decide_eq_true_eq]
        omega
      · exact hacc u hu
    simp only [radixFrom]
    split
    · exact hcons
    · exact ih _ _ hcons

theorem isDigit_of_mem_decimal {n u : Nat} (h : u ∈ decimal n) : isDigit u = true :=
  isDigit_of_mem_radixFrom (by omega) (by omega) _ _ [] (fun _ h => by cases h) u h

theorem textLe_total (s t : Text) : (textLe s t || textLe t s) = true := by
  induction s generalizing t with
  | nil => rfl
  | cons u s ih =>
    cases t with
    | nil => rfl
    | cons v t =>
      have := ih t
      simp only [textLe, Bool.or_eq_true, Bool.and_eq_true, decide_eq_true_eq, beq_iff_eq] at this ⊢
      rcases lt_trichotomy u v with h | rfl | h
      · exact .inl (.inl h)
      · exact this.imp (fun h => .inr ⟨rfl, h⟩) fun h => .inr ⟨rfl, h⟩
      · exact .inr (.inl h)

theorem textLe_trans {s t w : Text} (hst : textLe s t = true) (htw : textLe t w = true) :
    textLe s w = true := by
  induction s generalizing t w with
  | nil => rfl
  | cons u s ih =>
    cases t with
    | nil => cases hst
    | cons v t =>
      cases w with
      | nil => cases htw
      | cons x w =>
        simp only [textLe, Bool.or_eq_true, Bool.and_eq_true, decide_eq_true_eq,
          beq_iff_eq] at hst htw ⊢
        rcases hst with huv | ⟨rfl, hst⟩
        · rcases htw with hvx | ⟨rfl, -⟩
          · exact .inl (huv.trans hvx)
          · exact .inl huv
        · rcases htw with hvx | ⟨rfl, htw⟩
          · exact .inl hvx
          · exact .inr ⟨rfl, ih hst htw⟩

theorem textLe_antisymm {s t : Text} (hst : textLe s t = true) (hts : textLe t s = true) : s = t := by
  induction s generalizing t with
  | nil =>
    cases t with
    | nil => rfl
    | cons v t => cases hts
  | cons u s ih =>
    cases t with
    | nil => cases hst
    | cons v t =>
      simp only [textLe, Bool.or_eq_true, Bool.and_eq_true, decide_eq_true_eq,
        beq_iff_eq] at hst hts
      rcases hst with huv | ⟨rfl, hst⟩
      · omega
      · rw [ih hst (hts.resolve_left (lt_irrefl _)).2]

theorem pairwise_mergeSort_text {α : Type*} (key : α → Text) (l : List α) :
    (l.mergeSort fun a b => textLe (key a) (key b)).Pairwise
      fun a b => textLe (key a) (key b) = true := by
  have htrans : ∀ a b c, textLe (key a) (key b) = true → textLe (key b) (key c) = true →
      textLe (key a) (key c) = true := fun _ _ _ => textLe_trans
  have htotal : ∀ a b, (textLe (key a) (key b) || textLe (key b) (key a)) = true :=
    fun _ _ => textLe_total _ _
  exact List.pairwise_mergeSort htrans htotal l

/-- Sorted by text keys that are all different, a list in any order comes out the same. -/
theorem mergeSort_eq_of_perm {α : Type*} (key : α → Text) {l r : List α} (h : l.Perm r)
    (hnodup : (l.map key).Nodup) :
    l.mergeSort (fun a b => textLe (key a) (key b)) =
      r.mergeSort fun a b => textLe (key a) (key b) := by
  refine List.Perm.eq_of_pairwise (fun a b ha hb hab hba => ?_) (pairwise_mergeSort_text key l)
    (pairwise_mergeSort_text key r)
    ((List.mergeSort_perm _ _).trans (h.trans (List.mergeSort_perm _ _).symm))
  rw [List.mem_mergeSort] at ha hb
  exact List.inj_on_of_nodup_map hnodup ha (h.mem_iff.mpr hb) (textLe_antisymm hab hba)

end BoredManager.Js
