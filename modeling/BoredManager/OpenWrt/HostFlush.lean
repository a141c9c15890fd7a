import BoredManager.OpenWrt.HostStore

/-! A flush whose first write is refused: what it cuts, which length of the sticky
list it chooses, and when the second write goes through. -/
namespace BoredManager.OpenWrt.Store
open BoredManager.Js hiding trim

variable {numberText : Nat → ℚ → Text} {data : OwrtHostData} {rules : TrimRules}
  {entries : List StickyEntry}

/-- Newest first and one entry a key: what `newestSticky` returns and leaves alone. -/
structure Ranked (entries : List StickyEntry) : Prop where
  newest : entries.Pairwise fun a b => b.lastSeenTs ≤ a.lastSeenTs
  keys : (entries.map StickyEntry.key).Nodup

theorem Ranked.sublist {l : List StickyEntry} (h : Ranked entries) (hl : l.Sublist entries) :
    Ranked l :=
  ⟨h.newest.sublist hl, h.keys.sublist (hl.map _)⟩

theorem firstByKey_sublist (seen : List Text) (entries : List StickyEntry) :
    (firstByKey seen entries).Sublist entries := by
  induction entries generalizing seen with
  | nil => exact .slnil
  | cons entry entries ih =>
    simp only [firstByKey]
    split
    · exact (ih _).cons _
    · exact (ih _).cons_cons _

theorem firstByKey_keys (seen : List Text) (entries : List StickyEntry) :
    ((firstByKey seen entries).map StickyEntry.key).Nodup ∧
      ∀ entry ∈ firstByKey seen entries, entry.key ∉ seen := by
  induction entries generalizing seen with
  | nil => simp [firstByKey]
  | cons entry entries ih =>
    simp only [firstByKey]
    split
    · exact ih seen
    · rename_i hseen
      obtain ⟨hnodup, hfresh⟩ := ih (entry.key :: seen)
      refine ⟨?_, fun other hother => ?_⟩
      · rw [List.map_cons, List.nodup_cons]
        refine ⟨fun hmem => ?_, hnodup⟩
        obtain ⟨other, hother, hkey⟩ := List.mem_map.mp hmem
        exact hfresh other hother (by simp [hkey])
      · rcases List.mem_cons.mp hother with rfl | hother
        · exact hseen
        · exact fun h => hfresh other hother (List.mem_cons_of_mem _ h)

theorem firstByKey_eq_self {seen : List Text} (hkeys : (entries.map StickyEntry.key).Nodup)
    (hseen : ∀ entry ∈ entries, entry.key ∉ seen) : firstByKey seen entries = entries := by
  induction entries generalizing seen with
  | nil => rfl
  | cons entry entries ih =>
    rw [List.map_cons, List.nodup_cons] at hkeys
    rw [firstByKey, if_neg (hseen entry List.mem_cons_self), ih hkeys.2 fun other hother => ?_]
    rw [List.mem_cons, not_or]
    exact ⟨fun h => hkeys.1 (h ▸ List.mem_map_of_mem hother),
      hseen other (List.mem_cons_of_mem _ hother)⟩

theorem newestSticky_ranked (data : OwrtHostData) : Ranked (newestSticky data) := by
  refine ⟨List.Pairwise.sublist (firstByKey_sublist _ _) ?_, (firstByKey_keys [] _).1⟩
  let newer (a b : StickyEntry) : Bool := decide (b.lastSeenTs ≤ a.lastSeenTs)
  have htrans : ∀ a b c, newer a b = true → newer b c = true → newer a c = true := by
    intro a b c hab hbc
    simp only [newer, decide_eq_true_eq] at *
    exact le_trans hbc hab
  have htotal : ∀ a b, (newer a b || newer b a) = true := by
    intro a b
    simp only [newer, Bool.or_eq_true, decide_eq_true_eq]
    exact le_total _ _
  simpa [newer] using List.pairwise_mergeSort htrans htotal data.stickyMap

theorem newestSticky_of_ranked (h : Ranked data.stickyMap) : newestSticky data = data.stickyMap := by
  have hle : data.stickyMap.Pairwise fun a b => decide (b.lastSeenTs ≤ a.lastSeenTs) = true := by
    simpa using h.newest
  rw [newestSticky, List.mergeSort_of_pairwise hle]
  exact firstByKey_eq_self h.keys fun _ _ => List.not_mem_nil

/-- Everything that trimming may not touch. -/
def SameCore (before after : OwrtHostData) : Prop :=
  after.batches = before.batches ∧ after.instances = before.instances ∧
    after.extraTables = before.extraTables ∧ after.nextSeq = before.nextSeq

theorem trim_sameCore (data : OwrtHostData) (rules : TrimRules) (aggressive : Bool) :
    SameCore data (trim data rules aggressive) := ⟨rfl, rfl, rfl, rfl⟩

/-- The document of a flush, before a write has failed. -/
def trimmed (data : OwrtHostData) (rules : TrimRules) : OwrtHostData := trim data rules false

/-- The document with its event and job rings cut down. -/
def historyCut (data : OwrtHostData) (rules : TrimRules) : OwrtHostData :=
  trim (trimmed data rules) rules true

/-- The document with both rings cut down and the hundred newest sticky entries. -/
def leastDocument (data : OwrtHostData) (rules : TrimRules) : OwrtHostData :=
  { historyCut data rules with stickyMap := (newestSticky data).take 100 }

theorem trimmed_ranked (data : OwrtHostData) (rules : TrimRules) :
    Ranked (trimmed data rules).stickyMap :=
  (newestSticky_ranked data).sublist (List.take_sublist _ _)

theorem historyCut_stickyMap (data : OwrtHostData) (rules : TrimRules) :
    (historyCut data rules).stickyMap = (newestSticky data).take (max 100 rules.stickyCap) := by
  change (newestSticky (trimmed data rules)).take _ = _
  rw [newestSticky_of_ranked (trimmed_ranked data rules)]
  exact List.take_take.trans (by rw [min_self])

theorem leastDocument_eq (data : OwrtHostData) (rules : TrimRules) :
    leastDocument data rules =
      (historyCut data rules).keepSticky (historyCut data rules).stickyMap 100 := by
  rw [OwrtHostData.keepSticky, historyCut_stickyMap, List.take_take, Nat.min_eq_left (by omega)]
  rfl

/-- The lengths that the loop tries. -/
def shrinkSteps (keep : Nat) : List Nat :=
  if _h : 100 < keep then keep :: shrinkSteps (shrink keep) else []
termination_by keep
decreasing_by exact shrink_lt _h

theorem shrinkSteps_of_le {keep : Nat} (h : keep ≤ 100) : shrinkSteps keep = [] := by
  rw [shrinkSteps, dif_neg (by omega)]

theorem shrinkSteps_of_lt {keep : Nat} (h : 100 < keep) :
    shrinkSteps keep = keep :: shrinkSteps (shrink keep) := by
  rw [shrinkSteps, dif_pos h]

theorem le_of_mem_shrinkSteps {keep step : Nat} (h : step ∈ shrinkSteps keep) : step ≤ keep := by
  induction keep using Nat.strong_induction_on with
  | _ keep ih =>
    by_cases hk : 100 < keep
    · rw [shrinkSteps_of_lt hk] at h
      rcases List.mem_cons.mp h with rfl | h
      · exact le_rfl
      · exact (ih _ (shrink_lt hk) h).trans (shrink_lt hk).le
    · rw [shrinkSteps_of_le (by omega)] at h
      cases h

theorem shrinkSteps_descending (keep : Nat) : (shrinkSteps keep).Pairwise (· > ·) := by
  induction keep using Nat.strong_induction_on with
  | _ keep ih =>
    by_cases hk : 100 < keep
    · rw [shrinkSteps_of_lt hk, List.pairwise_cons]
      refine ⟨fun step hstep => ?_, ih _ (shrink_lt hk)⟩
      exact lt_of_le_of_lt (le_of_mem_shrinkSteps hstep) (shrink_lt hk)
    · rw [shrinkSteps_of_le (by omega)]
      exact .nil

/-- The first hit in a descending list is the largest one. -/
theorem find?_descending {p : Nat → Bool} {l : List Nat} (h : l.Pairwise (· > ·)) {k : Nat} :
    l.find? p = some k ↔ k ∈ l ∧ p k = true ∧ ∀ j ∈ l, k < j → p j = false := by
  induction l with
  | nil => simp
  | cons x xs ih =>
    obtain ⟨hx, hxs⟩ := List.pairwise_cons.mp h
    cases hp : p x with
    | true =>
      rw [List.find?_cons_of_pos hp, Option.some.injEq]
      constructor
      · rintro rfl
        refine ⟨List.mem_cons_self, hp, fun j hj hlt => ?_⟩
        rcases List.mem_cons.mp hj with rfl | hj
        · omega
        · exact absurd (hx j hj) (by omega)
      · rintro ⟨hk, -, hmax⟩
        rcases List.mem_cons.mp hk with rfl | hk
        · rfl
        · rw [hmax x List.mem_cons_self (hx k hk)] at hp
          cases hp
    | false =>
      rw [List.find?_cons_of_neg (by simp [hp]), ih hxs]
      constructor
      · rintro ⟨hk, hpk, hmax⟩
        refine ⟨List.mem_cons_of_mem _ hk, hpk, fun j hj hlt => ?_⟩
        rcases List.mem_cons.mp hj with rfl | hj
        · exact hp
        · exact hmax j hj hlt
      · rintro ⟨hk, hpk, hmax⟩
        rcases List.mem_cons.mp hk with rfl | hk
        · rw [hp] at hpk
          cases hpk
        · exact ⟨hk, hpk, fun j hj => hmax j (List.mem_cons_of_mem _ hj)⟩

/-- Whether a length of the sticky list meets the target of the loop. -/
def meetsTarget (numberText : Nat → ℚ → Text) (data : OwrtHostData)
    (ranked : List StickyEntry) (keep : Nat) : Bool :=
  decide (serializedBytes numberText (data.keepSticky ranked keep) ≤ persistTargetBytes)

theorem fitLoop_eq (numberText : Nat → ℚ → Text) (data : OwrtHostData)
    (ranked : List StickyEntry) (keep : Nat) :
    fitLoop numberText data ranked keep = data.keepSticky ranked
      (((shrinkSteps keep).find? (meetsTarget numberText data ranked)).getD 100) := by
  induction keep using Nat.strong_induction_on with
  | _ keep ih =>
    rw [fitLoop]
    by_cases hk : 100 < keep
    · rw [dif_pos hk, shrinkSteps_of_lt hk]
      split
      · rename_i hfits
        rw [List.find?_cons_of_pos (by simp [meetsTarget, hfits])]
        rfl
      · rename_i hfits
        rw [List.find?_cons_of_neg (by simp [meetsTarget, hfits]), ih _ (shrink_lt hk)]
    · rw [dif_neg hk, shrinkSteps_of_le (by omega)]
      rfl

theorem keepSticky_of_length_le {keep : Nat} (h : data.stickyMap.length ≤ keep) :
    data.keepSticky data.stickyMap keep = data := by
  rw [OwrtHostData.keepSticky, List.take_of_length_le h]

/-- The length of the sticky list that `fitHostData` leaves. -/
def chosenLength (numberText : Nat → ℚ → Text) (data : OwrtHostData) : Nat :=
  ((shrinkSteps data.stickyMap.length).find?
    (meetsTarget numberText data data.stickyMap)).getD 100

/-- `fitHostData` of a document that `flush` has trimmed. -/
theorem fitHostData_trimmed (numberText : Nat → ℚ → Text) (data : OwrtHostData)
    (rules : TrimRules) :
    fitHostData numberText (trimmed data rules) rules =
      (historyCut data rules).keepSticky (historyCut data rules).stickyMap
        (chosenLength numberText (historyCut data rules)) := by
  have hranked : Ranked (historyCut data rules).stickyMap :=
    (newestSticky_ranked _).sublist (List.take_sublist _ _)
  have hfit : fitHostData numberText (trimmed data rules) rules =
      if serializedBytes numberText (historyCut data rules) ≤ persistTargetBytes then
        historyCut data rules
      else fitLoop numberText (historyCut data rules) (newestSticky (historyCut data rules))
        (newestSticky (historyCut data rules)).length := rfl
  rw [hfit, newestSticky_of_ranked hranked]
  generalize historyCut data rules = cut
  have hwhole : cut.keepSticky cut.stickyMap cut.stickyMap.length = cut :=
    keepSticky_of_length_le le_rfl
  split
  · rename_i hfits
    by_cases hn : 100 < cut.stickyMap.length
    · rw [chosenLength, shrinkSteps_of_lt hn,
        List.find?_cons_of_pos (by simpa [meetsTarget, hwhole] using hfits)]
      exact hwhole.symm
    · rw [chosenLength, shrinkSteps_of_le (by omega), List.find?_nil, Option.getD_none]
      exact (keepSticky_of_length_le (by omega)).symm
  · exact fitLoop_eq numberText cut _ _

/-- What the claim asks of a flush: the file holds the document that is now in the
cache, nothing is left to write, and the core records are as before. -/
def Persisted (numberText : Nat → ℚ → Text) (before : OwrtHostData) (after : HostStore) : Prop :=
  after.dirty = false ∧ ∃ written, after.cache = some written ∧
    after.file = some (stringify (numberText 10) written.toJson) ∧ SameCore before written

/-- The condition on the document: it fits as it is, or the first length of the sticky
list whose packed form meets the target also fits in the form that is written. -/
def FitsAsWritten (numberText : Nat → ℚ → Text) (data : OwrtHostData) (rules : TrimRules) : Prop :=
  let cut := historyCut data rules
  let steps := shrinkSteps cut.stickyMap.length
  writtenBytes numberText (trimmed data rules) ≤ moduleJsonMaxBytes ∨
    ∀ keep ∈ steps, meetsTarget numberText cut cut.stickyMap keep = true →
      (∀ longer ∈ steps, keep < longer → meetsTarget numberText cut cut.stickyMap longer = false) →
      writtenBytes numberText (cut.keepSticky cut.stickyMap keep) ≤ moduleJsonMaxBytes

theorem hostDataSet_of_le {store : HostStore} (h : writtenBytes numberText data ≤ moduleJsonMaxBytes) :
    store.hostDataSet numberText data = .ok { store with
      cache := some data, dirty := false, file := some (stringify (numberText 10) data.toJson) } := by
  rw [writtenBytes] at h
  simp [HostStore.hostDataSet, writeCappedJson, Nat.not_lt.mpr h, Except.map]

theorem hostDataSet_of_lt {store : HostStore} (h : moduleJsonMaxBytes < writtenBytes numberText data) :
    store.hostDataSet numberText data = .error (js "payload is larger than 512 KB") := by
  rw [writtenBytes] at h
  simp [HostStore.hostDataSet, writeCappedJson, h, Except.map]

/-- A flush of a dirty store, by the two writes. -/
theorem flush_eq {store : HostStore} {hostKey : Option Text} (hcache : store.cache = some data)
    (hdirty : store.dirty = true) (hkey : store.cachedFor = hostKey) :
    store.flush numberText hostKey rules =
      if writtenBytes numberText (trimmed data rules) ≤ moduleJsonMaxBytes then
        { store with
          cache := some (trimmed data rules), dirty := false
          file := some (stringify (numberText 10) (trimmed data rules).toJson) }
      else
        let fitted := fitHostData numberText (trimmed data rules) rules
        if writtenBytes numberText fitted ≤ moduleJsonMaxBytes then
          { store with
            cache := some fitted, dirty := false
            file := some (stringify (numberText 10) fitted.toJson) }
        else { store with cache := some fitted } := by
  have hguard : (!store.dirty || store.cachedFor != hostKey) = false := by simp [hdirty, hkey]
  have htrim : trim data rules false = trimmed data rules := rfl
  unfold HostStore.flush
  simp only [hcache, hguard, Bool.false_eq_true, if_false, htrim]
  by_cases hfirst : writtenBytes numberText (trimmed data rules) ≤ moduleJsonMaxBytes
  · rw [hostDataSet_of_le hfirst, if_pos hfirst]
  · rw [hostDataSet_of_lt (Nat.lt_of_not_le hfirst), if_neg hfirst]
    by_cases hsecond : writtenBytes numberText (fitHostData numberText (trimmed data rules) rules) ≤
        moduleJsonMaxBytes
    · simp only [hostDataSet_of_le hsecond, if_pos hsecond]
    · simp only [hostDataSet_of_lt (Nat.lt_of_not_le hsecond), if_neg hsecond]

/-- The text of a whole number. -/
def wholeNumberText (radix : Nat) (q : ℚ) : Text :=
  if q < 0 then 45 :: radixText radix q.num.natAbs else radixText radix q.num.natAbs

/-- A document with nothing but sticky entries. -/
def stickyOnly (entries : List StickyEntry) : OwrtHostData := {
  nextSeq := 1, batches := [], instances := [], extraTables := [], stickyMap := entries
  events := [], jobs := [] }

/-- The default rules. -/
def defaultRules : TrimRules := ⟨200, 6000⟩

def dirtyStore (data : OwrtHostData) : HostStore :=
  ⟨some data, some (js "192.168.1.1"), true, none⟩

/-- The address of a client of the crowded router. -/
def crowdedMac (i : Nat) : Text :=
  js "02:00:00:00:" ++ [hexDigit (i / 4096 % 16), hexDigit (i / 256 % 16), 58,
    hexDigit (i / 16 % 16), hexDigit (i % 16)]

def crowdedEntry (i : Nat) : StickyEntry :=
  ⟨js "b1", crowdedMac i, js "pd00001", 1700000000000⟩

def crowded (n : Nat) : OwrtHostData := stickyOnly ((List.range n).map crowdedEntry)

theorem hexDigit_injective : ∀ a < 16, ∀ b < 16, hexDigit a = hexDigit b → a = b := by decide

theorem crowdedMac_injective {i j : Nat} (hi : i < 65536) (hj : j < 65536)
    (h : crowdedMac i = crowdedMac j) : i = j := by
  have hdigits := List.append_cancel_left h
  simp only [List.cons.injEq, and_true] at hdigits
  obtain ⟨h1, h2, -, h3, h4⟩ := hdigits
  have h1 := hexDigit_injective _ (by omega) _ (by omega) h1
  have h2 := hexDigit_injective _ (by omega) _ (by omega) h2
  have h3 := hexDigit_injective _ (by omega) _ (by omega) h3
  have h4 := hexDigit_injective _ (by omega) _ (by omega) h4
  omega

theorem crowded_ranked {n : Nat} (hn : n ≤ 65536) : Ranked (crowded n).stickyMap := by
  constructor
  · exact List.pairwise_map.mpr (List.pairwise_of_forall fun _ _ => le_rfl)
  · rw [crowded, stickyOnly, List.map_map]
    refine List.Nodup.map_on (fun i hi j hj h => ?_) List.nodup_range
    rw [List.mem_range] at hi hj
    refine crowdedMac_injective (by omega) (by omega) ?_
    have hkey : js "b1" ++ 0 :: crowdedMac i = js "b1" ++ 0 :: crowdedMac j := h
    simpa using List.append_cancel_left hkey

theorem trimmed_crowded : trimmed (crowded 6000) defaultRules = crowded 6000 := by
  have hnewest := newestSticky_of_ranked (crowded_ranked (n := 6000) (by omega))
  have htake : (newestSticky (crowded 6000)).take 6000 = (crowded 6000).stickyMap := by
    rw [hnewest, List.take_of_length_le (by simp [crowded, stickyOnly])]
  rw [trimmed, trim]
  change { crowded 6000 with stickyMap := (newestSticky (crowded 6000)).take 6000 } = _
  rw [htake]

/-- The other fields of such a document, as they print. -/
def printedBefore : List Text := [js "\"version\": 1", js "\"nextSeq\": 1", js "\"batches\": []",
  js "\"instances\": []", js "\"extraTables\": []"]
def printedAfter : List Text := [js "\"events\": []", js "\"jobs\": []"]

theorem stringify_stickyOnly (key : String) (items : List Json) :
    stringify (wholeNumberText 10) ((stickyOnly entries).document key items) =
      bracketed 123 125 0 (printedBefore ++
        [quote (js key) ++ js ": " ++ pretty (wholeNumberText 10) 1 (.arr items)] ++
        printedAfter) := by
  have hbefore : prettyFields (wholeNumberText 10) 1 [(js "version", jsonNumber 1),
      (js "nextSeq", jsonNumber 1), (js "batches", .arr []), (js "instances", .arr []),
      (js "extraTables", .arr [])] = printedBefore := by decide +kernel
  have hafter : prettyFields (wholeNumberText 10) 1 [(js "events", .arr []), (js "jobs", .arr [])] =
      printedAfter := by decide +kernel
  have hfields : (stickyOnly entries).document key items = .obj ([(js "version", jsonNumber 1),
      (js "nextSeq", jsonNumber 1), (js "batches", .arr []), (js "instances", .arr []),
      (js "extraTables", .arr [])] ++ [(js key, .arr items)] ++
      [(js "events", .arr []), (js "jobs", .arr [])]) := rfl
  rw [hfields, stringify, pretty_obj, prettyFields_append, prettyFields_append, hbefore, hafter]
  rfl

/-- The length of a document with nothing but sticky entries of one length. -/
theorem utf8Length_stickyOnly {key : String} {items : List Json} {c : Nat}
    (hkey : IsPlain (js key)) (hitems : items ≠ [])
    (hitem : ∀ item ∈ items, IsAscii (pretty (wholeNumberText 10) 2 item) ∧
      (pretty (wholeNumberText 10) 2 item).length = c) :
    utf8Length (stringify (wholeNumberText 10) ((stickyOnly entries).document key items)) =
      (c + 6) * items.length + (js key).length + 133 := by
  have hparts : ∀ part ∈ items.map (pretty (wholeNumberText 10) 2), IsAscii part := by
    intro part hpart
    obtain ⟨item, hmem, rfl⟩ := List.mem_map.mp hpart
    exact (hitem item hmem).1
  have hlengths : (items.map (pretty (wholeNumberText 10) 2)).map List.length =
      items.map fun _ => c := by
    rw [List.map_map]
    exact List.map_congr_left fun item hmem => (hitem item hmem).2
  have hlist : (pretty (wholeNumberText 10) 1 (.arr items)).length =
      (c + 6) * items.length + 4 := by
    rw [pretty_arr, length_bracketed 91 93 1 (by simpa using hitems), hlengths, List.map_const',
      List.sum_replicate_nat, List.length_map]
    ring
  have hascii : IsAscii (pretty (wholeNumberText 10) 1 (.arr items)) := by
    rw [pretty_arr]
    exact ascii_bracketed (by omega) (by omega) hparts
  have hbefore : (printedBefore.map List.length).sum = 69 ∧ ∀ part ∈ printedBefore, IsAscii part := by
    decide
  have hafter : (printedAfter.map List.length).sum = 22 ∧ ∀ part ∈ printedAfter, IsAscii part := by
    decide
  rw [stringify_stickyOnly, utf8Length_of_ascii, length_bracketed 123 125 0 (by simp)]
  · simp only [List.map_append, List.sum_append, hbefore.1, hafter.1, List.map_cons, List.map_nil,
      List.sum_cons, List.sum_nil, List.length_append, length_quote hkey, hlist]
    have hcolon : (js ": ").length = 2 := by decide
    have hcount : printedBefore.length = 5 ∧ printedAfter.length = 2 := by decide
    rw [hcolon, hcount.1, hcount.2]
    simp only [List.length_cons, List.length_nil]
    ring
  · refine ascii_bracketed (by omega) (by omega) fun part hpart => ?_
    rcases List.mem_append.mp hpart with hpart | hpart
    · rcases List.mem_append.mp hpart with hpart | hpart
      · exact hbefore.2 part hpart
      · rw [List.mem_singleton.mp hpart]
        exact ((ascii_quote hkey).append (by decide)).append hascii
    · exact hafter.2 part hpart

theorem plain_crowdedMac (i : Nat) : IsPlain (crowdedMac i) := by
  have hdigit : ∀ d < 16, IsPlain [hexDigit d] := by decide
  intro u hu
  rcases List.mem_append.mp hu with hu | hu
  · exact (by decide : IsPlain (js "02:00:00:00:")) u hu
  · simp only [List.mem_cons, List.not_mem_nil, or_false] at hu
    rcases hu with rfl | rfl | rfl | rfl | rfl
    · exact hdigit _ (Nat.mod_lt _ (by omega)) _ List.mem_cons_self
    · exact hdigit _ (Nat.mod_lt _ (by omega)) _ List.mem_cons_self
    · omega
    · exact hdigit _ (Nat.mod_lt _ (by omega)) _ List.mem_cons_self
    · exact hdigit _ (Nat.mod_lt _ (by omega)) _ List.mem_cons_self

/-- An entry of the crowded router as it is written takes 83 bytes. -/
theorem written_crowdedEntry (i : Nat) :
    IsAscii (pretty (wholeNumberText 10) 2 (crowdedEntry i).toJson) ∧
      (pretty (wholeNumberText 10) 2 (crowdedEntry i).toJson).length = 83 := by
  have hinstance : quote (js "b1") = js "\"b1\"" := by decide +kernel
  have hwan : quote (js "pd00001") = js "\"pd00001\"" := by decide +kernel
  have htime : wholeNumberText 10 1700000000000 = js "1700000000000" := by decide +kernel
  have heq : pretty (wholeNumberText 10) 2 (crowdedEntry i).toJson =
      bracketed 91 93 2 [js "\"b1\"", quote (crowdedMac i), js "\"pd00001\"",
        js "1700000000000"] := by
    rw [← hinstance, ← hwan, ← htime]
    simp [StickyEntry.toJson, crowdedEntry, pretty, prettyItems, jsonNumber, Number.finite?]
  have hmac : (quote (crowdedMac i)).length = 19 := by
    rw [length_quote (plain_crowdedMac i)]
    rfl
  rw [heq]
  constructor
  · refine ascii_bracketed (by omega) (by omega) fun part hpart => ?_
    simp only [List.mem_cons, List.not_mem_nil, or_false] at hpart
    rcases hpart with rfl | rfl | rfl | rfl
    · decide
    · exact ascii_quote (plain_crowdedMac i)
    · decide
    · decide
  · rw [length_bracketed 91 93 2 (by simp)]
    simp only [List.map_cons, List.map_nil, List.sum_cons, List.sum_nil, hmac, List.length_cons,
      List.length_nil]
    decide

/-- The same entry packed takes 34. -/
theorem packed_crowdedEntry (i : Nat) :
    IsAscii (pretty (wholeNumberText 10) 2 (.str (packSticky wholeNumberText (crowdedEntry i)))) ∧
      (pretty (wholeNumberText 10) 2
        (.str (packSticky wholeNumberText (crowdedEntry i)))).length = 34 := by
  have hmac : IsPlain ((crowdedMac i).filter (· != 58)) :=
    fun u hu => plain_crowdedMac i u (List.mem_filter.mp hu).1
  have hdigit : ∀ d < 16, (hexDigit d != 58) = true := by decide
  have hlength : ((crowdedMac i).filter (· != 58)).length = 12 := by
    have hhead : (js "02:00:00:00:").filter (· != 58) = js "02000000" := by decide
    rw [crowdedMac, List.filter_append, hhead]
    simp only [List.filter_cons, List.filter_nil, hdigit _ (Nat.mod_lt _ (by omega)), if_true,
      bne_self_eq_false, Bool.false_eq_true, if_false]
    rfl
  have htime : wholeNumberText 36 (max 0 (Number.truncRat 1700000000000)) = js "loyw3v28" := by
    decide +kernel
  have hpacked : packSticky wholeNumberText (crowdedEntry i) =
      js "b1|" ++ (crowdedMac i).filter (· != 58) ++ js "|pd00001|loyw3v28" := by
    have hstart : js "b1" ++ js "|" = js "b1|" := by decide
    have hend : js "|" ++ (js "pd00001" ++ (js "|" ++ js "loyw3v28")) = js "|pd00001|loyw3v28" := by
      decide
    rw [← hstart, ← hend, ← htime]
    simp only [packSticky, crowdedEntry, List.append_assoc]
  rw [pretty, hpacked]
  have hplain : IsPlain (js "b1|" ++ (crowdedMac i).filter (· != 58) ++ js "|pd00001|loyw3v28") :=
    ((by decide : IsPlain (js "b1|")).append hmac).append (by decide)
  refine ⟨ascii_quote hplain, ?_⟩
  rw [length_quote hplain, List.length_append, List.length_append, hlength]
  decide

theorem writtenBytes_crowded {n : Nat} (hn : 0 < n) :
    writtenBytes wholeNumberText (crowded n) = 89 * n + 142 := by
  have hitems : (crowded n).stickyMap.map StickyEntry.toJson ≠ [] := by
    simp [crowded, stickyOnly]
    omega
  have hkey : IsPlain (js "stickyMap") ∧ (js "stickyMap").length = 9 := by decide
  refine (utf8Length_stickyOnly (c := 83) hkey.1 hitems fun item hitem => ?_).trans ?_
  · simp only [crowded, stickyOnly, List.map_map, List.mem_map, Function.comp_apply] at hitem
    obtain ⟨i, -, rfl⟩ := hitem
    exact written_crowdedEntry i
  · rw [hkey.2]
    simp [crowded, stickyOnly]

theorem serializedBytes_crowded {n : Nat} (hn : 0 < n) :
    serializedBytes wholeNumberText (crowded n) = 40 * n + 145 := by
  have hitems : (crowded n).stickyMap.map
      (fun entry => Json.str (packSticky wholeNumberText entry)) ≠ [] := by
    simp [crowded, stickyOnly]
    omega
  have hkey : IsPlain (js "stickyPacked") ∧ (js "stickyPacked").length = 12 := by decide
  refine (utf8Length_stickyOnly (c := 34) hkey.1 hitems fun item hitem => ?_).trans ?_
  · simp only [crowded, stickyOnly, List.map_map, List.mem_map, Function.comp_apply] at hitem
    obtain ⟨i, -, rfl⟩ := hitem
    exact packed_crowdedEntry i
  · rw [hkey.2]
    simp [crowded, stickyOnly]

end BoredManager.OpenWrt.Store
