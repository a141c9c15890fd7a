import BoredManager.Js.NumberText
import BoredManager.Server.HistoryQuery
import Mathlib.Algebra.BigOperators.Group.List.Basic
import Mathlib.Data.List.Pairwise

/-! The limits of the stored history: hour buckets that are over go first, then the oldest ones until
the folder fits its cap. Only files whose name is a stream and an hour key are ever touched. -/
namespace BoredManager.Server.History
open BoredManager.Js
open BoredManager.Shared (HISTORY_STREAM_PATTERN)

/-- The history folder: the folders of the hosts with the bytes of their files, and the rest. -/
structure HistoryRoot where
  folders : OrderedMap Text (OrderedMap Text Nat)
  others : List Text

structure HistoryLimits where
  retentionHours : ℚ
  maxStorageMB : ℚ

structure Entry where
  path : File
  bucket : Int
  bytes : Nat
deriving DecidableEq

/-- `Number(digits)` -/
def digitsNumber (digits : Text) : Int := Number.continueValue 10 digits 0

def hourKeyToMs (key : Text) : Int :=
  dateUTC (digitsNumber (key.take 4)) (digitsNumber ((key.drop 4).take 2) - 1)
    (digitsNumber ((key.drop 6).take 2)) (digitsNumber ((key.drop 8).take 2))

/-- `/^([a-z][a-z0-9-]*)-(\d{10})\.jsonl$/`, with its second group. -/
def FILE_RE (name : Text) : Option Text :=
  let stream := name.take (name.length - 17)
  let rest := name.drop (name.length - 17)
  let key := (rest.drop 1).take 10
  if HISTORY_STREAM_PATTERN stream && rest.head? == some 45 && key.all isDigit &&
    rest.drop 11 == js ".jsonl" then some key else none

/-- The history files of all hosts. -/
def HistoryRoot.entries (root : HistoryRoot) : List Entry :=
  root.folders.entries.flatMap fun host => host.2.entries.filterMap fun file =>
    (FILE_RE file.1).map fun key => ⟨⟨host.1, file.1⟩, hourKeyToMs key, file.2⟩

/-- `rmSync(path, { force: true })` -/
def HistoryRoot.rm (root : HistoryRoot) (path : File) : HistoryRoot where
  folders :=
    { entries := root.folders.entries.map fun host =>
        if host.1 = path.host then (host.1, host.2.erase path.name) else host
      nodup := by
        rw [List.map_map, List.map_congr_left (g := Prod.fst)]
        · exact root.folders.nodup
        · intro host _
          simp only [Function.comp]
          split_ifs <;> rfl }
  others := root.others

/-- The disk and the running total of its history. -/
structure Rotation where
  disk : HistoryRoot
  total : Int

def Rotation.remove (s : Rotation) (e : Entry) : Rotation := ⟨s.disk.rm e.path, s.total - e.bytes⟩

/-- The bucket covers one hour, so it is kept until its end is out of range. -/
def expired (cutoff : ℚ) (e : Entry) : Bool := decide ((e.bucket : ℚ) + hourMs < cutoff)

def expire (cutoff : ℚ) (s : Rotation × List Entry) (e : Entry) : Rotation × List Entry :=
  if expired cutoff e then (s.1.remove e, s.2) else (s.1, s.2 ++ [e])

def removeOldest (cap : ℚ) : List Entry → Rotation → Rotation
  | [], s => s
  | e :: rest, s => if (s.total : ℚ) ≤ cap then s else removeOldest cap rest (s.remove e)

/-- The bytes of a file in a host's folder. -/
def HistoryRoot.size? (root : HistoryRoot) (path : File) : Option Nat :=
  (root.folders.get? path.host).bind (·.get? path.name)

def totalBytes (entries : List Entry) : Int := (entries.map fun e => (e.bytes : Int)).sum

def HistoryLimits.cutoff (limits : HistoryLimits) (now : Int) : ℚ := now - limits.retentionHours * 3600000

def HistoryLimits.cap (limits : HistoryLimits) : ℚ := max 1 limits.maxStorageMB * 1024 * 1024

/-- Drop hour buckets that are too old or push the folder over its cap. -/
def HistoryRoot.enforceLimits (root : HistoryRoot) (limits : HistoryLimits) (now : Int) : HistoryRoot :=
  let entries := root.entries
  let s := entries.foldl (expire (limits.cutoff now)) (⟨root, totalBytes entries⟩, [])
  (removeOldest limits.cap (s.2.mergeSort fun a b => decide (a.bucket ≤ b.bucket)) s.1).disk

variable {root : HistoryRoot} {s : Rotation} {e : Entry} {cutoff cap : ℚ}

/-! ### File names -/

theorem FILE_RE_eq_some {name key : Text} : FILE_RE name = some key ↔
    ∃ stream, HISTORY_STREAM_PATTERN stream = true ∧ key.length = 10 ∧
      (∀ u ∈ key, isDigit u = true) ∧ name = stream ++ (45 :: key ++ js ".jsonl") := by
  constructor
  · intro h
    rw [FILE_RE, Option.ite_none_right_eq_some] at h
    obtain ⟨hgood, hkey⟩ := h
    simp only [Bool.and_eq_true, beq_iff_eq, List.all_eq_true] at hgood
    obtain ⟨⟨⟨hstream, hdash⟩, hdigits⟩, htail⟩ := hgood
    have hname := List.take_append_drop (name.length - 17) name
    cases hrest : name.drop (name.length - 17) with
    | nil => simp [hrest] at hdash
    | cons u rest =>
      rw [hrest] at hdash hdigits htail hkey hname
      rw [List.drop_succ_cons] at htail
      rw [List.drop_succ_cons, List.drop_zero] at hdigits hkey
      have hlength := congrArg List.length htail
      rw [List.length_drop, show (js ".jsonl").length = 6 by decide] at hlength
      obtain rfl : u = 45 := Option.some.inj hdash
      obtain rfl : rest.take 10 = key := Option.some.inj hkey
      refine ⟨_, hstream, ?_, hdigits, ?_⟩
      · rw [List.length_take]
        omega
      · rw [← htail, List.cons_append, List.take_append_drop]
        exact hname.symm
  · rintro ⟨stream, hstream, hlength, hdigits, rfl⟩
    have hsuffix : (45 :: key ++ js ".jsonl").length = 17 := by
      rw [List.length_append, List.length_cons, hlength]
      rfl
    rw [FILE_RE, List.length_append, hsuffix, Nat.add_sub_cancel, List.take_left, List.drop_left]
    have htake : (key ++ js ".jsonl").take 10 = key := by rw [← hlength, List.take_left]
    have hdrop : (key ++ js ".jsonl").drop 10 = js ".jsonl" := by rw [← hlength, List.drop_left]
    simp [htake, hdrop, hstream, List.all_eq_true.mpr hdigits]

theorem continueValue_lt {digits : Text} (h : ∀ u ∈ digits, isDigit u = true) (a : Nat) :
    Number.continueValue 10 digits a < (a + 1) * 10 ^ digits.length := by
  induction digits generalizing a with
  | nil => simp [Number.continueValue]
  | cons u digits ih =>
    have hu := h u List.mem_cons_self
    have hvalue : (Number.digitValue u).getD 0 < 10 := by
      rw [Number.digitValue, if_pos hu]
      simp only [isDigit, Bool.and_eq_true, decide_eq_true_eq] at hu
      simp only [Option.getD_some]
      omega
    calc Number.continueValue 10 (u :: digits) a
        = Number.continueValue 10 digits (a * 10 + (Number.digitValue u).getD 0) := rfl
      _ < (a * 10 + (Number.digitValue u).getD 0 + 1) * 10 ^ digits.length :=
          ih (fun v hv => h v (List.mem_cons_of_mem u hv)) _
      _ ≤ ((a + 1) * 10) * 10 ^ digits.length := Nat.mul_le_mul_right _ (by omega)
      _ = (a + 1) * 10 ^ (u :: digits).length := by rw [List.length_cons, Nat.pow_succ']; ring

theorem length_decimal_year {year : Nat} (hlow : 1000 ≤ year) (hhigh : year < 10000) :
    (decimal year).length = 4 := by
  have hle : (decimal year).length ≤ 4 := Number.length_radixText (by omega) (by omega)
  have hlt := continueValue_lt (Number.isDigit_decimal year) 0
  rw [Number.continueValue_decimal] at hlt
  by_contra hne
  have hpow : 10 ^ (decimal year).length ≤ 10 ^ 3 := Nat.pow_le_pow_right (by omega) (by omega)
  omega

theorem digitsNumber_two {n : Nat} (h : n < 100) : digitsNumber (padZero 2 (decimal n)) = n :=
  (by decide : ∀ n < 100, digitsNumber (padZero 2 (decimal n)) = n) n h

theorem utcDate_year (days : Nat) : 1970 ≤ (utcDate days).year := by
  obtain ⟨n, hyear, -⟩ := findYear_spec (days / 365 + 1) 1970 days
  change 1970 ≤ (findYear (days / 365 + 1) 1970 days).1
  omega

theorem key_slices {y m d h : Text} (hy : y.length = 4) (hm : m.length = 2) (hd : d.length = 2)
    (hh : h.length = 2) : (y ++ m ++ d ++ h).take 4 = y ∧ ((y ++ m ++ d ++ h).drop 4).take 2 = m ∧
      ((y ++ m ++ d ++ h).drop 6).take 2 = d ∧ ((y ++ m ++ d ++ h).drop 8).take 2 = h := by
  have h6 : (y ++ m).length = 6 := by rw [List.length_append, hy, hm]
  have h8 : (y ++ m ++ d).length = 8 := by rw [List.length_append, h6, hd]
  refine ⟨?_, ?_, ?_, ?_⟩
  · rw [List.append_assoc, List.append_assoc, List.take_left' hy]
  · rw [List.append_assoc, List.append_assoc, List.drop_left' hy, List.take_left' hm]
  · rw [List.append_assoc, List.drop_left' h6, List.take_left' hd]
  · rw [List.drop_left' h8, List.take_of_length_le hh.le]

/-- The file of a sample is read back as its hour, as long as the year has four digits. -/
theorem hourKeyToMs_hourKey (t : Nat) (hyear : (utcDate (t / 86400000)).year < 10000) :
    hourKeyToMs (hourKey t) = (t / hourMs * hourMs : Nat) := by
  have hlow := utcDate_year (t / 86400000)
  have hlast := utcDate_lt (t / 86400000)
  have hback := dateUTC_utcDate (t / 86400000) (t / hourMs % 24)
  have hkey : hourKey t = decimal (utcDate (t / 86400000)).year ++
      padZero 2 (decimal (utcDate (t / 86400000)).month) ++
      padZero 2 (decimal (utcDate (t / 86400000)).day) ++ padZero 2 (decimal (t / hourMs % 24)) := rfl
  generalize utcDate (t / 86400000) = d at *
  have hfour : (decimal d.year).length = 4 := length_decimal_year (by omega) hyear
  have htwo : ∀ n < 100, (padZero 2 (decimal n)).length = 2 := fun n hn => by rw [padZero_two hn]; rfl
  have hmonth := htwo d.month (by omega)
  have hday := htwo d.day (by omega)
  have hhour := htwo (t / hourMs % 24) (by omega)
  have hyearNumber : digitsNumber (decimal d.year) = d.year := by
    rw [digitsNumber, Number.continueValue_decimal]
  obtain ⟨h1, h2, h3, h4⟩ := key_slices hfour hmonth hday hhour
  rw [hourKeyToMs, hkey, h1, h2, h3, h4, hyearNumber, digitsNumber_two (by omega),
    digitsNumber_two (by omega), digitsNumber_two (by omega), hback]
  simp only [hourMs]
  omega

/-- The file of a sample is a history file of the sample's hour. -/
theorem FILE_RE_fileOf {stream : Text} (hstream : HISTORY_STREAM_PATTERN stream = true) (host : Text)
    (t : Nat) (hyear : (utcDate (t / 86400000)).year < 10000) :
    FILE_RE (fileOf host stream t).name = some (hourKey t) := by
  have hlow := utcDate_year (t / 86400000)
  have hlast := utcDate_lt (t / 86400000)
  refine FILE_RE_eq_some.mpr ⟨stream, hstream, ?_, isDigit_hourKey t, by simp [fileOf, js, units]⟩
  rw [hourKey]
  dsimp only
  rw [padZero_two (by omega), padZero_two (by omega), padZero_two (by omega)]
  simp [length_decimal_year (show 1000 ≤ (utcDate (t / 86400000)).year by omega) hyear]

/-! ### Removals -/

theorem distinct_paths (root : HistoryRoot) : root.entries.Pairwise fun e f => e.path ≠ f.path := by
  have hhosts := List.pairwise_map.mp root.folders.nodup
  refine List.pairwise_flatMap.mpr ⟨fun host _ => ?_, hhosts.imp fun hne e he f hf heq => ?_⟩
  · refine List.pairwise_filterMap.mpr ((List.pairwise_map.mp host.2.nodup).imp ?_)
    intro file other hne e he f hf heq
    obtain ⟨_, -, rfl⟩ := Option.map_eq_some_iff.mp he
    obtain ⟨_, -, rfl⟩ := Option.map_eq_some_iff.mp hf
    exact hne (congrArg File.name heq)
  · obtain ⟨_, -, he⟩ := List.mem_filterMap.mp he
    obtain ⟨_, -, hf⟩ := List.mem_filterMap.mp hf
    obtain ⟨_, -, rfl⟩ := Option.map_eq_some_iff.mp he
    obtain ⟨_, -, rfl⟩ := Option.map_eq_some_iff.mp hf
    exact hne (congrArg File.host heq)

theorem entries_rm (root : HistoryRoot) (path : File) :
    (root.rm path).entries = root.entries.filter fun e => decide (e.path ≠ path) := by
  rw [HistoryRoot.entries, HistoryRoot.entries, List.filter_flatMap, HistoryRoot.rm, List.flatMap_map]
  refine List.flatMap_congr fun host _ => ?_
  by_cases hhost : host.1 = path.host
  · rw [if_pos hhost, List.filter_filterMap]
    dsimp only
    rw [OrderedMap.erase, List.filterMap_filter]
    refine List.filterMap_congr fun file _ => ?_
    cases FILE_RE file.1 with
    | none => simp
    | some key =>
      by_cases hname : file.1 = path.name
      · have hsame : (⟨host.1, file.1⟩ : File) = path := by rw [hhost, hname]
        rw [if_neg (by simp [hname]), Option.map_some, Option.filter_some, if_neg (by simp [hsame])]
      · have hother : (⟨host.1, file.1⟩ : File) ≠ path := fun heq => hname (congrArg File.name heq)
        rw [if_pos (by simp [hname]), Option.map_some, Option.filter_some, if_pos (by simp [hother])]
  · rw [if_neg hhost]
    refine (List.filter_eq_self.mpr fun e he => ?_).symm
    obtain ⟨_, -, he⟩ := List.mem_filterMap.mp he
    obtain ⟨_, -, rfl⟩ := Option.map_eq_some_iff.mp he
    exact decide_eq_true fun heq => hhost (congrArg File.host heq)

/-- What is no history file is the same. -/
structure SameForeign (before after : HistoryRoot) : Prop where
  others : after.others = before.others
  hosts : after.folders.keys = before.folders.keys
  files : ∀ path, FILE_RE path.name = none → after.size? path = before.size? path

theorem SameForeign.refl (root : HistoryRoot) : SameForeign root root := ⟨rfl, rfl, fun _ _ => rfl⟩

theorem SameForeign.trans {a b c : HistoryRoot} (h : SameForeign a b) (h' : SameForeign b c) :
    SameForeign a c :=
  ⟨h'.others.trans h.others, h'.hosts.trans h.hosts, fun path hpath =>
    (h'.files path hpath).trans (h.files path hpath)⟩

theorem get?_rm (root : HistoryRoot) (path : File) (host : Text) :
    (root.rm path).folders.get? host = (root.folders.get? host).map fun files =>
      if host = path.host then files.erase path.name else files := by
  refine Option.ext fun files => ?_
  rw [OrderedMap.get?_eq_some, Option.map_eq_some_iff]
  simp only [OrderedMap.get?_eq_some, HistoryRoot.rm, List.mem_map]
  constructor
  · rintro ⟨⟨name, old⟩, hmem, heq⟩
    split_ifs at heq with hhost
    · cases heq
      exact ⟨old, hmem, if_pos hhost⟩
    · cases heq
      exact ⟨files, hmem, if_neg hhost⟩
  · rintro ⟨old, hmem, rfl⟩
    refine ⟨(host, old), hmem, ?_⟩
    split_ifs <;> rfl

theorem sameForeign_rm {path : File} (hpath : (FILE_RE path.name).isSome = true) (root : HistoryRoot) :
    SameForeign root (root.rm path) := by
  refine ⟨rfl, ?_, fun other hother => ?_⟩
  · rw [OrderedMap.keys, OrderedMap.keys, HistoryRoot.rm, List.map_map]
    refine List.map_congr_left fun host _ => ?_
    simp only [Function.comp]
    split_ifs <;> rfl
  · have hname : other.name ≠ path.name := fun heq => by
      rw [heq] at hother
      simp [hother] at hpath
    rw [HistoryRoot.size?, HistoryRoot.size?, get?_rm]
    cases root.folders.get? other.host with
    | none => rfl
    | some files =>
      simp only [Option.map_some, Option.bind_some]
      split_ifs
      · rw [OrderedMap.get?_erase, if_neg hname]
      · rfl

theorem isSome_of_mem {e : Entry} (h : e ∈ root.entries) : (FILE_RE e.path.name).isSome = true := by
  obtain ⟨host, -, h⟩ := List.mem_flatMap.mp h
  obtain ⟨file, -, h⟩ := List.mem_filterMap.mp h
  obtain ⟨key, hkey, rfl⟩ := Option.map_eq_some_iff.mp h
  exact Option.isSome_of_eq_some hkey

theorem mem_rm (h : e ∈ root.entries) {f : Entry} :
    f ∈ (root.rm e.path).entries ↔ f ∈ root.entries ∧ f ≠ e := by
  rw [entries_rm, List.mem_filter, decide_eq_true_eq]
  refine and_congr_right fun hf => not_congr ⟨fun heq => ?_, fun heq => heq ▸ rfl⟩
  exact List.inj_on_of_nodup_map (List.pairwise_map.mpr (distinct_paths root)) hf h heq

theorem totalBytes_filter {entries : List Entry} (hpaths : entries.Pairwise fun e f => e.path ≠ f.path)
    (h : e ∈ entries) : totalBytes (entries.filter fun f => decide (f.path ≠ e.path)) =
      totalBytes entries - e.bytes := by
  induction entries with
  | nil => cases h
  | cons f entries ih =>
    obtain ⟨hf, hrest⟩ := List.pairwise_cons.mp hpaths
    obtain rfl | hmem := List.mem_cons.mp h
    · have hself : entries.filter (fun f => decide (f.path ≠ e.path)) = entries :=
        List.filter_eq_self.mpr fun g hg => decide_eq_true (Ne.symm (hf g hg))
      rw [List.filter_cons_of_neg (by simp), hself]
      simp [totalBytes]
    · rw [List.filter_cons_of_pos (by simpa using hf e hmem)]
      have := ih hrest hmem
      simp only [totalBytes, List.map_cons, List.sum_cons] at this ⊢
      omega

/-! ### The two phases -/

/-- The disk of a rotation that counts right, some entries removed from where it began. -/
structure Rotation.Follows (before : HistoryRoot) (removed : Entry → Prop) (s : Rotation) : Prop where
  entries : ∀ e, e ∈ s.disk.entries ↔ e ∈ before.entries ∧ ¬ removed e
  total : s.total = totalBytes s.disk.entries
  foreign : SameForeign before s.disk

theorem Rotation.Follows.remove {before : HistoryRoot} {removed : Entry → Prop}
    (h : s.Follows before removed) (he : e ∈ before.entries) (hkept : ¬ removed e) :
    (s.remove e).Follows before fun f => removed f ∨ f = e := by
  have hmem : e ∈ s.disk.entries := (h.entries e).mpr ⟨he, hkept⟩
  refine ⟨fun f => ?_, ?_, h.foreign.trans (sameForeign_rm (isSome_of_mem hmem) s.disk)⟩
  · rw [Rotation.remove, mem_rm hmem, h.entries, not_or, and_assoc]
  · rw [Rotation.remove, entries_rm, totalBytes_filter (distinct_paths s.disk) hmem, h.total]

theorem Rotation.Follows.congr {before : HistoryRoot} {removed gone : Entry → Prop}
    (h : s.Follows before removed) (hsame : ∀ e ∈ before.entries, removed e ↔ gone e) :
    s.Follows before gone :=
  ⟨fun e => (h.entries e).trans (and_congr_right fun he => not_congr (hsame e he)), h.total, h.foreign⟩

/-- The first phase: the expired entries go, the others are listed. -/
theorem expire_foldl {before : HistoryRoot} {removed : Entry → Prop} (cutoff : ℚ)
    (l survivors : List Entry)
    (h : s.Follows before removed) (hmem : ∀ e ∈ l, e ∈ before.entries) (hkept : ∀ e ∈ l, ¬ removed e)
    (hnodup : l.Nodup) :
    (l.foldl (expire cutoff) (s, survivors)).1.Follows before
        (fun e => removed e ∨ e ∈ l ∧ expired cutoff e = true) ∧
      (l.foldl (expire cutoff) (s, survivors)).2 = survivors ++ l.filter fun e => !expired cutoff e := by
  induction l generalizing s survivors removed with
  | nil => exact ⟨h.congr fun e _ => by simp, by simp⟩
  | cons e l ih =>
    obtain ⟨hnew, hnodup⟩ := List.nodup_cons.mp hnodup
    have hrest : ∀ f ∈ l, f ∈ before.entries := fun f hf => hmem f (List.mem_cons_of_mem e hf)
    rw [List.foldl_cons, expire]
    dsimp only
    by_cases hexpired : expired cutoff e = true
    · rw [if_pos hexpired, List.filter_cons_of_neg (by simp [hexpired])]
      have hstep := h.remove (hmem e List.mem_cons_self) (hkept e List.mem_cons_self)
      have hlater : ∀ f ∈ l, ¬ (removed f ∨ f = e) := fun f hf hor =>
        hor.elim (hkept f (List.mem_cons_of_mem e hf)) fun heq => hnew (heq ▸ hf)
      obtain ⟨hfollows, hlist⟩ := ih survivors hstep hrest hlater hnodup
      refine ⟨hfollows.congr fun f _ => ?_, hlist⟩
      constructor
      · rintro ((hf | rfl) | ⟨hf, hfexpired⟩)
        · exact .inl hf
        · exact .inr ⟨List.mem_cons_self, hexpired⟩
        · exact .inr ⟨List.mem_cons_of_mem e hf, hfexpired⟩
      · rintro (hf | ⟨hf, hfexpired⟩)
        · exact .inl (.inl hf)
        · exact (List.mem_cons.mp hf).elim (fun heq => .inl (.inr heq)) fun hf => .inr ⟨hf, hfexpired⟩
    · rw [if_neg hexpired, List.filter_cons_of_pos (by simpa using hexpired)]
      obtain ⟨hfollows, hlist⟩ := ih (survivors ++ [e]) h hrest
        (fun f hf => hkept f (List.mem_cons_of_mem e hf)) hnodup
      refine ⟨hfollows.congr fun f _ => or_congr_right ?_, by simpa using hlist⟩
      refine ⟨fun hf => ⟨List.mem_cons_of_mem e hf.1, hf.2⟩, fun hf => ⟨?_, hf.2⟩⟩
      exact (List.mem_cons.mp hf.1).resolve_left fun heq => hexpired (heq ▸ hf.2)

/-- The second phase: a first part of the list goes, and the last of it was needed. -/
theorem removeOldest_spec {before : HistoryRoot} {removed : Entry → Prop} (cap : ℚ) (l : List Entry)
    (h : s.Follows before removed) (hmem : ∀ e ∈ l, e ∈ before.entries) (hkept : ∀ e ∈ l, ¬ removed e)
    (hnodup : l.Nodup) :
    ∃ gone rest, l = gone ++ rest ∧
      (removeOldest cap l s).Follows before (fun e => removed e ∨ e ∈ gone) ∧
      (((removeOldest cap l s).total : ℚ) ≤ cap ∨ rest = []) ∧
      (gone = [] → removeOldest cap l s = s) ∧
      ∀ last ∈ gone.getLast?, cap < (removeOldest cap l s).total + last.bytes := by
  induction l generalizing s removed with
  | nil => exact ⟨[], [], rfl, h.congr fun e _ => by simp, .inr rfl, fun _ => rfl, by simp⟩
  | cons e l ih =>
    obtain ⟨hnew, hnodup⟩ := List.nodup_cons.mp hnodup
    rw [removeOldest]
    by_cases hfits : (s.total : ℚ) ≤ cap
    · rw [if_pos hfits]
      exact ⟨[], e :: l, rfl, h.congr fun e _ => by simp, .inl hfits, fun _ => rfl, by simp⟩
    rw [if_neg hfits]
    have hstep := h.remove (hmem e List.mem_cons_self) (hkept e List.mem_cons_self)
    obtain ⟨gone, rest, rfl, hfollows, hend, hnone, hlast⟩ := ih hstep
      (fun f hf => hmem f (List.mem_cons_of_mem e hf))
      (fun f hf hor => hor.elim (hkept f (List.mem_cons_of_mem e hf)) fun heq => hnew (heq ▸ hf)) hnodup
    refine ⟨e :: gone, rest, rfl, hfollows.congr fun f _ => ?_, hend, (by simp),
      fun last hin => ?_⟩
    · rw [List.mem_cons, or_assoc]
    · cases gone with
      | cons f gone => exact hlast last (by simpa using hin)
      | nil =>
        obtain rfl : e = last := by simpa using hin
        have htotal : ((s.remove e).total : ℚ) + e.bytes = s.total := by
          rw [Rotation.remove]
          push_cast
          ring
        rw [hnone rfl, htotal]
        exact not_le.mp hfits

/-! ### The limits -/

/-- What is left when the limits were enforced. -/
structure Limited (limits : HistoryLimits) (now : Int) (before after : HistoryRoot) : Prop where
  kept : ∀ e ∈ after.entries, e ∈ before.entries
  fresh : ∀ e ∈ after.entries, (now : ℚ) - limits.retentionHours * 3600000 ≤ e.bucket + 3600000
  capped : (totalBytes after.entries : ℚ) ≤ max 1 limits.maxStorageMB * 1024 * 1024
  foreign : SameForeign before after
  /-- What the cap removes is not younger than what stays. -/
  oldest : ∀ e ∈ before.entries, expired (limits.cutoff now) e = false → e ∉ after.entries →
    ∀ f ∈ after.entries, e.bucket ≤ f.bucket
  /-- With the last file that the cap removes the history exceeds the cap. -/
  minimal : ∀ e ∈ before.entries, expired (limits.cutoff now) e = false → e ∉ after.entries →
    ∃ last ∈ before.entries, expired (limits.cutoff now) last = false ∧ last ∉ after.entries ∧
      e.bucket ≤ last.bucket ∧
      max 1 limits.maxStorageMB * 1024 * 1024 < (totalBytes after.entries : ℚ) + last.bytes

theorem limits_are_enforced (root : HistoryRoot) (limits : HistoryLimits) (now : Int) :
    Limited limits now root (root.enforceLimits limits now) := by
  have hnodup : root.entries.Nodup := (distinct_paths root).imp fun hne heq => hne (congrArg _ heq)
  have hstart : (⟨root, totalBytes root.entries⟩ : Rotation).Follows root fun _ => False :=
    ⟨fun e => by simp, rfl, .refl root⟩
  obtain ⟨hfirst, hlist⟩ := expire_foldl (limits.cutoff now) root.entries [] hstart
    (fun _ he => he) (fun _ _ => id) hnodup
  rw [HistoryRoot.enforceLimits]
  generalize root.entries.foldl (expire (limits.cutoff now)) _ = s at hfirst hlist
  rw [hlist, List.nil_append]
  generalize hsorted : (root.entries.filter fun e => !expired (limits.cutoff now) e).mergeSort
    (fun a b => decide (a.bucket ≤ b.bucket)) = sorted
  have hperm : sorted.Perm (root.entries.filter fun e => !expired (limits.cutoff now) e) :=
    hsorted ▸ List.mergeSort_perm _ _
  have hmem : ∀ e, e ∈ sorted ↔ e ∈ root.entries ∧ expired (limits.cutoff now) e = false := fun e => by
    rw [hperm.mem_iff, List.mem_filter, Bool.not_eq_true']
  have hordered : sorted.Pairwise fun a b => decide (a.bucket ≤ b.bucket) = true := by
    rw [← hsorted]
    refine List.pairwise_mergeSort (fun a b c hab hbc => ?_) (fun a b => ?_) _
    · rw [decide_eq_true_eq] at hab hbc ⊢
      exact hab.trans hbc
    · rw [Bool.or_eq_true, decide_eq_true_eq, decide_eq_true_eq]
      exact le_total _ _
  have hnodupSorted : sorted.Nodup := hperm.nodup_iff.mpr (hnodup.filter _)
  obtain ⟨gone, rest, rfl, hafter, hend, -, hlast⟩ := removeOldest_spec limits.cap sorted hfirst
    (fun e he => ((hmem e).mp he).1) (fun e he => by simp [((hmem e).mp he).2]) hnodupSorted
  generalize removeOldest limits.cap (gone ++ rest) s.1 = t at hafter hend hlast
  obtain ⟨-, -, hapart⟩ := List.nodup_append.mp hnodupSorted
  have hrest : ∀ e, e ∈ t.disk.entries ↔ e ∈ rest := by
    intro e
    rw [hafter.entries, not_or, false_or, not_and]
    constructor
    · rintro ⟨hroot, hfresh, hgone⟩
      have hin := (hmem e).mpr ⟨hroot, Bool.eq_false_iff.mpr (hfresh hroot)⟩
      exact (List.mem_append.mp hin).resolve_left hgone
    · intro he
      obtain ⟨hroot, hfresh⟩ := (hmem e).mp (List.mem_append_right gone he)
      exact ⟨hroot, fun _ => by simp [hfresh], fun hgone => hapart e hgone e he rfl⟩
  -- What the cap removed is the first part of the sorted list.
  have hgone : ∀ e ∈ root.entries, expired (limits.cutoff now) e = false → e ∉ t.disk.entries →
      e ∈ gone := fun e he hfresh hnot =>
    (List.mem_append.mp ((hmem e).mpr ⟨he, hfresh⟩)).resolve_right fun hin => hnot ((hrest e).mpr hin)
  have hbytes : t.total = totalBytes t.disk.entries := hafter.total
  refine ⟨fun e he => ((hafter.entries e).mp he).1, fun e he => ?_, ?_, hafter.foreign, ?_, ?_⟩
  · have hfresh := ((hmem e).mp (List.mem_append_right gone ((hrest e).mp he))).2
    rw [expired, decide_eq_false_iff_not, not_lt, HistoryLimits.cutoff, hourMs] at hfresh
    exact_mod_cast hfresh
  · rw [← hbytes]
    obtain hfits | rfl := hend
    · exact hfits
    · have hnone : t.disk.entries = [] := List.eq_nil_iff_forall_not_mem.mpr fun e he => by
        simpa using (hrest e).mp he
      rw [hbytes, hnone]
      have hone : (1 : ℚ) ≤ max 1 limits.maxStorageMB := le_max_left _ _
      simp only [totalBytes, List.map_nil, List.sum_nil, Int.cast_zero]
      linarith
  · intro e he hfresh hnot f hf
    have := (List.pairwise_append.mp hordered).2.2 e (hgone e he hfresh hnot) f ((hrest f).mp hf)
    exact of_decide_eq_true this
  · intro e he hfresh hnot
    have hegone := hgone e he hfresh hnot
    have hne : gone ≠ [] := List.ne_nil_of_mem hegone
    have hlastMem : gone.getLast hne ∈ gone := List.getLast_mem hne
    obtain ⟨hroot, hlastFresh⟩ := (hmem _).mp (List.mem_append_left rest hlastMem)
    refine ⟨gone.getLast hne, hroot, hlastFresh, fun hin => ?_, ?_, ?_⟩
    · exact hapart _ hlastMem _ ((hrest _).mp hin) rfl
    · have hfront := (List.pairwise_append.mp hordered).1
      exact of_decide_eq_true (hfront.rel_getLast_of_rel_getLast_getLast hegone (decide_eq_true le_rfl))
    · rw [← hbytes]
      exact hlast _ (List.getLast?_eq_some_getLast hne)

/-! ### Samples within the retention -/

/-- The size of a history file is in its entry. -/
theorem size?_eq_some {path : File} {key : Text} (hkey : FILE_RE path.name = some key) {bytes : Nat} :
    root.size? path = some bytes ↔ ⟨path, hourKeyToMs key, bytes⟩ ∈ root.entries := by
  rw [HistoryRoot.size?, Option.bind_eq_some_iff, HistoryRoot.entries, List.mem_flatMap]
  constructor
  · rintro ⟨files, hhost, hfile⟩
    refine ⟨(path.host, files), OrderedMap.get?_eq_some.mp hhost, List.mem_filterMap.mpr
      ⟨(path.name, bytes), OrderedMap.get?_eq_some.mp hfile, ?_⟩⟩
    rw [hkey]
    rfl
  · rintro ⟨⟨host, files⟩, hhost, hmem⟩
    obtain ⟨⟨name, size⟩, hfile, hentry⟩ := List.mem_filterMap.mp hmem
    obtain ⟨_, -, hentry⟩ := Option.map_eq_some_iff.mp hentry
    rw [Entry.mk.injEq] at hentry
    obtain ⟨rfl, -, rfl⟩ := hentry
    exact ⟨files, OrderedMap.get?_eq_some.mpr hhost, OrderedMap.get?_eq_some.mpr hfile⟩

def HistoryRoot.young (root : HistoryRoot) (limits : HistoryLimits) (now : Int) : List Entry :=
  root.entries.filter fun e => !expired (limits.cutoff now) e

/-- Where the young entries fit the cap together, only the expired ones go. -/
theorem mem_enforceLimits {limits : HistoryLimits} {now : Int}
    (hfits : (totalBytes (root.young limits now) : ℚ) ≤ limits.cap) :
    e ∈ (root.enforceLimits limits now).entries ↔
      e ∈ root.entries ∧ expired (limits.cutoff now) e = false := by
  have hnodup : ∀ root : HistoryRoot, root.entries.Nodup := fun root =>
    (distinct_paths root).imp fun hne heq => hne (congrArg _ heq)
  have hstart : (⟨root, totalBytes root.entries⟩ : Rotation).Follows root fun _ => False :=
    ⟨fun e => by simp, rfl, .refl root⟩
  obtain ⟨hfirst, -⟩ := expire_foldl (limits.cutoff now) root.entries [] hstart
    (fun _ he => he) (fun _ _ => id) (hnodup root)
  rw [HistoryRoot.enforceLimits]
  generalize root.entries.foldl (expire (limits.cutoff now)) _ = s at hfirst
  have hmem : ∀ e, e ∈ s.1.disk.entries ↔ e ∈ root.entries ∧ expired (limits.cutoff now) e = false := by
    intro e
    rw [hfirst.entries, false_or, not_and, Bool.not_eq_true]
    exact and_congr_right fun he => ⟨fun h => h he, fun h _ => h⟩
  have hperm : s.1.disk.entries.Perm (root.young limits now) := by
    refine (List.perm_ext_iff_of_nodup (hnodup _) ((hnodup root).filter _)).mpr fun e => ?_
    rw [hmem, List.mem_filter, Bool.not_eq_true']
  have htotal : s.1.total = totalBytes (root.young limits now) := by
    rw [hfirst.total, totalBytes, totalBytes, (hperm.map _).sum_eq]
  -- The second phase has nothing to do.
  have hstay : ∀ l, removeOldest limits.cap l s.1 = s.1 := fun l => by
    cases l with
    | nil => rfl
    | cons f l => rw [removeOldest, if_pos (by rw [htotal]; exact hfits)]
  rw [hstay]
  exact hmem e

/-- No file is removed for its age or for the cap that holds a sample within the retention, as long as
the history within the retention fits the cap. -/
theorem recent_sample_stays {stream : Text} (hstream : HISTORY_STREAM_PATTERN stream = true)
    (host : Text) {t : Nat} (hyear : (utcDate (t / 86400000)).year < 10000) {limits : HistoryLimits}
    {now : Int} (hrecent : limits.cutoff now ≤ t)
    (hfits : (totalBytes (root.young limits now) : ℚ) ≤ limits.cap) :
    (root.enforceLimits limits now).size? (fileOf host stream t) = root.size? (fileOf host stream t) := by
  refine Option.ext fun bytes => ?_
  have hkey := FILE_RE_fileOf hstream host t hyear
  rw [size?_eq_some hkey, size?_eq_some hkey, mem_enforceLimits hfits, and_iff_left]
  have hhour : t < t / hourMs * hourMs + hourMs := by
    rw [hourMs]
    omega
  have hend : (t : ℚ) < (t / hourMs * hourMs : Nat) + hourMs := by exact_mod_cast hhour
  rw [expired, hourKeyToMs_hourKey t hyear, decide_eq_false_iff_not, not_lt]
  exact hrecent.trans (by push_cast at hend ⊢; exact hend.le)

/-- A file of the hour that ends within the retention, beside an older one. -/
def twoHours : HistoryRoot where
  folders := ⟨[(js "local", ⟨[((fileOf [] (js "cpu") 3600000).name, 10), ((fileOf [] (js "cpu") 0).name, 10)],
    by decide +kernel⟩)], by decide +kernel⟩
  others := []

theorem recent_sample_stays_hour : (twoHours.enforceLimits ⟨1, 1⟩ 9000000).size?
    (fileOf (js "local") (js "cpu") 5400000) = twoHours.size? (fileOf (js "local") (js "cpu") 5400000) :=
  recent_sample_stays (by decide) _ (by decide +kernel) (by decide +kernel) (by decide +kernel)

end BoredManager.Server.History
