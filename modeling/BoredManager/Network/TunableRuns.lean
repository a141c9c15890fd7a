import BoredManager.Network.Tunables
import BoredManager.Machine.Runs
import BoredManager.Shared.Sections
import Mathlib.Data.List.Induction

/-! The managed sysctl file over any interleaving of writes: what a write builds is read back as
it was meant, and the file says what was applied as long as no write builds on what the file does
not say. -/
namespace BoredManager.Network
open BoredManager.Js BoredManager.Shared BoredManager.Machine

variable {s line file key value : Text} {entry : Text × Text} {entries : List (Text × Text)}
  {persisted : OrderedMap Text Text} {w : World}

/-! ### Lines -/

/-- A key and a value that a line can hold. -/
structure IsEntry (entry : Text × Text) : Prop where
  ne_nil : entry.1 ≠ []
  trimmed : trim entry.1 = entry.1
  no_equals : 61 ∉ entry.1
  no_comment : entry.1.head? ≠ some 35
  one_line : 10 ∉ entry.1
  value : IsValue entry.2

theorem normalizeValue_idem (value : Text) : normalizeValue (normalizeValue value) = normalizeValue value := by
  have hsingle : Single false (normalizeValue value) := (single_collapseFrom false value).trimmed
  rw [normalizeValue, collapse, collapseFrom_of_single hsingle, normalizeValue, trim_trim]

theorem IsValue.trim_eq (h : IsValue value) : trim value = value := by
  rw [← h.2, normalizeValue, trim_trim]

theorem IsValue.one_line (h : IsValue value) : 10 ∉ value := by
  intro hmem
  rw [← h.2] at hmem
  obtain heq | ⟨-, hspace⟩ := mem_collapseFrom (mem_trim hmem)
  · cases heq
  · cases hspace

/-- A text that is not blank has a value. -/
theorem isValue_normalizeValue (h : trim value ≠ []) : IsValue (normalizeValue (trim value)) := by
  refine ⟨?_, normalizeValue_idem _⟩
  obtain ⟨u, rest, heq⟩ := List.exists_cons_of_ne_nil h
  have hspace : isSpace u = false := head?_trim_not_space (s := value) (by rw [heq]; rfl)
  have hmem : u ∈ collapse (trim value) :=
    mem_collapseFrom_of_mem (by rw [heq]; exact List.mem_cons_self) hspace false
  obtain hblank | hmem := mem_trim_or_space hmem
  · rw [hspace] at hblank
    cases hblank
  · exact List.ne_nil_of_mem hmem

/-- A text that begins with no blank begins as before once it is trimmed. -/
theorem head?_trim_of_head {u : Nat} (h : s.head? = some u) (hspace : isSpace u = false) :
    (trim s).head? = some u := by
  obtain ⟨t, rfl⟩ : ∃ t, s = u :: t := by
    cases s with
    | nil => cases h
    | cons v t => cases h; exact ⟨t, rfl⟩
  have hdropped : (u :: t).dropWhile isSpace = u :: t := List.dropWhile_cons_of_neg (by simp [hspace])
  have hprefix : trim (u :: t) <+: u :: t := by
    have hsuffix := List.dropWhile_suffix (l := (u :: t).reverse) isSpace
    have hrev := List.reverse_prefix.mpr hsuffix
    rw [List.reverse_reverse] at hrev
    rwa [trim, hdropped]
  have hmem : u ∈ trim (u :: t) := (mem_trim_or_space List.mem_cons_self).resolve_left (by simp [hspace])
  obtain ⟨v, rest, heq⟩ := List.exists_cons_of_ne_nil (List.ne_nil_of_mem hmem)
  rw [heq] at hprefix ⊢
  obtain ⟨tail, htail⟩ := hprefix
  injection htail with hhead
  rw [hhead]
  rfl

theorem isEntry_of_keyValue (h : keyValue line = some entry) (hline : 10 ∉ line) : IsEntry entry := by
  simp only [keyValue] at h
  rw [Option.ite_none_left_eq_some, not_or] at h
  obtain ⟨⟨hne, hcomment⟩, h⟩ := h
  split at h
  · cases h
  · rw [Option.ite_none_left_eq_some, not_or] at h
    rename_i u rest hdrop
    obtain ⟨⟨hkey, hvalue⟩, h⟩ := h
    cases h
    have hmem : ∀ v ∈ (trim line).takeWhile (fun u => decide (u ≠ 61)), v ∈ trim line := fun v hv =>
      (List.takeWhile_sublist _).mem hv
    obtain ⟨v, t, hcons⟩ := List.exists_cons_of_ne_nil hkey
    have hhead : (trim line).head? = some v := by
      have hsplit := List.takeWhile_append_dropWhile (p := fun u : Nat => decide (u ≠ 61)) (l := trim line)
      rw [← hsplit, hcons]
      rfl
    have hspace : isSpace v = false := head?_trim_not_space (s := line) (by rw [hhead]; rfl)
    have htrimmed := head?_trim_of_head (s := (trim line).takeWhile fun u => decide (u ≠ 61)) (u := v)
      (by rw [hcons]; rfl) hspace
    refine ⟨fun hnil => ?_, trim_trim _, fun hequals => ?_, fun hhash => ?_, fun hbreak => ?_,
      isValue_normalizeValue hvalue⟩
    · have hempty : trim ((trim line).takeWhile fun u => decide (u ≠ 61)) = [] := hnil
      rw [hempty] at htrimmed
      cases htrimmed
    · have hfalse := List.mem_takeWhile_imp (mem_trim hequals)
      simp at hfalse
    · exact hcomment (hhead.trans (htrimmed.symm.trans hhash))
    · exact hline (mem_trim (hmem 10 (mem_trim hbreak)))

/-- A setting is read back as it was written. -/
theorem keyValue_settingLine (h : IsEntry entry) : keyValue (settingLine entry) = some entry := by
  obtain ⟨key, value⟩ := entry
  obtain ⟨hne, htrimmed, hequals, hcomment, -, hvalue⟩ := h
  dsimp only at hne htrimmed hequals hcomment hvalue
  obtain ⟨u, rest, rfl⟩ := List.exists_cons_of_ne_nil hne
  have hline : settingLine (u :: rest, value) = (u :: rest ++ [32]) ++ 61 :: 32 :: value := by
    rw [settingLine, List.append_assoc, List.append_assoc]
    rfl
  have hhead : isSpace u = false := head?_trim_not_space (s := u :: rest) (by rw [htrimmed]; rfl)
  have hsame : trim (settingLine (u :: rest, value)) = (u :: rest ++ [32]) ++ 61 :: 32 :: value := by
    rw [hline]
    refine trim_of_ends (fun v hv => ?_) fun v hv => ?_
    · cases hv
      exact hhead
    · refine getLast?_trim_not_space (s := value) ?_
      obtain ⟨last, hlast⟩ : ∃ last, value.getLast? = some last := by
        cases hlast : value.getLast? with
        | none => exact absurd (List.getLast?_eq_none_iff.mp hlast) hvalue.1
        | some last => exact ⟨last, rfl⟩
      rw [List.getLast?_append] at hv
      rw [hvalue.trim_eq, hlast]
      simpa [List.getLast?_cons, hlast] using hv
  have hfree : ∀ v ∈ u :: rest ++ [32], decide (v ≠ 61) = true := by
    intro v hv
    obtain hv | hv := List.mem_append.mp hv
    · exact decide_eq_true fun heq => hequals (heq ▸ hv)
    · rw [List.mem_singleton.mp hv]
      rfl
  have htake : ((u :: rest ++ [32]) ++ 61 :: 32 :: value).takeWhile (fun x => decide (x ≠ 61)) =
      u :: rest ++ [32] := by
    rw [List.takeWhile_append_of_pos hfree, List.takeWhile_cons_of_neg (by decide), List.append_nil]
  have hdrop : ((u :: rest ++ [32]) ++ 61 :: 32 :: value).dropWhile (fun x => decide (x ≠ 61)) =
      61 :: 32 :: value := by
    rw [List.dropWhile_append_of_pos hfree, List.dropWhile_cons_of_neg (by decide)]
  have hvalueTrim : trim (32 :: value) = value := (trim_cons_space rfl).trans hvalue.trim_eq
  have hstart : ¬((u :: rest ++ [32]) ++ 61 :: 32 :: value = [] ∨
      ((u :: rest ++ [32]) ++ 61 :: 32 :: value).head? = some 35) := by
    simpa using hcomment
  have hrest : ¬(u :: rest ++ [32] = [] ∨ value = []) := by simpa using hvalue.1
  simp only [keyValue, hsame, if_neg hstart, hdrop, htake, hvalueTrim, if_neg hrest, hvalue.2]
  rw [trim_append_space htrimmed rfl]

/-! ### The section of the file -/

/-- Two states of the split that will say the same of a section. -/
structure Alike (name : Text) (a b : SplitState) : Prop where
  current : a.current = b.current
  buf : a.buf = b.buf
  sections : a.current = name ∨ a.sections.get? name = b.sections.get? name

theorem Alike.flush {name : Text} {a b : SplitState} (h : Alike name a b) (hname : name ≠ []) :
    a.flush.sections.get? name = b.flush.sections.get? name := by
  simp only [SplitState.flush, ← h.current, ← h.buf]
  split_ifs with hnone
  · exact h.sections.resolve_left fun heq => hname (heq.symm.trans hnone)
  · rw [OrderedMap.get?_set, OrderedMap.get?_set]
    split_ifs with hsame
    · rfl
    · exact h.sections.resolve_left fun heq => hsame heq.symm

theorem Alike.step {name : Text} {a b : SplitState} (h : Alike name a b) (hname : name ≠ [])
    (line : Text) : Alike name (a.step line) (b.step line) := by
  rw [SplitState.step, SplitState.step]
  cases markerName line with
  | none => exact ⟨h.current, by rw [h.buf], h.sections⟩
  | some other => exact ⟨rfl, rfl, .inr (h.flush hname)⟩

theorem Alike.foldl {name : Text} {a b : SplitState} (h : Alike name a b) (hname : name ≠ [])
    (lines : List Text) :
    Alike name (lines.foldl SplitState.step a) (lines.foldl SplitState.step b) := by
  induction lines generalizing a b with
  | nil => exact h
  | cons line lines ih => exact ih (h.step hname line)

theorem splitOn_join_append (before : List Text) (s t : Text) :
    (join [10] (before ++ [s, t])).splitOn 10 =
      before.flatMap (List.splitOn 10) ++ (s.splitOn 10 ++ t.splitOn 10) := by
  induction before with
  | nil =>
    have hjoin : join [10] ([] ++ [s, t]) = s ++ 10 :: t := by simp [join]
    rw [hjoin, List.splitOn_append_cons_self]
    rfl
  | cons line before ih =>
    have hjoin : join [10] (line :: before ++ [s, t]) = line ++ 10 :: join [10] (before ++ [s, t]) := by
      rw [join, List.cons_append, List.intercalate_cons_of_ne_nil (by simp), List.append_assoc]
      rfl
    rw [hjoin, List.splitOn_append_cons_self, ih, List.flatMap_cons, List.append_assoc]

/-- What the probe says of the file does not depend on the other sections. -/
theorem persistedOf_probeOutput (before : List Text) (file : Text) :
    persistedOf (probeOutput before file) = contents file := by
  have hname : js "PERSISTED" ≠ [] := by decide
  have hmarker : (marker (js "PERSISTED")).splitOn 10 = [marker (js "PERSISTED")] := by decide +kernel
  have hread : markerName (marker (js "PERSISTED")) = some (js "PERSISTED") := by decide +kernel
  have halike : ∀ a b : SplitState, Alike (js "PERSISTED") (a.step (marker (js "PERSISTED")))
      (b.step (marker (js "PERSISTED"))) := by
    intro a b
    rw [SplitState.step, SplitState.step, hread]
    exact ⟨rfl, rfl, .inl rfl⟩
  have hsections : ∀ before, (splitSections (probeOutput before file)).get? (js "PERSISTED") =
      (splitSections (probeOutput [] file)).get? (js "PERSISTED") := by
    intro before
    rw [splitSections, splitSections, ← List.splitOn_eq_splitOnP, ← List.splitOn_eq_splitOnP, probeOutput,
      probeOutput, splitOn_join_append, splitOn_join_append, hmarker, List.foldl_append, List.foldl_append]
    exact ((halike _ _).foldl hname _).flush hname
  rw [contents, persistedOf, persistedOf, hsections before]

/-- A file without a marker line is read as a whole. -/
theorem contents_eq (h : ∀ line ∈ file.splitOn 10, markerName line = none) :
    contents file = parseKeyValues file := by
  have hmarker : (marker (js "PERSISTED")).splitOn 10 = [marker (js "PERSISTED")] := by decide +kernel
  have hread : markerName (marker (js "PERSISTED")) = some (js "PERSISTED") := by decide +kernel
  have hsection : (splitSections (probeOutput [] file)).get? (js "PERSISTED") = some file := by
    rw [splitSections, ← List.splitOn_eq_splitOnP, probeOutput, splitOn_join_append, hmarker,
      List.flatMap_nil, List.nil_append, List.foldl_append, foldl_no_marker h, List.foldl_cons,
      List.foldl_nil, SplitState.step, hread]
    simp only [SplitState.flush, List.nil_append]
    rw [if_neg (by decide), OrderedMap.get?_set, if_pos rfl]
    exact congrArg some (List.intercalate_splitOn 10)
  rw [contents, persistedOf, hsection, Option.getD_some]

/-! ### The file of a write -/

theorem not_mem_padZero {u width n : Nat} (hu : isDigit u = false) : u ∉ padZero width (decimal n) := by
  intro h
  obtain h | h := List.mem_append.mp h
  · rw [List.eq_of_mem_replicate h] at hu
    cases hu
  · rw [isDigit_of_mem_decimal h] at hu
    cases hu

theorem one_line_isoText (now : Nat) : 10 ∉ isoText now := by
  have hpad : ∀ {width n : Nat}, 10 ∉ padZero width (decimal n) := not_mem_padZero rfl
  have hlit : 10 ∉ js "-" ∧ 10 ∉ js "T" ∧ 10 ∉ js ":" ∧ 10 ∉ js "." ∧ 10 ∉ js "Z" := by decide
  simp only [isoText, List.mem_append, not_or, hpad, hlit, not_false_eq_true, and_self]

theorem one_line_settingLine (h : IsEntry entry) : 10 ∉ settingLine entry := by
  have hlit : 10 ∉ js " = " := by decide
  simp only [settingLine, List.mem_append, not_or]
  exact ⟨⟨h.one_line, hlit⟩, h.value.one_line⟩

theorem markerName_settingLine (h : IsEntry entry) : markerName (settingLine entry) = none := by
  obtain ⟨u, rest, hkey⟩ := List.exists_cons_of_ne_nil h.ne_nil
  refine markerName_of_head (u := u) ?_ fun heq => h.no_equals ?_
  · rw [settingLine, hkey]
    rfl
  · rw [hkey, heq]
    exact List.mem_cons_self

theorem splitOn_fileBody (now : Nat) (h : ∀ e ∈ entries, IsEntry e) :
    (fileBody now entries).splitOn 10 =
      [SYSCTL_HEADER, js "# Written " ++ isoText now] ++ entries.map settingLine ++ [[]] := by
  refine List.splitOn_intercalate 10 (fun line hline => ?_) (by simp)
  simp only [List.mem_append, List.mem_cons, List.mem_map, List.not_mem_nil, or_false] at hline
  obtain ((rfl | rfl) | ⟨e, he, rfl⟩) | rfl := hline
  · decide +kernel
  · intro hmem
    obtain hmem | hmem := List.mem_append.mp hmem
    · exact absurd hmem (by decide)
    · exact one_line_isoText now hmem
  · exact one_line_settingLine (h e he)
  · exact List.not_mem_nil

theorem keyValue_comment (s : Text) (h : s.head? = some 35) : keyValue s = none := by
  have htrimmed := head?_trim_of_head h (by decide)
  simp only [keyValue]
  rw [if_pos (.inr htrimmed)]

theorem filterMap_settingLine (h : ∀ e ∈ entries, IsEntry e) :
    (entries.map settingLine).filterMap keyValue = entries := by
  induction entries with
  | nil => rfl
  | cons e entries ih =>
    rw [List.map_cons, List.filterMap_cons, keyValue_settingLine (h e List.mem_cons_self)]
    exact congrArg (e :: ·) (ih fun e he => h e (List.mem_cons_of_mem _ he))

/-- The file that a write builds says what it was built from. -/
theorem contents_fileBody (now : Nat) (h : ∀ e ∈ entries, IsEntry e) :
    contents (fileBody now entries) = .ofList entries := by
  have hlines := splitOn_fileBody now h
  have hmarkers : ∀ line ∈ (fileBody now entries).splitOn 10, markerName line = none := by
    intro line hline
    rw [hlines] at hline
    simp only [List.mem_append, List.mem_cons, List.mem_map, List.not_mem_nil, or_false] at hline
    obtain ((rfl | rfl) | ⟨e, he, rfl⟩) | rfl := hline
    · exact markerName_of_head (u := 35) rfl (by decide)
    · exact markerName_of_head (u := 35) rfl (by decide)
    · exact markerName_settingLine (h e he)
    · rfl
  have hheader : keyValue SYSCTL_HEADER = none := keyValue_comment _ rfl
  have hwritten : keyValue (js "# Written " ++ isoText now) = none := keyValue_comment _ rfl
  have hempty : keyValue [] = none := rfl
  rw [contents_eq hmarkers, parseKeyValues, hlines, List.filterMap_append, List.filterMap_append,
    filterMap_settingLine h]
  simp only [List.filterMap_cons, List.filterMap_nil, hheader, hwritten, hempty, List.nil_append,
    List.append_nil]

/-- Whatever file is read, what it says can be written again. -/
theorem isEntry_contents (file : Text) : ∀ e ∈ (contents file).entries, IsEntry e := by
  intro e he
  have hget := OrderedMap.get?_eq_some.mpr he
  have hmem := OrderedMap.mem_of_get?_ofList hget
  obtain ⟨line, hline, hentry⟩ := List.mem_filterMap.mp hmem
  refine isEntry_of_keyValue hentry fun hbreak => ?_
  rw [List.splitOn_eq_splitOnP] at hline
  have hfalse := (not_mem_of_mem_splitOnP hline hbreak).2
  cases hfalse

theorem isEntry_changes (changes : Changes) : ∀ e ∈ changes.entries, IsEntry e := by
  have hkeys : ∀ key ∈ TUNABLE_KEYS, key ≠ [] ∧ trim key = key ∧ 61 ∉ key ∧ key.head? ≠ some 35 ∧ 10 ∉ key := by
    decide +kernel
  intro e he
  obtain ⟨hne, htrim, hequals, hcomment, hline⟩ := hkeys e.1 (changes.keys e he)
  exact ⟨hne, htrim, hequals, hcomment, hline, changes.values e he⟩

theorem isEntry_merged {changes : List (Text × Text)} (hpersisted : ∀ e ∈ persisted.entries, IsEntry e)
    (hchanges : ∀ e ∈ changes, IsEntry e) : ∀ e ∈ (merged persisted changes).entries, IsEntry e := by
  induction changes generalizing persisted with
  | nil => exact hpersisted
  | cons c changes ih =>
    refine ih (fun e he => ?_) fun e he => hchanges e (List.mem_cons_of_mem _ he)
    obtain rfl | ⟨hold, -⟩ := OrderedMap.mem_entries_set.mp he
    · exact hchanges c List.mem_cons_self
    · exact hpersisted e hold

/-! ### Writes -/

theorem get?_merged_of_not_mem {changes : List (Text × Text)} (h : key ∉ changes.map Prod.fst) :
    (merged persisted changes).get? key = persisted.get? key := by
  have hnone : (changes.reverse.find? fun e => decide (e.1 = key)) = none := by
    rw [List.find?_eq_none]
    intro e he heq
    exact h (List.mem_map.mpr ⟨e, List.mem_reverse.mp he, of_decide_eq_true heq⟩)
  rw [merged, OrderedMap.get?_foldl_set, hnone]
  rfl

theorem get?_merged_of_mem {changes : List (Text × Text)} (h : (key, value) ∈ changes)
    (hnodup : (changes.map Prod.fst).Nodup) : (merged persisted changes).get? key = some value := by
  have hfound : (changes.reverse.find? fun e => decide (e.1 = key)).isSome = true :=
    List.find?_isSome.mpr ⟨_, List.mem_reverse.mpr h, decide_eq_true rfl⟩
  obtain ⟨e, he⟩ := Option.isSome_iff_exists.mp hfound
  have hkey : e.1 = key := by simpa using List.find?_some he
  have hsame : e = (key, value) :=
    List.inj_on_of_nodup_map hnodup (List.mem_reverse.mp (List.mem_of_find?_eq_some he)) h hkey
  rw [merged, OrderedMap.get?_foldl_set, he, hsame]
  rfl

/-- What a write has read agrees with the file where it changes nothing, and what the kernel has
refused of it is in the file already. -/
def Grounded (file : Text) (write : Write) (persisted : OrderedMap Text Text) : Prop :=
  (∀ key, key ∉ write.changes.entries.map Prod.fst → persisted.get? key = (contents file).get? key) ∧
    ∀ c ∈ write.changes.entries, c ∉ write.accepted → (contents file).get? c.1 = some c.2

/-- What a write on its way carries. -/
structure Fit (write : Write) : Prop where
  accepted : (write.accepted ++ write.todo).Sublist write.changes.entries
  entries : ∀ persisted, write.persisted = some persisted → ∀ e ∈ persisted.entries, IsEntry e

/-- The file that a write builds says what the kernel accepted on top of the file before exactly
if the write is grounded. -/
theorem grounded_iff {write : Write} (hfit : Fit write) (hpersisted : write.persisted = some persisted)
    (file : Text) (now : Nat) :
    (∀ key, (contents (fileBody now (merged persisted write.changes.entries).entries)).get? key =
      (merged (contents file) write.accepted).get? key) ↔ Grounded file write persisted := by
  have hnodup := write.changes.nodup
  have haccepted : write.accepted.Sublist write.changes.entries :=
    (List.sublist_append_left _ _).trans hfit.accepted
  have hkeys := haccepted.map Prod.fst
  have hentries := isEntry_merged (hfit.entries persisted hpersisted) (isEntry_changes write.changes)
  have hread : ∀ key, (contents (fileBody now (merged persisted write.changes.entries).entries)).get? key =
      (merged persisted write.changes.entries).get? key := by
    intro key
    refine Option.ext fun value => ?_
    rw [contents_fileBody now hentries, OrderedMap.get?_ofList_of_nodup (OrderedMap.nodup _),
      OrderedMap.get?_eq_some]
  have hrefused : ∀ c ∈ write.changes.entries, c ∉ write.accepted → c.1 ∉ write.accepted.map Prod.fst := by
    intro c hc hnot hmem
    obtain ⟨a, ha, heq⟩ := List.mem_map.mp hmem
    exact hnot (List.inj_on_of_nodup_map hnodup (haccepted.subset ha) hc heq ▸ ha)
  constructor
  · intro hsaid
    refine ⟨fun key hkey => ?_, fun c hc hnot => ?_⟩
    · have hsame := hsaid key
      rwa [hread, get?_merged_of_not_mem hkey, get?_merged_of_not_mem fun h => hkey (hkeys.subset h)] at hsame
    · have hsame := hsaid c.1
      rw [hread, get?_merged_of_mem hc hnodup, get?_merged_of_not_mem (hrefused c hc hnot)] at hsame
      exact hsame.symm
  · rintro ⟨hother, hkept⟩ key
    rw [hread]
    by_cases hkey : key ∈ write.changes.entries.map Prod.fst
    · obtain ⟨c, hc, rfl⟩ := List.mem_map.mp hkey
      rw [get?_merged_of_mem hc hnodup]
      by_cases haccept : c ∈ write.accepted
      · rw [get?_merged_of_mem haccept (hnodup.sublist hkeys)]
      · rw [get?_merged_of_not_mem (hrefused c hc haccept), hkept c hc haccept]
    · rw [get?_merged_of_not_mem hkey, get?_merged_of_not_mem fun h => hkey (hkeys.subset h), hother key hkey]

/-! ### Runs -/

/-- What the file should say: what the kernel accepted in each write, over the file at the start. -/
def expected (file : Text) (w : World) : OrderedMap Text Text := w.written.foldl merged (contents file)

/-- A write that reaches the file is grounded. -/
def World.Allowed (w : World) : Event → Prop
  | .tee index true _ =>
    ∀ write ∈ w.writes[index]?, ∀ persisted ∈ write.persisted, Grounded w.file write persisted
  | _ => True

structure Says (file : Text) (w : World) : Prop where
  agrees : ∀ key, (contents w.file).get? key = (expected file w).get? key
  fit : ∀ write ∈ w.writes, Fit write

theorem Fit.answered {write : Write} (h : Fit write) (ok : Bool) : Fit (write.answered ok) := by
  rw [Write.answered]
  split
  · exact h
  · rename_i c rest htodo
    have hsub := h.accepted
    rw [htodo] at hsub
    refine ⟨?_, h.entries⟩
    dsimp only
    split_ifs
    · rwa [List.append_assoc]
    · exact (List.Sublist.append_left (List.sublist_cons_self c rest) _).trans hsub

theorem persistedOf_nil : (persistedOf []).entries = [] := by decide +kernel

theorem Fit.readFile {write : Write} (h : Fit write) (before : Option (List Text)) (file : Text) :
    Fit (write.readFile before file) := by
  rw [Write.readFile]
  split_ifs
  · refine ⟨h.accepted, fun persisted hpersisted => ?_⟩
    cases hpersisted
    cases before with
    | none =>
      rw [Option.elim_none, persistedOf_nil]
      simp
    | some lines =>
      rw [Option.elim_some, persistedOf_probeOutput]
      exact isEntry_contents file
  · exact h

/-- A change of one write. -/
theorem Says.modify (h : Says file w) (index : Nat) {f : Write → Write}
    (hf : ∀ write, Fit write → Fit (f write)) : Says file { w with writes := w.writes.modify index f } := by
  refine ⟨h.agrees, fun write hwrite => ?_⟩
  obtain ⟨i, hi⟩ := List.mem_iff_getElem?.mp hwrite
  rw [List.getElem?_modify] at hi
  obtain ⟨old, hold, heq⟩ := Option.map_eq_some_iff.mp hi
  have hfit := h.fit old (List.mem_of_getElem? hold)
  split_ifs at heq
  · exact heq ▸ hf old hfit
  · exact heq ▸ hfit

theorem Says.without (h : Says file w) (index : Nat) :
    Says file { w with writes := w.writes.eraseIdx index } :=
  ⟨h.agrees, fun write hwrite => h.fit write (List.mem_of_mem_eraseIdx hwrite)⟩

theorem get?_merged_congr {a b : OrderedMap Text Text} (h : ∀ key, a.get? key = b.get? key)
    (changes : List (Text × Text)) (key : Text) : (merged a changes).get? key = (merged b changes).get? key := by
  rw [merged, merged, OrderedMap.get?_foldl_set, OrderedMap.get?_foldl_set, h]

theorem says_step (file : Text) (w : World) (event : Event) (h : Says file w) (hallowed : w.Allowed event) :
    Says file (w.step event) := by
  cases event with
  | begun hasSudo changes =>
    rw [World.step]
    split_ifs
    · exact h
    · refine ⟨h.agrees, fun write hwrite => ?_⟩
      obtain hold | hnew := List.mem_append.mp hwrite
      · exact h.fit write hold
      · rw [List.mem_singleton.mp hnew]
        exact ⟨List.Sublist.refl _, fun _ hnone => by cases hnone⟩
  | sysctl index ok => exact h.modify index fun _ hfit => hfit.answered ok
  | read index before => exact h.modify index fun _ hfit => hfit.readFile before w.file
  | tee index ok now =>
    rw [World.step]
    cases hwrite : w.writes[index]? with
    | none => exact h
    | some write =>
      cases hpersisted : write.persisted with
      | none =>
        dsimp only
        rw [hpersisted]
        exact h
      | some persisted =>
        dsimp only
        rw [hpersisted]
        dsimp only
        cases ok with
        | false => exact h.without index
        | true =>
          have hgrounded := (grounded_iff (h.fit write (List.mem_of_getElem? hwrite)) hpersisted w.file now).mpr
            (hallowed write hwrite persisted hpersisted)
          rw [if_pos rfl]
          refine ⟨fun key => ?_, (h.without index).fit⟩
          calc (contents (fileBody now (merged persisted write.changes.entries).entries)).get? key =
              (merged (contents w.file) write.accepted).get? key := hgrounded key
            _ = (merged (expected file w) write.accepted).get? key := get?_merged_congr h.agrees _ key
            _ = _ := by rw [expected, expected, List.foldl_append]; rfl
  | thrown index => exact h.without index

theorem mem_expected {written : List (List (Text × Text))} {start : OrderedMap Text Text}
    (h : (written.foldl merged start).get? key = some value) :
    start.get? key = some value ∨ ∃ accepted ∈ written, (key, value) ∈ accepted := by
  induction written using List.reverseRecOn with
  | nil => exact .inl h
  | append_singleton written accepted ih =>
    rw [List.foldl_append, List.foldl_cons, List.foldl_nil, merged, OrderedMap.get?_foldl_set,
      Option.or_eq_some_iff] at h
    obtain hfound | ⟨-, hbefore⟩ := h
    · obtain ⟨e, he, rfl⟩ := Option.map_eq_some_iff.mp hfound
      have hkey : e.1 = key := by simpa using List.find?_some he
      refine .inr ⟨accepted, by simp, ?_⟩
      rw [← hkey]
      exact List.mem_reverse.mp (List.mem_of_find?_eq_some he)
    · exact (ih hbefore).imp_right fun ⟨a, ha, hmem⟩ => ⟨a, List.mem_append_left _ ha, hmem⟩

theorem has_expected {written : List (List (Text × Text))} {start : OrderedMap Text Text}
    (h : start.has key = true) : (written.foldl merged start).has key = true := by
  induction written generalizing start with
  | nil => exact h
  | cons accepted written ih =>
    refine ih ?_
    obtain ⟨old, hold⟩ := OrderedMap.has_iff_get.mp h
    rw [OrderedMap.has, merged, OrderedMap.get?_foldl_set, hold]
    cases (accepted.reverse.find? fun e => decide (e.1 = key)).map Prod.snd <;> rfl

/-- In every run whose file writes are grounded, the file says what it said before, overwritten by
what the kernel accepted in the writes that reached it. -/
theorem file_says_what_was_applied (file : Text) (events : List Event)
    (hgrounded : Guarded World.step World.Allowed (.start file) events) :
    let w := run World.step (.start file) events
    (∀ key, (contents w.file).get? key = (w.written.foldl merged (contents file)).get? key) ∧
      (∀ key, (contents file).has key = true → (contents w.file).has key = true) ∧
      ∀ key value, (contents w.file).get? key = some value →
        (contents file).get? key = some value ∨ ∃ accepted ∈ w.written, (key, value) ∈ accepted := by
  intro w
  have hsaid : Says file w := run_preserves (says_step file) hgrounded ⟨fun _ => rfl, by simp [World.start]⟩
  refine ⟨hsaid.agrees, fun key hkey => ?_, fun key value hvalue => ?_⟩
  · rw [OrderedMap.has, hsaid.agrees key]
    exact has_expected hkey
  · rw [hsaid.agrees key] at hvalue
    exact mem_expected hvalue

theorem forall_keys_iff {a b : OrderedMap Text Text} {p : Text → Prop} :
    (∀ key ∈ a.keys ++ b.keys, p key → a.get? key = b.get? key) ↔
      ∀ key, p key → a.get? key = b.get? key := by
  refine ⟨fun h key hp => ?_, fun h key _ => h key⟩
  by_cases hkey : key ∈ a.keys ++ b.keys
  · exact h key hkey hp
  · rw [List.mem_append, not_or] at hkey
    rw [OrderedMap.get?_eq_none.mpr hkey.1, OrderedMap.get?_eq_none.mpr hkey.2]

instance (file : Text) (write : Write) (persisted : OrderedMap Text Text) :
    Decidable (Grounded file write persisted) :=
  decidable_of_iff (_ ∧ _) (and_congr_left' (forall_keys_iff
    (p := fun key => key ∉ write.changes.entries.map Prod.fst)))

instance (w : World) : (event : Event) → Decidable (w.Allowed event)
  | .begun _ _ => inferInstanceAs (Decidable True)
  | .sysctl _ _ => inferInstanceAs (Decidable True)
  | .read _ _ => inferInstanceAs (Decidable True)
  | .tee _ true _ => inferInstanceAs (Decidable (∀ write ∈ _, ∀ persisted ∈ _, _))
  | .tee _ false _ => inferInstanceAs (Decidable True)
  | .thrown _ => inferInstanceAs (Decidable True)

def fileMax : Changes :=
  ⟨[(js "fs.file-max", js "70000")], by decide +kernel, by decide, by decide +kernel⟩

def somaxconn : Changes :=
  ⟨[(js "net.core.somaxconn", js "4096")], by decide +kernel, by decide, by decide +kernel⟩

/-- One write behind the other. -/
def oneAfterAnother : List Event :=
  [.begun true fileMax, .sysctl 0 true, .read 0 (some []), .tee 0 true 0,
    .begun true somaxconn, .sysctl 0 true, .read 0 (some [js "===ULIMIT===", js "1024"]), .tee 0 true 0]

theorem file_says_what_was_applied_two :
    let w := run World.step (.start []) oneAfterAnother
    w.written = [fileMax.entries, somaxconn.entries] ∧
      (∀ key, (contents w.file).get? key = (w.written.foldl merged (contents [])).get? key) ∧
      (∀ key, (contents []).has key = true → (contents w.file).has key = true) ∧
      ∀ key value, (contents w.file).get? key = some value →
        (contents []).get? key = some value ∨ ∃ accepted ∈ w.written, (key, value) ∈ accepted :=
  ⟨by decide +kernel, file_says_what_was_applied [] oneAfterAnother (by decide +kernel)⟩

/-- A value that the kernel refuses is written to the file; a write whose read fails, or beside
another one, loses a key that is persisted. -/
theorem refused_and_lost :
    let refused := run World.step (.start [])
      [.begun true fileMax, .sysctl 0 false, .read 0 (some []), .tee 0 true 0]
    let unread := run World.step (.start (js "fs.nr_open = 1048576\n"))
      [.begun true fileMax, .sysctl 0 true, .read 0 none, .tee 0 true 0]
    let beside := run World.step (.start [])
      [.begun true fileMax, .begun true somaxconn, .sysctl 0 true, .sysctl 1 true, .read 0 (some []),
        .read 1 (some []), .tee 0 true 0, .tee 0 true 0]
    (refused.written = [[]] ∧ (contents refused.file).get? (js "fs.file-max") = some (js "70000")) ∧
      (contents unread.file).get? (js "fs.nr_open") = none ∧
      beside.written = [fileMax.entries, somaxconn.entries] ∧
        (contents beside.file).get? (js "fs.file-max") = none := by
  decide +kernel

end BoredManager.Network
