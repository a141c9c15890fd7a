import BoredManager.Network.Probe
import BoredManager.Network.TunableRuns

/-! The page of the kernel limits against the machine: the neighbour counts have marker lines that
the splitter does not know, and everything else arrives. -/
namespace BoredManager.Network
open BoredManager.Js BoredManager.Shared

variable {line key name rest value file s t : Text} {k : Kernel}

/-! ### Lines of the probe and of the file -/

theorem keyValue_of_split (h : trim line = name ++ 61 :: rest) (hname : 61 ∉ name) :
    keyValue line = if name = [] ∨ name.head? = some 35 ∨ trim rest = [] then none
      else some (trim name, normalizeValue rest) := by
  have hfree : ∀ u ∈ name, decide (u ≠ 61) = true := fun u hu =>
    decide_eq_true fun heq => hname (heq ▸ hu)
  have htake : (name ++ 61 :: rest).takeWhile (fun u => decide (u ≠ 61)) = name := by
    rw [List.takeWhile_append_of_pos hfree, List.takeWhile_cons_of_neg (by decide), List.append_nil]
  have hdrop : (name ++ 61 :: rest).dropWhile (fun u => decide (u ≠ 61)) = 61 :: rest := by
    rw [List.dropWhile_append_of_pos hfree, List.dropWhile_cons_of_neg (by decide)]
  have hvalue : normalizeValue (trim rest) = normalizeValue rest := trim_collapse_trim rest
  simp only [keyValue, h, htake, hdrop, hvalue]
  cases name with
  | nil => simp
  | cons u name => by_cases hhash : u = 35 <;> simp [hhash]

theorem keyValue_no_equals (h : 61 ∉ trim line) : keyValue line = none := by
  have hdrop : (trim line).dropWhile (fun u => decide (u ≠ 61)) = [] :=
    List.dropWhile_eq_nil_iff.mpr fun u hu => decide_eq_true fun heq => h (heq ▸ hu)
  simp only [keyValue, hdrop]
  split_ifs <;> rfl

/-- A line assigns what `parseKeyValues` reads in it. -/
theorem keyValue_eq_some : keyValue line = some (key, value) ↔ Assigns line key value := by
  constructor
  · intro h
    by_cases hequals : 61 ∈ trim line
    · obtain ⟨name, rest, hsplit, hname⟩ := List.eq_append_cons_of_mem hequals
      rw [keyValue_of_split hsplit hname, Option.ite_none_left_eq_some, not_or, not_or] at h
      obtain ⟨⟨hne, hhash, hrest⟩, heq⟩ := h
      cases heq
      exact ⟨name, rest, hsplit, hname, hne, hhash, rfl, hrest, rfl⟩
    · rw [keyValue_no_equals hequals] at h
      cases h
  · intro h
    obtain ⟨name, rest, hsplit, hname, hne, hhash, rfl, hrest, rfl⟩ := h
    rw [keyValue_of_split hsplit hname, if_neg (by simp [hne, hhash, hrest])]

/-- What stands behind a sign that is no blank loses its blanks at the end. -/
theorem trim_append_cons {u v : Nat} (h : s.head? = some u) (hu : isSpace u = false)
    (hv : isSpace v = false) : ∃ t', trim (s ++ v :: t) = s ++ v :: t' ∧ trim t' = trim t ∧
      normalizeValue t' = normalizeValue t := by
  obtain ⟨t', blanks, rfl, hblanks, htrim⟩ := trim_append_tail (t := t)
    (List.append_ne_nil_of_right_ne_nil s (List.cons_ne_nil v [])) (fun w hw => by rw [List.head?_append, h] at hw; cases hw; exact hu)
    (fun w hw => by rw [List.getLast?_concat] at hw; cases hw; exact hv)
  rw [List.append_assoc, List.append_assoc, List.singleton_append, List.singleton_append] at htrim
  refine ⟨t', htrim, (trim_append_spaces hblanks).symm, ?_⟩
  obtain ⟨r, hr, hcollapse⟩ := collapseFrom_append_spaces false t' hblanks
  rw [normalizeValue, normalizeValue, collapse, collapse, hcollapse, trim_append_spaces hr]

theorem collapseFrom_spaced (inRun : Bool) (s : Text) :
    collapseFrom inRun (spaced s) = collapseFrom inRun s := by
  induction s generalizing inRun with
  | nil => rfl
  | cons u s ih =>
    have hlist : spaced (u :: s) = (if u = 9 then 32 else u) :: spaced s := rfl
    rw [hlist, collapseFrom, collapseFrom, ih, ih]
    by_cases htab : u = 9
    · subst htab
      rfl
    · rw [if_neg htab]

theorem TUNABLE_KEYS_clean :
    ∀ key ∈ TUNABLE_KEYS, key ≠ [] ∧ ∀ u ∈ key, isSpace u = false ∧ u ≠ 61 ∧ u ≠ 35 := by decide +kernel

theorem Kernel.setting_one_line (k : Kernel) (hkey : key ∈ TUNABLE_KEYS) (h : k.setting key = some value) :
    10 ∉ value := fun hmem => by
  have hunit := k.setting_units key hkey value h 10 hmem
  cases hunit

/-- A setting's line holds the setting with blanks for its tabs. -/
theorem Kernel.keyLine_eq (k : Kernel) (hkey : key ∈ TUNABLE_KEYS) :
    k.keyLine key = key ++ 61 :: (k.setting key).elim [] spaced := by
  rw [Kernel.keyLine]
  cases h : k.setting key with
  | none => rfl
  | some value =>
    have hfree : ∀ u ∈ (spaced value).reverse, ¬(u == 10) = true := by
      intro u hu heq
      obtain ⟨v, hv, hmap⟩ := List.mem_map.mp (List.mem_reverse.mp hu)
      rw [beq_iff_eq] at heq
      by_cases htab : v = 9
      · rw [if_pos htab] at hmap
        omega
      · rw [if_neg htab] at hmap
        exact k.setting_one_line hkey h (heq ▸ hmap ▸ hv)
    have hecho : spaced (cat (some value)) = spaced value ++ [10] := by
      simp [cat, echo, spaced]
    rw [hecho, substituted, List.reverse_append, List.reverse_singleton, List.singleton_append,
      List.dropWhile_cons_of_pos rfl, dropWhile_of_head fun u hu => ?_, List.reverse_reverse]
    · rfl
    · exact Bool.eq_false_iff.mpr (hfree u (List.mem_of_head? hu))

/-- The page reads a setting's line as the setting. -/
theorem Kernel.keyValue_keyLine (k : Kernel) (hkey : key ∈ TUNABLE_KEYS) :
    keyValue (k.keyLine key) = (k.setting key).map fun value => (key, normalizeValue value) := by
  obtain ⟨hne, hclean⟩ := TUNABLE_KEYS_clean key hkey
  obtain ⟨u, rest, hcons⟩ := List.exists_cons_of_ne_nil hne
  have hmem : u ∈ key := hcons ▸ List.mem_cons_self
  have hhead : key.head? = some u := by rw [hcons]; rfl
  have hequals : 61 ∉ key := fun hmem => (hclean 61 hmem).2.1 rfl
  have hhash : key.head? ≠ some 35 := fun heq => (hclean 35 (List.mem_of_head? heq)).2.2 rfl
  have htrim : trim key = key := trim_eq_self fun u hu => (hclean u hu).1
  obtain ⟨t', hsplit, ht', hvalue⟩ := trim_append_cons (t := (k.setting key).elim [] spaced) hhead
    (hclean u hmem).1 (v := 61) rfl
  rw [keyValue_of_split ((congrArg trim (k.keyLine_eq hkey)).trans hsplit) hequals, ht', hvalue, htrim]
  cases h : k.setting key with
  | none => exact if_pos (.inr (.inr rfl))
  | some value =>
    have hsame : normalizeValue (spaced value) = normalizeValue value := by
      rw [normalizeValue, normalizeValue, collapse, collapse, collapseFrom_spaced]
    have hwritten : trim (spaced value) ≠ [] := by
      intro hnil
      have hempty : normalizeValue (spaced value) = [] := by
        rw [normalizeValue, ← trim_collapse_trim, hnil]
        rfl
      rw [hsame, normalizeValue, ← trim_collapse_trim] at hempty
      exact (isValue_normalizeValue (k.setting_written key hkey value h)).1 hempty
    simp only [Option.elim_some, Option.map_some, hsame]
    rw [if_neg (by simp [hne, hhash, hwritten])]

/-! ### The sections -/

/-- The sections that the splitter finds: the neighbour markers hold a digit, so they and the counts
behind them are text of the section before. -/
def Kernel.sections (k : Kernel) : List (Text × List Text) :=
  [(js "SYSCTLKEYS", TUNABLE_KEYS.map k.keyLine),
    (js "FILENR", k.fileNr.toList ++ [js "===NEIGH4===", decimal k.neigh4, js "===NEIGH6===",
      decimal k.neigh6]),
    (js "CONNTRACK", (k.conntrack.map decimal).toList),
    (js "ULIMIT", [k.ulimit.elim (js "unlimited") decimal]),
    (js "PERSISTED", k.file.splitOn 10)]

theorem flatMap_echo_toList (line : Option Text) : line.toList.flatMap echo = cat line := by
  cases line <;> simp [cat]

theorem Kernel.probe_eq (k : Kernel) : k.probe = join [10] (sectionLines k.sections) := by
  have hlines : sectionLines k.sections =
      ([js "===SYSCTLKEYS==="] ++ TUNABLE_KEYS.map k.keyLine ++ [js "===FILENR==="] ++ k.fileNr.toList ++
        [js "===NEIGH4===", decimal k.neigh4, js "===NEIGH6===", decimal k.neigh6,
          js "===CONNTRACK==="] ++ (k.conntrack.map decimal).toList ++
        [js "===ULIMIT===", k.ulimit.elim (js "unlimited") decimal, js "===PERSISTED==="]) ++
      k.file.splitOn 10 := by
    simp only [sectionLines, Kernel.sections, List.flatMap_cons, List.flatMap_nil, List.append_assoc,
      List.cons_append, List.nil_append, List.append_nil]
    rfl
  rw [hlines, join_append_lines _ (List.splitOn_ne_nil 10 k.file),
    show join [10] (k.file.splitOn 10) = k.file from List.intercalate_splitOn 10]
  simp only [Kernel.probe, List.flatMap_append, List.flatMap_cons, List.flatMap_nil, List.append_nil,
    List.flatMap_map, flatMap_echo_toList, List.append_assoc]

theorem isTextLine_of_digits (h : ∀ u ∈ line, isDigit u = true) : IsTextLine line := by
  have hone : 10 ∉ line := fun hmem => by cases h 10 hmem
  refine ⟨hone, ?_⟩
  cases line with
  | nil => rfl
  | cons u rest =>
    refine markerName_of_head (u := u) rfl fun heq => ?_
    subst heq
    cases h 61 List.mem_cons_self

theorem isTextLine_decimal (n : Nat) : IsTextLine (decimal n) :=
  isTextLine_of_digits fun _ hu => isDigit_of_mem_decimal hu

theorem Kernel.isTextLine_keyLine (k : Kernel) (hkey : key ∈ TUNABLE_KEYS) : IsTextLine (k.keyLine key) := by
  obtain ⟨hne, hclean⟩ := TUNABLE_KEYS_clean key hkey
  obtain ⟨u, rest, hcons⟩ := List.exists_cons_of_ne_nil hne
  have hu := hclean u (hcons ▸ List.mem_cons_self)
  rw [k.keyLine_eq hkey]
  constructor
  · intro hmem
    obtain hmem | hmem := List.mem_append.mp hmem
    · have hspace := (hclean 10 hmem).1
      cases hspace
    · obtain heq | hmem := List.mem_cons.mp hmem
      · cases heq
      · cases h : k.setting key with
        | none =>
          rw [h] at hmem
          cases hmem
        | some value =>
          rw [h] at hmem
          obtain ⟨v, hv, hmap⟩ := List.mem_map.mp hmem
          by_cases htab : v = 9
          · rw [if_pos htab] at hmap
            cases hmap
          · rw [if_neg htab] at hmap
            exact k.setting_one_line hkey h (hmap ▸ hv)
  · exact markerName_of_head (u := u) (by rw [hcons]; rfl) hu.2.1

theorem Kernel.isTextLine_sections (k : Kernel) : ∀ s ∈ k.sections, ∀ line ∈ s.2, IsTextLine line := by
  simp only [Kernel.sections, List.forall_mem_cons, List.forall_mem_append, List.mem_map,
    Option.mem_toList, List.not_mem_nil, false_implies, implies_true, and_true]
  refine ⟨?_, ⟨k.fileNr_line, ⟨by decide, by decide⟩, isTextLine_decimal _, ⟨by decide, by decide⟩,
    isTextLine_decimal _⟩, ?_, ?_, fun line hline => ⟨?_, k.file_no_marker line hline⟩⟩
  · rintro line ⟨key, hkey, rfl⟩
    exact k.isTextLine_keyLine hkey
  · intro line hline
    obtain ⟨n, -, rfl⟩ := Option.map_eq_some_iff.mp hline
    exact isTextLine_decimal n
  · cases k.ulimit with
    | none => exact ⟨by decide, by decide⟩
    | some n => exact isTextLine_decimal n
  · intro hmem
    rw [List.splitOn_eq_splitOnP] at hline
    have hfalse := (not_mem_of_mem_splitOnP hline hmem).2
    cases hfalse

theorem Kernel.splitSections_probe (k : Kernel) :
    splitSections k.probe = .ofList (k.sections.map fun s => (s.1, join [10] s.2)) := by
  rw [k.probe_eq]
  refine splitSections_sectionLines (by simp [Kernel.sections]) ?_ k.isTextLine_sections
  simp only [Kernel.sections, List.forall_mem_cons, List.not_mem_nil, false_implies, implies_true,
    and_true]
  decide

/-! ### What is read of them -/

/-- Keys that are listed once keep what is read of their lines. -/
theorem get?_ofList_filterMap {keys : List Text} (hnodup : keys.Nodup) (f : Text → Option Text) (key : Text) :
    (OrderedMap.ofList (keys.filterMap fun j => (f j).map fun v => (j, v))).get? key =
      if key ∈ keys then f key else none := by
  have hsub : ((keys.filterMap fun j => (f j).map fun v => (j, v)).map Prod.fst).Sublist keys := by
    clear hnodup
    induction keys with
    | nil => exact List.Sublist.slnil
    | cons j keys ih =>
      rw [List.filterMap_cons]
      cases f j with
      | none => exact ih.cons j
      | some v => exact ih.cons_cons j
  refine Option.ext fun value => ?_
  rw [OrderedMap.get?_ofList_of_nodup (hnodup.sublist hsub), List.mem_filterMap]
  split_ifs with hkey
  · refine ⟨fun h => ?_, fun h => ⟨key, hkey, by rw [h]; rfl⟩⟩
    obtain ⟨j, -, hj⟩ := h
    obtain ⟨v, hv, heq⟩ := Option.map_eq_some_iff.mp hj
    cases heq
    exact hv
  · refine ⟨fun h => ?_, fun h => by cases h⟩
    obtain ⟨j, hj, hmap⟩ := h
    obtain ⟨v, -, heq⟩ := Option.map_eq_some_iff.mp hmap
    cases heq
    exact absurd hj hkey

theorem Kernel.get?_current (k : Kernel) (key : Text) :
    (parseKeyValues (join [10] (TUNABLE_KEYS.map k.keyLine))).get? key = k.value key := by
  have hcut : (join [10] (TUNABLE_KEYS.map k.keyLine)).splitOn 10 = TUNABLE_KEYS.map k.keyLine := by
    refine List.splitOn_intercalate 10 (fun line hline => ?_) (by simp [TUNABLE_KEYS])
    obtain ⟨j, hj, rfl⟩ := List.mem_map.mp hline
    exact (k.isTextLine_keyLine hj).one_line
  have hread : (TUNABLE_KEYS.map k.keyLine).filterMap keyValue =
      TUNABLE_KEYS.filterMap fun j => ((k.setting j).map normalizeValue).map fun v => (j, v) := by
    rw [List.filterMap_map]
    refine List.filterMap_congr fun j hj => ?_
    rw [Function.comp_apply, k.keyValue_keyLine hj, Option.map_map]
    rfl
  rw [parseKeyValues, hcut, hread, get?_ofList_filterMap (by decide +kernel), Kernel.value]

/-- A map of the lines of a text holds, for a key, what the last line with the key says. -/
theorem get?_parseKeyValues (file key value : Text) :
    (parseKeyValues file).get? key = some value ↔ LastAssigned file key value := by
  rw [parseKeyValues, LastAssigned, OrderedMap.get?_ofList]
  generalize file.splitOn 10 = lines
  induction lines using List.reverseRecOn with
  | nil => simp
  | append_singleton lines last ih =>
    have hcut : (lines ++ [last]).filterMap keyValue = lines.filterMap keyValue ++ (keyValue last).toList := by
      rw [List.filterMap_append, List.filterMap_cons]
      cases keyValue last <;> rfl
    rw [hcut, List.reverse_append, List.find?_append]
    by_cases hnames : ∃ v, keyValue last = some (key, v)
    · obtain ⟨v, hv⟩ := hnames
      have hfound : ((keyValue last).toList.reverse.find? fun e => decide (e.1 = key)) = some (key, v) := by
        rw [hv]
        simp
      rw [hfound, Option.some_or, Option.map_some]
      constructor
      · intro h
        cases h
        exact ⟨lines, last, [], rfl, keyValue_eq_some.mp hv, by simp⟩
      · intro h
        obtain ⟨before, line, after, hsplit, hline, hafter⟩ := h
        cases after using List.reverseRecOn with
        | nil =>
          obtain ⟨-, heq⟩ := List.append_inj' hsplit rfl
          cases heq
          rw [keyValue_eq_some.mpr hline] at hv
          cases hv
          rfl
        | append_singleton after other =>
          rw [← List.cons_append, ← List.append_assoc] at hsplit
          obtain ⟨-, heq⟩ := List.append_inj' hsplit rfl
          cases heq
          exact absurd (keyValue_eq_some.mp hv) (hafter last (by simp) v)
    · have hfound : ((keyValue last).toList.reverse.find? fun e => decide (e.1 = key)) = none := by
        cases hread : keyValue last with
        | none => rfl
        | some e =>
          have hother : e.1 ≠ key := fun heq => hnames ⟨e.2, by rw [hread, ← heq]⟩
          simp [hother]
      rw [hfound, Option.none_or, ih]
      constructor
      · intro h
        obtain ⟨before, line, after, rfl, hline, hafter⟩ := h
        refine ⟨before, line, after ++ [last], by simp, hline, fun later hlater other hother => ?_⟩
        obtain hlater | hlater := List.mem_append.mp hlater
        · exact hafter later hlater other hother
        · rw [List.mem_singleton.mp hlater] at hother
          exact hnames ⟨other, keyValue_eq_some.mpr hother⟩
      · intro h
        obtain ⟨before, line, after, hsplit, hline, hafter⟩ := h
        cases after using List.reverseRecOn with
        | nil =>
          obtain ⟨-, heq⟩ := List.append_inj' hsplit rfl
          cases heq
          exact absurd ⟨value, keyValue_eq_some.mpr hline⟩ hnames
        | append_singleton after other =>
          rw [← List.cons_append, ← List.append_assoc] at hsplit
          obtain ⟨hlines, -⟩ := List.append_inj' hsplit rfl
          exact ⟨before, line, after, hlines, hline, fun later hlater => hafter later (by simp [hlater])⟩

/-! ### Numbers -/

theorem toNumber_some (s : Text) : toNumber (some s) = numeral s := by
  rw [toNumber, Option.getD_some, Number.ofText_trim, numeral]

theorem numeral_decimal (n : Nat) : numeral (decimal n) = Number.double n := by
  have hdigits : Number.IsDigits (decimal n) n :=
    ⟨Number.decimal_ne_nil n, Number.isDigit_decimal n, Number.continueValue_decimal n⟩
  rw [numeral, Number.ofText_digits hdigits, Number.double]

/-- A count arrives when a double can hold it. -/
theorem double_eq_self_iff (n : Nat) : Number.double n = n ↔ Number.IsDouble n := by
  rw [Number.double, Number.IsDouble]
  constructor
  · intro h
    cases hround : Number.ofRat (n : ℚ) with
    | fin q =>
      rw [hround] at h
      rw [← h]
      rfl
    | inf negative =>
      rw [hround] at h
      rw [← h] at hround
      cases hround
    | nan =>
      rw [hround] at h
      rw [← h] at hround
      cases hround
  · intro h
    rw [h]
    rfl

theorem head?_splitRunsFrom (p : Nat → Bool) (s : Text) :
    (splitRunsFrom p false s)[0]? = some (s.takeWhile fun u => !p u) := by
  induction s with
  | nil => rfl
  | cons u s ih =>
    rw [splitRunsFrom, List.takeWhile_cons]
    cases hp : p u with
    | true => rfl
    | false =>
      cases hs : splitRunsFrom p false s with
      | nil => rw [hs] at ih; cases ih
      | cons w ws =>
        rw [hs] at ih
        injection ih with ih
        rw [← ih]
        rfl

/-- `text.trim().split(/\s+/)[0]` -/
theorem head?_words (s : Text) : (splitRuns isSpace (trim s))[0]? = some (firstWord s) := by
  obtain ⟨blanks, hblanks, heq⟩ := exists_trim_append s
  have hnone : blanks.takeWhile (fun u => !isSpace u) = [] := by
    cases blanks with
    | nil => rfl
    | cons u blanks => rw [List.takeWhile_cons_of_neg (by simp [hblanks u List.mem_cons_self])]
  rw [splitRuns, head?_splitRunsFrom, firstWord, heq, List.takeWhile_append, hnone, List.append_nil]
  split_ifs with hlength
  · exact congrArg some (List.takeWhile_prefix _ |>.eq_of_length hlength)
  · rfl

theorem firstWord_append_line (line more : Text) :
    firstWord (line ++ 10 :: more) = if trim line = [] then firstWord more else firstWord line := by
  by_cases hblank : ∀ u ∈ line, isSpace u = true
  · have hnil : trim line = [] := by
      rw [trim, List.dropWhile_eq_nil_iff.mpr hblank]
      rfl
    rw [if_pos hnil, firstWord, List.dropWhile_append_of_pos hblank, List.dropWhile_cons_of_pos rfl, firstWord]
  · have hne : trim line ≠ [] := by
      intro hnil
      refine hblank fun u hu => ?_
      obtain hspace | hmem := mem_trim_or_space hu
      · exact hspace
      · rw [hnil] at hmem
        cases hmem
    have hdrop : (line ++ 10 :: more).dropWhile isSpace = line.dropWhile isSpace ++ 10 :: more := by
      rw [List.dropWhile_append, if_neg]
      rw [List.isEmpty_iff, List.dropWhile_eq_nil_iff]
      exact hblank
    rw [if_neg hne, firstWord, hdrop, firstWord, List.takeWhile_append, List.takeWhile_cons_of_neg (by decide),
      List.append_nil]
    split_ifs with hlength
    · exact (List.takeWhile_prefix _ |>.eq_of_length hlength).symm
    · rfl

/-! ### The page -/

/-- What the page shows of the machine's state: the neighbour counts are always 0. -/
structure Shown (k : Kernel) (page : NetTunables) : Prop where
  current : ∀ key, page.current.get? key = k.value key
  persisted : ∀ key value, page.persisted.get? key = some value ↔ LastAssigned k.file key value
  neighEntries4 : page.usage.neighEntries4 = 0
  neighEntries6 : page.usage.neighEntries6 = 0
  filesOpen : page.usage.filesOpen = k.filesOpen
  conntrackCount : page.usage.conntrackCount = Number.double (k.conntrack.getD 0 : Nat)
  fdSoftLimit : page.usage.fdSoftLimit = Number.double (k.ulimit.getD 0 : Nat)
  neighUsagePct : page.usage.neighUsagePct =
    pct page.usage.neighEntries4 (k.limit "net.ipv4.neigh.default.gc_thresh3")
  fdUsagePct : page.usage.fdUsagePct = pct page.usage.filesOpen (k.limit "fs.file-max")
  conntrackUsagePct : page.usage.conntrackUsagePct =
    pct page.usage.conntrackCount (k.limit "net.netfilter.nf_conntrack_max")

theorem Kernel.get?_section (k : Kernel) (name : Text) :
    (splitSections k.probe).get? name =
      ((k.sections.reverse.find? fun s => decide (s.1 = name)).map fun s => join [10] s.2) := by
  rw [k.splitSections_probe, OrderedMap.get?_ofList, ← List.map_reverse, List.find?_map, Option.map_map]
  rfl

/-- Only a whole `file-nr` line says how many files are open; the marker behind it is no number. -/
theorem Kernel.toNumber_fileNr (k : Kernel) :
    numeral (firstWord (join [10] (k.fileNr.toList ++ [js "===NEIGH4===", decimal k.neigh4,
      js "===NEIGH6===", decimal k.neigh6]))) = k.filesOpen := by
  have hmarker : ∀ more, numeral (firstWord (js "===NEIGH4===" ++ 10 :: more)) = 0 := by
    intro more
    rw [firstWord_append_line, if_neg (by decide)]
    decide +kernel
  have htail : ∃ more, join [10] [js "===NEIGH4===", decimal k.neigh4, js "===NEIGH6===",
      decimal k.neigh6] = js "===NEIGH4===" ++ 10 :: more := ⟨_, rfl⟩
  obtain ⟨more, htail⟩ := htail
  rw [Kernel.filesOpen]
  cases hline : k.fileNr with
  | none =>
    rw [Option.toList_none, List.nil_append, htail, hmarker]
    rfl
  | some line =>
    rw [Option.toList_some, join_append_lines _ (by simp), htail, List.flatMap_singleton, echo,
      List.append_assoc, List.singleton_append, firstWord_append_line]
    split_ifs with hblank
    · have hempty : firstWord line = [] := by
        have hall : ∀ u ∈ line, isSpace u = true := fun u hu => (mem_trim_or_space hu).resolve_right
          (by rw [hblank]; exact List.not_mem_nil)
        rw [firstWord, List.dropWhile_eq_nil_iff.mpr hall]
        rfl
      rw [hmarker, Option.map_some, Option.getD_some, hempty]
      rfl
    · rfl

theorem Kernel.toNumber_limit (k : Kernel) (key : String) :
    toNumber (k.value (js key)) = k.limit key := by
  rw [Kernel.limit]
  cases k.value (js key) with
  | none => rfl
  | some value => exact toNumber_some value

theorem Kernel.shown (k : Kernel) (hasSudo : Bool) : Shown k (read k.probe hasSudo) := by
  have hkeys : (splitSections k.probe).get? (js "SYSCTLKEYS") =
      some (join [10] (TUNABLE_KEYS.map k.keyLine)) := by
    rw [k.get?_section]
    rfl
  have hfile : (splitSections k.probe).get? (js "PERSISTED") = some k.file := by
    rw [k.get?_section]
    exact congrArg some (List.intercalate_splitOn 10)
  have hfileNr : (splitSections k.probe).get? (js "FILENR") =
      some (join [10] (k.fileNr.toList ++ [js "===NEIGH4===", decimal k.neigh4, js "===NEIGH6===",
        decimal k.neigh6])) := by
    rw [k.get?_section]
    rfl
  have hneigh4 : (splitSections k.probe).get? (js "NEIGH4") = none := by rw [k.get?_section]; rfl
  have hneigh6 : (splitSections k.probe).get? (js "NEIGH6") = none := by rw [k.get?_section]; rfl
  have hconntrack : (splitSections k.probe).get? (js "CONNTRACK") =
      some (join [10] (k.conntrack.map decimal).toList) := by
    rw [k.get?_section]
    rfl
  have hulimit : (splitSections k.probe).get? (js "ULIMIT") =
      some (join [10] [k.ulimit.elim (js "unlimited") decimal]) := by
    rw [k.get?_section]
    rfl
  have hjoin : ∀ line, join [10] [line] = line := fun line => by simp [join]
  have hfiles : (read k.probe hasSudo).usage.filesOpen = k.filesOpen := by
    simp only [read, hfileNr, Option.getD_some]
    rw [head?_words, toNumber_some, k.toNumber_fileNr]
  refine ⟨fun key => ?_, fun key value => ?_, ?_, ?_, hfiles, ?_, ?_, ?_, ?_, ?_⟩
  · simp only [read, hkeys, Option.getD_some]
    exact k.get?_current key
  · simp only [read, hfile, Option.getD_some]
    exact get?_parseKeyValues k.file key value
  · simp only [read, hneigh4]
    decide +kernel
  · simp only [read, hneigh6]
    decide +kernel
  · simp only [read, hconntrack]
    cases k.conntrack with
    | none => decide +kernel
    | some n =>
      rw [Option.map_some, Option.toList_some, hjoin, toNumber_some]
      exact numeral_decimal n
  · simp only [read, hulimit, hjoin]
    cases k.ulimit with
    | none => decide +kernel
    | some n =>
      rw [toNumber_some]
      exact numeral_decimal n
  · simp only [read, hkeys, Option.getD_some, k.get?_current, k.toNumber_limit]
  · simp only [read, hkeys, Option.getD_some, k.get?_current, k.toNumber_limit]
  · simp only [read, hkeys, Option.getD_some, k.get?_current, k.toNumber_limit]

/-- The page tells the truth exactly of a machine without neighbours whose counts a double can hold. -/
theorem read_tells_the_truth_iff (k : Kernel) (hasSudo : Bool) :
    TellsTheTruth k (read k.probe hasSudo) ↔
      k.neigh4 = 0 ∧ k.neigh6 = 0 ∧ Number.IsDouble (k.conntrack.getD 0 : Nat) ∧
        Number.IsDouble (k.ulimit.getD 0 : Nat) := by
  have hshown := k.shown hasSudo
  constructor
  · intro h
    have h4 := h.neighEntries4
    have h6 := h.neighEntries6
    rw [hshown.neighEntries4] at h4
    rw [hshown.neighEntries6] at h6
    refine ⟨(Nat.cast_eq_zero.mp h4.symm), (Nat.cast_eq_zero.mp h6.symm), ?_, ?_⟩
    · exact (double_eq_self_iff _).mp (hshown.conntrackCount.symm.trans h.conntrackCount)
    · exact (double_eq_self_iff _).mp (hshown.fdSoftLimit.symm.trans h.fdSoftLimit)
  · rintro ⟨h4, h6, hconntrack, hulimit⟩
    have hn4 : (read k.probe hasSudo).usage.neighEntries4 = k.neigh4 := by
      rw [hshown.neighEntries4, h4, Nat.cast_zero]
    have hn6 : (read k.probe hasSudo).usage.neighEntries6 = k.neigh6 := by
      rw [hshown.neighEntries6, h6, Nat.cast_zero]
    have hcount := hshown.conntrackCount.trans ((double_eq_self_iff _).mpr hconntrack)
    have hlimit := hshown.fdSoftLimit.trans ((double_eq_self_iff _).mpr hulimit)
    exact {
      current := hshown.current
      persisted := hshown.persisted
      neighEntries4 := hn4
      neighEntries6 := hn6
      filesOpen := hshown.filesOpen
      conntrackCount := hcount
      fdSoftLimit := hlimit
      neighUsagePct := by rw [hshown.neighUsagePct, hn4]
      fdUsagePct := by rw [hshown.fdUsagePct, hshown.filesOpen]
      conntrackUsagePct := by rw [hshown.conntrackUsagePct, hcount] }

/-- A machine with three neighbours of the 1024 that fit. -/
def threeNeighbours : Kernel where
  setting := fun key =>
    if key = js "net.ipv4.neigh.default.gc_thresh3" then some (js "1024") else none
  fileNr := some (js "1216\t0\t9223372036854775807")
  neigh4 := 3
  neigh6 := 0
  conntrack := none
  ulimit := some 1024
  file := []
  setting_units := by decide +kernel
  setting_written := by decide +kernel
  fileNr_line := by
    intro line hline
    cases hline
    exact ⟨by decide, by decide⟩
  file_no_marker := by decide

theorem neighbours_read_as_none : ¬TellsTheTruth threeNeighbours (read threeNeighbours.probe true) := by
  intro h
  have hcount := h.neighEntries4
  revert hcount
  decide +kernel

end BoredManager.Network
