import BoredManager.Js.Outcome
import BoredManager.OpenWrt.Uci

/-! What a batch script says: every line of `buildPppoeUciLines` reads back as
the one assignment it was built for, and account text stays inside its values. -/
namespace BoredManager.OpenWrt
open BoredManager.Js BoredManager.Posix

def wholeOf (v : Number) : Int := v.integer?.getD 0

def rowVlan (options : PppoeBuildOptions) (row : PppoeInputRow) : Option Int :=
  row.vlan.or (options.vlan.bind Number.integer?)

/-- The settings of the account at a position of the list. -/
def rowSettings (options : PppoeBuildOptions) (index : Nat) (row : PppoeInputRow) :
    List UciSetting :=
  let seq := wholeOf options.seqFrom + index
  interfaceSettings (options.ifacePrefix ++ padZero 5 (decimalInt seq))
    (deviceOf options.carrier (rowVlan options row)) row.user row.pass
    (wholeOf options.tableBase + seq)

/-- The settings a whole list asks for, each VLAN device before its first account. -/
def scriptSettings (options : PppoeBuildOptions) :
    List Int → Nat → List PppoeInputRow → List UciSetting
  | _, _, [] => []
  | emitted, index, row :: rows =>
    match rowVlan options row with
    | some vlan =>
      if vlan ∈ emitted then
        rowSettings options index row ++ scriptSettings options emitted (index + 1) rows
      else vlanSettings options.carrier vlan ++ rowSettings options index row ++
        scriptSettings options (vlan :: emitted) (index + 1) rows
    | none => rowSettings options index row ++ scriptSettings options emitted (index + 1) rows

def Plain (s : Text) : Prop := ∀ u ∈ s, isPlain u = true

instance (s : Text) : Decidable (Plain s) :=
  inferInstanceAs (Decidable (∀ u ∈ s, isPlain u = true))

theorem Plain.append {s t : Text} (hs : Plain s) (ht : Plain t) : Plain (s ++ t) :=
  fun u hu => (List.mem_append.mp hu).elim (hs u) (ht u)

theorem Plain.not_lineFeed {s : Text} (hs : Plain s) : 10 ∉ s :=
  fun h => absurd (hs 10 h) (by decide)

theorem plain_of_isDigit {u : Nat} (h : isDigit u = true) : isPlain u = true := by
  simp only [isDigit, Bool.and_eq_true, decide_eq_true_eq] at h
  simp [isPlain, isBlank]
  omega

theorem plain_decimalInt (z : Int) : Plain (decimalInt z) := by
  intro u hu
  unfold decimalInt at hu
  split at hu
  · rcases List.mem_cons.mp hu with rfl | hu
    · decide
    · exact plain_of_isDigit (isDigit_of_mem_decimal hu)
  · exact plain_of_isDigit (isDigit_of_mem_decimal hu)

theorem plain_padZero {width : Nat} {s : Text} (hs : Plain s) : Plain (padZero width s) := by
  refine Plain.append (fun u hu => ?_) hs
  rw [List.eq_of_mem_replicate hu]
  decide

theorem plain_of_isAlnum {u : Nat} (h : isAlnum u = true) : isPlain u = true := by
  simp only [isAlnum, isLower, isUpper, isDigit, Bool.or_eq_true, Bool.and_eq_true,
    decide_eq_true_eq] at h
  simp [isPlain, isBlank]
  omega

theorem plain_of_isPppoePrefix {s : Text} (h : isPppoePrefix s = true) : Plain s := by
  cases s with
  | nil => simp [isPppoePrefix] at h
  | cons u s =>
    simp only [isPppoePrefix, Bool.and_eq_true, List.all_eq_true, Bool.or_eq_true] at h
    intro v hv
    apply plain_of_isAlnum
    simp only [isAlnum, Bool.or_eq_true]
    rcases List.mem_cons.mp hv with rfl | hv
    · exact .inl (.inl h.1.1)
    · exact (h.2 v hv).elim (fun h => .inl (.inl h)) .inr

theorem plain_of_isSafeDeviceName {s : Text} (h : isSafeDeviceName s = true) : Plain s := by
  cases s with
  | nil => simp [isSafeDeviceName] at h
  | cons u s =>
    simp only [isSafeDeviceName, Bool.and_eq_true, List.all_eq_true, Bool.or_eq_true,
      beq_iff_eq] at h
    intro v hv
    rcases List.mem_cons.mp hv with rfl | hv
    · exact plain_of_isAlnum h.1.1
    · rcases h.2 v hv with (((((h | rfl) | rfl) | rfl) | rfl) | rfl)
      · exact plain_of_isAlnum h
      all_goals decide

/-- Names outside quotes are plain; a value holds no line feed. -/
structure UciSetting.Clean (s : UciSetting) : Prop where
  section_plain : Plain s.section_
  option_plain : ∀ o ∈ s.option, Plain o
  type_plain : s.option = none → Plain s.value
  value_line : 10 ∉ s.value

theorem UciSetting.Clean.ofType {name value : Text} (hn : Plain name) (hv : Plain value) :
    (⟨name, none, value⟩ : UciSetting).Clean :=
  ⟨hn, by simp, fun _ => hv, hv.not_lineFeed⟩

theorem UciSetting.Clean.ofOption {name o value : Text} (hn : Plain name) (ho : Plain o)
    (hv : 10 ∉ value) : (⟨name, some o, value⟩ : UciSetting).Clean :=
  ⟨hn, by simpa using ho, by simp, hv⟩

/-- The reader takes a clean setting's line as `set` and the assignment. -/
theorem words_line {s : UciSetting} (h : s.Clean) :
    words s.line = some [js "set", s.assignment] := by
  have hset : ∀ rest : Text, words (js "set network." ++ rest) =
      (scan .plain (some (js "network.")) rest).map (js "set" :: ·) := by
    intro rest
    have hjs : js "set network." ++ rest = js "set" ++ 32 :: (js "network." ++ rest) := rfl
    have hstart := scan_plain_start (js "network.") rest (by decide) (by decide)
    rw [hjs, words, scan_plain_start _ _ (by decide) (by decide), scan]
    simp only [isBlank, beq_self_eq_true, Bool.true_or, if_true]
    rw [hstart]
    rfl
  cases ho : s.option with
  | none =>
    have hp := scan_plain (s.section_ ++ js "=" ++ s.value) [] (js "network.")
      ((h.section_plain.append (by decide)).append (h.type_plain ho))
    simp only [UciSetting.line, UciSetting.assignment, ho, List.append_assoc] at hp ⊢
    rw [hset]
    simp only [List.append_nil] at hp
    rw [hp]
    simp [scan]
  | some o =>
    have hp := scan_plain (s.section_ ++ js "." ++ o ++ js "=") (uciQuote s.value) (js "network.")
      (((h.section_plain.append (by decide)).append (h.option_plain o ho)).append (by decide))
    have hq := scan_singleQuote s.value [] (js "network." ++ (s.section_ ++ js "." ++ o ++ js "="))
    simp only [UciSetting.line, UciSetting.assignment, ho, List.append_assoc, List.append_nil,
      uciQuote] at hp hq ⊢
    rw [hset, hp, hq]
    simp [scan]

theorem line_not_lineFeed {s : UciSetting} (h : s.Clean) : 10 ∉ s.line := by
  cases ho : s.option with
  | none =>
    simp only [UciSetting.line, ho, List.mem_append, not_or]
    exact ⟨⟨⟨by decide, h.section_plain.not_lineFeed⟩, by decide⟩, h.value_line⟩
  | some o =>
    simp only [UciSetting.line, ho, List.mem_append, not_or]
    exact ⟨⟨⟨⟨⟨by decide, h.section_plain.not_lineFeed⟩, by decide⟩,
      (h.option_plain o ho).not_lineFeed⟩, by decide⟩,
      not_mem_singleQuote h.value_line (by decide) (by decide)⟩

theorem interfaceSettings_clean {name device user pass : Text} {table : Int} (hn : Plain name)
    (hd : 10 ∉ device) (hu : 10 ∉ user) (hp : 10 ∉ pass) :
    ∀ s ∈ interfaceSettings name device user pass table, s.Clean := by
  have ht := (plain_decimalInt table).not_lineFeed
  intro s hs
  simp only [interfaceSettings, List.mem_cons, List.not_mem_nil, or_false] at hs
  rcases hs with rfl | rfl | rfl | rfl | rfl | rfl | rfl | rfl | rfl | rfl
  · exact .ofType hn (by decide)
  all_goals exact .ofOption hn (by decide) (by first | assumption | decide)

theorem vlanSettings_clean {carrier : Text} {vlan : Int} (hc : Plain carrier) :
    ∀ s ∈ vlanSettings carrier vlan, s.Clean := by
  have hn : Plain (vlanSectionName vlan) := Plain.append (by decide) (plain_decimalInt vlan)
  have hv := (plain_decimalInt vlan).not_lineFeed
  have hd : 10 ∉ vlanDevice carrier vlan :=
    ((hc.append (by decide)).append (plain_decimalInt vlan)).not_lineFeed
  have hc' := hc.not_lineFeed
  intro s hs
  simp only [vlanSettings, List.mem_cons, List.not_mem_nil, or_false] at hs
  rcases hs with rfl | rfl | rfl | rfl | rfl
  · exact .ofType hn (by decide)
  all_goals exact .ofOption hn (by decide) (by first | assumption | decide)

theorem deviceOf_plain {carrier : Text} (hc : Plain carrier) (vlan : Option Int) :
    Plain (deviceOf carrier vlan) := by
  cases vlan with
  | none => exact hc
  | some v => exact (hc.append (by decide)).append (plain_decimalInt v)

theorem rowSettings_clean {options : PppoeBuildOptions} {row : PppoeInputRow} {index : Nat}
    (hp : Plain options.ifacePrefix) (hc : Plain options.carrier)
    (hr : 10 ∉ row.user ∧ 10 ∉ row.pass) : ∀ s ∈ rowSettings options index row, s.Clean :=
  interfaceSettings_clean (hp.append (plain_padZero (plain_decimalInt _)))
    (deviceOf_plain hc _).not_lineFeed hr.1 hr.2

theorem scriptSettings_clean {options : PppoeBuildOptions} {rows : List PppoeInputRow}
    {emitted : List Int} {index : Nat} (hp : Plain options.ifacePrefix)
    (hc : Plain options.carrier) (hr : ∀ row ∈ rows, 10 ∉ row.user ∧ 10 ∉ row.pass) :
    ∀ s ∈ scriptSettings options emitted index rows, s.Clean := by
  induction rows generalizing emitted index with
  | nil => simp [scriptSettings]
  | cons row rows ih =>
    have hrow : ∀ s ∈ rowSettings options index row, s.Clean :=
      rowSettings_clean hp hc (hr row (by simp))
    have hrest : ∀ (vs : List Int), ∀ s ∈ scriptSettings options vs (index + 1) rows, s.Clean :=
      fun vs => ih fun r hr' => hr r (List.mem_cons_of_mem _ hr')
    intro s hs
    simp only [scriptSettings] at hs
    split at hs
    · split at hs
      · exact (List.mem_append.mp hs).elim (hrow s) (hrest _ s)
      · rcases List.mem_append.mp hs with hs | hs
        · exact (List.mem_append.mp hs).elim (vlanSettings_clean hc s) (hrow s)
        · exact hrest _ s hs
    · exact (List.mem_append.mp hs).elim (hrow s) (hrest _ s)

theorem wholeNumber_ok {value : Number} {label : Text} {n : Int}
    (h : wholeNumber value label = .ok n) : value.integer? = some n := by
  unfold wholeNumber at h
  split at h
  · cases h; assumption
  · cases h

theorem validVlan_ok {value : Option Number} {vlan : Option Int} (h : validVlan value = .ok vlan) :
    vlan = value.bind Number.integer? := by
  cases value with
  | none => cases h; rfl
  | some v =>
    obtain ⟨n, hn, h⟩ := bind_eq_ok.mp h
    obtain ⟨-, h⟩ := ite_error_eq_ok.mp h
    cases h
    simpa using (wholeNumber_ok hn).symm

theorem addIndex_integer {v : Number} {index : Nat} {n : Int}
    (h : (addIndex v index).integer? = some n) : n = wholeOf v + index := by
  rw [Number.integer?_eq_some] at h
  cases v with
  | fin q =>
    have hq : q + index = n := by simpa [addIndex, Number.ofInt] using h
    have hz : Number.fin q = Number.ofInt (n - index) := by
      simp only [Number.ofInt, Number.fin.injEq]
      push_cast
      linarith
    simp [wholeOf, hz]
  | inf b => cases h
  | nan => cases h

theorem pppoeSectionName_ok {ifacePrefix name : Text} {seq : Number}
    (h : pppoeSectionName ifacePrefix seq = .ok name) :
    ∃ n : Int, seq.integer? = some n ∧ name = ifacePrefix ++ padZero 5 (decimalInt n) := by
  unfold pppoeSectionName at h
  obtain ⟨-, h⟩ := ite_error_eq_ok.mp h
  obtain ⟨padded, hp, h⟩ := bind_eq_ok.mp h
  obtain ⟨-, h⟩ := ite_error_eq_ok.mp h
  obtain ⟨n, hn, hp⟩ := bind_eq_ok.mp hp
  obtain ⟨-, hp⟩ := ite_error_eq_ok.mp hp
  cases h
  cases hp
  exact ⟨n, wholeNumber_ok hn, rfl⟩

theorem pppoeTableId_ok {tableBase seq : Number} {table : Int}
    (h : pppoeTableId tableBase seq = .ok table) :
    ∃ n : Int, seq.integer? = some n ∧ table = wholeOf tableBase + n := by
  unfold pppoeTableId at h
  obtain ⟨base, hb, h⟩ := bind_eq_ok.mp h
  obtain ⟨n, hn, h⟩ := bind_eq_ok.mp h
  obtain ⟨-, h⟩ := ite_error_eq_ok.mp h
  cases h
  exact ⟨n, wholeNumber_ok hn, by simp [wholeOf, wholeNumber_ok hb]⟩

theorem rowVlan_eq {options : PppoeBuildOptions} {row : PppoeInputRow} :
    ((row.vlan.or (options.vlan.bind Number.integer?)).map Number.ofInt).bind Number.integer? =
      rowVlan options row := by
  unfold rowVlan
  cases row.vlan.or (options.vlan.bind Number.integer?) <;> simp

/-- A section plan that was built holds the settings of its row. -/
theorem buildPppoeSection_ok {options : PppoeBuildOptions} {row : PppoeInputRow} {index : Nat}
    {plan : PppoeSectionPlan}
    (h : buildPppoeSection options (options.vlan.bind Number.integer?) row index = .ok plan) :
    plan.vlan = rowVlan options row ∧
      plan.lines = (rowSettings options index row).map UciSetting.line := by
  unfold buildPppoeSection at h
  obtain ⟨name, hname, h⟩ := bind_eq_ok.mp h
  obtain ⟨table, htable, h⟩ := bind_eq_ok.mp h
  obtain ⟨vlan, hvlan, h⟩ := bind_eq_ok.mp h
  obtain ⟨-, h⟩ := ite_error_eq_ok.mp h
  cases h
  obtain ⟨n, hn, rfl⟩ := pppoeSectionName_ok hname
  obtain ⟨m, hm, rfl⟩ := pppoeTableId_ok htable
  have hv : vlan = rowVlan options row := (validVlan_ok hvlan).trans rowVlan_eq
  have hnm : n = m := Option.some.inj (hn.symm.trans hm)
  subst hv hnm
  exact ⟨rfl, by rw [rowSettings, addIndex_integer hn]⟩

theorem vlanLines_ok {carrier : Text} {vlan : Int} {lines : List Text}
    (h : vlanLines carrier vlan = .ok lines) :
    lines = (vlanSettings carrier vlan).map UciSetting.line := by
  obtain ⟨-, h⟩ := ite_error_eq_ok.mp h
  cases h
  rfl

theorem linesFrom_ok {options : PppoeBuildOptions} {rows : List PppoeInputRow} {index : Nat}
    {plans : List PppoeSectionPlan} {emitted : List Int} {lines : List Text}
    (hp : buildSectionsFrom options (options.vlan.bind Number.integer?) index rows = .ok plans)
    (h : linesFrom options.carrier emitted plans = .ok lines) :
    lines = (scriptSettings options emitted index rows).map UciSetting.line := by
  induction rows generalizing index plans emitted lines with
  | nil =>
    cases hp
    cases h
    rfl
  | cons row rows ih =>
    obtain ⟨plan, hplan, hp⟩ := bind_eq_ok.mp hp
    obtain ⟨rest, hrest, hp⟩ := bind_eq_ok.mp hp
    cases hp
    obtain ⟨hvlan, hlines⟩ := buildPppoeSection_ok hplan
    simp only [linesFrom, hvlan, hlines] at h
    simp only [scriptSettings]
    cases hv : rowVlan options row with
    | none =>
      rw [hv] at h
      obtain ⟨tail, ht, h⟩ := bind_eq_ok.mp h
      cases h
      simp [ih hrest ht]
    | some vlan =>
      simp only [hv] at h
      split at h
      · rename_i hmem
        obtain ⟨tail, ht, h⟩ := bind_eq_ok.mp h
        cases h
        simp [hmem, ih hrest ht]
      · rename_i hmem
        obtain ⟨device, hd, h⟩ := bind_eq_ok.mp h
        obtain ⟨tail, ht, h⟩ := bind_eq_ok.mp h
        cases h
        simp [hmem, ih hrest ht, vlanLines_ok hd]

/-- An accepted script is the lines of the settings its rows ask for. -/
theorem buildPppoeUciLines_ok {rows : List PppoeInputRow} {options : PppoeBuildOptions}
    {lines : List Text} (h : buildPppoeUciLines rows options = .ok lines) :
    isPppoePrefix options.ifacePrefix = true ∧ isSafeDeviceName options.carrier = true ∧
      lines = (scriptSettings options [] 0 rows).map UciSetting.line := by
  obtain ⟨plans, hp, h⟩ := bind_eq_ok.mp h
  obtain ⟨hname, hp⟩ := ite_error_eq_ok.mp hp
  obtain ⟨hcarrier, hp⟩ := ite_error_eq_ok.mp hp
  obtain ⟨batchVlan, hb, hp⟩ := bind_eq_ok.mp hp
  rw [validVlan_ok hb] at hp
  exact ⟨by simpa using hname, by simpa using hcarrier, linesFrom_ok hp h⟩

/-- Two settings that differ at most in the text of a username or a password. -/
def SameButCredential (s t : UciSetting) : Prop :=
  s = t ∨ (s.section_ = t.section_ ∧ s.option = t.option ∧
    (s.option = some (js "username") ∨ s.option = some (js "password")))

def SameLine (a b : Text) : Prop :=
  ∃ s t : UciSetting, a = s.line ∧ b = t.line ∧ SameButCredential s t

theorem SameLine.refl_of_setting (s : UciSetting) : SameLine s.line s.line :=
  ⟨s, s, rfl, rfl, .inl rfl⟩

theorem sameLine_refl (settings : List UciSetting) :
    List.Forall₂ SameLine (settings.map UciSetting.line) (settings.map UciSetting.line) :=
  List.forall₂_same.mpr fun a ha => by
    obtain ⟨s, -, rfl⟩ := List.mem_map.mp ha
    exact SameLine.refl_of_setting s

theorem interfaceSettings_same (name device user pass user' pass' : Text) (table : Int) :
    List.Forall₂ SameLine ((interfaceSettings name device user pass table).map UciSetting.line)
      ((interfaceSettings name device user' pass' table).map UciSetting.line) := by
  simp only [interfaceSettings, List.map_cons, List.map_nil]
  refine .cons (SameLine.refl_of_setting _) (.cons (SameLine.refl_of_setting _)
    (.cons (SameLine.refl_of_setting _) (.cons ?_ (.cons ?_ ?_))))
  · exact ⟨_, _, rfl, rfl, .inr ⟨rfl, rfl, .inl rfl⟩⟩
  · exact ⟨_, _, rfl, rfl, .inr ⟨rfl, rfl, .inr rfl⟩⟩
  · exact sameLine_refl [⟨name, some (js "ipv6"), js "0"⟩, ⟨name, some (js "peerdns"), js "0"⟩,
      ⟨name, some (js "defaultroute"), js "1"⟩, ⟨name, some (js "ip4table"), decimalInt table⟩,
      ⟨name, some (js "metric"), decimalInt table⟩]

/-- Two plans for the same place in two lists. -/
def SamePlan (p q : PppoeSectionPlan) : Prop :=
  p.vlan = q.vlan ∧ List.Forall₂ SameLine p.lines q.lines

theorem buildPppoeSection_same (options : PppoeBuildOptions) (batchVlan : Option Int)
    {row row' : PppoeInputRow} (index : Nat) (h : row.vlan = row'.vlan) :
    SameOutcome SamePlan (buildPppoeSection options batchVlan row index)
      (buildPppoeSection options batchVlan row' index) := by
  unfold buildPppoeSection
  rw [h]
  refine (SameOutcome.refl _).bind fun name _ hname => ?_
  subst hname
  refine (SameOutcome.refl _).bind fun table _ htable => ?_
  subst htable
  refine (SameOutcome.refl _).bind fun vlan _ hvlan => ?_
  subst hvlan
  exact SameOutcome.ite (.error _) (.ok ⟨rfl, interfaceSettings_same ..⟩)

theorem buildSectionsFrom_same (options : PppoeBuildOptions) (batchVlan : Option Int)
    {rows rows' : List PppoeInputRow} (index : Nat)
    (h : rows.map PppoeInputRow.vlan = rows'.map PppoeInputRow.vlan) :
    SameOutcome (List.Forall₂ SamePlan) (buildSectionsFrom options batchVlan index rows)
      (buildSectionsFrom options batchVlan index rows') := by
  induction rows generalizing rows' index with
  | nil =>
    cases rows' with
    | nil => exact .ok .nil
    | cons row' rows' => simp at h
  | cons row rows ih =>
    cases rows' with
    | nil => simp at h
    | cons row' rows' =>
      simp only [List.map_cons, List.cons.injEq] at h
      refine (buildPppoeSection_same options batchVlan index h.1).bind fun plan plan' hp => ?_
      refine (ih (index + 1) h.2).bind fun plans plans' hps => ?_
      exact .ok (.cons hp hps)

theorem linesFrom_same (carrier : Text) (emitted : List Int)
    {plans plans' : List PppoeSectionPlan} (h : List.Forall₂ SamePlan plans plans') :
    SameOutcome (List.Forall₂ SameLine) (linesFrom carrier emitted plans)
      (linesFrom carrier emitted plans') := by
  induction h generalizing emitted with
  | nil => exact .ok .nil
  | @cons plan plan' plans plans' hp _ ih =>
    simp only [linesFrom, ← hp.1]
    cases plan.vlan with
    | none => exact (ih emitted).bind fun a b hab => .ok (List.rel_append hp.2 hab)
    | some vlan =>
      refine SameOutcome.ite
        ((ih emitted).bind fun a b hab => .ok (List.rel_append hp.2 hab)) ?_
      cases hv : vlanLines carrier vlan with
      | error e => exact .error e
      | ok device =>
        have hd : List.Forall₂ SameLine device device := by
          rw [vlanLines_ok hv]; exact sameLine_refl _
        exact (ih (vlan :: emitted)).bind fun a b hab =>
          .ok (List.rel_append (List.rel_append hd hp.2) hab)

end BoredManager.OpenWrt
