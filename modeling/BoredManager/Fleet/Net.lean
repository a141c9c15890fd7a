import BoredManager.Js.Blanks
import BoredManager.Js.Digits

/-! IPv4 arithmetic for the target rules: what an address, a block and a range are read as, and the
addresses that a rule names. -/
namespace BoredManager.Fleet.Net
open BoredManager.Js BoredManager.Js.Number

/-- The groups of `/^(\d{1,3})\.(\d{1,3})\.(\d{1,3})\.(\d{1,3})$/`. -/
def IPV4_RE (s : Text) : Option (List Text) :=
  let parts := s.splitOn 46
  if parts.length = 4 ∧ ∀ part ∈ parts, part ≠ [] ∧ part.length ≤ 3 ∧ part.all isDigit = true
  then some parts else none

def ipToInt (ip : Text) : Option Nat :=
  (IPV4_RE (trim ip)).bind fun parts =>
    parts.foldlM (fun (out : Nat) part => (whole part 255).map fun octet => out * 256 + octet.toNat) 0

/-- The loop of `intToIp`. -/
def unshift : Nat → Nat → List Nat → List Nat
  | 0, _, parts => parts
  | n + 1, rest, parts => unshift n (rest / 256) (rest % 256 :: parts)

def intToIp (value : Nat) : Text := join [46] ((unshift 4 value []).map decimal)

structure Cidr where
  base : Nat
  prefixLen : Nat
deriving DecidableEq

def Cidr.size (cidr : Cidr) : Nat := 2 ^ (32 - cidr.prefixLen)

def parseCidr (text : Text) : Option Cidr :=
  match (trim text).splitOn 47 with
  | [address, bits] =>
    match ipToInt address, whole bits 32 with
    | some base, some prefixLen =>
      some ⟨base - base % 2 ^ (32 - prefixLen.toNat), prefixLen.toNat⟩
    | _, _ => none
  | _ => none

def cidrContains (cidr : Cidr) (value : Nat) : Bool :=
  cidr.base ≤ value && value < cidr.base + cidr.size

/-- The end of a range: a full address, or the last octet of one beside its first. -/
def rangeEnd (first : Nat) (tail : Text) : Option Nat :=
  if 46 ∈ tail then ipToInt tail
  else (whole tail 255).map fun last => first / 256 * 256 + last.toNat

def parseRange (text : Text) : Option (Nat × Nat) :=
  match (trim text).dropWhile (· ≠ 45) with
  | [] => none
  | _ :: tail =>
    match ipToInt ((trim text).takeWhile (· ≠ 45)) with
    | none => none
    | some first =>
      match rangeEnd first (trim tail) with
      | none => none
      | some last => if last < first then none else some (first, last)

inductive TargetKind where
  | host | cidr | range
deriving DecidableEq

structure Enumerated where
  ips : List Text
  total : Int
  truncated : Bool
  problem : Option Text

def Enumerated.empty (problem : Text) : Enumerated := ⟨[], 0, false, some problem⟩

def quoted (value : Text) (text : String) : Text := js "\"" ++ value ++ js "\"" ++ js text

/-- The first and the last address of a rule, or what is wrong with it. -/
def bounds (kind : TargetKind) (value : Text) : Except Text (Nat × Nat) :=
  match kind with
  | .host =>
    match ipToInt value with
    | none => .error (quoted value " is not an IPv4 address")
    | some one => .ok (one, one)
  | .cidr =>
    match parseCidr value with
    | none => .error (quoted value " is not a CIDR block like 10.0.0.0/24")
    | some cidr =>
      .ok (if 2 < cidr.size then (cidr.base + 1, cidr.base + cidr.size - 2)
        else (cidr.base, cidr.base + cidr.size - 1))
  | .range =>
    match parseRange value with
    | none => .error (quoted value " is not a range like 10.0.0.10-10.0.0.40")
    | some range => .ok range

def enumerateRule (kind : TargetKind) (value : Text) (cap : Int) : Enumerated :=
  match bounds kind value with
  | .error problem => .empty problem
  | .ok (first, last) =>
    let total := (last : Int) - first + 1
    let take := min total (max 1 cap)
    ⟨(List.range take.toNat).map fun i => intToIp (first + i), total, take < total, none⟩

example : (enumerateRule .cidr (js "10.0.0.0/24") 2).ips = [js "10.0.0.1", js "10.0.0.2"] := by
  decide +kernel

/-! ### What the texts mean -/

/-- A decimal octet of one to three digits. -/
def IsOctet (s : Text) (n : Nat) : Prop := IsDigits s n ∧ s.length ≤ 3 ∧ n ≤ 255

/-- An address of four octets. -/
def IsAddress (s : Text) (v : Nat) : Prop :=
  ∃ a b c d : Text × Nat, (∀ part ∈ [a, b, c, d], IsOctet part.1 part.2) ∧
    s = join [46] [a.1, b.1, c.1, d.1] ∧ v = ((a.2 * 256 + b.2) * 256 + c.2) * 256 + d.2

/-- An address, a slash and a prefix of at most 32 in digits, with blanks around them. -/
def IsCidrText (text : Text) : Prop :=
  ∃ address bits v n, trim text = address ++ 47 :: bits ∧ IsAddress (trim address) v ∧
    IsDigits (trim bits) n ∧ n ≤ 32

/-- An address, a dash, and an address or a last octet in digits that is not below the first. -/
def IsRangeText (text : Text) : Prop :=
  ∃ address tail first last, trim text = address ++ 45 :: tail ∧ IsAddress (trim address) first ∧
    (IsAddress (trim tail) last ∨
      ∃ n ≤ 255, IsDigits (trim tail) n ∧ last = first / 256 * 256 + n) ∧ first ≤ last

/-- Another spelling of a number up to the limit than its digits; no text at all is one of 0. -/
def OtherSpelling (text : Text) (limit : Nat) (n : Int) : Prop :=
  whole text limit = some n ∧ ¬∃ digits, IsDigits (trim text) digits

/-- A block whose prefix is written in another way than in digits. -/
def CidrSlip (text : Text) : Prop :=
  ∃ address bits v n, (trim text).splitOn 47 = [address, bits] ∧ IsAddress (trim address) v ∧
    OtherSpelling bits 32 n

/-- A range whose last octet is written in another way than in digits. -/
def RangeSlip (text : Text) : Prop :=
  ∃ address tail first n, trim text = address ++ 45 :: tail ∧ IsAddress (trim address) first ∧
    46 ∉ tail ∧ OtherSpelling tail 255 n ∧ (first : Int) ≤ first / 256 * 256 + n

theorem isDigits_of_all {s : Text} (hne : s ≠ []) (h : s.all isDigit = true) :
    IsDigits s (continueValue 10 s 0) :=
  ⟨hne, List.all_eq_true.mp h, rfl⟩

theorem whole_octet {s : Text} {n : Nat} (h : IsDigits s n) :
    whole s 255 = if n ≤ 255 then some (n : Int) else none :=
  have hlimit : 255 < 2 ^ 52 := by norm_num
  whole_digits (h.trim_eq.symm ▸ h) hlimit

theorem length_four {parts : List Text} (h : parts.length = 4) : ∃ a b c d, parts = [a, b, c, d] := by
  obtain ⟨a, parts, rfl⟩ := List.exists_of_length_succ parts h
  obtain ⟨b, parts, rfl⟩ := List.exists_of_length_succ parts (Nat.succ.inj h)
  obtain ⟨c, parts, rfl⟩ := List.exists_of_length_succ parts (Nat.succ.inj (Nat.succ.inj h))
  obtain ⟨d, rfl⟩ := List.length_eq_one_iff.mp (Nat.succ.inj (Nat.succ.inj (Nat.succ.inj h)))
  exact ⟨a, b, c, d, rfl⟩

/-- The groups of an address are its octets. -/
theorem IPV4_RE_eq_some {s : Text} {parts : List Text} :
    IPV4_RE s = some parts ↔ s = join [46] parts ∧ parts.length = 4 ∧
      ∀ part ∈ parts, part ≠ [] ∧ part.length ≤ 3 ∧ part.all isDigit = true := by
  rw [IPV4_RE, Option.ite_none_right_eq_some]
  constructor
  · rintro ⟨⟨hlength, hparts⟩, heq⟩
    cases heq
    exact ⟨(List.intercalate_splitOn 46).symm, hlength, hparts⟩
  · rintro ⟨rfl, hlength, hparts⟩
    have hdot : ∀ part ∈ parts, 46 ∉ part := fun part hpart hmem =>
      absurd (List.all_eq_true.mp (hparts part hpart).2.2 46 hmem) (by decide)
    have hsplit : (join [46] parts).splitOn 46 = parts :=
      List.splitOn_intercalate 46 hdot (by rintro rfl; cases hlength)
    rw [hsplit]
    exact ⟨⟨hlength, hparts⟩, rfl⟩

/-- One octet of the sum, which fails above 255. -/
theorem octet_eq_some {part : Text} {out next : Nat} {n : Nat} (h : IsDigits part n) :
    (whole part 255).map (fun octet => out * 256 + octet.toNat) = some next ↔
      n ≤ 255 ∧ next = out * 256 + n := by
  rw [whole_octet h]
  split_ifs with hle
  · simp [hle, eq_comm]
  · simp [hle]

/-- The text is an address, and the number is its value. -/
theorem ipToInt_eq_some {ip : Text} {v : Nat} : ipToInt ip = some v ↔ IsAddress (trim ip) v := by
  rw [ipToInt, Option.bind_eq_some_iff]
  constructor
  · rintro ⟨parts, hparts, hsum⟩
    obtain ⟨hjoin, hlength, hall⟩ := (IPV4_RE_eq_some).mp hparts
    obtain ⟨a, b, c, d, rfl⟩ := length_four hlength
    have hdigits : ∀ part ∈ [a, b, c, d], IsDigits part (continueValue 10 part 0) := fun part hpart =>
      isDigits_of_all (hall part hpart).1 (hall part hpart).2.2
    simp only [List.foldlM_cons, List.foldlM_nil, Option.bind_eq_bind, Option.bind_eq_some_iff,
      octet_eq_some (hdigits a (by simp)), octet_eq_some (hdigits b (by simp)),
      octet_eq_some (hdigits c (by simp)), octet_eq_some (hdigits d (by simp)), Option.pure_def,
      Option.some.injEq] at hsum
    obtain ⟨_, ⟨ha, rfl⟩, _, ⟨hb, rfl⟩, _, ⟨hc, rfl⟩, _, ⟨hd, rfl⟩, rfl⟩ := hsum
    refine ⟨(a, continueValue 10 a 0), (b, continueValue 10 b 0), (c, continueValue 10 c 0),
      (d, continueValue 10 d 0), ?_, hjoin, by rw [Nat.zero_mul, Nat.zero_add]⟩
    simp only [List.forall_mem_cons, List.not_mem_nil, false_implies, implies_true, and_true]
    exact ⟨⟨hdigits a (by simp), (hall a (by simp)).2.1, ha⟩, ⟨hdigits b (by simp), (hall b (by simp)).2.1, hb⟩,
      ⟨hdigits c (by simp), (hall c (by simp)).2.1, hc⟩, ⟨hdigits d (by simp), (hall d (by simp)).2.1, hd⟩⟩
  · rintro ⟨a, b, c, d, hoctets, hjoin, rfl⟩
    simp only [List.forall_mem_cons, List.not_mem_nil, false_implies, implies_true, and_true] at hoctets
    obtain ⟨ha, hb, hc, hd⟩ := hoctets
    refine ⟨[a.1, b.1, c.1, d.1], (IPV4_RE_eq_some).mpr ⟨hjoin, rfl, ?_⟩, ?_⟩
    · have hgood : ∀ {part : Text × Nat}, IsOctet part.1 part.2 →
          part.1 ≠ [] ∧ part.1.length ≤ 3 ∧ part.1.all isDigit = true := fun h =>
        ⟨h.1.1, h.2.1, List.all_eq_true.mpr h.1.2.1⟩
      simpa only [List.forall_mem_cons, List.not_mem_nil, false_implies, implies_true, and_true] using
        ⟨hgood ha, hgood hb, hgood hc, hgood hd⟩
    · simp [whole_octet ha.1, whole_octet hb.1, whole_octet hc.1, whole_octet hd.1, ha.2.2, hb.2.2,
        hc.2.2, hd.2.2]

theorem IsAddress.lt {s : Text} {v : Nat} (h : IsAddress s v) : v < 2 ^ 32 := by
  obtain ⟨a, b, c, d, hoctets, -, rfl⟩ := h
  simp only [List.forall_mem_cons, List.not_mem_nil, false_implies, implies_true, and_true] at hoctets
  obtain ⟨⟨-, -, ha⟩, ⟨-, -, hb⟩, ⟨-, -, hc⟩, -, -, hd⟩ := hoctets
  omega

theorem isOctet_decimal {n : Nat} (h : n < 256) : IsOctet (decimal n) n :=
  ⟨⟨decimal_ne_nil n, isDigit_decimal n, continueValue_decimal n⟩,
    length_radixText (by omega) (by omega), by omega⟩

/-- An address is digits and points. -/
theorem IsAddress.units {s : Text} {v u : Nat} (h : IsAddress s v) (hu : u ∈ s) :
    isDigit u = true ∨ u = 46 := by
  obtain ⟨a, b, c, d, hoctets, rfl, -⟩ := h
  simp only [List.forall_mem_cons, List.not_mem_nil, false_implies, implies_true, and_true] at hoctets
  obtain ⟨ha, hb, hc, hd⟩ := hoctets
  simp only [join, List.intercalate_cons_cons, List.intercalate_singleton, List.mem_append,
    List.mem_singleton] at hu
  obtain ((hu | hu) | (hu | hu) | (hu | hu) | hu) := hu
  · exact .inl (ha.1.2.1 u hu)
  · exact .inr hu
  · exact .inl (hb.1.2.1 u hu)
  · exact .inr hu
  · exact .inl (hc.1.2.1 u hu)
  · exact .inr hu
  · exact .inl (hd.1.2.1 u hu)

/-- The text of a number is its address. -/
theorem ipToInt_intToIp {v : Nat} (h : v < 2 ^ 32) : ipToInt (intToIp v) = some v := by
  have haddress : IsAddress (intToIp v) v := by
    refine ⟨(_, v / 256 / 256 / 256 % 256), (_, v / 256 / 256 % 256), (_, v / 256 % 256), (_, v % 256),
      ?_, rfl, by omega⟩
    have hoctet : ∀ n : Nat, IsOctet (decimal (n % 256)) (n % 256) := fun n =>
      isOctet_decimal (Nat.mod_lt _ (by norm_num))
    simp only [List.forall_mem_cons, List.not_mem_nil, false_implies, implies_true, and_true]
    exact ⟨hoctet _, hoctet _, hoctet _, hoctet _⟩
  have htrim : trim (intToIp v) = intToIp v := by
    refine trim_eq_self fun u hu => ?_
    obtain hdigit | rfl := haddress.units hu
    · exact not_isSpace_of_isDigit hdigit
    · rfl
  rw [ipToInt_eq_some, htrim]
  exact haddress

theorem IsAddress.not_mem {s : Text} {v u : Nat} (h : IsAddress (trim s) v) (hspace : isSpace u = false)
    (hdigit : isDigit u = false) (hdot : u ≠ 46) : u ∉ s := by
  intro hu
  obtain hblank | hunit := mem_trim_or_space hu
  · rw [hspace] at hblank
    cases hblank
  · obtain hunit | hunit := h.units hunit
    · rw [hdigit] at hunit
      cases hunit
    · exact hdot hunit

theorem not_mem_of_digits {s : Text} {n u : Nat} (h : IsDigits (trim s) n) (hspace : isSpace u = false)
    (hdigit : isDigit u = false) : u ∉ s := by
  intro hu
  obtain hblank | hunit := mem_trim_or_space hu
  · rw [hspace] at hblank
    cases hblank
  · rw [h.2.1 u hunit] at hdigit
    cases hdigit

theorem splitOn_eq_pair {s a b : Text} {u : Nat} :
    s.splitOn u = [a, b] ↔ s = a ++ u :: b ∧ u ∉ a ∧ u ∉ b := by
  have hjoin : [u].intercalate [a, b] = a ++ u :: b := by simp
  constructor
  · intro h
    have hback : [u].intercalate (s.splitOn u) = s := List.intercalate_splitOn u
    have hfree : ∀ piece ∈ s.splitOn u, u ∉ piece := fun piece hpiece hu => by
      have hfalse := (not_mem_of_mem_splitOnP (p := (· == u)) hpiece hu).2
      simp at hfalse
    rw [h] at hback hfree
    rw [hjoin] at hback
    exact ⟨hback.symm, hfree a (by simp), hfree b (by simp)⟩
  · rintro ⟨rfl, ha, hb⟩
    rw [← hjoin]
    exact List.splitOn_intercalate u (by simp [ha, hb]) (by simp)

theorem parseCidr_isSome {text : Text} : (parseCidr text).isSome = true ↔
    ∃ address bits v n, (trim text).splitOn 47 = [address, bits] ∧ IsAddress (trim address) v ∧
      whole bits 32 = some n := by
  rw [parseCidr]
  constructor
  · intro h
    split at h
    · rename_i address bits hsplit
      split at h
      · rename_i base prefixLen hbase hprefix
        exact ⟨address, bits, base, prefixLen, hsplit, (ipToInt_eq_some).mp hbase, hprefix⟩
      · cases h
    · cases h
  · rintro ⟨address, bits, v, n, hsplit, haddress, hbits⟩
    rw [hsplit]
    dsimp only
    rw [(ipToInt_eq_some).mpr haddress, hbits]
    rfl

theorem IsCidrText.isSome {text : Text} (h : IsCidrText text) : (parseCidr text).isSome = true := by
  obtain ⟨address, bits, v, n, htext, haddress, hbits, hn⟩ := h
  refine (parseCidr_isSome).mpr ⟨address, bits, v, n, (splitOn_eq_pair).mpr ⟨htext, ?_, ?_⟩, haddress, ?_⟩
  · exact haddress.not_mem rfl rfl (by norm_num)
  · exact not_mem_of_digits hbits rfl rfl
  · rw [show (32 : Int) = (32 : Nat) from rfl, whole_digits hbits (by norm_num), if_pos hn]

/-- A text is read as a block if and only if it is one, other spellings of the prefix apart. -/
theorem parseCidr_agrees (text : Text) :
    ((parseCidr text).isSome = true ↔ IsCidrText text) ↔ ¬CidrSlip text := by
  constructor
  · rintro hagrees ⟨address, bits, v, n, hsplit, haddress, hwhole, hother⟩
    obtain ⟨address', bits', v', n', htext, haddress', hbits, -⟩ :=
      hagrees.mp (parseCidr_isSome.mpr ⟨address, bits, v, n, hsplit, haddress, hwhole⟩)
    have hsame := (splitOn_eq_pair).mpr
      ⟨htext, haddress'.not_mem rfl rfl (by norm_num), not_mem_of_digits hbits rfl rfl⟩
    rw [hsplit] at hsame
    cases hsame
    exact hother ⟨n', hbits⟩
  · intro hslip
    refine ⟨fun h => ?_, IsCidrText.isSome⟩
    obtain ⟨address, bits, v, n, hsplit, haddress, hwhole⟩ := (parseCidr_isSome).mp h
    by_cases hdigits : ∃ digits, IsDigits (trim bits) digits
    · obtain ⟨digits, hdigits⟩ := hdigits
      refine ⟨address, bits, v, digits, (splitOn_eq_pair.mp hsplit).1, haddress, hdigits, ?_⟩
      rw [show (32 : Int) = (32 : Nat) from rfl, whole_digits hdigits (by norm_num)] at hwhole
      exact (Option.ite_none_right_eq_some.mp hwhole).1
    · exact absurd ⟨address, bits, v, n, hsplit, haddress, hwhole, hdigits⟩ hslip

theorem rangeEnd_eq_some {first last : Nat} {tail : Text} : rangeEnd first tail = some last ↔
    (46 ∈ tail ∧ IsAddress (trim tail) last) ∨
      (46 ∉ tail ∧ ∃ n, whole tail 255 = some n ∧ last = first / 256 * 256 + n.toNat) := by
  rw [rangeEnd]
  split_ifs with hdot
  · simp [hdot, ipToInt_eq_some]
  · simp [hdot, eq_comm]

/-- The first dash of a text is the one behind an address. -/
theorem cut_at_dash {text address tail : Text} (h : text = address ++ 45 :: tail) (hdash : 45 ∉ address) :
    text.takeWhile (· ≠ 45) = address ∧ text.dropWhile (· ≠ 45) = 45 :: tail := by
  have hfree : ∀ u ∈ address, decide (u ≠ 45) = true := fun u hu =>
    decide_eq_true fun heq => hdash (heq ▸ hu)
  subst h
  rw [List.takeWhile_append_of_pos hfree, List.dropWhile_append_of_pos hfree]
  simp

theorem parseRange_eq_some {text : Text} {range : Nat × Nat} : parseRange text = some range ↔
    ∃ address tail, trim text = address ++ 45 :: tail ∧ IsAddress (trim address) range.1 ∧
      rangeEnd range.1 (trim tail) = some range.2 ∧ range.1 ≤ range.2 := by
  rw [parseRange]
  constructor
  · intro h
    split at h
    · cases h
    · rename_i u tail hdrop
      split at h
      · cases h
      · rename_i first hfirst
        split at h
        · cases h
        · rename_i last hlast
          split_ifs at h with hbelow
          cases h
          have hu : u = 45 := by
            have hhead := List.head?_dropWhile_not (fun u : Nat => decide (u ≠ 45)) (trim text)
            rw [hdrop] at hhead
            simpa using hhead
          have htext := List.takeWhile_append_dropWhile (p := fun u : Nat => decide (u ≠ 45)) (l := trim text)
          rw [hdrop, hu] at htext
          exact ⟨_, tail, htext.symm, (ipToInt_eq_some).mp hfirst, hlast, not_lt.mp hbelow⟩
  · rintro ⟨address, tail, htext, haddress, hend, hle⟩
    obtain ⟨htake, hdrop⟩ := cut_at_dash htext (haddress.not_mem rfl rfl (by norm_num))
    simp only [hdrop, htake, (ipToInt_eq_some).mpr haddress, hend, if_neg (not_lt.mpr hle)]

theorem IsRangeText.isSome {text : Text} (h : IsRangeText text) : (parseRange text).isSome = true := by
  obtain ⟨address, tail, first, last, htext, haddress, hend, hle⟩ := h
  refine Option.isSome_iff_exists.mpr ⟨(first, last), (parseRange_eq_some).mpr
    ⟨address, tail, htext, haddress, (rangeEnd_eq_some).mpr ?_, hle⟩⟩
  rw [trim_trim]
  obtain hfull | ⟨n, hn, hdigits, rfl⟩ := hend
  · refine .inl ⟨?_, hfull⟩
    obtain ⟨a, b, c, d, -, hjoin, -⟩ := hfull
    rw [hjoin]
    simp [join]
  · refine .inr ⟨fun hdot => ?_, n, ?_, rfl⟩
    · have hdigit := hdigits.2.1 46 hdot
      cases hdigit
    · rw [show (255 : Int) = (255 : Nat) from rfl, whole_digits (by rwa [trim_trim]) (by norm_num), if_pos hn]

theorem whole_trim (s : Text) (limit : Int) : whole (trim s) limit = whole s limit := by
  rw [whole, ofText_trim, whole]

theorem whole_nonneg {s : Text} {limit n : Int} (h : whole s limit = some n) : 0 ≤ n := by
  obtain ⟨-, hbounds⟩ := Option.filter_eq_some_iff.mp h
  simp only [Bool.and_eq_true, decide_eq_true_eq] at hbounds
  exact hbounds.1

theorem dot_mem_trim {s : Text} : 46 ∈ trim s ↔ 46 ∈ s := by
  refine ⟨mem_trim, fun h => (mem_trim_or_space h).resolve_left ?_⟩
  decide

/-- A text is read as a range if and only if it is one, other spellings of the last octet apart. -/
theorem parseRange_agrees (text : Text) :
    ((parseRange text).isSome = true ↔ IsRangeText text) ↔ ¬RangeSlip text := by
  constructor
  · rintro hagrees ⟨address, tail, first, n, htext, haddress, hdot, ⟨hwhole, hother⟩, hle⟩
    have hpositive := whole_nonneg hwhole
    have hend : rangeEnd first (trim tail) = some (first / 256 * 256 + n.toNat) :=
      (rangeEnd_eq_some).mpr (.inr ⟨fun h => hdot (dot_mem_trim.mp h), n, by rwa [whole_trim], rfl⟩)
    have hparsed : (parseRange text).isSome = true := Option.isSome_iff_exists.mpr
      ⟨(first, _), (parseRange_eq_some).mpr ⟨address, tail, htext, haddress, hend, by dsimp only; omega⟩⟩
    obtain ⟨address', tail', first', last', htext', haddress', hread, -⟩ := hagrees.mp hparsed
    obtain ⟨-, hdrop⟩ := cut_at_dash htext (haddress.not_mem rfl rfl (by norm_num))
    obtain ⟨-, hdrop'⟩ := cut_at_dash htext' (haddress'.not_mem rfl rfl (by norm_num))
    rw [hdrop] at hdrop'
    injection hdrop' with _ htail
    subst htail
    obtain ⟨a, b, c, d, -, hjoin, -⟩ | ⟨n', -, hdigits, -⟩ := hread
    · refine hdot (dot_mem_trim.mp ?_)
      rw [hjoin]
      simp [join]
    · exact hother ⟨n', hdigits⟩
  · intro hslip
    refine ⟨fun h => ?_, IsRangeText.isSome⟩
    obtain ⟨⟨first, last⟩, hrange⟩ := Option.isSome_iff_exists.mp h
    obtain ⟨address, tail, htext, haddress, hend, hle⟩ := (parseRange_eq_some).mp hrange
    refine ⟨address, tail, first, last, htext, haddress, ?_, hle⟩
    obtain ⟨-, hfull⟩ | ⟨hdot, n, hwhole, hlast⟩ := (rangeEnd_eq_some).mp hend
    · rw [trim_trim] at hfull
      exact .inl hfull
    · rw [whole_trim] at hwhole
      have hpositive := whole_nonneg hwhole
      dsimp only at hlast hle
      by_cases hdigits : ∃ digits, IsDigits (trim tail) digits
      · obtain ⟨digits, hdigits⟩ := hdigits
        have hlimit : 255 < 2 ^ 52 := by norm_num
        have hread := whole_digits hdigits hlimit
        rw [show ((255 : Nat) : Int) = 255 from rfl, hwhole, eq_comm,
          Option.ite_none_right_eq_some] at hread
        obtain ⟨hdigit, hread⟩ := hread
        cases hread
        exact .inr ⟨digits, hdigit, hdigits, hlast⟩
      · refine absurd ⟨address, tail, first, n, htext, haddress, fun h => hdot (dot_mem_trim.mpr h),
          ⟨hwhole, hdigits⟩, by omega⟩ hslip

/-! ### What a rule names -/

theorem parseCidr_eq_some {text : Text} {cidr : Cidr} (h : parseCidr text = some cidr) :
    ∃ v, v < 2 ^ 32 ∧ cidr.prefixLen ≤ 32 ∧ cidr.base = v - v % cidr.size := by
  rw [parseCidr] at h
  split at h
  · split at h
    · rename_i base prefixLen hbase hprefix
      cases h
      have hle : prefixLen ≤ 32 := by
        have hbounds := (Option.filter_eq_some_iff.mp hprefix).2
        simp only [Bool.and_eq_true, decide_eq_true_eq] at hbounds
        exact hbounds.2
      refine ⟨base, (ipToInt_eq_some.mp hbase).lt, ?_, rfl⟩
      dsimp only
      omega
    · cases h
  · cases h

/-- A block ends within the addresses. -/
theorem base_add_size {text : Text} {cidr : Cidr} (h : parseCidr text = some cidr) :
    1 ≤ cidr.size ∧ cidr.base + cidr.size ≤ 2 ^ 32 := by
  obtain ⟨v, hv, hprefix, hbase⟩ := parseCidr_eq_some h
  have hpos : 0 < cidr.size := Nat.two_pow_pos _
  have hwhole : 2 ^ 32 = cidr.size * 2 ^ cidr.prefixLen := by
    rw [Cidr.size, ← pow_add, Nat.sub_add_cancel hprefix]
  have hblock : cidr.base = cidr.size * (v / cidr.size) := by
    have hdiv := Nat.div_add_mod v cidr.size
    omega
  have hlt : v / cidr.size < 2 ^ cidr.prefixLen := Nat.div_lt_of_lt_mul (by omega)
  refine ⟨hpos, ?_⟩
  calc cidr.base + cidr.size = cidr.size * (v / cidr.size + 1) := by rw [hblock, mul_add, mul_one]
    _ ≤ cidr.size * 2 ^ cidr.prefixLen := Nat.mul_le_mul_left _ hlt
    _ = 2 ^ 32 := hwhole.symm

theorem parseRange_lt {text : Text} {range : Nat × Nat} (h : parseRange text = some range) :
    range.1 ≤ range.2 ∧ range.2 < 2 ^ 32 := by
  obtain ⟨address, tail, -, haddress, hend, hle⟩ := (parseRange_eq_some).mp h
  refine ⟨hle, ?_⟩
  obtain ⟨-, hfull⟩ | ⟨-, n, hwhole, hlast⟩ := (rangeEnd_eq_some).mp hend
  · exact hfull.lt
  · have hfirst := haddress.lt
    have hbounds := (Option.filter_eq_some_iff.mp hwhole).2
    simp only [Bool.and_eq_true, decide_eq_true_eq] at hbounds
    omega

/-- The bounds of a rule are two addresses in their order. -/
theorem bounds_lt {kind : TargetKind} {value : Text} {first last : Nat}
    (h : bounds kind value = .ok (first, last)) : first ≤ last ∧ last < 2 ^ 32 := by
  cases kind with
  | host =>
    rw [bounds] at h
    cases hone : ipToInt value with
    | none => rw [hone] at h; cases h
    | some one =>
      rw [hone] at h
      cases h
      exact ⟨le_rfl, (ipToInt_eq_some.mp hone).lt⟩
  | cidr =>
    rw [bounds] at h
    cases hcidr : parseCidr value with
    | none => rw [hcidr] at h; cases h
    | some cidr =>
      rw [hcidr] at h
      obtain ⟨hsize, hend⟩ := base_add_size hcidr
      dsimp only at h
      split_ifs at h
      all_goals
        cases h
        omega
  | range =>
    rw [bounds] at h
    cases hrange : parseRange value with
    | none => rw [hrange] at h; cases h
    | some range =>
      rw [hrange] at h
      cases h
      exact parseRange_lt hrange

/-- The addresses of a rule: from the first on, as many as the cap allows. -/
theorem enumerateRule_ok {kind : TargetKind} {value : Text} {cap : Int} {first last : Nat}
    (h : bounds kind value = .ok (first, last)) :
    (enumerateRule kind value cap).ips =
      (List.range (min ((last : Int) - first + 1) (max 1 cap)).toNat).map fun i => intToIp (first + i) := by
  rw [enumerateRule, h]

theorem mem_ips {kind : TargetKind} {value : Text} {cap : Int} {ip : Text}
    (h : ip ∈ (enumerateRule kind value cap).ips) :
    ∃ first last v, bounds kind value = .ok (first, last) ∧ first ≤ v ∧ v ≤ last ∧ ip = intToIp v := by
  cases hbounds : bounds kind value with
  | error problem =>
    rw [enumerateRule, hbounds] at h
    cases h
  | ok range =>
    obtain ⟨first, last⟩ := range
    rw [enumerateRule_ok hbounds] at h
    obtain ⟨i, hi, rfl⟩ := List.mem_map.mp h
    rw [List.mem_range] at hi
    exact ⟨first, last, first + i, rfl, Nat.le_add_right _ _, by omega, rfl⟩

/-- An address with a smaller number. -/
def Below (a b : Text) : Prop := ∃ x y, ipToInt a = some x ∧ ipToInt b = some y ∧ x < y

theorem ips_increasing (kind : TargetKind) (value : Text) (cap : Int) :
    (enumerateRule kind value cap).ips.Pairwise Below := by
  cases hbounds : bounds kind value with
  | error problem =>
    rw [enumerateRule, hbounds]
    exact .nil
  | ok range =>
    obtain ⟨first, last⟩ := range
    obtain ⟨-, hlast⟩ := bounds_lt hbounds
    rw [enumerateRule_ok hbounds, List.pairwise_map]
    refine List.pairwise_lt_range.imp_of_mem fun hi hj hij => ?_
    rw [List.mem_range] at hi hj
    exact ⟨_, _, ipToInt_intToIp (by omega), ipToInt_intToIp (by omega), Nat.add_lt_add_left hij _⟩

theorem length_ips (kind : TargetKind) (value : Text) (cap : Int) :
    ((enumerateRule kind value cap).ips.length : Int) =
      min (enumerateRule kind value cap).total (max 1 cap) := by
  cases hbounds : bounds kind value with
  | error problem =>
    rw [enumerateRule, hbounds]
    change (0 : Int) = min 0 (max 1 cap)
    omega
  | ok range =>
    obtain ⟨first, last⟩ := range
    obtain ⟨hle, -⟩ := bounds_lt hbounds
    rw [enumerateRule_ok hbounds, enumerateRule, hbounds, List.length_map, List.length_range]
    dsimp only
    omega

end BoredManager.Fleet.Net
