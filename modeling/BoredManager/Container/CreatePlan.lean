import BoredManager.Container.CreateDocker
import BoredManager.Js.Digits
import Mathlib.Data.List.Infix
import Mathlib.Data.List.Pairwise

/-! What the parts of the check establish: distinct names, ports that are apart and inside their
ranges, keys of the ports that are taken, and the first free addresses of a range. -/
namespace BoredManager.Container.Create
open BoredManager.Js BoredManager.Js.Number BoredManager.Shared

/-! ### Names -/

theorem continueValue_padZero (width n : Nat) :
    continueValue 10 (padZero width (decimal n)) 0 = n := by
  rw [padZero, continueValue_append, continueValue_zeros, zero_mul, continueValue_decimal]

theorem nodup_generatedNames (namePrefix : Text) (count : Nat) :
    (generatedNames namePrefix count).Nodup := by
  refine (List.nodup_range).map fun i j h => ?_
  have hpad := List.append_cancel_left h
  have hvalue := congrArg (fun s => continueValue 10 s 0) hpad
  simp only [continueValue_padZero] at hvalue
  omega

/-! ### Ports -/

/-- A mapping as the form's parser leaves it. -/
structure PortMapping.Valid (m : PortMapping) : Prop where
  first : 1 ≤ m.hostStart
  ordered : m.hostStart ≤ m.hostEnd
  last : m.hostEnd ≤ 65535

theorem valid_of_parsePort {spec : Text} {m : PortMapping} (h : parsePort spec = .ok m) : m.Valid := by
  rw [parsePort] at h
  split at h
  · cases h
  · dsimp only at h
    split_ifs at h with hrange horder
    cases h
    simp only [inPortRange, Bool.or_eq_true, Bool.not_eq_true', Bool.and_eq_false_iff,
      decide_eq_false_iff_not, not_or] at hrange
    constructor <;> dsimp only <;> omega

theorem valid_of_parsePorts {s : Text} {m : PortMapping} (h : m ∈ (parsePorts s).mappings) :
    m.Valid := by
  have hfold : ∀ parsed : PortParse, (∀ m ∈ parsed.mappings, m.Valid) → ∀ specs : List Text,
      ∀ m ∈ (specs.foldl PortParse.add parsed).mappings, m.Valid := by
    intro parsed hparsed specs
    refine List.foldlRecOn specs _ (motive := fun p : PortParse => ∀ m ∈ p.mappings, m.Valid)
      hparsed fun p hp spec _ m hm => ?_
    rw [PortParse.add] at hm
    split_ifs at hm
    · exact hp m hm
    · cases hspec : parsePort (trim spec) with
      | error complaint =>
        rw [hspec] at hm
        exact hp m hm
      | ok mapping =>
        rw [hspec] at hm
        obtain hm | hm := List.mem_append.mp hm
        · exact hp m hm
        · exact List.mem_singleton.mp hm ▸ valid_of_parsePort hspec
  exact hfold ⟨[], []⟩ (by simp) _ m h

theorem overlaps_eq_nil {ms : List PortMapping} (h : overlaps ms = []) :
    ms.Pairwise fun a b => rangesOverlap a b = false := by
  induction ms with
  | nil => exact List.Pairwise.nil
  | cons m ms ih =>
    rw [overlaps, List.append_eq_nil_iff, List.map_eq_nil_iff] at h
    refine List.Pairwise.cons (fun other hother => ?_) (ih h.2)
    simpa using List.filter_eq_nil_iff.mp h.1 other hother

/-- The mappings of a text without errors do not overlap. -/
theorem apart_of_parsePorts {s : Text} (h : (parsePorts s).errors = []) :
    (parsePorts s).mappings.Pairwise fun a b => rangesOverlap a b = false :=
  overlaps_eq_nil (List.append_eq_nil_iff.mp h).2

/-- A mapping without complaint is wide enough. -/
theorem width_of_checkPorts {ms : List PortMapping} {count : Int} {used : List Text}
    (h : checkPorts ms count used = []) {m : PortMapping} (hm : m ∈ ms) :
    count ≤ (m.hostEnd : Int) - m.hostStart + 1 := by
  rw [checkPorts, List.append_eq_nil_iff] at h
  have hwidth := List.flatMap_eq_nil_iff.mp h.1 m hm
  rw [widthErrors] at hwidth
  split_ifs at hwidth with hsingle hshort
  omega

theorem free_of_checkPorts {ms : List PortMapping} {count : Int} {used : List Text}
    (h : checkPorts ms count used = []) {i : Nat} (hi : (i : Int) < count) {port : TakenPort}
    (hport : port ∈ portsForIndex ms i) : (port.proto.text ++ 58 :: decimal port.host) ∉ used := by
  rw [checkPorts, List.append_eq_nil_iff] at h
  intro hused
  have hclash : port ∈ portClashes ms count.toNat used := List.mem_flatMap.mpr
    ⟨i, List.mem_range.mpr (by omega), List.mem_filter.mpr ⟨hport, by simpa using hused⟩⟩
  have hsome := h.2
  split_ifs at hsome with hnone
  rw [hnone] at hclash
  cases hclash

/-- All the host ports of a job, container after container. -/
def takenPorts (ms : List PortMapping) (count : Nat) : List (Proto × Nat) :=
  (List.range count).flatMap fun i => (portsForIndex ms i).map fun port => (port.proto, port.host)

theorem overlap_of_meet {a b : PortMapping} {i j : Nat} (hproto : a.proto = b.proto)
    (hmeet : a.hostStart + i = b.hostStart + j) (ha : a.hostStart + i ≤ a.hostEnd)
    (hb : b.hostStart + j ≤ b.hostEnd) : rangesOverlap a b = true := by
  simp only [rangesOverlap, hproto, beq_self_eq_true, Bool.true_and, Bool.and_eq_true,
    decide_eq_true_eq]
  omega

theorem not_overlap_symm {a b : PortMapping} (h : rangesOverlap a b = false) :
    rangesOverlap b a = false := by
  by_contra hnot
  simp only [rangesOverlap, Bool.not_eq_false, Bool.and_eq_true, beq_iff_eq, decide_eq_true_eq] at hnot
  refine absurd h (Bool.eq_false_iff.not.mpr (not_not.mpr ?_))
  simp only [rangesOverlap, Bool.and_eq_true, beq_iff_eq, decide_eq_true_eq]
  exact ⟨⟨hnot.1.1.symm, hnot.2⟩, hnot.1.2⟩

instance : Std.Symm fun a b : PortMapping => rangesOverlap a b = false := ⟨fun _ _ => not_overlap_symm⟩

/-- Mappings that are apart and wide enough give every container its own ports. -/
theorem nodup_takenPorts {ms : List PortMapping} {count : Nat}
    (hapart : ms.Pairwise fun a b => rangesOverlap a b = false)
    (hwide : ∀ m ∈ ms, ∀ i < count, m.hostStart + i ≤ m.hostEnd) : (takenPorts ms count).Nodup := by
  have hports : ∀ i, (portsForIndex ms i).map (fun port => (port.proto, port.host)) =
      ms.map fun m => (m.proto, m.hostStart + i) := fun i => by
    rw [portsForIndex, List.map_map]
    rfl
  rw [takenPorts, List.nodup_flatMap]
  refine ⟨fun i hi => ?_, ?_⟩
  · rw [hports]
    have hi := List.mem_range.mp hi
    refine List.pairwise_map.mpr (hapart.imp_of_mem fun {a b} ha hb hfree heq => ?_)
    obtain ⟨hproto, hmeet⟩ := Prod.mk.inj heq
    rw [overlap_of_meet hproto hmeet (hwide a ha i hi) (hwide b hb i hi)] at hfree
    cases hfree
  · refine List.nodup_range.imp_of_mem fun {i j} hi hj hne => ?_
    have hi := List.mem_range.mp hi
    have hj := List.mem_range.mp hj
    change List.Disjoint _ _
    beta_reduce
    rw [hports, hports]
    intro port hport hother
    obtain ⟨a, ha, rfl⟩ := List.mem_map.mp hport
    obtain ⟨b, hb, heq⟩ := List.mem_map.mp hother
    obtain ⟨hproto, hmeet⟩ := Prod.mk.inj heq
    have hover := overlap_of_meet hproto hmeet (hwide b hb j hj) (hwide a ha i hi)
    by_cases hsame : b = a
    · subst hsame
      omega
    · rw [hapart.forall hb ha hsame] at hover
      cases hover

/-! ### Ports that are taken -/

/-- Ports that docker publishes and prints in one piece: one port, or a range of them. -/
structure PublishedPorts where
  first : Nat
  last : Nat
  container : Nat
  proto : Proto
  ordered : first ≤ last
  last_le : last ≤ 65535
  container_le : container + (last - first) ≤ 65535

/-- `:8080->80/tcp`, `:8080-8082->80-82/tcp` -/
def PublishedPorts.text (e : PublishedPorts) : Text :=
  58 :: (decimal e.first ++ ((if e.first = e.last then [] else 45 :: decimal e.last) ++ (js "->" ++
    (decimal e.container ++ ((if e.first = e.last then [] else
      45 :: decimal (e.container + (e.last - e.first))) ++ 47 :: e.proto.text)))))

/-- What `docker ps` prints publishes a port of the host. -/
def Published (dockerPorts : Text) (proto : Proto) (port : Nat) : Prop :=
  ∃ e : PublishedPorts, e.text <:+: dockerPorts ∧ e.proto = proto ∧ e.first ≤ port ∧ port ≤ e.last

/-- It does so in a range of several ports. -/
def PrintedInRange (dockerPorts : Text) (proto : Proto) (port : Nat) : Prop :=
  ∃ e : PublishedPorts, e.text <:+: dockerPorts ∧ e.proto = proto ∧ e.first ≤ port ∧ port ≤ e.last ∧
    e.first < e.last

/-- A line about a socket: its kind, columns without a colon, and the local address with its port. -/
def Listens (listen : Text) (proto : Proto) (port : Nat) : Prop :=
  port ≤ 65535 ∧ ∃ line ∈ listen.splitOn 10, ∃ netid columns address rest,
    splitRuns isSpace (trim line) = netid :: (columns ++ (address ++ 58 :: decimal port) :: rest) ∧
      proto.text <+: netid ∧ ∀ column ∈ columns, 58 ∉ column

theorem length_decimal {n : Nat} (h : n ≤ 65535) : (decimal n).length ≤ 5 :=
  length_radixText (by omega) (by omega)

theorem portRun_decimal {n : Nat} (h : n ≤ 65535) {rest : Text} (hrest : ∀ u ∈ rest.head?, isDigit u = false) :
    portRun (decimal n ++ rest) = some (decimal n, rest) := by
  obtain ⟨htake, hdrop⟩ := takeWhile_digits (isDigit_decimal n) hrest
  have hlength := length_decimal h
  rw [portRun, htake, hdrop, if_neg]
  rintro (hnil | hlong)
  · exact decimal_ne_nil n hnil
  · omega

theorem PUBLISHED_RE_text {e : PublishedPorts} (h : e.first = e.last) (rest : Text) :
    PUBLISHED_RE (e.text ++ rest) = some (e.proto.text ++ 58 :: decimal e.first) := by
  have hfirst : e.first ≤ 65535 := h ▸ e.last_le
  have hcontainer : e.container ≤ 65535 := by have := e.container_le; omega
  have htext : e.text ++ rest = 58 :: (decimal e.first ++ (js "->" ++ (decimal e.container ++
      47 :: (e.proto.text ++ rest)))) := by
    rw [PublishedPorts.text, if_pos h, if_pos h]
    simp
  rw [htext, PUBLISHED_RE, portRun_decimal hfirst (by intro u hu; cases hu; rfl)]
  have hrun : portRun (decimal e.container ++ 47 :: (e.proto.text ++ rest)) =
      some (decimal e.container, 47 :: (e.proto.text ++ rest)) :=
    portRun_decimal hcontainer (by intro u hu; cases hu; rfl)
  have hdrop : (js "->" ++ (decimal e.container ++ 47 :: (e.proto.text ++ rest))).drop 2 =
      decimal e.container ++ 47 :: (e.proto.text ++ rest) := rfl
  have hprefix : (js "->").isPrefixOf (js "->" ++ (decimal e.container ++
      47 :: (e.proto.text ++ rest))) = true := List.isPrefixOf_iff_prefix.mpr (List.prefix_append _ _)
  simp only [Option.bind_eq_bind, Option.bind_some, hprefix, if_true, hdrop, hrun]
  cases e.proto with
  | tcp => rfl
  | udp => rfl

/-- A port that docker prints on its own is among the used ones. -/
theorem mem_used_of_published {dockerPorts : Text} {e : PublishedPorts} (hmem : e.text <:+: dockerPorts)
    (h : e.first = e.last) (listen : Text) :
    (e.proto.text ++ 58 :: decimal e.first) ∈ collectUsedPorts dockerPorts listen := by
  obtain ⟨before, after, rfl⟩ := hmem
  refine List.mem_append_left _ (List.mem_filterMap.mpr ⟨e.text ++ after, ?_, PUBLISHED_RE_text h after⟩)
  rw [List.mem_tails, List.append_assoc]
  exact List.suffix_append _ _

theorem portField_eq {address : Text} {port : Nat} (h : port ≤ 65535) :
    portField (address ++ 58 :: decimal port) = some (decimal port) := by
  have hdigits : ∀ u ∈ (decimal port).reverse, isDigit u = true := fun u hu =>
    isDigit_decimal port u (List.mem_reverse.mp hu)
  have hreverse : (address ++ 58 :: decimal port).reverse =
      (decimal port).reverse ++ 58 :: address.reverse := by simp
  obtain ⟨htake, hdrop⟩ := takeWhile_digits (r := 58 :: address.reverse) hdigits
    (by intro u hu; cases hu; rfl)
  have hlength := length_decimal h
  rw [portField, hreverse, htake, hdrop, List.reverse_reverse, if_neg]
  rintro (hnil | hlong | hcolon)
  · exact decimal_ne_nil port hnil
  · omega
  · exact hcolon rfl

theorem portField_none {column : Text} (h : 58 ∉ column) : portField column = none := by
  rw [portField]
  refine if_pos (.inr (.inr fun hhead => h ?_))
  have hmem := List.mem_of_mem_head? hhead
  exact List.mem_reverse.mp ((List.dropWhile_sublist isDigit).mem hmem)

theorem mem_used_of_listens {listen : Text} {proto : Proto} {port : Nat} (h : Listens listen proto port)
    (dockerPorts : Text) : (proto.text ++ 58 :: decimal port) ∈ collectUsedPorts dockerPorts listen := by
  obtain ⟨hport, line, hline, netid, columns, address, rest, hfields, ⟨tail, rfl⟩, hcolumns⟩ := h
  refine List.mem_append_right _ (List.mem_filterMap.mpr ⟨line, hline, ?_⟩)
  have hfind : (columns ++ (address ++ 58 :: decimal port) :: rest).findSome? portField =
      some (decimal port) := by
    rw [List.findSome?_append, List.findSome?_eq_none_iff.mpr fun column hcolumn =>
      portField_none (hcolumns column hcolumn), Option.none_or, List.findSome?_cons_of_isSome,
      portField_eq hport]
    rw [portField_eq hport]
    rfl
  rw [listening, hfields]
  dsimp only
  rw [hfind]
  cases proto with
  | tcp => rfl
  | udp => rfl

/-! ### Addresses -/

theorem octet_decimal {n : Nat} (h : n < 256) : OpenWrt.octet (decimal n) = some n :=
  (by decide +kernel : ∀ n < 256, OpenWrt.octet (decimal n) = some n) n h

theorem ipToInt_intToIp {v : Nat} (h : v < 2 ^ 32) : ipToInt (intToIp v) = some v := by
  have hdot : ∀ n, 46 ∉ decimal n := fun n hmem => by cases isDigit_decimal n 46 hmem
  have hspace : ∀ n, ∀ u ∈ decimal n, isSpace u = false := fun n u hu =>
    not_isSpace_of_isDigit (isDigit_decimal n u hu)
  have htrim : trim (intToIp v) = intToIp v := by
    have htext : intToIp v = decimal (v / 16777216 % 256) ++ 46 :: (decimal (v / 65536 % 256) ++
        46 :: (decimal (v / 256 % 256) ++ 46 :: decimal (v % 256))) := by simp [intToIp, join]
    refine trim_eq_self fun u hu => ?_
    simp only [htext, List.mem_append, List.mem_cons] at hu
    obtain hu | rfl | hu | rfl | hu | rfl | hu := hu
    · exact hspace _ u hu
    · rfl
    · exact hspace _ u hu
    · rfl
    · exact hspace _ u hu
    · rfl
    · exact hspace _ u hu
  have hsplit : (intToIp v).splitOn 46 = [decimal (v / 16777216 % 256), decimal (v / 65536 % 256),
      decimal (v / 256 % 256), decimal (v % 256)] := by
    refine List.splitOn_intercalate 46 (fun part hpart hmem => ?_) (by simp)
    simp only [List.mem_cons, List.not_mem_nil, or_false] at hpart
    obtain rfl | rfl | rfl | rfl := hpart <;> exact hdot _ hmem
  have hfour : [decimal (v / 16777216 % 256), decimal (v / 65536 % 256), decimal (v / 256 % 256),
      decimal (v % 256)].length = 4 := rfl
  rw [ipToInt, htrim, hsplit, if_pos hfour]
  simp only [List.foldlM_cons, List.foldlM_nil, octet_decimal (Nat.mod_lt _ (by norm_num : 0 < 256)),
    Option.map_some, Option.bind_eq_bind, Option.bind_some]
  refine congrArg some ?_
  omega

theorem octet_lt {part : Text} {n : Nat} (h : OpenWrt.octet part = some n) : n < 256 := by
  rw [OpenWrt.octet] at h
  split_ifs at h with hdigits
  dsimp only at h
  split_ifs at h with hle
  cases h
  omega

theorem ipToInt_lt {ip : Text} {v : Nat} (h : ipToInt ip = some v) : v < 2 ^ 32 := by
  rw [ipToInt] at h
  split_ifs at h with hfour
  obtain ⟨a, b, c, d, hparts⟩ : ∃ a b c d, (trim ip).splitOn 46 = [a, b, c, d] := by
    match hparts : (trim ip).splitOn 46 with
    | [a, b, c, d] => exact ⟨a, b, c, d, rfl⟩
    | [] | [_] | [_, _] | [_, _, _] | _ :: _ :: _ :: _ :: _ :: _ => rw [hparts] at hfour; simp at hfour
  rw [hparts] at h
  simp only [List.foldlM_cons, List.foldlM_nil, Option.bind_eq_bind, Option.bind_eq_some_iff,
    Option.map_eq_some_iff, Option.pure_def, Option.some.injEq] at h
  obtain ⟨_, ⟨x, hx, rfl⟩, _, ⟨y, hy, rfl⟩, _, ⟨z, hz, rfl⟩, _, ⟨w, hw, rfl⟩, rfl⟩ := h
  have := octet_lt hx
  have := octet_lt hy
  have := octet_lt hz
  have := octet_lt hw
  omega

theorem parseCidr_lt {s : Text} {cidr : Cidr} (h : parseCidr s = some cidr) :
    cidr.broadcast < 2 ^ 32 := by
  rw [parseCidr] at h
  split at h
  · split_ifs at h
    simp only [Option.bind_eq_bind, Option.bind_eq_some_iff] at h
    obtain ⟨base, hbase, prefixLen, -, h⟩ := h
    split_ifs at h with hlong
    cases h
    have hlt := ipToInt_lt hbase
    have hwhole : 2 ^ 32 = 2 ^ prefixLen * 2 ^ (32 - prefixLen) := by
      rw [← Nat.pow_add]
      congr 1
      omega
    have hblock : base / 2 ^ (32 - prefixLen) + 1 ≤ 2 ^ prefixLen :=
      Nat.div_lt_of_lt_mul (by rwa [Nat.mul_comm, ← hwhole])
    have hpos := Nat.two_pow_pos (32 - prefixLen)
    have hend := Nat.mul_le_mul_right (2 ^ (32 - prefixLen)) hblock
    rw [← hwhole, Nat.add_mul, one_mul] at hend
    dsimp only
    omega
  · cases h

/-- The last address of a range is an address. -/
theorem parseIpRange_lt {s : Text} {range : IpRange} (h : parseIpRange s = some range) :
    range.last < 2 ^ 32 := by
  rw [parseIpRange] at h
  split_ifs at h with hnil hslash hdash
  · obtain ⟨cidr, hcidr, rfl⟩ := Option.map_eq_some_iff.mp h
    have := parseCidr_lt hcidr
    split_ifs <;> dsimp only <;> omega
  · simp only [Option.bind_eq_bind, Option.bind_eq_some_iff] at h
    obtain ⟨first, -, last, hlast, h⟩ := h
    split_ifs at h
    cases h
    exact ipToInt_lt hlast
  · obtain ⟨one, hone, rfl⟩ := Option.map_eq_some_iff.mp h
    exact ipToInt_lt hone

/-- In an increasing list the first so many are those with fewer smaller ones. -/
theorem mem_take_iff {l : List Nat} (h : l.Pairwise (· < ·)) {k v : Nat} :
    v ∈ l.take k ↔ v ∈ l ∧ (l.filter (· < v)).length < k := by
  induction l generalizing k with
  | nil => simp
  | cons a l ih =>
    obtain ⟨hhead, htail⟩ := List.pairwise_cons.mp h
    cases k with
    | zero => simp
    | succ k =>
      rw [List.take_succ_cons, List.mem_cons, List.mem_cons, ih htail]
      by_cases hv : v = a
      · have hnone : (a :: l).filter (· < v) = [] := by
          refine List.filter_eq_nil_iff.mpr fun b hb => ?_
          obtain rfl | hb := List.mem_cons.mp hb
          · simp [hv]
          · have := hhead b hb
            simp only [decide_eq_true_eq]
            omega
        simp [hv, hv ▸ hnone]
      · simp only [hv, false_or]
        refine and_congr_right fun hmem => ?_
        rw [List.filter_cons_of_pos (by simpa using hhead v hmem), List.length_cons]
        omega

theorem pairwise_freeAmong (used : List Nat) (first n : Nat) :
    (freeAmong used first n).Pairwise (· < ·) := by
  refine List.Pairwise.filter _ (List.pairwise_map.mpr (List.pairwise_lt_range.imp fun h => ?_))
  omega

theorem mem_freeAmong {used : List Nat} {first n v : Nat} :
    v ∈ freeAmong used first n ↔ first ≤ v ∧ v < first + n ∧ v ∉ used := by
  rw [freeAmong, List.mem_filter, List.mem_map]
  constructor
  · rintro ⟨⟨i, hi, rfl⟩, hfree⟩
    have := List.mem_range.mp hi
    exact ⟨by omega, by omega, by simpa using hfree⟩
  · rintro ⟨hle, hlt, hfree⟩
    exact ⟨⟨v - first, List.mem_range.mpr (by omega), by omega⟩, by simpa using hfree⟩

/-- Those of the free addresses that come before one of the range. -/
theorem filter_freeAmong {used : List Nat} {first n v : Nat} (hle : first ≤ v) (hlt : v ≤ first + n) :
    (freeAmong used first n).filter (· < v) = freeAmong used first (v - first) := by
  obtain ⟨k, rfl⟩ : ∃ k, n = v - first + k := ⟨n - (v - first), by omega⟩
  have hcut : freeAmong used first (v - first + k) = freeAmong used first (v - first) ++
      (((List.range k).map (v - first + ·)).map (first + ·)).filter (· ∉ used) := by
    rw [freeAmong, List.range_add, List.map_append, List.filter_append, ← freeAmong]
  have hearly : ∀ a ∈ freeAmong used first (v - first), decide (a < v) = true := fun a ha => by
    have := mem_freeAmong.mp ha
    simp only [decide_eq_true_eq]
    omega
  have hlate : ∀ a ∈ (((List.range k).map (v - first + ·)).map (first + ·)).filter (· ∉ used),
      ¬decide (a < v) = true := fun a ha => by
    obtain ⟨b, hb, rfl⟩ := List.mem_map.mp (List.mem_of_mem_filter ha)
    obtain ⟨i, -, rfl⟩ := List.mem_map.mp hb
    simp only [decide_eq_true_eq]
    omega
  rw [hcut, List.filter_append, List.filter_eq_self.mpr hearly, List.filter_eq_nil_iff.mpr hlate,
    List.append_nil]

end BoredManager.Container.Create
