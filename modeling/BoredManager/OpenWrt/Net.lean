import BoredManager.Js.Text

/-! Addresses as the planner reads them: hardware addresses, IPv4 texts, the LAN
subnet of an instance and the source address of a policy rule. -/
namespace BoredManager.OpenWrt
open BoredManager.Js

def isMacPair (part : Text) : Bool := part.length == 2 && part.all isHexLower

/-- `/^[0-9a-f]{2}(?::[0-9a-f]{2}){5}$/` -/
def isMac (value : Text) : Bool :=
  let parts := value.splitOnP (· == 58)
  parts.length == 6 && parts.all isMacPair

/-- The lower-case address, or `none` for the source's empty text. -/
def normalizedMac (value : Text) : Option Text :=
  let mac := toLowerAscii (trim value)
  if isMac mac then some mac else none

/-- A run of one to three digits of value at most 255. -/
def octet (part : Text) : Option Nat :=
  if part.all isDigit && part.length != 0 && part.length ≤ 3 then
    let value := part.foldl (fun acc u => acc * 10 + (u - 48)) 0
    if value ≤ 255 then some value else none
  else none

def ipv4ToInt (value : Text) : Option Nat :=
  let parts := (trim value).splitOnP (· == 46)
  if parts.length = 4 then
    parts.foldlM (fun (result : Nat) part => (octet part).map (result * 256 + ·)) 0
  else none

def intToIpv4 (ip : Nat) : Text :=
  join [46] [decimal (ip / 16777216 % 256), decimal (ip / 65536 % 256),
    decimal (ip / 256 % 256), decimal (ip % 256)]

def prefixMask (prefixLen : Nat) : Nat :=
  if prefixLen = 0 then 0 else (0xffffffff <<< (32 - prefixLen)) % 4294967296

structure ParsedSubnet where
  network : Nat
  prefixLen : Nat
  cidr : Text
deriving DecidableEq

/-- `/^([^/]+)\/(\d{1,2})$/` of the trimmed text, then the ranges of its parts. -/
def parseCidr (value : Text) : Option ParsedSubnet :=
  match (trim value).splitOnP (· == 47) with
  | [address, bits] =>
    if address != [] && bits.all isDigit && bits.length != 0 && bits.length ≤ 2 then do
      let ip ← ipv4ToInt address
      let prefixLen := bits.foldl (fun acc u => acc * 10 + (u - 48)) 0
      if prefixLen ≤ 32 then
        let network := ip &&& prefixMask prefixLen
        some { network, prefixLen, cidr := intToIpv4 network ++ js "/" ++ decimal prefixLen }
      else none
    else none
  | _ => none

def subnetContains (subnet : ParsedSubnet) (ipRaw : Text) : Bool :=
  match ipv4ToInt ipRaw with
  | some ip => (ip &&& prefixMask subnet.prefixLen) == subnet.network
  | none => false

/-- The address of a rule's source; `all` has none. -/
def ruleIp (source : Text) : Option Text :=
  let ip := (trim source).takeWhile (· != 47)
  if (ipv4ToInt ip).isSome then some ip else none

example : parseCidr (js " 192.168.10.9/24") =
    some ⟨3232238080, 24, js "192.168.10.0/24"⟩ := by decide +kernel

/-- The source text that the planner writes for an address. -/
def hostSource (ip : Text) : Text := ip ++ js "/32"

/-- Neither a blank before the address nor a slash in it: what is left of a rule's
source, and what a lease line holds. -/
def IsBareAddress (ip : Text) : Prop :=
  (ipv4ToInt ip).isSome ∧ 47 ∉ ip ∧ ∀ u ∈ ip.head?, isSpace u = false

/-- What the planner writes for an address is read back as the address. -/
theorem ruleIp_hostSource {ip : Text} (h : IsBareAddress ip) :
    ruleIp (hostSource ip) = some ip := by
  obtain ⟨hsome, hslash, hhead⟩ := h
  have hne : ip ≠ [] := by
    rintro rfl
    exact absurd hsome (by decide)
  have htail : js "/32" = [47, 51, 50] := by decide
  have htrim : trim (hostSource ip) = hostSource ip := by
    obtain ⟨u, us, rfl⟩ := List.exists_cons_of_ne_nil hne
    have hu : isSpace u = false := hhead u rfl
    simp only [trim, hostSource, htail, List.cons_append, List.dropWhile_cons, hu]
    simp [isSpace]
  have htake : (hostSource ip).takeWhile (· != 47) = ip := by
    rw [hostSource, htail, List.takeWhile_append_of_pos]
    · simp
    · intro u hu
      have : u ≠ 47 := fun h47 => hslash (h47 ▸ hu)
      simpa using this
  simp only [ruleIp, htrim, htake]
  rw [if_pos hsome]

theorem isMac_units {mac : Text} (h : isMac mac = true) {u : Nat} (hu : u ∈ mac) :
    u = 58 ∨ isHexLower u = true := by
  have hparts := (Bool.and_eq_true_iff.mp h).2
  rcases mem_splitOnP (p := (· == 58)) hu with h58 | ⟨piece, hp, hup⟩
  · exact .inl (by simpa using h58)
  · have hpair := List.all_eq_true.mp hparts piece hp
    exact .inr (List.all_eq_true.mp (Bool.and_eq_true_iff.mp hpair).2 u hup)

/-- A normalized address is its own normal form. -/
theorem normalizedMac_idem {value mac : Text} (h : normalizedMac value = some mac) :
    normalizedMac mac = some mac := by
  simp only [normalizedMac] at h
  split at h
  · rename_i hmac
    cases h
    set mac := toLowerAscii (trim value)
    have hunits : ∀ u ∈ mac, isSpace u = false ∧ isUpper u = false := by
      intro u hu
      rcases isMac_units hmac hu with rfl | hhex
      · decide
      · simp only [isHexLower, isDigit, Bool.or_eq_true, Bool.and_eq_true,
          decide_eq_true_eq] at hhex
        constructor
        · simp only [isSpace, Bool.or_eq_false_iff, Bool.and_eq_false_iff, decide_eq_false_iff_not,
            beq_eq_false_iff_ne]
          omega
        · simp only [isUpper, Bool.and_eq_false_iff, decide_eq_false_iff_not]
          omega
    have htrim : trim mac = mac := trim_eq_self fun u hu => (hunits u hu).1
    have hlower : toLowerAscii mac = mac := toLowerAscii_eq_self fun u hu => (hunits u hu).2
    rw [normalizedMac, htrim, hlower]
    exact if_pos hmac
  · cases h

theorem octets_of_foldlM {parts : List Text} {start : Nat}
    (h : (parts.foldlM (fun (result : Nat) part =>
      (octet part).map (result * 256 + ·)) start).isSome) :
    ∀ part ∈ parts, part.all isDigit = true := by
  induction parts generalizing start with
  | nil => intro part hp; cases hp
  | cons part parts ih =>
    rw [List.foldlM_cons] at h
    cases ho : octet part with
    | none => simp [ho] at h
    | some value =>
      simp only [ho, Option.map_some, Option.bind_eq_bind, Option.bind_some] at h
      intro other hother
      rcases List.mem_cons.mp hother with rfl | hother
      · simp only [octet] at ho
        split at ho
        · rename_i hc
          exact (Bool.and_eq_true_iff.mp (Bool.and_eq_true_iff.mp hc).1).1
        · cases ho
      · exact ih h other hother

/-- An address without blanks at its ends is what a rule's source is read as. -/
theorem isBareAddress_of_trim {ip : Text} (hsome : (ipv4ToInt ip).isSome) (ht : trim ip = ip) :
    IsBareAddress ip := by
  refine ⟨hsome, fun h47 => ?_, fun u hu => ?_⟩
  · simp only [ipv4ToInt, ht] at hsome
    split at hsome
    · rcases mem_splitOnP (p := (· == 46)) h47 with h | ⟨piece, hp, hup⟩
      · simp at h
      · exact absurd (List.all_eq_true.mp (octets_of_foldlM hsome piece hp) 47 hup) (by decide)
    · cases hsome
  · rw [← ht] at hu
    exact head?_trim_not_space hu

end BoredManager.OpenWrt
