import BoredManager.Shared.Validation

/-! The entries of the settings' host allowlist: one hostname or address each, in the
form that the server compares. `urlHostname` is the IPv6 form that the URL parser
gives an address, `none` where it throws. -/
namespace BoredManager.Shared
open BoredManager.Js

/-- `toLowerCase` on the characters whose lower case is ASCII; a host with any other
character outside ASCII is refused in either case. -/
def lowerUnit (u : Nat) : Nat := if isUpper u then u + 32 else if u = 8490 then 107 else u

/-- `[\s/*@?#\\]` -/
def isForbiddenUnit (u : Nat) : Bool :=
  isSpace u || u == 47 || u == 42 || u == 64 || u == 63 || u == 35 || u == 92

/-- `[0-9a-f:.]` -/
def isIpv6Unit (u : Nat) : Bool := isHexLower u || u == 58 || u == 46

def isLabelUnit (u : Nat) : Bool := isLower u || isDigit u

/-- `/^[a-z0-9](?:[a-z0-9-]*[a-z0-9])?$/` within 63 units. -/
def isLabel (label : Text) : Bool :=
  label.length ≤ 63 && label.head?.any isLabelUnit && label.getLast?.any isLabelUnit &&
    label.all fun u => isLabelUnit u || u == 45

def isOctet (part : Text) : Bool :=
  part.length ≤ 3 && part.foldl (fun acc u => acc * 10 + (u - 48)) 0 ≤ 255

/-- `/^\d+(?:\.\d+){3}$/`, its parts given. -/
def isDottedQuad (parts : List Text) : Bool :=
  parts.length == 4 && parts.all fun part => part != [] && part.all isDigit

def maxHostLength : Nat := 253

/-- `[…]` around an address. -/
def dropBrackets (hostname : Text) : Text :=
  if hostname.head? = some 91 ∧ hostname.getLast? = some 93 then hostname.tail.dropLast else hostname

def dropFinalDot (hostname : Text) : Text :=
  if hostname.getLast? = some 46 then hostname.dropLast else hostname

/-- The checks on the trimmed, lower-case text. -/
def checkHostname (urlHostname : Text → Option Text) (hostname : Text) : Option Text :=
  if hostname = [] ∨ maxHostLength < hostname.length ∨ hostname.any isForbiddenUnit then none
  else if 58 ∈ hostname then if hostname.all isIpv6Unit then urlHostname hostname else none
  else
    let parts := hostname.splitOnP (· == 46)
    if isDottedQuad parts then if parts.all isOctet then some hostname else none
    else if parts.all isLabel then some hostname else none

def normalizeAllowedHostname (urlHostname : Text → Option Text) : Json → Option Text
  | .str value =>
    checkHostname urlHostname (dropFinalDot (dropBrackets ((trim value).map lowerUnit)))
  | _ => none

/-- The URL parser's form of an address: lower-case hexadecimal groups and colons, and
the form of itself. -/
structure CanonicalIpv6 (urlHostname : Text → Option Text) : Prop where
  units : ∀ {hostname address}, urlHostname hostname = some address →
    ∀ u ∈ address, isHexLower u = true ∨ u = 58
  colon : ∀ {hostname address}, urlHostname hostname = some address → 58 ∈ address
  length : ∀ {hostname address}, urlHostname hostname = some address → address.length ≤ 39
  idempotent : ∀ {hostname address}, urlHostname hostname = some address →
    urlHostname address = some address

/-- What a checked hostname is made of. -/
def isHostUnit (u : Nat) : Bool := isLabelUnit u || u == 45 || u == 46 || u == 58

theorem isHostUnit_spec {u : Nat} (h : isHostUnit u = true) :
    isForbiddenUnit u = false ∧ lowerUnit u = u ∧ isSpace u = false ∧ u ≠ 91 := by
  simp only [isHostUnit, isLabelUnit, isLower, isDigit, Bool.or_eq_true, Bool.and_eq_true,
    decide_eq_true_eq, beq_iff_eq] at h
  refine ⟨?_, ?_, ?_, by omega⟩
  · simp only [isForbiddenUnit, isSpace, Bool.or_eq_false_iff, Bool.and_eq_false_iff,
      decide_eq_false_iff_not, beq_eq_false_iff_ne]
    omega
  · have hupper : isUpper u = false := by
      simp only [isUpper, Bool.and_eq_false_iff, decide_eq_false_iff_not]
      omega
    simp only [lowerUnit, hupper, Bool.false_eq_true, if_false]
    rw [if_neg (by omega)]
  · simp only [isSpace, Bool.or_eq_false_iff, Bool.and_eq_false_iff, decide_eq_false_iff_not,
      beq_eq_false_iff_ne]
    omega

/-- A text that ends in a separator has an empty last piece, after another one. -/
theorem splitOnP_of_getLast {p : Nat → Bool} {s : Text} {u : Nat} (hu : p u = true)
    (h : s.getLast? = some u) : ∃ w ws, s.splitOnP p = w :: (ws ++ [[]]) := by
  induction s with
  | nil => cases h
  | cons x xs ih =>
    rw [List.splitOnP_cons_eq_if_modifyHead]
    cases xs with
    | nil =>
      have hx : x = u := by simpa using h
      rw [if_pos (by rw [hx]; exact hu)]
      exact ⟨[], [], by simp⟩
    | cons y ys =>
      obtain ⟨w, ws, hsplit⟩ := ih (by rw [List.getLast?_cons_cons] at h; exact h)
      rw [hsplit]
      by_cases hx : p x
      · rw [if_pos hx]
        exact ⟨[], w :: ws, rfl⟩
      · rw [if_neg hx]
        exact ⟨x :: w, ws, rfl⟩

/-- No part of a dotted name is empty, so the name does not end in a dot. -/
theorem getLast_ne_dot {hostname : Text}
    (h : ∀ part ∈ hostname.splitOnP (· == 46), part ≠ []) : hostname.getLast? ≠ some 46 := by
  intro hlast
  obtain ⟨w, ws, hsplit⟩ := splitOnP_of_getLast (p := (· == 46)) (by simp) hlast
  exact h [] (by rw [hsplit]; simp) rfl

/-- What normalizing leaves alone. -/
structure IsHostname (urlHostname : Text → Option Text) (hostname : Text) : Prop where
  units : ∀ u ∈ hostname, isHostUnit u = true
  noFinalDot : hostname.getLast? ≠ some 46
  checked : checkHostname urlHostname hostname = some hostname

theorem IsHostname.normalized {urlHostname : Text → Option Text} {hostname : Text}
    (h : IsHostname urlHostname hostname) :
    normalizeAllowedHostname urlHostname (.str hostname) = some hostname := by
  have htrim : trim hostname = hostname :=
    trim_eq_self fun u hu => (isHostUnit_spec (h.units u hu)).2.2.1
  have hlower : hostname.map lowerUnit = hostname :=
    (List.map_congr_left fun u hu => (isHostUnit_spec (h.units u hu)).2.1).trans (List.map_id' _)
  have hbrackets : dropBrackets hostname = hostname := by
    rw [dropBrackets, if_neg]
    rintro ⟨hhead, -⟩
    exact (isHostUnit_spec (h.units 91 (List.mem_of_mem_head? hhead))).2.2.2 rfl
  rw [normalizeAllowedHostname, htrim, hlower, hbrackets, dropFinalDot, if_neg h.noFinalDot, h.checked]

theorem isHostUnit_of_parts {hostname : Text} {q : Nat → Bool}
    (hq : ∀ u, q u = true → isHostUnit u = true)
    (h : ∀ part ∈ hostname.splitOnP (· == 46), part.all q = true) :
    ∀ u ∈ hostname, isHostUnit u = true := by
  intro u hu
  rcases mem_splitOnP (p := (· == 46)) hu with hdot | ⟨part, hpart, hmem⟩
  · rw [beq_iff_eq.mp hdot]
    decide
  · exact hq u (List.all_eq_true.mp (h part hpart) u hmem)

/-- A dotted name whose parts are not empty and made of host units is as it was checked. -/
theorem isHostname_of_parts {urlHostname : Text → Option Text} {hostname : Text} {q : Nat → Bool}
    (hq : ∀ u, q u = true → isHostUnit u = true)
    (hparts : ∀ part ∈ hostname.splitOnP (· == 46), part ≠ [] ∧ part.all q = true)
    (h : checkHostname urlHostname hostname = some hostname) : IsHostname urlHostname hostname :=
  ⟨isHostUnit_of_parts hq fun part hp => (hparts part hp).2,
    getLast_ne_dot fun part hp => (hparts part hp).1, h⟩

theorem isHostname_of_address {urlHostname : Text → Option Text} (hurl : CanonicalIpv6 urlHostname)
    {hostname address : Text} (h : urlHostname hostname = some address) :
    IsHostname urlHostname address := by
  have hunits := hurl.units h
  have hcolon := hurl.colon h
  have hlength := hurl.length h
  have hhost : ∀ u ∈ address, isHostUnit u = true ∧ isIpv6Unit u = true ∧ u ≠ 46 := by
    intro u hu
    rcases hunits u hu with hx | rfl
    · simp only [isHexLower, isDigit, Bool.or_eq_true, Bool.and_eq_true, decide_eq_true_eq] at hx
      refine ⟨?_, ?_, by omega⟩
      · simp only [isHostUnit, isLabelUnit, isLower, isDigit, Bool.or_eq_true, Bool.and_eq_true,
          decide_eq_true_eq, beq_iff_eq]
        omega
      · simp only [isIpv6Unit, isHexLower, isDigit, Bool.or_eq_true, Bool.and_eq_true,
          decide_eq_true_eq, beq_iff_eq]
        omega
    · decide
  refine ⟨fun u hu => (hhost u hu).1, fun hlast => ?_, ?_⟩
  · exact (hhost 46 (List.mem_of_getLast? hlast)).2.2 rfl
  · have hforbidden : address.any isForbiddenUnit = false := by
      rw [List.any_eq_false]
      intro u hu
      simp [(isHostUnit_spec (hhost u hu).1).1]
    have hne : address ≠ [] := List.ne_nil_of_mem hcolon
    rw [checkHostname, if_neg, if_pos hcolon, if_pos, hurl.idempotent h]
    · exact List.all_eq_true.mpr fun u hu => (hhost u hu).2.1
    · simp [hne, hforbidden, maxHostLength]
      omega

theorem isLabel_spec {label : Text} (h : isLabel label = true) :
    label ≠ [] ∧ (label.all fun u => isLabelUnit u || u == 45) = true := by
  simp only [isLabel, Bool.and_eq_true] at h
  refine ⟨?_, h.2⟩
  rintro rfl
  exact absurd h.1.1.2 (by decide)

/-- A hostname that was accepted is one that normalizing leaves alone. -/
theorem isHostname_of_checked {urlHostname : Text → Option Text} (hurl : CanonicalIpv6 urlHostname)
    {candidate hostname : Text} (h : checkHostname urlHostname candidate = some hostname) :
    IsHostname urlHostname hostname := by
  have hcheck := h
  unfold checkHostname at h
  split at h
  · cases h
  · split at h
    · split at h
      · exact isHostname_of_address hurl h
      · cases h
    · dsimp only at h
      split at h
      · rename_i hquad
        split at h
        · cases h
          simp only [isDottedQuad, Bool.and_eq_true, List.all_eq_true] at hquad
          refine isHostname_of_parts (q := isDigit) ?_ (fun part hp => ?_) hcheck
          · intro u hu
            simp [isHostUnit, isLabelUnit, hu]
          · have hpart := hquad.2 part hp
            simp only [bne_iff_ne, ne_eq] at hpart
            exact ⟨hpart.1, List.all_eq_true.mpr hpart.2⟩
        · cases h
      · split at h
        · rename_i hlabels
          cases h
          refine isHostname_of_parts (q := fun u => isLabelUnit u || u == 45) ?_
            (fun part hp => isLabel_spec (List.all_eq_true.mp hlabels part hp)) hcheck
          intro u hu
          simp only [isHostUnit, hu, Bool.true_or]
        · cases h

/-- A normalized hostname is its own normal form. -/
theorem normalizeAllowedHostname_idem {urlHostname : Text → Option Text}
    (hurl : CanonicalIpv6 urlHostname) {value : Json} {hostname : Text}
    (h : normalizeAllowedHostname urlHostname value = some hostname) :
    normalizeAllowedHostname urlHostname (.str hostname) = some hostname := by
  cases value with
  | str s => exact (isHostname_of_checked hurl h).normalized
  | _ => cases h

example : normalizeAllowedHostname (fun _ => none) (.str (js " Router.LAN. ")) =
    some (js "router.lan") := by decide

end BoredManager.Shared
