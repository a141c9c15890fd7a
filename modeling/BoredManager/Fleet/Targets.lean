import BoredManager.Fleet.Net
import BoredManager.Machine.Earliest

/-! The target rules: which addresses a rule covers, whose credentials reach an address, and which
addresses a sweep asks. -/
namespace BoredManager.Fleet.Targets
open BoredManager.Js BoredManager.Machine BoredManager.Fleet.Net

structure TargetRule where
  id : Text
  kind : TargetKind
  value : Text
  enabled : Bool
  excludes : List Text

/-- `Number.MAX_SAFE_INTEGER` -/
def MAX_SAFE_INTEGER : Nat := 9007199254740991

/-- How many addresses a rule's own `kind` implies. -/
def ruleSpread (rule : TargetRule) : Nat :=
  match rule.kind with
  | .host => 1
  | .cidr => ((parseCidr rule.value).map Cidr.size).getD MAX_SAFE_INTEGER
  | .range => ((parseRange rule.value).map fun range => range.2 - range.1 + 1).getD MAX_SAFE_INTEGER

def excluded (rule : TargetRule) (value : Nat) : Bool :=
  rule.excludes.any fun x => decide (ipToInt x = some value)

def ruleCovers (rule : TargetRule) (ip : Text) : Bool :=
  match ipToInt ip with
  | none => false
  | some value =>
    if excluded rule value then false
    else match rule.kind with
      | .host => decide (ipToInt rule.value = some value)
      | .cidr => (parseCidr rule.value).any fun cidr => cidrContains cidr value
      | .range => (parseRange rule.value).any fun range => range.1 ≤ value && value ≤ range.2

/-- Whether a rule is consulted for an address. -/
def reaches (ip : Text) (rule : TargetRule) : Bool := rule.enabled && ruleCovers rule ip

/-- Which credentials one address is reached with: the narrowest rule that covers it wins. -/
def resolveCredential (ip : Text) (targets : List TargetRule) : Option TargetRule :=
  (targets.foldl (lighter (reaches ip) ruleSpread) (none, MAX_SAFE_INTEGER)).1

structure FanoutTarget where
  ip : Text
  cred : TargetRule

structure TargetPlan where
  targets : List FanoutTarget
  problems : List Text
  seen : List Text

/-- One address that a rule lists. -/
def TargetPlan.add (config : List TargetRule) (plan : TargetPlan) (ip : Text) : TargetPlan :=
  if ip ∈ plan.seen then plan
  else match resolveCredential ip config with
    | none => plan
    | some cred => { plan with targets := plan.targets ++ [⟨ip, cred⟩], seen := plan.seen ++ [ip] }

def truncatedText (rule : TargetRule) (listed : Enumerated) : Text :=
  rule.value ++ js " covers " ++ decimalInt listed.total ++ js " addresses; only the first " ++
    decimal listed.ips.length ++ js " are swept (raise \"Largest address range\" to change that)."

def TargetPlan.rule (config : List TargetRule) (maxHosts : Int) (plan : TargetPlan)
    (rule : TargetRule) : TargetPlan :=
  if rule.enabled = false then plan
  else
    let listed := enumerateRule rule.kind rule.value maxHosts
    match listed.problem with
    | some problem => { plan with problems := plan.problems ++ [rule.value ++ js ": " ++ problem] }
    | none =>
      let problems := if listed.truncated then plan.problems ++ [truncatedText rule listed] else plan.problems
      listed.ips.foldl (TargetPlan.add config) { plan with problems := problems }

/-- Which addresses a sweep asks, and who as. -/
def planTargets (config : List TargetRule) (maxHosts : Int) : TargetPlan :=
  config.foldl (TargetPlan.rule config maxHosts) ⟨[], [], []⟩

/-! ### Coverage -/

/-- An address within the bounds of a rule is covered unless it is excluded. -/
theorem ruleCovers_intToIp {rule : TargetRule} {first last v : Nat}
    (h : bounds rule.kind rule.value = .ok (first, last)) (hfirst : first ≤ v) (hlast : v ≤ last) :
    ruleCovers rule (intToIp v) = !excluded rule v := by
  obtain ⟨-, hlt⟩ := bounds_lt h
  have hread : ipToInt (intToIp v) = some v := ipToInt_intToIp (by omega)
  cases hexcluded : excluded rule v with
  | true => simp [ruleCovers, hread, hexcluded]
  | false =>
    simp only [ruleCovers, hread, hexcluded, Bool.false_eq_true, if_false, Bool.not_false]
    cases hkind : rule.kind with
    | host =>
      rw [hkind, bounds] at h
      cases hone : ipToInt rule.value with
      | none => rw [hone] at h; cases h
      | some one =>
        rw [hone] at h
        cases h
        have heq : first = v := by omega
        simp [heq]
    | cidr =>
      rw [hkind, bounds] at h
      cases hcidr : parseCidr rule.value with
      | none => rw [hcidr] at h; cases h
      | some cidr =>
        rw [hcidr] at h
        have hsize := (base_add_size hcidr).1
        dsimp only at h ⊢
        rw [Option.any_some, cidrContains, Bool.and_eq_true, decide_eq_true_eq, decide_eq_true_eq]
        split_ifs at h
        all_goals
          cases h
          omega
    | range =>
      rw [hkind, bounds] at h
      cases hrange : parseRange rule.value with
      | none => rw [hrange] at h; cases h
      | some range =>
        rw [hrange] at h
        cases h
        simp [hfirst, hlast]

theorem excluded_iff {rule : TargetRule} {v : Nat} (h : v < 2 ^ 32) :
    excluded rule v = true ↔ ∃ x ∈ rule.excludes, ipToInt x = ipToInt (intToIp v) := by
  simp [excluded, ipToInt_intToIp h]

/-- A rule covers what it lists, the excluded addresses apart. -/
theorem ruleCovers_iff {rule : TargetRule} {cap : Int} {ip : Text}
    (h : ip ∈ (enumerateRule rule.kind rule.value cap).ips) :
    ruleCovers rule ip = true ↔ ∀ x ∈ rule.excludes, ipToInt x ≠ ipToInt ip := by
  obtain ⟨first, last, v, hbounds, hfirst, hlast, rfl⟩ := mem_ips h
  obtain ⟨-, hlt⟩ := bounds_lt hbounds
  rw [ruleCovers_intToIp hbounds hfirst hlast, Bool.not_eq_true', ← Bool.not_eq_true,
    excluded_iff (by omega)]
  simp

/-- A rule that covers an address has a spread. -/
theorem ruleSpread_lt {rule : TargetRule} {ip : Text} (h : ruleCovers rule ip = true) :
    ruleSpread rule < MAX_SAFE_INTEGER := by
  have hmax : 2 ^ 32 < MAX_SAFE_INTEGER := by decide
  rw [ruleCovers] at h
  rw [ruleSpread]
  split at h
  · cases h
  · split_ifs at h
    cases hkind : rule.kind with
    | host => exact hmax.trans' (by norm_num)
    | cidr =>
      rw [hkind] at h
      cases hcidr : parseCidr rule.value with
      | none => rw [hcidr] at h; cases h
      | some cidr =>
        have hend := (base_add_size hcidr).2
        simp only [Option.map_some, Option.getD_some]
        omega
    | range =>
      rw [hkind] at h
      cases hrange : parseRange rule.value with
      | none => rw [hrange] at h; cases h
      | some range =>
        have hend := (parseRange_lt hrange).2
        simp only [Option.map_some, Option.getD_some]
        omega

/-! ### Credentials -/

theorem found_resolve (ip : Text) (targets : List TargetRule) :
    Found (reaches ip) ruleSpread MAX_SAFE_INTEGER targets
      (targets.foldl (lighter (reaches ip) ruleSpread) (none, MAX_SAFE_INTEGER)) :=
  found_foldl fun _ _ hreaches => ruleSpread_lt (Bool.and_eq_true_iff.mp hreaches).2

/-- The rule of an address is the earliest of the narrowest enabled rules that cover it. -/
theorem resolveCredential_eq_some {ip : Text} {targets : List TargetRule} {cred : TargetRule}
    (h : resolveCredential ip targets = some cred) : Earliest (reaches ip) ruleSpread targets cred := by
  have hfound := found_resolve ip targets
  rw [resolveCredential] at h
  generalize targets.foldl (lighter (reaches ip) ruleSpread) (none, MAX_SAFE_INTEGER) = best at h hfound
  cases hfound with
  | nothing _ => cases h
  | best rule hrule =>
    cases h
    exact hrule

theorem resolveCredential_isSome {ip : Text} {targets : List TargetRule} :
    (resolveCredential ip targets).isSome = true ↔ ∃ rule ∈ targets, reaches ip rule = true := by
  have hfound := found_resolve ip targets
  rw [resolveCredential]
  generalize targets.foldl (lighter (reaches ip) ruleSpread) (none, MAX_SAFE_INTEGER) = best at hfound
  cases hfound with
  | nothing hnone =>
    refine iff_of_false (by simp) ?_
    rintro ⟨rule, hrule, hreaches⟩
    rw [hnone rule hrule] at hreaches
    cases hreaches
  | best rule hrule =>
    obtain ⟨before, after, rfl, hreaches, -⟩ := hrule
    exact iff_of_true rfl ⟨rule, by simp, hreaches⟩

/-! ### The plan -/

/-- What the plan holds once some addresses have been listed. -/
structure Planned (config : List TargetRule) (listed : List Text) (plan : TargetPlan) : Prop where
  seen : plan.seen = plan.targets.map FanoutTarget.ip
  nodup : plan.seen.Nodup
  mem : ∀ ip, ip ∈ plan.seen ↔ ip ∈ listed ∧ (resolveCredential ip config).isSome = true
  cred : ∀ target ∈ plan.targets, resolveCredential target.ip config = some target.cred

variable {config : List TargetRule} {listed : List Text} {plan : TargetPlan}

theorem Planned.add (h : Planned config listed plan) (ip : Text) :
    Planned config (listed ++ [ip]) (plan.add config ip) := by
  have hmem : ∀ other, other ∈ listed ++ [ip] ↔ other ∈ listed ∨ other = ip := by simp
  rw [TargetPlan.add]
  split_ifs with hseen
  · refine ⟨h.seen, h.nodup, fun other => ?_, h.cred⟩
    rw [h.mem, hmem]
    refine ⟨fun hother => ⟨.inl hother.1, hother.2⟩, fun hother => ?_⟩
    obtain ⟨hlisted | rfl, hsome⟩ := hother
    · exact ⟨hlisted, hsome⟩
    · exact (h.mem other).mp hseen
  · cases hcred : resolveCredential ip config with
    | none =>
      refine ⟨h.seen, h.nodup, fun other => ?_, h.cred⟩
      rw [h.mem, hmem]
      refine ⟨fun hother => ⟨.inl hother.1, hother.2⟩, fun hother => ?_⟩
      obtain ⟨hlisted | rfl, hsome⟩ := hother
      · exact ⟨hlisted, hsome⟩
      · rw [hcred] at hsome
        cases hsome
    | some cred =>
      refine ⟨?_, ?_, fun other => ?_, fun target htarget => ?_⟩
      · simp [h.seen]
      · refine List.nodup_append.mpr ⟨h.nodup, List.nodup_singleton ip, fun other hother last hlast heq => ?_⟩
        rw [heq, List.mem_singleton.mp hlast] at hother
        exact hseen hother
      · rw [List.mem_append, List.mem_singleton, h.mem, hmem]
        constructor
        · rintro (hother | rfl)
          · exact ⟨.inl hother.1, hother.2⟩
          · exact ⟨.inr rfl, by rw [hcred]; rfl⟩
        · rintro ⟨hlisted | rfl, hsome⟩
          · exact .inl ⟨hlisted, hsome⟩
          · exact .inr rfl
      · obtain htarget | htarget := List.mem_append.mp htarget
        · exact h.cred target htarget
        · rw [List.mem_singleton.mp htarget]
          exact hcred

theorem Planned.foldl (h : Planned config listed plan) (ips : List Text) :
    Planned config (listed ++ ips) (ips.foldl (TargetPlan.add config) plan) := by
  induction ips generalizing listed plan with
  | nil => simpa using h
  | cons ip ips ih => simpa using ih (h.add ip)

/-- The addresses that a rule brings into the plan. -/
def brought (maxHosts : Int) (rule : TargetRule) : List Text :=
  if rule.enabled = false then [] else (enumerateRule rule.kind rule.value maxHosts).ips

theorem ips_of_problem {kind : TargetKind} {value problem : Text} {cap : Int}
    (h : (enumerateRule kind value cap).problem = some problem) : (enumerateRule kind value cap).ips = [] := by
  rw [enumerateRule] at h ⊢
  split at h
  · rfl
  · cases h

theorem Planned.rule (h : Planned config listed plan) (maxHosts : Int) (rule : TargetRule) :
    Planned config (listed ++ brought maxHosts rule) (plan.rule config maxHosts rule) := by
  rw [TargetPlan.rule, brought]
  split_ifs
  · rwa [List.append_nil]
  · dsimp only
    split
    · rename_i problem hproblem
      rw [ips_of_problem hproblem, List.append_nil]
      exact ⟨h.seen, h.nodup, h.mem, h.cred⟩
    · have hproblems : ∀ problems, Planned config listed { plan with problems := problems } :=
        fun _ => ⟨h.seen, h.nodup, h.mem, h.cred⟩
      exact (hproblems _).foldl _

theorem planned_planTargets (config : List TargetRule) (maxHosts : Int) :
    Planned config (config.flatMap (brought maxHosts)) (planTargets config maxHosts) := by
  have hrules : ∀ (rules : List TargetRule) (listed : List Text) (plan : TargetPlan),
      Planned config listed plan → Planned config (listed ++ rules.flatMap (brought maxHosts))
        (rules.foldl (TargetPlan.rule config maxHosts) plan) := by
    intro rules
    induction rules with
    | nil => intro listed plan h; simpa using h
    | cons rule rules ih => intro listed plan h; simpa using ih _ _ (h.rule maxHosts rule)
  exact hrules config [] _ ⟨rfl, List.nodup_nil, by simp, by simp⟩

theorem mem_brought {maxHosts : Int} {ip : Text} : ip ∈ config.flatMap (brought maxHosts) ↔
    ∃ rule ∈ config, rule.enabled = true ∧ (enumerateRule rule.kind rule.value maxHosts).problem = none ∧
      ip ∈ (enumerateRule rule.kind rule.value maxHosts).ips := by
  rw [List.mem_flatMap]
  refine exists_congr fun rule => and_congr_right fun _ => ?_
  rw [brought]
  cases henabled : rule.enabled with
  | false => simp
  | true =>
    simp only [Bool.true_eq_false, if_false, true_and]
    refine ⟨fun hip => ⟨?_, hip⟩, And.right⟩
    cases hproblem : (enumerateRule rule.kind rule.value maxHosts).problem with
    | none => rfl
    | some problem =>
      rw [ips_of_problem hproblem] at hip
      cases hip

/-- What a sweep asks. -/
structure Planning (config : List TargetRule) (maxHosts : Int) : Prop where
  once : (planTargets config maxHosts).targets.Pairwise fun a b => ipToInt a.ip ≠ ipToInt b.ip
  listed : ∀ ip, (∃ target ∈ (planTargets config maxHosts).targets, target.ip = ip) ↔
    (∃ rule ∈ config, rule.enabled = true ∧
      (enumerateRule rule.kind rule.value maxHosts).problem = none ∧
      ip ∈ (enumerateRule rule.kind rule.value maxHosts).ips) ∧
    ∃ rule ∈ config, rule.enabled = true ∧ ruleCovers rule ip = true
  cred : ∀ target ∈ (planTargets config maxHosts).targets,
    Earliest (reaches target.ip) ruleSpread config target.cred

theorem planning (config : List TargetRule) (maxHosts : Int) : Planning config maxHosts := by
  have hplanned := planned_planTargets config maxHosts
  have hmem : ∀ ip, (∃ target ∈ (planTargets config maxHosts).targets, target.ip = ip) ↔
      ip ∈ (planTargets config maxHosts).seen := by
    intro ip
    rw [hplanned.seen, List.mem_map]
  refine ⟨?_, fun ip => ?_, fun target htarget => resolveCredential_eq_some (hplanned.cred target htarget)⟩
  · have hnodup := hplanned.nodup
    rw [hplanned.seen] at hnodup
    have hnumber : ∀ target ∈ (planTargets config maxHosts).targets,
        ∃ v < 2 ^ 32, target.ip = intToIp v := by
      intro target htarget
      obtain ⟨hlisted, -⟩ := (hplanned.mem _).mp ((hmem _).mp ⟨target, htarget, rfl⟩)
      obtain ⟨rule, -, -, -, hip⟩ := mem_brought.mp hlisted
      obtain ⟨first, last, v, hbounds, -, hlast, heq⟩ := mem_ips hip
      exact ⟨v, by have := bounds_lt hbounds; omega, heq⟩
    refine (List.pairwise_map.mp hnodup).imp_of_mem fun ha hb hne heq => hne ?_
    obtain ⟨x, hx, hxip⟩ := hnumber _ ha
    obtain ⟨y, hy, hyip⟩ := hnumber _ hb
    rw [hxip, hyip, ipToInt_intToIp hx, ipToInt_intToIp hy] at heq
    rw [hxip, hyip, Option.some.inj heq]
  · rw [hmem, hplanned.mem, mem_brought, resolveCredential_isSome]
    simp only [reaches, Bool.and_eq_true]

/-- What a rule lists under a cap. -/
structure Listing (rule : TargetRule) (cap : Int) : Prop where
  increasing : (enumerateRule rule.kind rule.value cap).ips.Pairwise Below
  number : ((enumerateRule rule.kind rule.value cap).ips.length : Int) =
    min (enumerateRule rule.kind rule.value cap).total (max 1 cap)
  covered : ∀ ip ∈ (enumerateRule rule.kind rule.value cap).ips,
    (ruleCovers rule ip = true ↔ ∀ x ∈ rule.excludes, ipToInt x ≠ ipToInt ip)

theorem otherSpelling_nil (limit : Nat) : OtherSpelling [] limit 0 :=
  ⟨by simp [Number.whole, Number.ofText, trim, Number.integer?], fun ⟨_, h⟩ => h.1 rfl⟩

end BoredManager.Fleet.Targets
