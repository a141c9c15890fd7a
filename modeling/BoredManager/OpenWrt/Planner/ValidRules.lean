import BoredManager.OpenWrt.Planner.Fifo
import BoredManager.OpenWrt.Planner.NextStep

/-! When a leased client keeps the WAN that its rule selects: which rules are read before it, and
what they claim. -/
namespace BoredManager.OpenWrt.Planner
open BoredManager.Js

variable {input : ReconcileInput} {subnet : ParsedSubnet} {mac : Text}
  {entry : WorkingActual} {rule : IpRule}

/-! ### The order of the rules -/

instance : Std.Total fun a b : WorkingActual => actualBefore a b = true where
  total a b := by
    simp only [actualBefore]
    cases a.exactLease <;> cases b.exactLease
    case false.true => exact .inr rfl
    case true.false => exact .inl rfl
    all_goals
      simp only [bne_self_eq_false, Bool.false_eq_true, if_false]
      obtain hlt | heq | hgt := Nat.lt_trichotomy a.pref b.pref
      · exact .inl (by simp [hlt, hlt.ne])
      · simpa [heq] using textLe_total a.ip b.ip
      · exact .inr (by simp [hgt, hgt.ne])

instance : IsTrans WorkingActual fun a b => actualBefore a b = true where
  trans a b c := by
    simp only [actualBefore]
    cases a.exactLease <;> cases b.exactLease <;> cases c.exactLease
    case false.false.false | true.true.true =>
      simp only [bne_self_eq_false, Bool.false_eq_true, if_false]
      intro hab hbc
      by_cases h1 : a.pref = b.pref
      · by_cases h2 : b.pref = c.pref
        · simp only [h1, h2, ne_eq, not_true_eq_false, if_false] at hab hbc ⊢
          exact textLe_trans hab hbc
        · simp only [h1, h2, ne_eq, not_false_eq_true, if_true, decide_eq_true_eq] at hbc ⊢
          exact hbc
      · simp only [h1, ne_eq, not_false_eq_true, if_true, decide_eq_true_eq] at hab
        by_cases h2 : b.pref = c.pref
        · simp only [← h2, h1, ne_eq, not_false_eq_true, if_true, decide_eq_true_eq]
          exact hab
        · simp only [h2, ne_eq, not_false_eq_true, if_true, decide_eq_true_eq] at hbc
          have hac : a.pref < c.pref := hab.trans hbc
          simp only [hac.ne, ne_eq, not_false_eq_true, if_true, decide_eq_true_eq]
          exact hac
    all_goals simp

/-- A rule that is read before one at its client's address is such a rule itself, and its
preference is not higher. -/
theorem exact_of_before {x : WorkingActual} (h : actualBefore x entry = true)
    (hexact : entry.exactLease = true) : x.exactLease = true ∧ x.pref ≤ entry.pref := by
  simp only [actualBefore, hexact] at h
  cases hx : x.exactLease with
  | false => simp [hx] at h
  | true =>
    simp only [hx, bne_self_eq_false, Bool.false_eq_true, if_false] at h
    refine ⟨rfl, ?_⟩
    by_cases heq : x.pref = entry.pref
    · exact heq.le
    · rw [if_pos heq, decide_eq_true_eq] at h
      exact h.le

theorem read_before {before after : List WorkingActual}
    (h : actual input subnet = before ++ entry :: after) :
    ∀ x ∈ before, actualBefore x entry = true := by
  have hsorted : (actual input subnet).Pairwise fun a b => actualBefore a b = true :=
    List.pairwise_insertionSort _ _
  rw [h] at hsorted
  exact fun x hx => (List.pairwise_append.mp hsorted).2.2 x hx entry List.mem_cons_self

/-! ### Rules at an address of their client -/

theorem exactLease_of_attributeRule (h : attributeRule input subnet rule = some entry) :
    entry.exactLease = true ↔ ∃ owner current, entry.mac = some owner ∧
      (owner, current) ∈ (currentLeases input subnet).entries ∧ current.lease.ip = entry.ip := by
  simp only [attributeRule] at h
  split at h
  · split at h
    · cases h
    · split at h
      · cases h
      · cases h
        simp only [Option.any_eq_true, beq_iff_eq, ← OrderedMap.get?_eq_some]
        constructor
        · rintro ⟨owner, howner, current, hcurrent, hip⟩
          exact ⟨owner, current, howner, hcurrent, hip⟩
        · rintro ⟨owner, current, howner, hcurrent, hip⟩
          exact ⟨owner, howner, current, hcurrent, hip⟩
  · cases h

/-! ### The pass over the rules -/

/-- The client has the WAN, under the preference of its rule. -/
structure Wins (mac wan : Text) (pref : Nat) (state : PreservePass) : Prop where
  used : mac ∈ state.usedMacs
  assigned : ∃ a, state.assignments.get? mac = some a ∧ a.wan = wan ∧ a.pref = some pref

/-- Neither the client nor the WAN is taken. -/
def Open (mac wan : Text) (state : PreservePass) : Prop :=
  mac ∉ state.usedMacs ∧ wan ∉ state.usedWans

variable {wan : Text} {pref : Nat} {state : PreservePass}

theorem wins_step (entry : WorkingActual) (h : Wins mac wan pref state) :
    Wins mac wan pref (preserveStep input subnet state entry) := by
  rw [preserveStep]
  cases hp : preservedBy input subnet entry with
  | none => exact h
  | some granted =>
    obtain ⟨owner, a⟩ := granted
    dsimp only
    split_ifs with hskip
    · exact h
    · have hne : owner ≠ mac := fun heq => hskip (.inl (heq ▸ h.used))
      obtain ⟨b, hb, hrest⟩ := h.assigned
      refine ⟨List.mem_cons_of_mem owner h.used, b, ?_, hrest⟩
      rw [OrderedMap.get?_set, if_neg hne.symm]
      exact hb

/-- A rule read on the way grants the client its WAN, or leaves both open. -/
theorem open_step (hopen : Open mac wan state)
    (hown : ∀ a, preservedBy input subnet entry = some (mac, a) → a.wan = wan ∧ a.pref = some pref)
    (hother : ∀ owner a, preservedBy input subnet entry = some (owner, a) → owner ≠ mac →
      a.wan ≠ wan) :
    Open mac wan (preserveStep input subnet state entry) ∨
      Wins mac wan pref (preserveStep input subnet state entry) := by
  rw [preserveStep]
  cases hp : preservedBy input subnet entry with
  | none => exact .inl hopen
  | some granted =>
    obtain ⟨owner, a⟩ := granted
    dsimp only
    split_ifs with hskip
    · exact .inl hopen
    · by_cases heq : owner = mac
      · subst heq
        obtain ⟨hwan, hpref⟩ := hown a hp
        refine .inr ⟨List.mem_cons_self, a, ?_, hwan, hpref⟩
        rw [OrderedMap.get?_set, if_pos rfl]
      · refine .inl ⟨fun hmem => ?_, fun hmem => ?_⟩
        · exact hopen.1 ((List.mem_cons.mp hmem).resolve_left fun h => heq h.symm)
        · exact hopen.2 ((List.mem_cons.mp hmem).resolve_left fun h => hother owner a hp heq h.symm)

/-- A rule that can be kept wins the WAN, if the rules before it claim that WAN for its client only
and nothing else for the client. -/
theorem wins_run {before after : List WorkingActual} (hopen : Open mac wan state)
    (hown : ∀ x ∈ before, ∀ a, preservedBy input subnet x = some (mac, a) →
      a.wan = wan ∧ a.pref = some pref)
    (hother : ∀ x ∈ before, ∀ owner a, preservedBy input subnet x = some (owner, a) →
      owner ≠ mac → a.wan ≠ wan)
    {a : WorkingAssignment} (hentry : preservedBy input subnet entry = some (mac, a))
    (hwan : a.wan = wan) (hpref : a.pref = some pref) :
    Wins mac wan pref ((before ++ entry :: after).foldl (preserveStep input subnet) state) := by
  have hbefore : Open mac wan (before.foldl (preserveStep input subnet) state) ∨
      Wins mac wan pref (before.foldl (preserveStep input subnet) state) := by
    refine List.foldlRecOn before (preserveStep input subnet)
      (motive := fun state => Open mac wan state ∨ Wins mac wan pref state) (.inl hopen)
      fun state hstate x hx => ?_
    obtain hstate | hstate := hstate
    · exact open_step hstate (hown x hx) (hother x hx)
    · exact .inr (wins_step x hstate)
  have hgranted : Wins mac wan pref
      (preserveStep input subnet (before.foldl (preserveStep input subnet) state) entry) := by
    obtain hstate | hstate := hbefore
    · rw [preserveStep, hentry]
      dsimp only
      rw [if_neg (not_or.mpr ⟨hstate.1, hwan ▸ hstate.2⟩)]
      refine ⟨List.mem_cons_self, a, ?_, hwan, hpref⟩
      rw [OrderedMap.get?_set, if_pos rfl]
    · exact wins_step entry hstate
  rw [List.foldl_append, List.foldl_cons]
  exact List.foldlRecOn after (preserveStep input subnet)
    (motive := fun state => Wins mac wan pref state) hgranted fun _ h x _ => wins_step x h

end BoredManager.OpenWrt.Planner

namespace BoredManager.OpenWrt
open BoredManager.Js Planner

section
variable (input : ReconcileInput) (subnet : ParsedSubnet)

/-- A leased client whose rule, at an address that is its alone, goes to the table of a WAN of the
pool, to which no other leased client has a rule. -/
structure LeasedRule (mac : Text) (rule : IpRule) (wan : PlannerWan) : Prop where
  running : input.instance_.running = true
  free : mac ∉ held input ∧ (forced input).has mac = false
  leased : ∃ lease ∈ input.leases, ActiveRow input subnet mac lease ∧
    ruleIp rule.source = some lease.ip
  address : ∀ lease ∈ input.leases, ∀ other, ActiveRow input subnet other lease →
    ruleIp rule.source = some lease.ip → other = mac
  managed : rule ∈ input.rules ∧ input.policy.manages rule.pref = true
  pool : wan ∈ input.wans ∧ (poolByName input).get? wan.name = some wan
  table : wan.table = some rule.table ∧ (tableToWan input).get? rule.table = some wan.name
  alone : ∀ r ∈ input.rules, input.policy.manages r.pref = true → r.table = rule.table →
    ∀ lease ∈ input.leases, ∀ other, ActiveRow input subnet other lease →
      ruleIp r.source = some lease.ip → other = mac

/-- The client is bound to the WAN, or the remap took it from a WAN in error. -/
def HoldsWan (mac wan : Text) : Prop :=
  (∃ d ∈ (planBindingReconciliation input).desired, d.mac = some mac ∧ d.wan = wan) ∨
    ReleasedByError input subnet mac wan

/-- The table is that of a WAN of the pool, as the table map has it. -/
def SelectsWan (table : Nat) : Prop :=
  ∃ name, (nonEmpty ((tableToWan input).get? table)) = some name ∧
    ∃ wan, (poolByName input).get? name = some wan ∧ wan.table = some table

/-- A rule of no known client, within its release grace. -/
def Lingers (rule : IpRule) : Prop :=
  ∃ ip, ruleIp rule.source = some ip ∧
    attributedMac input subnet ip ((tableToWan input).get? rule.table) = none ∧
    input.now - (((oldOrphans input).get? ⟨rule.pref, ip, rule.table⟩).map
      OrphanMemory.firstMissingAt).getD input.now < input.releaseGraceMs

/-- What the rule needs besides: its address is the client's current one, it is the first of the
client's rules, no lingering rule claims the WAN, and there is a preference for it. -/
structure Prevails (mac : Text) (rule : IpRule) (wan : PlannerWan) : Prop where
  named : wan.name ≠ []
  current : ∃ current, (mac, current) ∈ (currentLeases input subnet).entries ∧
    ruleIp rule.source = some current.lease.ip
  lowest : ∀ r ∈ input.rules, input.policy.manages r.pref = true →
    ruleIp r.source = ruleIp rule.source → SelectsWan input r.table →
      rule.pref ≤ r.pref ∧ (r.pref = rule.pref → r.table = rule.table)
  unclaimed : ∀ r ∈ input.rules, input.policy.manages r.pref = true → r.table = rule.table →
    ¬Lingers input subnet r
  prefs : EnoughPrefs input subnet ∨ ∀ r ∈ input.rules, r.pref = rule.pref →
    ruleIp r.source = ruleIp rule.source ∧ r.table = rule.table

end

section
variable {input : ReconcileInput} {subnet : ParsedSubnet} {mac : Text} {rule : IpRule}
  {wan : PlannerWan}

/-- What a rule that is kept claims. -/
theorem claim_of_preservedBy {entry : WorkingActual} {a : WorkingAssignment}
    (h : preservedBy input subnet entry = some (mac, a)) :
    entry.mac = some mac ∧ nonEmpty entry.wan = some a.wan ∧ a.pref = some entry.pref ∧
      ∃ wan, (poolByName input).get? a.wan = some wan ∧ wan.table = some entry.table := by
  obtain ⟨hmac, -, -, -, hwan, hne, -, -, hpref⟩ := preservedBy_eq_some h
  have hname : nonEmpty entry.wan = some a.wan := nonEmpty_eq_some.mpr ⟨hwan, hne⟩
  refine ⟨hmac, hname, hpref, ?_⟩
  simp only [preservedBy, hmac, hname, Option.bind_some] at h
  split at h
  · cases h
  · split at h
    · rename_i device wan hdevice hget
      split at h
      · exact ⟨wan, hget, ‹_›⟩
      · cases h
    · cases h

theorem activeRow_of_current {owner : Text} {current : CurrentLease}
    (h : (owner, current) ∈ (currentLeases input subnet).entries) :
    ∃ lease ∈ input.leases, ActiveRow input subnet owner lease ∧ lease.ip = current.lease.ip := by
  obtain ⟨lease, hl, hmac, hip, hsubnet, hactive⟩ := isCurrent_of_mem h
  exact ⟨lease, hl, ⟨hmac, hsubnet, hactive⟩, hip.symm⟩

/-- The address is attributed to the client. -/
theorem leasesByIp_of_alone (h : LeasedRule input subnet mac rule wan) {current : CurrentLease}
    (hcurrent : (mac, current) ∈ (currentLeases input subnet).entries)
    (hip : ruleIp rule.source = some current.lease.ip) :
    (leasesByIp input subnet).get? current.lease.ip = some mac := by
  obtain ⟨other, hother⟩ := leasesByIp_isSome hcurrent
  obtain ⟨found, hfound, hsame⟩ := lease_of_leasesByIp hother
  obtain ⟨lease, hl, hactive, hlease⟩ := activeRow_of_current hfound
  rw [hother, h.address lease hl other hactive (by rw [hip, hlease, hsame])]

theorem attributedMac_of_leased {ip : Text} (h : (leasesByIp input subnet).get? ip = some mac)
    (name : Option Text) : attributedMac input subnet ip name = some mac := by
  rw [attributedMac, h]
  rfl

/-- No rule without a client has claimed the WAN. -/
theorem orphans_leave (h : LeasedRule input subnet mac rule wan)
    (hprevails : Prevails input subnet mac rule wan) :
    wan.name ∉ (orphanPass input subnet).usedWans := by
  intro hused
  obtain ⟨a, ha, hname⟩ := orphanPass_sources.used wan.name hused
  obtain ⟨entry, he, orphan, -, ho⟩ := orphanPass_sources.assignments a ha
  obtain ⟨r, hr, hrule⟩ := mem_actual.mp he
  obtain ⟨hmanaged, hip, hpref, htable, hwan, hmac⟩ := attributeRule_eq_some hrule
  -- the WAN of the claim is the one of that name, with its table
  have hclaim : nonEmpty entry.wan = some a.wan ∧ wan.table = some entry.table ∧
      input.now - (((oldOrphans input).get? entry.key).map OrphanMemory.firstMissingAt).getD
        input.now < input.releaseGraceMs := by
    simp only [orphanOf] at ho
    split at ho
    · cases ho
    · split at ho
      · cases ho
      · rename_i found hfound
        split at ho
        · rename_i hgrace
          cases ho
          obtain ⟨name, hne, hget⟩ := Option.bind_eq_some_iff.mp hfound
          obtain ⟨-, rfl⟩ := mem_wans_of_poolByName hget
          have hsame : found = wan := by
            have hpool := h.pool.2
            rw [← hname, hget, Option.some_inj] at hpool
            exact hpool
          exact ⟨hne, hsame ▸ hgrace.1, hgrace.2⟩
        · cases ho
  have hsame : r.table = rule.table := by
    have := h.table.1
    rw [hclaim.2.1, Option.some_inj] at this
    exact htable.symm.trans this
  refine hprevails.unclaimed r hr hmanaged hsame ⟨entry.ip, hip, ?_, ?_⟩
  · have hnone := (orphanOf_eq_some ho).1
    rw [← hwan, ← hmac, hnone]
  · have hkey : entry.key = ⟨r.pref, entry.ip, r.table⟩ := by rw [WorkingActual.key, hpref, htable]
    rw [← hkey]
    exact hclaim.2.2

/-- The rule keeps its client. -/
theorem preserved_of_leased (h : LeasedRule input subnet mac rule wan)
    (hprevails : Prevails input subnet mac rule wan) :
    Wins mac wan.name rule.pref (preservePass input subnet) := by
  obtain ⟨current, hcurrent, hip⟩ := hprevails.current
  have hattributed := attributedMac_of_leased (leasesByIp_of_alone h hcurrent hip)
  obtain ⟨entry, hrule, hpref, heip, htable, hwan, hmac⟩ := attributeRule_of_mac h.managed.2 hip
    (hattributed ((tableToWan input).get? rule.table))
  have hexact : entry.exactLease = true :=
    (exactLease_of_attributeRule hrule).mpr ⟨mac, current, hmac, hcurrent, heip.symm⟩
  have hpreserved : ∃ device, preservedBy input subnet entry =
      some (mac, assignTo input mac device wan entry.table (some entry.pref)) := by
    obtain ⟨device, hdevice, -⟩ := workingDevice_of_lease hcurrent
    have hget : (nonEmpty entry.wan).bind (poolByName input).get? = some wan := by
      rw [hwan, h.table.2, nonEmpty_eq_some.mpr ⟨rfl, hprevails.named⟩, Option.bind_some]
      exact h.pool.2
    refine ⟨device, ?_⟩
    rw [preservedBy, hmac]
    simp only [hdevice, hget]
    rw [if_neg (by simp [h.free.1, h.free.2]), if_pos (by rw [h.table.1, htable])]
  obtain ⟨device, hpreserved⟩ := hpreserved
  obtain ⟨before, after, hsplit⟩ := List.append_of_mem (mem_actual.mpr ⟨rule, h.managed.1, hrule⟩)
  have hread := read_before hsplit
  have hsource : ∀ x ∈ before, ∃ r ∈ input.rules, attributeRule input subnet r = some x := fun x hx =>
    mem_actual.mp (hsplit ▸ List.mem_append_left _ hx)
  have hstart : Open mac wan.name ⟨(orphanPass input subnet).usedWans, [], .empty, .empty⟩ :=
    ⟨List.not_mem_nil, orphans_leave h hprevails⟩
  simp only [preservePass, h.running, if_true, hsplit]
  refine wins_run hstart (fun x hx a ha => ?_) (fun x hx owner a ha hne hname => ?_) hpreserved rfl
    (by rw [← hpref]; rfl)
  · -- a rule of the client that comes before goes to the same table
    obtain ⟨r, hr, hx'⟩ := hsource x hx
    obtain ⟨hmanaged, hrip, hrpref, hrtable, hrwan, -⟩ := attributeRule_eq_some hx'
    obtain ⟨hxmac, hxname, hapref, found, hfound, hftable⟩ := claim_of_preservedBy ha
    obtain ⟨hxexact, hle⟩ := exact_of_before (hread x hx) hexact
    obtain ⟨owner, own, howner, hown, hownip⟩ := (exactLease_of_attributeRule hx').mp hxexact
    rw [hxmac, Option.some_inj] at howner
    subst howner
    have hsame : own = current := congrArg Prod.snd
      (List.inj_on_of_nodup_map (currentLeases input subnet).nodup hown hcurrent rfl)
    have hsourceIp : ruleIp r.source = ruleIp rule.source := by rw [hrip, hip, ← hownip, hsame]
    have hselects : SelectsWan input r.table :=
      ⟨a.wan, hrwan ▸ hxname, found, hfound, hrtable ▸ hftable⟩
    obtain ⟨hlow, hequal⟩ := hprevails.lowest r hr hmanaged hsourceIp hselects
    have hprefs : r.pref = rule.pref := by omega
    have hname : x.wan = some wan.name := by rw [hrwan, hequal hprefs, h.table.2]
    rw [hname, nonEmpty_eq_some] at hxname
    exact ⟨(Option.some.inj hxname.1).symm, by rw [hapref, hrpref, hprefs]⟩
  · -- another leased client has no rule to the table
    obtain ⟨r, hr, hx'⟩ := hsource x hx
    obtain ⟨hmanaged, hrip, -, hrtable, -, -⟩ := attributeRule_eq_some hx'
    obtain ⟨hxmac, -, -, found, hfound, hftable⟩ := claim_of_preservedBy ha
    obtain ⟨hxexact, -⟩ := exact_of_before (hread x hx) hexact
    obtain ⟨other, own, hother, hown, hownip⟩ := (exactLease_of_attributeRule hx').mp hxexact
    rw [hxmac, Option.some_inj] at hother
    subst hother
    have hfoundWan : found = wan := by
      have hpool := h.pool.2
      rw [← hname, hfound, Option.some_inj] at hpool
      exact hpool
    have htables : r.table = rule.table := by
      have hwanTable := h.table.1
      rw [← hfoundWan, hftable, Option.some_inj] at hwanTable
      exact hrtable.symm.trans hwanTable
    obtain ⟨lease, hl, hactive, hlease⟩ := activeRow_of_current hown
    exact hne (h.alone r hr hmanaged htables lease hl owner hactive
      (by rw [hrip, ← hownip, hlease]))

/-- A preference that only the client's rule has stays with the client. -/
theorem desired_of_own_pref (h : LeasedRule input subnet mac rule wan) {current : CurrentLease}
    (hcurrent : (mac, current) ∈ (currentLeases input subnet).entries)
    (hip : ruleIp rule.source = some current.lease.ip)
    (hown : ∀ r ∈ input.rules, r.pref = rule.pref →
      ruleIp r.source = ruleIp rule.source ∧ r.table = rule.table)
    {a : WorkingAssignment} (ha : (mac, a) ∈ (allocationPass input subnet).assignments.entries)
    (hpref : a.pref = some rule.pref) : ∃ d ∈ desired input subnet, a.desired = some d := by
  have hattributed := attributedMac_of_leased (leasesByIp_of_alone h hcurrent hip)
  obtain ⟨entry, hrule, hp, hi, ht, -, -⟩ := attributeRule_of_mac h.managed.2 hip
    (hattributed ((tableToWan input).get? rule.table))
  -- whatever has the preference is the client's
  have hmacs : ∀ x ∈ actual input subnet, x.pref = rule.pref → x.mac = some mac := by
    intro x hx hxp
    obtain ⟨r, hr, hx'⟩ := mem_actual.mp hx
    obtain ⟨-, hrip, hrpref, -, hrwan, hrmac⟩ := attributeRule_eq_some hx'
    obtain ⟨hsource, -⟩ := hown r hr (hrpref.symm.trans hxp)
    rw [hrip, hip, Option.some_inj] at hsource
    rw [hrmac, hsource]
    exact hattributed _
  have havailable : rule.pref ∈ availablePrefs input subnet := by
    refine mem_availablePrefs.mpr ⟨h.managed.2, fun r hr hrp => ?_⟩
    obtain ⟨hsource, htable⟩ := hown r hr hrp
    have hkey : (⟨r.pref, current.lease.ip, r.table⟩ : RuleChange) ∈
        (actual input subnet).map WorkingActual.key := by
      refine List.mem_map.mpr ⟨entry, mem_actual.mpr ⟨rule, h.managed.1, hrule⟩, ?_⟩
      rw [WorkingActual.key, hp, hi, ht, hrp, htable]
    simp [reservesPref, hsource, hip, hkey]
  refine mem_desired_of_pref (OrderedMap.mem_values.mpr ⟨mac, ha⟩) hpref havailable
    (fun b hb hbp => ?_) fun b hb hbp => ?_
  · obtain ⟨x, hx, orphan, -, ho⟩ := orphanPass_sources.assignments b hb
    obtain ⟨hnone, -, -, -, -, -, -, hxp, -⟩ := orphanOf_eq_some ho
    rw [hbp, Option.some_inj] at hxp
    rw [hmacs x hx hxp.symm] at hnone
    cases hnone
  · obtain ⟨key, he⟩ := OrderedMap.mem_values.mp hb
    obtain ⟨x, hx, hpre, hxp⟩ := source_of_pref he hbp
    have hmac := (preservedBy_eq_some hpre).1
    rw [hmacs x hx hxp, Option.some_inj] at hmac
    subst hmac
    exact congrArg Prod.snd (List.inj_on_of_nodup_map
      (allocationPass input subnet).assignments.nodup he ha rfl)

/-- A leased client keeps the WAN that its rule selects, if the rule prevails. -/
theorem valid_rule_wins (input : ReconcileInput) (subnet : ParsedSubnet)
    (hparse : parseCidr input.lanCidr = some subnet) (mac : Text) (rule : IpRule) (wan : PlannerWan)
    (h : LeasedRule input subnet mac rule wan) (hprevails : Prevails input subnet mac rule wan) :
    HoldsWan input subnet mac wan.name := by
  obtain ⟨-, a, hget, hwan, hpref⟩ := preserved_of_leased h hprevails
  have hentry := OrderedMap.get?_eq_some.mp hget
  by_cases hleft : (mac, a) ∈ leaving input subnet
  · exact .inr (releasedByError_iff.mpr ⟨a, hleft, hwan⟩)
  · left
    have hstays : (mac, a) ∈ (remapPass input subnet).assignments.entries := by
      by_contra hgone
      refine hleft (mem_leaving.mpr ⟨hentry, fun hkey => hgone ?_⟩)
      obtain ⟨b, hb⟩ := OrderedMap.mem_keys.mp hkey
      have hsame : b = a := congrArg Prod.snd (List.inj_on_of_nodup_map
        (preservePass input subnet).assignments.nodup (remapPass_subset hb) hentry rfl)
      exact hsame ▸ hb
    have hallocated := mem_allocationPass hstays
    have hmac := mac_of_allocated h.running hallocated
    rw [planBinding_of_parsed hparse, planOn_desired]
    obtain henough | hown := hprevails.prefs
    · have hassigned : a ∈ assigned input subnet :=
        List.mem_append_right _ (OrderedMap.mem_values.mpr ⟨mac, hallocated⟩)
      obtain ⟨d, hd, hdwan, hdmac⟩ := desired_of_assigned henough hassigned
      exact ⟨d, hd, hdmac.trans hmac, hdwan.trans hwan⟩
    · obtain ⟨current, hcurrent, hip⟩ := hprevails.current
      obtain ⟨d, hd, hdesired⟩ := desired_of_own_pref h hcurrent hip hown hallocated hpref
      obtain ⟨-, -, -, hdwan, hdmac⟩ := desired_eq_some hdesired
      exact ⟨d, hd, hdmac.trans hmac, hdwan.trans hwan⟩

end

/-- The phone alone, with the given rules, and two WANs. -/
def phoneInput (rules : List IpRule) : ReconcileInput := {
  quietInput with
  leases := [⟨0, js "00:11:22:33:44:55", js "192.168.10.2", js "phone"⟩]
  rules
  wans := [upWan (js "pd00001") 10001, upWan (js "pd00002") 10002] }

def phoneMac : Text := js "00:11:22:33:44:55"

/-- The rules of the phone to both WANs. -/
def twoRules : List IpRule :=
  [⟨1000, js "192.168.10.2", 10001⟩, ⟨1001, js "192.168.10.2", 10002⟩]

/-- A rule of nobody, and then the phone's to the same table. -/
def strayRules : List IpRule :=
  [⟨1000, js "192.168.10.9", 10001⟩, ⟨1001, js "192.168.10.2", 10001⟩]

theorem eq_phone_of_active {rules : List IpRule} {lease : Lease} {other : Text}
    (hl : lease ∈ (phoneInput rules).leases)
    (h : ActiveRow (phoneInput rules) quietSubnet other lease) : other = phoneMac := by
  obtain rfl := List.mem_singleton.mp hl
  have hmac : normalizedMac (js "00:11:22:33:44:55") = some phoneMac := by decide +kernel
  exact (Option.some.inj (hmac.symm.trans h.1)).symm

/-- A rule of the phone to a WAN of the pool is a leased client's. -/
theorem leasedRule_phone {rules : List IpRule} {rule : IpRule} {wan : PlannerWan}
    (hsource : rule.source = js "192.168.10.2")
    (hrule : rule ∈ rules) (hmanages : (phoneInput rules).policy.manages rule.pref = true)
    (hwan : wan ∈ (phoneInput rules).wans)
    (hpool : (poolByName (phoneInput rules)).get? wan.name = some wan)
    (htable : wan.table = some rule.table)
    (hname : (tableToWan (phoneInput rules)).get? rule.table = some wan.name) :
    LeasedRule (phoneInput rules) quietSubnet phoneMac rule wan where
  running := rfl
  free := ⟨by change phoneMac ∉ []; simp, rfl⟩
  leased := by
    refine ⟨_, List.mem_cons_self, ⟨?_, ?_, rfl⟩, ?_⟩
    · decide +kernel
    · decide +kernel
    · rw [hsource]
      decide +kernel
  address _ hl _ hactive _ := eq_phone_of_active hl hactive
  managed := ⟨hrule, hmanages⟩
  pool := ⟨hwan, hpool⟩
  table := ⟨htable, hname⟩
  alone _ _ _ _ _ hl _ hactive _ := eq_phone_of_active hl hactive

theorem valid_rule_wins_phone :
    HoldsWan (phoneInput twoRules) quietSubnet phoneMac (js "pd00001") := by
  refine valid_rule_wins (phoneInput twoRules) quietSubnet (by decide +kernel) phoneMac
    ⟨1000, js "192.168.10.2", 10001⟩ (upWan (js "pd00001") 10001) ?_ ?_
  · exact leasedRule_phone rfl List.mem_cons_self rfl List.mem_cons_self (by decide +kernel) rfl
      (by decide +kernel)
  · have hcurrent : ((currentLeases (phoneInput twoRules) quietSubnet).get? phoneMac).any
        (fun current => ruleIp (js "192.168.10.2") == some current.lease.ip) = true := by
      decide +kernel
    obtain ⟨current, hget, hip⟩ := (Option.any_eq_true _ _).mp hcurrent
    refine ⟨by decide, ⟨current, OrderedMap.get?_eq_some.mp hget, eq_of_beq hip⟩, ?_, ?_, ?_⟩
    · simp [phoneInput, twoRules]
    · intro r hr _ htable hlingers
      obtain ⟨ip, hip, hnone, -⟩ := hlingers
      have hsource : r.source = js "192.168.10.2" := by
        obtain rfl | rfl := List.mem_pair.mp hr <;> rfl
      have hphone : (ruleIp (js "192.168.10.2")).map (fun ip =>
          attributedMac (phoneInput twoRules) quietSubnet ip
            ((tableToWan (phoneInput twoRules)).get? 10001)) = some (some phoneMac) := by
        decide +kernel
      rw [← hsource, hip, Option.map_some, Option.some_inj] at hphone
      rw [htable, hphone] at hnone
      cases hnone
    · refine .inr fun r hr hpref => ?_
      obtain rfl | rfl := List.mem_pair.mp hr
      · exact ⟨rfl, rfl⟩
      · cases hpref

/-- A leased client keeps the WAN that its rule selects, whatever other rules there are. -/
def ValidRuleWins (input : ReconcileInput) : Prop :=
  ∀ subnet, parseCidr input.lanCidr = some subnet → ∀ mac rule wan,
    LeasedRule input subnet mac rule wan → HoldsWan input subnet mac wan.name

theorem not_holds_of_desired {input : ReconcileInput} {subnet : ParsedSubnet} {mac wan : Text}
    (hdesired : ∀ d ∈ (planBindingReconciliation input).desired, ¬(d.mac = some mac ∧ d.wan = wan))
    (hleaving : leaving input subnet = []) : ¬HoldsWan input subnet mac wan := by
  rintro (⟨d, hd, hholds⟩ | hreleased)
  · exact hdesired d hd hholds
  · obtain ⟨a, ha, -⟩ := releasedByError_iff.mp hreleased
    rw [hleaving] at ha
    exact List.not_mem_nil ha

/-- The second rule of the phone loses to the first; its only rule loses to one of nobody. -/
theorem valid_rule_may_lose :
    ¬ValidRuleWins (phoneInput twoRules) ∧ ¬ValidRuleWins (phoneInput strayRules) := by
  constructor
  · intro h
    refine not_holds_of_desired (by decide +kernel) (by decide +kernel)
      (h quietSubnet (by decide +kernel) phoneMac ⟨1001, js "192.168.10.2", 10002⟩
        (upWan (js "pd00002") 10002) (leasedRule_phone rfl ?_ rfl ?_ ?_ rfl ?_))
    all_goals decide +kernel
  · intro h
    refine not_holds_of_desired (by decide +kernel) (by decide +kernel)
      (h quietSubnet (by decide +kernel) phoneMac ⟨1001, js "192.168.10.2", 10001⟩
        (upWan (js "pd00001") 10001) (leasedRule_phone rfl ?_ rfl ?_ ?_ rfl ?_))
    all_goals decide +kernel

end BoredManager.OpenWrt
