import BoredManager.OpenWrt.Planner.NextStep

/-! Runs of the binding engine on one instance, and what becomes of a client whose
lease moves to another address. A rule is attributed by its source address, so the
client keeps its WAN when its old rule is still attributed to it and no rule of
another WAN stands at its addresses. -/
namespace BoredManager.OpenWrt
open BoredManager.Js BoredManager.Machine Planner

/-- What one reconciliation leaves for the next. -/
structure BindingState where
  rules : List IpRule
  memory : PlannerMemory
  sticky : List StickyChoice

/-- What changes between reconciliations; holds and forced reassignments are those of
the user. -/
structure Sample where
  clock : Option Int
  leases : List Lease
  wans : List PlannerWan
  tableToWan : List (Nat × Text)
  heldMacs : List Text
  forceReassign : List ForcedReassign
  randomSeed : Option Int
  rebooted : Bool

structure BindingSetting where
  instance_ : PlannerInstance
  lanCidr : Text
  policy : PlannerPolicy
  stickyCap : Int

variable (setting : BindingSetting)

def inputOf (state : BindingState) (sample : Sample) : ReconcileInput := {
  clock := sample.clock
  instance_ := setting.instance_
  lanCidr := setting.lanCidr
  leases := sample.leases
  rules := state.rules
  wans := sample.wans
  tableToWan := sample.tableToWan
  sticky := state.sticky
  memory := some { state.memory with
    heldMacs := sample.heldMacs
    forceReassign := sample.forceReassign }
  policy := setting.policy
  randomSeed := sample.randomSeed
  rebooted := sample.rebooted }

/-- A time of last use moves in steps of ten seconds. -/
def touchedAt (existing : OrderedMap Text StickyChoice) (now : Int) (mac wan : Text) : Int :=
  let touchAt := max 0 now / 10000 * 10000
  match existing.get? mac with
  | some old => if old.wan = wan ∧ touchAt ≤ old.lastSeenAt then old.lastSeenAt else touchAt
  | none => touchAt

def stickyUpdateStep (existing : OrderedMap Text StickyChoice) (now : Int)
    (candidates : OrderedMap Text StickyChoice) (update : StickyChoice) :
    OrderedMap Text StickyChoice :=
  match normalizedMac update.mac with
  | some mac => candidates.set mac ⟨mac, update.wan, touchedAt existing now mac update.wan⟩
  | none => candidates

def normalizedChoices (sticky : List StickyChoice) : OrderedMap Text StickyChoice :=
  .ofList (sticky.filterMap fun choice =>
    (normalizedMac choice.mac).map fun mac => (mac, { choice with mac }))

def newestFirst (a b : StickyChoice) : Bool :=
  decide (b.lastSeenAt < a.lastSeenAt) || (a.lastSeenAt == b.lastSeenAt && textLe a.mac b.mac)

def selectedChoices (enabled : Bool) (cap now : Int) (sticky updates : List StickyChoice) :
    List StickyChoice :=
  let existing := if enabled then normalizedChoices sticky else .empty
  let candidates := updates.foldl (stickyUpdateStep existing now) existing
  (candidates.values.insertionSort fun a b => newestFirst a b = true).take (max 1 cap).toNat

/-- The choices of one instance after a reconciliation: the newest ones; the list is
left alone when that changes nothing. -/
def syncSticky (enabled : Bool) (cap now : Int) (sticky updates : List StickyChoice) :
    List StickyChoice :=
  let selected := selectedChoices enabled cap now sticky updates
  let selectedByKey := normalizedChoices selected
  let changed := selectedByKey.keys.length != sticky.length || sticky.any fun choice =>
    match (normalizedMac choice.mac).bind selectedByKey.get? with
    | some kept => kept.wan != choice.wan || kept.lastSeenAt != choice.lastSeenAt
    | none => true
  if changed then selected else sticky

def bindingStep (state : BindingState) (sample : Sample) : BindingState :=
  let input := inputOf setting state sample
  let result := planBindingReconciliation input
  { rules := applyRuleDiffInMemory state.rules result.ruleDiff
    memory := result.memory
    sticky := syncSticky setting.instance_.sticky setting.stickyCap input.now state.sticky
      result.stickyUpdates }

/-- A property of each two successive reconciliations of a run. -/
def Successive (P : ReconcileInput → ReconcileInput → Prop) : BindingState → List Sample → Prop
  | state, first :: second :: rest =>
    P (inputOf setting state first)
        (inputOf setting (bindingStep setting state first) second) ∧
      Successive P (bindingStep setting state first) (second :: rest)
  | _, _ => True

variable {setting}

/-! ### Sticky choices -/

theorem mem_selectedChoices {enabled : Bool} {cap now : Int} {sticky updates : List StickyChoice}
    {choice : StickyChoice} (h : choice ∈ selectedChoices enabled cap now sticky updates) :
    choice ∈ (updates.foldl
      (stickyUpdateStep (if enabled then normalizedChoices sticky else .empty) now)
      (if enabled then normalizedChoices sticky else .empty)).values :=
  (List.mem_insertionSort _).mp (List.mem_of_mem_take h)

/-- Choices stand under their own normal form. -/
def OwnKeys (choices : OrderedMap Text StickyChoice) : Prop :=
  ∀ e ∈ choices.entries, e.2.mac = e.1 ∧ normalizedMac e.1 = some e.1

theorem ownKeys_normalizedChoices (sticky : List StickyChoice) :
    OwnKeys (normalizedChoices sticky) := by
  intro e he
  have hm := OrderedMap.mem_of_get?_ofList (OrderedMap.get?_eq_some.mpr he)
  obtain ⟨choice, -, heq⟩ := List.mem_filterMap.mp hm
  obtain ⟨mac, hmac, hpair⟩ := Option.map_eq_some_iff.mp heq
  obtain ⟨hk, hv⟩ := Prod.mk.inj hpair
  exact ⟨by rw [← hv, ← hk], by rw [← hk]; exact normalizedMac_idem hmac⟩

theorem ownKeys_update {existing candidates : OrderedMap Text StickyChoice} {now : Int}
    (update : StickyChoice) (h : OwnKeys candidates) :
    OwnKeys (stickyUpdateStep existing now candidates update) := by
  simp only [stickyUpdateStep]
  split
  · rename_i mac hmac
    intro e he
    rcases OrderedMap.mem_entries_set.mp he with rfl | ⟨he, -⟩
    · exact ⟨rfl, normalizedMac_idem hmac⟩
    · exact h e he
  · exact h

/-- After a reconciliation the only choice of a bound client is its WAN. -/
theorem wan_of_syncSticky {enabled : Bool} {cap now : Int} {sticky updates : List StickyChoice}
    {mac wan : Text} (hone : ∀ update ∈ updates, normalizedMac update.mac = some mac →
      update.wan = wan)
    (hmem : ∃ update ∈ updates, normalizedMac update.mac = some mac)
    {choice : StickyChoice}
    (h : choice ∈ syncSticky enabled cap now sticky updates)
    (hmac : normalizedMac choice.mac = some mac) : choice.wan = wan := by
  set existing : OrderedMap Text StickyChoice :=
    if enabled then normalizedChoices sticky else .empty with hexisting
  have hown : OwnKeys existing := by
    rw [hexisting]
    split
    · exact ownKeys_normalizedChoices sticky
    · exact fun _ h => by cases h
  have hfold : OwnKeys (updates.foldl (stickyUpdateStep existing now) existing) :=
    List.foldlRecOn updates _ hown fun _ h update _ => ownKeys_update update h
  have hkey : ∀ c, (updates.foldl (stickyUpdateStep existing now) existing).get? mac = some c →
      c.wan = wan := by
    obtain ⟨update, hu, hum⟩ := hmem
    refine run_establishes (P := fun choices : OrderedMap Text StickyChoice =>
      ∀ c, choices.get? mac = some c → c.wan = wan) (fun choices other ho hp c hc => ?_) hu
      (fun choices c hc => ?_) existing
    · simp only [stickyUpdateStep] at hc
      split at hc
      · rename_i m hm
        rw [OrderedMap.get?_set] at hc
        split at hc
        · rename_i heq
          cases hc
          exact hone other ho (heq ▸ hm)
        · exact hp c hc
      · exact hp c hc
    · simp only [stickyUpdateStep, hum, OrderedMap.get?_set, if_true, Option.some_inj] at hc
      rw [← hc]
      exact hone update hu hum
  have hselected : ∀ c ∈ selectedChoices enabled cap now sticky updates,
      normalizedMac c.mac = some mac → c.wan = wan := by
    intro c hc hcm
    obtain ⟨key, he⟩ := OrderedMap.mem_values.mp (mem_selectedChoices hc)
    obtain ⟨hk, hn⟩ := hfold _ he
    rw [hk, hn, Option.some_inj] at hcm
    subst hcm
    exact hkey c (OrderedMap.get?_eq_some.mpr he)
  simp only [syncSticky] at h
  split at h
  · exact hselected choice h hmac
  · rename_i hchanged
    rw [Bool.or_eq_true, not_or, List.any_eq_true, not_exists] at hchanged
    have hkept := hchanged.2 choice
    rw [not_and] at hkept
    have hkept := hkept h
    rw [hmac, Option.bind_some] at hkept
    split at hkept
    · rename_i kept hk
      obtain ⟨c, hc, heq⟩ := List.mem_filterMap.mp (OrderedMap.mem_of_get?_ofList hk)
      obtain ⟨m, hm, hpair⟩ := Option.map_eq_some_iff.mp heq
      obtain ⟨hmm, hv⟩ := Prod.mk.inj hpair
      have hwan : kept.wan = choice.wan := by
        by_contra hne
        exact hkept (by simp [hne])
      rw [← hwan, ← hv]
      exact hselected c hc (hmm ▸ hm)
    · exact absurd rfl hkept

theorem choice_of_stickyWan {input : ReconcileInput} {subnet : ParsedSubnet} {mac wan : Text}
    (h : (stickyMacByWan input subnet).get? wan = some mac) :
    ∃ choice ∈ input.sticky, normalizedMac choice.mac = some mac ∧ choice.wan = wan := by
  refine List.foldlRecOn (motive := fun state : OrderedMap Text Text × List Text =>
    ∀ wan mac, state.1.get? wan = some mac →
      ∃ choice ∈ input.sticky, normalizedMac choice.mac = some mac ∧ choice.wan = wan)
    input.sticky (stickyWanStep (currentLeases input subnet).has)
    (fun _ _ h => by cases h) (fun state hs choice hc wan mac hget => ?_) wan mac h
  simp only [stickyWanStep] at hget
  split at hget
  · exact hs wan mac hget
  · rename_i m hm
    split at hget
    · split at hget
      · rw [OrderedMap.get?_erase] at hget
        split at hget
        · cases hget
        · exact hs wan mac hget
      · split at hget
        · exact hs wan mac hget
        · rw [OrderedMap.get?_set] at hget
          split at hget
          · rename_i heq
            cases hget
            exact ⟨choice, hc, hm, heq.symm⟩
          · exact hs wan mac hget
    · exact hs wan mac hget

/-! ### A client whose address changes -/

/-- The rule at the client's former address is still attributed to it, and no managed
rule at its former or its present address selects another table. -/
def AddressesClear (subnet : ParsedSubnet) (before after : ReconcileInput) (mac : Text) : Prop :=
  ∀ entry ∈ (planBindingReconciliation before).desired, entry.mac = some mac →
    ∀ e ∈ (currentLeases after subnet).entries, e.1 = mac →
      ((leasesByIp after subnet).get? entry.ip).or ((previousIpToMac after).get? entry.ip) =
          some mac ∧
        ∀ rule ∈ after.rules, after.policy.manages rule.pref = true →
          (ruleIp rule.source = some entry.ip ∨ ruleIp rule.source = some e.2.lease.ip) →
          rule.table = entry.table

instance (subnet : ParsedSubnet) (before after : ReconcileInput) (mac : Text) :
    Decidable (AddressesClear subnet before after mac) :=
  inferInstanceAs (Decidable (∀ entry ∈ (planBindingReconciliation before).desired,
    entry.mac = some mac → ∀ e ∈ (currentLeases after subnet).entries, e.1 = mac →
      ((leasesByIp after subnet).get? entry.ip).or ((previousIpToMac after).get? entry.ip) =
          some mac ∧
        ∀ rule ∈ after.rules, after.policy.manages rule.pref = true →
          (ruleIp rule.source = some entry.ip ∨ ruleIp rule.source = some e.2.lease.ip) →
          rule.table = entry.table))

/-- A leased client that is neither held nor forced keeps a WAN that is still in the
pool, with its table and not in error. -/
def KeepsWan (subnet : ParsedSubnet) (before after : ReconcileInput) (mac : Text) : Prop :=
  ∀ entry ∈ (planBindingReconciliation before).desired, entry.mac = some mac →
    mac ∈ (currentLeases before subnet).keys → mac ∈ (currentLeases after subnet).keys →
    mac ∉ held after → (forced after).has mac = false →
    (∃ wan ∈ after.wans, wan.name = entry.wan ∧ wan.table = some entry.table ∧
      wanState wan after.policy.wanWarnUptimeSec ≠ .error) →
    ∃ kept ∈ (planBindingReconciliation after).desired,
      kept.mac = some mac ∧ kept.wan = entry.wan

section
variable {before after : ReconcileInput} {subnet : ParsedSubnet} {mac : Text}
  {entry : DesiredAssignment} {current : CurrentLease}

/-- What the next reconciliation reads of a client's rules: each rule that is the
client's selects its WAN, and the WAN's rules are the client's. -/
structure RulesOfClient (after : ReconcileInput) (subnet : ParsedSubnet) (mac wan : Text)
    (pref table : Nat) : Prop where
  exists_own : ∃ own ∈ actual after subnet, own.mac = some mac ∧ own.wan = some wan ∧
    own.pref = pref ∧ own.table = table
  wan_of_mac : ∀ own ∈ actual after subnet, own.mac = some mac → ∀ w, own.wan = some w → w = wan
  mac_of_table : ∀ own ∈ actual after subnet, own.table = table →
    own.mac = some mac ∧ own.pref = pref
  mac_of_pref : ∀ own ∈ actual after subnet, own.pref = pref → own.mac = some mac
  pref_available : pref ∈ availablePrefs after subnet

/-- A client with such rules keeps its WAN. -/
theorem mem_desired_of_rules {wan : Text} {pref table : Nat}
    (hrun : after.instance_.running = true) (hnames : (after.wans.map PlannerWan.name).Nodup)
    (hrules : RulesOfClient after subnet mac wan pref table)
    (hleased : mac ∈ (currentLeases after subnet).keys) (hheld : mac ∉ held after)
    (hforced : (forced after).has mac = false) (hwan : wan ≠ [])
    {member : PlannerWan} (hmember : member ∈ after.wans) (hname : member.name = wan)
    (htable : member.table = some table)
    (hstate : wanState member after.policy.wanWarnUptimeSec ≠ .error) :
    ∃ kept ∈ desired after subnet, kept.mac = some mac ∧ kept.wan = wan := by
  have honly : ∀ t, OnPool after wan t → t = table := by
    rintro t ⟨other, ho, hon, hot⟩
    have hsame := List.inj_on_of_nodup_map hnames ho hmember (hon.trans hname.symm)
    rw [hsame, htable, Option.some_inj] at hot
    exact hot.symm
  obtain ⟨leasedCurrent, hc⟩ := OrderedMap.mem_keys.mp hleased
  obtain ⟨device, hdevice, -⟩ := workingDevice_of_lease hc
  -- the own rule is one that can be kept
  obtain ⟨own, hown, hownMac, hownWan, -, hownTable⟩ := hrules.exists_own
  have hpreserved : preservedBy after subnet own =
      some (mac, assignTo after mac device member own.table (some own.pref)) := by
    have hget : (nonEmpty own.wan).bind (poolByName after).get? = some member := by
      rw [hownWan, nonEmpty_eq_some.mpr ⟨rfl, hwan⟩, Option.bind_some, ← hname]
      exact poolByName_of_mem hnames hmember
    rw [preservedBy, hownMac]
    simp only [hdevice, hget]
    rw [if_neg (by simp [hheld, hforced]), if_pos (by rw [htable, hownTable])]
  -- nobody else can have claimed the WAN
  have hkey : mac ∈ (preservePass after subnet).assignments.keys := by
    rcases preservePass_complete hrun hown hpreserved with hk | hused
    · exact hk
    · have hused : wan ∈ (preservePass after subnet).usedWans := hname ▸ hused
      rcases preservePass_sources.used wan hused with horphan | ⟨e, he, hew⟩
      · obtain ⟨a, ha, haw⟩ := orphanPass_sources.used wan horphan
        obtain ⟨entry, he, orphan, -, ho⟩ := orphanPass_sources.assignments a ha
        obtain ⟨hnone, -, -, hpool, -, -, ht, -⟩ := orphanOf_eq_some ho
        rw [haw, ht] at hpool
        have hmac := (hrules.mac_of_table entry he (honly _ hpool)).1
        rw [hnone] at hmac
        cases hmac
      · obtain ⟨entry, hentry, hp⟩ := preservePass_sources.assignments e he
        obtain ⟨hmac, -, -, -, -, -, hpool, ht, -⟩ := preservedBy_eq_some hp
        rw [hew, ht] at hpool
        have hmac' := (hrules.mac_of_table entry hentry (honly _ hpool)).1
        rw [hmac, Option.some_inj] at hmac'
        exact hmac' ▸ List.mem_map_of_mem he
  obtain ⟨a, ha⟩ := OrderedMap.mem_keys.mp hkey
  obtain ⟨source, hsource, hp⟩ := preservePass_sources.assignments _ ha
  obtain ⟨hsmac, -, -, ⟨hamac, -⟩, hswan, -, hpool, hatable, hapref⟩ := preservedBy_eq_some hp
  have hawan : a.wan = wan := hrules.wan_of_mac source hsource hsmac _ hswan
  have hsource_pref : source.pref = pref := by
    rw [hawan, hatable] at hpool
    exact (hrules.mac_of_table source hsource (honly _ hpool)).2
  have hapref : a.pref = some pref := by rw [hapref, hsource_pref]
  -- it survives the remapping, and no other assignment holds its preference
  have hremap : (mac, a) ∈ (remapPass after subnet).assignments.entries :=
    mem_remapPass_of_not_overdue ha
      (not_overdue_of_state hnames hmember (hname.trans hawan.symm) hstate)
  have halloc := mem_allocationPass hremap
  have hforeign : ∀ b ∈ (orphanPass after subnet).opaqueAssignments, b.pref ≠ some pref := by
    intro b hb hbp
    obtain ⟨entry, he, orphan, -, ho⟩ := orphanPass_sources.assignments b hb
    obtain ⟨hnone, -, -, -, -, -, -, hpref, -⟩ := orphanOf_eq_some ho
    rw [hbp, Option.some_inj] at hpref
    have hmac := hrules.mac_of_pref entry he hpref.symm
    rw [hnone] at hmac
    cases hmac
  have hothers : ∀ b ∈ (allocationPass after subnet).assignments.values,
      b.pref = some pref → b = a := by
    intro b hb hbp
    obtain ⟨key, he⟩ := OrderedMap.mem_values.mp hb
    obtain ⟨entry, hentry, hpre, hep⟩ := source_of_pref he hbp
    have hmac := (preservedBy_eq_some hpre).1
    rw [hrules.mac_of_pref entry hentry hep, Option.some_inj] at hmac
    subst hmac
    exact congrArg Prod.snd (List.inj_on_of_nodup_map
      (allocationPass after subnet).assignments.nodup he halloc rfl)
  obtain ⟨kept, hk, hkd⟩ := mem_desired_of_pref (OrderedMap.mem_values.mpr ⟨_, halloc⟩) hapref
    hrules.pref_available hforeign hothers
  obtain ⟨-, -, -, hkw, hkm⟩ := desired_eq_some hkd
  exact ⟨kept, hk, hkm.trans hamac, hkw.trans hawan⟩

/-- The rules that a reconciliation leaves for a bound client, read by the next one. -/
theorem rulesOfClient (hfollows : Follows before after subnet)
    (hpool : PoolWellFormed before) (hpool' : PoolWellFormed after)
    (htrim : ∀ lease ∈ before.leases, trim lease.ip = lease.ip)
    (hsticky : ∀ choice ∈ after.sticky, normalizedMac choice.mac = some mac →
      choice.wan = entry.wan)
    (he : entry ∈ desired before subnet) (hmac : entry.mac = some mac)
    {former : CurrentLease} (hformer : (mac, former) ∈ (currentLeases before subnet).entries)
    (hcurrent : (mac, current) ∈ (currentLeases after subnet).entries)
    (hwan : OnPool after entry.wan entry.table)
    (howner : ((leasesByIp after subnet).get? entry.ip).or ((previousIpToMac after).get? entry.ip) =
      some mac)
    (hclear : ∀ rule ∈ after.rules, after.policy.manages rule.pref = true →
      (ruleIp rule.source = some entry.ip ∨ ruleIp rule.source = some current.lease.ip) →
        rule.table = entry.table) :
    RulesOfClient after subnet mac entry.wan entry.pref entry.table := by
  have hip : entry.ip = former.lease.ip := desired_ip_of_leased hpool.names he hmac hformer
  have hbare : IsBareAddress entry.ip := hip ▸ isBareAddress_of_current htrim hformer
  have hmanaged : after.policy.manages entry.pref = true := by
    rw [hfollows.policy]
    exact (mem_availablePrefs.mp (desired_pref_available he)).1
  have hmapped : (tableToWan after).get? entry.table = some entry.wan :=
    hpool'.agree.mappedWan hwan
  -- a rule that serves the entry is read as the client's
  have hread : ∀ rule, ServesEntry rule entry → ∃ own, attributeRule after subnet rule = some own ∧
      own.mac = some mac ∧ own.wan = some entry.wan ∧ own.pref = entry.pref ∧
        own.table = entry.table := by
    intro rule hs
    obtain ⟨hp, hi, ht⟩ := ruleIp_of_label (hs.label hbare)
    have hp : rule.pref = entry.pref := hp
    have hi : ruleIp rule.source = some entry.ip := hi
    have ht : rule.table = entry.table := ht
    have hattr : attributedMac after subnet entry.ip ((tableToWan after).get? rule.table) =
        some mac := by
      rw [attributedMac, ← Option.or_assoc, howner]
      rfl
    obtain ⟨own, ho, hop, -, hot, how, hom⟩ :=
      attributeRule_of_mac (hp ▸ hmanaged) hi hattr
    exact ⟨own, ho, hom, by rw [how, ht, hmapped], hop.trans hp, hot.trans ht⟩
  have hentry : ∀ own ∈ actual after subnet, ∀ rule, attributeRule after subnet rule = some own →
      ServesEntry rule entry → own.mac = some mac ∧ own.pref = entry.pref := by
    intro own _ rule hr hs
    obtain ⟨own', ho', hm', -, hp', -⟩ := hread rule hs
    rw [hr, Option.some_inj] at ho'
    exact ho' ▸ ⟨hm', hp'⟩
  refine ⟨?_, ?_, ?_, ?_, ?_⟩
  · obtain ⟨rule, hr, hs⟩ := exists_rule_of_desired he
    obtain ⟨own, ho, hom, how, hop, hot⟩ := hread rule hs
    rw [← hfollows.rules] at hr
    exact ⟨own, mem_actual.mpr ⟨rule, hr, ho⟩, hom, how, hop, hot⟩
  · intro own hown hom wan how
    obtain ⟨rule, hr, hrule⟩ := mem_actual.mp hown
    obtain ⟨hm, hi, -, -, hw, hmac'⟩ := attributeRule_eq_some hrule
    have htable : rule.table = entry.table → wan = entry.wan := by
      intro ht
      rw [how, ht, hmapped, Option.some_inj] at hw
      exact hw
    rw [hom, attributedMac] at hmac'
    -- by its lease, by the remembered address, or by the sticky choice
    cases hl : (leasesByIp after subnet).get? own.ip with
    | some leased =>
      rw [hl, Option.some_or, Option.some_inj] at hmac'
      subst hmac'
      obtain ⟨current', hc', hcip⟩ := lease_of_leasesByIp hl
      have hsame : current' = current := congrArg Prod.snd (List.inj_on_of_nodup_map
        (currentLeases after subnet).nodup hc' hcurrent rfl)
      subst hsame
      exact htable (hclear rule hr hm (.inr (by rw [hi, hcip])))
    | none =>
      rw [hl, Option.none_or] at hmac'
      cases hprev : (previousIpToMac after).get? own.ip with
      | some remembered =>
        rw [hprev, Option.some_or, Option.some_inj] at hmac'
        subst hmac'
        obtain ⟨device, hd, hdip⟩ := device_of_previousIpToMac hprev
        have hdevice := previousDevice_of_leased hfollows.devices hformer hd
        have hown_ip : own.ip = entry.ip := by
          rw [← hdip, hdevice, hip]
          rfl
        exact htable (hclear rule hr hm (.inl (by rw [hi, hown_ip])))
      | none =>
        rw [hprev, Option.none_or] at hmac'
        obtain ⟨w, hne, hget⟩ := Option.bind_eq_some_iff.mp hmac'.symm
        obtain ⟨hw', -⟩ := nonEmpty_eq_some.mp hne
        obtain ⟨choice, hc, hcm, hcw⟩ := choice_of_stickyWan hget
        rw [how, Option.some_inj] at hw'
        rw [hw', ← hcw]
        exact hsticky choice hc hcm
  · intro own hown hot
    obtain ⟨rule, hr, hrule⟩ := mem_actual.mp hown
    obtain ⟨hm, hi, -, ht, -, -⟩ := attributeRule_eq_some hrule
    rw [hfollows.rules] at hr
    rw [hfollows.policy] at hm
    exact hentry own hown rule hrule (serves_of_table hpool he hr hm hi (ht.symm.trans hot))
  · intro own hown hop
    obtain ⟨rule, hr, hrule⟩ := mem_actual.mp hown
    obtain ⟨-, -, hp, -, -, -⟩ := attributeRule_eq_some hrule
    rw [hfollows.rules] at hr
    exact (hentry own hown rule hrule (serves_of_pref he hr (hp.symm.trans hop))).1
  · refine mem_availablePrefs.mpr ⟨hmanaged, fun rule hr hp => ?_⟩
    rw [reservesPref_eq hr (hp ▸ hmanaged), Bool.not_eq_false']
    rw [hfollows.rules] at hr
    obtain ⟨own, ho, -⟩ := hread rule (serves_of_pref he hr hp)
    exact owns_iff.mpr ⟨own, ho⟩

end

/-- What the callers guarantee about a sample: the interfaces have names of their own,
tables of their own under which the table map lists them, and lease rows are split
at blanks. -/
structure SampleWellFormed (sample : Sample) : Prop where
  names : (sample.wans.map PlannerWan.name).Nodup
  named : ∀ wan ∈ sample.wans, wan.name ≠ []
  tables : (sample.wans.filterMap PlannerWan.table).Nodup
  agree : ∀ wan ∈ sample.wans, ∀ table ∈ wan.table,
    (sample.wans.foldl addWanTable (normalizeTableMap sample.tableToWan)).get? table =
      some wan.name
  trimmed : ∀ lease ∈ sample.leases, trim lease.ip = lease.ip

theorem SampleWellFormed.pool {sample : Sample} (h : SampleWellFormed sample)
    (state : BindingState) : PoolWellFormed (inputOf setting state sample) :=
  ⟨h.names, h.named, h.tables, h.agree⟩

variable {subnet : ParsedSubnet}

theorem follows_bindingStep (hparse : parseCidr setting.lanCidr = some subnet)
    (state : BindingState) (first second : Sample) :
    Follows (inputOf setting state first)
      (inputOf setting (bindingStep setting state first) second) subnet := by
  have hplan : planBindingReconciliation (inputOf setting state first) =
      planOn (inputOf setting state first) subnet := planBinding_of_parsed hparse
  refine ⟨?_, ?_, rfl⟩
  · show applyRuleDiffInMemory state.rules _ = _
    rw [hplan]
    rfl
  · show (planBindingReconciliation (inputOf setting state first)).memory.devices = _
    rw [hplan]
    rfl

theorem mem_stickyUpdates {input : ReconcileInput} (h : input.instance_.sticky = true)
    {update : StickyChoice} : update ∈ stickyUpdates input subnet ↔
      ∃ entry ∈ desired input subnet, entry.mac = some update.mac ∧ entry.wan = update.wan ∧
        input.now = update.lastSeenAt := by
  obtain ⟨mac, wan, lastSeenAt⟩ := update
  simp only [stickyUpdates, h, if_true, List.mem_filterMap, Option.map_eq_some_iff,
    StickyChoice.mk.injEq]
  constructor
  · rintro ⟨entry, he, m, hm, rfl, hw, ht⟩
    exact ⟨entry, he, hm, hw, ht⟩
  · rintro ⟨entry, he, hm, hw, ht⟩
    exact ⟨entry, he, mac, hm, rfl, hw, ht⟩

theorem eq_of_desired_mac {input : ReconcileInput}
    (hnames : (input.wans.map PlannerWan.name).Nodup) {a b : DesiredAssignment}
    (ha : a ∈ desired input subnet) (hb : b ∈ desired input subnet) {mac : Text}
    (hma : a.mac = some mac) (hmb : b.mac = some mac) : a = b := by
  by_contra hne
  have hnodup : ((desired input subnet).filterMap DesiredAssignment.mac).Nodup :=
    desired_macs_nodup hnames
  have hpair := List.pairwise_filterMap.mp hnodup
  have hsymm : Std.Symm fun x y : DesiredAssignment =>
      ∀ m, x.mac = some m → ∀ m', y.mac = some m' → m ≠ m' :=
    ⟨fun x y h m hm m' hm' heq => h m' hm' m hm heq.symm⟩
  exact hpair.forall ha hb hne mac hma mac hmb rfl

/-- The choices that are fed back name the client's WAN and no other. -/
theorem choice_of_bound (hsticky : setting.instance_.sticky = true)
    (hparse : parseCidr setting.lanCidr = some subnet) {state : BindingState}
    {first : Sample} (hwf : SampleWellFormed first) {entry : DesiredAssignment} {mac : Text}
    (he : entry ∈ desired (inputOf setting state first) subnet) (hmac : entry.mac = some mac)
    (hnorm : normalizedMac mac = some mac) :
    ∀ choice ∈ (bindingStep setting state first).sticky, normalizedMac choice.mac = some mac →
      choice.wan = entry.wan := by
  have hplan : planBindingReconciliation (inputOf setting state first) =
      planOn (inputOf setting state first) subnet := planBinding_of_parsed hparse
  have hinput : (inputOf setting state first).instance_.sticky = true := hsticky
  intro choice hc hcm
  simp only [bindingStep, hplan, planOn_stickyUpdates] at hc
  refine wan_of_syncSticky (fun update hu hum => ?_) ?_ hc hcm
  · obtain ⟨other, ho, hom, how, -⟩ := (mem_stickyUpdates hinput).mp hu
    obtain ⟨device, hdevice, -⟩ := device_of_desired (hwf.pool state).names ho hom
    have hkey : update.mac = mac :=
      Option.some_inj.mp ((normalizedMac_of_workingDevice hdevice).symm.trans hum)
    rw [← how, eq_of_desired_mac (hwf.pool state).names ho he (hkey ▸ hom) hmac]
  · exact ⟨⟨mac, entry.wan, _⟩, (mem_stickyUpdates hinput).mpr ⟨entry, he, hmac, rfl, rfl⟩, hnorm⟩

/-- In every run of a running sticky instance, a client whose addresses are clear keeps
its WAN. -/
theorem ip_change_keeps_wan (hrun : setting.instance_.running = true)
    (hsticky : setting.instance_.sticky = true)
    (hparse : parseCidr setting.lanCidr = some subnet) (state : BindingState)
    (samples : List Sample) (hwf : ∀ sample ∈ samples, SampleWellFormed sample) :
    Successive setting (fun before after =>
      ∀ mac, AddressesClear subnet before after mac → KeepsWan subnet before after mac)
      state samples := by
  induction samples generalizing state with
  | nil => trivial
  | cons first samples ih =>
    cases samples with
    | nil => trivial
    | cons second rest =>
      refine ⟨fun mac hclear => ?_, ih _ fun sample hs => hwf sample (List.mem_cons_of_mem _ hs)⟩
      have hfirst := hwf first List.mem_cons_self
      have hsecond := hwf second (List.mem_cons_of_mem _ List.mem_cons_self)
      set before := inputOf setting state first
      set after := inputOf setting (bindingStep setting state first) second
      have hfollows : Follows before after subnet := follows_bindingStep hparse state first second
      have hplan : planBindingReconciliation before = planOn before subnet :=
        planBinding_of_parsed hparse
      have hplan' : planBindingReconciliation after = planOn after subnet :=
        planBinding_of_parsed hparse
      intro entry he hmac hformer hcurrent hheld hforced hwan
      obtain ⟨former, hformer⟩ := OrderedMap.mem_keys.mp hformer
      obtain ⟨current, hcurrent⟩ := OrderedMap.mem_keys.mp hcurrent
      obtain ⟨howner, hrules⟩ := hclear entry he hmac _ hcurrent rfl
      obtain ⟨wan, hw, hwn, hwt, hstate⟩ := hwan
      rw [hplan, planOn_desired] at he
      have hnorm : normalizedMac mac = some mac :=
        normalizedMac_of_mem_currentLeases (List.mem_map_of_mem (f := Prod.fst) hformer)
      have hclient := rulesOfClient hfollows (hfirst.pool state) (hsecond.pool _) hfirst.trimmed
        (choice_of_bound hsticky hparse hfirst he hmac hnorm) he hmac hformer hcurrent
        ⟨wan, hw, hwn, hwt⟩ howner hrules
      rw [hplan', planOn_desired]
      exact mem_desired_of_rules hrun hsecond.names hclient
        (List.mem_map_of_mem (f := Prod.fst) hcurrent) hheld hforced
        (hwn ▸ hsecond.named wan hw) hw hwn hwt hstate

def homeSetting : BindingSetting :=
  ⟨quietInput.instance_, quietInput.lanCidr, quietInput.policy, 100⟩

def quietSample : Sample :=
  ⟨quietInput.clock, quietInput.leases, quietInput.wans, quietInput.tableToWan, [], [], some 7,
    false⟩

/-- The phone moves to an address of its own. -/
def movedSample : Sample :=
  { quietSample with
    leases := [⟨0, js "00:11:22:33:44:55", js "192.168.10.9", js "phone"⟩,
      ⟨0, js "00:11:22:33:44:66", js "192.168.10.3", js "tablet"⟩] }

/-- The phone moves, and the tablet takes its former address. -/
def takenOverSample : Sample :=
  { quietSample with
    leases := [⟨0, js "00:11:22:33:44:55", js "192.168.10.9", js "phone"⟩,
      ⟨0, js "00:11:22:33:44:66", js "192.168.10.2", js "tablet"⟩] }

def homeSubnet : ParsedSubnet := ⟨3232238080, 24, js "192.168.10.0/24"⟩

def emptyState : BindingState := ⟨[], emptyPlannerMemory, []⟩

theorem ip_change_keeps_wan_moved_phone :
    AddressesClear homeSubnet (inputOf homeSetting emptyState quietSample)
        (inputOf homeSetting (bindingStep homeSetting emptyState quietSample) movedSample)
        (js "00:11:22:33:44:55") ∧
      KeepsWan homeSubnet (inputOf homeSetting emptyState quietSample)
        (inputOf homeSetting (bindingStep homeSetting emptyState quietSample) movedSample)
        (js "00:11:22:33:44:55") := by
  have hquiet : SampleWellFormed quietSample := by constructor <;> decide +kernel
  have hmoved : SampleWellFormed movedSample := by constructor <;> decide +kernel
  have hwf : ∀ sample ∈ [quietSample, movedSample], SampleWellFormed sample := by
    simp [hquiet, hmoved]
  have hclear : AddressesClear homeSubnet (inputOf homeSetting emptyState quietSample)
      (inputOf homeSetting (bindingStep homeSetting emptyState quietSample) movedSample)
      (js "00:11:22:33:44:55") := by decide +kernel
  exact ⟨hclear, (ip_change_keeps_wan (by decide) (by decide) (by decide +kernel) emptyState
    [quietSample, movedSample] hwf).1 _ hclear⟩

/-- The tablet inherits the rule of the phone's former address, and its WAN with it. -/
theorem wan_lost_with_former_address :
    ¬Successive homeSetting (fun before after => ∀ mac, KeepsWan homeSubnet before after mac)
      emptyState [quietSample, takenOverSample] := by
  intro h
  have hkept := h.1 (js "00:11:22:33:44:55")
    ⟨1000, js "192.168.10.2", 10001, js "pd00001", some (js "00:11:22:33:44:55"), 1000000000⟩
    (by decide +kernel) rfl (by decide +kernel) (by decide +kernel) (by decide +kernel)
    (by decide +kernel) (by decide +kernel)
  revert hkept
  decide +kernel

end BoredManager.OpenWrt
