import BoredManager.OpenWrt.Planner.Passes
import BoredManager.OpenWrt.Planner.RuleScript

/-! From one reconciliation to the next: what the next one finds in the rules and in
the memory that this one leaves. -/
namespace BoredManager.OpenWrt.Planner
open BoredManager.Js

variable {input next : ReconcileInput} {subnet : ParsedSubnet}

/-! ### Leases -/

/-- A current lease is an active row of the LAN, under the client's address. -/
def IsCurrent (input : ReconcileInput) (subnet : ParsedSubnet) (e : Text × CurrentLease) : Prop :=
  ∃ lease ∈ input.leases, normalizedMac lease.mac = some e.1 ∧ e.2.lease.ip = lease.ip ∧
    subnetContains subnet lease.ip = true ∧ activeLease lease input.now = true

theorem leaseStep_current {leases : OrderedMap Text CurrentLease} {row : Lease × Nat}
    (hrow : row.1 ∈ input.leases) (h : ∀ e ∈ leases.entries, IsCurrent input subnet e) :
    ∀ e ∈ (leaseStep subnet input.now leases row).entries, IsCurrent input subnet e := by
  obtain ⟨lease, index⟩ := row
  simp only [leaseStep]
  split
  · exact h
  · rename_i mac hmac
    split
    · rename_i hc
      have hset : ∀ e ∈ (leases.set mac ⟨{ lease with mac }, index⟩).entries,
          IsCurrent input subnet e := by
        intro e he
        rcases OrderedMap.mem_entries_set.mp he with rfl | ⟨he, -⟩
        · rw [Bool.and_eq_true] at hc
          exact ⟨lease, hrow, hmac, rfl, hc.1, hc.2⟩
        · exact h e he
      split
      · exact hset
      · split
        · exact hset
        · exact h
    · exact h

theorem isCurrent_of_mem {e : Text × CurrentLease}
    (h : e ∈ (currentLeases input subnet).entries) : IsCurrent input subnet e :=
  List.foldlRecOn (motive := fun leases : OrderedMap Text CurrentLease =>
      ∀ e ∈ leases.entries, IsCurrent input subnet e)
    input.leases.zipIdx (leaseStep subnet input.now) (fun _ h => by cases h)
    (fun leases h row hrow => leaseStep_current (List.fst_mem_of_mem_zipIdx hrow) h) e h

theorem normalizedMac_of_mem_currentLeases {mac : Text}
    (h : mac ∈ (currentLeases input subnet).keys) : normalizedMac mac = some mac := by
  obtain ⟨current, hc⟩ := OrderedMap.mem_keys.mp h
  obtain ⟨lease, -, hmac, -⟩ := isCurrent_of_mem hc
  exact normalizedMac_idem hmac

theorem lease_of_leasesByIp {ip mac : Text}
    (h : (leasesByIp input subnet).get? ip = some mac) :
    ∃ current, (mac, current) ∈ (currentLeases input subnet).entries ∧ current.lease.ip = ip := by
  obtain ⟨e, he, heq⟩ := List.mem_map.mp (OrderedMap.mem_of_get?_ofList h)
  obtain ⟨rfl, rfl⟩ := Prod.mk.inj heq
  exact ⟨e.2, he, rfl⟩

theorem leasesByIp_isSome {e : Text × CurrentLease}
    (h : e ∈ (currentLeases input subnet).entries) :
    ∃ mac, (leasesByIp input subnet).get? e.2.lease.ip = some mac := by
  refine OrderedMap.has_iff_get.mp (OrderedMap.has_iff.mpr (OrderedMap.mem_keys_ofList.mpr ?_))
  rw [List.map_map]
  exact List.mem_map_of_mem h

theorem workingDevice_of_lease {mac : Text} {current : CurrentLease}
    (h : (mac, current) ∈ (currentLeases input subnet).entries) :
    ∃ device, workingDevice input subnet mac = some device ∧ device.ip = current.lease.ip := by
  rw [workingDevice, OrderedMap.get?_eq_some.mpr h]
  exact ⟨_, rfl, rfl⟩

/-! ### Remembered devices -/

theorem previousDevice_mem {mac : Text} {device : DeviceMemory}
    (h : (previousDevices input).get? mac = some device) :
    device ∈ input.oldMemory.devices ∧ normalizedMac device.mac = some mac := by
  obtain ⟨d, hd, heq⟩ := List.mem_filterMap.mp (OrderedMap.mem_of_get?_ofList h)
  obtain ⟨m, hm, hpair⟩ := Option.map_eq_some_iff.mp heq
  obtain ⟨rfl, rfl⟩ := Prod.mk.inj hpair
  exact ⟨hd, hm⟩

theorem device_of_previousIpToMac {ip mac : Text} (h : (previousIpToMac input).get? ip = some mac) :
    ∃ device, (previousDevices input).get? mac = some device ∧ device.ip = ip := by
  obtain ⟨e, he, heq⟩ := List.mem_map.mp (OrderedMap.mem_of_get?_ofList h)
  obtain ⟨rfl, rfl⟩ := Prod.mk.inj heq
  exact ⟨e.2, OrderedMap.get?_eq_some.mpr he, rfl⟩

theorem mem_nextDevices {device : DeviceMemory} : device ∈ nextDevices input subnet ↔
    (∃ e ∈ (currentLeases input subnet).entries, leasedDevice input subnet e.1 e.2 = device) ∨
      ∃ e ∈ (previousDevices input).entries, graceDevice input subnet e.1 e.2 = some device := by
  rw [nextDevices, List.mem_append, List.mem_map, List.mem_filterMap]
  simp [currentInOrder, List.mem_insertionSort]

theorem graceDevice_eq_some {mac : Text} {previous device : DeviceMemory}
    (h : graceDevice input subnet mac previous = some device) :
    mac ∉ (currentLeases input subnet).keys ∧ device.mac = previous.mac ∧
      device.ip = previous.ip ∧ device.lastSeenAt = previous.lastSeenAt ∧
      input.now - previous.lastSeenAt < input.releaseGraceMs ∧
      ∃ entry, (desiredByMac input subnet).get? mac = some entry ∧ device.wan = some entry.wan := by
  simp only [graceDevice] at h
  split at h
  · cases h
  · rename_i hleased
    split at h
    · cases h
    · rename_i entry hentry
      split at h
      · rename_i hgrace
        cases h
        exact ⟨fun hk => hleased (OrderedMap.has_iff.mpr hk), rfl, rfl, rfl, hgrace, entry,
          hentry, rfl⟩
      · cases h

/-- A leased client is remembered at the address of its lease. -/
theorem previousDevice_of_leased (hdevices : next.oldMemory.devices = nextDevices input subnet)
    {mac : Text} {current : CurrentLease}
    (hc : (mac, current) ∈ (currentLeases input subnet).entries) {device : DeviceMemory}
    (hd : (previousDevices next).get? mac = some device) :
    device = leasedDevice input subnet mac current := by
  obtain ⟨hmem, hmac⟩ := previousDevice_mem hd
  rw [hdevices] at hmem
  rcases mem_nextDevices.mp hmem with ⟨e, he, rfl⟩ | ⟨e, he, hg⟩
  · have hnorm := normalizedMac_of_mem_currentLeases (List.mem_map_of_mem (f := Prod.fst) he)
    have hkey : e.1 = mac := Option.some_inj.mp (hnorm.symm.trans hmac)
    have hsame : e = (mac, current) :=
      List.inj_on_of_nodup_map (currentLeases input subnet).nodup he hc hkey
    rw [hsame]
  · obtain ⟨hk, hraw, -⟩ := graceDevice_eq_some hg
    have hnorm := (previousDevice_mem (OrderedMap.get?_eq_some.mpr he)).2
    rw [← hraw, hmac, Option.some_inj] at hnorm
    exact absurd (hnorm ▸ List.mem_map_of_mem (f := Prod.fst) hc) hk

/-! ### Rules -/

/-- A rule that was there for a desired entry, or that was added for it. -/
def ServesEntry (rule : IpRule) (entry : DesiredAssignment) : Prop :=
  rule.label = some entry.key ∨ rule = entry.key.rule

theorem ServesEntry.pref_table {rule : IpRule} {entry : DesiredAssignment}
    (h : ServesEntry rule entry) : rule.pref = entry.pref ∧ rule.table = entry.table := by
  rcases h with h | rfl
  · obtain ⟨ip, -, heq⟩ := Option.map_eq_some_iff.mp h
    obtain ⟨hp, -, ht⟩ := RuleChange.mk.injEq .. |>.mp heq
    exact ⟨hp, ht⟩
  · exact ⟨rfl, rfl⟩

theorem ServesEntry.label {rule : IpRule} {entry : DesiredAssignment}
    (h : ServesEntry rule entry) (hbare : IsBareAddress entry.ip) :
    rule.label = some entry.key := by
  rcases h with h | rfl
  · exact h
  · rw [IpRule.label, show entry.key.rule.source = hostSource entry.ip from rfl,
      ruleIp_hostSource hbare]
    rfl

theorem applied_eq : applyRuleDiffInMemory input.rules (ruleDiff input subnet) =
    (input.rules.filter fun rule => !rewritten input subnet rule) ++
      (addChanges input subnet).map RuleChange.rule := by
  rw [← dropRemovals_deleteChanges]
  rfl

/-- After the script a rule is someone else's or serves a desired entry. -/
theorem rule_of_mem_applied {rule : IpRule}
    (h : rule ∈ applyRuleDiffInMemory input.rules (ruleDiff input subnet)) :
    (rule ∈ input.rules ∧ owns input subnet rule = false) ∨
      ∃ entry ∈ desired input subnet, ServesEntry rule entry := by
  rw [applied_eq] at h
  rcases List.mem_append.mp h with h | h
  · obtain ⟨hm, hr⟩ := List.mem_filter.mp h
    cases ho : owns input subnet rule with
    | false => exact .inl ⟨hm, rfl⟩
    | true =>
      -- an owned rule that stays is in a group that does not change
      have hg : groupChanged input subnet rule.pref = false := by
        simpa [rewritten, ho] using hr
      obtain ⟨entry, he⟩ := owns_iff.mp ho
      have hpref : entry.pref = rule.pref := (attributeRule_eq_some he).2.2.1
      have hkey : entry.key ∈ ((actual input subnet).filter fun entry =>
          entry.pref == rule.pref).map WorkingActual.key :=
        List.mem_map_of_mem (List.mem_filter.mpr
          ⟨mem_actual.mpr ⟨rule, hm, he⟩, by simpa using hpref⟩)
      obtain ⟨wanted, hw, hwk⟩ := List.mem_map.mp ((groupChanged_eq_false.mp hg).mem_iff.mp hkey)
      refine .inr ⟨wanted, (List.mem_filter.mp hw).1, .inl ?_⟩
      rw [label_of_attributeRule he, hwk]
  · obtain ⟨change, hc, rfl⟩ := List.mem_map.mp h
    obtain ⟨entry, he, rfl⟩ := List.mem_map.mp (addChanges_perm.mem_iff.mp hc)
    exact .inr ⟨entry, (List.mem_filter.mp he).1, .inr rfl⟩

/-- After the script every desired entry has a rule. -/
theorem exists_rule_of_desired {entry : DesiredAssignment} (h : entry ∈ desired input subnet) :
    ∃ rule ∈ applyRuleDiffInMemory input.rules (ruleDiff input subnet), ServesEntry rule entry := by
  rw [applied_eq]
  cases hg : groupChanged input subnet entry.pref with
  | true =>
    have hadd : entry.key ∈ addChanges input subnet := addChanges_perm.mem_iff.mpr
      (List.mem_map_of_mem (List.mem_filter.mpr ⟨h, hg⟩))
    exact ⟨entry.key.rule, List.mem_append_right _ (List.mem_map_of_mem hadd), .inr rfl⟩
  | false =>
    have hkey : entry.key ∈ ((desired input subnet).filter fun other =>
        other.pref == entry.pref).map DesiredAssignment.key :=
      List.mem_map_of_mem (List.mem_filter.mpr ⟨h, by simp⟩)
    obtain ⟨old, ho, hok⟩ := List.mem_map.mp ((groupChanged_eq_false.mp hg).mem_iff.mpr hkey)
    obtain ⟨rule, hr, hold⟩ := mem_actual.mp (List.mem_filter.mp ho).1
    have hpref : rule.pref = entry.pref := by
      have := congrArg RuleChange.pref hok
      rw [← (attributeRule_eq_some hold).2.2.1]
      exact this
    refine ⟨rule, List.mem_append_left _ (List.mem_filter.mpr ⟨hr, ?_⟩), .inl ?_⟩
    · simp [rewritten, hpref, hg]
    · rw [label_of_attributeRule hold, hok]

/-- The table map gives each WAN of the pool its own table. -/
def TablesAgree (input : ReconcileInput) : Prop :=
  ∀ wan ∈ input.wans, ∀ table, wan.table = some table →
    (tableToWan input).get? table = some wan.name

/-- What the callers guarantee about the WANs of an input. -/
structure PoolWellFormed (input : ReconcileInput) : Prop where
  names : (input.wans.map PlannerWan.name).Nodup
  named : ∀ wan ∈ input.wans, wan.name ≠ []
  tables : (input.wans.filterMap PlannerWan.table).Nodup
  agree : TablesAgree input

theorem TablesAgree.mappedWan (h : TablesAgree input) {wan : Text} {table : Nat}
    (hp : OnPool input wan table) : (tableToWan input).get? table = some wan := by
  obtain ⟨member, hm, rfl, ht⟩ := hp
  exact h member hm table ht

theorem eq_of_desired_table (hpool : PoolWellFormed input) {a b : DesiredAssignment}
    (ha : a ∈ desired input subnet) (hb : b ∈ desired input subnet) (h : a.table = b.table) :
    a = b :=
  List.inj_on_of_nodup_map (desired_tables_nodup hpool.names hpool.tables) ha hb h

theorem eq_of_desired_pref {a b : DesiredAssignment}
    (ha : a ∈ desired input subnet) (hb : b ∈ desired input subnet) (h : a.pref = b.pref) :
    a = b :=
  List.inj_on_of_nodup_map desired_prefs_nodup ha hb h

/-- A managed rule that selects the table of a desired entry is that entry's. -/
theorem serves_of_table (hpool : PoolWellFormed input) {entry : DesiredAssignment}
    (he : entry ∈ desired input subnet) {rule : IpRule} {ip : Text}
    (hr : rule ∈ applyRuleDiffInMemory input.rules (ruleDiff input subnet))
    (hm : input.policy.manages rule.pref = true) (hip : ruleIp rule.source = some ip)
    (ht : rule.table = entry.table) : ServesEntry rule entry := by
  rcases rule_of_mem_applied hr with ⟨-, ho⟩ | ⟨other, hother, hs⟩
  · -- a rule with a pool table would have been owned
    exfalso
    have honPool := desired_onPool hpool.names he
    have hmapped := hpool.agree.mappedWan honPool
    obtain ⟨member, hmem, hname, -⟩ := honPool
    have hhas : (poolByName input).has entry.wan = true :=
      OrderedMap.has_iff_get.mpr ⟨member, hname ▸ poolByName_of_mem hpool.names hmem⟩
    rw [owns, hm, hip] at ho
    simp [ht, hmapped, hhas] at ho
  · have hsame := eq_of_desired_table hpool hother he (hs.pref_table.2.symm.trans ht)
    exact hsame ▸ hs

/-- A rule at the preference of a desired entry is that entry's. -/
theorem serves_of_pref {entry : DesiredAssignment} (he : entry ∈ desired input subnet)
    {rule : IpRule} (hr : rule ∈ applyRuleDiffInMemory input.rules (ruleDiff input subnet))
    (hp : rule.pref = entry.pref) : ServesEntry rule entry := by
  obtain ⟨hm, hfree⟩ := mem_availablePrefs.mp (desired_pref_available he)
  rcases rule_of_mem_applied hr with ⟨hmem, ho⟩ | ⟨other, hother, hs⟩
  · exfalso
    have hres := hfree rule hmem hp
    rw [reservesPref_eq hmem (hp ▸ hm), ho] at hres
    cases hres
  · have hsame := eq_of_desired_pref hother he (hs.pref_table.1.symm.trans hp)
    exact hsame ▸ hs

/-! ### Desired addresses -/

/-- The entry of a client is at the address of its device. -/
theorem device_of_desired (hnames : (input.wans.map PlannerWan.name).Nodup)
    {entry : DesiredAssignment} (he : entry ∈ desired input subnet) {mac : Text}
    (hmac : entry.mac = some mac) :
    ∃ device, workingDevice input subnet mac = some device ∧ entry.ip = device.ip := by
  obtain ⟨a, ha, hip, -, -, hm⟩ := assigned_of_mem_desired he
  have hled := assigned_ledger subnet hnames
  rcases List.mem_append.mp ha with ha | ha
  · have := hled.unknown a ha
    rw [hm, hmac] at this
    cases this
  · obtain ⟨key, hkey⟩ := OrderedMap.mem_values.mp ha
    obtain ⟨⟨hk, device, hdevice, hdip⟩, -⟩ := hled.client _ hkey
    rw [hm, hmac, Option.some_inj] at hk
    subst hk
    exact ⟨device, hdevice, hip.symm.trans hdip⟩

theorem normalizedMac_of_workingDevice {mac : Text} {device : DeviceMemory}
    (h : workingDevice input subnet mac = some device) : normalizedMac mac = some mac := by
  simp only [workingDevice] at h
  split at h
  · rename_i current hc
    exact normalizedMac_of_mem_currentLeases
      (List.mem_map_of_mem (f := Prod.fst) (OrderedMap.get?_eq_some.mp hc))
  · obtain ⟨hd, -⟩ := Option.filter_eq_some_iff.mp h
    exact normalizedMac_idem (previousDevice_mem hd).2

/-- The entry of a leased client is at the address of its lease. -/
theorem desired_ip_of_leased (hnames : (input.wans.map PlannerWan.name).Nodup)
    {entry : DesiredAssignment} (he : entry ∈ desired input subnet) {mac : Text}
    (hmac : entry.mac = some mac) {current : CurrentLease}
    (hc : (mac, current) ∈ (currentLeases input subnet).entries) :
    entry.ip = current.lease.ip := by
  obtain ⟨device, hdevice, hip⟩ := device_of_desired hnames he hmac
  obtain ⟨device', hdevice', hip'⟩ := workingDevice_of_lease hc
  rw [hdevice, Option.some_inj] at hdevice'
  rw [hip, hdevice', hip']

theorem isBareAddress_of_current {e : Text × CurrentLease}
    (htrim : ∀ lease ∈ input.leases, trim lease.ip = lease.ip)
    (h : e ∈ (currentLeases input subnet).entries) : IsBareAddress e.2.lease.ip := by
  obtain ⟨lease, hl, -, hip, hcontains, -⟩ := isCurrent_of_mem h
  rw [hip]
  refine isBareAddress_of_trim ?_ (htrim lease hl)
  simp only [subnetContains] at hcontains
  split at hcontains
  · rename_i value hv
    rw [hv]
    rfl
  · cases hcontains

/-- The next reconciliation reads the rules and the devices that this one leaves. -/
structure Follows (input next : ReconcileInput) (subnet : ParsedSubnet) : Prop where
  rules : next.rules = applyRuleDiffInMemory input.rules (ruleDiff input subnet)
  devices : next.oldMemory.devices = nextDevices input subnet
  policy : next.policy = input.policy

theorem ruleIp_of_label {rule : IpRule} {change : RuleChange} (h : rule.label = some change) :
    rule.pref = change.pref ∧ ruleIp rule.source = some change.ip ∧ rule.table = change.table := by
  obtain ⟨ip, hip, rfl⟩ := Option.map_eq_some_iff.mp h
  exact ⟨rfl, hip, rfl⟩

/-- A rule of a known client is an entry of `actual`. -/
theorem attributeRule_of_mac {rule : IpRule} {ip mac : Text}
    (hm : input.policy.manages rule.pref = true) (hip : ruleIp rule.source = some ip)
    (hmac : attributedMac input subnet ip ((tableToWan input).get? rule.table) = some mac) :
    ∃ entry, attributeRule input subnet rule = some entry ∧ entry.pref = rule.pref ∧
      entry.ip = ip ∧ entry.table = rule.table ∧
      entry.wan = (tableToWan input).get? rule.table ∧ entry.mac = some mac := by
  have ho : owns input subnet rule = true := by
    rw [owns, hm, hip]
    simp [hmac]
  obtain ⟨entry, he⟩ := owns_iff.mp ho
  obtain ⟨-, hi, hp, ht, hw, hmac'⟩ := attributeRule_eq_some he
  rw [hip, Option.some_inj] at hi
  refine ⟨entry, he, hp, hi.symm, ht, hw, ?_⟩
  rw [hmac', ← hi, hw, hmac]

end BoredManager.OpenWrt.Planner
