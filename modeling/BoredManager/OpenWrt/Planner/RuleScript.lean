import BoredManager.Alloc.Removal
import BoredManager.OpenWrt.Planner.OneToOne

/-! The `ip rule` script of a reconciliation against the rule list in memory. The
script deletes by preference, the list by preference, address and table; they
agree when no foreign rule stands before an owned rule of the same preference. -/
namespace BoredManager.OpenWrt
open BoredManager.Js BoredManager.Alloc

/-- The kernel's rule table after one line. -/
def RuleCommand.run (rules : List IpRule) : RuleCommand → List IpRule
  | .del pref => rules.eraseP fun rule => rule.pref == pref
  | .add ip table pref => rules ++ [⟨pref, hostSource ip, table⟩]

/-- The commands whose texts are the lines. -/
def RuleDiff.commands (diff : RuleDiff) : List RuleCommand :=
  diff.delete.map RuleChange.deleteCommand ++ diff.add.map RuleChange.addCommand

def RuleDiff.runScript (diff : RuleDiff) (rules : List IpRule) : List IpRule :=
  diff.commands.foldl RuleCommand.run rules

theorem lines_ofChanges (delete add : List RuleChange) (chunkSize : Int) :
    (RuleDiff.ofChanges delete add chunkSize).lines =
      (RuleDiff.ofChanges delete add chunkSize).commands.map RuleCommand.text := by
  simp [RuleDiff.ofChanges, RuleDiff.commands, Function.comp_def]

/-- What the planner compares of a rule. -/
def IpRule.label (rule : IpRule) : Option RuleChange :=
  (ruleIp rule.source).map fun ip => ⟨rule.pref, ip, rule.table⟩

theorem dropRemovals_eq (removals : List RuleChange) (rules : List IpRule) :
    dropRemovals removals rules = dropListed IpRule.label removals rules := by
  induction rules generalizing removals with
  | nil => rw [dropRemovals, dropListed_empty]
  | cons rule rules ih =>
    rw [dropRemovals]
    cases hip : ruleIp rule.source with
    | none =>
      have hl : ∀ l, rule.label = some l → l ∉ removals := by
        intro l h
        rw [IpRule.label, hip] at h
        cases h
      rw [dropListed_keep hl, ih]
    | some ip =>
      have hl : rule.label = some ⟨rule.pref, ip, rule.table⟩ := by rw [IpRule.label, hip]; rfl
      simp only
      split
      · rename_i hm
        rw [dropListed_drop hl hm, ih]
      · rename_i hm
        rw [dropListed_keep (fun l h => by rw [hl] at h; cases h; exact hm), ih]

/-- The script is the removal by preference, then the additions. -/
theorem runScript_eq (diff : RuleDiff) (rules : List IpRule) :
    diff.runScript rules =
      dropListed (fun rule => some rule.pref) (diff.delete.map RuleChange.pref) rules ++
        diff.add.map RuleChange.rule := by
  have hadd : ∀ (changes : List RuleChange) (rules : List IpRule),
      (changes.map RuleChange.addCommand).foldl RuleCommand.run rules =
        rules ++ changes.map RuleChange.rule := by
    intro changes
    induction changes with
    | nil => simp
    | cons change changes ih =>
      intro rules
      rw [List.map_cons, List.foldl_cons, ih]
      simp [RuleChange.addCommand, RuleCommand.run, RuleChange.rule]
  rw [RuleDiff.runScript, RuleDiff.commands, List.foldl_append, hadd]
  congr 1
  rw [← foldl_eraseP_eq_dropListed, List.foldl_map, List.foldl_map]
  rfl

namespace Planner
variable {input : ReconcileInput} {subnet : ParsedSubnet}

/-! ### Owned rules -/

/-- The planner's rules: managed, of a source address, and of this LAN, of a known
client or of a WAN of the pool. -/
def owns (input : ReconcileInput) (subnet : ParsedSubnet) (rule : IpRule) : Bool :=
  input.policy.manages rule.pref &&
    match ruleIp rule.source with
    | none => false
    | some ip =>
      let mappedWan := (tableToWan input).get? rule.table
      subnetContains subnet ip || (attributedMac input subnet ip mappedWan).isSome ||
        mappedWan.any (poolByName input).has

theorem owns_eq (rule : IpRule) :
    owns input subnet rule = (attributeRule input subnet rule).isSome := by
  simp only [owns, attributeRule]
  cases input.policy.manages rule.pref with
  | false => rfl
  | true =>
    cases ruleIp rule.source with
    | none => rfl
    | some ip =>
      simp only [Bool.true_and, if_true]
      cases subnetContains subnet ip <;>
        cases attributedMac input subnet ip ((tableToWan input).get? rule.table) <;>
        cases Option.any (poolByName input).has ((tableToWan input).get? rule.table) <;> rfl

theorem owns_iff {rule : IpRule} : owns input subnet rule = true ↔
    ∃ entry, attributeRule input subnet rule = some entry := by
  rw [owns_eq, Option.isSome_iff_exists]

theorem label_of_attributeRule {rule : IpRule} {entry : WorkingActual}
    (h : attributeRule input subnet rule = some entry) : rule.label = some entry.key := by
  obtain ⟨ip, hip, hkey⟩ := key_of_attributeRule h
  rw [IpRule.label, hip, hkey]
  rfl

/-- Rules with one label are owned together. -/
theorem owns_congr {rule other : IpRule} (h : other.label = rule.label)
    (ho : owns input subnet rule = true) : owns input subnet other = true := by
  obtain ⟨entry, he⟩ := owns_iff.mp ho
  rw [label_of_attributeRule he] at h
  obtain ⟨ip, hip, hkey⟩ := Option.map_eq_some_iff.mp h
  obtain ⟨ip', hip', hkey'⟩ := key_of_attributeRule he
  rw [hkey'] at hkey
  obtain ⟨hp, hi, ht⟩ := RuleChange.mk.injEq .. |>.mp hkey
  refine owns_iff.mpr ⟨entry, ?_⟩
  rw [attributeRule_congr hp (by rw [hip, hip', hi]) ht, he]

/-- A managed preference is reserved by exactly the rules that are not owned. -/
theorem reservesPref_eq {rule : IpRule} (hr : rule ∈ input.rules)
    (hm : input.policy.manages rule.pref = true) :
    reservesPref input subnet rule = !owns input subnet rule := by
  cases ho : owns input subnet rule with
  | true =>
    obtain ⟨entry, he⟩ := owns_iff.mp ho
    obtain ⟨ip, hip, hkey⟩ := key_of_attributeRule he
    simp only [reservesPref, hm, hip, Bool.true_and, Bool.not_true, decide_eq_false_iff_not,
      not_not]
    exact List.mem_map.mpr ⟨entry, mem_actual.mpr ⟨rule, hr, he⟩, hkey⟩
  | false =>
    rw [Bool.not_false]
    by_contra hres
    rw [Bool.not_eq_true] at hres
    obtain ⟨entry, he, hp, hi, ht⟩ := mem_actual_of_not_reserved hm hres
    obtain ⟨other, -, hother⟩ := mem_actual.mp he
    have hlabel : rule.label = other.label := by
      rw [label_of_attributeRule hother, IpRule.label, hi]
      simp [WorkingActual.key, hp, ht]
    rw [owns_congr hlabel (owns_iff.mpr ⟨entry, hother⟩)] at ho
    cases ho

/-- The labels of the owned rules at some preferences are the keys of `actual`. -/
theorem labels_perm (input : ReconcileInput) (subnet : ParsedSubnet) (q : Nat → Bool) :
    ((input.rules.filter fun rule => owns input subnet rule && q rule.pref).filterMap
      IpRule.label).Perm
      (((actual input subnet).filter fun entry => q entry.pref).map WorkingActual.key) := by
  have hperm : (actual input subnet).Perm (input.rules.filterMap (attributeRule input subnet)) :=
    List.perm_insertionSort _ _
  refine List.Perm.trans (List.Perm.of_eq ?_) ((hperm.filter _).map _).symm
  induction input.rules with
  | nil => rfl
  | cons rule rules ih =>
    cases ha : attributeRule input subnet rule with
    | none =>
      have ho : owns input subnet rule = false := by rw [owns_eq, ha]; rfl
      rw [List.filterMap_cons_none ha, List.filter_cons_of_neg (by simp [ho]), ih]
    | some entry =>
      have ho : owns input subnet rule = true := owns_iff.mpr ⟨entry, ha⟩
      have hp : entry.pref = rule.pref := (attributeRule_eq_some ha).2.2.1
      rw [List.filterMap_cons_some ha]
      cases hq : q rule.pref with
      | false =>
        rw [List.filter_cons_of_neg (by simp [hq]), List.filter_cons_of_neg (by simp [hp, hq]), ih]
      | true =>
        rw [List.filter_cons_of_pos (by simp [ho, hq]), List.filter_cons_of_pos (by simp [hp, hq]),
          List.filterMap_cons_some (label_of_attributeRule ha), List.map_cons, ih]

/-! ### Preferences whose rules change -/

def usedPrefs (input : ReconcileInput) (subnet : ParsedSubnet) : List Nat :=
  ((actual input subnet).map WorkingActual.pref ++
    (desired input subnet).map DesiredAssignment.pref).eraseDups

variable (input subnet) in
theorem changedPrefs_perm : (changedPrefs input subnet).Perm
    ((usedPrefs input subnet).filter (groupChanged input subnet)) :=
  (List.perm_insertionSort _ _).filter _

variable (input subnet) in
theorem changedPrefs_nodup : (changedPrefs input subnet).Nodup :=
  (changedPrefs_perm input subnet).nodup_iff.mpr ((nodup_eraseDups _).filter _)

theorem groupChanged_eq_false {pref : Nat} : groupChanged input subnet pref = false ↔
    (((actual input subnet).filter fun entry => entry.pref == pref).map WorkingActual.key).Perm
      (((desired input subnet).filter fun entry => entry.pref == pref).map
        DesiredAssignment.key) := by
  simp only [groupChanged, Bool.not_eq_false', List.isPerm_iff]

theorem mem_usedPrefs {pref : Nat} : pref ∈ usedPrefs input subnet ↔
    (∃ entry ∈ actual input subnet, entry.pref = pref) ∨
      ∃ entry ∈ desired input subnet, entry.pref = pref := by
  rw [usedPrefs, List.mem_eraseDups, List.mem_append, List.mem_map, List.mem_map]

theorem mem_changedPrefs {pref : Nat} :
    pref ∈ changedPrefs input subnet ↔ groupChanged input subnet pref = true := by
  rw [(changedPrefs_perm input subnet).mem_iff, List.mem_filter]
  refine ⟨fun h => h.2, fun h => ⟨?_, h⟩⟩
  -- two empty groups are equal
  by_contra hu
  rw [mem_usedPrefs, not_or] at hu
  have ha : ((actual input subnet).filter fun entry => entry.pref == pref) = [] :=
    List.filter_eq_nil_iff.mpr fun entry he hp => hu.1 ⟨entry, he, by simpa using hp⟩
  have hd : ((desired input subnet).filter fun entry => entry.pref == pref) = [] :=
    List.filter_eq_nil_iff.mpr fun entry he hp => hu.2 ⟨entry, he, by simpa using hp⟩
  have hsame : groupChanged input subnet pref = false := by
    rw [groupChanged_eq_false, ha, hd]
    exact List.Perm.refl _
  rw [hsame] at h
  cases h

/-- An owned rule that the script rewrites. -/
def rewritten (input : ReconcileInput) (subnet : ParsedSubnet) (rule : IpRule) : Bool :=
  owns input subnet rule && groupChanged input subnet rule.pref

theorem deleteChanges_perm : (deleteChanges input subnet).Perm
    ((input.rules.filter (rewritten input subnet)).filterMap IpRule.label) := by
  have hgroups := flatMap_groups_perm WorkingActual.pref
    (changedPrefs_nodup input subnet) (actual input subnet)
  have hlabels := labels_perm input subnet (groupChanged input subnet)
  rw [deleteChanges, ← List.map_flatMap]
  refine (hgroups.map _).trans (List.Perm.trans (List.Perm.of_eq ?_) hlabels.symm)
  congr 1
  exact List.filter_congr fun entry _ => by
    rw [Bool.eq_iff_iff, decide_eq_true_iff, mem_changedPrefs]

theorem addChanges_perm : (addChanges input subnet).Perm
    (((desired input subnet).filter fun entry => groupChanged input subnet entry.pref).map
      DesiredAssignment.key) := by
  have hgroups := flatMap_groups_perm DesiredAssignment.pref
    (changedPrefs_nodup input subnet) (desired input subnet)
  rw [addChanges, ← List.map_flatMap]
  refine (hgroups.map _).trans (List.Perm.of_eq ?_)
  congr 1
  exact List.filter_congr fun entry _ => by
    rw [Bool.eq_iff_iff, decide_eq_true_iff, mem_changedPrefs]

/-- Where nothing changes, the keys of `actual` are those that are desired. -/
theorem unchanged_perm :
    (((actual input subnet).filter fun entry => !groupChanged input subnet entry.pref).map
      WorkingActual.key).Perm
      (((desired input subnet).filter fun entry => !groupChanged input subnet entry.pref).map
        DesiredAssignment.key) := by
  set same := (usedPrefs input subnet).filter fun pref => !groupChanged input subnet pref
  have hn : same.Nodup := (nodup_eraseDups _).filter _
  have hactual := (flatMap_groups_perm WorkingActual.pref hn (actual input subnet)).map
    WorkingActual.key
  have hdesired := (flatMap_groups_perm DesiredAssignment.pref hn
    (desired input subnet)).map DesiredAssignment.key
  rw [List.map_flatMap] at hactual hdesired
  have hgroups := List.Perm.flatMap_left same
    (f := fun pref => ((actual input subnet).filter fun entry => entry.pref == pref).map
      WorkingActual.key)
    (g := fun pref => ((desired input subnet).filter fun entry => entry.pref == pref).map
      DesiredAssignment.key)
    fun pref hp => groupChanged_eq_false.mp (by simpa using (List.mem_filter.mp hp).2)
  have hleft : (actual input subnet).filter (fun entry => decide (entry.pref ∈ same)) =
      (actual input subnet).filter fun entry => !groupChanged input subnet entry.pref :=
    List.filter_congr fun entry he => by
      have : entry.pref ∈ usedPrefs input subnet := mem_usedPrefs.mpr (.inl ⟨entry, he, rfl⟩)
      simp [same, this]
  have hright : (desired input subnet).filter (fun entry => decide (entry.pref ∈ same)) =
      (desired input subnet).filter fun entry => !groupChanged input subnet entry.pref :=
    List.filter_congr fun entry he => by
      have : entry.pref ∈ usedPrefs input subnet := mem_usedPrefs.mpr (.inr ⟨entry, he, rfl⟩)
      simp [same, this]
  rw [hleft] at hactual
  rw [hright] at hdesired
  exact hactual.symm.trans (hgroups.trans hdesired)

/-! ### What each of the two removes -/

theorem owns_of_rewritten {rule : IpRule} (h : rewritten input subnet rule = true) :
    owns input subnet rule = true ∧ groupChanged input subnet rule.pref = true := by
  rwa [rewritten, Bool.and_eq_true] at h

theorem label_of_owns {rule : IpRule} (h : owns input subnet rule = true) :
    ∃ change, rule.label = some change := by
  obtain ⟨entry, he⟩ := owns_iff.mp h
  exact ⟨entry.key, label_of_attributeRule he⟩

theorem manages_of_owns {rule : IpRule} (h : owns input subnet rule = true) :
    input.policy.manages rule.pref = true := by
  rw [owns, Bool.and_eq_true] at h
  exact h.1

theorem pref_of_label {rule : IpRule} {change : RuleChange} (h : rule.label = some change) :
    change.pref = rule.pref := by
  obtain ⟨ip, -, rfl⟩ := Option.map_eq_some_iff.mp h
  rfl

/-- The list in memory loses exactly the rewritten rules. -/
theorem dropRemovals_deleteChanges : dropRemovals (deleteChanges input subnet) input.rules =
    input.rules.filter fun rule => !rewritten input subnet rule := by
  rw [dropRemovals_eq]
  refine dropListed_eq_filter deleteChanges_perm (fun rule _ hr => ?_) fun a _ b _ hab hb => ?_
  · obtain ⟨change, hc⟩ := label_of_owns (owns_of_rewritten hr).1
    rw [hc]
    exact Option.some_ne_none _
  · obtain ⟨ho, hg⟩ := owns_of_rewritten hb
    obtain ⟨change, hc⟩ := label_of_owns ho
    have hpref : a.pref = b.pref := by
      rw [← pref_of_label hc, ← pref_of_label (hab.trans hc)]
    rw [rewritten, Bool.and_eq_true]
    exact ⟨owns_congr hab ho, hpref ▸ hg⟩

theorem deletePrefs_perm : ((deleteChanges input subnet).map RuleChange.pref).Perm
    ((input.rules.filter (rewritten input subnet)).map IpRule.pref) := by
  refine (deleteChanges_perm.map RuleChange.pref).trans (List.Perm.of_eq ?_)
  rw [List.map_filterMap, ← List.filterMap_eq_map]
  refine List.filterMap_congr fun rule hr => ?_
  obtain ⟨change, hc⟩ := label_of_owns (owns_of_rewritten (List.mem_filter.mp hr).2).1
  rw [hc, Function.comp_apply, ← pref_of_label hc]
  rfl

/-- No rule of someone else stands before an owned rule of the same preference. -/
def NoForeignBeforeOwned (input : ReconcileInput) (subnet : ParsedSubnet) : Prop :=
  input.rules.Pairwise fun a b =>
    a.pref = b.pref → owns input subnet b = true → owns input subnet a = true

/-- A preference that an owned rule shares with another's is rewritten: nothing is
desired there. -/
theorem rewritten_of_shared {a b : IpRule} (ha : a ∈ input.rules) (hb : b ∈ input.rules)
    (hp : a.pref = b.pref) (hoa : owns input subnet a = false)
    (hob : owns input subnet b = true) : rewritten input subnet b = true := by
  rw [rewritten, Bool.and_eq_true]
  refine ⟨hob, ?_⟩
  by_contra hg
  rw [Bool.not_eq_true] at hg
  obtain ⟨entry, he⟩ := owns_iff.mp hob
  have hep : entry.pref = b.pref := (attributeRule_eq_some he).2.2.1
  have hkey : entry.key ∈ ((actual input subnet).filter fun entry => entry.pref == b.pref).map
      WorkingActual.key :=
    List.mem_map_of_mem (List.mem_filter.mpr ⟨mem_actual.mpr ⟨b, hb, he⟩, by simpa using hep⟩)
  obtain ⟨wanted, hw, hwk⟩ := List.mem_map.mp ((groupChanged_eq_false.mp hg).mem_iff.mp hkey)
  obtain ⟨hw, hwp⟩ := List.mem_filter.mp hw
  have hm : input.policy.manages a.pref = true := hp ▸ manages_of_owns hob
  rw [beq_iff_eq] at hwp
  have hfree := (mem_availablePrefs.mp (desired_pref_available hw)).2 a ha (hp.trans hwp.symm)
  rw [reservesPref_eq ha hm, hoa] at hfree
  cases hfree

theorem noForeignBeforeOwned_iff : NoForeignBeforeOwned input subnet ↔
    input.rules.Pairwise fun a b => a.pref = b.pref → rewritten input subnet b = true →
      rewritten input subnet a = true := by
  rw [NoForeignBeforeOwned]
  constructor
  · intro h
    refine h.imp fun {a b} hab hp hb => ?_
    obtain ⟨ho, hg⟩ := owns_of_rewritten hb
    rw [rewritten, Bool.and_eq_true]
    exact ⟨hab hp ho, hp ▸ hg⟩
  · intro h
    refine h.imp_of_mem fun {a b} ha hb hab hp ho => ?_
    by_contra hoa
    rw [Bool.not_eq_true] at hoa
    have := (owns_of_rewritten (hab hp (rewritten_of_shared ha hb hp hoa ho))).1
    rw [hoa] at this
    cases this

/-- The script leaves the same rules as the list in memory iff no foreign rule stands
before an owned one of its preference. -/
theorem runScript_perm_iff :
    ((ruleDiff input subnet).runScript input.rules).Perm
      (applyRuleDiffInMemory input.rules (ruleDiff input subnet)) ↔
      NoForeignBeforeOwned input subnet := by
  have hmem : applyRuleDiffInMemory input.rules (ruleDiff input subnet) =
      (input.rules.filter fun rule => !rewritten input subnet rule) ++
        (addChanges input subnet).map RuleChange.rule := by
    rw [← dropRemovals_deleteChanges]
    rfl
  rw [runScript_eq, hmem, noForeignBeforeOwned_iff]
  exact (List.perm_append_right_iff _).trans (dropListed_perm_iff deletePrefs_perm)

/-! ### What is left in memory -/

/-- The rule is the desired one, as a host route. -/
def IsHostRuleOf (rule : IpRule) (entry : DesiredAssignment) : Prop :=
  rule.pref = entry.pref ∧ rule.table = entry.table ∧
    (rule.source = entry.ip ∨ rule.source = hostSource entry.ip)

/-- Owned rules come from a single address, with or without its length. -/
def HostSources (input : ReconcileInput) (subnet : ParsedSubnet) : Prop :=
  ∀ rule ∈ input.rules, owns input subnet rule = true →
    ∃ ip, ruleIp rule.source = some ip ∧ (rule.source = ip ∨ rule.source = hostSource ip)

theorem forall₂_label {rules : List IpRule} (h : ∀ rule ∈ rules, ∃ change, rule.label = some change) :
    List.Forall₂ (fun rule change => rule.label = some change) rules
      (rules.filterMap IpRule.label) := by
  induction rules with
  | nil => exact List.Forall₂.nil
  | cons rule rules ih =>
    obtain ⟨change, hc⟩ := h rule List.mem_cons_self
    rw [List.filterMap_cons_some hc]
    exact List.Forall₂.cons hc (ih fun other ho => h other (List.mem_cons_of_mem _ ho))

/-- Rules with the labels of some entries, in the order of the entries. -/
theorem exists_forall₂_of_labels {rules : List IpRule} {entries : List DesiredAssignment}
    (hlabel : ∀ rule ∈ rules, ∃ change, rule.label = some change)
    (hperm : (rules.filterMap IpRule.label).Perm (entries.map DesiredAssignment.key)) :
    ∃ placed : List IpRule, placed.Perm rules ∧
      List.Forall₂ (fun rule entry => rule.label = some entry.key) placed entries := by
  have hcomp : Relation.Comp
      (List.Forall₂ fun (rule : IpRule) (change : RuleChange) => rule.label = some change)
      List.Perm rules (entries.map DesiredAssignment.key) := ⟨_, forall₂_label hlabel, hperm⟩
  rw [List.forall₂_comp_perm_eq_perm_comp_forall₂] at hcomp
  obtain ⟨placed, hp, hf⟩ := hcomp
  rw [List.forall₂_map_right_iff] at hf
  exact ⟨placed, hp.symm, hf⟩

theorem exists_kept (hhost : HostSources input subnet) :
    ∃ placed : List IpRule,
      placed.Perm (input.rules.filter fun rule =>
        owns input subnet rule && !groupChanged input subnet rule.pref) ∧
      List.Forall₂ IsHostRuleOf placed
        ((desired input subnet).filter fun entry => !groupChanged input subnet entry.pref) := by
  have hkept : ∀ rule ∈ input.rules.filter (fun rule =>
      owns input subnet rule && !groupChanged input subnet rule.pref),
      rule ∈ input.rules ∧ owns input subnet rule = true := by
    intro rule hr
    obtain ⟨hm, hc⟩ := List.mem_filter.mp hr
    exact ⟨hm, (Bool.and_eq_true_iff.mp hc).1⟩
  obtain ⟨placed, hp, hf⟩ := exists_forall₂_of_labels
    (fun rule hr => label_of_owns (hkept rule hr).2)
    ((labels_perm input subnet fun pref => !groupChanged input subnet pref).trans unchanged_perm)
  refine ⟨placed, hp, ?_⟩
  have hsource : ∀ rule ∈ placed, ∃ ip, ruleIp rule.source = some ip ∧
      (rule.source = ip ∨ rule.source = hostSource ip) := fun rule hr =>
    let ⟨hm, ho⟩ := hkept rule (hp.mem_iff.mp hr)
    hhost rule hm ho
  refine List.Forall₂.imp (fun rule entry h => ?_)
    ((List.forall₂_and_left placed _).mpr ⟨hsource, hf⟩)
  obtain ⟨⟨ip, hip, hs⟩, hl⟩ := h
  rw [IpRule.label, hip, Option.map_some, Option.some_inj] at hl
  obtain ⟨hpref, hi, ht⟩ := RuleChange.mk.injEq .. |>.mp hl
  exact ⟨hpref, ht, hi ▸ hs⟩

theorem forall₂_added (entries : List DesiredAssignment) :
    List.Forall₂ IsHostRuleOf ((entries.map DesiredAssignment.key).map RuleChange.rule) entries := by
  rw [List.map_map]
  exact List.forall₂_map_left_iff.mpr (List.forall₂_same.mpr fun _ _ => ⟨rfl, rfl, .inr rfl⟩)

/-- In memory the rules of others stay, and each desired entry has one host rule. -/
theorem applyRuleDiff_spec (hhost : HostSources input subnet) :
    ∃ placed : List IpRule, List.Forall₂ IsHostRuleOf placed (desired input subnet) ∧
      (applyRuleDiffInMemory input.rules (ruleDiff input subnet)).Perm
        ((input.rules.filter fun rule => !owns input subnet rule) ++ placed) := by
  obtain ⟨kept, hkept, hkept'⟩ := exists_kept hhost
  set changed := (desired input subnet).filter fun entry => groupChanged input subnet entry.pref
  set same := (desired input subnet).filter fun entry => !groupChanged input subnet entry.pref
  set added := (changed.map DesiredAssignment.key).map RuleChange.rule
  have hsplit : (changed ++ same).Perm (desired input subnet) := List.filter_append_perm _ _
  -- rules in the order of the desired entries
  obtain ⟨placed, hplaced, hall⟩ : ∃ placed : List IpRule, (added ++ kept).Perm placed ∧
      List.Forall₂ IsHostRuleOf placed (desired input subnet) := by
    have hcomp : Relation.Comp (List.Forall₂ IsHostRuleOf) List.Perm (added ++ kept)
        (desired input subnet) := ⟨_, List.rel_append (forall₂_added changed) hkept', hsplit⟩
    rwa [List.forall₂_comp_perm_eq_perm_comp_forall₂] at hcomp
  refine ⟨placed, hall, ?_⟩
  have hrules : (input.rules.filter fun rule => !rewritten input subnet rule).Perm
      ((input.rules.filter fun rule => !owns input subnet rule) ++ kept) := by
    have h := List.filter_append_perm (fun rule => owns input subnet rule)
      (input.rules.filter fun rule => !rewritten input subnet rule)
    rw [List.filter_filter, List.filter_filter] at h
    have hown : input.rules.filter (fun rule => owns input subnet rule &&
        !rewritten input subnet rule) = input.rules.filter fun rule =>
          owns input subnet rule && !groupChanged input subnet rule.pref :=
      List.filter_congr fun rule _ => by
        rw [rewritten]
        cases owns input subnet rule <;> rfl
    have hforeign : input.rules.filter (fun rule => !owns input subnet rule &&
        !rewritten input subnet rule) = input.rules.filter fun rule => !owns input subnet rule :=
      List.filter_congr fun rule _ => by
        rw [rewritten]
        cases owns input subnet rule <;> rfl
    rw [hown, hforeign] at h
    exact h.symm.trans (List.perm_append_comm.trans (hkept.symm.append_left _))
  have hadded : ((addChanges input subnet).map RuleChange.rule).Perm added :=
    addChanges_perm.map RuleChange.rule
  rw [applyRuleDiffInMemory, show (ruleDiff input subnet).delete = deleteChanges input subnet from rfl,
    show (ruleDiff input subnet).add = addChanges input subnet from rfl, dropRemovals_deleteChanges]
  refine (hrules.append hadded).trans ?_
  rw [List.append_assoc]
  exact (List.perm_append_comm.trans hplaced).append_left _

/-- The rules that `actual` does not list are those that are not owned. -/
theorem isForeign_iff {rule : IpRule} (hr : rule ∈ input.rules) :
    IsForeign (planOn input subnet) rule ↔ owns input subnet rule = false := by
  constructor
  · intro h
    by_contra ho
    rw [Bool.not_eq_false] at ho
    obtain ⟨entry, he⟩ := owns_iff.mp ho
    obtain ⟨-, hip, hp, ht, -, -⟩ := attributeRule_eq_some he
    exact h _ (List.mem_map_of_mem (mem_actual.mpr ⟨rule, hr, he⟩)) ⟨hp, hip, ht⟩
  · rintro ho _ hm ⟨hp, hip, ht⟩
    obtain ⟨entry, he, rfl⟩ := List.mem_map.mp hm
    obtain ⟨other, -, hother⟩ := mem_actual.mp he
    have hlabel : rule.label = other.label := by
      rw [label_of_attributeRule hother, IpRule.label, hip]
      simp [WorkingActual.key, ← hp, ← ht]
    rw [owns_congr hlabel (owns_iff.mpr ⟨entry, hother⟩)] at ho
    cases ho

end Planner

open Planner

instance (result : PlannerResult) (rule : IpRule) : Decidable (IsForeign result rule) :=
  inferInstanceAs (Decidable (∀ entry ∈ result.actual, ¬(entry.pref = rule.pref ∧
    ruleIp rule.source = some entry.ip ∧ entry.table = rule.table)))

/-- The script and the list in memory leave the same rules: those that `actual` does
not list, and one host rule for each desired entry. -/
structure RuleScriptCorrect (input : ReconcileInput) : Prop where
  script : ((planBindingReconciliation input).ruleDiff.runScript input.rules).Perm
    (applyRuleDiffInMemory input.rules (planBindingReconciliation input).ruleDiff)
  placed : ∃ placed : List IpRule,
    List.Forall₂ IsHostRuleOf placed (planBindingReconciliation input).desired ∧
      (applyRuleDiffInMemory input.rules (planBindingReconciliation input).ruleDiff).Perm
        ((input.rules.filter fun rule =>
          decide (IsForeign (planBindingReconciliation input) rule)) ++ placed)

def RulesInOrder (input : ReconcileInput) : Prop :=
  ∀ subnet ∈ parseCidr input.lanCidr, NoForeignBeforeOwned input subnet

def OwnedFromHosts (input : ReconcileInput) : Prop :=
  ∀ subnet ∈ parseCidr input.lanCidr, HostSources input subnet

/-- A rule of the LAN, and then one of another network at its preference. -/
def orderedInput : ReconcileInput :=
  { quietInput with
    rules := [⟨1000, js "192.168.10.2/32", 10001⟩, ⟨1000, js "10.9.9.9/32", 77⟩] }

/-- A rule of another network, and then one of the LAN, at one preference. -/
def sharedPrefInput : ReconcileInput :=
  { quietInput with
    rules := [⟨1000, js "10.9.9.9/32", 77⟩, ⟨1000, js "192.168.10.2/32", 10001⟩] }

end BoredManager.OpenWrt
