import BoredManager.Container.CreatePlan

/-! A plan that the check accepts is free of conflicts, exactly if docker prints none of its ports
inside a range and none of its addresses is one that the network keeps for itself. -/
namespace BoredManager.Container.Create
open BoredManager.Js BoredManager.Shared

variable {host : DockerHost} {raw : FormValues} {plan : DockerPlan}

/-- The form with its template. -/
def DockerHost.values (host : DockerHost) (raw : FormValues) : FormValues :=
  mergeTemplate raw host.templates

/-- An address that the network keeps for itself. -/
def Reserved (detail : NetworkDetail) (v : Nat) : Prop :=
  (∃ subnet ∈ detail.subnets, v = subnet.network ∨ v = subnet.broadcast) ∨
    ∃ gateway ∈ detail.gateways, ipToInt gateway = some v

/-- A range of addresses on a network with IPv4 subnets. -/
structure GivenRange (host : DockerHost) (values : FormValues) (detail : NetworkDetail) : Prop where
  spec : text values "ipRange" ≠ []
  name : text values "network" ≠ []
  network : host.network (text values "network") = some detail
  subnets : detail.subnets ≠ []

/-- The addresses of a plan lie in the range, in a subnet, and are free. -/
structure AddressesFree (detail : NetworkDetail) (range : IpRange) (ips : List Text) : Prop where
  distinct : ips.Nodup
  each : ∀ ip ∈ ips, ∃ v, ipToInt ip = some v ∧ range.first ≤ v ∧ v ≤ range.last ∧
    (∃ subnet ∈ detail.subnets, cidrContains subnet v = true) ∧ v ∉ detail.usedIps ∧ ¬Reserved detail v

/-- What an accepted plan promises. -/
structure ConflictFree (host : DockerHost) (raw : FormValues) (plan : DockerPlan) : Prop where
  count : countOf (host.values raw) = some (plan.names.length : Int)
  names : plan.names.Nodup
  unused : ∀ name ∈ plan.names, name ∉ (probeHost host.probe).dockerNames
  ports : (takenPorts plan.ports plan.names.length).Nodup
  within : ∀ i < plan.names.length, ∀ m ∈ plan.ports,
    1 ≤ m.hostStart + i ∧ m.hostStart + i ≤ m.hostEnd ∧ m.hostStart + i ≤ 65535
  published : ∀ i < plan.names.length, ∀ m ∈ plan.ports,
    ¬Published (part host.probe "DOCKERPORTS") m.proto (m.hostStart + i)
  listening : ∀ i < plan.names.length, ∀ m ∈ plan.ports,
    ¬Listens (part host.probe "LISTEN") m.proto (m.hostStart + i)
  addresses : ∀ detail, GivenRange host (host.values raw) detail →
    ∃ range, parseIpRange (text (host.values raw) "ipRange") = some range ∧
      plan.ips.length = plan.names.length ∧ AddressesFree detail range plan.ips

/-- No wanted port is in a range of ports that docker prints, and every address that the network
keeps for itself is outside the given range, handed out, or comes after enough free ones. -/
structure Clear (host : DockerHost) (raw : FormValues) : Prop where
  ranges : ∀ count i : Nat, countOf (host.values raw) = some (count : Int) → i < count →
    ∀ m ∈ (parsePorts (text (host.values raw) "ports")).mappings,
      ¬PrintedInRange (part host.probe "DOCKERPORTS") m.proto (m.hostStart + i)
  reserved : ∀ (count : Nat) detail range v, countOf (host.values raw) = some (count : Int) →
    GivenRange host (host.values raw) detail →
    parseIpRange (text (host.values raw) "ipRange") = some range → Reserved detail v →
    range.first ≤ v → v ≤ range.last → v ∉ detail.usedIps →
    count ≤ (freeAmong detail.usedIps range.first (v - range.first)).length

/-- What a check without errors has found. -/
structure Accepted (host : DockerHost) (raw : FormValues) (plan : DockerPlan) (count : Nat) : Prop where
  counted : countOf (host.values raw) = some (count : Int)
  names : plan.names = generatedNames (text (host.values raw) "namePrefix") count
  unused : ∀ name ∈ plan.names, name ∉ (probeHost host.probe).dockerNames
  ports : plan.ports = (parsePorts (text (host.values raw) "ports")).mappings
  parsed : (parsePorts (text (host.values raw) "ports")).errors = []
  checked : checkPorts plan.ports count (probeHost host.probe).usedHostPorts = []
  ips : plan.ips = (networkErrors host (host.values raw) (some (count : Int))).1
  network : (networkErrors host (host.values raw) (some (count : Int))).2 = []

theorem free_of_nameErrors {namePrefix : Text} {names taken : List Text}
    (h : nameErrors namePrefix names taken = []) : ∀ name ∈ names, name ∉ taken := by
  intro name hname htaken
  have hclash : name ∈ names.filter (· ∈ taken) :=
    List.mem_filter.mpr ⟨hname, decide_eq_true htaken⟩
  rw [nameErrors] at h
  by_cases hnone : names.filter (· ∈ taken) = []
  · rw [hnone] at hclash
    cases hclash
  · simp only [hnone, if_false] at h
    split_ifs at h

theorem accepted (h : host.check raw = some plan) : ∃ count, Accepted host raw plan count := by
  rw [DockerHost.check, DockerHost.errorsAndPlan] at h
  simp only [Option.ite_none_right_eq_some, List.append_eq_nil_iff, List.map_eq_nil_iff,
    Option.some.injEq] at h
  obtain ⟨⟨⟨⟨⟨⟨⟨⟨⟨⟨-, hcount⟩, hnames⟩, -⟩, -⟩, hparsed⟩, hports⟩, hnetwork⟩, -⟩, -⟩, rfl⟩ := h
  rw [countErrors] at hcount
  split_ifs at hcount with hbound
  cases hnum : countOf (mergeTemplate raw host.templates) with
  | none => simp [hnum] at hbound
  | some n =>
    simp only [hnum, Option.all_some, Bool.or_eq_true, decide_eq_true_eq, not_or, not_lt] at hbound
    obtain ⟨count, rfl⟩ := Int.eq_ofNat_of_zero_le (by omega : 0 ≤ n)
    rw [hnum] at hports hnetwork hnames
    have hnamed : generatedNames (text (mergeTemplate raw host.templates) "namePrefix")
        (min ((some (count : Int)).getD 0) host.maxCreateCount).toNat =
        generatedNames (text (mergeTemplate raw host.templates) "namePrefix") count := by
      rw [Option.getD_some, min_eq_left (by omega), Int.toNat_natCast]
    rw [hnamed] at hnames
    refine ⟨count, hnum, ?_, fun name hname htaken => ?_, rfl, hparsed, ?_, ?_, hnetwork⟩
    · exact hnamed
    · have hname : name ∈ generatedNames _ _ := hname
      rw [hnamed] at hname
      exact free_of_nameErrors hnames name hname htaken
    · have hpositive : (some (count : Int)).filter (0 < ·) = some (count : Int) := by
        rw [Option.filter_some, if_pos (by simp; omega)]
      rwa [hpositive] at hports
    · rfl

/-- The width of every mapping of a plan, for each of its containers. -/
theorem Accepted.within {count i : Nat} (h : Accepted host raw plan count) (hi : i < count) {m : PortMapping}
    (hm : m ∈ plan.ports) : m.Valid ∧ m.hostStart + i ≤ m.hostEnd := by
  have hwidth := width_of_checkPorts h.checked hm
  refine ⟨valid_of_parsePorts (h.ports ▸ hm), ?_⟩
  omega

/-- A port of the plan is not among the used ones. -/
theorem Accepted.free {count i : Nat} (h : Accepted host raw plan count) (hi : i < count) {m : PortMapping}
    (hm : m ∈ plan.ports) : (m.proto.text ++ 58 :: decimal (m.hostStart + i)) ∉
      collectUsedPorts (part host.probe "DOCKERPORTS") (part host.probe "LISTEN") :=
  free_of_checkPorts h.checked (by omega) (List.mem_map_of_mem hm)

/-- The addresses of a plan on a network with subnets: the first free ones of the range. -/
theorem Accepted.addresses {count : Nat} (h : Accepted host raw plan count) {detail : NetworkDetail}
    (hgiven : GivenRange host (host.values raw) detail) :
    ∃ range, parseIpRange (text (host.values raw) "ipRange") = some range ∧
      (∃ subnet ∈ detail.subnets, subnet.network ≤ range.first ∧ range.last ≤ subnet.broadcast) ∧
      plan.ips = ((freeAmong detail.usedIps range.first (range.last + 1 - range.first)).take count).map
        intToIp ∧ plan.ips.length = count := by
  have hips := h.ips
  have hnetwork := h.network
  rw [networkErrors, if_neg hgiven.name, hgiven.network] at hips hnetwork
  simp only [checkIpRange, if_neg hgiven.spec, Option.getD_some, Int.toNat_natCast] at hips hnetwork
  cases hrange : parseIpRange (text (host.values raw) "ipRange") with
  | none => rw [hrange] at hnetwork; cases hnetwork
  | some range =>
    rw [hrange] at hips hnetwork
    dsimp only at hips hnetwork
    split_ifs at hips hnetwork with houtside hshort
    have hinside : ∃ subnet ∈ detail.subnets, subnet.network ≤ range.first ∧
        range.last ≤ subnet.broadcast := by
      by_contra hnone
      refine houtside ⟨hgiven.subnets, List.all_eq_true.mpr fun subnet hsubnet => ?_⟩
      by_contra hin
      exact hnone ⟨subnet, hsubnet, by simpa using hin⟩
    refine ⟨range, rfl, hinside, hips, ?_⟩
    rw [hips, List.length_map]
    have := List.length_take_le count (freeAmong detail.usedIps range.first (range.last + 1 - range.first))
    omega

/-- The addresses that a plan gives are the first free ones, as numbers. -/
theorem mem_given {used : List Nat} {range : IpRange} {count v : Nat} :
    v ∈ (freeAmong used range.first (range.last + 1 - range.first)).take count ↔
      range.first ≤ v ∧ v ≤ range.last ∧ v ∉ used ∧
        (freeAmong used range.first (v - range.first)).length < count := by
  rw [mem_take_iff (pairwise_freeAmong _ _ _), mem_freeAmong]
  constructor
  · rintro ⟨⟨hle, hlt, hfree⟩, hcount⟩
    rw [filter_freeAmong hle (by omega)] at hcount
    exact ⟨hle, by omega, hfree, hcount⟩
  · rintro ⟨hle, hlast, hfree, hcount⟩
    refine ⟨⟨hle, by omega, hfree⟩, ?_⟩
    rwa [filter_freeAmong hle (by omega)]

theorem nodup_map_intToIp {l : List Nat} (hl : l.Nodup) (hlt : ∀ v ∈ l, v < 2 ^ 32) :
    (l.map intToIp).Nodup := by
  refine List.pairwise_map.mpr (hl.imp_of_mem fun {v w} hv hw hne heq => hne ?_)
  have hread := congrArg ipToInt heq
  rw [ipToInt_intToIp (hlt v hv), ipToInt_intToIp (hlt w hw)] at hread
  exact Option.some.inj hread

theorem check_eq_some (h : (host.errorsAndPlan raw).1 = []) :
    host.check raw = some (host.errorsAndPlan raw).2 := if_pos h

/-- A machine with one network, on which docker publishes some ports. -/
def lanHost (dockerPorts : String) : DockerHost where
  maxCreateCount := 50
  templates := []
  probe := js ("===INFO===\nok\n===NAMES===\ndb\n===DOCKERPORTS===\n" ++ dockerPorts ++
    "\n===LISTEN===\ntcp LISTEN 0 4096 0.0.0.0:22 0.0.0.0:*\n")
  imagePresent := fun _ => true
  networks := fun _ => some ⟨[(some (js "10.0.0.0/24"), some (js "10.0.0.1"))], []⟩

/-- A form for one container. -/
def oneForm (ports ipRange : String) : FormValues :=
  .ofList [(js "count", .num (.fin 1)), (js "namePrefix", .text (js "web-")),
    (js "image", .text (js "nginx")), (js "ports", .text (js ports)), (js "network", .text (js "lan")),
    (js "ipRange", .text (js ipRange))]

end BoredManager.Container.Create
