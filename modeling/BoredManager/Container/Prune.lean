import BoredManager.Container.Tags
import BoredManager.Fleet.Fanout
import BoredManager.Js.Json
import BoredManager.Machine.Runs
import BoredManager.Shared.Shell

/-! The listings behind the tag store: each tick reads what Docker and Incus printed, and `prune` takes
the last snapshot for all that lives. A snapshot is empty as well when a listing failed and before
the first tick. `jsonParse` is `JSON.parse`, `none` where it throws. -/
namespace BoredManager.Container
open BoredManager.Js BoredManager.Shared BoredManager.Machine

/-- How a row is named in the tag store: engine plus the id that engine uses. -/
def dockerRef (id : Text) : Text := js "docker:" ++ id

def incusRef (name : Text) : Text := js "incus:" ++ name

section
variable (jsonParse : Text → Option Json)

def parseJsonLines (out : Text) : List Json :=
  (out.splitOnP (· == 10)).filterMap fun line =>
    if (trim line).head? = some 123 then jsonParse (trim line) else none

/-- A text field of a row, as a template prints it. -/
def printed : Option Json → Text
  | some (.str s) => s
  | _ => js "undefined"

def isText (text : Text) : Option Json → Bool
  | some (.str s) => s == text
  | _ => false

structure DockerContainer where
  id : Text
  running : Bool
deriving DecidableEq

/-- A section of the tick's output, empty when it is missing. -/
def part (out : Text) (name : String) : Text := ((splitSections out).get? (js name)).getD []

def dockerContainers (out : Text) : List DockerContainer :=
  (parseJsonLines jsonParse (part out "PS")).map fun c =>
    ⟨printed (c.field? (js "ID")), isText (js "running") (c.field? (js "State"))⟩

/-- What `docker ps` itself did. -/
def dockerRc (out : Text) : Option Int := Fleet.parseInt (trim (part out "DOCKERRC"))

/-- The name of an instance; an instance without a name is left out. -/
def instanceName (entry : Json) : Option Text :=
  match entry.field? (js "name") with
  | some (.str s) => if s = [] then none else some s
  | _ => none

def isNull : Json → Bool
  | .null => true
  | _ => false

/-- The names of a parsed listing; a null entry throws. -/
def instanceNames (entries : List Json) : Option (List Text) :=
  if entries.any isNull then none else some (entries.filterMap instanceName)

/-- The instances of a section that may be empty, cut short or no list. -/
def readIncus (raw : Text) : Option (List Text) :=
  if (trim raw).head? ≠ some 91 then some []
  else match (jsonParse (trim raw)).bind Json.items? with
    | some entries => instanceNames entries
    | none => some []

/-- The refs of `docker ps` when it succeeded. -/
def dockerListing (out : Text) : Option (List Text) :=
  if dockerRc out = some 0 then
    some ((dockerContainers jsonParse out).map fun c => dockerRef c.id) else none

/-- The refs of the incus listing when all of it is there. -/
def incusListing (out : Text) : Option (List Text) :=
  let raw := part out "INCUS"
  if (trim raw).head? ≠ some 91 then none
  else (((jsonParse (trim raw)).bind Json.items?).bind instanceNames).map fun names => names.map incusRef

/-- The module on one machine: the last snapshots, the ticks under way with the machine they asked,
and the tags. The last two fields record the last listing of each engine since the start or the
reset, if it succeeded. -/
structure Host where
  docker : List DockerContainer
  incus : List Text
  asked : List Nat
  generation : Nat
  tags : TagStore
  dockerListed : Option (List Text)
  incusListed : Option (List Text)

def Host.start (disk : HostData) : Host := ⟨[], [], [], 0, .start disk, none, none⟩

/-- Tags read the last tick rather than asking the machine again. -/
def Host.refs (s : Host) : RefSource where
  dockerAll := s.docker.map fun c => dockerRef c.id
  dockerRunning := (s.docker.filter (·.running)).map fun c => dockerRef c.id
  incusAll := s.incus.map incusRef

/-- What the engines listed, if it was this machine that answered. -/
def Host.record (s : Host) (here : Bool) (docker incus : Option (List Text)) : Host :=
  if here then { s with dockerListed := docker, incusListed := incus } else s

/-- The rest of `sample` behind the answer of a machine. -/
def Host.sampled (s : Host) (here : Bool) (out : Text) : Host :=
  let containers := dockerContainers jsonParse out
  let tags := (containers.map fun c => dockerRef c.id).foldl (fun tags ref => (tags.badgesFor ref).1) s.tags
  match readIncus jsonParse (part out "INCUS") with
  | none => { s with tags := tags }.record here none none
  | some instances =>
    { s with
      docker := containers
      incus := instances
      tags := (instances.map incusRef).foldl (fun tags ref => (tags.badgesFor ref).1) tags
    }.record here (dockerListing jsonParse out) (incusListing jsonParse out)

/-- An action on the tags, with the refs of the last tick. -/
def TagEvent.withRefs (refs : RefSource) : TagEvent → TagEvent
  | .check id form _ call => .check id form refs call
  | .prune _ written => .prune refs written
  | event => event

/-- What happens. An answer is none when the command could not be run. A reset comes with the
document of the machine that is next. -/
inductive HostEvent where
  | tick (connected : Bool)
  | answered (index : Nat) (out : Option Text)
  | reset (disk : HostData)
  | tag (event : TagEvent)

def Host.step (lower : Text → Text) (s : Host) : HostEvent → Host
  | .tick connected => if connected then { s with asked := s.asked ++ [s.generation] } else s
  | .answered index out =>
    match s.asked[index]? with
    | none => s
    | some asked =>
      let here := asked == s.generation
      let s := { s with asked := s.asked.eraseIdx index }
      match out with
      | none => s.record here none none
      | some out => s.sampled jsonParse here out
  | .reset disk =>
    { s with
      docker := []
      incus := []
      generation := s.generation + 1
      tags := { s.tags.reset with disk := disk }
      dockerListed := none
      incusListed := none }
  | .tag event => { s with tags := s.tags.step lower (event.withRefs s.refs) }

end

/-! ### Pruning -/

variable {jsonParse : Text → Option Json} {lower : Text → Text} {s : Host}

/-- The memberships as the store reads them. -/
def Host.members (s : Host) : OrderedMap Text (List Text) := s.tags.read.2.members

/-- What the engine of a ref listed last, none when that failed or there was no listing. -/
def Host.lastListing (s : Host) (ref : Text) : Option (List Text) :=
  if (js "docker:").isPrefixOf ref then s.dockerListed
  else if (js "incus:").isPrefixOf ref then s.incusListed
  else none

/-- A prune now removes the memberships of those refs only that their engine's last listing, a
successful one, did not contain. -/
def Host.PrunesOnlyGone (jsonParse : Text → Option Json) (lower : Text → Text) (s : Host) : Prop :=
  ∀ written, ∀ ref ∈ s.members.keys,
    ref ∉ (s.step jsonParse lower (.tag (.prune s.refs written))).members.keys →
      ∃ listed, s.lastListing ref = some listed ∧ ref ∉ listed

/-- Every membership of an engine without a successful last listing is in the snapshot all the same. -/
def Host.ShowsUnlisted (s : Host) : Prop :=
  ∀ ref ∈ s.members.keys, s.lastListing ref = none → ref ∈ s.refs.dockerAll ++ s.refs.incusAll

/-- An answer comes from the machine of the moment: no reset came between. -/
def Host.Prompt (s : Host) : HostEvent → Prop
  | .answered index _ => ∀ asked, s.asked[index]? = some asked → asked = s.generation
  | _ => True

theorem mem_keys_foldl_erase {gone : List Text} {m : OrderedMap Text (List Text)} {ref : Text} :
    ref ∈ (gone.foldl OrderedMap.erase m).keys ↔ ref ∈ m.keys ∧ ref ∉ gone := by
  induction gone generalizing m with
  | nil => simp
  | cons k gone ih =>
    rw [List.foldl_cons, ih, List.mem_cons, not_or, ← and_assoc]
    refine and_congr_left fun _ => ?_
    simp only [OrderedMap.mem_keys, OrderedMap.mem_entries_erase]
    exact ⟨fun hv => hv.elim fun v hv => ⟨⟨v, hv.1⟩, hv.2⟩, fun hv => hv.1.elim fun v h => ⟨v, h, hv.2⟩⟩

/-- What is left by a prune. -/
theorem members_prune (s : Host) (written : Bool) {ref : Text} :
    ref ∈ (s.step jsonParse lower (.tag (.prune s.refs written))).members.keys ↔
      ref ∈ s.members.keys ∧ ref ∈ s.refs.dockerAll ++ s.refs.incusAll := by
  have hafter : (s.step jsonParse lower (.tag (.prune s.refs written))).members =
      (pruneMembers (s.refs.dockerAll ++ s.refs.incusAll) s.tags.read.2).1.members := rfl
  rw [hafter, pruneMembers, mem_keys_foldl_erase, List.mem_filter, ← Host.members]
  refine and_congr_right fun href => ?_
  simp only [href, decide_not, Bool.not_eq_true', decide_eq_false_iff_not, true_and, not_not]

/-- The snapshots show what the engines listed. -/
structure Host.Shown (s : Host) : Prop where
  docker : ∀ listed, s.dockerListed = some listed → s.refs.dockerAll = listed
  incus : ∀ listed, s.incusListed = some listed → s.refs.incusAll = listed

theorem shown_start (disk : HostData) : (Host.start disk).Shown :=
  ⟨fun _ h => (by cases h), fun _ h => (by cases h)⟩

theorem shown_none (s : Host) : (s.record true none none).Shown :=
  ⟨fun _ h => (by cases h), fun _ h => (by cases h)⟩

theorem incusListing_eq_some {out : Text} {listed : List Text}
    (h : incusListing jsonParse out = some listed) :
    ∃ names, readIncus jsonParse (part out "INCUS") = some names ∧ listed = names.map incusRef := by
  rw [incusListing] at h
  rw [readIncus]
  split_ifs at h ⊢
  obtain ⟨names, hnames, rfl⟩ := Option.map_eq_some_iff.mp h
  obtain ⟨entries, hentries, hnames⟩ := Option.bind_eq_some_iff.mp hnames
  exact ⟨names, by rw [hentries]; exact hnames, rfl⟩

theorem shown_sampled (s : Host) (out : Text) : (s.sampled jsonParse true out).Shown := by
  rw [Host.sampled]
  cases hread : readIncus jsonParse (part out "INCUS") with
  | none => exact shown_none _
  | some instances =>
    refine ⟨fun listed hlisted => ?_, fun listed hlisted => ?_⟩
    · have hdocker : dockerListing jsonParse out = some listed := hlisted
      exact Option.some.inj (Option.ite_none_right_eq_some.mp hdocker).2
    · have hincus : incusListing jsonParse out = some listed := hlisted
      obtain ⟨names, hnames, rfl⟩ := incusListing_eq_some hincus
      rw [hread] at hnames
      cases hnames
      rfl

theorem shown_step (s : Host) (event : HostEvent) (h : s.Shown) (hprompt : s.Prompt event) :
    (s.step jsonParse lower event).Shown := by
  cases event with
  | tick connected =>
    rw [Host.step]
    split_ifs
    · exact ⟨h.docker, h.incus⟩
    · exact h
  | reset disk => exact ⟨fun _ h => (by cases h), fun _ h => (by cases h)⟩
  | tag event => exact ⟨h.docker, h.incus⟩
  | answered index out =>
    rw [Host.step]
    cases hasked : s.asked[index]? with
    | none => exact h
    | some asked =>
      have hhere : (asked == s.generation) = true := beq_iff_eq.mpr (hprompt asked hasked)
      cases out with
      | none =>
        dsimp only
        rw [hhere]
        exact shown_none _
      | some out =>
        dsimp only
        rw [hhere]
        exact shown_sampled _ out

/-- In the snapshot a Docker ref can only come from Docker, and an Incus ref from Incus. -/
theorem Host.Shown.mem_live (h : s.Shown) {ref : Text} {listed : List Text}
    (hlast : s.lastListing ref = some listed) :
    ref ∈ s.refs.dockerAll ++ s.refs.incusAll ↔ ref ∈ listed := by
  have hdocker : ∀ id, (js "docker:").isPrefixOf (incusRef id) = false := fun id => rfl
  have hincus : ∀ id, (js "incus:").isPrefixOf (dockerRef id) = false := fun id => rfl
  rw [Host.lastListing] at hlast
  rw [List.mem_append]
  split_ifs at hlast with hd hi
  · rw [h.docker listed hlast]
    refine or_iff_left fun hmem => ?_
    obtain ⟨id, -, rfl⟩ := List.mem_map.mp hmem
    rw [hdocker] at hd
    cases hd
  · rw [h.incus listed hlast]
    refine or_iff_right fun hmem => ?_
    obtain ⟨c, -, rfl⟩ := List.mem_map.mp hmem
    rw [hincus] at hi
    cases hi

/-- A prune forgets no living container, in every run without late answers, exactly when the
memberships of engines without a successful last listing are in the snapshot all the same. -/
theorem prune_keeps_living (jsonParse : Text → Option Json) (lower : Text → Text) (disk : HostData)
    (events : List HostEvent)
    (hprompt : Guarded (Host.step jsonParse lower) Host.Prompt (Host.start disk) events) :
    (run (Host.step jsonParse lower) (Host.start disk) events).PrunesOnlyGone jsonParse lower ↔
      (run (Host.step jsonParse lower) (Host.start disk) events).ShowsUnlisted := by
  have hshown := run_preserves shown_step hprompt (shown_start disk)
  generalize run (Host.step jsonParse lower) (Host.start disk) events = s at hshown
  constructor
  · intro honly ref href hnone
    by_contra hgone
    obtain ⟨listed, hlast, -⟩ := honly true ref href fun hafter =>
      hgone ((members_prune s true).mp hafter).2
    rw [hnone] at hlast
    cases hlast
  · intro hshows written ref href hgone
    have hdead : ref ∉ s.refs.dockerAll ++ s.refs.incusAll := fun hlive =>
      hgone ((members_prune s written).mpr ⟨href, hlive⟩)
    cases hlast : s.lastListing ref with
    | none => exact absurd (hshows ref href hlast) hdead
    | some listed => exact ⟨listed, rfl, fun hmem => hdead ((hshown.mem_live hlast).mpr hmem)⟩

/-! ### A listing that fails -/

/-- One row of `docker ps`, and the texts that the runs below have parsed. -/
def psRow : Text := js "\x7b\"ID\":\"c1\",\"State\":\"running\"\x7d"

def rowParse (text : Text) : Option Json :=
  if text = psRow then some (.obj [(js "ID", .str (js "c1")), (js "State", .str (js "running"))])
  else if text = js "[]" then some (.arr [])
  else none

/-- What a tick prints when `docker ps` lists some rows and ends with a code. -/
def tickOutput (rows : List Text) (rc : String) : Text :=
  js "===PS===\n" ++ rows.flatMap (· ++ [10]) ++ js "===DOCKERRC===\n" ++ js rc ++
    js "\n===STATS===\n===INCUS===\n[]\n"

/-- A running container gets a tag and is listed. -/
def listedEvents : List HostEvent :=
  [.tag (.bulk [js "c1"] (js "docker") (some .assign) (js "web") ⟨[js "a"], [], 0⟩ true),
    .tick true, .answered 0 (some (tickOutput [psRow] "0"))]

/-- The next `docker ps` fails. -/
def failedEvents : List HostEvent :=
  listedEvents ++ [.tick true, .answered 0 (some (tickOutput [] "1"))]

instance : (s : Host) → (event : HostEvent) → Decidable (s.Prompt event)
  | s, .answered index _ => inferInstanceAs (Decidable (∀ asked ∈ s.asked[index]?, asked = s.generation))
  | _, .tick _ => .isTrue trivial
  | _, .reset _ => .isTrue trivial
  | _, .tag _ => .isTrue trivial

theorem prune_keeps_living_listed :
    Guarded (Host.step rowParse id) Host.Prompt (Host.start ⟨[], .empty⟩) listedEvents ∧
      ((run (Host.step rowParse id) (Host.start ⟨[], .empty⟩) listedEvents).PrunesOnlyGone rowParse id ↔
        (run (Host.step rowParse id) (Host.start ⟨[], .empty⟩) listedEvents).ShowsUnlisted) :=
  ⟨by decide +kernel, prune_keeps_living rowParse id ⟨[], .empty⟩ listedEvents (by decide +kernel)⟩

/-- Behind a listing that failed, a prune forgets the tag of a running container. -/
theorem failed_listing_prunes :
    Guarded (Host.step rowParse id) Host.Prompt (Host.start ⟨[], .empty⟩) failedEvents ∧
      ¬ (run (Host.step rowParse id) (Host.start ⟨[], .empty⟩) failedEvents).PrunesOnlyGone rowParse id := by
  refine ⟨by decide +kernel, fun honly => ?_⟩
  obtain ⟨listed, hlast, -⟩ := honly true (dockerRef (js "c1")) (by decide +kernel) (by decide +kernel)
  have hnone : (run (Host.step rowParse id) (Host.start ⟨[], .empty⟩) failedEvents).lastListing
      (dockerRef (js "c1")) = none := by decide +kernel
  rw [hnone] at hlast
  cases hlast

end BoredManager.Container
