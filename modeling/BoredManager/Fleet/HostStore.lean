import BoredManager.Fleet.SweepRuns
import BoredManager.Shared.AppSettings

/-! The roster on disk: the host data of a machine is read up to a cap, kept in a cache that sweeps
change in place, and written when a record changes in more than the time of its last probe. -/
namespace BoredManager.Fleet.Sweeps
open BoredManager.Js BoredManager.Machine BoredManager.Fleet.Targets BoredManager.Fleet.Net
open BoredManager.Shared (inheritedMembers)

deriving instance DecidableEq for HostRecord

/-! ### The document -/

abbrev Hosts := OrderedMap Text HostRecord

def MAX_HOST_RECORDS : Nat := 1024

/-- An entry of the file that is kept: its key is an address and it is an object. -/
def validHost (e : Text × Option HostRecord) : Option (Text × HostRecord) :=
  if (ipToInt e.1).isSome then e.2.map fun record => (e.1, record) else none

theorem validHost_eq_some {e : Text × Option HostRecord} {host : Text × HostRecord} :
    validHost e = some host ↔ e = (host.1, some host.2) ∧ (ipToInt host.1).isSome = true := by
  obtain ⟨ip, record⟩ := e
  obtain ⟨ip', record'⟩ := host
  cases record with
  | none => simp [validHost]
  | some record =>
    simp only [validHost, Option.map_some, Option.ite_none_right_eq_some, Option.some.injEq,
      Prod.mk.injEq]
    constructor
    · rintro ⟨hvalid, rfl, rfl⟩
      exact ⟨⟨rfl, rfl⟩, hvalid⟩
    · rintro ⟨⟨rfl, rfl⟩, hvalid⟩
      exact ⟨hvalid, rfl, rfl⟩

theorem keys_validHost (es : List (Text × Option HostRecord)) :
    ((es.filterMap validHost).map Prod.fst).Sublist (es.map Prod.fst) := by
  induction es with
  | nil => exact List.Sublist.refl _
  | cons e es ih =>
    cases h : validHost e with
    | none =>
      rw [List.filterMap_cons_none h]
      exact ih.cons _
    | some host =>
      obtain ⟨rfl, -⟩ := validHost_eq_some.mp h
      rw [List.filterMap_cons_some h]
      exact ih.cons_cons _

/-- The records of the file, up to the cap. -/
def normalize (disk : OrderedMap Text (Option HostRecord)) : Hosts :=
  ⟨(disk.entries.filterMap validHost).take MAX_HOST_RECORDS,
    disk.nodup.sublist (((List.take_sublist _ _).map _).trans (keys_validHost _))⟩

/-- What `hostDataSet` leaves. -/
def written (hosts : Hosts) : OrderedMap Text (Option HostRecord) :=
  ⟨hosts.entries.map fun e => (e.1, some e.2), by simpa [Function.comp_def] using hosts.nodup⟩

/-! ### A sweep into the cache -/

/-- A record without the time of its last probe. -/
def HostRecord.bare (record : HostRecord) : HostRecord := { record with lastProbeAt := some 0 }

/-- Whether an entry changes its record in more than that. -/
def noticed (setup : Setup) (now : Int) (hosts : Hosts) (entry : SweepEntry) : Bool :=
  earnsRecord hosts entry && !(hosts.get? entry.ip).any fun before =>
    decide (before.bare = (buildRecord setup now entry (some before)).bare)

/-- The flag that `mergeInto` returns. -/
def dirtied (setup : Setup) (now : Int) : Roster → List SweepEntry → Bool
  | _, [] => false
  | roster, entry :: entries =>
    noticed setup now roster.hosts entry || dirtied setup now (mergeEntry setup now roster entry) entries

/-- `Date.now()` -/
abbrev Clock := { t : Int // 0 < t }

/-- The answers of a sweep: it asks addresses only, and none twice. -/
structure Answers where
  entries : List SweepEntry
  once : (entries.map SweepEntry.ip).Nodup
  valid : ∀ entry ∈ entries, (ipToInt entry.ip).isSome = true

def Answers.one (entry : SweepEntry) (h : (ipToInt entry.ip).isSome = true) : Answers :=
  ⟨[entry], List.nodup_singleton _, by simpa using h⟩

/-- What a record takes from an entry. -/
structure Finding where
  ip : Text
  pinned : Bool
  label : Text
  reach : Reach
  note : Text
  hostname : Text
  os : Text
  kernel : Text
deriving DecidableEq

def SweepEntry.finding (setup : Setup) (entry : SweepEntry) : Finding :=
  { ip := entry.ip
    pinned := decide (entry.cred.kind = .host)
    label := (setup.login entry.cred).label
    reach := entry.reach
    note := entry.reachMessage
    hostname := (entry.facts.map HostFacts.hostname).getD []
    os := (entry.facts.map HostFacts.os).getD []
    kernel := (entry.facts.map HostFacts.kernel).getD [] }

/-! ### The roster and its store -/

/-- `last` is what the last sweep found, as long as nothing but a reload came after it. -/
structure Store where
  disk : OrderedMap Text (Option HostRecord)
  cache : Option Hosts
  live : OrderedMap Text HostLive
  writes : Nat
  last : Option (List Finding)

inductive RosterEvent where
  | apply (setup : Setup) (now : Clock) (sweep : Answers)
  | applyOne (setup : Setup) (now : Clock) (entry : SweepEntry)
      (valid : (ipToInt entry.ip).isSome = true)
  | forget (ip : Text)
  | pruneUnclaimed (targets : List TargetRule)
  | reset

namespace Store

/-- A store that has read nothing yet. -/
def start (disk : OrderedMap Text (Option HostRecord)) : Store := ⟨disk, none, .empty, 0, none⟩

def read (s : Store) : Hosts := s.cache.getD (normalize s.disk)

def persist (s : Store) : Store :=
  { s with cache := some s.read, disk := written s.read, writes := s.writes + 1 }

/-- `mergeInto` over the cache, and the write if it is called for. -/
def merge (setup : Setup) (now : Int) (s : Store) (live : OrderedMap Text HostLive)
    (entries : List SweepEntry) : Store :=
  let after := mergeInto setup now ⟨live, s.read⟩ entries
  let s' := { s with cache := some after.hosts, live := after.live, last := none }
  if dirtied setup now ⟨live, s.read⟩ entries then s'.persist else s'

def apply (setup : Setup) (now : Int) (s : Store) (sweep : Answers) : Store :=
  { s.merge setup now .empty sweep.entries with
      last := some (sweep.entries.map (SweepEntry.finding setup)) }

/-- `delete d.hosts[ip]` for each address, and the write. -/
def drop (s : Store) (ips : List Text) : Store :=
  { s with
      cache := some (ips.foldl OrderedMap.erase s.read)
      live := ips.foldl OrderedMap.erase s.live
      last := none }.persist

/-- `hosts[ip]` is also there under the name of an inherited member. -/
def forget (s : Store) (ip : Text) : Store :=
  if s.read.has ip || (Shared.lookup inheritedMembers ip).isSome then s.drop [ip] else s

def pruneUnclaimed (s : Store) (targets : List TargetRule) : Store :=
  let orphans := s.read.keys.filter fun ip => !targets.any fun rule => ruleCovers rule ip
  if orphans = [] then s else s.drop orphans

def reset (s : Store) : Store := { s with live := .empty, cache := none }

def step (s : Store) : RosterEvent → Store
  | .apply setup now sweep => s.apply setup now sweep
  | .applyOne setup now entry _ => s.merge setup now s.live [entry]
  | .forget ip => s.forget ip
  | .pruneUnclaimed targets => s.pruneUnclaimed targets
  | .reset => s.reset

/-- A sweep that finds what the sweep before it found. -/
def Repeats (s : Store) : RosterEvent → Prop
  | .apply setup _ sweep => s.last = some (sweep.entries.map (SweepEntry.finding setup))
  | _ => False

instance (s : Store) : (event : RosterEvent) → Decidable (s.Repeats event)
  | .apply _ _ _ => inferInstanceAs (Decidable (_ = _))
  | .applyOne _ _ _ _ | .forget _ | .pruneUnclaimed _ | .reset => inferInstanceAs (Decidable False)

/-- Reading the file again gives the records in memory, up to their probe times. -/
def Survives (s : Store) : Prop :=
  (normalize s.disk).entries.map (Prod.map id HostRecord.bare) =
    s.read.entries.map (Prod.map id HostRecord.bare)

end Store
end BoredManager.Fleet.Sweeps
