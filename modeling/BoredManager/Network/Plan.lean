import BoredManager.Js.Doubles
import BoredManager.Network.Probe

/-! What the kernel limits have to be for a number of container addresses. -/
namespace BoredManager.Network
open BoredManager.Js BoredManager.Js.Number

def GC_THRESH1 : Text := js "net.ipv4.neigh.default.gc_thresh1"
def GC_THRESH2 : Text := js "net.ipv4.neigh.default.gc_thresh2"
def GC_THRESH3 : Text := js "net.ipv4.neigh.default.gc_thresh3"
def CONNTRACK_MAX : Text := js "net.netfilter.nf_conntrack_max"

/-- `String(value)` -/
def valueText : Number → Text
  | .fin q => numberText q
  | .inf negative => if negative then js "-Infinity" else js "Infinity"
  | .nan => js "NaN"

/-- `factor * value`, for a positive factor. -/
def times (factor : ℚ) : Number → Number
  | .fin q => ofRat (factor * q)
  | v => v

/-- `Math.floor(value / divisor)`, for a positive divisor. -/
def floorQuotient (v : Number) (divisor : ℚ) : Number :=
  match times divisor⁻¹ v with
  | .fin q => .fin ⌊q⌋
  | v => v

/-- `while (n < value) n *= 2`, at most so often: then `n` is infinite. -/
def nextPow2From (value : Number) : Nat → Number → Number
  | 0, n => n
  | fuel + 1, n => if n.lt value then nextPow2From value fuel (times 2 n) else n

/-- Round up to the next power of two. -/
def nextPow2 (value : Number) : Number := nextPow2From value 1024 (.fin 1)

def now (current : OrderedMap Text Text) (key : Text) : Number := .fin (toNumber (current.get? key))

/-- What a number of addresses needs of `gc_thresh3`, whatever it is now. -/
def neighbourRoom (targetIps : ℚ) : Number :=
  maximum (nextPow2 (times 2 (.fin targetIps))) (.fin (if 1000 ≤ targetIps then 16384 else 0))

def thresh3 (targetIps : ℚ) (current : OrderedMap Text Text) : Number :=
  maximum (now current GC_THRESH3) (neighbourRoom targetIps)

/-- The keys whose proposal is the greater of what is now and what is needed. -/
def needs (targetIps : ℚ) : List (Text × Number) :=
  [(js "fs.file-max", (times 100 (.fin targetIps)).add (.fin 65536)),
    (js "fs.nr_open", .fin 1048576),
    (js "fs.inotify.max_user_watches", (Number.fin 65536).add (times 128 (.fin targetIps))),
    (js "fs.inotify.max_user_instances", .fin 1024),
    (js "net.core.somaxconn", .fin 4096)]

/-- The proposals before the keys that the kernel does not have are taken out. -/
def proposals (targetIps : ℚ) (current : OrderedMap Text Text) : List (Text × Number) :=
  let thresh3 := thresh3 targetIps current
  [(GC_THRESH3, thresh3), (GC_THRESH2, floorQuotient thresh3 2), (GC_THRESH1, floorQuotient thresh3 4)] ++
  (needs targetIps).map (fun need => (need.1, maximum (now current need.1) need.2)) ++
  if 1000 ≤ targetIps ∧ (current.get? CONNTRACK_MAX).getD [] ≠ [] then
    [(CONNTRACK_MAX, maximum (now current CONNTRACK_MAX) (.fin 262144))]
  else []

def planFor (targetIps : ℚ) (current : OrderedMap Text Text) : OrderedMap Text Text :=
  .ofList (((proposals targetIps current).filter fun p => current.has p.1).map fun p =>
    (p.1, valueText p.2))

/-! ### What a plan owes -/

/-- A number of addresses to plan for. -/
structure TargetCount where
  count : Nat
  pos : 1 ≤ count
  isDouble : IsDouble (count : ℚ)

/-- The settings as the kernel prints them. -/
def texts (current : OrderedMap Text Nat) : OrderedMap Text Text :=
  ⟨current.entries.map fun e => (e.1, decimal e.2), by
    rw [List.map_map]
    exact current.nodup⟩

def planOf (t : TargetCount) (current : OrderedMap Text Nat) : OrderedMap Text Text :=
  planFor t.count (texts current)

/-- The settings once the plan is applied. -/
def planned (t : TargetCount) (current : OrderedMap Text Nat) : OrderedMap Text Text :=
  merged (texts current) (planOf t current).entries

/-- A number that is no less than `x`. -/
def AtLeast (x : ℚ) : Number → Prop
  | .fin q => x ≤ q
  | .inf negative => negative = false
  | .nan => False

/-- The current thresholds are in order. -/
def Ordered (current : OrderedMap Text Nat) : Prop :=
  ∃ n1 n2 n3, current.get? GC_THRESH1 = some n1 ∧ current.get? GC_THRESH2 = some n2 ∧
    current.get? GC_THRESH3 = some n3 ∧ n1 < n2 ∧ n2 < n3

/-- A plan only raises, and raises once. -/
structure OnlyRaises (t : TargetCount) (current : OrderedMap Text Nat) : Prop where
  keys : ∀ key ∈ (planOf t current).keys, key ∈ current.keys
  raises : ∀ key value n, (planOf t current).get? key = some value → current.get? key = some n →
    AtLeast n (ofText value)
  ordered : ∀ v1 v2 v3, (planned t current).get? GC_THRESH1 = some v1 →
    (planned t current).get? GC_THRESH2 = some v2 → (planned t current).get? GC_THRESH3 = some v3 →
    (Ordered current ∨ ∀ key ∈ [GC_THRESH1, GC_THRESH2, GC_THRESH3], key ∈ (planOf t current).keys) →
    (ofText v1).lt (ofText v2) = true ∧ (ofText v2).lt (ofText v3) = true
  monotone : ∀ t' : TargetCount, t.count ≤ t'.count → ∀ key value,
    (planOf t current).get? key = some value → ∃ value', (planOf t' current).get? key = some value' ∧
      (ofText value').lt (ofText value) = false
  idempotent : ∀ key value, (planFor t.count (planned t current)).get? key = some value →
    (planned t current).get? key = some value

/-- A multiple of a current value fits under the `gc_thresh3` that is there or is needed: under the
current one, under every power of two that covers twice the target, or under 16384. -/
def FitsUnder (t : TargetCount) (current : OrderedMap Text Nat) (share : Nat) (n : Nat) : Prop :=
  ((share * n : Nat) : ℚ) ≤ double ((current.get? GC_THRESH3).getD 0 : Nat) ∨
    (∀ j : Nat, j ≤ 1023 → 2 * t.count ≤ 2 ^ j → share * n ≤ 2 ^ j) ∨
    (1000 ≤ t.count ∧ share * n ≤ 16384)

/-- The needs beside the neighbour table's. -/
def allNeeds (targetIps : ℚ) : List (Text × Number) :=
  needs targetIps ++ if 1000 ≤ targetIps then [(CONNTRACK_MAX, .fin 262144)] else []

/-- The plan has nothing to pull down. -/
structure NothingAbove (t : TargetCount) (current : OrderedMap Text Nat) : Prop where
  thresholds : ∀ p ∈ [(GC_THRESH3, 1), (GC_THRESH2, 2), (GC_THRESH1, 4)], ∀ n,
    current.get? p.1 = some n → FitsUnder t current p.2 n
  others : ∀ need ∈ allNeeds t.count, ∀ n, current.get? need.1 = some n →
    (n : ℚ) ≤ double n ∨ AtLeast n need.2
  covered : (∀ key ∈ [GC_THRESH1, GC_THRESH2, GC_THRESH3], key ∈ current.keys) →
    t.count ≤ 2 ^ 1022

end BoredManager.Network
