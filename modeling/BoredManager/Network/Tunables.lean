import BoredManager.Js.Blanks
import BoredManager.Js.Date
import BoredManager.Shared.Shell

/-! The managed sysctl file: how it is read, how a write builds it, and the writes as they run next
to each other. -/
namespace BoredManager.Network
open BoredManager.Js BoredManager.Shared

def SYSCTL_HEADER : Text := js "# Managed by Bored Manager - do not edit"

/-- Every key the page reads or writes. -/
def TUNABLE_KEYS : List Text :=
  ["net.ipv4.neigh.default.gc_thresh1", "net.ipv4.neigh.default.gc_thresh2",
    "net.ipv4.neigh.default.gc_thresh3", "net.ipv6.neigh.default.gc_thresh1",
    "net.ipv6.neigh.default.gc_thresh2", "net.ipv6.neigh.default.gc_thresh3", "fs.file-max",
    "fs.nr_open", "fs.inotify.max_user_watches", "fs.inotify.max_user_instances",
    "fs.inotify.max_queued_events", "net.core.somaxconn", "net.core.netdev_max_backlog",
    "net.ipv4.ip_local_port_range", "net.netfilter.nf_conntrack_max"].map js

def normalizeValue (value : Text) : Text := trim (collapse value)

/-- One line of `parseKeyValues`. -/
def keyValue (line : Text) : Option (Text × Text) :=
  let s := trim line
  if s = [] ∨ s.head? = some 35 then none
  else
    let key := s.takeWhile (· ≠ 61)
    match s.dropWhile (· ≠ 61) with
    | [] => none
    | _ :: rest =>
      if key = [] ∨ trim rest = [] then none else some (trim key, normalizeValue (trim rest))

/-- `key=value` lines, which is both how the probe reports and how the file stores them. -/
def parseKeyValues (text : Text) : OrderedMap Text Text := .ofList ((text.splitOn 10).filterMap keyValue)

/-- The probe's output: the lines of the other sections, and the file behind its marker. -/
def probeOutput (before : List Text) (file : Text) : Text :=
  join [10] (before ++ [marker (js "PERSISTED"), file])

/-- What `read` says is persisted. -/
def persistedOf (stdout : Text) : OrderedMap Text Text :=
  parseKeyValues (((splitSections stdout).get? (js "PERSISTED")).getD [])

/-- The keys and values of a file. -/
def contents (file : Text) : OrderedMap Text Text := persistedOf (probeOutput [] file)

/-- `{ ...persisted, ...changes }` -/
def merged (persisted : OrderedMap Text Text) (changes : List (Text × Text)) : OrderedMap Text Text :=
  changes.foldl (fun m c => m.set c.1 c.2) persisted

def settingLine (entry : Text × Text) : Text := entry.1 ++ js " = " ++ entry.2

/-- The text that a write gives to `tee`. -/
def fileBody (now : Nat) (entries : List (Text × Text)) : Text :=
  join [10] ([SYSCTL_HEADER, js "# Written " ++ isoText now] ++ entries.map settingLine ++ [[]])

/-- A value that survives the file: not empty, and written as `normalizeValue` writes it. -/
def IsValue (value : Text) : Prop := value ≠ [] ∧ normalizeValue value = value

instance (value : Text) : Decidable (IsValue value) := inferInstanceAs (Decidable (_ ∧ _))

/-- What a check has accepted: known keys, each once, and values as the checks write them. -/
structure Changes where
  entries : List (Text × Text)
  keys : ∀ c ∈ entries, c.1 ∈ TUNABLE_KEYS
  nodup : (entries.map Prod.fst).Nodup
  values : ∀ c ∈ entries, IsValue c.2

/-- `/^[\d ]+$/` -/
def isNumeric (value : Text) : Bool := value ≠ [] && value.all fun u => isDigit u || u == 32

/-- A write on its way: what it still has to give to the kernel, what the kernel has accepted, and
what it has read of the file. -/
structure Write where
  changes : Changes
  todo : List (Text × Text)
  accepted : List (Text × Text)
  persisted : Option (OrderedMap Text Text)

/-- The file, the writes on their way, and what the kernel accepted in each write that reached the
file, in the order of the file's writes. -/
structure World where
  file : Text
  writes : List Write
  written : List (List (Text × Text))

/-- What happens: `planApply` or `tunablesApply` begins a write, the kernel answers to a value, the
read answers (or fails and says nothing), `tee` answers, or a command throws. -/
inductive Event where
  | begun (hasSudo : Bool) (changes : Changes)
  | sysctl (index : Nat) (ok : Bool)
  | read (index : Nat) (before : Option (List Text))
  | tee (index : Nat) (ok : Bool) (now : Nat)
  | thrown (index : Nat)

/-- The value that is next, refused when it is not numeric. -/
def Write.answered (w : Write) (ok : Bool) : Write :=
  match w.todo with
  | [] => w
  | c :: rest =>
    { w with todo := rest, accepted := if ok && isNumeric c.2 then w.accepted ++ [c] else w.accepted }

def Write.readFile (w : Write) (before : Option (List Text)) (file : Text) : Write :=
  if w.todo = [] ∧ w.persisted = none then
    { w with persisted := some (persistedOf (before.elim [] fun lines => probeOutput lines file)) }
  else w

def World.step (w : World) : Event → World
  | .begun hasSudo changes =>
    if hasSudo = false then w
    else { w with writes := w.writes ++ [⟨changes, changes.entries, [], none⟩] }
  | .sysctl index ok => { w with writes := w.writes.modify index fun write => write.answered ok }
  | .read index before => { w with writes := w.writes.modify index fun write => write.readFile before w.file }
  | .tee index ok now =>
    match w.writes[index]? with
    | none => w
    | some write =>
      match write.persisted with
      | none => w
      | some persisted =>
        let rest := w.writes.eraseIdx index
        if ok then
          ⟨fileBody now (merged persisted write.changes.entries).entries, rest,
            w.written ++ [write.accepted]⟩
        else { w with writes := rest }
  | .thrown index => { w with writes := w.writes.eraseIdx index }

/-- A file without any write. -/
def World.start (file : Text) : World := ⟨file, [], []⟩

end BoredManager.Network
