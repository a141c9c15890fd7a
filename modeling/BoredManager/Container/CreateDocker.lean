import BoredManager.Container.CreateForm
import BoredManager.Shared.Shell

/-! "Create N Docker containers": what is asked of the machine, and the check that has to pass
first. Of the findings only the errors are kept, which decide whether there is a plan. -/
namespace BoredManager.Container.Create
open BoredManager.Js BoredManager.Shared

/-! ### The machine -/

/-- The digits of `\d{1,5}` at the head of a text, as far as they go, and what follows them. -/
def portRun (s : Text) : Option (Text × Text) :=
  let digits := s.takeWhile isDigit
  if digits = [] ∨ 5 < digits.length then none else some (digits, s.dropWhile isDigit)

/-- `/:(\d{1,5})->\d{1,5}\/(tcp|udp)/` at the head of a text, as a key of the used ports. -/
def PUBLISHED_RE (s : Text) : Option Text :=
  match s with
  | 58 :: s => do
    let (port, s) ← portRun s
    let s ← if (js "->").isPrefixOf s then some (s.drop 2) else none
    let (_, s) ← portRun s
    if (js "/tcp").isPrefixOf s then some (js "tcp:" ++ port)
    else if (js "/udp").isPrefixOf s then some (js "udp:" ++ port) else none
  | _ => none

/-- `/:(\d{1,5})$/` -/
def portField (field : Text) : Option Text :=
  let digits := (field.reverse.takeWhile isDigit).reverse
  if digits = [] ∨ 5 < digits.length ∨ (field.reverse.dropWhile isDigit).head? ≠ some 58 then none
  else some digits

/-- The port that a line about a listening socket names first. -/
def listening (line : Text) : Option Text :=
  match splitRuns isSpace (trim line) with
  | netid :: fields => do
    let proto ← if (js "udp").isPrefixOf netid then some (js "udp:")
      else if (js "tcp").isPrefixOf netid then some (js "tcp:") else none
    (fields.findSome? portField).map fun port => proto ++ port
  | [] => none

/-- What docker publishes, and what listens on the host. A match of the first expression has one
colon, at its head, so that every match is found. -/
def collectUsedPorts (dockerPorts listen : Text) : List Text :=
  dockerPorts.tails.filterMap PUBLISHED_RE ++ (listen.splitOn 10).filterMap listening

/-- The texts that begin a line. -/
def lineStarts (s : Text) : List Text :=
  s :: s.tails.filterMap fun tail => match tail with
    | u :: rest => if u = 10 ∨ u = 13 ∨ u = 8232 ∨ u = 8233 then some rest else none
    | [] => none

/-- A field of `/proc/meminfo`, which is in kB, or zero. -/
def meminfoValue (text : Text) (key : String) : Number :=
  let value := (lineStarts text).findSome? fun s =>
    let blanks := s.drop (js key).length.succ
    let digits := (blanks.dropWhile isSpace).takeWhile isDigit
    if (js key ++ [58]).isPrefixOf s ∧ (blanks.head?.any isSpace) = true ∧ digits ≠ [] then some digits
    else none
  (value.map fun digits => times (Number.ofText digits) 1024).getD (.fin 0)

structure HostProbe where
  dockerOk : Bool
  dockerNames : List Text
  usedHostPorts : List Text
  memTotalBytes : Number

/-- A section of the probe's output. -/
def part (stdout : Text) (name : String) : Text := ((splitSections stdout).get? (js name)).getD []

def probeHost (stdout : Text) : HostProbe :=
  { dockerOk := decide (trim (part stdout "INFO") = js "ok")
    dockerNames := (((part stdout "NAMES").splitOn 10).map trim).filter (· ≠ [])
    usedHostPorts := collectUsedPorts (part stdout "DOCKERPORTS") (part stdout "LISTEN")
    memTotalBytes := meminfoValue (part stdout "MEM") "MemTotal" }

/-- A network as docker describes it. -/
structure RawNetwork where
  config : List (Option Text × Option Text)
  containers : List Text

structure NetworkDetail where
  subnets : List Cidr
  gateways : List Text
  usedIps : List Nat
deriving DecidableEq

/-- The subnets that are IPv4 blocks, the gateways, and the addresses that were handed out. -/
def inspectNetwork (raw : RawNetwork) : NetworkDetail :=
  { subnets := raw.config.filterMap fun entry => (entry.1.filter (· ≠ [])).bind parseCidr
    gateways := raw.config.filterMap fun entry => entry.2.filter (· ≠ [])
    usedIps := raw.containers.filterMap fun address => ipToInt (address.takeWhile (· ≠ 47)) }

/-- `NETWORK_NAME_RE`, which is docker's for names too. -/
def NETWORK_NAME_RE : Text → Bool := DOCKER_NAME_RE

/-! ### The check -/

/-- The machine and the module as the check finds them: the limit of a job, the templates, what the
probe prints, which images are there, and how docker describes a network. -/
structure DockerHost where
  maxCreateCount : Int
  templates : List TemplateRecord
  probe : Text
  imagePresent : Text → Bool
  networks : Text → Option RawNetwork

def MAX_SCRIPT_BYTES : Nat := 8 * 1024

/-- What the check worked out and the apply runs verbatim. -/
structure DockerPlan where
  names : List Text
  image : Text
  env : List Text
  script : Text
  restartPolicy : Text
  cpus : Text
  memory : Text
  network : Text
  ips : List Text
  ports : List PortMapping
  tag : Text
  pull : Bool
  parallel : Bool
  abortOnError : Bool
  saveAsTemplate : Bool
  templateName : Text
  values : FormValues

/-- `Math.trunc(num(values, 'count'))`, where it is finite. -/
def countOf (values : FormValues) : Option Int :=
  ((num values "count").finite?).map Number.truncRat

/-- What is wrong with one mapping for so many containers. -/
def widthErrors (count : Int) (m : PortMapping) : List Text :=
  let width : Int := m.hostEnd - m.hostStart + 1
  if m.single = true ∧ 1 < count then
    [js "Port " ++ decimal m.hostStart ++ 58 :: decimal m.containerPort ++ js " publishes one fixed host port"]
  else if width < count then
    [js "Port range " ++ decimal m.hostStart ++ js "-" ++ decimal m.hostEnd ++ js " only covers " ++
      decimalInt width ++ js " of " ++ decimalInt count ++ js " containers"]
  else []

/-- The ports of a job that are taken. -/
def portClashes (mappings : List PortMapping) (count : Nat) (used : List Text) : List TakenPort :=
  (List.range count).flatMap fun i =>
    (portsForIndex mappings i).filter fun port => (port.proto.text ++ 58 :: decimal port.host) ∈ used

def checkPorts (mappings : List PortMapping) (count : Int) (used : List Text) : List Text :=
  let clashes := portClashes mappings count.toNat used
  mappings.flatMap (widthErrors count) ++
    if clashes = [] then [] else [decimal clashes.length ++ js " host port(s) are already in use"]

/-- The addresses from a first one on that are not handed out. -/
def freeAmong (used : List Nat) (first n : Nat) : List Nat :=
  ((List.range n).map (first + ·)).filter (· ∉ used)

/-- The addresses that the containers are given, and what is wrong with the range. -/
def checkIpRange (spec : Text) (count : Int) (detail : NetworkDetail) : List Text × List Text :=
  if spec = [] then ([], [])
  else match parseIpRange spec with
    | none => ([], [quotedSpec spec " is not a CIDR or a first-last address pair"])
    | some range =>
      if detail.subnets ≠ [] ∧ (detail.subnets.all fun s =>
          !(decide (s.network ≤ range.first) && decide (range.last ≤ s.broadcast))) = true then
        ([], [intToIp range.first ++ js "-" ++ intToIp range.last ++ js " is outside the network's subnet"])
      else
        let free := (freeAmong detail.usedIps range.first (range.last + 1 - range.first)).take count.toNat
        if (free.length : Int) < count then
          ([], [js "Only " ++ decimal free.length ++ js " of the " ++ decimalInt count ++
            js " addresses in that range are free"])
        else (free.map intToIp, [])

/-- R-CD-02. -/
def countErrors (maxCreateCount : Int) (count : Option Int) : List Text :=
  if (count.all fun n => n < 1 || maxCreateCount < n) = true then
    [js "Count must be between 1 and " ++ decimalInt maxCreateCount] else []

/-- R-CD-04. -/
def nameErrors (namePrefix : Text) (names taken : List Text) : List Text :=
  if DOCKER_NAME_RE namePrefix = false then [js "Name prefix is not usable"]
  else
    let clashes := names.filter (· ∈ taken)
    if clashes = [] then [] else [decimal clashes.length ++ js " of those names are taken"]

/-- R-CD-05. -/
def imageErrors (host : DockerHost) (image : Text) (pull : Bool) : List Text :=
  if image = [] then [js "An image is required"]
  else if host.imagePresent image || pull then []
  else [js "Image " ++ image ++ js " is not on this machine"]

/-- R-CD-09; a count that is not positive asks for no memory. -/
def memoryErrors (memory : Text) (count : Option Int) (total : Number) : List Text :=
  if memory = [] then []
  else match parseMemory memory with
    | none => [quotedSpec memory " is not a memory size (try 512m or 2g)"]
    | some perContainer =>
      match count.filter (0 < ·) with
      | none => []
      | some count =>
        let wanted := times perContainer count.toNat
        if total ≠ .fin 0 ∧ total.lt wanted = true then
          [formatBytes wanted ++ js " of memory is more than this machine has"] else []

/-- A network by its name; a name that is none is not asked for. -/
def DockerHost.network (host : DockerHost) (name : Text) : Option NetworkDetail :=
  (if NETWORK_NAME_RE name then host.networks name else none).map inspectNetwork

/-- R-CD-08: the addresses, and what is wrong with the network. -/
def networkErrors (host : DockerHost) (values : FormValues) (count : Option Int) : List Text × List Text :=
  let network := text values "network"
  if network = [] then ([], [])
  else match host.network network with
    | none => ([], [js "Network \"" ++ network ++ js "\" does not exist"])
    | some detail => checkIpRange (text values "ipRange") (count.getD 0) detail

/-- The errors of the check, and the plan it would issue a token for. -/
def DockerHost.errorsAndPlan (host : DockerHost) (raw : FormValues) : List Text × DockerPlan :=
  let values := mergeTemplate raw host.templates
  let count := countOf values
  let namePrefix := text values "namePrefix"
  let image := text values "image"
  let pull := flag values "pull"
  let probe := probeHost host.probe
  let names := generatedNames namePrefix (min (count.getD 0) host.maxCreateCount).toNat
  let env := parseEnvLines (text values "env")
  let ports := parsePorts (text values "ports")
  let network := networkErrors host values count
  let script := text values "startupScript"
  let errors := (if probe.dockerOk then [] else [js "Docker is not reachable on this machine"]) ++
    countErrors host.maxCreateCount count ++
    nameErrors namePrefix names probe.dockerNames ++
    imageErrors host image pull ++
    (if env.badLines = [] then [] else
      [decimal env.badLines.length ++ js " environment line(s) are not KEY=VALUE"]) ++
    ports.errors.map (fun error => js "Ports: " ++ error) ++
    (match count.filter (0 < ·) with
      | none => []
      | some count => checkPorts ports.mappings count probe.usedHostPorts) ++
    network.2 ++
    memoryErrors (text values "memory") count probe.memTotalBytes ++
    (if MAX_SCRIPT_BYTES < script.length then
      [js "The startup script is " ++ decimal script.length ++ js " characters"] else [])
  let restartPolicy := text values "restartPolicy"
  (errors, {
    names := names, image := image, env := env.entries, script := script
    restartPolicy := if restartPolicy = [] then js "no" else restartPolicy
    cpus := text values "cpus", memory := text values "memory", network := text values "network"
    ips := network.1, ports := ports.mappings, tag := text values "tag", pull := pull
    parallel := decide (text values "concurrency" = js "parallel")
    abortOnError := decide (text values "onError" = js "abort")
    saveAsTemplate := flag values "saveAsTemplate", templateName := text values "templateName"
    values := values })

/-- The plan of a check that is ok. -/
def DockerHost.check (host : DockerHost) (raw : FormValues) : Option DockerPlan :=
  let (errors, plan) := host.errorsAndPlan raw
  if errors = [] then some plan else none

end BoredManager.Container.Create
