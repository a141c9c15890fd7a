import BoredManager.Js.Number
import BoredManager.Machine.Runs

/-! Downloads into a new file: which requests are made, and what the file holds when the transfer is
over. What runs between two awaits is one step. -/
namespace BoredManager.Server.Downloads
open BoredManager.Js BoredManager.Machine

def GITHUB_DOWNLOAD_HOSTS : List Text :=
  [js "github.com", js "www.github.com", js "codeload.github.com", js "objects.githubusercontent.com",
    js "release-assets.githubusercontent.com"]

def MAX_REDIRECTS : Nat := 5

structure DownloadOptions where
  maxBytes : Int
  timeoutMs : Int
  allowedHosts : Option (List Text)

/-- What is read of a `URL`. -/
structure Url where
  protocol : Text
  username : Text
  password : Text
  port : Text
  hostname : Text
deriving DecidableEq

/-- The platform: `new URL(raw)`, `new URL(location, base).toString()`, `isIP` and `toLowerCase`. -/
structure Platform where
  parse : Text → Option Url
  resolve : Text → Url → Option Text
  isIP : Text → Bool
  lower : Text → Text

/-! ### Addresses -/

def endsWith (suffix s : Text) : Bool := suffix.reverse.isPrefixOf s.reverse

def isBlockedHost (p : Platform) (hostname : Text) : Bool :=
  let host := p.lower hostname
  if host = js "localhost" ∨ endsWith (js ".localhost") host = true ∨ host = js "0.0.0.0" then true
  else if host = js "::1" ∨ host = js "[::1]" then true
  else if p.isIP host = false then false
  else if 58 ∈ host then
    let compact := p.lower host
    compact = js "::1" || (js "fe80:").isPrefixOf compact || (js "fc").isPrefixOf compact ||
      (js "fd").isPrefixOf compact
  else
    let octets := (host.splitOnP (· == 46)).map (Number.radixValue 10)
    let a := octets.getD 0 none
    let b := octets.getD 1 none
    if a = some 10 ∨ a = some 127 ∨ a = some 0 then true
    else if a = some 169 ∧ b = some 254 then true
    else if a = some 172 ∧ b.any (fun b => 16 ≤ b && b ≤ 31) = true then true
    else if a = some 192 ∧ b = some 168 then true
    else a = some 100 && b.any (fun b => 64 ≤ b && b ≤ 127)

/-- Reject anything that is not public HTTPS on an exact allowed hostname. -/
def assertSafeDownloadUrl (p : Platform) (raw : Text) (allowedHosts : Option (List Text)) :
    Except Text Url :=
  match p.parse raw with
  | none => .error (js "\"" ++ raw ++ js "\" is not a valid URL")
  | some url =>
    let host := p.lower url.hostname
    if url.protocol ≠ js "https:" then
      .error (js "Only https:// links are accepted (got " ++ url.protocol ++ js "//)")
    else if url.username ≠ [] ∨ url.password ≠ [] then
      .error (js "URLs with credentials are not accepted")
    else if url.port ≠ [] ∧ url.port ≠ js "443" then
      .error (js "only the standard HTTPS port is accepted")
    else if isBlockedHost p host = true then .error (js "that address is not allowed")
    else if allowedHosts.any (fun hosts => !hosts.any fun candidate => p.lower candidate = host) then
      .error (js "downloads are not accepted from " ++ url.hostname)
    else .ok url

structure Response where
  status : Nat
  statusText : Text
  location : Option Text
  contentLength : Option Text
  rateRemaining : Option Text
  rateReset : Option Text
  hasBody : Bool

def invalidLength : Text := js "server returned an invalid content length"

/-- `/^(0|[1-9]\d*)$/`, and a safe integer. -/
def declaredLength (response : Response) : Except Text (Option Nat) :=
  match response.contentLength with
  | none => .ok none
  | some raw =>
    if raw ≠ js "0" ∧ ¬((raw.head?.any fun u => 49 ≤ u && u ≤ 57) && raw.all isDigit) = true then
      .error invalidLength
    else
      let value := (Number.radixValue 10 raw).getD 0
      if value < 2 ^ 53 then .ok (some value) else .error invalidLength

/-! ### The transfer -/

/-- `aggregate` is the `AggregateError`: download failed and its partial file could not be removed. -/
inductive Outcome where
  | resolved
  | rejected (error : Text)
  | aggregate
deriving DecidableEq

/-- What the download waits for: the new file, an answer, the end of a body that is dropped, the
pipeline, the file's close and its removal. `waiting` has passed the counter and is not written. -/
inductive Phase where
  | thrown (error : Text)
  | opening (firstUrl : Url)
  | requesting (hop : Nat) (current : Url)
  | discarding (hop : Nat) (current : Url) (location : Option Text)
  | receiving (received : Nat) (waiting : List Nat) (ended : Bool)
  | closing (failure : Option Text)
  | removing (failure : Text)
  | settled (outcome : Outcome)
deriving DecidableEq

/-- `dest` is the file. The last three fields watch the run: the requests, the body bytes of the last
response, and whether the file is this download's. -/
structure Download where
  phase : Phase
  dest : Option (List Nat)
  callerCancelled : Bool
  timedOut : Bool
  requests : List Url
  body : List Nat
  created : Bool

variable (p : Platform) (opts : DownloadOptions)

def allowed : List Text := opts.allowedHosts.getD GITHUB_DOWNLOAD_HOSTS

def isSafe (n : Int) : Bool := -(2 ^ 53) < n && n < 2 ^ 53

/-- The call itself: what it throws, or the download that it starts. -/
def downloadFile (url : Text) (dest : Option (List Nat)) : Download :=
  let phase :=
    if isSafe opts.maxBytes = false ∨ opts.maxBytes ≤ 0 then .thrown (js "download byte limit is invalid")
    else if isSafe opts.timeoutMs = false ∨ opts.timeoutMs ≤ 0 then
      .thrown (js "download timeout is invalid")
    else
      match assertSafeDownloadUrl p url (some (allowed opts)) with
      | .error error => .thrown error
      | .ok firstUrl => .opening firstUrl
  ⟨phase, dest, false, false, [], [], false⟩

namespace Download
variable (s : Download)

/-- The `catch` names the reason, and the `finally` begins. -/
def fail (error : Text) : Download := {
  s with
  phase := .closing (some (
    if s.callerCancelled then js "download was cancelled"
    else if s.timedOut then js "the download exceeded its deadline"
    else error)) }

def request (hop : Nat) (url : Url) : Download := {
  s with
  phase := .requesting hop url
  requests := s.requests ++ [url] }

/-- `open(dest, 'wx')`: only a new file is opened. -/
def opened (failure : Option Text) : Download :=
  match s.phase with
  | .opening firstUrl =>
    match s.dest, failure with
    | some _, _ => { s with phase := .settled (.rejected (js "EEXIST: file already exists")) }
    | none, some error => { s with phase := .settled (.rejected error) }
    | none, none => { s with dest := some [], created := true }.request 0 firstUrl
  | _ => s

def replied (response : Response) : Text :=
  js "server replied " ++ decimal response.status ++
    (if response.statusText = [] then [] else 32 :: response.statusText) ++
    if response.status = 403 ∧ response.rateRemaining = some (js "0") then
      js "; GitHub rate limit exhausted" ++
        (if response.rateReset.getD [] = [] then [] else js " until " ++ response.rateReset.getD [])
    else []

/-- The answer that is no redirect. -/
def accept (response : Response) : Download :=
  if response.status < 200 ∨ 300 ≤ response.status then s.fail (replied response)
  else
    match declaredLength response with
    | .error error => s.fail error
    | .ok totalBytes =>
      if totalBytes.any (fun n => decide (opts.maxBytes < n)) = true then
        s.fail (js "download exceeds its byte limit")
      else if response.hasBody = false then s.fail (js "the server returned an empty response body")
      else { s with phase := .receiving 0 [] false, body := [] }

def responded (response : Response) : Download :=
  match s.phase with
  | .requesting hop current =>
    if response.status < 300 ∨ 400 ≤ response.status then s.accept opts response
    else if hop = MAX_REDIRECTS then s.fail (js "too many redirects")
    else { s with phase := .discarding hop current response.location }
  | _ => s

def discarded : Download :=
  match s.phase with
  | .discarding hop current location =>
    if location.getD [] = [] then s.fail (js "server redirected without a location")
    else
      match p.resolve (location.getD []) current with
      | none => s.fail (js "Invalid URL")
      | some raw =>
        match assertSafeDownloadUrl p raw (some (allowed opts)) with
        | .error error => s.fail error
        | .ok url => s.request (hop + 1) url
  | _ => s

/-- A chunk of the body goes through the counter. -/
def transform (chunk : List Nat) : Download :=
  match s.phase with
  | .receiving received waiting false =>
    let s := { s with body := s.body ++ chunk }
    if opts.maxBytes < (received + chunk.length : Nat) then
      s.fail (js "download exceeded its byte limit")
    else { s with phase := .receiving (received + chunk.length) (waiting ++ chunk) false }
  | _ => s

/-- Some of what waits is written. -/
def wrote (n : Nat) : Download :=
  match s.phase with
  | .receiving received waiting ended => {
    s with
    phase := .receiving received (waiting.drop n) ended
    dest := s.dest.map (· ++ waiting.take n) }
  | _ => s

def ended : Download :=
  match s.phase with
  | .receiving received waiting _ => { s with phase := .receiving received waiting true }
  | _ => s

/-- The request or the pipeline fails, by itself or by the signal. -/
def broken (error : Text) : Download :=
  match s.phase with
  | .requesting _ _ => s.fail error
  | .receiving _ _ _ => s.fail error
  | _ => s

/-- The pipeline is through: the body is over and written. The last progress report may throw. -/
def piped (failure : Option Text) : Download :=
  match s.phase with
  | .receiving _ [] true => failure.elim { s with phase := .closing none } s.fail
  | _ => s

def closed : Download :=
  match s.phase with
  | .closing none => { s with phase := .settled .resolved }
  | .closing (some failure) => { s with phase := .removing failure }
  | _ => s

/-- `rm(dest, { force: true })` ends, well or with an error. -/
def removed (ok : Bool) : Download :=
  match s.phase with
  | .removing failure =>
    if ok then { s with dest := none, phase := .settled (.rejected failure) }
    else { s with phase := .settled .aggregate }
  | _ => s

end Download

inductive Event where
  | opened (failure : Option Text)
  | responded (response : Response)
  | discarded
  | transform (chunk : List Nat)
  | wrote (n : Nat)
  | ended
  | broken (error : Text)
  | piped (failure : Option Text)
  | closed
  | removed (ok : Bool)
  | aborted
  | deadline

def step (s : Download) : Event → Download
  | .opened failure => s.opened failure
  | .responded response => s.responded opts response
  | .discarded => s.discarded p opts
  | .transform chunk => s.transform opts chunk
  | .wrote n => s.wrote n
  | .ended => s.ended
  | .broken error => s.broken error
  | .piped failure => s.piped failure
  | .closed => s.closed
  | .removed ok => s.removed ok
  | .aborted => { s with callerCancelled := true }
  | .deadline => { s with timedOut := true }

/-! ### Requests -/

variable {p opts} {before : Option (List Nat)} {s : Download}

/-- HTTPS on its own port, without credentials, to a host of the list. -/
structure SafeUrl (p : Platform) (opts : DownloadOptions) (url : Url) : Prop where
  protocol : url.protocol = js "https:"
  credentials : url.username = [] ∧ url.password = []
  port : url.port = [] ∨ url.port = js "443"
  host : ∃ candidate ∈ allowed opts, p.lower candidate = p.lower url.hostname

theorem safe_of_assertSafeDownloadUrl {raw : Text} {url : Url}
    (h : assertSafeDownloadUrl p raw (some (allowed opts)) = .ok url) : SafeUrl p opts url := by
  rw [assertSafeDownloadUrl] at h
  cases hparse : p.parse raw with
  | none =>
    rw [hparse] at h
    cases h
  | some other =>
    rw [hparse] at h
    dsimp only at h
    split_ifs at h with hprotocol hcredentials hport hblocked hhost
    cases h
    rw [not_not] at hprotocol
    rw [not_or, not_not, not_not] at hcredentials
    rw [Option.any_some, Bool.not_eq_true', Bool.not_eq_false] at hhost
    obtain ⟨candidate, hmem, heq⟩ := List.any_eq_true.mp hhost
    have hport' : url.port = [] ∨ url.port = js "443" := by
      by_cases hempty : url.port = []
      · exact .inl hempty
      · exact .inr (not_not.mp fun hne => hport ⟨hempty, hne⟩)
    exact ⟨hprotocol, hcredentials, hport', candidate, hmem, of_decide_eq_true heq⟩

/-! ### The invariant -/

/-- The file is new, and nothing is written. -/
structure Fresh (opts : DownloadOptions) (s : Download) : Prop where
  created : s.created = true
  dest : s.dest = some []
  bytes : 0 < opts.maxBytes

/-- The file holds the body, within the limit. -/
structure Complete (opts : DownloadOptions) (s : Download) : Prop where
  created : s.created = true
  dest : s.dest = some s.body
  bounded : (s.body.length : Int) ≤ opts.maxBytes

/-- The file holds the body but for what waits to be written. -/
structure Receiving (opts : DownloadOptions) (s : Download) (received : Nat) (waiting : List Nat) :
    Prop where
  created : s.created = true
  counted : received = s.body.length
  bounded : (s.body.length : Int) ≤ opts.maxBytes
  dest : s.dest.map (· ++ waiting) = some s.body

/-- What is known while the download waits. -/
def Waits (p : Platform) (opts : DownloadOptions) (s : Download) : Phase → Prop
  | .thrown _ => s.created = false
  | .opening firstUrl =>
    SafeUrl p opts firstUrl ∧ s.requests = [] ∧ s.created = false ∧ 0 < opts.maxBytes
  | .requesting hop _ => Fresh opts s ∧ s.requests.length = hop + 1 ∧ hop ≤ MAX_REDIRECTS
  | .discarding hop _ _ => Fresh opts s ∧ s.requests.length = hop + 1 ∧ hop < MAX_REDIRECTS
  | .receiving received waiting _ => Receiving opts s received waiting
  | .closing none => Complete opts s
  | .closing (some _) => s.created = true
  | .removing _ => s.created = true
  | .settled .resolved => Complete opts s
  | .settled (.rejected _) => s.created = true → s.dest = none
  | .settled .aggregate => s.created = true

structure Inv (p : Platform) (opts : DownloadOptions) (before : Option (List Nat)) (s : Download) :
    Prop where
  waits : Waits p opts s s.phase
  safe : ∀ url ∈ s.requests, SafeUrl p opts url
  few : s.requests.length ≤ MAX_REDIRECTS + 1
  new : s.created = true → before = none
  kept : s.created = false → s.dest = before

theorem Inv.waits_of (h : Inv p opts before s) {phase : Phase} (hphase : s.phase = phase) :
    Waits p opts s phase := hphase ▸ h.waits

/-- The two flags say only which error a failure names. -/
theorem Waits.flags {phase : Phase} (h : Waits p opts s phase) (callerCancelled timedOut : Bool) :
    Waits p opts { s with callerCancelled, timedOut } phase := by
  cases phase with
  | requesting hop current => exact ⟨⟨h.1.created, h.1.dest, h.1.bytes⟩, h.2⟩
  | discarding hop current location => exact ⟨⟨h.1.created, h.1.dest, h.1.bytes⟩, h.2⟩
  | receiving received waiting ended => exact ⟨h.created, h.counted, h.bounded, h.dest⟩
  | closing failure =>
    cases failure with
    | none => exact ⟨h.created, h.dest, h.bounded⟩
    | some failure => exact h
  | settled outcome =>
    cases outcome with
    | resolved => exact ⟨h.created, h.dest, h.bounded⟩
    | rejected error => exact h
    | aggregate => exact h
  | _ => exact h

theorem inv_downloadFile (p : Platform) (opts : DownloadOptions) (url : Text)
    (before : Option (List Nat)) : Inv p opts before (downloadFile p opts url before) where
  waits := by
    rw [downloadFile]
    dsimp only
    split_ifs with hbytes
    · rfl
    · rfl
    · cases h : assertSafeDownloadUrl p url (some (allowed opts)) with
      | error error => rfl
      | ok firstUrl =>
        have hpositive : 0 < opts.maxBytes := not_le.mp fun hle => hbytes (.inr hle)
        exact ⟨safe_of_assertSafeDownloadUrl h, rfl, rfl, hpositive⟩
  safe := fun url hmem => by cases hmem
  few := Nat.zero_le _
  new := fun h => by cases h
  kept := fun _ => rfl

/-- While the file is this download's, only the phase's own fact, the requests and their number are
to be shown again. -/
theorem Inv.own {next : Download} (h : Inv p opts before s) (hcreated : s.created = true)
    (hnext : next.created = true) (hrequests : next.requests = s.requests)
    (hwaits : Waits p opts next next.phase) : Inv p opts before next where
  waits := hwaits
  safe := hrequests ▸ h.safe
  few := hrequests ▸ h.few
  new := fun _ => h.new hcreated
  kept := fun hfalse => by rw [hnext] at hfalse; cases hfalse

theorem Inv.fail (h : Inv p opts before s) (hcreated : s.created = true) (error : Text) :
    Inv p opts before (s.fail error) :=
  h.own hcreated hcreated rfl hcreated

/-- One more request, to a safe address. -/
theorem Inv.request (h : Inv p opts before s) (hfresh : Fresh opts s) {hop : Nat} {url : Url}
    (hhop : hop ≤ MAX_REDIRECTS) (hlength : s.requests.length = hop) (hurl : SafeUrl p opts url) :
    Inv p opts before (s.request hop url) := by
  have hmore : (s.requests ++ [url]).length = hop + 1 := by
    rw [List.length_append, hlength]
    rfl
  refine ⟨⟨⟨hfresh.created, hfresh.dest, hfresh.bytes⟩, hmore, hhop⟩, fun other hmem => ?_, ?_, h.new,
    h.kept⟩
  · obtain hmem | hmem := List.mem_append.mp hmem
    · exact h.safe other hmem
    · rw [List.mem_singleton.mp hmem]
      exact hurl
  · exact hmore.trans_le (Nat.succ_le_succ hhop)

theorem inv_opened (h : Inv p opts before s) (failure : Option Text) :
    Inv p opts before (s.opened failure) := by
  rw [Download.opened]
  cases hphase : s.phase with
  | opening firstUrl =>
    obtain ⟨hurl, hrequests, hcreated, hbytes⟩ := h.waits_of hphase
    have hrejected : ∀ dest error, s.dest = dest →
        Inv p opts before { s with dest, phase := .settled (.rejected error) } := by
      rintro _ error rfl
      exact { h with waits := fun htrue => by rw [hcreated] at htrue; cases htrue }
    dsimp only
    cases hdest : s.dest with
    | some content => exact hrejected _ _ hdest
    | none =>
      cases failure with
      | some error => exact hrejected _ error hdest
      | none =>
        have hnew : before = none := (h.kept hcreated).symm.trans hdest
        have hinv : Inv p opts before { s with
            phase := .removing [], dest := some [], created := true } :=
          { h with waits := rfl, new := fun _ => hnew, kept := fun hfalse => by cases hfalse }
        have hrequest := hinv.request ⟨rfl, rfl, hbytes⟩ (Nat.zero_le _)
          (congrArg List.length hrequests) hurl
        exact { hrequest with }
  | _ => exact h

theorem inv_accept (h : Inv p opts before s) (hfresh : Fresh opts s) (response : Response) :
    Inv p opts before (s.accept opts response) := by
  have hfail := h.fail hfresh.created
  rw [Download.accept]
  split
  · exact hfail _
  · cases declaredLength response with
    | error error => exact hfail error
    | ok totalBytes =>
      dsimp only
      split_ifs
      · exact hfail _
      · exact hfail _
      · refine h.own hfresh.created hfresh.created rfl ⟨hfresh.created, rfl, ?_, ?_⟩
        · exact le_of_lt hfresh.bytes
        · rw [hfresh.dest]
          rfl

theorem inv_responded (h : Inv p opts before s) (response : Response) :
    Inv p opts before (s.responded opts response) := by
  rw [Download.responded]
  cases hphase : s.phase with
  | requesting hop current =>
    obtain ⟨hfresh, hlength, hhop⟩ := h.waits_of hphase
    dsimp only
    split_ifs with hredirect hlast
    · exact inv_accept h hfresh response
    · exact h.fail hfresh.created _
    · refine h.own hfresh.created hfresh.created rfl ⟨⟨hfresh.created, hfresh.dest, hfresh.bytes⟩,
        hlength, ?_⟩
      omega
  | _ => exact h

/-- A redirect is followed only to a safe address, and only so often. -/
theorem inv_discarded (h : Inv p opts before s) : Inv p opts before (s.discarded p opts) := by
  rw [Download.discarded]
  cases hphase : s.phase with
  | discarding hop current location =>
    obtain ⟨hfresh, hlength, hhop⟩ := h.waits_of hphase
    have hfail := h.fail hfresh.created
    dsimp only
    split
    · exact hfail _
    · cases p.resolve (location.getD []) current with
      | none => exact hfail _
      | some raw =>
        dsimp only
        cases hsafe : assertSafeDownloadUrl p raw (some (allowed opts)) with
        | error error => exact hfail error
        | ok url => exact h.request hfresh hhop hlength (safe_of_assertSafeDownloadUrl hsafe)
  | _ => exact h

theorem inv_transform (h : Inv p opts before s) (chunk : List Nat) :
    Inv p opts before (s.transform opts chunk) := by
  rw [Download.transform.eq_def]
  split
  · rename_i received waiting hphase
    have hreceiving : Receiving opts s received waiting := h.waits_of hphase
    have hlength : (s.body ++ chunk).length = received + chunk.length := by
      rw [List.length_append, hreceiving.counted]
    dsimp only
    split_ifs with hlimit
    · exact h.own hreceiving.created hreceiving.created rfl hreceiving.created
    · refine h.own hreceiving.created hreceiving.created rfl ⟨hreceiving.created, hlength.symm, ?_, ?_⟩
      · rw [hlength]
        exact not_lt.mp hlimit
      · obtain ⟨written, hdest, hwritten⟩ := Option.map_eq_some_iff.mp hreceiving.dest
        rw [hdest, Option.map_some, ← hwritten, List.append_assoc]
  · exact h

theorem inv_wrote (h : Inv p opts before s) (n : Nat) : Inv p opts before (s.wrote n) := by
  rw [Download.wrote]
  cases hphase : s.phase with
  | receiving received waiting ended =>
    have hreceiving : Receiving opts s received waiting := h.waits_of hphase
    have hall : (s.dest.map (· ++ waiting.take n)).map (· ++ waiting.drop n) = some s.body := by
      obtain ⟨written, hdest, hwritten⟩ := Option.map_eq_some_iff.mp hreceiving.dest
      rw [hdest, Option.map_some, Option.map_some, List.append_assoc, List.take_append_drop, hwritten]
    exact h.own hreceiving.created hreceiving.created rfl
      ⟨hreceiving.created, hreceiving.counted, hreceiving.bounded, hall⟩
  | _ => exact h

theorem inv_ended (h : Inv p opts before s) : Inv p opts before s.ended := by
  rw [Download.ended]
  cases hphase : s.phase with
  | receiving received waiting ended =>
    have hreceiving : Receiving opts s received waiting := h.waits_of hphase
    exact h.own hreceiving.created hreceiving.created rfl
      ⟨hreceiving.created, hreceiving.counted, hreceiving.bounded, hreceiving.dest⟩
  | _ => exact h

theorem inv_broken (h : Inv p opts before s) (error : Text) : Inv p opts before (s.broken error) := by
  rw [Download.broken]
  cases hphase : s.phase with
  | requesting hop current => exact h.fail (h.waits_of hphase).1.created error
  | receiving received waiting ended =>
    have hreceiving : Receiving opts s received waiting := h.waits_of hphase
    exact h.fail hreceiving.created error
  | _ => exact h

/-- The pipeline is through only when nothing waits: the file holds the body. -/
theorem inv_piped (h : Inv p opts before s) (failure : Option Text) :
    Inv p opts before (s.piped failure) := by
  rw [Download.piped.eq_def]
  split
  · rename_i received hphase
    have hreceiving : Receiving opts s received [] := h.waits_of hphase
    cases failure with
    | some error => exact h.fail hreceiving.created error
    | none =>
      refine h.own hreceiving.created hreceiving.created rfl
        ⟨hreceiving.created, ?_, hreceiving.bounded⟩
      obtain ⟨written, hdest, hwritten⟩ := Option.map_eq_some_iff.mp hreceiving.dest
      rw [List.append_nil] at hwritten
      exact hdest.trans (congrArg some hwritten)
  · exact h

theorem inv_closed (h : Inv p opts before s) : Inv p opts before s.closed := by
  rw [Download.closed.eq_def]
  split
  · rename_i hphase
    have hcomplete : Complete opts s := h.waits_of hphase
    exact h.own hcomplete.created hcomplete.created rfl
      ⟨hcomplete.created, hcomplete.dest, hcomplete.bounded⟩
  · rename_i failure hphase
    have hcreated : s.created = true := h.waits_of hphase
    exact h.own hcreated hcreated rfl hcreated
  · exact h

theorem inv_removed (h : Inv p opts before s) (ok : Bool) : Inv p opts before (s.removed ok) := by
  rw [Download.removed]
  cases hphase : s.phase with
  | removing failure =>
    have hcreated : s.created = true := h.waits_of hphase
    cases ok with
    | true => exact h.own hcreated hcreated rfl fun _ => rfl
    | false => exact h.own hcreated hcreated rfl hcreated
  | _ => exact h

theorem inv_step (h : Inv p opts before s) (event : Event) :
    Inv p opts before (step p opts s event) := by
  cases event with
  | opened failure => exact inv_opened h failure
  | responded response => exact inv_responded h response
  | discarded => exact inv_discarded h
  | transform chunk => exact inv_transform h chunk
  | wrote n => exact inv_wrote h n
  | ended => exact inv_ended h
  | broken error => exact inv_broken h error
  | piped failure => exact inv_piped h failure
  | closed => exact inv_closed h
  | removed ok => exact inv_removed h ok
  | aborted => exact { h with waits := h.waits.flags true s.timedOut }
  | deadline => exact { h with waits := h.waits.flags s.callerCancelled true }

theorem inv_run (p : Platform) (opts : DownloadOptions) (url : Text) (before : Option (List Nat))
    (events : List Event) :
    Inv p opts before (run (step p opts) (downloadFile p opts url before) events) :=
  List.foldlRecOn events (step p opts) (inv_downloadFile p opts url before)
    fun _ h event _ => inv_step h event

/-! ### What a download leaves -/

theorem fail_phase (error : Text) : (s.fail error).phase ≠ .settled .aggregate :=
  fun h => by cases h

theorem request_phase (hop : Nat) (url : Url) : (s.request hop url).phase ≠ .settled .aggregate :=
  fun h => by cases h

/-- Only a removal that fails ends in the `AggregateError`. -/
theorem aggregate_step {event : Event} (h : (step p opts s event).phase = .settled .aggregate) :
    s.phase = .settled .aggregate ∨ event = .removed false := by
  cases event with
  | opened failure => grind [step, Download.opened, request_phase]
  | responded response => grind [step, Download.responded, Download.accept, fail_phase]
  | discarded =>
    rw [step, Download.discarded] at h
    grind [request_phase, fail_phase]
  | transform chunk => grind [step, Download.transform, fail_phase]
  | wrote n => grind [step, Download.wrote]
  | ended => grind [step, Download.ended]
  | broken error => grind [step, Download.broken, fail_phase]
  | piped failure =>
    rw [step, Download.piped.eq_def] at h
    cases failure <;> grind [fail_phase]
  | closed => grind [step, Download.closed]
  | removed ok => grind [step, Download.removed]
  | aborted => exact .inl h
  | deadline => exact .inl h

/-- What holds of every download at every moment. -/
structure Delivered (p : Platform) (opts : DownloadOptions) (before : Option (List Nat))
    (events : List Event) (s : Download) : Prop where
  safe : ∀ url ∈ s.requests, SafeUrl p opts url
  six : s.requests.length ≤ 6
  resolved : s.phase = .settled .resolved →
    before = none ∧ s.dest = some s.body ∧ (s.body.length : Int) ≤ opts.maxBytes
  rejected : ∀ error, s.phase = .settled (.rejected error) → s.created = true → s.dest = none
  aggregate : s.phase = .settled .aggregate → .removed false ∈ events
  kept : ∀ content, before = some content → s.dest = some content

theorem aggregate_run (events : List Event)
    (h : (run (step p opts) s events).phase = .settled .aggregate) :
    s.phase = .settled .aggregate ∨ .removed false ∈ events := by
  induction events generalizing s with
  | nil => exact .inl h
  | cons event events ih =>
    obtain hstep | hmem := ih h
    · obtain hphase | rfl := aggregate_step hstep
      · exact .inl hphase
      · exact .inr (List.mem_cons_self ..)
    · exact .inr (List.mem_cons_of_mem _ hmem)

/-- Every download, whatever the servers answer and whenever it is cancelled or its time is over, asks
only safe addresses, at most six; it resolves only over a new file that holds the body within the
limit; it leaves no file when it rejects, but for the removal's own failure; and it never touches a
file that was there. -/
theorem download_complete_or_gone (p : Platform) (opts : DownloadOptions) (url : Text)
    (before : Option (List Nat)) (events : List Event) :
    Delivered p opts before events
      (run (step p opts) (downloadFile p opts url before) events) := by
  have hinv := inv_run p opts url before events
  refine ⟨hinv.safe, hinv.few, fun hphase => ?_, fun error hphase => hinv.waits_of hphase, fun hphase => ?_,
    fun content hbefore => ?_⟩
  · have hcomplete : Complete opts _ := hinv.waits_of hphase
    exact ⟨hinv.new hcomplete.created, hcomplete.dest, hcomplete.bounded⟩
  · obtain hstart | hmem := aggregate_run events hphase
    · have hwaits : _ = true := (inv_downloadFile p opts url before).waits_of hstart
      cases hwaits
    · exact hmem
  · rw [← hbefore]
    refine hinv.kept (Bool.eq_false_iff.mpr fun hcreated => ?_)
    rw [hinv.new hcreated] at hbefore
    cases hbefore

/-- A platform that knows one address. -/
def oneAddress : Platform where
  parse raw :=
    if raw = js "https://github.com/a" then some ⟨js "https:", [], [], [], js "github.com"⟩ else none
  resolve _ _ := none
  isIP _ := false
  lower := id

def unremovable : List Event := [.opened none, .broken (js "fetch failed"), .closed, .removed false]

/-- The removal fails, and the download rejects with its file still there. -/
theorem unremovable_file_stays :
    (run (step oneAddress ⟨100, 1000, none⟩)
      (downloadFile oneAddress ⟨100, 1000, none⟩ (js "https://github.com/a") none)
      unremovable).phase = .settled .aggregate ∧
    (run (step oneAddress ⟨100, 1000, none⟩)
      (downloadFile oneAddress ⟨100, 1000, none⟩ (js "https://github.com/a") none)
      unremovable).created = true ∧
    (run (step oneAddress ⟨100, 1000, none⟩)
      (downloadFile oneAddress ⟨100, 1000, none⟩ (js "https://github.com/a") none)
      unremovable).dest = some [] := by
  decide

end BoredManager.Server.Downloads
