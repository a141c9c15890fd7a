import BoredManager.Js.Number
import BoredManager.Js.Totals
import BoredManager.Machine.Runs
import BoredManager.Shared.Shell

/-! The sockets of a machine as `ss` prints them, and the bytes that each sample of them adds to the
session totals of the processes. -/
namespace BoredManager.Network.Traffic
open BoredManager.Js
open BoredManager.Shared (splitSections)

def maxConnections : Nat := 2000

structure SsRecord where
  proto : Text
  state : Text
  «local» : Text
  peer : Text
  pid : Option Nat
  process : Text
  bytesAcked : Option Nat
  bytesReceived : Option Nat

/-! ### Reading the output of `ss` -/

/-- What stands behind a literal text. -/
def behind (literal s : Text) : Option Text :=
  if literal.isPrefixOf s then some (s.drop literal.length) else none

/-- `(\d+)` -/
def digits (s : Text) : Option Nat := Number.radixValue 10 (s.takeWhile isDigit)

/-- `/users:\(\("([^"]*)",pid=(\d+)/`, at the start of a text. -/
def usersHere (s : Text) : Option (Text × Nat) := do
  let name ← behind (js "users:((\"") s
  let rest ← behind (js "\",pid=") (name.dropWhile (· != 34))
  let pid ← digits rest
  return (name.takeWhile (· != 34), pid)

def users (rec : Text) : Option (Text × Nat) := rec.tails.findSome? usersHere

/-- `/bytes_acked:(\d+)/` and `/bytes_received:(\d+)/` -/
def counter (name rec : Text) : Option Nat :=
  rec.tails.findSome? fun s => (behind name s).bind digits

/-- `/^(tcp|udp)\s/` -/
def startsRecord (line : Text) : Bool :=
  ((behind (js "tcp") line).or (behind (js "udp") line)).any fun rest => rest.head?.any isSpace

/-- A wrapped line goes behind the record before it. -/
def foldLine (records : List Text) (line : Text) : List Text :=
  if trim line = [] then records
  else if startsRecord line then records ++ [line]
  else records.dropLast ++ (records.getLast?.map (· ++ 32 :: trim line)).toList

def recordTexts (text : Text) : List Text := (text.splitOnP (· == 10)).foldl foldLine []

def parseRecord (rec : Text) : Option SsRecord :=
  match splitRuns isSpace (trim rec) with
  | proto :: state :: _ :: _ :: loc :: peer :: _ => some {
      proto, state, «local» := loc, peer
      pid := (users rec).map Prod.snd
      process := ((users rec).map Prod.fst).getD []
      bytesAcked := counter (js "bytes_acked:") rec
      bytesReceived := counter (js "bytes_received:") rec }
  | _ => none

/-- Only so many records are read. -/
def parseSs (text : Text) : List SsRecord :=
  ((recordTexts text).take (maxConnections * 2)).filterMap parseRecord

def socketKey (r : SsRecord) : Text := r.proto ++ 124 :: r.local ++ 124 :: r.peer

/-! ### The session totals -/

inductive Direction where
  | rx
  | tx
  deriving DecidableEq

structure ConnPrev where
  acked : Nat
  received : Nat
  deriving DecidableEq

def ConnPrev.bytes (c : ConnPrev) : Direction → Nat
  | .rx => c.received
  | .tx => c.acked

structure Usage where
  process : Text
  rx : Nat
  tx : Nat
  deriving DecidableEq

def Usage.bytes (u : Usage) : Direction → Nat
  | .rx => u.rx
  | .tx => u.tx

def noProcess : Text := js "(no process info)"

structure NetworkService where
  prevT : Nat
  prevConn : OrderedMap Text ConnPrev
  sessionByPid : OrderedMap Int Usage

def NetworkService.reset : NetworkService := ⟨0, .empty, .empty⟩

/-- The counters of a record that has one at least; a missing one counts as 0. -/
def SsRecord.counters (r : SsRecord) : Option ConnPrev :=
  if r.bytesAcked.isSome || r.bytesReceived.isSome then
    some ⟨r.bytesAcked.getD 0, r.bytesReceived.getD 0⟩
  else none

/-- `rxDelta` and `txDelta` of one record. -/
def NetworkService.delta (s : NetworkService) (r : SsRecord) (d : Direction) : Nat :=
  match r.counters, s.prevConn.get? (socketKey r) with
  | some now, some prev => if s.prevT = 0 then 0 else now.bytes d - prev.bytes d
  | _, _ => 0

def addDelta (pidDeltas : OrderedMap Int Usage) (r : SsRecord) (rxDelta txDelta : Nat) :
    OrderedMap Int Usage :=
  if rxDelta = 0 ∧ txDelta = 0 then pidDeltas
  else
    let pid : Int := (r.pid.map Int.ofNat).getD (-1)
    let d := (pidDeltas.get? pid).getD ⟨if r.process = [] then noProcess else r.process, 0, 0⟩
    pidDeltas.set pid ⟨if r.process = [] then d.process else r.process, d.rx + rxDelta, d.tx + txDelta⟩

/-- What the loop through the records builds. -/
structure Tally where
  nextConnPrev : OrderedMap Text ConnPrev
  pidDeltas : OrderedMap Int Usage

def NetworkService.read (s : NetworkService) (tally : Tally) (r : SsRecord) : Tally where
  nextConnPrev := r.counters.elim tally.nextConnPrev (tally.nextConnPrev.set (socketKey r))
  pidDeltas := addDelta tally.pidDeltas r (s.delta r .rx) (s.delta r .tx)

def addSession (sessions : OrderedMap Int Usage) (e : Int × Usage) : OrderedMap Int Usage :=
  let s := (sessions.get? e.1).getD ⟨e.2.process, 0, 0⟩
  sessions.set e.1 ⟨if e.2.process ≠ [] ∧ e.2.process ≠ noProcess then e.2.process else s.process,
    s.rx + e.2.rx, s.tx + e.2.tx⟩

/-- The socket section of a sample's output. -/
def ssSection (stdout : Text) : Text := ((splitSections stdout).get? (js "SS")).getD []

def NetworkService.sample (s : NetworkService) (t : Nat) (code : Int) (stdout : Text) :
    NetworkService :=
  if code ≠ 0 ∧ stdout = [] then s
  else
    let tally := (parseSs (ssSection stdout)).foldl s.read ⟨.empty, .empty⟩
    { prevT := t
      prevConn := tally.nextConnPrev
      sessionByPid := tally.pidDeltas.entries.foldl addSession s.sessionByPid }

end BoredManager.Network.Traffic

/-! What the session totals add up to: the increases of the sockets that two samples in a row list,
as long as no socket is listed twice while its counters move. -/
namespace BoredManager.Network.Traffic
open BoredManager.Js BoredManager.Js.OrderedMap BoredManager.Machine
open BoredManager.Shared (splitSections)

variable {s : NetworkService} {d : Direction}

/-! ### What the samples say -/

/-- Every record of an output, those included that are not read. -/
def allRecords (text : Text) : List SsRecord := (recordTexts text).filterMap parseRecord

/-- The lines that carry a counter, each with its socket. -/
def counted (records : List SsRecord) : List (Text × ConnPrev) :=
  records.filterMap fun r => r.counters.map (socketKey r, ·)

/-- The counters of each socket that is listed with one; its last line has them. -/
def readings (records : List SsRecord) : OrderedMap Text ConnPrev := ofList (counted records)

/-- What a socket's counter went up since the previous sample, where that one has it. -/
def increase (previous : OrderedMap Text ConnPrev) (d : Direction) (e : Text × ConnPrev) : Nat :=
  ((previous.get? e.1).map fun prev => e.2.bytes d - prev.bytes d).getD 0

/-- The bytes that the sockets listed in both samples moved. -/
def advance (previous now : List SsRecord) (d : Direction) : Nat :=
  total (increase (readings previous) d) (readings now)

/-- No line with a counter is left unread. -/
def AllRead (text : Text) : Prop :=
  ∀ r ∈ ((recordTexts text).drop (maxConnections * 2)).filterMap parseRecord, r.counters = none

def sessionTotal (s : NetworkService) (d : Direction) : Nat :=
  total (fun e => e.2.bytes d) s.sessionByPid

/-- A process keeps what it has. -/
def Kept (before after : OrderedMap Int Usage) : Prop :=
  ∀ pid u, before.get? pid = some u → ∃ v, after.get? pid = some v ∧ ∀ d, u.bytes d ≤ v.bytes d

/-! ### Runs -/

inductive Event where
  | sampled (t : Nat) (code : Int) (stdout : Text)
  | reset

/-- The service, and beside it the previous sample's sockets and, for each socket, the bytes that
were added for it and those that its counters advanced. -/
structure Ledger where
  service : NetworkService
  previous : Text
  contributed : Text → Direction → Nat
  advanced : Text → Direction → Nat

def start : Ledger := ⟨.reset, [], fun _ _ => 0, fun _ _ => 0⟩

def Ledger.sampled (w : Ledger) (t : Nat) (code : Int) (stdout : Text) : Ledger where
  service := w.service.sample t code stdout
  previous := ssSection stdout
  contributed key d := w.contributed key d +
    (((parseSs (ssSection stdout)).filter fun r => socketKey r = key).map (w.service.delta · d)).sum
  advanced key d := w.advanced key d +
    amount (increase (readings (parseSs w.previous)) d) (readings (parseSs (ssSection stdout))) key

def step (w : Ledger) : Event → Ledger
  | .sampled t code stdout => if code ≠ 0 ∧ stdout = [] then w else w.sampled t code stdout
  | .reset => start

/-- What one sample does to the totals. -/
structure Adds (w : Ledger) (stdout : Text) (after : NetworkService) : Prop where
  sums : ∀ d, sessionTotal after d = sessionTotal w.service d +
    if w.service.prevT = 0 then 0 else advance (parseSs w.previous) (parseSs (ssSection stdout)) d
  all : AllRead w.previous → AllRead (ssSection stdout) → ∀ d, sessionTotal after d =
    sessionTotal w.service d +
      if w.service.prevT = 0 then 0 else advance (allRecords w.previous) (allRecords (ssSection stdout)) d
  kept : Kept w.service.sessionByPid after.sessionByPid
  missing : (splitSections stdout).has (js "SS") = false →
    after.sessionByPid = w.service.sessionByPid ∧ after.prevConn = .empty

def AddsUp (w : Ledger) : Event → Prop
  | .sampled t code stdout =>
    ¬(code ≠ 0 ∧ stdout = []) → Adds w stdout (w.service.sample t code stdout)
  | .reset => True

/-- A line that a later line of its socket follows shows no increase. -/
def Clean (w : Ledger) : Event → Prop
  | .sampled _ code stdout => ¬(code ≠ 0 ∧ stdout = []) → w.service.prevT ≠ 0 →
    ∀ d, OnlyLast (increase (readings (parseSs w.previous)) d) (counted (parseSs (ssSection stdout)))
  | .reset => True

/-- What the sample compares with is what the previous one listed. -/
def Synced (w : Ledger) : Prop := w.service.prevConn = readings (parseSs w.previous)

/-! ### One sample -/

/-- Bytes put on top of what a process has are added to the total. -/
theorem total_set_add (m : OrderedMap Int Usage) (pid : Int) (process : Text) {v : Usage} {n : Nat}
    (h : v.bytes d = ((m.get? pid).getD ⟨process, 0, 0⟩).bytes d + n) :
    total (fun e => e.2.bytes d) (m.set pid v) = total (fun e => e.2.bytes d) m + n := by
  have hold : ((m.get? pid).getD ⟨process, 0, 0⟩).bytes d =
      amount (fun e : Int × Usage => e.2.bytes d) m pid := by
    rw [amount]
    cases m.get? pid with
    | none => cases d <;> rfl
    | some u => rfl
  have hset : total (fun e => e.2.bytes d) (m.set pid v) + amount (fun e => e.2.bytes d) m pid =
      total (fun e => e.2.bytes d) m + v.bytes d := total_set _ m pid v
  rw [← hold] at hset
  omega

/-- The `rx` or the `tx` amount of a pair of amounts. -/
def Direction.of (rx tx : Nat) : Direction → Nat
  | .rx => rx
  | .tx => tx

theorem total_addDelta (m : OrderedMap Int Usage) (r : SsRecord) (rx tx : Nat) :
    total (fun e => e.2.bytes d) (addDelta m r rx tx) =
      total (fun e => e.2.bytes d) m + d.of rx tx := by
  by_cases hzero : rx = 0 ∧ tx = 0
  · rw [addDelta, if_pos hzero]
    cases d
    · rw [Direction.of, hzero.1, Nat.add_zero]
    · rw [Direction.of, hzero.2, Nat.add_zero]
  · rw [addDelta, if_neg hzero]
    refine total_set_add m _ (if r.process = [] then noProcess else r.process) ?_
    cases d <;> rfl

theorem total_pidDeltas (records : List SsRecord) (tally : Tally) :
    total (fun e => e.2.bytes d) (records.foldl s.read tally).pidDeltas =
      total (fun e => e.2.bytes d) tally.pidDeltas + (records.map (s.delta · d)).sum := by
  induction records generalizing tally with
  | nil => rfl
  | cons r records ih =>
    have hone : total (fun e => e.2.bytes d) (s.read tally r).pidDeltas =
        total (fun e => e.2.bytes d) tally.pidDeltas + s.delta r d := by
      rw [NetworkService.read, total_addDelta]
      cases d <;> rfl
    rw [List.foldl_cons, ih, hone, List.map_cons, List.sum_cons, Nat.add_assoc]

theorem nextConnPrev_foldl (records : List SsRecord) (tally : Tally) :
    (records.foldl s.read tally).nextConnPrev =
      (counted records).foldl (fun m e => m.set e.1 e.2) tally.nextConnPrev := by
  induction records generalizing tally with
  | nil => rfl
  | cons r records ih =>
    rw [List.foldl_cons, ih]
    cases hr : r.counters with
    | none =>
      have hnext : (s.read tally r).nextConnPrev = tally.nextConnPrev := by
        simp only [NetworkService.read, hr, Option.elim]
      have hcounted : counted (r :: records) = counted records := by
        rw [counted, List.filterMap_cons_none (by rw [hr]; rfl), counted]
      rw [hnext, hcounted]
    | some c =>
      have hnext : (s.read tally r).nextConnPrev = tally.nextConnPrev.set (socketKey r) c := by
        simp only [NetworkService.read, hr, Option.elim]
      have hcounted : counted (r :: records) = (socketKey r, c) :: counted records := by
        rw [counted, List.filterMap_cons_some (by rw [hr]; rfl), counted]
      rw [hnext, hcounted, List.foldl_cons]

/-- The map of previous counters is what the sample listed. -/
theorem prevConn_sample {code : Int} {stdout : Text} (h : ¬(code ≠ 0 ∧ stdout = [])) (t : Nat) :
    (s.sample t code stdout).prevConn = readings (parseSs (ssSection stdout)) := by
  rw [NetworkService.sample, if_neg h]
  exact nextConnPrev_foldl _ _

theorem total_addSession (sessions : OrderedMap Int Usage) (e : Int × Usage) :
    total (fun e => e.2.bytes d) (addSession sessions e) =
      total (fun e => e.2.bytes d) sessions + e.2.bytes d := by
  refine total_set_add sessions _ e.2.process ?_
  cases d <;> rfl

theorem total_foldl_addSession (l : List (Int × Usage)) (sessions : OrderedMap Int Usage) :
    total (fun e => e.2.bytes d) (l.foldl addSession sessions) =
      total (fun e => e.2.bytes d) sessions + (l.map fun e => e.2.bytes d).sum := by
  induction l generalizing sessions with
  | nil => rfl
  | cons e l ih =>
    rw [List.foldl_cons, ih, total_addSession, List.map_cons, List.sum_cons, Nat.add_assoc]

/-- A sample adds the deltas of its records. -/
theorem sessionTotal_sample {code : Int} {stdout : Text} (h : ¬(code ≠ 0 ∧ stdout = [])) (t : Nat) :
    sessionTotal (s.sample t code stdout) d =
      sessionTotal s d + ((parseSs (ssSection stdout)).map (s.delta · d)).sum := by
  rw [NetworkService.sample, if_neg h, sessionTotal]
  have hpids := total_pidDeltas (s := s) (d := d) (parseSs (ssSection stdout)) ⟨.empty, .empty⟩
  rw [total_empty, Nat.zero_add] at hpids
  rw [total_foldl_addSession, ← hpids]
  rfl

/-- A record's delta is its socket's increase, if it has a counter and time has passed. -/
theorem delta_eq (s : NetworkService) (r : SsRecord) (d : Direction) : s.delta r d =
    if s.prevT = 0 then 0
    else (r.counters.map fun c => increase s.prevConn d (socketKey r, c)).getD 0 := by
  rw [NetworkService.delta]
  cases r.counters with
  | none => simp
  | some c =>
    simp only [increase, Option.map_some, Option.getD_some]
    cases s.prevConn.get? (socketKey r) with
    | none => simp
    | some prev => rfl

theorem sum_delta (hT : s.prevT ≠ 0) (records : List SsRecord) (P : Text → Bool) :
    ((records.filter fun r => P (socketKey r)).map (s.delta · d)).sum =
      ((counted records).map fun e => if P e.1 then increase s.prevConn d e else 0).sum := by
  induction records with
  | nil => rfl
  | cons r records ih =>
    have hr := delta_eq s r d
    rw [if_neg hT] at hr
    cases hc : r.counters with
    | none =>
      have hcounted : counted (r :: records) = counted records := by
        rw [counted, List.filterMap_cons_none (by rw [hc]; rfl), counted]
      rw [hc] at hr
      rw [hcounted, ← ih, List.filter_cons]
      split_ifs
      · rw [List.map_cons, List.sum_cons, hr]
        exact Nat.zero_add _
      · rfl
    | some c =>
      have hcounted : counted (r :: records) = (socketKey r, c) :: counted records := by
        rw [counted, List.filterMap_cons_some (by rw [hc]; rfl), counted]
      rw [hc] at hr
      rw [hcounted, List.map_cons, List.sum_cons, ← ih, List.filter_cons]
      split_ifs with hP
      · rw [List.map_cons, List.sum_cons, hr]
        rfl
      · exact (Nat.zero_add _).symm

/-- Without a previous sample nothing is added. -/
theorem sum_delta_zero (hT : s.prevT = 0) (records : List SsRecord) :
    (records.map (s.delta · d)).sum = 0 := by
  rw [List.sum_eq_zero_iff_forall_eq_nat]
  intro n hn
  obtain ⟨r, -, rfl⟩ := List.mem_map.mp hn
  rw [delta_eq, if_pos hT]

theorem counted_of_allRead {text : Text} (h : AllRead text) :
    counted (allRecords text) = counted (parseSs text) := by
  have hcut := List.take_append_drop (maxConnections * 2) (recordTexts text)
  have hrest : counted (((recordTexts text).drop (maxConnections * 2)).filterMap parseRecord) = [] := by
    rw [counted, List.filterMap_eq_nil_iff]
    intro r hr
    rw [h r hr]
    rfl
  calc counted (allRecords text)
      = counted (parseSs text ++
          ((recordTexts text).drop (maxConnections * 2)).filterMap parseRecord) := by
        rw [allRecords, parseSs, ← List.filterMap_append, hcut]
    _ = counted (parseSs text) := by
        rw [counted, List.filterMap_append, ← counted, ← counted, hrest, List.append_nil]

theorem advance_of_allRead {previous now : Text} (hprev : AllRead previous) (hnow : AllRead now) :
    advance (allRecords previous) (allRecords now) d = advance (parseSs previous) (parseSs now) d := by
  rw [advance, advance, readings, readings, readings, readings, counted_of_allRead hprev,
    counted_of_allRead hnow]

theorem kept_addSession (sessions : OrderedMap Int Usage) (e : Int × Usage) :
    Kept sessions (addSession sessions e) := by
  intro pid u hu
  rw [addSession, get?_set]
  by_cases hpid : pid = e.1
  · subst hpid
    rw [if_pos rfl, hu]
    refine ⟨_, rfl, fun d => ?_⟩
    cases d
    · exact Nat.le_add_right u.rx e.2.rx
    · exact Nat.le_add_right u.tx e.2.tx
  · rw [if_neg hpid]
    exact ⟨u, hu, fun d => Nat.le_refl _⟩

theorem kept_foldl_addSession (l : List (Int × Usage)) (sessions : OrderedMap Int Usage) :
    Kept sessions (l.foldl addSession sessions) := by
  induction l generalizing sessions with
  | nil => exact fun pid u hu => ⟨u, hu, fun d => Nat.le_refl _⟩
  | cons e l ih =>
    intro pid u hu
    obtain ⟨v, hv, huv⟩ := kept_addSession sessions e pid u hu
    obtain ⟨w, hw, hvw⟩ := ih (addSession sessions e) pid v hv
    exact ⟨w, hw, fun d => Nat.le_trans (huv d) (hvw d)⟩

theorem kept_sample (s : NetworkService) (t : Nat) (code : Int) (stdout : Text) :
    Kept s.sessionByPid (s.sample t code stdout).sessionByPid := by
  rw [NetworkService.sample]
  split_ifs
  · exact fun pid u hu => ⟨u, hu, fun d => Nat.le_refl _⟩
  · exact kept_foldl_addSession _ _

/-- Without a socket section nothing is added, and nothing is left to compare with. -/
theorem sample_missing {code : Int} {stdout : Text} (h : ¬(code ≠ 0 ∧ stdout = [])) (t : Nat)
    (hmissing : (splitSections stdout).has (js "SS") = false) :
    (s.sample t code stdout).sessionByPid = s.sessionByPid ∧
      (s.sample t code stdout).prevConn = .empty := by
  have hsection : ssSection stdout = [] := by
    rw [has, Option.isSome_eq_false_iff, Option.isNone_iff_eq_none] at hmissing
    rw [ssSection, hmissing]
    rfl
  rw [NetworkService.sample, if_neg h, hsection]
  exact ⟨rfl, rfl⟩

variable {w : Ledger} {code : Int} {stdout : Text}

/-- The sum over the lines is the sum over the sockets exactly if no line is counted that a later
one of its socket follows. -/
theorem sums_iff (hsync : Synced w) (h : ¬(code ≠ 0 ∧ stdout = [])) (t : Nat) :
    (sessionTotal (w.service.sample t code stdout) d = sessionTotal w.service d +
      if w.service.prevT = 0 then 0 else advance (parseSs w.previous) (parseSs (ssSection stdout)) d) ↔
    (w.service.prevT ≠ 0 →
      OnlyLast (increase (readings (parseSs w.previous)) d) (counted (parseSs (ssSection stdout)))) := by
  rw [sessionTotal_sample h, Nat.add_left_cancel_iff]
  by_cases hT : w.service.prevT = 0
  · rw [if_pos hT, sum_delta_zero hT]
    exact iff_of_true rfl fun hne => absurd hT hne
  · have hsum := sum_delta (d := d) hT (parseSs (ssSection stdout)) fun _ => true
    have hfilter : (parseSs (ssSection stdout)).filter (fun _ => true) = parseSs (ssSection stdout) :=
      List.filter_eq_self.mpr fun _ _ => rfl
    rw [hfilter, hsync] at hsum
    rw [if_neg hT, hsum, advance, eq_comm]
    have hlast := (total_ofList (increase (readings (parseSs w.previous)) d)
      (counted (parseSs (ssSection stdout)))).2
    exact hlast.trans ⟨fun ho _ => ho, fun ho => ho hT⟩

theorem addsUp_iff_clean (hsync : Synced w) (event : Event) : AddsUp w event ↔ Clean w event := by
  cases event with
  | reset => exact Iff.rfl
  | sampled t code stdout =>
    constructor
    · intro hadds h hT d
      exact (sums_iff hsync h t).mp ((hadds h).sums d) hT
    · intro hclean h
      have hsums := fun d => (sums_iff hsync h t).mpr fun hT => hclean h hT d
      refine ⟨hsums, fun hprev hnow d => ?_, kept_sample _ _ _ _, sample_missing h t⟩
      rw [advance_of_allRead hprev hnow]
      exact hsums d

theorem synced_step (w : Ledger) (event : Event) (hsync : Synced w) : Synced (step w event) := by
  cases event with
  | reset => rfl
  | sampled t code stdout =>
    rw [step]
    split_ifs with h
    · exact hsync
    · exact prevConn_sample h t

/-- No socket has contributed more than its counters advanced. -/
def Covered (w : Ledger) : Prop := ∀ key d, w.contributed key d ≤ w.advanced key d

/-- One socket's lines contribute no more than its increase. -/
theorem contribution_le (hsync : Synced w) (hclean : Clean w (.sampled 0 code stdout))
    (h : ¬(code ≠ 0 ∧ stdout = [])) (key : Text) (d : Direction) :
    (((parseSs (ssSection stdout)).filter fun r => socketKey r = key).map (w.service.delta · d)).sum ≤
      amount (increase (readings (parseSs w.previous)) d) (readings (parseSs (ssSection stdout))) key := by
  by_cases hT : w.service.prevT = 0
  · rw [sum_delta_zero hT]
    exact Nat.zero_le _
  · have hsum := sum_delta (d := d) hT (parseSs (ssSection stdout)) fun k => decide (k = key)
    rw [hsync] at hsum
    simp only [decide_eq_true_eq] at hsum
    have hone : OnlyLast
        (fun e => if e.1 = key then increase (readings (parseSs w.previous)) d e else 0)
        (counted (parseSs (ssSection stdout))) := by
      refine (hclean h hT d).imp fun hzero hkey => ?_
      dsimp only
      split_ifs
      · exact hzero hkey
      · rfl
    rw [hsum, ← (total_ofList _ _).2.mpr hone, total_single]
    exact Nat.le_refl _

theorem covered_step (w : Ledger) (event : Event) (hw : Synced w ∧ Covered w)
    (hclean : Clean w event) : Synced (step w event) ∧ Covered (step w event) := by
  refine ⟨synced_step w event hw.1, ?_⟩
  cases event with
  | reset => exact fun key d => Nat.le_refl 0
  | sampled t code stdout =>
    rw [step]
    split_ifs with h
    · exact hw.2
    · exact fun key d => Nat.add_le_add (hw.2 key d) (contribution_le hw.1 hclean h key d)

theorem synced_run (events : List Event) : Synced (run step start events) :=
  List.foldlRecOn events step rfl fun w hw event _ => synced_step w event hw

/-- In every run each sample adds what the sockets of both samples moved, no process loses bytes and
no socket gives more than its counters advanced, exactly if no sample lists a socket again behind a
line of it that shows an increase. -/
theorem traffic_adds_up_iff (events : List Event) :
    Guarded step Clean start events ↔
      (∀ before event more, before ++ event :: more = events →
        AddsUp (run step start before) event) ∧
      ∀ before more, before ++ more = events → Covered (run step start before) := by
  have hmoments : Guarded step Clean start events ↔ ∀ before event more,
      before ++ event :: more = events → AddsUp (run step start before) event := by
    rw [guarded_iff]
    constructor
    · intro h before event more hsplit
      exact (addsUp_iff_clean (synced_run before) event).mpr (h before event more hsplit)
    · intro h before event more hsplit
      exact (addsUp_iff_clean (synced_run before) event).mp (h before event more hsplit)
  constructor
  · intro hguard
    refine ⟨hmoments.mp hguard, fun before more hsplit => ?_⟩
    rw [← hsplit] at hguard
    exact (run_preserves covered_step (guarded_left hguard) ⟨rfl, fun key d => Nat.le_refl 0⟩).2
  · exact fun h => hmoments.mpr h.1

/-- The output of a sample in which `ss` prints one socket twice. -/
def twice (received : String) : Text :=
  js ("===SS===\ntcp ESTAB 0 0 10.0.0.2:22 10.0.0.1:5000 bytes_received:" ++ received ++
    "\ntcp ESTAB 0 0 10.0.0.2:22 10.0.0.1:5000 bytes_received:" ++ received ++ "\n")

/-- The socket's counter moved by 10 bytes, and the processes have 20 more. -/
theorem listed_twice_counts_twice :
    sessionTotal (run step start [.sampled 5 0 (twice "10"), .sampled 6 0 (twice "20")]).service .rx =
      20 ∧
    advance (parseSs (ssSection (twice "10"))) (parseSs (ssSection (twice "20"))) .rx = 10 ∧
    ¬AddsUp (run step start [.sampled 5 0 (twice "10")]) (.sampled 6 0 (twice "20")) := by
  have htotal : sessionTotal
      (run step start [.sampled 5 0 (twice "10"), .sampled 6 0 (twice "20")]).service .rx = 20 := by
    decide +kernel
  have hadvance : advance (parseSs (ssSection (twice "10"))) (parseSs (ssSection (twice "20"))) .rx =
      10 := by
    decide +kernel
  refine ⟨htotal, hadvance, fun hadds => ?_⟩
  have hsum := (hadds (by decide +kernel)).sums .rx
  exact absurd hsum (by decide +kernel)

end BoredManager.Network.Traffic
