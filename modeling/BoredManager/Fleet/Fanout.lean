import BoredManager.Js.Bytes
import BoredManager.Shared.Hostname

/-! The fan-out to a fleet: the jump host prints one frame for every machine of a batch, and
the frames are read back line by line. -/
namespace BoredManager.Fleet
open BoredManager.Js
open BoredManager.Shared (lowerUnit)

/-- What one target left on the jump host. The file of the exit code may be missing. -/
structure Machine where
  ip : Text
  exitFile : Option Bytes
  stdout : Bytes
  stderr : Bytes

structure FanoutResult where
  ip : Text
  rc : Int
  stdout : Text
  stderr : Text
deriving DecidableEq

structure ExecResult where
  stdout : Text
  stderr : Text

inductive Reach where
  | ok | auth | refused | unreachable | timeout | hostkey | noSshpass | error
deriving DecidableEq

namespace FRAME
def host : Text := js "===BMHOST==="
def rc : Text := js "===BMRC==="
def out : Text := js "===BMOUT==="
def err : Text := js "===BMERR==="
end FRAME

/-- `$(…)`: the shell drops null bytes, and the line feeds at the end. -/
def substituted (bytes : Bytes) : Bytes :=
  ((bytes.filter (· ≠ 0)).reverse.dropWhile (· == 10)).reverse

/-- `$(cat "$d/r-$ip" 2>/dev/null || echo 255)` -/
def Machine.exitText (m : Machine) : Bytes :=
  match m.exitFile with
  | some file => substituted file
  | none => js "255"

/-- One turn of the report loop of `FANOUT_SCRIPT`. -/
def printFrame (m : Machine) : Bytes :=
  js "===BMHOST===\n" ++ m.ip ++ js "\n===BMRC===\n" ++ m.exitText ++ js "\n===BMOUT===\n" ++
    m.stdout ++ js "===BMERR===\n" ++ m.stderr.take 2000 ++ js "\n"

def report (batch : List Machine) : Bytes := batch.flatMap printFrame

/-- `Number.parseInt(text, 10)` of a text without blanks around it; `none` is `NaN`. -/
def parseInt (text : Text) : Option Int :=
  let (negative, rest) := Number.splitSign text
  (Number.radixValue 10 (rest.takeWhile isDigit)).map fun n => if negative then -(n : Int) else n

structure Current where
  ip : Text
  rc : Int
  body : List Text
  err : List Text

inductive Target where
  | none | rc | out | err

structure Frames where
  out : List FanoutResult
  current : Option Current
  target : Target

def Current.fresh : Current := ⟨[], 255, [], []⟩

def Current.result (c : Current) : FanoutResult :=
  ⟨c.ip, c.rc, join [10] c.body, trim (join [10] c.err)⟩

/-- `flush()` -/
def Frames.flush (f : Frames) : List FanoutResult :=
  f.out ++ (f.current.map Current.result).toList

/-- A line that is no marker goes where the last marker said. -/
def put (line : Text) : Current × Target → Current × Target
  | (c, .none) => ({ c with ip := trim line }, .none)
  | (c, .rc) => ({ c with rc := (parseInt (trim line)).getD 0 }, .rc)
  | (c, .out) => ({ c with body := c.body ++ [line] }, .out)
  | (c, .err) => ({ c with err := c.err ++ [line] }, .err)

/-- A line inside a frame. -/
def readInside (p : Current × Target) (line : Text) : Current × Target :=
  if line = FRAME.rc then (p.1, .rc)
  else if line = FRAME.out then (p.1, .out)
  else if line = FRAME.err then (p.1, .err)
  else put line p

def readLine (f : Frames) (line : Text) : Frames :=
  if line = FRAME.host then ⟨f.flush, some .fresh, .none⟩
  else match f.current with
    | none => f
    | some current =>
      let (current, target) := readInside (current, f.target) line
      { f with current := some current, target := target }

def lines (text : Text) : List Text := text.splitOn 10

def parseFrames (stdout : Text) : List FanoutResult :=
  ((lines stdout).foldl readLine ⟨[], none, .none⟩).flush

/-- The answer of one target of a batch: the last frame under its address, or a timeout. -/
def answerOf (res : ExecResult) (ip : Text) : FanoutResult :=
  ((parseFrames res.stdout).findRev? (·.ip == ip)).getD
    ⟨ip, 124, [], if res.stderr.take 400 = [] then js "no answer inside the sweep timeout"
      else res.stderr.take 400⟩

/-- The answer of one target once the command of its batch ran to its end. -/
def answerIn (batch : List Machine) (stderr : Text) (target : Machine) : FanoutResult :=
  answerOf ⟨utf8Text (report batch), stderr⟩ target.ip

/-- `runFanout` on one batch. -/
def runBatch (batch : List Machine) (stderr : Text) : List FanoutResult :=
  batch.map (answerIn batch stderr)

/-- The tests of `classifyReach` on ssh's own complaint, in order. -/
def complaints : List (Reach × List Text) :=
  [(.auth, [js "permission denied", js "authentication fail", js "too many authentication"]),
    (.hostkey, [js "host key verification failed", js "remote host identification has changed"]),
    (.refused, [js "connection refused"]),
    (.unreachable, [js "no route to host", js "network is unreachable",
      js "name or service not known", js "could not resolve"]),
    (.timeout, [js "connection timed out", js "operation timed out", js "timeout"])]

def includes (text part : Text) : Bool := text.tails.any part.isPrefixOf

def classifyReach (result : FanoutResult) : Reach :=
  let err := result.stderr.map lowerUnit
  if result.rc = 0 then .ok
  else if result.rc = 124 then .timeout
  else if result.rc = 127 then .noSshpass
  else match complaints.find? fun c => c.2.any (includes err) with
    | some complaint => complaint.1
    | none =>
      if result.rc = 5 then .auth
      else if result.rc = 6 ∨ result.rc = 7 then .hostkey
      else if result.rc = 255 then .unreachable
      else .error

end BoredManager.Fleet
