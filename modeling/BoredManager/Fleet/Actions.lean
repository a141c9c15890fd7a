import BoredManager.Fleet.FanoutFrames
import BoredManager.Fleet.Roster

/-! An action on one machine: the steps that its payload runs, the frame that each prints, and
what the answer is taken for. -/
namespace BoredManager.Fleet.Actions
open BoredManager.Js BoredManager.Fleet.Jobs BoredManager.Fleet.Sweeps BoredManager.Fleet.Targets

inductive OkResult where
  | done (data : Option Text)
  | failed (error : Text)
deriving DecidableEq

/-- `result.ok` -/
def OkResult.isOk : OkResult → Bool
  | .done _ => true
  | .failed _ => false

/-- Why an address cannot be told to do anything. -/
def controlProblem (setup : Setup) (roster : Roster) (ip : Text) : Option Text :=
  match resolveCredential ip setup.targets with
  | none => some (ip ++ js " is not covered by any address rule")
  | some cred =>
    match roster.live.get? ip with
    | none => some (ip ++ js " has not been swept yet")
    | some live =>
      if live.reach ≠ .ok then some (ip ++ js " is not reachable: " ++ live.reachMessage)
      else match live.facts with
        | none => some (ip ++ js " has no systemd")
        | some facts =>
          if facts.systemd = false then some (ip ++ js " has no systemd")
          else if canControl facts (setup.login cred).sudoMode then none
          else if (setup.login cred).sudoMode = .none then
            some (ip ++ js " is set to use no sudo and the account is not root")
          else some (ip ++ js " needs a sudo password and none is set for it")

/-- `runNow`, with what `runFanout` came to. An address without a problem has a target. -/
def runNow (setup : Setup) (roster : Roster) (ip : Text)
    (results : Except Text (List FanoutResult)) : OkResult :=
  match controlProblem setup roster ip with
  | some problem => .failed problem
  | none =>
    match results with
    | .error message => .failed message
    | .ok [] => .failed (js "the connected machine returned nothing")
    | .ok (result :: _) =>
      if classifyReach result ≠ .ok then .failed (reachMessage (classifyReach result) result)
      else
        let done := parseSteps result.stdout
        let failed := done.filter fun step => step.rc ≠ 0
        if done = [] then .failed (js "the machine did not report back on the action")
        else if failed ≠ [] then .failed (join (js "; ") (failed.map failure))
        else
          let data := join [10] ((done.map StepResult.say).filter fun say => say ≠ [])
          .done (if data = [] then none else some data)

/-! ### What the target prints -/

/-- What a step came to on the target: its exit code, and all it printed. -/
structure Ran where
  rc : Nat
  output : Bytes

/-- `out=$(…)`, cut by `out=$(printf '%s' "$out" | head -c 600)`. -/
def Ran.said (ran : Ran) : Bytes := substituted ((substituted ran.output).take 600)

/-- A frame up to its exit code. -/
def opening (step : Step) : Bytes := js "===BMSTEP===\nname=" ++ utf8 step.name ++ js "\nrc="

/-- A frame up to its output. -/
def heading (entry : Step × Ran) : Bytes :=
  opening entry.1 ++ decimal entry.2.rc ++ js "\n===BMSAY===\n"

/-- The `printf` behind a step. -/
def printStep (entry : Step × Ran) : Bytes := heading entry ++ entry.2.said ++ js "\n"

/-- What the script prints; `runs` are the steps that it came to. -/
def stepReport (steps : List Step) (runs : List Ran) : Bytes := (steps.zip runs).flatMap printStep

/-- The marker line that begins a frame is among the lines of a text. -/
def HasMarker (text : Text) : Prop := STEP_FRAME.step ∈ lines text

instance (text : Text) : Decidable (HasMarker text) := inferInstanceAs (Decidable (_ ∈ _))

end BoredManager.Fleet.Actions
