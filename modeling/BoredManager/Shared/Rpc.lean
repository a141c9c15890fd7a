import BoredManager.Js.Json

/-! The frames that a browser sends, and their validation. -/
namespace BoredManager.Shared
open BoredManager.Js

inductive RpcClientFrame where
  | invoke (id : Int) (channel : Text) (args : List Json)
  | send (channel : Text) (args : List Json)

/-- A frame that fails, with the id that is safe to echo. -/
structure RpcFrameError where
  error : Text
  id : Option Int
deriving DecidableEq

def maxChannelLength : Nat := 512
def maxArgs : Nat := 64
def invalidFrame : Text := js "invalid RPC frame"

/-- `validId`, with the id. -/
def validId : Option Json → Option Int
  | some (.num v) => v.safeInteger?.filter fun id => decide (0 < id)
  | _ => none

def channelProblem : Option Json → Option Text
  | some (.str channel) =>
    if channel.isEmpty then some (js "\"channel\" must be a non-empty string")
    else if maxChannelLength < channel.length then
      some (js "\"channel\" must be at most " ++ decimal maxChannelLength ++ js " characters")
    else none
  | _ => some (js "\"channel\" must be a non-empty string")

def argsProblem : Option Json → Option Text
  | none => none
  | some value =>
    match value.items? with
    | none => some (js "\"args\" must be an array")
    | some args =>
      if args.length ≤ maxArgs then none
      else some (js "\"args\" must contain at most " ++ decimal maxArgs ++ js " items")

/-- The text of a field that is one. -/
def textOf : Option Json → Text
  | some (.str text) => text
  | _ => []

def isKind (kind : String) : Option Json → Bool
  | some (.str text) => text == js kind
  | _ => false

def frameError (problem : Text) (id : Option Int) : RpcFrameError :=
  ⟨invalidFrame ++ js ": " ++ problem, id⟩

def parseRpcClientFrame (value : Json) : Except RpcFrameError RpcClientFrame :=
  if !value.isRecord then .error (frameError (js "expected an object") none)
  else
    let id := validId (value.field? (js "id"))
    let kind := value.field? (js "kind")
    let invoke := isKind "invoke" kind
    if !invoke && !isKind "send" kind then
      .error (frameError (js "\"kind\" must be \"invoke\" or \"send\"") id)
    else
      match invoke, id with
      | true, none => .error (frameError (js "invoke \"id\" must be a positive safe integer") none)
      | _, _ =>
        match channelProblem (value.field? (js "channel")) with
        | some problem => .error (frameError problem id)
        | none =>
          match argsProblem (value.field? (js "args")) with
          | some problem => .error (frameError problem id)
          | none =>
            let channel := textOf (value.field? (js "channel"))
            let args := ((value.field? (js "args")).bind Json.items?).getD []
            match invoke, id with
            | true, some id => .ok (.invoke id channel args)
            | _, _ => .ok (.send channel args)

/-- The id under which a frame is answered, whether it is valid or not. -/
def replyId (value : Json) : Option Int :=
  match parseRpcClientFrame value with
  | .ok (.invoke id _ _) => some id
  | .ok (.send _ _) => none
  | .error error => error.id

/-- A frame is answered under its own id. -/
theorem validId_of_replyId {value : Json} {id : Int} (h : replyId value = some id) :
    validId (value.field? (js "id")) = some id := by
  unfold replyId parseRpcClientFrame frameError at h
  dsimp only at h
  generalize value.isRecord = record at h
  generalize validId (value.field? (js "id")) = found at h ⊢
  generalize isKind "invoke" (value.field? (js "kind")) = invoke at h
  generalize isKind "send" (value.field? (js "kind")) = send at h
  generalize channelProblem (value.field? (js "channel")) = channel at h
  generalize argsProblem (value.field? (js "args")) = args at h
  cases record <;> cases invoke <;> cases send <;> cases found <;> cases channel <;>
    cases args <;> simp_all

end BoredManager.Shared
