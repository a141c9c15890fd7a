import BoredManager.Posix.Tokens
import BoredManager.Shared.Shell

/-! Commands with user data in them: `shQuote` gives the shell one word, and a command
that runs through `sudo` is quoted once more and reaches the inner shell unchanged. -/
namespace BoredManager.Server
open BoredManager.Js BoredManager.Posix
open BoredManager.Shared (shQuote)

inductive SudoState where
  | none | root | passwordless | passwordVerified
deriving DecidableEq

structure Connection where
  sudoState : SudoState
  sudoPassword : Text

namespace Connection

/-- The command line that a connected executor gets for a command as root. -/
def sudoCommand (c : Connection) (command : Text) : Text :=
  if c.sudoState = .root then command
  else if c.sudoState = .passwordVerified ∧ c.sudoPassword ≠ [] then
    js "sudo -S -p '' bash -c " ++ shQuote command
  else js "sudo -n bash -c " ++ shQuote command

/-- `execSudo(command, opts)`: the command line and the standard input. -/
def execSudo (c : Connection) (command : Text) (stdin : Option Text) : Text × Option Text :=
  (c.sudoCommand command,
    if c.sudoState = .passwordVerified ∧ c.sudoPassword ≠ [] then
      some (c.sudoPassword ++ [10] ++ stdin.getD [])
    else stdin)

/-- `streamSudo(command)`: the command line, and what is written to the stream. -/
def streamSudo (c : Connection) (command : Text) : Text × Option Text :=
  (c.sudoCommand command,
    if c.sudoState = .passwordVerified ∧ c.sudoPassword ≠ [] then some (c.sudoPassword ++ [10])
    else none)

/-- A word of letters and dashes, as the command lines have them. -/
def bareWord (s : String) : Token := .word ((js s).map fun u => (u, false))

/-- What stands before the command in the words of its command line. -/
def sudoWords (c : Connection) : List Token :=
  if c.sudoState = .passwordVerified ∧ c.sudoPassword ≠ [] then
    [bareWord "sudo", bareWord "-S", bareWord "-p", .word [], bareWord "bash", bareWord "-c"]
  else [bareWord "sudo", bareWord "-n", bareWord "bash", bareWord "-c"]

/-- The command of a command line through `sudo` is one word, the argument of `bash -c`. -/
theorem tokens_sudoCommand {c : Connection} (hroot : c.sudoState ≠ .root) (command : Text) :
    tokens (c.sudoCommand command) = some (c.sudoWords ++ [protectedWord command]) := by
  have hline : ∀ {line : Text} {before : List Token}, OutsideQuotes line → ¬InComment line →
      tokens line = some before →
      tokens (line ++ 32 :: shQuote command) = some (before ++ [protectedWord command]) := by
    intro line before hquotes hcomment hbefore
    rw [tokens_append_blank hquotes hcomment, hbefore, shQuote, tokens_singleQuote]
    rfl
  unfold sudoCommand sudoWords
  rw [if_neg hroot]
  split
  · have hsplit : js "sudo -S -p '' bash -c " = js "sudo -S -p '' bash -c" ++ [32] := by decide
    rw [hsplit, List.append_assoc]
    exact hline (by decide) (by decide) (by decide)
  · have hsplit : js "sudo -n bash -c " = js "sudo -n bash -c" ++ [32] := by decide
    rw [hsplit, List.append_assoc]
    exact hline (by decide) (by decide) (by decide)

/-- What a shell does with user data between two texts of a command, directly and under
`sudo`: the data is one word, and the words around it are those of each text alone. -/
structure Delivered (p s q : Text) : Prop where
  word : tokens (p ++ 32 :: (shQuote s ++ 32 :: q)) = (tokens p).bind fun before =>
    (tokens q).map fun after => before ++ protectedWord s :: after
  exec : ∀ (c : Connection) (stdin : Option Text), c.sudoState ≠ .root →
    tokens (c.execSudo (p ++ 32 :: (shQuote s ++ 32 :: q)) stdin).1 =
      some (c.sudoWords ++ [protectedWord (p ++ 32 :: (shQuote s ++ 32 :: q))])
  stream : ∀ c : Connection, c.sudoState ≠ .root →
    tokens (c.streamSudo (p ++ 32 :: (shQuote s ++ 32 :: q))).1 =
      some (c.sudoWords ++ [protectedWord (p ++ 32 :: (shQuote s ++ 32 :: q))])
  root : ∀ (c : Connection) (command : Text), c.sudoState = .root → c.sudoCommand command = command

/-- Outside quotes and comments a quoted text is delivered as one word. -/
theorem shQuote_delivered {p : Text} (hquotes : OutsideQuotes p) (hcomment : ¬InComment p)
    (s q : Text) : Delivered p s q where
  word := by
    rw [tokens_append_blank hquotes hcomment, shQuote, tokens_singleQuote_blank]
    congr 1
    funext before
    rw [Option.map_map]
    rfl
  exec c _ hroot := tokens_sudoCommand hroot _
  stream c hroot := tokens_sudoCommand hroot _
  root c command hroot := if_pos hroot

/-- A file name with a quote, a dollar sign and a line feed. -/
theorem shQuote_delivered_file :
    Delivered (js "cat --") (js "it's $HOME\n*") (js "| wc -l") :=
  shQuote_delivered (by decide) (by decide) _ _

/-- Behind a comment sign the quoted text is no word. -/
theorem shQuote_lost_in_comment :
    OutsideQuotes (js "#") ∧ ¬Delivered (js "#") (js "x") [] := by
  refine ⟨by decide, fun h => ?_⟩
  exact absurd h.word (by decide)

end Connection
end BoredManager.Server
