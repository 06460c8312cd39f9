import MeshNode.Text.Integer
import MeshNode.Text.Lines

/-!
# The daemon's command line

Flags in any order, two of which take the next word as their value, whatever it looks like.
-/

namespace MeshNode.CommandLine

open MeshNode.Text

/-- What the daemon is asked to do. -/
structure DaemonArgs where
  autopeer : Bool := false
  genconf : Bool := false
  withpeers : Nat := 0
  interface : Option String := none
  help : Bool := false
deriving DecidableEq

/-- What is wrong with a command line. -/
inductive ArgsError
  | missingValue (flag : String)
  | badNumber (flag : String) (cause : IntegerError)
  | unknown (word : String)
  | peersWithoutGenconf
deriving DecidableEq

/-- The wording of an error, the cause after what it concerns. -/
def ArgsError.parts : ArgsError → List String
  | .missingValue flag => [flag ++ " requires a value"]
  | .badNumber flag cause => [flag ++ " must be a number", cause.message]
  | .unknown word => ["unknown argument: " ++ word]
  | .peersWithoutGenconf => ["--withpeers only makes sense with --genconf"]

namespace DaemonArgs

/-- Takes words in turn. -/
def takeWords (acc : DaemonArgs) : List String → Except ArgsError DaemonArgs
  | [] => .ok acc
  | "--autopeer" :: rest => takeWords { acc with autopeer := true } rest
  | "--genconf" :: rest => takeWords { acc with genconf := true } rest
  | "-h" :: rest => takeWords { acc with help := true } rest
  | "--help" :: rest => takeWords { acc with help := true } rest
  | ["--withpeers"] => .error (.missingValue "--withpeers")
  | "--withpeers" :: value :: rest =>
    match parseCount value with
    | .ok n => takeWords { acc with withpeers := n } rest
    | .error cause => .error (.badNumber "--withpeers" cause)
  | ["--interface"] => .error (.missingValue "--interface")
  | "--interface" :: value :: rest => takeWords { acc with interface := some value } rest
  | word :: _ => .error (.unknown word)

/-- What a command line asks for. -/
def parse (words : List String) : Except ArgsError DaemonArgs := do
  let args ← takeWords {} words
  if args.withpeers > 0 ∧ !args.genconf then .error .peersWithoutGenconf else return args

end DaemonArgs

/-- The text that explains the daemon's command line. -/
def daemonUsage : String :=
  ofLines [
    "Usage: popurad [options]",
    "",
    "Options:",
    "  --autopeer          Automatic Internet peering when no peers are configured",
    "  --genconf           Print a new configuration and exit",
    "  --withpeers <N>     With --genconf: add N live public peers",
    "  --interface <IF>    Send router advertisements on IF"]

end MeshNode.CommandLine
