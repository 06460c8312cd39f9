import MeshNode.CommandLine.Daemon

/-!
# The control tool's command line

The port may be given anywhere; the other words are the command.
-/

namespace MeshNode.CommandLine

open MeshNode.Text

/-- The port of the administration interface, unless another is given. -/
def defaultAdminPort : Nat := 9101

/-- Takes the port out of some words. -/
def takePort (port : Nat) : List String → Except ArgsError (Nat × List String)
  | [] => .ok (port, [])
  | ["--port"] => .error (.missingValue "--port")
  | "--port" :: value :: rest =>
    match parsePort value with
    | .ok port => takePort port rest
    | .error cause => .error (.badNumber "--port" cause)
  | word :: rest => do
    let (port, words) ← takePort port rest
    return (port, word :: words)

/-- The port and the other words of a command line. -/
def controlArgs (words : List String) : Except ArgsError (Nat × List String) :=
  takePort defaultAdminPort words

/-- What the control tool is asked to do. -/
inductive Command
  | list
  | help
  | call (hook : String) (args : Option String)
  | unknown (words : List String)
deriving DecidableEq

/-- The command that some words spell. -/
def Command.ofWords : List String → Command
  | [] => .list
  | ["list"] => .list
  | ["help"] => .help
  | ["--help"] => .help
  | ["-h"] => .help
  | [hook] => .call hook none
  | [hook, args] => .call hook (some args)
  | words => .unknown words

/-- The text that explains the control tool's command line. -/
def controlUsage : String :=
  ofLines [
    "Usage: popura-ctl [--port <port>] <command>",
    "",
    "Commands:",
    "  list              List admin hooks",
    "  <hook> [json]     Call a hook, e.g. getAutoPeering or getRAdv",
    "",
    "Options:",
    "  --port <port>   Admin API port (default: 9101)"]

end MeshNode.CommandLine
