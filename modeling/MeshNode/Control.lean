import MeshNode.Admin.Api
import MeshNode.CommandLine.Control
import MeshNode.CommandLine.Outcome
import MeshNode.Url.Reader

/-!
# The control tool

One run of the tool: it reads its command line, sends at most one request to the
administration interface, and prints what comes back.
-/

namespace MeshNode.Control

open MeshNode.Admin MeshNode.CommandLine

/-- A run that fails with a message, of which the first line is printed. -/
def failure (message : String) : Outcome := ⟨1, "", firstLine ("Error: " ++ message)⟩

/-- What answers requests to the ports of the machine, where something does. -/
abbrev Servers := (port : Nat) → Option (Request → Response)

/-- The URL of the hooks, or of one of them. -/
def hookUrl (port : Nat) (hook : Option String) : String :=
  "http://127.0.0.1:" ++ toString port ++ listPath ++
    (match hook with
    | some name => "/" ++ name
    | none => "")

/-- The path and query of a URL. -/
def targetOf (u : Url) : String := u.pathText ++ (u.query.map ("?" ++ ·)).getD ""

/-- The greatest length, in octets, of a URL that a request can go to. -/
def maxUrl : Nat := 65534

/-- The URL that a text spells, if a request can go there. -/
def sendable? (url : String) : Option Url := do
  let u ← (Url.parse url).toOption
  if u.render.utf8ByteSize ≤ maxUrl then some u else none

/-- The request to a URL, if the text is one and a request can go there. -/
def request? (url method : String) (args : Option Json) : Option Request := do
  let u ← sendable? url
  let body := (args.map fun v => Text.utf8 v.render).getD []
  return ⟨method, targetOf u, args.map fun _ => Response.jsonType, body⟩

/-- Sends a request to a URL on a port. -/
def send? (servers : Servers) (port : Nat) (url method : String) (args : Option Json) :
    Option Response := do
  let server ← servers port
  let q ← request? url method args
  return server q

/-- The message of a run that reached nobody. -/
def unreachable (url : String) : String :=
  s!"failed to connect to popurad at {url}, is it running?"

/-- The message of a run that was refused. -/
def refused (url : String) (status : Nat) (body : Json) : String :=
  let reason := match body.member? "error" with
    | some (.str text) => text
    | _ => "no details"
  s!"{url} returned {status} {reasonPhrase status}: {reason}"

/-- The message of a run whose answer made no sense. -/
def unintelligible : String := "failed to parse response"

/-- Whether a status means success. -/
def isSuccess (status : Nat) : Bool := 200 ≤ status ∧ status < 300

/-- The value at a URL. -/
def fetch (servers : Servers) (port : Nat) (url : String) : Except String Json :=
  match send? servers port url "GET" none with
  | none => .error (unreachable url)
  | some r =>
    if isSuccess r.status then
      match r.json? with
      | some v => .ok v
      | none => .error unintelligible
    else .error (refused url r.status (r.json?.getD .null))

/-- What posting arguments to a URL gives. -/
def submit (servers : Servers) (port : Nat) (url : String) (args : Json) : Except String Json :=
  match send? servers port url "POST" (some args) with
  | none => .error (unreachable url)
  | some r =>
    match r.json? with
    | none => .error unintelligible
    | some v => if isSuccess r.status then .ok v else .error (refused url r.status v)

/-- The names and descriptions in a list of hooks. -/
def hooksOf? (v : Json) : Option (List (String × String)) :=
  match v.member? "handlers" with
  | some (.arr items) => items.mapM fun item => do
    match item.member? "name", item.member? "description" with
    | some (.str name), some (.str description) => some (name, description)
    | _, _ => none
  | _ => none

/-- The list of hooks, one a line, names filled up to the octets of the longest. -/
def listText (hooks : List (String × String)) : String :=
  if hooks.isEmpty then "No admin hooks registered.\n"
  else
    let width := hooks.foldl (fun acc (name, _) => max acc name.utf8ByteSize) 0
    String.join (hooks.map fun (name, description) =>
      "  " ++ name ++ String.ofList (List.replicate (width - name.length) ' ') ++
        "  " ++ description ++ "\n")

/-- Runs a command. -/
def runCommand (servers : Servers) (port : Nat) : Command → Outcome
  | .help => .success controlUsage
  | .unknown words => ⟨1, controlUsage, firstLine ("Unknown command: " ++ " ".intercalate words)⟩
  | .list =>
    match fetch servers port (hookUrl port none) with
    | .error message => failure message
    | .ok v =>
      match hooksOf? v with
      | some hooks => .success (listText hooks)
      | none => failure unintelligible
  | .call hook args =>
    let url := hookUrl port (some hook)
    let answer := match args with
      | none => fetch servers port url
      | some text =>
        match Json.parse? text.toList with
        | some v => submit servers port url v
        | none => .error "arguments must be JSON"
    match answer with
    | .ok v => .success (v.renderPretty ++ "\n")
    | .error message => failure message

/-- One run of the tool. -/
def run (servers : Servers) (words : List String) : Outcome :=
  match controlArgs words with
  | .error e => failure (e.parts.headD "")
  | .ok (port, rest) => runCommand servers port (Command.ofWords rest)

end MeshNode.Control
