import MeshNode.Admin.MediaType
import MeshNode.Admin.Registry
import MeshNode.Json.Printer
import MeshNode.Json.Reader
import MeshNode.Text.Percent

/-!
# The administration interface

Hooks over HTTP: one resource lists them, and each hook is a resource of its own, to be
read without arguments or posted to with some. A response depends on the hooks and the
request alone.
-/

namespace MeshNode.Admin

open MeshNode.Text

/-! ## Messages -/

/-- A request. `target` is its path, perhaps with a query. -/
structure Request where
  method : String
  target : String
  contentType : Option String
  body : List UInt8

/-- The value of a header, whose name may be written in capitals. -/
def headerValue? (headers : List (String × String)) (name : String) : Option String :=
  (headers.find? fun (n, _) => n.toList.map Char.toLower = name.toList).map (·.2)

/-- A request with some headers. -/
def Request.ofHeaders (method target : String) (headers : List (String × String))
    (body : List UInt8) : Request :=
  ⟨method, target, headerValue? headers "content-type", body⟩

/-- The body of a response. The wording of a plain one is not part of the interface. -/
inductive Body
  | empty
  | json (value : Json)
  | plain

/-- A response. Every response may be read by any web page. -/
structure Response where
  status : Nat
  contentType : Option String
  /-- The methods that the resource takes, where they are named. -/
  allow : Option String
  /-- Whether the response names the methods and headers that web pages may use. -/
  preflight : Bool
  body : Body

namespace Response

/-- The content type of JSON. -/
def jsonType : String := "application/json"

/-- The content type of plain text. -/
def plainType : String := "text/plain; charset=utf-8"

/-- A response with a JSON body. -/
def ofJson (status : Nat) (v : Json) : Response := ⟨status, some jsonType, none, false, .json v⟩

/-- A response with a plain body. -/
def ofPlain (status : Nat) : Response := ⟨status, some plainType, none, false, .plain⟩

/-- The response without its body. -/
def withoutBody (r : Response) : Response := { r with body := .empty }

/-- The headers that are part of the interface. -/
def headers (r : Response) : List (String × String) :=
  let named (name : String) (value : Option String) := (value.map (name, ·)).toList
  let any := if r.preflight then some "*" else none
  named "content-type" r.contentType ++ named "allow" r.allow ++
    named "access-control-allow-origin" (some "*") ++
    named "access-control-allow-methods" any ++ named "access-control-allow-headers" any

/-- The JSON value of the body, if the body is one. -/
def json? (r : Response) : Option Json :=
  match r.body with
  | .json v => Json.parse? (Json.compact v)
  | _ => none

end Response

/-- The phrase that goes with a status. -/
def reasonPhrase : Nat → String
  | 200 => "OK"
  | 400 => "Bad Request"
  | 404 => "Not Found"
  | 405 => "Method Not Allowed"
  | 413 => "Payload Too Large"
  | 415 => "Unsupported Media Type"
  | 500 => "Internal Server Error"
  | _ => ""

/-! ## Resources -/

/-- What a target names. -/
inductive Resource
  | list
  /-- The hook of a name that is still percent-encoded. -/
  | hook (encoded : List Char)
  | nothing
deriving DecidableEq

/-- The path of the list. -/
def listPath : String := "/api/admin"

/-- The rest of a text after another that it begins with. -/
def dropLeading? : List Char → List Char → Option (List Char)
  | [], s => some s
  | c :: cs, d :: s => if c = d then dropLeading? cs s else none
  | _ :: _, [] => none

/-- The resource of a target; a query does not count. -/
def Resource.ofTarget (target : String) : Resource :=
  let path := target.toList.takeWhile fun c => c ≠ '?' ∧ c ≠ '#'
  match dropLeading? listPath.toList path with
  | some [] => .list
  | some ('/' :: name) => if name.isEmpty ∨ name.contains '/' then .nothing else .hook name
  | _ => .nothing

/-- The methods that a resource takes. -/
def Resource.allow : Resource → Option String
  | .list => some "GET,HEAD"
  | .hook _ => some "GET,HEAD,POST"
  | .nothing => none

/-- The name that a percent-encoded one stands for, if it is a text. -/
def decodeName? (encoded : List Char) : Option String :=
  ofUtf8? (percentDecode (utf8 (String.ofList encoded)))

/-! ## Answers -/

/-- The list of all hooks. -/
def listing (r : Registry) : Json :=
  .ofMembers [("handlers", .arr (r.list.map fun (name, description) =>
    .ofMembers [("name", .str name), ("description", .str description)]))]

/-- The response to a call of a hook. -/
def callResponse (r : Registry) (name : String) (args : Json) : Response :=
  match r.call name args with
  | .ok v => .ofJson 200 v
  | .error e =>
    .ofJson (match e with | .unknown _ => 404 | _ => 500) (.ofMembers [("error", .str e.message)])

/-- The greatest length of a body. -/
def maxBody : Nat := 2097152

/-- The arguments in a posted body, or the status that says what is wrong with it. -/
def postedArguments (q : Request) : Except Nat Json :=
  if !q.contentType.any isJsonType then .error 415
  else if q.body.length > maxBody then .error 413
  else
    match (ofUtf8? q.body).bind fun s => Json.parse? s.toList with
    | some v => .ok v
    | none => .error 400

/-- The response to a request that reads a resource. -/
def read (r : Registry) : Resource → Response
  | .list => .ofJson 200 (listing r)
  | .hook encoded =>
    match decodeName? encoded with
    | some name => callResponse r name .null
    | none => .ofPlain 400
  | .nothing => ⟨404, none, none, false, .empty⟩

/-- The response to a request that posts arguments to a hook. -/
def post (r : Registry) (q : Request) (encoded : List Char) : Response :=
  match decodeName? encoded with
  | none => .ofPlain 400
  | some name =>
    match postedArguments q with
    | .ok args => callResponse r name args
    | .error status => .ofPlain status

/-- The response to a request whose target is at most 65534 octets long; longer ones are refused
before they are read. -/
def respond (r : Registry) (q : Request) : Response :=
  let resource := Resource.ofTarget q.target
  match q.method, resource with
  | "OPTIONS", _ => ⟨200, none, resource.allow, true, .empty⟩
  | _, .nothing => read r .nothing
  | "GET", _ => read r resource
  | "HEAD", _ => (read r resource).withoutBody
  | "POST", .hook encoded => post r q encoded
  | _, _ => ⟨405, none, resource.allow, false, .empty⟩

end MeshNode.Admin
