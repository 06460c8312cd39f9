import MeshNode.Socks.Target

/-!
# Asking a proxy for a connection

The client's half of the exchange: a greeting that offers no authentication, the proxy's
choice, the request, and the proxy's reply. The session takes the proxy's octets one at a
time, so its result cannot depend on how they arrive; octets after the reply belong to the
connection and are left alone.
-/

namespace MeshNode.Socks

/-- Why there is no connection through the proxy. -/
inductive SocksError
  | badTarget (text : String)
  | hostTooLong
  | needsAuthentication
  | wrongVersion
  | refused (code : UInt8)
  | unknownAddressType (type : UInt8)
  | endOfStream
deriving DecidableEq

/-- The wording of a proxy error. -/
def SocksError.message : SocksError → String
  | .badTarget text => s!"bad target {text}"
  | .hostTooLong => "host name too long"
  | .needsAuthentication => "proxy requires authentication"
  | .wrongVersion => "proxy replied with wrong version"
  | .refused code => s!"proxy CONNECT failed with code {code.toNat}"
  | .unknownAddressType type => s!"unknown address type {type.toNat}"
  | .endOfStream => "early eof"

/-- What kind of fault an error is. -/
inductive FaultKind
  | invalidInput
  | permissionDenied
  | invalidData
  | connectionRefused
  | unexpectedEnd
deriving DecidableEq

/-- The kind of a proxy error. -/
def SocksError.kind : SocksError → FaultKind
  | .badTarget _ => .invalidInput
  | .hostTooLong => .invalidInput
  | .needsAuthentication => .permissionDenied
  | .wrongVersion => .invalidData
  | .refused _ => .connectionRefused
  | .unknownAddressType _ => .invalidData
  | .endOfStream => .unexpectedEnd

/-- The octets that open the exchange. -/
def greeting : List UInt8 := [5, 1, 0]

/-- What the session waits for. -/
inductive Stage
  /-- The proxy's choice of method, of which some octets are there. -/
  | method (got : List UInt8)
  /-- The first four octets of the reply, of which some are there. -/
  | head (got : List UInt8)
  /-- The length of the bound name. -/
  | nameLength
  /-- So many more octets of the bound address and port, at least one. -/
  | bound (left : Nat)
  /-- Nothing: the connection stands. -/
  | connected
  /-- Nothing: there is no connection. -/
  | failed (cause : SocksError)
deriving DecidableEq

/-- The client's side of an exchange. -/
structure Session where
  request : Option Request
  stage : Stage
  sent : List UInt8
  rest : List UInt8
deriving DecidableEq

namespace Session

/-- The session after its greeting. -/
def start (target : Target) : Session := ⟨target.request?, .method [], greeting, []⟩

/-- The stage after the proxy's choice of method. -/
def afterMethod (s : Session) (choice : List UInt8) : Session :=
  if choice ≠ [5, 0] then { s with stage := .failed .needsAuthentication }
  else
    match s.request with
    | none => { s with stage := .failed .hostTooLong }
    | some r => { s with stage := .head [], sent := s.sent ++ r.encode }

/-- The stage after the first four octets of the reply. -/
def afterHead (version code type : UInt8) : Stage :=
  if version ≠ 5 then .failed .wrongVersion
  else if code ≠ 0 then .failed (.refused code)
  else if type = typeIpv4 then .bound (4 + 2)
  else if type = typeIpv6 then .bound (16 + 2)
  else if type = typeName then .nameLength
  else .failed (.unknownAddressType type)

/-- Takes one octet from the proxy. -/
def step (s : Session) (b : UInt8) : Session :=
  match s.stage with
  | .method [] => { s with stage := .method [b] }
  | .method (a :: _) => s.afterMethod [a, b]
  | .head [version, code, _] => { s with stage := afterHead version code b }
  | .head got => { s with stage := .head (got ++ [b]) }
  | .nameLength => { s with stage := .bound (b.toNat + 2) }
  | .bound left => { s with stage := if left ≤ 1 then .connected else .bound (left - 1) }
  | .connected => { s with rest := s.rest ++ [b] }
  | .failed _ => s

/-- Takes some octets from the proxy. -/
def feed (s : Session) (bytes : List UInt8) : Session := bytes.foldl step s

/-- What comes of the session when the proxy sends nothing more: the octets that belong to
the connection, or the error. -/
def finish (s : Session) : Except SocksError (List UInt8) :=
  match s.stage with
  | .connected => .ok s.rest
  | .failed cause => .error cause
  | _ => .error .endOfStream

end Session

/-! ## From the text of a target -/

/-- What the client has sent, and what comes of the exchange when the proxy sends nothing more. -/
structure Exchange where
  sent : List UInt8
  result : Except SocksError (List UInt8)

/-- The exchange over the text of a target with a proxy whose octets arrive in some pieces. No
connection is opened for a text that is no target. -/
def exchange (text : String) (pieces : List (List UInt8)) : Exchange :=
  match Target.parse? text with
  | none => ⟨[], .error (.badTarget text)⟩
  | some target =>
    let s := pieces.foldl Session.feed (Session.start target)
    ⟨s.sent, s.finish⟩

end MeshNode.Socks
