import MeshNode.Text.Quoted
import MeshNode.Url.Reader

/-!
# Peer catalogs

A catalog is a text with one peer URL a line. Blank lines and lines that begin with a hash
sign are skipped, white space around a line does not count, and the first line that is no
URL makes the whole catalog fail.
-/

namespace MeshNode.Catalog

open MeshNode.Text

/-- A line that is no URL. Lines are counted from one, skipped ones too. -/
structure CatalogError where
  line : Nat
  entry : String
  cause : UrlError
deriving DecidableEq

/-- The wording of a catalog error. -/
def CatalogError.message (e : CatalogError) : String :=
  s!"line {e.line}: {quoted e.entry}: {e.cause.message}"

/-- Whether a trimmed line holds no entry. -/
def isSkipped (line : List Char) : Bool :=
  match line with
  | [] => true
  | c :: _ => c == '#'

/-- The URLs of some lines, the first of which has the given number. -/
def parseLines : (number : Nat) → List (List Char) → Except CatalogError (List Url)
  | _, [] => .ok []
  | number, line :: rest =>
    let entry := trim isBlank line
    if isSkipped entry then parseLines (number + 1) rest
    else
      match Url.parse (String.ofList entry) with
      | .error cause => .error ⟨number, String.ofList entry, cause⟩
      | .ok url => do
        let urls ← parseLines (number + 1) rest
        return url :: urls

/-- The URLs of a catalog, in order. -/
def parse (text : String) : Except CatalogError (List Url) :=
  parseLines 1 (lines text.toList)

/-- A peer that can be dialled speaks one of the two schemes over TCP. -/
def isSupported (url : Url) : Bool := url.scheme == "tcp" || url.scheme == "tls"

/-! ## The public peers -/

/-- The catalog that every node carries. -/
def publicText : String :=
  ofLines [
    "tcp://ygg.mkg20001.io:80",
    "tls://ygg.mkg20001.io:443",
    "tcp://longseason.1200bps.xyz:13121",
    "tls://longseason.1200bps.xyz:13122",
    "tcp://ygg-uplink.thingylabs.io:80",
    "tls://ygg-uplink.thingylabs.io:443",
    "tcp://51.15.204.214:12345",
    "tls://51.15.204.214:54321",
    "tcp://ygg.tomasgl.ru:61933",
    "tls://ygg.tomasgl.ru:61944"]

/-- The peers of the catalog that every node carries. -/
def publicPeers : List Url :=
  match parse publicText with
  | .ok urls => urls
  | .error _ => []

/-- The public peers that a proxy can reach: those over plain TCP. -/
def tcpPeers : List Url := publicPeers.filter (·.scheme == "tcp")

end MeshNode.Catalog
