import MeshNode.Octets
import MeshNode.Text.Folding

/-!
# Remote endpoints

A peer table names the remote endpoint of each connection. An endpoint on the local link
does not count as an Internet peer.
-/

namespace MeshNode.Peering

open MeshNode.Text

/-- A connected peer, with its key if that is known. -/
structure PeerInfo where
  remote : String
  publicKey : Option NodeKey
deriving DecidableEq

/-- What follows the first `://` of a text, or the text itself. -/
def dropScheme (s : List Char) : List Char :=
  (go s).getD s
where
  go : List Char → Option (List Char)
    | ':' :: '/' :: '/' :: rest => some rest
    | _ :: rest => go rest
    | [] => none

/-- Whether an endpoint is on the local link: an address that begins with `fe80`, alone, in
brackets or behind a scheme. -/
def isLinkLocalRemote (remote : String) : Bool :=
  let host := (dropScheme remote.toList).dropWhile (· == '[')
  (host.take 4).map lowerAscii == "fe80".toList

/-- Whether any of some endpoints lies beyond the local link. -/
def hasInternetPeer (remotes : List String) : Bool := remotes.any (! isLinkLocalRemote ·)

end MeshNode.Peering
