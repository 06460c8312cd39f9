import MeshNode.Links.Call
import MeshNode.Peering.Remote

/-!
# The link table

The table holds at most one link under each peer URL. A link stays until its reader finds
that the other side has closed the connection, or until all links are closed. Links carry
numbers that are never used again, so that a reader takes away its own link only.

Calls and readers run side by side. Each step here is one that nothing can interrupt: a
look into the table, the end of a dial, the entry of a link, the end of a connection, the
removal of a link, and the closing of all links.
-/

namespace MeshNode.Links

/-! ## The table -/

/-- A link: its number and where it leads. -/
structure Link where
  id : Nat
  remote : String
deriving DecidableEq

/-- The links under their peers' URLs, and the number of the next one. The numbers that are given in
fewer than `2 ^ 64` acts fit in words of 64 bits (`nextId_after_le`). -/
structure LinkTable where
  entries : List (String × Link)
  nextId : Nat
deriving DecidableEq

namespace LinkTable

/-- The table without links. -/
def empty : LinkTable := ⟨[], 1⟩

/-- The link under a key. -/
def find? (t : LinkTable) (key : String) : Option Link := t.entries.lookup key

/-- Whether there is a link under a key. -/
def contains (t : LinkTable) (key : String) : Bool := (t.find? key).isSome

/-- The number of links. -/
def size (t : LinkTable) : Nat := t.entries.length

/-- Enters a link under a key that has none; the link's number. -/
def insert? (t : LinkTable) (key remote : String) : Option (Nat × LinkTable) :=
  if t.contains key then none
  else some (t.nextId, ⟨t.entries ++ [(key, ⟨t.nextId, remote⟩)], t.nextId + 1⟩)

/-- Takes away the link under a key if it has a number. -/
def removeIf (t : LinkTable) (key : String) (id : Nat) : LinkTable :=
  { t with entries := t.entries.filter fun e => !(e.1 == key && e.2.id == id) }

/-- Takes all links away. -/
def clear (t : LinkTable) : LinkTable := { t with entries := [] }

/-- The peers of the links. -/
def peers (t : LinkTable) : List Peering.PeerInfo := t.entries.map fun e => ⟨e.2.remote, none⟩

end LinkTable

/-! ## Calls and readers -/

/-- Where a call stands. -/
inductive CallStage
  /-- It is about to look for a link under its URL. -/
  | checking
  /-- It waits for its dial to end. -/
  | dialing
  /-- It is about to enter its link. -/
  | entering (connection : Connection)
  /-- It has entered a link. -/
  | linked (id : Nat)
  | failed (cause : CallError)
deriving DecidableEq

/-- A call to a peer. -/
structure Call where
  uri : Url
  stage : CallStage
deriving DecidableEq

namespace Call

/-- The key of the link that a call makes. -/
def key (c : Call) : String := c.uri.render

end Call

/-- Where the reader of a link stands. -/
inductive ReaderStage
  | reading
  /-- The connection has ended, and the link is about to be taken away. -/
  | removing
  | ended
deriving DecidableEq

/-- The reader of a link. -/
structure Reader where
  key : String
  id : Nat
  connection : Nat
  stage : ReaderStage
deriving DecidableEq

/-- The table with all calls and readers so far. -/
structure Exchange where
  table : LinkTable
  calls : List Call
  readers : List Reader
deriving DecidableEq

namespace Exchange

/-- Nothing has been called. -/
def empty : Exchange := ⟨.empty, [], []⟩

/-- Begins a call. -/
def begin (x : Exchange) (uri : Url) : Exchange := { x with calls := x.calls ++ [⟨uri, .checking⟩] }

/-- The exchange with another stage of a call. -/
def setStage (x : Exchange) (i : Nat) (stage : CallStage) : Exchange :=
  { x with calls := x.calls.modify i fun c => { c with stage } }

/-- A call looks for a link under its URL. -/
def check (x : Exchange) (i : Nat) : Exchange :=
  match x.calls[i]? with
  | some ⟨uri, .checking⟩ =>
    x.setStage i <|
      if x.table.contains uri.render then .failed (.alreadyConnected uri.render)
      else .dialing
  | _ => x

/-- The dial of a call ends. -/
def dialEnds (x : Exchange) (i : Nat) (result : Except CallError Connection) : Exchange :=
  match x.calls[i]? with
  | some ⟨_, .dialing⟩ =>
    x.setStage i <|
      match result with
      | .ok connection => .entering connection
      | .error e => .failed e
  | _ => x

/-- The text by which a link under a key names the other end of its connection: its address, or the
key where that cannot be told. -/
def remoteText (key : String) (c : Connection) : String :=
  "tcp://" ++ (c.remote.map SocketAddress.render).getD key

/-- A call enters its link, and a reader begins, unless there is a link by now. -/
def enter (x : Exchange) (i : Nat) : Exchange :=
  match x.calls[i]? with
  | some ⟨uri, .entering connection⟩ =>
    match x.table.insert? uri.render (remoteText uri.render connection) with
    | none => x.setStage i (.failed (.alreadyConnected uri.render))
    | some (id, table) =>
      { x.setStage i (.linked id) with
        table
        readers := x.readers ++ [⟨uri.render, id, connection.number, .reading⟩] }
  | _ => x

/-- A connection has ended, and its reader knows. -/
def hangUp (x : Exchange) (connection : Nat) : Exchange :=
  { x with
    readers := x.readers.map fun r =>
      if r.connection = connection ∧ r.stage = .reading then { r with stage := .removing } else r }

/-- A reader takes its link away. -/
def remove (x : Exchange) (j : Nat) : Exchange :=
  match x.readers[j]? with
  | some ⟨key, id, _, .removing⟩ =>
    { x with
      table := x.table.removeIf key id
      readers := x.readers.modify j fun r => { r with stage := .ended } }
  | _ => x

/-- Closes all links. Readers stop, but one that is about to take its link away still will. -/
def closeAll (x : Exchange) : Exchange :=
  { x with
    table := x.table.clear
    readers := x.readers.map fun r =>
      if r.stage = .reading then { r with stage := .ended } else r }

/-- The result of a call that has come to its end. -/
def result? (x : Exchange) (i : Nat) : Option (Except CallError Nat) :=
  match x.calls[i]? with
  | some ⟨_, .linked id⟩ => some (.ok id)
  | some ⟨_, .failed cause⟩ => some (.error cause)
  | _ => none

/-- Readers that are about to take their links away do so. -/
def settle (x : Exchange) : Exchange := (List.range x.readers.length).foldl remove x

end Exchange

end MeshNode.Links
