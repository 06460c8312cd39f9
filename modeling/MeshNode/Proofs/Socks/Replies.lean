import MeshNode.Socks.Session

/-!
# What a proxy may answer

A session takes octets one at a time, but what a proxy sends is a row of fields: its choice of
method, the head of its reply, perhaps the length of a name, and an address with a port. The
first field that is missing or wrong decides the error; if there is none, what follows the last
field belongs to the connection.

* **fields** — `Grant` and `Defect`; `granted_or_defect`: every stream begins with a grant or has
  a first defect;
* **one field** — `feed_method`, `feed_head`, `feed_front`, `feed_bound`: the session once it has
  taken one;
* **the whole reply** — `finish_of_grant`, `finish_of_defect`;
* **in pieces** — `granted_exactly`: a session ends as its stream says, wherever it is cut.
-/

namespace MeshNode.Socks

open MeshNode.Text

/-! ## Fields -/

/-- How many octets the bound address of a type has, and what stands before them: the length of a
name. -/
inductive BoundLength : UInt8 → List UInt8 → Nat → Prop
  | ipv4 : BoundLength typeIpv4 [] 4
  | ipv6 : BoundLength typeIpv6 [] 16
  | name (length : UInt8) : BoundLength typeName [length] length.toNat

/-- What grants a connection: the choice to go on without authentication, the head of a reply, the
bound address and its port. -/
inductive Grant : List UInt8 → Prop
  | of (reserved : UInt8) (address port : List UInt8) {type : UInt8} {front : List UInt8}
    {n : Nat} : BoundLength type front n → address.length = n → port.length = 2 →
    Grant ([5, 0] ++ [5, 0, reserved, type] ++ front ++ address ++ port)

/-- The first field of a stream that is missing or wrong, by the error it makes and the kind of
that. -/
inductive Defect : List UInt8 → SocksError → FaultKind → Prop
  | methodMissing {s : List UInt8} : s.length < 2 → Defect s .endOfStream .unexpectedEnd
  | methodWrong {a b : UInt8} {s : List UInt8} : [a, b] ≠ [5, 0] →
    Defect ([a, b] ++ s) .needsAuthentication .permissionDenied
  | headMissing {s : List UInt8} : s.length < 4 →
    Defect ([5, 0] ++ s) .endOfStream .unexpectedEnd
  | versionWrong {version code reserved type : UInt8} {s : List UInt8} : version ≠ 5 →
    Defect ([5, 0] ++ [version, code, reserved, type] ++ s) .wrongVersion .invalidData
  | codeWrong {code reserved type : UInt8} {s : List UInt8} : code ≠ 0 →
    Defect ([5, 0] ++ [5, code, reserved, type] ++ s) (.refused code) .connectionRefused
  | typeWrong {reserved type : UInt8} {s : List UInt8} : type ∉ [typeIpv4, typeName, typeIpv6] →
    Defect ([5, 0] ++ [5, 0, reserved, type] ++ s) (.unknownAddressType type) .invalidData
  | lengthMissing {reserved : UInt8} :
    Defect ([5, 0] ++ [5, 0, reserved, typeName]) .endOfStream .unexpectedEnd
  | boundMissing {reserved type : UInt8} {front s : List UInt8} {n : Nat} :
    BoundLength type front n → s.length < n + 2 →
    Defect ([5, 0] ++ [5, 0, reserved, type] ++ front ++ s) .endOfStream .unexpectedEnd

/-- A stream has all octets of a bound address or lacks some. -/
theorem bound_or_missing {reserved type : UInt8} {front : List UInt8} {n : Nat}
    (h : BoundLength type front n) (s : List UInt8) :
    (∃ grant rest, Grant grant ∧ [5, 0] ++ [5, 0, reserved, type] ++ front ++ s = grant ++ rest) ∨
      ∃ e k, Defect ([5, 0] ++ [5, 0, reserved, type] ++ front ++ s) e k := by
  rcases Nat.lt_or_ge s.length (n + 2) with hlt | hge
  · exact Or.inr ⟨_, _, .boundMissing h hlt⟩
  have haddress : (s.take n).length = n := by
    rw [List.length_take]
    omega
  have hport : ((s.drop n).take 2).length = 2 := by
    rw [List.length_take, List.length_drop]
    omega
  refine Or.inl ⟨_, (s.drop n).drop 2, Grant.of reserved _ _ h haddress hport, ?_⟩
  simp only [List.append_assoc, List.take_append_drop]

/-- Every stream begins with a grant or has a first defect. -/
theorem granted_or_defect (s : List UInt8) :
    (∃ grant rest, Grant grant ∧ s = grant ++ rest) ∨ ∃ e k, Defect s e k := by
  match s with
  | [] => exact Or.inr ⟨_, _, .methodMissing (by decide)⟩
  | [_] => exact Or.inr ⟨_, _, .methodMissing (Nat.le_refl 2)⟩
  | a :: b :: s =>
    by_cases hmethod : [a, b] ≠ [5, 0]
    · exact Or.inr ⟨_, _, .methodWrong hmethod⟩
    obtain ⟨rfl, rfl⟩ : a = 5 ∧ b = 0 := by simpa using hmethod
    match s with
    | [] => exact Or.inr ⟨_, _, .headMissing (by decide)⟩
    | [_] => exact Or.inr ⟨_, _, .headMissing (by simp)⟩
    | [_, _] => exact Or.inr ⟨_, _, .headMissing (by simp)⟩
    | [_, _, _] => exact Or.inr ⟨_, _, .headMissing (by simp)⟩
    | version :: code :: reserved :: type :: s =>
      by_cases hversion : version ≠ 5
      · exact Or.inr ⟨_, _, .versionWrong hversion⟩
      obtain rfl : version = 5 := by simpa using hversion
      by_cases hcode : code ≠ 0
      · exact Or.inr ⟨_, _, .codeWrong hcode⟩
      obtain rfl : code = 0 := by simpa using hcode
      by_cases htype : type ∉ [typeIpv4, typeName, typeIpv6]
      · exact Or.inr ⟨_, _, .typeWrong htype⟩
      rw [Decidable.not_not] at htype
      rcases List.mem_cons.mp htype with rfl | htype
      · exact bound_or_missing .ipv4 s
      rcases List.mem_cons.mp htype with rfl | htype
      · match s with
        | [] => exact Or.inr ⟨_, _, .lengthMissing⟩
        | length :: s => exact bound_or_missing (.name length) s
      · rw [List.mem_singleton.mp htype]
        exact bound_or_missing .ipv6 s

namespace Session

variable {s : Session} {r : Request} {bytes : List UInt8}

/-! ## One field -/

theorem feed_append (s : Session) (bytes rest : List UInt8) :
    s.feed (bytes ++ rest) = (s.feed bytes).feed rest := List.foldl_append

/-- Pieces are taken as the stream that they make. -/
theorem foldl_feed (s : Session) (pieces : List (List UInt8)) :
    pieces.foldl feed s = s.feed pieces.flatten := by
  induction pieces generalizing s with
  | nil => rfl
  | cons piece pieces ih => rw [List.foldl_cons, ih, List.flatten_cons, feed_append]

theorem feed_failed {cause : SocksError} (h : s.stage = .failed cause) (bytes : List UInt8) :
    s.feed bytes = s := by
  induction bytes with
  | nil => rfl
  | cons b bytes ih =>
    have hstep : s.step b = s := by rw [step, h]
    rw [feed, List.foldl_cons, hstep]
    exact ih

theorem feed_connected (h : s.stage = .connected) (bytes : List UInt8) :
    s.feed bytes = { s with rest := s.rest ++ bytes } := by
  induction bytes generalizing s with
  | nil => rw [List.append_nil]; rfl
  | cons b bytes ih =>
    have hstep : s.step b = { s with rest := s.rest ++ [b] } := by rw [step, h]
    have hrest := ih (s := s.step b) (by rw [hstep]; exact h)
    rw [hstep, List.append_assoc, List.singleton_append] at hrest
    rw [feed, List.foldl_cons, hstep]
    exact hrest

/-- The choice of method, once both of its octets are there. -/
theorem feed_method (target : Target) (a b : UInt8) :
    (start target).feed [a, b] = (start target).afterMethod [a, b] := rfl

/-- The head of a reply, once all four octets are there. -/
theorem feed_head (h : s.stage = .head []) (version code reserved type : UInt8) :
    s.feed [version, code, reserved, type] = { s with stage := afterHead version code type } := by
  simp only [feed, List.foldl_cons, List.foldl_nil, step, h, List.nil_append, List.cons_append]

/-- What stands before a bound address, and the octets that are then waited for. -/
theorem feed_front {reserved type : UInt8} {front : List UInt8} {n : Nat}
    (h : BoundLength type front n) (hs : s.stage = .head []) :
    s.feed ([5, 0, reserved, type] ++ front) = { s with stage := .bound (n + 2) } := by
  rw [feed_append, feed_head hs]
  cases h with
  | ipv4 => rfl
  | ipv6 => rfl
  | name length => rfl

/-- Each octet of a bound address is one fewer to wait for. -/
theorem feed_bound {left : Nat} (h : s.stage = .bound left) (hlt : bytes.length < left) :
    s.feed bytes = { s with stage := .bound (left - bytes.length) } := by
  induction bytes generalizing s left with
  | nil => rw [feed, List.foldl_nil, List.length_nil, Nat.sub_zero, ← h]
  | cons b bytes ih =>
    rw [List.length_cons] at hlt
    have hstep : s.step b = { s with stage := .bound (left - 1) } := by
      simp only [step, h]
      rw [if_neg (by omega)]
    have hstage : (s.step b).stage = .bound (left - 1) := by rw [hstep]
    have hrest := ih hstage (by omega)
    rw [feed, List.foldl_cons]
    refine hrest.trans ?_
    rw [hstep, List.length_cons, Nat.sub_sub, Nat.add_comm 1]

/-- With the last of them the connection stands. -/
theorem feed_bound_all {left : Nat} (h : s.stage = .bound left) (hpos : 0 < left)
    (hlength : bytes.length = left) : s.feed bytes = { s with stage := .connected } := by
  have hne : bytes ≠ [] := by
    rintro rfl
    rw [List.length_nil] at hlength
    omega
  have hfront : bytes.dropLast.length = left - 1 := by rw [List.length_dropLast, hlength]
  rw [← List.dropLast_concat_getLast hne, feed_append, feed_bound h (by omega), hfront]
  have hlast : left - (left - 1) = 1 := by omega
  rw [hlast]
  rfl

/-! ## The whole reply -/

/-- The session that waits for the head of a reply to its request. -/
theorem feed_accepted {target : Target} (h : target.request? = some r) :
    (start target).feed [5, 0] = ⟨some r, .head [], greeting ++ r.encode, []⟩ := by
  rw [feed_method, afterMethod, if_neg (by decide)]
  simp only [start, h]

/-- A grant is taken up to its last octet, and no further. -/
theorem finish_of_grant {target : Target} (h : target.request? = some r) {grant : List UInt8}
    (hgrant : Grant grant) (rest : List UInt8) :
    ((start target).feed (grant ++ rest)).finish = .ok rest := by
  -- regrouped by the fields that the session takes
  cases hgrant with
  | @of reserved address port type front n hlength haddress hport =>
    have hall : (address ++ port).length = n + 2 := by rw [List.length_append, haddress, hport]
    have hfields : [5, 0] ++ [5, 0, reserved, type] ++ front ++ address ++ port ++ rest =
        [5, 0] ++ (([5, 0, reserved, type] ++ front) ++ ((address ++ port) ++ rest)) := by
      simp only [List.append_assoc]
    rw [hfields, feed_append _ [5, 0], feed_accepted h, feed_append _ (_ ++ front),
      feed_front hlength rfl, feed_append _ (address ++ port),
      feed_bound_all rfl (Nat.succ_pos _) hall, feed_connected rfl]
    rfl

/-- The first defect decides the error, whatever follows. -/
theorem finish_of_defect {target : Target} (h : target.request? = some r) {e : SocksError}
    {k : FaultKind} (hdefect : Defect bytes e k) :
    ((start target).feed bytes).finish = .error e ∧ e.kind = k := by
  refine ⟨?_, by cases hdefect <;> rfl⟩
  cases hdefect with
  | methodMissing hlt =>
    match bytes, hlt with
    | [], _ => rfl
    | [_], _ => rfl
  | methodWrong hne =>
    rw [feed_append, feed_method, afterMethod, if_pos hne, feed_failed rfl]
    rfl
  | @headMissing s hlt =>
    rw [feed_append, feed_accepted h]
    match s, hlt with
    | [], _ => rfl
    | [_], _ => rfl
    | [_, _], _ => rfl
    | [_, _, _], _ => rfl
  | versionWrong hne =>
    rw [List.append_assoc, feed_append, feed_append, feed_accepted h, feed_head rfl, afterHead,
      if_pos hne, feed_failed rfl]
    rfl
  | codeWrong hne =>
    rw [List.append_assoc, feed_append, feed_append, feed_accepted h, feed_head rfl, afterHead,
      if_neg (by decide), if_pos hne, feed_failed rfl]
    rfl
  | @typeWrong reserved type s hne =>
    simp only [List.mem_cons, List.not_mem_nil, or_false, not_or] at hne
    rw [List.append_assoc, feed_append, feed_append, feed_accepted h, feed_head rfl, afterHead,
      if_neg (by decide), if_neg (by decide), if_neg hne.1, if_neg hne.2.2, if_neg hne.2.1,
      feed_failed rfl]
    rfl
  | lengthMissing =>
    rw [feed_append, feed_accepted h, feed_head rfl]
    rfl
  | @boundMissing reserved type front s n hlength hlt =>
    rw [List.append_assoc [5, 0], List.append_assoc [5, 0], feed_append, feed_append,
      feed_accepted h, feed_front hlength rfl, feed_bound rfl hlt]
    rfl

end Session

/-! ## In pieces -/

/-- Whether a host is written as an address. -/
def IsLiteral (host : String) : Prop :=
  (∃ a, Ipv4.parse? host.toList = some a) ∨ ∃ a, Ipv6.parse? host.toList = some a

/-- A host that is an address, or is short enough for a name, can be asked for. -/
theorem exists_request_iff (target : Target) : (∃ r, target.request? = some r) ↔
    (utf8 target.host).length ≤ 255 ∨ IsLiteral target.host := by
  simp only [Target.request?, Option.map_eq_some_iff, IsLiteral]
  unfold Destination.ofHost?
  cases h4 : Ipv4.parse? target.host.toList with
  | some a => simp
  | none =>
    cases h6 : Ipv6.parse? target.host.toList with
    | some a => simp
    | none => by_cases hlength : (utf8 target.host).length ≤ 255 <;> simp [hlength]

theorem exchange_of_target {text : String} {target : Target} (h : Target.parse? text = some target)
    (pieces : List (List UInt8)) : exchange text pieces =
      ⟨((Session.start target).feed pieces.flatten).sent,
        ((Session.start target).feed pieces.flatten).finish⟩ := by
  simp only [exchange, h, Session.foldl_feed]

/-- A connection stands exactly if the proxy's octets begin with a grant, and all octets after it
belong to the connection. Otherwise the first field that is missing or wrong decides the error.
How the octets are cut into pieces does not matter. -/
theorem granted_exactly {text : String} {target : Target}
    (htarget : Target.parse? text = some target)
    (hhost : (utf8 target.host).length ≤ 255 ∨ IsLiteral target.host)
    (pieces : List (List UInt8)) :
    (∀ rest, (exchange text pieces).result = .ok rest ↔
      ∃ grant, Grant grant ∧ pieces.flatten = grant ++ rest) ∧
    (∀ e, (exchange text pieces).result = .error e ↔ Defect pieces.flatten e e.kind) ∧
    ∀ others : List (List UInt8), others.flatten = pieces.flatten →
      exchange text others = exchange text pieces := by
  obtain ⟨r, hr⟩ := (exists_request_iff target).mpr hhost
  have hresult : (exchange text pieces).result =
      ((Session.start target).feed pieces.flatten).finish := by
    rw [exchange_of_target htarget]
  refine ⟨fun rest => ⟨fun hok => ?_, ?_⟩, fun e => ⟨fun herror => ?_, ?_⟩, fun others hflat => ?_⟩
  · rcases granted_or_defect pieces.flatten with ⟨grant, rest', hgrant, hstream⟩ | ⟨e, k, hdefect⟩
    · rw [hresult, hstream, Session.finish_of_grant hr hgrant] at hok
      rw [← Except.ok.inj hok]
      exact ⟨grant, hgrant, hstream⟩
    · rw [hresult, (Session.finish_of_defect hr hdefect).1] at hok
      cases hok
  · rintro ⟨grant, hgrant, hstream⟩
    rw [hresult, hstream, Session.finish_of_grant hr hgrant]
  · rcases granted_or_defect pieces.flatten with ⟨grant, rest', hgrant, hstream⟩ | ⟨e', k, hdefect⟩
    · rw [hresult, hstream, Session.finish_of_grant hr hgrant] at herror
      cases herror
    · obtain ⟨hfinish, hkind⟩ := Session.finish_of_defect hr hdefect
      rw [hresult, hfinish] at herror
      rw [← Except.error.inj herror, hkind]
      exact hdefect
  · intro hdefect
    rw [hresult, (Session.finish_of_defect hr hdefect).1]
  · rw [exchange_of_target htarget, exchange_of_target htarget, hflat]

/-- A grant with a bound name of one octet, cut inside its head; two octets of the connection come
with it. -/
theorem granted_in_pieces :
    ∃ target, Target.parse? "peer.example:4000" = some target ∧
      (utf8 target.host).length ≤ 255 ∧
      (exchange "peer.example:4000" [[5], [0, 5, 0], [9, 3, 1, 97, 0, 80, 1], [2]]).result =
        .ok [1, 2] := by
  have htarget : Target.parse? "peer.example:4000" = some ⟨"peer.example", 4000⟩ := by
    decide +kernel
  have hlength : (utf8 "peer.example").length ≤ 255 := by decide +kernel
  refine ⟨_, htarget, hlength, ?_⟩
  refine ((granted_exactly htarget (Or.inl hlength) _).1 [1, 2]).mpr ?_
  exact ⟨_, Grant.of 9 [97] [0, 80] (.name 1) rfl rfl, rfl⟩

end MeshNode.Socks
