import MeshNode.Proofs.Octets
import MeshNode.Proofs.Socks.Replies
import MeshNode.Proofs.Text.Utf8
import MeshNode.Proofs.Url.Domains

/-!
# What a proxy is asked for

A request carries the host and the port of its target: whoever reads the request as the protocol
has it learns both, and what the client sends besides it depends on the proxy's choice alone.

* **reading a request** — `Request.decode?`; `Request.decode?_encode`;
* **what a host denotes** — `Denotes`; `Denotes.eq_of_name`;
* **what is sent** — `sent_of_not_prefix`, `sent_of_prefix`;
* **endpoints** — `Target.parse?_addressText`: the target of a URL is its host and port;
* **all of it** — `request_carries_target`.
-/

namespace MeshNode.Socks

open MeshNode.Text MeshNode.Url

/-! ## Reading a request -/

/-- The name that some octets begin with after its length, and what follows it. -/
def nameAfter? : List UInt8 → Option (Destination × List UInt8)
  | [] => none
  | length :: rest =>
    if length.toNat ≤ rest.length then
      some (.name (rest.take length.toNat), rest.drop length.toNat)
    else none

/-- The destination of a type that some octets begin with, and what follows it. -/
def Destination.decode? (type : UInt8) (s : List UInt8) : Option (Destination × List UInt8) :=
  if type = typeIpv4 then (Octets.ofList? (s.take 4)).map fun a => (.ipv4 a, s.drop 4)
  else if type = typeIpv6 then (Octets.ofList? (s.take 16)).map fun a => (.ipv6 a, s.drop 16)
  else if type = typeName then nameAfter? s
  else none

/-- The request to connect that some octets begin with, and what follows it. -/
def Request.decode? : List UInt8 → Option (Request × List UInt8)
  | 5 :: 1 :: 0 :: type :: s => do
    let (destination, s) ← Destination.decode? type s
    match s with
    | hi :: lo :: rest => some (⟨destination, beValue [hi, lo]⟩, rest)
    | _ => none
  | _ => none

/-- Whether a destination fits its field. -/
def Destination.Fits : Destination → Prop
  | .ipv4 _ => True
  | .ipv6 _ => True
  | .name octets => octets.length ≤ 255

theorem Destination.decode?_encode {d : Destination} (h : d.Fits) (rest : List UInt8) :
    ∃ type s, d.encode = type :: s ∧ Destination.decode? type (s ++ rest) = some (d, rest) := by
  cases d with
  | ipv4 a =>
    refine ⟨_, _, rfl, ?_⟩
    rw [decode?, if_pos rfl, List.take_left' a.length_toList, List.drop_left' a.length_toList,
      Octets.ofList?_toList]
    rfl
  | ipv6 a =>
    refine ⟨_, _, rfl, ?_⟩
    rw [decode?, if_neg (by decide), if_pos rfl, List.take_left' a.length_toList,
      List.drop_left' a.length_toList, Octets.ofList?_toList]
    rfl
  | name octets =>
    have hlength : (UInt8.ofNat octets.length).toNat = octets.length :=
      UInt8.toNat_ofNat_of_lt' (Nat.lt_of_le_of_lt h (by decide))
    refine ⟨_, _, rfl, ?_⟩
    rw [decode?, if_neg (by decide), if_neg (by decide), if_pos rfl, List.cons_append, nameAfter?,
      hlength, if_pos (by simp), List.take_left, List.drop_left]

/-- A request is read to its last octet. -/
theorem Request.decode?_encode {r : Request} (hfits : r.destination.Fits)
    (hport : r.port < 0x10000) : Request.decode? r.encode = some (r, []) := by
  obtain ⟨type, s, hencode, hdecode⟩ :=
    Destination.decode?_encode hfits (beBytes 2 r.port)
  have hvalue : beValue (beBytes 2 r.port) = r.port := beValue_beBytes_of_lt hport
  have htext : r.encode = 5 :: 1 :: 0 :: type :: (s ++ beBytes 2 r.port) := by
    rw [encode, hencode]
    rfl
  rw [htext, decode?, hdecode]
  show some (Request.mk r.destination (beValue (beBytes 2 r.port)), []) = some (r, [])
  rw [hvalue]

/-! ## What a host denotes -/

/-- What a host denotes: the address that it is written as, or else the name of its octets. -/
inductive Denotes (host : String) : Destination → Prop
  | ipv4 {a : Ipv4} : Ipv4.parse? host.toList = some a → Denotes host (.ipv4 a)
  | ipv6 {a : Ipv6} : Ipv4.parse? host.toList = none → Ipv6.parse? host.toList = some a →
    Denotes host (.ipv6 a)
  | name : ¬ IsLiteral host → Denotes host (.name (utf8 host))

/-- Two hosts that denote one name are the same. -/
theorem Denotes.eq_of_name {host₁ host₂ : String} {d : Destination} (h₁ : Denotes host₁ d)
    (h₂ : Denotes host₂ d) (hname : ¬ IsLiteral host₁) : host₁ = host₂ := by
  cases h₁ with
  | ipv4 h => exact absurd (Or.inl ⟨_, h⟩) hname
  | ipv6 _ h => exact absurd (Or.inr ⟨_, h⟩) hname
  | name _ =>
    generalize hoctets : utf8 host₁ = octets at h₂
    cases h₂ with
    | name _ =>
      have hback := ofUtf8?_utf8 host₁
      rw [hoctets, ofUtf8?_utf8] at hback
      exact (Option.some.inj hback).symm

variable {text : String} {target : Target} {r : Request}

/-- A target is asked for by what its host denotes. -/
theorem denotes_of_request (h : target.request? = some r) :
    Denotes target.host r.destination ∧ r.destination.Fits ∧ r.port = target.port := by
  obtain ⟨d, hd, rfl⟩ := Option.map_eq_some_iff.mp h
  unfold Destination.ofHost? at hd
  cases h4 : Ipv4.parse? target.host.toList with
  | some a =>
    rw [h4] at hd
    cases hd
    exact ⟨.ipv4 h4, trivial, rfl⟩
  | none =>
    cases h6 : Ipv6.parse? target.host.toList with
    | some a =>
      rw [h4, h6] at hd
      cases hd
      exact ⟨.ipv6 h4 h6, trivial, rfl⟩
    | none =>
      rw [h4, h6] at hd
      dsimp only at hd
      split at hd
      · next hlength =>
        cases hd
        exact ⟨.name (by simp [IsLiteral, h4, h6]), hlength, rfl⟩
      · cases hd

theorem port_lt_of_parse? (h : Target.parse? text = some target) : target.port < 0x10000 := by
  simp only [Target.parse?, Option.bind_eq_bind, Option.bind_eq_some_iff] at h
  obtain ⟨⟨host, digits⟩, -, port, hport, h⟩ := h
  cases h
  refine parseUnsigned_lt (by decide) (s := String.ofList digits) ?_
  cases hread : parsePort (String.ofList digits) with
  | error e =>
    rw [hread] at hport
    cases hport
  | ok n =>
    rw [hread] at hport
    cases hport
    exact hread

/-! ## What is sent -/

/-- The client sends no request before the proxy has chosen to go on without authentication. -/
theorem sent_of_not_prefix (target : Target) {s : List UInt8} (h : ¬ [5, 0] <+: s) :
    ((Session.start target).feed s).sent = greeting := by
  match s with
  | [] => rfl
  | [_] => rfl
  | a :: b :: s =>
    have hne : [a, b] ≠ [5, 0] := by
      intro heq
      exact h ⟨s, by rw [← heq]; rfl⟩
    have hsplit : a :: b :: s = [a, b] ++ s := rfl
    rw [hsplit, Session.feed_append, Session.feed_method, Session.afterMethod, if_pos hne,
      Session.feed_failed rfl]
    rfl

/-- Whether the choice of method lies behind a session. -/
def Session.HasChoice (s : Session) : Prop := ∀ got, s.stage ≠ .method got

theorem afterHead_ne_method (version code type : UInt8) (got : List UInt8) :
    Session.afterHead version code type ≠ .method got := by
  unfold Session.afterHead
  split
  · exact nofun
  split
  · exact nofun
  split
  · exact nofun
  split
  · exact nofun
  split <;> exact nofun

/-- After the choice of method nothing more is sent. -/
theorem step_sent {s : Session} (h : s.HasChoice) (b : UInt8) :
    (s.step b).sent = s.sent ∧ (s.step b).HasChoice := by
  unfold Session.step
  split
  · next hstage => exact absurd hstage (h _)
  · next hstage => exact absurd hstage (h _)
  · exact ⟨rfl, afterHead_ne_method _ _ _⟩
  · exact ⟨rfl, nofun⟩
  · exact ⟨rfl, nofun⟩
  · refine ⟨rfl, fun got => ?_⟩
    dsimp only
    split <;> exact nofun
  · next hstage => exact ⟨rfl, fun got heq => h got heq⟩
  · exact ⟨rfl, h⟩

theorem feed_sent {s : Session} (h : s.HasChoice) (bytes : List UInt8) :
    (s.feed bytes).sent = s.sent := by
  induction bytes generalizing s with
  | nil => rfl
  | cons b bytes ih =>
    obtain ⟨hsent, hchoice⟩ := step_sent h b
    exact (ih hchoice).trans hsent

/-- Once it has, the client sends its request and no more. -/
theorem sent_of_prefix (hr : target.request? = some r) {s : List UInt8} (h : [5, 0] <+: s) :
    ((Session.start target).feed s).sent = greeting ++ r.encode := by
  obtain ⟨rest, rfl⟩ := h
  have hhead : Session.HasChoice ⟨some r, .head [], greeting ++ r.encode, []⟩ := by
    intro got
    exact nofun
  rw [Session.feed_append, Session.feed_accepted hr]
  exact feed_sent hhead rest

/-- A host that cannot be asked for ends the exchange. -/
theorem feed_of_no_request (hr : target.request? = none) {s : List UInt8} (h : [5, 0] <+: s) :
    (Session.start target).feed s = ⟨none, .failed .hostTooLong, greeting, []⟩ := by
  obtain ⟨rest, rfl⟩ := h
  have hchoice : (Session.start target).feed [5, 0] =
      ⟨none, .failed .hostTooLong, greeting, []⟩ := by
    rw [Session.feed_method, Session.afterMethod, if_neg (by decide)]
    simp only [Session.start, hr]
  rw [Session.feed_append, hchoice, Session.feed_failed rfl]

/-! ## Endpoints -/

/-- The text of a host without the brackets of an IPv6 address. -/
def bareText : Host → String
  | .name text => text
  | .ipv4 address => address.render
  | .ipv6 address => address.renderHex

theorem ne_brackets {p : Char → Bool} (hopen : p '[' = false) (hclose : p ']' = false) {c : Char}
    (hc : p c = true) : c ≠ '[' ∧ c ≠ ']' := by
  constructor
  · rintro rfl
    exact Bool.false_ne_true (hopen.symm.trans hc)
  · rintro rfl
    exact Bool.false_ne_true (hclose.symm.trans hc)

/-- A text without brackets is left alone, and a closing one after it is dropped. -/
theorem trimEnd_dropWhile {s : List Char} (h : ∀ c ∈ s, c ≠ '[' ∧ c ≠ ']') {t : List Char}
    (ht : t = [] ∨ t = [']']) : trimEnd (· == ']') ((s ++ t).dropWhile (· == '[')) = s := by
  have hfront : (s ++ t).dropWhile (· == '[') = s ++ t := by
    cases s with
    | nil => rcases ht with rfl | rfl <;> rfl
    | cons c s =>
      have hc : c ≠ '[' := (h c List.mem_cons_self).1
      rw [List.cons_append, List.dropWhile_cons_of_neg (by simpa using hc)]
  rw [hfront, trimEnd_append fun c hc => beq_eq_false_iff_ne.mpr (h c hc).2]
  rcases ht with rfl | rfl <;> exact List.append_nil s

/-- The text of a host is that of its target, perhaps in brackets. -/
theorem host_of_render {host : Host} (h : host.IsClean) :
    trimEnd (· == ']') (host.render.toList.dropWhile (· == '[')) = (bareText host).toList := by
  cases host with
  | name text =>
    have hname : ∀ c ∈ text.toList, c ≠ '[' ∧ c ≠ ']' := by
      intro c hc
      have hallowed : (! Host.isForbidden c) = true := by rw [h c hc]; rfl
      exact @ne_brackets (! Host.isForbidden ·) (by decide) (by decide) _ hallowed
    have htrim := trimEnd_dropWhile hname (Or.inl rfl)
    rwa [List.append_nil] at htrim
  | ipv4 address =>
    have hquad : ∀ c ∈ address.render.toList, c ≠ '[' ∧ c ≠ ']' := by
      intro c hc
      rcases Ipv4.mem_render hc with rfl | hc
      · decide
      · exact ne_brackets (by decide) (by decide) hc
    have htrim := trimEnd_dropWhile hquad (Or.inl rfl)
    rwa [List.append_nil] at htrim
  | ipv6 address =>
    have hgroups : ∀ c ∈ address.renderHex.toList, c ≠ '[' ∧ c ≠ ']' := by
      intro c hc
      rcases Ipv6.mem_renderHex hc with rfl | hc
      · decide
      · exact ne_brackets (by decide) (by decide) hc
    have hopen : (Host.ipv6 address).render.toList.dropWhile (· == '[') =
        (address.renderHex.toList ++ [']']).dropWhile (· == '[') := by
      rw [Host.toList_render_ipv6]
      rfl
    rw [hopen, trimEnd_dropWhile hgroups (Or.inr rfl)]
    rfl

/-- The text of a clean host and a port is read as that target. -/
theorem parse?_addressText {host : Host} {n : Nat} (h : host.IsClean) (hn : n < 0x10000) :
    Target.parse? (addressText host n) = some ⟨bareText host, n⟩ := by
  have hcolon : ':' ∉ (toString n).toList := fun hmem =>
    absurd (isDecimal_of_mem_toString hmem) (by decide)
  have hport : parsePort (toString n) = .ok n := parseUnsigned_toString hn
  rw [Target.parse?, toList_addressText, splitLast?_append _ hcolon]
  simp only [Option.bind_eq_bind, Option.bind_some, host_of_render h, String.ofList_toList, hport]
  rfl

/-! ## All of it -/

/-- A text that is no target sends nothing. For a target, the greeting is sent and nothing more
unless the proxy chooses to go on without authentication. Then a host that is neither an address
nor short enough ends the exchange, and for any other one request is sent, which is read to its
last octet as one for what the host denotes and the port. One request stands for one denotation
and port only, and the endpoint of a URL is the target of its host, without brackets, and its
port. -/
theorem request_carries_target :
    (∀ (text : String) (pieces : List (List UInt8)), Target.parse? text = none →
      exchange text pieces = ⟨[], .error (.badTarget text)⟩ ∧
      (SocksError.badTarget text).kind = .invalidInput) ∧
    (∀ (text : String) (target : Target) (pieces : List (List UInt8)),
      Target.parse? text = some target →
      (¬ [5, 0] <+: pieces.flatten → (exchange text pieces).sent = greeting) ∧
      ([5, 0] <+: pieces.flatten →
        (255 < (utf8 target.host).length ∧ ¬ IsLiteral target.host →
          exchange text pieces = ⟨greeting, .error .hostTooLong⟩ ∧
          SocksError.hostTooLong.kind = .invalidInput) ∧
        ((utf8 target.host).length ≤ 255 ∨ IsLiteral target.host → ∃ r d,
          target.request? = some r ∧ (exchange text pieces).sent = greeting ++ r.encode ∧
          Denotes target.host d ∧ Request.decode? r.encode = some (⟨d, target.port⟩, [])))) ∧
    (∀ (text₁ text₂ : String) (target₁ target₂ : Target) (r₁ r₂ : Request),
      Target.parse? text₁ = some target₁ → Target.parse? text₂ = some target₂ →
      target₁.request? = some r₁ → target₂.request? = some r₂ → r₁.encode = r₂.encode →
      target₁.port = target₂.port ∧
      ∃ d, Denotes target₁.host d ∧ Denotes target₂.host d ∧
        (¬ IsLiteral target₁.host → target₁.host = target₂.host)) ∧
    ∀ (text : String) (u : Url) (endpoint : String), Url.parse text = .ok u →
      u.endpoint? = some endpoint →
      ∃ host n, u.host? = some host ∧ u.port? = some n ∧
        Target.parse? endpoint = some ⟨bareText host, n⟩ := by
  refine ⟨fun text pieces hnone => ⟨?_, rfl⟩, fun text target pieces htarget => ⟨?_, fun hchoice =>
    ⟨?_, fun hhost => ?_⟩⟩, ?_, fun text u endpoint hparse hendpoint => ?_⟩
  · rw [exchange, hnone]
  · intro hchoice
    rw [exchange_of_target htarget]
    exact sent_of_not_prefix target hchoice
  · rintro ⟨hlong, hname⟩
    have hnone : target.request? = none := by
      rw [Option.eq_none_iff_forall_ne_some]
      intro r hr
      rcases (exists_request_iff target).mp ⟨r, hr⟩ with hshort | hliteral
      · omega
      · exact hname hliteral
    rw [exchange_of_target htarget, feed_of_no_request hnone hchoice]
    exact ⟨rfl, rfl⟩
  · obtain ⟨r, hr⟩ := (exists_request_iff target).mpr hhost
    obtain ⟨hdenotes, hfits, hport⟩ := denotes_of_request hr
    have hread : Request.decode? r.encode = some (r, []) := by
      refine Request.decode?_encode hfits ?_
      rw [hport]
      exact port_lt_of_parse? htarget
    refine ⟨r, r.destination, hr, ?_, hdenotes, ?_⟩
    · rw [exchange_of_target htarget]
      exact sent_of_prefix hr hchoice
    · rw [hread, ← hport]
  · intro text₁ text₂ target₁ target₂ r₁ r₂ htarget₁ htarget₂ hr₁ hr₂ hencode
    obtain ⟨hdenotes₁, hfits₁, hport₁⟩ := denotes_of_request hr₁
    obtain ⟨hdenotes₂, hfits₂, hport₂⟩ := denotes_of_request hr₂
    -- what is read from the octets is both requests
    have hread₁ := Request.decode?_encode hfits₁ (hport₁ ▸ port_lt_of_parse? htarget₁)
    have hread₂ := Request.decode?_encode hfits₂ (hport₂ ▸ port_lt_of_parse? htarget₂)
    obtain rfl : r₁ = r₂ := by
      rw [hencode, hread₂] at hread₁
      cases hread₁
      rfl
    refine ⟨hport₁.symm.trans hport₂, r₁.destination, hdenotes₁, hdenotes₂, fun hname => ?_⟩
    exact hdenotes₁.eq_of_name hdenotes₂ hname
  · obtain ⟨host, n, hhost, hport, hclean, hn, rfl⟩ := Url.isClean_of_endpoint? hparse hendpoint
    exact ⟨host, n, hhost, hport, parse?_addressText hclean hn⟩

/-- The endpoint of a URL with an IPv6 address, asked for once the proxy's choice is there. -/
theorem ipv6_asked_for :
    ∃ u a, Url.parse "tls://[2001:DB8::1]:443" = .ok u ∧
      u.endpoint? = some "[2001:db8::1]:443" ∧ Ipv6.parse? "2001:db8::1".toList = some a ∧
      [(5 : UInt8), 0] <+: List.flatten [[5], [0]] ∧
      ∃ r : Request, (exchange "[2001:db8::1]:443" [[5], [0]]).sent = greeting ++ r.encode ∧
        Request.decode? r.encode = some (⟨.ipv6 a, 443⟩, []) := by
  have hread : ∃ u a, Url.parse "tls://[2001:DB8::1]:443" = .ok u ∧
      u.endpoint? = some "[2001:db8::1]:443" ∧ Ipv6.parse? "2001:db8::1".toList = some a ∧
      Ipv4.parse? "2001:db8::1".toList = none ∧ u.host? = some (.ipv6 a) ∧ u.port? = some 443 ∧
      a.renderHex = "2001:db8::1" :=
    ⟨_, _, rfl, rfl, rfl, rfl, rfl, rfl, by decide +kernel⟩
  obtain ⟨u, a, hu, hendpoint, h6, h4, hhost, hport, hrender⟩ := hread
  have hchoice : [5, 0] <+: List.flatten [[5], [(0 : UInt8)]] := List.prefix_rfl
  obtain ⟨-, hsent, -, hendpoints⟩ := request_carries_target
  obtain ⟨host, n, hhost', hport', htarget⟩ := hendpoints _ u _ hu hendpoint
  rw [hhost] at hhost'
  rw [hport] at hport'
  cases hhost'
  cases hport'
  rw [bareText, hrender] at htarget
  have hliteral : IsLiteral "2001:db8::1" := Or.inr ⟨a, h6⟩
  obtain ⟨r, d, -, hbytes, hdenotes, hdecode⟩ :=
    ((hsent _ _ [[5], [0]] htarget).2 hchoice).2 (Or.inr hliteral)
  refine ⟨u, a, hu, hendpoint, h6, hchoice, r, hbytes, ?_⟩
  cases hdenotes with
  | ipv4 h =>
    rw [h4] at h
    cases h
  | ipv6 _ h =>
    rw [h6] at h
    cases h
    exact hdecode
  | name h => exact absurd hliteral h

end MeshNode.Socks
