import MeshNode.Links.Call
import MeshNode.Peering.Loop
import MeshNode.Proofs.Url.Authority

/-!
# A peer is dialled as it was probed

A probe and a call go different ways to the same connection. A call behind a proxy
goes through the text of a URL, of which the address of the proxy is read back, and
through a second URL made of that address.

* **addresses of proxies** — `Proxy.exists_address`: a proxy that was read from a
  text listens on a plain host and a port of 16 bits;
* **reading them back** — `Links.dialThrough_address`, `Proxy.isAt_urlBehind`;
* **the agreement** — `dialled_as_probed`.
-/

namespace MeshNode

open MeshNode.Text MeshNode.Url MeshNode.Host

variable {host : Host} {n : Nat} {u : Url}

theorem plainScheme_socks : PlainScheme "socks" where
  head := rfl
  chars := rfl
  lower := rfl
  plain := rfl

theorem plainScheme_socks5 : PlainScheme "socks5" where
  head := rfl
  chars := rfl
  lower := rfl
  plain := rfl

/-! ## URLs of an address -/

theorem Url.IsAt.hostText? {scheme : String} (h : u.IsAt scheme host n) :
    u.hostText? = some host.render := by
  rw [Url.hostText?, Url.host?, h.2]
  rfl

theorem Url.IsAt.port? {scheme : String} (h : u.IsAt scheme host n) : u.port? = some n := by
  rw [Url.port?, h.2]
  rfl

theorem Url.IsAt.endpoint? {scheme : String} (h : u.IsAt scheme host n) :
    u.endpoint? = some (addressText host n) := by
  rw [Url.endpoint?, h.hostText?, h.port?]
  rfl

/-! ## Addresses of proxies -/

/-- A proxy that a text names listens on a plain host and a port of 16 bits. -/
theorem Proxy.exists_address {text : String} {p : Proxy} (h : Proxy.parse text = .ok (some p)) :
    ∃ (host : Host) (n : Nat), host.Plain ∧ n < 0x10000 ∧ p.address = addressText host n := by
  unfold Proxy.parse at h
  dsimp only at h
  split at h
  · cases h
  · split at h
    · cases h
    · next url hurl =>
      unfold Proxy.ofUrl at h
      split at h
      · cases h
      · next hscheme =>
        split at h
        · cases h
        · next host hhost =>
          cases h
          -- all three schemes leave the host as it is given
          have hplain : isSpecialScheme url.scheme = false := by
            have hall : ∀ s ∈ Proxy.schemes, isSpecialScheme s = false := by decide
            exact hall _ (Decidable.not_not.mp hscheme)
          obtain ⟨hhosts, hports⟩ := of_parse hurl hplain
          obtain ⟨host', hhost', rfl⟩ := Option.map_eq_some_iff.mp hhost
          refine ⟨host', url.port?.getD Proxy.defaultPort, hhosts host' hhost', ?_, rfl⟩
          cases hport : url.port? with
          | none => decide
          | some n => exact hports n hport

/-- The proxy of a plain host and a port is read back from its address. -/
theorem Proxy.parse_address (h : host.Plain) (hn : n < 0x10000) :
    ∃ url, Proxy.parse ("socks5://" ++ addressText host n) =
      .ok (some ⟨url, addressText host n⟩) := by
  obtain ⟨url, hurl, hat⟩ := parse_front plainScheme_socks5 h hn
  have htext : "socks5://" ++ addressText host n = frontText "socks5" host n := rfl
  have htrim : trim isBlank (frontText "socks5" host n).toList =
      (frontText "socks5" host n).toList :=
    trim_of_forall frontText_ne_nil fun c hc =>
      isBlank_of_isGraphic (isGraphic_of_mem_frontText plainScheme_socks5 h hc)
  have hempty : (frontText "socks5" host n).toList.isEmpty = false := by
    rw [List.isEmpty_eq_false_iff]
    exact frontText_ne_nil
  have hscheme : url.scheme ∈ Proxy.schemes := by
    rw [hat.1]
    decide
  refine ⟨url, ?_⟩
  rw [Proxy.parse, htext]
  simp only [htrim, hempty, String.ofList_toList, hurl, Proxy.ofUrl, hscheme, hat.hostText?,
    hat.port?]
  rfl

/-! ## Behind a proxy -/

/-- A peer behind a proxy is written with the address of the proxy and the peer as path. -/
theorem Proxy.isAt_urlBehind {p : Proxy} (hp : p.address = addressText host n) (h : host.Plain)
    (hn : n < 0x10000) {target : String} (htarget : u.endpoint? = some target) {v : Url}
    (hv : p.urlBehind u = .ok v) :
    v.IsAt Proxy.scheme host n ∧ v.pathText.toList.dropWhile (· == '/') = target.toList := by
  -- whatever the target, it stands in the path and cannot reach the authority
  obtain ⟨v', hparse, hat⟩ := parse_front_path plainScheme_socks h hn target
  have htext : Proxy.scheme ++ "://" ++ addressText host n ++ "/" ++ target =
      frontText "socks" host n ++ "/" ++ target := rfl
  rw [Proxy.urlBehind, htarget] at hv
  dsimp only at hv
  rw [hp, htext, hparse] at hv
  dsimp only at hv
  split at hv
  · next hcheck =>
    cases hv
    exact ⟨hat, hcheck.2.2⟩
  · cases hv

/-- Dialling through an address that a proxy was read from asks that proxy. -/
theorem Links.dialThrough_address (uri : Url) (h : host.Plain) (hn : n < 0x10000)
    (target : String) : Links.dialThrough uri (addressText host n) target =
      .ok (.through (addressText host n) target) := by
  obtain ⟨url, hurl⟩ := Proxy.parse_address h hn
  rw [Links.dialThrough, hurl]

/-! ## The agreement -/

theorem Url.endpoint?_ne_empty {target : String} (h : u.endpoint? = some target) :
    target.toList ≠ [] := by
  simp only [Url.endpoint?, Option.bind_eq_bind, Option.bind_eq_some_iff] at h
  obtain ⟨host, -, n, -, hn⟩ := h
  cases hn
  simp

/-- The path of a URL that ends in a text that is not empty names that text. -/
theorem Links.pathTarget?_eq {v : Url} {target : String} (hne : target.toList ≠ [])
    (h : v.pathText.toList.dropWhile (· == '/') = target.toList) :
    Links.pathTarget? v = some target := by
  obtain ⟨c, rest, ht⟩ := List.exists_cons_of_ne_nil hne
  rw [Links.pathTarget?, h, ht]
  show some (String.ofList (c :: rest)) = some target
  rw [← ht, String.ofList_toList]

/-- A call to the URL of a peer behind a proxy asks that proxy for that peer. -/
theorem Links.dialOf_urlBehind {text : String} {p : Proxy} (hp : Proxy.parse text = .ok (some p))
    {target : String} (htarget : u.endpoint? = some target) {v : Url} (hv : p.urlBehind u = .ok v) :
    Links.dialOf v = .ok (.through p.address target) := by
  obtain ⟨host, n, hplain, hn, haddress⟩ := Proxy.exists_address hp
  obtain ⟨hat, hpath⟩ := Proxy.isAt_urlBehind haddress hplain hn htarget hv
  have hsupported : Catalog.isSupported v = false := by
    rw [Catalog.isSupported, hat.1]
    decide
  rw [Links.dialOf, hsupported, hat.1, hat.endpoint?,
    Links.pathTarget?_eq (Url.endpoint?_ne_empty htarget) hpath]
  exact (Links.dialThrough_address v hplain hn target).trans (by rw [haddress])

/-- A peer that can be dialled is dialled as it was probed. Without a proxy both go to the host and
port of its URL. With a proxy that was read from any text, a probe asks for that target at the
address of the proxy, and whenever the peer has a URL behind the proxy, a call to that URL does the
same. -/
theorem dialled_as_probed (u : Url) (target : String) (hsupported : Catalog.isSupported u = true)
    (htarget : u.endpoint? = some target) :
    (Peering.dialOf? none u = some (.direct target) ∧
      ∀ l : Peering.Loop, l.proxy = none →
        l.peerUrl u = .ok u ∧ Links.dialOf u = .ok (.direct target)) ∧
    ∀ text p, Proxy.parse text = .ok (some p) →
      Peering.dialOf? (some p) u = some (.through p.address target) ∧
      ∀ v, p.urlBehind u = .ok v →
        Links.dialOf v = .ok (.through p.address target) ∧
        ∀ l : Peering.Loop, l.proxy = some p → l.peerUrl u = .ok v := by
  refine ⟨⟨?_, fun l hl => ⟨?_, ?_⟩⟩, fun text p hp => ⟨?_, fun v hv => ⟨?_, fun l hl => ?_⟩⟩⟩
  · rw [Peering.dialOf?, hsupported, htarget]
    rfl
  · rw [Peering.Loop.peerUrl, hl]
  · rw [Links.dialOf, hsupported, htarget]
    rfl
  · rw [Peering.dialOf?, hsupported, htarget]
    rfl
  · exact Links.dialOf_urlBehind hp htarget hv
  · rw [Peering.Loop.peerUrl, hl]
    exact hv

/-- A peer at an IPv6 address behind a proxy with a user and an implied port. -/
theorem dialled_as_probed_ipv6 :
    ∃ u p v, Url.parse "tcp://[2001:DB8:0::1]:9002" = .ok u ∧
      Proxy.parse " socks5h://user:secret@[fd00::5]/ " = .ok (some p) ∧ p.urlBehind u = .ok v ∧
      v.render = "socks://[fd00::5]:1080/[2001:db8::1]:9002" ∧
      Links.dialOf v = .ok (.through "[fd00::5]:1080" "[2001:db8::1]:9002") := by
  have hread : ∃ u p v, Url.parse "tcp://[2001:DB8:0::1]:9002" = .ok u ∧
      Proxy.parse " socks5h://user:secret@[fd00::5]/ " = .ok (some p) ∧ p.urlBehind u = .ok v ∧
      v.render = "socks://[fd00::5]:1080/[2001:db8::1]:9002" ∧ Catalog.isSupported u = true ∧
      u.endpoint? = some "[2001:db8::1]:9002" ∧ p.address = "[fd00::5]:1080" :=
    ⟨_, _, _, rfl, rfl, rfl, rfl, rfl, rfl, rfl⟩
  obtain ⟨u, p, v, hu, hp, hv, hrender, hsupported, htarget, haddress⟩ := hread
  refine ⟨u, p, v, hu, hp, hv, hrender, ?_⟩
  rw [← haddress]
  exact (((dialled_as_probed u _ hsupported htarget).2 _ p hp).2 v hv).1

end MeshNode
