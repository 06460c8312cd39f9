import MeshNode.Proofs.Daemon.Runs
import MeshNode.Proofs.Peering.Probing
import MeshNode.Proofs.Peering.Ranking
import MeshNode.Proofs.Settings.RoundTrip
import MeshNode.Proofs.Url.RoundTrip

/-!
# New settings

New settings are printed with some of the fastest public peers in them. Whatever was probed and
drawn, what is printed can be loaded: the document is read back, the settings in it are accepted,
and each of their peers is read as the URL that it was written for. The log of the search stands
before the document, and is there for those only who have asked for it.

* **the pick** — `exists_positions`: distinct places of a list, all of them in order if as many are
  asked for;
* **peers** — `parse_render_of_closest`: what was reached speaks one of the two schemes and names
  host and port, so its URL comes back from its text;
* **settings** — `exists_printed`: settings that differ from the defaults in their peers only are
  printed, read back and accepted;
* **the whole** — `generate_of_proxy`: settings are printed after the log of the search;
  `searchAmong_snd_snd`: the search on the loopback network finds what a round of probes does; and
  from all of these `generated_settings_load`.
-/

namespace MeshNode.Daemon

open MeshNode.Peering MeshNode.CommandLine MeshNode.Loopback MeshNode.Log

/-! ## The pick -/

/-- A pick takes distinct places, as many as asked for or all of them. -/
theorem exists_positions {α : Type} (draw : Sampler) (list : List α) (count : Nat) :
    ∃ positions : List (Fin list.length), positions.Nodup ∧
      positions.length = min count list.length ∧
      randomPick draw list count = positions.map list.get := by
  rw [randomPick]
  split
  · next hle =>
    refine ⟨List.finRange list.length, List.nodup_finRange _, ?_, ?_⟩
    · rw [List.length_finRange, Nat.min_eq_right hle]
    · exact List.ext_getElem (by simp) (by simp)
  · next hlt =>
    obtain ⟨positions, hnodup, hlength⟩ := draw list.length count (by omega)
    refine ⟨positions, hnodup, ?_, rfl⟩
    rw [hlength, Nat.min_eq_left (by omega)]

theorem randomPick_of_length_le {α : Type} (draw : Sampler) {list : List α} {count : Nat}
    (h : list.length ≤ count) : randomPick draw list count = list := dif_pos h

/-! ## Peers -/

theorem plainScheme_tcp : Url.PlainScheme "tcp" where
  head := rfl
  chars := rfl
  lower := rfl
  plain := rfl

theorem plainScheme_tls : Url.PlainScheme "tls" where
  head := rfl
  chars := rfl
  lower := rfl
  plain := rfl

theorem plainScheme_of_isSupported {u : Url} (h : Catalog.isSupported u = true) :
    Url.PlainScheme u.scheme := by
  rcases isSupported_iff.mp h with h | h
  · exact h ▸ plainScheme_tcp
  · exact h ▸ plainScheme_tls

section Round

variable {proxy : Option Proxy} {timeout : Duration} {outcome : Nat → Dial → DialOutcome}
  {schedule : List (Nat × ProbeResult) → List (Nat × ProbeResult)} {catalog : List Url}

/-- What is among the closest was in the catalog and was dialled. -/
theorem dialled_of_closest (hschedule : ∀ done, (schedule done).Perm done) {n : Nat} {u : Url}
    (h : u ∈ rankReachable (probePeers proxy timeout outcome schedule catalog) n) :
    u ∈ catalog ∧ ∃ d, dialOf? proxy u = some d := by
  obtain ⟨k, r, hk, hreachable, rfl, -⟩ := mem_rankReachable.mp h
  rw [getElem?_probePeers hschedule, Option.map_eq_some_iff] at hk
  obtain ⟨u, hu, rfl⟩ := hk
  rw [candidate_probeResult]
  obtain ⟨after, houtcome, -⟩ := reachable_probeResult_iff.mp hreachable
  obtain ⟨d, hd, -⟩ := Option.map_eq_some_iff.mp houtcome
  exact ⟨List.mem_of_getElem? hu, d, hd⟩

/-- The URL of a peer that was reached comes back from its text. -/
theorem parse_render_of_closest (hschedule : ∀ done, (schedule done).Perm done)
    (hcatalog : ∀ u ∈ catalog, ∃ text, Url.parse text = .ok u) {n : Nat} {u : Url}
    (h : u ∈ rankReachable (probePeers proxy timeout outcome schedule catalog) n) :
    Url.parse u.render = .ok u := by
  obtain ⟨hmem, hdial⟩ := dialled_of_closest hschedule h
  obtain ⟨text, htext⟩ := hcatalog u hmem
  obtain ⟨hsupported, target, htarget⟩ := exists_dial_iff.mp hdial
  simp only [Url.endpoint?, Url.hostText?, Option.bind_eq_bind, Option.bind_eq_some_iff,
    Option.map_eq_some_iff] at htarget
  obtain ⟨_, ⟨host, hhost, rfl⟩, port, hport, -⟩ := htarget
  exact Url.parse_render htext (plainScheme_of_isSupported hsupported) hhost hport

end Round

/-! ## Settings -/

/-- The default settings with some peers in them. -/
def settingsWith (peers : List String) : Settings := { node := { peers } }

theorem validate_settingsWith (peers : List String) : (settingsWith peers).validate = .ok () := rfl

/-- Whatever the peers are, such settings are printed and read back. -/
theorem exists_printed (peers : List String) :
    ∃ text, printSettings (settingsWith peers) = .success text ∧
      Settings.parse? text = some (settingsWith peers) := by
  -- the numbers among the settings are those of the defaults
  have hdefault : ({} : Settings).InRange := ⟨by decide, by decide⟩
  have hrange : (settingsWith peers).InRange := ⟨hdefault.port, hdefault.numbers⟩
  have hfits : ({} : Settings).Fits := by decide
  obtain ⟨text, htext⟩ :=
    Option.isSome_iff_exists.mp ((Settings.isSome_render? (settingsWith peers)).mpr hfits)
  refine ⟨text, ?_, Settings.parse?_render? hrange htext⟩
  rw [printSettings, htext]

theorem newSettings_eq (draw : Sampler) (closest : List Url) (count : Nat) :
    newSettings draw closest count =
      settingsWith ((randomPick draw closest count).map Url.render) := rfl

/-! ## The whole -/

/-- What new settings are: accepted, the defaults but for the peers, and those the texts of some of
the closest, each at a place of its own, that are read as the URLs that they were written for. -/
structure Generated (closest : List Url) (count : Nat) (s : Settings) : Prop where
  accepted : s.validate = .ok ()
  defaults : { s with node := { s.node with peers := [] } } = {}
  picked : ∃ positions : List (Fin closest.length), positions.Nodup ∧
    positions.length = min count closest.length ∧
    s.node.peers = positions.map fun i => (closest.get i).render
  all : closest.length ≤ count → s.node.peers = closest.map Url.render
  readable : ∀ u ∈ closest, Url.parse u.render = .ok u

theorem generated_newSettings (draw : Sampler) {closest : List Url} (count : Nat)
    (hreadable : ∀ u ∈ closest, Url.parse u.render = .ok u) :
    Generated closest count (newSettings draw closest count) where
  accepted := validate_settingsWith _
  defaults := rfl
  picked := by
    obtain ⟨positions, hnodup, hlength, hpick⟩ := exists_positions draw closest count
    refine ⟨positions, hnodup, hlength, ?_⟩
    rw [newSettings_eq, hpick]
    exact List.map_map
  all h := by
    rw [newSettings_eq, randomPick_of_length_le draw h]
    rfl
  readable := hreadable

/-- Nothing is picked if nothing is asked for, so it does not matter that nothing is probed then. -/
theorem newSettings_zero (draw : Sampler) (closest : List Url) :
    newSettings draw closest 0 = {} := by
  obtain ⟨positions, -, hlength, hpick⟩ := exists_positions draw closest 0
  rw [Nat.zero_min, List.length_eq_zero_iff] at hlength
  rw [newSettings_eq, hpick, hlength]
  rfl

/-- A search among the peers of a catalog ranks them by what a round of probes finds. -/
theorem searchAmong_snd_snd (catalog : List Url) (network : Network) (proxy : Option Proxy)
    (count : Nat) :
    (searchAmong catalog network proxy count).2.2 =
      rankReachable (probePeers proxy probeTimeout
        (fun i _ => (Round.begin network proxy probeTimeout catalog).2.outcome i) id catalog)
        count := rfl

section Run

variable {log : Subscriber} {draw : Sampler} {search : Search} {m : Machine}
  {ephemeral : NodeKey} {words : List String} {args : DaemonArgs} {proxy : Option Proxy}

/-- The events of a search for new settings; there is none if no peers are asked for. -/
def eventsFor (search : Search) (network : Network) (proxy : Option Proxy) (count : Nat) :
    List Log.Event :=
  if count = 0 then []
  else
    searchEvents (search network proxy candidateCount).2.1 (search network proxy candidateCount).2.2

/-- The network after a search for new settings. -/
def networkFor (search : Search) (network : Network) (proxy : Option Proxy) (count : Nat) : Network :=
  if count = 0 then network else (search network proxy candidateCount).1

theorem quiet_eventsFor (search : Search) (network : Network) (proxy : Option Proxy) (count : Nat) :
    Quiet (eventsFor search network proxy count) := by
  unfold eventsFor
  split
  · exact quiet_nil
  · exact quiet_searchEvents _ _

theorem after_text_nil {env : Environment} (o : Outcome) : .after (log.text env []) o = o :=
  congrArg (fun stdout => { o with stdout }) String.empty_append

/-- New settings are printed after the log of the search. -/
theorem generate_of_proxy {env : Environment} {network : Network} {count : Nat}
    (hproxy : count ≠ 0 → Proxy.ofEnvironment env = .ok proxy) :
    generate log draw search env network count =
      (networkFor search network proxy count,
        .after (log.text env (eventsFor search network proxy count))
          (printSettings
            (newSettings draw (search network proxy candidateCount).2.2 count))) := by
  rw [generate, networkFor, eventsFor]
  split
  · next hzero =>
    rw [hzero, newSettings_zero]
    exact congrArg _ (after_text_nil _).symm
  · next hcount => rw [hproxy hcount]

/-- **New settings can be loaded.** Take any command line that asks for new settings with any number
of peers, any catalog of URLs that have been read, any outcomes of the dials to them, which end in
any order, any draw, and any log. Unless peers are asked for and the environment names a proxy that
is none, the run succeeds and prints the log of its search and then a document of settings. No error
is in the log, and nothing of it is there if the environment has no directives, or such as let none of
these events through: then the document is all that is printed. The document is read back as
settings that are accepted and have nothing of their own but their peers: the texts of so many of
the ten best-ranked reachable entries as there are or were asked for, each at a place of its own, all
of them in the order of the ranking if there are no more than that, and each text is read as the URL
that it was written for. -/
theorem generated_settings_load {timeout : Duration} {outcome : Nat → Dial → DialOutcome}
    {schedule : List (Nat × ProbeResult) → List (Nat × ProbeResult)} {catalog : List Url}
    {ranking : List (ProbeResult × Nat)}
    (hargs : DaemonArgs.parse words = .ok args) (hhelp : args.help = false)
    (hgenconf : args.genconf = true)
    (hcatalog : ∀ u ∈ catalog, ∃ text, Url.parse text = .ok u)
    (hschedule : ∀ done, (schedule done).Perm done)
    (hranking : IsRanking (probePeers proxy timeout outcome schedule catalog) ranking)
    (hclosest : (search m.network proxy candidateCount).2.2 =
      rankReachable (probePeers proxy timeout outcome schedule catalog) candidateCount)
    (hproxy : args.withpeers ≠ 0 → Proxy.ofEnvironment m.env = .ok proxy) :
    let closest := (ranking.take 10).map (·.1.candidate)
    let events := eventsFor search m.network proxy args.withpeers
    let after := { m with network := networkFor search m.network proxy args.withpeers }
    ∃ text s,
      run log draw search m ephemeral words =
        .ended after (.success (log.text m.env events ++ text)) ∧
      Quiet events ∧
      ((directives m.env = "" ∨ ∀ e ∈ events, log.passes (directives m.env) e = false) →
        run log draw search m ephemeral words = .ended after (.success text)) ∧
      Settings.parse? text = some s ∧ Generated closest args.withpeers s := by
  intro closest events after
  -- there is one ranking only, so the search has found its first ten
  have hten : (search m.network proxy candidateCount).2.2 = closest := by
    rw [hclosest, rankReachable_eq, ← hranking.eq_ranked]
    rfl
  have hreadable : ∀ u ∈ closest, Url.parse u.render = .ok u := by
    intro u hu
    rw [← hten, hclosest] at hu
    exact parse_render_of_closest hschedule hcatalog hu
  obtain ⟨text, hprinted, hparsed⟩ :=
    exists_printed ((randomPick draw closest args.withpeers).map Url.render)
  have hrun : run log draw search m ephemeral words =
      .ended after (.success (log.text m.env events ++ text)) := by
    refine run_of_genconf hargs hhelp hgenconf ?_
    rw [generate_of_proxy hproxy, hten, newSettings_eq, hprinted]
    rfl
  have hquiet : Quiet events := quiet_eventsFor _ _ _ _
  refine ⟨text, _, hrun, hquiet, fun hsilent => ?_, hparsed,
    generated_newSettings draw args.withpeers hreadable⟩
  have hnone : log.text m.env events = "" := hsilent.elim hquiet.text_eq_empty text_eq_empty
  rw [hrun, hnone, String.empty_append]

end Run

/-- A machine on which two addresses accept connections. -/
def twoListeners : Network :=
  { listeners :=
      [.v4 (Octets.padded 4 [127, 0, 0, 1]) 4000, .v4 (Octets.padded 4 [127, 0, 0, 3]) 4000]
    proxy := none
    accepted := [] }

/-- A peer on that machine. -/
def peerAt (scheme host : String) : Url :=
  ⟨scheme, some ⟨"", "", some (.name host), some 4000⟩, .segments [], none, none⟩

/-- Two of three peers answer, as fast as each other; both are put in, as the catalog has them. Nobody
has asked for a log, so nothing else is printed. -/
theorem two_answering_peers_printed :
    let catalog := [peerAt "tcp" "127.0.0.3", peerAt "tcp" "127.0.0.2", peerAt "tls" "127.0.0.1"]
    let m : Machine := ⟨[], ⟨[]⟩, twoListeners, .empty⟩
    ∃ after text s,
      run plain firstPositions (searchAmong catalog) m (Octets.zero 32) ["--genconf", "--withpeers", "2"] =
        .ended after (.success text) ∧
      Settings.parse? text = some s ∧ s.validate = .ok () ∧
      s.node.peers = ["tcp://127.0.0.3:4000", "tls://127.0.0.1:4000"] := by
  intro catalog m
  let round := (Round.begin twoListeners none probeTimeout catalog).2
  let ranking : List (ProbeResult × Nat) :=
    [(⟨peerAt "tcp" "127.0.0.3", true, latency⟩, 0),
      (⟨peerAt "tls" "127.0.0.1", true, latency⟩, 2)]
  have hargs : DaemonArgs.parse ["--genconf", "--withpeers", "2"] =
      .ok { genconf := true, withpeers := 2 } := by
    rfl
  have hcatalog : ∀ u ∈ catalog, ∃ text, Url.parse text = .ok u := by
    intro u hu
    simp only [catalog, List.mem_cons, List.not_mem_nil, or_false] at hu
    rcases hu with rfl | rfl | rfl
    · exact ⟨"tcp://127.0.0.3:4000", rfl⟩
    · exact ⟨"tcp://127.0.0.2:4000", rfl⟩
    · exact ⟨"tls://127.0.0.1:4000", rfl⟩
  have hschedule : ∀ done : List (Nat × ProbeResult), (id done).Perm done := fun done => .refl done
  have hanswered : answered
      ((probeAll none probeTimeout (fun i _ => round.outcome i) catalog).map (·.2)) = ranking := by
    decide +kernel
  have hranking : IsRanking
      (probePeers none probeTimeout (fun i _ => round.outcome i) id catalog) ranking := by
    rw [probePeers_eq hschedule]
    exact ⟨hanswered ▸ .refl _, by decide, by decide⟩
  obtain ⟨text, s, -, -, hprinted, hparsed, hgenerated⟩ :=
    @generated_settings_load plain firstPositions (searchAmong catalog) m (Octets.zero 32)
      ["--genconf", "--withpeers", "2"] { genconf := true, withpeers := 2 } none probeTimeout
      (fun i _ => round.outcome i) id catalog ranking hargs rfl rfl hcatalog hschedule hranking
      (searchAmong_snd_snd ..) fun _ => rfl
  exact ⟨_, text, s, hprinted (Or.inl rfl), hparsed, hgenerated.accepted,
    hgenerated.all (by decide)⟩

end MeshNode.Daemon
