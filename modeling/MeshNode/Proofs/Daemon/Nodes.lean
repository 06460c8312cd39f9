import MeshNode.Daemon
import MeshNode.Proofs.Admin.Registry
import MeshNode.Proofs.Advertiser.Composing
import MeshNode.Proofs.Loopback.Turns

/-!
# Nodes

What a node is that the daemon launches. Its links, its peering loop and its advertiser are of the
kinds that everything else is said about: each has come about from nothing by acts or events of its
own, whatever order they came in.

* **links** — `exists_acts_of_launch`: the peers in the settings are called before any other;
* **the peering service** — `exists_loop_of_launch`, `isStarted_peering_iff`;
* **the advertising service** — `isStarted_start_iff`, and with it `isStarted_advertiser_iff`;
* **administration** — `hooks_registry`: no hook of a node is lost; `administration_of_launch`.
-/

namespace MeshNode

/-! ## Starting an advertiser -/

namespace Advertiser

open Service

theorem running_quiesce (s : Service) (success : Bool) :
    (s.quiesce success).running = s.running := by
  unfold Service.quiesce onCurrent
  split
  · unfold onPipeline
    split <;> rfl
  · rfl

theorem Service.Sound.quiesce {s : Service} (h : s.Sound) (success : Bool) :
    (s.quiesce success).Sound := by
  unfold Service.quiesce onCurrent
  split
  · exact h.onPipeline _ _
  · exact h

/-- A start goes well exactly if the service is to be on and finds its link. -/
theorem isStarted_start_iff {σ : Type} {m : Machine σ} {w : σ} {key : NodeKey}
    {settings : AdvertiserSettings} (hsocket : ∀ w link, m.openSocket w link = .ok ()) :
    ((({} : Service).init key settings).start m w).2.1.isStarted = true ↔
      settings.enable = true ∧ settings.minInterval ≤ settings.maxInterval ∧
        ∃ link, m.lookup w settings.interface = .ok link := by
  constructor
  · intro h
    cases henable : settings.enable with
    | false => simp [Service.start, Service.init, isStarted, henable] at h
    | true =>
      by_cases hintervals : settings.maxInterval < settings.minInterval
      · simp [Service.start, Service.init, isStarted, henable, hintervals] at h
      · refine ⟨rfl, Nat.le_of_not_lt hintervals, ?_⟩
        cases hlink : m.lookup w settings.interface with
        | ok link => exact ⟨link, rfl⟩
        | error e =>
          have hprepare : prepare m w settings (nodeSubnet key) =
              .error (.interface settings.interface e.message) := by
            rw [prepare, hlink]
            rfl
          simp [Service.start, Service.init, isStarted, henable, hintervals, hprepare] at h
  · rintro ⟨henable, hintervals, link, hlink⟩
    obtain ⟨packet, hpacket⟩ :=
      exists_encode_compose settings (nodeSubnet key) link.hardware link.linkLocal
    obtain ⟨_, _, _, heq⟩ := exists_start (s := ({} : Service).init key settings) rfl rfl henable
      (Nat.not_lt.mpr hintervals) hlink hpacket (hsocket w link)
    rw [heq]
    rfl

end Advertiser

namespace Daemon

open Peering Loopback Links

section Launch

variable (env : Environment) (network : Network) (interfaces : Interfaces) (key : NodeKey)
  (settings : Settings)

/-! ## Links -/

/-- The peers in some settings, as far as they are URLs. -/
def staticPeers (settings : Settings) : List Url :=
  settings.node.peers.filterMap fun text => (Url.parse text).toOption

/-- The peering of a node before it is set up. -/
def idlePeering (network : Network) (settings : Settings) : Rehearsal Linked :=
  { world := ((Linked.start network).callAll (staticPeers settings)).1
    service := {} }

/-- The peering of a node after it was set up, if that went well. -/
def initialized (env : Environment) (network : Network) (settings : Settings) :
    Rehearsal Linked × Except ModuleError Unit :=
  (idlePeering network settings).act linkEngine (·.init env settings.autopeering)

theorem peering_launch : (launch env network interfaces key settings).peering =
    if (initialized env network settings).2.isOk
    then ((initialized env network settings).1.act linkEngine (·.start)).1
    else (initialized env network settings).1 := rfl

/-- All that a peering service does to links are acts on them. -/
theorem acts_of_touches {w w' : Linked} (h : Relation.ReflTransGen linkEngine.Touches w w') :
    w.Acts w' := by
  induction h with
  | refl => exact .refl w
  | @tail v _ _ htouch ih =>
    refine ih.trans ?_
    cases htouch with
    | network n => exact ⟨[], rfl⟩
    | call uri =>
      obtain ⟨as, has⟩ := v.exists_acts_callAll [uri]
      exact ⟨_, has⟩

/-- **The links of a node.** They have come about from none by acts, of which the first are calls to
the peers in the settings, one to each that is a URL. -/
theorem exists_acts_of_launch :
    ∃ as, Exchange.empty.after ((staticPeers settings).map .begin ++ as) =
      (launch env network interfaces key settings).peering.world.exchange := by
  have hturns : Relation.ReflTransGen linkEngine.Touches (idlePeering network settings).world
      (launch env network interfaces key settings).peering.world := by
    rw [peering_launch]
    split
    · exact (Rehearsal.world_act _).trans (Rehearsal.world_act _)
    · exact Rehearsal.world_act _
  obtain ⟨later, hlater⟩ := acts_of_touches hturns
  obtain ⟨first, hfirst⟩ := (Linked.start network).exists_acts_callAll (staticPeers settings)
  refine ⟨first ++ later, ?_⟩
  rw [← hlater, ← List.append_assoc, Linked.after_append]
  exact congrArg (Exchange.after · later) hfirst

/-! ## The peering service -/

/-- The loop that a node begins with. -/
def firstLoop (proxy : Option Proxy) (settings : PeeringSettings) : Loop :=
  .fresh (({} : Peering.Service).catalogFor proxy) proxy settings

variable {env}

/-- Without a proxy that can be read, a node has no loop. -/
theorem loops_of_proxy_error {e : ProxyError} (h : Proxy.ofEnvironment env = .error e) :
    (launch env network interfaces key settings).peering.service.loops = [] := by
  have hinit : Peering.Service.init {} env settings.autopeering = .error (.settings e.message) := by
    simp only [Peering.Service.init, h]
    rfl
  have hidle : initialized env network settings = (idlePeering network settings, .error _) :=
    Rehearsal.act_of_error hinit
  rw [peering_launch, hidle]
  rfl

/-- With one, or if none is named, there is one loop, which is started after it was set up. -/
theorem loops_of_proxy_ok {proxy : Option Proxy} (h : Proxy.ofEnvironment env = .ok proxy) :
    ∃ l m, (firstLoop proxy settings.autopeering).Follows l ∧ l.start.Follows m ∧
      (launch env network interfaces key settings).peering.service.loops = [m] := by
  have hinit : Peering.Service.init {} env settings.autopeering =
      .ok { loops := [firstLoop proxy settings.autopeering] } := by
    simp only [Peering.Service.init, h]
    rfl
  obtain ⟨hset, hok⟩ := Rehearsal.becomes_act (e := linkEngine)
    (r := idlePeering network settings) (f := (·.init env settings.autopeering)) hinit
  obtain ⟨l, hl, hloops⟩ := forall₂_singleton_left hset.loops
  have hstart : (initialized env network settings).1.service.start =
      .ok { (initialized env network settings).1.service with loops := [l.start] } := by
    have hloops : (initialized env network settings).1.service.loops = [l] := hloops
    simp only [Peering.Service.start, Peering.Service.onLoop, Peering.Service.loop?, hloops]
    rfl
  obtain ⟨hstarted, -⟩ := Rehearsal.becomes_act (e := linkEngine)
    (r := (initialized env network settings).1) (f := (·.start)) hstart
  obtain ⟨m, hm, hend⟩ := forall₂_singleton_left hstarted.loops
  refine ⟨l, m, hl, hm, ?_⟩
  have hok : (initialized env network settings).2 = .ok () := hok
  rw [peering_launch, hok]
  exact hend

/-- **The loop of a node.** It has come about from a fresh loop by events, of which one is a start by
the owner and all others are turns of its runs; so what holds of loops in general holds of it. -/
theorem exists_loop_of_launch {proxy : Option Proxy} (h : Proxy.ofEnvironment env = .ok proxy) :
    ∃ before after : List Event, (∀ e ∈ before ++ after, e.isTurn = true) ∧
      (launch env network interfaces key settings).peering.service.loops =
        [(firstLoop proxy settings.autopeering).afterEvents
          (before ++ .command .start :: after)] := by
  obtain ⟨l, m, ⟨before, hbefore, rfl⟩, ⟨after, hafter, rfl⟩, hloops⟩ :=
    loops_of_proxy_ok network interfaces key settings h
  refine ⟨before, after, List.forall_mem_append.mpr ⟨hbefore, hafter⟩, ?_⟩
  rw [hloops, Loop.afterEvents_append, Loop.afterEvents_cons]
  rfl

/-- The loop of a node is on exactly if the settings want it and no proxy stands in the way. -/
theorem isStarted_peering_iff :
    (launch env network interfaces key settings).peering.service.isStarted = true ↔
      settings.autopeering.enable = true ∧ ∃ proxy, Proxy.ofEnvironment env = .ok proxy := by
  cases h : Proxy.ofEnvironment env with
  | error e =>
    rw [Peering.Service.isStarted, Peering.Service.loop?,
      loops_of_proxy_error network interfaces key settings h]
    exact iff_of_false nofun fun ⟨_, _, hproxy⟩ => nomatch hproxy
  | ok proxy =>
    obtain ⟨l, m, hl, hm, hloops⟩ := loops_of_proxy_ok network interfaces key settings h
    -- turns before the start leave the loop off, and turns after it leave it as it is
    have hoff : l.started = false := hl.sameMode.started
    have henable : l.settings = settings.autopeering := hl.sameMode.settings
    have hon : l.start.started = settings.autopeering.enable := by
      rw [Loop.start_eq, henable, hoff]
      cases settings.autopeering.enable <;> rfl
    rw [Peering.Service.isStarted, Peering.Service.loop?, hloops]
    show m.started = true ↔ _
    rw [hm.sameMode.started, hon]
    exact ⟨fun h => ⟨h, proxy, rfl⟩, And.left⟩

/-! ## The advertising service -/

variable (env)

theorem service_advertiser_launch : ∃ success,
    (launch env network interfaces key settings).advertiser.service =
      ((({} : Advertiser.Service).init key settings.radv).start Advertiser.Machine.ofInterfaces
        interfaces).2.1.quiesce success := ⟨_, rfl⟩

/-- **The advertiser of a node.** Its parts belong together, and it is on exactly if the settings
want it, their intervals are in order and the link that they name can be found. -/
theorem isStarted_advertiser_iff :
    (launch env network interfaces key settings).advertiser.service.Sound ∧
    ((launch env network interfaces key settings).advertiser.service.isStarted = true ↔
      settings.radv.enable = true ∧ settings.radv.minInterval ≤ settings.radv.maxInterval ∧
        ∃ link, interfaces.lookup settings.radv.interface = .ok link) := by
  obtain ⟨success, hservice⟩ := service_advertiser_launch env network interfaces key settings
  rw [hservice]
  refine ⟨((Advertiser.Service.sound_default.init _ _).start _ _).quiesce _, ?_⟩
  rw [Advertiser.Service.isStarted, Advertiser.running_quiesce]
  exact Advertiser.isStarted_start_iff fun _ _ => rfl

/-! ## Administration -/

/-- No hook of a node is lost for want of a name of its own. -/
theorem hooks_registry (n : Node) : n.registry.hooks = n.hooks := by
  have hlast : ¬ "getRAdv" < "getAutoPeering" := by decide
  unfold Node.registry Node.hooks Peering.Service.hooks
  split
  · next l _ =>
    show Admin.Registry.insert _ [_] = [_, _]
    rw [Admin.Registry.insert]
    exact if_neg hlast
  · rfl

theorem names_hooks_advertiser (s : Advertiser.Service) :
    s.hooks.map (·.name) = ["getRAdv"] := rfl

theorem names_hooks_peering (s : Peering.Service) (now : Duration) :
    (s.hooks now).map (·.name) = if s.loops = [] then [] else ["getAutoPeering"] := by
  unfold Peering.Service.hooks Peering.Service.loop?
  cases hlast : s.loops.getLast? with
  | none =>
    rw [if_pos (List.getLast?_eq_none_iff.mp hlast)]
    rfl
  | some l =>
    have hne : s.loops ≠ [] := by
      intro hnil
      rw [hnil] at hlast
      cases hlast
    rw [if_neg hne]
    rfl

/-- **Administration of a node.** The hook of its advertiser can be called and, unless the environment
names a proxy that is none, that of its loop; there are no others. They are answered on the port
that the settings name and on no other, and on none at all if that is zero. -/
theorem administration_of_launch :
    let n := launch env network interfaces key settings
    n.registry.hooks.map (·.name) =
        (match Proxy.ofEnvironment env with
          | .ok _ => ["getAutoPeering"]
          | .error _ => []) ++ ["getRAdv"] ∧
      ∀ port server, n.servers port = some server ↔
        (port = settings.node.adminPort ∧ port ≠ 0) ∧ server = Admin.respond n.registry := by
  intro n
  constructor
  · have hloop : (n.peering.service.hooks n.peering.now).map (·.name) =
        match Proxy.ofEnvironment env with
        | .ok _ => ["getAutoPeering"]
        | .error _ => [] := by
      rw [names_hooks_peering]
      cases h : Proxy.ofEnvironment env with
      | error e => exact if_pos (loops_of_proxy_error network interfaces key settings h)
      | ok proxy =>
        obtain ⟨l, m, -, -, hloops⟩ := loops_of_proxy_ok network interfaces key settings h
        have hloops : n.peering.service.loops = [m] := hloops
        rw [hloops]
        exact if_neg (List.cons_ne_nil m [])
    rw [hooks_registry, Node.hooks, List.map_append, hloop, names_hooks_advertiser]
  · intro port server
    rw [Node.servers, Option.ite_none_right_eq_some, Option.some_inj, eq_comm (a := server)]
    rfl

end Launch

end Daemon

end MeshNode
