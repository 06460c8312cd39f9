import MeshNode.Advertiser.Service
import MeshNode.Proofs.Records

/-!
# Starting and stopping the advertising service

Starting may fail at any of its calls on the machine, and new settings take effect by a
stop and a start of which the second may fail. Settings and keys may change while a
pipeline runs, and so may the machine.

* **starting and stopping** — `Service.start_cases`, `Service.stop_of_running`: all that
  they do;
* **the invariant** — `Service.Sound`: what is reported, what runs and which pipelines are
  not aborted belong together; `Site.sound_act` is one act, `Site.sound_after` a history;
* **packets** — `Site.BegunBy`: the start that a pipeline began with, and what it composed;
  `Site.begunBy_after` finds it in the history;
* **counts** — `Site.total_after_le`: no more is counted than there are acts;
* **all of it** — `Site.lifecycle_consistent`.
-/

namespace MeshNode.Advertiser

variable {σ : Type} {m : Machine σ} {w : σ} {s : Service}

/-! ## Pipelines -/

theorem Pipeline.packet_step {p p' : Pipeline} {e : Event} (h : p.step? e = some p') :
    p'.packet = p.packet := by
  cases e with
  | senderTakes =>
    simp only [step?] at h
    split at h
    · obtain ⟨q, -, rfl⟩ := Option.map_eq_some_iff.mp h
      rfl
    · cases h
  | _ =>
    simp only [step?] at h
    split at h <;> cases h
    rfl

theorem Listener.State.total_receive_le (s : Listener.State) (r : Received) :
    (s.receive r).stats.total ≤ s.stats.total + 1 := by
  cases r with
  | failure =>
    simp only [receive, Stats.total]
    omega
  | datagram d =>
    rw [receive]
    split
    · simp only [Stats.total]
      omega
    · exact Nat.le_succ _

theorem Listener.State.stats_resume (s : Listener.State) : s.resume.stats = s.stats := by
  unfold resume
  split <;> rfl

theorem Sender.State.stats_take (s : Sender.State) : s.take.stats = s.stats := by
  unfold take
  split
  · rfl
  · split <;> rfl
  · rfl

theorem Sender.State.total_sent_le (s : Sender.State) (success : Bool) :
    (s.sent success).stats.total ≤ s.stats.total + 1 := by
  unfold sent
  split
  · cases success <;>
    · simp only [Stats.total, if_true, Bool.false_eq_true, if_false]
      omega
  · exact Nat.le_succ _

/-- A step counts one event at most. -/
theorem Pipeline.total_step_le {p p' : Pipeline} {e : Event} (h : p.step? e = some p') :
    p'.stats.total ≤ p.stats.total + 1 := by
  cases e with
  | received r =>
    simp only [step?] at h
    split at h <;> cases h
    exact p.listenerState.total_receive_le r
  | backOffEnds =>
    simp only [step?] at h
    split at h <;> cases h
    show p.listenerState.resume.stats.total ≤ _
    rw [Listener.State.stats_resume]
    exact Nat.le_succ _
  | pacerWakes | pacerPosts =>
    simp only [step?] at h
    split at h <;> cases h
    exact Nat.le_succ _
  | senderTakes =>
    simp only [step?] at h
    split at h
    · obtain ⟨q, -, rfl⟩ := Option.map_eq_some_iff.mp h
      show p.senderState.take.stats.total ≤ _
      rw [Sender.State.stats_take]
      exact Nat.le_succ _
    · cases h
  | sendEnds success =>
    simp only [step?] at h
    split at h <;> cases h
    exact p.senderState.total_sent_le success

/-- The pipeline at a place was not aborted. -/
def IsLiveAt (ps : List Spawned) (k : Nat) : Prop := ∃ p, ps[k]? = some p ∧ p.aborted = false

theorem isLiveAt_concat {ps : List Spawned} {p : Spawned} (hp : p.aborted = false) (k : Nat) :
    IsLiveAt (ps ++ [p]) k ↔ IsLiveAt ps k ∨ ps.length = k := by
  constructor
  · rintro ⟨p', hk, hlive⟩
    rcases getElem?_concat_eq_some.mp hk with hold | ⟨hlast, -⟩
    · exact Or.inl ⟨p', hold, hlive⟩
    · exact Or.inr hlast
  · rintro (⟨p', hk, hlive⟩ | hlast)
    · exact ⟨p', getElem?_concat_eq_some.mpr (Or.inl hk), hlive⟩
    · exact ⟨p, getElem?_concat_eq_some.mpr (Or.inr ⟨hlast, rfl⟩), hp⟩

theorem isLiveAt_abort (ps : List Spawned) (j k : Nat) :
    IsLiveAt (ps.modify j fun p => { p with aborted := true }) k ↔ IsLiveAt ps k ∧ j ≠ k := by
  rw [IsLiveAt, List.getElem?_modify]
  constructor
  · rintro ⟨p, hk, hlive⟩
    obtain ⟨p', hp', rfl⟩ := Option.map_eq_some_iff.mp hk
    by_cases hjk : j = k
    · rw [if_pos hjk] at hlive
      cases hlive
    · rw [if_neg hjk] at hlive
      exact ⟨⟨p', hp', hlive⟩, hjk⟩
  · rintro ⟨⟨p, hk, hlive⟩, hjk⟩
    refine ⟨p, ?_, hlive⟩
    rw [hk]
    show some (if j = k then _ else p) = some p
    rw [if_neg hjk]

theorem isLiveAt_iff {ps : List Spawned} {k : Nat} :
    IsLiveAt ps k ↔ (ps.map (·.aborted))[k]? = some false := by
  rw [List.getElem?_map, Option.map_eq_some_iff]
  rfl

/-! ## Starting and stopping -/

namespace Service

/-- A pipeline that may take steps. -/
def IsLive (s : Service) (k : Nat) : Prop := IsLiveAt s.spawned k

/-- The service with a new pipeline. -/
def withPipeline (s : Service) (subnet : Subnet) (forwarding : Forwarding) (link : LinkInfo)
    (packet : List UInt8) (gateway : Option Gateway) : Service :=
  { s with
    status := ⟨true, link.name, some subnet, gateway.map (·.address.address), some forwarding⟩
    spawned := s.spawned ++ [⟨link, .start packet s.stats, false⟩]
    running := some ⟨s.spawned.length, gateway⟩ }

theorem prepare_eq_ok {settings : AdvertiserSettings} {subnet : Subnet} {link : LinkInfo}
    {packet : List UInt8} :
    prepare m w settings subnet = .ok (link, packet) ↔
      m.lookup w settings.interface = .ok link ∧
        (compose settings subnet link.hardware link.linkLocal).encode = .ok packet ∧
        m.openSocket w link = .ok () := by
  simp only [prepare, bind_eq_ok, mapError_eq_ok]
  constructor
  · rintro ⟨_, hlink, _, hpacket, _, hsocket, ⟨⟩⟩
    exact ⟨hlink, hpacket, hsocket⟩
  · rintro ⟨hlink, hpacket, hsocket⟩
    exact ⟨link, hlink, packet, hpacket, (), hsocket, rfl⟩

/-- A start fails and leaves the machine alone, or there is nothing to do, or a pipeline begins. -/
theorem start_cases (m : Machine σ) (w : σ) (s : Service) :
    (∃ e forwarding, s.start m w =
        (w, { s with status := { s.status with forwarding } }, .error e) ∧
      (s.key = none ∨ s.isStarted = false)) ∨
    s.start m w = (w, s, .ok ()) ∨
    ∃ key link packet forwarding gateway w', s.key = some key ∧ s.isStarted = false ∧
      m.lookup w s.settings.interface = .ok link ∧
      (compose s.settings (nodeSubnet key) link.hardware link.linkLocal).encode = .ok packet ∧
      (if s.settings.setGatewayIp then installGateway m w link (nodeSubnet key) else (w, none)) =
        (w', gateway) ∧
      s.start m w =
        (w', s.withPipeline (nodeSubnet key) forwarding link packet gateway, .ok ()) := by
  unfold start
  split
  · next hkey => exact Or.inl ⟨_, s.status.forwarding, rfl, Or.inl hkey⟩
  · next key hkey =>
    split
    · exact Or.inr (Or.inl rfl)
    · next hidle =>
      rw [Bool.or_eq_true, not_or, Bool.not_eq_true] at hidle
      split
      · exact Or.inl ⟨_, s.status.forwarding, rfl, Or.inr hidle.1⟩
      · dsimp only
        split
        · next e _ => exact Or.inl ⟨e, _, rfl, Or.inr hidle.1⟩
        · next link packet hprepare =>
          obtain ⟨hlink, hpacket, -⟩ := prepare_eq_ok.mp hprepare
          exact Or.inr (Or.inr ⟨key, link, packet, _, _, _, hkey, hidle.1, hlink, hpacket, rfl,
            rfl⟩)

/-- A start goes well when its calls on the machine do. -/
theorem exists_start {key : NodeKey} {link : LinkInfo} {packet : List UInt8}
    (hkey : s.key = some key) (hidle : s.isStarted = false) (henable : s.settings.enable = true)
    (hintervals : ¬ s.settings.maxInterval < s.settings.minInterval)
    (hlink : m.lookup w s.settings.interface = .ok link)
    (hpacket : (compose s.settings (nodeSubnet key) link.hardware link.linkLocal).encode =
      .ok packet)
    (hsocket : m.openSocket w link = .ok ()) :
    ∃ forwarding gateway w', s.start m w =
      (w', s.withPipeline (nodeSubnet key) forwarding link packet gateway, .ok ()) := by
  have hprepare : prepare m w s.settings (nodeSubnet key) = .ok (link, packet) :=
    prepare_eq_ok.mpr ⟨hlink, hpacket, hsocket⟩
  obtain ⟨_, settings, status, stats, spawned, running⟩ := s
  cases hkey
  have henabled : settings.enable = true := henable
  rw [start]
  simp only [hidle, henabled, Bool.not_true, Bool.or_self, Bool.false_eq_true, if_false, hprepare]
  rw [if_neg hintervals]
  exact ⟨_, _, _, rfl⟩

theorem start_of_isStarted (hkey : s.key ≠ none) (h : s.isStarted = true) :
    s.start m w = (w, s, .ok ()) := by
  obtain ⟨key, hkey⟩ := Option.ne_none_iff_exists'.mp hkey
  rw [start, hkey]
  simp only [h, Bool.true_or, if_true]

theorem stop_of_not_isStarted (h : s.isStarted = false) : s.stop m w = (w, s) := by
  rw [stop, Option.isNone_iff_eq_none.mp (Option.isSome_eq_false_iff.mp h)]

/-- The service without its pipeline. -/
def withoutPipeline (s : Service) (k : Nat) : Service :=
  { s with
    status := { s.status with started := false, gateway := none }
    spawned := s.spawned.modify k fun p => { p with aborted := true }
    running := none }

theorem stop_of_running {r : Running} (h : s.running = some r) :
    s.stop m w = (releaseGateway m w r.gateway, s.withoutPipeline r.place) := by
  rw [stop, h]
  rfl

/-! ## The invariant -/

/-- What is reported, what runs and what was aborted belong together. -/
structure Sound (s : Service) : Prop where
  started : s.status.started = s.isStarted
  gateway : s.isStarted = false → s.status.gateway = none
  keyed : s.isStarted = true → s.key ≠ none
  live : ∀ k, s.IsLive k ↔ ∃ r, s.running = some r ∧ r.place = k

theorem sound_default : ({} : Service).Sound where
  started := rfl
  gateway _ := rfl
  keyed := nofun
  live _ := ⟨nofun, nofun⟩

theorem Sound.init (h : s.Sound) (key : NodeKey) (settings : AdvertiserSettings) :
    (s.init key settings).Sound :=
  ⟨h.started, h.gateway, nofun, h.live⟩

theorem Sound.isStarted_of_isLive (h : s.Sound) {k : Nat} (hk : s.IsLive k) :
    s.isStarted = true := by
  obtain ⟨r, hr, -⟩ := (h.live k).mp hk
  rw [isStarted, hr]
  rfl

theorem Sound.not_isLive (h : s.Sound) (hidle : s.isStarted = false) (k : Nat) : ¬ s.IsLive k := by
  intro hlive
  rw [h.isStarted_of_isLive hlive] at hidle
  cases hidle

theorem Sound.start (h : s.Sound) (m : Machine σ) (w : σ) : (s.start m w).2.1.Sound := by
  rcases start_cases m w s with ⟨e, forwarding, heq, -⟩ | heq |
    ⟨key, link, packet, forwarding, gateway, w', hkey, hidle, -, -, -, heq⟩
  · rw [heq]
    exact ⟨h.started, h.gateway, h.keyed, h.live⟩
  · rw [heq]
    exact h
  · rw [heq]
    refine ⟨rfl, nofun, fun _ => ?_, fun k => ?_⟩
    · show s.key ≠ none
      rw [hkey]
      exact nofun
    · -- no other pipeline is live when a new one begins
      refine (isLiveAt_concat rfl k).trans ?_
      constructor
      · rintro (hold | hnew)
        · exact absurd hold (h.not_isLive hidle k)
        · exact ⟨_, rfl, hnew⟩
      · rintro ⟨r, hr, hplace⟩
        cases hr
        exact Or.inr hplace

theorem Sound.stop (h : s.Sound) (m : Machine σ) (w : σ) : (s.stop m w).2.Sound := by
  cases hr : s.running with
  | none =>
    rw [stop_of_not_isStarted (by rw [isStarted, hr]; rfl)]
    exact h
  | some r =>
    rw [stop_of_running hr]
    refine ⟨rfl, fun _ => rfl, nofun, fun k => ?_⟩
    refine (isLiveAt_abort s.spawned r.place k).trans ?_
    constructor
    · rintro ⟨hlive, hne⟩
      obtain ⟨r', hr', hplace⟩ := (h.live k).mp hlive
      rw [hr] at hr'
      cases hr'
      exact absurd hplace hne
    · rintro ⟨r', hr', -⟩
      cases hr'

theorem isStarted_stop (m : Machine σ) (w : σ) (s : Service) :
    (s.stop m w).2.isStarted = false := by
  cases hr : s.running with
  | none =>
    have hidle : s.isStarted = false := by
      rw [isStarted, hr]
      rfl
    rw [stop_of_not_isStarted hidle]
    exact hidle
  | some r =>
    rw [stop_of_running hr]
    rfl

theorem Sound.onPipeline (h : s.Sound) (k : Nat) (f : Pipeline → Pipeline) :
    (s.onPipeline k f).Sound := by
  unfold Service.onPipeline
  split
  · next link p hk =>
    refine ⟨h.started, h.gateway, h.keyed, fun j => Iff.trans ?_ (h.live j)⟩
    have hkeep : ∀ q, (s.spawned.set k ⟨link, q, false⟩).map (·.aborted) =
        s.spawned.map (·.aborted) := fun q => map_set_eq hk rfl
    rw [IsLive, isLiveAt_iff, hkeep, ← isLiveAt_iff]
    rfl
  · exact h

/-! ## The packets -/

/-- The packets of all pipelines so far. -/
def packets (s : Service) : List (List UInt8) := s.spawned.map (·.pipeline.packet)

theorem packets_start (m : Machine σ) (w : σ) (s : Service) :
    (s.start m w).2.1.packets = s.packets ∨ ∃ key link packet, s.key = some key ∧
      m.lookup w s.settings.interface = .ok link ∧
      (compose s.settings (nodeSubnet key) link.hardware link.linkLocal).encode = .ok packet ∧
      (s.start m w).2.1.packets = s.packets ++ [packet] := by
  rcases start_cases m w s with ⟨e, forwarding, heq, -⟩ | heq |
    ⟨key, link, packet, forwarding, gateway, w', hkey, -, hlink, hpacket, -, heq⟩
  · rw [heq]
    exact Or.inl rfl
  · rw [heq]
    exact Or.inl rfl
  · refine Or.inr ⟨key, link, packet, hkey, hlink, hpacket, ?_⟩
    rw [heq]
    exact List.map_append

theorem packets_stop (m : Machine σ) (w : σ) (s : Service) :
    (s.stop m w).2.packets = s.packets := by
  cases hr : s.running with
  | none =>
    rw [stop_of_not_isStarted (by rw [isStarted, hr]; rfl)]
  | some r =>
    rw [stop_of_running hr]
    refine map_modify_eq (fun p => ?_) s.spawned r.place
    rfl

theorem packets_onPipeline {f : Pipeline → Pipeline} (hf : ∀ p, (f p).packet = p.packet) (k : Nat) :
    (s.onPipeline k f).packets = s.packets := by
  unfold Service.onPipeline
  split
  · next link p hk =>
    refine map_set_eq hk ?_
    show (f { p with stats := s.stats }).packet = p.packet
    rw [hf]
  · rfl

end Service

/-! ## Histories -/

/-- Something that happens to the service or to its machine. -/
inductive Act (σ : Type)
  | init (key : NodeKey) (settings : AdvertiserSettings)
  | start
  | stop
  | update (settings : AdvertiserSettings)
  /-- The machine changes. -/
  | change (w : σ)
  /-- A pipeline takes a step. -/
  | work (k : Nat) (e : Pipeline.Event)

/-- The machine and the service. -/
structure Site (σ : Type) where
  world : σ
  service : Service

namespace Site

variable {x : Site σ} {a : Act σ}

/-- The machine and the service when an act comes to start the service. -/
def attempt? (m : Machine σ) (x : Site σ) : Act σ → Option (Site σ)
  | .start => some x
  | .update settings =>
    let (w, s) := x.service.stop m x.world
    some ⟨w, { s with settings }⟩
  | _ => none

/-- What comes of an act. -/
def act (m : Machine σ) (x : Site σ) (a : Act σ) : Site σ :=
  match a with
  | .init key settings => { x with service := x.service.init key settings }
  | .start =>
    let (w, s, _) := x.service.start m x.world
    ⟨w, s⟩
  | .stop =>
    let (w, s) := x.service.stop m x.world
    ⟨w, s⟩
  | .update settings =>
    let (w, s, _) := x.service.update m x.world settings
    ⟨w, s⟩
  | .change w => { x with world := w }
  | .work k e => { x with service := x.service.onPipeline k fun p => (p.step? e).getD p }

/-- What an act returns. -/
def result (m : Machine σ) (x : Site σ) : Act σ → Except ModuleError Unit
  | .start => (x.service.start m x.world).2.2
  | .update settings => (x.service.update m x.world settings).2.2
  | _ => .ok ()

/-- The octets that an act sends: a send by a pipeline that was not aborted ends well. -/
def sent? (x : Site σ) : Act σ → Option (List UInt8)
  | .work k (.sendEnds true) =>
    match x.service.spawned[k]? with
    | some ⟨_, p, false⟩ => if p.sender = .sending then some p.packet else none
    | _ => none
  | _ => none

/-- After some acts. -/
def after (m : Machine σ) (x : Site σ) (as : List (Act σ)) : Site σ := as.foldl (act m) x

@[simp] theorem after_nil (m : Machine σ) (x : Site σ) : x.after m [] = x := rfl

theorem after_cons (m : Machine σ) (x : Site σ) (a : Act σ) (as : List (Act σ)) :
    x.after m (a :: as) = (x.act m a).after m as := rfl

theorem after_append (m : Machine σ) (x : Site σ) (as bs : List (Act σ)) :
    x.after m (as ++ bs) = (x.after m as).after m bs := List.foldl_append

/-- An act that starts the service does what a start does. -/
theorem act_of_attempt {y : Site σ} (h : x.attempt? m a = some y) :
    x.act m a = ⟨(y.service.start m y.world).1, (y.service.start m y.world).2.1⟩ ∧
      x.result m a = (y.service.start m y.world).2.2 := by
  cases a with
  | start =>
    cases h
    exact ⟨rfl, rfl⟩
  | update settings =>
    cases h
    exact ⟨rfl, rfl⟩
  | _ => cases h

theorem act_stop (m : Machine σ) (x : Site σ) :
    x.act m .stop = ⟨(x.service.stop m x.world).1, (x.service.stop m x.world).2⟩ := rfl

theorem result_of_not_attempt (h : x.attempt? m a = none) : x.result m a = .ok () := by
  cases a with
  | start => cases h
  | update settings => cases h
  | _ => rfl

theorem sound_attempt {y : Site σ} (hx : x.service.Sound) (h : x.attempt? m a = some y) :
    y.service.Sound := by
  cases a with
  | start =>
    cases h
    exact hx
  | update settings =>
    cases h
    have hstop := hx.stop m x.world
    exact ⟨hstop.started, hstop.gateway, hstop.keyed, hstop.live⟩
  | _ => cases h

theorem sound_act (hx : x.service.Sound) (a : Act σ) : (x.act m a).service.Sound := by
  cases hattempt : x.attempt? m a with
  | some y =>
    rw [(act_of_attempt hattempt).1]
    exact (sound_attempt hx hattempt).start m y.world
  | none =>
    cases a with
    | init key settings => exact hx.init key settings
    | stop => exact hx.stop m x.world
    | change w => exact hx
    | work k e => exact hx.onPipeline k fun p => (p.step? e).getD p
    | _ => cases hattempt

theorem sound_after (hx : x.service.Sound) (as : List (Act σ)) : (x.after m as).service.Sound := by
  induction as generalizing x with
  | nil => exact hx
  | cons a as ih => exact ih (sound_act hx a)

/-! ## Packets -/

/-- The packet that a start composes of the settings and the key at that moment. -/
def Composes (m : Machine σ) (y : Site σ) (packet : List UInt8) : Prop :=
  ∃ key link, y.service.key = some key ∧
    m.lookup y.world y.service.settings.interface = .ok link ∧
    (compose y.service.settings (nodeSubnet key) link.hardware link.linkLocal).encode = .ok packet

/-- In a history, an act has started the service with a pipeline of some place and packet. -/
def BegunBy (m : Machine σ) (x : Site σ) (as : List (Act σ)) (k : Nat) (packet : List UInt8) :
    Prop :=
  ∃ bs a cs y, as = bs ++ a :: cs ∧ (x.after m bs).attempt? m a = some y ∧
    y.service.packets.length = k ∧
    (x.after m (bs ++ [a])).service.packets.length = k + 1 ∧ y.Composes m packet

theorem packets_attempt {y : Site σ} (h : x.attempt? m a = some y) :
    y.service.packets = x.service.packets := by
  cases a with
  | start =>
    cases h
    rfl
  | update settings =>
    cases h
    exact x.service.packets_stop m x.world
  | _ => cases h

/-- An act begins one pipeline at most. -/
theorem packets_act (x : Site σ) (a : Act σ) :
    (x.act m a).service.packets = x.service.packets ∨ ∃ y packet, x.attempt? m a = some y ∧
      y.Composes m packet ∧ (x.act m a).service.packets = x.service.packets ++ [packet] := by
  cases hattempt : x.attempt? m a with
  | some y =>
    rw [(act_of_attempt hattempt).1, ← packets_attempt hattempt]
    rcases y.service.packets_start m y.world with hsame |
      ⟨key, link, packet, hkey, hlink, hpacket, hnew⟩
    · exact Or.inl hsame
    · exact Or.inr ⟨y, packet, rfl, ⟨key, link, hkey, hlink, hpacket⟩, hnew⟩
  | none =>
    left
    cases a with
    | init key settings => rfl
    | stop => exact x.service.packets_stop m x.world
    | change w => rfl
    | work k e =>
      refine Service.packets_onPipeline (fun p => ?_) k
      cases hstep : p.step? e with
      | none => rfl
      | some p' => exact Pipeline.packet_step hstep
    | _ => cases hattempt

theorem begunBy_after (x : Site σ) (as : List (Act σ)) {k : Nat} {packet : List UInt8}
    (h : (x.after m as).service.packets[k]? = some packet) :
    x.service.packets[k]? = some packet ∨ x.BegunBy m as k packet := by
  induction as generalizing x with
  | nil => exact Or.inl h
  | cons a as ih =>
    rcases ih (x.act m a) h with hfirst | ⟨bs, a', cs, y, rfl, hattempt, hbefore, hafter, hpacket⟩
    · rcases x.packets_act a with hsame | ⟨y, packet', hattempt, hpacket, hnew⟩
      · rw [hsame] at hfirst
        exact Or.inl hfirst
      · rw [hnew, getElem?_concat_eq_some] at hfirst
        rcases hfirst with hold | ⟨hlast, rfl⟩
        · exact Or.inl hold
        · refine Or.inr ⟨[], a, as, y, rfl, hattempt, ?_, ?_, hpacket⟩
          · rw [packets_attempt hattempt, hlast]
          · show (x.act m a).service.packets.length = k + 1
            rw [hnew, List.length_append, hlast, List.length_singleton]
    · exact Or.inr ⟨a :: bs, a', cs, y, rfl, hattempt, hbefore, hafter, hpacket⟩

/-! ## Counts -/

theorem total_onPipeline_le {s : Service} {f : Pipeline → Pipeline}
    (hf : ∀ p, (f p).stats.total ≤ p.stats.total + 1) (k : Nat) :
    (s.onPipeline k f).stats.total ≤ s.stats.total + 1 := by
  unfold Service.onPipeline
  split
  · exact hf _
  · exact Nat.le_succ _

theorem stats_start (m : Machine σ) (w : σ) (s : Service) :
    (s.start m w).2.1.stats = s.stats := by
  rcases s.start_cases m w with ⟨e, forwarding, heq, -⟩ | heq |
    ⟨key, link, packet, forwarding, gateway, w', -, -, -, -, -, heq⟩
  · rw [heq]
  · rw [heq]
  · rw [heq]
    rfl

theorem stats_stop (m : Machine σ) (w : σ) (s : Service) : (s.stop m w).2.stats = s.stats := by
  cases hr : s.running with
  | none => rw [Service.stop_of_not_isStarted (by rw [Service.isStarted, hr]; rfl)]
  | some r =>
    rw [Service.stop_of_running hr]
    rfl

theorem total_act_le (x : Site σ) (a : Act σ) :
    (x.act m a).service.stats.total ≤ x.service.stats.total + 1 := by
  have hsame : (x.act m a).service.stats = x.service.stats →
      (x.act m a).service.stats.total ≤ x.service.stats.total + 1 := by
    intro heq
    rw [heq]
    exact Nat.le_succ _
  cases a with
  | init key settings => exact hsame rfl
  | start => exact hsame (stats_start m x.world x.service)
  | stop => exact hsame (stats_stop m x.world x.service)
  | update settings =>
    refine hsame ((stats_start m _ _).trans ?_)
    exact stats_stop m x.world x.service
  | change w => exact hsame rfl
  | work k e =>
    refine total_onPipeline_le (fun p => ?_) k
    cases hstep : p.step? e with
    | none => exact Nat.le_succ _
    | some p' => exact Pipeline.total_step_le hstep

/-- No more is counted than there are acts. -/
theorem total_after_le (x : Site σ) (as : List (Act σ)) :
    (x.after m as).service.stats.total ≤ x.service.stats.total + as.length := by
  induction as generalizing x with
  | nil => exact Nat.le_refl _
  | cons a as ih =>
    have hrest := ih (x.act m a)
    have hone := x.total_act_le (m := m) a
    rw [after_cons, List.length_cons]
    omega

/-! ## What is reported -/

theorem member?_started (s : Service) :
    s.report.member? "started" = some (.bool s.status.started) := by
  simp [Service.report, Json.ofMembers, Json.member?, Json.lookup_insertMember]

theorem member?_gateway (s : Service) : s.report.member? "gateway" =
    some (((s.status.gateway.map Ipv6.render).map Json.str).getD .null) := by
  simp [Service.report, Json.ofMembers, Json.member?, Json.lookup_insertMember]

theorem member?_gateway_of_idle {s : Service} (hs : s.Sound) (hidle : s.isStarted = false) :
    s.report.member? "gateway" = some .null := by
  rw [member?_gateway, hs.gateway hidle]
  rfl

/-! ## The lifecycle -/

/-- After a start that has failed the service is stopped, and the machine is as before the start. -/
structure Undone (m : Machine σ) (x : Site σ) (a : Act σ) : Prop where
  idle : (x.act m a).service.isStarted = false
  aborted : ∀ k, ¬ (x.act m a).service.IsLive k
  gateway : (x.act m a).service.report.member? "gateway" = some .null
  world : (x.attempt? m a).map (·.world) = some (x.act m a).world

theorem undone_of_error (hx : x.service.Sound) {e : ModuleError} (h : x.result m a = .error e) :
    x.Undone m a := by
  cases hattempt : x.attempt? m a with
  | none =>
    rw [result_of_not_attempt hattempt] at h
    cases h
  | some y =>
    have hy := sound_attempt hx hattempt
    have hsound := sound_act (m := m) hx a
    obtain ⟨hact, hresult⟩ := act_of_attempt hattempt
    rw [hresult] at h
    have hidle : (x.act m a).service.isStarted = false ∧ y.world = (x.act m a).world := by
      rcases y.service.start_cases m y.world with ⟨e', forwarding, heq, hwhy⟩ | heq |
        ⟨key, link, packet, forwarding, gateway, w', -, -, -, -, -, heq⟩
      · rw [hact, heq]
        refine ⟨?_, rfl⟩
        rcases hwhy with hkey | hidle
        · exact Bool.eq_false_iff.mpr fun hstarted => hy.keyed hstarted hkey
        · exact hidle
      · rw [heq] at h
        cases h
      · rw [heq] at h
        cases h
    refine ⟨hidle.1, hsound.not_isLive hidle.1, member?_gateway_of_idle hsound hidle.1, ?_⟩
    rw [hattempt]
    exact congrArg some hidle.2

theorem sent?_eq_some {octets : List UInt8} (h : x.sent? a = some octets) :
    ∃ k, x.service.IsLive k ∧ x.service.packets[k]? = some octets := by
  unfold sent? at h
  split at h
  · next k =>
    split at h
    · next link p hk =>
      split at h
      · cases h
        refine ⟨k, ⟨_, hk, rfl⟩, ?_⟩
        rw [Service.packets, List.getElem?_map, hk]
        rfl
      · cases h
    · cases h
  · cases h

/-- Whatever settings and keys the service is given, whatever comes of its calls on the machine and
in whichever order it is started and stopped, what it reports is what runs, and after a stop nothing
does. -/
theorem lifecycle_consistent (m : Machine σ) (w : σ) (as : List (Act σ)) :
    let x₀ : Site σ := ⟨w, {}⟩
    let x := x₀.after m as
    x.service.report.member? "started" = some (.bool x.service.isStarted) ∧
      (∀ g, x.service.report.member? "gateway" = some g → g ≠ .null →
        x.service.isStarted = true) ∧
      (x.service.isStarted = true ↔ ∃ k, x.service.IsLive k) ∧
      (∀ j k, x.service.IsLive j → x.service.IsLive k → j = k) ∧
      (∀ a e, x.result m a = .error e → x.Undone m a) ∧
      (x.service.isStarted = true → x.act m .start = x ∧ x.result m .start = .ok ()) ∧
      (x.service.isStarted = false → x.act m .stop = x) ∧
      ((x.act m .stop).service.isStarted = false ∧
        (∀ k, ¬ (x.act m .stop).service.IsLive k) ∧
        (x.act m .stop).service.report.member? "started" = some (.bool false) ∧
        (x.act m .stop).service.report.member? "gateway" = some .null) ∧
      ∀ a octets, x.sent? a = some octets → x.service.isStarted = true ∧
        ∃ k, x.service.IsLive k ∧ x₀.BegunBy m as k octets := by
  intro x₀ x
  have hx : x.service.Sound := sound_after Service.sound_default as
  refine ⟨?_, ?_, ?_, ?_, fun a e => undone_of_error hx, ?_, ?_, ?_, ?_⟩
  · rw [member?_started, hx.started]
  · intro g hg hne
    cases hidle : x.service.isStarted with
    | true => rfl
    | false =>
      rw [member?_gateway_of_idle hx hidle] at hg
      exact absurd (Option.some.inj hg).symm hne
  · constructor
    · intro hstarted
      obtain ⟨r, hr⟩ := Option.isSome_iff_exists.mp hstarted
      exact ⟨r.place, (hx.live r.place).mpr ⟨r, hr, rfl⟩⟩
    · rintro ⟨k, hk⟩
      exact hx.isStarted_of_isLive hk
  · -- either is the one that the service has on record
    intro j k hj hk
    obtain ⟨r, hr, rfl⟩ := (hx.live j).mp hj
    obtain ⟨r', hr', rfl⟩ := (hx.live k).mp hk
    rw [hr] at hr'
    cases hr'
    rfl
  · intro hstarted
    have hstart := Service.start_of_isStarted (m := m) (w := x.world) (hx.keyed hstarted) hstarted
    obtain ⟨hact, hresult⟩ := act_of_attempt (show x.attempt? m .start = some x from rfl)
    rw [hact, hresult, hstart]
    exact ⟨rfl, rfl⟩
  · intro hidle
    rw [act_stop, Service.stop_of_not_isStarted hidle]
  · have hstop : (x.act m .stop).service.Sound := sound_act hx .stop
    have hidle : (x.act m .stop).service.isStarted = false :=
      Service.isStarted_stop m x.world x.service
    refine ⟨hidle, hstop.not_isLive hidle, ?_, member?_gateway_of_idle hstop hidle⟩
    rw [member?_started, hstop.started, hidle]
  · intro a octets hsent
    obtain ⟨k, hlive, hpacket⟩ := sent?_eq_some hsent
    rcases begunBy_after x₀ as hpacket with hbefore | hbegun
    · cases hbefore
    · exact ⟨hx.isStarted_of_isLive hlive, k, hlive, hbegun⟩

/-- A machine on which every call goes well. -/
def smoothMachine : Machine Unit where
  forwarding _ _ := .enabled
  lookup _ name := .ok ⟨name, 1, .zero 6, .zero 16⟩
  openSocket _ _ := .ok ()
  addAddress w _ _ := (w, .ok ())
  removeAddress w _ _ := (w, .ok ())

/-- The first advertisement is being sent when the node gets another key and other settings. -/
def rekeyed : List (Act Unit) :=
  [.init (.zero 32) { enable := true }, .start, .work 0 .pacerPosts, .work 0 .senderTakes,
    .init (.padded 32 [1]) { enable := true, advertiseDns := true }]

/-- The packet that is sent in the end is the one of the first key and settings. -/
theorem old_packet_sent :
    ∃ packet, ((Site.mk () {}).after smoothMachine rekeyed).sent? (.work 0 (.sendEnds true)) =
        some packet ∧
      (Site.mk () {}).BegunBy smoothMachine rekeyed 0 packet := by
  have hencode : ∀ subnet hw linkAddr, ∃ packet,
      (compose { enable := true } subnet hw linkAddr).encode = .ok packet :=
    fun _ _ _ => ⟨_, rfl⟩
  obtain ⟨packet, hpacket⟩ := hencode (nodeSubnet (.zero 32)) (.zero 6) (.zero 16)
  let first : Service := ({} : Service).init (.zero 32) { enable := true }
  have hstart : ∃ forwarding gateway w, first.start smoothMachine () =
      (w, first.withPipeline (nodeSubnet (.zero 32)) forwarding ⟨"", 1, .zero 6, .zero 16⟩ packet
        gateway, .ok ()) :=
    Service.exists_start rfl rfl rfl (by decide) rfl hpacket rfl
  obtain ⟨forwarding, gateway, w, hstart⟩ := hstart
  have hinit : (Site.mk () {}).act smoothMachine (.init (.zero 32) { enable := true }) =
      ⟨(), first⟩ := rfl
  have hattempt : (Site.mk () first).attempt? smoothMachine .start = some ⟨(), first⟩ := rfl
  have hfirst := (act_of_attempt hattempt).1
  have hsent : ((Site.mk () {}).after smoothMachine rekeyed).sent? (.work 0 (.sendEnds true)) =
      some packet := by
    rw [rekeyed, after_cons, hinit, after_cons, hfirst, hstart]
    rfl
  refine ⟨packet, hsent, ?_⟩
  obtain ⟨-, -, -, hone, -, -, -, -, hsends⟩ := lifecycle_consistent smoothMachine () rekeyed
  obtain ⟨-, k, hlive, hbegun⟩ := hsends _ _ hsent
  have hzero : ((Site.mk () {}).after smoothMachine rekeyed).service.IsLive 0 := by
    rw [rekeyed, after_cons, hinit, after_cons, hfirst, hstart]
    exact ⟨_, rfl, rfl⟩
  obtain rfl : 0 = k := hone 0 k hzero hlive
  exact hbegun

end Site

end MeshNode.Advertiser
