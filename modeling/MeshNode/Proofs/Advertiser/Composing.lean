import MeshNode.Proofs.Advertiser.Lifecycle
import MeshNode.Proofs.Ndp.Reading
import MeshNode.Proofs.Ndp.Writing

/-!
# Composed advertisements

Every advertisement that is composed has a form on the wire and is read back as it was, so
composing is never what keeps the service from starting.

* **options** — `mem_options_compose`: what an advertisement is composed of;
  `whole_of_mem_compose`: the wire holds each of these options whole;
* **the wire** — `exists_encode_compose` and `decode_of_encode_compose`;
* **starting** — `Service.start_eq_settings`: only intervals in the wrong order are the fault of
  the settings;
* **accepted settings** — `IsAccepted.inOrder`: they have the intervals in order;
  `Site.isAccepted_act` is one act, `Site.isAccepted_after` a history;
* **all of it** — `composed_survives_wire`.
-/

namespace MeshNode

namespace Advertiser

open MeshNode.Ndp

variable {settings : AdvertiserSettings} {subnet : Subnet} {hwAddr : HwAddr} {linkAddr : Ipv6}
  {o : MessageOption} {bytes : List UInt8}

/-! ## Options -/

theorem mem_options_compose : o ∈ (compose settings subnet hwAddr linkAddr).options ↔
    o = .network subnet.network (UInt8.ofNat Subnet.length) true true validLifetime
        preferredLifetime ∨
      settings.advertiseDefaultRouter = false ∧ o = meshRoute ∨
      o = .linkLayer true hwAddr ∨
      settings.advertiseDns = true ∧ o = .dnsServers infiniteLifetime [linkAddr] := by
  cases hrouter : settings.advertiseDefaultRouter <;> cases hdns : settings.advertiseDns <;>
    simp [compose, hrouter, hdns]

/-- An option that the wire holds whole: it is written, and read back as it is. -/
structure Whole (o : MessageOption) : Prop where
  served : o.Served
  foreign : o.Foreign
  written : ∃ bytes, o.encode = .ok bytes
  kept : o.norm = o

theorem whole_network (address : Ipv6) (onLink autonomous : Bool) :
    Whole (.network address (UInt8.ofNat Subnet.length) onLink autonomous validLifetime
      preferredLifetime) where
  served := trivial
  foreign := trivial
  written := ⟨_, encode_network (by decide)⟩
  kept := rfl

theorem whole_meshRoute : Whole meshRoute where
  served := trivial
  foreign := trivial
  written := ⟨_, encode_route (by decide)⟩
  kept := by decide

theorem whole_linkLayer (source : Bool) (address : HwAddr) : Whole (.linkLayer source address) where
  served := trivial
  foreign := trivial
  written := ⟨_, encode_linkLayer⟩
  kept := rfl

theorem whole_dnsServer (address : Ipv6) : Whole (.dnsServers infiniteLifetime [address]) where
  served := List.cons_ne_nil _ _
  foreign := trivial
  written := ⟨_, encode_dns (show [address].length ≤ 127 by simp)⟩
  kept := rfl

/-- The wire holds every option of a composed advertisement whole. -/
theorem whole_of_mem_compose (h : o ∈ (compose settings subnet hwAddr linkAddr).options) :
    Whole o := by
  rcases mem_options_compose.mp h with rfl | ⟨-, rfl⟩ | rfl | ⟨-, rfl⟩
  · exact whole_network subnet.network true true
  · exact whole_meshRoute
  · exact whole_linkLayer true hwAddr
  · exact whole_dnsServer linkAddr

/-! ## The wire -/

theorem routerLifetime_compose (settings : AdvertiserSettings) (subnet : Subnet)
    (hwAddr : HwAddr) (linkAddr : Ipv6) :
    (compose settings subnet hwAddr linkAddr).routerLifetime =
      if settings.advertiseDefaultRouter then routeLifetime else .zero := rfl

theorem norm_compose (settings : AdvertiserSettings) (subnet : Subnet) (hwAddr : HwAddr)
    (linkAddr : Ipv6) :
    (compose settings subnet hwAddr linkAddr).norm = compose settings subnet hwAddr linkAddr := by
  have hlifetime : (compose settings subnet hwAddr linkAddr).routerLifetime.capSecs 0xffff =
      (compose settings subnet hwAddr linkAddr).routerLifetime := by
    rw [routerLifetime_compose]
    split
    · exact Duration.capSecs_ofSecs (show 1800 ≤ 0xffff by omega)
    · decide
  have hzero : Duration.zero.capMillis 0xffffffff = .zero := by decide
  have hoptions : (compose settings subnet hwAddr linkAddr).options.map MessageOption.norm =
      (compose settings subnet hwAddr linkAddr).options := by
    conv_rhs => rw [← List.map_id (compose settings subnet hwAddr linkAddr).options]
    exact List.map_congr_left fun o ho => (whole_of_mem_compose ho).kept
  calc (compose settings subnet hwAddr linkAddr).norm
      = { compose settings subnet hwAddr linkAddr with
          reachableTime := Duration.zero.capMillis 0xffffffff
          retransmitTimer := Duration.zero.capMillis 0xffffffff } := by
        rw [RouterAdvertisement.norm, hlifetime, hoptions]
        rfl
    _ = compose settings subnet hwAddr linkAddr := by
        rw [hzero]
        rfl

theorem exists_encode_compose (settings : AdvertiserSettings) (subnet : Subnet) (hwAddr : HwAddr)
    (linkAddr : Ipv6) :
    ∃ bytes, (compose settings subnet hwAddr linkAddr).encode = .ok bytes :=
  RouterAdvertisement.exists_encode_iff.mpr fun _ ho => (whole_of_mem_compose ho).written

theorem decode_of_encode_compose
    (h : (compose settings subnet hwAddr linkAddr).encode = .ok bytes) :
    decode bytes = .ok (.advertisement (compose settings subnet hwAddr linkAddr)) := by
  have hspells := spells_of_encode (fun _ ho => (whole_of_mem_compose ho).foreign)
    (fun _ ho => (whole_of_mem_compose ho).served) h
  rw [norm_compose] at hspells
  exact decode_of_spells hspells

/-- The route to the mesh stands in for a router's lifetime. -/
theorem route_mem_compose_iff :
    (∃ preference lifetime, .route meshNetwork 7 preference lifetime ∈
        (compose settings subnet hwAddr linkAddr).options) ↔
      (compose settings subnet hwAddr linkAddr).routerLifetime = .zero := by
  simp only [mem_options_compose, meshRoute, reduceCtorEq, and_false, false_or, or_false]
  rw [routerLifetime_compose]
  cases settings.advertiseDefaultRouter with
  | false => exact iff_of_true ⟨.medium, routeLifetime, rfl, rfl⟩ rfl
  | true =>
    refine iff_of_false ?_ (by decide)
    rintro ⟨_, _, hfalse, -⟩
    cases hfalse

/-! ## Starting -/

namespace Service

variable {σ : Type} {m : Machine σ} {w : σ} {s : Service} {reason : String}

theorem prepare_ne_settings (m : Machine σ) (w : σ) (settings : AdvertiserSettings)
    (subnet : Subnet) (reason : String) :
    prepare m w settings subnet ≠ .error (.settings reason) := by
  intro h
  simp only [prepare, bind_eq_error, mapError_eq_error] at h
  rcases h with ⟨e, -, ⟨⟩⟩ | ⟨link, -, ⟨e, hencode, -⟩ | ⟨packet, -, ⟨e, -, ⟨⟩⟩ | ⟨_, -, ⟨⟩⟩⟩⟩
  obtain ⟨packet, hpacket⟩ := exists_encode_compose settings subnet link.hardware link.linkLocal
  rw [hpacket] at hencode
  cases hencode

/-- Starting blames the settings only for intervals in the wrong order. -/
theorem start_eq_settings (h : (s.start m w).2.2 = .error (.settings reason)) :
    s.settings.maxInterval < s.settings.minInterval := by
  unfold start at h
  split at h
  · cases h
  · split at h
    · cases h
    · split at h
      · assumption
      · dsimp only at h
        split at h
        · next e hprepare =>
          cases h
          exact absurd hprepare (prepare_ne_settings m w _ _ reason)
        · cases h

end Service

/-! ## Accepted settings -/

/-- The advertiser's part of settings that were accepted. -/
def IsAccepted (settings : AdvertiserSettings) : Prop :=
  ∃ s : Settings, s.validate = .ok () ∧ s.radv = settings

theorem IsAccepted.inOrder (h : IsAccepted settings) :
    ¬ settings.maxInterval < settings.minInterval := by
  obtain ⟨s, hvalid, rfl⟩ := h
  unfold Settings.validate at hvalid
  split at hvalid
  · cases hvalid
  · split at hvalid
    · cases hvalid
    · split at hvalid
      · cases hvalid
      · next hle =>
        have hsecs : s.radv.minIntervalSecs ≤ s.radv.maxIntervalSecs := Nat.le_of_not_lt hle
        exact Nat.not_lt.mpr (Nat.mul_le_mul_right 1000000000 hsecs)

theorem isAccepted_default : IsAccepted {} := ⟨{}, by decide, rfl⟩

theorem Service.start_ne_settings {σ : Type} {s : Service} (h : IsAccepted s.settings)
    (m : Machine σ) (w : σ) (reason : String) : (s.start m w).2.2 ≠ .error (.settings reason) :=
  fun hstart => h.inOrder (start_eq_settings hstart)

section Histories

variable {σ : Type} {m : Machine σ} {x : Site σ} {a : Act σ}

/-- The settings that an act brings were accepted. -/
def Act.BringsAccepted : Act σ → Prop
  | .init _ settings => IsAccepted settings
  | .update settings => IsAccepted settings
  | _ => True

theorem Service.settings_start (m : Machine σ) (w : σ) (s : Service) :
    (s.start m w).2.1.settings = s.settings := by
  rcases start_cases m w s with ⟨e, forwarding, heq, -⟩ | heq |
    ⟨key, link, packet, forwarding, gateway, w', -, -, -, -, -, heq⟩
  · rw [heq]
  · rw [heq]
  · rw [heq]
    rfl

theorem Service.settings_stop (m : Machine σ) (w : σ) (s : Service) :
    (s.stop m w).2.settings = s.settings := by
  unfold stop
  split
  · rfl
  · rfl

theorem Service.settings_onPipeline (s : Service) (k : Nat) (f : Pipeline → Pipeline) :
    (s.onPipeline k f).settings = s.settings := by
  unfold onPipeline
  split
  · rfl
  · rfl

namespace Site

/-- The settings that count when an act comes to start the service. -/
theorem isAccepted_attempt {y : Site σ} (hx : IsAccepted x.service.settings)
    (ha : a.BringsAccepted) (h : x.attempt? m a = some y) : IsAccepted y.service.settings := by
  cases a with
  | start =>
    cases h
    exact hx
  | update settings =>
    cases h
    exact ha
  | _ => cases h

theorem isAccepted_act (hx : IsAccepted x.service.settings) (ha : a.BringsAccepted) :
    IsAccepted (x.act m a).service.settings := by
  cases hattempt : x.attempt? m a with
  | some y =>
    rw [(act_of_attempt hattempt).1]
    show IsAccepted (y.service.start m y.world).2.1.settings
    rw [Service.settings_start]
    exact isAccepted_attempt hx ha hattempt
  | none =>
    cases a with
    | init key settings => exact ha
    | stop =>
      rw [act_stop]
      show IsAccepted (x.service.stop m x.world).2.settings
      rw [Service.settings_stop]
      exact hx
    | change w => exact hx
    | work k e =>
      show IsAccepted (x.service.onPipeline k _).settings
      rw [Service.settings_onPipeline]
      exact hx
    | _ => cases hattempt

theorem isAccepted_after (hx : IsAccepted x.service.settings) (as : List (Act σ))
    (h : ∀ a ∈ as, a.BringsAccepted) : IsAccepted (x.after m as).service.settings := by
  induction as generalizing x with
  | nil => exact hx
  | cons a as ih =>
    exact ih (isAccepted_act hx (h a List.mem_cons_self))
      fun b hb => h b (List.mem_cons_of_mem a hb)

theorem result_ne_settings (hx : IsAccepted x.service.settings) (ha : a.BringsAccepted)
    (reason : String) : x.result m a ≠ .error (.settings reason) := by
  cases hattempt : x.attempt? m a with
  | some y =>
    rw [(act_of_attempt hattempt).2]
    exact Service.start_ne_settings (isAccepted_attempt hx ha hattempt) m y.world reason
  | none =>
    rw [result_of_not_attempt hattempt]
    exact nofun

end Site

end Histories

/-! ## Composing and starting -/

/-- What is composed survives the wire, with a route to the mesh in place of a router's lifetime.
So no settings that were accepted keep the service from starting: not right after it was given
them, and not in a history in which it was never given any others. -/
theorem composed_survives_wire :
    (∀ (settings : AdvertiserSettings) (subnet : Subnet) (hwAddr : HwAddr) (linkAddr : Ipv6),
      (∃ bytes, (compose settings subnet hwAddr linkAddr).encode = .ok bytes ∧
        decode bytes = .ok (.advertisement (compose settings subnet hwAddr linkAddr))) ∧
      ((∃ preference lifetime, .route meshNetwork 7 preference lifetime ∈
          (compose settings subnet hwAddr linkAddr).options) ↔
        (compose settings subnet hwAddr linkAddr).routerLifetime = .zero)) ∧
    (∀ s : Settings, s.validate = .ok () →
      ∀ {σ : Type} (m : Machine σ) (w : σ) (service : Service) (key : NodeKey) (reason : String),
        ((service.init key s.radv).start m w).2.2 ≠ .error (.settings reason)) ∧
    ∀ {σ : Type} (m : Machine σ) (w : σ) (as : List (Act σ)) (a : Act σ) (reason : String),
      (∀ b ∈ as, b.BringsAccepted) → a.BringsAccepted →
        ((Site.mk w {}).after m as).result m a ≠ .error (.settings reason) := by
  refine ⟨fun settings subnet hwAddr linkAddr => ⟨?_, route_mem_compose_iff⟩, ?_, ?_⟩
  · obtain ⟨bytes, hencode⟩ := exists_encode_compose settings subnet hwAddr linkAddr
    exact ⟨bytes, hencode, decode_of_encode_compose hencode⟩
  · intro s hvalid σ m w service key reason
    exact Service.start_ne_settings ⟨s, hvalid, rfl⟩ m w reason
  · intro σ m w as a reason has ha
    exact Site.result_ne_settings (Site.isAccepted_after isAccepted_default as has) ha reason

/-- Settings whose two intervals are equal, and which offer a name server beside a route. -/
def tight : Settings :=
  { radv := { enable := true, interface := "eth0", advertiseDns := true, minIntervalSecs := 600 } }

/-- The service is given them before its first start and again while it runs. -/
theorem tight_never_refused :
    tight.validate = .ok () ∧
      ((({} : Service).init (.zero 32) tight.radv).start Site.smoothMachine ()).2.2 ≠
        .error (.settings "radv.min_interval_secs exceeds radv.max_interval_secs") ∧
      (∀ b ∈ [(.init (.zero 32) tight.radv : Act Unit), .start], b.BringsAccepted) ∧
      ((Site.mk () {}).after Site.smoothMachine [.init (.zero 32) tight.radv, .start]).result
          Site.smoothMachine (.update tight.radv) ≠
        .error (.settings "radv.min_interval_secs exceeds radv.max_interval_secs") := by
  have hvalid : tight.validate = .ok () := by decide
  have haccepted : IsAccepted tight.radv := ⟨tight, hvalid, rfl⟩
  have hhistory : ∀ b ∈ [(.init (.zero 32) tight.radv : Act Unit), .start],
      b.BringsAccepted := by
    intro b hb
    rcases List.mem_pair.mp hb with rfl | rfl
    · exact haccepted
    · trivial
  obtain ⟨-, hfirst, hlater⟩ := composed_survives_wire
  exact ⟨hvalid, hfirst tight hvalid Site.smoothMachine () {} (.zero 32) _, hhistory,
    hlater Site.smoothMachine () _ _ _ hhistory haccepted⟩

end Advertiser

end MeshNode
