import MeshNode.Advertiser.Segment
import MeshNode.Proofs.Advertiser.Lifecycle
import MeshNode.Proofs.Net.Addresses

/-!
# Whose address the gateway address is

A started service may have an address of its own on the link, and someone else may have put
the same address there. What tells the two apart is what came of the call that added it. The
calls are therefore put on record by the machine itself, in the order in which they are made.

* **the record** — `AddressEntry`; `Rightful` says that nothing is taken away but what was
  brought, and `Settled` that all of it was taken away; a `Ledger` is such a record by its
  construction;
* **one start and one stop** — `Service.held?` is the address that the service answers for;
  `Service.start_custody` and `Service.stop_custody` are all that they do about it;
* **histories** — `Site.ledger_recorded`: the record is a ledger; `Site.Holds.stop`: a stop gives
  the addresses back as they were before the start;
* **all of it** — `Site.takes_only_what_it_brought`.
-/

namespace MeshNode.Advertiser

variable {σ : Type} {m : Machine σ} {w w' : σ} {s : Service}

/-! ## The record -/

/-- A call on the addresses of an interface, and what came of it. -/
inductive AddressEntry
  | add (p : Placement) (result : Except AddressFault Unit)
  | remove (p : Placement) (result : Except AddressFault Unit)

namespace AddressEntry

/-- The address that a call was about. -/
def placement : AddressEntry → Placement
  | add p _ | remove p _ => p

def isAddOf (p : Placement) : AddressEntry → Bool
  | add q _ => q == p
  | remove _ _ => false

def isRemoveOf (p : Placement) : AddressEntry → Bool
  | add _ _ => false
  | remove q _ => q == p

/-- The latest call about an address. -/
def latest? (p : Placement) (es : List AddressEntry) : Option AddressEntry :=
  (es.filter (·.placement == p)).getLast?

/-- How often an address was taken away before it was added again. -/
def removals (p : Placement) (es : List AddressEntry) : Nat :=
  (es.takeWhile (! isAddOf p ·)).countP (isRemoveOf p)

end AddressEntry

open AddressEntry

/-- Each call that takes an address away is the only one for a call that has added it. -/
structure Rightful (es : List AddressEntry) : Prop where
  brought : ∀ before p r after, es = before ++ .remove p r :: after →
    latest? p before = some (.add p (.ok ()))
  once : ∀ before p after, es = before ++ .add p (.ok ()) :: after → removals p after ≤ 1
  never : ∀ before p e after, es = before ++ .add p (.error e) :: after → removals p after = 0

/-- Each address that was added was taken away once. -/
def Settled (es : List AddressEntry) : Prop :=
  ∀ before p after, es = before ++ .add p (.ok ()) :: after → removals p after = 1

/-- A record in which an address that was added is taken away before anything else happens, with
the address that is still to be taken away. -/
inductive Ledger : List AddressEntry → Option Placement → Prop
  | nil : Ledger [] none
  | held (p : Placement) : Ledger [.add p (.ok ())] (some p)
  | refused (p : Placement) (e : AddressFault) {es : List AddressEntry} {h : Option Placement} :
    Ledger es h → Ledger (.add p (.error e) :: es) h
  | returned (p : Placement) (r : Except AddressFault Unit) {es : List AddressEntry}
    {h : Option Placement} : Ledger es h → Ledger (.add p (.ok ()) :: .remove p r :: es) h

namespace Ledger

variable {es : List AddressEntry} {h : Option Placement} {p : Placement}

theorem add (hes : Ledger es none) (p : Placement) (r : Except AddressFault Unit) :
    Ledger (es ++ [.add p r]) (if r.isOk then some p else none) := by
  generalize hnone : (none : Option Placement) = free at hes
  induction hes with
  | nil =>
    cases r with
    | ok u => exact held p
    | error e => exact refused p e nil
  | held q => cases hnone
  | refused q e _ ih => exact refused q e (ih hnone)
  | returned q r' _ ih => exact returned q r' (ih hnone)

theorem remove (hes : Ledger es (some p)) (r : Except AddressFault Unit) :
    Ledger (es ++ [.remove p r]) none := by
  generalize hsome : some p = h at hes
  induction hes with
  | nil => cases hsome
  | held q =>
    cases hsome
    exact returned p r nil
  | refused q e _ ih => exact refused q e (ih hsome)
  | returned q r' _ ih => exact returned q r' (ih hsome)

theorem removals_eq_zero (hes : Ledger es h) (p : Placement) : removals p es = 0 := by
  -- a call that takes an address away stands behind one that adds it
  induction hes with
  | nil => rfl
  | held q =>
    by_cases hq : q = p
    · simp [removals, isAddOf, hq]
    · simp [removals, isAddOf, isRemoveOf, hq]
  | refused q e _ ih =>
    by_cases hq : q = p
    · simp [removals, isAddOf, hq]
    · simpa [removals, isAddOf, isRemoveOf, hq] using ih
  | returned q r _ ih =>
    by_cases hq : q = p
    · simp [removals, isAddOf, hq]
    · simpa [removals, isAddOf, isRemoveOf, hq] using ih

theorem removals_returned (hes : Ledger es h) (p : Placement) (r : Except AddressFault Unit) :
    removals p (.remove p r :: es) = 1 := by
  have hzero := hes.removals_eq_zero p
  simpa [removals, isAddOf, isRemoveOf] using hzero

theorem latest?_cons {e : AddressEntry} (c : AddressEntry) (hes : latest? p es = some e) :
    latest? p (c :: es) = some e := by
  unfold latest? at hes ⊢
  rw [List.filter_cons]
  split
  · rw [List.getLast?_cons, hes]
    rfl
  · exact hes

/-- What stands around a call in a record: the address `h` is still to be taken away. -/
def Lawful (h : Option Placement) (before after : List AddressEntry) : AddressEntry → Prop
  | .add p (.ok ()) => removals p after = 1 ∨ removals p after = 0 ∧ h = some p
  | .add p (.error _) => removals p after = 0
  | .remove p _ => latest? p before = some (.add p (.ok ()))

theorem Lawful.cons {before after : List AddressEntry} {c : AddressEntry}
    (hc : Lawful h before after c) (d : AddressEntry) : Lawful h (d :: before) after c := by
  rcases c with ⟨p, e | u⟩ | ⟨p, r⟩
  · exact hc
  · exact hc
  · exact latest?_cons d hc

theorem lawful (hes : Ledger es h) {before after : List AddressEntry} {c : AddressEntry}
    (heq : es = before ++ c :: after) : Lawful h before after c := by
  induction hes generalizing before with
  | nil => simp at heq
  | held p =>
    cases before with
    | nil =>
      cases heq
      exact Or.inr ⟨rfl, rfl⟩
    | cons d before => simp at heq
  | refused p e hrest ih =>
    cases before with
    | nil =>
      cases heq
      exact hrest.removals_eq_zero p
    | cons d before =>
      cases heq
      exact (ih rfl).cons _
  | returned p r hrest ih =>
    cases before with
    | nil =>
      cases heq
      exact Or.inl (hrest.removals_returned p r)
    | cons d before =>
      cases before with
      | nil =>
        cases heq
        simp [Lawful, latest?, placement]
      | cons d' before =>
        cases heq
        exact ((ih rfl).cons _).cons _

theorem rightful (hes : Ledger es h) : Rightful es where
  brought _ _ _ _ heq := hes.lawful heq
  once before p after heq := by
    rcases hes.lawful heq with hone | ⟨hzero, -⟩
    · exact Nat.le_of_eq hone
    · rw [hzero]
      exact Nat.zero_le 1
  never _ _ _ _ heq := hes.lawful heq

theorem settled (hes : Ledger es none) : Settled es := by
  intro before p after heq
  rcases hes.lawful heq with hone | ⟨-, hheld⟩
  · exact hone
  · cases hheld

end Ledger

/-! ## One start and one stop -/

/-- The address that a gateway address stands for while it is installed. -/
def Gateway.held? (g : Gateway) : Option Placement :=
  if g.installed then some (g.index, g.address) else none

/-- The gateway address that a service keeps when the call to add it has ended. -/
def Gateway.kept? (g : Gateway) (r : Except AddressFault Unit) : Option Gateway :=
  match g.added r with
  | (g, .ok ()) => some g
  | (_, .error _) => none

theorem Gateway.held?_kept? {g : Gateway} (hg : g.installed = false)
    (r : Except AddressFault Unit) :
    (g.kept? r).bind Gateway.held? = if r.isOk then some (g.index, g.address) else none := by
  cases r with
  | ok u => rfl
  | error e =>
    -- an address that was there already counts as success, but it is not installed
    cases e with
    | alreadyPresent => simp [kept?, added, held?, hg, Except.isOk, Except.toBool]
    | _ => rfl

namespace Service

/-- The address that the service has added and not taken away. -/
def held? (s : Service) : Option Placement := (s.running.bind (·.gateway)).bind Gateway.held?

theorem held?_of_not_isStarted (h : s.isStarted = false) : s.held? = none := by
  rw [held?, Option.isNone_iff_eq_none.mp (Option.isSome_eq_false_iff.mp h)]
  rfl

theorem held?_of_running {r : Running} (h : s.running = some r) :
    s.held? = r.gateway.bind Gateway.held? := by
  rw [held?, h]
  rfl

/-- Installing makes one call, whose result alone decides what is kept. -/
theorem installGateway_eq (m : Machine σ) (w : σ) (link : LinkInfo) (subnet : Subnet) :
    installGateway m w link subnet =
      let g := Gateway.new link.name link.index ⟨subnet.gateway, Subnet.length⟩
      let (w', r) := m.addAddress w g.index g.address
      (w', g.kept? r) := by
  obtain ⟨g, hg⟩ : ∃ g, g = Gateway.new link.name link.index ⟨subnet.gateway, Subnet.length⟩ :=
    ⟨_, rfl⟩
  have hadd : g.add m.addAddress w = ((m.addAddress w g.index g.address).1,
      g.added (m.addAddress w g.index g.address).2) := by
    rw [hg]
    rfl
  unfold installGateway
  dsimp only
  rw [← hg, hadd, Gateway.kept?]
  cases g.added (m.addAddress w g.index g.address).2 with
  | mk g' result =>
    cases result with
    | ok u => rfl
    | error e => rfl

/-- A start makes no call on addresses, or a service that holds none adds one. -/
theorem start_custody (m : Machine σ) (w : σ) (s : Service) :
    ((s.start m w).1 = w ∧ (s.start m w).2.1.held? = s.held?) ∨
    s.held? = none ∧ ∃ p w' r, m.addAddress w p.1 p.2 = (w', r) ∧ (s.start m w).1 = w' ∧
      (s.start m w).2.1.held? = if r.isOk then some p else none := by
  rcases start_cases m w s with ⟨e, forwarding, heq, -⟩ | heq |
    ⟨key, link, packet, forwarding, gateway, w', -, hidle, -, -, hgateway, heq⟩
  · rw [heq]
    exact Or.inl ⟨rfl, rfl⟩
  · rw [heq]
    exact Or.inl ⟨rfl, rfl⟩
  · rw [heq]
    have hnone := held?_of_not_isStarted hidle
    split at hgateway
    · rw [installGateway_eq] at hgateway
      cases hgateway
      exact Or.inr ⟨hnone, (link.index, ⟨(nodeSubnet key).gateway, Subnet.length⟩), _, _, rfl, rfl,
        Gateway.held?_kept? rfl _⟩
    · cases hgateway
      exact Or.inl ⟨rfl, hnone.symm⟩

/-- A stop takes the address away that is held, if any, and makes no other call on addresses. -/
theorem stop_custody (m : Machine σ) (w : σ) (s : Service) :
    (s.stop m w).2.held? = none ∧
      (s.stop m w).1 = match s.held? with
        | none => w
        | some p => (m.removeAddress w p.1 p.2).1 := by
  cases hr : s.running with
  | none =>
    have hidle : s.isStarted = false := by rw [isStarted, hr]; rfl
    rw [stop_of_not_isStarted hidle, held?_of_not_isStarted hidle]
    exact ⟨rfl, rfl⟩
  | some r =>
    rw [stop_of_running hr, held?_of_running hr]
    refine ⟨rfl, ?_⟩
    obtain ⟨place, gateway⟩ := r
    cases gateway with
    | none => rfl
    | some g =>
      show (g.remove m.removeAddress w).1 = match g.held? with
        | none => w
        | some p => (m.removeAddress w p.1 p.2).1
      unfold Gateway.remove Gateway.held?
      split
      · rfl
      · rfl

theorem held?_onPipeline (s : Service) (k : Nat) (f : Pipeline → Pipeline) :
    (s.onPipeline k f).held? = s.held? := by
  unfold onPipeline
  split
  · rfl
  · rfl

end Service

/-! ## A machine that keeps a record -/

/-- The machine with a record of the calls on its addresses. -/
def Machine.recorded (m : Machine σ) : Machine (σ × List AddressEntry) where
  forwarding w := m.forwarding w.1
  lookup w := m.lookup w.1
  openSocket w := m.openSocket w.1
  addAddress w i a :=
    let (w', r) := m.addAddress w.1 i a
    ((w', w.2 ++ [.add (i, a) r]), r)
  removeAddress w i a :=
    let (w', r) := m.removeAddress w.1 i a
    ((w', w.2 ++ [.remove (i, a) r]), r)

namespace Service

theorem installGateway_recorded (m : Machine σ) (w : σ × List AddressEntry) (link : LinkInfo)
    (subnet : Subnet) :
    ((installGateway m.recorded w link subnet).1.1, (installGateway m.recorded w link subnet).2) =
      installGateway m w.1 link subnet := by
  rw [installGateway_eq, installGateway_eq]
  rfl

theorem run_recorded (m : Machine σ) (w : σ × List AddressEntry) (s : Service) (subnet : Subnet)
    (link : LinkInfo) (packet : List UInt8) :
    ((run m.recorded w s subnet link packet).1.1, (run m.recorded w s subnet link packet).2) =
      run m w.1 s subnet link packet := by
  unfold run
  by_cases hgateway : s.settings.setGatewayIp = true
  · rw [if_pos hgateway, if_pos hgateway, ← installGateway_recorded]
  · rw [if_neg hgateway, if_neg hgateway]

/-- A start does the same with the record and without it. -/
theorem start_recorded (m : Machine σ) (w : σ × List AddressEntry) (s : Service) :
    ((s.start m.recorded w).1.1, (s.start m.recorded w).2) = s.start m w.1 := by
  unfold start
  split
  · rfl
  · next key hkey =>
    split
    · rfl
    · split
      · rfl
      · have hprepare : prepare m.recorded w = prepare m w.1 := rfl
        rw [hprepare]
        dsimp only
        split
        · rfl
        · dsimp only
          rw [← run_recorded]
          rfl

theorem stop_recorded (m : Machine σ) (w : σ × List AddressEntry) (s : Service) :
    ((s.stop m.recorded w).1.1, (s.stop m.recorded w).2) = s.stop m w.1 := by
  unfold stop
  split
  · rfl
  · next r hr =>
    have hrelease : (releaseGateway m.recorded w r.gateway).1 = releaseGateway m w.1 r.gateway := by
      cases r.gateway with
      | none => rfl
      | some g =>
        show (g.remove m.recorded.removeAddress w).1.1 = (g.remove m.removeAddress w.1).1
        unfold Gateway.remove
        split
        · rfl
        · rfl
    rw [hrelease]

end Service

/-! ## Histories -/

/-- An act on the machine that keeps a record: a change of the machine leaves the record alone. -/
def Act.keeping (es : List AddressEntry) : Act σ → Act (σ × List AddressEntry)
  | .init key settings => .init key settings
  | .start => .start
  | .stop => .stop
  | .update settings => .update settings
  | .change w => .change (w, es)
  | .work k e => .work k e

namespace Site

variable {x : Site (σ × List AddressEntry)} {a : Act σ}

/-- What comes of an act on the machine that keeps a record. -/
def recordAct (m : Machine σ) (x : Site (σ × List AddressEntry)) (a : Act σ) :
    Site (σ × List AddressEntry) :=
  x.act m.recorded (a.keeping x.world.2)

/-- After some acts on the machine that keeps a record. -/
def recorded (m : Machine σ) (x : Site (σ × List AddressEntry)) (as : List (Act σ)) :
    Site (σ × List AddressEntry) :=
  as.foldl (recordAct m) x

/-- The site without the record. -/
def unrecorded (x : Site (σ × List AddressEntry)) : Site σ := ⟨x.world.1, x.service⟩

theorem unrecorded_recordAct (m : Machine σ) (x : Site (σ × List AddressEntry)) (a : Act σ) :
    (x.recordAct m a).unrecorded = x.unrecorded.act m a := by
  cases a with
  | init key settings => rfl
  | start =>
    have h := Service.start_recorded m x.world x.service
    show (⟨(x.service.start m.recorded x.world).1.1, (x.service.start m.recorded x.world).2.1⟩ :
      Site σ) = ⟨(x.service.start m x.world.1).1, (x.service.start m x.world.1).2.1⟩
    rw [← h]
  | stop =>
    have h := Service.stop_recorded m x.world x.service
    show (⟨(x.service.stop m.recorded x.world).1.1, (x.service.stop m.recorded x.world).2⟩ :
      Site σ) = ⟨(x.service.stop m x.world.1).1, (x.service.stop m x.world.1).2⟩
    rw [← h]
  | update settings =>
    have hstop := Service.stop_recorded m x.world x.service
    let s' : Service := { (x.service.stop m.recorded x.world).2 with settings }
    have hstart := Service.start_recorded m (x.service.stop m.recorded x.world).1 s'
    show (⟨(s'.start m.recorded (x.service.stop m.recorded x.world).1).1.1,
      (s'.start m.recorded (x.service.stop m.recorded x.world).1).2.1⟩ : Site σ) =
        ⟨(x.service.update m x.world.1 settings).1, (x.service.update m x.world.1 settings).2.1⟩
    unfold Service.update
    rw [← hstop]
    dsimp only
    rw [← hstart]
  | change w => rfl
  | work k e => rfl

theorem unrecorded_recorded (m : Machine σ) (x : Site (σ × List AddressEntry))
    (as : List (Act σ)) : (x.recorded m as).unrecorded = x.unrecorded.after m as := by
  induction as generalizing x with
  | nil => rfl
  | cons a as ih =>
    rw [after_cons, ← unrecorded_recordAct]
    exact ih (x.recordAct m a)

/-! ## The record of a history -/

/-- The record is a ledger, in which the address that the service holds is still open. -/
def Kept (x : Site (σ × List AddressEntry)) : Prop := Ledger x.world.2 x.service.held?

theorem Kept.start (hx : x.Kept) (m : Machine σ) (settings : AdvertiserSettings) :
    Ledger ({ x.service with settings }.start m.recorded x.world).1.2
      ({ x.service with settings }.start m.recorded x.world).2.1.held? := by
  rcases Service.start_custody m.recorded x.world { x.service with settings } with
    ⟨hworld, hheld⟩ | ⟨hfree, p, w', r, hcall, hworld, hheld⟩
  · rw [hworld, hheld]
    exact hx
  · cases hcall
    rw [hworld, hheld]
    have hclosed : Ledger x.world.2 none := by
      rw [← hfree]
      exact hx
    exact hclosed.add p _

theorem Kept.stop (hx : x.Kept) (m : Machine σ) : Ledger (x.service.stop m.recorded x.world).1.2
    (x.service.stop m.recorded x.world).2.held? := by
  obtain ⟨hfree, hworld⟩ := Service.stop_custody m.recorded x.world x.service
  rw [hfree, hworld]
  unfold Kept at hx
  cases hheld : x.service.held? with
  | none =>
    rw [hheld] at hx
    exact hx
  | some p =>
    rw [hheld] at hx
    exact hx.remove _

theorem kept_recordAct (hx : x.Kept) (m : Machine σ) (a : Act σ) : (x.recordAct m a).Kept := by
  cases a with
  | init key settings => exact hx
  | start => exact hx.start m x.service.settings
  | stop => exact hx.stop m
  | update settings =>
    exact Kept.start (x := ⟨_, (x.service.stop m.recorded x.world).2⟩) (hx.stop m) m settings
  | change w => exact hx
  | work k e =>
    show Ledger x.world.2 (x.service.onPipeline k _).held?
    rw [Service.held?_onPipeline]
    exact hx

theorem kept_recorded (hx : x.Kept) (m : Machine σ) (as : List (Act σ)) :
    (x.recorded m as).Kept := by
  induction as generalizing x with
  | nil => exact hx
  | cons a as ih => exact ih (kept_recordAct hx m a)

end Site

/-! ## The addresses of the machine -/

/-- A call that goes well adds or takes away one address, one that fails changes nothing, and two
of the faults say that there is nothing to take away. -/
structure Machine.Assigns (m : Machine σ) (placements : σ → Set Placement) : Prop where
  added : ∀ {w w' : σ} {p : Placement}, m.addAddress w p.1 p.2 = (w', .ok ()) →
    p ∉ placements w ∧ placements w' = insert p (placements w)
  notAdded : ∀ {w w' : σ} {p : Placement} {e : AddressFault},
    m.addAddress w p.1 p.2 = (w', .error e) → placements w' = placements w
  removed : ∀ {w w' : σ} {p : Placement}, m.removeAddress w p.1 p.2 = (w', .ok ()) →
    placements w' = placements w \ {p}
  notRemoved : ∀ {w w' : σ} {p : Placement} {e : AddressFault},
    m.removeAddress w p.1 p.2 = (w', .error e) →
      placements w' = placements w ∧ (e = .notAvailable ∨ e = .noSuchDevice → p ∉ placements w)

theorem assigns_ofInterfaces : Machine.ofInterfaces.Assigns Interfaces.placements where
  added h := Interfaces.placements_addAddress h
  notAdded h := congrArg _ (Interfaces.addAddress_error h)
  removed h := Interfaces.placements_removeAddress h
  notRemoved h := ⟨congrArg _ (Interfaces.removeAddress_error h).1,
    (Interfaces.removeAddress_error h).2⟩

namespace Site

variable {placements : σ → Set Placement} {k : Nat} {before : σ} {x : Site σ} {a : Act σ}

/-- The addresses of one interface. -/
def addressesAt (placements : σ → Set Placement) (k : Nat) (w : σ) : Set InterfaceAddress :=
  {a | (k, a) ∈ placements w}

/-- The act does not stop the service, and nobody else edits the addresses of an interface. -/
def IsCalm (placements : σ → Set Placement) (k : Nat) (x : Site σ) : Act σ → Prop
  | .stop | .update _ => False
  | .change w => addressesAt placements k w = addressesAt placements k x.world
  | _ => True

/-- All acts of a history are calm. -/
def Undisturbed (m : Machine σ) (placements : σ → Set Placement) (k : Nat) :
    Site σ → List (Act σ) → Prop
  | _, [] => True
  | x, a :: as => x.IsCalm placements k a ∧ Undisturbed m placements k (x.act m a) as

/-- An interface has the addresses of before, and one more if the service holds one there. -/
structure Holds (placements : σ → Set Placement) (k : Nat) (before : σ) (x : Site σ) : Prop where
  has : ∀ a, (k, a) ∈ placements x.world ↔
    (k, a) ∈ placements before ∨ x.service.held? = some (k, a)
  own : ∀ a, x.service.held? = some (k, a) → (k, a) ∉ placements before

theorem holds_of_idle (h : x.service.held? = none) : x.Holds placements k x.world where
  has a := by simp [h]
  own a ha := by
    rw [h] at ha
    cases ha

theorem Holds.start (hm : m.Assigns placements) (hx : x.Holds placements k before) :
    Holds placements k before ⟨(x.service.start m x.world).1, (x.service.start m x.world).2.1⟩ := by
  rcases Service.start_custody m x.world x.service with
    ⟨hworld, hheld⟩ | ⟨hfree, p, w', r, hcall, hworld, hheld⟩
  · constructor
    · intro a
      rw [hworld, hheld]
      exact hx.has a
    · intro a ha
      rw [hheld] at ha
      exact hx.own a ha
  · have hbefore : ∀ a, (k, a) ∈ placements x.world ↔ (k, a) ∈ placements before := by
      intro a
      rw [hx.has, hfree]
      simp
    cases r with
    | ok u =>
      obtain ⟨hnew, hadded⟩ := hm.added hcall
      have hheld : (x.service.start m x.world).2.1.held? = some p := hheld
      constructor
      · intro a
        rw [hworld, hheld, hadded, Set.mem_insert_iff, hbefore, or_comm, Option.some.injEq]
        exact or_congr_right eq_comm
      · intro a ha
        rw [hheld] at ha
        cases ha
        rw [← hbefore]
        exact hnew
    | error e =>
      have hheld : (x.service.start m x.world).2.1.held? = none := hheld
      constructor
      · intro a
        rw [hworld, hheld, hm.notAdded hcall, hbefore]
        simp
      · intro a ha
        rw [hheld] at ha
        cases ha

theorem holds_act (hm : m.Assigns placements) (hx : x.Holds placements k before)
    (ha : x.IsCalm placements k a) : (x.act m a).Holds placements k before := by
  cases a with
  | init key settings => exact ⟨hx.has, hx.own⟩
  | start => exact hx.start hm
  | stop => exact absurd ha id
  | update settings => exact absurd ha id
  | change w =>
    refine ⟨fun a => ?_, hx.own⟩
    have hsame : a ∈ addressesAt placements k w ↔ a ∈ addressesAt placements k x.world := by
      rw [show addressesAt placements k w = addressesAt placements k x.world from ha]
    exact hsame.trans (hx.has a)
  | work j e =>
    have hheld := x.service.held?_onPipeline j fun p => (p.step? e).getD p
    constructor
    · intro a
      show (k, a) ∈ placements x.world ↔ _ ∨ (x.service.onPipeline j _).held? = _
      rw [hheld]
      exact hx.has a
    · intro a ha
      exact hx.own a (hheld.symm.trans ha)

theorem holds_after (hm : m.Assigns placements) {as : List (Act σ)}
    (hx : x.Holds placements k before) (has : x.Undisturbed m placements k as) :
    (x.after m as).Holds placements k before := by
  induction as generalizing x with
  | nil => exact hx
  | cons a as ih => exact ih (holds_act hm hx has.1) has.2

/-- A stop gives the interface back as it was. -/
theorem Holds.stop (hm : m.Assigns placements) (hx : x.Holds placements k before)
    (hfault : ∀ p w' e, x.service.held? = some p →
      m.removeAddress x.world p.1 p.2 = (w', .error e) →
      e = .notAvailable ∨ e = .noSuchDevice) :
    addressesAt placements k (x.service.stop m x.world).1 = addressesAt placements k before := by
  rw [(Service.stop_custody m x.world x.service).2]
  refine Set.ext fun a => ?_
  cases hheld : x.service.held? with
  | none =>
    refine (hx.has a).trans ?_
    rw [hheld]
    exact or_iff_left nofun
  | some p =>
    show (k, a) ∈ placements (m.removeAddress x.world p.1 p.2).1 ↔ (k, a) ∈ placements before
    cases hcall : m.removeAddress x.world p.1 p.2 with
    | mk w' r =>
      cases r with
      | ok u =>
        rw [hm.removed hcall, Set.mem_sdiff, Set.mem_singleton_iff, hx.has, hheld]
        constructor
        · rintro ⟨hold | hown, hne⟩
          · exact hold
          · exact absurd (Option.some.inj hown).symm hne
        · intro hold
          refine ⟨Or.inl hold, ?_⟩
          rintro rfl
          exact hx.own a hheld hold
      | error e =>
        obtain ⟨hsame, hgone⟩ := hm.notRemoved hcall
        have hp := hgone (hfault p w' e hheld hcall)
        rw [hsame, hx.has, hheld]
        constructor
        · rintro (hold | hown)
          · exact hold
          · cases hown
            exact absurd ((hx.has a).mpr (Or.inr hheld)) hp
        · exact Or.inl

/-- Whatever comes of the calls, whatever settings the service is given and whoever else changes
the machine: nothing is taken away but what the service has brought, and all of that once the
service is stopped or dropped. An interface that nobody else edits is then as it was. -/
theorem takes_only_what_it_brought (m : Machine σ) (w : σ) (as : List (Act σ)) :
    let x₀ : Site (σ × List AddressEntry) := ⟨(w, []), {}⟩
    let x := x₀.recorded m as
    let dropped := x.service.drop m.recorded x.world
    x.unrecorded = x₀.unrecorded.after m as ∧
      (x.recordAct m .stop).world = dropped ∧
      (∀ settings, (x.attempt? m.recorded (.update settings)).map (·.world) = some dropped) ∧
      Rightful x.world.2 ∧ Rightful dropped.2 ∧
      (x.service.isStarted = false → Settled x.world.2) ∧ Settled dropped.2 ∧
      ∀ placements k, m.Assigns placements →
        ∀ bs a cs y, as = bs ++ a :: cs → (x₀.unrecorded.after m bs).attempt? m a = some y →
          y.service.isStarted = false →
          (x₀.unrecorded.after m (bs ++ [a])).Undisturbed m placements k cs →
          (∀ p e, dropped.2 = x.world.2 ++ [.remove p (.error e)] →
            e = .notAvailable ∨ e = .noSuchDevice) →
          addressesAt placements k dropped.1 = addressesAt placements k y.world := by
  intro x₀ x dropped
  have hnew : x₀.Kept := Ledger.nil
  have hkept : x.Kept := kept_recorded hnew m as
  obtain ⟨hfree, hworld⟩ := Service.stop_custody m.recorded x.world x.service
  have hdropped : Ledger dropped.2 none := by
    rw [← hfree]
    exact hkept.stop m
  refine ⟨unrecorded_recorded m x₀ as, rfl, fun _ => rfl, hkept.rightful, hdropped.rightful, ?_,
    hdropped.settled, ?_⟩
  · intro hidle
    have hclosed : Ledger x.world.2 none := by
      rw [← Service.held?_of_not_isStarted hidle]
      exact hkept
    exact hclosed.settled
  · intro placements k hm bs a cs y has hattempt hidle hcalm hfault
    have hbegun : (x₀.unrecorded.after m (bs ++ [a])).Holds placements k y.world := by
      rw [after_append, after_cons, after_nil, (act_of_attempt hattempt).1]
      exact (holds_of_idle (Service.held?_of_not_isStarted hidle)).start hm
    have hend : x.unrecorded.Holds placements k y.world := by
      have hall := holds_after hm hbegun hcalm
      rw [← after_append, ← List.append_cons, ← has] at hall
      rw [unrecorded_recorded]
      exact hall
    have hsame : dropped.1 = (x.service.stop m x.world.1).1 :=
      congrArg Prod.fst (Service.stop_recorded m x.world x.service)
    rw [hsame]
    refine hend.stop hm fun p w' e hheld hcall => hfault p e ?_
    have hheld : x.service.held? = some p := hheld
    have hcall : m.removeAddress x.world.1 p.1 p.2 = (w', .error e) := hcall
    show (x.service.stop m.recorded x.world).1.2 = x.world.2 ++ [.remove p (.error e)]
    rw [hworld, hheld]
    show x.world.2 ++ [.remove p (m.removeAddress x.world.1 p.1 p.2).2] = _
    rw [hcall]

/-- A machine with one link, which has its link-local address only. -/
def bareLink : Interfaces :=
  ⟨[Interfaces.loopback, ⟨"eth0", 2, some (.zero 6), true, true, [⟨.padded 16 [0xfe, 0x80], 64⟩]⟩]⟩

/-- Settings with a gateway address. -/
def gatewayOnLink : AdvertiserSettings :=
  { enable := true, interface := "eth0", setGatewayIp := true }

/-- The node gets another key while the gateway address of its first one is on the link. -/
def rekeyedGateway : List (Act Interfaces) :=
  [.init (.zero 32) gatewayOnLink, .start, .init (.padded 32 [1]) gatewayOnLink]

/-- The address of the first key is the one that is taken away. -/
theorem first_gateway_taken :
    let x := (Site.mk (bareLink, []) {}).recorded Machine.ofInterfaces rekeyedGateway
    x.service.held? = some (2, ⟨(nodeSubnet (.zero 32)).gateway, Subnet.length⟩) ∧
      addressesAt Interfaces.placements 2
        (x.service.drop Machine.ofInterfaces.recorded x.world).1 =
          addressesAt Interfaces.placements 2 bareLink := by
  intro x
  refine ⟨by decide +kernel, ?_⟩
  obtain ⟨-, -, -, -, -, -, -, hgivenBack⟩ :=
    takes_only_what_it_brought Machine.ofInterfaces bareLink rekeyedGateway
  have hresults : (x.service.drop Machine.ofInterfaces.recorded x.world).2.all
      (fun | .remove _ (.error _) => false | _ => true) = true := by decide +kernel
  refine hgivenBack Interfaces.placements 2 assigns_ofInterfaces
    [.init (.zero 32) gatewayOnLink] .start [.init (.padded 32 [1]) gatewayOnLink]
    ⟨bareLink, ({} : Service).init (.zero 32) gatewayOnLink⟩ rfl rfl rfl ⟨trivial, trivial⟩ ?_
  intro p e hlast
  have hlast : (x.service.drop Machine.ofInterfaces.recorded x.world).2 =
    x.world.2 ++ [.remove p (.error e)] := hlast
  rw [hlast] at hresults
  simp at hresults

end Site

end MeshNode.Advertiser
