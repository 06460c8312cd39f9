import Mathlib.Data.List.Induction
import MeshNode.Proofs.Advertiser.Custody

/-!
# The mark of the gateway address

A gateway address has a mark that it is installed. The mark goes before the call that takes the
address away, so that it is also gone when the call fails and leaves the address where it is.

* **the record** — `Since` over the calls that were made: `Brought` is what the mark should tell,
  `Abandoned` says that the call to take the address away has failed;
* **acts** — `act_cases` is all that adding and taking away can do; `marked_after`: the mark tells
  what it should unless the address was abandoned;
* **the interface** — `borne_after`: with nobody else at work the record tells what the interface
  has; `abandoned_after`: an address that was abandoned stays there for good;
* **all of it** — `marked_iff_not_abandoned`.
-/

namespace MeshNode.Advertiser

variable {σ : Type} {m : Machine σ} {p : Placement}

/-! ## The record -/

deriving instance DecidableEq for AddressEntry

namespace AddressEntry

variable {starts ends : AddressEntry → Prop} {es : List AddressEntry} {e : AddressEntry}

/-- Something in a record starts, and nothing behind it ends. -/
def Since (starts ends : AddressEntry → Prop) (es : List AddressEntry) : Prop :=
  ∃ before e after, es = before ++ e :: after ∧ starts e ∧ ∀ e' ∈ after, ¬ ends e'

theorem not_since_nil : ¬ Since starts ends [] := by
  rintro ⟨before, e, after, heq, -⟩
  simp at heq

theorem since_concat :
    Since starts ends (es ++ [e]) ↔ starts e ∨ Since starts ends es ∧ ¬ ends e := by
  constructor
  · rintro ⟨before, e', after, heq, hstarts, hafter⟩
    -- the last entry is the one that starts it, or it stands behind that one
    cases after using List.reverseRecOn with
    | nil =>
      obtain ⟨-, rfl⟩ := List.append_singleton_inj.mp heq
      exact Or.inl hstarts
    | append_singleton after last =>
      rw [← List.cons_append, ← List.append_assoc] at heq
      obtain ⟨rfl, rfl⟩ := List.append_singleton_inj.mp heq
      refine Or.inr ⟨⟨before, e', after, rfl, hstarts, fun d hd => ?_⟩, ?_⟩
      · exact hafter d (List.mem_append_left _ hd)
      · exact hafter e (List.mem_append_right _ (List.mem_singleton_self e))
  · rintro (hstarts | ⟨⟨before, e', after, rfl, hstarts, hafter⟩, hends⟩)
    · exact ⟨es, e, [], rfl, hstarts, fun d hd => absurd hd List.not_mem_nil⟩
    · refine ⟨before, e', after ++ [e], by rw [List.append_assoc, List.cons_append], hstarts, ?_⟩
      intro d hd
      rcases List.mem_append.mp hd with hd | hd
      · exact hafter d hd
      · rw [List.mem_singleton.mp hd]
        exact hends

/-- The call has put an address on its interface. -/
def Puts (p : Placement) (e : AddressEntry) : Prop := e = .add p (.ok ())

/-- The call has taken an address off its interface. -/
def TakesOff (p : Placement) (e : AddressEntry) : Prop := e = .remove p (.ok ())

/-- The call should have taken an address off its interface, and has failed. -/
def LeavesOn (p : Placement) (e : AddressEntry) : Prop := ∃ fault, e = .remove p (.error fault)

/-- Some call has put an address on its interface, and none has taken it off since. -/
def Brought (p : Placement) (es : List AddressEntry) : Prop := Since (Puts p) (TakesOff p) es

/-- A call that should have taken an address off has failed, and none has put it on since. -/
def Abandoned (p : Placement) (es : List AddressEntry) : Prop := Since (LeavesOn p) (Puts p) es

theorem brought_add (r : Except AddressFault Unit) :
    Brought p (es ++ [.add p r]) ↔ r = .ok () ∨ Brought p es := by
  rw [Brought, since_concat, Puts, TakesOff, AddressEntry.add.injEq]
  simp [Brought]

theorem brought_remove (r : Except AddressFault Unit) :
    Brought p (es ++ [.remove p r]) ↔ Brought p es ∧ r ≠ .ok () := by
  rw [Brought, since_concat, Puts, TakesOff, AddressEntry.remove.injEq]
  simp [Brought]

theorem abandoned_add (r : Except AddressFault Unit) :
    Abandoned p (es ++ [.add p r]) ↔ Abandoned p es ∧ r ≠ .ok () := by
  rw [Abandoned, since_concat, Puts, LeavesOn, AddressEntry.add.injEq]
  simp [Abandoned]

theorem abandoned_remove (r : Except AddressFault Unit) :
    Abandoned p (es ++ [.remove p r]) ↔ (∃ fault, r = .error fault) ∨ Abandoned p es := by
  rw [Abandoned, since_concat, Puts, LeavesOn]
  simp [Abandoned]

/-- No call that should have taken an address off has failed because the address was gone. -/
def NeverMissed (p : Placement) (es : List AddressEntry) : Prop :=
  ∀ fault, .remove p (.error fault) ∈ es → fault ≠ .notAvailable ∧ fault ≠ .noSuchDevice

theorem NeverMissed.concat (h : NeverMissed p es)
    (he : ∀ fault, e = .remove p (.error fault) →
      fault ≠ .notAvailable ∧ fault ≠ .noSuchDevice) : NeverMissed p (es ++ [e]) := by
  intro fault hfault
  rcases List.mem_append.mp hfault with hfault | hfault
  · exact h fault hfault
  · exact he fault (List.mem_singleton.mp hfault).symm

end AddressEntry

open AddressEntry

/-! ## Acts -/

namespace Gateway

/-- What can happen to a gateway address. -/
inductive Act (σ : Type)
  | add
  | remove
  /-- The machine changes by itself or by others. -/
  | change (w : σ)

/-- A gateway address on a machine, and the calls that it has made. -/
structure Tenure (σ : Type) where
  world : σ
  record : List AddressEntry
  gateway : Gateway

namespace Tenure

variable {x y : Tenure σ} {a : Act σ}

/-- A gateway address that was not added yet. -/
def new (w : σ) (interface : String) (p : Placement) : Tenure σ :=
  ⟨w, [], Gateway.new interface p.1 p.2⟩

/-- The interface and the address that all calls are about. -/
def placement (x : Tenure σ) : Placement := (x.gateway.index, x.gateway.address)

/-- What comes of an act. -/
def act (m : Machine σ) (x : Tenure σ) : Act σ → Tenure σ
  | .add =>
    let (w, gateway, _) := x.gateway.add m.recorded.addAddress (x.world, x.record)
    ⟨w.1, w.2, gateway⟩
  | .remove =>
    let (w, gateway, _) := x.gateway.remove m.recorded.removeAddress (x.world, x.record)
    ⟨w.1, w.2, gateway⟩
  | .change w => { x with world := w }

/-- After some acts. -/
def after (m : Machine σ) (x : Tenure σ) (as : List (Act σ)) : Tenure σ := as.foldl (act m) x

/-- The gateway address adds itself, which ends in some way. -/
structure Adds (m : Machine σ) (x y : Tenure σ) (r : Except AddressFault Unit) : Prop where
  free : x.gateway.installed = false
  call : m.addAddress x.world x.placement.1 x.placement.2 = (y.world, r)
  record : y.record = x.record ++ [.add x.placement r]
  mark : y.gateway.installed = r.isOk

/-- The gateway address takes itself away, which ends in some way. -/
structure Removes (m : Machine σ) (x y : Tenure σ) (r : Except AddressFault Unit) : Prop where
  installed : x.gateway.installed = true
  call : m.removeAddress x.world x.placement.1 x.placement.2 = (y.world, r)
  record : y.record = x.record ++ [.remove x.placement r]
  mark : y.gateway.installed = false

theorem act_of_not_installed (hx : x.gateway.installed = false) : x.act m .remove = x := by
  simp [act, Gateway.remove, hx]

theorem act_of_installed (hx : x.gateway.installed = true) : x.act m .add = x := by
  simp [act, Gateway.add, hx]

theorem adds_of_not_installed (hx : x.gateway.installed = false) :
    ∃ r, Adds m x (x.act m .add) r := by
  let call := m.addAddress x.world x.placement.1 x.placement.2
  have hadd : x.gateway.add m.recorded.addAddress (x.world, x.record) =
      ((call.1, x.record ++ [.add x.placement call.2]), x.gateway.added call.2) := by
    simp [Gateway.add, hx, Machine.recorded, placement, call]
  refine ⟨call.2, hx, ?_, ?_, ?_⟩
  · simp only [act, hadd, call]
  · simp only [act, hadd]
  · simp only [act, hadd]
    cases call.2 with
    | ok u => rfl
    | error e => cases e <;> exact hx

theorem removes_of_installed (hx : x.gateway.installed = true) :
    ∃ r, Removes m x (x.act m .remove) r := by
  let call := m.removeAddress x.world x.placement.1 x.placement.2
  have hremove : x.gateway.remove m.recorded.removeAddress (x.world, x.record) =
      ((call.1, x.record ++ [.remove x.placement call.2]), x.gateway.removed call.2) := by
    simp [Gateway.remove, hx, Machine.recorded, placement, call]
  refine ⟨call.2, hx, ?_, ?_, ?_⟩
  · simp only [act, hremove, call]
  · simp only [act, hremove]
  · simp only [act, hremove]
    cases call.2 with
    | ok u => rfl
    | error e => cases e <;> rfl

theorem placement_act (m : Machine σ) (x : Tenure σ) (a : Act σ) :
    (x.act m a).placement = x.placement := by
  cases a with
  | add =>
    simp only [act, Gateway.add]
    split
    · rfl
    · unfold Gateway.added
      split <;> rfl
  | remove =>
    simp only [act, Gateway.remove]
    split
    · unfold Gateway.removed
      split <;> rfl
    · rfl
  | change w => rfl

/-- Adding what is installed and taking away what is not do nothing; a change of the machine leaves
the gateway address alone; and anything else is one call. -/
theorem act_cases (m : Machine σ) (x : Tenure σ) (a : Act σ) :
    (x.act m a = x ∨ ∃ w, a = .change w ∧ x.act m a = { x with world := w }) ∨
      ∃ r, Adds m x (x.act m a) r ∨ Removes m x (x.act m a) r := by
  cases a with
  | add =>
    cases hx : x.gateway.installed with
    | true => exact Or.inl (Or.inl (act_of_installed hx))
    | false =>
      obtain ⟨r, hr⟩ := adds_of_not_installed (m := m) hx
      exact Or.inr ⟨r, Or.inl hr⟩
  | remove =>
    cases hx : x.gateway.installed with
    | true =>
      obtain ⟨r, hr⟩ := removes_of_installed (m := m) hx
      exact Or.inr ⟨r, Or.inr hr⟩
    | false => exact Or.inl (Or.inl (act_of_not_installed hx))
  | change w => exact Or.inl (Or.inr ⟨w, rfl, rfl⟩)

/-! ## The mark -/

/-- The mark tells whether the address was brought, unless it was abandoned. -/
structure Marked (p : Placement) (x : Tenure σ) : Prop where
  placement : x.placement = p
  mark : x.gateway.installed = true ↔ Brought p x.record ∧ ¬ Abandoned p x.record
  brought : Abandoned p x.record → Brought p x.record

theorem marked_new (w : σ) (interface : String) (p : Placement) : Marked p (new w interface p) :=
  ⟨rfl, iff_of_false Bool.false_ne_true fun h => not_since_nil h.1,
    fun h => absurd h not_since_nil⟩

theorem Marked.adds {r : Except AddressFault Unit} (hx : x.Marked p) (hy : y.placement = p)
    (h : Adds m x y r) : y.Marked p := by
  have hfree : ¬ (Brought p x.record ∧ ¬ Abandoned p x.record) := by
    rw [← hx.mark, h.free]
    exact Bool.false_ne_true
  refine ⟨hy, ?_, ?_⟩
  · rw [h.record, h.mark, hx.placement, brought_add, abandoned_add]
    cases r with
    | ok u => simp [Except.isOk, Except.toBool]
    | error e => simpa [Except.isOk, Except.toBool] using hfree
  · rw [h.record, hx.placement, brought_add, abandoned_add]
    exact fun habandoned => Or.inr (hx.brought habandoned.1)

theorem Marked.removes {r : Except AddressFault Unit} (hx : x.Marked p) (hy : y.placement = p)
    (h : Removes m x y r) : y.Marked p := by
  obtain ⟨hbrought, hkept⟩ := hx.mark.mp h.installed
  refine ⟨hy, ?_, ?_⟩
  · rw [h.record, h.mark, hx.placement, brought_remove, abandoned_remove]
    cases r with
    | ok u => simp
    | error e => simp
  · rw [h.record, hx.placement, brought_remove, abandoned_remove]
    rintro (⟨fault, rfl⟩ | habandoned)
    · exact ⟨hbrought, nofun⟩
    · exact absurd habandoned hkept

theorem Marked.act (hx : x.Marked p) (m : Machine σ) (a : Act σ) : (x.act m a).Marked p := by
  have hy : (x.act m a).placement = p := (placement_act m x a).trans hx.placement
  rcases act_cases m x a with (hsame | ⟨w, -, hsame⟩) | ⟨r, h | h⟩
  · rw [hsame]
    exact hx
  · rw [hsame]
    exact ⟨hx.placement, hx.mark, hx.brought⟩
  · exact hx.adds hy h
  · exact hx.removes hy h

theorem marked_after (hx : x.Marked p) (m : Machine σ) (as : List (Act σ)) :
    (x.after m as).Marked p := by
  induction as generalizing x with
  | nil => exact hx
  | cons a as ih => exact ih (hx.act m a)

/-! ## The interface -/

variable {placements : σ → Set Placement} {w : σ}

/-- Nobody else edits the addresses of the interface. -/
def Undisturbed (m : Machine σ) (placements : σ → Set Placement) :
    Tenure σ → List (Act σ) → Prop
  | _, [] => True
  | x, a :: as =>
    (∀ w, a = .change w →
      Site.addressesAt placements x.placement.1 w =
        Site.addressesAt placements x.placement.1 x.world) ∧
      Undisturbed m placements (x.act m a) as

theorem undisturbed_of_no_change {as : List (Act σ)} (has : ∀ w, .change w ∉ as) :
    x.Undisturbed m placements as := by
  induction as generalizing x with
  | nil => trivial
  | cons a as ih =>
    refine ⟨fun w ha => ?_, ih fun w hw => has w (List.mem_cons_of_mem a hw)⟩
    rw [ha] at has
    exact absurd List.mem_cons_self (has w)

/-- The record tells what the interface has: the address, if it was there at first or was
brought. -/
structure Borne (placements : σ → Set Placement) (w : σ) (p : Placement) (x : Tenure σ) :
    Prop where
  marked : x.Marked p
  has : p ∈ placements x.world ↔ p ∈ placements w ∨ Brought p x.record
  own : Brought p x.record → p ∉ placements w
  found : NeverMissed p x.record

theorem borne_new (w : σ) (interface : String) (p : Placement) :
    Borne placements w p (new w interface p) where
  marked := marked_new w interface p
  has := (or_iff_left not_since_nil).symm
  own h := absurd h not_since_nil
  found _ h := absurd h List.not_mem_nil

theorem Borne.adds {r : Except AddressFault Unit} (hm : m.Assigns placements)
    (hx : x.Borne placements w p) (hy : y.Marked p) (h : Adds m x y r) :
    y.Borne placements w p := by
  have hcall := h.call
  rw [hx.marked.placement] at hcall
  have hrecord : y.record = x.record ++ [.add p r] := by rw [h.record, hx.marked.placement]
  have hfound : NeverMissed p y.record := by
    rw [hrecord]
    exact hx.found.concat nofun
  cases r with
  | ok u =>
    obtain ⟨hnew, hadded⟩ := hm.added hcall
    refine ⟨hy, ?_, fun _ hold => hnew (hx.has.mpr (Or.inl hold)), hfound⟩
    rw [hrecord, brought_add, hadded]
    exact iff_of_true (Set.mem_insert p _) (Or.inr (Or.inl rfl))
  | error e =>
    have hsame : Brought p y.record ↔ Brought p x.record := by
      rw [hrecord, brought_add]
      exact or_iff_right nofun
    refine ⟨hy, ?_, fun hb => hx.own (hsame.mp hb), hfound⟩
    rw [hsame, hm.notAdded hcall]
    exact hx.has

theorem Borne.removes {r : Except AddressFault Unit} (hm : m.Assigns placements)
    (hx : x.Borne placements w p) (hy : y.Marked p) (h : Removes m x y r) :
    y.Borne placements w p := by
  have hcall := h.call
  rw [hx.marked.placement] at hcall
  have hrecord : y.record = x.record ++ [.remove p r] := by rw [h.record, hx.marked.placement]
  have hbrought : Brought p x.record := (hx.marked.mark.mp h.installed).1
  have hthere : p ∈ placements x.world := hx.has.mpr (Or.inr hbrought)
  have hold : p ∉ placements w := hx.own hbrought
  cases r with
  | ok u =>
    refine ⟨hy, ?_, fun _ => hold, ?_⟩
    · rw [hrecord, brought_remove, hm.removed hcall]
      exact iff_of_false (fun hp => hp.2 rfl) (not_or.mpr ⟨hold, fun hb => hb.2 rfl⟩)
    · rw [hrecord]
      exact hx.found.concat nofun
  | error e =>
    -- the address was there, so the call did not fail for want of it
    obtain ⟨hsame, hgone⟩ := hm.notRemoved hcall
    refine ⟨hy, ?_, fun _ => hold, ?_⟩
    · rw [hrecord, brought_remove, hsame]
      exact iff_of_true hthere (Or.inr ⟨hbrought, nofun⟩)
    · rw [hrecord]
      refine hx.found.concat fun fault hfault => ?_
      cases hfault
      exact ⟨fun he => hgone (Or.inl he) hthere, fun he => hgone (Or.inr he) hthere⟩

theorem Borne.act (hm : m.Assigns placements) (hx : x.Borne placements w p)
    (hcalm : ∀ w', a = .change w' →
      Site.addressesAt placements x.placement.1 w' =
        Site.addressesAt placements x.placement.1 x.world) :
    (x.act m a).Borne placements w p := by
  have hy : (x.act m a).Marked p := hx.marked.act m a
  rcases act_cases m x a with (hsame | ⟨w', ha, hsame⟩) | ⟨r, h | h⟩
  · rw [hsame]
    exact hx
  · have haddresses := hcalm w' ha
    rw [hx.marked.placement] at haddresses
    have hiff : p.2 ∈ Site.addressesAt placements p.1 w' ↔
        p.2 ∈ Site.addressesAt placements p.1 x.world := by rw [haddresses]
    rw [hsame] at hy ⊢
    exact ⟨hy, Iff.trans hiff hx.has, hx.own, hx.found⟩
  · exact hx.adds hm hy h
  · exact hx.removes hm hy h

theorem borne_after (hm : m.Assigns placements) {as : List (Act σ)}
    (hx : x.Borne placements w p) (has : x.Undisturbed m placements as) :
    (x.after m as).Borne placements w p := by
  induction as generalizing x with
  | nil => exact hx
  | cons a as ih => exact ih (hx.act hm has.1) has.2

/-- Only a call that adds the address could end it, and that fails since the address is there. -/
theorem abandoned_act (hm : m.Assigns placements) (hx : x.Borne placements w p)
    (habandoned : Abandoned p x.record) : Abandoned p (x.act m a).record := by
  rcases act_cases m x a with (hsame | ⟨w', -, hsame⟩) | ⟨r, h | h⟩
  · rw [hsame]
    exact habandoned
  · rw [hsame]
    exact habandoned
  · rw [h.record, hx.marked.placement, abandoned_add]
    refine ⟨habandoned, ?_⟩
    rintro rfl
    have hcall := h.call
    rw [hx.marked.placement] at hcall
    exact (hm.added hcall).1 (hx.has.mpr (Or.inr (hx.marked.brought habandoned)))
  · rw [h.record, hx.marked.placement, abandoned_remove]
    exact Or.inr habandoned

theorem abandoned_after (hm : m.Assigns placements) {as : List (Act σ)}
    (hx : x.Borne placements w p) (habandoned : Abandoned p x.record)
    (has : x.Undisturbed m placements as) : Abandoned p (x.after m as).record := by
  induction as generalizing x with
  | nil => exact habandoned
  | cons a as ih => exact ih (hx.act hm has.1) (abandoned_act hm hx habandoned) has.2

/-- Whatever comes of the calls and whoever changes the machine: the mark tells whether the address
was brought exactly when it was not abandoned, and the address is taken away again only while the
mark stands. With nobody else at the interface the address is there if it was brought, and a call
that has left it there has failed for some other reason than that it was gone. An address that was
abandoned then stays there unmarked, however often it is added and taken away. -/
theorem marked_iff_not_abandoned (m : Machine σ) (w : σ) (interface : String) (p : Placement)
    (as : List (Act σ)) :
    let x := (new w interface p).after m as
    ((x.gateway.installed = true ↔ Brought p x.record) ↔ ¬ Abandoned p x.record) ∧
      (Abandoned p x.record → Brought p x.record ∧ x.gateway.installed = false) ∧
      (x.gateway.installed = true →
        ∃ r, (x.act m .remove).record = x.record ++ [.remove p r]) ∧
      (x.gateway.installed = false → x.act m .remove = x) ∧
      ∀ placements, m.Assigns placements → (new w interface p).Undisturbed m placements as →
        (p ∈ placements x.world ↔ p ∈ placements w ∨ Brought p x.record) ∧
        (Brought p x.record → p ∉ placements w) ∧
        NeverMissed p x.record ∧
        (Abandoned p x.record → ∀ bs, x.Undisturbed m placements bs →
          p ∈ placements (x.after m bs).world ∧ (x.after m bs).gateway.installed = false) := by
  intro x
  have hmarked : x.Marked p := marked_after (marked_new w interface p) m as
  have hunmarked : ∀ {y : Tenure σ}, y.Marked p → Abandoned p y.record →
      y.gateway.installed = false := by
    intro y hy habandoned
    refine Bool.eq_false_iff.mpr fun hinstalled => ?_
    exact (hy.mark.mp hinstalled).2 habandoned
  refine ⟨⟨fun htells habandoned => ?_, fun hkept => ?_⟩, fun habandoned => ?_,
    fun hinstalled => ?_, act_of_not_installed, fun placements hm hcalm => ?_⟩
  · have hinstalled := htells.mpr (hmarked.brought habandoned)
    exact (hmarked.mark.mp hinstalled).2 habandoned
  · rw [hmarked.mark]
    exact and_iff_left hkept
  · exact ⟨hmarked.brought habandoned, hunmarked hmarked habandoned⟩
  · obtain ⟨r, hr⟩ := removes_of_installed (m := m) hinstalled
    exact ⟨r, by rw [hr.record, hmarked.placement]⟩
  · have hborne : x.Borne placements w p := borne_after hm (borne_new w interface p) hcalm
    refine ⟨hborne.has, hborne.own, hborne.found, fun habandoned bs hbs => ?_⟩
    have hlater := borne_after hm hborne hbs
    have hstill := abandoned_after hm hborne habandoned hbs
    exact ⟨hlater.has.mpr (Or.inr (hlater.marked.brought hstill)), hunmarked hlater.marked hstill⟩

/-- A machine that takes no address away. -/
def refusing : Machine Interfaces :=
  { Machine.ofInterfaces with
    removeAddress := fun i _ _ => (i, .error (.other "Operation not permitted (os error 1)")) }

theorem assigns_refusing : refusing.Assigns Interfaces.placements where
  added h := assigns_ofInterfaces.added h
  notAdded h := assigns_ofInterfaces.notAdded h
  removed h := by cases h
  notRemoved h := by
    cases h
    exact ⟨rfl, nofun⟩

/-- The gateway address of the first key on a bare link. -/
def gatewayPlacement : Placement := (2, ⟨(nodeSubnet (.zero 32)).gateway, Subnet.length⟩)

/-- The call that should take the address away fails: the mark is gone, the address is there, and
nothing takes it away any more. -/
theorem unmarked_address_left :
    let x := (new Site.bareLink "eth0" gatewayPlacement).after refusing [.add, .remove]
    x.record = [.add gatewayPlacement (.ok ()),
        .remove gatewayPlacement (.error (.other "Operation not permitted (os error 1)"))] ∧
      Brought gatewayPlacement x.record ∧ gatewayPlacement ∈ Interfaces.placements x.world ∧
      x.gateway.installed = false ∧ x.act refusing .remove = x := by
  intro x
  have hmark : x.gateway.installed = false := by decide +kernel
  have hrecord : x.record = [.add gatewayPlacement (.ok ()),
      .remove gatewayPlacement (.error (.other "Operation not permitted (os error 1)"))] := by
    decide +kernel
  have hbrought : Brought gatewayPlacement x.record := by
    refine ⟨[], _, _, hrecord, rfl, fun e he => ?_⟩
    rw [List.mem_singleton.mp he]
    exact nofun
  have hborne : x.Borne Interfaces.placements Site.bareLink gatewayPlacement :=
    borne_after assigns_refusing (borne_new _ _ _) (undisturbed_of_no_change (by simp))
  exact ⟨hrecord, hbrought, hborne.has.mpr (Or.inr hbrought), hmark, act_of_not_installed hmark⟩

/-- The link lets the address go, and it can be put there again. -/
theorem marked_when_brought_again :
    let x := (new Site.bareLink "eth0" gatewayPlacement).after Machine.ofInterfaces
      [.add, .remove, .add]
    ¬ Abandoned gatewayPlacement x.record ∧
      (x.gateway.installed = true ↔ Brought gatewayPlacement x.record) ∧
      gatewayPlacement ∈ Interfaces.placements x.world ∧
      ∃ r, (x.act Machine.ofInterfaces .remove).record =
        x.record ++ [.remove gatewayPlacement r] := by
  have hmark : ((new Site.bareLink "eth0" gatewayPlacement).after Machine.ofInterfaces
      [.add, .remove, .add]).gateway.installed = true := by decide +kernel
  have hkept := ((marked_after (marked_new Site.bareLink "eth0" gatewayPlacement)
    Machine.ofInterfaces [.add, .remove, .add]).mark.mp hmark).2
  obtain ⟨htells, -, htries, -, hcalm⟩ := marked_iff_not_abandoned Machine.ofInterfaces
    Site.bareLink "eth0" gatewayPlacement [.add, .remove, .add]
  have hmarked := htells.mpr hkept
  obtain ⟨hhas, -⟩ := hcalm Interfaces.placements assigns_ofInterfaces
    (undisturbed_of_no_change (by simp))
  exact ⟨hkept, hmarked, hhas.mpr (Or.inr (hmarked.mp hmark)), htries hmark⟩

end Tenure

end Gateway

end MeshNode.Advertiser
