import Mathlib.Data.List.Forall2
import Mathlib.Logic.Relation
import MeshNode.Loopback.Links
import MeshNode.Loopback.Peering
import MeshNode.Proofs.Links.Acts
import MeshNode.Proofs.Peering.Segments

/-!
# Turns

A rehearsal lets the runs of a service take turns, in an order of its own, and links on the loopback
network make calls side by side. Either is one history among those that loops and link tables can
have at all.

* **rows** — `forall₂_trans`, `forall₂_modify`: what is related place by place;
* **loops** — `Follows`: a loop after some turns of its runs; `sameMode_happen`: what no turn changes;
* **rehearsals** — `Becomes`: what turns do to the loops and to the world; `becomes_proceed?` is one
  turn, `becomes_settle` any number, and `becomes_act` what comes after a doing of the owner;
* **links** — `Acts`: an exchange after some acts; `exists_acts_callAll`: what a row of calls does.
-/

namespace MeshNode

/-! ## Rows -/

section Rows

variable {α : Type} {R : α → α → Prop}

theorem forall₂_trans (htrans : ∀ a b c, R a b → R b c → R a c)
    {xs ys zs : List α} (h : List.Forall₂ R xs ys) (h' : List.Forall₂ R ys zs) :
    List.Forall₂ R xs zs := by
  induction h generalizing zs with
  | nil => exact h'
  | cons hxy _ ih =>
    cases h' with
    | cons hyz hrest => exact .cons (htrans _ _ _ hxy hyz) (ih hrest)

theorem forall₂_modify {f : α → α} (hsame : ∀ a, R a a)
    (hf : ∀ a, R a (f a)) (xs : List α) (k : Nat) : List.Forall₂ R xs (xs.modify k f) := by
  induction xs generalizing k with
  | nil => cases k <;> exact .nil
  | cons x xs ih =>
    cases k with
    | zero => exact .cons (hf x) (List.forall₂_same.mpr fun a _ => hsame a)
    | succ k => exact .cons (hsame x) (ih k)

theorem forall₂_singleton_left {x : α} {ys : List α}
    (h : List.Forall₂ R [x] ys) : ∃ y, R x y ∧ ys = [y] := by
  cases h with
  | cons hxy hrest =>
    cases hrest
    exact ⟨_, hxy, rfl⟩

end Rows

/-! ## Loops -/

namespace Peering

/-- Whether an event is a turn of a run, and not a doing of the owner or of a timer. -/
def Event.isTurn : Event → Bool
  | .segment _ _ | .probesEnd _ _ | .callEnds _ => true
  | .command _ | .fire _ => false

namespace Loop

variable {l m n : Loop} {e : Event}

/-- A loop after some turns of its runs. -/
def Follows (l m : Loop) : Prop :=
  ∃ es : List Event, (∀ e ∈ es, e.isTurn = true) ∧ l.afterEvents es = m

theorem Follows.refl (l : Loop) : l.Follows l := ⟨[], nofun, rfl⟩

theorem Follows.happen (l : Loop) (h : e.isTurn = true) : l.Follows (l.happen e) :=
  ⟨[e], List.forall_mem_singleton.mpr h, rfl⟩

theorem afterEvents_append (l : Loop) (es es' : List Event) :
    l.afterEvents (es ++ es') = (l.afterEvents es).afterEvents es' := List.foldl_append

theorem Follows.trans (h : l.Follows m) (h' : m.Follows n) : l.Follows n := by
  obtain ⟨es, hes, rfl⟩ := h
  obtain ⟨es', hes', rfl⟩ := h'
  exact ⟨es ++ es', List.forall_mem_append.mpr ⟨hes, hes'⟩, afterEvents_append l es es'⟩

/-- Whether two loops are both on or both off, and have the same settings. -/
structure SameMode (l m : Loop) : Prop where
  started : m.started = l.started
  settings : m.settings = l.settings

/-- No turn switches a loop on or off, or changes its settings. -/
theorem sameMode_happen (l : Loop) (h : e.isTurn = true) : l.SameMode (l.happen e) := by
  have hsame : l.SameMode l := ⟨rfl, rfl⟩
  cases e with
  | command | fire => cases h
  | segment i v =>
    refine repeat_induction (P := l.SameMode) (f := Loop.step v i) hsame (fun m hm => ?_) segmentSteps
    exact ⟨step_started.trans hm.started, step_settings.trans hm.settings⟩
  | probesEnd i results =>
    rcases l.probesEnd_eq (i := i) results with he | ⟨g, n, -, he⟩ <;> rw [happen, he]
    · exact hsame
    · exact ⟨rfl, rfl⟩
  | callEnds i =>
    rcases l.callEnds_eq (i := i) with he | ⟨g, uri, -, he⟩ <;> rw [happen, he]
    · exact hsame
    · exact ⟨rfl, rfl⟩

theorem Follows.sameMode (h : l.Follows m) : l.SameMode m := by
  obtain ⟨es, hes, rfl⟩ := h
  induction es generalizing l with
  | nil => exact ⟨rfl, rfl⟩
  | cons e es ih =>
    obtain ⟨he, hes⟩ := List.forall_mem_cons.mp hes
    have hfirst := l.sameMode_happen he
    have hrest := ih (l := l.happen e) hes
    exact ⟨hrest.started.trans hfirst.started, hrest.settings.trans hfirst.settings⟩

end Loop

end Peering

namespace Loopback

open Peering Links

/-- What the service does to its world: it dials, or calls a peer. -/
inductive Engine.Touches {σ : Type} (e : Engine σ) : σ → σ → Prop
  | network (w : σ) (n : Network) : e.Touches w (e.setNetwork w n)
  | call (w : σ) (uri : Url) : e.Touches w (e.call w uri)

namespace Rehearsal

/-! ## Rehearsals -/

variable {σ : Type} {e : Engine σ} {r r' r'' : Rehearsal σ} {k i : Nat}

/-- A rehearsal has become another by turns of runs. -/
structure Becomes (e : Engine σ) (r r' : Rehearsal σ) : Prop where
  loops : List.Forall₂ Loop.Follows r.service.loops r'.service.loops
  world : Relation.ReflTransGen e.Touches r.world r'.world

theorem Becomes.refl (r : Rehearsal σ) : r.Becomes e r :=
  ⟨List.forall₂_same.mpr fun l _ => .refl l, .refl⟩

theorem Becomes.trans (h : r.Becomes e r') (h' : r'.Becomes e r'') : r.Becomes e r'' :=
  ⟨forall₂_trans (R := Loop.Follows) (fun _ _ _ => .trans) h.loops h'.loops,
    h.world.trans h'.world⟩

theorem follows_onLoop (r : Rehearsal σ) (k : Nat) {x : Event} (h : x.isTurn = true) :
    List.Forall₂ Loop.Follows r.service.loops (r.onLoop k (·.happen x)).service.loops :=
  forall₂_modify Loop.Follows.refl (fun l => .happen l h) _ k

/-- In one turn a run begins its round, goes on after its round or its call, or goes on for want of
anything to wait for. -/
theorem becomes_proceed? (h : r.proceed? e k i = some r') : r.Becomes e r' := by
  simp only [proceed?, Option.bind_eq_bind, Option.bind_eq_some_iff] at h
  obtain ⟨l, -, run, -, h⟩ := h
  -- by what the run waits for: its round, its call, or nothing
  split at h
  · cases h
  · split at h
    · cases h
      exact ⟨(Becomes.refl (e := e) r).loops, .single (.network r.world _)⟩
    · next o _ =>
      unfold endRound? at h
      split at h
      · cases h
      · cases h
        exact ⟨follows_onLoop r o.loop (x := .probesEnd o.run _) rfl, .refl⟩
  · next uri _ =>
    cases h
    exact ⟨follows_onLoop r k (x := .callEnds i) rfl, .single (.call r.world uri)⟩
  · cases h
    exact ⟨follows_onLoop _ k (x := .segment i _) rfl, .refl⟩

theorem becomes_settle (fuel : Nat) (r : Rehearsal σ) : r.Becomes e (settle e fuel r) := by
  induction fuel generalizing r with
  | zero => exact .refl r
  | succ fuel ih =>
    rw [settle]
    split
    · exact .refl r
    · next r' hturn =>
      obtain ⟨⟨k, i⟩, -, hturn⟩ := List.exists_of_findSome?_eq_some hturn
      exact (becomes_proceed? hturn).trans (ih r')

/-- The owner's doing comes first, and the runs take their turns after it. -/
theorem becomes_act {f : Service → Except ModuleError Service} {service : Service}
    (h : f r.service = .ok service) :
    Becomes e { r with service } (r.act e f).1 ∧ (r.act e f).2 = .ok () := by
  rw [act, h]
  exact ⟨becomes_settle _ { r with service }, rfl⟩

theorem act_of_error {f : Service → Except ModuleError Service} {cause : ModuleError}
    (h : f r.service = .error cause) : r.act e f = (r, .error cause) := by
  rw [act, h]

theorem world_act (f : Service → Except ModuleError Service) :
    Relation.ReflTransGen e.Touches r.world (r.act e f).1.world := by
  cases h : f r.service with
  | error cause =>
    rw [act_of_error h]
  | ok service => exact (becomes_act h).1.world

end Rehearsal

/-! ## Links -/

namespace Linked

theorem after_append (x : Exchange) (as bs : List Act) :
    x.after (as ++ bs) = (x.after as).after bs := List.foldl_append

/-- The exchange of some links has come about from that of others by acts. -/
def Acts (l l' : Linked) : Prop := ∃ as, l.exchange.after as = l'.exchange

theorem Acts.refl (l : Linked) : l.Acts l := ⟨[], rfl⟩

theorem Acts.trans {l l' l'' : Linked} (h : l.Acts l') (h' : l'.Acts l'') : l.Acts l'' := by
  obtain ⟨as, has⟩ := h
  obtain ⟨bs, hbs⟩ := h'
  exact ⟨as ++ bs, by rw [after_append, has, hbs]⟩

theorem acts_dial (l : Linked) (i : Nat) : l.Acts (l.dial i) := by
  unfold dial
  split
  · next uri _ =>
    split
    · next e _ => exact ⟨[.dialEnds i (.error e)], rfl⟩
    · dsimp only
      split
      · next result _ => exact ⟨[.dialEnds i result], rfl⟩
      · exact .refl l
  · exact .refl l

theorem acts_foldl_dial (l : Linked) (numbers : List Nat) : l.Acts (numbers.foldl dial l) := by
  induction numbers generalizing l with
  | nil => exact .refl l
  | cons i numbers ih => exact (acts_dial l i).trans (ih (l.dial i))

/-- A row of calls begins with all of them, in order, and goes on with other acts. -/
theorem exists_acts_callAll (l : Linked) (uris : List Url) :
    ∃ as, l.exchange.after (uris.map .begin ++ as) = (l.callAll uris).1.exchange := by
  -- every call is checked once all have begun, and looked at again once all have dialled
  let numbers := (List.range uris.length).map (l.exchange.calls.length + ·)
  let begun := uris.foldl Exchange.begin l.exchange
  let checked := numbers.foldl Exchange.check begun
  obtain ⟨dials, hdials⟩ := acts_foldl_dial { l with exchange := checked } numbers
  have hbegun : l.exchange.after (uris.map .begin) = begun := List.foldl_map
  have hchecked : begun.after (numbers.map .check) = checked := List.foldl_map
  have hdialled : checked.after dials = _ := hdials
  refine ⟨numbers.map .check ++ (dials ++ numbers.map .enter), ?_⟩
  rw [after_append, after_append, after_append, hbegun, hchecked, hdialled]
  exact List.foldl_map

end Linked

end Loopback

end MeshNode
