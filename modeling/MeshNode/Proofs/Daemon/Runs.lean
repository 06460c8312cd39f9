import MeshNode.Daemon
import MeshNode.Proofs.Settings.Layers
import MeshNode.Proofs.Settings.NodeKey

/-!
# Runs of the daemon

What one run of the daemon comes to, for every log, all draws and every search. The log is written
where everything else is printed, so each result says what stands before what.

* **the log** — `Quiet`: events without errors; `text_eq_empty`, `Quiet.text_eq_empty`: what is
  written when nobody asks for it; `quiet_searchEvents`, `quiet_eventsForDaemon`: what the daemon
  tells before a node runs;
* **the ways of a run** — `Yields` has one case for each; `yields_run`;
* **all runs** — `running_iff`: when a node runs, and with what; `ended_prints`: all that is printed
  by a run that ends; `machine_of_run`: what a run leaves alone.
-/

namespace MeshNode

/-! ## The log -/

namespace Log

variable {log : Subscriber} {env : Environment} {events : List Event}

theorem text_eq_empty (h : ∀ e ∈ events, log.passes (directives env) e = false) :
    log.text env events = "" := by
  have hnone : events.filter (log.passes (directives env)) = [] := by
    rw [List.filter_eq_nil_iff]
    intro e he
    rw [h e he]
    exact Bool.false_ne_true
  rw [Subscriber.text, hnone]
  rfl

/-- No error is among some events. -/
def Quiet (events : List Event) : Prop := ∀ e ∈ events, e.level ≠ .error

theorem quiet_nil : Quiet [] := nofun

theorem Quiet.append {events' : List Event} (h : Quiet events) (h' : Quiet events') :
    Quiet (events ++ events') := fun e he => (List.mem_append.mp he).elim (h e) (h' e)

/-- Without directives nothing is written of such events. -/
theorem Quiet.text_eq_empty (h : Quiet events) (hnone : directives env = "") :
    log.text env events = "" := by
  apply Log.text_eq_empty
  intro e he
  rw [hnone, log.passes_empty]
  exact beq_eq_false_iff_ne.mpr (h e he)

end Log

namespace Daemon

open CommandLine Loopback Log

theorem level_entry_ne (e : Peering.ProbeEvent) : e.entry.level ≠ .error := by
  cases e <;> exact nofun

theorem quiet_searchEvents (told : List Peering.ProbeEvent) (closest : List Url) :
    Quiet (searchEvents told closest) := by
  refine Quiet.append (fun e he => ?_) (fun e he => ?_)
  · obtain ⟨p, -, rfl⟩ := List.mem_map.mp he
    exact level_entry_ne p
  · split at he
    · rw [List.mem_singleton.mp he]
      exact nofun
    · cases he

theorem quiet_faultEvent {α : Type} (message : String) (result : Except SettingsError α) :
    Quiet (Settings.faultEvent message result) := by
  intro e he
  cases result with
  | ok => cases he
  | error cause =>
    rw [List.mem_singleton.mp he]
    exact nofun

theorem quiet_eventsForDaemon (env : Environment) (files : FileTree) :
    Quiet (Settings.eventsForDaemon env files) :=
  (quiet_faultEvent _ _).append (quiet_faultEvent _ _)

/-! ## The ways of a run -/

/-- The settings that a node would run with, or why none does. -/
def settingsFor (m : Machine) (args : DaemonArgs) : Except InvalidSettings Settings :=
  (Settings.forDaemon m.env m.files args).2

/-- The machine after the daemon has looked for its settings. -/
def Machine.afterLoading (m : Machine) : Machine :=
  { m with files := (Settings.writeDefault m.env m.files).1 }

/-- What a machine tells of its settings. -/
def Machine.loadingEvents (m : Machine) : List Event := Settings.eventsForDaemon m.env m.files

section Run

variable {log : Subscriber} {draw : Peering.Sampler} {search : Search} {m : Machine}
  {ephemeral : NodeKey} {words : List String} {args : DaemonArgs}

/-- What a run comes to, in each of the ways it can take. -/
inductive Yields (log : Subscriber) (draw : Peering.Sampler) (search : Search) (m : Machine)
    (ephemeral : NodeKey) (words : List String) : Result → Prop
  | misused {e : ArgsError} (hparse : DaemonArgs.parse words = .error e) :
    Yields log draw search m ephemeral words (.ended m (.failure e.parts))
  | explained {args : DaemonArgs} (hparse : DaemonArgs.parse words = .ok args)
      (hhelp : args.help = true) :
    Yields log draw search m ephemeral words (.ended m (.success daemonUsage))
  | generated {args : DaemonArgs} {network : Network} {o : Outcome}
      (hparse : DaemonArgs.parse words = .ok args) (hhelp : args.help = false)
      (hgenconf : args.genconf = true)
      (hgenerate : generate log draw search m.env m.network args.withpeers = (network, o)) :
    Yields log draw search m ephemeral words (.ended { m with network } o)
  | refused {args : DaemonArgs} {e : InvalidSettings} (hparse : DaemonArgs.parse words = .ok args)
      (hhelp : args.help = false) (hgenconf : args.genconf = false)
      (hsettings : settingsFor m args = .error e) :
    Yields log draw search m ephemeral words (.ended m.afterLoading
      (.after (log.text m.env m.loadingEvents)
        (.failure ["invalid configuration", (SettingsError.invalid e).message])))
  | launched {args : DaemonArgs} {settings : Settings} {key : Option NodeKey} {node : Node}
      (hparse : DaemonArgs.parse words = .ok args) (hhelp : args.help = false)
      (hgenconf : args.genconf = false) (hsettings : settingsFor m args = .ok settings)
      (hkey : settings.publicKey = .ok key)
      (hlaunch : launch m.env m.network m.interfaces (key.getD ephemeral) settings = node) :
    Yields log draw search m ephemeral words
      (.running { m.afterLoading with network := node.network } node)

/-- Settings that are accepted give a key or say that there is none. -/
theorem exists_publicKey {settings : Settings} (h : settings.validate = .ok ()) :
    ∃ key, settings.publicKey = .ok key := by
  cases hkey : settings.publicKey with
  | error e =>
    rw [Settings.validate_of_publicKey_error hkey] at h
    cases h
  | ok key => exact ⟨key, rfl⟩

theorem validate_of_settingsFor {settings : Settings} (h : settingsFor m args = .ok settings) :
    settings.validate = .ok () := by
  rw [settingsFor, Settings.forDaemon_snd, Settings.map_validate_eq_ok] at h
  obtain ⟨hvalid, rfl⟩ := h
  exact hvalid

theorem runNode_of_refused {e : InvalidSettings} (h : settingsFor m args = .error e) :
    runNode log m ephemeral args = .ended m.afterLoading
      (.after (log.text m.env m.loadingEvents)
        (.failure ["invalid configuration", (SettingsError.invalid e).message])) := by
  have heq : Settings.forDaemon m.env m.files args = (m.afterLoading.files, .error e) :=
    Prod.ext rfl h
  rw [runNode, heq]
  rfl

theorem runNode_of_accepted {settings : Settings} (h : settingsFor m args = .ok settings)
    {key : Option NodeKey} (hkey : settings.publicKey = .ok key) {node : Node}
    (hlaunch : launch m.env m.network m.interfaces (key.getD ephemeral) settings = node) :
    runNode log m ephemeral args =
      .running { m.afterLoading with network := node.network } node := by
  have heq : Settings.forDaemon m.env m.files args = (m.afterLoading.files, .ok settings) :=
    Prod.ext rfl h
  simp only [runNode, heq, hkey, hlaunch]
  rfl

theorem run_of_genconf (hparse : DaemonArgs.parse words = .ok args) (hhelp : args.help = false)
    (hgenconf : args.genconf = true) {network : Network} {o : Outcome}
    (hgenerate : generate log draw search m.env m.network args.withpeers = (network, o)) :
    run log draw search m ephemeral words = .ended { m with network } o := by
  simp only [run, hparse, hhelp, hgenconf, hgenerate, Bool.false_eq_true, if_false, if_true]

theorem run_of_node (hparse : DaemonArgs.parse words = .ok args) (hhelp : args.help = false)
    (hgenconf : args.genconf = false) :
    run log draw search m ephemeral words = runNode log m ephemeral args := by
  simp only [run, hparse, hhelp, hgenconf, Bool.false_eq_true, if_false]

/-- A run takes one of these ways. -/
theorem yields_run (log : Subscriber) (draw : Peering.Sampler) (search : Search) (m : Machine)
    (ephemeral : NodeKey) (words : List String) :
    Yields log draw search m ephemeral words (run log draw search m ephemeral words) := by
  cases hparse : DaemonArgs.parse words with
  | error e =>
    rw [run, hparse]
    exact .misused hparse
  | ok args =>
    cases hhelp : args.help with
    | true =>
      simp only [run, hparse, hhelp, if_true]
      exact .explained hparse hhelp
    | false =>
      cases hgenconf : args.genconf with
      | true =>
        rw [run_of_genconf hparse hhelp hgenconf rfl]
        exact .generated hparse hhelp hgenconf rfl
      | false =>
        rw [run_of_node hparse hhelp hgenconf]
        cases hsettings : settingsFor m args with
        | error e =>
          rw [runNode_of_refused hsettings]
          exact .refused hparse hhelp hgenconf hsettings
        | ok settings =>
          obtain ⟨key, hkey⟩ := exists_publicKey (validate_of_settingsFor hsettings)
          rw [runNode_of_accepted hsettings hkey rfl]
          exact .launched hparse hhelp hgenconf hsettings hkey rfl

/-! ## All runs -/

/-- **When a node runs.** Exactly if the command line asks for neither an explanation nor new
settings, and the settings that hold are accepted. The node is launched with these settings, and
with the key that they give or else the one that was made for it. -/
theorem running_iff {m' : Machine} {node : Node} :
    run log draw search m ephemeral words = .running m' node ↔
      ∃ args settings key, DaemonArgs.parse words = .ok args ∧ args.help = false ∧
        args.genconf = false ∧ settingsFor m args = .ok settings ∧ settings.publicKey = .ok key ∧
        launch m.env m.network m.interfaces (key.getD ephemeral) settings = node ∧
        { m.afterLoading with network := node.network } = m' := by
  constructor
  · intro h
    have hyields := yields_run log draw search m ephemeral words
    rw [h] at hyields
    cases hyields with
    | launched hparse hhelp hgenconf hsettings hkey hlaunch =>
      exact ⟨_, _, _, hparse, hhelp, hgenconf, hsettings, hkey, hlaunch, rfl⟩
  · rintro ⟨args, settings, key, hparse, hhelp, hgenconf, hsettings, hkey, hlaunch, rfl⟩
    rw [run_of_node hparse hhelp hgenconf, runNode_of_accepted hsettings hkey hlaunch]

/-- What a run prints that ends: its log and then a text, which is the explanation or settings if
the run succeeds, and missing if it fails. -/
structure Prints (log : Subscriber) (env : Environment) (o : Outcome) (events : List Event)
    (text : String) : Prop where
  stdout : o.stdout = log.text env events ++ text
  quiet : Quiet events
  result : o.exit = 0 ∧ (text = daemonUsage ∨ ∃ s : Settings, s.render? = some text) ∨
    o.exit = 1 ∧ text = ""

theorem prints_success {env : Environment} {text : String}
    (h : text = daemonUsage ∨ ∃ s : Settings, s.render? = some text) :
    Prints log env (.success text) [] text :=
  ⟨(String.empty_append).symm, quiet_nil, Or.inl ⟨rfl, h⟩⟩

theorem prints_failure {env : Environment} (message : String) (causes : List String) :
    Prints log env (.failure (message :: causes)) [] "" :=
  ⟨rfl, quiet_nil, Or.inr ⟨rfl, rfl⟩⟩

/-- What was written of events before stands before the rest. -/
theorem Prints.after {env : Environment} {o : Outcome} {events : List Event} {text : String}
    (h : Prints log env o [] text) (hquiet : Quiet events) :
    Prints log env (.after (log.text env events) o) events text where
  stdout := by
    have htext : o.stdout = text := h.stdout.trans String.empty_append
    rw [Outcome.after, htext]
  quiet := hquiet
  result := h.result

theorem prints_settings (log : Subscriber) (env : Environment) (s : Settings) :
    ∃ text, Prints log env (printSettings s) [] text := by
  unfold printSettings
  split
  · next text htext => exact ⟨text, prints_success (Or.inr ⟨s, htext⟩)⟩
  · exact ⟨"", prints_failure _ _⟩

theorem prints_generate (log : Subscriber) (draw : Peering.Sampler) (search : Search)
    (env : Environment) (network : Network) (count : Nat) :
    ∃ events text, Prints log env (generate log draw search env network count).2 events text := by
  unfold generate
  split
  · obtain ⟨text, h⟩ := prints_settings log env {}
    exact ⟨[], text, h⟩
  · split
    · exact ⟨[], "", prints_failure _ _⟩
    · next proxy _ =>
      obtain ⟨text, h⟩ := prints_settings log env
        (newSettings draw (search network proxy candidateCount).2.2 count)
      exact ⟨_, text, h.after (quiet_searchEvents _ _)⟩

theorem prints_error {env : Environment} (e : ArgsError) :
    Prints log env (.failure e.parts) [] "" := by
  cases e <;> exact prints_failure _ _

/-- **What a run prints that ends.** The log comes first, without any error in it, so that nothing of
it is there unless the environment asks for it. Then there is the explanation or a document of
settings if the run succeeds, and nothing if it fails. -/
theorem ended_prints {m' : Machine} {o : Outcome}
    (h : run log draw search m ephemeral words = .ended m' o) :
    ∃ events text, Prints log m.env o events text ∧ (directives m.env = "" → o.stdout = text) := by
  have hprints : ∃ events text, Prints log m.env o events text := by
    -- of the runs that end, those alone write to the log that search or look for settings
    have hyields := yields_run log draw search m ephemeral words
    rw [h] at hyields
    cases hyields with
    | @misused e => exact ⟨_, _, prints_error e⟩
    | explained => exact ⟨_, _, prints_success (Or.inl rfl)⟩
    | @generated args _ _ _ _ _ hgenerate =>
      obtain ⟨events, text, hprints⟩ :=
        prints_generate log draw search m.env m.network args.withpeers
      rw [hgenerate] at hprints
      exact ⟨events, text, hprints⟩
    | refused => exact ⟨_, _, (prints_failure _ _).after (quiet_eventsForDaemon _ _)⟩
  obtain ⟨events, text, hprints⟩ := hprints
  refine ⟨events, text, hprints, fun hnone => ?_⟩
  rw [hprints.stdout, hprints.quiet.text_eq_empty hnone]
  exact String.empty_append

/-- The machine that a run leaves. -/
def Result.machine : Result → Machine
  | .ended m _ => m
  | .running m _ => m

/-- Whether a command line asks for a node. -/
def asksForNode (words : List String) : Bool :=
  match DaemonArgs.parse words with
  | .ok args => !args.help && !args.genconf
  | .error _ => false

theorem asksForNode_eq (h : DaemonArgs.parse words = .ok args) :
    asksForNode words = (!args.help && !args.genconf) := by
  rw [asksForNode, h]

/-- **What a run leaves alone.** No run changes the environment or the interfaces that the daemon
finds. Only one that is asked for a node touches files: it writes a settings file if there is none. -/
theorem machine_of_run (log : Subscriber) (draw : Peering.Sampler) (search : Search) (m : Machine)
    (ephemeral : NodeKey) (words : List String) :
    let after := (run log draw search m ephemeral words).machine
    after.env = m.env ∧ after.interfaces = m.interfaces ∧
      after.files =
        if asksForNode words then (Settings.writeDefault m.env m.files).1 else m.files := by
  have hyields := yields_run log draw search m ephemeral words
  generalize run log draw search m ephemeral words = result at hyields ⊢
  cases hyields with
  | misused hparse => exact ⟨rfl, rfl, by rw [asksForNode, hparse]; rfl⟩
  | explained hparse hhelp =>
    exact ⟨rfl, rfl, by rw [asksForNode_eq hparse, hhelp]; rfl⟩
  | generated hparse hhelp hgenconf =>
    exact ⟨rfl, rfl, by rw [asksForNode_eq hparse, hhelp, hgenconf]; rfl⟩
  | refused hparse hhelp hgenconf =>
    exact ⟨rfl, rfl, by rw [asksForNode_eq hparse, hhelp, hgenconf]; rfl⟩
  | launched hparse hhelp hgenconf =>
    exact ⟨rfl, rfl, by rw [asksForNode_eq hparse, hhelp, hgenconf]; rfl⟩

end Run

end Daemon

end MeshNode
