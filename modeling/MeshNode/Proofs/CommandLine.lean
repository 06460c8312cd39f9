import Mathlib.Data.List.Induction
import MeshNode.CommandLine.Daemon
import MeshNode.Proofs.Records
import MeshNode.Proofs.Text.Digits

/-!
# The daemon's flags, in any order

A command line of the daemon is a row of flags, two of which have a value behind them. Words are
taken from the left, so a word is a flag or a value by its place; there is one way at most to see a
command line as a row of flags, and what it asks for depends on the order of flags of one option
only.

* **rows of flags** — `Flag`, `wordsOf`; `exists_flags`: all words are a row of flags with nothing
  behind it or what is `Stuck`, in one way (`wordsOf_append_inj`);
* **one flag** — `takeWords_flag`, `Flag.Sets`: what a flag does to the arguments so far;
* **all flags** — `takeWords_wordsOf`, `Asks`: the switches that occur, and the last value of each
  option;
* **whole lines** — `exists_parse_wordsOf_iff`: which rows are accepted;
* **any order** — `SameByOption`; `flags_in_any_order` for all command lines.
-/

namespace MeshNode.CommandLine

open MeshNode.Text

/-! ## Rows of flags -/

/-- A flag of the daemon, with its value if it has one. A value may be any word. -/
inductive Flag
  | autopeer
  | genconf
  | help (long : Bool)
  | withpeers (value : String)
  | interface (value : String)
deriving DecidableEq

/-- The options that flags set. -/
inductive FlagOption
  | autopeer
  | genconf
  | help
  | withpeers
  | interface
deriving DecidableEq

namespace Flag

/-- The words of a flag. -/
def words : Flag → List String
  | .autopeer => ["--autopeer"]
  | .genconf => ["--genconf"]
  | .help false => ["-h"]
  | .help true => ["--help"]
  | .withpeers value => ["--withpeers", value]
  | .interface value => ["--interface", value]

/-- The option that a flag sets. -/
def option : Flag → FlagOption
  | .autopeer => .autopeer
  | .genconf => .genconf
  | .help _ => .help
  | .withpeers _ => .withpeers
  | .interface _ => .interface

/-- The count of peers that a flag gives, as a text. -/
def peers? : Flag → Option String
  | .withpeers value => some value
  | _ => none

/-- The interface that a flag names. -/
def interface? : Flag → Option String
  | .interface value => some value
  | _ => none

/-- What a flag does to the arguments so far. -/
def apply (args : DaemonArgs) : Flag → Except ArgsError DaemonArgs
  | .autopeer => .ok { args with autopeer := true }
  | .genconf => .ok { args with genconf := true }
  | .help _ => .ok { args with help := true }
  | .withpeers value =>
    match parseCount value with
    | .ok n => .ok { args with withpeers := n }
    | .error cause => .error (.badNumber "--withpeers" cause)
  | .interface value => .ok { args with interface := some value }

end Flag

/-- The words of a row of flags. -/
def wordsOf (flags : List Flag) : List String := flags.flatMap Flag.words

theorem wordsOf_cons (f : Flag) (flags : List Flag) :
    wordsOf (f :: flags) = f.words ++ wordsOf flags := List.flatMap_cons

/-- The flag at the front of some words, and the words behind it. -/
def front? : List String → Option (Flag × List String)
  | "--autopeer" :: rest => some (.autopeer, rest)
  | "--genconf" :: rest => some (.genconf, rest)
  | "-h" :: rest => some (.help false, rest)
  | "--help" :: rest => some (.help true, rest)
  | "--withpeers" :: value :: rest => some (.withpeers value, rest)
  | "--interface" :: value :: rest => some (.interface value, rest)
  | _ => none

/-- The words that begin a flag. -/
def flagWords : List String :=
  ["--autopeer", "--genconf", "-h", "--help", "--withpeers", "--interface"]

/-- Words that no flag begins: an option without its value at the end, or an unknown word. -/
inductive Stuck : List String → Prop
  | noCount : Stuck ["--withpeers"]
  | noName : Stuck ["--interface"]
  | unknown {word : String} (h : word ∉ flagWords) (rest : List String) : Stuck (word :: rest)

/-- The first word says which flag stands there, and so where the next one begins. -/
theorem front?_words (f : Flag) (rest : List String) : front? (f.words ++ rest) = some (f, rest) := by
  cases f with
  | help long => cases long <;> rfl
  | _ => rfl

theorem Stuck.front?_eq_none {rest : List String} (h : Stuck rest) : front? rest = none := by
  cases h with
  | noCount => rfl
  | noName => rfl
  | unknown h rest =>
    simp only [flagWords, List.mem_cons, List.not_mem_nil, or_false, not_or] at h
    unfold front?
    split <;> simp_all

theorem front_cases (words : List String) :
    words = [] ∨ (∃ (f : Flag) (rest : List String), words = f.words ++ rest) ∨ Stuck words := by
  cases words with
  | nil => exact Or.inl rfl
  | cons word rest =>
    by_cases hword : word ∈ flagWords
    · simp only [flagWords, List.mem_cons, List.not_mem_nil, or_false] at hword
      rcases hword with rfl | rfl | rfl | rfl | rfl | rfl
      · exact Or.inr (Or.inl ⟨.autopeer, rest, rfl⟩)
      · exact Or.inr (Or.inl ⟨.genconf, rest, rfl⟩)
      · exact Or.inr (Or.inl ⟨.help false, rest, rfl⟩)
      · exact Or.inr (Or.inl ⟨.help true, rest, rfl⟩)
      · cases rest with
        | nil => exact Or.inr (Or.inr .noCount)
        | cons value rest => exact Or.inr (Or.inl ⟨.withpeers value, rest, rfl⟩)
      · cases rest with
        | nil => exact Or.inr (Or.inr .noName)
        | cons value rest => exact Or.inr (Or.inl ⟨.interface value, rest, rfl⟩)
    · exact Or.inr (Or.inr (.unknown hword rest))

theorem Flag.words_ne_nil (f : Flag) : f.words ≠ [] := by
  cases f with
  | help long => cases long <;> exact nofun
  | _ => exact nofun

/-- Words are a row of flags, and behind it what no flag begins. -/
theorem exists_flags (words : List String) :
    ∃ flags rest, words = wordsOf flags ++ rest ∧ (rest = [] ∨ Stuck rest) := by
  rcases front_cases words with hwords | ⟨f, behind, hwords⟩ | hstuck
  · exact ⟨[], [], hwords, Or.inl rfl⟩
  · have hlt : behind.length < words.length := by
      have := List.length_pos_iff.mpr f.words_ne_nil
      rw [hwords, List.length_append]
      omega
    obtain ⟨flags, rest, hbehind, hrest⟩ := exists_flags behind
    refine ⟨f :: flags, rest, ?_, hrest⟩
    rw [hwords, wordsOf_cons, List.append_assoc, ← hbehind]
  · exact ⟨[], words, rfl, Or.inr hstuck⟩
termination_by words.length

/-- Both the row of flags and what is behind it are determined by the words. -/
theorem wordsOf_append_inj {flags flags' : List Flag} {rest rest' : List String}
    (hrest : front? rest = none) (hrest' : front? rest' = none)
    (h : wordsOf flags ++ rest = wordsOf flags' ++ rest') : flags = flags' ∧ rest = rest' := by
  induction flags generalizing flags' with
  | nil =>
    cases flags' with
    | nil => exact ⟨rfl, h⟩
    | cons g flags' =>
      have hfront : front? rest = front? (wordsOf (g :: flags') ++ rest') := congrArg front? h
      rw [hrest, wordsOf_cons, List.append_assoc, front?_words] at hfront
      cases hfront
  | cons f flags ih =>
    have hfront := congrArg front? h
    rw [wordsOf_cons, List.append_assoc, front?_words] at hfront
    cases flags' with
    | nil => cases hfront.trans hrest'
    | cons g flags' =>
      rw [wordsOf_cons, List.append_assoc, front?_words] at hfront
      obtain ⟨rfl, hwords⟩ := Prod.mk.inj (Option.some.inj hfront)
      obtain ⟨rfl, rfl⟩ := ih hwords
      exact ⟨rfl, rfl⟩

/-- Words are those of one row of flags at most. -/
theorem wordsOf_inj {flags flags' : List Flag} (h : wordsOf flags = wordsOf flags') :
    flags = flags' := by
  have hends : wordsOf flags ++ [] = wordsOf flags' ++ [] := by rw [h]
  exact (wordsOf_append_inj rfl rfl hends).1

/-- A row of flags is all of the words unless something is left that no flag begins. -/
theorem not_wordsOf_iff {words : List String} :
    (∀ flags, wordsOf flags ≠ words) ↔ ∃ flags rest, words = wordsOf flags ++ rest ∧ Stuck rest := by
  constructor
  · intro hwords
    obtain ⟨flags, rest, rfl, rfl | hrest⟩ := exists_flags words
    · exact absurd (List.append_nil _).symm (hwords flags)
    · exact ⟨flags, rest, rfl, hrest⟩
  · rintro ⟨flags, rest, rfl, hrest⟩ flags' h
    rw [← List.append_nil (wordsOf flags')] at h
    obtain ⟨-, rfl⟩ := wordsOf_append_inj rfl hrest.front?_eq_none h
    cases hrest

/-! ## One flag -/

/-- The words of a flag are taken for that flag, whatever its value looks like. -/
theorem takeWords_flag (args : DaemonArgs) (f : Flag) (rest : List String) :
    DaemonArgs.takeWords args (f.words ++ rest) =
      (f.apply args).bind (DaemonArgs.takeWords · rest) := by
  cases f with
  | autopeer => rfl
  | genconf => rfl
  | help long => cases long <;> rfl
  | withpeers value =>
    show DaemonArgs.takeWords args ("--withpeers" :: value :: rest) = _
    rw [DaemonArgs.takeWords, Flag.apply]
    cases parseCount value <;> rfl
  | interface value => rfl

/-- What a flag does to each of the arguments. -/
structure Flag.Sets (f : Flag) (args args' : DaemonArgs) : Prop where
  autopeer : args'.autopeer = true ↔ args.autopeer = true ∨ f = .autopeer
  genconf : args'.genconf = true ↔ args.genconf = true ∨ f = .genconf
  help : args'.help = true ↔ args.help = true ∨ ∃ long, f = .help long
  peers : ∀ text, f.peers? = some text → parseCount text = .ok args'.withpeers
  noPeers : f.peers? = none → args'.withpeers = args.withpeers
  interface : args'.interface = f.interface?.or args.interface

theorem Flag.sets_of_apply {f : Flag} {args args' : DaemonArgs} (h : f.apply args = .ok args') :
    f.Sets args args' := by
  cases f with
  | withpeers value =>
    rw [Flag.apply] at h
    split at h
    · next n hn =>
      cases h
      refine ⟨by simp, by simp, by simp, ?_, nofun, rfl⟩
      rintro text ⟨⟩
      exact hn
    · cases h
  | _ =>
    cases h
    exact ⟨by simp, by simp, by simp, nofun, fun _ => rfl, rfl⟩

/-- A flag fails for a count that is no number, and for nothing else. -/
theorem Flag.exists_apply_iff {f : Flag} {args : DaemonArgs} :
    (∃ args', f.apply args = .ok args') ↔
      ∀ text, f.peers? = some text → ∃ n, parseCount text = .ok n := by
  cases f with
  | withpeers value =>
    rw [Flag.apply]
    cases hvalue : parseCount value with
    | ok n => simp [Flag.peers?, hvalue]
    | error cause => simp [Flag.peers?, hvalue]
  | _ => exact ⟨fun _ => nofun, fun _ => ⟨_, rfl⟩⟩

/-! ## All flags -/

/-- The texts that flags give for the count of peers, in order. -/
def peerTexts (flags : List Flag) : List String := flags.filterMap Flag.peers?

/-- The interfaces that flags name, in order. -/
def interfaceNames (flags : List Flag) : List String := flags.filterMap Flag.interface?

/-- Whether a text is a number of 64 bits. -/
def IsCount (text : String) : Prop := ∃ n < 0x10000000000000000, SpellsNumber text.toList n

/-- What a row of flags asks for: the switches that occur, and the last value of each option. -/
structure Asks (flags : List Flag) (args : DaemonArgs) : Prop where
  autopeer : args.autopeer = true ↔ Flag.autopeer ∈ flags
  genconf : args.genconf = true ↔ Flag.genconf ∈ flags
  help : args.help = true ↔ ∃ long, Flag.help long ∈ flags
  peers : ∀ text, (peerTexts flags).getLast? = some text →
    SpellsNumber text.toList args.withpeers
  noPeers : peerTexts flags = [] → args.withpeers = 0
  interface : args.interface = (interfaceNames flags).getLast?

variable {flags flags' : List Flag} {args args' : DaemonArgs}

theorem parseCount_eq_ok_iff {text : String} {n : Nat} :
    parseCount text = .ok n ↔ SpellsNumber text.toList n ∧ n < 0x10000000000000000 :=
  parseUnsigned_eq_ok_iff (by decide)

theorem isCount_iff {text : String} : IsCount text ↔ ∃ n, parseCount text = .ok n := by
  simp only [IsCount, parseCount_eq_ok_iff, and_comm]

theorem filterMap_concat {α : Type} (g : Flag → Option α) (flags : List Flag) (f : Flag) :
    (flags ++ [f]).filterMap g = flags.filterMap g ++ (g f).toList := by
  rw [List.filterMap_append]
  cases hf : g f <;> simp [hf]

/-- One more flag is asked for. -/
theorem Asks.concat {f : Flag} (h : Asks flags args) (hf : f.Sets args args') :
    Asks (flags ++ [f]) args' where
  autopeer := by
    rw [hf.autopeer, h.autopeer, List.mem_append, List.mem_singleton, eq_comm (a := f)]
  genconf := by
    rw [hf.genconf, h.genconf, List.mem_append, List.mem_singleton, eq_comm (a := f)]
  help := by
    simp only [hf.help, h.help, List.mem_append, List.mem_singleton, exists_or, eq_comm (a := f)]
  peers text htext := by
    rw [peerTexts, filterMap_concat] at htext
    cases hpeers : f.peers? with
    | none =>
      rw [hpeers, Option.toList_none, List.append_nil] at htext
      rw [hf.noPeers hpeers]
      exact h.peers text htext
    | some last =>
      rw [hpeers, Option.toList_some, List.getLast?_concat] at htext
      cases htext
      exact (parseCount_eq_ok_iff.mp (hf.peers _ hpeers)).1
  noPeers hnone := by
    rw [peerTexts, filterMap_concat, List.append_eq_nil_iff, Option.toList_eq_nil_iff] at hnone
    rw [hf.noPeers hnone.2]
    exact h.noPeers hnone.1
  interface := by
    rw [hf.interface, h.interface, interfaceNames, interfaceNames, filterMap_concat,
      List.getLast?_append]
    cases f.interface? <;> rfl

/-- The words of flags are taken as those flags, one after the other. -/
theorem takeWords_wordsOf (args : DaemonArgs) (flags : List Flag) (rest : List String) :
    DaemonArgs.takeWords args (wordsOf flags ++ rest) =
      flags.foldlM Flag.apply args >>= fun args' => DaemonArgs.takeWords args' rest := by
  induction flags generalizing args with
  | nil => rfl
  | cons f flags ih =>
    rw [wordsOf_cons, List.append_assoc, takeWords_flag, List.foldlM_cons]
    cases f.apply args with
    | error e => rfl
    | ok mid => exact ih mid

theorem foldlM_concat (flags : List Flag) (f : Flag) (args : DaemonArgs) :
    (flags ++ [f]).foldlM Flag.apply args =
      flags.foldlM Flag.apply args >>= fun args => f.apply args := by
  rw [List.foldlM_append]
  cases flags.foldlM Flag.apply args with
  | error e => rfl
  | ok args =>
    rw [ok_bind, ok_bind, List.foldlM_cons]
    cases f.apply args <;> rfl

/-- What is taken is what the flags ask for. -/
theorem asks_of_foldlM (h : flags.foldlM Flag.apply {} = .ok args) : Asks flags args := by
  induction flags using List.reverseRecOn generalizing args with
  | nil =>
    cases h
    exact ⟨by simp, by simp, by simp, nofun, fun _ => rfl, rfl⟩
  | append_singleton flags f ih =>
    rw [foldlM_concat] at h
    obtain ⟨before, hbefore, hf⟩ := bind_eq_ok.mp h
    exact (ih hbefore).concat (Flag.sets_of_apply hf)

theorem peerTexts_cons (f : Flag) (flags : List Flag) :
    peerTexts (f :: flags) = f.peers?.toList ++ peerTexts flags := by
  rw [peerTexts, List.filterMap_cons]
  cases f.peers? <;> rfl

/-- Flags are taken unless a count is no number. -/
theorem exists_foldlM_iff (args : DaemonArgs) (flags : List Flag) :
    (∃ args', flags.foldlM Flag.apply args = .ok args') ↔
      ∀ text ∈ peerTexts flags, IsCount text := by
  induction flags generalizing args with
  | nil => exact ⟨fun _ => nofun, fun _ => ⟨args, rfl⟩⟩
  | cons f flags ih =>
    have hfirst : (∀ text ∈ f.peers?.toList, IsCount text) ↔ ∃ mid, f.apply args = .ok mid := by
      simp only [Flag.exists_apply_iff, Option.mem_toList, isCount_iff]
    rw [peerTexts_cons, List.forall_mem_append, hfirst, List.foldlM_cons]
    simp only [bind_eq_ok]
    constructor
    · rintro ⟨args', mid, hmid, hrest⟩
      exact ⟨⟨mid, hmid⟩, (ih mid).mp ⟨args', hrest⟩⟩
    · rintro ⟨⟨mid, hmid⟩, hcounts⟩
      obtain ⟨args', hrest⟩ := (ih mid).mpr hcounts
      exact ⟨args', mid, hmid, hrest⟩

/-- What no flag begins is refused. -/
theorem Stuck.exists_takeWords_eq_error {rest : List String} (h : Stuck rest) (args : DaemonArgs) :
    ∃ e, DaemonArgs.takeWords args rest = .error e := by
  cases h with
  | noCount => exact ⟨_, rfl⟩
  | noName => exact ⟨_, rfl⟩
  | @unknown word h rest =>
    simp only [flagWords, List.mem_cons, List.not_mem_nil, or_false, not_or] at h
    refine ⟨.unknown word, ?_⟩
    rw [DaemonArgs.takeWords] <;> simp_all

/-! ## Whole lines -/

/-- A count of peers asks for the new configuration too. -/
theorem parse_eq_ok_iff {words : List String} :
    DaemonArgs.parse words = .ok args ↔
      DaemonArgs.takeWords {} words = .ok args ∧ (args.withpeers = 0 ∨ args.genconf = true) := by
  have hchecked (got : DaemonArgs) :
      (got.withpeers > 0 ∧ (!got.genconf) = true) ↔
        ¬(got.withpeers = 0 ∨ got.genconf = true) := by
    rw [Bool.not_eq_true', not_or, Bool.not_eq_true, gt_iff_lt, Nat.pos_iff_ne_zero]
  rw [DaemonArgs.parse, bind_eq_ok]
  simp only [hchecked]
  constructor
  · rintro ⟨got, hgot, h⟩
    split at h
    · cases h
    · next hsafe =>
      cases h
      exact ⟨hgot, Decidable.not_not.mp hsafe⟩
  · rintro ⟨hgot, hsafe⟩
    exact ⟨args, hgot, if_neg (not_not_intro hsafe)⟩

theorem parse_wordsOf_eq_ok_iff :
    DaemonArgs.parse (wordsOf flags) = .ok args ↔
      flags.foldlM Flag.apply {} = .ok args ∧ (args.withpeers = 0 ∨ args.genconf = true) := by
  rw [parse_eq_ok_iff, ← List.append_nil (wordsOf flags), takeWords_wordsOf, bind_eq_ok]
  refine and_congr_left fun _ => ⟨?_, fun h => ⟨args, h, rfl⟩⟩
  rintro ⟨_, h, ⟨⟩⟩
  exact h

theorem Asks.withpeers_eq_zero_iff (h : Asks flags args) :
    args.withpeers = 0 ↔
      ∀ text, (peerTexts flags).getLast? = some text → SpellsNumber text.toList 0 := by
  constructor
  · intro hzero text htext
    rw [← hzero]
    exact h.peers text htext
  · intro hzero
    cases hlast : (peerTexts flags).getLast? with
    | none => exact h.noPeers (List.getLast?_eq_none_iff.mp hlast)
    | some text => exact (h.peers text hlast).unique (hzero text hlast)

/-- A line of flags is accepted if its counts are numbers, of which the last is 0 unless a new
configuration is asked for. -/
theorem exists_parse_wordsOf_iff :
    (∃ args, DaemonArgs.parse (wordsOf flags) = .ok args) ↔
      (∀ text ∈ peerTexts flags, IsCount text) ∧
        ((∀ text, (peerTexts flags).getLast? = some text → SpellsNumber text.toList 0) ∨
          .genconf ∈ flags) := by
  simp only [parse_wordsOf_eq_ok_iff]
  rw [← exists_foldlM_iff {}]
  constructor
  · rintro ⟨args, hargs, hsafe⟩
    have hasks := asks_of_foldlM hargs
    rw [hasks.withpeers_eq_zero_iff, hasks.genconf] at hsafe
    exact ⟨⟨args, hargs⟩, hsafe⟩
  · rintro ⟨⟨args, hargs⟩, hsafe⟩
    have hasks := asks_of_foldlM hargs
    rw [← hasks.withpeers_eq_zero_iff, ← hasks.genconf] at hsafe
    exact ⟨args, hargs, hsafe⟩

/-! ## Any order -/

/-- Rows with the same flags of each option, in the same order. -/
def SameByOption (flags flags' : List Flag) : Prop :=
  ∀ o, flags.filter (·.option = o) = flags'.filter (·.option = o)

namespace SameByOption

theorem symm (h : SameByOption flags flags') : SameByOption flags' flags := fun o => (h o).symm

theorem mem_iff (h : SameByOption flags flags') (f : Flag) : f ∈ flags ↔ f ∈ flags' := by
  have hf : f ∈ flags.filter (·.option = f.option) ↔ f ∈ flags'.filter (·.option = f.option) := by
    rw [h]
  simpa only [List.mem_filter, decide_true, and_true] using hf

/-- Such rows are reorderings of each other. -/
theorem perm (h : SameByOption flags flags') : flags.Perm flags' := by
  rw [List.perm_iff_count]
  intro f
  have hf := congrArg (List.count f) (h f.option)
  have hcount (flags : List Flag) :
      (flags.filter (·.option = f.option)).count f = flags.count f :=
    List.count_filter (decide_eq_true rfl)
  rwa [hcount, hcount] at hf

/-- What only flags of one option give is given alike. -/
theorem filterMap_eq {α : Type} (h : SameByOption flags flags') {g : Flag → Option α}
    (o : FlagOption) (hg : ∀ f, f.option ≠ o → g f = none) :
    flags.filterMap g = flags'.filterMap g := by
  have honly (flags : List Flag) :
      (flags.filter (·.option = o)).filterMap g = flags.filterMap g := by
    rw [List.filterMap_filter]
    congr 1
    funext f
    by_cases hf : f.option = o
    · simp [hf]
    · simp [hf, hg f hf]
  rw [← honly, h, honly]

theorem peerTexts_eq (h : SameByOption flags flags') : peerTexts flags = peerTexts flags' :=
  h.filterMap_eq .withpeers fun f => by cases f <;> simp [Flag.option, Flag.peers?]

theorem interfaceNames_eq (h : SameByOption flags flags') :
    interfaceNames flags = interfaceNames flags' :=
  h.filterMap_eq .interface fun f => by cases f <;> simp [Flag.option, Flag.interface?]

end SameByOption

/-- What rows ask for is the same if they are the same by option. -/
theorem Asks.congr (hsame : SameByOption flags flags') (h : Asks flags args) :
    Asks flags' args where
  autopeer := by rw [h.autopeer, hsame.mem_iff]
  genconf := by rw [h.genconf, hsame.mem_iff]
  help := by simp only [h.help, hsame.mem_iff]
  peers := by rw [← hsame.peerTexts_eq]; exact h.peers
  noPeers := by rw [← hsame.peerTexts_eq]; exact h.noPeers
  interface := by rw [h.interface, hsame.interfaceNames_eq]

/-- Flags ask for one thing only. -/
theorem Asks.unique (h : Asks flags args) (h' : Asks flags args') : args = args' := by
  have hpeers : args.withpeers = args'.withpeers := by
    cases hlast : (peerTexts flags).getLast? with
    | none =>
      have hnone := List.getLast?_eq_none_iff.mp hlast
      rw [h.noPeers hnone, h'.noPeers hnone]
    | some text => exact (h.peers text hlast).unique (h'.peers text hlast)
  have hautopeer := Bool.eq_iff_iff.mpr (h.autopeer.trans h'.autopeer.symm)
  have hgenconf := Bool.eq_iff_iff.mpr (h.genconf.trans h'.genconf.symm)
  have hhelp := Bool.eq_iff_iff.mpr (h.help.trans h'.help.symm)
  have hinterface := h.interface.trans h'.interface.symm
  cases args
  cases args'
  simp_all

theorem parse_wordsOf_congr (hsame : SameByOption flags flags')
    (h : DaemonArgs.parse (wordsOf flags) = .ok args) :
    DaemonArgs.parse (wordsOf flags') = .ok args := by
  have hasks := asks_of_foldlM (parse_wordsOf_eq_ok_iff.mp h).1
  have hsucceeds : ∃ args', DaemonArgs.parse (wordsOf flags') = .ok args' := by
    have hparse := exists_parse_wordsOf_iff.mp ⟨args, h⟩
    rw [hsame.peerTexts_eq, hsame.mem_iff] at hparse
    exact exists_parse_wordsOf_iff.mpr hparse
  obtain ⟨args', h'⟩ := hsucceeds
  have hasks' := asks_of_foldlM (parse_wordsOf_eq_ok_iff.mp h').1
  rw [h', hasks'.unique (hasks.congr hsame)]

/-- **The daemon's flags mean the same in any order.** Words are a row of flags in one way at most.
Such a line is accepted exactly if its counts are numbers and the last of them is 0 or a new
configuration is asked for; each switch is then on if its flag occurs, and each option with a value
has its last one, so the order of flags of different options does not matter. All other lines are
refused: those that end within a flag or go on with an unknown word. -/
theorem flags_in_any_order :
    (∀ flags flags', wordsOf flags = wordsOf flags' → flags = flags') ∧
    (∀ flags, (∃ args, DaemonArgs.parse (wordsOf flags) = .ok args) ↔
      (∀ text ∈ peerTexts flags, IsCount text) ∧
        ((∀ text, (peerTexts flags).getLast? = some text → SpellsNumber text.toList 0) ∨
          .genconf ∈ flags)) ∧
    (∀ flags args, DaemonArgs.parse (wordsOf flags) = .ok args → Asks flags args) ∧
    (∀ flags flags', SameByOption flags flags' →
      (DaemonArgs.parse (wordsOf flags)).toOption = (DaemonArgs.parse (wordsOf flags')).toOption) ∧
    (∀ words, (∀ flags, wordsOf flags ≠ words) ↔
      ∃ flags rest, words = wordsOf flags ++ rest ∧ Stuck rest) ∧
    ∀ words, (∀ flags, wordsOf flags ≠ words) → ∃ e, DaemonArgs.parse words = .error e := by
  refine ⟨fun _ _ => wordsOf_inj, fun _ => exists_parse_wordsOf_iff, ?_, ?_,
    fun _ => not_wordsOf_iff, ?_⟩
  · intro flags args h
    exact asks_of_foldlM (parse_wordsOf_eq_ok_iff.mp h).1
  · intro flags flags' hsame
    cases h : DaemonArgs.parse (wordsOf flags) with
    | ok args => rw [parse_wordsOf_congr hsame h]
    | error e =>
      cases h' : DaemonArgs.parse (wordsOf flags') with
      | error e' => rfl
      | ok args' => cases h.symm.trans (parse_wordsOf_congr hsame.symm h')
  · intro words hwords
    obtain ⟨flags, rest, rfl, hrest⟩ := not_wordsOf_iff.mp hwords
    cases h : DaemonArgs.parse (wordsOf flags ++ rest) with
    | error e => exact ⟨e, rfl⟩
    | ok args =>
      have htaken := (parse_eq_ok_iff.mp h).1
      rw [takeWords_wordsOf] at htaken
      obtain ⟨mid, -, hmid⟩ := bind_eq_ok.mp htaken
      obtain ⟨e, he⟩ := hrest.exists_takeWords_eq_error mid
      cases he.symm.trans hmid

/-- An interface may have the name of a flag; an option at the end of a line has no value. -/
theorem interface_named_like_flag :
    Asks [.interface "--genconf", .withpeers "3", .genconf]
      { genconf := true, withpeers := 3, interface := some "--genconf" } ∧
    (DaemonArgs.parse ["--interface", "--genconf", "--withpeers", "3", "--genconf"]).toOption =
      (DaemonArgs.parse ["--genconf", "--withpeers", "3", "--interface", "--genconf"]).toOption ∧
    ∃ e, DaemonArgs.parse ["--genconf", "--interface"] = .error e := by
  have hparse : DaemonArgs.parse ["--interface", "--genconf", "--withpeers", "3", "--genconf"] =
      .ok { genconf := true, withpeers := 3, interface := some "--genconf" } := by
    rfl
  have hsame : SameByOption [.interface "--genconf", .withpeers "3", .genconf]
      [.genconf, .withpeers "3", .interface "--genconf"] := by
    intro o
    cases o <;> decide
  obtain ⟨-, -, hasks, horder, hstuck, hrefused⟩ := flags_in_any_order
  refine ⟨hasks _ _ hparse, horder _ _ hsame, hrefused _ ?_⟩
  exact (hstuck _).mpr ⟨[.genconf], ["--interface"], rfl, .noName⟩

end MeshNode.CommandLine
