import MeshNode.Control
import MeshNode.Proofs.Records
import MeshNode.Proofs.Url.Paths

/-!
# What a run of the control tool asks

A run asks at most one thing, and that depends on its command line alone. What the run leaves behind
depends on the answer to it alone.

* **where the port stands** — `Placed`; `takePort_of_placed`, and `takePort_error` for a last word
  that is itself the name of the option;
* **the request of a run** — `asked?`; `run_congr`: nothing else counts, and `run_of_asked?_none`;
* **the target of a hook** — `hookTarget`; `request?_hookUrl`: it is that of the request, unless the
  URL is too long for one, `Sendable`;
* **calls** — `asked?_call`; `run_not_sendable`: nothing is asked where the URL is too long.
-/

namespace MeshNode

/-! ## Where the port stands -/

namespace CommandLine

/-- Some words with ports put in anywhere, of which the last one counts; the first number counts
if there are none. -/
inductive Placed : Nat → List String → Nat → List String → Prop
  | nothing {port : Nat} : Placed port [] port []
  | port {before p port : Nat} {value : String} {words rest : List String} :
    Text.parsePort value = .ok p → Placed p words port rest →
    Placed before ("--port" :: value :: words) port rest
  | word {before port : Nat} (w : String) {words rest : List String} :
    Placed before words port rest → Placed before (w :: words) port (w :: rest)

variable {before port : Nat} {words rest : List String}

theorem Placed.lt (h : Placed before words port rest) (hbefore : before < 0x10000) :
    port < 0x10000 := by
  induction h with
  | nothing => exact hbefore
  | port hvalue _ ih => exact ih (Text.parseUnsigned_lt (by decide) hvalue)
  | word _ _ ih => exact ih hbefore

theorem takePort_port {value : String} {p : Nat} (h : Text.parsePort value = .ok p) :
    takePort before ("--port" :: value :: words) = takePort p words := by
  rw [takePort, h]

theorem takePort_word {w : String} (h : w ≠ "--port") : takePort before (w :: words) =
    (do let (port, rest) ← takePort before words; return (port, w :: rest)) := by
  rw [takePort]
  · rintro rfl
    exact absurd rfl h
  · rintro value rest rfl
    exact absurd rfl h

/-- The port is taken out wherever it stands. -/
theorem takePort_of_placed (h : Placed before words port rest) (hrest : "--port" ∉ rest) :
    takePort before words = .ok (port, rest) := by
  induction h with
  | nothing => rw [takePort]
  | port hvalue _ ih => rw [takePort_port hvalue, ih hrest]
  | word w _ ih =>
    rw [List.mem_cons, not_or] at hrest
    rw [takePort_word (Ne.symm hrest.1), ih hrest.2]
    rfl

/-- After the name of the option there stands a port, not that name once more or nothing. -/
theorem takePort_error (h : Placed before words port (rest ++ ["--port"]))
    (hrest : "--port" ∉ rest) : ∃ e, takePort before words = .error e := by
  generalize hall : rest ++ ["--port"] = all at h
  induction h generalizing rest with
  | nothing => exact absurd hall (by simp)
  | port hvalue _ ih =>
    obtain ⟨e, he⟩ := ih hrest hall
    exact ⟨e, by rw [takePort_port hvalue, he]⟩
  | @word before port w words others h ih =>
    cases rest with
    | nil =>
      -- only ports may follow, and their option is taken for a value
      obtain ⟨rfl, hothers⟩ := List.cons.inj hall
      rw [← hothers] at h
      cases h with
      | nothing => exact ⟨_, by rw [takePort]⟩
      | port => exact ⟨.badNumber "--port" .invalidDigit, rfl⟩
    | cons first rest =>
      obtain ⟨rfl, hothers⟩ := List.cons.inj hall
      rw [List.mem_cons, not_or] at hrest
      obtain ⟨e, he⟩ := ih hrest.2 hothers
      exact ⟨e, by rw [takePort_word (Ne.symm hrest.1), he]; rfl⟩

end CommandLine

namespace Control

open Admin CommandLine Text

/-! ## The request of a run -/

/-- The request that a command makes on a port, if it makes any. -/
def requestOf? (port : Nat) : Command → Option Request
  | .help => none
  | .unknown _ => none
  | .list => request? (hookUrl port none) "GET" none
  | .call hook none => request? (hookUrl port (some hook)) "GET" none
  | .call hook (some text) => do
    let v ← Json.parse? text.toList
    request? (hookUrl port (some hook)) "POST" (some v)

/-- The port and the request of a run, if it makes any. -/
def asked? (words : List String) : Option (Nat × Request) :=
  match controlArgs words with
  | .error _ => none
  | .ok (port, rest) => (requestOf? port (Command.ofWords rest)).map (port, ·)

section Reading

variable {words rest : List String} {port : Nat} (h : controlArgs words = .ok (port, rest))

include h

theorem run_of_args (servers : Servers) :
    run servers words = runCommand servers port (Command.ofWords rest) := by
  rw [run, h]

theorem asked?_of_args :
    asked? words = (requestOf? port (Command.ofWords rest)).map (port, ·) := by
  rw [asked?, h]

end Reading

section Congruence

variable {servers servers' : Servers} {port : Nat}

theorem send?_congr {url method : String} {args : Option Json}
    (h : ∀ q, request? url method args = some q →
      (servers port).map (· q) = (servers' port).map (· q)) :
    send? servers port url method args = send? servers' port url method args := by
  have hsend : ∀ servers : Servers, send? servers port url method args =
      (request? url method args).bind fun q => (servers port).map (· q) := by
    intro servers
    unfold send?
    cases servers port <;> cases request? url method args <;> rfl
  rw [hsend, hsend]
  cases hq : request? url method args with
  | none => rfl
  | some q => exact h q hq

theorem fetch_congr {url : String}
    (h : ∀ q, request? url "GET" none = some q →
      (servers port).map (· q) = (servers' port).map (· q)) :
    fetch servers port url = fetch servers' port url := by
  rw [fetch, fetch, send?_congr h]

theorem submit_congr {url : String} {args : Json}
    (h : ∀ q, request? url "POST" (some args) = some q →
      (servers port).map (· q) = (servers' port).map (· q)) :
    submit servers port url args = submit servers' port url args := by
  rw [submit, submit, send?_congr h]

theorem runCommand_congr {command : Command}
    (h : ∀ q, requestOf? port command = some q →
      (servers port).map (· q) = (servers' port).map (· q)) :
    runCommand servers port command = runCommand servers' port command := by
  cases command with
  | help => rfl
  | unknown words => rfl
  | list => rw [runCommand, runCommand, fetch_congr h]
  | call hook args =>
    cases args with
    | none => simp only [runCommand, fetch_congr h]
    | some text =>
      cases hv : Json.parse? text.toList with
      | none => simp only [runCommand, hv]
      | some v =>
        have hsubmit : ∀ q, request? (hookUrl port (some hook)) "POST" (some v) = some q →
            (servers port).map (· q) = (servers' port).map (· q) := by
          intro q hq
          refine h q ?_
          rw [requestOf?, hv, Option.bind_eq_bind, Option.bind_some, hq]
        simp only [runCommand, hv, submit_congr hsubmit]

/-- What a run leaves behind depends on the answer to its one request, and on no other. -/
theorem run_congr {words : List String}
    (h : ∀ port q, asked? words = some (port, q) →
      (servers port).map (· q) = (servers' port).map (· q)) :
    run servers words = run servers' words := by
  cases hargs : controlArgs words with
  | error e => rw [run, run, hargs]
  | ok found =>
    obtain ⟨port, rest⟩ := found
    rw [run_of_args hargs, run_of_args hargs]
    refine runCommand_congr fun q hq => h port q ?_
    rw [asked?_of_args hargs, hq]
    rfl

theorem run_of_asked?_none {words : List String} (h : asked? words = none)
    (servers servers' : Servers) : run servers words = run servers' words := by
  refine run_congr fun port q hq => ?_
  rw [h] at hq
  cases hq

end Congruence

/-! ## The target of a hook -/

/-- A text with the slashes that it stands for in a URL. -/
def slashed (s : List Char) : List Char := s.map fun c => if c = '\\' then '/' else c

/-- The segments that a name put behind the path of the hooks makes. -/
def hookSegments (hook : String) : List String :=
  Url.addSegments false ["api", "admin"] (Text.splitAt '/' (slashed (Url.bodyOf hook.toList)))

/-- The target of a request to a name put behind the path of the hooks. -/
def hookTarget (hook : String) : String :=
  (UrlPath.segments (hookSegments hook)).render ++
    ((Url.cutTail true (Url.tailOf hook.toList)).1.map ("?" ++ ·)).getD ""

/-- The segments of the path of the hooks stand before whatever the name makes. -/
theorem segmentsOf_admin (s : List Char) :
    Url.segmentsOf true false ("api/admin/".toList ++ s) =
      Url.addSegments false ["api", "admin"] (Text.splitAt '/' (slashed s)) := by
  have hslashed : slashed ("api/admin/".toList ++ s) =
      "api".toList ++ '/' :: ("admin".toList ++ '/' :: slashed s) := by
    rw [slashed, List.map_append]
    rfl
  have hsegments : Url.segmentsOf true false ("api/admin/".toList ++ s) =
      Url.addSegments false [] (Text.splitAt '/' (slashed ("api/admin/".toList ++ s))) := by
    rw [slashed, Url.segmentsOf]
    simp only [if_true, Bool.false_eq_true, if_false, beq_iff_eq]
  obtain ⟨first, rest, hpieces⟩ := List.exists_cons_of_ne_nil (splitAt_ne_nil '/' (slashed s))
  rw [hsegments, hslashed, splitAt_append (by decide), splitAt_append (by decide), hpieces]
  rfl

theorem hookUrl_some (port : Nat) (hook : String) :
    hookUrl port (some hook) = Url.localText port ++ ("/api/admin/" ++ hook) := by
  have hlist : listPath ++ "/" = "/api/admin/" := by decide
  rw [← hlist, String.append_assoc, ← String.append_assoc]
  rfl

/-- The URL of a name put behind the path of the hooks. -/
def locator (port : Nat) (hook : String) : Url :=
  ⟨"http", some (Url.localAuthority port), .segments (hookSegments hook),
    (Url.cutTail true (Url.tailOf hook.toList)).1, (Url.cutTail true (Url.tailOf hook.toList)).2⟩

/-- Whether a request can go to the URL of a name. -/
def Sendable (port : Nat) (hook : String) : Prop :=
  (sendable? (hookUrl port (some hook))).isSome = true

instance {port : Nat} {hook : String} : Decidable (Sendable port hook) :=
  inferInstanceAs (Decidable (_ = true))

theorem parse_hookUrl {port : Nat} (hport : port < 0x10000) (hook : String) :
    Url.parse (hookUrl port (some hook)) = .ok (locator port hook) := by
  have hpath : "/api/admin/".toList = '/' :: "api/admin/".toList := rfl
  have htext : (hookUrl port (some hook)).toList =
      (Url.localText port).toList ++ '/' :: ("api/admin/".toList ++ hook.toList) := by
    rw [hookUrl_some, String.toList_append, String.toList_append, hpath, List.cons_append]
  have hfront : ∀ c ∈ "api/admin/".toList, Host.isGraphic c = true ∧ Url.endsPath c = false :=
    List.all_iff_forall_prop.mp (by decide)
  rw [Url.parse_local hport htext, Url.bodyOf_append hfront, segmentsOf_admin,
    Url.tailOf_append hfront]
  rfl

section Sending

variable {port : Nat} {hook : String} (hport : port < 0x10000)

theorem request?_of_not_sendable (h : ¬ Sendable port hook) (method : String)
    (args : Option Json) : request? (hookUrl port (some hook)) method args = none := by
  rw [Sendable, Option.not_isSome_iff_eq_none] at h
  rw [request?, h]
  rfl

include hport

theorem sendable?_hookUrl : sendable? (hookUrl port (some hook)) =
    if (locator port hook).render.utf8ByteSize ≤ maxUrl then some (locator port hook) else none := by
  rw [sendable?, parse_hookUrl hport]
  rfl

/-- Only the length of the URL counts. -/
theorem sendable_iff : Sendable port hook ↔ (locator port hook).render.utf8ByteSize ≤ maxUrl := by
  rw [Sendable, sendable?_hookUrl hport, Option.isSome_ite]

theorem request?_hookUrl (h : Sendable port hook) (method : String) (args : Option Json) :
    request? (hookUrl port (some hook)) method args =
      some ⟨method, hookTarget hook, args.map fun _ => Response.jsonType,
        (args.map fun v => utf8 v.render).getD []⟩ := by
  rw [request?, sendable?_hookUrl hport, if_pos ((sendable_iff hport).mp h)]
  rfl

end Sending

/-! ## Calls -/

/-- The words that are commands of their own, not names of hooks, and the name of the option. -/
def reservedWords : List String := ["list", "help", "--help", "-h", "--port"]

theorem ofWords_call {hook : String} (h : hook ∉ reservedWords) (arg : Option String) :
    Command.ofWords (hook :: arg.toList) = .call hook arg := by
  simp only [reservedWords, List.mem_cons, List.not_mem_nil, or_false, not_or] at h
  obtain ⟨hlist, hhelp, hlong, hshort, -⟩ := h
  cases arg with
  | some text =>
    show Command.ofWords [hook, text] = _
    rw [Command.ofWords]
  | none =>
    show Command.ofWords [hook] = _
    rw [Command.ofWords]
    · exact hlist
    · exact hhelp
    · exact hlong
    · exact hshort

/-- The request of a call, if its arguments are JSON. -/
def callRequest? (hook : String) : Option String → Option Request
  | none => some ⟨"GET", hookTarget hook, none, []⟩
  | some text => (Json.parse? text.toList).map fun v =>
      ⟨"POST", hookTarget hook, some Response.jsonType, utf8 v.render⟩

/-- There is such a request unless the arguments are no JSON. -/
theorem exists_callRequest? {arg : Option String} (hook : String)
    (hjson : ∀ text, arg = some text → (Json.parse? text.toList).isSome = true) :
    ∃ q, callRequest? hook arg = some q := by
  cases arg with
  | none => exact ⟨_, rfl⟩
  | some text =>
    obtain ⟨v, hv⟩ := Option.isSome_iff_exists.mp (hjson text rfl)
    exact ⟨_, by rw [callRequest?, hv]; rfl⟩

section Calls

variable {words : List String} {port : Nat} {hook : String} {arg : Option String}
  (hplaced : Placed defaultAdminPort words port (hook :: arg.toList)) (hword : hook ∉ reservedWords)

include hplaced hword

/-- The port and the words of a call are told apart, unless its arguments are the name of the
option. -/
theorem controlArgs_call (harg : arg ≠ some "--port") :
    controlArgs words = .ok (port, hook :: arg.toList) := by
  refine takePort_of_placed hplaced fun hmem => ?_
  rcases List.mem_cons.mp hmem with hhook | hmem
  · exact hword (hhook ▸ by decide)
  · exact harg (Option.mem_toList.mp hmem)

theorem controlArgs_option (harg : arg = some "--port") :
    ∃ e, controlArgs words = .error e := by
  subst harg
  refine @takePort_error _ _ _ [hook] hplaced fun hmem => ?_
  exact hword (List.mem_singleton.mp hmem ▸ by decide)

theorem asked?_of_not_json {text : String} (harg : arg = some text)
    (hnone : Json.parse? text.toList = none) : asked? words = none := by
  by_cases hoption : arg = some "--port"
  · obtain ⟨e, he⟩ := controlArgs_option hplaced hword hoption
    rw [asked?, he]
  · rw [asked?_of_args (controlArgs_call hplaced hword hoption), ofWords_call hword, harg,
      requestOf?, hnone]
    rfl

section Json

variable {q : Request} (hq : callRequest? hook arg = some q)

include hq

theorem controlArgs_of_callRequest? : controlArgs words = .ok (port, hook :: arg.toList) := by
  refine controlArgs_call hplaced hword ?_
  rintro rfl
  have hnone : Json.parse? "--port".toList = none := by decide +kernel
  rw [callRequest?, hnone] at hq
  cases hq

/-- A call asks for its hook on the port given. -/
theorem asked?_call (h : Sendable port hook) : asked? words = some (port, q) := by
  have hport : port < 0x10000 := hplaced.lt (by decide)
  rw [asked?_of_args (controlArgs_of_callRequest? hplaced hword hq), ofWords_call hword]
  cases arg with
  | none =>
    cases hq
    rw [requestOf?, request?_hookUrl hport h]
    rfl
  | some text =>
    obtain ⟨v, hv, rfl⟩ := Option.map_eq_some_iff.mp hq
    rw [requestOf?, hv, Option.bind_eq_bind, Option.bind_some, request?_hookUrl hport h]
    rfl

/-- A call whose URL is too long asks nothing, and the tool takes nobody to be there. -/
theorem run_not_sendable (h : ¬ Sendable port hook) : asked? words = none ∧
    ∀ servers, run servers words = failure (unreachable (hookUrl port (some hook))) := by
  have hargs := controlArgs_of_callRequest? hplaced hword hq
  have hsend : ∀ (servers : Servers) (method : String) (args : Option Json),
      send? servers port (hookUrl port (some hook)) method args = none := by
    intro servers method args
    rw [send?, request?_of_not_sendable h]
    cases servers port <;> rfl
  cases arg with
  | none =>
    refine ⟨?_, fun servers => ?_⟩
    · rw [asked?_of_args hargs, ofWords_call hword, requestOf?, request?_of_not_sendable h]
      rfl
    · rw [run_of_args hargs, ofWords_call hword]
      simp only [runCommand, fetch, hsend]
  | some text =>
    obtain ⟨v, hv, -⟩ := Option.map_eq_some_iff.mp hq
    refine ⟨?_, fun servers => ?_⟩
    · rw [asked?_of_args hargs, ofWords_call hword, requestOf?, hv, Option.bind_eq_bind,
        Option.bind_some, request?_of_not_sendable h]
      rfl
    · rw [run_of_args hargs, ofWords_call hword]
      simp only [runCommand, hv, submit, hsend]

end Json

end Calls

/-- What a hook is given: the arguments as they read back from the body that carries them, which may
not be too long, or `null`. -/
def delivered? : Option String → Option Json
  | none => some .null
  | some text => do
    let v ← Json.parse? text.toList
    if (utf8 v.render).length ≤ maxBody then Json.parse? v.render.toList else none

end Control

end MeshNode
