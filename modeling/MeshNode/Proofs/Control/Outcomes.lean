import MeshNode.Proofs.Control.Naming
import MeshNode.Proofs.Json.Shape

/-!
# Outcomes of calls

A call of a hook whose name needs no encoding mirrors the registry: it prints the value that the
registry gives, and nothing else, or says why there is none.

* **such names** — `isUnreserved`; `verbatim_of_unreserved`; `sendable_iff_of_unreserved`: how long
  they may be;
* **no JSON** — `run_not_json`: nothing is asked;
* **what is delivered** — `delivered?_of_numbers`; `run_delivered` and `run_undelivered`;
* **what is printed** — `renderPretty_inj`: it tells the values apart;
* **all of it** — `mirrors_registry`.
-/

namespace MeshNode.Control

open Admin CommandLine Text

/-! ## Names without encoding -/

/-- The characters that never need encoding in a URL. -/
def isUnreserved (c : Char) : Bool := c.isAlphanum || "-._~".toList.contains c

variable {hook : String}

theorem hasEscape_of_not_mem {s : List Char} (h : '%' ∉ s) : hasEscape s = false := by
  induction s with
  | nil => rfl
  | cons c s ih =>
    rw [List.mem_cons, not_or] at h
    rw [hasEscape, beq_false_of_ne (Ne.symm h.1), Bool.false_and, Bool.false_or, ih h.2]

theorem lt_of_isUnreserved {c : Char} (h : isUnreserved c = true) : c.toNat < 128 := by
  have hmarks : ∀ d ∈ "-._~".toList, d.toNat < 128 := List.all_iff_forall_prop.mp (by decide)
  rw [isUnreserved, Bool.or_eq_true, List.contains_iff_mem] at h
  rcases h with h | h
  · exact lt_of_isAlphanum h
  · exact hmarks c h

theorem isGraphic_of_isUnreserved {c : Char} (h : isUnreserved c = true) :
    (Host.isGraphic c && !"/\\?#\t\n\r%".toList.contains c) = true :=
  ascii_imp (p := isUnreserved)
    (q := fun c => Host.isGraphic c && !"/\\?#\t\n\r%".toList.contains c) (by decide)
    (lt_of_isUnreserved h) h

theorem verbatim_of_unreserved (h : hook.toList.all isUnreserved = true)
    (hdots : hook ∉ [".", ".."]) : Verbatim hook := by
  have hchar : ∀ c ∈ hook.toList, Host.isGraphic c = true ∧ c ∉ "/\\?#\t\n\r%".toList := by
    intro c hc
    have hgraphic := isGraphic_of_isUnreserved (List.all_eq_true.mp h c hc)
    rw [Bool.and_eq_true, Bool.not_eq_true', ← Bool.not_eq_true, List.contains_iff_mem] at hgraphic
    exact hgraphic
  refine ⟨List.all_eq_true.mpr fun c hc => ?_, ?_, ?_, ?_⟩
  · rw [Bool.not_eq_true', ← Bool.not_eq_true, List.contains_iff_mem]
    have hsub : ∀ d ∈ "/\\?#\t\n\r".toList, d ∈ "/\\?#\t\n\r%".toList :=
      List.all_iff_forall_prop.mp (by decide)
    exact fun hmem => (hchar c hc).2 (hsub c hmem)
  · cases hlast : hook.toList.getLast? with
    | none => rfl
    | some c =>
      have hgraphic := (hchar c (List.mem_of_getLast? hlast)).1
      simp only [Host.isGraphic, Bool.and_eq_true] at hgraphic
      exact hgraphic.1
  · simpa using hdots
  · exact hasEscape_of_not_mem fun hmem => (hchar '%' hmem).2 (by decide)

theorem percentEncode_of_unreserved (h : hook.toList.all isUnreserved = true) :
    percentEncode Url.encodedInPath hook.toList = hook.toList := by
  refine percentEncode_eq_self fun c hc => ?_
  have hunreserved := List.all_eq_true.mp h c hc
  have hlt := lt_of_isUnreserved hunreserved
  have hplain := ascii_imp (p := isUnreserved) (q := fun c => !Url.encodedInPath c) (by decide) hlt
    hunreserved
  exact ⟨by simpa using hplain, hlt⟩

/-- The URL of such a name is written as it is given, but for a port that goes without saying. -/
theorem render_locator_of_unreserved {port : Nat} (h : hook.toList.all isUnreserved = true)
    (hdots : hook ∉ [".", ".."]) : (locator port hook).render =
      "http://127.0.0.1" ++ (if port = 80 then "" else ":" ++ toString port) ++
        ("/api/admin/" ++ hook) := by
  have hverbatim := verbatim_of_unreserved h hdots
  have hpath : (UrlPath.segments ["api", "admin", hook]).render = "/api/admin/" ++ hook := by
    apply String.toList_inj.mp
    rw [Url.toList_render_segments, String.toList_append]
    simp
  have hscheme : ∀ authority : String, "http" ++ ":" ++ ("//127.0.0.1" ++ authority) =
      "http://127.0.0.1" ++ authority := by
    intro authority
    rw [← String.append_assoc]
    rfl
  rw [locator, hverbatim.hookSegments_eq, hverbatim.breakAt_eq.2, percentEncode_of_unreserved h,
    String.ofList_toList, Url.render, Option.map_some, Option.getD_some, Url.authorityText_local,
    hscheme, Url.pathText, hpath]
  simp [Url.cutTail, Url.pathGuard]

/-- A request can go to the URL of such a name if the URL is not too long, its port left out where
that is 80. -/
theorem sendable_iff_of_unreserved {port : Nat} (hport : port < 0x10000)
    (h : hook.toList.all isUnreserved = true) (hdots : hook ∉ [".", ".."]) :
    Sendable port hook ↔
      (hookUrl port (some hook)).utf8ByteSize ≤ maxUrl + if port = 80 then 3 else 0 := by
  have hlocal : (Url.localText port).utf8ByteSize =
      "http://127.0.0.1".utf8ByteSize + 1 + (toString port).utf8ByteSize :=
    String.utf8ByteSize_append
  have hcolon : ":".utf8ByteSize = 1 := by decide
  have hdefault : (toString 80).utf8ByteSize = 2 := by decide +kernel
  rw [sendable_iff hport, render_locator_of_unreserved h hdots, hookUrl_some]
  simp only [String.utf8ByteSize_append, hlocal]
  split
  · next heq =>
    rw [heq, hdefault, String.utf8ByteSize_empty]
    omega
  · rw [String.utf8ByteSize_append, hcolon]
    omega

/-! ## What is delivered -/

variable {words : List String} {port : Nat} {arg : Option String} {text : String} {v : Json}
  {r : Registry} {servers : Servers}

/-- Arguments are delivered as they are if their numbers are read back from what is written for
them and the body is not too long. -/
theorem delivered?_of_numbers (hv : Json.parse? text.toList = some v)
    (hnumbers : ∀ x, Json.Occurs x v → Numeral.read? (Json.numberText x) = some x)
    (hlength : (utf8 v.render).length ≤ maxBody) : delivered? (some text) = some v := by
  have hlegible := Json.legible_of_parse? hv hnumbers
  rw [delivered?, hv, Option.bind_eq_bind, Option.bind_some, if_pos hlength, Json.render,
    String.toList_ofList, Json.parse?_compact hlegible]

theorem postedArguments_of_undelivered (hv : Json.parse? text.toList = some v)
    (h : delivered? (some text) = none) : ∃ status,
      postedArguments ⟨"POST", hookTarget hook, some Response.jsonType, utf8 v.render⟩ =
        .error status := by
  have htype : isJsonType Response.jsonType = true := by decide
  rw [delivered?, hv, Option.bind_eq_bind, Option.bind_some] at h
  unfold postedArguments
  simp only [Option.any_some, htype, Bool.not_true, Bool.false_eq_true, if_false, ofUtf8?_utf8,
    Option.bind_some]
  split
  · exact ⟨413, rfl⟩
  · next hlength =>
    rw [if_pos (Nat.le_of_not_lt hlength)] at h
    rw [h]
    exact ⟨400, rfl⟩

section Calls

variable (hplaced : Placed defaultAdminPort words port (hook :: arg.toList))
  (hword : hook ∉ reservedWords)

include hplaced hword

/-- Arguments that are no JSON make the run fail before it asks anything. -/
theorem run_not_json (harg : arg = some text) (hnone : Json.parse? text.toList = none)
    (servers : Servers) : (run servers words).exit = 1 ∧ asked? words = none := by
  refine ⟨?_, asked?_of_not_json hplaced hword harg hnone⟩
  by_cases hoption : arg = some "--port"
  · obtain ⟨e, he⟩ := controlArgs_option hplaced hword hoption
    rw [run, he]
    rfl
  · rw [run_of_args (controlArgs_call hplaced hword hoption), ofWords_call hword, harg]
    simp only [runCommand, hnone]
    rfl

section Verbatim

variable (hne : hook ≠ "") (hverbatim : Verbatim hook) (hsend : Sendable port hook)
  (hserver : servers port = some (respond r))

include hne hverbatim hsend hserver

/-- A call prints what its hook answers to what is delivered. -/
theorem run_delivered {a : Json} (ha : delivered? arg = some a) :
    run servers words =
      report (answered (hookUrl port (some hook)) arg (.ofCall (r.call hook a))) := by
  have hjson : ∀ text, arg = some text → (Json.parse? text.toList).isSome = true := by
    rintro text rfl
    rw [delivered?, Option.bind_eq_bind, Option.bind_eq_some_iff] at ha
    obtain ⟨v, hv, -⟩ := ha
    exact Option.isSome_iff_exists.mpr ⟨v, hv⟩
  obtain ⟨q, hq⟩ := exists_callRequest? hook hjson
  rw [run_call hplaced hword hq hsend hserver, respond_call r hne hverbatim hq ha]

theorem run_undelivered (harg : arg = some text) (hv : Json.parse? text.toList = some v)
    (h : delivered? arg = none) :
    run servers words = ⟨1, "", "Error: failed to parse response"⟩ := by
  subst harg
  have hq : callRequest? hook (some text) =
      some ⟨"POST", hookTarget hook, some Response.jsonType, utf8 v.render⟩ := by
    rw [callRequest?, hv]
    rfl
  obtain ⟨status, hstatus⟩ := postedArguments_of_undelivered hv h
  have hanswer : respond r ⟨"POST", hookTarget hook, some Response.jsonType, utf8 v.render⟩ =
      .ofPlain status := by
    rw [respond_post (named?_of_verbatim hne hverbatim).1, post,
      decodeName?_encodedInPath hverbatim.escapes, hstatus]
  rw [run_call hplaced hword hq hsend hserver, hanswer, report_ofPlain]

end Verbatim

end Calls

/-! ## All of it -/

theorem newline_not_mem_hookUrl (h : Verbatim hook) (port : Nat) :
    '\n' ∉ (hookUrl port (some hook)).toList := by
  rw [hookUrl_some, String.toList_append, String.toList_append, Url.toList_localText,
    List.mem_append, List.mem_append, List.mem_append, not_or, not_or, not_or]
  refine ⟨⟨by decide, fun hmem => ?_⟩, by decide, fun hmem => ?_⟩
  · exact absurd (isDecimal_of_mem_toString hmem) (by decide)
  · exact (h.ne hmem).2.2.2.1 rfl

/-- What is printed tells the values apart. -/
theorem renderPretty_inj {v w : Json} (hv : v.Legible Json.Reader.maxDepth)
    (hw : w.Legible Json.Reader.maxDepth) (h : v.renderPretty = w.renderPretty) : v = w := by
  have hforms : Json.prettyAt 0 v = Json.prettyAt 0 w := String.ofList_inj.mp h
  have hback := Json.parse?_prettyAt hv
  rw [hforms, Json.parse?_prettyAt hw] at hback
  exact (Option.some.inj hback).symm

/-- A call mirrors the registry. Without JSON nothing is asked, nor is it where the URL is too long.
Otherwise the run prints a value just if the registry gives it for what is delivered, and says why
there is none if it gives an error; and what is delivered are the arguments, as long as their numbers
are read back from what is written for them, as every integer of 64 bits is, and the body is not too
long. -/
theorem mirrors_registry {words : List String} {port : Nat} {hook : String} {arg : Option String}
    {r : Registry} {servers : Servers}
    (hplaced : Placed defaultAdminPort words port (hook :: arg.toList))
    (hname : hook.toList.all isUnreserved = true) (hne : hook ≠ "") (hdots : hook ∉ [".", ".."])
    (hword : hook ∉ reservedWords) (hserver : servers port = some (respond r)) :
    (∀ text, arg = some text → Json.parse? text.toList = none →
      (run servers words).exit = 1 ∧ asked? words = none ∧
        ∀ others, run others words = run servers words) ∧
    (Sendable port hook ↔
      (hookUrl port (some hook)).utf8ByteSize ≤ maxUrl + if port = 80 then 3 else 0) ∧
    (Sendable port hook → ∀ a, delivered? arg = some a →
      (∀ v, r.call hook a = .ok v → v.Legible Json.Reader.maxDepth) →
      (∀ v, v.Legible Json.Reader.maxDepth →
        (run servers words = .success (v.renderPretty ++ "\n") ↔ r.call hook a = .ok v)) ∧
      ∀ e, r.call hook a = .error e → run servers words =
        ⟨1, "", "Error: " ++ hookUrl port (some hook) ++ " returned " ++ refusalText e ++ ": " ++
          firstLine e.message⟩) ∧
    (∀ text v, arg = some text → Json.parse? text.toList = some v →
      ((∀ x, Json.Occurs x v → Numeral.read? (Json.numberText x) = some x) →
        (utf8 v.render).length ≤ maxBody → delivered? arg = some v) ∧
      (Sendable port hook → delivered? arg = none →
        run servers words = ⟨1, "", "Error: failed to parse response"⟩)) ∧
    (¬ Sendable port hook →
      (∀ text, arg = some text → (Json.parse? text.toList).isSome = true) →
      asked? words = none ∧
        run servers words = failure (unreachable (hookUrl port (some hook)))) ∧
    ∀ i, -0x8000000000000000 ≤ i → i < 0x10000000000000000 →
      Numeral.read? (Json.numberText (.int i)) = some (.int i) := by
  have hverbatim := verbatim_of_unreserved hname hdots
  refine ⟨fun text harg hnone => ?_,
    sendable_iff_of_unreserved (hplaced.lt (by decide)) hname hdots,
    fun hsend a ha hlegible => ⟨fun v hv => ?_, fun e he => ?_⟩,
    fun text v harg hv => ⟨fun hnumbers hlength => ?_, fun hsend hnone => ?_⟩,
    fun hlong hjson => ?_, fun i hlow hhigh => ?_⟩
  · -- nothing is asked, so it does not matter who would have answered
    obtain ⟨hexit, hasked⟩ := run_not_json hplaced hword harg hnone servers
    exact ⟨hexit, hasked, fun others => run_of_asked?_none hasked others servers⟩
  · rw [run_delivered hplaced hword hne hverbatim hsend hserver ha]
    constructor
    · intro hrun
      cases hcall : r.call hook a with
      | ok w =>
        -- values that are printed alike are the same
        rw [hcall, report_ok (hlegible w hcall)] at hrun
        have htext : w.renderPretty ++ "\n" = v.renderPretty ++ "\n" :=
          congrArg Outcome.stdout hrun
        rw [renderPretty_inj (hlegible w hcall) hv (String.append_left_inj _ |>.mp htext)]
      | error e =>
        -- a refusal is told by the exit status
        rw [hcall, report_error e (newline_not_mem_hookUrl hverbatim port)] at hrun
        cases congrArg Outcome.exit hrun
    · intro hcall
      rw [hcall, report_ok hv]
  · rw [run_delivered hplaced hword hne hverbatim hsend hserver ha, he,
      report_error e (newline_not_mem_hookUrl hverbatim port)]
  · subst harg
    exact delivered?_of_numbers hv hnumbers hlength
  · exact run_undelivered hplaced hword hne hverbatim hsend hserver harg hv hnone
  · obtain ⟨q, hq⟩ := exists_callRequest? hook hjson
    obtain ⟨hasked, hrun⟩ := run_not_sendable hplaced hword hq hlong
    exact ⟨hasked, hrun servers⟩
  · exact Numeral.read?_int hlow hhigh

/-- A hook that gives its arguments back, with the port between its name and them. -/
theorem echoed_on_another_port :
    let r : Registry := ⟨[⟨"echo", "gives its arguments back", echo⟩]⟩
    let servers : Servers := fun port => if port = 9200 then some (respond r) else none
    let words := ["echo", "--port", "9200", "[-3]"]
    Placed defaultAdminPort words 9200 ["echo", "[-3]"] ∧
      "echo".toList.all isUnreserved = true ∧ "echo" ≠ "" ∧ "echo" ∉ [".", ".."] ∧
      "echo" ∉ reservedWords ∧ (servers 9200).isSome = true ∧ Sendable 9200 "echo" ∧
      run servers words = .success "[\n  -3\n]\n" := by
  intro r servers words
  have hplaced : Placed defaultAdminPort words 9200 ("echo" :: (some "[-3]").toList) :=
    .word _ (.port (by decide +kernel) (.word _ .nothing))
  have hname : "echo".toList.all isUnreserved = true := by decide
  have hne : "echo" ≠ "" := by decide
  have hdots : "echo" ∉ [".", ".."] := by decide
  have hword : "echo" ∉ reservedWords := by decide
  obtain ⟨-, hlength, hmirrors, hdelivers, -, hintegers⟩ :=
    @mirrors_registry words 9200 "echo" (some "[-3]") r servers hplaced hname hne hdots hword rfl
  let v : Json := .arr [.num (.int (-3))]
  have hnumber := hintegers (-3) (by decide) (by decide)
  have hlegible : v.Legible Json.Reader.maxDepth := by
    refine .arr fun w hw => ?_
    rw [List.mem_singleton.mp hw]
    exact .num hnumber
  have hdelivered : delivered? (some "[-3]") = some v := by
    refine (hdelivers "[-3]" v rfl rfl).1 (fun x (hx : Json.Occurs x (.arr _)) => ?_) ?_
    · cases hx with
      | item hmem hx =>
        rw [List.mem_singleton.mp hmem] at hx
        cases hx
        exact hnumber
    · rw [utf8_eq_flatMap]
      decide +kernel
  have hcall : r.call "echo" v = .ok v := rfl
  have honly : ∀ w, r.call "echo" v = .ok w → w.Legible Json.Reader.maxDepth := by
    intro w hw
    cases hw
    exact hlegible
  have hsend : Sendable 9200 "echo" := hlength.mpr (by decide +kernel)
  exact ⟨hplaced, hname, hne, hdots, hword, rfl, hsend,
    ((hmirrors hsend v hdelivered honly).1 v hlegible).mpr hcall⟩

/-- A number of more than 64 bits that a hook gives back is rounded once more on its way, an empty
name is no segment of a path, and a name may be too long for a URL. -/
theorem reprinted_and_unreached :
    let r : Registry := ⟨[⟨"", "", constant (.ofNat 1)⟩, ⟨"echo", "", echo⟩]⟩
    let text := "147573952589676412928"
    let long := String.ofList (List.replicate maxUrl 'a')
    let wordy := onlyHook long (constant (.ofNat 1))
    (Placed defaultAdminPort ["echo", text] 9101 ["echo", text] ∧
      (∀ v, r.call "echo" v = .ok v) ∧
      (Json.parse? text.toList).map Json.renderPretty = some "1.4757395258967641e+20" ∧
      run (fun _ => some (respond r)) ["echo", text] = .success "1.475739525896764e+20\n") ∧
    (Placed defaultAdminPort [""] 9101 [""] ∧ "".toList.all isUnreserved = true ∧
      r.call "" .null = .ok (.ofNat 1) ∧ run (fun _ => some (respond r)) [""] =
        ⟨1, "", "Error: http://127.0.0.1:9101/api/admin/ returned 404 Not Found: no details"⟩) ∧
    (Placed defaultAdminPort [long] 9101 [long] ∧ long.toList.all isUnreserved = true ∧
      wordy.call long .null = .ok (.ofNat 1) ∧ run (fun _ => some (respond wordy)) [long] =
        failure (unreachable (hookUrl 9101 (some long)))) := by
  intro r text long wordy
  have hlength : long.length = maxUrl := by
    rw [String.length_ofList, List.length_replicate]
  have hunreserved : long.toList.all isUnreserved = true := by
    rw [String.toList_ofList, List.all_replicate]
    decide
  have hother : ∀ other : String, other.length < maxUrl → long ≠ other := by
    rintro other hother heq
    rw [← heq, hlength] at hother
    exact Nat.lt_irrefl _ hother
  have hdots : long ∉ [".", ".."] := by
    simp only [List.mem_cons, List.not_mem_nil, or_false, not_or]
    exact ⟨hother _ (by decide), hother _ (by decide)⟩
  have hword : long ∉ reservedWords := by
    simp only [reservedWords, List.mem_cons, List.not_mem_nil, or_false, not_or]
    exact ⟨hother _ (by decide), hother _ (by decide), hother _ (by decide), hother _ (by decide),
      hother _ (by decide)⟩
  have hplaced : Placed defaultAdminPort [long] 9101 (long :: (none : Option String).toList) :=
    .word _ .nothing
  have hlong : ¬ Sendable 9101 long := by
    have hsize := length_le_utf8ByteSize long
    have hpath : "/api/admin/".utf8ByteSize = 11 := by decide
    rw [sendable_iff_of_unreserved (by decide) hunreserved hdots, hookUrl_some, if_neg (by decide),
      String.utf8ByteSize_append, String.utf8ByteSize_append, hpath]
    omega
  refine ⟨⟨.word _ (.word _ .nothing), fun _ => rfl, ?_, ?_⟩, ⟨.word _ .nothing, rfl, rfl, ?_⟩,
    hplaced, hunreserved, call_onlyHook long _ _, ?_⟩
  · decide +kernel
  · decide +kernel
  · decide +kernel
  · exact (run_not_sendable hplaced hword rfl hlong).2 _

end MeshNode.Control
