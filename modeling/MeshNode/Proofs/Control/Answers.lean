import MeshNode.Proofs.Admin.Api
import MeshNode.Proofs.Control.Requests
import MeshNode.Proofs.Json.RoundTrip

/-!
# What a call prints

A call of a hook prints the value it is answered, or the first line of a message that names the
status and the error. This says what each answer of the administration interface becomes.

* **the answer** — `report`, `run_call`: a call prints what its request is answered;
* **JSON** — `answered_ofJson`: a body is read back before it is printed;
* **answers of hooks** — `report_ok`, `report_error`;
* **other answers** — `report_ofPlain`.
-/

namespace MeshNode.Control

open Admin CommandLine Text

variable {words : List String} {port : Nat} {hook : String} {arg : Option String}
  {servers : Servers}

/-! ## The answer -/

/-- What a call leaves behind. -/
def report : Except String Json → Outcome
  | .ok v => .success (v.renderPretty ++ "\n")
  | .error message => failure message

/-- What a call makes of its answer: without arguments a refusal may have any body. -/
def answered (url : String) (arg : Option String) (r : Response) : Except String Json :=
  match arg with
  | none =>
    if isSuccess r.status then
      match r.json? with
      | some v => .ok v
      | none => .error unintelligible
    else .error (refused url r.status (r.json?.getD .null))
  | some _ =>
    match r.json? with
    | none => .error unintelligible
    | some v => if isSuccess r.status then .ok v else .error (refused url r.status v)

theorem send?_hookUrl (hport : port < 0x10000) (hsend : Sendable port hook)
    {server : Request → Response} (hserver : servers port = some server) (method : String)
    (args : Option Json) :
    send? servers port (hookUrl port (some hook)) method args =
      some (server ⟨method, hookTarget hook, args.map fun _ => Response.jsonType,
        (args.map fun v => utf8 v.render).getD []⟩) := by
  rw [send?, hserver, request?_hookUrl hport hsend]
  rfl

/-- A call prints what its request is answered. -/
theorem run_call (hplaced : Placed defaultAdminPort words port (hook :: arg.toList))
    (hword : hook ∉ reservedWords) {q : Request} (hq : callRequest? hook arg = some q)
    (hsend : Sendable port hook) {server : Request → Response}
    (hserver : servers port = some server) :
    run servers words = report (answered (hookUrl port (some hook)) arg (server q)) := by
  have hport : port < 0x10000 := hplaced.lt (by decide)
  rw [run_of_args (controlArgs_of_callRequest? hplaced hword hq), ofWords_call hword]
  cases arg with
  | none =>
    cases hq
    simp only [runCommand, fetch, send?_hookUrl hport hsend hserver]
    rfl
  | some text =>
    obtain ⟨v, hv, rfl⟩ := Option.map_eq_some_iff.mp hq
    simp only [runCommand, hv, submit, send?_hookUrl hport hsend hserver]
    rfl

/-! ## JSON -/

/-- A body that can be read back is printed, or refused with what it says. -/
theorem answered_ofJson {v : Json} (hv : v.Legible Json.Reader.maxDepth) (url : String)
    (arg : Option String) (status : Nat) : answered url arg (.ofJson status v) =
      if isSuccess status then .ok v else .error (refused url status v) := by
  have hjson : (Response.ofJson status v).json? = some v := Json.parse?_compact hv
  cases arg with
  | none =>
    rw [answered, hjson]
    rfl
  | some text =>
    rw [answered, hjson]
    rfl

/-! ## Answers of hooks -/

/-- The status that says why a hook gave no value. -/
def refusalStatus : HookError → Nat
  | .unknown _ => 404
  | _ => 500

theorem ofCall_error (e : HookError) : Response.ofCall (.error e) =
    .ofJson (refusalStatus e) (.ofMembers [("error", .str e.message)]) := by
  cases e <;> rfl

theorem legible_error (text : String) {depth : Nat} :
    (Json.ofMembers [("error", .str text)]).Legible (depth + 1) := by
  refine .obj (List.pairwise_singleton _ _) fun m hm => ?_
  rw [List.mem_singleton.mp hm]
  exact .str text

/-- A value of a hook is printed, and nothing else. -/
theorem report_ok {v : Json} (hv : v.Legible Json.Reader.maxDepth) (url : String) :
    report (answered url arg (.ofCall (.ok v))) = .success (v.renderPretty ++ "\n") := by
  rw [Response.ofCall, answered_ofJson hv, if_pos (by decide)]
  rfl

theorem firstLine_append {s : String} (h : '\n' ∉ s.toList) (t : String) :
    firstLine (s ++ t) = s ++ firstLine t := by
  have hline : ∀ c ∈ s.toList, (c != '\n') = true := fun c hc =>
    bne_iff_ne.mpr fun heq => h (heq ▸ hc)
  apply String.toList_inj.mp
  rw [firstLine, firstLine, String.toList_append, String.toList_append,
    List.takeWhile_append_of_pos hline, String.toList_ofList, String.toList_ofList]

/-- The status of an error, as it is printed. -/
def refusalText : HookError → String
  | .unknown _ => "404 Not Found"
  | _ => "500 Internal Server Error"

theorem refusalText_eq (e : HookError) :
    toString (refusalStatus e) ++ " " ++ reasonPhrase (refusalStatus e) = refusalText e := by
  have hmissing : toString 404 ++ " " ++ reasonPhrase 404 = "404 Not Found" := by decide +kernel
  have hfailed : toString 500 ++ " " ++ reasonPhrase 500 = "500 Internal Server Error" := by
    decide +kernel
  cases e with
  | unknown name => exact hmissing
  | duplicate name => exact hfailed
  | failed text => exact hfailed

theorem newline_not_mem_refusalText (e : HookError) : '\n' ∉ (refusalText e).toList := by
  have hmissing : '\n' ∉ "404 Not Found".toList := by decide
  have hfailed : '\n' ∉ "500 Internal Server Error".toList := by decide
  cases e with
  | unknown name => exact hmissing
  | duplicate name => exact hfailed
  | failed text => exact hfailed

/-- An error of a hook is printed with its status, up to the end of its first line. -/
theorem report_error (e : HookError) {url : String} (hurl : '\n' ∉ url.toList) :
    report (answered url arg (.ofCall (.error e))) =
      ⟨1, "",
        "Error: " ++ url ++ " returned " ++ refusalText e ++ ": " ++ firstLine e.message⟩ := by
  have hfail : isSuccess (refusalStatus e) = false := by cases e <;> rfl
  have hmember : (Json.ofMembers [("error", .str e.message)]).member? "error" =
      some (.str e.message) := rfl
  have hmessage : "Error: " ++ refused url (refusalStatus e)
      (.ofMembers [("error", .str e.message)]) =
      "Error: " ++ url ++ " returned " ++ refusalText e ++ ": " ++ e.message := by
    rw [refused, hmember, ← refusalText_eq]
    show "Error: " ++ (url ++ " returned " ++ toString (refusalStatus e) ++ " " ++
      reasonPhrase (refusalStatus e) ++ ": " ++ e.message) = _
    simp only [String.append_assoc]
  have hfront : '\n' ∉ ("Error: " ++ url ++ " returned " ++ refusalText e ++ ": ").toList := by
    simp only [String.toList_append, List.mem_append, not_or]
    exact ⟨⟨⟨⟨by decide, hurl⟩, by decide⟩, newline_not_mem_refusalText e⟩, by decide⟩
  rw [ofCall_error, answered_ofJson (legible_error e.message), hfail]
  rw [if_neg Bool.false_ne_true, report, failure, hmessage, firstLine_append hfront]

/-! ## Other answers -/

/-- A plain answer to posted arguments makes no sense. -/
theorem report_ofPlain (url text : String) (status : Nat) :
    report (answered url (some text) (.ofPlain status)) =
      ⟨1, "", "Error: failed to parse response"⟩ := by
  have hjson : (Response.ofPlain status).json? = none := rfl
  have hline : firstLine ("Error: " ++ unintelligible) = "Error: failed to parse response" := by
    decide +kernel
  rw [answered, hjson]
  show failure unintelligible = _
  rw [failure, hline]

end MeshNode.Control
