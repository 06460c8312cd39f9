import MeshNode.Admin.Api
import MeshNode.Proofs.Text.Percent
import Mathlib.Data.List.TakeWhile

/-!
# Hooks over HTTP

Each hook is reached at its own path, whatever its name, and what is answered there is what the
registry answers.

* **what an answer becomes** — `Response.ofCall`;
* **where a hook is** — `hookPath`, `ofTarget_hookPath` and `decodeName?_encoded`: the path is taken
  apart before anything in it is decoded;
* **each method** — `respond_get`, `respond_head`, `respond_post`, and what a hook answers to them
  in `read_hook` and `post_hook`;
* **many requests** — `serve`;
* **all of it** — `hook_reachable`.
-/

namespace MeshNode.Admin

open MeshNode.Text

variable {r : Registry} {name : String} {w : List Char} {bytes : List UInt8} {q : Request}

/-! ## What an answer becomes -/

/-- The response that says what a registry answered. -/
def Response.ofCall : Except HookError Json → Response
  | .ok v => .ofJson 200 v
  | .error (.unknown name) =>
    .ofJson 404 (.ofMembers [("error", .str (HookError.unknown name).message)])
  | .error e => .ofJson 500 (.ofMembers [("error", .str e.message)])

theorem callResponse_eq (r : Registry) (name : String) (args : Json) :
    callResponse r name args = .ofCall (r.call name args) := by
  rw [callResponse]
  rcases r.call name args with (_ | _ | _) | _
  · rfl
  · rfl
  · rfl
  · rfl

/-! ## Where a hook is -/

/-- The path of the hook of an encoded name. -/
def hookPath (w : List Char) : String := listPath ++ "/" ++ String.ofList w

theorem dropLeading?_append (s t : List Char) : dropLeading? s (s ++ t) = some t := by
  induction s with
  | nil => rfl
  | cons c s ih =>
    rw [List.cons_append, dropLeading?, if_pos rfl]
    exact ih

theorem eq_of_dropLeading? {s t rest : List Char} (h : dropLeading? s t = some rest) :
    t = s ++ rest := by
  induction s generalizing t with
  | nil =>
    rw [dropLeading?] at h
    exact Option.some.inj h
  | cons c s ih =>
    cases t with
    | nil => cases h
    | cons d t =>
      rw [dropLeading?] at h
      split at h
      · next heq => rw [heq, ih h, List.cons_append]
      · cases h

/-- A path of one more segment is that of a hook. -/
theorem ofTarget_of_segment (hw : ∀ c ∈ w, c ≠ '/' ∧ c ≠ '?' ∧ c ≠ '#') (hne : w ≠ []) :
    Resource.ofTarget (hookPath w) = .hook w := by
  have hpath : (hookPath w).toList = listPath.toList ++ '/' :: w := by
    simp only [hookPath, String.toList_append, String.toList_ofList, List.append_assoc]
    rfl
  have hplain : (listPath.toList ++ ['/']).all (fun c => c ≠ '?' ∧ c ≠ '#') = true := by decide
  have hwhole : (hookPath w).toList.takeWhile (fun c => c ≠ '?' ∧ c ≠ '#') =
      listPath.toList ++ '/' :: w := by
    rw [hpath, List.append_cons, List.takeWhile_eq_self_iff]
    intro c hc
    rcases List.mem_append.mp hc with hc | hc
    · exact List.all_eq_true.mp hplain c hc
    · exact decide_eq_true (hw c hc).2
  have hslash : w.contains '/' = false := by
    rw [Bool.eq_false_iff, ne_eq, List.contains_iff_mem]
    exact fun hc => (hw '/' hc).1 rfl
  have hempty : w.isEmpty = false := List.isEmpty_eq_false_iff.mpr hne
  rw [Resource.ofTarget]
  simp only [hwhole, dropLeading?_append, hslash, hempty, Bool.false_eq_true, or_false, if_false]

theorem ofTarget_hookPath (h : Encoded bytes w) (hne : bytes ≠ []) :
    Resource.ofTarget (hookPath w) = .hook w :=
  ofTarget_of_segment (fun _ => ne_of_mem_encoded h) (ne_nil_of_encoded h hne)

/-- No other path is. -/
theorem path_of_ofTarget {target : String} (h : Resource.ofTarget target = .hook w) :
    target.toList.takeWhile (fun c => c ≠ '?' ∧ c ≠ '#') = listPath.toList ++ '/' :: w ∧
      '/' ∉ w := by
  unfold Resource.ofTarget at h
  dsimp only at h
  split at h
  · cases h
  · next name hdrop =>
    split at h
    · cases h
    · next hname =>
      cases h
      rw [not_or, List.contains_iff_mem] at hname
      exact ⟨eq_of_dropLeading? hdrop, hname.2⟩
  · cases h

theorem decodeName?_encoded (h : Encoded (utf8 name) w) : decodeName? w = some name := by
  rw [decodeName?, percentDecode_encoded h, ofUtf8?_utf8]

/-! ## Each method -/

section Methods

variable {target : String} (h : Resource.ofTarget target = .hook w) (contentType : Option String)
  (body : List UInt8)

include h

theorem respond_get : respond r ⟨"GET", target, contentType, body⟩ = read r (.hook w) := by
  simp only [respond, h]

theorem respond_head :
    respond r ⟨"HEAD", target, contentType, body⟩ = (read r (.hook w)).withoutBody := by
  simp only [respond, h]

theorem respond_post : respond r ⟨"POST", target, contentType, body⟩ =
    post r ⟨"POST", target, contentType, body⟩ w := by
  simp only [respond, h]

end Methods

section Decoded

variable (hname : decodeName? w = some name)

include hname

theorem read_of_decodeName? : read r (.hook w) = .ofCall (r.call name .null) := by
  rw [read, hname]
  exact callResponse_eq r name .null

theorem post_of_decodeName? {args : Json} (hargs : postedArguments q = .ok args) :
    post r q w = .ofCall (r.call name args) := by
  rw [post, hname, hargs]
  exact callResponse_eq r name args

end Decoded

theorem read_hook (h : Encoded (utf8 name) w) :
    read r (.hook w) = .ofCall (r.call name .null) :=
  read_of_decodeName? (decodeName?_encoded h)

theorem post_hook (h : Encoded (utf8 name) w) {args : Json} (hargs : postedArguments q = .ok args) :
    post r q w = .ofCall (r.call name args) :=
  post_of_decodeName? (decodeName?_encoded h) hargs

/-- A body is read if its type is JSON, it is short enough and its text is that of a value. -/
theorem postedArguments_utf8 {contentType text : String} {v : Json}
    (htype : isJsonType contentType = true) (hlength : (utf8 text).length ≤ maxBody)
    (htext : Json.parse? text.toList = some v) (method target : String) :
    postedArguments ⟨method, target, some contentType, utf8 text⟩ = .ok v := by
  rw [postedArguments]
  simp only [Option.any_some, htype, Bool.not_true, Bool.false_eq_true, if_false,
    Nat.not_lt.mpr hlength, ofUtf8?_utf8, Option.bind_some, htext]

/-! ## Many requests -/

/-- The responses to requests that come one after the other. -/
def serve (r : Registry) : List Request → List Response
  | [] => []
  | q :: qs => respond r q :: serve r qs

theorem getElem?_serve (r : Registry) (earlier : List Request) (q : Request)
    (later : List Request) :
    (serve r (earlier ++ q :: later))[earlier.length]? = some (respond r q) := by
  induction earlier with
  | nil => rfl
  | cons _ earlier ih => exact ih

/-! ## All of it -/

/-- However a name is encoded, its path reaches its hook: to read it is to post `null` to it, and
posting any value calls the hook with that value. What was asked before or is asked later does not
matter. -/
theorem hook_reachable (r : Registry) {name : String} (hname : name ≠ "") :
    Encoded (utf8 name) (percentEncode (fun _ => true) name.toList) ∧
    (∀ w, Encoded (utf8 name) w →
      (∀ contentType body, respond r ⟨"GET", hookPath w, contentType, body⟩ =
        .ofCall (r.call name .null)) ∧
      respond r ⟨"POST", hookPath w, some "application/json", utf8 "null"⟩ =
        .ofCall (r.call name .null) ∧
      (∀ contentType body,
        (respond r ⟨"HEAD", hookPath w, contentType, body⟩).status =
          (Response.ofCall (r.call name .null)).status ∧
        (respond r ⟨"HEAD", hookPath w, contentType, body⟩).body = .empty) ∧
      ∀ contentType text v, isJsonType contentType = true → (utf8 text).length ≤ maxBody →
        Json.parse? text.toList = some v →
        respond r ⟨"POST", hookPath w, some contentType, utf8 text⟩ = .ofCall (r.call name v)) ∧
    ∀ earlier q later,
      (serve r (earlier ++ q :: later))[earlier.length]? = some (respond r q) := by
  refine ⟨encoded_percentEncode ?_ name, fun w hw => ?_, getElem?_serve r⟩
  · intro _ hplain
    cases hplain
  have htarget := ofTarget_hookPath hw (utf8_ne_nil hname)
  have hpost : ∀ contentType text v, isJsonType contentType = true →
      (utf8 text).length ≤ maxBody → Json.parse? text.toList = some v →
      respond r ⟨"POST", hookPath w, some contentType, utf8 text⟩ = .ofCall (r.call name v) :=
    fun contentType text v htype hlength htext =>
      (respond_post htarget (some contentType) (utf8 text)).trans
        (post_hook hw (postedArguments_utf8 htype hlength htext "POST" (hookPath w)))
  have hnull : Json.parse? "null".toList = some .null := rfl
  have hlength : (utf8 "null").length ≤ maxBody := by
    rw [utf8_eq_flatMap]
    decide
  refine ⟨fun contentType body => ?_, ?_, fun contentType body => ?_, hpost⟩
  · rw [respond_get htarget, read_hook hw]
  · exact hpost "application/json" "null" .null rfl hlength hnull
  · rw [respond_head htarget, read_hook hw]
    exact ⟨rfl, rfl⟩

/-- A name with a slash, a percent sign, a question mark and a letter outside ASCII. -/
theorem odd_name_reachable :
    let name := "a/b%?é"
    let w := "a%2Fb%25%3F%C3%A9".toList
    let r : Registry := ⟨[⟨name, "gives its arguments back", echo⟩]⟩
    let v : Json := .arr [.bool true]
    name ≠ "" ∧ Encoded (utf8 name) w ∧ isJsonType "application/json; charset=utf-8" = true ∧
      (utf8 "[true]").length ≤ maxBody ∧ Json.parse? "[true]".toList = some v ∧
      respond r ⟨"GET", hookPath w, none, []⟩ = .ofJson 200 .null ∧
      respond r ⟨"POST", hookPath w, some "application/json; charset=utf-8", utf8 "[true]"⟩ =
        .ofJson 200 v := by
  intro name w r v
  have hname : name ≠ "" := by decide
  have hencoded : percentEncode (fun c => !isSegmentChar c) name.toList = w := by decide
  have hw : Encoded (utf8 name) w := by
    rw [← hencoded]
    exact encoded_percentEncode (fun c hplain _ => by simpa using hplain) name
  have hlength : (utf8 "[true]").length ≤ maxBody := by
    rw [utf8_eq_flatMap]
    decide
  have hvalue : Json.parse? "[true]".toList = some v := rfl
  obtain ⟨hget, -, -, hpost⟩ := (hook_reachable r hname).2.1 w hw
  refine ⟨hname, hw, rfl, hlength, hvalue, hget none [], ?_⟩
  exact hpost "application/json; charset=utf-8" "[true]" v rfl hlength hvalue

end MeshNode.Admin
