import MeshNode.Proofs.Control.Answers
import Mathlib.Data.List.Flatten

/-!
# Names of hooks in URLs

The control tool puts the name of a hook behind the path of the hooks as it is, and the text is then
read as a URL, while the server decodes one segment of the path it gets. The two agree on exactly
the names that have nothing a URL reads in another way.

* **such names** — `Verbatim`;
* **what the server reads** — `named?`;
* **there** — `named?_of_verbatim`: the path has one more segment, which encodes the name;
* **and back** — `verbatim_of_named?`: whatever is cut away, taken for a separator or decoded makes
  the name that the server reads shorter than the one that was meant;
* **whose answer** — `respond_call`, `MayAnswer` and `named?_of_report`;
* **all of it** — `calls_named_hook_iff`.
-/

namespace MeshNode.Control

open Admin CommandLine Text

variable {hook : String} {arg : Option String} {q : Request}

/-- Whether a name is one that a URL reads as one segment which stands for it: it holds no character
that separates or ends segments or does not count, does not end in a space or control character,
is not made of dots, and holds no percent sign with two hexadecimal digits. -/
structure Verbatim (hook : String) : Prop where
  marks : hook.toList.all (fun c => !"/\\?#\t\n\r".toList.contains c) = true
  last : hook.toList.getLast?.all (fun c => 0x20 < c.toNat) = true
  dots : hook ≠ "." ∧ hook ≠ ".."
  escapes : hasEscape hook.toList = false

/-- The name that the server reads from a target, if that is the target of a hook. -/
def named? (target : String) : Option String :=
  match Resource.ofTarget target with
  | .hook encoded => decodeName? encoded
  | _ => none

/-! ## There -/

theorem decodeName?_encodedInPath (h : hasEscape hook.toList = false) :
    decodeName? (percentEncode Url.encodedInPath hook.toList) = some hook := by
  rw [decodeName?, percentDecode_percentEncode Url.isClass_path.spares,
    unescape_of_not_hasEscape h, ← utf8_eq_flatMap, ofUtf8?_utf8]

theorem Verbatim.ne (h : Verbatim hook) {c : Char} (hc : c ∈ hook.toList) :
    (c ≠ '/' ∧ c ≠ '\\') ∧ (c ≠ '?' ∧ c ≠ '#') ∧ c ≠ '\t' ∧ c ≠ '\n' ∧ c ≠ '\r' := by
  have hmarks := List.all_eq_true.mp h.marks c hc
  rw [Bool.not_eq_true', ← Bool.not_eq_true, List.contains_iff_mem] at hmarks
  have hne : ∀ d ∈ "/\\?#\t\n\r".toList, c ≠ d := fun d hd heq => hmarks (heq ▸ hd)
  exact ⟨⟨hne _ (by decide), hne _ (by decide)⟩, ⟨hne _ (by decide), hne _ (by decide)⟩,
    hne _ (by decide), hne _ (by decide), hne _ (by decide)⟩

/-- A name taken as it is is the whole path, and nothing follows it. -/
theorem Verbatim.breakAt_eq (h : Verbatim hook) :
    Url.bodyOf hook.toList = hook.toList ∧ Url.tailOf hook.toList = [] := by
  have hclean : Url.cleanTail hook.toList = hook.toList :=
    Url.cleanTail_eq_self (fun c hc => (h.ne hc).2.2) h.last
  have hbreak : breakAt Url.endsPath hook.toList = (hook.toList, []) := by
    refine breakAt_of_forall fun c hc => ?_
    obtain ⟨-, ⟨hquestion, hhash⟩, -⟩ := h.ne hc
    rw [Url.endsPath, beq_false_of_ne hquestion, beq_false_of_ne hhash]
    rfl
  rw [Url.bodyOf, Url.tailOf, hclean, hbreak]
  exact ⟨rfl, rfl⟩

theorem slashed_eq_self {s : List Char} (h : ∀ c ∈ s, c ≠ '\\') : slashed s = s := by
  rw [slashed]
  conv_rhs => rw [← List.map_id s]
  exact List.map_congr_left fun c hc => if_neg (h c hc)

/-- It is then one segment, and encoded as such. -/
theorem Verbatim.hookSegments_eq (h : Verbatim hook) : hookSegments hook =
    ["api", "admin", String.ofList (percentEncode Url.encodedInPath hook.toList)] := by
  have hslashed : slashed hook.toList = hook.toList :=
    slashed_eq_self fun c hc => (h.ne hc).1.2
  have hslash : '/' ∉ hook.toList := fun hmem => (h.ne hmem).1.1 rfl
  have hdot : hook.toList ≠ ['.'] := fun heq => h.dots.1 (String.toList_inj.mp heq)
  have hdots : hook.toList ≠ ['.', '.'] := fun heq => h.dots.2 (String.toList_inj.mp heq)
  rw [hookSegments, h.breakAt_eq.1, hslashed, splitAt_of_not_mem hslash, Url.addSegments,
    Url.addSegment, Url.isDotDot_of_not_hasEscape h.escapes hdots,
    Url.isDot_of_not_hasEscape h.escapes hdot]
  rfl

theorem Verbatim.hookTarget_eq (h : Verbatim hook) :
    hookTarget hook = hookPath (percentEncode Url.encodedInPath hook.toList) := by
  apply String.toList_inj.mp
  rw [hookTarget, h.hookSegments_eq, h.breakAt_eq.2, String.toList_append,
    Url.toList_render_segments, hookPath, String.toList_append, String.toList_append,
    String.toList_ofList]
  simp [Url.cutTail, listPath]

theorem named?_of_verbatim (hne : hook ≠ "") (h : Verbatim hook) :
    Resource.ofTarget (hookTarget hook) =
      .hook (percentEncode Url.encodedInPath hook.toList) ∧
    named? (hookTarget hook) = some hook := by
  have hslash : '/' ∉ hook.toList := fun hmem => (h.ne hmem).1.1 rfl
  have hinside : ∀ c ∈ percentEncode Url.encodedInPath hook.toList,
      c ≠ '/' ∧ c ≠ '?' ∧ c ≠ '#' := by
    intro c hc
    refine Url.ne_of_mem_encodePart hslash ?_
    rw [Url.encodePart, String.toList_ofList]
    exact hc
  have hsome : percentEncode Url.encodedInPath hook.toList ≠ [] := by
    intro hnil
    have hback := decodeName?_encodedInPath h.escapes
    rw [hnil] at hback
    have hempty : decodeName? [] = some "" := by decide +kernel
    exact hne (Option.some.inj (hback.symm.trans hempty))
  have htarget : Resource.ofTarget (hookTarget hook) =
      .hook (percentEncode Url.encodedInPath hook.toList) := by
    rw [h.hookTarget_eq, ofTarget_of_segment hinside hsome]
  refine ⟨htarget, ?_⟩
  rw [named?, htarget]
  exact decodeName?_encodedInPath h.escapes

/-! ## And back -/

/-- A text is no shorter in octets than one that it holds, and no longer only if it is that. -/
theorem eq_of_sublist_of_octets {s t : List Char} (h : s.Sublist t)
    (hle : (t.flatMap utf8Char).length ≤ (s.flatMap utf8Char).length) : s = t := by
  induction h with
  | slnil => rfl
  | @cons s t c hsub ih =>
    have hpos := length_utf8Char_pos c
    have hmono := (hsub.flatMap utf8Char).length_le
    rw [List.flatMap_cons, List.length_append] at hle
    omega
  | cons_cons c _ ih =>
    rw [List.flatMap_cons, List.flatMap_cons, List.length_append, List.length_append] at hle
    rw [ih (by omega)]

theorem length_octets_slashed (s : List Char) :
    ((slashed s).flatMap utf8Char).length = (s.flatMap utf8Char).length := by
  induction s with
  | nil => rfl
  | cons c s ih =>
    have hc : (utf8Char (if c = '\\' then '/' else c)).length = (utf8Char c).length := by
      split
      · next heq =>
        rw [heq]
        rfl
      · rfl
    rw [slashed, List.map_cons, List.flatMap_cons, List.flatMap_cons, List.length_append,
      List.length_append, hc, ← ih]
    rfl

/-- The last segment of a path that names a hook is what encodes the name. -/
theorem mem_of_path {parts : List String} {front w : List Char}
    (hparts : ∀ p ∈ parts, '/' ∉ p.toList) (hw : '/' ∉ w)
    (h : parts.flatMap ('/' :: ·.toList) = front ++ '/' :: w) : String.ofList w ∈ parts := by
  rcases List.eq_nil_or_concat parts with rfl | ⟨init, p, rfl⟩
  · exact absurd h (by simp)
  rw [List.concat_eq_append] at h hparts ⊢
  have hp := hparts p (List.mem_append_right _ List.mem_cons_self)
  rw [List.flatMap_append, List.flatMap_singleton] at h
  have hcut := splitLast?_append (init.flatMap ('/' :: ·.toList)) hp
  rw [h, splitLast?_append front hw] at hcut
  obtain ⟨-, rfl⟩ := Prod.mk.inj (Option.some.inj hcut)
  rw [String.ofList_toList]
  exact List.mem_append_right _ List.mem_cons_self

theorem inside_hookSegments {p : String} (hp : p ∈ hookSegments hook) {c : Char}
    (hc : c ∈ p.toList) : c ≠ '/' ∧ c ≠ '?' ∧ c ≠ '#' := by
  have hapi : ∀ c ∈ "api".toList, c ≠ '/' ∧ c ≠ '?' ∧ c ≠ '#' :=
    List.all_iff_forall_prop.mp (by decide)
  have hadmin : ∀ c ∈ "admin".toList, c ≠ '/' ∧ c ≠ '?' ∧ c ≠ '#' :=
    List.all_iff_forall_prop.mp (by decide)
  rcases Url.mem_addSegments hp with hp | rfl | ⟨s, hs, -, -, rfl⟩
  · rcases List.mem_cons.mp hp with rfl | hp
    · exact hapi c hc
    · obtain rfl := List.mem_singleton.mp hp
      exact hadmin c hc
  · exact absurd hc List.not_mem_nil
  · exact Url.ne_of_mem_encodePart (not_mem_of_mem_splitAt hs) hc

/-- Where the server reads a name, it reads it from one of the segments. -/
theorem mem_hookSegments_of_named? {name : String} (h : named? (hookTarget hook) = some name) :
    ∃ w, decodeName? w = some name ∧ String.ofList w ∈ hookSegments hook := by
  have hpath : (hookTarget hook).toList.takeWhile (fun c => c ≠ '?' ∧ c ≠ '#') =
      (hookSegments hook).flatMap ('/' :: ·.toList) := by
    -- no segment holds what would end the path
    have hplain : ∀ c ∈ (hookSegments hook).flatMap ('/' :: ·.toList),
        decide (c ≠ '?' ∧ c ≠ '#') = true := by
      intro c hc
      obtain ⟨p, hp, hc⟩ := List.mem_flatMap.mp hc
      rcases List.mem_cons.mp hc with rfl | hc
      · decide
      · exact decide_eq_true (inside_hookSegments hp hc).2
    rw [hookTarget, String.toList_append, Url.toList_render_segments,
      List.takeWhile_append_of_pos hplain]
    cases (Url.cutTail true (Url.tailOf hook.toList)).1 with
    | none => exact List.append_nil _
    | some query =>
      rw [Option.map_some, Option.getD_some, String.toList_append]
      exact List.append_nil _
  unfold named? at h
  split at h
  · next w hw =>
    obtain ⟨hwhole, hslash⟩ := path_of_ofTarget hw
    rw [hpath] at hwhole
    exact ⟨w, h, mem_of_path (fun p hp hmem => (inside_hookSegments hp hmem).1 rfl) hslash hwhole⟩
  · cases h

theorem bodyOf_sublist_self (s : List Char) : (Url.bodyOf s).Sublist s :=
  (Url.bodyOf_sublist s).trans (Url.cleanTail_sublist s)

section Pieces

variable {piece : List Char}
  (hpiece : piece ∈ Text.splitAt '/' (slashed (Url.bodyOf hook.toList)))

include hpiece

/-- A piece of a name that is decoded to all of it is all of it, since decoding gives no more octets
than it takes, and fewer where there is an escape. -/
theorem whole_of_decodeName?
    (hdecode : decodeName? (percentEncode Url.encodedInPath piece) = some hook) :
    piece = slashed hook.toList ∧ hasEscape piece = false := by
  have hsub : piece.Sublist (slashed hook.toList) :=
    (sublist_of_mem_splitAt hpiece).trans ((bodyOf_sublist_self hook.toList).map _)
  have hoctets : unescape piece = hook.toList.flatMap utf8Char := by
    rw [decodeName?, percentDecode_percentEncode Url.isClass_path.spares] at hdecode
    rw [← utf8_eq_flatMap, utf8_of_ofUtf8? hdecode]
  have hlength := length_unescape piece
  rw [hoctets, ← length_octets_slashed] at hlength
  have hwhole : piece = slashed hook.toList := eq_of_sublist_of_octets hsub (by omega)
  refine ⟨hwhole, ?_⟩
  cases hescape : hasEscape piece with
  | false => rfl
  | true =>
    rw [hescape, hwhole, if_pos rfl] at hlength
    omega

/-- Such a piece leaves no slash of either kind in the name. -/
theorem no_slash_of_whole (hwhole : piece = slashed hook.toList) {c : Char}
    (hc : c ∈ hook.toList) : c ≠ '/' ∧ c ≠ '\\' := by
  have hslash := not_mem_of_mem_splitAt hpiece
  have hmem : (if c = '\\' then '/' else c) ∈ piece := by
    rw [hwhole]
    exact List.mem_map_of_mem hc
  constructor
  · rintro rfl
    exact hslash hmem
  · rintro rfl
    exact hslash hmem

/-- It leaves nothing of the name to be cut away. -/
theorem bodyOf_of_whole (hwhole : piece = slashed hook.toList) :
    Url.bodyOf hook.toList = hook.toList ∧ Url.cleanTail hook.toList = hook.toList := by
  have hle := (sublist_of_mem_splitAt hpiece).length_le
  rw [hwhole, slashed, slashed, List.length_map, List.length_map] at hle
  exact ⟨(bodyOf_sublist_self _).eq_of_length_le hle,
    (Url.cleanTail_sublist _).eq_of_length_le (hle.trans (Url.bodyOf_sublist _).length_le)⟩

theorem verbatim_of_piece (hdot : Url.isDot piece = false) (hdots : Url.isDotDot piece = false)
    (hdecode : decodeName? (percentEncode Url.encodedInPath piece) = some hook) :
    Verbatim hook := by
  obtain ⟨hwhole, hescape⟩ := whole_of_decodeName? hpiece hdecode
  have hslashes : ∀ c ∈ hook.toList, c ≠ '/' ∧ c ≠ '\\' := fun _ =>
    no_slash_of_whole hpiece hwhole
  obtain ⟨hbody, hclean⟩ := bodyOf_of_whole hpiece hwhole
  obtain ⟨hspaces, hlast⟩ := Url.of_cleanTail_eq_self hclean
  have hends : ∀ c ∈ hook.toList, c ≠ '?' ∧ c ≠ '#' := by
    intro c hc
    rw [← hbody, Url.bodyOf, breakAt] at hc
    simpa [Url.endsPath] using List.mem_takeWhile_imp hc
  have hsame : piece = hook.toList := by
    rw [hwhole, slashed_eq_self fun c hc => (hslashes c hc).2]
  refine ⟨List.all_eq_true.mpr fun c hc => ?_, hlast, ⟨?_, ?_⟩, hsame ▸ hescape⟩
  · rw [Bool.not_eq_true', ← Bool.not_eq_true, List.contains_iff_mem]
    obtain ⟨hslash, hback⟩ := hslashes c hc
    obtain ⟨hquestion, hhash⟩ := hends c hc
    obtain ⟨htab, hline, hreturn⟩ := hspaces c hc
    have hmarks : "/\\?#\t\n\r".toList = ['/', '\\', '?', '#', '\t', '\n', '\r'] := rfl
    rw [hmarks]
    simp only [List.mem_cons, List.not_mem_nil, or_false, not_or]
    exact ⟨hslash, hback, hquestion, hhash, htab, hline, hreturn⟩
  · rintro rfl
    rw [hsame] at hdot
    exact absurd hdot (by decide)
  · rintro rfl
    rw [hsame] at hdots
    exact absurd hdots (by decide)

end Pieces

/-- Where the server reads the name that was meant, the URL has taken it as it is. -/
theorem verbatim_of_named? (h : named? (hookTarget hook) = some hook) : Verbatim hook := by
  obtain ⟨w, hdecode, hmem⟩ := mem_hookSegments_of_named? h
  have hclosed : ∀ name ∈ ["api", "admin", ""], hasEscape name.toList = false ∧
      percentEncode Url.encodedInPath name.toList = name.toList := by decide
  -- these segments are there for other names too, and stand for themselves
  have hplain : ∀ name ∈ ["api", "admin", ""], String.ofList w = name → hook = name := by
    intro name hname hw
    obtain ⟨hescape, hsame⟩ := hclosed name hname
    have hback := decodeName?_encodedInPath hescape
    rw [hsame, ← hw, String.toList_ofList, hdecode] at hback
    rw [Option.some.inj hback, hw]
  rcases Url.mem_addSegments hmem with hp | hp | ⟨piece, hpiece, hdot, hdots, hp⟩
  · rcases List.mem_cons.mp hp with hp | hp
    · rw [hplain "api" (by decide) hp]
      exact ⟨by decide, by decide, by decide, by decide⟩
    · rw [hplain "admin" (by decide) (List.mem_singleton.mp hp)]
      exact ⟨by decide, by decide, by decide, by decide⟩
  · rw [hplain "" (by decide) hp]
    exact ⟨by decide, by decide, by decide, by decide⟩
  · refine verbatim_of_piece hpiece hdot hdots ?_
    rw [Url.encodePart] at hp
    rw [← String.ofList_inj.mp hp]
    exact hdecode

/-! ## Whose answer -/

/-- A name that is taken as it is reaches its hook, with what is delivered. -/
theorem respond_call (r : Registry) {a : Json} (hne : hook ≠ "") (h : Verbatim hook)
    (hq : callRequest? hook arg = some q) (ha : delivered? arg = some a) :
    respond r q = .ofCall (r.call hook a) := by
  obtain ⟨htarget, -⟩ := named?_of_verbatim hne h
  have hname := decodeName?_encodedInPath h.escapes
  cases arg with
  | none =>
    cases hq
    cases ha
    rw [respond_get htarget, read_of_decodeName? hname]
  | some text =>
    obtain ⟨v, hv, rfl⟩ := Option.map_eq_some_iff.mp hq
    rw [delivered?, hv, Option.bind_eq_bind, Option.bind_some] at ha
    split at ha
    · next hlength =>
      have hargs : postedArguments
          ⟨"POST", hookTarget hook, some Response.jsonType, utf8 v.render⟩ = .ok a :=
        postedArguments_utf8 rfl hlength ha "POST" (hookTarget hook)
      rw [respond_post htarget, post_of_decodeName? hname hargs]
    · cases ha

theorem postedArguments_error {status : Nat} (h : postedArguments q = .error status) :
    isSuccess status = false := by
  unfold postedArguments at h
  split at h
  · cases h
    rfl
  · split at h
    · cases h
      rfl
    · split at h
      · cases h
      · cases h
        rfl

/-- What a node may answer to a call: the list of its hooks, what the hook of the name that it reads
from the target answers, or no success. -/
inductive MayAnswer (r : Registry) (target : String) : Response → Prop
  | list : MayAnswer r target (.ofJson 200 (listing r))
  | hook {name : String} (args : Json) : named? target = some name →
    MayAnswer r target (.ofCall (r.call name args))
  | refused {answer : Response} : isSuccess answer.status = false → MayAnswer r target answer

theorem mayAnswer_get (r : Registry) (target : String) :
    MayAnswer r target (respond r ⟨"GET", target, none, []⟩) := by
  cases hresource : Resource.ofTarget target with
  | list =>
    have hlist : respond r ⟨"GET", target, none, []⟩ = .ofJson 200 (listing r) := by
      simp only [respond, hresource, Admin.read]
    rw [hlist]
    exact .list
  | nothing =>
    refine .refused ?_
    simp only [respond, hresource]
    rfl
  | hook w =>
    rw [respond_get hresource]
    cases hname : decodeName? w with
    | none =>
      refine .refused ?_
      rw [Admin.read, hname]
      rfl
    | some name =>
      rw [read_of_decodeName? hname]
      refine .hook .null ?_
      rw [named?, hresource]
      exact hname

theorem mayAnswer_post (r : Registry) (target : String) (body : List UInt8) :
    MayAnswer r target (respond r ⟨"POST", target, some Response.jsonType, body⟩) := by
  cases hresource : Resource.ofTarget target with
  | list =>
    refine .refused ?_
    simp only [respond, hresource]
    rfl
  | nothing =>
    refine .refused ?_
    simp only [respond, hresource]
    rfl
  | hook w =>
    rw [respond_post hresource]
    cases hname : decodeName? w with
    | none =>
      refine .refused ?_
      rw [post, hname]
      rfl
    | some name =>
      cases hargs : postedArguments ⟨"POST", target, some Response.jsonType, body⟩ with
      | ok args =>
        rw [post_of_decodeName? hname hargs]
        refine .hook args ?_
        rw [named?, hresource]
        exact hname
      | error status =>
        refine .refused ?_
        rw [post, hname, hargs]
        exact postedArguments_error hargs

theorem mayAnswer_respond (r : Registry) (hq : callRequest? hook arg = some q) :
    MayAnswer r q.target (respond r q) := by
  cases arg with
  | none =>
    cases hq
    exact mayAnswer_get r _
  | some text =>
    obtain ⟨v, -, rfl⟩ := Option.map_eq_some_iff.mp hq
    exact mayAnswer_post r _ _

/-- The hooks of a node that has one. -/
def onlyHook (name : String) (handler : Handler) : Registry := ⟨[⟨name, "", handler⟩]⟩

theorem call_onlyHook (name : String) (handler : Handler) (args : Json) :
    (onlyHook name handler).call name args = handler args := by
  simp [onlyHook, Registry.call, Registry.find?]

theorem call_onlyHook_of_ne {name other : String} (h : other ≠ name) (handler : Handler)
    (args : Json) : (onlyHook name handler).call other args = .error (.unknown other) := by
  simp [onlyHook, Registry.call, Registry.find?, Ne.symm h]

theorem exit_of_not_success {r : Response} (h : isSuccess r.status = false) (url : String)
    (arg : Option String) : (report (answered url arg r)).exit = 1 := by
  cases arg with
  | none =>
    rw [answered, h]
    rfl
  | some text =>
    rw [answered]
    cases r.json? with
    | none => rfl
    | some v =>
      dsimp only
      rw [h]
      rfl

theorem listing_onlyHook (name : String) (handler : Handler) :
    listing (onlyHook name handler) = .obj [("handlers", .arr [.obj [("description", .str ""),
      ("name", .str name)]])] := by
  rfl

theorem legible_listing (name : String) (handler : Handler) {depth : Nat} :
    (listing (onlyHook name handler)).Legible (depth + 3) := by
  rw [listing_onlyHook]
  refine .obj (List.pairwise_singleton _ _) fun m hm => ?_
  rw [List.mem_singleton.mp hm]
  refine .arr fun item hitem => ?_
  rw [List.mem_singleton.mp hitem]
  refine .obj (List.pairwise_pair.mpr (show "description" < "name" by decide)) fun m hm => ?_
  rcases List.mem_cons.mp hm with rfl | hm
  · exact .str ""
  · rw [List.mem_singleton.mp hm]
    exact .str name

/-- Where only the hook that is meant gives `null`, a run that prints it has reached that hook. -/
theorem named?_of_report {url : String} (hq : callRequest? hook arg = some q)
    (h : report (answered url arg (respond (onlyHook hook (constant .null)) q)) =
      .success "null\n") : named? q.target = some hook := by
  have hanswer := mayAnswer_respond (onlyHook hook (constant .null)) hq
  generalize respond (onlyHook hook (constant .null)) q = answer at h hanswer
  cases hanswer with
  | list =>
    -- the list of hooks is printed with a brace first
    rw [answered_ofJson (legible_listing hook _), if_pos (by decide), listing_onlyHook] at h
    have hfirst := congrArg (·.stdout.toList.head?) h
    simp [report, Outcome.success, Json.renderPretty, Json.prettyAt] at hfirst
  | @hook name args hname =>
    by_cases hsame : name = hook
    · rw [hname, hsame]
    · rw [call_onlyHook_of_ne hsame, ofCall_error, answered_ofJson (legible_error _)] at h
      cases congrArg Outcome.exit h
  | refused hfail =>
    have hexit := exit_of_not_success hfail url arg
    rw [h] at hexit
    cases hexit

/-! ## All of it -/

/-- A call makes a request that names its hook to the server for exactly the names that a URL takes
as they are and that do not make it too long. Where the URL is not too long, what is printed is what
that hook answers for exactly the names that the URL takes as they are; where it is, nothing is asked
and the run fails. -/
theorem calls_named_hook_iff {words : List String} {port : Nat} {hook : String}
    {arg : Option String} (hplaced : Placed defaultAdminPort words port (hook :: arg.toList))
    (hne : hook ≠ "") (hword : hook ∉ reservedWords)
    (hjson : ∀ text, arg = some text → (Json.parse? text.toList).isSome = true) :
    ((∃ q, asked? words = some (port, q) ∧ named? q.target = some hook) ↔
      Verbatim hook ∧ Sendable port hook) ∧
    (Sendable port hook →
      ∃ q, asked? words = some (port, q) ∧ (named? q.target = some hook ↔ Verbatim hook) ∧
        ∀ a, delivered? arg = some a →
          ((∀ r : Registry, (r.find? hook).isSome = true →
            ∀ servers : Servers, servers port = some (respond r) →
              run servers words = run (fun _ => some fun _ => .ofCall (r.call hook a)) words) ↔
            Verbatim hook)) ∧
    (¬ Sendable port hook → asked? words = none ∧
      ∀ servers, run servers words = failure (unreachable (hookUrl port (some hook)))) := by
  obtain ⟨q, hq⟩ := exists_callRequest? hook hjson
  have htarget : q.target = hookTarget hook := by
    cases arg with
    | none =>
      cases hq
      rfl
    | some text =>
      obtain ⟨v, -, rfl⟩ := Option.map_eq_some_iff.mp hq
      rfl
  have hiff : named? q.target = some hook ↔ Verbatim hook := by
    rw [htarget]
    exact ⟨verbatim_of_named?, fun h => (named?_of_verbatim hne h).2⟩
  refine ⟨⟨?_, ?_⟩, fun hsend => ⟨q, asked?_call hplaced hword hq hsend, hiff,
      fun a ha => ⟨fun hall => ?_, fun h r _ servers hserver => ?_⟩⟩,
    run_not_sendable hplaced hword hq⟩
  · rintro ⟨q', hasked, hnamed⟩
    by_cases hsend : Sendable port hook
    · rw [asked?_call hplaced hword hq hsend] at hasked
      cases hasked
      exact ⟨hiff.mp hnamed, hsend⟩
    · rw [(run_not_sendable hplaced hword hq hsend).1] at hasked
      cases hasked
  · rintro ⟨h, hsend⟩
    exact ⟨q, asked?_call hplaced hword hq hsend, hiff.mpr h⟩
  · -- a node whose only hook is this one, which gives `null`
    have hfound : ((onlyHook hook (constant .null)).find? hook).isSome = true := by
      simp [onlyHook, Registry.find?]
    have hrun := hall _ hfound (fun _ => some (respond (onlyHook hook (constant .null)))) rfl
    rw [run_call hplaced hword hq hsend rfl, run_call hplaced hword hq hsend rfl, call_onlyHook,
      constant, report_ok .null] at hrun
    exact hiff.mp (named?_of_report hq hrun)
  · rw [run_call hplaced hword hq hsend hserver, run_call hplaced hword hq hsend rfl,
      respond_call r hne h hq ha]

/-- A name with spaces, a percent sign and a letter outside ASCII. -/
theorem spaced_name_called :
    let hook := "50 % née"
    let words := ["--port", "9200", hook, "[1]"]
    Placed defaultAdminPort words 9200 [hook, "[1]"] ∧ hook ≠ "" ∧ hook ∉ reservedWords ∧
      (∀ text, some "[1]" = some text → (Json.parse? text.toList).isSome = true) ∧
      Verbatim hook ∧ Sendable 9200 hook ∧
      ∃ q, asked? words = some (9200, q) ∧ named? q.target = some hook := by
  intro hook words
  have hplaced : Placed defaultAdminPort words 9200 (hook :: (some "[1]").toList) :=
    .port (by decide +kernel) (.word _ (.word _ .nothing))
  have hne : hook ≠ "" := by decide
  have hword : hook ∉ reservedWords := by decide
  have hjson : ∀ text, some "[1]" = some text → (Json.parse? text.toList).isSome = true := by
    rintro text ⟨⟩
    decide +kernel
  have hverbatim : Verbatim hook := ⟨by decide, by decide, by decide, by decide⟩
  have hsend : Sendable 9200 hook := by decide +kernel
  obtain ⟨hnamed, -⟩ := calls_named_hook_iff hplaced hne hword hjson
  exact ⟨hplaced, hne, hword, hjson, hverbatim, hsend, hnamed.mpr ⟨hverbatim, hsend⟩⟩

/-- A name with a question mark: what stands before it is the name of another hook, which is called
instead. -/
theorem other_hook_called :
    let r : Registry :=
      ⟨[⟨"peers", "", constant (.ofNat 1)⟩, ⟨"peers?all", "", constant (.ofNat 2)⟩]⟩
    Placed defaultAdminPort ["peers?all"] 9101 ["peers?all"] ∧ "peers?all" ≠ "" ∧
      "peers?all" ∉ reservedWords ∧ r.call "peers?all" .null = .ok (.ofNat 2) ∧
      run (fun _ => some (respond r)) ["peers?all"] = .success "1\n" := by
  intro r
  refine ⟨.word _ .nothing, by decide, by decide, rfl, ?_⟩
  decide +kernel

end MeshNode.Control
