/-
Which responses labelled JSON are JSON.

Every response the server builds has the same `Content-Type`.  A body that comes
from sourcekitd is its JSON text.  No other body is a document: the texts of the
server start with a letter that no value starts with, the two fallbacks quote their
key with apostrophes, and the empty body has no value at all.
-/
import SSVim.Server.Pairing

namespace SSVim
namespace Server

open Completer Json

/-- The server's own reader accepts the text. -/
def IsJson (text : Str) : Prop := ∃ pt, readJson text = .ok pt

/-- What `sourcekitd_variant_json_description_copy` returns. -/
abbrev JsonText := { text : Str // IsJson text }

def Labelled (res : Response) : Prop :=
  res.fields.lookup headerKeyContentType = some headerValueContentTypeJSON

/-- The replies to the two calls of an endpoint, `none` for an error. -/
def replies (first second : Option JsonText) : List (Option Str) :=
  [first.map Subtype.val, second.map Subtype.val]

/-- The response that is written once the call has `value`. -/
def DiagnosticsProgress.finish (value : Str) : DiagnosticsProgress → Response
  | .writes res => res
  | .awaits _ resume => resume value

/-- The response the server writes for a request when the two sourcekitd calls reply
`first` and `second` and a notification has the channel deliver `sema`. -/
def served (request : Req) (first second : Option JsonText) (sema : JsonText) :
    Except Fault Response :=
  match findEndpoint request.url with
  | none => .ok (notFoundResponse request)
  | some .status => .ok (okResponse request [])
  | some .shutdown => .ok (okResponse request [])
  | some .slowTest => .ok (okResponse request (lit "Hello World"))
  | some .completions =>
    (completionsEndpoint replay request (replies first second)).map Prod.fst
  | some .diagnostics =>
    (diagnosticsEndpoint replay request (replies first second)).map fun p => p.1.finish sema.1

/-! ## Texts that are no document -/

/-- A document may start with the byte. -/
def startsDocument (c : UInt8) : Bool :=
  isWs c || isDigit c || c == 0xef || c == openBrace || c == openBracket || c == quote ||
    c == letter 't' || c == letter 'f' || c == letter 'n' || c == minusSign

theorem not_isJson_of_head {c : UInt8} {s : Str} (h : startsDocument c = false) :
    ¬ IsJson (c :: s) := by
  simp only [startsDocument, Bool.or_eq_false_iff, beq_eq_false_iff_ne] at h
  obtain ⟨⟨⟨⟨⟨⟨⟨⟨⟨hws, hdigit⟩, hmark⟩, hbrace⟩, hbracket⟩, hquote⟩, ht⟩, hf⟩, hn⟩, hminus⟩ := h
  have hzero : c ≠ letter '0' := by
    intro heq
    rw [heq] at hdigit
    exact absurd hdigit (by decide)
  have hskip : skipWs (c :: s) = c :: s :=
    List.dropWhile_cons_of_neg (by rw [hws]; exact Bool.false_ne_true)
  have hnumber : parseNumber (c :: s) = fail "expected value" := by
    rw [parseNumber, if_neg hminus, parseUnsigned, parseIntPart, if_neg hzero, if_neg]
    · rfl
    · rw [hdigit]
      exact Bool.false_ne_true
  have hvalue : parseValue (2 * (c :: s).length + 1) (c :: s) = fail "expected value" := by
    rw [parseValue, hskip]
    simp only [if_neg hbrace, if_neg hbracket, if_neg hquote, if_neg ht, if_neg hf, if_neg hn,
      hnumber]
    rfl
  intro hjson
  obtain ⟨pt, hpt⟩ := hjson
  rw [readJson, parseDocument, skipIntroduction, if_neg hmark, hvalue] at hpt
  cases hpt

theorem isJson_iff_isSome {text : Str} : IsJson text ↔ (readJson text).toOption.isSome = true := by
  rw [IsJson]
  cases readJson text with
  | error fault => simp [Except.toOption]
  | ok pt => simp [Except.toOption]

theorem emptyCompletions_not_isJson : ¬ IsJson emptyCompletions := by
  rw [isJson_iff_isSome]
  decide +kernel

theorem emptyDiagnostics_not_isJson : ¬ IsJson emptyDiagnostics := by
  rw [isJson_iff_isSome]
  decide +kernel

theorem nil_not_isJson : ¬ IsJson [] := by
  rw [isJson_iff_isSome]
  decide +kernel

/-! ## Responses -/

@[simp] theorem jsonResponse_body (status : Nat) (reason : Str) (request : Req) (body : Str) :
    (jsonResponse status reason request body).body = body := by
  unfold jsonResponse prepare
  split <;> rfl

theorem jsonResponse_labelled (status : Nat) (reason : Str) (request : Req) (body : Str) :
    Labelled (jsonResponse status reason request body) := by
  unfold jsonResponse prepare
  split <;> rfl

@[simp] theorem okResponse_body (request : Req) (body : Str) :
    (okResponse request body).body = body := jsonResponse_body _ _ _ _

theorem notFoundResponse_not_isJson (request : Req) : ¬ IsJson (notFoundResponse request).body := by
  rw [notFoundResponse, jsonResponse_body]
  exact not_isJson_of_head (s := lit "ndpoint: '" ++ request.url ++ lit "' not found") (by decide)

theorem errorResponse_not_isJson (request : Req) (message : Str) :
    ¬ IsJson (errorResponse request message).body := by
  rw [errorResponse, jsonResponse_body]
  exact not_isJson_of_head (s := lit "n internal error occurred" ++ message) (by decide)

/-- The request is for an endpoint that asks sourcekitd. -/
def AsksSourcekitd (request : Req) : Prop :=
  findEndpoint request.url = some .completions ∨ findEndpoint request.url = some .diagnostics

/-- What the calls of a completions request leave in their shared response. -/
theorem served_completions {request : Req} {first second : Option JsonText} {sema : JsonText}
    {res : Response} (hurl : findEndpoint request.url = some .completions)
    (h : served request first second sema = .ok res) :
    res = okResponse request
      (((second.or first).map Subtype.val).getD emptyCompletions) := by
  rw [served, hurl] at h
  obtain ⟨⟨res', s⟩, hres, heq⟩ := map_eq_ok h
  obtain ⟨fields, hfields, hrest⟩ := bind_eq_ok hres
  obtain ⟨⟨candidates, s'⟩, hcandidates, hok⟩ := bind_eq_ok hrest
  cases hok
  have hne : unsavedInput fields.context ≠ [] := by
    intro hempty
    have hfault : fields.candidates replay (replies first second) =
        .error (.assertion "Missing unsaved file") := candidates_empty replay _ hempty
    rw [hfault] at hcandidates
    cases hcandidates
  obtain ⟨opening, ho⟩ := completionRequest_ok hne .codeCompleteOpen
  obtain ⟨updating, hu⟩ := completionRequest_ok hne .codeCompleteUpdate
  have hall : fields.candidates replay (replies first second) =
      .ok ((lastResponse replay opening updating (replies first second)).getD emptyCompletions,
        []) := candidates_eq replay _ ho hu
  rw [hall] at hcandidates
  cases hcandidates
  rw [← heq]
  cases first <;> cases second <;> rfl

/-- A diagnostics request is answered at once when both calls failed. -/
theorem served_diagnostics {request : Req} {first second : Option JsonText} {sema : JsonText}
    {res : Response} (hurl : findEndpoint request.url = some .diagnostics)
    (h : served request first second sema = .ok res) :
    res = okResponse request
      (if second.or first = none then emptyDiagnostics else sema.1) := by
  rw [served, hurl] at h
  obtain ⟨⟨progress, s⟩, hprogress, heq⟩ := map_eq_ok h
  obtain ⟨fields, hfields, hrest⟩ := bind_eq_ok hprogress
  have hdiagnosis := diagnosticsForFile_eq replay (replies first second)
    (editorRequest_singleton .editorOpen fields.fileName fields.contents fields.flags)
    (editorRequest_singleton .editorReplaceText fields.fileName fields.contents fields.flags)
  have hdiagnose : fields.diagnose replay (replies first second) = _ := hdiagnosis
  rw [hdiagnose] at hrest
  rw [← heq]
  cases first <;> cases second <;> cases hrest <;> rfl

/-- What is served is an answer to the request. -/
theorem served_answers {request : Req} {first second : Option JsonText} {sema : JsonText}
    {res : Response} (h : served request first second sema = .ok res) : Answers request res := by
  cases hurl : findEndpoint request.url with
  | none =>
    rw [served, hurl] at h
    exact ⟨⟨none, none, []⟩, by rw [response, hurl, ← h]⟩
  | some endpoint =>
    cases endpoint with
    | status | shutdown | slowTest =>
      rw [served, hurl] at h
      exact ⟨⟨none, none, []⟩, by rw [response, hurl, ← h]⟩
    | completions =>
      rw [served, hurl] at h
      obtain ⟨⟨res', s⟩, hres, heq⟩ := map_eq_ok h
      refine ⟨⟨first.map Subtype.val, second.map Subtype.val, []⟩, ?_⟩
      rw [response, hurl, ← heq]
      show (completionsEndpoint replay request (replies first second)).bind _ = _
      rw [hres]
      rfl
    | diagnostics =>
      have hres := served_diagnostics hurl h
      rw [served, hurl] at h
      obtain ⟨p, hprogress, _⟩ := map_eq_ok h
      obtain ⟨fields, hfields, _⟩ := bind_eq_ok hprogress
      rw [hres]
      exact answers_diagnostics hurl hfields _

/-- A body that the server writes itself and labels JSON. -/
def OwnBody (request : Req) (res : Response) : Prop :=
  res = notFoundResponse request ∨ res = okResponse request [] ∨
    res = okResponse request (lit "Hello World")

/-- What an endpoint that asks sourcekitd writes for the reply it is left with. -/
def RepliedBody (request : Req) (reply : Option JsonText) (res : Response) : Prop :=
  (reply = none ∧
      (res = okResponse request emptyCompletions ∨ res = okResponse request emptyDiagnostics)) ∨
    (reply ≠ none ∧ ∃ text : JsonText, res = okResponse request text.1)

theorem served_cases {request : Req} {first second : Option JsonText} {sema : JsonText}
    {res : Response} (h : served request first second sema = .ok res) :
    (¬ AsksSourcekitd request ∧ OwnBody request res) ∨
      (AsksSourcekitd request ∧ RepliedBody request (second.or first) res) := by
  cases hfind : findEndpoint request.url with
  | none =>
    have hurl : ¬ AsksSourcekitd request := by simp [AsksSourcekitd, hfind]
    rw [served, hfind] at h
    cases h
    exact Or.inl ⟨hurl, Or.inl rfl⟩
  | some endpoint =>
    cases endpoint with
    | status | shutdown =>
      have hurl : ¬ AsksSourcekitd request := by simp [AsksSourcekitd, hfind]
      rw [served, hfind] at h
      cases h
      exact Or.inl ⟨hurl, Or.inr (Or.inl rfl)⟩
    | slowTest =>
      have hurl : ¬ AsksSourcekitd request := by simp [AsksSourcekitd, hfind]
      rw [served, hfind] at h
      cases h
      exact Or.inl ⟨hurl, Or.inr (Or.inr rfl)⟩
    | completions =>
      have hres := served_completions hfind h
      refine Or.inr ⟨Or.inl hfind, ?_⟩
      cases hreply : second.or first with
      | none =>
        rw [hreply] at hres
        exact Or.inl ⟨rfl, Or.inl hres⟩
      | some text =>
        rw [hreply] at hres
        exact Or.inr ⟨Option.some_ne_none _, text, hres⟩
    | diagnostics =>
      have hres := served_diagnostics hfind h
      refine Or.inr ⟨Or.inr hfind, ?_⟩
      by_cases hreply : second.or first = none
      · rw [if_pos hreply] at hres
        exact Or.inl ⟨hreply, Or.inr hres⟩
      · rw [if_neg hreply] at hres
        exact Or.inr ⟨hreply, sema, hres⟩

theorem OwnBody.not_isJson {request : Req} {res : Response} (h : OwnBody request res) :
    ¬ IsJson res.body := by
  rcases h with rfl | rfl | rfl
  · exact notFoundResponse_not_isJson request
  · rw [okResponse_body]
    exact nil_not_isJson
  · rw [okResponse_body]
    exact not_isJson_of_head (s := lit "ello World") (by decide)

theorem RepliedBody.isJson_iff {request : Req} {reply : Option JsonText} {res : Response}
    (h : RepliedBody request reply res) : IsJson res.body ↔ reply ≠ none := by
  rcases h with ⟨hreply, rfl | rfl⟩ | ⟨hreply, text, rfl⟩
  · rw [okResponse_body]
    exact ⟨fun hjson => absurd hjson emptyCompletions_not_isJson, fun hsome => absurd hreply hsome⟩
  · rw [okResponse_body]
    exact ⟨fun hjson => absurd hjson emptyDiagnostics_not_isJson, fun hsome => absurd hreply hsome⟩
  · rw [okResponse_body]
    exact ⟨fun _ => hreply, fun _ => text.2⟩

/-- Every response the server builds is labelled JSON. -/
theorem labelled_of_answers {request : Req} {res : Response} (h : Answers request res) :
    Labelled res := by
  cases hurl : findEndpoint request.url with
  | none =>
    obtain ⟨outcome, hres⟩ := h
    rw [response, hurl] at hres
    cases hres
    exact jsonResponse_labelled _ _ _ _
  | some endpoint =>
    obtain ⟨body, rfl⟩ := okResponse_of_answers h hurl
    exact jsonResponse_labelled _ _ _ _

theorem or_ne_none_iff {first second : Option JsonText} :
    second.or first ≠ none ↔ first ≠ none ∨ second ≠ none := by
  cases first <;> cases second <;> simp

/-- A response that is labelled JSON is JSON exactly when an endpoint that asks
sourcekitd builds it and one of its two calls succeeds.  A response to an error is
labelled JSON and never is. -/
theorem labelled_isJson_iff (request : Req) (first second : Option JsonText) (sema : JsonText) :
    (∀ res, served request first second sema = .ok res →
      ((Labelled res → IsJson res.body) ↔
        AsksSourcekitd request ∧ (first ≠ none ∨ second ≠ none))) ∧
    ∀ message, Labelled (errorResponse request message) ∧
      ¬ IsJson (errorResponse request message).body := by
  refine ⟨fun res h => ?_, fun message =>
    ⟨jsonResponse_labelled _ _ _ _, errorResponse_not_isJson request message⟩⟩
  have hlabelled := labelled_of_answers (served_answers h)
  rw [← or_ne_none_iff]
  rcases served_cases h with ⟨hurl, hown⟩ | ⟨hurl, hreplied⟩
  · exact ⟨fun hjson => absurd (hjson hlabelled) hown.not_isJson, fun hasks => absurd hasks.1 hurl⟩
  · rw [← hreplied.isJson_iff]
    exact ⟨fun hjson => ⟨hurl, hjson hlabelled⟩, fun hasks _ => hasks.2⟩

/-- A request for an endpoint that is not there. -/
def strayRequest : Req := { url := lit "/", version := 11, body := [] }

theorem strayRequest_not_isJson :
    ¬ ∀ (request : Req) (first second : Option JsonText) (sema : JsonText) (res : Response),
      served request first second sema = .ok res → Labelled res → IsJson res.body := by
  intro h
  have hsema : IsJson (lit "\x7b\x7d") := by
    rw [isJson_iff_isSome]
    decide +kernel
  exact notFoundResponse_not_isJson strayRequest
    (h strayRequest none none ⟨_, hsema⟩ (notFoundResponse strayRequest) rfl
      (jsonResponse_labelled _ _ _ _))

end Server
end SSVim
