/-
Completion sessions and whole histories of completion calls.

sourcekitd keeps one completion session per file name and offset.  Opening a
session computes results from the request's own text and stores them, and it
fails when the session exists.  An update returns what is stored, and it fails
when nothing is.  No call of the server closes a session, so the results a call
returns are those of the first call of the history with the same name and
offset.  `results` is what sourcekitd computes from a request, and `outages`
says which requests fail for a reason of their own.
-/
import Mathlib.Data.List.AList
import SSVim.Completer.Service

namespace SSVim
namespace SourceKit

open Completer

/-- The name and offset that a completion session is kept under. -/
abbrev SessionKey := Str × Int

def sessionKey (request : Request) : SessionKey :=
  (request.stringD .name, request.int64D .offset)

structure CompletionSessions where
  sessions : AList fun _ : SessionKey => Str
  /-- Whether each of the coming requests fails whatever it asks; later ones do
  not. -/
  outages : List Bool

namespace CompletionSessions

def start (outages : List Bool) : CompletionSessions := { sessions := ∅, outages := outages }

variable (results : Request → Str)

/-- The answer to a request that sourcekitd gets to process. -/
def answer (request : Request) (sessions : AList fun _ : SessionKey => Str) :
    Option Str × AList fun _ : SessionKey => Str :=
  match request.uid? with
  | some .codeCompleteOpen =>
    match sessions.lookup (sessionKey request) with
    | some _ => (none, sessions)
    | none => (some (results request), sessions.insert (sessionKey request) (results request))
  | some .codeCompleteUpdate => (sessions.lookup (sessionKey request), sessions)
  | some .codeCompleteClose => (some [], sessions.erase (sessionKey request))
  | _ => (none, sessions)

def send : Sourcekitd CompletionSessions := fun request s =>
  if s.outages.headD false then (none, { s with outages := s.outages.tail })
  else ((answer results request s.sessions).1,
    { sessions := (answer results request s.sessions).2, outages := s.outages.tail })

end CompletionSessions

/-- One call of `CandidatesForLocationInFile`. -/
structure CompletionCall where
  filename : Str
  line : Int32
  column : Int32
  unsavedFiles : List UnsavedFile
  flags : List Str

namespace CompletionCall

def ctx (call : CompletionCall) : CompletionContext :=
  completionContext call.filename call.line call.column call.unsavedFiles call.flags

/-- The request that opens a session for the call: its own file name, offset,
`CleanFile` and compiler arguments. -/
def opening (call : CompletionCall) : Except Fault Request :=
  completionRequest .codeCompleteOpen call.ctx

def candidates {σ : Type} (skd : Sourcekitd σ) (call : CompletionCall) (s : σ) :
    Except Fault (Str × σ) :=
  candidatesForLocationInFile skd call.filename call.line call.column call.unsavedFiles
    call.flags s

end CompletionCall

/-- The calls in order, each with its own opening request and what it returned.
A call that faults ends the process and with it the history. -/
def history {σ : Type} (skd : Sourcekitd σ) : List CompletionCall → σ → List (Request × Str)
  | [], _ => []
  | call :: calls, s =>
    match call.opening, call.candidates skd s with
    | .ok request, .ok (response, s') => (request, response) :: history skd calls s'
    | _, _ => []

/-- The opening requests of the calls before the first one that faults. -/
def openings : List CompletionCall → List Request
  | [] => []
  | call :: calls =>
    match call.opening with
    | .ok request => request :: openings calls
    | .error _ => []

/-- Every call that returns results returns those of its own request. -/
def ReflectsOwnText (results : Request → Str) (outages : List Bool)
    (calls : List CompletionCall) : Prop :=
  ∀ e ∈ history (CompletionSessions.send results) calls (CompletionSessions.start outages),
    e.2 ≠ emptyCompletions → e.2 = results e.1

/-- No two calls have the same session key and different opening requests. -/
def OneTextPerKey (calls : List CompletionCall) : Prop :=
  ∀ a ∈ openings calls, ∀ b ∈ openings calls, sessionKey a = sessionKey b → a = b

/-! ## One call

The two requests of a call have one session key, which is what ties the answer
to the update to the answer to the open. -/

theorem completionRequest_cases {ctx : CompletionContext} {u : RequestUID} {request : Request}
    (h : completionRequest u ctx = .ok request) :
    ∃ offset cleanFile, getOffset ctx = .ok (offset, cleanFile) ∧
      request = codeCompleteRequest u ctx.sourceFilename offset cleanFile ctx.compilerArgs
        none := by
  cases hg : getOffset ctx with
  | error fault =>
    rw [completionRequest, hg] at h
    cases h
  | ok result =>
    obtain ⟨offset, cleanFile⟩ := result
    rw [completionRequest, hg] at h
    exact ⟨offset, cleanFile, rfl, (Except.ok.inj h).symm⟩

theorem opening_updating {call : CompletionCall} {opening : Request}
    (h : call.opening = .ok opening) :
    ∃ updating, completionRequest .codeCompleteUpdate call.ctx = .ok updating ∧
      opening.uid? = some .codeCompleteOpen ∧ updating.uid? = some .codeCompleteUpdate ∧
      sessionKey updating = sessionKey opening := by
  obtain ⟨offset, cleanFile, hg, rfl⟩ := completionRequest_cases h
  refine ⟨codeCompleteRequest .codeCompleteUpdate call.ctx.sourceFilename offset cleanFile
    call.ctx.compilerArgs none, ?_, rfl, rfl, rfl⟩
  rw [completionRequest, hg]
  rfl

theorem candidates_fault {σ : Type} {skd : Sourcekitd σ} {call : CompletionCall} {s : σ}
    {fault : Fault} (h : call.opening = .error fault) :
    ∃ fault', call.candidates skd s = .error fault' :=
  ⟨_, candidates_empty skd s (completionRequest_error h)⟩

theorem candidates_of_opening {σ : Type} (skd : Sourcekitd σ) {call : CompletionCall}
    {opening updating : Request} (s : σ) (ho : call.opening = .ok opening)
    (hu : completionRequest .codeCompleteUpdate call.ctx = .ok updating) :
    call.candidates skd s = .ok ((lastResponse skd opening updating s).getD emptyCompletions,
      (skd updating (skd opening s).2).2) :=
  candidates_eq skd s ho hu

namespace CompletionSessions

variable {results : Request → Str}

/-- Every stored result is that of a request of `seen` with the session's key. -/
def StoredFrom (results : Request → Str) (seen : List Request) (s : CompletionSessions) : Prop :=
  ∀ k r, s.sessions.lookup k = some r → ∃ a ∈ seen, sessionKey a = k ∧ r = results a

theorem StoredFrom.append {seen : List Request} {s : CompletionSessions}
    (h : StoredFrom results seen s) (request : Request) :
    StoredFrom results (seen ++ [request]) s := by
  intro k r hr
  obtain ⟨a, ha, hk, hra⟩ := h k r hr
  exact ⟨a, List.mem_append_left _ ha, hk, hra⟩

theorem send_open {seen : List Request} {s : CompletionSessions} {request : Request}
    (hs : StoredFrom results seen s) (hu : request.uid? = some .codeCompleteOpen) :
    StoredFrom results (seen ++ [request]) (send results request s).2 ∧
      ∀ r, (send results request s).1 = some r → r = results request := by
  by_cases hout : s.outages.headD false = true
  · rw [send, if_pos hout]
    refine ⟨hs.append request, fun r hr => ?_⟩
    cases hr
  · rw [send, if_neg hout]
    simp only [answer, hu]
    cases hl : s.sessions.lookup (sessionKey request) with
    | some stored =>
      refine ⟨hs.append request, fun r hr => ?_⟩
      cases hr
    | none =>
      refine ⟨fun k r hr => ?_, fun r hr => (Option.some.inj hr).symm⟩
      by_cases hk : k = sessionKey request
      · subst hk
        rw [AList.lookup_insert] at hr
        exact ⟨request, by simp, rfl, (Option.some.inj hr).symm⟩
      · rw [AList.lookup_insert_ne hk] at hr
        exact hs.append request k r hr

theorem send_update {seen : List Request} {s : CompletionSessions} {request : Request}
    (hs : StoredFrom results seen s) (hu : request.uid? = some .codeCompleteUpdate) :
    StoredFrom results seen (send results request s).2 ∧
      ∀ r, (send results request s).1 = some r →
        ∃ a ∈ seen, sessionKey a = sessionKey request ∧ r = results a := by
  by_cases hout : s.outages.headD false = true
  · rw [send, if_pos hout]
    refine ⟨hs, fun r hr => ?_⟩
    cases hr
  · rw [send, if_neg hout]
    simp only [answer, hu]
    exact ⟨hs, fun r hr => hs _ r hr⟩

/-- Without outages each key has stored the results of its first request. -/
def StoresFirst (results : Request → Str) (seen : List Request) (s : CompletionSessions) : Prop :=
  s.outages = [] ∧ ∀ k, s.sessions.lookup k = (seen.find? fun a => sessionKey a = k).map results

theorem send_open_first {seen : List Request} {s : CompletionSessions} {request : Request}
    (hs : StoresFirst results seen s) (hu : request.uid? = some .codeCompleteOpen) :
    StoresFirst results (seen ++ [request]) (send results request s).2 := by
  obtain ⟨hout, hl⟩ := hs
  rw [send, if_neg (by simp [hout])]
  refine ⟨by simp [hout], fun k => ?_⟩
  rw [List.find?_append, Option.map_or]
  simp only [answer, hu]
  cases hk : s.sessions.lookup (sessionKey request) with
  | some stored =>
    show s.sessions.lookup k = _
    by_cases he : sessionKey request = k
    · subst he
      rw [← hl, hk]
      rfl
    · rw [← hl, List.find?_singleton]
      simp [he]
  | none =>
    show (s.sessions.insert (sessionKey request) (results request)).lookup k = _
    by_cases he : sessionKey request = k
    · subst he
      rw [AList.lookup_insert, ← hl, hk, List.find?_singleton]
      simp
    · rw [AList.lookup_insert_ne (Ne.symm he), ← hl, List.find?_singleton]
      simp [he]

theorem send_update_first {seen : List Request} {s : CompletionSessions} {request : Request}
    (hs : StoresFirst results seen s) (hu : request.uid? = some .codeCompleteUpdate) :
    send results request s =
      ((seen.find? fun a => sessionKey a = sessionKey request).map results, s) := by
  obtain ⟨hout, hl⟩ := hs
  rw [send, if_neg (by simp [hout])]
  simp only [answer, hu, hl]
  obtain ⟨sessions, outages⟩ := s
  subst hout
  rfl

end CompletionSessions

/-! ## Whole histories -/

section
variable {results : Request → Str}

open CompletionSessions

/-- Each call of a history is one of the opening requests, and returns the
results of a request with its session key. -/
theorem history_stored {calls : List CompletionCall} {seen : List Request}
    {s : CompletionSessions} (hs : StoredFrom results seen s) :
    ∀ e ∈ history (send results) calls s, e.1 ∈ openings calls ∧
      (e.2 ≠ emptyCompletions →
        ∃ a ∈ seen ++ openings calls, sessionKey a = sessionKey e.1 ∧ e.2 = results a) := by
  induction calls generalizing seen s with
  | nil =>
    intro e he
    cases he
  | cons call calls ih =>
    cases ho : call.opening with
    | error fault =>
      intro e he
      simp only [history, ho] at he
      cases he
    | ok opening =>
      obtain ⟨updating, hu, huid, huuid, hkey⟩ := opening_updating ho
      have h₁ := send_open hs huid
      have h₂ := send_update h₁.1 huuid
      intro e he
      simp only [history, ho, candidates_of_opening (send results) s ho hu, List.mem_cons] at he
      simp only [openings, ho]
      rcases he with rfl | he
      · refine ⟨List.mem_cons_self, fun hne => ?_⟩
        -- the second reply wins, and both come from a request with the call's key
        cases hr₂ : (send results updating (send results opening s).2).1 with
        | some r =>
          obtain ⟨a, ha, hk, hr⟩ := h₂.2 r hr₂
          refine ⟨a, ?_, hk.trans hkey, ?_⟩
          · rw [← List.singleton_append, ← List.append_assoc]
            exact List.mem_append_left _ ha
          · rw [lastResponse, hr₂]
            exact hr
        | none =>
          cases hr₁ : (send results opening s).1 with
          | some r =>
            refine ⟨opening, by simp, rfl, ?_⟩
            rw [lastResponse, hr₂, hr₁]
            exact h₁.2 r hr₁
          | none =>
            rw [lastResponse, hr₂, hr₁] at hne
            exact absurd rfl hne
      · obtain ⟨hmem, hrest⟩ := ih h₂.1 e he
        refine ⟨List.mem_cons_of_mem _ hmem, fun hne => ?_⟩
        rw [← List.singleton_append, ← List.append_assoc]
        exact hrest hne

/-- Without outages a call returns the results of the first request with its
session key. -/
theorem history_first {calls : List CompletionCall} {seen : List Request}
    {s : CompletionSessions} (hs : StoresFirst results seen s) :
    ∀ b ∈ openings calls, ∃ a,
      ((seen ++ openings calls).find? fun a => sessionKey a = sessionKey b) = some a ∧
      (b, results a) ∈ history (send results) calls s := by
  induction calls generalizing seen s with
  | nil =>
    intro b hb
    cases hb
  | cons call calls ih =>
    cases ho : call.opening with
    | error fault =>
      intro b hb
      simp only [openings, ho] at hb
      cases hb
    | ok opening =>
      obtain ⟨updating, hu, huid, huuid, hkey⟩ := opening_updating ho
      have h₁ := send_open_first hs huid
      have h₂ := send_update_first h₁ huuid
      intro b hb
      simp only [openings, ho] at hb ⊢
      simp only [history, ho, candidates_of_opening (send results) s ho hu, List.mem_cons]
      rw [← List.singleton_append, ← List.append_assoc]
      rcases List.mem_cons.mp hb with rfl | hb
      · have hfind : ∃ a, ((seen ++ [b]).find? fun a => sessionKey a = sessionKey b) = some a :=
          Option.isSome_iff_exists.mp (by simp)
        obtain ⟨a, ha⟩ := hfind
        refine ⟨a, ?_, Or.inl ?_⟩
        · rw [List.find?_append, ha, Option.some_or]
        · rw [lastResponse, h₂, hkey, ha]
          rfl
      · rw [h₂]
        obtain ⟨a, ha, hmem⟩ := ih h₁ b hb
        exact ⟨a, ha, Or.inr hmem⟩

end

/-! ## Stale results -/

/-- The calls of a history return their own results, whatever sourcekitd computes
and whichever requests it fails, exactly when no two of them ask for different
results under one name and offset. -/
theorem reflectsOwnText_iff (calls : List CompletionCall) :
    (∀ results outages, ReflectsOwnText results outages calls) ↔ OneTextPerKey calls := by
  constructor
  · intro h
    -- results that tell one request from every other one, and no outage
    have hfirst : ∀ b ∈ openings calls,
        ((openings calls).find? fun a => sessionKey a = sessionKey b) = some b := by
      intro b hb
      let results : Request → Str := fun r => if r = b then lit "own" else lit "other"
      have hstart : CompletionSessions.StoresFirst results [] (.start []) :=
        ⟨rfl, fun k => AList.lookup_empty k⟩
      obtain ⟨a, ha, hmem⟩ := history_first hstart b hb
      have hab : results a = results b := h results [] _ hmem (by
        show (if a = b then lit "own" else lit "other") ≠ emptyCompletions
        split <;> decide)
      have : a = b := by
        by_contra hne
        have hne' : (if a = b then lit "own" else lit "other") = lit "own" := by
          simpa [results] using hab
        rw [if_neg hne] at hne'
        exact absurd hne' (by decide)
      rw [← this]
      rw [← this] at ha
      exact ha
    intro a ha b hb hk
    have h₁ := hfirst a ha
    rw [hk, hfirst b hb] at h₁
    exact (Option.some.inj h₁).symm
  · intro h results outages e he hne
    have hstart : CompletionSessions.StoredFrom results [] (.start outages) := by
      intro k r hr
      rw [CompletionSessions.start, AList.lookup_empty] at hr
      cases hr
    obtain ⟨hmem, hrest⟩ := history_stored hstart e he
    obtain ⟨a, ha, hk, hr⟩ := hrest hne
    rw [hr, h a ha e.1 hmem hk]

/-- Two completions at one offset, the buffer edited between them. -/
def editedBetween : List CompletionCall :=
  [{ filename := lit "/tmp/x", line := 1, column := 1,
     unsavedFiles := [{ contents := lit "a.", fileName := lit "/tmp/x" }], flags := [] },
   { filename := lit "/tmp/x", line := 1, column := 1,
     unsavedFiles := [{ contents := lit "b.", fileName := lit "/tmp/x" }], flags := [] }]

instance (results : Request → Str) (outages : List Bool) (calls : List CompletionCall) :
    Decidable (ReflectsOwnText results outages calls) :=
  inferInstanceAs (Decidable (∀ e ∈ history (CompletionSessions.send results) calls
    (CompletionSessions.start outages), e.2 ≠ emptyCompletions → e.2 = results e.1))

/-- The second of the two calls returns the results of the first, for a
sourcekitd whose results are the text it was given. -/
theorem editedBetween_stale :
    ¬ ReflectsOwnText (fun request => request.stringD .sourceText) [] editedBetween := by
  decide

end SourceKit
end SSVim
