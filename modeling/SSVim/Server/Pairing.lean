/-
Requests and responses of a session are paired.

A session does one thing at a time: it reads, or a block works on the request
read last, or it writes.  So `_request` is the one the block was dispatched for as
long as the block needs it, and the responses passed to `async_write` answer the
requests read, in order.

What sourcekitd has put into a response is left open here.  `Server/Delivered` and
`Server/Completed` follow it into the bodies.
-/
import SSVim.Server.Process

namespace SSVim
namespace Server

open Transition Completer

/-- The block was dispatched for `request` and has computed what it holds from it. -/
def Block.For (request : Req) : Block → Prop
  | .queued endpoint => findEndpoint request.url = some endpoint
  | .decoded fields =>
    findEndpoint request.url = some .completions ∧ completionFields request.body = .ok fields
  | .opened fields _ =>
    findEndpoint request.url = some .completions ∧ completionFields request.body = .ok fields ∧
      ∃ opening, completionRequest .codeCompleteOpen fields.context = .ok opening
  | .diagnosing fields =>
    findEndpoint request.url = some .diagnostics ∧ diagnosticsFields request.body = .ok fields
  | .inCall fields _ =>
    findEndpoint request.url = some .diagnostics ∧ diagnosticsFields request.body = .ok fields
  | .delayed => findEndpoint request.url = some .slowTest
  | .result body => Answers request (okResponse request body)
  | .responding res => Answers request res

theorem handleResponse_snd (reply response : Option Str) :
    (handleResponse reply response).2 = reply.or response := by
  cases reply <;> rfl

/-- The two steps of a completions block compute what the endpoint does. -/
theorem answers_completions {request : Req} {fields : CompletionFields}
    (hurl : findEndpoint request.url = some .completions)
    (hfields : completionFields request.body = .ok fields)
    {opening updating : SourceKit.Request}
    (ho : completionRequest .codeCompleteOpen fields.context = .ok opening)
    (hu : completionRequest .codeCompleteUpdate fields.context = .ok updating)
    (opened updated : Option Str) :
    Answers request
      (okResponse request ((handleResponse updated opened).2.getD emptyCompletions)) := by
  refine ⟨{ opened := opened, updated := updated, diagnostics := [] }, ?_⟩
  have hcandidates : fields.candidates replay [opened, updated] =
      .ok ((updated.or opened).getD emptyCompletions, []) :=
    candidates_eq replay [opened, updated] ho hu
  rw [response, hurl, handleResponse_snd]
  show (completionsEndpoint replay request [opened, updated]).bind _ = _
  rw [completionsEndpoint_eq replay hfields hcandidates]
  rfl

theorem answers_diagnostics {request : Req} {fields : DiagnosticsFields}
    (hurl : findEndpoint request.url = some .diagnostics)
    (hfields : diagnosticsFields request.body = .ok fields) (value : Str) :
    Answers request (okResponse request value) := by
  refine ⟨{ opened := none, updated := none, diagnostics := value }, ?_⟩
  rw [response, hurl]
  show (diagnosticsFields request.body).bind _ = _
  rw [hfields]
  rfl

/-- Every endpoint answers with status 200, whatever sourcekitd contributes. -/
theorem okResponse_of_answers {request : Req} {res : Response} (h : Answers request res)
    {endpoint : Endpoint} (hurl : findEndpoint request.url = some endpoint) :
    ∃ body, res = okResponse request body := by
  obtain ⟨outcome, hres⟩ := h
  rw [response, hurl] at hres
  cases endpoint with
  | status | shutdown | slowTest =>
    cases hres
    exact ⟨_, rfl⟩
  | completions =>
    obtain ⟨⟨res', replies⟩, hbody, heq⟩ := bind_eq_ok hres
    cases heq
    obtain ⟨fields, -, hrest⟩ := bind_eq_ok hbody
    obtain ⟨⟨candidates, replies'⟩, -, heq⟩ := bind_eq_ok hrest
    cases heq
    exact ⟨candidates, rfl⟩
  | diagnostics =>
    obtain ⟨fields, -, heq⟩ := bind_eq_ok hres
    cases heq
    exact ⟨outcome.diagnostics, rfl⟩

theorem Block.For.run {request : Req} {block block' : Block} {a : BlockAction} {effect : Effect}
    (hb : block.For request) (h : block.run request a = some (.ok (block', effect))) :
    block'.For request := by
  unfold Block.run at h
  split at h
  · cases h
    exact ⟨⟨none, none, []⟩, by rw [response, hb]⟩
  · cases h
    exact ⟨⟨none, none, []⟩, by rw [response, hb]⟩
  · obtain ⟨fields, hfields, heq⟩ := map_eq_ok (Option.some.inj h)
    cases heq
    exact ⟨hb, hfields⟩
  · obtain ⟨fields, hfields, heq⟩ := map_eq_ok (Option.some.inj h)
    cases heq
    exact ⟨hb, hfields⟩
  · cases h
    exact hb
  · obtain ⟨opening, ho, heq⟩ := map_eq_ok (Option.some.inj h)
    cases heq
    exact ⟨hb.1, hb.2, opening, ho⟩
  · obtain ⟨updating, hu, heq⟩ := map_eq_ok (Option.some.inj h)
    cases heq
    obtain ⟨hurl, hfields, opening, ho⟩ := hb
    exact answers_completions hurl hfields ho hu _ _
  · cases h
    exact hb
  · cases h
    exact answers_diagnostics hb.1 hb.2 _
  · cases h
    exact ⟨⟨none, none, []⟩, by rw [response, hb]⟩
  · cases h
    exact hb
  · cases h

/-! ## The invariant -/

/-- Response number `k` answers request number `k`. -/
def Paired (readLog : List Req) (issued : List Response) : Prop :=
  ∀ (k : Nat) res, issued[k]? = some res →
    ∃ request, readLog[k]? = some request ∧ Answers request res

/-- The operations of a session that have not completed. -/
def Session.pending (session : Session) : Nat :=
  session.reads + session.blocks.length + session.writes.length

structure Serial (session : Session) : Prop where
  single : session.pending ≤ 1
  /-- Each request read has its response or is with the block. -/
  counts : session.readLog.length = session.issued.length + session.blocks.length
  current : ∀ block ∈ session.blocks, block.For session.request
  last : session.blocks ≠ [] → session.readLog.getLast? = some session.request
  paired : Paired session.readLog session.issued

theorem Serial.busy {session : Session} (hs : Serial session) :
    session.reads + session.blocks.length + session.writes.length ≤ 1 := hs.single

theorem serial_init (socket : Socket) : Serial (Session.init socket) where
  single := le_refl _
  counts := rfl
  current block h := by cases h
  last h := absurd rfl h
  paired k res h := by cases h

theorem paired_concat {readLog : List Req} {issued : List Response} (request : Req)
    {res : Response} (hp : Paired readLog issued) (hn : readLog[issued.length]? = some request)
    (ha : Answers request res) : Paired readLog (issued ++ [res]) := by
  intro k res' hk
  by_cases hlt : k < issued.length
  · rw [List.getElem?_append_left hlt] at hk
    exact hp k res' hk
  · rw [List.getElem?_append_right (Nat.le_of_not_lt hlt)] at hk
    obtain ⟨hzero, hres⟩ := List.getElem?_eq_some_iff.mp hk
    have hkeq : k = issued.length := by
      have hone : k - issued.length < 1 := hzero
      omega
    subst hkeq
    simp only [Nat.sub_self, List.getElem_cons_zero] at hres
    exact ⟨request, hn, hres ▸ ha⟩

theorem paired_read {readLog : List Req} {issued : List Response} (request : Req)
    (hp : Paired readLog issued) : Paired (readLog ++ [request]) issued := by
  intro k res hk
  obtain ⟨r, hr, ha⟩ := hp k res hk
  obtain ⟨hlt, -⟩ := List.getElem?_eq_some_iff.mp hr
  exact ⟨r, by rw [List.getElem?_append_left hlt, hr], ha⟩

section
variable {session session' : Session}

theorem serial_read (hs : Serial session) (hr : 0 < session.reads) (request : Req)
    (rest : List Req) : Serial (session.readDone request rest) := by
  have hsingle := hs.busy
  have hblocks : session.blocks = [] := List.length_eq_zero_iff.mp (by omega)
  have hwrites : session.writes.length = 0 := by omega
  have hcounts : session.readLog.length = session.issued.length := by
    have hc := hs.counts
    rw [hblocks] at hc
    exact hc
  rcases session.readDone_cases request rest with ⟨endpoint, hurl, heq⟩ | ⟨hurl, heq⟩
  · rw [heq, hblocks]
    exact
      { single := by
          show session.reads - 1 + 1 + session.writes.length ≤ 1
          omega
        counts := by
          show (session.readLog ++ [request]).length = session.issued.length + 1
          rw [List.length_append, List.length_singleton, hcounts]
        current := fun block hb => by
          rw [List.mem_singleton.mp hb]
          exact hurl
        last := fun _ => List.getLast?_concat
        paired := paired_read request hs.paired }
  · rw [heq, hblocks]
    exact
      { single := by
          show session.reads - 1 + 0 + (session.writes ++ [_]).length ≤ 1
          rw [List.length_append, List.length_singleton]
          omega
        counts := by
          show (session.readLog ++ [request]).length =
            (session.issued ++ [notFoundResponse request]).length + 0
          simp [hcounts]
        current := fun block hb => by cases hb
        last := fun h => absurd rfl h
        paired := by
          refine paired_concat request (paired_read request hs.paired) ?_ ?_
          · rw [← hcounts]
            exact List.getElem?_concat_length
          · exact ⟨⟨none, none, []⟩, by rw [response, hurl]⟩ }

theorem serial_step (hs : Serial session) {a : Session.Action} {effect : Effect}
    (h : Session.Stepped session a session' effect) : Serial session' := by
  have hsingle := hs.busy
  cases h with
  | readBuffered hr | readSocket hr => exact serial_read hs hr _ _
  | readFails hr =>
    exact
      { single := by
          show session.reads - 1 + session.blocks.length + session.writes.length ≤ 1
          omega
        counts := hs.counts
        current := hs.current
        last := hs.last
        paired := hs.paired }
  | shut =>
    exact
      { single := hs.single
        counts := hs.counts
        current := hs.current
        last := hs.last
        paired := hs.paired }
  | @run k a block rest block' effect hb hrun =>
    have hlen := pick_length hb
    have hne : session.blocks ≠ [] := List.ne_nil_of_mem (pick_mem hb)
    have hrest : rest = [] := List.length_eq_zero_iff.mp (by omega)
    have hcounts := hs.counts
    subst hrest
    exact
      { single := by
          show session.reads + 1 + session.writes.length ≤ 1
          rw [List.length_nil] at hlen
          omega
        counts := by
          show session.readLog.length = session.issued.length + 1
          rw [List.length_nil] at hlen
          omega
        current := fun b hmem => by
          rw [List.mem_singleton.mp hmem]
          exact (hs.current block (pick_mem hb)).run hrun
        last := fun _ => hs.last hne
        paired := hs.paired }
  | fault => exact hs
  | @write k res rest hb =>
    have hlen := pick_length hb
    have hrest : rest = [] := List.length_eq_zero_iff.mp (by omega)
    have hcounts := hs.counts
    have hlast := hs.last (List.ne_nil_of_mem (pick_mem hb))
    subst hrest
    rw [List.length_nil] at hlen
    exact
      { single := by
          show session.reads + 0 + (session.writes ++ [res]).length ≤ 1
          rw [List.length_append, List.length_singleton]
          omega
        counts := by
          show session.readLog.length = (session.issued ++ [res]).length + 0
          rw [List.length_append, List.length_singleton]
          omega
        current := fun b hmem => by cases hmem
        last := fun h => absurd rfl h
        paired := by
          refine paired_concat session.request hs.paired ?_
            (hs.current _ (pick_mem hb))
          rw [List.getLast?_eq_getElem?] at hlast
          have hindex : session.readLog.length - 1 = session.issued.length := by omega
          show session.readLog[session.issued.length]? = some session.request
          rw [← hindex]
          exact hlast }
  | @writeDone k success res rest hw =>
    have hlen := pick_length hw
    have hblocks : session.blocks = [] := List.length_eq_zero_iff.mp (by omega)
    exact
      { single := by
          show session.reads + 1 + session.blocks.length + rest.length ≤ 1
          omega
        counts := hs.counts
        current := hs.current
        last := hs.last
        paired := hs.paired }

/-- While a block is there, no step of the session assigns `_request`. -/
theorem request_step (hs : Serial session) (hb : session.blocks ≠ []) {a : Session.Action}
    {effect : Effect} (h : Session.Stepped session a session' effect) :
    session'.request = session.request := by
  have hsingle := hs.busy
  have hpos : 0 < session.blocks.length := List.length_pos_iff.mpr hb
  cases h with
  | readBuffered hr | readSocket hr => omega
  | readFails | shut | run | fault | write | writeDone => rfl

end

theorem sessions_serial {ok : Process → Process.Action → Prop} {documents : Str → Str}
    {p : Process} (h : Process.step.Reaches ok (Process.init documents) p) {i : Nat}
    {session : Session} (hi : p.sessions[i]? = some session) : Serial session :=
  Process.sessions_invariant serial_init
    (fun _ _ _ _ _ _ _ _ hs ha => serial_step hs (Session.stepped_of_step ha)) h hi

/-- In every state of every run of the server, each session has at most one
operation pending; while that is a block, it works on `_request`, which is the
request read last and which no step assigns; and the responses issued answer the
requests read, in order and one for each but the one that a block still has. -/
theorem sessions_paired (documents : Str → Str) {p : Process}
    (h : Process.step.Reaches Machine.free (Process.init documents) p) :
    ∀ (i : Nat) session, p.sessions[i]? = some session →
      session.pending ≤ 1 ∧
      (∀ block ∈ session.blocks, block.For session.request) ∧
      (session.blocks ≠ [] →
        session.readLog.getLast? = some session.request ∧
        ∀ a p', Process.step p a = some p' →
          ∃ session', p'.sessions[i]? = some session' ∧ session'.request = session.request) ∧
      session.readLog.length = session.issued.length + session.blocks.length ∧
      Paired session.readLog session.issued := by
  intro i session hi
  have hs : Serial session := sessions_serial h hi
  refine ⟨hs.single, hs.current, fun hb => ⟨hs.last hb, fun a p' ha => ?_⟩, hs.counts, hs.paired⟩
  obtain ⟨session', hi', hnext⟩ := Process.session_next hi ha
  refine ⟨session', hi', ?_⟩
  rcases hnext with rfl | ⟨b, effect, -, hstep⟩
  · rfl
  · exact request_step hs hb (Session.stepped_of_step hstep)

def slowRequest : Req := { url := lit "/slow_test", version := 11, body := [] }
def unknownRequest : Req := { url := lit "/", version := 10, body := [] }

/-- Two requests arrive at once, and the first is answered after a delay. -/
def twoRequests : List Process.Action :=
  Process.accepting ++
    [.session 0 (.readSocket slowRequest [unknownRequest]), .session 0 (.run 0 .start),
     .session 0 (.run 0 .fire), .session 0 (.run 0 .build), .session 0 (.write 0),
     .session 0 (.writeDone 0 true), .session 0 .readBuffered]

theorem twoRequests_paired :
    ∃ p session res res', Process.step.runIf Machine.free (Process.init fun _ => []) twoRequests =
        some p ∧ p.sessions[0]? = some session ∧ session.issued = [res, res'] ∧
      Answers slowRequest res ∧ Answers unknownRequest res' := by
  have hrun : (Process.step.runIf Machine.free (Process.init fun _ => []) twoRequests).bind
      (fun p => p.sessions[0]?.map fun session => (session.readLog, session.issued)) =
      some ([slowRequest, unknownRequest],
        [okResponse slowRequest (lit "Hello World"), notFoundResponse unknownRequest]) := by
    decide
  obtain ⟨p, hp, hobs⟩ := Option.bind_eq_some_iff.mp hrun
  obtain ⟨session, hi, hlogs⟩ := Option.map_eq_some_iff.mp hobs
  obtain ⟨hread, hissued⟩ := Prod.mk.injEq .. ▸ hlogs
  have hpaired := (sessions_paired _ (Machine.reaches_of_runIf hp) 0 session hi).2.2.2.2
  rw [hread, hissued] at hpaired
  obtain ⟨request, hr, ha⟩ := hpaired 0 _ rfl
  obtain ⟨request', hr', ha'⟩ := hpaired 1 _ rfl
  cases hr
  cases hr'
  exact ⟨p, session, _, _, hp, hi, hissued, ha, ha'⟩

end Server
end SSVim
