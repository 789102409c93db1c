/-
What is known of a request while it is handled.

A session handles one request at a time.  A property `B` of the block that works on it and a
property `R` of its response go together: `B` holds when the block is queued, each stretch of
the block keeps it, and a block that holds its response passes it on to `R`.  Then every
response issued has `R` for the request in its place.
-/
import SSVim.Server.Pairing

namespace SSVim
namespace Server

open Transition Completer

/-! ## What one stretch can do -/

/-- The stretches of a block that meet no fault, one constructor each. -/
inductive Block.Ran (request : Req) : Block → BlockAction → Block → Effect → Prop where
  | status : Ran request (.queued .status) .start (.responding (okResponse request [])) .none
  | shutdown :
      Ran request (.queued .shutdown) .start (.responding (okResponse request [])) .scheduleExit
  | completions {fields} (hfields : completionFields request.body = .ok fields) :
      Ran request (.queued .completions) .start (.decoded fields) .none
  | diagnostics {fields} (hfields : diagnosticsFields request.body = .ok fields) :
      Ran request (.queued .diagnostics) .start (.diagnosing fields) .none
  | slowTest : Ran request (.queued .slowTest) .start .delayed .none
  | completionOpen {fields reply opening}
      (hopening : completionRequest .codeCompleteOpen fields.context = .ok opening) :
      Ran request (.decoded fields) (.completionOpen reply)
        (.opened fields (handleResponse reply none).2) .none
  | completionUpdate {fields response reply updating}
      (hupdating : completionRequest .codeCompleteUpdate fields.context = .ok updating) :
      Ran request (.opened fields response) (.completionUpdate reply)
        (.result ((handleResponse reply response).2.getD emptyCompletions)) .none
  | enterCall {fields call} :
      Ran request (.diagnosing fields) (.enterCall call) (.inCall fields call)
        (.enterCall call fields)
  | leaveCall {fields call value} :
      Ran request (.inCall fields call) (.leaveCall value) (.result value) (.leaveCall call value)
  | fire : Ran request .delayed .fire (.result (lit "Hello World")) .none
  | build {body} :
      Ran request (.result body) .build (.responding (okResponse request body)) .none

theorem Block.ran_of_run {request : Req} {block block' : Block} {a : BlockAction}
    {effect : Effect} (h : block.run request a = some (.ok (block', effect))) :
    Block.Ran request block a block' effect := by
  unfold Block.run at h
  split at h
  · cases h
    exact .status
  · cases h
    exact .shutdown
  · obtain ⟨fields, hfields, heq⟩ := map_eq_ok (Option.some.inj h)
    cases heq
    exact .completions hfields
  · obtain ⟨fields, hfields, heq⟩ := map_eq_ok (Option.some.inj h)
    cases heq
    exact .diagnostics hfields
  · cases h
    exact .slowTest
  · obtain ⟨opening, hopening, heq⟩ := map_eq_ok (Option.some.inj h)
    cases heq
    exact .completionOpen hopening
  · obtain ⟨updating, hupdating, heq⟩ := map_eq_ok (Option.some.inj h)
    cases heq
    exact .completionUpdate hupdating
  · cases h
    exact .enterCall
  · cases h
    exact .leaveCall
  · cases h
    exact .fire
  · cases h
    exact .build
  · cases h

/-! ## Blocks and responses -/

/-- Each response issued stands in the relation `R` to the request in its place. -/
def PairedBy (R : Req → Response → Prop) (readLog : List Req) (issued : List Response) : Prop :=
  ∀ (k : Nat) res, issued[k]? = some res → ∃ request, readLog[k]? = some request ∧ R request res

section
variable {R R' : Req → Response → Prop} {readLog : List Req} {issued : List Response}

theorem PairedBy.mono (hle : ∀ request res, R request res → R' request res)
    (h : PairedBy R readLog issued) : PairedBy R' readLog issued := by
  intro k res hk
  obtain ⟨request, hr, hR⟩ := h k res hk
  exact ⟨request, hr, hle _ _ hR⟩

theorem PairedBy.read (request : Req) (h : PairedBy R readLog issued) :
    PairedBy R (readLog ++ [request]) issued := by
  intro k res hk
  obtain ⟨r, hr, hR⟩ := h k res hk
  obtain ⟨hlt, -⟩ := List.getElem?_eq_some_iff.mp hr
  exact ⟨r, by rw [List.getElem?_append_left hlt, hr], hR⟩

theorem PairedBy.issue {request : Req} {res : Response} (h : PairedBy R readLog issued)
    (hlast : readLog[issued.length]? = some request) (hR : R request res) :
    PairedBy R readLog (issued ++ [res]) := by
  intro k res' hk
  rcases Nat.lt_trichotomy k issued.length with hlt | rfl | hgt
  · rw [List.getElem?_append_left hlt] at hk
    exact h k res' hk
  · rw [List.getElem?_concat_length, Option.some.injEq] at hk
    exact ⟨request, hlast, hk ▸ hR⟩
  · rw [List.getElem?_eq_none (by simp; omega)] at hk
    cases hk

end

/-- The request a block works on is the one whose response is missing. -/
theorem Serial.current_index {session : Session} (hs : Serial session) {block : Block}
    (hb : block ∈ session.blocks) :
    session.readLog[session.issued.length]? = some session.request := by
  have hbusy := hs.busy
  have hpos := List.length_pos_of_mem hb
  have hcounts := hs.counts
  have hlast := hs.last (List.ne_nil_of_mem hb)
  rw [List.getLast?_eq_getElem?] at hlast
  rwa [show session.issued.length = session.readLog.length - 1 by omega]

theorem Serial.read_index {session : Session} (hs : Serial session) (hr : 0 < session.reads)
    (request : Req) : (session.readLog ++ [request])[session.issued.length]? = some request := by
  have hbusy := hs.busy
  have hcounts := hs.counts
  rw [show session.issued.length = session.readLog.length by omega]
  exact List.getElem?_concat_length

structure Handled (B : Req → Block → Prop) (R : Req → Response → Prop) (session : Session) :
    Prop where
  blocks : ∀ block ∈ session.blocks, B session.request block
  issued : PairedBy R session.readLog session.issued

section
variable {B B' : Req → Block → Prop} {R R' : Req → Response → Prop} {session session' : Session}

theorem handled_init (socket : Socket) : Handled B R (Session.init socket) where
  blocks _ hb := by cases hb
  issued _ _ hk := by cases hk

theorem Handled.mono (hB : ∀ request block, B request block → B' request block)
    (hR : ∀ request res, R request res → R' request res) (h : Handled B R session) :
    Handled B' R' session where
  blocks block hb := hB _ _ (h.blocks block hb)
  issued := h.issued.mono hR

/-- What a property of blocks and one of responses need to stand for a request from its
reading to its response. -/
structure Carries (B : Req → Block → Prop) (R : Req → Response → Prop) : Prop where
  queued : ∀ request endpoint, B request (.queued endpoint)
  responding : ∀ request res, B request (.responding res) → R request res
  notFound : ∀ request, findEndpoint request.url = none → R request (notFoundResponse request)

theorem handled_read (hc : Carries B R) (hs : Serial session) (hh : Handled B R session)
    (hr : 0 < session.reads) (request : Req) (rest : List Req) :
    Handled B R (session.readDone request rest) := by
  have hbusy := hs.busy
  have hblocks : session.blocks = [] := List.length_eq_zero_iff.mp (by omega)
  rcases session.readDone_cases request rest with ⟨endpoint, -, heq⟩ | ⟨hurl, heq⟩
  · rw [heq, hblocks]
    refine ⟨fun block hb => ?_, hh.issued.read request⟩
    rw [List.mem_singleton.mp hb]
    exact hc.queued request endpoint
  · rw [heq, hblocks]
    refine ⟨fun block hb => (List.not_mem_nil hb).elim, ?_⟩
    exact (hh.issued.read request).issue (hs.read_index hr request) (hc.notFound request hurl)

/-- A step of a session, during which what is known may grow from `B` and `R` to `B'` and
`R'`. -/
theorem handled_step (hc : Carries B' R') (hs : Serial session) (hh : Handled B R session)
    (hB : ∀ request block, B request block → B' request block)
    (hR : ∀ request res, R request res → R' request res)
    {a : Session.Action} {effect : Effect} (h : Session.Stepped session a session' effect)
    (hrun : ∀ block b block', block.For session.request → B session.request block →
      block.run session.request b = some (.ok (block', effect)) → B' session.request block') :
    Handled B' R' session' := by
  have hlater := hh.mono hB hR
  cases h with
  | readBuffered hr | readSocket hr => exact handled_read hc hs hlater hr _ _
  | readFails | shut | fault | writeDone => exact ⟨hlater.blocks, hlater.issued⟩
  | @run k b block rest block' effect hb hblock =>
    refine ⟨fun b hmem => ?_, hlater.issued⟩
    rcases List.mem_append.mp hmem with hrest | hlast
    · exact hlater.blocks b (pick_subset hb hrest)
    · rw [List.mem_singleton.mp hlast]
      have hmem := pick_mem hb
      exact hrun block _ block' (hs.current block hmem) (hh.blocks block hmem) hblock
  | @write k res rest hb =>
    refine ⟨fun b hmem => hlater.blocks b (pick_subset hb hmem), ?_⟩
    have hmem := pick_mem hb
    exact hlater.issued.issue (hs.current_index hmem)
      (hc.responding _ _ (hlater.blocks _ hmem))

end

end Server
end SSVim
