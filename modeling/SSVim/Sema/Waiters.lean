/-
The promises of the channel and the calls that wait for them.

The channel only knows promises and names, and a call only knows its promise.  In every
reachable state the two agree: the promises registered under a name are those of the calls
that wait for it, one call for each, and no promise gets lost between the map and the
values.
-/
import SSVim.Sema.Delivery

namespace SSVim
namespace Sema

open Transition

/-- The call waits for the promise. -/
def WaitsFor (s : State) (c : CallId) (filename : Str) (p : Nat) : Prop :=
  ∃ call, s.calls c = some call ∧ call.filename = filename ∧ call.phase = .waiting p

structure Matched (s : State) : Prop where
  registered : ∀ filename, ∀ p ∈ s.channel.entries filename, ∃ c, WaitsFor s c filename p
  alone : ∀ c c' filename filename' p, WaitsFor s c filename p → WaitsFor s c' filename' p → c = c'
  old : ∀ c filename p, WaitsFor s c filename p → p < s.channel.allocated
  ordered : ∀ filename, (s.channel.entries filename).Pairwise (· < ·)
  kept : ∀ p < s.channel.allocated,
    (∃ filename, p ∈ s.channel.entries filename) ∨ ∃ reply, s.channel.value? p = some reply

theorem matched_init (documents : Str → Str) : Matched (State.init documents) where
  registered filename p hp := by cases hp
  alone c c' filename filename' p h := by
    obtain ⟨call, hc, -⟩ := h
    cases hc
  old c filename p h := by
    obtain ⟨call, hc, -⟩ := h
    cases hc
  ordered filename := List.Pairwise.nil
  kept p hp := absurd hp (Nat.not_lt_zero p)

section
variable {s s' : State} {a : Action}

/-- A waiting call goes on waiting or takes the value of its promise. -/
theorem WaitsFor.next (h : Stepped s a s') {c : CallId} {filename : Str} {p : Nat}
    (hw : WaitsFor s c filename p) :
    WaitsFor s' c filename p ∨ ∃ reply, s.channel.value? p = some reply := by
  obtain ⟨call, hc, hf, hp⟩ := hw
  rcases h.waiting_next hc hp with hc' | ⟨reply, hv, -⟩
  · exact Or.inl ⟨call, hc', hf, hp⟩
  · exact Or.inr ⟨reply, hv⟩

/-- A call that waits after a step waited before it, or it waits for the promise that the
step allocates. -/
theorem WaitsFor.prev (h : Stepped s a s') {c : CallId} {filename : Str} {p : Nat}
    (hw : WaitsFor s' c filename p) :
    WaitsFor s c filename p ∨ (a = .call c .future ∧ p = s.channel.allocated ∧
      s'.channel = s.channel.future filename) := by
  obtain ⟨call, hc, hf, hp⟩ := hw
  rcases h.waiting_cases hc hp with hc₀ | ⟨call₀, -, -, ha, hch, hpa, hfile, -⟩
  · exact Or.inl ⟨call, hc₀, hf, hp⟩
  · exact Or.inr ⟨ha, hpa, by rw [hch, ← hf, hfile]⟩

theorem registered_step (hs : Matched s) (h : Stepped s a s') (filename : Str) :
    ∀ p ∈ s'.channel.entries filename, ∃ c, WaitsFor s' c filename p := by
  have hold : ∀ p ∈ s.channel.entries filename, ∃ c, WaitsFor s' c filename p := by
    intro p hp
    obtain ⟨c, hw⟩ := hs.registered filename p hp
    rcases hw.next h with hw' | ⟨reply, hv⟩
    · exact ⟨c, hw'⟩
    · rw [FutureChannel.value?_of_mem hp] at hv
      cases hv
  intro p hp
  cases h with
  | enter | editorOpen | editorReplaceText | returnedEmpty | returnedEdited | get | notify
  | deliver | discard | readName | query | respond => exact hold p hp
  | @future c call hc hphase =>
    simp only [setCall_channel, FutureChannel.entries_future] at hp
    split at hp
    next hf =>
      rcases List.mem_append.mp hp with hp | hp
      · exact hold p (hf ▸ hp)
      · rw [List.mem_singleton] at hp
        exact ⟨c, _, setCall_self _ _ _, hf.symm, by rw [hp]⟩
    · exact hold p hp
  | set hh hphase =>
    simp only [setHandler_channel, FutureChannel.entries_set] at hp
    split at hp
    · cases hp
    · exact hold p hp

theorem ordered_step (hs : Matched s) (h : Stepped s a s') (filename : Str) :
    (s'.channel.entries filename).Pairwise (· < ·) := by
  rcases h.channel_cases with hch | ⟨c, call, -, -, -, hch⟩ |
    ⟨i, handler, semaName, reply, -, -, -, hch⟩
  · rw [hch]
    exact hs.ordered filename
  · rw [hch, FutureChannel.entries_future]
    split
    next hf =>
      refine List.pairwise_append.mpr ⟨hs.ordered _, List.pairwise_singleton _ _, ?_⟩
      intro p hp q hq
      rw [List.mem_singleton.mp hq]
      exact s.channel.wf.fresh _ p hp
    · exact hs.ordered filename
  · rw [hch, FutureChannel.entries_set]
    split
    · exact List.Pairwise.nil
    · exact hs.ordered filename

theorem kept_step (hs : Matched s) (h : Stepped s a s') : ∀ p < s'.channel.allocated,
    (∃ filename, p ∈ s'.channel.entries filename) ∨
      ∃ reply, s'.channel.value? p = some reply := by
  intro p hp
  rcases h.channel_cases with hch | ⟨c, call, -, -, -, hch⟩ |
    ⟨i, handler, semaName, reply, -, -, -, hch⟩
  · rw [hch] at hp ⊢
    exact hs.kept p hp
  · rw [hch] at hp ⊢
    rcases Nat.lt_or_eq_of_le (Nat.le_of_lt_succ hp) with hlt | rfl
    · rcases hs.kept p hlt with ⟨filename, hmem⟩ | hv
      · exact Or.inl ⟨filename, FutureChannel.mem_entries_future hmem⟩
      · exact Or.inr hv
    · exact Or.inl ⟨_, FutureChannel.allocated_mem_future _ _⟩
  · rw [hch] at hp ⊢
    rw [FutureChannel.allocated_set] at hp
    rw [FutureChannel.value?_set]
    by_cases hmem : p ∈ s.channel.entries semaName
    · rw [if_pos hmem]
      exact Or.inr ⟨reply, rfl⟩
    · rw [if_neg hmem]
      rcases hs.kept p hp with ⟨filename, hmem'⟩ | hv
      · refine Or.inl ⟨filename, ?_⟩
        rw [FutureChannel.entries_set, if_neg]
        · exact hmem'
        · rintro rfl
          exact hmem hmem'
      · exact Or.inr hv

theorem allocated_step (h : Stepped s a s') : s.channel.allocated ≤ s'.channel.allocated := by
  rcases h.channel_cases with hch | ⟨c, call, -, -, -, hch⟩ |
    ⟨i, handler, semaName, reply, -, -, -, hch⟩
  · rw [hch]
  · rw [hch]
    exact Nat.le_succ _
  · rw [hch, FutureChannel.allocated_set]

theorem matched_step (hs : Matched s) (h : Stepped s a s') : Matched s' where
  registered := registered_step hs h
  alone c c' filename filename' p hw hw' := by
    rcases hw.prev h with hw | ⟨ha, hp, -⟩ <;> rcases hw'.prev h with hw' | ⟨ha', hp', -⟩
    · exact hs.alone c c' filename filename' p hw hw'
    · exact absurd hp' (Nat.ne_of_lt (hs.old c filename p hw))
    · exact absurd hp (Nat.ne_of_lt (hs.old c' filename' p hw'))
    · rw [ha] at ha'
      cases ha'
      rfl
  old c filename p hw := by
    rcases hw.prev h with hw | ⟨-, hp, hch⟩
    · exact Nat.lt_of_lt_of_le (hs.old c filename p hw) (allocated_step h)
    · rw [hp, hch]
      exact Nat.lt_succ_self _
  ordered := ordered_step hs h
  kept := kept_step hs h

/-- A promise is registered under a name exactly while a call for that name waits for it
in vain. -/
theorem registered_iff (hl : Linked s) (hs : Matched s) {filename : Str} {p : Nat} :
    p ∈ s.channel.entries filename ↔
      (∃ c, WaitsFor s c filename p) ∧ s.channel.value? p = none := by
  refine ⟨fun hp => ⟨hs.registered filename p hp, FutureChannel.value?_of_mem hp⟩, fun h => ?_⟩
  obtain ⟨⟨c, call, hc, rfl, hp⟩, hv⟩ := h
  rcases hl.waiting c call p hc hp with hmem | ⟨reply, hreply, -⟩
  · exact hmem
  · rw [hv] at hreply
    cases hreply

end

theorem matched_reaches {ok : State → Action → Prop} {s s' : State} (h : step.Reaches ok s s')
    (hs : Matched s) : Matched s' :=
  h.invariant (fun _ _ _ ht _ ha => matched_step ht (stepped_of_step ha)) hs

/-- In every state that any interleaving reaches, the promises under a name are those of the
calls for that file that wait without a value, in the order in which they registered; no two
calls wait for one promise; and every promise made is registered or has its value. -/
theorem channel_matches_calls (documents : Str → Str) {s : State}
    (h : step.Reaches Machine.free (State.init documents) s) :
    (∀ filename p, p ∈ s.channel.entries filename ↔
      (∃ c, WaitsFor s c filename p) ∧ s.channel.value? p = none) ∧
    (∀ filename, (s.channel.entries filename).Pairwise (· < ·)) ∧
    (∀ c c' filename filename' p, WaitsFor s c filename p → WaitsFor s c' filename' p → c = c') ∧
    ∀ p < s.channel.allocated,
      (∃ filename, p ∈ s.channel.entries filename) ∨ ∃ reply, s.channel.value? p = some reply := by
  have hl := linked_reaches h (linked_init documents)
  have hs := matched_reaches h (matched_init documents)
  exact ⟨fun filename p => registered_iff hl hs, hs.ordered, hs.alone, hs.kept⟩

/-- Two calls for one file, both waiting. -/
def bothWait : List Action :=
  [.enter 0 (lit "a") (lit "x") [], .enter 1 (lit "a") (lit "y") [],
   .call 0 (.editorOpen (some []) []), .call 1 (.editorOpen (some []) []),
   .call 0 (.editorReplaceText (some []) []), .call 1 (.editorReplaceText (some []) []),
   .call 0 .editorReturned, .call 1 .editorReturned, .call 1 .future, .call 0 .future]

theorem bothWait_matched :
    ∃ s, step.runIf Machine.free (State.init fun _ => []) bothWait = some s ∧
      s.channel.entries (lit "a") = [0, 1] ∧ (∃ c, WaitsFor s c (lit "a") 0) ∧
      ∃ c, WaitsFor s c (lit "a") 1 := by
  have hrun : (step.runIf Machine.free (State.init fun _ => []) bothWait).map
      (fun s => s.channel.entries (lit "a")) = some [0, 1] := by
    decide
  obtain ⟨s, hs, hentries⟩ := Option.map_eq_some_iff.mp hrun
  have hmatched := (channel_matches_calls _ (Machine.reaches_of_runIf hs)).1 (lit "a")
  have hfirst := (hmatched 0).mp (by rw [hentries]; decide)
  have hsecond := (hmatched 1).mp (by rw [hentries]; decide)
  exact ⟨s, hs, hentries, hfirst.1, hsecond.1⟩

end Sema
end SSVim
