import LibLitertLm.Backend.Delivery

namespace LibLitertLm.Worker

/-- The text of all chunks that the native library passed to the operation. -/
def State.said (rt : Runtime) (s : State) (stream : ℕ) : String :=
  String.join ((s.passed stream).map fun bytes ↦ (chunkText rt (s.chatting stream) bytes).getD "")

variable {rt : Runtime} {s : State} {stream : ℕ} {text : String}

theorem State.passed_noNul : ∀ bytes ∈ s.passed stream, 0 ∉ bytes := Bridge.passed_noNul _ _

theorem Whole.said (h : Whole rt stream text s)
    (hmark : ∀ bytes ∈ s.passed stream, ¬ Marked bytes) : text = s.said rt stream := by
  rw [h.text, spell, State.said]
  refine congrArg _ (List.map_congr_left fun bytes hbytes ↦ ?_)
  rw [shown_unmarked _ (State.passed_noNul bytes hbytes) (hmark bytes hbytes)]

theorem Whole.unmarked (h : Whole rt stream text s) (hraw : s.chatting stream = false)
    (htext : text = s.said rt stream) : ∀ bytes ∈ s.passed stream, ¬ Marked bytes := by
  obtain ⟨-, hread, hspelled⟩ := h
  rw [hraw] at hread hspelled
  rw [State.said, hraw] at htext
  have hparts (bytes : List UInt8) (hbytes : bytes ∈ s.passed stream) :
      List.Sublist ((shown rt false bytes).toOption.getD "").toList
        ((chunkText rt false bytes).getD "").toList := by
    obtain ⟨shown, hshown⟩ := hread bytes hbytes
    obtain ⟨full, hfull, hpart, -⟩ := shown_sublist (State.passed_noNul bytes hbytes) hshown
    rw [hshown, hfull]
    exact hpart
  have hsame := congrArg String.toList (hspelled.symm.trans htext)
  rw [spell, String.toList_join, String.toList_join, List.flatMap_map, List.flatMap_map,
    flatMap_eq_iff_of_sublist hparts] at hsame
  intro bytes hbytes
  obtain ⟨shown, hshown⟩ := hread bytes hbytes
  obtain ⟨full, hfull, -, hmark⟩ := shown_sublist (State.passed_noNul bytes hbytes) hshown
  have heq := hsame bytes hbytes
  rw [hshown, hfull] at heq
  exact hmark (String.toList_inj.mp heq)

end LibLitertLm.Worker

namespace LibLitertLm.Backend

open Handles (Event)
open Worker (NativeWorker)

/-- A listener that is told that its stream is complete has got all that the
native library passed on for it, chunk by chunk and in order, and nothing else.
Only a byte order mark at the start of a chunk is lost, where `toDartString`
drops it. -/
theorem stream_lossless (rt : Worker.Runtime) {turns : List (Turn Answers Work)}
    {w : World NativeWorker} (ht : (nativeParty rt).system.run turns = some w) (stream : ℕ)
    {text : String} (htext : .completed text ∈ (w.isolate.consumer stream).controller.received) :
    ∃ tokens s, (w.isolate.consumer stream).controller.received =
        tokens.map Event.token ++ [.completed text] ∧
      String.join tokens = text ∧
      (.event stream (.complete text), s) ∈ w.worker.sent ∧
      s.taken stream = s.passed stream ∧
      (∀ bytes ∈ s.passed stream, ∃ text, Worker.shown rt (s.chatting stream) bytes = .ok text) ∧
      text = Worker.spell rt (s.chatting stream) (s.passed stream) ∧
      ((∀ bytes ∈ s.passed stream, ¬ Worker.Marked bytes) → text = s.said rt stream) ∧
      (s.chatting stream = false → text = s.said rt stream →
        ∀ bytes ∈ s.passed stream, ¬ Worker.Marked bytes) := by
  obtain ⟨tokens, hreceived, htokens, s, hsent, hwhole⟩ := received_complete ht htext
  exact ⟨tokens, s, hreceived, htokens.symm, hsent, hwhole.taken, hwhole.readable, hwhole.text,
    hwhole.said, hwhole.unmarked⟩

namespace Scenario

open Worker.Scenario (runtime)

/-- The last chunk has a text. -/
def spoken : List (Turn Answers Work) :=
  begun ++ [.deliver, .deliver, .deliver, .main .returned, .take answers,
    .act (.callback ⟨1, some ⟨some ⟨[33], by decide⟩, none, true⟩, []⟩),
    .act (.tick fun _ ↦ Worker.noAnswers), .act (.tick fun _ ↦ Worker.noAnswers),
    .deliver, .main .returned, .deliver]

/-- The first chunk starts with a byte order mark. -/
def marked : List (Turn Answers Work) :=
  asked ++ chunk ⟨[0xEF, 0xBB, 0xBF, 97], by decide⟩ ++ [.deliver, .deliver, .deliver,
    .main .returned, .take answers, .act (.callback ⟨1, some ⟨none, none, true⟩, []⟩),
    .act (.tick fun _ ↦ Worker.noAnswers), .deliver]

/-- Where a stream is complete: whether it is a conversation, and what the native
library has passed. -/
def ends (m : Worker.Outgoing × Worker.State) : Option (Bool × List (List UInt8)) :=
  match m.1 with
  | .event stream (.complete _) => some (m.2.chatting stream, m.2.passed stream)
  | _ => none

end Scenario

theorem stream_lossless_spoken : ∃ w,
    (nativeParty Worker.Scenario.runtime).system.run Scenario.spoken = some w ∧
    .completed "a!" ∈ (w.isolate.consumer 3).controller.received ∧
    ∃ (tokens : List String) (s : Worker.State), (w.isolate.consumer 3).controller.received =
        tokens.map Event.token ++ [.completed "a!"] ∧ String.join tokens = "a!" ∧
      s.taken 3 = s.passed 3 := by
  have hrun : (((nativeParty Worker.Scenario.runtime).system.run Scenario.spoken).map fun w ↦
      (w.isolate.consumer 3).controller.received.filterMap Scenario.completed) = some ["a!"] := by
    decide +kernel
  obtain ⟨w, hw, hresult⟩ := Option.map_eq_some_iff.mp hrun
  have hcompleted : .completed "a!" ∈ (w.isolate.consumer 3).controller.received := by
    have hmem : "a!" ∈ (w.isolate.consumer 3).controller.received.filterMap Scenario.completed := by
      simp [hresult]
    obtain ⟨e, he, htext⟩ := List.mem_filterMap.mp hmem
    cases e with
    | completed text => exact Option.some.inj htext ▸ he
    | _ => cases htext
  obtain ⟨tokens, s, hreceived, htokens, -, htaken, -⟩ :=
    stream_lossless Worker.Scenario.runtime hw 3 hcompleted
  exact ⟨w, hw, hcompleted, tokens, s, hreceived, htokens, htaken⟩

theorem marked_loses : ∃ w,
    (nativeParty Worker.Scenario.runtime).system.run Scenario.marked = some w ∧
    (w.isolate.consumer 3).controller.received.filterMap Scenario.completed = ["a"] ∧
    w.worker.sent.filterMap Scenario.ends = [(false, [[0xEF, 0xBB, 0xBF, 97]])] ∧
    Worker.chunkText Worker.Scenario.runtime false [0xEF, 0xBB, 0xBF, 97] = some "\uFEFFa" := by
  have hrun : (((nativeParty Worker.Scenario.runtime).system.run Scenario.marked).map fun w ↦
      ((w.isolate.consumer 3).controller.received.filterMap Scenario.completed,
        w.worker.sent.filterMap Scenario.ends)) =
      some (["a"], [(false, [[0xEF, 0xBB, 0xBF, 97]])]) := by
    decide +kernel
  obtain ⟨w, hw, hresult⟩ := Option.map_eq_some_iff.mp hrun
  obtain ⟨hreceived, hsent⟩ := Prod.mk.inj hresult
  exact ⟨w, hw, hreceived, hsent, by decide +kernel⟩

end LibLitertLm.Backend
