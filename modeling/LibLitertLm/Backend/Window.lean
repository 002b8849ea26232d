import LibLitertLm.Backend.Delivery

namespace LibLitertLm.Backend

open Handles (Event)
open Worker (NativeWorker)

/-- The tokens in the Dart controller that its listener has not got. -/
def Consumer.buffered (c : Consumer) : ℕ := c.controller.held.countP isToken

/-- The native side has come to its end, and the worker still runs the operation. -/
structure Finishing (stream bound : ℕ) (w : World NativeWorker) : Prop where
  known : stream ∈ started w.seen
  draining : Worker.Draining stream bound (Worker.tokensOf stream w.worker.messages) w.worker

variable {rt : Worker.Runtime} {U : ℕ → Prop} {v w w' : World NativeWorker} {stream bound : ℕ}
  {turns : List (Turn Answers Work)}

theorem Finishing.step {turn : Turn Answers Work} (h : Finishing stream bound w) (hw : Joined U w)
    (ht : Party.Step (nativeParty rt) w turn w') : Finishing stream bound w' := by
  have haside {s : Isolate} (hposted : w.isolate.posted <+: s.posted) (read : ℕ) :
      Finishing stream bound { w with isolate := s, read := read } := by
    refine ⟨?_, h.draining⟩
    rw [hw.seen_eq hposted read]
    exact h.known
  cases ht with
  | @main a s hother hs =>
    exact haside (hw.fit.sound.change hw.fit.ledger.nodup hother hs).grows.posted w.read
  | @deliver m hm hframe hports =>
    obtain ⟨more, hmore, -⟩ := (hw.fit.sound.received hframe m).posted
    exact haside ⟨more, hmore.symm⟩ _
  | @take how m hm =>
    obtain ⟨n, hsends, hdraining⟩ :=
      @Worker.Draining.turn rt _ _ _ _ _ h.draining hw.sound h.known (m.action how)
        (hw.fresh hm how)
    refine ⟨?_, ?_⟩
    · rw [World.seen_take hm, started_append]
      exact List.mem_append_left _ h.known
    · rw [show Worker.tokensOf stream ((nativeParty rt).take w.worker how m).messages = _ from
        Sends.tokensOf hsends]
      exact hdraining
  | act work =>
    obtain ⟨n, hsends, hdraining⟩ :=
      @Worker.Draining.turn rt _ _ _ _ _ h.draining hw.sound h.known work.action (hw.again work)
    refine ⟨h.known, ?_⟩
    rw [show Worker.tokensOf stream ((nativeParty rt).act w.worker work).messages = _ from
      Sends.tokensOf hsends]
    exact hdraining

theorem Finishing.exec (h : Finishing stream bound v) (hv : Joined (fun _ ↦ True) v)
    (ht : (nativeParty rt).system.exec v turns = some w) : Finishing stream bound w := by
  induction turns generalizing v with
  | nil =>
    obtain rfl : v = w := by simpa using ht
    exact h
  | cons turn turns ih =>
    obtain ⟨u, hu, ht⟩ := by simpa only [System.exec_cons, Option.bind_eq_some_iff] using ht
    have hstep := Party.step_cases hu
    exact ih (h.step hv hstep) (hv.step (fun _ _ ↦ trivial) hstep) ht

/-- From a state on in which the native side of an operation has come to its end
the worker sends no more of its tokens than texts are queued. -/
theorem tokensOf_final {before after : List (Turn Answers Work)}
    (hv : (nativeParty rt).system.run before = some v)
    (hw : (nativeParty rt).system.run (before ++ after) = some w)
    (hlive : stream ∈ v.worker.state.operations) (hfinal : v.worker.state.isFinal stream = true) :
    Worker.tokensOf stream w.worker.messages ≤
      Worker.tokensOf stream v.worker.messages + (Bridge.kMaxEvents - 1) := by
  have hfirst : Accounted 1 stream 0 (nativeParty rt).system.init := accounted_init
  have hjoined : Joined (fun _ ↦ True) v := (joined_init.exec hfirst (fun _ _ ↦ trivial)
    (fun h ↦ absurd h one_ne_zero) hv).1
  obtain ⟨v', hv', hw⟩ := ((nativeParty rt).system.exec_append_eq_some).mp hw
  obtain rfl : v = v' := Option.some.inj (hv.symm.trans hv')
  have hqueue := hjoined.sound.consistent.queuedTexts_le hlive
  have hfinishing : Finishing stream
      (Worker.tokensOf stream v.worker.messages + (Bridge.kMaxEvents - 1)) v :=
    ⟨hjoined.sound.asked stream hlive, Nat.le_add_right .., fun _ _ ↦ ⟨hfinal, by omega⟩⟩
  exact (hfinishing.exec hjoined hw).draining.most

theorem tokens_toEvent (events : List Worker.Event) :
    (events.map Isolate.toEvent).countP isToken = events.countP Worker.Event.isToken := by
  rw [List.countP_map]
  exact List.countP_congr fun e _ ↦ by simp [Isolate.toEvent_isToken]

theorem tokensOf_told (messages : List Worker.Outgoing) :
    Worker.tokensOf stream messages = (told stream messages).countP Worker.Event.isToken := by
  rw [told, List.countP_filterMap, Worker.tokensOf]
  refine List.countP_congr fun m _ ↦ ?_
  cases m with
  | reply request result => rfl
  | event other e =>
    by_cases hsame : other = stream <;> simp [Worker.Outgoing.isTokenOf, toldTo, hsame]

/-- What the listener has got of a stream and what its controller holds back was
sent by the worker. -/
theorem buffered_le (ht : (nativeParty rt).system.run turns = some w) (stream : ℕ) :
    (w.isolate.consumer stream).heard + (w.isolate.consumer stream).buffered ≤
      Worker.tokensOf stream w.worker.messages := by
  obtain ⟨log, hdelivered⟩ := delivered_run ht
  obtain ⟨failures, -, hfeeds⟩ := hdelivered.fed stream
  have hlog : log stream <+: told stream w.worker.messages :=
    (hdelivered.sent stream).trans ((List.take_prefix ..).filterMap _)
  have hfailures : (failures.map Event.failed).countP isToken = 0 := by
    simp [List.countP_eq_zero, isToken]
  calc (w.isolate.consumer stream).heard + (w.isolate.consumer stream).buffered
      = (w.isolate.consumer stream).controller.accepted.countP isToken :=
        List.countP_append.symm
    _ ≤ ((log stream).map Isolate.toEvent ++ failures.map Event.failed).countP isToken :=
        hfeeds.accepted.sublist.countP_le
    _ = (log stream).countP Worker.Event.isToken := by
        rw [List.countP_append, hfailures, Nat.add_zero, tokens_toEvent]
    _ ≤ (told stream w.worker.messages).countP Worker.Event.isToken := hlog.sublist.countP_le
    _ = Worker.tokensOf stream w.worker.messages := (tokensOf_told _).symm

instance (stream : ℕ) (s : Isolate) (a : Isolate.Action) : Decidable (s.Timely stream a) :=
  inferInstanceAs (Decidable (_ → _ < _))

instance {ω α β : Type} (stream : ℕ) (w : World ω) :
    (turn : Turn α β) → Decidable (turn.Timely stream w)
  | .main a => inferInstanceAs (Decidable (w.isolate.Timely stream a))
  | .deliver | .take _ | .act _ => .isTrue trivial

/-- Where `onResume` posts no credit but that of a token, at most one token is
outstanding as long as the native side works for the stream, and what it has
queued at its end is all that comes after that, whatever the listener does. -/
theorem timely_window (rt : Worker.Runtime) {turns : List (Turn Answers Work)}
    {w : World NativeWorker} (ht : (nativeParty rt).system.run turns = some w) (stream : ℕ)
    (hm : (nativeParty rt).system.Meets (Turn.Timely stream) (nativeParty rt).system.init turns) :
    (Streaming w.worker.state stream →
      Worker.tokensOf stream w.worker.messages ≤ (w.isolate.consumer stream).heard + 1 ∧
        (w.isolate.consumer stream).buffered ≤ 1) ∧
    (∀ before after v, turns = before ++ after → (nativeParty rt).system.run before = some v →
      stream ∈ v.worker.state.operations → v.worker.state.isFinal stream = true →
        Worker.tokensOf stream w.worker.messages ≤
          Worker.tokensOf stream v.worker.messages + (Bridge.kMaxEvents - 1)) ∧
    Worker.tokensOf stream w.worker.messages ≤
      (w.isolate.consumer stream).heard + Bridge.kMaxEvents ∧
    (w.isolate.consumer stream).buffered ≤ Bridge.kMaxEvents := by
  have hfirst : Accounted 0 stream 0 (nativeParty rt).system.init := accounted_init
  have haccounted := (joined_init.exec hfirst (fun _ _ ↦ trivial) (fun _ ↦ hm) ht).2
  have hpaid := haccounted.paying.paid.law
  have hbuffered := buffered_le ht stream
  have htaken : creditsIn stream w.seen ≤ creditsIn stream w.isolate.posted := creditsIn_take_le ..
  have hmost := haccounted.metered.most
  refine ⟨fun ⟨hlive, huncancelled, hfinal⟩ ↦ ?_, fun before after v hturns hv hlive hfinal ↦ ?_,
    by omega, by omega⟩
  · have hflow := haccounted.metered.flow hlive huncancelled hfinal
    exact ⟨by omega, by omega⟩
  · rw [hturns] at ht
    exact tokensOf_final hv ht hlive hfinal

namespace Scenario

/-- The listener pauses while it has a token, and takes the next one paused. -/
def patient : List (Turn Answers Work) :=
  begun ++ [.deliver, .deliver, .deliver, .main (.call (.pause 3)), .main .returned] ++
    chunk ⟨[99], by decide⟩ ++
    [.main (.call (.resume 3)), .take answers, .act (.tick fun _ ↦ Worker.noAnswers),
      .main (.call (.pause 3)), .deliver]

/-- A pause ends while a token is on its way; the next one lasts. -/
def eager : List (Turn Answers Work) :=
  hasty ++ [.main (.call (.pause 3)), .deliver, .deliver, .deliver, .deliver]

end Scenario

theorem timely_window_patient : ∃ w,
    (nativeParty Worker.Scenario.runtime).system.run Scenario.patient = some w ∧
    Streaming w.worker.state 3 ∧ Worker.tokensOf 3 w.worker.messages = 2 ∧
    (w.isolate.consumer 3).heard = 1 ∧ (w.isolate.consumer 3).buffered = 1 ∧
    Worker.tokensOf 3 w.worker.messages ≤ (w.isolate.consumer 3).heard + 1 := by
  have hrun : (((nativeParty Worker.Scenario.runtime).system.run Scenario.patient).map fun w ↦
      (decide (Streaming w.worker.state 3), Worker.tokensOf 3 w.worker.messages,
        (w.isolate.consumer 3).heard, (w.isolate.consumer 3).buffered)) = some (true, 2, 1, 1) := by
    decide +kernel
  have hmeets : (nativeParty Worker.Scenario.runtime).system.Meets (Turn.Timely 3)
      (nativeParty Worker.Scenario.runtime).system.init Scenario.patient := by
    decide +kernel
  obtain ⟨w, hw, hresult⟩ := Option.map_eq_some_iff.mp hrun
  obtain ⟨hstreaming, htokens, hheard, hbuffered⟩ := by simpa only [Prod.mk.injEq,
    decide_eq_true_eq] using hresult
  exact ⟨w, hw, hstreaming, htokens, hheard, hbuffered,
    ((timely_window Worker.Scenario.runtime hw 3 hmeets).1 hstreaming).1⟩

/-- Two tokens wait in the controller of a paused listener. -/
theorem eager_buffers : ∃ w,
    (nativeParty Worker.Scenario.runtime).system.run Scenario.eager = some w ∧
    Streaming w.worker.state 3 ∧ (w.isolate.consumer 3).controller.isPaused = true ∧
    Worker.tokensOf 3 w.worker.messages = 2 ∧ (w.isolate.consumer 3).heard = 0 ∧
    (w.isolate.consumer 3).buffered = 2 := by
  have hrun : (((nativeParty Worker.Scenario.runtime).system.run Scenario.eager).map fun w ↦
      (decide (Streaming w.worker.state 3), (w.isolate.consumer 3).controller.isPaused,
        Worker.tokensOf 3 w.worker.messages, (w.isolate.consumer 3).heard,
        (w.isolate.consumer 3).buffered)) = some (true, true, 2, 0, 2) := by
    decide +kernel
  obtain ⟨w, hw, hresult⟩ := Option.map_eq_some_iff.mp hrun
  obtain ⟨hstreaming, hpaused, htokens, hheard, hbuffered⟩ := by simpa only [Prod.mk.injEq,
    decide_eq_true_eq] using hresult
  exact ⟨w, hw, hstreaming, hpaused, htokens, hheard, hbuffered⟩

end LibLitertLm.Backend
