import LibLitertLm.Backend.Flow
import LibLitertLm.Backend.Link
import LibLitertLm.Worker.Credit

namespace LibLitertLm.Backend

open Worker (NativeWorker)

/-- What the native library and the allocator answer while the worker listens to
one message; a message uses the answers of its own kind. -/
structure Answers where
  load : Worker.LoadAnswers
  inspect : Worker.InspectAnswers
  opening : Worker.OpenAnswers
  generate : Worker.GenerateAnswers
  budget : Worker.BudgetAnswers
  tokenize : Worker.TokenizeAnswers

def Request.command (a : Answers) : Request → Worker.Command
  | .loadEngine config => .loadEngine config a.load
  | .createSession engineId params messages conversation =>
    .createSession engineId params messages conversation a.opening
  | .inspectModel path => .inspectModel path a.inspect
  | .engineInfo engineId => .engineInfo engineId
  | .tokenize engineId text => .tokenize engineId text a.tokenize
  | .budget sessionId messages reserve => .budget sessionId (.messages messages) reserve a.budget
  | .metrics sessionId => .metrics sessionId
  | .cancelSession sessionId => .cancelSession sessionId
  | .disposeSession sessionId => .disposeSession sessionId
  | .disposeEngine engineId => .disposeEngine engineId

def Posted.command (a : Answers) : Posted → Option ℕ × Worker.Command
  | .request id r => (some id, r.command a)
  | .close id => (some id, .close)
  | .generate stream sessionId input => (none, .generate stream sessionId input a.generate)
  | .credit stream => (none, .credit stream)
  | .cancelStream stream => (none, .cancelStream stream)
  | .testCrash => (none, .testCrash)

def Posted.action (a : Answers) (m : Posted) : Worker.Action :=
  .command (m.command a).1 (m.command a).2

inductive Work
  | tick (answers : ℕ → Worker.PumpAnswers)
  | callback (callback : Worker.Callback)

def Work.action : Work → Worker.Action
  | .tick answers => .tick answers
  | .callback c => .callback c

def nativeParty (rt : Worker.Runtime) : Party NativeWorker Answers Work :=
  ⟨{}, NativeWorker.messages, fun w a m ↦ Worker.step rt w (m.action a), fun w work ↦
    Worker.step rt w work.action⟩

def Posted.starts : Posted → Option ℕ
  | .generate stream _ _ => some stream
  | _ => none

def started (messages : List Posted) : List ℕ := messages.filterMap Posted.starts

theorem started_append (messages messages' : List Posted) :
    started (messages ++ messages') = started messages ++ started messages' := List.filterMap_append

theorem Posted.asks_action (a : Answers) (m : Posted) : (m.action a).asks = m.starts := by
  cases m with
  | request id request => cases request <;> rfl
  | _ => rfl

theorem Posted.credits_action (a : Answers) (m : Posted) (stream : ℕ) :
    Worker.creditsOf stream (m.action a).said.toList = (m.isCreditOf stream).toNat := by
  cases m with
  | request id request => cases request <;> rfl
  | credit other =>
    cases h : other == stream <;>
      simp [Worker.creditsOf, Posted.action, Posted.command, Worker.Action.said,
        Worker.Command.isCreditOf, isCreditOf, h]
  | _ => rfl

namespace Isolate

variable {U : ℕ → Prop} {s t : Isolate} {stream : ℕ}

/-- Every stream was started once, when it was listened to. -/
structure Starting (s : Isolate) : Prop where
  nodup : (started s.posted).Nodup
  listened : ∀ stream ∈ started s.posted, (s.consumer stream).controller.listened = true

theorem Starting.init : Starting {} := ⟨.nil, fun _ h ↦ nomatch h⟩

theorem started_of_light {messages : List Posted} (h : ∀ m ∈ messages, m.light = true) :
    started messages = [] := by
  refine List.filterMap_eq_nil_iff.mpr fun m hm ↦ ?_
  have hlight := h m hm
  cases m <;> first | rfl | cases hlight

theorem Lightly.started (h : Lightly s t) : started t.posted = started s.posted := by
  obtain ⟨more, hmore, hlight⟩ := h
  rw [hmore, started_append, started_of_light hlight, List.append_nil]

theorem Starting.of_started (h : Starting s) (hstarted : started t.posted = started s.posted)
    (hlater : Later s.consumer t.consumer) : Starting t :=
  ⟨hstarted ▸ h.nodup,
    fun stream hmem ↦ (hlater stream).listened (h.listened stream (hstarted ▸ hmem))⟩

theorem started_call (s : Isolate) {c : Call} (hc : ∀ stream, c ≠ .listen stream) :
    started (s.call c).posted = started s.posted := by
  have hpost (m : Posted) (hm : m.starts = none) (l : List Posted) :
      started (l ++ [m]) = started l := by
    rw [started_append]
    simp [started, hm]
  cases c with
  | request r =>
    simp only [Isolate.call, Isolate.request]
    split_ifs
    · rfl
    · rfl
    · exact hpost _ rfl _
  | stream sessionId input => rfl
  | listen stream => exact absurd rfl (hc stream)
  | pause stream => rfl
  | resume stream =>
    exact Lightly.started (touches_resumed s stream (s.consumer stream).controller.resume.1
      (s.consumer stream).controller.resume.2).posted
  | cancel stream =>
    exact Lightly.started (touches_ended s stream (s.consumer stream).controller.cancel.1
      (s.consumer stream).controller.cancel.2).posted
  | close =>
    simp only [Isolate.call, Isolate.close]
    split_ifs with hfuture hclosed
    · rfl
    · rfl
    · rw [Isolate.request, if_neg (by simpa using hclosed)]
      exact hpost _ rfl _
  | crashForTesting => exact hpost _ rfl _

theorem Starting.listen (h : Starting s) (hsound : Sound U s) (stream : ℕ) :
    Starting (s.listen stream) := by
  have hlistened := Isolate.listened (hsound.standings.standing stream).fresh
  generalize s.listen stream = t at hlistened
  cases hlistened with
  | nothing => exact h
  | refused hfresh hclosed =>
    refine h.of_started rfl (.update ?_)
    rw [hfresh]
    exact .of_fresh _
  | accepted sessionId input hfresh hclosed =>
    have hnew : stream ∉ started s.posted := fun hmem ↦ by
      have hlistened := h.listened stream hmem
      rw [hfresh] at hlistened
      cases hlistened
    have hposted : started (s.posted ++ [.generate stream sessionId input]) =
        started s.posted ++ [stream] := started_append ..
    refine ⟨?_, fun other hother ↦ ?_⟩
    · show (started (s.posted ++ [.generate stream sessionId input])).Nodup
      rw [hposted]
      exact List.concat_eq_append ▸ h.nodup.concat hnew
    · have hother : other ∈ started (s.posted ++ [.generate stream sessionId input]) := hother
      rw [hposted, List.mem_append, List.mem_singleton] at hother
      by_cases hsame : other = stream
      · subst hsame
        simp [setConsumer, StreamController.listen, StreamController.leave]
      · have hconsumer := h.listened other (hother.resolve_right hsame)
        simpa [setConsumer, hsame, post] using hconsumer

theorem endStreams_started (failure : Failure) (rest : List ℕ) (s : Isolate) :
    started (endStreams failure rest s).posted = started s.posted := by
  induction rest generalizing s with
  | nil => rfl
  | cons stream rest ih =>
    rw [endStreams]
    dsimp only
    have hfinish := touches_finish s stream
    split_ifs
    · rw [ih]
      exact Lightly.started (hfinish.and (touches_completeDoneOnce _ stream)).posted
    · exact Lightly.started (hfinish.and (touches_add _ stream (.failed failure))).posted
    · rw [ih]
      exact Lightly.started ((hfinish.and (touches_add _ stream (.failed failure))).and
        (f := fun c ↦ doneOnce c.close) (touches_finished _ stream)).posted

theorem proceed_started (s : Isolate) (frame : Frame) :
    started (s.proceed frame).posted = started s.posted := by
  have hleave (stream : ℕ) : started (s.leave stream).posted = started s.posted :=
    Lightly.started (touches_leave s stream).posted
  cases frame with
  | receiving stream terminal =>
    exact (Lightly.started (touches_received (s.leave stream) stream terminal).posted).trans
      (hleave stream)
  | ending failure stream rest =>
    rw [proceed, endStreams_started]
    exact (Lightly.started (touches_finished (s.leave stream) stream).posted).trans (hleave stream)
  | dispatching stream => exact hleave stream

theorem workerEnded_started (s : Isolate) (detail : Option String) :
    started (s.workerEnded detail).posted = started s.posted := by
  have hcomplete (ids : List ℕ) (result : Except Failure Worker.Value) (s : Isolate) :
      (ids.foldl (fun s id ↦ s.complete id result) s).posted = s.posted := by
    induction ids generalizing s with
    | nil => rfl
    | cons id ids ih => exact (ih _).trans rfl
  rw [workerEnded]
  split_ifs
  · rfl
  · rw [endStreams_started]
    exact congrArg started (hcomplete _ _ _)

theorem Starting.step (h : Starting s) (hsound : Sound U s) {a : Action}
    (hlater : Later s.consumer t.consumer) (ht : s.step a = some t) : Starting t := by
  have hquiet (hstarted : started t.posted = started s.posted) : Starting t :=
    h.of_started hstarted hlater
  cases a with
  | call c =>
    obtain rfl := Option.some.inj ht
    by_cases hc : ∃ stream, c = .listen stream
    · obtain ⟨stream, rfl⟩ := hc
      exact h.listen hsound stream
    · exact hquiet (started_call s fun stream heq ↦ hc ⟨stream, heq⟩)
  | returned =>
    simp only [Isolate.step] at ht
    split at ht
    · next frame hframe =>
      obtain rfl := Option.some.inj ht
      exact hquiet (proceed_started _ frame)
    · cases ht
  | receive message =>
    simp only [Isolate.step] at ht
    split_ifs at ht with hready
    obtain rfl := Option.some.inj ht
    have hframe : s.frame = none := by simpa using (Bool.and_eq_true_iff.mp hready).1
    exact hquiet (Lightly.started (hsound.received hframe message).posted)
  | exit detail =>
    simp only [Isolate.step] at ht
    split_ifs at ht with hready
    obtain rfl := Option.some.inj ht
    exact hquiet (workerEnded_started s detail)
  | dispatch stream =>
    simp only [Isolate.step] at ht
    split_ifs at ht
    split at ht
    · next k _ =>
      obtain rfl := Option.some.inj ht
      exact hquiet (Lightly.started (touches_ended s stream k true).posted)
    · obtain rfl := Option.some.inj ht
      exact hquiet rfl
    · cases ht
  | closed =>
    simp only [Isolate.step] at ht
    split at ht
    · split_ifs at ht
      obtain rfl := Option.some.inj ht
      exact hquiet rfl
    · split_ifs at ht
      obtain rfl := Option.some.inj ht
      exact hquiet rfl
    · cases ht

end Isolate

def World.seen {ω : Type} (w : World ω) : List Posted := w.isolate.posted.take w.taken

theorem take_of_isPrefix {α : Type} {l l' : List α} {n : ℕ} (h : l <+: l') (hn : n ≤ l.length) :
    l'.take n = l.take n := by
  obtain ⟨more, rfl⟩ := h
  exact List.take_append_of_le_length hn

/-- What holds of the main isolate and its worker between any two turns. -/
structure Joined (U : ℕ → Prop) (w : World NativeWorker) : Prop where
  fit : Party.Fit U w
  starting : w.isolate.Starting
  sound : Worker.Sound (started w.seen) w.worker

structure Accounted (charge stream pauses : ℕ) (w : World NativeWorker) : Prop where
  paying : w.isolate.Paying charge stream pauses
  metered : Worker.Metered (started w.seen) stream (creditsIn stream w.seen)
    (Worker.tokensOf stream w.worker.messages) w.worker

def Turn.pausesOf {α β : Type} (stream : ℕ) : Turn α β → ℕ
  | .main a => a.pausesOf stream
  | _ => 0

/-- `onResume` of a stream is called only while a token that its listener has got
is without a credit. -/
def Turn.Timely {ω α β : Type} (stream : ℕ) (w : World ω) : Turn α β → Prop
  | .main a => w.isolate.Timely stream a
  | _ => True

variable {rt : Worker.Runtime} {U : ℕ → Prop} {w w' : World NativeWorker}
  {charge stream pauses : ℕ}

theorem joined_init : Joined U (nativeParty rt).system.init :=
  ⟨Party.fit_init, .init,
    ⟨Worker.consistent_init, (fun h ↦ nomatch h), Worker.tabled_init, (fun _ h ↦ nomatch h)⟩⟩

theorem accounted_init : Accounted charge stream 0 (nativeParty rt).system.init :=
  ⟨.init, ⟨Nat.zero_le _, (fun h ↦ nomatch h), fun _ ↦ rfl⟩⟩

theorem Joined.seen_eq (h : Joined U w) {s : Isolate} (hposted : w.isolate.posted <+: s.posted)
    (read : ℕ) : { w with isolate := s, read := read }.seen = w.seen :=
  take_of_isPrefix hposted h.fit.taken

theorem World.seen_take {m : Posted} {t : NativeWorker} (hm : w.isolate.posted[w.taken]? = some m) :
    { w with worker := t, taken := w.taken + 1 }.seen = w.seen ++ [m] := by
  rw [World.seen, World.seen, List.take_add_one, hm, Option.toList_some]

theorem started_concat (messages : List Posted) (m : Posted) :
    started (messages ++ [m]) = started messages ++ m.starts.toList := by
  rw [started_append]
  refine congrArg _ ?_
  cases hstarts : m.starts <;> simp [started, hstarts]

theorem Joined.fresh (h : Joined U w) {m : Posted} (hm : w.isolate.posted[w.taken]? = some m)
    (a : Answers) : (started w.seen ++ (m.action a).asks.toList).Nodup := by
  have hseen : (w.seen ++ [m]).Sublist w.isolate.posted := by
    rw [World.seen, ← Option.toList_some, ← hm, ← List.take_add_one]
    exact List.take_sublist ..
  rw [Posted.asks_action, ← started_concat]
  exact h.starting.nodup.sublist (hseen.filterMap _)

/-- It starts a stream that no message before it has started. -/
theorem Joined.starts_fresh (h : Joined U w) {m : Posted} (hm : w.isolate.posted[w.taken]? = some m)
    (a : Answers) : ∀ stream ∈ m.starts, stream ∉ started w.seen := by
  intro stream hstream hmem
  have hnodup := h.fresh hm a
  rw [Posted.asks_action] at hnodup
  exact (List.nodup_append.mp hnodup).2.2 stream hmem stream (Option.mem_toList.mpr hstream) rfl

theorem Work.asks_action (work : Work) : work.action.asks = none := by cases work <;> rfl

theorem Work.said_action (work : Work) : work.action.said = none := by cases work <;> rfl

theorem Joined.again (h : Joined U w) (work : Work) :
    (started w.seen ++ work.action.asks.toList).Nodup := by
  rw [work.asks_action, Option.toList_none, List.append_nil, World.seen]
  exact h.starting.nodup.sublist ((List.take_sublist ..).filterMap _)

theorem creditsIn_concat (messages : List Posted) (m : Posted) :
    creditsIn stream (messages ++ [m]) = creditsIn stream messages +
      (m.isCreditOf stream).toNat := by
  cases h : m.isCreditOf stream <;> simp [creditsIn, h]

theorem Sends.tokensOf {t : NativeWorker} {n : ℕ} (h : Worker.Sends stream n w.worker t) :
    Worker.tokensOf stream t.messages = Worker.tokensOf stream w.worker.messages + n := by
  obtain ⟨more, hmore, rfl⟩ := h
  rw [hmore, Worker.tokensOf_append]

/-- A turn keeps it. -/
theorem Joined.step {turn : Turn Answers Work} (h : Joined U w)
    (hU : ∀ stream, turn = .main (.call (.cancel stream)) → U stream)
    (ht : Party.Step (nativeParty rt) w turn w') : Joined U w' := by
  obtain ⟨hfit, hlater⟩ := h.fit.step hU ht
  -- the worker takes nothing
  have haside {s : Isolate} (hposted : w.isolate.posted <+: s.posted) (hstarting : s.Starting)
      {read : ℕ} (hfit : Party.Fit U { w with isolate := s, read := read }) :
      Joined U { w with isolate := s, read := read } := by
    refine ⟨hfit, hstarting, ?_⟩
    rw [h.seen_eq hposted read]
    exact h.sound
  cases ht with
  | @main a s hother hs =>
    have hchange := h.fit.sound.change h.fit.ledger.nodup hother hs
    exact haside hchange.grows.posted (h.starting.step h.fit.sound hlater hs) hfit
  | @deliver m hm hframe hports =>
    have hstep : w.isolate.step (.receive m) = some (w.isolate.receive m) := by
      rw [Isolate.step, if_pos (by simp [hframe, hports])]
    obtain ⟨more, hmore, -⟩ := (h.fit.sound.received hframe m).posted
    exact haside ⟨more, hmore.symm⟩ (h.starting.step h.fit.sound hlater hstep) hfit
  | @take how m hm =>
    have hsound := @Worker.Sound.turn rt _ _ h.sound (m.action how) (h.fresh hm how)
    rw [Posted.asks_action, ← started_concat] at hsound
    refine ⟨hfit, h.starting, ?_⟩
    rw [World.seen_take hm]
    exact hsound
  | act work =>
    have hsound := @Worker.Sound.turn rt _ _ h.sound work.action (h.again work)
    rw [work.asks_action, Option.toList_none, List.append_nil] at hsound
    exact ⟨hfit, h.starting, hsound⟩

theorem Accounted.step {turn : Turn Answers Work} (h : Accounted charge stream pauses w)
    (hw : Joined U w) (htimely : charge = 0 → turn.Timely stream w)
    (ht : Party.Step (nativeParty rt) w turn w') :
    Accounted charge stream (pauses + turn.pausesOf stream) w' := by
  -- the worker takes nothing
  have haside {s : Isolate} (hposted : w.isolate.posted <+: s.posted) {read pauses' : ℕ}
      (hpaying : s.Paying charge stream pauses') :
      Accounted charge stream pauses' { w with isolate := s, read := read } := by
    refine ⟨hpaying, ?_⟩
    rw [hw.seen_eq hposted read]
    exact h.metered
  cases ht with
  | @main a s hother hs =>
    have hchange := hw.fit.sound.change hw.fit.ledger.nodup hother hs
    exact haside hchange.grows.posted (h.paying.step hw.fit.sound htimely hs)
  | @deliver m hm hframe hports =>
    obtain ⟨more, hmore, -⟩ := (hw.fit.sound.received hframe m).posted
    exact haside ⟨more, hmore.symm⟩ (h.paying.receive hw.fit.sound hframe m)
  | @take how m hm =>
    obtain ⟨n, hsends, hmetered⟩ :=
      @Worker.Metered.turn rt _ _ _ _ _ h.metered hw.sound (m.action how) (hw.fresh hm how)
    rw [Posted.asks_action, ← started_concat, Posted.credits_action, ← creditsIn_concat] at hmetered
    refine ⟨h.paying, ?_⟩
    rw [World.seen_take hm,
      show Worker.tokensOf stream ((nativeParty rt).take w.worker how m).messages
      = _ from Sends.tokensOf hsends]
    exact hmetered
  | act work =>
    obtain ⟨n, hsends, hmetered⟩ :=
      @Worker.Metered.turn rt _ _ _ _ _ h.metered hw.sound work.action (hw.again work)
    rw [work.asks_action, Option.toList_none, List.append_nil, work.said_action] at hmetered
    refine ⟨h.paying, ?_⟩
    rw [show Worker.tokensOf stream ((nativeParty rt).act w.worker work).messages = _ from
      Sends.tokensOf hsends]
    exact hmetered

def pausesIn {α β : Type} (stream : ℕ) (turns : List (Turn α β)) : ℕ :=
  (turns.map (Turn.pausesOf stream)).sum

theorem Joined.exec {turns : List (Turn Answers Work)} (h : Joined U w)
    (ha : Accounted charge stream pauses w) (hU : ∀ stream, Party.Cancels turns stream → U stream)
    (hm : charge = 0 → (nativeParty rt).system.Meets (Turn.Timely stream) w turns)
    (ht : (nativeParty rt).system.exec w turns = some w') :
    Joined U w' ∧ Accounted charge stream (pauses + pausesIn stream turns) w' := by
  induction turns generalizing w pauses with
  | nil =>
    obtain rfl : w = w' := by simpa using ht
    exact ⟨h, ha⟩
  | cons turn turns ih =>
    obtain ⟨v, hv, ht⟩ := by simpa only [System.exec_cons, Option.bind_eq_some_iff] using ht
    have hstep := Party.step_cases hv
    have hjoined := h.step (fun stream heq ↦ hU stream (by simp [Party.Cancels, heq])) hstep
    have hlast := ih hjoined (ha.step h (fun hcharge ↦ (hm hcharge).1) hstep)
      (fun stream hc ↦ hU stream (List.mem_cons_of_mem _ hc))
      (fun hcharge ↦ (hm hcharge).2 v hv) ht
    rw [pausesIn, List.map_cons, List.sum_cons, ← Nat.add_assoc]
    exact hlast

/-- The native side still works for the stream, and nobody has cancelled it. -/
def Streaming (s : Worker.State) (stream : ℕ) : Prop :=
  stream ∈ s.operations ∧ (s.op stream).cancelRequested = false ∧ s.isFinal stream = false

instance (s : Worker.State) (stream : ℕ) : Decidable (Streaming s stream) :=
  inferInstanceAs (Decidable (_ ∧ _ ∧ _))

theorem creditsIn_take_le (n : ℕ) (messages : List Posted) :
    creditsIn stream (messages.take n) ≤ creditsIn stream messages :=
  (List.take_sublist n messages).countP_le

/-- As long as the native side works for a stream, the worker has sent at most
one token more than the listener has got, and one more for each pause that was
asked for; after that, at most what the queue of the bridge holds. -/
theorem delivery_window (rt : Worker.Runtime) {turns : List (Turn Answers Work)}
    {w : World NativeWorker} (ht : (nativeParty rt).system.run turns = some w) (stream : ℕ) :
    (Streaming w.worker.state stream → Worker.tokensOf stream w.worker.messages ≤
      (w.isolate.consumer stream).heard + pausesIn stream turns + 1) ∧
    Worker.tokensOf stream w.worker.messages ≤
      (w.isolate.consumer stream).heard + pausesIn stream turns + Bridge.kMaxEvents := by
  have hfirst : Accounted 1 stream 0 (nativeParty rt).system.init := accounted_init
  have haccounted := (joined_init.exec (U := Party.Cancels turns) hfirst (fun _ hc ↦ hc)
    (fun h ↦ absurd h one_ne_zero) ht).2
  rw [Nat.zero_add] at haccounted
  have hpaid := haccounted.paying.paid.law
  rw [Nat.one_mul, Nat.one_mul] at hpaid
  have htaken : creditsIn stream w.seen ≤ creditsIn stream w.isolate.posted := creditsIn_take_le ..
  refine ⟨fun ⟨hlive, huncancelled, hfinal⟩ ↦ ?_, ?_⟩
  · have hflow := haccounted.metered.flow hlive huncancelled hfinal
    omega
  · have hmost := haccounted.metered.most
    omega

namespace Scenario

open Worker.Scenario (runtime loads inspects opens starts fits)

def answers : Answers := ⟨loads, inspects, opens, starts, fits, ⟨true, true, [], []⟩⟩

/-- A raw session is opened and asked. -/
def asked : List (Turn Answers Work) :=
  [.main (.call (.request (.loadEngine { modelPath := "model.litertlm" }))),
    .main (.call (.request (.createSession 1 { applyPromptTemplate := false } [] false))),
    .main (.call (.stream 1 (.contents [.text "question"]))), .main (.call (.listen 3)),
    .take answers, .take answers, .take answers]

def chunk (text : Bridge.CString) : List (Turn Answers Work) :=
  [.act (.callback ⟨1, some ⟨some text, none, false⟩, []⟩), .act (.tick fun _ ↦ Worker.noAnswers)]

def begun : List (Turn Answers Work) := asked ++ chunk ⟨[97], by decide⟩

def hasty : List (Turn Answers Work) :=
  begun ++
    [.main (.call (.pause 3)), .main (.call (.resume 3)), .take answers] ++ chunk ⟨[98], by decide⟩

end Scenario

/-- A pause lets a second token through. -/
theorem delivery_window_hasty : ∃ w,
    (nativeParty Worker.Scenario.runtime).system.run Scenario.hasty = some w ∧
    Streaming w.worker.state 3 ∧ Worker.tokensOf 3 w.worker.messages = 2 ∧
    (w.isolate.consumer 3).heard = 0 ∧ Worker.tokensOf 3 w.worker.messages ≤
      (w.isolate.consumer 3).heard + pausesIn 3 Scenario.hasty + 1 := by
  have hrun : (((nativeParty Worker.Scenario.runtime).system.run Scenario.hasty).map fun w ↦
      (decide (Streaming w.worker.state 3), Worker.tokensOf 3 w.worker.messages,
        (w.isolate.consumer 3).heard)) = some (true, 2, 0) := by
    decide +kernel
  obtain ⟨w, hw, hresult⟩ := Option.map_eq_some_iff.mp hrun
  obtain ⟨hstreaming, htokens, hheard⟩ := by simpa only [Prod.mk.injEq,
    decide_eq_true_eq] using hresult
  exact ⟨w, hw, hstreaming, htokens, hheard,
    (delivery_window Worker.Scenario.runtime hw 3).1 hstreaming⟩

end LibLitertLm.Backend
