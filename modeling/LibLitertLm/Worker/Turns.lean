import LibLitertLm.Worker.Launching

namespace LibLitertLm.Worker

open Code

variable {rt : Runtime} {harmless : Prop} {w₀ w t : NativeWorker}

def Command.isPlain : Command → Bool
  | .generate .. | .testCrash | .close => false
  | _ => true

theorem Reached.cancelFound (h : Reached rt harmless w₀ w) (streamId : Option ℕ) :
    Post (do
      let op ← findOperation streamId
      onSome op fun stream ↦ cancel stream false) w fun _ t ↦ Reached rt harmless w₀ t := by
  rw [findOperation, post_read_bind]
  cases hop : streamId.filter (· ∈ w.state.operations) with
  | none => exact h
  | some stream =>
    have hstream : stream ∈ w.state.operations := by
      simpa using (Option.filter_eq_some_iff.mp hop).2
    have hlive : Live rt harmless w₀ stream (w.state.op stream).native w.state.operations w :=
      ⟨h, rfl, rfl⟩
    exact (Live.cancel hstream false w hlive).mono fun _ _ ht ↦ ht.reached

theorem Quiet.setCredit (s : State) (stream : ℕ) :
    Quiet s { s with op := Function.update s.op stream { s.op stream with credit := true } } := by
  refine { Quiet.refl s with op := fun t ↦ ?_ }
  by_cases h : t = stream
  · simp [h, Op.core]
  · simp [h]

theorem Reached.budgetCommand (h : Reached rt harmless w₀ w) (r : ℕ) (input : Input) (reserve : ℤ)
    (a : BudgetAnswers) :
    Post (serve rt (.budget r input reserve a)) w fun _ t ↦ Reached rt harmless w₀ t := by
  rw [serve, post_bind]
  refine post_findSession (fun hr ↦ ?_) h
  dsimp only
  split_ifs with hbusy
  · exact h
  · refine Still.post_bind (still_dart _) (fun messages ↦ ?_) fun _ ↦ h
    obtain ⟨q, hq, -⟩ := h.1.sessionEngine r hr
    have hready : Ready rt harmless w₀ r q w := ⟨h, hr, by simpa using hbusy, hq⟩
    refine (post_bind ..).mpr ((hready.budget messages reserve a).mono fun result t ht ↦ ?_)
    cases result <;> exact ht.1.1

theorem Reached.serve (h : Reached rt harmless w₀ w) {command : Command}
    (hplain : command.isPlain = true) :
    Post (serve rt command) w fun _ t ↦ Reached rt harmless w₀ t := by
  cases command with
  | generate | testCrash | close => cases hplain
  | loadEngine config a => exact (Reached.loadEngine config a).map _ w h
  | inspectModel path a =>
    exact (Reached.keeps_scratch fun b _ ↦ Scratch.keeps_inspect path a).map _ w h
  | engineInfo engineId => exact (post_bind ..).mpr (post_findEngine (fun _ _ ↦ h) fun _ ↦ h)
  | createSession engineId params initial conversation a =>
    exact (Reached.createSession engineId params initial conversation a).map _ w h
  | credit stream =>
    rw [Worker.serve, post_read_bind, when]
    split_ifs
    · refine (post_bind ..).mpr ((post_update _).mpr ?_)
      exact h.quiet rfl (.setCredit w.state stream)
    · exact h
  | cancelStream stream =>
    refine (post_assoc _).mpr ((post_bind ..).mpr ((h.cancelFound (some stream)).mono ?_))
    intro result t ht
    cases result <;> exact ht
  | cancelSession r =>
    rw [Worker.serve, post_read_bind]
    refine (post_assoc _).mpr ((post_bind ..).mpr ((h.cancelFound _).mono fun result t ht ↦ ?_))
    cases result <;> exact ht
  | disposeSession r =>
    refine (post_bind ..).mpr ((h.disposeSession r).mono fun result t hresult ↦ ?_)
    obtain ⟨hok, ht, -⟩ := hresult
    subst hok
    exact ht
  | disposeEngine id =>
    refine (post_bind ..).mpr ((h.disposeEngine id).mono fun result t hresult ↦ ?_)
    obtain ⟨hok, ht, -⟩ := hresult
    subst hok
    exact ht
  | budget r input reserve a => exact h.budgetCommand r input reserve a
  | tokenize id text a =>
    refine (post_bind ..).mpr (post_findEngine (fun engine he ↦ ?_) fun _ ↦ h)
    have hlive := h.1.engineLive _ _ (mem_pointers he)
    refine (post_bind ..).mpr ((Scratch.keeps_tokenize hlive a w h.1.scratch).mono
      fun result t ht ↦ ?_)
    cases result <;> exact h.scratch ht
  | metrics r =>
    refine (post_bind ..).mpr (post_findSession (fun hr ↦ ?_) h)
    dsimp only
    split_ifs <;> exact h

structure Empty (s : State) : Prop where
  engines : s.engines = []
  sessions : s.sessions = []
  operations : s.operations = []
  timer : s.timer = false

def State.deaf (s : State) : Bool := s.fatalExit || s.commandsClosed

inductive Turn (rt : Runtime) (harmless : Prop) (w : NativeWorker) :
    Action → NativeWorker → Prop
  | deaf {request : Option ℕ} {command : Command} (h : w.state.deaf = true) :
    Turn rt harmless w (.command request command) w
  | plain {request : Option ℕ} {command : Command} {t : NativeWorker}
    (hd : w.state.deaf = false) (hplain : command.isPlain = true) (h : Moves rt harmless w t) :
    Turn rt harmless w (.command request command) t
  | generate {request : Option ℕ} {stream r : ℕ} {input : Input} {a : GenerateAnswers}
    {t : NativeWorker} (hd : w.state.deaf = false) (h : Served rt harmless w stream r t) :
    Turn rt harmless w (.command request (.generate stream r input a)) t
  | crash {request : Option ℕ} {t : NativeWorker} (hd : w.state.deaf = false)
    (htesting : rt.testing = true)
    (h : Moves rt harmless ⟨{ w.state with fatalExit := true }, w.sent⟩ t) (ht : Empty t.state) :
    Turn rt harmless w (.command request .testCrash) t
  | refuse {request : Option ℕ} {t : NativeWorker} (hd : w.state.deaf = false)
    (htesting : rt.testing = false) (h : Moves rt harmless w t) :
    Turn rt harmless w (.command request .testCrash) t
  | close {request : Option ℕ} {t : NativeWorker} (hd : w.state.deaf = false)
    (h : Moves rt harmless w t) (ht : Empty t.state) :
    Turn rt harmless w (.command request .close)
      ⟨{ t.state with commandsClosed := true }, if request.isSome then
        t.sent ++ [(.reply request (.ok .nothing), { t.state with commandsClosed := true })]
        else t.sent⟩
  | tick {answers : ℕ → PumpAnswers} {t : NativeWorker} (h : Moves rt harmless w t)
    (hidle : w.state.timer = false → t = w) : Turn rt harmless w (.tick answers) t
  | callback (c : Callback) : Turn rt harmless w (.callback c)
      ⟨{ w.state with native := w.state.native.callback c }, w.sent⟩

def Harmless (rt : Runtime) (w : NativeWorker) : Action → Prop
  | .command _ (.generate _ r input a) => GenerateHarmless rt w r input a
  | .tick answers => ∀ stream, Honest rt (answers stream)
  | _ => True

theorem Reached.reply (h : Reached rt harmless w₀ w) (request : Option ℕ)
    (result : Except Failure Value) :
    Reached rt harmless w₀ ⟨w.state, w.sent ++ [(.reply request result, w.state)]⟩ :=
  h.move (.reply w request result)

theorem post_send (message : Outgoing) {Q : Except Thrown Unit → NativeWorker → Prop} :
    Post (send message) w Q ↔ Q (.ok ()) ⟨w.state, w.sent ++ [(message, w.state)]⟩ := Iff.rfl

def answerFailure (rt : Runtime) (w : NativeWorker) (request : Option ℕ) (command : Command)
    (e : Thrown) : NativeWorker :=
  match command with
  | .generate stream _ _ _ => emit w.state w.sent stream (.error (e.toFailure rt))
  | _ => ⟨w.state, w.sent ++ [(.reply request (.error (e.toFailure rt)), w.state)]⟩

def answer (w : NativeWorker) (request : Option ℕ) (value : Option Value) : NativeWorker :=
  match value with
  | some value => ⟨w.state, if request.isSome then
      w.sent ++ [(.reply request (.ok value), w.state)] else w.sent⟩
  | none => w

theorem post_listen (hd : w.state.deaf = false) (request : Option ℕ) (command : Command)
    {Q : Except Thrown Unit → NativeWorker → Prop}
    (h : Post (serve rt command) w fun result t ↦ match result with
      | .ok value => Q (.ok ()) (answer t request value)
      | .error e => Q (.ok ()) (answerFailure rt t request command e)) :
    Post (listen rt request command) w Q := by
  rw [listen, post_read_bind, if_pos (by simpa [State.deaf] using hd)]
  refine (post_tryCatch _).mpr ((post_bind ..).mpr (h.mono fun result t ht ↦ ?_))
  match result with
  | .error e =>
    cases command with
    | generate stream r input a => exact (post_event ..).mpr ht
    | _ => exact (post_send _).mpr ht
  | .ok none => exact ht
  | .ok (some value) =>
    cases request with
    | none => exact ht
    | some request => exact (post_send _).mpr ht

theorem Reached.answer (h : Reached rt harmless w₀ w) (request : Option ℕ) (value : Option Value) :
    Reached rt harmless w₀ (answer w request value) := by
  cases value with
  | none => exact h
  | some value =>
    cases request with
    | none => exact h
    | some request => exact h.reply _ _

theorem Reached.answerFailure (h : Reached rt harmless w₀ w) (request : Option ℕ)
    {command : Command} (hstream : ∀ stream r input a, command ≠ .generate stream r input a)
    (e : Thrown) : Reached rt harmless w₀ (answerFailure rt w request command e) := by
  cases command with
  | generate stream r input a => exact absurd rfl (hstream stream r input a)
  | _ => exact h.reply _ _

theorem step_command (hw : Consistent w.state) (request : Option ℕ) (command : Command) :
    Turn rt (Harmless rt w (.command request command)) w (.command request command)
      (step rt w (.command request command)) := by
  have hself : Reached rt (Harmless rt w (.command request command)) w w := .refl hw
  cases hd : w.state.deaf with
  | true =>
    have hpost : Post (listen rt request command) w fun _ t ↦ t = w := by
      rw [listen, post_read_bind, show (w.state.fatalExit || w.state.commandsClosed) = true from hd]
      exact rfl
    rw [show step rt w (.command request command) = w from hpost]
    exact .deaf hd
  | false =>
    refine Post.mono (P := fun _ t ↦ Turn rt (Harmless rt w (.command request command)) w
      (.command request command) t) ?_ fun _ _ ht ↦ ht
    refine post_listen hd request command ?_
    cases hplain : command.isPlain with
    | true =>
      refine (hself.serve hplain).mono fun result t ht ↦ ?_
      cases result with
      | ok value => exact .plain hd hplain (ht.answer request value).2
      | error e =>
        refine .plain hd hplain (ht.answerFailure request (fun stream r input a ↦ ?_) e).2
        rintro rfl
        cases hplain
    | false =>
      cases command with
      | generate stream r input a =>
        refine (post_bind ..).mpr ((hw.generate stream r input a fun hg ↦ hg).mono
          fun result t ht ↦ ?_)
        cases result <;> exact .generate hd ht
      | testCrash =>
        rw [serve]
        split_ifs with htesting
        · have htesting : rt.testing = false := by simpa using htesting
          exact .refuse hd htesting (hself.reply _ _).2
        · have htesting : rt.testing = true := by simpa using htesting
          have hcrash : Reached rt (Harmless rt w (.command request .testCrash))
              ⟨{ w.state with fatalExit := true }, w.sent⟩
              ⟨{ w.state with fatalExit := true }, w.sent⟩ := .refl { hw with }
          refine (post_bind ..).mpr ((post_update _).mpr ((post_bind ..).mpr ?_))
          refine hcrash.closeAll.mono fun result t ⟨hok, ht, he, hs, ho, htimer⟩ ↦ ?_
          subst hok
          exact .crash hd htesting ht.2 ⟨he, hs, ho, htimer⟩
      | close =>
        refine (post_bind ..).mpr (hself.closeAll.mono
          fun result t ⟨hok, ht, he, hs, ho, htimer⟩ ↦ ?_)
        subst hok
        exact (post_bind ..).mpr ((post_update _).mpr (.close hd ht.2 ⟨he, hs, ho, htimer⟩))
      | _ => cases hplain

theorem step_turn (hw : Consistent w.state) (a : Action) :
    Turn rt (Harmless rt w a) w a (step rt w a) := by
  cases a with
  | callback c => exact .callback c
  | tick answers =>
    have hpost : Post (turn rt (.tick answers)) w fun _ t ↦
        Reached rt (Harmless rt w (.tick answers)) w t ∧ (w.state.timer = false → t = w) := by
      rw [turn, post_read_bind]
      split_ifs with htimer
      · refine ((Reached.refl hw).pump answers fun hg ↦ hg).mono fun result t ⟨_, ht⟩ ↦ ⟨ht, ?_⟩
        simp [htimer]
      · exact ⟨.refl hw, fun _ ↦ rfl⟩
    exact .tick hpost.1.2 hpost.2
  | command request command => exact step_command hw request command

end LibLitertLm.Worker
