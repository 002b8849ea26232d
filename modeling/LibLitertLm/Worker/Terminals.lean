import LibLitertLm.Library.Machine
import LibLitertLm.Worker.Streams

namespace LibLitertLm.Worker

def Action.asks : Action → Option ℕ
  | .command _ (.generate stream _ _ _) => some stream
  | _ => none

def Action.isCrash : Action → Bool
  | .command _ .testCrash => true
  | _ => false

variable {rt : Runtime} {harmless : Prop} {w t : NativeWorker} {stream r : ℕ}

def worker (rt : Runtime) : Machine NativeWorker Action Unit := ⟨{}, fun w a ↦ (step rt w a, [])⟩

theorem worker_state (actions : List Action) : (worker rt).state actions = run rt actions := by
  induction actions using List.reverseRecOn with
  | nil => rfl
  | append_singleton actions a ih =>
    rw [Machine.state_concat, run_concat, ih]
    rfl

/-- The action is a `generate` command that the worker still listens to. -/
def Serves (stream r : ℕ) (w : NativeWorker) (a : Action) : Prop :=
  w.state.deaf = false ∧
    ∃ request input answers, a = .command request (.generate stream r input answers)

def Processed (rt : Runtime) (actions : List Action) (stream r : ℕ) : Prop :=
  (worker rt).Occurs (Serves stream r) actions

theorem processed_concat (actions : List Action) (a : Action) :
    Processed rt (actions ++ [a]) stream r ↔
      Processed rt actions stream r ∨ Serves stream r (run rt actions) a := by
  rw [Processed, Machine.occurs_concat, worker_state, Processed]

theorem Processed.mem {actions : List Action} (h : Processed rt actions stream r) :
    stream ∈ actions.filterMap Action.asks := by
  obtain ⟨before, a, after, rfl, -, request, input, answers, rfl⟩ := h
  simp [Action.asks]

/-- Only a crash sets `fatalExit`, and nothing resets it. -/
theorem Turn.fatalExit {a : Action} (h : Turn rt harmless w a t) :
    (t.state.fatalExit = false → w.state.fatalExit = false) ∧
      (a.isCrash = false → t.state.fatalExit = w.state.fatalExit) := by
  have hsame (h : t.state.flags = w.state.flags) :
      (t.state.fatalExit = false → w.state.fatalExit = false) ∧
        (a.isCrash = false → t.state.fatalExit = w.state.fatalExit) := by
    have hfatal : t.state.fatalExit = w.state.fatalExit := congrArg Prod.fst h
    exact ⟨fun hf ↦ hfatal ▸ hf, fun _ ↦ hfatal⟩
  cases h with
  | deaf => exact hsame rfl
  | plain _ _ h => exact hsame h.flags
  | generate _ h => exact hsame h.flags
  | crash _ _ h =>
    have hfatal : t.state.fatalExit = true := congrArg Prod.fst h.flags
    refine ⟨fun hf ↦ ?_, fun ha ↦ by cases ha⟩
    cases hfatal.symm.trans hf
  | refuse _ _ h => exact hsame h.flags
  | close _ h =>
    have hfatal := congrArg Prod.fst h.flags
    exact ⟨fun hf ↦ hfatal.symm.trans hf, fun _ ↦ hfatal⟩
  | tick h => exact hsame h.flags
  | callback => exact hsame rfl

/-- A turn serves the stream it is about and leaves the others where they are,
or lets them go on. -/
theorem Turn.status {a : Action} (h : Turn rt harmless w a t) (hw : Consistent w.state)
    (ht : t.state.fatalExit = false) :
    (∀ stream session, (∀ r, ¬ Serves stream r w a) → Status stream session w →
        Status stream session t) ∧
      ∀ stream r, Serves stream r w a → Unknown stream w → Status stream (some r) t := by
  have hf : w.state.fatalExit = false := h.fatalExit.1 ht
  have hmoves {t : NativeWorker} (h : Moves rt harmless w t) : t.state.fatalExit = false :=
    (congrArg Prod.fst h.flags).trans hf
  cases h with
  | deaf hd =>
    refine ⟨fun _ _ _ hs ↦ hs, fun stream r hserves ↦ ?_⟩
    rw [hserves.1] at hd
    cases hd
  | plain hd hplain h =>
    refine ⟨fun _ _ _ hs ↦ .moves h hw hf hs, fun stream r hserves ↦ ?_⟩
    obtain ⟨-, request, input, answers, heq⟩ := hserves
    obtain ⟨-, rfl⟩ := Action.command.inj heq
    cases hplain
  | @generate request stream r input answers t hd h =>
    obtain ⟨u, v, hu, hcons, -, hgenerated, hv⟩ := h
    have hfu := hmoves hu
    have hfv : v.state.fatalExit = false := (congrArg Prod.fst hgenerated.flags).trans hfu
    have hcv := hgenerated.consistent hcons
    refine ⟨fun other session hother hs ↦ ?_, fun other r' hserves hs ↦ ?_⟩
    · have hne : stream ≠ other := by
        rintro rfl
        exact hother r ⟨hd, request, input, answers, rfl⟩
      exact .moves hv.2 hcv hfv ((Status.moves hu hw hf hs).kept (hgenerated.kept hne))
    · obtain ⟨-, request', input', answers', heq⟩ := hserves
      obtain ⟨-, heq⟩ := Action.command.inj heq
      obtain ⟨rfl, rfl, -⟩ := Command.generate.inj heq
      have hs' : Status stream none u := .moves hu hw hf hs
      exact .moves hv.2 hcv hfv (hgenerated.status hcons hfu hs')
  | crash _ _ h =>
    cases (show t.state.fatalExit = true from congrArg Prod.fst h.flags).symm.trans ht
  | refuse _ _ h =>
    refine ⟨fun _ _ _ hs ↦ .moves h hw hf hs, fun stream r hserves ↦ ?_⟩
    obtain ⟨-, request, input, answers, heq⟩ := hserves
    cases heq
  | @close request t hd h ht =>
    refine ⟨fun stream session _ hs ↦ ?_, fun stream r hserves ↦ ?_⟩
    · refine (Status.moves h hw hf hs).kept (.silent Iff.rfl ⟨rfl, rfl, rfl⟩ (fun _ h ↦ h) rfl ?_)
      cases request <;> simp [eventsOf, sentTo]
    · obtain ⟨-, request, input, answers, heq⟩ := hserves
      cases heq
  | tick h =>
    refine ⟨fun _ _ _ hs ↦ .moves h hw hf hs, fun stream r hserves ↦ ?_⟩
    obtain ⟨-, request, input, answers, heq⟩ := hserves
    cases heq
  | callback c =>
    refine ⟨fun _ _ _ hs ↦ .moves (.single (.callback w c) : Moves rt harmless w _) hw hf hs,
      fun stream r hserves ↦ ?_⟩
    obtain ⟨-, request, input, answers, heq⟩ := hserves
    cases heq

theorem unknown_init (stream : ℕ) : Unknown stream {} := by
  constructor <;> simp [eventsOf]

/-- Every stream is where its `generate` command, if any, has brought it. -/
theorem run_status {actions : List Action} (hdistinct : (actions.filterMap Action.asks).Nodup)
    (hf : (run rt actions).state.fatalExit = false) (stream : ℕ) :
    ((∀ r, ¬ Processed rt actions stream r) → Unknown stream (run rt actions)) ∧
      ∀ r, Processed rt actions stream r → Status stream (some r) (run rt actions) := by
  induction actions using List.reverseRecOn generalizing stream with
  | nil =>
    refine ⟨fun _ ↦ unknown_init stream, fun r h ↦ ?_⟩
    exact absurd h ((worker rt).not_occurs_nil _)
  | append_singleton actions a ih =>
    rw [List.filterMap_append, List.nodup_append] at hdistinct
    obtain ⟨hdistinct, -, hnew⟩ := hdistinct
    simp only [run_concat, processed_concat] at hf ⊢
    have hw : Consistent (run rt actions).state := run_consistent actions
    have hturn : Turn rt (Harmless rt (run rt actions) a) (run rt actions) a
        (step rt (run rt actions) a) := step_turn hw a
    obtain ⟨hunknown, hknown⟩ := ih hdistinct (hturn.fatalExit.1 hf) stream
    obtain ⟨hothers, hown⟩ := hturn.status hw hf
    refine ⟨fun hnone ↦ ?_, fun r hr ↦ ?_⟩
    · refine hothers stream none (fun r h ↦ hnone r (.inr h)) (hunknown fun r h ↦ hnone r (.inl h))
    · rcases hr with hr | hr
      · refine hothers stream (some r) (fun r' h ↦ ?_) (hknown r hr)
        obtain ⟨-, request, input, answers, rfl⟩ := h
        exact hnew stream hr.mem stream (by simp [Action.asks]) rfl
      · refine hown stream r hr (hunknown fun r' h ↦ ?_)
        obtain ⟨-, request, input, answers, rfl⟩ := hr
        exact hnew stream h.mem stream (by simp [Action.asks]) rfl

theorem run_alive {actions : List Action} (hcrash : ∀ a ∈ actions, Action.isCrash a = false) :
    (run rt actions).state.fatalExit = false := by
  induction actions using List.reverseRecOn with
  | nil => rfl
  | append_singleton actions a ih =>
    rw [run_concat, (step_turn (run_consistent actions) a).fatalExit.2 (hcrash a (by simp))]
    exact ih fun b hb ↦ hcrash b (by simp [hb])

/-- A stream whose command is served has sent tokens only as long as its
operation is live. Once the operation is gone a single other event stands behind
the tokens, and it was sent when all that belongs to the stream was released. -/
theorem stream_protocol (rt : Runtime) (actions : List Action)
    (hdistinct : (actions.filterMap Action.asks).Nodup)
    (hcrash : ∀ a ∈ actions, Action.isCrash a = false) (stream r : ℕ)
    (hserved : Processed rt actions stream r) :
    ∃ tokens, (∀ e ∈ tokens, e.1.isToken = true) ∧
      (stream ∈ (run rt actions).state.operations ∧
          eventsOf stream (run rt actions).sent = tokens ∨
        stream ∉ (run rt actions).state.operations ∧
          ∃ e s, eventsOf stream (run rt actions).sent = tokens ++ [(e, s)] ∧
            Released stream r e s) := by
  rcases (run_status hdistinct (run_alive hcrash) stream).2 r hserved with hrunning | hfinished
  · exact ⟨_, hrunning.tokens, .inl ⟨hrunning.live, rfl⟩⟩
  · obtain ⟨tokens, e, s, hevents, htokens, hreleased, -⟩ := hfinished.events
    exact ⟨tokens, htokens, .inr ⟨hfinished.gone, e, s, hevents, hreleased⟩⟩

namespace Scenario

def runtime : Runtime := ⟨false, fun _ ↦ none, fun _ ↦ "", fun _ ↦ none, fun _ ↦ ""⟩

def opens : OpenAnswers := ⟨true, true, true, true, true, []⟩

def fits : BudgetAnswers := ⟨opens, opens, 0, true, 1, [], []⟩

def inspects : InspectAnswers :=
  { exists? := true, path := true, file := true, text := ⟨true, [1]⟩, vision := ⟨true, []⟩,
    audio := ⟨true, []⟩, maximum := 4096, hash := some "", dynamicContext := true,
    minimumRuntimeVersion := [], lastError := [] }

def loads : LoadAnswers :=
  ⟨inspects, true, true, true, true, true, true, true, true, 4096, []⟩

def starts : GenerateAnswers :=
  { openAnswers := opens, budget := fits, rebuild := opens, skip := 0, message := true,
    inputData := true, array := true, status := 0, startError := none, lastError := [],
    pump := fun _ ↦ noAnswers }

def opened (params : GenerationParams) (conversation : Bool) : List Action :=
  [.command (some 1) (.loadEngine { modelPath := "model.litertlm" } loads),
    .command (some 2) (.createSession 1 params [] conversation opens)]

def ask (stream : ℕ) : Action :=
  .command none (.generate stream 1 (.contents [.text "question"]) starts)

def twoAsked : List Action := opened {} true ++ [ask 3, ask 4]

end Scenario

theorem stream_protocol_twoAsked : ∃ tokens, (∀ e ∈ tokens, e.1.isToken = true) ∧
    (4 ∈ (run Scenario.runtime Scenario.twoAsked).state.operations ∧
        eventsOf 4 (run Scenario.runtime Scenario.twoAsked).sent = tokens ∨
      4 ∉ (run Scenario.runtime Scenario.twoAsked).state.operations ∧
        ∃ e s, eventsOf 4 (run Scenario.runtime Scenario.twoAsked).sent = tokens ++ [(e, s)] ∧
          Released 4 1 e s) :=
  stream_protocol Scenario.runtime Scenario.twoAsked (by decide)
    (by simp [Scenario.twoAsked, Scenario.opened, Scenario.ask, Action.isCrash]) 4 1
    ⟨Scenario.opened {} true ++ [Scenario.ask 3], Scenario.ask 4, [],
      rfl, by decide +kernel, _, _, _, rfl⟩

/-- A request that is refused as busy is answered while the session names the
stream that is running. -/
theorem busy_keeps_streamId :
    Processed Scenario.runtime Scenario.twoAsked 4 1 ∧
      ∃ e s, eventsOf 4 (run Scenario.runtime Scenario.twoAsked).sent = [(e, s)] ∧
        e = .error (.busy "Only one generation may run per session") ∧
        (s.session 1).streamId = some 3 := by
  refine ⟨⟨Scenario.opened {} true ++ [Scenario.ask 3], Scenario.ask 4, [], rfl, by decide +kernel,
    _, _, _, rfl⟩, ?_⟩
  have hevents : (eventsOf 4 (run Scenario.runtime Scenario.twoAsked).sent).map
      (fun x ↦ (x.1, (x.2.session 1).streamId)) =
        [(.error (.busy "Only one generation may run per session"), some 3)] := by
    decide +kernel
  obtain ⟨⟨e, s⟩, hsent, hes⟩ := List.map_eq_singleton_iff.mp hevents
  obtain ⟨he, hs⟩ := Prod.mk.inj hes
  exact ⟨e, s, hsent, he, hs⟩

end LibLitertLm.Worker
