import LibLitertLm.Worker.Registration

namespace LibLitertLm.Worker

open Code

variable (rt : Runtime)

def rest : M Unit := do
  let operations ← read State.operations
  if operations.isEmpty then update fun s ↦ { s with timer := false }

/-- What the event loop does, with `_pump` taken apart: one step for each operation. -/
inductive Step
  | command (request : Option ℕ) (command : Command)
  | serve (stream : ℕ) (answers : PumpAnswers)
  | rest
  | callback (callback : Callback)

def Step.turn : Step → M Unit
  | .command _ (.generate stream sessionId input a) => do
    let deaf ← read fun s ↦ s.fatalExit || s.commandsClosed
    if !deaf then
      tryCatch (submit rt stream sessionId input a) fun e ↦ event stream (.error (e.toFailure rt))
  | .command request other => listen rt request other
  | .serve stream answers => do
    let known ← read fun s ↦ s.operations.contains stream
    when known (pumpOne rt answers stream)
  | .rest => Worker.rest
  | .callback c => callbacks [c]

def Step.asks : Step → Option ℕ
  | .command _ (.generate stream _ _ _) => some stream
  | _ => none

def Step.said : Step → Option Command
  | .command _ c => some c
  | _ => none

def Action.said : Action → Option Command
  | .command _ c => some c
  | _ => none

def advance (w : NativeWorker) (s : Step) : NativeWorker := (s.turn rt w).2

def trace (steps : List Step) : NativeWorker := steps.foldl (advance rt) {}

def serves (streams : List ℕ) (a : ℕ → PumpAnswers) : List Step :=
  streams.map (fun stream ↦ .serve stream (a stream)) ++ [.rest]

variable {rt} {w t : NativeWorker} {stream r : ℕ} {harmless : Prop}

theorem trace_concat (steps : List Step) (s : Step) :
    trace rt (steps ++ [s]) = advance rt (trace rt steps) s := by
  simp [trace]

theorem trace_append (steps after : List Step) :
    trace rt (steps ++ after) = after.foldl (advance rt) (trace rt steps) := by
  simp [trace]

/-- Operations only come from a `generate` command. -/
theorem Move.operations (h : Move rt harmless w t) :
    ∀ stream ∈ t.state.operations, stream ∈ w.state.operations := by
  intro stream hstream
  cases h with
  | quiet h => exact h.operations ▸ hstream
  | rebuild _ _ _ hs => exact hs.streams.1 ▸ hstream
  | release _ hs => exact hs.unseen.operations ▸ (List.mem_filter.mp hstream).1
  | complete _ hs => exact hs.unseen.operations ▸ (List.mem_filter.mp hstream).1
  | _ => exact hstream

theorem Moves.operations (h : Moves rt harmless w t) :
    ∀ stream ∈ t.state.operations, stream ∈ w.state.operations := by
  induction h with
  | refl => exact fun _ h ↦ h
  | tail _ hmove ih => exact fun stream h ↦ ih stream (hmove.operations stream h)

theorem Generated.operations (h : Generated rt harmless stream r w t) :
    ∀ other ∈ t.state.operations, other ∈ w.state.operations ∨ other = stream := by
  have hlaunch (streams : List ℕ) (other : ℕ)
      (h : other ∈ if stream ∈ streams then streams else streams ++ [stream]) :
      other ∈ streams ∨ other = stream := by
    split_ifs at h
    · exact .inl h
    · simpa using h
  intro other hother
  cases h with
  | launch _ _ _ _ hs => exact hs.streams.1 ▸ hlaunch _ other hother
  | abort => exact hlaunch _ other (List.mem_filter.mp hother).1
  | refuse => exact .inl hother

theorem Served.operations (h : Served rt harmless w stream r t) :
    ∀ other ∈ t.state.operations, other ∈ w.state.operations ∨ other = stream := by
  obtain ⟨u, v, hu, -, -, hgenerated, hv⟩ := h
  intro other hother
  obtain hother | rfl := hgenerated.operations other (hv.2.operations other hother)
  · exact .inl (hu.operations other hother)
  · exact .inr rfl

structure Sound (asked : List ℕ) (w : NativeWorker) : Prop where
  consistent : Consistent w.state
  stopped : Stopped w.state
  tabled : Tabled (fun _ ↦ False) (fun _ ↦ False) w.state.tables
  asked : ∀ stream ∈ w.state.operations, stream ∈ asked

theorem serve_of_gone (h : stream ∉ w.state.operations) (a : PumpAnswers) :
    advance rt w (.serve stream a) = w := by
  have hpost : Post ((Step.serve stream a).turn rt) w fun _ t ↦ t = w := by
    rw [Step.turn, post_read_bind, when, if_neg (by simpa using h)]
    exact rfl
  exact hpost

theorem post_serve (h : stream ∈ w.state.operations) (a : PumpAnswers)
    {Q : Except Thrown Unit → NativeWorker → Prop} :
    Post ((Step.serve stream a).turn rt) w Q ↔ Post (pumpOne rt a stream) w Q := by
  rw [Step.turn, post_read_bind, when, if_pos (by simpa using h)]

theorem post_rest {Q : Except Thrown Unit → NativeWorker → Prop} :
    Post rest w Q ↔ Q (.ok ()) (if w.state.operations.isEmpty then
      { w with state := { w.state with timer := false } } else w) := by
  rw [rest, post_read_bind]
  split_ifs <;> rfl

theorem step_moves (hw : Consistent w.state) {s : Step}
    (hs : ∀ request command, s ≠ .command request command) :
    Moves rt False w (advance rt w s) := by
  have hself : Reached rt False w w := .refl hw
  cases s with
  | command request command => exact absurd rfl (hs request command)
  | callback c => exact .single (.callback w c)
  | rest =>
    have hpost : Post (Step.rest.turn rt) w fun _ t ↦ Moves rt False w t := by
      refine post_rest.mpr ?_
      split_ifs
      · exact .single (.quiet { Quiet.refl w.state with })
      · exact .refl
    exact hpost
  | serve stream a =>
    by_cases hstream : stream ∈ w.state.operations
    · refine ((post_serve hstream a).mpr (Live.pumpOne ⟨hself, rfl, rfl⟩ hstream False.elim)).mono
        (Q := fun _ t ↦ Moves rt False w t) fun _ t ht ↦ ht.2.1.2
    · rw [serve_of_gone hstream]

theorem Served.consistent (h : Served rt harmless w stream r t) : Consistent t.state := by
  obtain ⟨u, v, -, -, -, -, hv⟩ := h
  exact hv.1

theorem step_submit (hw : Consistent w.state) (hd : w.state.deaf = false) (request : Option ℕ)
    (stream r : ℕ) (input : Input) (a : GenerateAnswers) :
    Served rt False w stream r (advance rt w (.command request (.generate stream r input a))) := by
  have hpost : Post ((Step.command request (.generate stream r input a)).turn rt) w
      fun _ t ↦ Served rt False w stream r t := by
    rw [Step.turn, post_read_bind, if_pos (by simpa [State.deaf] using hd), post_tryCatch]
    refine (hw.submit stream r input a False.elim).mono fun result t ht ↦ ?_
    cases result with
    | ok => exact ht
    | error e => exact (post_event ..).mpr ht
  exact hpost

theorem Moves.stopped (h : Moves rt harmless w t) (hd : w.state.deaf = false) :
    Stopped t.state := by
  intro hdeaf
  rw [State.deaf_of_flags h.flags, hd] at hdeaf
  cases hdeaf

theorem listen_deaf (hd : w.state.deaf = true) (request : Option ℕ) (command : Command) :
    step rt w (.command request command) = w := by
  have hpost : Post (listen rt request command) w fun _ t ↦ t = w := by
    rw [listen, post_read_bind, show (w.state.fatalExit || w.state.commandsClosed) = true from hd]
    exact rfl
  exact hpost

theorem step_deaf (hd : w.state.deaf = true) (request : Option ℕ) (command : Command) :
    advance rt w (.command request command) = w := by
  have hlisten : Post (listen rt request command) w fun _ t ↦ t = w :=
    listen_deaf hd request command
  have hpost : Post ((Step.command request command).turn rt) w fun _ t ↦ t = w := by
    cases command with
    | generate stream r input a =>
      rw [Step.turn, post_read_bind,
        show (w.state.fatalExit || w.state.commandsClosed) = true from hd]
      exact rfl
    | _ => exact hlisten
  exact hpost

theorem step_command_eq {request : Option ℕ} {command : Command}
    (h : ∀ stream r input a, command ≠ .generate stream r input a) :
    advance rt w (.command request command) = step rt w (.command request command) := by
  cases command with
  | generate stream r input a => exact absurd rfl (h stream r input a)
  | _ => rfl

theorem Turn.operations {request : Option ℕ} {command : Command}
    (h : Turn rt harmless w (.command request command) t)
    (hs : ∀ stream r input a, command ≠ .generate stream r input a) :
    ∀ stream ∈ t.state.operations, stream ∈ w.state.operations := by
  cases h with
  | deaf => exact fun _ h ↦ h
  | plain _ _ h => exact h.operations
  | @generate _ stream r input a => exact absurd rfl (hs stream r input a)
  | crash _ _ h => exact h.operations
  | refuse _ _ h => exact h.operations
  | close _ h => exact h.operations

/-- A step makes an operation for the stream that it asks for, if any. -/
theorem Consistent.operations_advance (hw : Consistent w.state) (s : Step) :
    ∀ stream ∈ (advance rt w s).state.operations, stream ∈ w.state.operations ∨
      stream ∈ s.asks := by
  intro stream hstream
  cases s with
  | command request command =>
    cases hd : w.state.deaf with
    | true =>
      rw [step_deaf hd] at hstream
      exact .inl hstream
    | false =>
      by_cases hgenerate : ∃ stream r input a, command = .generate stream r input a
      · obtain ⟨other, r, input, a, rfl⟩ := hgenerate
        obtain hstream | rfl :=
          (step_submit hw hd request other r input a).operations stream hstream
        · exact .inl hstream
        · exact .inr rfl
      · have hother (stream r : ℕ) (input : Input) (a : GenerateAnswers) :
            command ≠ .generate stream r input a :=
          fun heq ↦ hgenerate ⟨stream, r, input, a, heq⟩
        rw [step_command_eq hother] at hstream
        exact .inl ((step_turn hw (.command request command)).operations hother stream hstream)
  | _ => exact .inl ((step_moves hw fun _ _ ↦ Step.noConfusion).operations stream hstream)

variable {asked : List ℕ}

theorem Sound.submit_tabled (h : Sound asked w) (hd : w.state.deaf = false)
    (hnew : stream ∉ w.state.operations) (request : Option ℕ) (r : ℕ) (input : Input)
    (a : GenerateAnswers) :
    Tabled (fun _ ↦ False) (fun _ ↦ False)
      (advance rt w (.command request (.generate stream r input a))).state.tables := by
  have hpost : Post ((Step.command request (.generate stream r input a)).turn rt) w
      fun _ t ↦ Tabled (fun _ ↦ False) (fun _ ↦ False) t.state.tables := by
    rw [Step.turn, post_read_bind, if_pos (by simpa [State.deaf] using hd), post_tryCatch]
    refine (post_submit_tables h.tabled hnew input a).mono fun result t ht ↦ ?_
    cases result with
    | ok => exact ht
    | error e => exact (post_event ..).mpr ht
  exact hpost

/-- One step keeps it. -/
theorem Sound.step (h : Sound asked w) (s : Step) (hnew : ∀ stream ∈ s.asks, stream ∉ asked) :
    Sound (asked ++ s.asks.toList) (advance rt w s) := by
  have hfresh : ∀ stream ∈ s.asks, stream ∉ w.state.operations :=
    fun stream hs hmem ↦ hnew stream hs (h.asked stream hmem)
  have hasked : ∀ stream ∈ (advance rt w s).state.operations, stream ∈ asked ++ s.asks.toList := by
    intro stream hstream
    obtain hmem | hmem := h.consistent.operations_advance s stream hstream
    · exact List.mem_append_left _ (h.asked stream hmem)
    · exact List.mem_append_right _ (Option.mem_toList.mpr hmem)
  have hmoves (hd : w.state.deaf = false) (hm : Moves rt False w (advance rt w s))
      (hT : Tabled (fun _ ↦ False) (fun _ ↦ False) (advance rt w s).state.tables) :
      Sound (asked ++ s.asks.toList) (advance rt w s) :=
    ⟨hm.consistent rt h.consistent, hm.stopped hd, hT, hasked⟩
  cases s with
  | callback c =>
    refine ⟨h.consistent.unseen (.callback h.consistent c), fun hdeaf ↦ ?_, ?_, hasked⟩
    · obtain ⟨hengines, hsessions, hoperations, htimer⟩ := h.stopped hdeaf
      exact ⟨hengines, hsessions, hoperations, htimer⟩
    · exact (inside_callbacks [c]).aside₀.keeps (Tabled _ _) w h.tabled
  | rest =>
    have hpost : Post (Step.rest.turn rt) w fun _ t ↦ Consistent t.state ∧ Stopped t.state ∧
        Tabled (fun _ ↦ False) (fun _ ↦ False) t.state.tables := by
      refine post_rest.mpr ?_
      split_ifs with hempty
      · have hnil : w.state.operations = [] := by simpa using hempty
        refine ⟨{ h.consistent with }, fun hdeaf ↦ ?_, ?_⟩
        · obtain ⟨hengines, hsessions, hoperations, -⟩ := h.stopped hdeaf
          exact ⟨hengines, hsessions, hoperations, rfl⟩
        · exact { h.tabled with timer := fun hne ↦ absurd hnil hne }
      · exact ⟨h.consistent, h.stopped, h.tabled⟩
    exact ⟨hpost.1, hpost.2.1, hpost.2.2, hasked⟩
  | serve stream a =>
    by_cases hstream : stream ∈ w.state.operations
    · have hd : w.state.deaf = false := by
        by_contra hdeaf
        rw [Bool.not_eq_false] at hdeaf
        rw [(h.stopped hdeaf).operations] at hstream
        cases hstream
      have htables : Post ((Step.serve stream a).turn rt) w fun _ t ↦
          Tabled (fun _ ↦ False) (fun _ ↦ False) t.state.tables :=
        (post_serve hstream a).mpr ((post_pumpOne h.tabled hstream a).mono
          fun _ _ ht ↦ ht.2.tabled h.tabled)
      exact hmoves hd (step_moves h.consistent fun _ _ ↦ Step.noConfusion) htables
    · rw [serve_of_gone hstream] at hasked ⊢
      exact ⟨h.consistent, h.stopped, h.tabled, hasked⟩
  | command request command =>
    cases hd : w.state.deaf with
    | true =>
      rw [step_deaf hd] at hasked ⊢
      exact ⟨h.consistent, h.stopped, h.tabled, hasked⟩
    | false =>
      by_cases hgenerate : ∃ stream r input a, command = .generate stream r input a
      · obtain ⟨stream, r, input, a, rfl⟩ := hgenerate
        have hserved : Served rt False w stream r
            (advance rt w (.command request (.generate stream r input a))) :=
          step_submit h.consistent hd request stream r input a
        refine ⟨hserved.consistent, fun hdeaf ↦ ?_, ?_, hasked⟩
        · rw [State.deaf_of_flags hserved.flags, hd] at hdeaf
          cases hdeaf
        · exact h.submit_tabled hd (hfresh stream rfl) request r input a
      · have hother (stream r : ℕ) (input : Input) (a : GenerateAnswers) :
            command ≠ .generate stream r input a :=
          fun heq ↦ hgenerate ⟨stream, r, input, a, heq⟩
        rw [step_command_eq hother] at hasked ⊢
        have hturn : Turn rt (Harmless rt w (.command request command)) w _
            (Worker.step rt w (.command request command)) :=
          step_turn h.consistent (.command request command)
        refine ⟨hturn.consistent h.consistent, hturn.stopped h.stopped, ?_, hasked⟩
        refine h.tabled.step h.consistent h.stopped _ fun _ stream hs ↦ ?_
        cases command with
        | generate stream' r input a => exact absurd rfl (hother stream' r input a)
        | _ => cases hs

theorem trace_sound {steps : List Step} (hdistinct : (steps.filterMap Step.asks).Nodup) :
    Sound (steps.filterMap Step.asks) (trace rt steps) := by
  induction steps using List.reverseRecOn with
  | nil => exact ⟨consistent_init, (fun h ↦ nomatch h), tabled_init, (fun _ h ↦ nomatch h)⟩
  | append_singleton steps s ih =>
    have hasks : [s].filterMap Step.asks = s.asks.toList := by cases h : s.asks <;> simp [h]
    rw [List.filterMap_append, hasks] at hdistinct ⊢
    rw [List.nodup_append] at hdistinct
    obtain ⟨hbefore, -, hnew⟩ := hdistinct
    rw [trace_concat]
    refine (ih hbefore).step s fun stream hs hmem ↦ ?_
    exact hnew stream hmem stream (Option.mem_toList.mpr hs) rfl

theorem trace_gone {steps after : List Step}
    (hdistinct : ((steps ++ after).filterMap Step.asks).Nodup)
    (hgone : stream ∉ (trace rt steps).state.operations)
    (hnew : stream ∉ after.filterMap Step.asks) :
    stream ∉ (trace rt (steps ++ after)).state.operations := by
  induction after using List.reverseRecOn with
  | nil => rwa [List.append_nil]
  | append_singleton after s ih =>
    rw [← List.append_assoc, List.filterMap_append] at hdistinct
    rw [List.filterMap_append, List.mem_append, not_or] at hnew
    have hbefore := (List.nodup_append.mp hdistinct).1
    intro hstream
    rw [← List.append_assoc, trace_concat] at hstream
    obtain hmem | hmem := (trace_sound hbefore).consistent.operations_advance s stream hstream
    · exact ih hbefore hnew.1 hmem
    · have hasks : s.asks = some stream := hmem
      exact hnew.2 (by simp [hasks])

/-- The pass of `_pump` serves every operation, whatever the others throw. -/
theorem pump_serves (hw : Consistent w.state) (a : ℕ → PumpAnswers) :
    Post (pump rt a) w fun result t ↦ result = .ok () ∧
      t = (serves w.state.operations a).foldl (advance rt) w := by
  have hloop (streams : List ℕ) : streams.Nodup → ∀ {w : NativeWorker}, Consistent w.state →
      (∀ stream ∈ streams, stream ∈ w.state.operations) →
      Post (forEach streams fun stream ↦ pumpOne rt (a stream) stream) w fun result t ↦
        result = .ok () ∧
          t = (streams.map fun stream ↦ Step.serve stream (a stream)).foldl (advance rt) w := by
    induction streams with
    | nil => exact fun _ _ _ _ ↦ ⟨rfl, rfl⟩
    | cons stream streams ih =>
      intro hnodup w hw hmem
      obtain ⟨hnew, hnodup⟩ := List.nodup_cons.mp hnodup
      have hstream := hmem stream List.mem_cons_self
      have hserve : Post (pumpOne rt (a stream) stream) w fun _ t ↦
          t = advance rt w (.serve stream (a stream)) :=
        (post_serve hstream (a stream)).mp rfl
      rw [forEach, post_bind]
      have hlive : Live rt False w stream (w.state.op stream).native w.state.operations w :=
        ⟨.refl hw, rfl, rfl⟩
      refine ((hlive.pumpOne hstream False.elim).and hserve).mono fun result t hresult ↦ ?_
      obtain ⟨⟨hok, ht, hothers⟩, heq⟩ := hresult
      subst hok
      rw [List.map_cons, List.foldl_cons, ← heq]
      refine ih hnodup ht.1 fun other ho ↦ hothers other (hmem other (by simp [ho])) ?_
      intro heq
      exact hnew (heq ▸ ho)
  rw [pump, post_read_bind, post_bind]
  refine (hloop _ hw.nodup hw fun _ h ↦ h).mono fun result t hresult ↦ ?_
  obtain ⟨hok, ht⟩ := hresult
  subst hok
  refine post_rest.mpr ⟨rfl, ?_⟩
  rw [serves, List.foldl_append, ← ht]
  have hrest : Post (Step.rest.turn rt) t fun _ u ↦ u = (if t.state.operations.isEmpty then
      { t with state := { t.state with timer := false } } else t) :=
    post_rest.mpr rfl
  exact hrest.symm

theorem serves_asks (streams : List ℕ) (a : ℕ → PumpAnswers) :
    (serves streams a).filterMap Step.asks = [] := by
  induction streams with
  | nil => rfl
  | cons stream streams ih => exact ih

theorem serves_said (streams : List ℕ) (a : ℕ → PumpAnswers) :
    (serves streams a).filterMap Step.said = [] := by
  induction streams with
  | nil => rfl
  | cons stream streams ih => exact ih

theorem post_advance_submit (hd : w.state.deaf = false) (request : Option ℕ) (stream r : ℕ)
    (input : Input) (a : GenerateAnswers) :
    Post (submit rt stream r input a) w fun result t ↦
      advance rt w (.command request (.generate stream r input a)) = match result with
        | .ok _ => t
        | .error e => emit t.state t.sent stream (.error (e.toFailure rt)) := by
  have hpost : Post ((Step.command request (.generate stream r input a)).turn rt) w fun _ u ↦
      Post (submit rt stream r input a) w fun result t ↦ u = match result with
        | .ok _ => t
        | .error e => emit t.state t.sent stream (.error (e.toFailure rt)) := by
    rw [Step.turn, post_read_bind, if_pos (by simpa [State.deaf] using hd), post_tryCatch]
    simp only [Post]
    cases (submit rt stream r input a w).1 with
    | ok => rfl
    | error e =>
      change Post (event stream (.error (e.toFailure rt))) (submit rt stream r input a w).2
        fun _ u ↦ u = emit _ _ stream (.error (e.toFailure rt))
      exact (post_event ..).mpr rfl
  exact hpost

/-- A `generate` command is its step and, if it did not throw, a pass of `_pump`. -/
theorem generate_steps (hw : Consistent w.state) (request : Option ℕ) (stream r : ℕ)
    (input : Input) (a : GenerateAnswers) :
    ∃ passes : List Step, passes.foldl (advance rt)
        (advance rt w (.command request (.generate stream r input a))) =
          step rt w (.command request (.generate stream r input a)) ∧
      passes.filterMap Step.asks = [] ∧ passes.filterMap Step.said = [] := by
  cases hd : w.state.deaf with
  | true => exact ⟨[], by rw [step_deaf hd, listen_deaf hd]; rfl, rfl, rfl⟩
  | false =>
    have hadvance : Post (submit rt stream r input a) w _ :=
      post_advance_submit hd request stream r input a
    have hsubmit : Post (submit rt stream r input a) w fun result t ↦ match result with
        | .ok _ => Served rt False w stream r t
        | .error e => Served rt False w stream r
            (emit t.state t.sent stream (.error (e.toFailure rt))) :=
      hw.submit stream r input a False.elim
    have hlisten {u : NativeWorker} (h : Post (submit rt stream r input a) w fun result t ↦
        match result with
        | .ok _ => Post (pump rt a.pump) t fun result v ↦ result = .ok () ∧ v = u
        | .error e => emit t.state t.sent stream (.error (e.toFailure rt)) = u) :
        step rt w (.command request (.generate stream r input a)) = u := by
      have hpost : Post (listen rt request (.generate stream r input a)) w fun _ v ↦ v = u := by
        refine post_listen hd request _ ((post_bind ..).mpr ?_)
        rw [generate_eq_submit, post_bind]
        refine h.mono fun result t ht ↦ ?_
        cases result with
        | error e => exact ht
        | ok =>
          refine ht.mono fun result v ⟨hok, hv⟩ ↦ ?_
          subst hok
          exact hv
      exact hpost
    simp only [Post] at hadvance hsubmit hlisten
    cases hresult : (submit rt stream r input a w).1 with
    | error e =>
      rw [hresult] at hadvance hlisten
      exact ⟨[], hadvance.trans (hlisten rfl).symm, rfl, rfl⟩
    | ok =>
      rw [hresult] at hadvance hsubmit hlisten
      dsimp only at hadvance
      have hpump : Post (pump rt a.pump) (submit rt stream r input a w).2 _ :=
        pump_serves hsubmit.consistent a.pump
      refine ⟨serves (submit rt stream r input a w).2.state.operations a.pump, ?_, serves_asks _ _,
        serves_said _ _⟩
      rw [hadvance]
      exact (hlisten hpump).symm

theorem step_tick (hw : Consistent w.state) (htimer : w.state.timer = true)
    (answers : ℕ → PumpAnswers) :
    step rt w (.tick answers) = (serves w.state.operations answers).foldl (advance rt) w := by
  have hpost : Post (turn rt (.tick answers)) w fun _ t ↦
      t = (serves w.state.operations answers).foldl (advance rt) w := by
    rw [turn, post_read_bind, htimer]
    exact (pump_serves hw answers).mono fun _ _ ht ↦ ht.2
  exact hpost

theorem step_steps (hw : Consistent w.state) (action : Action) :
    ∃ steps : List Step, steps.foldl (advance rt) w = step rt w action ∧
      steps.filterMap Step.asks = action.asks.toList ∧
      steps.filterMap Step.said = action.said.toList := by
  cases action with
  | callback c => exact ⟨[.callback c], rfl, rfl, rfl⟩
  | tick answers =>
    cases htimer : w.state.timer with
    | false =>
      have hpost : Post (turn rt (.tick answers)) w fun _ t ↦ t = w := by
        rw [turn, post_read_bind, htimer]
        exact rfl
      exact ⟨[], hpost.symm, rfl, rfl⟩
    | true =>
      exact ⟨serves w.state.operations answers, (step_tick hw htimer answers).symm, serves_asks _ _,
        serves_said _ _⟩
  | command request command =>
    by_cases hgenerate : ∃ stream r input a, command = .generate stream r input a
    · obtain ⟨stream, r, input, a, rfl⟩ := hgenerate
      obtain ⟨passes, hpasses, hasks, hsaid⟩ := generate_steps hw request stream r input a
      refine ⟨.command request (.generate stream r input a) :: passes, hpasses, ?_, ?_⟩
      · rw [List.filterMap_cons, hasks]
        rfl
      · rw [List.filterMap_cons, hsaid]
        rfl
    · have hother (stream r : ℕ) (input : Input) (a : GenerateAnswers) :
          command ≠ .generate stream r input a :=
        fun heq ↦ hgenerate ⟨stream, r, input, a, heq⟩
      refine ⟨[.command request command], step_command_eq hother, ?_, rfl⟩
      cases command with
      | generate stream r input a => exact absurd rfl (hother stream r input a)
      | _ => rfl

/-- Every run is a trace, so what holds between any two steps holds between any two turns. -/
theorem run_trace (actions : List Action) :
    ∃ steps : List Step, trace rt steps = run rt actions ∧
      steps.filterMap Step.asks = actions.filterMap Action.asks := by
  induction actions using List.reverseRecOn with
  | nil => exact ⟨[], rfl, rfl⟩
  | append_singleton actions action ih =>
    obtain ⟨steps, hsteps, hasks⟩ := ih
    obtain ⟨after, hafter, hafterAsks, -⟩ := step_steps (run_consistent actions) action
    refine ⟨steps ++ after, ?_, ?_⟩
    · rw [trace_append, hsteps, hafter, run_concat]
    · have haction : [action].filterMap Action.asks = action.asks.toList := by
        cases h : action.asks <;> simp [h]
      rw [List.filterMap_append, List.filterMap_append, hasks, hafterAsks, haction]

theorem Step.asks_cons (s : Step) (steps : List Step) :
    (s :: steps).filterMap Step.asks = s.asks.toList ++ steps.filterMap Step.asks := by
  cases h : s.asks <;> simp [h]

theorem Step.asks_first {s : Step} {steps : List Step}
    (hnew : (asked ++ (s :: steps).filterMap Step.asks).Nodup) :
    (∀ stream ∈ s.asks, stream ∉ asked) ∧
      (asked ++ s.asks.toList ++ steps.filterMap Step.asks).Nodup := by
  rw [Step.asks_cons, ← List.append_assoc] at hnew
  refine ⟨fun stream hstream hmem ↦ ?_, hnew⟩
  have hdistinct := (List.nodup_append.mp (List.nodup_append.mp hnew).1).2.2
  exact hdistinct stream hmem stream (Option.mem_toList.mpr hstream) rfl

theorem Sound.steps (h : Sound asked w) {steps : List Step}
    (hnew : (asked ++ steps.filterMap Step.asks).Nodup) :
    Sound (asked ++ steps.filterMap Step.asks) (steps.foldl (advance rt) w) := by
  induction steps generalizing w asked with
  | nil =>
    rw [List.filterMap_nil, List.append_nil]
    exact h
  | cons s steps ih =>
    obtain ⟨hfirst, hrest⟩ := Step.asks_first hnew
    rw [Step.asks_cons, ← List.append_assoc]
    exact ih (h.step s hfirst) hrest

theorem Sound.turn (h : Sound asked w) (a : Action) (hnew : (asked ++ a.asks.toList).Nodup) :
    Sound (asked ++ a.asks.toList) (Worker.step rt w a) := by
  obtain ⟨steps, hsteps, hasks, -⟩ := @step_steps rt _ h.consistent a
  rw [← hasks] at hnew ⊢
  rw [← hsteps]
  exact h.steps hnew

end LibLitertLm.Worker
