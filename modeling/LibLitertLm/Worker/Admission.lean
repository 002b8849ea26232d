import LibLitertLm.Worker.Registration

namespace LibLitertLm.Worker

open Code

variable {rt : Runtime} {w : NativeWorker} {r : ℕ}

/-- Anything but a full context with its figures. -/
def Unmeasured (e : Thrown) : Prop :=
  ∀ required available message, e ≠ .failure (.contextFull (some required) available message)

theorem unmeasured_error (e : DartError) : Unmeasured (.error e) := by
  intro required available message h
  cases h

theorem unmeasured_classify (text : String) : Unmeasured (.failure (.classify text)) := by
  intro required available message h
  have h : Failure.classify text = .contextFull (some required) available message :=
    Thrown.failure.inj h
  unfold Failure.classify at h
  split_ifs at h
  simp at h

theorem raises_update (f : State → State) : Raises Unmeasured (update f) := .modify _

theorem raises_read {α : Type} (f : State → α) : Raises Unmeasured (read f) := .map .get _

theorem raises_decode (bytes : List UInt8) : Raises Unmeasured (decode bytes) := by
  unfold decode
  split
  · exact .pure _
  · exact .throw (unmeasured_error _)

theorem raises_utf8 (needed allocated : Bool) : Raises Unmeasured (utf8 needed allocated) :=
  .ite (.throw (unmeasured_error _)) (.pure _)

theorem raises_checkPointer (pointer : Option ℕ) (action : String) (lastError : List UInt8) :
    Raises Unmeasured (checkPointer pointer action lastError) := by
  unfold checkPointer
  split_ifs
  · have hclassified : Yields (fun f ↦ Unmeasured (.failure f)) (nativeError lastError action) :=
      .bind _ fun _ ↦ .pure (unmeasured_classify _)
    exact .bind_yields (.bind (raises_decode _) fun _ ↦ .pure _) hclassified fun _ hf ↦ .throw hf
  · exact .pure _

theorem raises_create (succeeds : Bool) (resource : Resource) :
    Raises Unmeasured (create succeeds resource) := by
  refine .ite (.bind (raises_read _) fun pointer ↦ ?_) (.pure _)
  exact .bind (raises_update _) fun _ ↦ .pure _

theorem raises_openConversation (r : ℕ) (engine : NativeEngine) (config : Option ℕ)
    (a : OpenAnswers) : Raises Unmeasured (openConversation r engine config a) := by
  refine .bind (raises_read _) fun session ↦ .bind (raises_create _ _) fun chatConfig ↦ ?_
  refine .bind (raises_checkPointer _ _ _) fun _ ↦ .tryFinally ?_ (raises_update _)
  refine .bind (raises_update _) fun _ ↦ .bind (raises_update _) fun _ ↦ ?_
  refine .bind (raises_update _) fun _ ↦ .bind (.when ?_) fun _ ↦ ?_
  · exact .bind (raises_utf8 _ _) fun _ ↦ raises_update _
  · refine .bind (raises_update _) fun _ ↦ .bind (raises_update _) fun _ ↦ ?_
    refine .bind (raises_create _ _) fun chat ↦ .bind (raises_update _) fun _ ↦ ?_
    exact raises_checkPointer _ _ _

theorem raises_openRaw (r : ℕ) (engine : NativeEngine) (config : Option ℕ) (a : OpenAnswers) :
    Raises Unmeasured (openRaw r engine config a) := by
  refine .bind (raises_update _) fun _ ↦ .bind (raises_update _) fun _ ↦ ?_
  refine .bind (raises_create _ _) fun raw ↦ .bind (raises_update _) fun _ ↦ ?_
  exact raises_checkPointer _ _ _

theorem raises_openSession (r : ℕ) (engine : NativeEngine) (preface : Option (List Message))
    (a : OpenAnswers) : Raises Unmeasured (openSession r engine preface a) := by
  refine .bind (raises_update _) fun _ ↦ .bind (raises_read _) fun session ↦ ?_
  refine .bind (raises_create _ _) fun config ↦ .bind (raises_checkPointer _ _ _) fun _ ↦ ?_
  refine .bind (raises_create _ _) fun sampler ↦ .tryFinally ?_ ?_
  · refine .bind (raises_checkPointer _ _ _) fun _ ↦ .bind (raises_update _) fun _ ↦ ?_
    refine .bind (raises_update _) fun _ ↦ .bind (raises_update _) fun _ ↦ ?_
    refine .bind (raises_update _) fun _ ↦ .bind (raises_update _) fun _ ↦ ?_
    refine .bind (raises_update _) fun _ ↦ .bind (raises_update _) fun _ ↦ ?_
    refine .bind (raises_update _) fun _ ↦ .ite ?_ ?_
    · exact raises_openConversation _ _ _ _
    · exact raises_openRaw _ _ _ _
  · exact .bind (.when (raises_update _)) fun _ ↦ raises_update _

theorem raises_deleteHandle (r : ℕ) : Raises Unmeasured (deleteHandle r) := by
  refine .bind (raises_read _) fun session ↦ .bind (.when ?_) fun _ ↦ .when ?_
  · exact .bind (raises_update _) fun _ ↦ raises_update _
  · exact .bind (raises_update _) fun _ ↦ raises_update _

theorem raises_start (native : ℕ) (pointer : Option ℕ) (kind : Resource → Bool)
    (message : Message) (a : GenerateAnswers) :
    Raises Unmeasured (start native pointer kind message a) := by
  refine .bind (raises_read _) fun known ↦ .bind (raises_read _) fun operation ↦ ?_
  refine .bind (raises_update _) fun _ ↦ .ite (.bind (raises_update _) fun _ ↦ ?_) (.pure _)
  exact .ite (raises_update _) (raises_update _)

theorem raises_request (session : NativeSession) (native : ℕ) (last : Message)
    (a : GenerateAnswers) : Raises Unmeasured (request session native last a) := by
  refine .bind (raises_utf8 _ _) fun _ ↦ .ite (raises_start _ _ _ _ _) ?_
  refine .bind (raises_create _ _) fun input ↦ .bind (raises_checkPointer _ _ _) fun _ ↦ ?_
  have hsend : Raises Unmeasured (tryFinally (do
      use input isInput
      start native session.raw Resource.isSession last a) (delete input isInput)) := by
    refine .tryFinally (.bind ?_ fun _ ↦ raises_start _ _ _ _ _) ?_
    · exact raises_update _
    · exact raises_update _
  exact .ite (.bind (.throw (unmeasured_error _)) fun _ ↦ hsend) hsend

theorem raises_launch (stream r : ℕ) (messages : List Message) (a : GenerateAnswers) :
    Raises Unmeasured (launch stream r messages a) := by
  refine .bind (raises_read _) fun native ↦ .bind (raises_update _) fun _ ↦ ?_
  have hstart : Raises Unmeasured (do
      modifyOp stream fun _ ↦ { session := r, native := native, messages := messages }
      modifySession r fun s ↦ { s with phase := .generating, streamId := some stream }
      update fun s ↦ { s with
        operations := if stream ∈ s.operations then s.operations else s.operations ++ [stream] }
      tryCatch (do
          let session ← read fun s ↦ s.session r
          request session native (messages.getLast?.getD []) a)
        fun e ↦ do
          update fun s ↦ { s with operations := s.operations.filter (· ≠ stream) }
          modifySession r fun s ↦ { s with streamId := none, phase := .ready }
          modifyNative (·.operationDelete native)
          throw e
      update fun s ↦ { s with timer := true }) := by
    refine .bind (raises_update _) fun _ ↦ .bind (raises_update _) fun _ ↦ ?_
    refine .bind (raises_update _) fun _ ↦ .bind
      (.tryCatch (F := Unmeasured) ?_ fun e he ↦ ?_) fun _ ↦ ?_
    · exact .bind (raises_read _) fun session ↦ raises_request _ _ _ _
    · refine .bind (raises_update _) fun _ ↦ .bind (raises_update _) fun _ ↦ ?_
      exact .bind (raises_update _) fun _ ↦ .throw he
    · exact raises_update _
  refine .ite (.bind (.throw ?_) fun _ ↦ hstart) hstart
  intro required available message h
  cases h

theorem raises_event (stream : ℕ) (e : Event) : Raises Unmeasured (event stream e) :=
  .bind (raises_read _) fun _ ↦ .ite (.modify _) (.pure _)

/-- The pump throws nothing on. -/
theorem raises_pump (a : ℕ → PumpAnswers) : Raises Unmeasured (pump rt a) := by
  have hpumpOne (stream : ℕ) : Raises Unmeasured (pumpOne rt (a stream) stream) := by
    refine .tryCatch raises_any fun e _ ↦ .bind ?_ fun _ ↦ ?_
    · refine .bind (raises_read _) fun op ↦ .ite ?_ (.pure _)
      refine .bind (raises_update _) fun _ ↦ .bind (raises_update _) fun _ ↦ ?_
      refine .bind (.when (raises_update _)) fun _ ↦ .bind (raises_read _) fun session ↦ ?_
      exact .ite (raises_update _) (raises_update _)
    · refine .bind (raises_read _) fun op ↦ .bind (raises_deleteHandle _) fun _ ↦ ?_
      refine .bind (raises_read _) fun known ↦ .ite ?_ (.pure _)
      refine .bind (raises_read _) fun op ↦ .bind (raises_read _) fun session ↦ ?_
      rw [if_pos (by simp)]
      refine .bind (raises_deleteHandle _) fun _ ↦ .bind (raises_read _) fun op ↦ ?_
      refine .bind (raises_update _) fun _ ↦ .bind (raises_update _) fun _ ↦ ?_
      exact .bind (raises_update _) fun _ ↦ raises_event _ _
  refine .bind (raises_read _) fun streams ↦ .bind (.forEach hpumpOne) fun _ ↦ ?_
  exact .bind (raises_read _) fun operations ↦ .ite (raises_update _) (.pure _)

def BudgetAnswers.input? (a : BudgetAnswers) (messages : List Message) : ℤ :=
  if messages.isEmpty then 0 else a.inputTokens

def BudgetAnswers.needed (a : BudgetAnswers) (messages : List Message) (reserve : ℤ) : ℤ :=
  a.used + a.input? messages + reserve

def BudgetAnswers.reported (a : BudgetAnswers) (context : ℤ) (messages : List Message)
    (reserve : ℤ) : Budget :=
  let required := toInt64 (toInt64 (a.used + a.input? messages) + reserve)
  { contextTokens := context
    usedTokens := a.used
    inputTokens := a.input? messages
    outputReserve := reserve
    requiredTokens := required
    remainingTokens := toInt64 (context - required) }

/-- Native counts and a native context size are 32-bit, a reserve is a Dart integer. -/
structure InRange (a : BudgetAnswers) (context reserve : ℤ) : Prop where
  used : 0 ≤ a.used ∧ a.used < 2 ^ 31
  input : 0 ≤ a.inputTokens ∧ a.inputTokens < 2 ^ 31
  context : 0 < context ∧ context < 2 ^ 31
  reserve : 0 ≤ reserve ∧ reserve < 2 ^ 63

namespace InRange

variable {a : BudgetAnswers} {context reserve : ℤ}

theorem sum (h : InRange a context reserve) (messages : List Message) :
    0 ≤ a.used + a.input? messages ∧ a.used + a.input? messages < 2 ^ 32 := by
  obtain ⟨hused, hused'⟩ := h.used
  obtain ⟨hinput, hinput'⟩ := h.input
  unfold BudgetAnswers.input?
  split_ifs <;> omega

/-- The sum that the code makes wraps around at most once. -/
theorem required (h : InRange a context reserve) (messages : List Message) :
    (a.reported context messages reserve).requiredTokens =
      if a.needed messages reserve < 2 ^ 63 then a.needed messages reserve
      else a.needed messages reserve - 2 ^ 64 := by
  obtain ⟨hsum, hsum'⟩ := h.sum messages
  obtain ⟨hreserve, hreserve'⟩ := h.reserve
  rw [BudgetAnswers.reported, BudgetAnswers.needed]
  dsimp only
  rw [toInt64_of_lt (n := a.used + a.input? messages) (by omega) (by omega)]
  split_ifs with hsmall
  · exact toInt64_of_lt (by omega) hsmall
  · exact toInt64_of_ge (by omega) (by omega)

theorem exact_iff (h : InRange a context reserve) (messages : List Message) :
    (a.reported context messages reserve).requiredTokens = a.needed messages reserve ∧
      (a.reported context messages reserve).remainingTokens =
        context - a.needed messages reserve ↔ a.needed messages reserve < 2 ^ 63 := by
  have hrequired := h.required messages
  obtain ⟨hcontext, hcontext'⟩ := h.context
  obtain ⟨hsum, -⟩ := h.sum messages
  obtain ⟨hreserve, -⟩ := h.reserve
  have hneeded : 0 ≤ a.needed messages reserve := by
    unfold BudgetAnswers.needed
    omega
  constructor
  · rintro ⟨hexact, -⟩
    by_contra hlarge
    rw [if_neg hlarge, hexact] at hrequired
    omega
  · intro hsmall
    rw [if_pos hsmall] at hrequired
    refine ⟨hrequired, ?_⟩
    have hremaining : (a.reported context messages reserve).remainingTokens =
        toInt64 (context - (a.reported context messages reserve).requiredTokens) := rfl
    rw [hremaining, hrequired]
    exact toInt64_of_lt (by omega) (by omega)

end InRange

theorem yields_query (engine : NativeEngine) (messages : List Message) (reserve : ℤ)
    (a : BudgetAnswers) :
    Yields (· = a.reported engine.info.effectiveContextTokens messages reserve)
      (query r engine messages reserve a) := by
  refine .bind _ fun session ↦ .bind _ fun _ ↦ .bind _ fun _ ↦ .bind _ fun _ ↦ .bind _ fun _ ↦ ?_
  exact .pure rfl

theorem yields_budgetQuery (engine : NativeEngine) (messages : List Message) (reserve : ℤ)
    (a : BudgetAnswers) :
    Yields (· = a.reported engine.info.effectiveContextTokens messages reserve)
      (budgetQuery r engine messages reserve a) :=
  .bind _ fun _ ↦ yields_query engine messages reserve a

def HasContext (context : ℤ) (r : ℕ) (w : NativeWorker) : Prop :=
  ∀ engine, ((w.state.session r).engineId, engine) ∈ w.state.engines →
    engine.info.effectiveContextTokens = context

section Context

variable {context : ℤ} {r' : ℕ}

theorem HasContext.setSession (h : HasContext context r w) (f : NativeSession → NativeSession)
    (hf : ∀ x, (f x).engineId = x.engineId) :
    Post (modifySession r' f) w fun _ t ↦ HasContext context r t := by
  refine (post_update _).mpr fun engine hengine ↦ h engine ?_
  by_cases hr : r = r'
  · subst hr
    simpa [hf] using hengine
  · simpa [hr] using hengine

theorem HasContext.newSession (h : HasContext context r w) {x : NativeSession}
    (hx : x.engineId = (w.state.session r).engineId) :
    Post (newSession r' x) w fun result t ↦ result = .ok () ∧ HasContext context r' t := by
  refine ⟨rfl, fun engine hengine ↦ h engine ?_⟩
  rw [← hx]
  have hself : (Function.update w.state.session r' x r').engineId = x.engineId := by simp
  exact hself ▸ hengine

theorem keeps_create_context (succeeds : Bool) (resource : Resource) :
    Keeps (HasContext context r) (create succeeds resource) :=
  .ite (fun _ ↦ .bind (.map .get _) fun _ ↦ .bind (fun _ h ↦ h) fun _ ↦ .pure _) fun _ ↦ .pure _

theorem keeps_openConversation_context (engine : NativeEngine) (config : Option ℕ)
    (a : OpenAnswers) : Keeps (HasContext context r) (openConversation r' engine config a) := by
  refine .bind (.map .get _) fun session ↦ .bind (keeps_create_context _ _) fun chatConfig ↦ ?_
  refine .bind (still_checkPointer _ _ _ _) fun _ ↦ .tryFinally ?_ fun _ h ↦ h
  refine .bind (fun _ h ↦ h) fun _ ↦ .bind (fun _ h ↦ h) fun _ ↦ .bind (fun _ h ↦ h) fun _ ↦ ?_
  refine .bind (.when fun _ ↦ .bind (still_utf8 _ _ _) fun _ _ h ↦ h) fun _ ↦ ?_
  refine .bind (fun _ h ↦ h) fun _ ↦ .bind (fun _ h ↦ h) fun _ ↦ ?_
  refine .bind (keeps_create_context _ _) fun chat ↦ .bind (fun w h ↦ ?_) fun _ ↦ ?_
  · exact h.setSession _ fun _ ↦ rfl
  · exact still_checkPointer _ _ _ _

theorem keeps_openRaw_context (engine : NativeEngine) (config : Option ℕ) (a : OpenAnswers) :
    Keeps (HasContext context r) (openRaw r' engine config a) := by
  refine .bind (fun _ h ↦ h) fun _ ↦ .bind (fun _ h ↦ h) fun _ ↦ ?_
  refine .bind (keeps_create_context _ _) fun raw ↦ .bind (fun w h ↦ ?_) fun _ ↦ ?_
  · exact h.setSession _ fun _ ↦ rfl
  · exact still_checkPointer _ _ _ _

theorem keeps_openSession_context (engine : NativeEngine) (preface : Option (List Message))
    (a : OpenAnswers) : Keeps (HasContext context r) (openSession r' engine preface a) := by
  refine .bind (fun w h ↦ h.setSession _ fun _ ↦ rfl) fun _ ↦ .bind (.map .get _) fun session ↦ ?_
  refine .bind (keeps_create_context _ _) fun config ↦ ?_
  refine .bind (still_checkPointer _ _ _ _) fun _ ↦ ?_
  refine .bind (keeps_create_context _ _) fun sampler ↦ .tryFinally ?_ ?_
  · refine .bind (still_checkPointer _ _ _ _) fun _ ↦ .bind (fun _ h ↦ h) fun _ ↦ ?_
    refine .bind (fun _ h ↦ h) fun _ ↦ .bind (fun _ h ↦ h) fun _ ↦ .bind (fun _ h ↦ h) fun _ ↦ ?_
    refine .bind (fun _ h ↦ h) fun _ ↦ .bind (fun _ h ↦ h) fun _ ↦ .bind (fun _ h ↦ h) fun _ ↦ ?_
    refine .bind (fun _ h ↦ h) fun _ ↦ .ite (fun _ ↦ ?_) fun _ ↦ ?_
    · exact keeps_openConversation_context _ _ _
    · exact keeps_openRaw_context _ _ _
  · exact .bind (.when fun _ _ h ↦ h) fun _ _ h ↦ h

theorem keeps_ensureOpen_context (engine : NativeEngine) (a : OpenAnswers) :
    Keeps (HasContext context r) (ensureOpen r' engine a) :=
  .bind (.map .get _) fun _ ↦ .when fun _ ↦ keeps_openSession_context _ _ _

/-- The budget of a single message and the one of a batch come out the same. -/
theorem HasContext.post_budget (h : HasContext context r w) (messages : List Message)
    (reserve : ℤ) (a : BudgetAnswers) :
    Post (budget rt r messages reserve a) w fun result _ ↦
      ∀ b, result = .ok b → b = a.reported context messages reserve := by
  have hfail (e : Thrown) (b : Budget) (heq : Except.error e = .ok b) :
      b = a.reported context messages reserve := by cases heq
  have hsingle {engine : NativeEngine} (t : NativeWorker)
      (hcontext : engine.info.effectiveContextTokens = context) :
      Post (budgetQuery r engine messages reserve a) t fun result _ ↦
        ∀ b, result = .ok b → b = a.reported context messages reserve := by
    rw [← hcontext]
    exact yields_budgetQuery engine messages reserve a t
  rw [budget, post_bind]
  refine post_budgetChecks (fun engine hengine ↦ ?_) hfail
  have hcontext := h engine hengine
  dsimp only
  rw [post_read_bind]
  cases hlast : messages.getLast? with
  | none => exact hsingle w hcontext
  | some last =>
    dsimp only
    split_ifs
    · refine (post_bind ..).mpr (Post.mono (h.newSession ?_) fun result t ht ↦ ?_)
      · rfl
      obtain ⟨rfl, hpreview⟩ := ht
      refine (post_bind ..).mpr ?_
      refine (keeps_openSession_context engine none a.preview t hpreview).mono fun result t ht ↦ ?_
      cases result with
      | error e => exact hfail e
      | ok _ =>
        refine (post_tryFinally ..).mpr (Post.mono (P := fun result _ ↦
          ∀ b, result = .ok b → b = a.reported context messages reserve) ?_ fun result u hu ↦ ?_)
        · rw [post_bind]
          refine post_budgetChecks (fun engine hengine ↦ ?_) hfail
          have hsame : a.input? [last] = a.input? messages := by
            have hne : messages ≠ [] := by
              rintro rfl
              cases hlast
            simp [BudgetAnswers.input?, hne]
          have hreported : a.reported context messages reserve =
              a.reported engine.info.effectiveContextTokens [last] reserve := by
            rw [BudgetAnswers.reported, BudgetAnswers.reported, hsame, ht engine hengine]
          rw [hreported]
          exact yields_budgetQuery engine [last] reserve a t
        · refine Post.mono (P := fun _ _ ↦ True) trivial fun result' v _ ↦ ?_
          cases result' with
          | ok => exact hu
          | error e => exact hfail e
    · exact hsingle w hcontext

/-- `_generate` up to its check of the context. -/
def assess (rt : Runtime) (r : ℕ) (input : Input) (a : GenerateAnswers) :
    M (NativeEngine × List Message × Budget) := do
  let session ← findSession r
  if session.streamId.isSome then
    fail (.busy "Only one generation may run per session")
  let engine ← findEngine session.engineId
  let messages ← messages rt input
  Code.lift (validateModalities rt engine messages true)
  ensureOpen r engine a.openAnswers
  let budget ← budget rt r messages session.params.maxTokens a.budget
  pure (engine, messages, budget)

def compose (r : ℕ) (a : GenerateAnswers) (x : NativeEngine × List Message × Budget) :
    M (List Message) := do
  let (engine, messages, budget) := x
  if budget.contextTokens < budget.requiredTokens then
    fail (.contextFull (some budget.requiredTokens) (some budget.contextTokens)
      ("Context needs " ++ toString budget.requiredTokens ++
        " tokens including output reserve; available " ++ toString budget.contextTokens))
  let session ← read fun s ↦ s.session r
  Code.when (session.conversation && 1 < messages.length) do
    deleteHandle r
    openSession r engine (some (session.history ++ messages.dropLast)) a.rebuild
  pure messages

theorem prepare_eq (input : Input) (a : GenerateAnswers) :
    prepare rt r input a = assess rt r input a >>= compose r a := by
  simp only [prepare, assess, bind_assoc]
  refine bind_congr fun session ↦ ?_
  split_ifs
  · rfl
  · simp only [bind_assoc, pure_bind]
    rfl

def proceed (rt : Runtime) (stream r : ℕ) (a : GenerateAnswers)
    (x : NativeEngine × List Message × Budget) : M Unit := do
  let messages ← compose r a x
  launch stream r messages a
  pump rt a.pump

theorem generate_eq (stream : ℕ) (input : Input) (a : GenerateAnswers) :
    generate rt stream r input a = assess rt r input a >>= proceed rt stream r a := by
  rw [generate, prepare_eq, bind_assoc]
  rfl

theorem aside_assess (input : Input) (a : GenerateAnswers) : Aside (assess rt r input a) := by
  refine .bind (inside_findSession _).aside₀ fun session ↦ aside_guard _ ?_
  refine .bind (inside_findEngine _).aside₀ fun engine ↦ .bind
    (inside_messages _ _).aside₀ fun messages ↦ ?_
  refine .bind (aside_lift _) fun _ ↦ .bind (inside_ensureOpen _ _ _).aside fun _ ↦ ?_
  exact .bind (inside_budget _ _ _ _ _).aside fun budget ↦ aside_pure _

variable (rt) in
theorem HasContext.post_assess (h : HasContext context r w) (input : Input)
    (a : GenerateAnswers) :
    Post (assess rt r input a) w fun result t ↦ t.state.tables = w.state.tables ∧
      ∀ x, result = .ok x →
        x.2.2 = a.budget.reported context x.2.1 (w.state.session r).params.maxTokens := by
  refine (aside_assess input a w.state.tables w rfl).and ?_
  have hfail (e : Thrown) (x : NativeEngine × List Message × Budget)
    (heq : Except.error e = .ok x) :
      x.2.2 = a.budget.reported context x.2.1 (w.state.session r).params.maxTokens := by cases heq
  rw [assess, post_bind]
  refine post_findSession (fun hr ↦ ?_) (hfail _)
  dsimp only
  split_ifs
  · exact hfail _
  refine (post_bind ..).mpr (post_findEngine (fun engine _ ↦ ?_) hfail)
  refine Still.post_bind (still_dart _) (fun messages ↦ ?_) hfail
  refine Still.post_bind (fun _ ↦ .lift _) (fun _ ↦ ?_) hfail
  refine (post_bind ..).mpr ((keeps_ensureOpen_context engine a.openAnswers w h).mono
    fun result t ht ↦ ?_)
  cases result with
  | error e => exact hfail e
  | ok _ =>
    refine (post_bind ..).mpr ((ht.post_budget messages _ a.budget).mono
      fun result u hu ↦ ?_)
    cases result with
    | error e => exact hfail e
    | ok b =>
      intro x hx
      obtain rfl := Except.ok.inj hx
      exact hu b rfl

theorem raises_proceed (stream : ℕ) (a : GenerateAnswers) {x : NativeEngine × List Message × Budget}
    (hfits : ¬ x.2.2.contextTokens < x.2.2.requiredTokens) :
    Raises Unmeasured (proceed rt stream r a x) := by
  refine .bind ?_ fun messages ↦ .bind (raises_launch _ _ _ _) fun _ ↦ raises_pump _
  rw [compose]
  dsimp only
  rw [if_neg hfits]
  refine .bind (raises_read _) fun session ↦ .bind (.when ?_) fun _ ↦ .pure _
  exact .bind (raises_deleteHandle _) fun _ ↦ raises_openSession _ _ _ _

theorem proceed_of_full (rt : Runtime) (stream : ℕ) (a : GenerateAnswers)
    {x : NativeEngine × List Message × Budget}
    (hfull : x.2.2.contextTokens < x.2.2.requiredTokens) :
    ∃ text, proceed rt stream r a x w = (.error (.failure
      (.contextFull (some x.2.2.requiredTokens) (some x.2.2.contextTokens) text)), w) := by
  rw [proceed, compose]
  dsimp only
  rw [if_pos hfull]
  exact ⟨_, rfl⟩

/-- A native operation is only created for a request that the context has room
for, and the other requests are told so. -/
def Admits (context needed : ℤ) (w : NativeWorker) (outcome : Except Thrown Unit × NativeWorker) :
    Prop :=
  (outcome.2.state.native.nextId ≠ w.state.native.nextId → needed ≤ context) ∧
  (context < needed → ∃ text,
    outcome.1 = .error (.failure (.contextFull (some needed) (some context) text)))

/-- The budget is right and the context check is sound exactly for the requests
whose sum is a 64-bit integer. A request that fails before the check creates
no native operation. -/
theorem context_admission (rt : Runtime) (w : NativeWorker) (r : ℕ) (context : ℤ)
    (hcontext : HasContext context r w) :
    (∀ messages reserve a b, InRange a context reserve →
      (budget rt r messages reserve a w).1 = .ok b →
      (b.requiredTokens = a.needed messages reserve ∧
          b.remainingTokens = context - a.needed messages reserve ↔
        a.needed messages reserve < 2 ^ 63)) ∧
    ∀ stream input a, InRange a.budget context (w.state.session r).params.maxTokens →
      match (assess rt r input a w).1 with
      | .error e => (generate rt stream r input a w).1 = .error e ∧
          (generate rt stream r input a w).2.state.native.nextId = w.state.native.nextId
      | .ok (_, messages, _) =>
        (Admits context (a.budget.needed messages (w.state.session r).params.maxTokens) w
            (generate rt stream r input a w) ↔
          a.budget.needed messages (w.state.session r).params.maxTokens < 2 ^ 63) := by
  refine ⟨fun messages reserve a b hrange hb ↦ ?_, fun stream input a hrange ↦ ?_⟩
  · have hreported : b = a.reported context messages reserve :=
      hcontext.post_budget messages reserve a b hb
    rw [hreported]
    exact hrange.exact_iff messages
  · obtain ⟨htables, hreported⟩ := hcontext.post_assess rt input a
    have hgenerate : generate rt stream r input a w =
        (assess rt r input a >>= proceed rt stream r a) w := by rw [generate_eq]
    rw [hgenerate]
    simp only [bind]
    rcases hrun : assess rt r input a w with ⟨e | ⟨engine, messages, b⟩, t⟩
    · rw [hrun] at htables
      exact ⟨rfl, congrArg Tables.nextId htables⟩
    · rw [hrun] at htables hreported
      have hb : b = a.budget.reported context messages (w.state.session r).params.maxTokens :=
        hreported (engine, messages, b) rfl
      have hrequired := hrange.required messages
      rw [← hb] at hrequired
      have hroom : b.contextTokens = context := by rw [hb]; rfl
      obtain ⟨hpositive, hcontext'⟩ := hrange.context
      set needed := a.budget.needed messages (w.state.session r).params.maxTokens
      constructor
      · intro hadmits
        by_contra hlarge
        rw [if_neg hlarge] at hrequired
        obtain ⟨text, herror⟩ := hadmits.2 (by omega)
        obtain ⟨-, hsum⟩ := hrange.sum messages
        obtain ⟨-, hreserve⟩ := hrange.reserve
        have hneeded : needed < 2 ^ 64 := by
          have hunfold : needed = a.budget.used + a.budget.input? messages +
              (w.state.session r).params.maxTokens := rfl
          omega
        have hfits : ¬ b.contextTokens < b.requiredTokens := by omega
        exact raises_proceed (x := (engine, messages, b)) stream a hfits t _ herror needed
          (some context) text rfl
      · intro hsmall
        rw [if_pos hsmall] at hrequired
        by_cases hfull : context < needed
        · obtain ⟨text, hproceed⟩ := proceed_of_full (x := (engine, messages, b))
            (w := t) (r := r) rt stream a (by simp only; omega)
          dsimp only at hproceed ⊢
          rw [hproceed, hrequired, hroom]
          exact ⟨fun hcreated ↦ absurd (congrArg Tables.nextId htables) hcreated,
            fun _ ↦ ⟨text, rfl⟩⟩
        · exact ⟨fun _ ↦ by omega, fun h ↦ absurd h hfull⟩

end Context

namespace Scenario

def idle (maxTokens : ℤ) : NativeWorker := run runtime (opened { maxTokens := maxTokens } true)

def inquiry : Input := .contents [.text "question"]

def userMessage : Message := [("role", .str "user"), ("content", .arr [])]

theorem hasContext_idle (maxTokens : ℤ) (h : ((idle maxTokens).state.engines.map fun e ↦
    e.2.info.effectiveContextTokens) = [4096]) : HasContext 4096 1 (idle maxTokens) := by
  intro engine hengine
  have hmem : engine.info.effectiveContextTokens ∈ (idle maxTokens).state.engines.map fun e ↦
      e.2.info.effectiveContextTokens := List.mem_map_of_mem hengine
  simpa [h] using hmem

end Scenario

open Scenario in
theorem context_admission_idle :
    (∀ b, (budget runtime 1 [] 256 fits (idle 256)).1 = .ok b →
      (b.requiredTokens = 256 ∧ b.remainingTokens = 4096 - 256 ↔ (256 : ℤ) < 2 ^ 63)) ∧
      (Admits 4096 257 (idle 256) (generate runtime 3 1 inquiry starts (idle 256)) ↔
        (257 : ℤ) < 2 ^ 63) := by
  obtain ⟨hbudget, hgenerate⟩ :=
    context_admission runtime (idle 256) 1 4096 (hasContext_idle 256 (by decide +kernel))
  have hrange : InRange fits 4096 256 := ⟨by decide, by decide, by decide, by decide⟩
  refine ⟨fun b ↦ hbudget [] 256 fits b hrange, ?_⟩
  have hmax : ((idle 256).state.session 1).params.maxTokens = 256 := by decide +kernel
  have hrun := hgenerate 3 inquiry starts (by rw [hmax]; exact hrange)
  have hok : ((assess runtime 1 inquiry starts (idle 256)).1.toOption.map fun x ↦
      x.2.1.isEmpty) = some false := by decide +kernel
  rw [hmax] at hrun
  cases hresult : (assess runtime 1 inquiry starts (idle 256)).1 with
  | error e => simp [hresult, Except.toOption] at hok
  | ok x =>
    rw [hresult] at hrun hok
    have hempty : x.2.1.isEmpty = false := by simpa [Except.toOption] using hok
    have hneeded : starts.budget.needed x.2.1 256 = 257 := by
      simp [BudgetAnswers.needed, BudgetAnswers.input?, hempty, starts, fits]
    dsimp only at hrun
    rwa [hneeded] at hrun

open Scenario in
/-- A request for the largest number of output tokens wraps around: it is
reported to fit and gets a native operation. -/
theorem wrapped_admitted :
    InRange fits 4096 (2 ^ 63 - 1) ∧ HasContext 4096 1 (idle (2 ^ 63 - 1)) ∧
      ((budget runtime 1 [userMessage] (2 ^ 63 - 1) fits (idle (2 ^ 63 - 1))).1.toOption.map
        Budget.requiredTokens) = some (-2 ^ 63) ∧
      fits.needed [userMessage] (2 ^ 63 - 1) = 2 ^ 63 ∧
      ¬ Admits 4096 (2 ^ 63) (idle (2 ^ 63 - 1))
        (generate runtime 3 1 inquiry starts (idle (2 ^ 63 - 1))) := by
  have hcreated : (generate runtime 3 1 inquiry starts (idle (2 ^ 63 - 1))).2.state.native.nextId ≠
      (idle (2 ^ 63 - 1)).state.native.nextId := by decide +kernel
  refine ⟨⟨by decide, by decide, by decide, by decide⟩, hasContext_idle _ (by decide +kernel),
    by decide +kernel, by decide, fun hadmits ↦ ?_⟩
  exact absurd (hadmits.1 hcreated) (by decide)

end LibLitertLm.Worker
