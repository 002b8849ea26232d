import LibLitertLm.Worker.Opening

namespace LibLitertLm.Worker

open Code

structure SessionEntry where
  engineId : ℕ
  phase : HandlePhase
  streamId : Option ℕ

def NativeSession.entry (x : NativeSession) : SessionEntry := ⟨x.engineId, x.phase, x.streamId⟩

def NativeWorker.setNative (w : NativeWorker) (n : Native) : NativeWorker :=
  { w with state := { w.state with native := n } }

def Within (r r' : ℕ) (x y : NativeSession) : Prop := r' = 0 ∨ r' = r ∧ y.entry = x.entry

/-- An invariant that work on the native side and some changes of sessions cannot break. -/
structure Insulated (C : ℕ → NativeSession → NativeSession → Prop) (I : NativeWorker → Prop) :
    Prop where
  native : ∀ w n, n.nextId = w.state.native.nextId → w.state.native.next ≤ n.next → I w →
    I (w.setNative n)
  session : ∀ w r x, C r (w.state.session r) x → I w → I (w.setSession r x)

/-- Code that works on the native side and changes sessions in these ways only, whether it throws
or not. -/
def Inside (C : ℕ → NativeSession → NativeSession → Prop) (m : M α) : Prop :=
  ∀ I, Insulated C I → Keeps I m

section Inside

variable {C : ℕ → NativeSession → NativeSession → Prop} {r : ℕ} {m : M α} {f : α → M β}

theorem Inside.bind (hm : Inside C m) (hf : ∀ a, Inside C (f a)) : Inside C (m >>= f) :=
  fun I hI ↦ (hm I hI).bind fun a ↦ hf a I hI

theorem Inside.ite {p : Prop} [Decidable p] {n : M α} (hm : Inside C m) (hn : Inside C n) :
    Inside C (if p then m else n) :=
  fun I hI ↦ .ite (fun _ ↦ hm I hI) fun _ ↦ hn I hI

theorem Inside.when {p : Prop} [Decidable p] {m : M Unit} (hm : Inside C m) :
    Inside C (when p m) :=
  fun I hI ↦ .when fun _ ↦ hm I hI

theorem Inside.tryFinally {n : M β} (hm : Inside C m) (hn : Inside C n) :
    Inside C (tryFinally m n) :=
  fun I hI ↦ (hm I hI).tryFinally (hn I hI)

theorem Inside.forEach {as : List α} {body : α → M Unit} (hbody : ∀ a, Inside C (body a)) :
    Inside C (forEach as body) :=
  fun I hI ↦ .forEach fun a _ ↦ hbody a I hI

theorem Inside.mono {C' : ℕ → NativeSession → NativeSession → Prop}
    (h : ∀ r x y, C r x y → C' r x y) (hm : Inside C m) : Inside C' m :=
  fun I hI ↦ hm I ⟨hI.native, fun w r x hx ↦ hI.session w r x (h _ _ _ hx)⟩

/-- Work on the temporary session is part of the work on any other. -/
theorem Inside.wide (hm : Inside (Within 0) m) : Inside (Within r) m :=
  hm.mono fun _ _ _ h ↦ .inl (h.elim id And.left)

theorem Still.inside (h : Still m) : Inside C m := fun I _ ↦ h I

theorem inside_pure (a : α) : Inside C (pure a : M α) := fun _ _ ↦ .pure a

theorem inside_throw (e : Thrown) : Inside C (throw e : M α) := fun _ _ ↦ .throw e

theorem inside_fail (e : Failure) : Inside C (fail e : M α) := fun _ _ ↦ .throw _

theorem inside_lift (result : Except Thrown α) : Inside C (lift result : M α) :=
  fun _ _ ↦ .lift result

theorem inside_read (g : State → α) : Inside C (read g) := fun _ _ ↦ .map .get _

theorem inside_guard {p : Prop} [Decidable p] (e : Thrown) {f : Unit → M α}
    (hf : Inside C (f ())) : Inside C (if p then (throw e : M Unit) >>= f else f ()) :=
  fun I hI ↦ keeps_guard e fun _ ↦ hf I hI

theorem inside_modifySession {g : NativeSession → NativeSession} (hg : ∀ x, C r x (g x)) :
    Inside C (modifySession r g) :=
  fun _ hI w hw ↦ hI.session w r _ (hg _) hw

theorem inside_newSession (x : NativeSession) : Inside (Within r) (newSession 0 x) :=
  fun _ hI w hw ↦ hI.session w 0 x (.inl rfl) hw

theorem inside_modifyNative {g : Native → Native}
    (hg : ∀ n, (g n).nextId = n.nextId ∧ n.next ≤ (g n).next) : Inside C (modifyNative g) :=
  fun _ hI w hw ↦ hI.native w _ (hg _).1 (hg _).2 hw

section Natives

variable (pointer : Option ℕ) (kind : Resource → Bool)

theorem inside_use : Inside C (use pointer kind) := inside_modifyNative fun _ ↦ ⟨rfl, le_rfl⟩

theorem inside_set (setter : Setter) : Inside C (set pointer kind setter) :=
  inside_modifyNative fun _ ↦ ⟨rfl, le_rfl⟩

theorem inside_delete : Inside C (delete pointer kind) := inside_modifyNative fun _ ↦ ⟨rfl, le_rfl⟩

theorem inside_create (succeeds : Bool) (resource : Resource) :
    Inside C (create succeeds resource) := by
  refine .ite (.bind (inside_read _) fun _ ↦ ?_) (inside_pure _)
  exact .bind (inside_modifyNative fun n ↦ ⟨rfl, Nat.le_succ _⟩) fun _ ↦ inside_pure _

theorem inside_utf8 (needed allocated : Bool) : Inside C (utf8 needed allocated) :=
  (still_utf8 _ _).inside

theorem inside_decode (bytes : List UInt8) : Inside C (decode bytes) := (still_decode _).inside

theorem inside_checkPointer (action : String) (lastError : List UInt8) :
    Inside C (checkPointer pointer action lastError) :=
  (still_checkPointer _ _ _).inside

end Natives

/-- An object that is there for a piece of work. -/
theorem inside_created {body : Option ℕ → M α} {kind : Resource → Bool}
    (hbody : ∀ p, Inside C (body p)) (succeeds : Bool) (resource : Resource) (action : String)
    (lastError : List UInt8) :
    Inside C (do
      let p ← create succeeds resource
      checkPointer p action lastError
      tryFinally (body p) (delete p kind)) := by
  refine .bind (inside_create _ _) fun p ↦ .bind (inside_checkPointer _ _ _) fun _ ↦ ?_
  exact .tryFinally (hbody p) (inside_delete _ _)

theorem inside_findEngine (id : ℕ) : Inside C (findEngine id) := by
  refine .bind (inside_read _) fun engine ↦ ?_
  cases engine with
  | none => exact inside_fail _
  | some engine => exact .ite (inside_fail _) (inside_pure _)

theorem inside_findSession (id : ℕ) : Inside C (findSession id) := by
  refine .bind (inside_read _) fun _ ↦ .bind (inside_read _) fun _ ↦ ?_
  exact inside_guard _ (inside_pure _)

theorem inside_supported (file : Option ℕ) (a : Supported) : Inside C (supported file a) := by
  refine .bind (inside_use _ _) fun _ ↦ inside_guard _ ?_
  exact .bind (inside_use _ _) fun _ ↦ inside_pure _

theorem inside_inspect (path : String) (a : InspectAnswers) : Inside C (inspect path a) := by
  refine inside_guard _ (inside_guard _ (.bind (inside_utf8 _ _) fun _ ↦ ?_))
  refine inside_created (fun p ↦ ?_) _ _ _ _
  refine .bind (inside_supported _ _) fun _ ↦ .bind (inside_supported _ _) fun _ ↦ ?_
  refine .bind (inside_supported _ _) fun _ ↦ .bind (inside_use _ _) fun _ ↦ ?_
  cases a.hash with
  | none => exact inside_throw _
  | some hash =>
    exact .bind (inside_use _ _) fun _ ↦ .bind (inside_decode _) fun _ ↦ inside_pure _

theorem inside_openConversation (r : ℕ) (engine : NativeEngine) (config : Option ℕ)
    (a : OpenAnswers) : Inside (Within r) (openConversation r engine config a) := by
  refine .bind (inside_read _) fun session ↦ inside_created (fun p ↦ ?_) _ _ _ _
  refine .bind (inside_use _ _) fun _ ↦ .bind (inside_use _ _) fun _ ↦ ?_
  refine .bind (inside_use _ _) fun _ ↦ .bind (.when ?_) fun _ ↦ ?_
  · exact .bind (inside_utf8 _ _) fun _ ↦ inside_use _ _
  · refine .bind (inside_use _ _) fun _ ↦ .bind (inside_use _ _) fun _ ↦ ?_
    refine .bind (inside_create _ _) fun _ ↦ .bind
      (inside_modifySession fun _ ↦ .inr ⟨rfl, rfl⟩) fun _ ↦ ?_
    exact inside_checkPointer _ _ _

theorem inside_openRaw (r : ℕ) (engine : NativeEngine) (config : Option ℕ) (a : OpenAnswers) :
    Inside (Within r) (openRaw r engine config a) := by
  refine .bind (inside_use _ _) fun _ ↦ .bind (inside_use _ _) fun _ ↦ ?_
  refine .bind (inside_create _ _) fun _ ↦ .bind
    (inside_modifySession fun _ ↦ .inr ⟨rfl, rfl⟩) fun _ ↦ ?_
  exact inside_checkPointer _ _ _

theorem inside_openSession (r : ℕ) (engine : NativeEngine) (preface : Option (List Message))
    (a : OpenAnswers) : Inside (Within r) (openSession r engine preface a) := by
  refine .bind (inside_modifySession fun _ ↦ .inr ⟨rfl, rfl⟩) fun _ ↦ .bind
    (inside_read _) fun session ↦ ?_
  refine .bind (inside_create _ _) fun config ↦ .bind (inside_checkPointer _ _ _) fun _ ↦ ?_
  refine .bind (inside_create _ _) fun sampler ↦ .tryFinally ?_ ?_
  · refine .bind (inside_checkPointer _ _ _) fun _ ↦ .bind (inside_set _ _ _) fun _ ↦ ?_
    refine .bind (inside_use _ _) fun _ ↦ .bind (inside_use _ _) fun _ ↦ ?_
    refine .bind (inside_set _ _ _) fun _ ↦ .bind (inside_use _ _) fun _ ↦ ?_
    refine .bind (inside_use _ _) fun _ ↦ .bind (inside_set _ _ _) fun _ ↦ ?_
    refine .bind (inside_use _ _) fun _ ↦ .ite ?_ ?_
    · exact inside_openConversation _ _ _ _
    · exact inside_openRaw _ _ _ _
  · exact .bind (.when (inside_delete _ _)) fun _ ↦ inside_delete _ _

theorem inside_deleteHandle (r : ℕ) : Inside (Within r) (deleteHandle r) := by
  refine .bind (inside_read _) fun session ↦ .bind (.when ?_) fun _ ↦ .when ?_
  · exact .bind (inside_delete _ _) fun _ ↦ inside_modifySession fun _ ↦ .inr ⟨rfl, rfl⟩
  · exact .bind (inside_delete _ _) fun _ ↦ inside_modifySession fun _ ↦ .inr ⟨rfl, rfl⟩

theorem inside_useHandle (session : NativeSession) : Inside C (useHandle session) :=
  .ite (inside_use _ _) (inside_use _ _)

variable (rt : Runtime)

theorem inside_messages (input : Input) : Inside C (messages rt input) := (still_dart _).inside

theorem inside_budgetChecks (id : ℕ) (messages : List Message) (reserve : ℤ) :
    Inside C (budgetChecks rt id messages reserve) := by
  refine inside_guard _ (.bind (inside_read _) fun _ ↦ .bind (inside_findEngine _) fun _ ↦ ?_)
  refine .bind (.when (inside_lift _)) fun _ ↦ .bind (.when (inside_lift _)) fun _ ↦ inside_pure _

theorem inside_ensureOpen (r : ℕ) (engine : NativeEngine) (a : OpenAnswers) :
    Inside (Within r) (ensureOpen r engine a) :=
  .bind (inside_read _) fun _ ↦ .when (inside_openSession _ _ _ _)

theorem inside_query (r : ℕ) (engine : NativeEngine) (messages : List Message) (reserve : ℤ)
    (a : BudgetAnswers) : Inside C (query r engine messages reserve a) := by
  refine .bind (inside_read _) fun session ↦ .bind (inside_useHandle _) fun _ ↦ ?_
  refine .bind (.when (.ite ?_ ?_)) fun _ ↦ .bind (.when ?_) fun _ ↦ .bind (.when ?_) fun _ ↦ ?_
  · exact .bind (still_nativeError _ _).inside fun _ ↦ inside_fail _
  · exact .bind (inside_decode _) fun _ ↦ inside_fail _
  · refine .bind (inside_utf8 _ _) fun _ ↦ .bind (inside_use _ _) fun _ ↦ inside_useHandle _
  · exact .bind (inside_decode _) fun _ ↦ inside_fail _
  · exact inside_pure _

theorem inside_budgetQuery (r : ℕ) (engine : NativeEngine) (messages : List Message) (reserve : ℤ)
    (a : BudgetAnswers) : Inside (Within r) (budgetQuery r engine messages reserve a) :=
  .bind (inside_ensureOpen _ _ _) fun _ ↦ inside_query _ _ _ _ _

theorem inside_budget (r : ℕ) (messages : List Message) (reserve : ℤ) (a : BudgetAnswers) :
    Inside (Within r) (budget rt r messages reserve a) := by
  refine .bind (inside_budgetChecks _ _ _ _) fun engine ↦ .bind (inside_read _) fun session ↦ ?_
  cases messages.getLast? with
  | none => exact inside_budgetQuery _ _ _ _ _
  | some last =>
    refine .ite (.bind (inside_newSession _) fun _ ↦ ?_) (inside_budgetQuery _ _ _ _ _)
    refine .bind (inside_openSession 0 _ _ _).wide fun _ ↦ .tryFinally ?_
      (inside_deleteHandle 0).wide
    exact .bind (inside_budgetChecks _ _ _ _) fun _ ↦ (inside_budgetQuery 0 _ _ _ _).wide

theorem inside_prepare (r : ℕ) (input : Input) (a : GenerateAnswers) :
    Inside (Within r) (prepare rt r input a) := by
  refine .bind (inside_findSession _) fun session ↦ inside_guard _ ?_
  refine .bind (inside_findEngine _) fun engine ↦ .bind (inside_messages _ _) fun messages ↦ ?_
  refine .bind (inside_lift _) fun _ ↦ .bind (inside_ensureOpen _ _ _) fun _ ↦ ?_
  refine .bind (inside_budget _ _ _ _ _) fun budget ↦ inside_guard _ ?_
  refine .bind (inside_read _) fun session ↦ .bind (.when ?_) fun _ ↦ inside_pure _
  exact .bind (inside_deleteHandle _) fun _ ↦ inside_openSession _ _ _ _

theorem inside_tokenize (engine : NativeEngine) (a : TokenizeAnswers) :
    Inside C (tokenize engine a) := by
  refine .bind (inside_utf8 _ _) fun _ ↦ .bind (inside_use _ _) fun _ ↦ ?_
  refine inside_created (fun p ↦ ?_) _ _ _ _
  exact .bind (inside_use _ _) fun _ ↦ .bind (inside_use _ _) fun _ ↦ inside_pure _

section Pump

theorem Native.bridge_counters (n : Native) (id : ℕ) (c : Bridge.Call) :
    (n.bridge id c).nextId = n.nextId ∧ n.next ≤ (n.bridge id c).next := by
  unfold Native.bridge
  split_ifs <;> exact ⟨rfl, le_rfl⟩

theorem Native.callback_counters (n : Native) (c : Callback) :
    (n.callback c).nextId = n.nextId ∧ n.next ≤ (n.callback c).next := by
  obtain ⟨id, chunk, reply⟩ := c
  have h := n.bridge_counters id (.callback chunk)
  cases chunk <;> exact h

theorem inside_callbacks (cs : List Callback) : Inside C (callbacks cs) := by
  refine inside_modifyNative fun n ↦ ?_
  induction cs generalizing n with
  | nil => exact ⟨rfl, le_rfl⟩
  | cons c cs ih =>
    obtain ⟨hnextId, hnext⟩ := n.callback_counters c
    obtain ⟨hnextId', hnext'⟩ := ih (n.callback c)
    exact ⟨hnextId'.trans hnextId, hnext.trans hnext'⟩

theorem inside_bridge (id : ℕ) (c : Bridge.Call) : Inside C (bridge id c) :=
  inside_modifyNative fun n ↦ n.bridge_counters id c

theorem inside_operationDelete (id : ℕ) : Inside C (modifyNative (·.operationDelete id)) :=
  inside_modifyNative fun _ ↦ ⟨rfl, le_rfl⟩

theorem inside_take (id : ℕ) : Inside C (take id) := by
  refine .bind (inside_read _) fun known ↦ .bind (inside_read _) fun operation ↦ ?_
  refine .bind (inside_bridge _ _) fun _ ↦ ?_
  split
  · exact .bind (inside_create _ _) fun _ ↦ inside_pure _
  · exact inside_pure _

theorem inside_readEvent (native pointer : ℕ) (e : Bridge.Event) :
    Inside C (readEvent native pointer e) := by
  refine .tryFinally (.bind (inside_use _ _) fun _ ↦ .ite (inside_pure _) ?_) (inside_delete _ _)
  refine .bind (inside_use _ _) fun _ ↦ .bind (inside_use _ _) fun _ ↦ ?_
  exact .bind (inside_decode _) fun _ ↦ inside_pure _

theorem inside_metrics (r : ℕ) (a : PumpAnswers) : Inside (Within r) (metrics r a) := by
  refine .bind (inside_read _) fun session ↦ .bind (inside_read _) fun engine ↦ ?_
  cases engine with
  | none => exact inside_throw _
  | some engine =>
    refine .bind (inside_useHandle _) fun _ ↦ .bind (inside_useHandle _) fun _ ↦ ?_
    cases a.benchmark with
    | none => exact inside_pure _
    | some turns =>
      refine .bind (inside_create _ _) fun info ↦ .tryFinally ?_ (inside_delete _ _)
      refine .bind (inside_use _ _) fun _ ↦ ?_
      exact .bind (inside_modifySession fun _ ↦ .inr ⟨rfl, rfl⟩) fun _ ↦ inside_pure _

section Commit

variable (hC : ∀ x : NativeSession, ∀ history, C r x { x with history := history })

include hC

theorem inside_addAll (items : List Json) : Inside C (addAll r items) := by
  refine .forEach fun item ↦ ?_
  cases item.asMap with
  | none => exact inside_throw _
  | some message => exact inside_modifySession fun _ ↦ hC _ _

theorem inside_commitHistory (a : PumpAnswers) : Inside C (commitHistory rt r a) := by
  refine .bind (inside_read _) fun session ↦ .bind (inside_use _ _) fun _ ↦ ?_
  refine .bind (inside_read _) fun turns ↦ .bind (inside_decode _) fun text ↦ ?_
  split
  · exact inside_throw _
  · exact .bind (inside_modifySession fun _ ↦ hC _ _) fun _ ↦ inside_addAll hC _
  · exact inside_throw _

end Commit

theorem inside_start (native : ℕ) (pointer : Option ℕ) (kind : Resource → Bool) (message : Message)
    (a : GenerateAnswers) : Inside C (start native pointer kind message a) := by
  refine .bind (inside_read _) fun known ↦ .bind (inside_read _) fun operation ↦ ?_
  refine .bind (inside_bridge _ _) fun _ ↦ .ite (.bind (inside_use _ _) fun _ ↦ ?_) (inside_pure _)
  exact .ite (inside_modifyNative fun _ ↦ ⟨rfl, le_rfl⟩) (inside_bridge _ _)

theorem inside_request (session : NativeSession) (native : ℕ) (last : Message)
    (a : GenerateAnswers) : Inside C (request session native last a) := by
  refine .bind (inside_utf8 _ _) fun _ ↦ .ite (inside_start _ _ _ _ _) ?_
  refine .bind (inside_create _ _) fun input ↦ .bind (inside_checkPointer _ _ _) fun _ ↦ ?_
  refine inside_guard _ (.tryFinally ?_ (inside_delete _ _))
  exact .bind (inside_use _ _) fun _ ↦ inside_start _ _ _ _ _

end Pump

end Inside

end LibLitertLm.Worker
