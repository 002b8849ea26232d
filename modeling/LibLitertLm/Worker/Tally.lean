import LibLitertLm.Worker.Isolation

namespace LibLitertLm.Worker

open Code

def NativeSession.Holds (x : NativeSession) (p : ℕ) : Prop := x.chat = some p ∨ x.raw = some p

/-- The start indices of a session stand where the reports on its handle ended; `d` may be a
session that is being reported on. -/
structure Tallied (counted : ℕ → Benchmark) (d : ℕ → Prop) (w : NativeWorker) : Prop where
  fresh : ∀ p, w.state.native.next ≤ p → counted p = ⟨[], []⟩
  below : ∀ r p, (w.state.session r).Holds p → p < w.state.native.next
  distinct : ∀ r r' p, (w.state.session r).Holds p → (w.state.session r').Holds p → r = r'
  turns : ∀ r p, ¬ d r → (w.state.session r).Holds p →
    (w.state.session r).prefillTurns = (counted p).prefill.length ∧
      (w.state.session r).decodeTurns = (counted p).decode.length

/-- No new object, and no other start indices for one that stays. -/
def Modest (d : ℕ → Prop) (r : ℕ) (x y : NativeSession) : Prop :=
  ∀ p, y.Holds p → x.Holds p ∧
    (¬ d r → y.prefillTurns = x.prefillTurns ∧ y.decodeTurns = x.decodeTurns)

variable {rt : Runtime} {counted : ℕ → Benchmark} {d : ℕ → Prop} {r stream : ℕ}
  {w t : NativeWorker} {m : M α}

theorem insulated_tallied : Insulated (Modest d) (Tallied counted d) where
  native w n _ hnext h :=
    { h with
      fresh := fun p hp ↦ h.fresh p (hnext.trans hp)
      below := fun r p hp ↦ (h.below r p hp).trans_le hnext }
  session w r x hx h := by
    have hheld (r' p : ℕ) (hp : ((w.setSession r x).state.session r').Holds p) :
        (w.state.session r').Holds p ∧ (¬ d r' →
          ((w.setSession r x).state.session r').prefillTurns = (w.state.session r').prefillTurns ∧
          ((w.setSession r x).state.session r').decodeTurns =
            (w.state.session r').decodeTurns) := by
      by_cases hr : r' = r
      · subst hr
        rw [NativeWorker.setSession_session] at hp ⊢
        exact hx p hp
      · have hother : (w.setSession r x).state.session r' = w.state.session r' :=
          Function.update_of_ne hr _ _
        rw [hother] at hp ⊢
        exact ⟨hp, fun _ ↦ ⟨rfl, rfl⟩⟩
    refine ⟨h.fresh, fun r' p hp ↦ h.below r' p (hheld r' p hp).1, fun r₁ r₂ p h₁ h₂ ↦ ?_,
      fun r' p hd hp ↦ ?_⟩
    · exact h.distinct r₁ r₂ p (hheld r₁ p h₁).1 (hheld r₂ p h₂).1
    · obtain ⟨hold, hturns⟩ := hheld r' p hp
      obtain ⟨hprefill, hdecode⟩ := hturns hd
      obtain ⟨hp₁, hp₂⟩ := h.turns r' p hd hold
      exact ⟨hprefill.trans hp₁, hdecode.trans hp₂⟩

def Tallies (m : M α) : Prop := ∀ counted, Keeps (Tallied counted fun _ ↦ False) m

theorem Inside.tallies (h : Inside (Modest fun _ ↦ False) m) : Tallies m :=
  fun _ ↦ h _ insulated_tallied

theorem Tallies.bind {f : α → M β} (hm : Tallies m) (hf : ∀ a, Tallies (f a)) :
    Tallies (m >>= f) :=
  fun counted ↦ (hm counted).bind fun a ↦ hf a counted

theorem Tallies.ite {p : Prop} [Decidable p] {n : M α} (hm : Tallies m) (hn : Tallies n) :
    Tallies (if p then m else n) :=
  fun counted ↦ .ite (fun _ ↦ hm counted) fun _ ↦ hn counted

theorem modest_of_eq {x y : NativeSession} (hchat : y.chat = x.chat) (hraw : y.raw = x.raw)
    (hprefill : y.prefillTurns = x.prefillTurns) (hdecode : y.decodeTurns = x.decodeTurns) :
    Modest d r x y := by
  intro p hp
  rw [NativeSession.Holds, hchat, hraw] at hp
  exact ⟨hp, fun _ ↦ ⟨hprefill, hdecode⟩⟩

/-- A session without an object may change in any way, as long as it gets none. -/
theorem modest_of_none {x y : NativeSession} (hchat : y.chat = none) (hraw : y.raw = none) :
    Modest d r x y := by
  intro p hp
  rw [NativeSession.Holds, hchat, hraw] at hp
  obtain hp | hp := hp <;> cases hp

theorem inside_forget (r : ℕ) : Inside (Modest d) (deleteHandle r) := by
  refine .bind (inside_read _) fun session ↦ .bind (.when ?_) fun _ ↦ .when ?_
  · refine .bind (inside_delete _ _) fun _ ↦ inside_modifySession fun x p hp ↦ ?_
    obtain hp | hp := hp
    · cases hp
    · exact ⟨.inr hp, fun _ ↦ ⟨rfl, rfl⟩⟩
  · refine .bind (inside_delete _ _) fun _ ↦ inside_modifySession fun x p hp ↦ ?_
    obtain hp | hp := hp
    · exact ⟨.inl hp, fun _ ↦ ⟨rfl, rfl⟩⟩
    · cases hp

structure Bare (counted : ℕ → Benchmark) (r : ℕ) (w : NativeWorker) : Prop where
  tallied : Tallied counted (fun _ ↦ False) w
  chat : (w.state.session r).chat = none
  raw : (w.state.session r).raw = none
  prefill : (w.state.session r).prefillTurns = 0
  decode : (w.state.session r).decodeTurns = 0

def Frozen (_ : ℕ) (_ _ : NativeSession) : Prop := False

theorem insulated_bare : Insulated Frozen (Bare counted r) where
  native w n hid hnext h := { h with tallied := insulated_tallied.native w n hid hnext h.tallied }
  session _ _ _ hx _ := hx.elim

def Equips (r : ℕ) (m : M α) : Prop :=
  ∀ counted w, Bare counted r w → Post m w fun _ t ↦ Tallied counted (fun _ ↦ False) t

theorem Equips.after {n : M β} {f : β → M α} (hn : Inside Frozen n) (hf : ∀ b, Equips r (f b)) :
    Equips r (n >>= f) := by
  intro counted w hw
  rw [post_bind]
  refine (hn _ insulated_bare w hw).mono fun result t ht ↦ ?_
  cases result with
  | error e => exact ht.tallied
  | ok b => exact hf b counted t ht

theorem Equips.tryFinally {n : M β} (hm : Equips r m) (hn : Inside (Modest fun _ ↦ False) n) :
    Equips r (tryFinally m n) := by
  intro counted w hw
  rw [post_tryFinally]
  refine (hm counted w hw).mono fun result t ht ↦ (hn _ insulated_tallied t ht).mono ?_
  intro result' u hu
  cases result' <;> exact hu

/-- The new handle has a number of its own, under which nothing was counted. -/
theorem Tallied.equip (h : Bare counted r w) {x : NativeSession}
    (hx : ∀ q, x.Holds q → q = w.state.native.next)
    (hprefill : x.prefillTurns = 0) (hdecode : x.decodeTurns = 0) (resource : Resource) :
    Tallied counted (fun _ ↦ False)
      ((w.setNative (w.state.native.create resource)).setSession r x) := by
  have hself :
    ((w.setNative (w.state.native.create resource)).setSession r x).state.session r = x :=
    Function.update_self ..
  have hother {r' : ℕ} (hr : r' ≠ r) : ((w.setNative (w.state.native.create resource)).setSession
      r x).state.session r' = w.state.session r' := Function.update_of_ne hr _ _
  have hunheld (r' : ℕ) : ¬ (w.state.session r').Holds w.state.native.next :=
    fun hp ↦ (h.tallied.below r' _ hp).ne rfl
  refine ⟨fun p hp ↦ h.tallied.fresh p ((Nat.le_succ _).trans hp), fun r' p hp ↦ ?_,
    fun r₁ r₂ p h₁ h₂ ↦ ?_, fun r' p _ hp ↦ ?_⟩
  · by_cases hr : r' = r
    · subst hr
      rw [hself] at hp
      exact (hx p hp).trans_lt (Nat.lt_succ_self _)
    · rw [hother hr] at hp
      exact (h.tallied.below r' p hp).trans (Nat.lt_succ_self _)
  · by_cases hr₁ : r₁ = r
    · subst hr₁
      rw [hself] at h₁
      by_contra hne
      rw [hother (Ne.symm hne), hx p h₁] at h₂
      exact hunheld r₂ h₂
    · rw [hother hr₁] at h₁
      by_cases hr₂ : r₂ = r
      · subst hr₂
        rw [hself] at h₂
        rw [hx p h₂] at h₁
        exact absurd h₁ (hunheld r₁)
      · rw [hother hr₂] at h₂
        exact h.tallied.distinct r₁ r₂ p h₁ h₂
  · by_cases hr : r' = r
    · subst hr
      rw [hself] at hp ⊢
      rw [hx p hp, h.tallied.fresh _ le_rfl]
      exact ⟨hprefill, hdecode⟩
    · rw [hother hr] at hp ⊢
      exact h.tallied.turns r' p id hp

theorem Equips.grab {f : Option ℕ → M α} {g : Option ℕ → NativeSession → NativeSession}
    (hg : ∀ p x q, x.chat = none → x.raw = none → (g p x).Holds q → p = some q)
    (hturns : ∀ p x, (g p x).prefillTurns = x.prefillTurns ∧ (g p x).decodeTurns = x.decodeTurns)
    (hf : ∀ p, Inside (Modest fun _ ↦ False) (f p)) (succeeds : Bool) (resource : Resource) :
    Equips r (do
      let p ← create succeeds resource
      modifySession r (g p)
      f p) := by
  intro counted w hw
  obtain ⟨hprefill, hdecode⟩ := hturns (some w.state.native.next) (w.state.session r)
  cases succeeds with
  | false =>
    have hnone (q : ℕ) (hq : (g none (w.state.session r)).Holds q) : (w.state.session r).Holds q ∧
        (¬ False → (g none (w.state.session r)).prefillTurns = (w.state.session r).prefillTurns ∧
          (g none (w.state.session r)).decodeTurns = (w.state.session r).decodeTurns) :=
      nomatch hg none _ q hw.chat hw.raw hq
    exact (hf none _ insulated_tallied _
      (insulated_tallied.session w r (g none (w.state.session r)) hnone hw.tallied))
  | true =>
    refine hf (some w.state.native.next) _ insulated_tallied _ ?_
    refine Tallied.equip hw (x := g (some w.state.native.next) (w.state.session r))
      (fun q hq ↦ ?_) (hprefill.trans hw.prefill) (hdecode.trans hw.decode) resource
    exact (Option.some.inj (hg _ _ q hw.chat hw.raw hq)).symm

theorem equips_openConversation (r : ℕ) (engine : NativeEngine) (config : Option ℕ)
    (a : OpenAnswers) : Equips r (openConversation r engine config a) := by
  refine .after (inside_read _) fun session ↦ .after (inside_create _ _) fun chatConfig ↦ ?_
  refine .after (inside_checkPointer _ _ _) fun _ ↦ .tryFinally ?_ (inside_delete _ _)
  refine .after (inside_use _ _) fun _ ↦ .after (inside_use _ _) fun _ ↦ ?_
  refine .after (inside_use _ _) fun _ ↦ .after (.when ?_) fun _ ↦ ?_
  · exact .bind (inside_utf8 _ _) fun _ ↦ inside_use _ _
  · refine .after (inside_use _ _) fun _ ↦ .after (inside_use _ _) fun _ ↦ ?_
    refine .grab (g := fun p s ↦ { s with chat := p }) (fun p x q _ hraw hq ↦ ?_)
      (fun _ _ ↦ ⟨rfl, rfl⟩) (fun p ↦ inside_checkPointer _ _ _) _ _
    obtain hq | hq := hq
    · exact hq
    · rw [hraw] at hq
      cases hq

theorem equips_openRaw (r : ℕ) (engine : NativeEngine) (config : Option ℕ) (a : OpenAnswers) :
    Equips r (openRaw r engine config a) := by
  refine .after (inside_use _ _) fun _ ↦ .after (inside_use _ _) fun _ ↦ ?_
  refine .grab (g := fun p s ↦ { s with raw := p }) (fun p x q hchat _ hq ↦ ?_)
    (fun _ _ ↦ ⟨rfl, rfl⟩) (fun p ↦ inside_checkPointer _ _ _) _ _
  obtain hq | hq := hq
  · rw [hchat] at hq
    cases hq
  · exact hq

/-- A session without handle is opened: the start indices are reset first. -/
theorem Tallied.openSession (h : Tallied counted (fun _ ↦ False) w)
    (hchat : (w.state.session r).chat = none) (hraw : (w.state.session r).raw = none)
    (engine : NativeEngine) (preface : Option (List Message)) (a : OpenAnswers) :
    Post (openSession r engine preface a) w fun _ t ↦ Tallied counted (fun _ ↦ False) t := by
  rw [Worker.openSession, modifySession, post_bind, post_update]
  have hrest : Equips r (do
      let session ← read fun s ↦ s.session r
      let config ← create a.config .sessionConfig
      checkPointer config "Cannot create session settings" a.lastError
      let sampler ← create a.sampler .samplerParams
      tryFinally (do
          checkPointer sampler "Cannot create sampler settings" a.lastError
          set sampler isSampler (.topK (toInt32 session.params.topK))
          use sampler isSampler
          use sampler isSampler
          set sampler isSampler (.seed (toInt32 (session.params.seed.getD 0)))
          use config isConfig
          use sampler isSampler
          set config isConfig (.maxOutputTokens (toInt32 session.params.maxTokens))
          use config isConfig
          if session.conversation then openConversation r engine config a
          else openRaw r engine config a)
        (do
          when sampler.isSome (delete sampler isSampler)
          delete config isConfig)) := by
    refine .after (inside_read _) fun session ↦ .after (inside_create _ _) fun config ↦ ?_
    refine .after (inside_checkPointer _ _ _) fun _ ↦ .after (inside_create _ _) fun sampler ↦ ?_
    refine .tryFinally ?_ (.bind (.when (inside_delete _ _)) fun _ ↦ inside_delete _ _)
    refine .after (inside_checkPointer _ _ _) fun _ ↦ .after (inside_set _ _ _) fun _ ↦ ?_
    refine .after (inside_use _ _) fun _ ↦ .after (inside_use _ _) fun _ ↦ ?_
    refine .after (inside_set _ _ _) fun _ ↦ .after (inside_use _ _) fun _ ↦ ?_
    refine .after (inside_use _ _) fun _ ↦ .after (inside_set _ _ _) fun _ ↦ ?_
    refine .after (inside_use _ _) fun _ ↦ ?_
    cases session.conversation with
    | true => exact equips_openConversation r engine config a
    | false => exact equips_openRaw r engine config a
  refine hrest counted (w.setSession r { w.state.session r with
    prefillTurns := 0, decodeTurns := 0, nativePreface :=
      preface.getD (w.state.session r).history }) ?_
  refine ⟨insulated_tallied.session w r _ (modest_of_none hchat hraw) h, ?_, ?_, ?_, ?_⟩
  all_goals rw [NativeWorker.setSession_session]
  · exact hchat
  · exact hraw

theorem post_forget (r : ℕ) (w : NativeWorker) : Post (deleteHandle r) w fun result t ↦
    result = .ok () ∧ (t.state.session r).chat = none ∧ (t.state.session r).raw = none := by
  rw [deleteHandle, post_read_bind]
  cases hchat : (w.state.session r).chat with
  | none =>
    cases hraw : (w.state.session r).raw with
    | none => exact ⟨rfl, hchat, hraw⟩
    | some p => simp [when, modifySession, delete, modifyNative, hchat]
  | some q =>
    cases hraw : (w.state.session r).raw with
    | none => simp [when, modifySession, delete, modifyNative, hraw]
    | some p => simp [when, modifySession, delete, modifyNative]

theorem tallies_ensureOpen (r : ℕ) (engine : NativeEngine) (a : OpenAnswers) :
    Tallies (ensureOpen r engine a) := by
  intro counted w h
  rw [ensureOpen, post_read_bind, when]
  split_ifs with hnone
  · simp only [Bool.and_eq_true, Option.isNone_iff_eq_none] at hnone
    exact h.openSession hnone.1 hnone.2 engine none a
  · exact h

theorem tallies_budgetQuery (r : ℕ) (engine : NativeEngine) (messages : List Message) (reserve : ℤ)
    (a : BudgetAnswers) : Tallies (budgetQuery r engine messages reserve a) :=
  .bind (tallies_ensureOpen _ _ _) fun _ ↦ (inside_query _ _ _ _ _).tallies

theorem tallies_budget (r : ℕ) (messages : List Message) (reserve : ℤ) (a : BudgetAnswers) :
    Tallies (budget rt r messages reserve a) := by
  refine .bind (inside_budgetChecks _ _ _ _).tallies fun engine ↦ ?_
  refine .bind (inside_read _).tallies fun session ↦ ?_
  cases messages.getLast? with
  | none => exact tallies_budgetQuery _ _ _ _ _
  | some last =>
    intro counted
    refine .ite (fun _ w h ↦ ?_) fun _ ↦ tallies_budgetQuery _ _ _ _ _ counted
    rw [newSession, modifySession, post_bind, post_update, post_bind]
    generalize hx : NativeSession.mk session.engineId session.params true
      (session.history ++ messages.dropLast) (session.history ++ messages.dropLast) [] none none
      .ready none 0 0 {} = x
    have hchat : x.chat = none := by rw [← hx]
    have hraw : x.raw = none := by rw [← hx]
    have hw : Tallied counted (fun _ ↦ False) (w.setSession 0 x) :=
      insulated_tallied.session w 0 x (modest_of_none hchat hraw) h
    have hself : (w.setSession 0 x).state.session 0 = x := NativeWorker.setSession_session w 0 x
    refine (hw.openSession (by rw [hself, hchat]) (by rw [hself, hraw]) engine none a.preview).mono
      fun result t ht ↦ ?_
    cases result with
    | error e => exact ht
    | ok =>
      refine Keeps.tryFinally ?_ ((inside_forget 0).tallies counted) t ht
      exact ((inside_budgetChecks rt 0 [last] reserve).tallies.bind fun engine ↦
        tallies_budgetQuery _ _ _ _ _) counted

theorem tallies_prepare (r : ℕ) (input : Input) (a : GenerateAnswers) :
    Tallies (prepare rt r input a) := by
  refine .bind (inside_findSession r).tallies fun session counted ↦ keeps_guard _ fun _ ↦ ?_
  refine Tallies.bind (inside_findEngine _).tallies (fun engine ↦ ?_) counted
  refine .bind (inside_messages rt input).tallies fun messages ↦ ?_
  refine .bind (inside_lift _).tallies fun _ ↦ .bind (tallies_ensureOpen r engine _) fun _ ↦ ?_
  refine .bind (tallies_budget r messages _ _) fun budget counted ↦ keeps_guard _ fun _ ↦ ?_
  refine Tallies.bind (inside_read _).tallies (fun session ↦ ?_) counted
  refine .bind (fun counted ↦ .when fun _ w h ↦ ?_) fun _ ↦ (inside_pure _).tallies
  rw [post_bind]
  refine (((inside_forget r).tallies counted w h).and (post_forget r w)).mono
    fun result t ⟨ht, hok, hchat, hraw⟩ ↦ ?_
  subst hok
  exact ht.openSession hchat hraw engine _ _

theorem tallies_createSession (engineId : ℕ) (params : GenerationParams)
    (initial : List ChatMessage) (conversation : Bool) (a : OpenAnswers) :
    Tallies (createSession rt engineId params initial conversation a) := by
  refine .bind (inside_findEngine engineId).tallies fun engine counted ↦ keeps_guard _ fun _ ↦ ?_
  refine Tallies.bind (inside_messages rt _).tallies (fun history ↦ ?_) counted
  refine .bind (inside_read _).tallies fun r counted w h ↦ ?_
  rw [newSession, modifySession, post_bind, post_update]
  generalize hx : NativeSession.mk engineId params (conversation || params.applyPromptTemplate)
    history history [] none none .ready none 0 0 {} = x
  have hchat : x.chat = none := by rw [← hx]
  have hraw : x.raw = none := by rw [← hx]
  have hw : Tallied counted (fun _ ↦ False) (w.setSession r x) :=
    insulated_tallied.session w r x (modest_of_none hchat hraw) h
  have hself : (w.setSession r x).state.session r = x := NativeWorker.setSession_session w r x
  refine Still.post_bind (fun _ ↦ .lift _) (fun _ ↦ ?_) fun _ ↦ hw
  rw [post_bind]
  refine (hw.openSession (by rw [hself, hchat]) (by rw [hself, hraw]) engine none a).mono
    fun result t ht ↦ ?_
  cases result with
  | error e => exact ht
  | ok => exact { ht with }

/-- The tally is about the sessions and the numbers of native objects only. -/
theorem keeps_tallied_update {f : State → State} (hsession : ∀ s, (f s).session = s.session)
    (hnext : ∀ s, (f s).native.next = s.native.next) : Keeps (Tallied counted d) (update f) := by
  intro w h
  rw [post_update]
  refine ⟨fun p hp ↦ h.fresh p (hnext w.state ▸ hp), fun r p hp ↦ ?_, fun r r' p hp hp' ↦ ?_,
    fun r p hd hp ↦ ?_⟩
  · rw [hsession] at hp
    rw [hnext]
    exact h.below r p hp
  · rw [hsession] at hp hp'
    exact h.distinct r r' p hp hp'
  · rw [hsession] at hp ⊢
    exact h.turns r p hd hp

theorem tallies_update {f : State → State} (hsession : ∀ s, (f s).session = s.session)
    (hnext : ∀ s, (f s).native.next = s.native.next) : Tallies (update f) :=
  fun _ ↦ keeps_tallied_update hsession hnext

theorem tallies_modifyOp (stream : ℕ) (f : Op → Op) : Tallies (modifyOp stream f) :=
  tallies_update (fun _ ↦ rfl) fun _ ↦ rfl

theorem tallies_modifySession (r : ℕ) {g : NativeSession → NativeSession}
    (hg : ∀ x, Modest (fun _ ↦ False) r x (g x)) : Tallies (modifySession r g) :=
  (inside_modifySession hg).tallies

theorem tallies_event (stream : ℕ) (e : Event) : Tallies (event stream e) := by
  intro counted w h
  refine (post_event ..).mpr ?_
  rw [emit]
  split_ifs
  · exact { h with }
  · exact { h with }

theorem tallies_launch (stream r : ℕ) (messages : List Message) (a : GenerateAnswers) :
    Tallies (launch stream r messages a) := by
  refine .bind (inside_read _).tallies fun native ↦ .bind ?_ fun _ counted ↦
    keeps_guard _ fun _ ↦ ?_
  · refine tallies_update (fun _ ↦ rfl) fun s ↦ ?_
    dsimp only [Native.operationCreate]
    split_ifs <;> rfl
  refine Tallies.bind (tallies_modifyOp _ _) (fun _ ↦ ?_) counted
  refine .bind (tallies_modifySession r fun x ↦ modest_of_eq rfl rfl rfl rfl) fun _ ↦ ?_
  refine .bind (tallies_update (fun _ ↦ rfl) fun _ ↦ rfl) fun _ ↦ .bind ?_ fun _ ↦ ?_
  · intro counted w h
    rw [post_tryCatch]
    refine ((Tallies.bind (inside_read _).tallies fun session ↦
      (inside_request _ _ _ _).tallies) counted w h).mono fun result t ht ↦ ?_
    cases result with
    | ok => exact ht
    | error e =>
      refine (?_ : Tallies _) counted t ht
      refine .bind (tallies_update (fun _ ↦ rfl) fun _ ↦ rfl) fun _ ↦ ?_
      refine .bind (tallies_modifySession r fun x ↦ modest_of_eq rfl rfl rfl rfl) fun _ ↦ ?_
      exact .bind (inside_operationDelete _).tallies fun _ ↦ (inside_throw _).tallies
  · exact tallies_update (fun _ ↦ rfl) fun _ ↦ rfl

theorem inside_cancelSession (r : ℕ) :
    Inside (Modest d) (modifySession r fun s ↦ { s with phase := .cancelRequested }) :=
  inside_modifySession fun _ ↦ modest_of_eq rfl rfl rfl rfl

theorem tallies_cancel (stream : ℕ) (overflow : Bool) : Tallies (cancel stream overflow) := by
  refine .bind (inside_read _).tallies fun op ↦ .ite ?_ (inside_pure _).tallies
  refine .bind (tallies_modifyOp _ _) fun _ ↦ ?_
  refine .bind (inside_cancelSession _).tallies fun _ ↦ ?_
  refine .bind (Inside.when (inside_bridge _ _)).tallies fun _ ↦ ?_
  exact .bind (inside_read _).tallies fun session ↦ (inside_useHandle _).tallies

theorem tallies_settle (stream : ℕ) (e : Event) : Tallies (settle stream e) := by
  refine .bind (inside_read _).tallies fun op ↦ .bind (inside_operationDelete _).tallies fun _ ↦ ?_
  refine .bind (tallies_update (fun _ ↦ rfl) fun _ ↦ rfl) fun _ ↦ ?_
  refine .bind (tallies_modifySession _ fun x ↦ modest_of_eq rfl rfl rfl rfl) fun _ ↦ ?_
  exact tallies_event stream e

/-- Any other ending than a completion deletes the handle. -/
theorem tallies_finish (stream : ℕ) {kind : ℕ} (hkind : kind ≠ 1) (detail : String)
    (failureAfterStop : Bool) (a : PumpAnswers) :
    Tallies (finish rt stream kind detail failureAfterStop a) := by
  refine .bind (inside_read _).tallies fun known ↦ .ite ?_ (inside_pure _).tallies
  refine .bind (inside_read _).tallies fun _ ↦ .bind (inside_read _).tallies fun _ ↦ ?_
  dsimp only
  rw [if_pos (by simp [hkind])]
  exact .bind (inside_forget _).tallies fun _ ↦ tallies_settle _ _

theorem Tallies.onSome {o : Option α} {f : α → M Unit} (hf : ∀ a, Tallies (f a)) :
    Tallies (onSome o f) :=
  fun counted ↦ .onSome fun a _ ↦ hf a counted

theorem Tallies.forEach {as : List α} {body : α → M Unit} (hbody : ∀ a, Tallies (body a)) :
    Tallies (forEach as body) :=
  fun counted ↦ .forEach fun a _ ↦ hbody a counted

theorem tallies_disposeSession (r : ℕ) : Tallies (disposeSession rt r) := by
  refine .bind (inside_read _).tallies fun known ↦ .ite ?_ (inside_pure _).tallies
  refine .bind (tallies_modifySession r fun x ↦ modest_of_eq rfl rfl rfl rfl) fun _ ↦ ?_
  refine .bind (inside_read _).tallies fun session ↦ .bind (inside_read _).tallies fun op ↦ ?_
  refine .bind (.onSome fun stream ↦ tallies_cancel stream false) fun _ ↦ ?_
  refine .bind (inside_forget r).tallies fun _ ↦ ?_
  refine .bind
    (.onSome fun stream ↦ tallies_finish stream (by decide) "" false noAnswers) fun _ ↦ ?_
  refine .bind (tallies_modifySession r fun x ↦ modest_of_eq rfl rfl rfl rfl) fun _ ↦ ?_
  exact tallies_update (fun _ ↦ rfl) fun _ ↦ rfl

theorem tallies_disposeEngine (id : ℕ) : Tallies (disposeEngine rt id) := by
  refine .bind (inside_read _).tallies fun engine ↦ ?_
  cases engine with
  | none => exact (inside_pure _).tallies
  | some engine =>
    refine .bind (tallies_update (fun _ ↦ rfl) fun _ ↦ rfl) fun _ ↦ ?_
    refine .bind (inside_read _).tallies fun ids ↦ ?_
    refine .bind (.forEach fun r ↦ tallies_disposeSession r) fun _ ↦ ?_
    refine .bind (tallies_update (fun _ ↦ rfl) fun _ ↦ rfl) fun _ ↦ ?_
    refine .bind (tallies_update (fun _ ↦ rfl) fun _ ↦ rfl) fun _ ↦ ?_
    exact tallies_update (fun _ ↦ rfl) fun _ ↦ rfl

theorem tallies_closeAll : Tallies (closeAll rt) := by
  refine .bind (tallies_update (fun _ ↦ rfl) fun _ ↦ rfl) fun _ ↦ .bind
    (inside_read _).tallies fun ids ↦ ?_
  refine .bind (.forEach fun id ↦ tallies_disposeEngine id) fun _ ↦ ?_
  exact tallies_update (fun _ ↦ rfl) fun _ ↦ rfl

theorem tallies_loadEngine (config : EngineConfig) (a : LoadAnswers) :
    Tallies (loadEngine config a) := by
  refine .bind (inside_read _).tallies fun closing counted ↦ keeps_guard _ fun _ ↦ ?_
  refine Tallies.bind (inside_inspect _ _).tallies (fun info ↦ ?_) counted
  refine .bind (inside_lift _).tallies fun ⟨maximum, context⟩ ↦ ?_
  refine .bind (inside_utf8 _ _).tallies fun _ ↦ .bind (inside_utf8 _ _).tallies fun _ ↦ ?_
  refine .bind (inside_utf8 _ _).tallies fun _ ↦ .bind (inside_utf8 _ _).tallies fun _ ↦ ?_
  refine .bind (inside_create _ _).tallies fun settings ↦ ?_
  refine .bind (inside_checkPointer _ _ _).tallies fun _ counted ↦ ?_
  refine .tryFinally (Tallies.bind (inside_set _ _ _).tallies (fun _ ↦ ?_) counted)
    ((inside_delete _ _).tallies counted)
  refine .bind (inside_use _ _).tallies fun _ ↦ .bind (inside_use _ _).tallies fun _ ↦ ?_
  refine .bind (.onSome fun size ↦ (inside_set _ _ _).tallies) fun _ ↦ ?_
  have hstring (allocated : Bool) : Inside (Modest fun _ ↦ False) (do
      utf8 true allocated
      use settings isSettings) := .bind (inside_utf8 _ _) fun _ ↦ inside_use _ _
  refine .bind (Inside.when (hstring _)).tallies fun _ ↦ ?_
  refine .bind (Inside.when (hstring _)).tallies fun _ ↦ ?_
  refine .bind (inside_use _ _).tallies fun _ ↦ .bind (inside_create _ _).tallies fun pointer ↦ ?_
  refine .bind (inside_checkPointer _ _ _).tallies fun _ ↦ ?_
  cases pointer with
  | none => exact (inside_throw _).tallies
  | some pointer =>
    refine .bind (inside_use _ _).tallies fun _ ↦ .ite (.bind ?_ fun _ ↦ (inside_fail _).tallies) ?_
    · exact tallies_update (fun _ ↦ rfl) fun _ ↦ rfl
    · refine .bind (inside_read _).tallies fun id ↦ .bind ?_ fun _ ↦ (inside_pure _).tallies
      exact tallies_update (fun _ ↦ rfl) fun _ ↦ rfl

theorem tallies_cancelFound (streamId : Option ℕ) (value : Option Value) : Tallies (do
    let op ← findOperation streamId
    onSome op fun stream ↦ cancel stream false
    pure value) :=
  .bind (inside_read _).tallies fun _ ↦ .bind (.onSome fun stream ↦ tallies_cancel stream false)
    fun _ ↦ (inside_pure _).tallies

theorem tallies_serve {command : Command}
    (hother : ∀ stream r input a, command ≠ .generate stream r input a) :
    Tallies (serve rt command) := by
  cases command with
  | generate stream r input a => exact absurd rfl (hother stream r input a)
  | loadEngine config a => exact .bind (tallies_loadEngine config a) fun _ ↦ (inside_pure _).tallies
  | inspectModel path a => exact .bind (inside_inspect _ _).tallies fun _ ↦ (inside_pure _).tallies
  | engineInfo id => exact .bind (inside_findEngine _).tallies fun _ ↦ (inside_pure _).tallies
  | createSession engineId params initial conversation a =>
    exact .bind (tallies_createSession _ _ _ _ _) fun _ ↦ (inside_pure _).tallies
  | credit stream =>
    refine .bind (inside_read _).tallies fun known ↦ .bind (fun counted ↦ .when fun _ ↦ ?_)
      fun _ ↦ (inside_pure _).tallies
    exact tallies_modifyOp _ _ counted
  | cancelStream stream => exact tallies_cancelFound _ _
  | cancelSession r => exact .bind (inside_read _).tallies fun streamId ↦ tallies_cancelFound _ _
  | disposeSession r => exact .bind (tallies_disposeSession r) fun _ ↦ (inside_pure _).tallies
  | disposeEngine id => exact .bind (tallies_disposeEngine id) fun _ ↦ (inside_pure _).tallies
  | budget r input reserve a =>
    refine .bind (inside_findSession r).tallies fun session counted ↦ keeps_guard _ fun _ ↦ ?_
    refine Tallies.bind (inside_messages rt input).tallies (fun messages ↦ ?_) counted
    exact .bind (tallies_budget _ _ _ _) fun _ ↦ (inside_pure _).tallies
  | tokenize id text a =>
    refine .bind (inside_findEngine id).tallies fun engine ↦ ?_
    exact .bind (inside_tokenize engine a).tallies fun _ ↦ (inside_pure _).tallies
  | metrics r =>
    refine .bind (inside_findSession r).tallies fun session counted ↦ keeps_guard _ fun _ ↦ ?_
    exact (inside_pure _).tallies counted
  | testCrash =>
    intro counted
    refine keeps_guard _ fun _ ↦ (?_ : Tallies _) counted
    refine .bind (tallies_update (fun _ ↦ rfl) fun _ ↦ rfl) fun _ ↦ ?_
    exact .bind tallies_closeAll fun _ ↦ (inside_pure _).tallies
  | close =>
    refine .bind tallies_closeAll fun _ ↦ .bind ?_ fun _ ↦ (inside_pure _).tallies
    exact tallies_update (fun _ ↦ rfl) fun _ ↦ rfl

theorem Tallied.of_state (h : Tallied counted d w) (ht : t.state = w.state) :
    Tallied counted d t := by
  refine ⟨?_, ?_, ?_, ?_⟩ <;> rw [ht]
  exacts [h.fresh, h.below, h.distinct, h.turns]

/-- A step of another kind than `serve` keeps the tally. -/
theorem Tallied.other (h : Tallied counted (fun _ ↦ False) w) {s : Step}
    (hs : ∀ stream a, s ≠ .serve stream a) :
    Tallied counted (fun _ ↦ False) (advance rt w s) := by
  cases s with
  | serve stream a => exact absurd rfl (hs stream a)
  | callback c => exact (inside_callbacks [c]).tallies counted w h
  | rest =>
    have hrest : Tallies (Step.rest.turn rt) := by
      refine .bind (inside_read _).tallies fun operations ↦ .ite ?_ (inside_pure _).tallies
      exact tallies_update (fun _ ↦ rfl) fun _ ↦ rfl
    exact hrest counted w h
  | command request command =>
    cases hd : w.state.deaf with
    | true =>
      rw [step_deaf hd]
      exact h
    | false =>
      by_cases hgenerate : ∃ stream r input a, command = .generate stream r input a
      · obtain ⟨stream, r, input, a, rfl⟩ := hgenerate
        have hsubmit : Tallies (submit rt stream r input a) :=
          .bind (tallies_prepare r input a) fun messages ↦ tallies_launch stream r messages a
        have hpost : Post (submit rt stream r input a) w _ :=
          post_advance_submit hd request stream r input a
        have hall := (hsubmit counted w h).and hpost
        have hstep : Post (submit rt stream r input a) w fun _ _ ↦ Tallied counted (fun _ ↦ False)
            (advance rt w (.command request (.generate stream r input a))) := by
          refine hall.mono fun result t ⟨ht, heq⟩ ↦ ?_
          rw [heq]
          cases result with
          | ok => exact ht
          | error e =>
            refine ht.of_state ?_
            dsimp only [emit]
        exact hstep
      · have hother (stream r : ℕ) (input : Input) (a : GenerateAnswers) :
            command ≠ .generate stream r input a :=
          fun heq ↦ hgenerate ⟨stream, r, input, a, heq⟩
        rw [step_command_eq hother]
        have hpost : Post (listen rt request command) w fun _ t ↦
            Tallied counted (fun _ ↦ False) t := by
          refine post_listen hd request command (((tallies_serve hother) counted w h).mono ?_)
          intro result t ht
          cases result with
          | ok value =>
            refine ht.of_state ?_
            cases value with
            | none => rfl
            | some value => cases request <;> rfl
          | error e =>
            refine ht.of_state ?_
            cases command with
            | generate stream r input a => exact absurd rfl (hother stream r input a)
            | _ => rfl
        exact hpost

end LibLitertLm.Worker
