import LibLitertLm.Worker.Terminals

namespace LibLitertLm.Worker

open Code

/-- A 32-bit setter receives the values of a C `int` as they are. -/
theorem toInt32_eq_iff (n : ℤ) : toInt32 n = n ↔ IsInt32 n := by
  unfold toInt32 IsInt32
  rw [Int.bmod_eq_iff (by decide)]
  omega

def NativeWorker.setters (w : NativeWorker) : List Setter := w.state.native.setters

/-- What code did from `w`: no session got other parameters, and the setters
received the first of the given values, all of them when the code returned. -/
def Received (w : NativeWorker) (values : List Setter) (result : Except Thrown α)
    (t : NativeWorker) : Prop :=
  (∀ r, (t.state.session r).params = (w.state.session r).params) ∧
    ∃ received, t.setters = w.setters ++ received ∧ received <+: values ∧
      ∀ a, result = .ok a → received = values

def Receives (values : List Setter) (m : M α) : Prop := ∀ w, Post m w (Received w values)

section Receives

variable {w t : NativeWorker} {xs ys : List Setter} {m : M α} {f : α → M β}

theorem Received.of_eq {u : NativeWorker} {result : Except Thrown α} (h : Received t xs result u)
    (ht : t.setters = w.setters) (hparams : ∀ r, (t.state.session r).params =
      (w.state.session r).params) : Received w xs result u :=
  ⟨fun r ↦ (h.1 r).trans (hparams r), ht ▸ h.2⟩

theorem Received.bind (hm : Post m w (Received w xs)) (hf : ∀ a, Receives ys (f a)) :
    Post (m >>= f) w (Received w (xs ++ ys)) := by
  rw [post_bind]
  refine hm.mono fun result t ⟨hparams, received, ht, hprefix, hall⟩ ↦ ?_
  cases result with
  | error e =>
    refine ⟨hparams, received, ht, hprefix.trans (List.prefix_append ..), fun a ha ↦ ?_⟩
    cases ha
  | ok a =>
    obtain rfl := hall a rfl
    refine (hf a t).mono fun result u ⟨hparams', received', hu, hprefix', hall'⟩ ↦ ?_
    refine ⟨fun r ↦ (hparams' r).trans (hparams r), received ++ received', ?_, ?_, fun b hb ↦ ?_⟩
    · rw [hu, ht, List.append_assoc]
    · exact (List.prefix_append_right_inj received).mpr hprefix'
    · rw [hall' b hb]

theorem Receives.bind (hm : Receives xs m) (hf : ∀ a, Receives ys (f a)) :
    Receives (xs ++ ys) (m >>= f) :=
  fun w ↦ Received.bind (hm w) hf

theorem Receives.after (hm : Receives [] m) (hf : ∀ a, Receives ys (f a)) :
    Receives ys (m >>= f) :=
  hm.bind hf

theorem Receives.before (hm : Receives xs m) (hf : ∀ a, Receives [] (f a)) :
    Receives xs (m >>= f) := by
  simpa using hm.bind hf

def Silent (m : M α) : Prop := ∀ (xs : List Setter) (params : ℕ → GenerationParams),
  Keeps (fun w ↦ w.setters = xs ∧ ∀ r, (w.state.session r).params = params r) m

theorem Silent.receives (hm : Silent m) : Receives [] m := by
  intro w
  refine (hm w.setters (fun r ↦ (w.state.session r).params) w ⟨rfl, fun _ ↦ rfl⟩).mono ?_
  rintro result t ⟨ht, hparams⟩
  exact ⟨hparams, [], by simpa using ht, by simp, by simp⟩

theorem Received.tryFinally (hm : Post m w (Received w xs)) {n : M β} (hn : Silent n) :
    Post (tryFinally m n) w (Received w xs) := by
  rw [post_tryFinally]
  refine hm.mono fun result t ⟨hparams, received, ht, hprefix, hall⟩ ↦ ?_
  refine (hn t.setters (fun r ↦ (t.state.session r).params) t ⟨rfl, fun _ ↦ rfl⟩).mono ?_
  intro result' u ⟨hu, hparams'⟩
  have hlater : ∀ r, (u.state.session r).params = (w.state.session r).params :=
    fun r ↦ (hparams' r).trans (hparams r)
  cases result' with
  | ok _ => exact ⟨hlater, received, hu.trans ht, hprefix, hall⟩
  | error e => exact ⟨hlater, received, hu.trans ht, hprefix, fun a ha ↦ by cases ha⟩

theorem Receives.tryFinally (hm : Receives xs m) {n : M β} (hn : Silent n) :
    Receives xs (tryFinally m n) :=
  fun w ↦ Received.tryFinally (hm w) hn

theorem Silent.bind (hm : Silent m) (hf : ∀ a, Silent (f a)) : Silent (m >>= f) :=
  fun xs params ↦ (hm xs params).bind fun a ↦ hf a xs params

theorem Silent.when {p : Prop} [Decidable p] {m : M Unit} (hm : Silent m) : Silent (when p m) :=
  fun xs params ↦ .when fun _ ↦ hm xs params

theorem Silent.tryFinally (hm : Silent m) {n : M β} (hn : Silent n) : Silent (tryFinally m n) :=
  fun xs params ↦ (hm xs params).tryFinally (hn xs params)

theorem Silent.ite {p : Prop} [Decidable p] {n : M α} (hm : Silent m) (hn : Silent n) :
    Silent (if p then m else n) :=
  fun xs params ↦ .ite (fun _ ↦ hm xs params) fun _ ↦ hn xs params

theorem Silent.pure (a : α) : Silent (pure a : M α) := fun _ _ ↦ .pure a

theorem Still.silent (hm : Still m) : Silent m := fun _ _ ↦ hm _

theorem silent_read (g : State → α) : Silent (read g) := fun _ _ ↦ Keeps.get.map _

theorem silent_modifyNative {g : Native → Native} (hg : ∀ n, (g n).setters = n.setters) :
    Silent (modifyNative g) :=
  fun _ _ w h ↦ ⟨(hg w.state.native).trans h.1, h.2⟩

theorem silent_use (pointer : Option ℕ) (kind : Resource → Bool) : Silent (use pointer kind) :=
  silent_modifyNative fun _ ↦ rfl

theorem silent_delete (pointer : Option ℕ) (kind : Resource → Bool) :
    Silent (delete pointer kind) :=
  silent_modifyNative fun _ ↦ rfl

theorem silent_modifySession (r : ℕ) {g : NativeSession → NativeSession}
    (hg : ∀ x, (g x).params = x.params) : Silent (modifySession r g) := by
  intro xs params w h
  rw [modifySession, post_update]
  refine ⟨h.1, fun r' ↦ ?_⟩
  by_cases hr : r' = r
  · subst hr
    simpa using (hg _).trans (h.2 r')
  · simpa [hr] using h.2 r'

theorem silent_create (succeeds : Bool) (resource : Resource) :
    Silent (create succeeds resource) := by
  intro xs params
  refine .ite (fun _ ↦ ?_) fun _ ↦ .pure _
  refine Silent.bind (silent_read _) (fun pointer ↦ Silent.bind ?_ fun _ ↦ .pure _) xs params
  exact silent_modifyNative fun _ ↦ rfl

theorem receives_set (pointer : Option ℕ) (kind : Resource → Bool) (setter : Setter) :
    Receives [setter] (set pointer kind setter) :=
  fun _ ↦ ⟨fun _ ↦ rfl, [setter], rfl, List.prefix_rfl, fun _ _ ↦ rfl⟩

end Receives

theorem silent_openConversation (r : ℕ) (engine : NativeEngine) (config : Option ℕ)
    (a : OpenAnswers) : Silent (openConversation r engine config a) := by
  refine .bind (silent_read _) fun session ↦ .bind (silent_create _ _) fun chatConfig ↦ ?_
  refine .bind (still_checkPointer _ _ _).silent fun _ ↦ .tryFinally ?_ (silent_delete _ _)
  refine .bind (silent_use _ _) fun _ ↦ .bind (silent_use _ _) fun _ ↦ ?_
  refine .bind (silent_use _ _) fun _ ↦ .bind (.when ?_) fun _ ↦ ?_
  · exact .bind (still_utf8 _ _).silent fun _ ↦ silent_use _ _
  · refine .bind (silent_use _ _) fun _ ↦ .bind (silent_use _ _) fun _ ↦ ?_
    refine .bind (silent_create _ _) fun chat ↦ .bind
      (silent_modifySession r fun _ ↦ rfl) fun _ ↦ ?_
    exact (still_checkPointer _ _ _).silent

theorem silent_openRaw (r : ℕ) (engine : NativeEngine) (config : Option ℕ) (a : OpenAnswers) :
    Silent (openRaw r engine config a) := by
  refine .bind (silent_use _ _) fun _ ↦ .bind (silent_use _ _) fun _ ↦ ?_
  refine .bind (silent_create _ _) fun raw ↦ .bind (silent_modifySession r fun _ ↦ rfl) fun _ ↦ ?_
  exact (still_checkPointer _ _ _).silent

def paramSetters (params : GenerationParams) : List Setter :=
  [.topK params.topK, .seed (params.seed.getD 0), .maxOutputTokens params.maxTokens]

def narrowedSetters (params : GenerationParams) : List Setter :=
  [.topK (toInt32 params.topK), .seed (toInt32 (params.seed.getD 0)),
    .maxOutputTokens (toInt32 params.maxTokens)]

theorem receives_configure (r : ℕ) (engine : NativeEngine) (session : NativeSession)
    (a : OpenAnswers) (config sampler : Option ℕ) : Receives (narrowedSetters session.params) (do
      checkPointer sampler "Cannot create sampler settings" a.lastError
      set sampler isSampler (.topK (toInt32 session.params.topK))
      use sampler isSampler
      use sampler isSampler
      set sampler isSampler (.seed (toInt32 (session.params.seed.getD 0)))
      use config isConfig
      use sampler isSampler
      set config isConfig (.maxOutputTokens (toInt32 session.params.maxTokens))
      use config isConfig
      if session.conversation then openConversation r engine config a
      else openRaw r engine config a) := by
  refine .after (still_checkPointer _ _ _).silent.receives fun _ ↦ ?_
  refine .bind (receives_set _ _ _) fun _ ↦ .after (silent_use _ _).receives fun _ ↦ ?_
  refine .after (silent_use _ _).receives fun _ ↦ .bind (receives_set _ _ _) fun _ ↦ ?_
  refine .after (silent_use _ _).receives fun _ ↦ .after (silent_use _ _).receives fun _ ↦ ?_
  refine .bind (receives_set _ _ _) fun _ ↦ .after (silent_use _ _).receives fun _ ↦ ?_
  cases session.conversation with
  | true => exact (silent_openConversation r engine config a).receives
  | false => exact (silent_openRaw r engine config a).receives

theorem received_openSession (w : NativeWorker) (r : ℕ) (engine : NativeEngine)
    (preface : Option (List Message)) (a : OpenAnswers) :
    Post (openSession r engine preface a) w
      (Received w (narrowedSetters (w.state.session r).params)) := by
  have hreset : Silent (modifySession r fun s ↦
      { s with prefillTurns := 0, decodeTurns := 0, nativePreface := preface.getD s.history }) :=
    silent_modifySession r fun _ ↦ rfl
  rw [openSession, post_bind]
  refine (hreset w.setters (fun r ↦ (w.state.session r).params) w ⟨rfl, fun _ ↦ rfl⟩).mono ?_
  rintro result t ⟨ht, hparams⟩
  cases result with
  | error e => exact ⟨hparams, [], by simpa using ht, by simp, by simp⟩
  | ok _ =>
    dsimp only
    rw [post_read_bind, ← hparams r]
    refine Post.mono (P := Received t (narrowedSetters (t.state.session r).params)) ?_
      fun result u hu ↦ hu.of_eq ht hparams
    refine Receives.after (silent_create _ _).receives (fun config ↦ ?_) t
    refine .after (still_checkPointer _ _ _).silent.receives fun _ ↦ ?_
    refine .after (silent_create _ _).receives fun sampler ↦ ?_
    refine .tryFinally (receives_configure r engine _ a config sampler) ?_
    exact .bind (.when (silent_delete _ _)) fun _ ↦ silent_delete _ _

def granted : OpenAnswers := ⟨true, true, true, true, true, []⟩

def Returns (m : M α) : Prop := ∀ w, Post m w fun result _ ↦ ∃ a, result = .ok a

theorem Returns.bind {m : M α} {f : α → M β} (hm : Returns m) (hf : ∀ a, Returns (f a)) :
    Returns (m >>= f) := by
  intro w
  rw [post_bind]
  refine (hm w).mono fun result t ⟨a, ha⟩ ↦ ?_
  subst ha
  exact hf a t

theorem Returns.tryFinally {m : M α} {n : M β} (hm : Returns m) (hn : Returns n) :
    Returns (tryFinally m n) := by
  intro w
  rw [post_tryFinally]
  refine (hm w).mono fun result t ha ↦ (hn t).mono fun result' u ⟨b, hb⟩ ↦ ?_
  subst hb
  exact ha

theorem returns_update (f : State → State) : Returns (update f) := fun _ ↦ ⟨(), rfl⟩

theorem returns_read (f : State → α) : Returns (read f) := fun w ↦ ⟨f w.state, rfl⟩

theorem Returns.when {p : Prop} [Decidable p] {m : M Unit} (hm : Returns m) :
    Returns (when p m) := by
  unfold Code.when
  split_ifs
  · exact hm
  · exact fun _ ↦ ⟨(), rfl⟩

theorem Returns.create {resource : Resource} {action : String} {lastError : List UInt8}
    {f : Option ℕ → M α} (hf : ∀ pointer, Returns (f (some pointer))) : Returns (do
      let pointer ← create true resource
      checkPointer pointer action lastError
      f pointer) :=
  fun w ↦ hf w.state.native.next ⟨{ w.state with native := w.state.native.create resource }, w.sent⟩

theorem returns_openConversation (r : ℕ) (engine : NativeEngine) (config : Option ℕ) :
    Returns (openConversation r engine config granted) := by
  refine .bind (returns_read _) fun session ↦ .create fun chatConfig ↦ ?_
  refine .tryFinally ?_ (returns_update _)
  refine .bind (returns_update _) fun _ ↦ .bind (returns_update _) fun _ ↦ ?_
  refine .bind (returns_update _) fun _ ↦ .bind (.when (returns_update _)) fun _ ↦ ?_
  refine .bind (returns_update _) fun _ ↦ .bind (returns_update _) fun _ ↦ ?_
  exact fun w ↦ ⟨(), rfl⟩

theorem returns_openRaw (r : ℕ) (engine : NativeEngine) (config : Option ℕ) :
    Returns (openRaw r engine config granted) := by
  refine .bind (returns_update _) fun _ ↦ .bind (returns_update _) fun _ ↦ ?_
  exact fun w ↦ ⟨(), rfl⟩

theorem returns_openSession (r : ℕ) (engine : NativeEngine) (preface : Option (List Message)) :
    Returns (openSession r engine preface granted) := by
  refine .bind (returns_update _) fun _ ↦ .bind (returns_read _) fun session ↦ ?_
  refine .create fun config ↦ ?_
  have hconfigure (sampler : Option ℕ) (hsampler : sampler.isSome = true) :
      Returns (checkPointer sampler "Cannot create sampler settings" []) := by
    obtain ⟨p, rfl⟩ := Option.isSome_iff_exists.mp hsampler
    exact fun _ ↦ ⟨(), rfl⟩
  intro w
  refine Returns.tryFinally (.bind (hconfigure _ rfl) fun _ ↦ ?_) ?_
    ⟨{ w.state with native := w.state.native.create .samplerParams }, w.sent⟩
  · refine .bind (returns_update _) fun _ ↦ .bind (returns_update _) fun _ ↦ ?_
    refine .bind (returns_update _) fun _ ↦ .bind (returns_update _) fun _ ↦ ?_
    refine .bind (returns_update _) fun _ ↦ .bind (returns_update _) fun _ ↦ ?_
    refine .bind (returns_update _) fun _ ↦ .bind (returns_update _) fun _ ↦ ?_
    cases session.conversation with
    | true => exact returns_openConversation r engine _
    | false => exact returns_openRaw r engine _
  · exact .bind (.when (returns_update _)) fun _ ↦ returns_update _

def State.ready (s : State) (engineId : ℕ) : Prop :=
  ∃ engine, s.engines.lookup engineId = some engine ∧ engine.phase = .ready

def validParams (params : GenerationParams) : Bool :=
  params.temperature.isFinite && !params.temperature.isNegative && 0 < params.topK &&
    0 < params.maxTokens

def Fits (params : GenerationParams) : Prop :=
  IsInt32 params.topK ∧ IsInt32 params.maxTokens ∧ IsInt32 (params.seed.getD 0)

theorem narrowedSetters_eq_iff (params : GenerationParams) :
    narrowedSetters params = paramSetters params ↔ Fits params := by
  simp only [narrowedSetters, paramSetters, List.cons.injEq, Setter.topK.injEq, Setter.seed.injEq,
    Setter.maxOutputTokens.injEq, toInt32_eq_iff, Fits]
  tauto

variable {rt : Runtime} {w : NativeWorker} {engineId : ℕ} {params : GenerationParams}

/-- No session with these parameters hands other integers to its setters, and
integers that do not fit are refused before anything native is made. -/
structure ExactParams (rt : Runtime) (w : NativeWorker) (engineId : ℕ)
    (params : GenerationParams) : Prop where
  created : ∀ initial conversation a,
    Post (createSession rt engineId params initial conversation a) w fun result t ↦
      ∃ received, t.setters = w.setters ++ received ∧ received <+: paramSetters params ∧
        ∀ r, result = .ok r → received = paramSetters params ∧ (t.state.session r).params = params
  reopened : ∀ initial conversation a,
    Post (createSession rt engineId params initial conversation a) w fun result _ ↦
      ∀ r, result = .ok r → ∀ u r' engine preface a', (u.state.session r').params = params →
        Post (openSession r' engine preface a') u (Received u (paramSetters params))
  refused : ¬ Fits params → w.state.ready engineId → ∀ initial conversation a,
    Post (createSession rt engineId params initial conversation a) w fun result t ↦
      (∃ message, result = .error (.failure (.invalidArgument message))) ∧
        t.state.native = w.state.native

theorem still_findEngine (id : ℕ) : Still (findEngine id) := by
  intro I
  refine .bind (Keeps.get.map _) fun engine ↦ ?_
  cases engine with
  | none => exact still_fail _ I
  | some engine => exact .ite (fun _ ↦ still_fail _ I) fun _ ↦ .pure _

theorem not_validParams (params : GenerationParams) :
    (!params.temperature.isFinite || params.temperature.isNegative || decide (params.topK ≤ 0) ||
      decide (params.maxTokens ≤ 0)) = !validParams params := by
  have htopK : decide (params.topK ≤ 0) = !decide (0 < params.topK) := by
    rw [← decide_not, decide_eq_decide]
    omega
  have hmaxTokens : decide (params.maxTokens ≤ 0) = !decide (0 < params.maxTokens) := by
    rw [← decide_not, decide_eq_decide]
    omega
  rw [htopK, hmaxTokens, validParams]
  simp [Bool.not_and]

variable (rt) in
theorem post_createSession_refused (h : w.state.ready engineId → validParams params = false)
    (initial : List ChatMessage) (conversation : Bool) (a : OpenAnswers) :
    Post (createSession rt engineId params initial conversation a) w fun result t ↦ t = w ∧
      (∀ r, result ≠ .ok r) ∧ (w.state.ready engineId →
        result = .error (.failure (.invalidArgument "Invalid generation parameters"))) := by
  have hne (e : Thrown) (r : ℕ) : (.error e : Except Thrown ℕ) ≠ .ok r := by simp
  unfold createSession
  rw [not_validParams, post_bind, findEngine, post_read_bind]
  cases hlookup : w.state.engines.lookup engineId with
  | none =>
    refine ⟨rfl, hne _, fun hready ↦ ?_⟩
    obtain ⟨engine, hengine, -⟩ := hready
    rw [hlookup] at hengine
    cases hengine
  | some engine =>
    dsimp only
    by_cases hphase : engine.phase = .ready
    · rw [if_neg (not_not.mpr hphase), h ⟨engine, hlookup, hphase⟩]
      exact ⟨rfl, hne _, fun _ ↦ rfl⟩
    · rw [if_pos hphase]
      refine ⟨rfl, hne _, fun hexists ↦ ?_⟩
      obtain ⟨engine', hengine, hready⟩ := hexists
      rw [hlookup] at hengine
      cases hengine
      exact absurd hready hphase

variable (rt w engineId params) in
theorem post_createSession_narrowed (initial : List ChatMessage) (conversation : Bool)
    (a : OpenAnswers) :
    Post (createSession rt engineId params initial conversation a) w fun result t ↦
      ∃ received, t.setters = w.setters ++ received ∧ received <+: narrowedSetters params ∧
        ∀ r, result = .ok r → received = narrowedSetters params ∧
          (t.state.session r).params = params := by
  have hthrow (e : Thrown) : ∃ received, w.setters = w.setters ++ received ∧
      received <+: narrowedSetters params ∧ ∀ r, (.error e : Except Thrown ℕ) = .ok r →
        received = narrowedSetters params ∧ (w.state.session r).params = params :=
    ⟨[], by simp, by simp, fun r hr ↦ by cases hr⟩
  refine (still_findEngine engineId).post_bind (fun engine ↦ ?_) hthrow
  split_ifs
  · exact hthrow _
  refine (still_dart _).post_bind (fun history ↦ ?_) hthrow
  rw [post_read_bind]
  generalize hx : NativeSession.mk engineId params (conversation || params.applyPromptTemplate)
    history history [] none none .ready none 0 0 {} = x
  have hparams : x.params = params := by rw [← hx]
  generalize w.state.nextSession = r
  rw [newSession, modifySession, post_bind, post_update]
  dsimp only
  have hmade : (Function.update w.state.session r x r).params = params := by
    rw [Function.update_self, hparams]
  refine Still.post_bind (fun _ ↦ .lift _) (fun _ ↦ ?_) fun e ↦ ?_
  · rw [post_bind]
    refine (received_openSession _ r engine none a).mono ?_
    rintro result t ⟨hstay, received, ht, hprefix, hall⟩
    dsimp only at ht hstay
    rw [hmade] at hprefix hall
    cases result with
    | error e => exact ⟨received, ht, hprefix, fun r' hr' ↦ by cases hr'⟩
    | ok _ =>
      rw [post_bind, post_update]
      refine ⟨received, ht, hprefix, fun r' hr' ↦ ⟨hall () rfl, ?_⟩⟩
      cases hr'
      exact (hstay r).trans hmade
  · exact ⟨[], by simp [NativeWorker.setters], by simp, fun r' hr' ↦ by cases hr'⟩

variable (rt) in
theorem post_createSession_granted (hready : w.state.ready engineId)
    (hvalid : validParams params = true) :
    Post (createSession rt engineId params [] false granted) w fun result _ ↦
      ∃ r, result = .ok r := by
  obtain ⟨engine, hengine, hphase⟩ := hready
  unfold createSession
  rw [not_validParams, hvalid, post_bind, findEngine, post_read_bind, hengine]
  simp only [hphase]
  have hopen (r : ℕ) : Returns (do
      openSession r engine none granted
      update fun s ↦ { s with nextSession := r + 1, sessions := s.sessions ++ [r] }
      pure r : M ℕ) :=
    .bind (returns_openSession r engine none) fun _ ↦ .bind (returns_update _) fun _ w ↦ ⟨r, rfl⟩
  exact hopen _ _

theorem exactParams_iff : ExactParams rt w engineId params ↔
    (w.state.ready engineId → validParams params = true → Fits params) := by
  constructor
  · intro h hready hvalid
    obtain ⟨received, hreceived, -, hall⟩ := h.created [] false granted
    obtain ⟨narrowed, hnarrowed, -, hall'⟩ :=
      post_createSession_narrowed rt w engineId params [] false granted
    obtain ⟨r, hr⟩ := post_createSession_granted rt hready hvalid
    rw [(hall r hr).1] at hreceived
    rw [(hall' r hr).1] at hnarrowed
    exact (narrowedSetters_eq_iff params).mp
      (List.append_cancel_left (hnarrowed.symm.trans hreceived))
  · intro h
    by_cases hrange : Fits params
    · have hsame := (narrowedSetters_eq_iff params).mpr hrange
      refine ⟨fun initial conversation a ↦ ?_,
        fun initial conversation a r _ u r' engine preface a' hu ↦ ?_,
        fun hout ↦ absurd hrange hout⟩
      · rw [← hsame]
        exact post_createSession_narrowed rt w engineId params initial conversation a
      · rw [← hsame, ← hu]
        exact received_openSession u r' engine preface a'
    · have hinvalid : w.state.ready engineId → validParams params = false := fun hready ↦
        Bool.eq_false_iff.mpr fun hvalid ↦ hrange (h hready hvalid)
      have hrefused := post_createSession_refused rt hinvalid
      refine ⟨fun initial conversation a ↦ ?_, fun initial conversation a ↦ ?_,
        fun _ hready initial conversation a ↦ ?_⟩
      · refine (hrefused initial conversation a).mono fun result t ⟨ht, hne, _⟩ ↦ ?_
        exact ⟨[], by simp [ht], by simp, fun r hr ↦ absurd hr (hne r)⟩
      · refine (hrefused initial conversation a).mono fun result t ⟨_, hne, _⟩ r hr ↦ ?_
        exact absurd hr (hne r)
      · refine (hrefused initial conversation a).mono fun result t ⟨ht, _, hinvalid⟩ ↦ ?_
        exact ⟨⟨_, hinvalid hready⟩, by rw [ht]⟩

def contextTokens (config : EngineConfig) (info : ModelInfo) (maximum : ℤ) : ℤ :=
  config.maxNumTokens.getD
    (if info.dynamicContext then (if maximum < 4096 then maximum else 4096) else maximum)

def supportsBackend (info : ModelInfo) (name : String) (backend : Option String) : Bool :=
  backend.all fun backend ↦ (info.backends.lookup name).any fun names ↦ names.contains backend

def supportsBackends (config : EngineConfig) (info : ModelInfo) : Bool :=
  supportsBackend info "text" config.backend && supportsBackend info "vision"
    config.visionBackend &&
    supportsBackend info "audio" config.audioBackend

def validContext (info : ModelInfo) (maximum context : ℤ) : Bool :=
  0 < context && context ≤ maximum && (info.dynamicContext || context = maximum)

def validPrefill (config : EngineConfig) (info : ModelInfo) : Bool :=
  config.prefillChunkSize.all fun size ↦ 0 < size && config.backend = "cpu" && info.dynamicContext

def sameArtifact (config : EngineConfig) (info : ModelInfo) : Bool :=
  config.artifactSha256.all fun sha ↦ sha.toLower = info.artifactSha256

theorem forIn_checks {α : Type} (l : List α) (bad : α → Bool) (e : α → Thrown)
    {body : α → PUnit → Except Thrown (ForInStep PUnit)}
    (hbody : ∀ x, body x .unit = if bad x then .error (e x) else .ok (.yield .unit)) :
    forIn l PUnit.unit body = match l.find? bad with
      | some x => .error (e x)
      | none => .ok .unit := by
  induction l with
  | nil => rfl
  | cons x l ih =>
    rw [List.forIn_cons, hbody, List.find?_cons]
    cases bad x with
    | true => rfl
    | false => exact ih

theorem checkArtifact_eq (config : EngineConfig) {info : ModelInfo} {maximum : ℤ}
    (hmax : info.maxContextTokens = some maximum) :
    ∃ mismatch context backend prefill, checkArtifact config info =
      if !sameArtifact config info then .error (.failure (.invalidArgument mismatch))
      else if !validContext info maximum (contextTokens config info maximum) then
        .error (.failure (.invalidArgument context))
      else if !supportsBackends config info then .error (.failure (.unsupported backend))
      else if !validPrefill config info then .error (.failure (.invalidArgument prefill))
      else .ok (maximum, contextTokens config info maximum) := by
  unfold checkArtifact
  rw [hmax]
  have hsame : config.artifactSha256.any (fun sha ↦ decide (sha.toLower ≠ info.artifactSha256)) =
      !sameArtifact config info := by
    cases h : config.artifactSha256 <;> simp [sameArtifact, h]
  have hprefill : config.prefillChunkSize.any (fun size ↦
      decide (size ≤ 0) || decide (config.backend ≠ "cpu") || !info.dynamicContext) =
        !validPrefill config info := by
    cases h : config.prefillChunkSize with
    | none => simp [validPrefill, h]
    | some size =>
      have hsize : decide (size ≤ 0) = !decide (0 < size) := by
        rw [← decide_not, decide_eq_decide]
        omega
      simp [validPrefill, h, hsize, Bool.not_and]
  have hcontext : (decide (contextTokens config info maximum ≤ 0) ||
      decide (maximum < contextTokens config info maximum) ||
        (!info.dynamicContext && decide (contextTokens config info maximum ≠ maximum))) =
          !validContext info maximum (contextTokens config info maximum) := by
    generalize contextTokens config info maximum = context
    have hpositive : decide (context ≤ 0) = !decide (0 < context) := by
      rw [← decide_not, decide_eq_decide]
      omega
    have hbound : decide (maximum < context) = !decide (context ≤ maximum) := by
      rw [← decide_not, decide_eq_decide]
      omega
    simp [validContext, hpositive, hbound, Bool.not_and]
  simp only [hsame, hprefill]
  rw [← contextTokens, hcontext]
  generalize contextTokens config info maximum = context
  cases sameArtifact config info with
  | false => exact ⟨_, "", "", "", rfl⟩
  | true =>
    cases validContext info maximum context with
    | false => exact ⟨"", _, "", "", rfl⟩
    | true =>
      have hfind : supportsBackends config info = ([("text", some config.backend),
          ("vision", config.visionBackend), ("audio", config.audioBackend)].find? fun x ↦
            !supportsBackend info x.1 x.2).isNone := by
        rw [Bool.eq_iff_iff, Option.isNone_iff_eq_none, List.find?_eq_none]
        simp [supportsBackends, and_assoc]
      rw [forIn_checks _ (fun x ↦ !supportsBackend info x.1 x.2) fun x ↦ .failure (.unsupported
        ("Artifact does not support " ++ x.1 ++ " backend " ++ x.2.getD "")), hfind]
      · cases List.find? _ _ with
        | some x => exact ⟨"", "", _, "", rfl⟩
        | none =>
          cases validPrefill config info with
          | false => exact ⟨"", "", "", _, rfl⟩
          | true => exact ⟨"", "", "", "", rfl⟩
      · intro ⟨name, backend⟩
        cases backend with
        | none => rfl
        | some backend =>
          dsimp only [supportsBackend, Option.all]
          split_ifs with h
          · exact (if_pos h).symm
          · exact (if_neg h).symm

def configSetters (config : EngineConfig) (context : ℤ) : List Setter :=
  .maxNumTokens context :: config.prefillChunkSize.toList.map .prefillChunkSize

def FitsConfig (config : EngineConfig) (context : ℤ) : Prop :=
  IsInt32 context ∧ ∀ size ∈ config.prefillChunkSize, IsInt32 size

def narrowedConfig (config : EngineConfig) (context : ℤ) : List Setter :=
  .maxNumTokens (toInt32 context) ::
    config.prefillChunkSize.toList.map fun size ↦ .prefillChunkSize (toInt32 size)

theorem narrowedConfig_eq_iff (config : EngineConfig) (context : ℤ) :
    narrowedConfig config context = configSetters config context ↔ FitsConfig config context := by
  cases h : config.prefillChunkSize with
  | none => simp [narrowedConfig, configSetters, FitsConfig, h, toInt32_eq_iff]
  | some size => simp [narrowedConfig, configSetters, FitsConfig, h, toInt32_eq_iff]

theorem receives_prefill (config : EngineConfig) (settings : Option ℕ) :
    Receives (config.prefillChunkSize.toList.map fun size ↦ .prefillChunkSize (toInt32 size))
      (onSome config.prefillChunkSize fun size ↦
        set settings isSettings (.prefillChunkSize (toInt32 size))) := by
  cases config.prefillChunkSize with
  | none => exact (Silent.pure ()).receives
  | some size => exact receives_set _ _ _

theorem silent_supported (file : Option ℕ) (a : Supported) : Silent (supported file a) := by
  refine .bind (silent_use _ _) fun _ xs params ↦ keeps_guard _ fun _ ↦ ?_
  exact Silent.bind (silent_use _ _) (fun _ ↦ .pure _) xs params

theorem silent_inspect (path : String) (a : InspectAnswers) : Silent (inspect path a) := by
  intro xs params
  refine keeps_guard _ fun _ ↦ keeps_guard _ fun _ ↦ ?_
  refine Silent.bind (still_utf8 _ _).silent
    (fun _ ↦ .bind (silent_create _ _) fun file ↦ ?_) xs params
  refine .bind (still_checkPointer _ _ _).silent fun _ ↦ .tryFinally ?_ (silent_delete _ _)
  refine .bind (silent_supported _ _) fun text ↦ .bind (silent_supported _ _) fun vision ↦ ?_
  refine .bind (silent_supported _ _) fun audio ↦ .bind (silent_use _ _) fun _ ↦ ?_
  cases a.hash with
  | none => exact (still_throw _).silent
  | some hash =>
    exact .bind (silent_use _ _) fun _ ↦ .bind (still_decode _).silent fun version ↦ .pure _

structure Inspects (w : NativeWorker) (config : EngineConfig) (artifact : InspectAnswers)
    (info : ModelInfo) (maximum : ℤ) : Prop where
  read : (inspect config.modelPath artifact w).1 = .ok info
  capacity : info.maxContextTokens = some maximum

def accepts (config : EngineConfig) (info : ModelInfo) (maximum : ℤ) : Bool :=
  sameArtifact config info && validContext info maximum (contextTokens config info maximum) &&
    supportsBackends config info && validPrefill config info

theorem checkArtifact_cases (config : EngineConfig) {info : ModelInfo} {maximum : ℤ}
    (hmax : info.maxContextTokens = some maximum) :
    (accepts config info maximum = true ∧
      checkArtifact config info = .ok (maximum, contextTokens config info maximum)) ∨
    (accepts config info maximum = false ∧ ∃ failure,
      checkArtifact config info = .error (.failure failure) ∧
        (supportsBackends config info = true → ∃ message, failure = .invalidArgument message)) := by
  obtain ⟨mismatch, context, backend, prefill, h⟩ := checkArtifact_eq config hmax
  rw [h, accepts]
  cases sameArtifact config info with
  | false => exact .inr ⟨rfl, _, rfl, fun _ ↦ ⟨_, rfl⟩⟩
  | true =>
    cases validContext info maximum (contextTokens config info maximum) with
    | false => exact .inr ⟨rfl, _, rfl, fun _ ↦ ⟨_, rfl⟩⟩
    | true =>
      cases supportsBackends config info with
      | false => exact .inr ⟨rfl, _, rfl, fun hs ↦ by cases hs⟩
      | true =>
        cases validPrefill config info with
        | false => exact .inr ⟨rfl, _, rfl, fun _ ↦ ⟨_, rfl⟩⟩
        | true => exact .inl ⟨rfl, rfl⟩

section Load

variable {config : EngineConfig} {info : ModelInfo} {maximum : ℤ} {a : LoadAnswers}

/-- A client that is closing loads nothing; otherwise the artifact is inspected first. -/
theorem post_loadEngine (h : Inspects w config a.inspect info maximum) {g : ModelInfo → ℤ × ℤ → M ℕ}
    {Q : Except Thrown ℕ → NativeWorker → Prop}
    (hclosing : w.state.closing = true → Q (.error (.failure (.disposed "Client is closing"))) w)
    (hopen : w.state.closing = false → ∀ t, t = (inspect config.modelPath a.inspect w).2 →
      t.setters = w.setters →
      (∀ r, (t.state.session r).params = (w.state.session r).params) →
        Post (Code.lift (checkArtifact config info) >>= g info) t Q) :
    Post (do
      let closing ← read State.closing
      if closing then fail (.disposed "Client is closing")
      let info ← inspect config.modelPath a.inspect
      let p ← Code.lift (checkArtifact config info)
      g info p) w Q := by
  rw [post_read_bind]
  cases hc : w.state.closing with
  | true => exact hclosing hc
  | false =>
    have hinspect := (silent_inspect config.modelPath a.inspect) w.setters
      (fun r ↦ (w.state.session r).params) w ⟨rfl, fun _ ↦ rfl⟩
    rw [if_neg (by simp), post_bind]
    have hread : Post (inspect config.modelPath a.inspect) w fun result t ↦
      result = .ok info ∧ t = (inspect config.modelPath a.inspect w).2 := ⟨h.read, rfl⟩
    refine (hinspect.and hread).mono fun result t ⟨⟨ht, hparams⟩, hresult, heq⟩ ↦ ?_
    subst hresult
    exact hopen hc t heq ht hparams

theorem received_error {t : NativeWorker} (values : List Setter) (e : Thrown)
    (ht : t.setters = w.setters)
    (hparams : ∀ r, (t.state.session r).params = (w.state.session r).params) :
    Received w values (.error e : Except Thrown ℕ) t :=
  ⟨hparams, [], by simpa using ht, by simp, fun a ha ↦ by cases ha⟩

theorem post_loadEngine_narrowed (h : Inspects w config a.inspect info maximum) :
    Post (loadEngine config a) w
      (Received w (narrowedConfig config (contextTokens config info maximum))) := by
  unfold loadEngine
  refine post_loadEngine h (fun _ ↦ received_error _ _ rfl fun _ ↦ rfl) fun _ t _ ht hparams ↦ ?_
  rw [post_bind, post_lift]
  obtain ⟨-, hcheck⟩ | ⟨-, failure, hcheck, -⟩ := checkArtifact_cases config h.capacity
  · rw [hcheck]
    refine Post.mono
      (P := Received t (narrowedConfig config (contextTokens config info maximum))) ?_
      fun result u hu ↦ hu.of_eq ht hparams
    generalize contextTokens config info maximum = context
    refine Receives.after (still_utf8 _ _).silent.receives (fun _ ↦ ?_) t
    refine .after (still_utf8 _ _).silent.receives fun _ ↦ ?_
    refine .after (still_utf8 _ _).silent.receives fun _ ↦ ?_
    refine .after (still_utf8 _ _).silent.receives fun _ ↦ ?_
    refine .after (silent_create _ _).receives fun settings ↦ ?_
    refine .after (still_checkPointer _ _ _).silent.receives fun _ ↦ ?_
    refine .tryFinally ?_ (silent_delete _ _)
    refine .bind (receives_set _ _ _) fun _ ↦ .after (silent_use _ _).receives fun _ ↦ ?_
    refine .after (silent_use _ _).receives fun _ ↦ ?_
    refine .before (receives_prefill config settings) fun _ ↦ Silent.receives ?_
    have hstring (allocated : Bool) : Silent (do
        utf8 true allocated
        use settings isSettings) := .bind (still_utf8 _ _).silent fun _ ↦ silent_use _ _
    refine .bind (.when (hstring _)) fun _ ↦ .bind (.when (hstring _)) fun _ ↦ ?_
    refine .bind (silent_use _ _) fun _ ↦ .bind (silent_create _ _) fun pointer ↦ ?_
    refine .bind (still_checkPointer _ _ _).silent fun _ ↦ ?_
    cases pointer with
    | none => exact (still_throw _).silent
    | some pointer =>
      refine .bind (silent_use _ _) fun _ ↦ .ite
        (.bind (silent_modifyNative fun _ ↦ rfl) fun _ ↦ ?_) ?_
      · exact (still_fail _).silent
      · exact .bind (silent_read _) fun id ↦ .bind (fun _ _ _ h ↦ h) fun _ ↦ .pure _
  · rw [hcheck]
    exact received_error _ _ ht hparams

theorem post_loadEngine_refused (h : Inspects w config a.inspect info maximum)
    (haccepts : w.state.closing = false → accepts config info maximum = false) :
    Post (loadEngine config a) w fun result t ↦ (∀ values, Received w values result t) ∧
      (w.state.closing = false → ∃ failure, result = .error (.failure failure) ∧
        (supportsBackends config info = true → ∃ message, failure = .invalidArgument message) ∧
          t.state.native = (inspect config.modelPath a.inspect w).2.state.native) := by
  unfold loadEngine
  refine post_loadEngine h (fun hc ↦ ⟨?_, fun hclosing ↦ ?_⟩) fun hc t heq ht hparams ↦ ?_
  · exact fun values ↦ received_error values _ rfl fun _ ↦ rfl
  · rw [hc] at hclosing
    cases hclosing
  · rw [post_bind, post_lift]
    obtain ⟨haccepts', hcheck⟩ | ⟨-, failure, hcheck, hinvalid⟩ :=
      checkArtifact_cases config h.capacity
    · rw [haccepts hc] at haccepts'
      cases haccepts'
    · rw [hcheck]
      exact ⟨fun values ↦ received_error values _ ht hparams,
        fun _ ↦ ⟨failure, rfl, hinvalid, by rw [heq]⟩⟩

def grantedLoad (artifact : InspectAnswers) : LoadAnswers :=
  ⟨artifact, true, true, true, true, true, true, true, true, 1, []⟩

theorem returns_utf8 (needed : Bool) : Returns (utf8 needed true) := by
  intro w
  cases needed <;> exact ⟨(), rfl⟩

theorem post_loadEngine_granted {artifact : InspectAnswers}
    (h : Inspects w config artifact info maximum) (hclosing : w.state.closing = false)
    (haccepts : accepts config info maximum = true) :
    Post (loadEngine config (grantedLoad artifact)) w fun result _ ↦ ∃ id, result = .ok id := by
  unfold loadEngine
  refine post_loadEngine (a := grantedLoad artifact) h (fun hc ↦ ?_) fun _ t _ _ _ ↦ ?_
  · rw [hc] at hclosing
    cases hclosing
  · obtain ⟨-, hcheck⟩ | ⟨haccepts', -⟩ := checkArtifact_cases config h.capacity
    · have hpositive : 1 ≤ maximum := by
        simp only [accepts, validContext, Bool.and_eq_true, decide_eq_true_eq] at haccepts
        omega
      rw [post_bind, post_lift, hcheck]
      generalize contextTokens config info maximum = context
      refine Returns.bind (returns_utf8 _) (fun _ ↦ .bind (returns_utf8 _) fun _ ↦ ?_) t
      refine .bind (returns_utf8 _) fun _ ↦ .bind (returns_utf8 _) fun _ ↦ .create fun settings ↦ ?_
      refine .tryFinally ?_ (returns_update _)
      refine .bind (returns_update _) fun _ ↦ .bind (returns_update _) fun _ ↦ ?_
      refine .bind (returns_update _) fun _ ↦ .bind ?_ fun _ ↦ ?_
      · cases config.prefillChunkSize with
        | none => exact fun _ ↦ ⟨(), rfl⟩
        | some size => exact returns_update _
      have hstring : Returns (do
          utf8 true true
          use (some settings) isSettings) := .bind (returns_utf8 _) fun _ ↦ returns_update _
      refine .bind (.when hstring) fun _ ↦ .bind (.when hstring) fun _ ↦ ?_
      refine .bind (returns_update _) fun _ ↦ .create fun pointer ↦ ?_
      refine .bind (returns_update _) fun _ ↦ ?_
      have hcontext : ¬ (decide ((grantedLoad artifact).contextTokens ≤ 0) ||
          decide (maximum < (grantedLoad artifact).contextTokens)) = true := by
        rw [Bool.or_eq_true, decide_eq_true_eq, decide_eq_true_eq]
        simp only [grantedLoad]
        omega
      dsimp only
      rw [if_neg hcontext]
      exact .bind (returns_read _) fun id ↦ .bind (returns_update _) fun _ _ ↦ ⟨id, rfl⟩
    · rw [haccepts] at haccepts'
      cases haccepts'

/-- The setters of an engine get the integers of the configuration, or the
context that was resolved from it; integers that do not fit are refused before
any object is made for the engine. -/
structure ExactLoad (w : NativeWorker) (config : EngineConfig) (artifact : InspectAnswers)
    (info : ModelInfo) (maximum : ℤ) : Prop where
  loaded : ∀ a : LoadAnswers, a.inspect = artifact → Post (loadEngine config a) w
    (Received w (configSetters config (contextTokens config info maximum)))
  refused : ¬ FitsConfig config (contextTokens config info maximum) → w.state.closing = false →
    ∀ a : LoadAnswers, a.inspect = artifact → Post (loadEngine config a) w fun result t ↦
      ∃ failure, result = .error (.failure failure) ∧
        (supportsBackends config info = true → ∃ message, failure = .invalidArgument message) ∧
          t.state.native = (inspect config.modelPath artifact w).2.state.native

theorem exactLoad_iff {artifact : InspectAnswers} (h : Inspects w config artifact info maximum) :
    ExactLoad w config artifact info maximum ↔ (w.state.closing = false →
      accepts config info maximum = true →
        FitsConfig config (contextTokens config info maximum)) := by
  constructor
  · intro hexact hclosing haccepts
    obtain ⟨-, received, hreceived, -, hall⟩ := hexact.loaded (grantedLoad artifact) rfl
    obtain ⟨-, narrowed, hnarrowed, -, hall'⟩ :=
      post_loadEngine_narrowed (a := grantedLoad artifact) h
    obtain ⟨id, hid⟩ := post_loadEngine_granted h hclosing haccepts
    rw [hall id hid] at hreceived
    rw [hall' id hid] at hnarrowed
    exact (narrowedConfig_eq_iff config _).mp
      (List.append_cancel_left (hnarrowed.symm.trans hreceived))
  · intro hfits
    by_cases hc : w.state.closing = false ∧ accepts config info maximum = true
    · have hfits := hfits hc.1 hc.2
      refine ⟨fun a ha ↦ ?_, fun hout ↦ absurd hfits hout⟩
      subst ha
      rw [← (narrowedConfig_eq_iff config _).mpr hfits]
      exact post_loadEngine_narrowed h
    · have haccepts (hclosing : w.state.closing = false) : accepts config info maximum = false :=
        Bool.eq_false_iff.mpr fun haccepts ↦ hc ⟨hclosing, haccepts⟩
      refine ⟨fun a ha ↦ ?_, fun _ hclosing a ha ↦ ?_⟩
      · subst ha
        exact (post_loadEngine_refused h haccepts).mono fun result t ht ↦ ht.1 _
      · subst ha
        exact (post_loadEngine_refused h haccepts).mono fun result t ht ↦ ht.2 hclosing

end Load

def ExactConfig (w : NativeWorker) (config : EngineConfig) (artifact : InspectAnswers) : Prop :=
  ∀ info maximum, Inspects w config artifact info maximum →
    ExactLoad w config artifact info maximum

theorem exactConfig_iff {config : EngineConfig} {artifact : InspectAnswers} :
    ExactConfig w config artifact ↔ ∀ info maximum, Inspects w config artifact info maximum →
      w.state.closing = false → accepts config info maximum = true →
        FitsConfig config (contextTokens config info maximum) := by
  constructor
  · intro h info maximum hi
    exact (exactLoad_iff hi).mp (h info maximum hi)
  · intro h info maximum hi
    exact (exactLoad_iff hi).mpr (h info maximum hi)

/-- The native library gets the integers of the caller exactly where no integer
that needs more than 32 bits passes the lower bounds, which are all that is
checked besides the capacity of the artifact. -/
theorem setters_exact_iff (rt : Runtime) (w : NativeWorker) (engineId : ℕ)
    (params : GenerationParams) (config : EngineConfig) (artifact : InspectAnswers) :
    (ExactParams rt w engineId params ↔
      (w.state.ready engineId → validParams params = true → Fits params)) ∧
    (ExactConfig w config artifact ↔
      ∀ info maximum, Inspects w config artifact info maximum → w.state.closing = false →
        accepts config info maximum = true →
          FitsConfig config (contextTokens config info maximum)) :=
  ⟨exactParams_iff, exactConfig_iff⟩

namespace Scenario

def loaded : NativeWorker :=
  run runtime [.command (some 1) (.loadEngine { modelPath := "model.litertlm" } loads)]

def widest : InspectAnswers := { loads.inspect with maximum := 2 ^ 32 - 1, dynamicContext := true }

def wide : EngineConfig := { modelPath := "model.litertlm", maxNumTokens := some (2 ^ 31) }

end Scenario

open Scenario in
/-- A `topK` just above 2³² reaches the sampler as 1, and a context of 2³¹
tokens is negative for the engine. -/
theorem setters_inexact :
    (createSession runtime 1 { topK := 2 ^ 32 + 1 } [] true opens loaded).2.setters =
      loaded.setters ++ [.topK 1, .seed 0, .maxOutputTokens 256] ∧
    ¬ ExactParams runtime loaded 1 { topK := 2 ^ 32 + 1 } ∧
    (loadEngine wide { loads with inspect := widest } {}).2.setters = [.maxNumTokens (-2 ^ 31)] ∧
    ¬ ExactConfig {} wide widest := by
  have hready : loaded.state.ready 1 := by
    have h : ((loaded.state.engines.lookup 1).any fun e ↦ e.phase = .ready) = true := by
      decide +kernel
    obtain ⟨engine, hengine, hphase⟩ := (Option.any_eq_true ..).mp h
    exact ⟨engine, hengine, by simpa using hphase⟩
  refine ⟨by decide +kernel, fun h ↦ ?_, by decide +kernel, fun h ↦ ?_⟩
  · have hfits := exactParams_iff.mp h hready (by decide +kernel)
    exact absurd hfits.1.2 (by decide)
  · have hinspected : ((inspect wide.modelPath widest {}).1.toOption.any fun info ↦
        info.maxContextTokens == some (2 ^ 32 - 1) && accepts wide info (2 ^ 32 - 1)) = true := by
      decide +kernel
    obtain ⟨info, hinfo, hpass⟩ := (Option.any_eq_true ..).mp hinspected
    rw [Bool.and_eq_true, beq_iff_eq] at hpass
    have hread : (inspect wide.modelPath widest {}).1 = .ok info := by
      cases hresult : (inspect wide.modelPath widest {}).1 with
      | error e => simp [hresult, Except.toOption] at hinfo
      | ok info' => simpa [hresult, Except.toOption] using hinfo
    have hfits := exactConfig_iff.mp h info (2 ^ 32 - 1) ⟨hread, hpass.1⟩ rfl hpass.2
    have hcontext : contextTokens wide info (2 ^ 32 - 1) = 2 ^ 31 := rfl
    rw [hcontext] at hfits
    exact absurd hfits.1.2 (by decide)

end LibLitertLm.Worker
