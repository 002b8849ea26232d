import LibLitertLm.Worker.Admission
import LibLitertLm.Worker.Replies

namespace LibLitertLm.Worker

open Code

variable {rt : Runtime} {w t : NativeWorker} {asked : List ℕ} {T : Tables} {P : α → Prop}
  {Q : α → State → Prop}

/-- What a value that answers a command says of the worker: of the state
`before` it served the command and of the state that the value is sent in. -/
def Command.Grants (before : State) : Command → Value → State → Prop
  | .loadEngine config _, v, s => v = .id before.nextEngine ∧ ∃ engine,
      s.engines = before.engines ++ [(before.nextEngine, engine)] ∧
      s.nextEngine = before.nextEngine + 1 ∧ engine.phase = .ready ∧ engine.config = config ∧
      engine.info.path = config.modelPath
  | .inspectModel path _, v, _ => ∃ info, v = .model info ∧ info.path = path
  | .engineInfo id, v, s => ∃ engine, v = .engine engine.info ∧ (id, engine) ∈ s.engines ∧
      engine.phase = .ready
  | .createSession engineId params _ conversation _, v, s => v = .id before.nextSession ∧
      s.sessions = before.sessions ++ [before.nextSession] ∧
      s.nextSession = before.nextSession + 1 ∧
      (∃ engine, (engineId, engine) ∈ s.engines ∧ engine.phase = .ready) ∧
      (s.session before.nextSession).engineId = engineId ∧
      (s.session before.nextSession).params = params ∧
      (s.session before.nextSession).conversation = (conversation || params.applyPromptTemplate) ∧
      (s.session before.nextSession).handle ≠ none ∧ (s.session before.nextSession).streamId = none
  | .tokenize id _ a, v, s => v = .tokens a.tokens ∧ ∃ engine, (id, engine) ∈ s.engines ∧
      engine.phase = .ready
  | .budget r _ reserve a, v, s => r ∈ s.sessions ∧ (s.session r).streamId = none ∧
      ∃ engine messages, ((s.session r).engineId, engine) ∈ s.engines ∧
        v = .budget (a.reported engine.info.effectiveContextTokens messages reserve)
  | .metrics r, v, s => v = .metrics (s.session r).metrics ∧ r ∈ s.sessions ∧
      (s.session r).streamId = none
  | .cancelSession r, v, s => v = .nothing ∧ ∀ stream ∈ s.operations,
      (s.op stream).session = r → (s.op stream).cancelRequested = true
  | .disposeSession r, v, s => v = .nothing ∧ s.sessions = before.sessions.filter (· ≠ r) ∧
      ∀ stream ∈ s.operations, (s.op stream).session ≠ r
  | .disposeEngine id, v, s => v = .nothing ∧ (∀ engine, (id, engine) ∉ s.engines) ∧
      ∀ r ∈ s.sessions, (s.session r).engineId ≠ id
  | .close, v, s => v = .nothing ∧ Empty s
  | _, _, _ => False

section Makes

def Makes (T : Tables) (Q : α → State → Prop) (m : M α) : Prop :=
  ∀ w, w.state.tables = T → Post m w fun result t ↦ ∀ a, result = .ok a → Q a t.state

namespace Makes

theorem aside {m : M β} {f : β → M α} (hm : Aside m) (hf : ∀ b, Makes T Q (f b)) :
    Makes T Q (m >>= f) := by
  intro w hw
  refine hm.post_bind (fun b t ht ↦ hf b t (ht.trans hw)) fun e t _ a h ↦ ?_
  cases h

theorem aside_yields {p : β → Prop} {m : M β} {f : β → M α} (hm : Aside m) (hy : Yields p m)
    (hf : ∀ b, p b → Makes T Q (f b)) : Makes T Q (m >>= f) := by
  intro w hw
  rw [post_bind]
  refine ((hm T w hw).and (hy w)).mono fun result t hboth ↦ ?_
  obtain ⟨ht, hp⟩ := hboth
  cases result with
  | error e =>
    intro a h
    cases h
  | ok b => exact hf b (hp b rfl) t ht

theorem thrown (e : Thrown) : Makes T Q (throw e : M α) := by
  intro w _ a h
  cases h

theorem guard {p : Prop} [Decidable p] (e : Thrown) {f : Unit → M α} (hf : Makes T Q (f ())) :
    Makes T Q (if p then (throw e : M Unit) >>= f else f ()) := by
  split_ifs
  · exact fun w hw ↦ thrown e w hw
  · exact hf

theorem tryFinally {m : M α} {n : M β} (hm : Makes T Q m)
    (hn : ∀ a, Keeps (fun w ↦ Q a w.state) n) : Makes T Q (tryFinally m n) := by
  intro w hw
  rw [post_tryFinally]
  refine (hm w hw).mono fun result t ht ↦ ?_
  cases result with
  | error e =>
    refine Post.mono (P := fun _ _ ↦ True) trivial fun result u _ ↦ ?_
    cases result <;> exact fun a h ↦ by cases h
  | ok a =>
    refine (hn a t (ht a rfl)).mono fun result u hu ↦ ?_
    cases result with
    | error e =>
      intro a' h
      cases h
    | ok b =>
      intro a' h
      obtain rfl := Except.ok.inj h
      exact hu

end Makes

end Makes

/-- A model is inspected under the path it was asked for. -/
theorem yields_inspect (path : String) (a : InspectAnswers) :
    Yields (fun info ↦ info.path = path) (inspect path a) := by
  refine .guard _ (.guard _ (.bind _ fun _ ↦ .bind _ fun file ↦ .bind _ fun _ ↦ .tryFinally ?_ _))
  refine .bind _ fun text ↦ .bind _ fun vision ↦ .bind _ fun audio ↦ .bind _ fun _ ↦ ?_
  cases a.hash with
  | none => exact .throw _
  | some hash => exact .bind _ fun _ ↦ .bind _ fun version ↦ .pure rfl

theorem makes_loadEngine (T : Tables) (config : EngineConfig) (a : LoadAnswers) :
    Makes T (fun id s ↦ id = T.nextEngine ∧ ∃ engine,
      s.engines = T.engines ++ [(T.nextEngine, engine)] ∧
      s.nextEngine = T.nextEngine + 1 ∧ engine.phase = .ready ∧ engine.config = config ∧
      engine.info.path = config.modelPath) (loadEngine config a) := by
  refine .aside (aside_read _) fun closing ↦ .guard _ ?_
  refine .aside_yields (inside_inspect _ _).aside₀ (yields_inspect _ _) fun info hinfo ↦ ?_
  refine .aside (aside_lift _) fun limits ↦ ?_
  obtain ⟨maximum, context⟩ := limits
  refine .aside (aside_utf8 _ _) fun _ ↦ .aside (aside_utf8 _ _) fun _ ↦ ?_
  refine .aside (aside_utf8 _ _) fun _ ↦ .aside (aside_utf8 _ _) fun _ ↦ ?_
  refine .aside (aside_create _ _) fun settings ↦ .aside (aside_checkPointer _ _ _) fun _ ↦ ?_
  refine .tryFinally ?_ fun _ _ h ↦ h
  refine .aside (aside_set _ _ _) fun _ ↦ .aside (aside_use _ _) fun _ ↦ .aside
    (aside_use _ _) fun _ ↦ ?_
  refine .aside (.onSome fun _ ↦ aside_set _ _ _) fun _ ↦ ?_
  refine .aside (.when (.bind (aside_utf8 _ _) fun _ ↦ aside_use _ _)) fun _ ↦ ?_
  refine .aside (.when (.bind (aside_utf8 _ _) fun _ ↦ aside_use _ _)) fun _ ↦ ?_
  refine .aside (aside_use _ _) fun _ ↦ .aside (aside_create _ _) fun pointer ↦ ?_
  refine .aside (aside_checkPointer _ _ _) fun _ ↦ ?_
  cases pointer with
  | none => exact .thrown _
  | some pointer =>
    refine .aside (aside_use _ _) fun _ ↦ ?_
    dsimp only
    split_ifs
    · exact .aside (aside_deleteEngine _) fun _ ↦ .thrown _
    · intro w hw id hid
      obtain rfl : w.state.nextEngine = id := Except.ok.inj hid
      subst hw
      exact ⟨rfl, _, rfl, rfl, rfl, rfl, hinfo⟩

theorem post_createSession_grants (hw : Consistent w.state) (engineId : ℕ)
    (params : GenerationParams)
    (initial : List ChatMessage) (conversation : Bool) (a : OpenAnswers) :
    Post (createSession rt engineId params initial conversation a) w fun result t ↦
      ∀ r, result = .ok r → (Command.createSession engineId params initial conversation a).Grants
        w.state (.id r) t.state := by
  have hfail (e : Thrown) (t : NativeWorker) (r : ℕ) (h : Except.error e = .ok r) :
      (Command.createSession engineId params initial conversation a).Grants w.state
        (.id r) t.state := by
    cases h
  rw [createSession, post_bind]
  refine post_findReady (fun engine hengine hready ↦ ?_) fun e ↦ hfail e w
  dsimp only
  split_ifs
  · exact hfail _ w
  refine Still.post_bind (still_dart _) (fun history ↦ ?_) fun e ↦ hfail e w
  rw [post_read_bind, post_bind]
  generalize hx : ({ engineId := engineId, params := params, history := history, initial := history
                     conversation := conversation || params.applyPromptTemplate } :
      NativeSession) = x
  refine (hw.scratch.post_modifySession w.state.nextSession fun _ ↦ x).mono fun result t ht ↦ ?_
  obtain ⟨rfl, ht⟩ := ht
  refine Still.post_bind (fun _ ↦ .lift _) (fun _ ↦ ?_) fun e ↦ hfail e t
  have hchat : x.chat = none := by rw [← hx]
  have hraw : x.raw = none := by rw [← hx]
  refine (post_bind ..).mpr ((Opens.post_openSession ht (hw.engineLive _ _ (mem_pointers hengine))
    (by simpa using hchat) (by simpa using hraw) none a).mono fun result u hu ↦ ?_)
  rw [NativeWorker.setSession_session] at hu
  simp only [Opens, NativeWorker.setSession_setSession] at hu
  cases result with
  | error e => exact hfail e u
  | ok _ =>
    obtain ⟨p, -, -, next, setters, rfl, -⟩ := hu
    rintro r hr
    obtain rfl : w.state.nextSession = r := Except.ok.inj hr
    have hopened : (x.opened (none.getD x.history) (some p)).engineId = engineId ∧
        (x.opened (none.getD x.history) (some p)).params = params ∧
        (x.opened (none.getD x.history) (some p)).conversation =
          (conversation || params.applyPromptTemplate) ∧
        (x.opened (none.getD x.history) (some p)).handle ≠ none ∧
        (x.opened (none.getD x.history) (some p)).streamId = none := by
      refine ⟨?_, ?_, ?_, by simp [NativeSession.opened_handle], ?_⟩
      all_goals
        rw [← hx]
        rfl
    rw [← w.setSession_session w.state.nextSession (x.opened (none.getD x.history) (some p))]
      at hopened
    exact ⟨rfl, rfl, rfl, ⟨engine, hengine, hready⟩, hopened⟩

theorem yields_tokenize (engine : NativeEngine) (a : TokenizeAnswers) :
    Yields (· = a.tokens) (tokenize engine a) := by
  refine .bind _ fun _ ↦ .bind _ fun _ ↦ .bind _ fun tokens ↦ .bind _ fun _ ↦ .tryFinally ?_ _
  exact .bind _ fun _ ↦ .bind _ fun _ ↦ .pure rfl

theorem post_value {m : M α} {f : α → Value} {G : Value → State → Prop}
    (h : Post m w fun result t ↦ ∀ a, result = .ok a → G (f a) t.state) :
    Post (m >>= fun a ↦ pure (some (f a))) w fun result t ↦
      ∀ v, result = .ok (some v) → G v t.state := by
  refine (post_bind ..).mpr (h.mono fun result t ht ↦ ?_)
  cases result with
  | error e =>
    intro v hv
    cases hv
  | ok a =>
    intro v hv
    obtain rfl : f a = v := Option.some.inj (Except.ok.inj hv)
    exact ht a rfl

/-- The operation of a session that is cancelled has been told so. -/
theorem post_cancelSession_grants (hT : Tabled (fun _ ↦ False) (fun _ ↦ False) w.state.tables)
    (r : ℕ) :
    Post (serve rt (.cancelSession r)) w fun result t ↦
      ∀ v, result = .ok (some v) → (Command.cancelSession r).Grants w.state v t.state := by
  have hnamed (stream : ℕ) (hlive : stream ∈ w.state.operations)
    (hsession : (w.state.op stream).session = r) :
      r ∈ w.state.sessions ∧ (w.state.session r).streamId = some stream := by
    obtain ⟨hr, hstream⟩ := hT.registered stream hlive
    have hr0 := (hT.sessionBound _ hr).1
    have hr' : r ∈ w.state.sessions := hsession ▸ hr
    have hentry := w.state.tables_session hr0
    rw [hentry] at hstream
    exact ⟨hr', hsession ▸ hstream⟩
  rw [serve, post_read_bind, findOperation, post_read_bind]
  cases hop : (if r ∈ w.state.sessions then (w.state.session r).streamId else none).filter
      (· ∈ w.state.operations) with
  | none =>
    refine Post.mono (P := fun result t ↦ result = .ok (some .nothing) ∧ t = w) ⟨rfl, rfl⟩
      fun result t ht v hv ↦ ?_
    obtain ⟨rfl, rfl⟩ := ht
    obtain rfl : Value.nothing = v := Option.some.inj (Except.ok.inj hv)
    refine ⟨rfl, fun stream hlive hsession ↦ ?_⟩
    obtain ⟨hr, hstream⟩ := hnamed stream hlive hsession
    have hgone : stream ∉ t.state.operations := by simpa [hr, hstream] using hop
    exact absurd hlive hgone
  | some stream =>
    obtain ⟨hstreamId, hlive⟩ := Option.filter_eq_some_iff.mp hop
    have hlive : stream ∈ w.state.operations := by simpa using hlive
    refine (post_bind ..).mpr
      ((post_cancel_tables (hT.session_ne hlive) false).mono fun result t ht ↦ ?_)
    obtain ⟨rfl, ht⟩ := ht
    intro v hv
    obtain rfl : Value.nothing = v := Option.some.inj (Except.ok.inj hv)
    refine ⟨rfl, fun other hother hsession ↦ ?_⟩
    have hoperations : t.state.operations = w.state.operations :=
      (congrArg Tables.operations ht).trans (w.state.tables.cancel_spec stream).2.1
    have hentry := congrArg (fun T : Tables ↦ T.op other) ht
    obtain ⟨hkept, hcancelled⟩ := w.state.tables.cancel_op stream other
    have hsession' : (w.state.op other).session = r :=
      hkept.symm.trans ((congrArg OpEntry.session hentry).symm.trans hsession)
    obtain ⟨hr, hother'⟩ := hnamed other (hoperations ▸ hother) hsession'
    rw [if_pos hr, hother'] at hstreamId
    obtain rfl := Option.some.inj hstreamId
    rw [if_pos rfl] at hcancelled
    exact (congrArg OpEntry.cancelRequested hentry).trans hcancelled

theorem post_budget_grants (hT : Tabled (fun _ ↦ False) (fun _ ↦ False) w.state.tables) (r : ℕ)
    (input : Input) (reserve : ℤ) (a : BudgetAnswers) :
    Post (serve rt (.budget r input reserve a)) w fun result t ↦
      ∀ v, result = .ok (some v) → (Command.budget r input reserve a).Grants w.state v t.state := by
  have hfail {e : Thrown} {t : NativeWorker} (v : Value) (h : Except.error e = .ok (some v)) :
      (Command.budget r input reserve a).Grants w.state v t.state := by
    cases h
  refine (post_bind ..).mpr (post_findSession (fun hr ↦ ?_) hfail)
  dsimp only
  split_ifs with hbusy
  · exact hfail
  have hidle : (w.state.session r).streamId = none := by simpa using hbusy
  refine Still.post_bind (still_dart _) (fun messages ↦ ?_) fun e ↦ hfail
  have hr0 : r ≠ 0 := (hT.sessionBound r hr).1
  have hentry := w.state.tables_session hr0
  obtain ⟨engine, hengine, -⟩ := hT.engine r hr not_false
  rw [hentry] at hengine
  have hcontext : HasContext engine.info.effectiveContextTokens r w := by
    intro engine' hengine'
    have hsame := List.inj_on_of_nodup_map hT.engineIds hengine hengine' rfl
    rw [(Prod.mk.inj hsame).2]
  refine post_value ((((inside_budget rt r messages reserve a).aside w.state.tables w rfl).and
    (hcontext.post_budget messages reserve a)).mono fun result t ht b hb ↦ ?_)
  obtain ⟨ht, hreported⟩ := ht
  have hentry' : (t.state.session r).entry = (w.state.session r).entry := by
    rw [← t.state.tables_session hr0, ← hentry, show t.state.tables = w.state.tables from ht]
  have hsessions : t.state.sessions = w.state.sessions := congrArg Tables.sessions ht
  have hengines : t.state.engines = w.state.engines := congrArg Tables.engines ht
  refine ⟨hsessions ▸ hr, (congrArg SessionEntry.streamId hentry').trans hidle,
    engine, messages, ?_,
    congrArg Value.budget (hreported b hb)⟩
  rw [hengines, show (t.state.session r).engineId = (w.state.session r).engineId from
    congrArg SessionEntry.engineId hentry']
  exact hengine

/-- A value that answers a command is true of the worker. -/
theorem post_serve_grants (hw : Sound asked w) (command : Command) :
    Post (serve rt command) w fun result t ↦
      ∀ v, result = .ok (some v) → command.Grants w.state v t.state := by
  have hT := hw.tabled
  have hself : Reached rt True w w := .refl hw.consistent
  have hnone {m : M (Option Value)} (hm : Gives false m) : Post m w fun result t ↦
      ∀ v, result = .ok (some v) → command.Grants w.state v t.state := by
    refine (hm w).mono fun result t ht v hv ↦ ?_
    cases ht _ hv
  have hengines {t : NativeWorker} (ht : t.state.tables = w.state.tables) :
      t.state.engines = w.state.engines := congrArg Tables.engines ht
  cases command with
  | generate | credit | cancelStream | testCrash => exact hnone (.serve _)
  | loadEngine config a =>
    refine post_value
      ((makes_loadEngine w.state.tables config a w rfl).mono fun result t ht id hid ↦ ?_)
    obtain ⟨rfl, hengine⟩ := ht id hid
    exact ⟨rfl, hengine⟩
  | inspectModel path a =>
    exact post_value
      ((yields_inspect path a w).mono fun result t ht info hinfo ↦ ⟨info, rfl, ht info hinfo⟩)
  | engineInfo id =>
    refine post_value (post_findReady (fun engine hengine hready ↦ ?_) fun e ↦ ?_)
    · intro engine' h
      obtain rfl := Except.ok.inj h
      exact ⟨engine, rfl, hengine, hready⟩
    · intro engine' h
      cases h
  | createSession engineId params initial conversation a =>
    exact post_value
      (post_createSession_grants hw.consistent engineId params initial conversation a)
  | tokenize id text a =>
    refine (post_bind ..).mpr (post_findReady (fun engine hengine hready ↦ ?_) fun e ↦ ?_)
    · refine post_value (((inside_tokenize engine a).aside₀ w.state.tables w rfl).and
        (yields_tokenize engine a w) |>.mono fun result t ht tokens htokens ↦ ?_)
      obtain ⟨ht, hyields⟩ := ht
      refine ⟨congrArg Value.tokens (hyields tokens htokens), engine, ?_, hready⟩
      rw [hengines ht]
      exact hengine
    · intro v h
      cases h
  | budget r input reserve a => exact post_budget_grants hT r input reserve a
  | metrics r =>
    refine (post_bind ..).mpr (post_findSession (fun hr ↦ ?_) fun v h ↦ ?_)
    · dsimp only
      split_ifs with hbusy
      · intro v h
        cases h
      · have hidle : (w.state.session r).streamId = none := by simpa using hbusy
        intro v h
        obtain rfl : Value.metrics (w.state.session r).metrics = v :=
          Option.some.inj (Except.ok.inj h)
        exact ⟨rfl, hr, hidle⟩
    · cases h
  | cancelSession r => exact post_cancelSession_grants hT r
  | disposeSession r =>
    refine post_value (f := fun _ ↦ .nothing)
      ((post_disposeSession hT r).mono fun result t ht _ _ ↦ ?_)
    obtain ⟨-, ht, hd⟩ := ht
    refine ⟨rfl, hd.sessions, fun stream hlive hsession ↦ ?_⟩
    obtain ⟨hr, -⟩ := ht.registered stream hlive
    rw [hd.sessions, List.mem_filter] at hr
    exact of_decide_eq_true hr.2 hsession
  | disposeEngine id =>
    refine post_value (f := fun _ ↦ .nothing)
      ((hself.disposeEngine id).mono fun result t ht _ _ ↦ ?_)
    obtain ⟨-, ht, hpointers⟩ := ht
    refine ⟨rfl, fun engine hengine ↦ (hpointers _ (mem_pointers hengine)).2 rfl,
      fun r hr hengine ↦ ?_⟩
    obtain ⟨q, hq, -⟩ := ht.1.sessionEngine r hr
    exact (hpointers _ hq).2 hengine
  | close =>
    refine (post_bind ..).mpr (hself.closeAll.mono fun result t ht ↦ ?_)
    obtain ⟨rfl, -, he, hs, ho, htimer⟩ := ht
    intro v hv
    obtain rfl : Value.nothing = v := Option.some.inj (Except.ok.inj hv)
    exact ⟨rfl, he, hs, ho, htimer⟩

section Numbers

variable {harmless : Prop} {a : Action}

/-- What every step does to the state, and the two ways to stop listening, is
what a turn does to it. -/
theorem Turn.relates {R : State → State → Prop} (hrefl : ∀ s, R s s)
    (htrans : ∀ {s s' s''}, R s s' → R s' s'' → R s s'')
    (hmove : ∀ {v u : NativeWorker}, Move rt harmless v u → R v.state u.state)
    (hgenerated : ∀ {v u : NativeWorker} {stream r : ℕ},
      Generated rt harmless stream r v u → R v.state u.state)
    (hcrash : ∀ s : State, R s { s with fatalExit := true })
    (hclose : ∀ s : State, R s { s with commandsClosed := true }) (h : Turn rt harmless w a t) :
    R w.state t.state := by
  have hmoves {v u : NativeWorker} (h : Moves rt harmless v u) : R v.state u.state := by
    induction h with
    | refl => exact hrefl _
    | tail _ hlast ih => exact htrans ih (hmove hlast)
  cases h with
  | deaf => exact hrefl _
  | plain _ _ h => exact hmoves h
  | generate _ h =>
    obtain ⟨u, v, hu, -, -, hv, ht⟩ := h
    exact htrans (hmoves hu) (htrans (hgenerated hv) (hmoves ht.2))
  | crash _ _ h => exact htrans (hcrash _) (hmoves h)
  | refuse _ _ h => exact hmoves h
  | close _ h => exact htrans (hmoves h) (hclose _)
  | tick h => exact hmoves h
  | callback c => exact hmove (.callback w c)

structure Numbered (s s' : State) : Prop where
  engines : s.nextEngine ≤ s'.nextEngine
  sessions : s.nextSession ≤ s'.nextSession

namespace Numbered

theorem of_eq {s s' : State} (hengines : s'.nextEngine = s.nextEngine)
    (hsessions : s'.nextSession = s.nextSession) : Numbered s s' := ⟨hengines.ge, hsessions.ge⟩

theorem prepared {s s' : State} {r : ℕ} {messages : List Message} (h : Prepared s r messages s') :
    Numbered s s' := by
  cases h with
  | reuse => exact .of_eq rfl rfl
  | rebuild => exact .of_eq rfl rfl

theorem move (h : Move rt harmless w t) : Numbered w.state t.state := by
  cases h with
  | quiet h => exact .of_eq h.nextEngine h.nextSession
  | load => exact ⟨Nat.le_succ _, le_rfl⟩
  | add => exact ⟨le_rfl, Nat.le_succ _⟩
  | rebuild _ _ _ hs => exact .prepared hs
  | release _ hs => exact .of_eq hs.unseen.nextEngine hs.unseen.nextSession
  | complete _ hs => exact .of_eq hs.unseen.nextEngine hs.unseen.nextSession
  | _ => exact .of_eq rfl rfl

theorem generated {stream r : ℕ} (h : Generated rt harmless stream r w t) :
    Numbered w.state t.state := by
  cases h with
  | launch status error _ _ hs =>
    obtain ⟨hengines, hsessions⟩ := prepared hs
    exact ⟨hengines, hsessions⟩
  | _ => exact .of_eq rfl rfl

theorem turn (h : Turn rt harmless w a t) : Numbered w.state t.state := by
  refine h.relates (fun _ ↦ .of_eq rfl rfl)
    (fun h h' ↦ ?_) .move .generated (fun _ ↦ .of_eq rfl rfl)
    fun _ ↦ .of_eq rfl rfl
  exact ⟨h.engines.trans h'.engines, h.sessions.trans h'.sessions⟩

end Numbered

end Numbers

end LibLitertLm.Worker
