import LibLitertLm.Worker.Pumping

namespace LibLitertLm.Worker

open Code

structure Alike (s s' : State) : Prop where
  sessions : s'.sessions = s.sessions
  pointers : s'.pointers = s.pointers
  engineId : ∀ r, (s'.session r).engineId = (s.session r).engineId

section Alike

variable {s s' s'' : State}

theorem Alike.trans (h : Alike s s') (h' : Alike s' s'') : Alike s s'' :=
  ⟨h'.sessions.trans h.sessions, h'.pointers.trans h.pointers,
    fun r ↦ (h'.engineId r).trans (h.engineId r)⟩

/-- A change of one session that keeps its engine. -/
theorem Alike.of_session {r : ℕ} {x : NativeSession} {n : Native}
    (hx : x.engineId = (s.session r).engineId) :
    Alike s { s with session := Function.update s.session r x, native := n } := by
  refine ⟨rfl, rfl, fun r' ↦ ?_⟩
  by_cases h : r' = r
  · simp [h, hx]
  · simp [h]

theorem Alike.drop (s : State) (r : ℕ) : Alike s (s.drop r) := .of_session rfl

theorem Alike.setPhase (s : State) (r : ℕ) (phase : HandlePhase) : Alike s (s.setPhase r phase) :=
  .of_session rfl

theorem Alike.retire (s : State) (stream : ℕ) (phase : HandlePhase) :
    Alike s (s.retire stream phase) := by
  obtain ⟨hsessions, hpointers, hengine⟩ := Alike.of_session (s := s)
    (r := (s.op stream).session) (n := s.native.operationDelete (s.op stream).native)
    (x := { s.session (s.op stream).session with streamId := none, phase := phase }) rfl
  exact ⟨hsessions, hpointers, hengine⟩

theorem Alike.cancel (s : State) (stream : ℕ) (overflow : Bool) :
    Alike s (s.cancel stream overflow) :=
  ⟨rfl, rfl, fun _ ↦ rfl⟩

end Alike

variable {rt : Runtime} {harmless : Prop} {w₀ w t : NativeWorker}

/-- The worker while session `r`, whose handle is gone, is disposed of. -/
structure Emptied (rt : Runtime) (harmless : Prop) (w₀ : NativeWorker) (s : State) (r : ℕ)
    (w : NativeWorker) : Prop where
  reached : Reached rt harmless w₀ w
  handle : (w.state.session r).handle = none
  alike : Alike s w.state

/-- An operation has a handle, so it is not one of a session without. -/
theorem Consistent.no_operation {s : State} (hs : Consistent s) {r : ℕ}
    (hr : (s.session r).handle = none) : ∀ stream ∈ s.operations, (s.op stream).session ≠ r := by
  rintro stream hstream rfl
  exact (hs.opSession stream hstream).2.2 hr

theorem Emptied.remove {s : State} {r : ℕ} (h : Emptied rt harmless w₀ s r w) :
    Post (do
      modifySession r fun x ↦ { x with phase := .closed }
      update fun s ↦ { s with sessions := s.sessions.filter (· ≠ r) }) w fun result t ↦
      result = .ok () ∧ Reached rt harmless w₀ t ∧ t.state.pointers = s.pointers ∧
        t.state.sessions = s.sessions.filter (· ≠ r) ∧
        ∀ r, (t.state.session r).engineId = (s.session r).engineId := by
  have hclosed := h.alike.trans (.setPhase w.state r .closed)
  have hquiet : Reached rt harmless w₀ ⟨w.state.setPhase r .closed, w.sent⟩ :=
    h.reached.move (.quiet (.setPhase ..))
  have hhandle : ((w.state.setPhase r .closed).session r).handle = none := by
    simpa [State.setPhase, NativeSession.handle] using h.handle
  refine (post_bind ..).mpr ((post_modifySession _).mpr ((post_update _).mpr ?_))
  refine ⟨rfl, hquiet.move (.remove hhandle (hquiet.1.no_operation hhandle)), hclosed.pointers, ?_,
    hclosed.engineId⟩
  exact congrArg _ hclosed.sessions

variable {r stream : ℕ}

theorem Reached.finishDropped (h : Reached rt harmless w₀ w) (hstream : stream ∈ w.state.operations)
    (hsession : (w.state.op stream).session = r) :
    Post (do
      deleteHandle r
      finish rt stream 3 "" false noAnswers) w fun result t ↦
      result = .ok () ∧ Emptied rt harmless w₀ w.state r t := by
  subst hsession
  refine (post_finish_dropped h.1 hstream (by decide) "" noAnswers).mono
    fun result t ⟨hok, phase, e, he, _, ht⟩ ↦ ⟨hok, ?_⟩
  subst ht
  refine ⟨h.move (.release hstream (.refl h.1) (fun _ ↦ rfl) phase he), ?_, ?_⟩
  · simp [emit, State.drop]
  · exact (Alike.retire ..).trans (.drop ..)

/-- The operation that has the session's stream number, but on another session. -/
theorem Reached.finishOther (h : Reached rt harmless w₀ w) (hr : r ∈ w.state.sessions)
    (hid : (w.state.session r).streamId = some stream) (hstream : stream ∈ w.state.operations)
    (hsession : (w.state.op stream).session ≠ r) :
    Post (do
      deleteHandle r
      finish rt stream 3 "" false noAnswers) w fun result t ↦
      result = .ok () ∧ Emptied rt harmless w₀ w.state r t := by
  have hother (t : ℕ) (ht : t ∈ w.state.operations) : (w.state.op t).session ≠ r := by
    rintro rfl
    obtain rfl := Option.some.inj (hid.symm.trans (h.1.opSession t ht).2.1)
    exact hsession rfl
  refine (post_bind ..).mpr ((post_deleteHandle (h.1.sessionSpare r hr) (h.1.handle_live hr)).mono
    fun result t ⟨hok, ht⟩ ↦ ?_)
  subst hok ht
  have hdrop : Reached rt harmless w₀ ⟨w.state.drop r, w.sent⟩ := h.move (.drop hr hother)
  have hr' := (hdrop.1.opSession stream hstream).1
  refine (post_finish_failed (w := ⟨w.state.drop r, w.sent⟩) hstream (hdrop.1.sessionSpare _ hr')
    (hdrop.1.handle_live hr') (.inr (by decide)) "" noAnswers).mono
    fun result t ⟨hok, e, he, _, ht⟩ ↦ ⟨hok, ?_⟩
  subst ht
  have hstaged : Staged (w.state.drop r) stream (w.state.drop r) :=
    Staged.refl (w := ⟨w.state.drop r, w.sent⟩) hdrop.1
  refine ⟨hdrop.move (.release (w := ⟨w.state.drop r, w.sent⟩) hstream hstaged (fun _ ↦ rfl) _ he),
    ?_, ?_⟩
  · have hne : r ≠ ((w.state.drop r).op stream).session := hsession.symm
    have hkept := (Function.update_of_ne hne
      { (((w.state.drop r).retire stream ((w.state.drop r).settled stream)).session
        ((w.state.drop r).op stream).session) with chat := none, raw := none } _).trans
      (Function.update_of_ne hne
        { (w.state.drop r).session ((w.state.drop r).op stream).session with
          streamId := none, phase := (w.state.drop r).settled stream } (w.state.drop r).session)
    refine (congrArg NativeSession.handle hkept).trans ?_
    simp [State.drop]
  · exact (Alike.drop ..).trans ((Alike.retire ..).trans (.drop ..))

theorem Reached.clear (h : Reached rt harmless w₀ w) (hr : r ∈ w.state.sessions)
    {op : Option ℕ} (hop : (w.state.session r).streamId.filter (· ∈ w.state.operations) = op)
    {k : M Unit} {Q : Except Thrown Unit → NativeWorker → Prop}
    (hk : ∀ t, Emptied rt harmless w₀ w.state r t → Post k t Q) :
    Post (do
      onSome op fun stream ↦ cancel stream false
      deleteHandle r
      onSome op fun stream ↦ finish rt stream 3 "" false noAnswers
      k) w Q := by
  cases op with
  | none =>
    have hnone (stream : ℕ) (hstream : stream ∈ w.state.operations) :
        (w.state.op stream).session ≠ r := by
      rintro rfl
      rw [(h.1.opSession stream hstream).2.1] at hop
      simp [hstream] at hop
    refine (post_bind ..).mpr ?_
    refine (post_bind ..).mpr ((post_deleteHandle (h.1.sessionSpare r hr) (h.1.handle_live hr)).mono
      fun result t hresult ↦ ?_)
    obtain ⟨hok, ht⟩ := hresult
    subst hok ht
    refine hk _ ⟨h.move (.drop hr hnone), ?_, .drop ..⟩
    simp [State.drop]
  | some stream =>
    obtain ⟨hid, hstream⟩ := Option.filter_eq_some_iff.mp hop
    have hstream : stream ∈ w.state.operations := by simpa using hstream
    refine (post_bind ..).mpr ((post_cancel h.1 hstream false).mono fun result t hresult ↦ ?_)
    obtain ⟨hok, ht⟩ := hresult
    subst hok
    have hcancelled : Reached rt harmless w₀ t ∧ Alike w.state t.state ∧
        t.state.operations = w.state.operations ∧
        (t.state.op stream).session = (w.state.op stream).session ∧
        (t.state.session r).streamId = (w.state.session r).streamId := by
      subst ht
      cases hc : (w.state.op stream).cancelRequested with
      | true => exact ⟨h, ⟨rfl, rfl, fun _ ↦ rfl⟩, rfl, rfl, rfl⟩
      | false =>
        refine ⟨(h.move (.cancel hstream hc false)).move (.quiet (.setPhase ..)),
          (Alike.cancel ..).trans (.setPhase ..), rfl, ?_, ?_⟩
        · simp [State.setPhase, State.cancel]
        · by_cases hsame : r = (w.state.op stream).session
          · simp [State.setPhase, State.cancel, ← hsame]
          · simp [State.setPhase, State.cancel, hsame]
    obtain ⟨ht, halike, hops, hsession, hid'⟩ := hcancelled
    refine (post_assoc _).mpr ((post_bind ..).mpr (Post.mono (P := fun result u ↦ result = .ok () ∧
      Emptied rt harmless w₀ t.state r u) ?_ fun result u hresult ↦ ?_))
    · by_cases hsame : (w.state.op stream).session = r
      · exact ht.finishDropped (hops.symm ▸ hstream) (hsession.trans hsame)
      · exact ht.finishOther (halike.sessions.symm ▸ hr) (hid'.trans hid) (hops.symm ▸ hstream)
          (hsession.symm ▸ hsame)
    · obtain ⟨hok, hu⟩ := hresult
      subst hok
      exact hk u ⟨hu.reached, hu.handle, halike.trans hu.alike⟩

theorem Reached.disposeSession (h : Reached rt harmless w₀ w) (r : ℕ) :
    Post (disposeSession rt r) w fun result t ↦
      result = .ok () ∧ Reached rt harmless w₀ t ∧ t.state.pointers = w.state.pointers ∧
        t.state.sessions = w.state.sessions.filter (· ≠ r) ∧
        ∀ r, (t.state.session r).engineId = (w.state.session r).engineId := by
  rw [Worker.disposeSession, post_read_bind]
  by_cases hr : r ∈ w.state.sessions
  · rw [if_pos (by simpa using hr)]
    refine (post_bind ..).mpr ((post_modifySession _).mpr ?_)
    have hclosing : Reached rt harmless w₀ ⟨w.state.setPhase r .closing, w.sent⟩ :=
      h.move (.quiet (.setPhase ..))
    have halike : Alike w.state (w.state.setPhase r .closing) := .setPhase ..
    dsimp only
    rw [post_read_bind, findOperation, post_read_bind]
    refine hclosing.clear hr rfl fun t ht ↦ ?_
    exact Emptied.remove ⟨ht.reached, ht.handle, halike.trans ht.alike⟩
  · rw [if_neg (by simpa using hr)]
    refine ⟨rfl, h, rfl, (List.filter_eq_self.mpr fun r' hr' ↦ ?_).symm, fun _ ↦ rfl⟩
    simpa using fun hsame : r' = r ↦ hr (hsame ▸ hr')

def State.setEnginePhase (s : State) (id : ℕ) (phase : HandlePhase) : State :=
  { s with
    engines := s.engines.map fun e ↦ if e.1 = id then (e.1, { e.2 with phase := phase }) else e }

theorem State.setEnginePhase_pointers (s : State) (id : ℕ) (phase : HandlePhase) :
    (s.setEnginePhase id phase).pointers = s.pointers := by
  simp only [setEnginePhase, pointers, List.map_map]
  refine List.map_congr_left fun e _ ↦ ?_
  simp only [Function.comp_apply]
  split_ifs <;> rfl

theorem Quiet.setEnginePhase (s : State) (id : ℕ) (phase : HandlePhase) :
    Quiet s (s.setEnginePhase id phase) :=
  { Quiet.refl s with pointers := s.setEnginePhase_pointers id phase }

theorem State.setEnginePhase_filter (s : State) (id : ℕ) (phase : HandlePhase) :
    ((s.setEnginePhase id phase).engines.filter fun e ↦ e.1 ≠ id) =
      s.engines.filter fun e ↦ e.1 ≠ id := by
  simp only [setEnginePhase]
  induction s.engines with
  | nil => rfl
  | cons e engines ih =>
    rw [List.map_cons]
    by_cases he : e.1 = id
    · simpa [he] using ih
    · simpa [he] using ih

theorem Reached.disposeSessions (ids : List ℕ) (h : Reached rt harmless w₀ w) :
    Post (forEach ids fun r ↦ Worker.disposeSession rt r) w fun result t ↦
      result = .ok () ∧ Reached rt harmless w₀ t ∧ t.state.pointers = w.state.pointers ∧
        (∀ r ∈ t.state.sessions, r ∈ w.state.sessions ∧ r ∉ ids) ∧
        ∀ r, (t.state.session r).engineId = (w.state.session r).engineId := by
  induction ids generalizing w with
  | nil => exact ⟨rfl, h, rfl, fun r hr ↦ ⟨hr, by simp⟩, fun _ ↦ rfl⟩
  | cons r ids ih =>
    rw [forEach, post_bind]
    refine (h.disposeSession r).mono fun result t hresult ↦ ?_
    obtain ⟨hok, ht, hpointers, hsessions, hengine⟩ := hresult
    subst hok
    refine (ih ht).mono fun result u hresult ↦ ?_
    obtain ⟨hok, hu, hpointers', hsessions', hengine'⟩ := hresult
    refine ⟨hok, hu, hpointers'.trans hpointers, fun r' hr' ↦ ?_,
      fun r' ↦ (hengine' r').trans (hengine r')⟩
    obtain ⟨hmem, hnot⟩ := hsessions' r' hr'
    rw [hsessions, List.mem_filter] at hmem
    exact ⟨hmem.1, by simpa using ⟨by simpa using hmem.2, hnot⟩⟩

theorem Reached.disposeEngine (h : Reached rt harmless w₀ w) (id : ℕ) :
    Post (disposeEngine rt id) w fun result t ↦
      result = .ok () ∧ Reached rt harmless w₀ t ∧
        ∀ e ∈ t.state.pointers, e ∈ w.state.pointers ∧ e.1 ≠ id := by
  rw [Worker.disposeEngine, post_read_bind]
  cases hlookup : w.state.engines.lookup id with
  | none =>
    refine ⟨rfl, h, fun e he ↦ ⟨he, ?_⟩⟩
    rintro rfl
    obtain ⟨e', he', rfl⟩ := List.mem_map.mp he
    simpa using List.lookup_eq_none_iff.mp hlookup _ he'
  | some engine =>
    have hengine := mem_pointers (mem_of_lookup hlookup)
    have hclosing : Reached rt harmless w₀ ⟨w.state.setEnginePhase id .closing, w.sent⟩ :=
      h.move (.quiet (.setEnginePhase ..))
    refine (post_bind ..).mpr ((post_update _).mpr ?_)
    dsimp only
    rw [post_read_bind, post_bind]
    refine (hclosing.disposeSessions _).mono fun result t
      ⟨hok, ht, hpointers, hsessions, hids⟩ ↦ ?_
    subst hok
    have hpointers : t.state.pointers = w.state.pointers :=
      hpointers.trans (w.state.setEnginePhase_pointers id .closing)
    have hnone (r : ℕ) (hr : r ∈ t.state.sessions) : (t.state.session r).engineId ≠ id := by
      obtain ⟨hmem, hnot⟩ := hsessions r hr
      rw [List.mem_filter, not_and] at hnot
      have hne := hnot hmem
      rw [decide_eq_true_eq] at hne
      rwa [hids r]
    have hq : (id, engine.pointer) ∈ t.state.pointers := hpointers.symm ▸ hengine
    have hlive := ht.1.engineLive _ _ hq
    have horphans (p : ℕ) (res : Resource) (hp : t.state.native.live p = some res) :
        res.ofEngine engine.pointer = false := by
      by_contra hof
      obtain ⟨r, hr, hq'⟩ := ht.1.of_engine hp (by simpa using hof)
      exact hnone r hr (ht.1.pointer_inj hq' hq)
    refine (post_bind ..).mpr ((post_deleteEngine hlive horphans).mpr ?_)
    refine (post_bind ..).mpr ((post_update _).mpr ((post_update _).mpr ?_))
    refine ⟨rfl, ?_, fun e he ↦ ?_⟩
    · have hunload := ht.move (.unload hq hnone)
      rw [State.unload, ← t.state.setEnginePhase_filter id .closed] at hunload
      exact hunload
    · have he : e ∈ (t.state.unload id engine.pointer).pointers := by
        rw [State.unload, ← t.state.setEnginePhase_filter id .closed]
        exact he
      rw [← hpointers]
      exact State.mem_unload_pointers.mp he

/-- After `_closeAll` the worker has nothing left. -/
theorem Reached.closeAll (h : Reached rt harmless w₀ w) :
    Post (closeAll rt) w fun result t ↦ result = .ok () ∧ Reached rt harmless w₀ t ∧
      t.state.engines = [] ∧ t.state.sessions = [] ∧ t.state.operations = [] ∧
      t.state.timer = false := by
  have hloop (ids : List ℕ) : ∀ {w}, Reached rt harmless w₀ w →
      Post (forEach ids fun id ↦ Worker.disposeEngine rt id) w fun result t ↦ result = .ok () ∧
        Reached rt harmless w₀ t ∧ ∀ e ∈ t.state.pointers, e ∈ w.state.pointers ∧ e.1 ∉ ids := by
    induction ids with
    | nil => exact fun h ↦ ⟨rfl, h, fun e he ↦ ⟨he, by simp⟩⟩
    | cons id ids ih =>
      intro w h
      rw [forEach, post_bind]
      refine (h.disposeEngine id).mono fun result t hresult ↦ ?_
      obtain ⟨hok, ht, hpointers⟩ := hresult
      subst hok
      refine (ih ht).mono fun result u hresult ↦ ?_
      obtain ⟨hok, hu, hpointers'⟩ := hresult
      refine ⟨hok, hu, fun e he ↦ ?_⟩
      obtain ⟨hmem, hnot⟩ := hpointers' e he
      obtain ⟨hmem, hne⟩ := hpointers e hmem
      exact ⟨hmem, by simpa using ⟨hne, hnot⟩⟩
  have hclosing : Reached rt harmless w₀ ⟨{ w.state with closing := true }, w.sent⟩ :=
    h.move (.quiet { Quiet.refl w.state with })
  refine (post_bind ..).mpr ((post_update _).mpr ?_)
  dsimp only
  rw [post_read_bind, post_bind]
  refine (hloop _ hclosing).mono fun result t hresult ↦ ?_
  obtain ⟨hok, ht, hpointers⟩ := hresult
  subst hok
  have hengines : t.state.pointers = [] := by
    refine List.eq_nil_iff_forall_not_mem.mpr fun e he ↦ ?_
    obtain ⟨hmem, hnot⟩ := hpointers e he
    obtain ⟨e', he', rfl⟩ := List.mem_map.mp hmem
    exact hnot (List.mem_map.mpr ⟨e', he', rfl⟩)
  have hsessions : t.state.sessions = [] := by
    refine List.eq_nil_iff_forall_not_mem.mpr fun r hr ↦ ?_
    obtain ⟨q, hq, -⟩ := ht.1.sessionEngine r hr
    simp [hengines] at hq
  have hoperations : t.state.operations = [] := by
    refine List.eq_nil_iff_forall_not_mem.mpr fun stream hstream ↦ ?_
    have hr := (ht.1.opSession stream hstream).1
    simp [hsessions] at hr
  refine (post_update _).mpr ⟨rfl, ht.quiet rfl { Quiet.refl t.state with }, ?_, hsessions,
    hoperations, rfl⟩
  simpa [State.pointers] using hengines

end LibLitertLm.Worker
