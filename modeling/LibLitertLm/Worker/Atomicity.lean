import LibLitertLm.Worker.History

namespace LibLitertLm.Worker

variable {rt : Runtime} {harmless : Prop} {w t : NativeWorker} {s s' : State} {r stream : ℕ}
  {past : List Message}

/-- What the next request on the session runs on. -/
def State.context (s : State) (r : ℕ) : List Message :=
  if (s.session r).handle = none then (s.session r).history
  else (s.session r).nativePreface ++ s.native.turns (s.session r).chat

/-- The session has the history `past` and would go on with it. -/
def Unchanged (s : State) (r : ℕ) (past : List Message) : Prop :=
  (s.session r).history = past ∧ s.context r = past

theorem Unchanged.of_closed (hhistory : (s.session r).history = past)
    (hh : (s.session r).handle = none) : Unchanged s r past :=
  ⟨hhistory, by rw [State.context, if_pos hh, hhistory]⟩

theorem Remembers.unchanged (hs : Remembers s r past) (hidle : (s.session r).streamId = none)
    (h : Spared r s s') (hs' : Consistent s') (hr : r ∈ s'.sessions)
    (hc : (s'.session r).conversation = true) : Unchanged s' r past := by
  have hhistory := h.history.trans hs.history
  by_cases hh : (s'.session r).handle = none
  · exact .of_closed hhistory hh
  · obtain ⟨c, hmem⟩ := hs'.conversation hr hc hh
    obtain ⟨hc', hpreface⟩ := h.context c hmem
    refine ⟨hhistory, ?_⟩
    rw [State.context, if_neg hh, State.turns_eq hmem, hpreface, hs.preface c hc']
    exact (hs.idle hidle c hc').2

/-- Numbers of sessions are not used again. -/
theorem Move.known (h : Move rt harmless w t) (hr : r < w.state.nextSession) :
    r < t.state.nextSession ∧ (r ∈ t.state.sessions → r ∈ w.state.sessions) := by
  cases h with
  | quiet h =>
    rw [h.nextSession, h.sessions]
    exact ⟨hr, id⟩
  | @add x =>
    refine ⟨hr.trans (Nat.lt_succ_self _), fun hmem ↦ ?_⟩
    simpa [State.add, hr.ne] using hmem
  | remove => exact ⟨hr, fun hmem ↦ (List.mem_filter.mp hmem).1⟩
  | rebuild _ _ _ hs => cases hs <;> exact ⟨hr, id⟩
  | @release s stream _ hs _ phase e =>
    have hr' : r < s.nextSession := hs.unseen.nextSession ▸ hr
    exact ⟨hr', fun hmem ↦ hs.unseen.sessions ▸ hmem⟩
  | @complete s stream _ _ hs _ _ _ _ _ phase =>
    have hr' : r < s.nextSession := hs.unseen.nextSession ▸ hr
    exact ⟨hr', fun hmem ↦ hs.unseen.sessions ▸ hmem⟩
  | _ => exact ⟨hr, id⟩

/-- Only a stream that completes on a session touches its history. -/
theorem Move.history (h : Move rt harmless w t) (hg : harmless) (hw : Consistent w.state)
    (hf : w.state.fatalExit = false) (hr : r ∈ w.state.sessions) :
    (t.state.session r).history = (w.state.session r).history ∨
      ∃ stream ∈ w.state.operations, (w.state.op stream).session = r ∧ ∃ text,
        eventsOf stream t.sent = eventsOf stream w.sent ++ [(.complete text, t.state)] := by
  cases h with
  | quiet h => exact .inl (NativeSession.core_eq (h.session r hr)).2.1
  | add =>
    have hne : r ≠ w.state.nextSession := (hw.sessionBound r hr).2.ne
    exact .inl (by simp [State.add, hne])
  | @give r' =>
    left
    by_cases hsame : r = r'
    · subst hsame
      simp [State.give, NativeSession.opened]
    · simp [State.give, hsame]
  | @drop r' =>
    left
    by_cases hsame : r = r'
    · subst hsame
      simp [State.drop]
    · simp [State.drop, hsame]
  | rebuild hbad => exact absurd hg hbad
  | @release s stream hstream hs hhistory phase e =>
    left
    obtain ⟨hsession, -⟩ := hs.session_eq hstream
    by_cases hsame : r = (s.op stream).session
    · subst hsame
      simpa [State.drop, State.retire, emit] using hhistory hg
    · have hcore := (NativeSession.core_eq (hs.other r hr (hsession ▸ hsame))).2.1
      simpa [State.drop, State.retire, emit, hsame] using hcore
  | @complete s stream _ hstream hs _ _ _ _ _ phase =>
    obtain ⟨hsession, -⟩ := hs.session_eq hstream
    by_cases hsame : r = (s.op stream).session
    · have hfatal : (s.retire stream phase).fatalExit = false :=
        (congrArg Prod.fst hs.flags).trans hf
      exact .inr ⟨stream, hstream, (hsame.trans hsession).symm, _, eventsOf_emit hfatal _ _⟩
    · have hcore := (NativeSession.core_eq (hs.other r hr (hsession ▸ hsame))).2.1
      exact .inl (by simpa [State.retire, emit, hsame] using hcore)
  | _ => exact .inl rfl

/-- A session stays the kind of session that it is. -/
theorem Move.conversation (h : Move rt harmless w t) (hg : harmless) (hw : Consistent w.state)
    (hr : r ∈ w.state.sessions) :
    (t.state.session r).conversation = (w.state.session r).conversation := by
  cases h with
  | quiet h => exact (NativeSession.core_eq (h.session r hr)).2.2.2.1
  | add =>
    have hne : r ≠ w.state.nextSession := (hw.sessionBound r hr).2.ne
    simp [State.add, hne]
  | @give r' =>
    by_cases hsame : r = r'
    · subst hsame
      simp [State.give, NativeSession.opened]
    · simp [State.give, hsame]
  | @drop r' => exact (w.state.drop_session r' r).1
  | rebuild hbad => exact absurd hg hbad
  | @release s stream _ hs _ phase e =>
    have hretired := (s.retire_session stream phase r).1.trans (hs.session_kept hr).1
    exact (State.drop_session ..).1.trans hretired
  | @complete s stream _ _ hs _ _ _ _ _ phase =>
    exact (s.retire_session stream phase r).1.trans (hs.session_kept hr).1
  | _ => rfl

/-- A session without a stream stays without one. -/
theorem Move.idle (h : Move rt harmless w t) (hw : Consistent w.state)
    (hf : w.state.fatalExit = false) (hidle : (w.state.session r).streamId = none) :
    (t.state.session r).streamId = none := by
  by_contra hne
  obtain ⟨other, hother⟩ := Option.ne_none_iff_exists'.mp hne
  have hbefore : (w.state.session r).streamId = some other := by
    rcases h.streams hw hf other with hkept | hended
    · exact hkept.streamId r hother
    · exact (hended.streamId r hother).2
  rw [hidle] at hbefore
  cases hbefore

/-- An idle session keeps its history. -/
theorem Moves.idle (h : Moves rt harmless w t) (hg : harmless) (hw : Consistent w.state)
    (hf : w.state.fatalExit = false) (hr : r ∈ w.state.sessions)
    (hidle : (w.state.session r).streamId = none) (ht : r ∈ t.state.sessions) :
    (t.state.session r).streamId = none ∧
      (t.state.session r).conversation = (w.state.session r).conversation ∧
      (t.state.session r).history = (w.state.session r).history := by
  have hall : Consistent t.state ∧ t.state.fatalExit = false ∧ r < t.state.nextSession ∧
      (r ∈ t.state.sessions → (t.state.session r).streamId = none ∧
        (t.state.session r).conversation = (w.state.session r).conversation ∧
        (t.state.session r).history = (w.state.session r).history) := by
    clear ht
    induction h with
    | refl => exact ⟨hw, hf, (hw.sessionBound r hr).2, fun _ ↦ ⟨hidle, rfl, rfl⟩⟩
    | tail _ hmove ih =>
      obtain ⟨hu, hfu, hlt, hkept⟩ := ih
      obtain ⟨hlt', hknown⟩ := hmove.known hlt
      refine ⟨hmove.consistent rt hu, (congrArg Prod.fst hmove.flags).trans hfu, hlt',
        fun hmem ↦ ?_⟩
      obtain ⟨hidle', hconv, hhistory⟩ := hkept (hknown hmem)
      refine ⟨hmove.idle hu hfu hidle', (hmove.conversation hg hu (hknown hmem)).trans hconv, ?_⟩
      rcases hmove.history hg hu hfu (hknown hmem) with hsame | ⟨other, hother, hsession, -⟩
      · exact hsame.trans hhistory
      · have hstream := (hu.opSession other hother).2.1
        rw [hsession, hidle'] at hstream
        cases hstream
  exact hall.2.2.2 ht

/-- While the stream runs on the session its history is `past`, and if it failed
the session had that history when it did. -/
structure Untouched (stream r : ℕ) (past : List Message) (w : NativeWorker) : Prop where
  running : w.state.fatalExit = false → stream ∈ w.state.operations →
    (w.state.op stream).session = r ∧ (w.state.session r).history = past
  failed : ∀ e s, (e, s) ∈ eventsOf stream w.sent → e.isFailure = true → Unchanged s r past

theorem Event.not_failure_of_token {e : Event} (h : e.isToken = true) : e.isFailure ≠ true := by
  cases e <;> simp_all [Event.isToken, Event.isFailure]

theorem Untouched.kept (h : Untouched stream r past w)
    (hrunning : t.state.fatalExit = false → stream ∈ t.state.operations →
      (t.state.op stream).session = r ∧ (t.state.session r).history = past)
    {events : List (Event × State)}
    (hevents : eventsOf stream t.sent = eventsOf stream w.sent ++ events)
    (htokens : ∀ e ∈ events, e.1.isToken = true) : Untouched stream r past t := by
  refine ⟨hrunning, fun e s hmem he ↦ ?_⟩
  rw [hevents, List.mem_append] at hmem
  rcases hmem with hmem | hmem
  · exact h.failed e s hmem he
  · exact absurd he (Event.not_failure_of_token (htokens _ hmem))

/-- After a crash nothing is sent to a stream. -/
theorem Move.muted (h : Move rt harmless w t) (hf : w.state.fatalExit = true) :
    eventsOf stream t.sent = eventsOf stream w.sent := by
  cases h with
  | reply => simp [eventsOf, sentTo]
  | token => simp [emit, State.addText, State.bridge, hf]
  | release _ hs =>
    have hfatal := (congrArg Prod.fst hs.flags).trans hf
    simp_all [emit, State.drop, State.retire, State.flags]
  | complete _ hs =>
    have hfatal := (congrArg Prod.fst hs.flags).trans hf
    simp_all [emit, State.retire, State.flags]
  | _ => rfl

theorem Untouched.move (h : Untouched stream r past w) (hm : Move rt harmless w t) (hg : harmless)
    (hw : Consistent w.state) : Untouched stream r past t := by
  have hflags : t.state.fatalExit = w.state.fatalExit := congrArg Prod.fst hm.flags
  cases hf : w.state.fatalExit with
  | true =>
    rw [hf] at hflags
    refine h.kept (fun hf' ↦ ?_) ((hm.muted hf).trans (List.append_nil _).symm) (by simp)
    cases hflags.symm.trans hf'
  | false =>
    rcases hm.streams hw hf stream with hkept | hended
    · obtain ⟨events, hevents, htokens, -⟩ := hkept.events
      refine h.kept (fun _ hlive ↦ ?_) hevents htokens
      obtain ⟨hsession, hhistory⟩ := h.running hf (hkept.live.mp hlive)
      refine ⟨hkept.session.trans hsession, ?_⟩
      have hlive' := hkept.live.mp hlive
      have hr : r ∈ w.state.sessions := hsession ▸ (hw.opSession stream hlive').1
      rcases hm.history hg hw hf hr with hsame | ⟨other, hother, hsession', text, hcomplete⟩
      · exact hsame.trans hhistory
      · -- the only stream of the session would have completed
        obtain rfl : other = stream := hw.op_inj hlive' hother (hsession'.trans hsession.symm)
        obtain rfl : events = [(.complete text, t.state)] :=
          List.append_cancel_left (hevents.symm.trans hcomplete)
        cases htokens _ (List.mem_singleton_self _)
    · obtain ⟨hsession, hhistory⟩ := h.running hf hended.live
      have hr : r ∈ w.state.sessions := hsession ▸ (hw.opSession stream hended.live).1
      refine ⟨fun _ hlive ↦ absurd hlive hended.gone, fun e s hmem he ↦ ?_⟩
      obtain ⟨e', hevents, hkind⟩ := hended.event
      rw [hevents, List.mem_append, List.mem_singleton] at hmem
      rcases hmem with hmem | hmem
      · exact h.failed e s hmem he
      · obtain ⟨rfl, rfl⟩ := Prod.mk.inj hmem
        rcases hkind with rfl | ⟨-, hh⟩
        · cases he
        · have hsame : (t.state.session r).history = past := by
            rcases hm.history hg hw hf hr with hsame | ⟨other, hother, hsession', text, hcomplete⟩
            · exact hsame.trans hhistory
            · obtain rfl : other = stream :=
                hw.op_inj hended.live hother (hsession'.trans hsession.symm)
              rw [hevents] at hcomplete
              obtain ⟨rfl, -⟩ :=
                Prod.mk.inj (List.singleton_inj.mp (List.append_cancel_left hcomplete))
              cases he
          exact .of_closed hsame (hsession ▸ hh)

theorem Untouched.moves (h : Untouched stream r past w) (hm : Moves rt harmless w t) (hg : harmless)
    (hw : Consistent w.state) : Untouched stream r past t := by
  have hall : Consistent t.state ∧ Untouched stream r past t := by
    induction hm with
    | refl => exact ⟨hw, h⟩
    | tail _ hmove ih => exact ⟨hmove.consistent rt ih.1, ih.2.move hmove hg ih.1⟩
  exact hall.2

theorem Prepared.history {r' : ℕ} {messages : List Message} (h : Prepared s r' messages s') :
    (s'.session r).history = (s.session r).history := by
  cases h with
  | reuse => rfl
  | rebuild =>
    by_cases hsame : r = r'
    · subst hsame
      simp [State.give, NativeSession.opened]
    · simp [State.give, State.drop, hsame]

/-- To serve a stream touches no history. -/
theorem Generated.history {other r' : ℕ} (h : Generated rt harmless other r' w t) :
    (t.state.session r).history = (w.state.session r).history := by
  cases h with
  | @launch s skip messages status error _ _ hs =>
    refine Eq.trans ?_ (hs.history (r := r))
    by_cases hsame : r = r'
    · subst hsame
      simp [State.start, State.launch_session]
    · simp [State.start, State.launch, hsame]
  | @abort skip messages =>
    by_cases hsame : r = r'
    · subst hsame
      simp [emit, State.retire, State.launch]
    · simp [emit, State.retire, State.launch, hsame]
  | refuse => rfl

theorem Generated.untouched {other r' : ℕ} (h : Generated rt harmless other r' w t)
    (hne : other ≠ stream) (hu : Untouched stream r past w) : Untouched stream r past t := by
  have hkept : Kept stream w t := h.kept hne
  obtain ⟨events, hevents, htokens, -⟩ := hkept.events
  refine hu.kept (fun hf hlive ↦ ?_) hevents htokens
  have hflags : t.state.fatalExit = w.state.fatalExit := congrArg Prod.fst h.flags
  obtain ⟨hsession, hhistory⟩ := hu.running (hflags ▸ hf) (hkept.live.mp hlive)
  exact ⟨hkept.session.trans hsession, h.history.trans hhistory⟩

theorem Generated.starts (h : Generated rt harmless stream r w t) (hw : Consistent w.state)
    (hf : w.state.fatalExit = false) (hunknown : Unknown stream w) (hr : r ∈ w.state.sessions)
    (hc : (w.state.session r).conversation = true) (hidle : (w.state.session r).streamId = none)
    (hs : Remembers w.state r past) : Untouched stream r past t := by
  have ht : Consistent t.state := h.consistent hw
  have hhistory : (t.state.session r).history = past := h.history.trans hs.history
  have hevents := hunknown.events
  have hfailed (s : State) (e : Event) (hsent : eventsOf stream t.sent = [(e, s)])
      (hs : Unchanged s r past) : ∀ e s, (e, s) ∈ eventsOf stream t.sent → e.isFailure = true →
        Unchanged s r past := by
    intro e' s' hmem _
    rw [hsent, List.mem_singleton] at hmem
    obtain ⟨-, rfl⟩ := Prod.mk.inj hmem
    exact hs
  cases h with
  | @launch s skip messages status error =>
    refine ⟨fun _ _ ↦ ⟨?_, hhistory⟩, fun e s hmem ↦ ?_⟩
    · exact congrArg Op.session (s.launch_op stream r skip messages)
    · rw [show eventsOf stream w.sent = [] from hevents] at hmem
      cases hmem
  | @abort skip messages e hr' hh hidle' hid =>
    refine ⟨fun _ hlive ↦ absurd hlive (by simp [emit, State.retire]),
      hfailed ((w.state.launch stream r skip messages).retire stream .ready)
        (.error (e.toFailure rt)) ?_ ?_⟩
    · have hf' : ((w.state.launch stream r skip messages).retire stream .ready).fatalExit = false :=
        hf
      exact (eventsOf_emit hf' _ _).trans (by rw [hevents, List.nil_append])
    · refine hs.unchanged hidle (.abort hw hidle hc hid) ht hr ?_
      simpa [State.retire, State.launch] using hc
  | @refuse e he =>
    refine ⟨fun _ hlive ↦ absurd hlive hunknown.gone,
      hfailed w.state (.error (e.toFailure rt)) ?_ ?_⟩
    · exact (eventsOf_emit hf _ _).trans (by rw [hevents, List.nil_append])
    · exact hs.unchanged hidle (.of_core rfl hc (fun _ _ _ _ h ↦ h)
        fun _ h _ ↦ ⟨h, rfl, Native.steady_refl _ _⟩) hw hr hc

theorem Untouched.turn {a : Action} (h : Turn rt harmless w a t) (hg : harmless)
    (hw : Consistent w.state) (hserves : ∀ r, ¬ Serves stream r w a)
    (hu : Untouched stream r past w) : Untouched stream r past t := by
  cases h with
  | deaf => exact hu
  | plain _ _ h => exact hu.moves h hg hw
  | @generate request other r' input answers t hd h =>
    obtain ⟨u, v, hmoves, hcons, -, hgenerated, hv⟩ := h
    have hne : other ≠ stream := by
      rintro rfl
      exact hserves r' ⟨hd, request, input, answers, rfl⟩
    exact (hgenerated.untouched hne (hu.moves hmoves hg hw)).moves hv.2 hg
      (hgenerated.consistent hcons)
  | crash _ _ h =>
    refine Untouched.moves ?_ h hg { hw with }
    refine ⟨fun hf ↦ ?_, hu.failed⟩
    cases hf
  | refuse _ _ h => exact hu.moves h hg hw
  | @close request t _ h =>
    have ht := hu.moves h hg hw
    have hevents : eventsOf stream (if request.isSome then
        t.sent ++ [(.reply request (.ok .nothing), { t.state with commandsClosed := true })]
        else t.sent) = eventsOf stream t.sent ++ [] := by
      cases request <;> simp [eventsOf, sentTo]
    exact ht.kept ht.running hevents (by simp)
  | tick h => exact hu.moves h hg hw
  | callback c =>
    have hmove : Move rt harmless w _ := .callback w c
    exact hu.move hmove hg hw

theorem Untouched.served {t : NativeWorker} (h : Served rt harmless w stream r t) (hg : harmless)
    (hw : Consistent w.state) (hf : w.state.fatalExit = false) (hunknown : Unknown stream w)
    (hr : r ∈ w.state.sessions) (hc : (w.state.session r).conversation = true)
    (hidle : (w.state.session r).streamId = none) (hs : Recalls r w) :
    Untouched stream r (w.state.session r).history t := by
  obtain ⟨u, v, hmoves, hcons, hknown, hgenerated, hv⟩ := h
  have hru := hknown hr
  have hfu : u.state.fatalExit = false := (congrArg Prod.fst hmoves.flags).trans hf
  obtain ⟨hidle', hconv, hhistory⟩ := hmoves.idle hg hw hf hr hidle hru
  have hremembers := (hmoves.recalls hg hw hf hs).known hru (hconv.trans hc)
  have hpast := hremembers.history
  rw [hhistory] at hpast
  have hstatus : Status stream none w := hunknown
  have hunknown' : Unknown stream u := hstatus.moves hmoves hw hf
  have hstarts := hgenerated.starts hcons hfu hunknown' hru (hconv.trans hc) hidle' hremembers
  rw [← hpast] at hstarts
  exact hstarts.moves hv.2 hg (hgenerated.consistent hcons)

theorem Turn.served {request : Option ℕ} {input : Input} {a : GenerateAnswers}
    (h : Turn rt harmless w (.command request (.generate stream r input a)) t)
    (hd : w.state.deaf = false) : Served rt harmless w stream r t := by
  cases h with
  | deaf hdeaf =>
    rw [hd] at hdeaf
    cases hdeaf
  | plain _ hplain => cases hplain
  | generate _ h => exact h

/-- A session that exists is part of a worker that has not crashed. -/
theorem run_undeaf {actions : List Action} (hr : r ∈ (run rt actions).state.sessions) :
    (run rt actions).state.deaf = false := by
  by_contra hdeaf
  have hempty : Empty (run rt actions).state := run_stopped actions (by simpa using hdeaf)
  rw [hempty.sessions] at hr
  cases hr

/-- What a conversation goes on with is its history. -/
theorem run_context {actions : List Action} (h : HarmlessRun rt actions)
    (hr : r ∈ (run rt actions).state.sessions)
    (hc : ((run rt actions).state.session r).conversation = true)
    (hidle : ((run rt actions).state.session r).streamId = none) :
    (run rt actions).state.context r = ((run rt actions).state.session r).history := by
  have hs := run_remembers h hr hc
  have hkept : Spared r (run rt actions).state (run rt actions).state :=
    .of_core rfl hc (fun _ _ _ _ h ↦ h) fun _ h _ ↦ ⟨h, rfl, Native.steady_refl _ _⟩
  have hunchanged := hs.unchanged hidle hkept (run_consistent actions) hr hc
  exact hunchanged.2.trans hunchanged.1.symm

theorem run_untouched {before after : List Action} {request : Option ℕ} {input : Input}
    {a : GenerateAnswers}
    (hharmless : HarmlessRun rt (before ++ .command request (.generate stream r input a) :: after))
    (hdistinct : ((before ++ .command request (.generate stream r input a) :: after).filterMap
      Action.asks).Nodup)
    (hr : r ∈ (run rt before).state.sessions)
    (hc : ((run rt before).state.session r).conversation = true)
    (hidle : ((run rt before).state.session r).streamId = none) :
    Untouched stream r ((run rt before).state.session r).history
      (run rt (before ++ .command request (.generate stream r input a) :: after)) := by
  induction after using List.reverseRecOn with
  | nil =>
    obtain ⟨hbefore, hg⟩ := hharmless.of_concat
    rw [List.filterMap_append, List.nodup_append] at hdistinct
    obtain ⟨hbeforeDistinct, -, hnew⟩ := hdistinct
    have hd := run_undeaf hr
    have hf : (run rt before).state.fatalExit = false := by
      simp only [State.deaf, Bool.or_eq_false_iff] at hd
      exact hd.1
    have hunknown : Unknown stream (run rt before) := by
      refine (run_status hbeforeDistinct hf stream).1 fun r' h ↦ ?_
      exact hnew stream h.mem stream (by simp [Action.asks]) rfl
    rw [run_concat]
    have hturn : Turn rt (Harmless rt (run rt before) _) (run rt before) _
        (step rt (run rt before) (.command request (.generate stream r input a))) :=
      step_turn (run_consistent before) _
    exact .served (hturn.served hd) hg (run_consistent before) hf hunknown hr hc hidle
      (run_recalls hbefore r hf)
  | append_singleton after b ih =>
    have hsplit : before ++ .command request (.generate stream r input a) :: (after ++ [b]) =
        (before ++ .command request (.generate stream r input a) :: after) ++ [b] := by simp
    rw [hsplit] at hharmless hdistinct ⊢
    obtain ⟨hbefore, hg⟩ := hharmless.of_concat
    rw [List.filterMap_append, List.nodup_append] at hdistinct
    rw [run_concat]
    refine (ih hbefore hdistinct.1).turn (step_turn (run_consistent _) b) hg (run_consistent _) ?_
    rintro r' ⟨-, request', input', answers, rfl⟩
    exact hdistinct.2.2 stream (by simp [Action.asks]) stream (by simp [Action.asks]) rfl

/-- A request to an idle conversation that fails or is cancelled leaves the
history as it was, and what the conversation goes on with is its history. -/
theorem failed_generation (rt : Runtime) (before after : List Action) (request : Option ℕ)
    (stream r : ℕ) (input : Input) (a : GenerateAnswers) :
    let actions := before ++ .command request (.generate stream r input a) :: after
    let s := (run rt before).state
    let t := (run rt actions).state
    HarmlessRun rt actions → (actions.filterMap Action.asks).Nodup → r ∈ s.sessions →
      (s.session r).conversation = true → (s.session r).streamId = none →
      (∀ e u, (e, u) ∈ eventsOf stream (run rt actions).sent → e.isFailure = true →
        Unchanged u r (s.session r).history) ∧
      (r ∈ t.sessions → (t.session r).conversation = true → (t.session r).streamId = none →
        t.context r = (t.session r).history) := by
  intro actions s t hharmless hdistinct hr hc hidle
  refine ⟨(run_untouched hharmless hdistinct hr hc hidle).failed, fun hr' hc' hidle' ↦ ?_⟩
  exact run_context hharmless hr' hc' hidle'

namespace Scenario

def said (text : String) : ChatMessage := ⟨"user", [.text text]⟩

def unsent (messages : List ChatMessage) : Action :=
  .command none (.generate 3 1 (.messages messages) { starts with message := false })

theorem harmless_unsent : HarmlessRun runtime (opened {} true ++ [unsent [said "question"]]) := by
  refine (harmless_opened runtime {} true).concat ⟨fun messages hok _ hbatch ↦ ?_, fun _ ↦ ?_⟩
  · have hlength : ((prepare runtime 1 (.messages [said "question"])
        { starts with message := false } (run runtime (opened {} true))).1.toOption.map
          List.length) = some 1 := by
      decide +kernel
    have hok' : (prepare runtime 1 (.messages [said "question"]) { starts with message := false }
        (run runtime (opened {} true))).1 = .ok messages := hok
    rw [hok'] at hlength
    have hone : messages.length = 1 := Option.some.inj hlength
    omega
  · intro messages text items htext hitems
    simp [runtime] at hitems

end Scenario

theorem failed_generation_unsent :
    let before := Scenario.opened {} true
    let actions := before ++ [Scenario.unsent [Scenario.said "question"]]
    let s := (run Scenario.runtime before).state
    let t := (run Scenario.runtime actions).state
    (∀ e u, (e, u) ∈ eventsOf 3 (run Scenario.runtime actions).sent → e.isFailure = true →
        Unchanged u 1 (s.session 1).history) ∧
      (1 ∈ t.sessions → (t.session 1).conversation = true → (t.session 1).streamId = none →
        t.context 1 = (t.session 1).history) :=
  failed_generation Scenario.runtime (Scenario.opened {} true) [] none 3 1 _ _
    Scenario.harmless_unsent (by decide) (by decide +kernel) (by decide +kernel) (by decide +kernel)

/-- Once the conversation is open on all messages of a batch but the last, a
request that cannot be sent leaves them to the next one. -/
theorem unsent_batch_kept :
    let before := Scenario.opened {} true
    let actions := before ++ [Scenario.unsent [Scenario.said "first", Scenario.said "last"]]
    let s := (run Scenario.runtime before).state
    1 ∈ s.sessions ∧ (s.session 1).conversation = true ∧ (s.session 1).streamId = none ∧
      (∃ e u, (e, u) ∈ eventsOf 3 (run Scenario.runtime actions).sent ∧ e.isFailure = true) ∧
      ¬ ∀ e u, (e, u) ∈ eventsOf 3 (run Scenario.runtime actions).sent → e.isFailure = true →
        Unchanged u 1 (s.session 1).history := by
  intro before actions s
  have hevents : (eventsOf 3 (run Scenario.runtime actions).sent).map
      (fun x ↦ (x.1.isFailure, (x.2.context 1).length)) = [(true, 1)] := by
    decide +kernel
  obtain ⟨⟨e, u⟩, hsent, heu⟩ := List.map_eq_singleton_iff.mp hevents
  obtain ⟨he, hlength⟩ := Prod.mk.inj heu
  have hmem : (e, u) ∈ eventsOf 3 (run Scenario.runtime actions).sent := by
    rw [hsent]
    exact List.mem_singleton_self _
  refine ⟨by decide +kernel, by decide +kernel, by decide +kernel, ⟨e, u, hmem, he⟩, fun hall ↦ ?_⟩
  have hempty : (s.session 1).history.length = 0 := by decide +kernel
  have hcontext := congrArg List.length (hall e u hmem he).2
  rw [hlength, hempty] at hcontext
  cases hcontext

end LibLitertLm.Worker
