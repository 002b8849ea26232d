import LibLitertLm.Worker.Safety

namespace LibLitertLm.Worker

open Code
open Bridge (Call)

def sentTo (stream : ℕ) : Outgoing × State → Option (Event × State)
  | (.event id e, s) => if id = stream then some (e, s) else none
  | (.reply _ _, _) => none

def eventsOf (stream : ℕ) (sent : List (Outgoing × State)) : List (Event × State) :=
  sent.filterMap (sentTo stream)

def Event.text : Event → String
  | .token text => text
  | _ => ""

def spoken : List (Event × State) → String
  | [] => ""
  | e :: events => e.1.text ++ spoken events

theorem spoken_append (events events' : List (Event × State)) :
    spoken (events ++ events') = spoken events ++ spoken events' := by
  induction events with
  | nil => simp [spoken]
  | cons e events ih => simp [spoken, ih, String.append_assoc]

variable {rt : Runtime} {harmless : Prop} {w t : NativeWorker} {stream : ℕ}

structure Kept (stream : ℕ) (w t : NativeWorker) : Prop where
  live : stream ∈ t.state.operations ↔ stream ∈ w.state.operations
  session : (t.state.op stream).session = (w.state.op stream).session
  native : (t.state.op stream).native = (w.state.op stream).native
  streamId : ∀ r, (t.state.session r).streamId = some stream →
    (w.state.session r).streamId = some stream
  calls : t.state.native.calls 0 = w.state.native.calls 0
  events : ∃ events, eventsOf stream t.sent = eventsOf stream w.sent ++ events ∧
    (∀ e ∈ events, e.1.isToken = true) ∧ (events ≠ [] → stream ∈ w.state.operations) ∧
    (t.state.op stream).text = (w.state.op stream).text ++ spoken events

structure Ended (stream : ℕ) (w t : NativeWorker) : Prop where
  live : stream ∈ w.state.operations
  gone : stream ∉ t.state.operations
  session : (t.state.op stream).session = (w.state.op stream).session
  native : (t.state.op stream).native ∉ t.state.native.registry
  streamId : ∀ r, (t.state.session r).streamId = some stream →
    r ≠ (w.state.op stream).session ∧ (w.state.session r).streamId = some stream
  idle : (t.state.session (w.state.op stream).session).streamId = none
  event : ∃ e, eventsOf stream t.sent = eventsOf stream w.sent ++ [(e, t.state)] ∧
    (e = .complete (w.state.op stream).text ∨
      e.isFailure = true ∧ (t.state.session (w.state.op stream).session).handle = none)

theorem eventsOf_append (sent sent' : List (Outgoing × State)) :
    eventsOf stream (sent ++ sent') = eventsOf stream sent ++ eventsOf stream sent' :=
  List.filterMap_append

theorem eventsOf_emit {s : State} (hf : s.fatalExit = false) (sent : List (Outgoing × State))
    (e : Event) :
    eventsOf stream (emit s sent stream e).sent = eventsOf stream sent ++ [(e, s)] := by
  simp [emit, hf, eventsOf, sentTo]

theorem eventsOf_emit_other {s : State} {other : ℕ} (h : other ≠ stream)
    (sent : List (Outgoing × State)) (e : Event) :
    eventsOf stream (emit s sent other e).sent = eventsOf stream sent := by
  unfold emit
  split_ifs <;> simp [eventsOf, sentTo, h]

/-- A step on which nothing is sent to the stream. -/
theorem Kept.silent (hlive : stream ∈ t.state.operations ↔ stream ∈ w.state.operations)
    (hop : (t.state.op stream).session = (w.state.op stream).session ∧
      (t.state.op stream).native = (w.state.op stream).native ∧
      (t.state.op stream).text = (w.state.op stream).text)
    (hid : ∀ r, (t.state.session r).streamId = some stream →
      (w.state.session r).streamId = some stream)
    (hcalls : t.state.native.calls 0 = w.state.native.calls 0)
    (hsent : eventsOf stream t.sent = eventsOf stream w.sent) : Kept stream w t :=
  ⟨hlive, hop.1, hop.2.1, hid, hcalls, [], by simpa using hsent, by simp, by simp,
    by simpa [spoken] using hop.2.2⟩

/-- Only live operations have bridge calls. -/
theorem Consistent.calls_zero {s : State} (hs : Consistent s) (id : ℕ) (c : Call) :
    (s.native.bridge id c).calls 0 = s.native.calls 0 := by
  unfold Native.bridge
  split_ifs with hid
  · have hne : (0 : ℕ) ≠ id := (hs.registry id hid).1.ne
    simp [hne]
  · rfl

theorem streamId_update {f : ℕ → NativeSession} {r : ℕ} {x : NativeSession}
    (hx : x.streamId = some stream → (f r).streamId = some stream) (r' : ℕ)
    (h : (Function.update f r x r').streamId = some stream) : (f r').streamId = some stream := by
  by_cases hr : r' = r
  · subst hr
    rw [Function.update_self] at h
    exact hx h
  · rwa [Function.update_of_ne hr] at h

theorem streamId_drop {s : State} {r : ℕ} (r' : ℕ)
    (h : ((s.drop r).session r').streamId = some stream) :
    (s.session r').streamId = some stream := by
  refine streamId_update (fun h ↦ ?_) r' h
  exact h

theorem Op.of_core {o o' : Op} (h : o.core = o'.core) :
    o.session = o'.session ∧ o.native = o'.native ∧ o.text = o'.text :=
  ⟨field_eq Op.core Op.session (fun _ ↦ rfl) h, field_eq Op.core Op.native (fun _ ↦ rfl) h,
    field_eq Op.core Op.text (fun _ ↦ rfl) h⟩

/-- The end of a stream, seen from another one. -/
theorem Kept.other {s : State} {other : ℕ} (hw : Consistent w.state)
    (hother : other ∈ w.state.operations) (hne : other ≠ stream) (hs : Staged w.state other s)
    (phase : HandlePhase) {u : State} {e : Event}
    (hlive : u.operations = s.operations.filter (· ≠ other)) (hop : u.op = s.op)
    (hid : ∀ r, (u.session r).streamId = some stream →
      ((s.retire other phase).session r).streamId = some stream)
    (hcalls : u.native.calls = s.native.calls) : Kept stream w (emit u w.sent other e) := by
  have hpos := (hw.registry _ (hw.opNative other hother)).1
  refine .silent ?_ ?_ (fun r hr ↦ hs.streamId r stream (streamId_update ?_ r (hid r hr))) ?_
    (eventsOf_emit_other hne _ _)
  · show stream ∈ u.operations ↔ _
    rw [hlive, hs.unseen.operations]
    simp [Ne.symm hne]
  · show (u.op stream).session = _ ∧ _
    rw [emit_state, hop]
    exact Op.of_core (hs.op stream hne.symm)
  · simp
  · show u.native.calls 0 = _
    rw [hcalls, (hs.bridge 0 hpos.ne).2]

theorem Ended.retired {s u : State} {e : Event} (hf : w.state.fatalExit = false)
    (hstream : stream ∈ w.state.operations)
    (hs : Staged w.state stream s) (phase : HandlePhase)
    (hflags : u.flags = s.flags) (hlive : u.operations = (s.retire stream phase).operations)
    (hop : u.op = s.op)
    (hregistry : u.native.registry = (s.retire stream phase).native.registry)
    (hid : ∀ r, (u.session r).streamId = ((s.retire stream phase).session r).streamId)
    (he : e = .complete (w.state.op stream).text ∨
      e.isFailure = true ∧ (u.session (w.state.op stream).session).handle = none) :
    Ended stream w (emit u w.sent stream e) := by
  obtain ⟨hsession, hnative⟩ := hs.session_eq hstream
  have hfatal : u.fatalExit = false := (congrArg Prod.fst (hflags.trans hs.flags)).trans hf
  have hself : ((s.retire stream phase).session (w.state.op stream).session).streamId = none := by
    simp [State.retire, ← hsession]
  refine ⟨hstream, ?_, ?_, ?_, fun r hr ↦ ?_, (hid _).trans hself, e, eventsOf_emit hfatal _ _, he⟩
  · show stream ∉ u.operations
    simp [hlive, State.retire]
  · show (u.op stream).session = _
    rw [hop, hsession]
  · show (u.op stream).native ∉ u.native.registry
    simp [hop, hregistry, State.retire, Native.operationDelete]
  · have hr' := (hid r).symm.trans hr
    have hne : r ≠ (w.state.op stream).session := by
      rintro rfl
      rw [hself] at hr'
      cases hr'
    refine ⟨hne, hs.streamId r stream (streamId_update (fun h ↦ ?_) r hr')⟩
    cases h

theorem Move.streams (h : Move rt harmless w t) (hw : Consistent w.state)
    (hf : w.state.fatalExit = false) (stream : ℕ) : Kept stream w t ∨ Ended stream w t := by
  have hrfl : (w.state.op stream).session = (w.state.op stream).session ∧
      (w.state.op stream).native = (w.state.op stream).native ∧
      (w.state.op stream).text = (w.state.op stream).text := ⟨rfl, rfl, rfl⟩
  cases h with
  | quiet h =>
    obtain ⟨next, setters, -, hnative⟩ := h.native
    refine .inl (.silent (by rw [h.operations]) (Op.of_core (h.op stream))
      (fun r ↦ h.streamId r stream) ?_ rfl)
    rw [hnative]
    rfl
  | reply request result =>
    refine .inl (.silent Iff.rfl hrfl (fun _ h ↦ h) rfl ?_)
    simp [eventsOf, sentTo]
  | callback c =>
    refine .inl (.silent Iff.rfl hrfl (fun _ h ↦ h) ?_ rfl)
    have hcalls := hw.calls_zero c.id (.callback c.chunk)
    unfold Native.callback
    cases hc : c.chunk <;> simpa [hc] using hcalls
  | load => exact .inl (.silent Iff.rfl hrfl (fun _ h ↦ h) rfl rfl)
  | unload => exact .inl (.silent Iff.rfl hrfl (fun _ h ↦ h) rfl rfl)
  | add hchat hraw hstream =>
    exact .inl (.silent Iff.rfl hrfl (streamId_update (by simp [hstream])) rfl rfl)
  | give => exact .inl (.silent Iff.rfl hrfl (streamId_update fun h ↦ h) rfl rfl)
  | drop => exact .inl (.silent Iff.rfl hrfl (streamId_update fun h ↦ h) rfl rfl)
  | remove => exact .inl (.silent Iff.rfl hrfl (fun _ h ↦ h) rfl rfl)
  | @cancel other hother hc overflow =>
    refine .inl (.silent Iff.rfl ?_ (fun _ h ↦ h) ?_ rfl)
    · by_cases h : stream = other
      · simp [State.cancel, h]
      · simp [State.cancel, h]
    · cases overflow
      · exact hw.calls_zero _ _
      · rfl
  | @rebuild s r messages _ _ _ hs =>
    cases hs with
    | reuse => exact .inl (.silent Iff.rfl hrfl (fun _ h ↦ h) rfl rfl)
    | rebuild =>
      refine .inl (.silent Iff.rfl hrfl (fun r' h ↦ streamId_drop r' (streamId_update
        (fun h ↦ ?_) r' h)) rfl rfl)
      simpa [State.drop, NativeSession.opened] using h
  | exhaust => exact .inl (.silent Iff.rfl hrfl (fun _ h ↦ h) rfl rfl)
  | leak => exact .inl (.silent Iff.rfl hrfl (fun _ h ↦ h) rfl rfl)
  | discard => exact .inl (.silent Iff.rfl hrfl (fun _ h ↦ h) (hw.calls_zero _ _) rfl)
  | @token other e text hother he hkind hc htext =>
    have hcalls := hw.calls_zero (w.state.op other).native .take
    by_cases hsame : other = stream
    · subst hsame
      refine .inl ⟨Iff.rfl, ?_, ?_, fun _ h ↦ h, hcalls, [(.token text, _)], eventsOf_emit
        (s := (w.state.bridge _ .take).addText other text) hf _ _,
        by simp [Event.isToken], fun _ ↦ hother, ?_⟩
      all_goals simp [emit, State.addText, State.bridge, spoken, Event.text]
    · refine .inl (.silent Iff.rfl ?_ (fun _ h ↦ h) hcalls (eventsOf_emit_other hsame _ _))
      simp [emit, State.addText, State.bridge, Ne.symm hsame]
  | @release s other hother hs hhistory phase e he =>
    by_cases hsame : other = stream
    · subst hsame
      refine .inr (.retired hf hother hs phase rfl rfl rfl rfl (fun r ↦ ?_) (.inr ⟨he, ?_⟩))
      · by_cases hr : r = (s.op other).session
        · simp [State.drop, hr]
        · simp [State.drop, hr]
      · rw [← (hs.session_eq hother).1]
        simp [State.drop]
    · exact .inl (.other hw hother hsame hs phase rfl rfl (fun r h ↦ streamId_drop r h) rfl)
  | @complete s other e hother hs he hkind hc hcalls hhistory phase =>
    by_cases hsame : other = stream
    · subst hsame
      refine .inr (.retired hf hother hs phase rfl rfl rfl rfl (fun _ ↦ rfl) (.inl ?_))
      rw [hs.text]
    · exact .inl (.other hw hother hsame hs phase rfl rfl (fun _ h ↦ h) rfl)

/-- The last event of a stream and the state it is sent in: the operation is
gone, and so is the handle unless it completed or never got started. -/
structure Released (stream r : ℕ) (e : Event) (s : State) : Prop where
  terminal : e.isToken = false
  gone : stream ∉ s.operations
  native : (s.op stream).native ∉ s.native.registry
  streamId : ∀ r', (s.session r').streamId ≠ some stream
  idle : (s.session r).streamId = none ∨ e = .error (.disposed "Session is closed") ∨
    ∃ other, (s.session r).streamId = some other ∧
      e = .error (.busy "Only one generation may run per session")
  handle : (∃ text, e = .complete text) ∨ Call.start ∉ s.native.calls (s.op stream).native ∨
    (s.session r).handle = none

structure Unknown (stream : ℕ) (w : NativeWorker) : Prop where
  gone : stream ∉ w.state.operations
  native : (w.state.op stream).native = 0
  calls : w.state.native.calls 0 = []
  streamId : ∀ r, (w.state.session r).streamId ≠ some stream
  events : eventsOf stream w.sent = []

structure Running (stream r : ℕ) (w : NativeWorker) : Prop where
  live : stream ∈ w.state.operations
  session : (w.state.op stream).session = r
  streamId : ∀ r', (w.state.session r').streamId = some stream → r' = r
  tokens : ∀ e ∈ eventsOf stream w.sent, e.1.isToken = true
  text : spoken (eventsOf stream w.sent) = (w.state.op stream).text

structure Finished (stream r : ℕ) (w : NativeWorker) : Prop where
  gone : stream ∉ w.state.operations
  streamId : ∀ r', (w.state.session r').streamId ≠ some stream
  events : ∃ tokens e s, eventsOf stream w.sent = tokens ++ [(e, s)] ∧
    (∀ e ∈ tokens, e.1.isToken = true) ∧ Released stream r e s ∧
    ∀ text, e = .complete text → text = spoken tokens

variable {r : ℕ}

theorem Unknown.kept (hw : Unknown stream w) (h : Kept stream w t) : Unknown stream t := by
  obtain ⟨events, hevents, -, hnone, -⟩ := h.events
  obtain rfl : events = [] := by
    by_contra hne
    exact hw.gone (hnone hne)
  refine ⟨fun hlive ↦ hw.gone (h.live.mp hlive), h.native.trans hw.native, h.calls.trans hw.calls,
    fun r hr ↦ hw.streamId r (h.streamId r hr), ?_⟩
  simpa [hw.events] using hevents

theorem Running.kept (hw : Running stream r w) (h : Kept stream w t) : Running stream r t := by
  obtain ⟨events, hevents, htokens, -, htext⟩ := h.events
  refine ⟨h.live.mpr hw.live, h.session.trans hw.session,
    fun r' hr' ↦ hw.streamId r' (h.streamId r' hr'), fun e he ↦ ?_, ?_⟩
  · rw [hevents, List.mem_append] at he
    exact he.elim (hw.tokens e) (htokens e)
  · rw [hevents, spoken_append, hw.text, htext]

theorem Event.isToken_of_failure {e : Event} (h : e.isFailure = true) : e.isToken = false := by
  cases e <;> first | rfl | cases h

theorem Running.ended (hw : Running stream r w) (h : Ended stream w t) : Finished stream r t := by
  obtain ⟨e, hevents, he⟩ := h.event
  have hid (r' : ℕ) : (t.state.session r').streamId ≠ some stream := by
    intro hr'
    obtain ⟨hne, hold⟩ := h.streamId r' hr'
    exact hne ((hw.streamId r' hold).trans hw.session.symm)
  refine ⟨h.gone, hid, eventsOf stream w.sent, e, t.state, hevents, hw.tokens, ?_, ?_⟩
  · refine ⟨?_, h.gone, h.native, hid, .inl (hw.session ▸ h.idle), ?_⟩
    · rcases he with rfl | ⟨he, -⟩
      · rfl
      · exact Event.isToken_of_failure he
    · rcases he with rfl | ⟨-, hh⟩
      · exact .inl ⟨_, rfl⟩
      · exact .inr (.inr (hw.session ▸ hh))
  · rintro text rfl
    rcases he with he | ⟨he, -⟩
    · rw [hw.text]
      exact Event.complete.inj he
    · cases he

theorem Finished.kept (hw : Finished stream r w) (h : Kept stream w t) : Finished stream r t := by
  obtain ⟨events, hevents, -, hnone, -⟩ := h.events
  obtain rfl : events = [] := by
    by_contra hne
    exact hw.gone (hnone hne)
  refine ⟨fun hlive ↦ hw.gone (h.live.mp hlive), fun r hr ↦ hw.streamId r (h.streamId r hr), ?_⟩
  rw [hevents, List.append_nil]
  exact hw.events

/-- Where a stream stands: nobody asked for it yet, or it runs on the session
`r`, or it is over. -/
def Status (stream : ℕ) (session : Option ℕ) (w : NativeWorker) : Prop :=
  match session with
  | none => Unknown stream w
  | some r => Running stream r w ∨ Finished stream r w

variable {session : Option ℕ}

theorem Status.kept (hw : Status stream session w) (h : Kept stream w t) :
    Status stream session t := by
  cases session with
  | none => exact Unknown.kept hw h
  | some r => exact hw.imp (·.kept h) (·.kept h)

theorem Status.moves (h : Moves rt harmless w t) (hw : Consistent w.state)
    (hf : w.state.fatalExit = false) (hs : Status stream session w) : Status stream session t := by
  have hall : Consistent t.state ∧ t.state.fatalExit = false ∧ Status stream session t := by
    induction h with
    | refl => exact ⟨hw, hf, hs⟩
    | tail _ hmove ih =>
      obtain ⟨hu, hfu, hsu⟩ := ih
      refine ⟨hmove.consistent rt hu, (congrArg Prod.fst hmove.flags).trans hfu, ?_⟩
      rcases hmove.streams hu hfu stream with hkept | hended
      · exact hsu.kept hkept
      · cases session with
        | none => exact absurd hended.live hsu.gone
        | some r =>
          rcases hsu with hrunning | hfinished
          · exact .inr (hrunning.ended hended)
          · exact absurd hended.live hfinished.gone
  exact hall.2.2

theorem Native.start_calls (n : Native) {id : ℕ} (hid : id ≠ 0) (pointer : Option ℕ)
    (message : Message) (status : ℤ) (error : Option Bridge.CString) :
    (n.start id pointer message status error).calls 0 = n.calls 0 := by
  unfold Native.start
  split_ifs
  · exact (n.bridge_other hid.symm _).2
  · exact ((n.bridge id .start).bridge_other hid.symm _).2.trans (n.bridge_other hid.symm _).2

theorem Native.operationCreate_of_ne {n : Native} {skip : ℕ} (hid : n.operationId skip ≠ 0) :
    n.operationCreate skip = { n with
      nextId := if n.operationId skip + 1 = 2 ^ 64 then 0 else n.operationId skip + 1
      registry := n.registry ++ [n.operationId skip]
      operation := Function.update n.operation (n.operationId skip) {}
      calls := Function.update n.calls (n.operationId skip) [] } := by
  simp [Native.operationCreate, hid]

theorem Prepared.streams {s s' : State} {messages : List Message} (h : Prepared s r messages s') :
    s'.operations = s.operations ∧ s'.op = s.op ∧ s'.native.calls = s.native.calls ∧
      s'.native.registry = s.native.registry ∧
      ∀ r' stream, (s'.session r').streamId = some stream →
        (s.session r').streamId = some stream := by
  cases h with
  | reuse => exact ⟨rfl, rfl, rfl, rfl, fun _ _ h ↦ h⟩
  | rebuild =>
    refine ⟨rfl, rfl, rfl, rfl,
      fun r' stream h ↦ streamId_drop r' (streamId_update (fun h ↦ ?_) r' h)⟩
    simpa [State.drop, NativeSession.opened] using h

theorem Kept.launch {s : State} {other skip : ℕ} {messages : List Message} (hne : other ≠ stream)
    (hops : s.operations = w.state.operations) (hop : s.op = w.state.op)
    (hcalls : s.native.calls = w.state.native.calls)
    (hid : ∀ r, (s.session r).streamId = some stream → (w.state.session r).streamId = some stream)
    (hskip : s.native.operationId skip ≠ 0) :
    Kept stream w ⟨s.launch other r skip messages, w.sent⟩ := by
  refine .silent ?_ ?_ (fun r' hr' ↦ hid r' (streamId_update (fun h ↦ ?_) r' hr')) ?_ rfl
  · simp only [State.launch, hops]
    split_ifs
    · rfl
    · simp [Ne.symm hne]
  · simp [State.launch, hop, Ne.symm hne]
  · exact absurd (Option.some.inj h) hne
  · simp only [State.launch, Native.operationCreate_of_ne hskip, Function.update_of_ne hskip.symm,
      hcalls]

/-- A stream that is served is not the affair of another. -/
theorem Generated.kept {other : ℕ} (h : Generated rt harmless other r w t) (hne : other ≠ stream) :
    Kept stream w t := by
  cases h with
  | @launch s skip messages status error hr hidle hs hid =>
    obtain ⟨hops, hop, hcalls, -, hstream⟩ := hs.streams
    have hk : Kept stream w ⟨s.launch other r skip messages, w.sent⟩ :=
      .launch hne hops hop hcalls (fun r' ↦ hstream r' stream) hid
    have hself : (s.launch other r skip messages).op other =
        { session := r, native := s.native.operationId skip, messages := messages } :=
      Function.update_self ..
    refine { hk with calls := Eq.trans ?_ hk.calls }
    simp only [State.start, hself]
    exact Native.start_calls _ hid _ _ _ _
  | @abort skip messages e hr hh hidle hid =>
    have hk : Kept stream w ⟨w.state.launch other r skip messages, w.sent⟩ :=
      .launch hne rfl rfl rfl (fun _ h ↦ h) hid
    obtain ⟨events, hevents, htokens, hlive, htext⟩ := hk.events
    refine ⟨Iff.trans ?_ hk.live, hk.session, hk.native,
      fun r' hr' ↦ hk.streamId r' (streamId_update (fun h ↦ ?_) r' hr'), hk.calls, events, ?_,
      htokens, hlive, htext⟩
    · simp [emit, State.retire, Ne.symm hne]
    · cases h
    · rw [eventsOf_emit_other hne]
      exact hevents
  | refuse => exact .silent Iff.rfl ⟨rfl, rfl, rfl⟩ (fun _ h ↦ h) rfl (eventsOf_emit_other hne _ _)

theorem Generated.status (h : Generated rt harmless stream r w t) (hw : Consistent w.state)
    (hf : w.state.fatalExit = false) (hs : Unknown stream w) : Status stream (some r) t := by
  have hzero : (0 : ℕ) ∉ w.state.native.registry := fun hmem ↦
    absurd (hw.registry 0 hmem).1 (lt_irrefl 0)
  cases h with
  | @launch s skip messages status error hr hidle hp hid =>
    obtain ⟨hops, hop, hcalls, -, hstream⟩ := hp.streams
    have hself : ((s.launch stream r skip messages).start stream status error).op stream =
        { session := r, native := s.native.operationId skip, messages := messages } :=
      Function.update_self ..
    have hevents := hs.events
    refine .inl
      ⟨?_, by rw [hself], fun r' hr' ↦ ?_, by simp [hevents], by simp [hevents, hself, spoken]⟩
    · simp only [State.start, State.launch]
      split_ifs with hmem
      · exact hmem
      · simp
    · by_contra hne
      refine hs.streamId r' (hstream r' stream ?_)
      have hr' : (Function.update s.session r _ r').streamId = some stream := hr'
      rwa [Function.update_of_ne hne] at hr'
  | @abort skip messages e hr hh hidle hid =>
    have hself : ((w.state.launch stream r skip messages).retire stream .ready).op stream =
        { session := r, native := w.state.native.operationId skip, messages := messages } :=
      Function.update_self ..
    have hop : (w.state.launch stream r skip messages).op stream =
        { session := r, native := w.state.native.operationId skip, messages := messages } :=
      Function.update_self ..
    have hgone :
      stream ∉ ((w.state.launch stream r skip messages).retire stream .ready).operations :=
      by simp [State.retire]
    have hidle' : (((w.state.launch stream r skip messages).retire stream .ready).session
        r).streamId = none := by
      simp [State.retire, hop]
    have hid' (r' : ℕ) : (((w.state.launch stream r skip messages).retire stream .ready).session
        r').streamId ≠ some stream := by
      intro hr'
      by_cases hsame : r' = r
      · rw [hsame, hidle'] at hr'
        cases hr'
      · refine hs.streamId r' ?_
        simpa [State.retire, State.launch, Function.update_of_ne hsame] using hr'
    have hf' : ((w.state.launch stream r skip messages).retire stream .ready).fatalExit = false :=
      hf
    have hsent :
      eventsOf stream (emit ((w.state.launch stream r skip messages).retire stream .ready)
        w.sent stream (.error (e.toFailure rt))).sent = _ :=
      eventsOf_emit hf' _ _
    rw [hs.events] at hsent
    refine .inr ⟨hgone, hid', [], _, _, hsent, by simp,
      ⟨rfl, hgone, ?_, hid', .inl hidle', .inr (.inl ?_)⟩, ?_⟩
    · rw [hself]
      simp [State.retire, Native.operationDelete, hop]
    · rw [hself]
      simp [State.retire, Native.operationDelete, State.launch, Native.operationCreate_of_ne hid]
    · intro text htext
      cases htext
  | @refuse e he =>
    have hsent : eventsOf stream (emit w.state w.sent stream (.error (e.toFailure rt))).sent = _ :=
      eventsOf_emit hf _ _
    rw [hs.events] at hsent
    refine .inr ⟨hs.gone, hs.streamId, [], _, _, hsent, by simp,
      ⟨rfl, hs.gone, by rw [hs.native]; exact hzero, hs.streamId, ?_, .inr (.inl ?_)⟩, ?_⟩
    · rcases he with he | rfl | ⟨other, hother, rfl⟩
      · exact .inl he
      · exact .inr (.inl rfl)
      · exact .inr (.inr ⟨other, hother, rfl⟩)
    · rw [hs.native, hs.calls]
      simp
    · intro text htext
      cases htext

end LibLitertLm.Worker
