import LibLitertLm.Bridge.Protocol
import LibLitertLm.Worker.Simulation

namespace LibLitertLm.Worker

open Code
open Bridge (Call)

variable {rt : Runtime} {harmless : Prop} {w₀ w t : NativeWorker} {stream : ℕ}

theorem Reached.callbacks (h : Reached rt harmless w₀ w) (cs : List Callback) :
    Reached rt harmless w₀
      ⟨{ w.state with native := cs.foldl Native.callback w.state.native }, w.sent⟩ := by
  induction cs generalizing w with
  | nil => exact h
  | cons c cs ih => exact ih (h.move (.callback w c))

def State.setPhase (s : State) (r : ℕ) (phase : HandlePhase) : State :=
  { s with session := Function.update s.session r { s.session r with phase := phase } }

theorem Quiet.refl (s : State) : Quiet s s :=
  ⟨rfl, rfl, rfl, rfl, rfl, fun _ _ ↦ rfl, fun _ _ h ↦ h, fun _ ↦ rfl, rfl, _, s.native.setters,
    le_rfl, rfl⟩

theorem Quiet.of_session {s : State} {r : ℕ} {x : NativeSession}
    (hx : x.core = (s.session r).core) :
    Quiet s { s with session := Function.update s.session r x } := by
  have hstream : x.streamId = (s.session r).streamId :=
    field_eq NativeSession.core NativeSession.streamId (fun _ ↦ rfl) hx
  refine { Quiet.refl s with session := fun r' _ ↦ ?_, streamId := fun r' stream ↦ ?_ }
  · by_cases h : r' = r
    · simpa [h] using hx
    · simp [h]
  · by_cases h : r' = r
    · simp [h, hstream]
    · simp [h]

theorem Quiet.setPhase (s : State) (r : ℕ) (phase : HandlePhase) : Quiet s (s.setPhase r phase) :=
  .of_session rfl

def Native.Holds (n : Native) (x : NativeSession) : Prop :=
  ∃ p ∈ x.handle, ∃ res ∈ n.live p, ∃ q, x.owns q res

theorem Native.Holds.congr {n m : Native} {x y : NativeSession} (h : n.Holds x)
    (hlive : m.live = n.live) (hframe : y.frame = x.frame) : m.Holds y := by
  obtain ⟨-, hhandle, -, howns, -⟩ := NativeSession.frame_eq hframe
  simpa only [Holds, hlive, hhandle, howns] using h

theorem Consistent.handle_live {s : State} (hs : Consistent s) {r : ℕ} (hr : r ∈ s.sessions) :
    ∀ p ∈ (s.session r).handle, ∃ res ∈ s.native.live p, ∃ q, (s.session r).owns q res := by
  obtain ⟨q, -, hown⟩ := hs.sessionEngine r hr
  intro p hp
  obtain ⟨res, hres, hown⟩ := hown p hp
  exact ⟨res, hres, q, hown⟩

theorem Consistent.holds (hw : Consistent w.state) (hstream : stream ∈ w.state.operations) :
    w.state.native.Holds (w.state.session (w.state.op stream).session) := by
  obtain ⟨hr, -, hh⟩ := hw.opSession stream hstream
  obtain ⟨p, hp⟩ := Option.ne_none_iff_exists'.mp hh
  exact ⟨p, hp, hw.handle_live hr p hp⟩

theorem post_useHandle {x : NativeSession} (h : w.state.native.Holds x)
    {Q : Except Thrown Unit → NativeWorker → Prop} : Post (useHandle x) w Q ↔ Q (.ok ()) w := by
  obtain ⟨p, hp, res, hres, q, hown⟩ := h
  unfold useHandle
  unfold NativeSession.handle at hp
  cases hc : x.conversation with
  | true =>
    simp only [hc, if_true] at hp ⊢
    refine post_use_of_valid ?_
    cases res <;> simp_all [NativeSession.owns, Native.valid, Resource.isConversation]
  | false =>
    simp only [hc, Bool.false_eq_true, if_false] at hp ⊢
    refine post_use_of_valid ?_
    cases res <;> simp_all [NativeSession.owns, Native.valid, Resource.isSession]

theorem post_cancel (hw : Consistent w.state) (hstream : stream ∈ w.state.operations)
    (overflow : Bool) :
    Post (cancel stream overflow) w fun result t ↦ result = .ok () ∧
      t = if (w.state.op stream).cancelRequested then w else
        ⟨(w.state.cancel stream overflow).setPhase (w.state.op stream).session .cancelRequested,
          w.sent⟩ := by
  have hholds := hw.holds hstream
  rw [cancel, post_read_bind]
  cases hc : (w.state.op stream).cancelRequested with
  | true => exact ⟨rfl, rfl⟩
  | false =>
    have hbridge := (w.state.native.bridge_spec (w.state.op stream).native .cancel).2.1
    cases overflow with
    | true =>
      simp only [Bool.not_false, if_true, Bool.false_eq_true, if_false, modifyOp, modifySession,
        post_bind, post_update, when, Bool.not_true, post_pure, post_read, Function.update_self]
      refine (post_useHandle ?_).mpr ⟨rfl, rfl⟩
      exact hholds.congr rfl rfl
    | false =>
      simp only [Bool.not_false, if_true, Bool.false_eq_true, if_false, modifyOp, modifySession,
        bridge, modifyNative, post_bind, post_update, when, post_read, Function.update_self]
      refine (post_useHandle ?_).mpr ⟨rfl, rfl⟩
      exact hholds.congr hbridge rfl

theorem post_take {id : ℕ} (hid : id ∈ w.state.native.registry)
    {Q : Except Thrown (Option (ℕ × Bridge.Event)) → NativeWorker → Prop} :
    Post (take id) w Q ↔
      match (Bridge.operationTake (w.state.native.operation id)).2 with
      | none => Q (.ok none) ⟨w.state.bridge id .take, w.sent⟩
      | some e => Q (.ok (some (w.state.native.next, e)))
          ⟨{ w.state with native := (w.state.native.bridge id .take).create .event }, w.sent⟩ := by
  have hnext := (w.state.native.bridge_spec id .take).1
  simp only [take, post_bind, post_read, bridge, modifyNative, post_update]
  have hcontains : w.state.native.registry.contains id = true := by simpa using hid
  rw [hcontains]
  cases (Bridge.operationTake (w.state.native.operation id)).2 with
  | none => exact Iff.rfl
  | some e =>
    simp only [create, if_true, post_bind, post_read, modifyNative, post_update, post_pure,
      Option.map_some, hnext]

def NativeWorker.taken (w : NativeWorker) (id : ℕ) : NativeWorker :=
  (⟨w.state.bridge id .take, w.sent⟩ : NativeWorker).after (w.state.native.next + 1)
    w.state.native.setters w.state.native.live

theorem post_readEvent (hw : Consistent w.state) {id : ℕ} {e : Bridge.Event} (he : e.id = id) :
    Post (readEvent id w.state.native.next e)
      ⟨{ w.state with native := (w.state.native.bridge id .take).create .event }, w.sent⟩
      fun result t ↦ t = w.taken id ∧ result =
        match utf8Decode (e.text.takeWhile (· ≠ 0)) with
        | some text => .ok (some text)
        | none => .error (.error .formatException) := by
  obtain ⟨hnext, hlive, -⟩ := w.state.native.bridge_spec id .take
  have hself : ((w.state.native.bridge id .take).create .event).live w.state.native.next =
      some .event := by
    simp [Native.create, hnext]
  have hvalid : ((w.state.native.bridge id .take).create .event).valid (some w.state.native.next)
      isEvent = true := by
    simp [Native.valid, hself, isEvent, Resource.same]
  rw [readEvent, post_tryFinally, post_bind]
  refine (post_use_of_valid hvalid).mpr ?_
  rw [if_neg (not_not.mpr he)]
  refine (post_bind ..).mpr ((post_use_of_valid hvalid).mpr ?_)
  refine (post_bind ..).mpr ((post_use_of_valid hvalid).mpr ?_)
  rw [post_bind, decode]
  have hdelete : Post (delete (some w.state.native.next)
      isEvent) ⟨{ w.state with native := (w.state.native.bridge id .take).create .event }, w.sent⟩
      fun r u ↦ r = .ok () ∧ u = w.taken id := by
    refine (post_delete hself rfl).mpr ⟨rfl, ?_⟩
    simp [NativeWorker.taken, NativeWorker.after, Native.after, State.bridge, Native.create, hnext,
      hlive]
    refine ⟨(hw.fresh _ le_rfl).symm, ?_⟩
    unfold Native.bridge
    split_ifs <;> rfl
  cases utf8Decode (e.text.takeWhile (· ≠ 0)) with
  | none =>
    simp only [post_throw]
    refine hdelete.mono fun r u hresult ↦ ?_
    obtain ⟨hr, hu⟩ := hresult
    subst hr
    exact ⟨hu, trivial⟩
  | some text =>
    simp only [post_pure]
    refine hdelete.mono fun r u hresult ↦ ?_
    obtain ⟨hr, hu⟩ := hresult
    subst hr
    exact ⟨hu, trivial⟩

theorem post_event (stream : ℕ) (e : Event) {Q : Except Thrown Unit → NativeWorker → Prop} :
    Post (event stream e) w Q ↔ Q (.ok ()) (emit w.state w.sent stream e) := by
  rw [event, post_read_bind, emit]
  cases w.state.fatalExit <;> simp [send]

/-- The handle goes before the operation does, or after it. -/
theorem State.drop_retire (s : State) (stream : ℕ) (phase : HandlePhase) :
    (s.drop (s.op stream).session).retire stream phase =
      (s.retire stream phase).drop (s.op stream).session := by
  simp only [State.drop, State.retire, Function.update_self, Function.update_idem,
    Native.operationDelete]
  rfl

theorem State.drop_drop (s : State) (r : ℕ) : (s.drop r).drop r = s.drop r := by
  simp only [State.drop, Function.update_self, Function.update_idem, handle_dropped]

def State.settled (s : State) (stream : ℕ) : HandlePhase :=
  if (s.session (s.op stream).session).phase ≠ .closing then .ready
  else (s.session (s.op stream).session).phase

theorem post_settle (stream : ℕ) (e : Event) {Q : Except Thrown Unit → NativeWorker → Prop} :
    Post (settle stream e) w Q ↔
      Q (.ok ()) (emit (w.state.retire stream (w.state.settled stream)) w.sent stream e) := by
  simp only [settle, post_bind, post_read, modifyNative, modifySession, post_update, post_event]
  rfl

theorem terminalEvent_failure {op : Op} {kind : ℕ} {cancelled : Bool}
    (h : cancelled = true ∨ kind ≠ 1) (detail : String) :
    (terminalEvent op kind cancelled detail).isFailure = true := by
  unfold terminalEvent
  split_ifs <;> first | rfl | simp_all

/-- `_finish` of an operation that did not complete. -/
theorem post_finish_failed (hstream : stream ∈ w.state.operations)
    (hspare : (w.state.session (w.state.op stream).session).spare = none)
    (hlive : ∀ p ∈ (w.state.session (w.state.op stream).session).handle,
      ∃ res ∈ w.state.native.live p, ∃ q, (w.state.session (w.state.op stream).session).owns q res)
    {kind : ℕ} {failureAfterStop : Bool}
    (hkind : (!failureAfterStop && ((w.state.op stream).cancelRequested || kind == 3)) = true ∨
      kind ≠ 1) (detail : String) (a : PumpAnswers) :
    Post (finish rt stream kind detail failureAfterStop a) w fun result t ↦ result = .ok () ∧
      ∃ e, Event.isFailure e = true ∧ e = terminalEvent (w.state.op stream) kind
          (!failureAfterStop && ((w.state.op stream).cancelRequested || kind == 3)) detail ∧
        t = emit ((w.state.retire stream (w.state.settled stream)).drop (w.state.op stream).session)
          w.sent stream e := by
  have hknown : w.state.operations.contains stream = true := by simpa using hstream
  rw [finish, post_read_bind, hknown, if_pos rfl, post_read_bind, post_read_bind]
  dsimp only
  generalize hcancelled :
    (!failureAfterStop && ((w.state.op stream).cancelRequested || kind == 3)) =
    cancelled at hkind ⊢
  rw [if_pos (by simpa using hkind)]
  refine (post_bind ..).mpr ((post_deleteHandle hspare hlive).mono fun result t ⟨hok, ht⟩ ↦ ?_)
  subst hok ht
  refine (post_settle ..).mpr ⟨rfl, terminalEvent (w.state.op stream) kind cancelled detail,
    terminalEvent_failure hkind detail, rfl, ?_⟩
  · have hphase : (w.state.drop (w.state.op stream).session).settled stream =
        w.state.settled stream := by
      simp [State.settled, State.drop]
    rw [← State.drop_retire, ← hphase]

/-- A history that is an array of objects holds the completed turns, and an
array has nothing but objects. -/
def Honest (rt : Runtime) (a : PumpAnswers) : Prop :=
  ∀ turns text items, utf8Decode ((a.history turns).takeWhile (· ≠ 0)) = some text →
    rt.jsonDecode text = some (.arr items) → items.mapM Json.asMap = some turns

variable {r : ℕ}

theorem post_modifySession (f : NativeSession → NativeSession)
    {Q : Except Thrown Unit → NativeWorker → Prop} :
    Post (modifySession r f) w Q ↔ Q (.ok ()) (w.setSession r (f (w.state.session r))) := by
  rw [modifySession, post_update]
  rfl

theorem post_addAll (items : List Json) :
    Post (addAll r items) w fun result t ↦ ∃ messages,
      t = w.setSession r { w.state.session r with
        history := (w.state.session r).history ++ messages } ∧
      match result with
      | .ok _ => items.mapM Json.asMap = some messages
      | .error _ => items.mapM Json.asMap = none := by
  have hsame (w : NativeWorker) : w = w.setSession r { w.state.session r with
      history := (w.state.session r).history ++ [] } := by
    rw [List.append_nil]
    exact (w.setSession_self r).symm
  induction items generalizing w with
  | nil => exact ⟨[], hsame w, rfl⟩
  | cons item items ih =>
    rw [addAll, forEach, post_bind]
    cases hitem : item.asMap with
    | none => exact ⟨[], hsame w, by simp [hitem]⟩
    | some message =>
      refine (post_modifySession _).mpr (ih.mono fun result t ⟨messages, ht, hresult⟩ ↦ ?_)
      rw [NativeWorker.setSession_session, NativeWorker.setSession_setSession] at ht
      refine ⟨message :: messages, by simpa using ht, ?_⟩
      cases result with
      | ok _ => simp [hitem, hresult]
      | error e => simp [hitem, hresult]

theorem post_commitHistory {a : PumpAnswers} (ha : harmless → Honest rt a)
    (hh : w.state.native.Holds (w.state.session r))
    (hc : (w.state.session r).conversation = true) :
    Post (commitHistory rt r a) w fun result t ↦ ∃ history,
      t = w.setSession r { w.state.session r with history := history } ∧
      (harmless → history = match result with
        | .ok _ =>
          (w.state.session r).nativePreface ++ w.state.native.turns (w.state.session r).chat
        | .error _ => (w.state.session r).history) := by
  have hvalid : w.state.native.valid (w.state.session r).chat Resource.isConversation = true := by
    obtain ⟨p, hp, res, hres, q, hown⟩ := hh
    rw [NativeSession.handle, hc, if_pos rfl, Option.mem_def] at hp
    cases res <;> simp_all [Native.valid, NativeSession.owns, Resource.isConversation]
  have hsame : w = w.setSession r { w.state.session r with
      history := (w.state.session r).history } := (w.setSession_self r).symm
  rw [commitHistory, post_read_bind, post_bind, post_use_of_valid hvalid]
  show Post _ w _
  rw [post_read_bind, post_bind, decode]
  cases htext : utf8Decode ((a.history (w.state.native.turns
      (w.state.session r).chat)).takeWhile (· ≠ 0)) with
  | none => exact ⟨_, hsame, fun _ ↦ rfl⟩
  | some text =>
    simp only [post_pure]
    cases hjson : rt.jsonDecode text with
    | none => exact ⟨_, hsame, fun _ ↦ rfl⟩
    | some json =>
      cases json with
      | arr items =>
        refine (post_bind ..).mpr ((post_modifySession _).mpr ?_)
        refine (post_addAll items).mono fun result t hpost ↦ ?_
        obtain ⟨messages, ht, hresult⟩ := hpost
        rw [NativeWorker.setSession_session, NativeWorker.setSession_setSession] at ht
        refine ⟨_, ht, fun h ↦ ?_⟩
        have hturns := ha h _ _ _ htext hjson
        cases result with
        | ok _ =>
          rw [hturns] at hresult
          rw [← Option.some.inj hresult]
        | error e => simp [hturns] at hresult
      | _ => exact ⟨_, hsame, fun _ ↦ rfl⟩

theorem lookup_of_mem {s : State} {id q : ℕ} (h : (id, q) ∈ s.pointers) :
    ∃ e, s.engines.lookup id = some e := by
  obtain ⟨⟨id', e⟩, he, hid⟩ := List.mem_map.mp h
  obtain ⟨rfl, -⟩ := Prod.mk.inj hid
  refine Option.ne_none_iff_exists'.mp fun hnone ↦ ?_
  simpa using List.lookup_eq_none_iff.mp hnone _ he

theorem Scratch.setSession {b : NativeWorker} {live : ℕ → Option Resource} {x : NativeSession}
    (h : Scratch (b.setSession r x) live w) (y : NativeSession) :
    Scratch (b.setSession r y) live (w.setSession r y) := by
  obtain ⟨next, setters, rfl, hnext, hfresh⟩ := h
  refine ⟨next, setters, ?_, hnext, hfresh⟩
  simp [NativeWorker.setSession, NativeWorker.after]

theorem post_metrics (hw : Consistent w.state) (hr : r ∈ w.state.sessions)
    (hh : w.state.native.Holds (w.state.session r)) (a : PumpAnswers) :
    Post (metrics r a) w fun result t ↦ ∃ figures x, result = .ok figures ∧
      x.core = (w.state.session r).core ∧ Scratch (w.setSession r x) w.state.native.live t := by
  obtain ⟨q, hq, -⟩ := hw.sessionEngine r hr
  obtain ⟨engine, hengine⟩ := lookup_of_mem hq
  have hself : Scratch (w.setSession r (w.state.session r)) w.state.native.live w := by
    rw [w.setSession_self r]
    exact hw.scratch
  rw [metrics, post_read_bind, post_read_bind, hengine]
  refine (post_bind ..).mpr ((post_useHandle hh).mpr ?_)
  refine (post_bind ..).mpr ((post_useHandle hh).mpr ?_)
  cases a.benchmark with
  | none => exact ⟨_, _, rfl, rfl, hself⟩
  | some turns =>
    refine (post_bind ..).mpr ((hself.post_created .benchmarkInfo).mono
      fun result t hpost ↦ ?_)
    obtain ⟨p, hresult, hp, ht⟩ := hpost
    subst hresult
    have hlive := Function.update_self p (some Resource.benchmarkInfo) w.state.native.live
    have hkind : isBenchmark .benchmarkInfo = true := rfl
    refine (post_tryFinally ..).mpr ((post_bind ..).mpr ?_)
    refine (post_use_of_valid (ht.valid hlive hkind)).mpr ?_
    refine (post_bind ..).mpr ((ht.post_modifySession r _).mono fun result u hpost ↦ ?_)
    obtain ⟨hok, hu⟩ := hpost
    subst hok
    rw [NativeWorker.setSession_setSession] at hu
    simp only [post_pure]
    refine (hu.post_delete hlive hkind).mono fun result v hpost ↦ ?_
    obtain ⟨hok, hv⟩ := hpost
    subst hok
    rw [Function.update_idem, ← hp, Function.update_eq_self] at hv
    refine ⟨_, _, rfl, ?_, hv⟩
    rw [NativeWorker.setSession_session]
    rfl

theorem Staged.of_scratch (hw : Consistent w.state) (hr : (w.state.op stream).session = r)
    {x : NativeSession} (hx : x.bare = (w.state.session r).bare)
    (h : Scratch (w.setSession r x) w.state.native.live t) :
    Staged w.state stream t.state ∧ t.sent = w.sent ∧ t.state.session r = x ∧
      t.state.native.calls = w.state.native.calls := by
  subst hr
  have hself : t.state.session (w.state.op stream).session = x := by
    rw [h.session, NativeWorker.setSession_session]
  have hother {r' : ℕ} (hne : r' ≠ (w.state.op stream).session) :
      t.state.session r' = w.state.session r' := by
    rw [h.session]
    exact Function.update_of_ne hne ..
  have hframe : x.frame = (w.state.session (w.state.op stream).session).frame :=
    field_eq NativeSession.bare NativeSession.frame (fun _ ↦ rfl) hx
  obtain ⟨next, setters, rfl, hnext, -⟩ := h
  refine ⟨?_, rfl, hself, rfl⟩
  constructor
  case unseen =>
    refine ⟨rfl, rfl, rfl, rfl, rfl, fun r' _ ↦ ?_, fun _ _ ↦ ⟨rfl, rfl⟩, hw.backpressure, hnext,
      fun _ ↦ rfl, rfl, rfl, rfl, hw.machine⟩
    by_cases hr : r' = (w.state.op stream).session
    · rw [hr, hself, hframe]
    · rw [hother hr]
  case streamId =>
    intro r' t' ht
    by_cases hr : r' = (w.state.op stream).session
    · rw [hr, hself] at ht
      rw [hr, ← (NativeSession.frame_eq hframe).2.2.2.2, ht]
    · rwa [hother hr] at ht
  case other =>
    intro r' _ hne
    rw [hother hne]
  case own =>
    rw [hself]
    exact hx
  all_goals first | rfl | (intros; rfl) | (intros; exact ⟨rfl, rfl⟩)

/-- `_finish` of an operation whose native side completed and that nobody
cancelled: either its history cannot be committed, or it completes. -/
theorem post_finish_complete (hw : Consistent w.state) (hstream : stream ∈ w.state.operations)
    (hcancel : (w.state.op stream).cancelRequested = false) {a : PumpAnswers}
    (ha : harmless → Honest rt a) (detail : String) :
    Post (finish rt stream 1 detail false a) w fun result t ↦ ∃ s,
      Staged w.state stream s ∧ s.native.calls = w.state.native.calls ∧
      match result with
      | .ok _ => t = emit (s.retire stream (s.settled stream)) w.sent stream
            (.complete (s.op stream).text) ∧
          (harmless → (s.session (s.op stream).session).history =
            if (s.session (s.op stream).session).conversation then
              (w.state.session (s.op stream).session).nativePreface ++
                w.state.native.turns (w.state.session (s.op stream).session).chat
            else (w.state.session (s.op stream).session).history)
      | .error _ => t = ⟨s, w.sent⟩ ∧ (harmless → (s.session (s.op stream).session).history =
          (w.state.session (s.op stream).session).history) := by
  obtain ⟨hr, -, hhandle⟩ := hw.opSession stream hstream
  have hholds := hw.holds hstream
  have hknown : w.state.operations.contains stream = true := by simpa using hstream
  rw [finish, post_read_bind, hknown, if_pos rfl, post_read_bind, post_read_bind, hcancel]
  refine (post_bind ..).mpr ((post_metrics hw hr hholds a).mono ?_)
  intro result t ⟨figures, x, hok, hx, ht⟩
  subst hok
  refine (post_bind ..).mpr ((ht.post_modifySession _ _).mono fun result u hresult ↦ ?_)
  obtain ⟨hok, hu⟩ := hresult
  subst hok
  rw [NativeWorker.setSession_setSession, NativeWorker.setSession_session] at hu
  set y : NativeSession := { x with metrics := figures } with hy
  have hcore : y.core = (w.state.session (w.state.op stream).session).core := hx
  obtain ⟨hframe, hhistory, -, hconv, hchat, hpreface⟩ := NativeSession.core_eq hcore
  have hself : u.state.session (w.state.op stream).session = y := by
    rw [hu.session, NativeWorker.setSession_session]
  have hopen : y.handle ≠ none := (NativeSession.frame_eq hframe).2.1 ▸ hhandle
  have hcommit : Post (when ((w.state.session (w.state.op stream).session).conversation = true)
      (commitHistory rt (w.state.op stream).session a)) u fun result v ↦ ∃ history,
        v = u.setSession (w.state.op stream).session { y with history := history } ∧
        (harmless → history = match result with
          | .ok _ => if y.conversation then y.nativePreface ++ u.state.native.turns y.chat
            else y.history
          | .error _ => y.history) := by
    rw [when, ← hconv]
    split_ifs with hchat
    · have h := post_commitHistory (w := u) ha (by
        rw [hself]
        exact hholds.congr hu.live_eq hframe) (by rw [hself]; exact hchat)
      rw [hself] at h
      exact h
    · refine ⟨y.history, ?_, fun _ ↦ rfl⟩
      exact (hself ▸ u.setSession_self (w.state.op stream).session).symm
  have hevent : terminalEvent (w.state.op stream) 1 (!false && (false || 1 == 3)) detail =
      .complete (w.state.op stream).text := by
    have hover : (w.state.op stream).backpressure = false := by
      by_contra hover
      simp [hw.backpressure stream hstream (by simpa using hover)] at hcancel
    simp [terminalEvent, hover]
  refine (post_bind ..).mpr (hcommit.mono fun result v hresult ↦ ?_)
  obtain ⟨history, hv, hh⟩ := hresult
  have hscratch := hu.setSession { y with history := history }
  rw [← hv] at hscratch
  obtain ⟨hstaged, hsent, hsession, hcalls⟩ := Staged.of_scratch hw rfl
    (NativeSession.bare_of_core hcore history) hscratch
  obtain ⟨hop, -⟩ := hstaged.session_eq hstream
  cases result with
  | error e =>
    refine ⟨v.state, hstaged, hcalls, by rw [← hsent], fun h ↦ ?_⟩
    rw [hop, hsession, ← hhistory]
    exact hh h
  | ok _ =>
    refine (post_settle ..).mpr ⟨v.state, hstaged, hcalls, ?_, fun h ↦ ?_⟩
    · rw [hsent, hevent, ← hstaged.text]
    · rw [hop, hsession, ← hhistory, ← hchat, ← hpreface hopen]
      have hturns : u.state.native.turns y.chat = w.state.native.turns y.chat := by
        rw [Native.turns, hu.live_eq, Native.turns]
      exact hturns ▸ hh h

theorem Staged.trans {s s' s'' : State} (h : Staged s stream s') (h' : Staged s' stream s'')
    (hstream : stream ∈ s.operations) : Staged s stream s'' := by
  obtain ⟨hsession, hnative⟩ := h.session_eq hstream
  refine ⟨h.unseen.trans h'.unseen, h'.flags.trans h.flags,
    fun r t ht ↦ h.streamId r t (h'.streamId r t ht), fun r hr hne ↦ ?_, ?_,
    fun t ht ↦ (h'.op t ht).trans (h.op t ht), h'.messages.trans h.messages, h'.text.trans h.text,
    h'.live.trans h.live, fun id hid ↦ ?_⟩
  · exact (h'.other r (h.unseen.sessions ▸ hr) (hsession ▸ hne)).trans (h.other r hr hne)
  · have hown := h'.own
    rw [hsession] at hown
    exact hown.trans h.own
  · obtain ⟨hop, hcalls⟩ := h'.bridge id (hnative ▸ hid)
    exact ⟨hop.trans (h.bridge id hid).1, hcalls.trans (h.bridge id hid).2⟩

theorem Staged.of_native {n : Native}
    (hn : Unseen w.state { w.state with native := n }) (hlive : n.live = w.state.native.live)
    (hbridge : ∀ id, id ≠ (w.state.op stream).native →
      n.operation id = w.state.native.operation id ∧ n.calls id = w.state.native.calls id) :
    Staged w.state stream { w.state with native := n } :=
  ⟨hn, rfl, fun _ _ h ↦ h, fun _ _ _ ↦ rfl, rfl, fun _ _ ↦ rfl, rfl, rfl, hlive, hbridge⟩

theorem Native.bridge_other (n : Native) {id id' : ℕ} (h : id' ≠ id) (c : Call) :
    (n.bridge id c).operation id' = n.operation id' ∧ (n.bridge id c).calls id' = n.calls id' := by
  unfold Native.bridge
  split_ifs <;> simp [h]

theorem Native.bridge_calls {n : Native} {id : ℕ} (h : id ∈ n.registry) (c : Call) :
    (n.bridge id c).calls id = n.calls id ++ [c] := by
  simp [Native.bridge, h]

theorem Staged.taken (hw : Consistent w.state) :
    Staged w.state stream (w.taken (w.state.op stream).native).state := by
  obtain ⟨hnext, hlive, hmisuse, hnextId, hregistry⟩ :=
    w.state.native.bridge_spec (w.state.op stream).native .take
  refine Staged.of_native (n := (w.taken (w.state.op stream).native).state.native) ?_ rfl
    fun id hid ↦ w.state.native.bridge_other hid .take
  refine ⟨rfl, rfl, rfl, rfl, rfl, fun _ _ ↦ rfl, fun _ _ ↦ ⟨rfl, rfl⟩, hw.backpressure,
    Nat.le_succ _, fun _ ↦ rfl, hmisuse, hnextId, hregistry, ?_⟩
  exact Native.bridge_machine hw.machine _ .take

theorem Staged.cancelled (hw : Consistent w.state) (hstream : stream ∈ w.state.operations)
    (overflow : Bool) (phase : HandlePhase) :
    Staged w.state stream
      ((w.state.cancel stream overflow).setPhase (w.state.op stream).session phase) := by
  have hcancel := Unseen.cancel hw stream overflow
  have hphase := (Quiet.setPhase (w.state.cancel stream overflow) (w.state.op stream).session
    phase).unseen (hw.unseen hcancel)
  have hop {t : ℕ} (ht : t ≠ stream) : (w.state.cancel stream overflow).op t = w.state.op t :=
    Function.update_of_ne ht ..
  have hself : ((w.state.cancel stream overflow).op stream).messages =
      (w.state.op stream).messages ∧
      ((w.state.cancel stream overflow).op stream).text = (w.state.op stream).text := by
    simp [State.cancel]
  have hquiet := Quiet.setPhase (w.state.cancel stream overflow) (w.state.op stream).session phase
  constructor
  case unseen => exact hcancel.trans hphase
  case flags => rfl
  case streamId => exact hquiet.streamId
  case other => exact fun r hr _ ↦ hquiet.session r hr
  case own => exact NativeSession.bare_of_core (hquiet.session _ (hw.opSession stream hstream).1) _
  case op => exact fun t ht ↦ congrArg Op.core (hop ht)
  case messages => exact hself.1
  case text => exact hself.2
  case live =>
    cases overflow
    · exact (w.state.native.bridge_spec _ .cancel).2.1
    · rfl
  case bridge =>
    intro id hid
    cases overflow
    · exact w.state.native.bridge_other hid .cancel
    · exact ⟨rfl, rfl⟩

/-- The handle of an operation goes before `_finish` does the rest. -/
theorem post_finish_dropped (hw : Consistent w.state) (hstream : stream ∈ w.state.operations)
    {kind : ℕ} {failureAfterStop : Bool} (hkind : kind ≠ 1) (detail : String) (a : PumpAnswers) :
    Post (do
      deleteHandle (w.state.op stream).session
      finish rt stream kind detail failureAfterStop a) w fun result t ↦ result = .ok () ∧
      ∃ phase e, Event.isFailure e = true ∧ e = terminalEvent (w.state.op stream) kind
          (!failureAfterStop && ((w.state.op stream).cancelRequested || kind == 3)) detail ∧
        t =
          emit ((w.state.retire stream phase).drop (w.state.op stream).session) w.sent stream
            e := by
  obtain ⟨hr, -, -⟩ := hw.opSession stream hstream
  refine (post_bind ..).mpr ((post_deleteHandle (hw.sessionSpare _ hr) (hw.handle_live hr)).mono
    fun result t hresult ↦ ?_)
  obtain ⟨hok, ht⟩ := hresult
  subst hok ht
  have hhandle : ((w.state.drop (w.state.op stream).session).session
      (w.state.op stream).session).handle = none := by simp [State.drop]
  have hspare : ((w.state.drop (w.state.op stream).session).session
      (w.state.op stream).session).spare = none := by simp [State.drop]
  refine (post_finish_failed (w := ⟨w.state.drop _, w.sent⟩) hstream hspare (fun p hp ↦ ?_)
    (.inr hkind) detail a).mono fun result t hresult ↦ ?_
  · have hnone : some p = none := (Option.mem_def.mp hp).symm.trans hhandle
    cases hnone
  · obtain ⟨hok, e, he, hevent, ht⟩ := hresult
    refine ⟨hok, (w.state.drop (w.state.op stream).session).settled stream, e, he, hevent,
      ht.trans ?_⟩
    dsimp only
    rw [State.drop_retire]
    exact congrArg (emit · w.sent stream e) (State.drop_drop _ _)

/-- The pass of `_pump` over one operation: the others stay, and an exception
leaves the operation staged. -/
def Pumped (rt : Runtime) (harmless : Prop) (w₀ : NativeWorker) (stream : ℕ) (operations : List ℕ)
    (result : Except Thrown Unit) (t : NativeWorker) : Prop :=
  match result with
  | .ok _ => Reached rt harmless w₀ t ∧ ∀ other ∈ operations, other ≠ stream →
      other ∈ t.state.operations
  | .error _ => ∃ u, Reached rt harmless w₀ u ∧ u.state.operations = operations ∧
      t.sent = u.sent ∧ Staged u.state stream t.state ∧
      (harmless → (t.state.session (t.state.op stream).session).history =
        (u.state.session (t.state.op stream).session).history)

theorem Reached.bump (h : Reached rt harmless w₀ w) :
    Reached rt harmless w₀ (w.after (w.state.native.next + 1) w.state.native.setters
      w.state.native.live) :=
  h.scratch ⟨_, _, rfl, Nat.le_succ _, fun p hp ↦ h.1.fresh p (Nat.le_of_succ_le hp)⟩

theorem NativeWorker.taken_eq (w : NativeWorker) (id : ℕ) :
    w.taken id = ⟨(w.after (w.state.native.next + 1) w.state.native.setters
      w.state.native.live).state.bridge id .take, w.sent⟩ := by
  by_cases h : id ∈ w.state.native.registry <;>
    simp [NativeWorker.taken, NativeWorker.after, State.bridge, Native.after, Native.bridge, h]

theorem Reached.discard (h : Reached rt harmless w₀ w) (hstream : stream ∈ w.state.operations)
    (hhead : ∀ e ∈ w.state.head stream, e.kind = 0 ∧ ((w.state.op stream).cancelRequested = true ∨
      shown rt (w.state.session (w.state.op stream).session).conversation e.text = .ok "")) :
    Reached rt harmless w₀ (w.taken (w.state.op stream).native) := by
  rw [w.taken_eq]
  exact h.bump.move (.discard hstream hhead)

theorem Reached.deliver (h : Reached rt harmless w₀ w) (hstream : stream ∈ w.state.operations)
    {a : PumpAnswers} (ha : harmless → Honest rt a) {e : Bridge.Event} {text : String}
    (he : w.state.head stream = some e)
    (htext : utf8Decode (e.text.takeWhile (· ≠ 0)) = some text) :
    Post (deliver rt stream e.kind text a) (w.taken (w.state.op stream).native)
      (Pumped rt harmless w₀ stream w.state.operations) := by
  set id := (w.state.op stream).native with hid
  have hstaged : Staged w.state stream (w.taken id).state := Staged.taken h.1
  have htaken : Consistent (w.taken id).state := h.1.unseen hstaged.unseen
  have hconv : (w.taken id).state.session ((w.taken id).state.op stream).session =
    w.state.session (w.state.op stream).session := rfl
  have hdiscard (hkind : e.kind = 0) (hshown : (w.state.op stream).cancelRequested = true ∨
      shown rt (w.state.session (w.state.op stream).session).conversation e.text = .ok "") :
      Pumped rt harmless w₀ stream w.state.operations (.ok ()) (w.taken id) := by
    refine ⟨h.discard hstream fun e' he' ↦ ?_, fun _ ho _ ↦ ho⟩
    obtain rfl := Option.some.inj (he.symm.trans he')
    exact ⟨hkind, hshown⟩
  rw [Worker.deliver]
  by_cases hkind : e.kind = 0
  · rw [if_pos hkind, post_read_bind]
    cases hc : (w.state.op stream).cancelRequested with
    | true =>
      rw [if_neg (by simp [show ((w.taken id).state.op stream).cancelRequested = true from hc])]
      exact hdiscard hkind (.inl hc)
    | false =>
      rw [if_pos (by simp [show ((w.taken id).state.op stream).cancelRequested = false from hc]),
        post_read_bind]
      have hsend (text' : String) (hshown : shown rt
          (w.state.session (w.state.op stream).session).conversation e.text = .ok text') :
          Post (if !text'.isEmpty then do
              modifyOp stream fun o ↦ { o with text := o.text ++ text' }
              modifyOp stream fun o ↦ { o with credit := false }
              event stream (.token text')
            else pure ()) (w.taken id) (Pumped rt harmless w₀ stream w.state.operations) := by
        by_cases hempty : text' = ""
        · rw [if_neg (by simp [hempty])]
          exact hdiscard hkind (.inr (hempty ▸ hshown))
        · rw [if_pos (by simpa using hempty)]
          simp only [modifyOp, post_bind, post_update, post_event, Function.update_self,
            Function.update_idem]
          refine ⟨?_, fun _ ho _ ↦ ho⟩
          rw [w.taken_eq]
          exact h.bump.move (.token hstream he hkind hc hshown)
      rw [shown, htext] at hsend
      dsimp only at hsend
      rw [hconv]
      cases hchat : (w.state.session (w.state.op stream).session).conversation with
      | false =>
        rw [hchat] at hsend
        exact hsend text rfl
      | true =>
        rw [hchat] at hsend
        refine (post_bind ..).mpr ((post_lift _).mpr ?_)
        cases hshown : chatText rt text with
        | error e => exact ⟨w, h, rfl, rfl, hstaged, fun _ ↦ rfl⟩
        | ok text' => exact hsend text' hshown
  · rw [if_neg hkind]
    by_cases hdone : e.kind = 1 ∧ (w.state.op stream).cancelRequested = false
    · obtain ⟨hone, hc⟩ := hdone
      rw [hone]
      refine (post_finish_complete htaken hstream hc ha text).mono fun result t hresult ↦ ?_
      obtain ⟨s, hs, hcalls, ht⟩ := hresult
      have hs' := hstaged.trans hs hstream
      have hop := hs'.session_eq hstream
      cases result with
      | error e =>
        obtain ⟨rfl, hhistory⟩ := ht
        exact ⟨w, h, rfl, rfl, hs', hhistory⟩
      | ok _ =>
        obtain ⟨rfl, hhistory⟩ := ht
        refine ⟨h.move (.complete hstream hs' he hone hc ?_ hhistory _), fun other ho hne ↦ ?_⟩
        · rw [hcalls, hop.2]
          exact Native.bridge_calls (h.1.opNative stream hstream) .take
        · exact List.mem_filter.mpr ⟨hs'.unseen.operations.symm ▸ ho, by simpa using hne⟩
    · have hr := (htaken.opSession stream hstream).1
      have hfailed : (!false && ((w.state.op stream).cancelRequested || e.kind == 3)) = true ∨
          e.kind ≠ 1 := by
        by_cases hone : e.kind = 1
        · exact .inl (by simpa [hone] using hdone)
        · exact .inr hone
      refine (post_finish_failed (w := w.taken id) hstream (htaken.sessionSpare _ hr)
        (htaken.handle_live hr) hfailed text a).mono fun result t hresult ↦ ?_
      obtain ⟨hok, event, hevent, -, ht⟩ := hresult
      subst hok ht
      refine ⟨h.move (.release hstream hstaged (fun _ ↦ rfl) _ hevent), fun other ho hne ↦ ?_⟩
      exact List.mem_filter.mpr ⟨ho, by simpa using hne⟩

theorem Reached.pumpEvent (h : Reached rt harmless w₀ w) (hstream : stream ∈ w.state.operations)
    {a : PumpAnswers} (ha : harmless → Honest rt a) :
    Post (pumpEvent rt stream (w.state.op stream).native a) w
      (Pumped rt harmless w₀ stream w.state.operations) := by
  have hknown := h.1.opNative stream hstream
  rw [Worker.pumpEvent, post_bind]
  refine (post_take hknown).mpr ?_
  cases he : (Bridge.operationTake (w.state.native.operation (w.state.op stream).native)).2 with
  | none =>
    refine ⟨h.move (.discard hstream fun e he' ↦ ?_), fun _ ho _ ↦ ho⟩
    cases he.symm.trans he'
  | some e =>
    have hqueue : e ∈ (w.state.native.operation (w.state.op stream).native).queue := by
      unfold Bridge.operationTake at he
      split at he
      · cases he
      · next hq =>
        obtain rfl := Option.some.inj he
        rw [hq]
        exact List.mem_cons_self
    have hlabel : e.id = (w.state.op stream).native := by
      rw [h.1.machine _ hknown] at hqueue
      exact Bridge.labelled _ _ e hqueue
    refine (post_bind ..).mpr ((post_readEvent h.1 hlabel).mono fun result t ⟨ht, hresult⟩ ↦ ?_)
    subst ht hresult
    cases htext : utf8Decode (e.text.takeWhile (· ≠ 0)) with
    | none => exact ⟨w, h, rfl, rfl, .taken h.1, fun _ ↦ rfl⟩
    | some text => exact h.deliver hstream ha he htext

theorem Staged.refl (hw : Consistent w.state) : Staged w.state stream w.state :=
  .of_native ⟨rfl, rfl, rfl, rfl, rfl, fun _ _ ↦ rfl, fun _ _ ↦ ⟨rfl, rfl⟩, hw.backpressure, le_rfl,
    fun _ ↦ rfl, rfl, rfl, rfl, hw.machine⟩ rfl fun _ _ ↦ ⟨rfl, rfl⟩

structure Live (rt : Runtime) (harmless : Prop) (w₀ : NativeWorker) (stream native : ℕ)
    (operations : List ℕ) (w : NativeWorker) : Prop where
  reached : Reached rt harmless w₀ w
  native : (w.state.op stream).native = native
  operations : w.state.operations = operations

section Live

variable {native : ℕ} {operations : List ℕ}

theorem Live.bind (h : Live rt harmless w₀ stream native operations w) {m : M α}
    (hm : Keeps (Live rt harmless w₀ stream native operations) m) {f : α → M Unit}
    (hf : ∀ a t, Live rt harmless w₀ stream native operations t →
      Post (f a) t (Pumped rt harmless w₀ stream operations)) :
    Post (m >>= f) w (Pumped rt harmless w₀ stream operations) := by
  rw [post_bind]
  refine (hm w h).mono fun result t ht ↦ ?_
  cases result with
  | error e => exact ⟨t, ht.reached, ht.operations, rfl, .refl ht.reached.1, fun _ ↦ rfl⟩
  | ok a => exact hf a t ht

theorem Live.callbacks (cs : List Callback) :
    Keeps (Live rt harmless w₀ stream native operations) (callbacks cs) := by
  intro w h
  simp only [Worker.callbacks, modifyNative, post_update]
  exact ⟨h.reached.callbacks cs, h.native, h.operations⟩

theorem Live.cancel (hstream : stream ∈ operations) (overflow : Bool) :
    Keeps (Live rt harmless w₀ stream native operations) (cancel stream overflow) := by
  intro w h
  have hstream' : stream ∈ w.state.operations := h.operations.symm ▸ hstream
  refine (post_cancel h.reached.1 hstream' overflow).mono fun result t ⟨_, ht⟩ ↦ ?_
  subst ht
  cases hc : (w.state.op stream).cancelRequested with
  | true => exact h
  | false =>
    rw [if_neg (by simp)]
    refine ⟨(h.reached.move (.cancel hstream' hc overflow)).move (.quiet (.setPhase ..)), ?_,
      h.operations⟩
    simpa [State.setPhase, State.cancel] using h.native

theorem Live.pumpBody (h : Live rt harmless w₀ stream (w.state.op stream).native operations w)
    (hstream : stream ∈ operations) {a : PumpAnswers} (ha : harmless → Honest rt a) :
    Post (pumpBody rt stream a) w (Pumped rt harmless w₀ stream operations) := by
  have hevent (t : NativeWorker)
      (ht : Live rt harmless w₀ stream (w.state.op stream).native operations t) :
      Post (do
        Worker.callbacks a.beforeTake
        pumpEvent rt stream (w.state.op stream).native a) t
        (Pumped rt harmless w₀ stream operations) := by
    refine ht.bind (.callbacks _) fun _ u hu ↦ ?_
    have hpost := hu.reached.pumpEvent (hu.operations.symm ▸ hstream) ha
    rwa [hu.native, hu.operations] at hpost
  rw [Worker.pumpBody, post_read_bind]
  refine h.bind (.callbacks _) fun _ t ht ↦ ht.bind (.map .get _) fun overflow t ht ↦ ?_
  refine ht.bind (.when fun _ ↦ .cancel hstream true) fun _ t ht ↦ ?_
  rw [post_read_bind, ht.native]
  have hopen (open? : Bool) (t : NativeWorker)
      (ht : Live rt harmless w₀ stream (w.state.op stream).native operations t) :
      Post (if open? then do
          Worker.callbacks a.beforeTake
          pumpEvent rt stream (w.state.op stream).native a
        else pure ()) t (Pumped rt harmless w₀ stream operations) := by
    cases open? with
    | true => exact hevent t ht
    | false => exact ⟨ht.reached, fun _ ho _ ↦ ht.operations.symm ▸ ho⟩
  dsimp only
  split_ifs
  · refine ht.bind (.callbacks _) fun _ t ht ↦ ht.bind (.map .get _) fun open? t ht ↦ ?_
    exact hopen open? t ht
  · exact hopen true t ht

/-- One pass through the loop of `_pump` never throws. -/
theorem Live.pumpOne (h : Live rt harmless w₀ stream (w.state.op stream).native operations w)
    (hstream : stream ∈ operations) {a : PumpAnswers} (ha : harmless → Honest rt a) :
    Post (pumpOne rt a stream) w fun result t ↦ result = .ok () ∧
      Reached rt harmless w₀ t ∧ ∀ other ∈ operations, other ≠ stream →
        other ∈ t.state.operations := by
  rw [Worker.pumpOne, post_tryCatch]
  refine (h.pumpBody hstream ha).mono fun result t ht ↦ ?_
  cases result with
  | ok _ => exact ⟨rfl, ht⟩
  | error e =>
    obtain ⟨u, hu, hops, hsent, hstaged, hhistory⟩ := ht
    have hstream' : stream ∈ u.state.operations := hops.symm ▸ hstream
    have hw := hu.1.unseen hstaged.unseen
    have htstream : stream ∈ t.state.operations := hstaged.unseen.operations.symm ▸ hstream'
    refine (post_bind ..).mpr ((post_cancel hw htstream false).mono fun result v ⟨hok, hv⟩ ↦ ?_)
    subst hok
    have hcancelled : Staged u.state stream v.state ∧ v.sent = u.sent ∧
        (harmless → (v.state.session (v.state.op stream).session).history =
          (u.state.session (v.state.op stream).session).history) := by
      subst hv
      split_ifs
      · exact ⟨hstaged, hsent, hhistory⟩
      · have hown := Staged.cancelled hw htstream false .cancelRequested
        refine ⟨hstaged.trans hown hstream', hsent, fun hg ↦ ?_⟩
        rw [(hown.session_eq htstream).1]
        simpa [State.setPhase, State.cancel] using hhistory hg
    obtain ⟨hs, hsent', hhistory'⟩ := hcancelled
    have hvstream : stream ∈ v.state.operations := hs.unseen.operations.symm ▸ hstream'
    rw [post_read_bind]
    refine (post_finish_dropped (hu.1.unseen hs.unseen) hvstream (by decide) _ a).mono
      fun result x ⟨hok, phase, e, he, _, hx⟩ ↦ ⟨hok, ?_⟩
    rw [hx, hsent']
    refine ⟨hu.move (.release hstream' hs hhistory' phase he), fun other ho hne ↦ ?_⟩
    refine List.mem_filter.mpr ⟨?_, by simpa using hne⟩
    rw [hs.unseen.operations, hops]
    exact ho

end Live

theorem Reached.pump (a : ℕ → PumpAnswers)
    (ha : harmless → ∀ stream, Honest rt (a stream)) (h : Reached rt harmless w₀ w) :
    Post (pump rt a) w fun result t ↦ result = .ok () ∧ Reached rt harmless w₀ t := by
  have hloop (streams : List ℕ) : streams.Nodup → ∀ {w}, Reached rt harmless w₀ w →
      (∀ stream ∈ streams, stream ∈ w.state.operations) →
      Post (forEach streams fun stream ↦ pumpOne rt (a stream) stream) w fun result t ↦
        result = .ok () ∧ Reached rt harmless w₀ t := by
    induction streams with
    | nil => exact fun _ _ h _ ↦ ⟨rfl, h⟩
    | cons stream streams ih =>
      intro hnodup w h hmem
      obtain ⟨hnew, hnodup⟩ := List.nodup_cons.mp hnodup
      rw [forEach, post_bind]
      refine (Live.pumpOne ⟨h, rfl, rfl⟩ (hmem stream (by simp)) fun hg ↦ ha hg stream).mono
        fun result t ⟨hok, ht, hothers⟩ ↦ ?_
      subst hok
      refine ih hnodup ht fun other ho ↦ hothers other (hmem other (by simp [ho])) ?_
      rintro rfl
      exact hnew ho
  rw [Worker.pump, post_read_bind, post_bind]
  refine (hloop _ h.1.nodup h fun _ ho ↦ ho).mono fun result t ⟨hok, ht⟩ ↦ ?_
  subst hok
  rw [post_read_bind]
  split_ifs
  · exact ⟨rfl, ht.quiet rfl { Quiet.refl t.state with }⟩
  · exact ⟨rfl, ht⟩

end LibLitertLm.Worker
