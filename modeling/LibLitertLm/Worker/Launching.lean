import LibLitertLm.Worker.Disposal

namespace LibLitertLm.Worker

open Code
open Bridge (Call CString)

variable {rt : Runtime} {harmless : Prop} {w₀ w t : NativeWorker} {r : ℕ}

/-- The state in which `_generate` throws before there is an operation: no
operation runs on the session, unless that is what it complains about. -/
def Refused (s : State) (r : ℕ) (e : Thrown) : Prop :=
  (s.session r).streamId = none ∨ e = .failure (.disposed "Session is closed") ∨
    ∃ other, (s.session r).streamId = some other ∧
      e = .failure (.busy "Only one generation may run per session")

theorem Ready.rebuild {engine : NativeEngine} {messages : List Message}
    (h : Ready rt harmless w₀ r engine.pointer w) (hc : (w.state.session r).conversation = true)
    (hbatch : 1 < messages.length) (a : OpenAnswers) :
    Post (do
      deleteHandle r
      Worker.openSession r engine (some ((w.state.session r).history ++ messages.dropLast)) a) w
      fun result t ↦ match result with
        | .ok _ => t.sent = w.sent ∧ Prepared w.state r messages t.state
        | .error _ => Ready rt harmless w₀ r engine.pointer t := by
  have hw := h.1.1
  have hr := h.2.known
  have hop (stream : ℕ) (hstream : stream ∈ w.state.operations) :
      (w.state.op stream).session ≠ r := by
    rintro rfl
    have hid := (hw.opSession stream hstream).2.1
    rw [h.2.streamId] at hid
    cases hid
  refine (post_bind ..).mpr ((post_deleteHandle (hw.sessionSpare r hr) (hw.handle_live hr)).mono
    fun result t ⟨hok, ht⟩ ↦ ?_)
  subst hok ht
  have hdrop : Reached rt harmless w₀ ⟨w.state.drop r, w.sent⟩ := h.1.move (.drop hr hop)
  have hself : (w.state.drop r).session r = { w.state.session r with chat := none, raw := none } :=
    Function.update_self ..
  have hidle : Idle r engine.pointer (w.state.drop r) :=
    ⟨hr, by rw [hself]; exact h.2.streamId, by rw [hself]; exact h.2.engine⟩
  have hlive := hidle.live (w := ⟨w.state.drop r, w.sent⟩) hdrop.1
  refine (Opens.post_openSession hdrop.1.scratch hlive (by rw [hself]) (by rw [hself]) _ a).mono
    fun result t ht ↦ ?_
  rw [show (NativeWorker.state ⟨w.state.drop r, w.sent⟩).session r = _ from hself] at ht
  cases result with
  | error e =>
    obtain ⟨hsent, hq⟩ := Quiet.of_scratch ht
      (fun _ ↦ by rw [hself]; exact NativeSession.opened_core rfl rfl _)
      fun _ hstream ↦ by rw [hself]; exact hstream
    refine ⟨hdrop.quiet hsent hq, hq.sessions ▸ hr, ?_, ?_⟩
    · rw [ht.session, NativeWorker.setSession_session]
      exact h.2.streamId
    · rw [ht.session, hq.pointers, NativeWorker.setSession_session]
      exact h.2.engine
  | ok _ =>
    obtain ⟨p, hbelow, -, ht⟩ := ht
    obtain ⟨next, setters, hnext, hnew, rfl⟩ := ht.below
    exact ⟨rfl, .rebuild hc hbatch h.2.engine (hw.fresh p hbelow) hnext hnew⟩

theorem validateModalities_ne_nil {engine : NativeEngine} {messages : List Message}
    (h : validateModalities rt engine messages true = .ok ()) : messages ≠ [] := by
  rintro rfl
  cases h

theorem Reached.prepare (h : Reached rt harmless w₀ w) (r : ℕ) (input : Input)
    (a : GenerateAnswers) :
    Post (prepare rt r input a) w fun result t ↦ match result with
      | .ok messages => ∃ u, Reached rt harmless w₀ u ∧ r ∈ u.state.sessions ∧
          (u.state.session r).streamId = none ∧ t.sent = u.sent ∧
          Prepared u.state r messages t.state
      | .error e => Reached rt harmless w₀ t ∧ Refused t.state r e ∧
          (r ∈ w.state.sessions → r ∈ t.state.sessions) := by
  rw [Worker.prepare, post_bind]
  refine post_findSession (fun hr ↦ ?_) ⟨h, .inr (.inl rfl), fun h ↦ h⟩
  dsimp only
  split_ifs with hbusy
  · obtain ⟨other, hother⟩ := Option.isSome_iff_exists.mp hbusy
    exact ⟨h, .inr (.inr ⟨other, hother, rfl⟩), fun h ↦ h⟩
  · have hid : (w.state.session r).streamId = none := by simpa using hbusy
    rw [post_bind]
    refine post_findEngine (fun engine he ↦ ?_) fun e ↦ ⟨h, .inl hid, fun h ↦ h⟩
    refine Still.post_bind (still_dart _) (fun messages ↦ ?_) fun e ↦ ⟨h, .inl hid, fun h ↦ h⟩
    refine (post_bind ..).mpr ((post_lift _).mpr ?_)
    cases hvalid : validateModalities rt engine messages true with
    | error e => exact ⟨h, .inl hid, fun h ↦ h⟩
    | ok _ =>
      have hready : Ready rt harmless w₀ r engine.pointer w := ⟨h, hr, hid, mem_pointers he⟩
      refine (post_bind ..).mpr ((hready.ensureOpen a.openAnswers).mono fun result t hresult ↦ ?_)
      obtain ⟨ht, hopen⟩ := hresult
      cases result with
      | error e => exact ⟨ht.1, .inl ht.2.streamId, fun _ ↦ ht.2.known⟩
      | ok _ =>
        have hh := hopen (.inl rfl)
        refine (post_bind ..).mpr ((ht.budget messages _ a.budget).mono fun result u hresult ↦ ?_)
        obtain ⟨hu, hh'⟩ := hresult
        cases result with
        | error e => exact ⟨hu.1, .inl hu.2.streamId, fun _ ↦ hu.2.known⟩
        | ok budget =>
          dsimp only
          split_ifs
          · exact ⟨hu.1, .inl hu.2.streamId, fun _ ↦ hu.2.known⟩
          · rw [post_read_bind, when]
            split_ifs with hbatch
            · simp only [Bool.and_eq_true, decide_eq_true_eq] at hbatch
              refine (post_bind ..).mpr ((hu.rebuild hbatch.1 hbatch.2 a.rebuild).mono
                fun result v hv ↦ ?_)
              cases result with
              | error e => exact ⟨hv.1, .inl hv.2.streamId, fun _ ↦ hv.2.known⟩
              | ok _ => exact ⟨u, hu.1, hu.2.known, hu.2.streamId, hv.1, hv.2⟩
            · refine ⟨u, hu.1, hu.2.known, hu.2.streamId, rfl,
                .reuse (hh' hh) (fun hc ↦ ?_) (validateModalities_ne_nil hvalid)⟩
              simpa [hc] using hbatch

def Native.start (n : Native) (id : ℕ) (pointer : Option ℕ) (message : Message) (status : ℤ)
    (error : Option CString) : Native :=
  if status = 0 then (n.bridge id .start).send pointer id message
  else (n.bridge id .start).bridge id (.startFailed error)

def State.start (s : State) (stream : ℕ) (status : ℤ) (error : Option CString) : State :=
  { s with
    native := s.native.start (s.op stream).native (s.session (s.op stream).session).handle
      ((s.op stream).messages.getLast?.getD []) status error }

/-- How `_generate` and the listener around it begin to serve a stream: it is
launched, or it gets an error, before an operation is made for it or after. -/
inductive Generated (rt : Runtime) (harmless : Prop) (stream r : ℕ) :
    NativeWorker → NativeWorker → Prop
  | launch {w : NativeWorker} {s : State} {skip : ℕ} {messages : List Message} (status : ℤ)
    (error : Option CString) (hr : r ∈ w.state.sessions)
    (hidle : (w.state.session r).streamId = none) (hs : Prepared w.state r messages s)
    (hid : s.native.operationId skip ≠ 0) :
    Generated rt harmless stream r w
      ⟨(s.launch stream r skip messages).start stream status error, w.sent⟩
  | abort {w : NativeWorker} {skip : ℕ} {messages : List Message} {e : Thrown}
    (hr : r ∈ w.state.sessions) (hh : (w.state.session r).handle ≠ none)
    (hidle : (w.state.session r).streamId = none) (hid : w.state.native.operationId skip ≠ 0) :
    Generated rt harmless stream r w
      (emit ((w.state.launch stream r skip messages).retire stream .ready) w.sent stream
        (.error (e.toFailure rt)))
  | refuse {w : NativeWorker} {e : Thrown} (he : Refused w.state r e) :
    Generated rt harmless stream r w (emit w.state w.sent stream (.error (e.toFailure rt)))

/-- What the request of a launched operation leaves: the native library has been
asked, or an allocation failed and at most an input was leaked. -/
def Requested (b : NativeWorker) (stream : ℕ) (a : GenerateAnswers) (result : Except Thrown Unit)
    (t : NativeWorker) : Prop :=
  match result with
  | .ok _ => Scratch ⟨b.state.start stream a.status a.startError, b.sent⟩
      (b.state.start stream a.status a.startError).native.live t
  | .error _ => ((b.state.session (b.state.op stream).session).conversation = true →
      a.message = false) ∧ ∃ live, Scratch b live t ∧ (live = b.state.native.live ∨
      ∃ p, b.state.native.live p = none ∧
        live = Function.update b.state.native.live p (some .inputData))

theorem Native.bridge_after (n : Native) (id : ℕ) (c : Call) (next : ℕ) (setters : List Setter)
    (live : ℕ → Option Resource) :
    (n.after next setters live).bridge id c = (n.bridge id c).after next setters live := by
  by_cases h : id ∈ n.registry <;> simp [Native.bridge, Native.after, h]

theorem Native.bridge_valid (n : Native) (id : ℕ) (c : Call) (pointer : Option ℕ)
    (kind : Resource → Bool) : (n.bridge id c).valid pointer kind = n.valid pointer kind := by
  rw [valid, (n.bridge_spec id c).2.1, valid]

theorem post_start {id : ℕ} {pointer : Option ℕ} {kind : Resource → Bool}
    (hknown : id ∈ w.state.native.registry) (hnew : w.state.native.operation id = {})
    (hvalid : w.state.native.valid pointer kind = true) (message : Message) (a : GenerateAnswers)
    {Q : Except Thrown Unit → NativeWorker → Prop} :
    Post (start id pointer kind message a) w Q ↔ Q (.ok ()) ⟨{ w.state with
      native := w.state.native.start id pointer message a.status a.startError }, w.sent⟩ := by
  have hcontains : w.state.native.registry.contains id = true := by simpa using hknown
  have hvalid' : (w.state.native.bridge id .start).valid pointer kind = true := by
    rw [Native.bridge_valid, hvalid]
  have hstart : (Bridge.start (w.state.native.operation id)).2 = true := by rw [hnew]; rfl
  rw [Worker.start, post_read_bind, post_read_bind, post_bind, bridge, modifyNative, post_update]
  dsimp only
  rw [if_pos (by rw [hcontains, hstart]; rfl), post_bind, post_use_of_valid hvalid', Native.start]
  dsimp only
  split_ifs
  · rw [modifyNative, post_update]
  · rw [bridge, modifyNative, post_update]

theorem Native.send_session {n : Native} {p q : ℕ} (h : n.live p = some (.session q)) (id : ℕ)
    (message : Message) : n.send (some p) id message = n := by
  have hself : (n.live p).map (Resource.send id message) = n.live p := by
    rw [h]
    rfl
  simp only [send, hself, Function.update_eq_self]

theorem Resource.send_kind (id : ℕ) (message : Message) (res : Resource) :
    (res.send id message).kind = res.kind := by
  cases res <;> rfl

theorem Unseen.send {s : State} (hs : Consistent s) (pointer : Option ℕ) (id : ℕ)
    (message : Message) : Unseen s { s with native := s.native.send pointer id message } := by
  refine .of_native hs rfl (fun p ↦ ?_) rfl rfl rfl hs.machine
  cases pointer with
  | none => rfl
  | some q =>
    by_cases h : p = q
    · subst h
      simp only [Native.send, Function.update_self, Option.map_map]
      congr 1
      funext res
      exact Resource.send_kind ..
    · simp only [Native.send, Function.update_of_ne h]

theorem Unseen.start {s : State} (hs : Consistent s) (stream : ℕ) (status : ℤ)
    (error : Option CString) : Unseen s (s.start stream status error) := by
  have hstart := Unseen.bridge hs (s.op stream).native .start
  rw [State.start, Native.start]
  split_ifs
  · exact hstart.trans (.send (hs.unseen hstart) _ _ _)
  · exact hstart.trans (.bridge (hs.unseen hstart) _ _)

theorem Native.start_session {n : Native} {p q : ℕ} (h : n.live p = some (.session q)) (id : ℕ)
    (message : Message) (status : ℤ) (error : Option CString) :
    n.start id (some p) message status error =
      if status = 0 then n.bridge id .start else (n.bridge id .start).bridge id
        (.startFailed error) := by
  have hlive : (n.bridge id .start).live p = some (.session q) := by
    rw [(n.bridge_spec id .start).2.1, h]
  rw [Native.start, Native.send_session hlive]

theorem Native.start_after {n : Native} {p q next : ℕ} {setters : List Setter}
    {live : ℕ → Option Resource} (h : n.live p = some (.session q))
    (h' : live p = some (.session q)) (id : ℕ) (message : Message) (status : ℤ)
    (error : Option CString) :
    (n.after next setters live).start id (some p) message status error =
      (n.start id (some p) message status error).after next setters live := by
  rw [start_session h, start_session (n := n.after next setters live) h']
  split_ifs <;> simp only [bridge_after]

theorem Native.start_keeps {n : Native} {p q : ℕ} (h : n.live p = some (.session q)) (id : ℕ)
    (message : Message) (status : ℤ) (error : Option CString) :
    (n.start id (some p) message status error).next = n.next ∧
      (n.start id (some p) message status error).live = n.live := by
  rw [start_session h]
  split_ifs
  · exact ⟨(n.bridge_spec ..).1, (n.bridge_spec ..).2.1⟩
  · exact ⟨((bridge_spec ..).1).trans (n.bridge_spec ..).1,
      ((bridge_spec ..).2.1).trans (n.bridge_spec ..).2.1⟩

theorem post_request {stream : ℕ} (hw : Consistent w.state) (hstream : stream ∈ w.state.operations)
    (hnew : w.state.native.operation (w.state.op stream).native = {}) (a : GenerateAnswers) :
    Post (request (w.state.session (w.state.op stream).session) (w.state.op stream).native
      ((w.state.op stream).messages.getLast?.getD []) a) w (Requested w stream a) := by
  have hknown := hw.opNative stream hstream
  have hstarted := (hw.unseen (.start hw stream a.status a.startError)).fresh
  have hsame : Scratch w w.state.native.live w := hw.scratch
  obtain ⟨p, hp, res, hres, q, hown⟩ := hw.holds hstream
  rcases Bool.eq_false_or_eq_true a.message with hmessage | hmessage
  swap
  · rw [request, hmessage]
    exact ⟨fun _ ↦ hmessage, _, hsame, .inl rfl⟩
  rw [request, hmessage]
  refine (post_bind ..).mpr ((post_pure _).mpr ?_)
  have hstate : w.state.start stream a.status a.startError = { w.state with
      native := w.state.native.start (w.state.op stream).native (some p)
        ((w.state.op stream).messages.getLast?.getD []) a.status a.startError } := by
    rw [State.start, hp]
  have hhandle := hp
  unfold NativeSession.handle at hhandle
  cases hc : (w.state.session (w.state.op stream).session).conversation with
  | true =>
    rw [hc, if_pos rfl] at hhandle
    rw [if_pos rfl, hhandle]
    have hvalid : w.state.native.valid (some p) Resource.isConversation = true := by
      cases res <;> simp_all [Native.valid, NativeSession.owns, Resource.isConversation]
    refine (post_start hknown hnew hvalid _ a).mpr ?_
    rw [Requested, hstate]
    exact Scratch.refl (hstate ▸ hstarted)
  | false =>
    rw [hc, if_neg (by simp)] at hhandle
    rw [if_neg (by simp), hhandle]
    obtain ⟨owner, rfl⟩ : ∃ owner, res = .session owner := by
      cases res <;> simp_all [NativeSession.owns]
    refine (post_bind ..).mpr ((hsame.post_create a.inputData .inputData).mono fun result t ht ↦ ?_)
    rcases result with _ | _ | input
    · exact ht.elim
    · exact (post_bind ..).mpr (post_checkPointer
        (fun _ _ ↦ ⟨by simp [hc], _, ht, .inl rfl⟩) (by simp))
    · obtain ⟨-, hnone, ht⟩ := ht
      refine (post_bind ..).mpr (post_checkPointer (by simp) fun _ ↦ ?_)
      dsimp only
      split_ifs
      · exact ⟨by simp [hc], _, ht, .inr ⟨input, hnone, rfl⟩⟩
      · have hinput := Function.update_self input (some Resource.inputData) w.state.native.live
        have hne : p ≠ input := by
          rintro rfl
          cases hres.symm.trans hnone
        have hraw : Function.update w.state.native.live input (some .inputData) p =
            some (.session owner) := by
          rw [Function.update_of_ne hne]
          exact hres
        refine (post_tryFinally ..).mpr ((post_bind ..).mpr ?_)
        refine (post_use_of_valid (ht.valid hinput (show isInput .inputData = true from rfl))).mpr
          ?_
        have hvalid := ht.valid hraw (show Resource.isSession (.session owner) = true from rfl)
        obtain ⟨next, setters, rfl, hnext, hfresh⟩ := ht
        refine (post_start (w := w.after next setters _) hknown hnew hvalid _ a).mpr ?_
        rw [show (w.after next setters _).state.native =
          w.state.native.after next setters _ from rfl,
          Native.start_after hres hraw]
        refine (post_delete hinput (show isInput .inputData = true from rfl)).mpr ?_
        rw [Requested, hstate]
        obtain ⟨hnext', hlive⟩ := Native.start_keeps hres (w.state.op stream).native
          ((w.state.op stream).messages.getLast?.getD []) a.status a.startError
        refine ⟨next, setters, ?_, hnext'.le.trans hnext, fun p' hp' ↦ ?_⟩
        · simp only [NativeWorker.after, Native.after, Function.update_idem]
          rw [← hnone, Function.update_eq_self, hlive]
        · rw [hlive]
          exact hw.fresh p' (hnext.trans hp')

theorem Prepared.spec {s s' : State} {messages : List Message} (h : Prepared s r messages s') :
    s'.sessions = s.sessions ∧ s'.flags = s.flags ∧ (s'.session r).handle ≠ none ∧
      (s'.session r).streamId = (s.session r).streamId ∧
      (s'.session r).conversation = (s.session r).conversation := by
  cases h with
  | reuse hh => exact ⟨rfl, rfl, hh, rfl, rfl⟩
  | @rebuild p q next setters =>
    have hself : ((s.drop r).give r ((s.session r).opened ((s.session r).history ++
        messages.dropLast) (some p)) p next setters ((s.session r).resource q
        ((s.session r).history ++ messages.dropLast))).session r =
        (s.session r).opened ((s.session r).history ++ messages.dropLast) (some p) :=
      Function.update_self ..
    rw [hself, NativeSession.opened_handle]
    exact ⟨rfl, rfl, by simp, rfl, rfl⟩

theorem Generated.consistent {stream : ℕ} (h : Generated rt harmless stream r w t)
    (hw : Consistent w.state) : Consistent t.state := by
  cases h with
  | @launch s skip messages status error hr hidle hs hid =>
    obtain ⟨hsessions, -, hh, hstream, -⟩ := hs.spec
    have hlaunch : Consistent (s.launch stream r skip messages) :=
      (hw.prepared hr hidle hs).launch (hsessions ▸ hr) hh (hstream.trans hidle) hid
    exact hlaunch.unseen (.start hlaunch stream status error)
  | @abort skip messages e hr hh hidle hid =>
    have hlaunch : Consistent (w.state.launch stream r skip messages) := hw.launch hr hh hidle hid
    refine hlaunch.retire ?_ .ready
    simp only [State.launch]
    split_ifs with hmem
    · exact hmem
    · simp
  | refuse => exact hw

theorem Native.operationCreate_after (n : Native) (skip next : ℕ) (setters : List Setter)
    (live : ℕ → Option Resource) : (n.after next setters live).operationCreate skip =
      (n.operationCreate skip).after next setters live := by
  have hid : (n.after next setters live).operationId skip = n.operationId skip := rfl
  simp only [Native.operationCreate, hid]
  split_ifs <;> rfl

theorem Native.operationCreate_spec (n : Native) (skip : ℕ) :
    (n.operationCreate skip).live = n.live ∧ (n.operationCreate skip).next = n.next := by
  by_cases h : n.operationId skip = 0 <;> simp [operationCreate, h]

/-- Native work that is of no use, and an input that may be left from it. -/
theorem Reached.waste (h : Reached rt harmless w₀ w) {live : ℕ → Option Resource} {next : ℕ}
    {setters : List Setter}
    (hlive : live = w.state.native.live ∨ ∃ p, w.state.native.live p = none ∧
      live = Function.update w.state.native.live p (some .inputData))
    (hnext : w.state.native.next ≤ next) (hfresh : ∀ p, next ≤ p → live p = none) :
    Reached rt harmless w₀ (w.after next setters live) := by
  rcases hlive with rfl | ⟨p, hp, rfl⟩
  · exact h.scratch ⟨next, setters, rfl, hnext, hfresh⟩
  · have hbelow : p < next := by
      by_contra hge
      simpa using hfresh p (not_lt.mp hge)
    have hleak := h.move (.leak hp hnext hbelow)
    exact hleak.scratch ⟨next, setters, rfl, le_rfl, hfresh⟩

def Served (rt : Runtime) (harmless : Prop) (w₀ : NativeWorker) (stream r : ℕ) (t : NativeWorker) :
    Prop :=
  ∃ u v, Moves rt harmless w₀ u ∧ Consistent u.state ∧
    (r ∈ w₀.state.sessions → r ∈ u.state.sessions) ∧ Generated rt harmless stream r u v ∧
      Reached rt harmless v t

/-- Once the session is prepared, nothing but a missing number or message can
keep the request of a batch back. -/
theorem Reached.launch {u : NativeWorker} {stream : ℕ} {messages : List Message}
    {a : GenerateAnswers} (h : Reached rt harmless w₀ u) (hr : r ∈ u.state.sessions)
    (hidle : (u.state.session r).streamId = none) (hsent : t.sent = u.sent)
    (hs : Prepared u.state r messages t.state)
    (hbatch : harmless → (t.state.session r).conversation = true → 1 < messages.length →
      t.state.native.operationId a.skip ≠ 0 ∧ a.message = true) :
    Post (launch stream r messages a) t fun result v ↦ match result with
      | .ok _ => Served rt harmless w₀ stream r v
      | .error e => Served rt harmless w₀ stream r
          (emit v.state v.sent stream (.error (e.toFailure rt))) := by
  obtain ⟨hsessions, hflags, hh, hstream, hconv⟩ := hs.spec
  have htw : Consistent t.state := h.1.prepared hr hidle hs
  -- without a launch the new handle of a batch stays, which only bad answers bring about
  have hstay (hbad : harmless → (t.state.session r).conversation = true →
      messages.length ≤ 1) : Reached rt harmless w₀ t := by
    have hmove (hg : ¬ harmless) : Reached rt harmless w₀ ⟨t.state, u.sent⟩ :=
      h.move (.rebuild hg hr hidle hs)
    rw [← hsent] at hmove
    by_cases hg : harmless
    · obtain ⟨s, sent⟩ := t
      cases hs with
      | reuse =>
        obtain rfl : sent = u.sent := hsent
        exact h
      | rebuild hc hlong =>
        rw [hconv] at hbad
        exact absurd (hbad hg hc) (not_le.mpr hlong)
    · exact hmove hg
  rw [Worker.launch, post_read_bind, post_bind, modifyNative, post_update]
  dsimp only
  split_ifs with hid
  · have hout : Reached rt harmless w₀ t := hstay fun hg hc ↦ not_lt.mp fun hlong ↦
      (hbatch hg hc hlong).1 hid
    have hnone := hout.move (.exhaust t)
    have hcreate : t.state.native.operationCreate a.skip = { t.state.native with nextId := 0 } := by
      simp [Native.operationCreate, hid]
    rw [hcreate]
    exact ⟨_, _, hnone.2, hnone.1, fun _ ↦ hsessions ▸ hr, .refuse
      (e := .failure (.generationFailure "Native operation IDs exhausted"))
      (.inl (hstream.trans hidle)), .refl hnone.1⟩
  · have hb : Consistent (t.state.launch stream r a.skip messages) :=
      htw.launch (hsessions ▸ hr) hh (hstream.trans hidle) hid
    have hop : (t.state.launch stream r a.skip messages).op stream =
        { session := r, native := t.state.native.operationId a.skip, messages := messages } :=
      Function.update_self ..
    have hmem : stream ∈ (t.state.launch stream r a.skip messages).operations := by
      simp only [State.launch]
      split_ifs with hmem
      · exact hmem
      · simp
    have hnew : (t.state.launch stream r a.skip messages).native.operation
        (t.state.native.operationId a.skip) = {} := by
      simp [State.launch, Native.operationCreate, hid]
    have hrequest := post_request (w := ⟨t.state.launch stream r a.skip messages, t.sent⟩) hb hmem
      (by rw [hop]; exact hnew) a
    rw [hop] at hrequest
    refine (post_bind ..).mpr ((post_update _).mpr ((post_bind ..).mpr ((post_update _).mpr ?_)))
    refine (post_bind ..).mpr ((post_update _).mpr ((post_bind ..).mpr ((post_tryCatch _).mpr ?_)))
    dsimp only
    rw [post_read_bind]
    refine hrequest.mono fun result v hv ↦ ?_
    cases result with
    | ok _ =>
      have hlaunch : Generated rt harmless stream r u
          ⟨(t.state.launch stream r a.skip messages).start stream a.status a.startError, u.sent⟩ :=
        .launch a.status a.startError hr hidle hs hid
      rw [← hsent] at hlaunch
      have hv' : Reached rt harmless ⟨(t.state.launch stream r a.skip messages).start stream
          a.status a.startError, t.sent⟩ v :=
        (Reached.refl (hlaunch.consistent h.1)).scratch hv
      exact ⟨u, _, h.2, h.1, fun _ ↦ hr, hlaunch, hv'.quiet rfl { Quiet.refl v.state with }⟩
    | error e =>
      obtain ⟨hmessage, live, hv, hlive⟩ := hv
      have hout : Reached rt harmless w₀ t := hstay fun hg hc ↦ not_lt.mp fun hlong ↦ by
        have hkept : ((t.state.launch stream r a.skip messages).session r).conversation =
            (t.state.session r).conversation := by simp [State.launch]
        have hsent := hmessage (by rw [hop]; exact hkept.trans hc)
        rw [(hbatch hg hc hlong).2] at hsent
        cases hsent
      -- what was made in vain may as well have been made before the launch
      obtain ⟨next, setters, rfl, hnext, hfresh⟩ := hv
      obtain ⟨hlive', hnext'⟩ := t.state.native.operationCreate_spec a.skip
      dsimp only [State.launch] at hnext hlive
      rw [hlive'] at hlive
      rw [hnext'] at hnext
      have ht : Reached rt harmless w₀ (t.after next setters live) :=
        hout.waste hlive hnext hfresh
      have habort : Generated rt harmless stream r (t.after next setters live)
          (emit (((t.after next setters live).state.launch stream r a.skip messages).retire stream
            .ready) t.sent stream (.error (e.toFailure rt))) :=
        .abort (hsessions ▸ hr) hh (hstream.trans hidle) hid
      have hlaunch : (t.after next setters live).state.launch stream r a.skip messages =
          ((⟨t.state.launch stream r a.skip messages, t.sent⟩ : NativeWorker).after next setters
            live).state := by
        simp only [State.launch, NativeWorker.after, Native.operationCreate_after]
        rfl
      have hop' : ((⟨t.state.launch stream r a.skip messages, t.sent⟩ : NativeWorker).after next
          setters live).state.op stream =
          { session := r, native := t.state.native.operationId a.skip, messages := messages } := hop
      have hcons := habort.consistent ht.1
      rw [hlaunch, State.retire, hop'] at habort hcons
      exact ⟨_, _, ht.2, ht.1, fun _ ↦ hsessions ▸ hr, habort, .refl hcons⟩

/-- What must not go wrong in a `generate` command: a batch whose session has
been prepared gets its number and its last message, and the histories that the
pump reads are honest. -/
def GenerateHarmless (rt : Runtime) (w : NativeWorker) (r : ℕ) (input : Input)
    (a : GenerateAnswers) : Prop :=
  (Post (prepare rt r input a) w fun result t ↦ ∀ messages, result = .ok messages →
    (t.state.session r).conversation = true → 1 < messages.length →
      t.state.native.operationId a.skip ≠ 0 ∧ a.message = true) ∧
  ∀ stream, Honest rt (a.pump stream)

def submit (rt : Runtime) (stream sessionId : ℕ) (input : Input) (a : GenerateAnswers) :
    M Unit := do
  let messages ← prepare rt sessionId input a
  launch stream sessionId messages a

theorem generate_eq_submit (stream r : ℕ) (input : Input) (a : GenerateAnswers) :
    generate rt stream r input a = submit rt stream r input a >>= fun _ ↦ pump rt a.pump := by
  simp only [generate, submit, bind_assoc]

theorem Consistent.submit (hw : Consistent w.state) (stream r : ℕ) (input : Input)
    (a : GenerateAnswers) (ha : harmless → GenerateHarmless rt w r input a) :
    Post (submit rt stream r input a) w fun result t ↦ match result with
      | .ok _ => Served rt harmless w stream r t
      | .error e => Served rt harmless w stream r
          (emit t.state t.sent stream (.error (e.toFailure rt))) := by
  have hself : Reached rt harmless w w := .refl hw
  have hprepare := hself.prepare r input a
  have hbatch : Post (Worker.prepare rt r input a) w fun result t ↦ harmless →
      ∀ messages : List Message, result = .ok messages →
        (t.state.session r).conversation = true → 1 < messages.length →
          t.state.native.operationId a.skip ≠ 0 ∧ a.message = true :=
    fun hg ↦ (ha hg).1
  rw [Worker.submit, post_bind]
  refine (hprepare.and hbatch).mono fun result t ⟨ht, hbatch⟩ ↦ ?_
  cases result with
  | error e =>
    obtain ⟨hreached, hrefused, hknown⟩ := ht
    exact ⟨t, _, hreached.2, hreached.1, hknown, .refuse hrefused, .refl hreached.1⟩
  | ok messages =>
    obtain ⟨u, hu, hr, hidle, hsent, hs⟩ := ht
    exact hu.launch hr hidle hsent hs fun hg ↦ hbatch hg _ rfl

theorem Consistent.generate (hw : Consistent w.state) (stream r : ℕ) (input : Input)
    (a : GenerateAnswers) (ha : harmless → GenerateHarmless rt w r input a) :
    Post (generate rt stream r input a) w fun result t ↦ match result with
      | .ok _ => Served rt harmless w stream r t
      | .error e => Served rt harmless w stream r
          (emit t.state t.sent stream (.error (e.toFailure rt))) := by
  rw [generate_eq_submit, post_bind]
  refine (hw.submit stream r input a ha).mono fun result t ht ↦ ?_
  cases result with
  | error e => exact ht
  | ok _ =>
    obtain ⟨x, y, hmoves, hx, hknown, hgenerated, hy⟩ := ht
    refine (hy.pump a.pump fun hg ↦ (ha hg).2).mono fun result z ⟨hok, hz⟩ ↦ ?_
    subst hok
    exact ⟨x, y, hmoves, hx, hknown, hgenerated, hz⟩

end LibLitertLm.Worker
