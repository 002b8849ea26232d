import LibLitertLm.Worker.Moves

namespace LibLitertLm.Worker

open Code

variable {rt : Runtime} {harmless : Prop} {w₀ w t : NativeWorker}

/-- The worker is consistent and came from `w₀` by moves. -/
def Reached (rt : Runtime) (harmless : Prop) (w₀ w : NativeWorker) : Prop :=
  Consistent w.state ∧ Moves rt harmless w₀ w

theorem Reached.refl (hw : Consistent w.state) : Reached rt harmless w w := ⟨hw, .refl⟩

theorem Reached.move (h : Reached rt harmless w₀ w) (hm : Move rt harmless w t) :
    Reached rt harmless w₀ t :=
  ⟨hm.consistent rt h.1, h.2.tail hm⟩

theorem Reached.quiet (h : Reached rt harmless w₀ w) (hsent : t.sent = w.sent)
    (hq : Quiet w.state t.state) : Reached rt harmless w₀ t := by
  have hm : Move rt harmless w ⟨t.state, w.sent⟩ := .quiet hq
  rw [← hsent] at hm
  exact h.move hm

theorem Consistent.scratch (hw : Consistent w.state) : Scratch w w.state.native.live w :=
  .refl hw.fresh

/-- Native work that leaves nothing behind, together with changes of a session. -/
theorem Quiet.of_scratch {r : ℕ} {x : NativeSession}
    (h : Scratch (w.setSession r x) w.state.native.live t)
    (hx : r ∈ w.state.sessions → x.core = (w.state.session r).core)
    (hstream : ∀ stream, x.streamId = some stream →
      (w.state.session r).streamId = some stream) :
    t.sent = w.sent ∧ Quiet w.state t.state := by
  obtain ⟨next, setters, rfl, hnext, -⟩ := h
  refine ⟨rfl, rfl, rfl, rfl, rfl, rfl, fun r' hr' ↦ ?_, fun r' stream ↦ ?_, fun _ ↦ rfl, rfl,
    next, setters, hnext, rfl⟩
  · show NativeSession.core (Function.update w.state.session r x r') = _
    by_cases h : r' = r
    · subst h
      simpa using hx hr'
    · simp [h]
  · show NativeSession.streamId (Function.update w.state.session r x r') = _ → _
    by_cases h : r' = r
    · subst h
      simpa using hstream stream
    · simp [h]

theorem Reached.scratch (h : Reached rt harmless w₀ w) (hs : Scratch w w.state.native.live t) :
    Reached rt harmless w₀ t := by
  rw [← w.setSession_self 0] at hs
  obtain ⟨hsent, hq⟩ := Quiet.of_scratch hs (fun _ ↦ rfl) fun _ h ↦ h
  exact h.quiet hsent hq

theorem Reached.keeps_scratch {m : M α}
    (hm : ∀ w, Consistent w.state → Keeps (Scratch w w.state.native.live) m) :
    Keeps (Reached rt harmless w₀) m :=
  fun w h ↦ (hm w h.1 w h.1.scratch).mono fun _ _ ht ↦ h.scratch ht

theorem mem_of_lookup {α : Type} {l : List (ℕ × α)} {k : ℕ} {a : α} (h : l.lookup k = some a) :
    (k, a) ∈ l := by
  obtain ⟨l₁, l₂, rfl, -⟩ := List.lookup_eq_some_iff.mp h
  simp

theorem post_findEngine {id : ℕ} {Q : Except Thrown NativeEngine → NativeWorker → Prop}
    (hok : ∀ e, (id, e) ∈ w.state.engines → Q (.ok e) w) (herror : ∀ e, Q (.error e) w) :
    Post (findEngine id) w Q := by
  rw [findEngine, post_read_bind]
  cases h : w.state.engines.lookup id with
  | none => exact herror _
  | some e =>
    dsimp only
    split_ifs
    · exact herror _
    · exact hok e (mem_of_lookup h)

theorem mem_pointers {s : State} {id : ℕ} {e : NativeEngine} (h : (id, e) ∈ s.engines) :
    (id, e.pointer) ∈ s.pointers :=
  List.mem_map.mpr ⟨(id, e), h, rfl⟩

theorem post_findSession {id : ℕ} {Q : Except Thrown NativeSession → NativeWorker → Prop}
    (hok : id ∈ w.state.sessions → Q (.ok (w.state.session id)) w)
    (herror : Q (.error (.failure (.disposed "Session is closed"))) w) :
    Post (findSession id) w Q := by
  rw [findSession, post_read_bind, post_read_bind]
  split_ifs with h
  · exact herror
  · refine hok ?_
    simp only [Bool.or_eq_true, Bool.not_eq_true', not_or] at h
    simpa using h.1.1

structure Idle (r q : ℕ) (s : State) : Prop where
  known : r ∈ s.sessions
  streamId : (s.session r).streamId = none
  engine : ((s.session r).engineId, q) ∈ s.pointers

def Ready (rt : Runtime) (harmless : Prop) (w₀ : NativeWorker) (r q : ℕ)
    (w : NativeWorker) : Prop :=
  Reached rt harmless w₀ w ∧ Idle r q w.state

variable {r : ℕ} {engine : NativeEngine}

theorem Idle.live {q : ℕ} (h : Idle r q w.state) (hw : Consistent w.state) :
    w.state.native.live q = some .engine :=
  hw.engineLive _ _ h.engine

theorem Idle.pointer {q : ℕ} (h : Idle r q w.state) (hw : Consistent w.state)
    (he : ((w.state.session r).engineId, engine) ∈ w.state.engines) : engine.pointer = q :=
  congrArg Prod.snd (List.inj_on_of_nodup_map hw.engineIds (mem_pointers he) h.engine rfl)

theorem NativeSession.no_handle {x : NativeSession} (hchat : x.chat = none) (hraw : x.raw = none) :
    x.handle = none := by
  simp [handle, hchat, hraw]

theorem NativeSession.opened_core {x : NativeSession} (hchat : x.chat = none) (hraw : x.raw = none)
    (preface : List Message) : (x.opened preface none).core = x.core := by
  cases x
  simp_all [opened, core, handle]

theorem NativeSession.opened_handle (x : NativeSession) (preface : List Message) (p : ℕ) :
    (x.opened preface (some p)).handle = some p := by
  cases h : x.conversation <;> simp [opened, handle, h]

theorem Scratch.below {b : NativeWorker} {live : ℕ → Option Resource} {p : ℕ} {res : Resource}
    (h : Scratch b (Function.update live p (some res)) w) :
    ∃ next setters, b.state.native.next ≤ next ∧ p < next ∧
      w = b.after next setters (Function.update live p (some res)) := by
  obtain ⟨next, setters, rfl, hnext, hfresh⟩ := h
  refine ⟨next, setters, hnext, ?_, rfl⟩
  by_contra hp
  simpa using hfresh p (not_lt.mp hp)

theorem Ready.openSession (h : Ready rt harmless w₀ r engine.pointer w)
    (hchat : (w.state.session r).chat = none) (hraw : (w.state.session r).raw = none)
    (a : OpenAnswers) :
    Post (openSession r engine none a) w fun result t ↦ Ready rt harmless w₀ r engine.pointer t ∧
      (result = .ok () → (t.state.session r).handle ≠ none) := by
  obtain ⟨hreached, hidle⟩ := h
  have hw := hreached.1
  refine (Opens.post_openSession hw.scratch (hidle.live hw) hchat hraw none a).mono
    fun result t ht ↦ ?_
  cases result with
  | error e =>
    obtain ⟨hsent, hq⟩ := Quiet.of_scratch ht (fun _ ↦ NativeSession.opened_core hchat hraw _)
      fun _ hstream ↦ hstream
    refine ⟨⟨hreached.quiet hsent hq, hq.sessions ▸ hidle.known, ?_, ?_⟩, by simp⟩
    · rw [ht.session]
      simpa [NativeSession.opened] using hidle.streamId
    · rw [ht.session, hq.pointers]
      simpa [NativeSession.opened] using hidle.engine
  | ok _ =>
    obtain ⟨p, -, hp, ht⟩ := ht
    obtain ⟨next, setters, hnext, hbelow, rfl⟩ := ht.below
    refine ⟨⟨hreached.move (.give hidle.known (NativeSession.no_handle hchat hraw) hidle.engine hp
      hnext hbelow), hidle.known, ?_, ?_⟩, fun _ ↦ ?_⟩
    · rw [ht.session, NativeWorker.setSession_session]
      exact hidle.streamId
    · rw [ht.session, NativeWorker.setSession_session]
      exact hidle.engine
    · rw [ht.session, NativeWorker.setSession_session, NativeSession.opened_handle]
      simp

theorem NativeSession.handle_of_none {x : NativeSession}
    (h : ¬ (x.chat.isNone && x.raw.isNone) = true) (hspare : x.spare = none) : x.handle ≠ none := by
  unfold handle
  unfold spare at hspare
  cases hc : x.conversation <;> simp_all

theorem Ready.ensureOpen (h : Ready rt harmless w₀ r engine.pointer w) (a : OpenAnswers) :
    Post (ensureOpen r engine a) w fun result t ↦ Ready rt harmless w₀ r engine.pointer t ∧
      (result = .ok () ∨ (w.state.session r).handle ≠ none →
        (t.state.session r).handle ≠ none) := by
  rw [Worker.ensureOpen, post_read_bind, when]
  split_ifs with hnone
  · simp only [Bool.and_eq_true, Option.isNone_iff_eq_none] at hnone
    have hh := NativeSession.no_handle hnone.1 hnone.2
    refine (h.openSession hnone.1 hnone.2 a).mono fun result t ht ↦ ⟨ht.1, fun hor ↦ ?_⟩
    exact ht.2 (hor.resolve_right (by simp [hh]))
  · refine ⟨h, fun _ ↦ ?_⟩
    exact NativeSession.handle_of_none hnone (h.1.1.sessionSpare r h.2.known)

theorem Scratch.keeps_useHandle {b : NativeWorker} {live : ℕ → Option Resource} {x : NativeSession}
    {p q : ℕ} {res : Resource} (hx : x.handle = some p) (hp : live p = some res)
    (hres : x.owns q res) : Keeps (Scratch b live) (useHandle x) := by
  unfold useHandle
  unfold NativeSession.handle at hx
  cases hc : x.conversation with
  | true =>
    simp only [hc, if_true] at hx ⊢
    rw [hx]
    refine keeps_use hp ?_
    cases res <;> simp_all [NativeSession.owns, Resource.isConversation]
  | false =>
    simp only [hc, Bool.false_eq_true, if_false] at hx ⊢
    rw [hx]
    refine keeps_use hp ?_
    cases res <;> simp_all [NativeSession.owns, Resource.isSession]

theorem Scratch.keeps_query {b : NativeWorker} {live : ℕ → Option Resource} {p q : ℕ}
    {res : Resource} (hx : (b.state.session r).handle = some p) (hp : live p = some res)
    (hres : (b.state.session r).owns q res) (he : live engine.pointer = some .engine)
    (messages : List Message) (reserve : ℤ) (a : BudgetAnswers) :
    Keeps (Scratch b live) (query r engine messages reserve a) := by
  intro w hw
  rw [query, post_read_bind, hw.session]
  have huse := keeps_useHandle (b := b) hx hp hres
  refine Keeps.bind huse (fun _ ↦ .bind (.when fun _ ↦ .ite (fun _ ↦ ?_) fun _ ↦ ?_) fun _ ↦
    .bind (.when fun _ ↦ ?_) fun _ ↦ .bind (.when fun _ ↦ ?_) fun _ ↦ .pure _) w hw
  · exact .bind (still_nativeError _ _ _) fun _ ↦ still_fail _ _
  · exact .bind (still_decode _ _) fun _ ↦ still_fail _ _
  · exact .bind (still_utf8 _ _ _) fun _ ↦ .bind (keeps_use he rfl) fun _ ↦ huse
  · exact .bind (still_decode _ _) fun _ ↦ still_fail _ _

theorem post_delete {p : ℕ} {kind : Resource → Bool} {res : Resource}
    (hp : w.state.native.live p = some res) (hres : kind res = true)
    {Q : Except Thrown Unit → NativeWorker → Prop} :
    Post (delete (some p) kind) w Q ↔ Q (.ok ()) { w with state := { w.state with native :=
      { w.state.native with live := Function.update w.state.native.live p none } } } := by
  have hvalid : w.state.native.valid (some p) kind = true := by simp [Native.valid, hp, hres]
  simp only [delete, modifyNative, post_update, Native.delete, Native.use_of_valid hvalid]

theorem post_deleteHandle (hspare : (w.state.session r).spare = none)
    (hlive : ∀ p ∈ (w.state.session r).handle, ∃ res ∈ w.state.native.live p,
      ∃ q, (w.state.session r).owns q res) :
    Post (deleteHandle r) w fun result t ↦ result = .ok () ∧ t = ⟨w.state.drop r, w.sent⟩ := by
  rw [deleteHandle, post_read_bind, State.drop]
  generalize hx : w.state.session r = x at hspare hlive
  obtain ⟨engineId, params, conversation, history, initial, preface, chat, raw, phase, streamId,
    prefillTurns, decodeTurns, figures⟩ := x
  simp only [NativeSession.spare, NativeSession.handle] at hspare hlive ⊢
  have hself := Function.update_eq_self r w.state.session
  rw [hx] at hself
  cases conversation with
  | true =>
    obtain rfl : raw = none := hspare
    cases chat with
    | none =>
      rw [hself]
      exact ⟨rfl, rfl⟩
    | some p =>
      obtain ⟨res, hres, q, hown⟩ := hlive p rfl
      have hkind : res.isConversation = true := by
        cases res <;> simp_all [NativeSession.owns, Resource.isConversation]
      simp [when, post_delete hres hkind, modifySession, hx]
  | false =>
    obtain rfl : chat = none := hspare
    cases raw with
    | none =>
      rw [hself]
      exact ⟨rfl, rfl⟩
    | some p =>
      obtain ⟨res, hres, q, hown⟩ := hlive p rfl
      have hkind : res.isSession = true := by
        cases res <;> simp_all [NativeSession.owns, Resource.isSession]
      simp [when, post_delete hres hkind, modifySession, hx]

theorem Scratch.post_deleteHandle {b : NativeWorker} {live : ℕ → Option Resource} {p q : ℕ}
    {res : Resource} (hw : Scratch b live w) (hx : (b.state.session r).handle = some p)
    (hspare : (b.state.session r).spare = none) (hp : live p = some res)
    (hres : (b.state.session r).owns q res) :
    Post (deleteHandle r) w fun result t ↦ result = .ok () ∧
      Scratch (b.setSession r { b.state.session r with chat := none, raw := none })
        (Function.update live p none) t := by
  obtain ⟨next, setters, rfl, hnext, hfresh⟩ := hw
  refine (Worker.post_deleteHandle (w := b.after next setters live) hspare
    fun p' hp' ↦ ?_).mono fun result t ht ↦ ⟨ht.1, ?_⟩
  · obtain rfl := Option.some.inj (hx.symm.trans hp')
    exact ⟨res, hp, q, hres⟩
  · refine ⟨next, setters, ht.2.trans ?_, hnext, fun p' hp' ↦ ?_⟩
    · simp only [State.drop, NativeWorker.after, hx]
      rfl
    · rw [Function.update_apply, hfresh p' hp', ite_self]

theorem post_budgetChecks {messages : List Message} {reserve : ℤ}
    {Q : Except Thrown NativeEngine → NativeWorker → Prop}
    (hok : ∀ e, ((w.state.session r).engineId, e) ∈ w.state.engines → Q (.ok e) w)
    (herror : ∀ e, Q (.error e) w) : Post (budgetChecks rt r messages reserve) w Q := by
  unfold budgetChecks
  split_ifs
  · exact herror _
  · rw [post_read_bind, post_bind]
    refine post_findEngine (fun e he ↦ ?_) herror
    refine Still.post_bind (fun _ ↦ .when fun _ ↦ .lift _) (fun _ ↦ ?_) herror
    exact Still.post_bind (fun _ ↦ .when fun _ ↦ .lift _) (fun _ ↦ hok e he) herror

/-- Work on the native side and on the temporary session leaves the others as they are. -/
theorem Ready.scratch {q : ℕ} {x : NativeSession} (h : Ready rt harmless w₀ r q w)
    (hs : Scratch (w.setSession 0 x) w.state.native.live t) (hx : x.streamId = none) :
    Ready rt harmless w₀ r q t ∧ t.state.session r = w.state.session r := by
  have hne : r ≠ 0 := (h.1.1.sessionBound r h.2.known).1.ne'
  have hsession : t.state.session r = w.state.session r := by
    rw [hs.session]
    exact Function.update_of_ne hne ..
  obtain ⟨hsent, hq⟩ := Quiet.of_scratch hs
    (fun h0 ↦ absurd (h.1.1.sessionBound 0 h0).1 (lt_irrefl 0)) fun _ hstream ↦ by
      simp [hx] at hstream
  refine ⟨⟨h.1.quiet hsent hq, ?_, ?_, ?_⟩, hsession⟩
  · exact hq.sessions ▸ h.2.known
  · rw [hsession, h.2.streamId]
  · rw [hsession, hq.pointers]
    exact h.2.engine

theorem Ready.keeps_scratch {q : ℕ} {m : M α} (h : Ready rt harmless w₀ r q w)
    (hm : Keeps (Scratch w w.state.native.live) m) :
    Post m w fun _ t ↦ Ready rt harmless w₀ r q t ∧ t.state.session r = w.state.session r := by
  refine (hm w h.1.1.scratch).mono fun result t ht ↦ ?_
  have hself : t.state.session r = w.state.session r := by rw [ht.session]
  have hquiet := ht
  rw [← w.setSession_self r] at hquiet
  obtain ⟨hsent, hq⟩ := Quiet.of_scratch hquiet (fun _ ↦ rfl) fun _ h ↦ h
  refine ⟨⟨h.1.quiet hsent hq, hq.sessions ▸ h.2.known, ?_, ?_⟩, hself⟩
  · rw [hself, h.2.streamId]
  · rw [hself, hq.pointers]
    exact h.2.engine

theorem Ready.query (h : Ready rt harmless w₀ r engine.pointer w)
    (hh : (w.state.session r).handle ≠ none) (messages : List Message) (reserve : ℤ)
    (a : BudgetAnswers) :
    Post (query r engine messages reserve a) w fun _ t ↦
      Ready rt harmless w₀ r engine.pointer t ∧ t.state.session r = w.state.session r := by
  obtain ⟨p, hp⟩ := Option.ne_none_iff_exists'.mp hh
  obtain ⟨q, -, hown⟩ := h.1.1.sessionEngine r h.2.known
  obtain ⟨res, hres, hown⟩ := hown p hp
  exact h.keeps_scratch (Scratch.keeps_query hp hres hown (h.2.live h.1.1) messages reserve a)

theorem Ready.budgetQuery (h : Ready rt harmless w₀ r engine.pointer w) (messages : List Message)
    (reserve : ℤ) (a : BudgetAnswers) :
    Post (budgetQuery r engine messages reserve a) w fun _ t ↦
      Ready rt harmless w₀ r engine.pointer t ∧
        ((w.state.session r).handle ≠ none → (t.state.session r).handle ≠ none) := by
  rw [Worker.budgetQuery, post_bind]
  refine (h.ensureOpen a.openAnswers).mono fun result t ⟨ht, hh⟩ ↦ ?_
  cases result with
  | error e => exact ⟨ht, fun h ↦ hh (.inr h)⟩
  | ok _ =>
    have hopen := hh (.inl rfl)
    refine (ht.query hopen messages reserve a).mono fun result u ⟨hu, hsession⟩ ↦ ⟨hu, fun _ ↦ ?_⟩
    rwa [hsession]

theorem Scratch.keeps_budgetQuery {b : NativeWorker} {live : ℕ → Option Resource} {p q : ℕ}
    {res : Resource} (hx : (b.state.session r).handle = some p)
    (hp : live p = some res) (hres : (b.state.session r).owns q res)
    (he : live engine.pointer = some .engine) (messages : List Message) (reserve : ℤ)
    (a : BudgetAnswers) : Keeps (Scratch b live) (budgetQuery r engine messages reserve a) := by
  refine .bind (fun w hw ↦ ?_) fun _ ↦ keeps_query hx hp hres he messages reserve a
  rw [Worker.ensureOpen, post_read_bind, when, hw.session, if_neg]
  · exact hw
  · intro hnone
    simp only [Bool.and_eq_true, Option.isNone_iff_eq_none] at hnone
    simp [NativeSession.no_handle hnone.1 hnone.2] at hx

/-- The temporary conversation of `_budget` is gone again, whatever happens. -/
theorem Ready.preview (h : Ready rt harmless w₀ r engine.pointer w) {y : NativeSession}
    (hchat : y.chat = none) (hraw : y.raw = none) (hstream : y.streamId = none) (last : Message)
    (reserve : ℤ) (a : BudgetAnswers) :
    Post (do
      newSession 0 y
      Worker.openSession 0 engine none a.preview
      tryFinally (do
          let engine ← budgetChecks rt 0 [last] reserve
          Worker.budgetQuery 0 engine [last] reserve a)
        (deleteHandle 0)) w fun _ t ↦
      Ready rt harmless w₀ r engine.pointer t ∧ t.state.session r = w.state.session r := by
  have hw := h.1.1
  rw [post_bind]
  refine (hw.scratch.post_modifySession 0 fun _ ↦ y).mono fun result t ht ↦ ?_
  obtain ⟨rfl, ht⟩ := ht
  refine (post_bind ..).mpr ((Opens.post_openSession ht (h.2.live hw) (by simpa using hchat)
    (by simpa using hraw) none a.preview).mono fun result u hu ↦ ?_)
  rw [NativeWorker.setSession_session] at hu
  cases result with
  | error e =>
    rw [Opens, NativeWorker.setSession_setSession] at hu
    exact h.scratch hu hstream
  | ok _ =>
    obtain ⟨p, -, hp, hu⟩ := hu
    simp only [NativeWorker.setSession_setSession] at hu
    set x := y.opened (none.getD y.history) (some p)
    set res := y.resource engine.pointer (none.getD y.history)
    have hx : ((w.setSession 0 x).state.session 0).handle = some p := by
      rw [NativeWorker.setSession_session, NativeSession.opened_handle]
    have hspare : ((w.setSession 0 x).state.session 0).spare = none := by
      rw [NativeWorker.setSession_session]
      cases hc : y.conversation <;> simp [x, NativeSession.spare, NativeSession.opened, hc]
    have hres : ((w.setSession 0 x).state.session 0).owns engine.pointer res := by
      rw [NativeWorker.setSession_session]
      cases hc : y.conversation <;>
        simp [x, res, NativeSession.owns, NativeSession.opened, NativeSession.resource, hc]
    have hself := Function.update_self p (some res) w.state.native.live
    have hengine {id : ℕ} {e : NativeEngine} (he : (id, e) ∈ w.state.engines) :
        Function.update w.state.native.live p (some res) e.pointer = some .engine := by
      have hlive := hw.engineLive id e.pointer (mem_pointers he)
      rw [Function.update_of_ne (by intro hpe; rw [hpe, hp] at hlive; cases hlive), hlive]
    refine (post_tryFinally ..).mpr (Post.mono (P := fun _ v ↦ Scratch (w.setSession 0 x)
      (Function.update w.state.native.live p (some res)) v) ?_ fun result v hv ↦ ?_)
    · rw [post_bind]
      refine post_budgetChecks (fun e he ↦ ?_) fun e ↦ hu
      rw [hu.engines] at he
      exact Scratch.keeps_budgetQuery hx hself hres (hengine he) [last] reserve a u hu
    · refine (hv.post_deleteHandle hx hspare hself hres).mono fun result' z hz ↦ ?_
      obtain ⟨rfl, hz⟩ := hz
      rw [Function.update_idem, ← hp, Function.update_eq_self,
        NativeWorker.setSession_setSession] at hz
      refine h.scratch hz ?_
      rw [NativeWorker.setSession_session]
      exact hstream

theorem Ready.budget {q : ℕ} (h : Ready rt harmless w₀ r q w) (messages : List Message)
    (reserve : ℤ) (a : BudgetAnswers) :
    Post (budget rt r messages reserve a) w fun _ t ↦ Ready rt harmless w₀ r q t ∧
      ((w.state.session r).handle ≠ none → (t.state.session r).handle ≠ none) := by
  rw [Worker.budget, post_bind]
  refine post_budgetChecks (fun e he ↦ ?_) fun e ↦ ⟨h, id⟩
  obtain rfl := h.2.pointer h.1.1 he
  show Post _ w _
  rw [post_read_bind]
  cases messages.getLast? with
  | none => exact h.budgetQuery messages reserve a
  | some last =>
    dsimp only
    split_ifs with hbatch
    · -- a batch is budgeted on a conversation of its own
      refine (h.preview rfl rfl rfl last reserve a).mono fun _ t ht ↦ ⟨ht.1, fun hh ↦ ?_⟩
      rwa [ht.2]
    · exact h.budgetQuery messages reserve a

theorem Reached.load {e : NativeEngine} (h : Reached rt harmless w₀ w)
    (hp : w.state.native.live e.pointer = none)
    (hs : Scratch ⟨w.state.load e w.state.native.next w.state.native.setters, w.sent⟩
      (Function.update w.state.native.live e.pointer (some .engine)) t) :
    Reached rt harmless w₀ t := by
  obtain ⟨next, setters, hnext, hbelow, rfl⟩ := hs.below
  exact h.move (.load hp hnext hbelow)

/-- A conversation or session that is alive belongs to a session of the worker. -/
theorem Consistent.of_engine (hw : Consistent w.state) {p q : ℕ} {res : Resource}
    (hp : w.state.native.live p = some res) (hres : res.ofEngine q = true) :
    ∃ r ∈ w.state.sessions, ((w.state.session r).engineId, q) ∈ w.state.pointers := by
  have hheld : ∃ r ∈ w.state.sessions, (w.state.session r).handle = some p := by
    have ho := hw.owned p res hp
    cases res <;> simp_all [Resource.ofEngine, Owned]
  obtain ⟨r, hr, hh⟩ := hheld
  obtain ⟨q', hq', hown⟩ := hw.sessionEngine r hr
  obtain ⟨res', hres', hown⟩ := hown p hh
  obtain rfl := Option.some.inj (hp.symm.trans hres')
  refine ⟨r, hr, ?_⟩
  cases res <;> simp_all [Resource.ofEngine, NativeSession.owns]

theorem post_deleteEngine {q : ℕ} (hq : w.state.native.live q = some .engine)
    (hnone : ∀ p res, w.state.native.live p = some res → res.ofEngine q = false)
    {Q : Except Thrown Unit → NativeWorker → Prop} :
    Post (modifyNative (·.deleteEngine q)) w Q ↔
      Q (.ok ()) { w with state := { w.state with native :=
      { w.state.native with live := Function.update w.state.native.live q none } } } := by
  have hvalid : w.state.native.valid (some q) Resource.isEngine = true := by
    simp [Native.valid, hq, Resource.isEngine]
  have horphans : ((List.range w.state.native.next).any fun p ↦
      (w.state.native.live p).any (Resource.ofEngine q)) = false := by
    refine List.any_eq_false.mpr fun p _ ↦ ?_
    cases hp : w.state.native.live p with
    | none => simp
    | some res => simp [hnone p res hp]
  simp only [modifyNative, post_update, Native.deleteEngine, horphans, Bool.or_false, Native.delete,
    Native.use_of_valid hvalid]

theorem Scratch.post_deleteEngine {b : NativeWorker} {live : ℕ → Option Resource} {q : ℕ}
    (h : Scratch b live w) (hq : live q = some .engine)
    (hnone : ∀ p res, live p = some res → res.ofEngine q = false) :
    Post (modifyNative (·.deleteEngine q)) w fun result t ↦
      result = .ok () ∧ Scratch b (Function.update live q none) t := by
  obtain ⟨next, setters, rfl, hnext, hfresh⟩ := h
  refine (Worker.post_deleteEngine hq hnone).mpr ⟨rfl, next, setters, rfl, hnext, fun p hp ↦ ?_⟩
  rw [Function.update_apply, hfresh p hp, ite_self]

theorem Reached.loadEngine (config : EngineConfig) (a : LoadAnswers) :
    Keeps (Reached rt harmless w₀) (loadEngine config a) := by
  refine .bind (.map .get _) fun closing ↦ keeps_guard _ fun _ ↦ ?_
  refine .bind (keeps_scratch fun b _ ↦ Scratch.keeps_inspect _ _) fun info ↦ ?_
  refine .bind (.lift _) fun limits ↦ ?_
  obtain ⟨maximum, context⟩ := limits
  refine .bind (still_utf8 _ _ _) fun _ ↦ .bind (still_utf8 _ _ _) fun _ ↦ ?_
  refine .bind (still_utf8 _ _ _) fun _ ↦ .bind (still_utf8 _ _ _) fun _ ↦ ?_
  intro w h
  rw [post_bind]
  refine (h.1.scratch.post_create a.settings .engineSettings).mono fun result t ht ↦ ?_
  rcases result with _ | _ | settings
  · exact ht.elim
  · exact (post_bind ..).mpr (post_checkPointer (fun _ _ ↦ h.scratch ht) (by simp))
  · obtain ⟨-, hp, ht⟩ := ht
    have hs := Function.update_self settings (some Resource.engineSettings) w.state.native.live
    refine (post_bind ..).mpr (post_checkPointer (by simp) fun _ ↦ ?_)
    let e (p : ℕ) : NativeEngine :=
      { pointer := p
        config := config
        info :=
          { info with
            requestedContextTokens := config.maxNumTokens
            effectiveContextTokens := a.contextTokens
            modelId := config.modelId
            revision := config.revision } }
    refine Post.mono (P := Creates w (fun p ↦ ⟨w.state.load (e p) w.state.native.next
      w.state.native.setters, w.sent⟩) .engine w.state.native.live) ?_ fun result u hu ↦ ?_
    · refine Creates.bracket hp (show isSettings .engineSettings = true from rfl) ?_
      refine Creates.bind ht (Scratch.keeps_set hs rfl _) fun _ t ht ↦ ?_
      refine Creates.bind ht (Scratch.keeps_use hs rfl) fun _ t ht ↦ ?_
      refine Creates.bind ht (Scratch.keeps_use hs rfl) fun _ t ht ↦ ?_
      refine Creates.bind ht (.onSome fun _ _ ↦ Scratch.keeps_set hs rfl _) fun _ t ht ↦ ?_
      refine Creates.bind ht (.when fun _ ↦ .bind (still_utf8 _ _ _) fun _ ↦
        Scratch.keeps_use hs rfl) fun _ t ht ↦ ?_
      refine Creates.bind ht (.when fun _ ↦ .bind (still_utf8 _ _ _) fun _ ↦
        Scratch.keeps_use hs rfl) fun _ t ht ↦ ?_
      refine Creates.bind ht (Scratch.keeps_use hs rfl) fun _ t ht ↦ ?_
      refine (post_bind ..).mpr ((ht.post_create a.engine .engine).mono fun result t ht ↦ ?_)
      rcases result with _ | _ | pointer
      · exact ht.elim
      · exact (post_bind ..).mpr (post_checkPointer (fun _ _ ↦ ht) (by simp))
      · obtain ⟨hb, hpointer, ht⟩ := ht
        have hself := Function.update_self pointer (some Resource.engine)
          (Function.update w.state.native.live settings (some .engineSettings))
        have hne : pointer ≠ settings := by
          rintro rfl
          simp at hpointer
        have hold := hpointer
        rw [Function.update_of_ne hne] at hpointer
        refine (post_bind ..).mpr (post_checkPointer (by simp) fun _ ↦ ?_)
        have hvalid := ht.valid hself (show Resource.isEngine .engine = true from rfl)
        refine (post_bind ..).mpr ((post_use_of_valid hvalid).mpr ?_)
        dsimp only
        split_ifs with hbad
        · have hnone (p : ℕ) (res : Resource) (hres : Function.update (Function.update
              w.state.native.live settings (some .engineSettings)) pointer (some .engine) p =
                some res) : res.ofEngine pointer = false := by
            by_contra howner
            have hengine : p ≠ pointer := by
              rintro rfl
              obtain rfl := Option.some.inj (hself.symm.trans hres)
              exact howner rfl
            have hsettings : p ≠ settings := by
              rintro rfl
              rw [Function.update_of_ne hengine, hs] at hres
              obtain rfl := Option.some.inj hres
              exact howner rfl
            rw [Function.update_of_ne hengine, Function.update_of_ne hsettings] at hres
            obtain ⟨r, -, hq⟩ := h.1.of_engine hres (by simpa using howner)
            have hlive := h.1.engineLive _ _ hq
            rw [hpointer] at hlive
            cases hlive
          refine (post_bind ..).mpr ((ht.post_deleteEngine hself hnone).mono fun result u hu ↦ ?_)
          rw [Function.update_idem, ← hold, Function.update_eq_self] at hu
          obtain ⟨rfl, hu⟩ := hu
          exact hu
        · rw [post_read_bind]
          obtain ⟨next, setters, rfl, hnext, hfresh⟩ := ht
          exact ⟨pointer, hb, hold, next, setters, rfl, hnext, hfresh⟩
    · cases result with
      | error e => exact h.scratch hu
      | ok _ =>
        obtain ⟨p, -, hp, hu⟩ := hu
        exact h.load (e := e p) hp hu

theorem Reached.give {x : NativeSession} {r p q next : ℕ} {setters : List Setter}
    (h : Reached rt harmless w₀ w) (hx : w.state.session r = x) (hr : r ∈ w.state.sessions)
    (hh : x.handle = none) (hq : (x.engineId, q) ∈ w.state.pointers)
    (hp : w.state.native.live p = none) (hnext : w.state.native.next ≤ next) (hbelow : p < next) :
    Reached rt harmless w₀ ⟨w.state.give r (x.opened x.history (some p)) p next setters
      (x.resource q x.history), w.sent⟩ := by
  subst hx
  exact h.move (.give hr hh hq hp hnext hbelow)

/-- A session object that is registered with the handle it was opened with. -/
theorem Reached.register {x : NativeSession} {p q : ℕ} (h : Reached rt harmless w₀ w)
    (hchat : x.chat = none) (hraw : x.raw = none) (hstream : x.streamId = none)
    (hhistory : x.initial = x.history) (hq : (x.engineId, q) ∈ w.state.pointers)
    (hp : w.state.native.live p = none)
    (hs : Scratch (w.setSession w.state.nextSession (x.opened x.history (some p)))
      (Function.update w.state.native.live p (some (x.resource q x.history))) t) :
    Reached rt harmless w₀ { t with state := { t.state with
      nextSession := w.state.nextSession + 1
      sessions := t.state.sessions ++ [w.state.nextSession] } } := by
  obtain ⟨next, setters, hnext, hbelow, rfl⟩ := hs.below
  have hadd := h.move (.add hchat hraw hstream hhistory hq)
  have hself : (w.state.add x).session w.state.nextSession = x := Function.update_self ..
  have hgive : Reached rt harmless w₀ ⟨(w.state.add x).give w.state.nextSession
      (x.opened x.history (some p)) p next setters (x.resource q x.history), w.sent⟩ :=
    hadd.give hself (List.mem_append_right _ (by simp)) (NativeSession.no_handle hchat hraw) hq hp
      hnext hbelow
  simpa [State.give, State.add, NativeWorker.after, NativeWorker.setSession] using hgive

theorem Reached.createSession (engineId : ℕ) (params : GenerationParams)
    (initial : List ChatMessage) (conversation : Bool) (a : OpenAnswers) :
    Keeps (Reached rt harmless w₀) (createSession rt engineId params initial conversation a) := by
  intro w h
  rw [Worker.createSession, post_bind]
  refine post_findEngine (fun engine he ↦ ?_) fun e ↦ h
  dsimp only
  split_ifs
  · exact h
  · refine Still.post_bind (still_dart _) (fun history ↦ ?_) fun e ↦ h
    rw [post_read_bind, post_bind]
    let x : NativeSession :=
      { engineId := engineId
        params := params
        conversation := conversation || params.applyPromptTemplate
        history := history
        initial := history }
    refine (h.1.scratch.post_modifySession w.state.nextSession fun _ ↦ x).mono fun result t ht ↦ ?_
    obtain ⟨rfl, ht⟩ := ht
    have hunknown : w.state.nextSession ∉ w.state.sessions := fun hr ↦
      lt_irrefl _ (h.1.sessionBound _ hr).2
    have hquiet {y : NativeSession} {u : NativeWorker} (hy : y.streamId = none)
        (hu : Scratch (w.setSession w.state.nextSession y) w.state.native.live u) :
        Reached rt harmless w₀ u := by
      obtain ⟨hsent, hq⟩ := Quiet.of_scratch hu (fun hr ↦ absurd hr hunknown)
        fun _ hstream ↦ by simp [hy] at hstream
      exact h.quiet hsent hq
    have hq := mem_pointers he
    refine Still.post_bind (fun _ ↦ .lift _) (fun _ ↦ ?_) fun e ↦ hquiet rfl ht
    refine (post_bind ..).mpr ((Opens.post_openSession ht (h.1.engineLive _ _ hq) (by simp [x])
      (by simp [x]) none a).mono fun result u hu ↦ ?_)
    rw [NativeWorker.setSession_session] at hu
    simp only [Opens, NativeWorker.setSession_setSession] at hu
    cases result with
    | error e => exact hquiet rfl hu
    | ok _ =>
      obtain ⟨p, -, hp, hu⟩ := hu
      have hsessions : u.state.sessions = w.state.sessions := by
        obtain ⟨next, setters, rfl, -⟩ := hu
        rfl
      exact h.register (x := x) rfl rfl rfl rfl hq hp hu

end LibLitertLm.Worker
