import LibLitertLm.Worker.Tally
import Mathlib.Tactic.IntervalCases

namespace LibLitertLm.Worker

open Code

structure Steady (x y : NativeSession) : Prop where
  chat : y.chat = x.chat
  raw : y.raw = x.raw
  prefill : y.prefillTurns = x.prefillTurns
  decode : y.decodeTurns = x.decodeTurns
  metrics : y.metrics = x.metrics
  conversation : y.conversation = x.conversation

structure Working (counted : ℕ → Benchmark) (d : ℕ → Prop) (stream r : ℕ) (x : NativeSession)
    (sent : List (Outgoing × State)) (w : NativeWorker) : Prop where
  tallied : Tallied counted d w
  session : Steady x (w.state.session r)
  own : (w.state.op stream).session = r
  stopped : (w.state.op stream).backpressure = true → (w.state.op stream).cancelRequested = true
  fatal : w.state.fatalExit = false
  sent : w.sent = sent

def isComplete : Outgoing → Bool
  | .event _ (.complete _) => true
  | _ => false

structure Calm (counted : ℕ → Benchmark) (sent : List (Outgoing × State)) (w : NativeWorker) :
    Prop where
  tallied : Tallied counted (fun _ ↦ False) w
  sent : ∃ messages, w.sent = sent ++ messages ∧ ∀ m ∈ messages, isComplete m.1 = false

variable {rt : Runtime} {counted : ℕ → Benchmark} {d : ℕ → Prop} {r stream : ℕ}
  {x : NativeSession} {sent : List (Outgoing × State)} {w t : NativeWorker} {m : M α}

theorem Steady.refl (x : NativeSession) : Steady x x := ⟨rfl, rfl, rfl, rfl, rfl, rfl⟩

theorem Steady.trans {y z : NativeSession} (h : Steady x y) (h' : Steady y z) : Steady x z :=
  ⟨h'.chat.trans h.chat, h'.raw.trans h.raw, h'.prefill.trans h.prefill, h'.decode.trans h.decode,
    h'.metrics.trans h.metrics, h'.conversation.trans h.conversation⟩

theorem Steady.modest {y : NativeSession} (h : Steady x y) : Modest d r x y :=
  modest_of_eq h.chat h.raw h.prefill h.decode

theorem insulated_working :
    Insulated (fun _ ↦ Steady) (Working counted d stream r x sent) where
  native w n hid hnext h := { h with tallied := insulated_tallied.native w n hid hnext h.tallied }
  session w r' y hy h := by
    refine { h with
      tallied := insulated_tallied.session w r' y hy.modest h.tallied
      session := ?_ }
    by_cases hr : r = r'
    · subst hr
      rw [NativeWorker.setSession_session]
      exact h.session.trans hy
    · have hother : (w.setSession r' y).state.session r = w.state.session r :=
        Function.update_of_ne hr _ _
      rw [hother]
      exact h.session

theorem Inside.working (h : Inside (fun _ ↦ Steady) m) :
    Keeps (Working counted d stream r x sent) m :=
  h _ insulated_working

theorem Working.calm (h : Working counted (fun _ ↦ False) stream r x sent w) :
    Calm counted sent w :=
  ⟨h.tallied, [], by simp [h.sent], by simp⟩

theorem Working.setOp (h : Working counted d stream r x sent w) {o : Op} (hown : o.session = r)
    (hstop : o.backpressure = true → o.cancelRequested = true) :
    Working counted d stream r x sent
      ⟨{ w.state with op := Function.update w.state.op stream o }, w.sent⟩ := by
  have hself : Function.update w.state.op stream o stream = o := Function.update_self ..
  exact { h with
    tallied := { h.tallied with }
    own := (congrArg Op.session hself).trans hown
    stopped := fun hb ↦ by
      dsimp only at hb ⊢
      rw [hself] at hb ⊢
      exact hstop hb }

theorem Working.cancel (overflow : Bool) :
    Keeps (Working counted d stream r x sent) (cancel stream overflow) := by
  intro w hw
  rw [Worker.cancel, post_read_bind]
  split_ifs
  · rw [hw.own, modifyOp, post_bind, post_update]
    refine (?_ : Keeps (Working counted d stream r x sent) _) _
      (hw.setOp (o := { w.state.op stream with cancelRequested := true, backpressure := overflow })
        hw.own fun _ ↦ rfl)
    refine .bind (inside_modifySession fun _ ↦ ⟨rfl, rfl, rfl, rfl, rfl, rfl⟩).working fun _ ↦ ?_
    refine .bind (Inside.when (inside_bridge _ _)).working fun _ ↦ ?_
    exact .bind (inside_read _).working fun session ↦ (inside_useHandle _).working
  · exact hw

theorem cancel_returns (stream : ℕ) (overflow : Bool) (w : NativeWorker) :
    Post (cancel stream overflow) w fun result _ ↦ result = .ok () := by
  rw [cancel, post_read_bind]
  split_ifs
  · rw [modifyOp, post_bind, post_update, modifySession, post_bind, post_update]
    have huse (x : NativeSession) (w : NativeWorker) :
        Post (useHandle x) w fun result _ ↦ result = .ok () := by
      unfold useHandle
      split_ifs <;> rfl
    cases overflow <;> exact huse _ _
  · rfl

theorem Working.settle (h : Working counted d stream r x sent w) (e : Event) :
    Post (settle stream e) w fun result t ↦ result = .ok () ∧ Tallied counted d t ∧
      Steady x (t.state.session r) ∧ ∃ s, t.sent = sent ++ [(.event stream e, s)] := by
  refine (post_settle ..).mpr ⟨rfl, ?_⟩
  generalize w.state.settled stream = phase
  have hretired : Working counted d stream r x sent ⟨w.state.retire stream phase, w.sent⟩ := by
    have hsteady : Steady (w.state.session r)
        { w.state.session r with streamId := none, phase := phase } :=
          ⟨rfl, rfl, rfl, rfl, rfl, rfl⟩
    have hsession := insulated_working.session w r _ hsteady h
    rw [State.retire, h.own]
    exact { hsession with tallied := { hsession.tallied with } }
  refine ⟨hretired.tallied.of_state rfl, hretired.session, w.state.retire stream phase, ?_⟩
  have hfatal : (w.state.retire stream phase).fatalExit = false := hretired.fatal
  simp [emit, hfatal, h.sent]

/-- What is reported of the turns from a start index on. -/
def newTokens (start : ℕ) (turns : List ℤ) : Option ℤ :=
  if start < turns.length then some (toInt64 (turns.drop start).sum) else none

theorem Working.metrics_none {a : PumpAnswers} (hb : a.benchmark = none) :
    Keeps (Working counted d stream r x sent) (metrics r a) := by
  unfold metrics
  refine .bind (inside_read _).working fun session ↦ .bind (inside_read _).working fun engine ↦ ?_
  cases engine with
  | none => exact .throw _
  | some engine =>
    rw [hb]
    refine .bind (inside_useHandle _).working fun _ ↦ .bind (inside_useHandle _).working fun _ ↦ ?_
    exact .pure _

def NativeSession.advanced (x : NativeSession) (b : Benchmark) : NativeSession :=
  { x with prefillTurns := b.prefill.length, decodeTurns := b.decode.length }

theorem Working.weaken (h : Working counted (fun _ ↦ False) stream r x sent w) :
    Working counted d stream r x sent w :=
  { h with tallied := { h.tallied with turns := fun r p _ hp ↦ h.tallied.turns r p id hp } }

theorem Working.advance (h : Working counted (fun _ ↦ False) stream r x sent w) (b : Benchmark) :
    Post (modifySession r fun s ↦
        { s with prefillTurns := b.prefill.length, decodeTurns := b.decode.length }) w
      fun result t ↦ result = .ok () ∧
        Working counted (· = r) stream r (x.advanced b) sent t := by
  refine ⟨rfl, ?_⟩
  change Working _ _ _ _ _ _ (w.setSession r ((w.state.session r).advanced b))
  refine { h with tallied := ?_, session := ?_ }
  · exact insulated_tallied.session w r _ (fun p hp ↦ ⟨hp, fun hr ↦ absurd rfl hr⟩)
      (Working.weaken h).tallied
  · rw [NativeWorker.setSession_session]
    exact ⟨h.session.chat, h.session.raw, rfl, rfl, h.session.metrics, h.session.conversation⟩

theorem Working.metrics_some (h : Working counted (fun _ ↦ False) stream r x sent w)
    {a : PumpAnswers} {b : Benchmark} (hb : a.benchmark = some b) :
    Post (metrics r a) w fun result t ↦ match result with
      | .ok result => Working counted (· = r) stream r (x.advanced b) sent t ∧
          result.prefillTokens = newTokens x.prefillTurns b.prefill ∧
          result.decodeTokens = newTokens x.decodeTurns b.decode
      | .error _ => ∃ y, Working counted (· = r) stream r y sent t := by
  rw [metrics, post_read_bind, post_read_bind, h.session.prefill, h.session.decode]
  cases w.state.engines.lookup (w.state.session r).engineId with
  | none => exact ⟨x, h.weaken⟩
  | some engine =>
    have herror (e : Thrown) (t : NativeWorker)
        (ht : Working counted (fun _ ↦ False) stream r x sent t) :
        ∃ y, Working counted (· = r) stream r y sent t := ⟨x, ht.weaken⟩
    dsimp only
    rw [hb]
    refine (inside_useHandle _).working.bind_post h (fun _ t ht ↦ ?_) herror
    refine (inside_useHandle _).working.bind_post ht (fun _ t ht ↦ ?_) herror
    refine (inside_create true .benchmarkInfo).working.bind_post ht (fun info t ht ↦ ?_) herror
    have hdelete {y : NativeSession} : Keeps (Working counted (· = r) stream r y sent)
        (delete info isBenchmark) := (inside_delete _ _).working
    rw [post_tryFinally]
    refine (inside_use _ _).working.bind_post ht (fun _ t ht ↦ ?_) fun e t ht ↦ ?_
    · rw [post_bind]
      refine (ht.advance b).mono fun result t hresult ↦ ?_
      obtain ⟨hok, ht⟩ := hresult
      subst hok
      dsimp only
      rw [post_pure]
      refine (hdelete t ht).mono fun result u hu ↦ ?_
      cases result with
      | error e => exact ⟨_, hu⟩
      | ok => exact ⟨hu, rfl, rfl⟩
    · refine (hdelete t (Working.weaken ht)).mono fun result u hu ↦ ?_
      cases result <;> exact ⟨x, hu⟩

/-- The turns that are counted once the handle `p` was reported on. -/
def count (counted : ℕ → Benchmark) (p : ℕ) : Option Benchmark → ℕ → Benchmark
  | some b => Function.update counted p b
  | none => counted

/-- The generation on the handle `p` completed, and the turns since the last report were stored. -/
structure Reported (counted : ℕ → Benchmark) (stream r : ℕ) (x : NativeSession) (p : ℕ)
    (benchmark : Option Benchmark) (sent : List (Outgoing × State)) (w : NativeWorker) : Prop where
  tallied : Tallied (count counted p benchmark) (fun _ ↦ False) w
  stored : ∀ b ∈ benchmark,
    (w.state.session r).metrics.prefillTokens = newTokens x.prefillTurns b.prefill ∧
      (w.state.session r).metrics.decodeTokens = newTokens x.decodeTurns b.decode
  sent : ∃ text s, w.sent = sent ++ [(.event stream (.complete text), s)]

theorem NativeSession.holds_iff {p q : ℕ} (hp : x.handle = some p) (hspare : x.spare = none) :
    x.Holds q ↔ q = p := by
  unfold NativeSession.handle at hp
  unfold NativeSession.spare at hspare
  unfold NativeSession.Holds
  split_ifs at hp hspare
  · simp [hp, hspare, eq_comm]
  · simp [hp, hspare, eq_comm]

/-- Once the turns of the handle are counted, its session may be tallied again. -/
theorem Tallied.count {p : ℕ} {b : Benchmark} (h : Tallied counted (· = r) w)
    (hp : (w.state.session r).handle = some p) (hspare : (w.state.session r).spare = none)
    (hprefill : (w.state.session r).prefillTurns = b.prefill.length)
    (hdecode : (w.state.session r).decodeTurns = b.decode.length) :
    Tallied (Function.update counted p b) (fun _ ↦ False) w := by
  have hholds := fun q ↦ NativeSession.holds_iff (q := q) hp hspare
  have hpr := (hholds p).mpr rfl
  refine { h with fresh := fun q hq ↦ ?_, turns := fun r' q _ hq ↦ ?_ }
  · have hne : q ≠ p := by
      intro heq
      have hlt := h.below r p hpr
      omega
    rw [Function.update_of_ne hne]
    exact h.fresh q hq
  · by_cases hr : r' = r
    · subst hr
      rw [(hholds q).mp hq, Function.update_self]
      exact ⟨hprefill, hdecode⟩
    · have hne : q ≠ p := by
        intro heq
        rw [heq] at hq
        exact hr (h.distinct r' r p hq hpr)
      rw [Function.update_of_ne hne]
      exact h.turns r' q hr hq

theorem Steady.handle {y : NativeSession} (h : Steady x y) : y.handle = x.handle := by
  simp [NativeSession.handle, h.conversation, h.chat, h.raw]

theorem Steady.spare {y : NativeSession} (h : Steady x y) : y.spare = x.spare := by
  simp [NativeSession.spare, h.conversation, h.chat, h.raw]

def Outcome (counted : ℕ → Benchmark) (stream r : ℕ) (x : NativeSession) (p : ℕ)
    (a : PumpAnswers) (sent : List (Outgoing × State)) : Except Thrown Unit → NativeWorker → Prop
  | .ok _, w => Calm counted sent w ∨ Reported counted stream r x p a.benchmark sent w
  | .error _, w => ∃ y, Working counted (· = r) stream r y sent w

/-- At work on a session of which the handle may have gone. -/
def Busy (counted : ℕ → Benchmark) (d : ℕ → Prop) (stream r : ℕ) (sent : List (Outgoing × State))
    (w : NativeWorker) : Prop :=
  ∃ x, Working counted d stream r x sent w

theorem insulated_busy : Insulated (Modest d) (Busy counted d stream r sent) where
  native w n hid hnext := fun ⟨x, h⟩ ↦ ⟨x, insulated_working.native w n hid hnext h⟩
  session w r' y hy := fun ⟨_, h⟩ ↦
    ⟨_, { h with tallied := insulated_tallied.session w r' y hy h.tallied, session := .refl _ }⟩

/-- Without a handle there is nothing to tally for the session. -/
theorem Busy.forget (h : Busy counted (· = r) stream r sent w) :
    Post (deleteHandle r) w fun result t ↦ result = .ok () ∧
      Busy counted (fun _ ↦ False) stream r sent t := by
  refine (((inside_forget r) _ insulated_busy w h).and (post_forget r w)).mono
    fun result t ⟨⟨x, ht⟩, hok, hchat, hraw⟩ ↦ ⟨hok, x, { ht with tallied := ?_ }⟩
  refine { ht.tallied with turns := fun r' p _ hp ↦ ?_ }
  by_cases hr : r' = r
  · rw [hr, NativeSession.Holds, hchat, hraw] at hp
    obtain hp | hp := hp <;> cases hp
  · exact ht.tallied.turns r' p hr hp

theorem isComplete_failure {e : Event} (he : e.isFailure = true) (stream : ℕ) :
    isComplete (.event stream e) = false := by
  cases e with
  | complete => cases he
  | _ => rfl

theorem Busy.settle (h : Busy counted (fun _ ↦ False) stream r sent w) {e : Event}
    (he : e.isFailure = true) :
    Post (settle stream e) w fun result t ↦ result = .ok () ∧ Calm counted sent t := by
  obtain ⟨x, h⟩ := h
  refine (h.settle e).mono fun result t ⟨hok, ht, _, s, hsent⟩ ↦ ⟨hok, ht, [_], hsent, ?_⟩
  intro m hm
  rw [List.mem_singleton.mp hm]
  exact isComplete_failure he stream

theorem Busy.finish (h : Busy counted (fun _ ↦ False) stream r sent w) {kind : ℕ} (hkind : kind ≠ 1)
    (detail : String) (failureAfterStop : Bool) (a : PumpAnswers) :
    Post (finish rt stream kind detail failureAfterStop a) w fun result t ↦
      result = .ok () ∧ Calm counted sent t := by
  obtain ⟨x, hx⟩ := h
  rw [Worker.finish, post_read_bind]
  split_ifs with hknown
  · rw [post_read_bind, post_read_bind]
    dsimp only
    rw [if_pos (by simp [hkind]), hx.own, post_bind]
    refine (Busy.forget ⟨x, hx.weaken⟩).mono fun result t hresult ↦ ?_
    obtain ⟨hok, ht⟩ := hresult
    subst hok
    exact ht.settle (terminalEvent_failure (.inr hkind) detail)
  · exact ⟨rfl, hx.calm⟩

/-- The end of a completed generation, which fails if the history is not what it should be. -/
theorem Working.complete (h : Working counted d stream r x sent w) (conversation : Bool)
    (a : PumpAnswers) (text : String) :
    Post (do
      when conversation (commitHistory rt r a)
      Worker.settle stream (.complete text)) w fun result t ↦ match result with
        | .ok _ => Tallied counted d t ∧ Steady x (t.state.session r) ∧
            ∃ s, t.sent = sent ++ [(.event stream (.complete text), s)]
        | .error _ => Working counted d stream r x sent t := by
  have hcommit : Inside (fun _ ↦ Steady) (when conversation (commitHistory rt r a)) :=
    .when (inside_commitHistory rt (fun _ _ ↦ ⟨rfl, rfl, rfl, rfl, rfl, rfl⟩) a)
  refine hcommit.working.bind_post h (fun _ t ht ↦ ?_) fun e t ht ↦ ht
  refine (ht.settle (.complete text)).mono fun result u ⟨hok, hu⟩ ↦ ?_
  subst hok
  exact hu

theorem Working.store (h : Working counted d stream r x sent w) (result : Metrics) :
    Post (modifySession r fun s ↦ { s with metrics := result }) w fun ok t ↦ ok = .ok () ∧
      Working counted d stream r { x with metrics := result } sent t := by
  refine ⟨rfl, ?_⟩
  change Working _ _ _ _ _ _ (w.setSession r { w.state.session r with metrics := result })
  refine { h with tallied := ?_, session := ?_ }
  · exact insulated_tallied.session w r _ (modest_of_eq rfl rfl rfl rfl) h.tallied
  · rw [NativeWorker.setSession_session]
    exact ⟨h.session.chat, h.session.raw, h.session.prefill, h.session.decode, rfl,
      h.session.conversation⟩

theorem Working.finish {p : ℕ} (hp : x.handle = some p) (hspare : x.spare = none)
    (h : Working counted (fun _ ↦ False) stream r x sent w) (kind : ℕ) (detail : String)
    (a : PumpAnswers) :
    Post (finish rt stream kind detail false a) w (Outcome counted stream r x p a sent) := by
  by_cases hkind : kind = 1
  · subst hkind
    rw [Worker.finish, post_read_bind]
    split_ifs with hknown
    · rw [post_read_bind, post_read_bind]
      dsimp only
      rw [h.own]
      cases hcancel : (w.state.op stream).cancelRequested with
      | true =>
        rw [if_pos (by simp), post_bind]
        refine (Busy.forget ⟨x, h.weaken⟩).mono fun result t hresult ↦ ?_
        obtain ⟨hok, ht⟩ := hresult
        subst hok
        refine (ht.settle (terminalEvent_failure (.inl (by simp)) detail)).mono
          fun result u hresult ↦ ?_
        obtain ⟨hok, hu⟩ := hresult
        subst hok
        exact .inl hu
      | false =>
        have hevent :
          terminalEvent (w.state.op stream) 1 (!false && (false || (1 : ℕ) == 3)) detail =
            .complete (w.state.op stream).text := by
          have hback : (w.state.op stream).backpressure = false := by
            by_contra hback
            simp [h.stopped (by simpa using hback)] at hcancel
          simp [terminalEvent, hback]
        rw [if_neg (by simp), hevent]
        cases hb : a.benchmark with
        | none =>
          refine (Working.metrics_none hb).bind_post h (fun result t ht ↦ ?_)
            fun e t ht ↦ ⟨x, ht.weaken⟩
          rw [post_bind]
          refine (ht.store result).mono fun _ t hresult ↦ ?_
          obtain ⟨hok, ht⟩ := hresult
          subst hok
          refine (ht.complete _ a _).mono fun result u hu ↦ ?_
          cases result with
          | error e => exact ⟨_, Working.weaken hu⟩
          | ok =>
            obtain ⟨htally, -, s, hsent⟩ := hu
            refine .inr ⟨?_, ?_, _, s, hsent⟩
            · rw [hb]
              exact htally
            · rw [hb]
              simp
        | some b =>
          rw [post_bind]
          refine (h.metrics_some hb).mono fun result t ht ↦ ?_
          cases result with
          | error e => exact ht
          | ok result =>
            obtain ⟨ht, hprefill, hdecode⟩ := ht
            dsimp only
            rw [post_bind]
            refine (ht.store result).mono fun _ t hresult ↦ ?_
            obtain ⟨hok, ht⟩ := hresult
            subst hok
            refine (ht.complete _ a _).mono fun result' u hu ↦ ?_
            cases result' with
            | error e => exact ⟨_, hu⟩
            | ok =>
              obtain ⟨htally, hsteady, s, hsent⟩ := hu
              refine .inr ⟨?_, fun b' hb' ↦ ?_, _, s, hsent⟩
              · rw [hb]
                exact htally.count (hsteady.handle.trans hp) (hsteady.spare.trans hspare)
                  hsteady.prefill hsteady.decode
              · rw [hb] at hb'
                obtain rfl : b = b' := Option.some.inj hb'
                rw [hsteady.metrics]
                exact ⟨hprefill, hdecode⟩
    · exact .inl h.calm
  · refine (Busy.finish ⟨x, h⟩ hkind detail false a).mono fun result t hresult ↦ ?_
    obtain ⟨hok, ht⟩ := hresult
    subst hok
    exact .inl ht

section Pump

variable {p : ℕ} (hp : x.handle = some p) (hspare : x.spare = none) {a : PumpAnswers}

include hp hspare

omit hp hspare in
theorem Working.outcome (h : Working counted (fun _ ↦ False) stream r x sent w)
    (result : Except Thrown Unit) : Outcome counted stream r x p a sent result w := by
  cases result with
  | ok => exact .inl h.calm
  | error e => exact ⟨x, h.weaken⟩

omit hp hspare in
theorem Working.deliverText (h : Working counted (fun _ ↦ False) stream r x sent w)
    (text : String) :
    Post (do
      modifyOp stream fun o ↦ { o with text := o.text ++ text }
      modifyOp stream fun o ↦ { o with credit := false }
      event stream (.token text)) w (Outcome counted stream r x p a sent) := by
  have hop (f : Op → Op) (hf : ∀ o, (f o).session = o.session ∧
      (f o).backpressure = o.backpressure ∧ (f o).cancelRequested = o.cancelRequested) :
      Keeps (Working counted (fun _ ↦ False) stream r x sent) (modifyOp stream f) := by
    intro w hw
    rw [modifyOp, post_update]
    obtain ⟨hsession, hback, hcancel⟩ := hf (w.state.op stream)
    refine hw.setOp (hsession.trans hw.own) fun hb ↦ ?_
    rw [hcancel]
    exact hw.stopped (hback ▸ hb)
  have hthrow (e : Thrown) (t : NativeWorker)
      (ht : Working counted (fun _ ↦ False) stream r x sent t) :
      Outcome counted stream r x p a sent (.error e) t := ht.outcome _
  have htext := hop (fun o ↦ { o with text := o.text ++ text }) fun _ ↦ ⟨rfl, rfl, rfl⟩
  have hcredit := hop (fun o ↦ { o with credit := false }) fun _ ↦ ⟨rfl, rfl, rfl⟩
  refine htext.bind_post h (fun _ t ht ↦ ?_) hthrow
  refine hcredit.bind_post ht (fun _ t ht ↦ ?_) hthrow
  refine (post_event ..).mpr
    (.inl ⟨ht.tallied.of_state rfl, [(.event stream (.token text), t.state)], ?_, ?_⟩)
  · simp [emit, ht.fatal, ht.sent]
  · simp [isComplete]

theorem Working.deliver (h : Working counted (fun _ ↦ False) stream r x sent w) (kind : ℕ)
    (text : String) :
    Post (deliver rt stream kind text a) w (Outcome counted stream r x p a sent) := by
  have hthrow (e : Thrown) (t : NativeWorker)
      (ht : Working counted (fun _ ↦ False) stream r x sent t) :
      Outcome counted stream r x p a sent (.error e) t := ht.outcome _
  unfold Worker.deliver
  split_ifs with hkind
  · rw [post_read_bind]
    split_ifs with hcancel
    · rw [post_read_bind]
      have hrest (text : Except Thrown String) : Post (lift text >>= fun text ↦
          if !text.isEmpty then do
            modifyOp stream fun o ↦ { o with text := o.text ++ text }
            modifyOp stream fun o ↦ { o with credit := false }
            event stream (.token text)
          else pure ()) w (Outcome counted stream r x p a sent) := by
        refine Keeps.bind_post (.lift text) h (fun text t ht ↦ ?_) hthrow
        split_ifs
        · exact ht.deliverText text
        · exact ht.outcome _
      split_ifs
      · exact hrest _
      · exact hrest (.ok text)
    · exact h.outcome _
  · exact h.finish hp hspare kind text a

theorem Working.pumpEvent (h : Working counted (fun _ ↦ False) stream r x sent w) (native : ℕ) :
    Post (pumpEvent rt stream native a) w (Outcome counted stream r x p a sent) := by
  have hthrow (e : Thrown) (t : NativeWorker)
      (ht : Working counted (fun _ ↦ False) stream r x sent t) :
      Outcome counted stream r x p a sent (.error e) t := ht.outcome _
  refine (inside_take native).working.bind_post h (fun payload t ht ↦ ?_) hthrow
  cases payload with
  | none => exact ht.outcome _
  | some payload =>
    refine (inside_readEvent _ _ _).working.bind_post ht (fun text t ht ↦ ?_) hthrow
    cases text with
    | none => exact ht.outcome _
    | some text => exact ht.deliver hp hspare _ text

theorem Working.pumpBody (h : Working counted (fun _ ↦ False) stream r x sent w) :
    Post (pumpBody rt stream a) w (Outcome counted stream r x p a sent) := by
  have hthrow (e : Thrown) (t : NativeWorker)
      (ht : Working counted (fun _ ↦ False) stream r x sent t) :
      Outcome counted stream r x p a sent (.error e) t := ht.outcome _
  unfold Worker.pumpBody
  refine (inside_read _).working.bind_post h (fun op t ht ↦ ?_) hthrow
  refine (inside_callbacks _).working.bind_post ht (fun _ t ht ↦ ?_) hthrow
  refine (inside_read _).working.bind_post ht (fun overflow t ht ↦ ?_) hthrow
  refine (Keeps.when fun _ ↦ Working.cancel true).bind_post ht (fun _ t ht ↦ ?_) hthrow
  refine (inside_read _).working.bind_post ht (fun op t ht ↦ ?_) hthrow
  have hopen (open? : Bool) (t : NativeWorker)
      (ht : Working counted (fun _ ↦ False) stream r x sent t) : Post (if open? then do
        callbacks a.beforeTake
        Worker.pumpEvent rt stream op.native a else pure ()) t
          (Outcome counted stream r x p a sent) := by
    split_ifs
    · refine (inside_callbacks _).working.bind_post ht (fun _ t ht ↦ ?_) hthrow
      exact ht.pumpEvent hp hspare _
    · exact ht.outcome _
  split_ifs
  · refine (inside_callbacks _).working.bind_post ht (fun _ t ht ↦ ?_) hthrow
    exact (inside_read _).working.bind_post ht (fun open? t ht ↦ hopen open? t ht) hthrow
  · exact hopen true t ht

/-- A payload that cannot be handled costs the session its handle. -/
theorem Working.pumpOne (h : Working counted (fun _ ↦ False) stream r x sent w) :
    Post (pumpOne rt a stream) w fun _ t ↦
      Calm counted sent t ∨ Reported counted stream r x p a.benchmark sent t := by
  rw [Worker.pumpOne, post_tryCatch]
  refine (h.pumpBody hp hspare).mono fun result t ht ↦ ?_
  cases result with
  | ok => exact ht
  | error e =>
    obtain ⟨y, ht⟩ := ht
    dsimp only
    rw [post_bind]
    refine ((Working.cancel false t ht).and (cancel_returns stream false t)).mono
      fun result t hresult ↦ ?_
    obtain ⟨ht, hok⟩ := hresult
    subst hok
    rw [post_read_bind, ht.own, post_bind]
    refine (Busy.forget ⟨y, ht⟩).mono fun result u hresult ↦ ?_
    obtain ⟨hok, hu⟩ := hresult
    subst hok
    exact (hu.finish (by decide) _ _ _).mono fun result v hv ↦ .inl hv.2

end Pump

variable (rt : Runtime)

def completes (w : NativeWorker) : Step → Option ℕ
  | .serve stream a =>
    match (advance rt w (.serve stream a)).sent.drop w.sent.length with
    | [(.event _ (.complete _), _)] => (w.state.session (w.state.op stream).session).handle
    | _ => none
  | _ => none

def Step.benchmark : Step → Option Benchmark
  | .serve _ a => a.benchmark
  | _ => none

def NativeWorker.account (w : NativeWorker) (counted : ℕ → Benchmark) (s : Step) : ℕ → Benchmark :=
  match completes rt w s with
  | some p => count counted p s.benchmark
  | none => counted

def account (x : NativeWorker × (ℕ → Benchmark)) (s : Step) : NativeWorker × (ℕ → Benchmark) :=
  (advance rt x.1 s, x.1.account rt x.2 s)

/-- The turns of each handle at its last completed generation, none if there was none. -/
def countedTurns (steps : List Step) : ℕ → Benchmark :=
  (steps.foldl (account rt) ({}, fun _ ↦ ⟨[], []⟩)).2

variable {rt}

theorem account_fst (steps : List Step) :
    (steps.foldl (account rt) ({}, fun _ ↦ ⟨[], []⟩)).1 = trace rt steps := by
  induction steps using List.reverseRecOn with
  | nil => rfl
  | append_singleton steps s ih =>
    rw [List.foldl_append, trace_concat, ← ih]
    rfl

theorem countedTurns_concat (steps : List Step) (s : Step) :
    countedTurns rt (steps ++ [s]) = (trace rt steps).account rt (countedTurns rt steps) s := by
  rw [countedTurns, List.foldl_append, ← account_fst]
  rfl

variable {asked : List ℕ} {a : PumpAnswers}

theorem completes_of_calm (h : Calm counted w.sent (advance rt w (.serve stream a))) :
    completes rt w (.serve stream a) = none := by
  obtain ⟨messages, hsent, hcalm⟩ := h.sent
  rw [completes, hsent, List.drop_left]
  split
  · rename_i text s
    exact absurd (hcalm _ (List.mem_singleton.mpr rfl)) (by simp [isComplete])
  · rfl

theorem completes_of_reported {p : ℕ}
    (hp : (w.state.session (w.state.op stream).session).handle = some p)
    (h : Reported counted stream r x p a.benchmark w.sent (advance rt w (.serve stream a))) :
    completes rt w (.serve stream a) = some p := by
  obtain ⟨text, s, hsent⟩ := h.sent
  rw [completes, hsent, List.drop_left]
  exact hp

variable (rt a) in
theorem Sound.serve (h : Sound asked w) (hT : Tallied counted (fun _ ↦ False) w)
    (hstream : stream ∈ w.state.operations) :
    ∃ p, (w.state.session (w.state.op stream).session).handle = some p ∧
      (Calm counted w.sent (advance rt w (.serve stream a)) ∨
        Reported counted stream (w.state.op stream).session
          (w.state.session (w.state.op stream).session) p a.benchmark w.sent
            (advance rt w (.serve stream a))) := by
  obtain ⟨hr, -, hhandle⟩ := h.consistent.opSession stream hstream
  obtain ⟨p, hp⟩ := Option.ne_none_iff_exists'.mp hhandle
  have hfatal : w.state.fatalExit = false := by
    by_contra hfatal
    rw [Bool.not_eq_false] at hfatal
    have hdeaf : w.state.deaf = true := by simp [State.deaf, hfatal]
    rw [(h.stopped hdeaf).operations] at hstream
    cases hstream
  have hworking : Working counted (fun _ ↦ False) stream (w.state.op stream).session
      (w.state.session (w.state.op stream).session) w.sent w :=
    ⟨hT, .refl _, rfl, h.consistent.backpressure stream hstream, hfatal, rfl⟩
  have hpost : Post ((Step.serve stream a).turn rt) w fun _ t ↦ Calm counted w.sent t ∨
      Reported counted stream (w.state.op stream).session
        (w.state.session (w.state.op stream).session) p a.benchmark w.sent t :=
    (post_serve hstream a).mpr (hworking.pumpOne hp (h.consistent.sessionSpare _ hr))
  exact ⟨p, hp, hpost⟩

theorem Sound.account (h : Sound asked w) (hT : Tallied counted (fun _ ↦ False) w) (s : Step) :
    Tallied (w.account rt counted s) (fun _ ↦ False) (advance rt w s) := by
  by_cases hserve : ∃ stream a, s = .serve stream a
  · obtain ⟨stream, a, rfl⟩ := hserve
    by_cases hstream : stream ∈ w.state.operations
    · obtain ⟨p, hp, hcalm | hreported⟩ := h.serve rt a hT hstream
      · rw [NativeWorker.account, completes_of_calm hcalm]
        exact hcalm.tallied
      · rw [NativeWorker.account, completes_of_reported hp hreported]
        exact hreported.tallied
    · have hnone : completes rt w (.serve stream a) = none := by
        rw [completes, serve_of_gone hstream, List.drop_length]
      rw [NativeWorker.account, hnone, serve_of_gone hstream]
      exact hT
  · have hother (stream : ℕ) (a : PumpAnswers) : s ≠ .serve stream a :=
      fun heq ↦ hserve ⟨stream, a, heq⟩
    have hnone : completes rt w s = none := by
      cases s with
      | serve stream a => exact absurd rfl (hother stream a)
      | _ => rfl
    rw [NativeWorker.account, hnone]
    exact hT.other hother

variable (rt) in
theorem trace_tallied {steps : List Step} (hdistinct : (steps.filterMap Step.asks).Nodup) :
    Tallied (countedTurns rt steps) (fun _ ↦ False) (trace rt steps) := by
  induction steps using List.reverseRecOn with
  | nil =>
    refine ⟨fun _ _ ↦ rfl, fun r p hp ↦ ?_, fun r r' p hp ↦ ?_, fun r p _ hp ↦ ?_⟩
    all_goals obtain hp | hp := hp <;> cases hp
  | append_singleton steps s ih =>
    rw [List.filterMap_append, List.nodup_append] at hdistinct
    rw [trace_concat, countedTurns_concat]
    exact (trace_sound hdistinct.1).account (ih hdistinct.1) s

/-- What the native library guarantees of the figures of one handle: they come
as C integers, and the lists of turns only grow. -/
structure Grown (old b : Benchmark) : Prop where
  prefill : old.prefill <+: b.prefill
  decode : old.decode <+: b.decode
  prefillCounts : b.prefill.length < 2 ^ 31 ∧ ∀ n ∈ b.prefill, IsInt32 n
  decodeCounts : b.decode.length < 2 ^ 31 ∧ ∀ n ∈ b.decode, IsInt32 n

def Benchmarked (rt : Runtime) (steps : List Step) : Prop :=
  ∀ k s, steps[k]? = some s → ∀ p ∈ completes rt (trace rt (steps.take k)) s,
    ∃ b ∈ s.benchmark, Grown (countedTurns rt (steps.take k) p) b

theorem sum_int32 {l : List ℤ} (h : ∀ n ∈ l, IsInt32 n) :
    -(l.length * 2 ^ 31 : ℤ) ≤ l.sum ∧ l.sum ≤ l.length * 2 ^ 31 := by
  induction l with
  | nil => simp
  | cons n l ih =>
    obtain ⟨hlow, hhigh⟩ := ih fun m hm ↦ h m (List.mem_cons_of_mem n hm)
    obtain ⟨hn, hn'⟩ := h n List.mem_cons_self
    rw [List.sum_cons, List.length_cons]
    push_cast
    constructor <;> omega

/-- The sum of the new turns is stored, nothing if there are none. -/
theorem newTokens_append {old new : List ℤ} (hlength : (old ++ new).length < 2 ^ 31)
    (h : ∀ n ∈ old ++ new, IsInt32 n) :
    newTokens old.length (old ++ new) = if new = [] then none else some new.sum := by
  rw [newTokens, List.drop_left, List.length_append]
  rw [List.length_append] at hlength
  obtain ⟨hlow, hhigh⟩ := sum_int32 fun n hn ↦ h n (List.mem_append_right old hn)
  have hsum : toInt64 new.sum = new.sum := toInt64_of_lt (by omega) (by omega)
  cases new with
  | nil => simp
  | cons n new =>
    rw [hsum, if_pos (by simp), if_neg (by simp)]

theorem Benchmarked.prefix {steps after : List Step} (h : Benchmarked rt (steps ++ after)) :
    Benchmarked rt steps := by
  intro k s hs p hp
  have hk : k < steps.length := (List.getElem?_eq_some_iff.mp hs).1
  have htake : (steps ++ after).take k = steps.take k := List.take_append_of_le_length hk.le
  have hb := h k s (by rw [List.getElem?_append_left hk, hs]) p
  rw [htake] at hb
  exact hb hp

/-- What was counted on a handle stays counted. -/
theorem Benchmarked.counted_prefix {steps after : List Step} (h : Benchmarked rt (steps ++ after))
    (p : ℕ) : (countedTurns rt steps p).prefill <+: (countedTurns rt (steps ++ after) p).prefill ∧
      (countedTurns rt steps p).decode <+: (countedTurns rt (steps ++ after) p).decode := by
  induction after using List.reverseRecOn with
  | nil =>
    rw [List.append_nil]
    exact ⟨List.prefix_rfl, List.prefix_rfl⟩
  | append_singleton after s ih =>
    rw [← List.append_assoc] at h ⊢
    obtain ⟨hprefill, hdecode⟩ := ih h.prefix
    rw [countedTurns_concat, NativeWorker.account]
    cases hcompletes : completes rt (trace rt (steps ++ after)) s with
    | none => exact ⟨hprefill, hdecode⟩
    | some q =>
      have htake : (steps ++ after ++ [s]).take (steps ++ after).length = steps ++ after :=
        List.take_left
      have hb := h (steps ++ after).length s (by simp) q
      rw [htake] at hb
      obtain ⟨b, hb, hgrown⟩ := hb hcompletes
      rw [Option.mem_def.mp hb]
      by_cases hq : p = q
      · subst hq
        simp only [count, Function.update_self]
        exact ⟨hprefill.trans hgrown.prefill, hdecode.trans hgrown.decode⟩
      · simp only [count, Function.update_of_ne hq]
        exact ⟨hprefill, hdecode⟩

/-- In every trace, and so in every run: when a generation completes on the
handle `p`, the turns of `p` are those counted at its last completed generation
and new ones, of which the sums are stored (nothing where there is no new turn);
from then on they are counted too, so the next report on `p` starts behind them. -/
theorem token_metrics (rt : Runtime) (steps after : List Step) (stream : ℕ) (a : PumpAnswers)
    (p : ℕ) (hdistinct : ((steps ++ .serve stream a :: after).filterMap Step.asks).Nodup)
    (hbenchmarked : Benchmarked rt (steps ++ .serve stream a :: after))
    (hp : completes rt (trace rt steps) (.serve stream a) = some p) :
    let r := ((trace rt steps).state.op stream).session
    let stored := ((trace rt (steps ++ [.serve stream a])).state.session r).metrics
    ∃ b prefill decode, a.benchmark = some b ∧
      b.prefill = (countedTurns rt steps p).prefill ++ prefill ∧
      b.decode = (countedTurns rt steps p).decode ++ decode ∧
      stored.prefillTokens = (if prefill = [] then none else some prefill.sum) ∧
      stored.decodeTokens = (if decode = [] then none else some decode.sum) ∧
      ((trace rt steps).state.session r).handle = some p ∧
      ∀ middle rest, after = middle ++ rest →
        b.prefill <+: (countedTurns rt (steps ++ .serve stream a :: middle) p).prefill ∧
        b.decode <+: (countedTurns rt (steps ++ .serve stream a :: middle) p).decode := by
  have hsplit : steps ++ .serve stream a :: after = steps ++ [.serve stream a] ++ after := by simp
  rw [hsplit] at hdistinct hbenchmarked
  rw [List.filterMap_append, List.filterMap_append, List.nodup_append] at hdistinct
  have hsteps := (List.nodup_append.mp hdistinct.1).1
  have htake : (steps ++ [Step.serve stream a]).take steps.length = steps := List.take_left
  have hstep := hbenchmarked.prefix steps.length (.serve stream a) (by simp) p
  rw [htake] at hstep
  obtain ⟨b, hmem, hgrown⟩ := hstep hp
  have hb : a.benchmark = some b := hmem
  obtain ⟨prefill, hprefill⟩ := hgrown.prefill
  obtain ⟨decode, hdecode⟩ := hgrown.decode
  have hT := trace_tallied rt hsteps
  have hstream : stream ∈ (trace rt steps).state.operations := by
    by_contra hgone
    rw [completes, serve_of_gone hgone, List.drop_length] at hp
    cases hp
  obtain ⟨q, hq, hcalm | hreported⟩ := (trace_sound hsteps).serve rt a hT hstream
  · rw [completes_of_calm hcalm] at hp
    cases hp
  · have hqp : q = p := Option.some.inj ((completes_of_reported hq hreported).symm.trans hp)
    subst hqp
    obtain ⟨hr, -, -⟩ := (trace_sound hsteps).consistent.opSession stream hstream
    have hholds :=
      (NativeSession.holds_iff hq ((trace_sound hsteps).consistent.sessionSpare _ hr)).mpr rfl
    obtain ⟨hstart, hstart'⟩ := hT.turns _ q id hholds
    obtain ⟨hstored, hstored'⟩ := hreported.stored b hb
    have hcounts := hgrown.prefillCounts
    have hcounts' := hgrown.decodeCounts
    rw [← hprefill] at hcounts hstored
    rw [← hdecode] at hcounts' hstored'
    rw [hstart, newTokens_append hcounts.1 hcounts.2] at hstored
    rw [hstart', newTokens_append hcounts'.1 hcounts'.2] at hstored'
    rw [trace_concat]
    refine ⟨b, prefill, decode, hb, hprefill.symm, hdecode.symm, hstored, hstored', hq, ?_⟩
    intro middle rest hafter
    have hcounted : countedTurns rt (steps ++ [.serve stream a]) q = b := by
      rw [countedTurns_concat, NativeWorker.account, hp]
      change count _ q a.benchmark q = b
      rw [hb, count, Function.update_self]
    have hlater :
      steps ++ Step.serve stream a :: middle = steps ++ [.serve stream a] ++ middle := by
      simp
    rw [hlater, ← hcounted]
    rw [hafter, ← List.append_assoc] at hbenchmarked
    exact hbenchmarked.prefix.counted_prefix q

namespace Scenario

def generates (stream id : ℕ) (a : PumpAnswers) : List Step :=
  [.command none (.generate stream 1 (.contents [.text "question"]) starts),
    .callback ⟨id, some ⟨none, none, true⟩, []⟩, .serve stream a]

def measures (prefill decode : List ℤ) : PumpAnswers :=
  { noAnswers with benchmark := some ⟨prefill, decode⟩ }

def opensRaw : List Step :=
  [.command (some 1) (.loadEngine { modelPath := "model.litertlm" } loads),
    .command (some 2) (.createSession 1 { applyPromptTemplate := false } [] false opens)]

def measured : List Step :=
  opensRaw ++ generates 3 1 (measures [5] [3]) ++ generates 4 2 (measures [5, 7] [3, 4])

theorem benchmarked_measured : Benchmarked runtime measured := by
  intro k s hs p hp
  obtain ⟨hk, rfl⟩ := List.getElem?_eq_some_iff.mp hs
  have hk : k < 8 := hk
  have hnone (q : ℕ) : (none : Option ℕ) ≠ some q := by simp
  have hgrown (old b : Benchmark) (hprefill : old.prefill <+: b.prefill)
      (hdecode : old.decode <+: b.decode) (hlength : b.prefill.length < 3 ∧ b.decode.length < 3)
      (hcounts : ∀ n ∈ b.prefill ++ b.decode, 0 ≤ n ∧ n < 8) : Grown old b := by
    refine ⟨hprefill, hdecode, ⟨by omega, fun n hn ↦ ?_⟩, ⟨by omega, fun n hn ↦ ?_⟩⟩
    · have hbound := hcounts n (List.mem_append_left _ hn)
      exact ⟨by omega, by omega⟩
    · have hbound := hcounts n (List.mem_append_right _ hn)
      exact ⟨by omega, by omega⟩
  interval_cases k
  all_goals try exact absurd hp (hnone p)
  · have hfirst : completes runtime (trace runtime (measured.take 4))
        (.serve 3 (measures [5] [3])) = some 6 := by decide +kernel
    obtain rfl : 6 = p := Option.some.inj (hfirst.symm.trans hp)
    refine ⟨⟨[5], [3]⟩, rfl, hgrown _ _ ?_ ?_ (by decide) (by decide)⟩
    · decide +kernel
    · decide +kernel
  · have hsecond : completes runtime (trace runtime (measured.take 7))
        (.serve 4 (measures [5, 7] [3, 4])) = some 6 := by decide +kernel
    obtain rfl : 6 = p := Option.some.inj (hsecond.symm.trans hp)
    refine ⟨⟨[5, 7], [3, 4]⟩, rfl, hgrown _ _ ?_ ?_ (by decide) (by decide)⟩
    · decide +kernel
    · decide +kernel

end Scenario

open Scenario in
theorem token_metrics_measured :
    let steps := measured.take 7
    let stored := ((trace runtime measured).state.session 1).metrics
    ∃ b prefill decode, (measures [5, 7] [3, 4]).benchmark = some b ∧
      b.prefill = (countedTurns runtime steps 6).prefill ++ prefill ∧
      b.decode = (countedTurns runtime steps 6).decode ++ decode ∧
      stored.prefillTokens = (if prefill = [] then none else some prefill.sum) ∧
      stored.decodeTokens = (if decode = [] then none else some decode.sum) ∧
      ((trace runtime steps).state.session 1).handle = some 6 ∧
      ∀ middle rest, [] = middle ++ rest →
        b.prefill <+: (countedTurns runtime (steps ++ .serve 4 (measures [5, 7] [3, 4]) :: middle)
          6).prefill ∧
        b.decode <+: (countedTurns runtime (steps ++ .serve 4 (measures [5, 7] [3, 4]) :: middle)
          6).decode := by
  have hsession : ((trace runtime (measured.take 7)).state.op 4).session = 1 := by decide +kernel
  have h := token_metrics runtime (measured.take 7) [] 4 (measures [5, 7] [3, 4]) 6 (by decide)
    benchmarked_measured (by decide +kernel)
  rw [hsession] at h
  exact h

end LibLitertLm.Worker
