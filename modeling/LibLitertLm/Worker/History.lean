import LibLitertLm.Worker.Memory

namespace LibLitertLm.Worker

open Bridge (Call)

variable {rt : Runtime} {harmless : Prop} {w t : NativeWorker} {s s' : State} {r stream : ℕ}
  {past messages : List Message} {c : Conversation}

theorem Native.callback_some (n : Native) {id : ℕ} (hid : id ∈ n.registry) (chunk : Bridge.Chunk)
    (reply : Message) :
    (n.callback ⟨id, some chunk, reply⟩).operation id =
        Bridge.callback (n.operation id) id (some chunk) ∧
      (n.callback ⟨id, some chunk, reply⟩).calls id = n.calls id ++ [.callback (some chunk)] := by
  simp [Native.callback, Native.bridge, hid, Bridge.call]

/-- The chunk that ends a request moves the operation and the conversation on
together. -/
theorem Answers.callback {n : Native} {id : ℕ} (h : Answers n id past messages c)
    (hmachine : n.operation id = (Bridge.operation id).state (n.calls id)) (hid : id ∈ n.registry)
    (chunk : Bridge.Chunk) (reply : Message) :
    Answers (n.callback ⟨id, some chunk, reply⟩) id past messages (c.callback id chunk reply) := by
  obtain ⟨hop, hcalls⟩ := n.callback_some hid chunk reply
  have hfinal := Bridge.callback_final (n.operation id) id chunk
  rw [← hop] at hfinal
  have hmono (h : (Bridge.operation id).Occurs (Bridge.failsFirst id) (n.calls id)) :
      (Bridge.operation id).Occurs (Bridge.failsFirst id)
        ((n.callback ⟨id, some chunk, reply⟩).calls id) := by
    rw [hcalls]
    exact (Machine.occurs_concat ..).mpr (.inl h)
  cases hf : (n.operation id).final with
  | true =>
    obtain ⟨hsending, hsent⟩ := h.sent hf
    rw [Conversation.callback_idle id chunk reply hsending]
    rw [hf] at hfinal
    refine ⟨fun hf' ↦ ?_, fun _ ↦ ⟨hsending, hsent.imp_left hmono⟩⟩
    simp [hfinal] at hf'
  | false =>
    obtain ⟨hsending, hturns⟩ := h.sending hf
    rw [hf, Bool.false_or] at hfinal
    cases herror : (Bridge.nonEmpty chunk.error).isSome with
    | true =>
      rw [herror, Bool.true_or] at hfinal
      have hc : c.callback id chunk reply = { c with sending := none } := by
        simp [Conversation.callback, hsending, herror]
      refine ⟨fun hf' ↦ ?_, fun _ ↦ ⟨by rw [hc], .inl ?_⟩⟩
      · simp [hfinal] at hf'
      · rw [hcalls, Machine.occurs_concat, ← hmachine]
        refine .inr ⟨hf, ?_, herror⟩
        show (Bridge.callback (n.operation id) id (some chunk)).final = true
        rw [← hop, hfinal]
    | false =>
      rw [herror, Bool.false_or] at hfinal
      cases hlast : chunk.final with
      | true =>
        rw [hlast] at hfinal
        have hc : c.callback id chunk reply = { c with
            turns := c.turns ++ [messages.getLast?.getD [], reply], sending := none } := by
          simp [Conversation.callback, hsending, herror, hlast]
        refine ⟨fun hf' ↦ ?_, fun _ ↦ ⟨by rw [hc], .inr ⟨c.turns, reply, by rw [hc], ?_⟩⟩⟩
        · simp [hfinal] at hf'
        · rw [hc]
          exact hturns
      | false =>
        rw [hlast] at hfinal
        have hc : c.callback id chunk reply = c := by
          simp [Conversation.callback, hsending, herror, hlast]
        rw [hc]
        refine ⟨fun _ ↦ ⟨hsending, hturns⟩, fun hf' ↦ ?_⟩
        simp [hfinal] at hf'

/-- A callback does not concern a conversation that works for another operation. -/
theorem Answers.callback_other {n : Native} {id id' : ℕ} (h : Answers n id past messages c)
    (hne : id ≠ id') (chunk : Bridge.Chunk) (reply : Message) :
    Answers (n.callback ⟨id', some chunk, reply⟩) id past messages
      (c.callback id' chunk reply) := by
  have hother := n.bridge_other hne (.callback (some chunk))
  have hc : c.callback id' chunk reply = c := by
    cases hf : (n.operation id).final with
    | true => exact Conversation.callback_idle id' chunk reply (h.sent hf).1
    | false => exact Conversation.callback_other chunk reply (h.sending hf).1 hne
  rw [hc]
  exact h.steady (.of_eq hother.1 hother.2)

theorem Remembers.callback (hw : Consistent s) (hs : Remembers s r past) (x : Callback)
    (hc : (s.session r).conversation = true) :
    Remembers { s with native := s.native.callback x } r past := by
  obtain ⟨id, chunk, reply⟩ := x
  cases chunk with
  | none => exact hs.spared (.bridge hc id (c := .callback none) rfl)
  | some chunk =>
    have hconv := s.callback_conversation id chunk reply r
    refine ⟨hs.history, fun c hmem ↦ ?_, fun hid c hmem ↦ ?_, fun stream hstream hr ↦ ?_⟩
    · rw [hconv] at hmem
      obtain ⟨c₀, hc₀, rfl⟩ := Option.map_eq_some_iff.mp hmem
      exact (hs.preface c₀ hc₀).trans (c₀.callback_preface id chunk reply).symm
    · rw [hconv] at hmem
      obtain ⟨c₀, hc₀, rfl⟩ := Option.map_eq_some_iff.mp hmem
      obtain ⟨hsending, hturns⟩ := hs.idle hid c₀ hc₀
      rw [Conversation.callback_idle id chunk reply hsending]
      exact ⟨hsending, hturns⟩
    · obtain ⟨hne, hanswers⟩ := hs.running stream hstream hr
      refine ⟨hne, fun c hmem ↦ ?_⟩
      rw [hconv] at hmem
      obtain ⟨c₀, hc₀, rfl⟩ := Option.map_eq_some_iff.mp hmem
      have hknown := hw.opNative stream hstream
      by_cases hid : (s.op stream).native = id
      · rw [← hid]
        exact (hanswers c₀ hc₀).callback (hw.machine _ hknown) hknown chunk reply
      · exact (hanswers c₀ hc₀).callback_other hid chunk reply

/-- A new handle has its preface and no turns. -/
theorem State.give_conversation {p q next : ℕ} {setters : List Setter} {preface : List Message}
    (hc : (s.session r).conversation = true) :
    (s.give r ((s.session r).opened preface (some p)) p next setters
      ((s.session r).resource q preface)).conversation r = some { preface := preface } := by
  simp [State.conversation, State.give, NativeSession.opened, NativeSession.resource, hc,
    Native.after]

theorem Remembers.give (hw : Consistent s) (hs : Remembers s r past)
    (hc : (s.session r).conversation = true) (hh : (s.session r).handle = none)
    {p q next : ℕ} {setters : List Setter} :
    Remembers (s.give r ((s.session r).opened (s.session r).history (some p)) p next setters
      ((s.session r).resource q (s.session r).history)) r past := by
  have hself : (s.give r ((s.session r).opened (s.session r).history (some p)) p next setters
      ((s.session r).resource q (s.session r).history)).session r =
      (s.session r).opened (s.session r).history (some p) := Function.update_self ..
  refine ⟨by rw [hself]; exact hs.history, fun c hmem ↦ ?_, fun _ c hmem ↦ ?_,
    fun stream hstream hr ↦ ?_⟩
  · rw [State.give_conversation hc] at hmem
    obtain rfl := Option.some.inj hmem
    rw [hself]
    rfl
  · rw [State.give_conversation hc] at hmem
    obtain rfl := Option.some.inj hmem
    exact ⟨rfl, (List.append_nil _).trans hs.history⟩
  · -- an operation would keep the session from losing its handle
    have hr' : (s.op stream).session = r := hr
    exact absurd (hr' ▸ hh) (hw.opSession stream hstream).2.2

/-- Another session does not notice a new handle. -/
theorem Spared.give {r' p next : ℕ} {x : NativeSession} {setters : List Setter} {res : Resource}
    (hw : Consistent s) (hr : r ∈ s.sessions) (hc : (s.session r).conversation = true)
    (hne : r ≠ r') (hp : s.native.live p = none) :
    Spared r s (s.give r' x p next setters res) := by
  refine .of_core (by simp [State.give, hne]) hc (fun p' owner c hp' h ↦ ?_)
    fun stream hstream _ ↦ ⟨hstream, rfl, .of_eq rfl rfl⟩
  obtain ⟨q, -, hlive⟩ := hw.sessionEngine r hr
  obtain ⟨res', hres', -⟩ := hlive p' (NativeSession.handle_of_chat hc hp')
  have hother : p' ≠ p := by
    rintro rfl
    simp [hp] at hres'
  simpa [State.give, Native.after, hother] using h

theorem NativeSession.bare_eq {x y : NativeSession} (h : x.bare = y.bare) :
    x.frame = y.frame ∧ x.initial = y.initial ∧ x.conversation = y.conversation ∧
      x.chat = y.chat ∧ (x.handle ≠ none → x.nativePreface = y.nativePreface) := by
  have hframe : x.frame = y.frame := field_eq bare frame (fun _ ↦ rfl) h
  refine ⟨hframe, field_eq bare initial (fun _ ↦ rfl) h, field_eq bare conversation (fun _ ↦ rfl) h,
    field_eq bare chat (fun _ ↦ rfl) h, fun hx ↦ ?_⟩
  have hy : y.handle ≠ none := (NativeSession.frame_eq hframe).2.1 ▸ hx
  have hpreface := congrArg nativePreface h
  simpa only [bare, core, if_neg hx, if_neg hy] using hpreface

theorem Consistent.conversation (hw : Consistent s) (hr : r ∈ s.sessions)
    (hc : (s.session r).conversation = true) (hh : (s.session r).handle ≠ none) :
    ∃ c, s.conversation r = some c := by
  obtain ⟨q, -, hlive⟩ := hw.sessionEngine r hr
  obtain ⟨p, hp⟩ := Option.ne_none_iff_exists'.mp hh
  obtain ⟨res, hres, hown⟩ := hlive p hp
  have hchat : (s.session r).chat = some p := by rwa [NativeSession.handle, if_pos hc] at hp
  cases res with
  | conversation owner c => exact ⟨c, State.mem_conversation.mpr ⟨p, owner, hchat, hres⟩⟩
  | session owner =>
    rw [NativeSession.owns, hc] at hown
    cases hown.1
  | _ => exact hown.elim

/-- A stream that completes adds its batch and the reply to the history. -/
theorem Remembers.complete {e : Bridge.Event} {text : String} (hw : Consistent s)
    (hstream : stream ∈ s.operations) (hs : Staged s stream s') (hr : (s.op stream).session = r)
    (hc : (s.session r).conversation = true) (he : s.head stream = some e) (hkind : e.kind = 1)
    (hhistory : (s'.session (s'.op stream).session).history =
      if (s'.session (s'.op stream).session).conversation then
        (s.session (s'.op stream).session).nativePreface ++
          s.native.turns (s.session (s'.op stream).session).chat
      else (s.session (s'.op stream).session).history)
    (phase : HandlePhase) (h : Remembers s r past) :
    Remembers (s'.retire stream phase) r
      (past ++ turnsOf r (.event stream (.complete text), s'.retire stream phase)) := by
  obtain ⟨hknown, -, hh⟩ := hw.opSession stream hstream
  obtain ⟨hsession, hnative⟩ := hs.session_eq hstream
  rw [hr] at hknown hh
  obtain ⟨c, hconv⟩ := hw.conversation hknown hc hh
  have hown : (s'.session r).bare = (s.session r).bare := hr ▸ hs.own
  obtain ⟨hframe, -, hconv', hchat, hpreface⟩ := NativeSession.bare_eq hown
  have hh' : (s'.session r).handle ≠ none := (NativeSession.frame_eq hframe).2.1 ▸ hh
  -- the native side has replied, or the event would be another one
  obtain ⟨hne, hanswers⟩ := h.running stream hstream hr
  have hmachine := hw.machine _ (hw.opNative stream hstream)
  rw [State.head, hmachine] at he
  obtain ⟨hfinal, hfails⟩ := Bridge.take_complete he hkind
  obtain ⟨hsending, hsent⟩ := (hanswers c hconv).sent (hmachine ▸ hfinal)
  obtain ⟨before, reply, hturns, hbefore⟩ := hsent.resolve_left hfails
  have hpast : c.preface ++ c.turns = past ++ ((s.op stream).messages ++ [reply]) := by
    have hlast := List.dropLast_append_getLast? _ (List.getLast?_eq_some_getLast hne)
    rw [List.getLast?_eq_some_getLast hne, Option.getD_some] at hturns
    calc c.preface ++ c.turns
        = (c.preface ++ before) ++ [(s.op stream).messages.getLast hne, reply] := by
          rw [hturns, List.append_assoc]
      _ = past ++ (((s.op stream).messages.dropLast ++ [(s.op stream).messages.getLast hne]) ++
            [reply]) := by
          rw [hbefore]
          simp
      _ = _ := by rw [hlast]
  have hself : (s'.retire stream phase).session r =
      { s'.session r with streamId := none, phase := phase } := by
    rw [State.retire, hsession, hr]
    exact Function.update_self ..
  have hkept : (s'.retire stream phase).conversation r = some c := by
    rw [← hconv]
    unfold State.conversation
    rw [hself, hchat, show (s'.retire stream phase).native.live = s'.native.live from rfl, hs.live]
  have hadded : turnsOf r (.event stream (.complete text), s'.retire stream phase) =
      (s.op stream).messages ++ [reply] := by
    have hop : ((s'.retire stream phase).op stream).session = r := hsession.trans hr
    have hmessages : ((s'.retire stream phase).op stream).messages = (s.op stream).messages :=
      hs.messages
    rw [turnsOf, if_pos hop, hmessages, State.turns_eq hkept, hturns]
    simp
  rw [hsession, hr, hconv', hc, if_pos rfl, State.turns_eq hconv, h.preface c hconv] at hhistory
  rw [hadded]
  refine ⟨by rw [hself]; exact hhistory.trans hpast, fun c' hc' ↦ ?_, fun _ c' hc' ↦ ?_,
    fun t ht hr' ↦ ?_⟩
  · obtain rfl := Option.some.inj (hkept.symm.trans hc')
    rw [hself]
    exact (hpreface hh').trans (h.preface c hconv)
  · obtain rfl := Option.some.inj (hkept.symm.trans hc')
    exact ⟨hsending, hpast⟩
  · obtain ⟨hlive, hother, hrequest, -⟩ := hs.running hw hstream phase ht
    have hsame : (s'.op t).session = (s.op t).session := congrArg Prod.fst hrequest
    exact absurd (hw.op_inj hstream hlive ((hsame.symm.trans hr').trans hr.symm)) hother

theorem transcript_concat (sent : List (Outgoing × State)) (m : Outgoing × State) :
    transcript r (sent ++ [m]) = transcript r sent ++ turnsOf r m := by
  simp [transcript]

theorem transcript_emit (s : State) (sent : List (Outgoing × State)) (stream : ℕ) {e : Event}
    (he : ∀ text, e ≠ .complete text) :
    transcript r (emit s sent stream e).sent = transcript r sent := by
  unfold emit
  split_ifs
  · rfl
  · rw [transcript_concat]
    cases e with
    | complete text => exact absurd rfl (he text)
    | _ => exact List.append_nil _

structure Recalls (r : ℕ) (w : NativeWorker) : Prop where
  known : r ∈ w.state.sessions → (w.state.session r).conversation = true →
    Remembers w.state r ((w.state.session r).initial ++ transcript r w.sent)
  fresh : w.state.nextSession ≤ r → transcript r w.sent = []

/-- A step on which nothing completes keeps what it spares. -/
theorem Recalls.spared (hw : Recalls r w)
    (hnext : w.state.nextSession ≤ t.state.nextSession)
    (hsent : transcript r t.sent = transcript r w.sent)
    (h : r ∈ t.state.sessions → (t.state.session r).conversation = true →
      r ∈ w.state.sessions ∧ (w.state.session r).conversation = true ∧
        (t.state.session r).initial = (w.state.session r).initial ∧
          ((w.state.session r).conversation = true → Spared r w.state t.state)) : Recalls r t := by
  refine ⟨fun hr hc ↦ ?_, fun hlt ↦ hsent.trans (hw.fresh (hnext.trans hlt))⟩
  obtain ⟨hr', hc', hinitial, hspared⟩ := h hr hc
  rw [hinitial, hsent]
  exact (hw.known hr' hc').spared (hspared hc')

theorem Event.ne_complete_of_failure {e : Event} (h : e.isFailure = true) (text : String) :
    e ≠ .complete text := by
  rintro rfl
  cases h

theorem Staged.session_kept (hs : Staged s stream s') (hr : r ∈ s.sessions) :
    (s'.session r).conversation = (s.session r).conversation ∧
      (s'.session r).initial = (s.session r).initial := by
  by_cases h : r = (s.op stream).session
  · subst h
    obtain ⟨-, hinitial, hconv, -⟩ := NativeSession.bare_eq hs.own
    exact ⟨hconv, hinitial⟩
  · obtain ⟨-, -, hinitial, hconv, -⟩ := NativeSession.core_eq (hs.other r hr h)
    exact ⟨hconv, hinitial⟩

theorem State.retire_session (s : State) (stream : ℕ) (phase : HandlePhase) (r : ℕ) :
    ((s.retire stream phase).session r).conversation = (s.session r).conversation ∧
      ((s.retire stream phase).session r).initial = (s.session r).initial := by
  by_cases h : r = (s.op stream).session
  · subst h
    simp [State.retire]
  · simp [State.retire, h]

theorem State.drop_session (s : State) (r' r : ℕ) :
    ((s.drop r').session r).conversation = (s.session r).conversation ∧
      ((s.drop r').session r).initial = (s.session r).initial := by
  by_cases h : r = r'
  · subst h
    simp [State.drop]
  · simp [State.drop, h]

/-- A step of the worker keeps every history, as long as the native library
does no harm. -/
theorem Move.recalls (h : Move rt harmless w t) (hg : harmless) (hw : Consistent w.state)
    (hf : w.state.fatalExit = false) (hr : Recalls r w) : Recalls r t := by
  have hsame (hsessions : t.state.sessions = w.state.sessions)
      (hnext : t.state.nextSession = w.state.nextSession)
      (hsent : transcript r t.sent = transcript r w.sent)
      (hsession : r ∈ w.state.sessions →
        (t.state.session r).conversation = (w.state.session r).conversation ∧
          (t.state.session r).initial = (w.state.session r).initial)
      (hspared : r ∈ w.state.sessions → (w.state.session r).conversation = true →
        Spared r w.state t.state) : Recalls r t := by
    refine hr.spared hnext.ge hsent fun hmem hc ↦ ?_
    rw [hsessions] at hmem
    obtain ⟨hconv, hinitial⟩ := hsession hmem
    exact ⟨hmem, hconv ▸ hc, hinitial, hspared hmem⟩
  cases h with
  | quiet h =>
    refine hsame h.sessions h.nextSession rfl (fun hmem ↦ ?_) fun hmem hc ↦ .quiet h hmem hc
    obtain ⟨-, -, hinitial, hconv, -⟩ := NativeSession.core_eq (h.session r hmem)
    exact ⟨hconv, hinitial⟩
  | reply request result =>
    refine hsame rfl rfl ((transcript_concat ..).trans (List.append_nil _)) (fun _ ↦ ⟨rfl, rfl⟩)
      fun _ hc ↦ .of_core rfl hc (fun _ _ _ _ h ↦ h) fun _ h _ ↦ ⟨h, rfl, Native.steady_refl _ _⟩
  | callback c => exact ⟨fun hmem hc ↦ (hr.known hmem hc).callback hw c hc, hr.fresh⟩
  | load =>
    exact hsame rfl rfl rfl (fun _ ↦ ⟨rfl, rfl⟩)
      fun _ hc ↦ .objects rfl hc rfl rfl ⟨rfl, rfl⟩ (by simp) rfl
  | unload =>
    exact hsame rfl rfl rfl (fun _ ↦ ⟨rfl, rfl⟩)
      fun _ hc ↦ .objects rfl hc rfl rfl ⟨rfl, rfl⟩ (by simp) rfl
  | exhaust =>
    exact hsame rfl rfl rfl (fun _ ↦ ⟨rfl, rfl⟩)
      fun _ hc ↦ .of_core rfl hc (fun _ _ _ _ h ↦ h) fun _ h _ ↦ ⟨h, rfl, .of_eq rfl rfl⟩
  | leak =>
    exact hsame rfl rfl rfl (fun _ ↦ ⟨rfl, rfl⟩)
      fun _ hc ↦ .objects rfl hc rfl rfl ⟨rfl, rfl⟩ (by simp) rfl
  | @add x q hchat hraw hstream hhistory hq =>
    by_cases hnew : r = w.state.nextSession
    · -- the history of a new session is what it was created with
      have hself : (w.state.add x).session r = x := by
        rw [hnew]
        exact Function.update_self ..
      have hnone : transcript r w.sent = [] := hr.fresh hnew.ge
      refine ⟨fun _ _ ↦ ?_, fun _ ↦ hnone⟩
      have hconv : (w.state.add x).conversation r = none :=
        State.conversation_none (by rw [hself, hchat])
      rw [hnone, List.append_nil, hself, hhistory]
      refine ⟨by rw [hself], fun c hc ↦ ?_, fun _ c hc ↦ ?_, fun stream hop hsession ↦ ?_⟩
      · simp [hconv] at hc
      · simp [hconv] at hc
      · have hbound := (hw.sessionBound _ (hw.opSession stream hop).1).2
        have hsession : (w.state.op stream).session = r := hsession
        omega
    · have hother : (w.state.add x).session r = w.state.session r := Function.update_of_ne hnew ..
      refine hr.spared (Nat.le_succ _) rfl fun hmem hc ↦ ?_
      have hmem : r ∈ w.state.sessions := by simpa [State.add, hnew] using hmem
      rw [hother] at hc
      exact ⟨hmem, hc, by rw [hother], fun hc ↦ .of_core (by rw [hother]) hc
        (fun _ _ _ _ h ↦ h) fun _ h _ ↦ ⟨h, rfl, Native.steady_refl _ _⟩⟩
  | @give r' p q next setters hr' hh hq hp hnext hbelow =>
    by_cases hsame' : r = r'
    · subst hsame'
      have hself : (w.state.give r ((w.state.session r).opened (w.state.session r).history (some p))
          p next setters ((w.state.session r).resource q (w.state.session r).history)).session r =
          (w.state.session r).opened (w.state.session r).history (some p) :=
        Function.update_self ..
      refine ⟨fun hmem hc ↦ ?_, hr.fresh⟩
      dsimp only at hc ⊢
      rw [hself] at hc ⊢
      exact (hr.known hmem hc).give hw hc hh
    · refine hsame rfl rfl rfl (fun _ ↦ ?_) fun hmem hc ↦ .give hw hmem hc hsame' hp
      simp [State.give, hsame']
  | @drop r' hr' hop =>
    exact hsame rfl rfl rfl (fun _ ↦ w.state.drop_session r' r) fun _ hc ↦ .drop hc hop
  | @remove r' hh hop =>
    refine hr.spared le_rfl rfl fun hmem hc ↦ ⟨(List.mem_filter.mp hmem).1, hc, rfl, fun hc ↦ ?_⟩
    exact .of_core rfl hc (fun _ _ _ _ h ↦ h) fun _ h _ ↦ ⟨h, rfl, Native.steady_refl _ _⟩
  | cancel hstream hc overflow =>
    exact hsame rfl rfl rfl (fun _ ↦ ⟨rfl, rfl⟩) fun _ hc ↦ .cancel hc _ overflow
  | rebuild hbad => exact absurd hg hbad
  | discard =>
    exact hsame rfl rfl rfl (fun _ ↦ ⟨rfl, rfl⟩) fun _ hc ↦ .bridge hc _ rfl
  | token =>
    refine hsame rfl rfl (transcript_emit _ _ _ (by simp)) (fun _ ↦ ⟨rfl, rfl⟩) fun _ hc ↦ ?_
    exact (Spared.bridge hc _ (c := .take) rfl).of_op rfl
  | @release s stream hstream hs hhistory phase e he =>
    refine hsame hs.unseen.sessions hs.unseen.nextSession
      (transcript_emit _ _ _ (Event.ne_complete_of_failure he)) (fun hmem ↦ ?_) fun hmem hc ↦ ?_
    · obtain ⟨hconv, hinitial⟩ := hs.session_kept hmem
      obtain ⟨hconv', hinitial'⟩ := s.retire_session stream phase r
      obtain ⟨hconv'', hinitial''⟩ := (s.retire stream phase).drop_session (s.op stream).session r
      exact ⟨hconv''.trans (hconv'.trans hconv), hinitial''.trans (hinitial'.trans hinitial)⟩
    · refine .release hw hstream hs phase hmem hc ?_
      rw [hhistory hg, (hs.session_eq hstream).1]
  | @complete s stream e hstream hs he hkind hc hcalls hhistory phase =>
    obtain ⟨hsession, -⟩ := hs.session_eq hstream
    have hbound := hw.sessionBound _ (hw.opSession stream hstream).1
    have hfatal : (s.retire stream phase).fatalExit = false :=
      (congrArg Prod.fst hs.flags).trans hf
    have hsent : transcript r (emit (s.retire stream phase) w.sent stream
        (.complete (s.op stream).text)).sent = transcript r w.sent ++
          turnsOf r (.event stream (.complete (s.op stream).text), s.retire stream phase) := by
      rw [emit, hfatal]
      exact transcript_concat ..
    by_cases hown : (w.state.op stream).session = r
    · refine ⟨fun hmem hc ↦ ?_, fun hlt ↦ ?_⟩
      · have hmem : r ∈ w.state.sessions := hs.unseen.sessions ▸ hmem
        obtain ⟨hconv, hinitial⟩ := hs.session_kept hmem
        obtain ⟨hconv', hinitial'⟩ := s.retire_session stream phase r
        have hc' : (w.state.session r).conversation = true :=
          (hconv'.trans hconv).symm.trans hc
        rw [hsent, emit_state, hinitial', hinitial, ← List.append_assoc]
        exact (hr.known hmem hc').complete hw hstream hs hown hc' he hkind (hhistory hg) phase
      · have hlt : s.nextSession ≤ r := hlt
        rw [hs.unseen.nextSession] at hlt
        omega
    · have hop : ((s.retire stream phase).op stream).session ≠ r := fun h ↦
        hown (hsession.symm.trans h)
      refine hsame hs.unseen.sessions hs.unseen.nextSession ?_ (fun hmem ↦ ?_) fun hmem hc ↦
        .retire hw hstream hs phase hmem hc (Ne.symm hown)
      · rw [hsent, turnsOf, if_neg hop, List.append_nil]
      · obtain ⟨hconv, hinitial⟩ := hs.session_kept hmem
        obtain ⟨hconv', hinitial'⟩ := s.retire_session stream phase r
        exact ⟨hconv'.trans hconv, hinitial'.trans hinitial⟩

theorem Moves.recalls (h : Moves rt harmless w t) (hg : harmless) (hw : Consistent w.state)
    (hf : w.state.fatalExit = false) (hr : Recalls r w) : Recalls r t := by
  have hall : Consistent t.state ∧ t.state.fatalExit = false ∧ Recalls r t := by
    induction h with
    | refl => exact ⟨hw, hf, hr⟩
    | tail _ hmove ih =>
      obtain ⟨hu, hfu, hru⟩ := ih
      exact ⟨hmove.consistent rt hu, (congrArg Prod.fst hmove.flags).trans hfu,
        hmove.recalls hg hu hfu hru⟩
  exact hall.2.2

/-- Before a request the session has its history, and its handle has the
history and all messages of the batch but the last. -/
theorem Prepared.context (h : Prepared s r messages s') (hs : Remembers s r past)
    (hidle : (s.session r).streamId = none) (hc : (s.session r).conversation = true) :
    (s'.session r).history = past ∧ (s'.session r).initial = (s.session r).initial ∧
      ∀ c ∈ s'.conversation r, (s'.session r).nativePreface = c.preface ∧ c.sending = none ∧
        c.preface ++ c.turns = past ++ messages.dropLast := by
  cases h with
  | reuse hh hsingle hne =>
    refine ⟨hs.history, rfl, fun c hmem ↦ ?_⟩
    obtain ⟨hsending, hturns⟩ := hs.idle hidle c hmem
    have hnone : messages.dropLast = [] := by
      rw [← List.length_eq_zero_iff, List.length_dropLast]
      have := hsingle hc
      omega
    rw [hnone, List.append_nil]
    exact ⟨hs.preface c hmem, hsending, hturns⟩
  | @rebuild p q next setters =>
    have hself : ((s.drop r).give r ((s.session r).opened ((s.session r).history ++
        messages.dropLast) (some p)) p next setters ((s.session r).resource q
        ((s.session r).history ++ messages.dropLast))).session r =
        (s.session r).opened ((s.session r).history ++ messages.dropLast) (some p) :=
      Function.update_self ..
    have hnew : ((s.drop r).give r ((s.session r).opened ((s.session r).history ++
        messages.dropLast) (some p)) p next setters ((s.session r).resource q
        ((s.session r).history ++ messages.dropLast))).conversation r =
        some { preface := (s.session r).history ++ messages.dropLast } := by
      simp [State.conversation, State.give, NativeSession.opened, NativeSession.resource, hc,
        Native.after]
    rw [hself, hnew]
    refine ⟨hs.history, rfl, fun c hmem ↦ ?_⟩
    obtain rfl := Option.some.inj hmem
    refine ⟨rfl, rfl, ?_⟩
    simp [hs.history]

theorem Spared.prepared {r' : ℕ} (h : Prepared s r' messages s') (hw : Consistent s)
    (hr' : r' ∈ s.sessions) (hidle : (s.session r').streamId = none) (hr : r ∈ s.sessions)
    (hc : (s.session r).conversation = true) (hne : r ≠ r') : Spared r s s' := by
  cases h with
  | reuse =>
    exact .of_core rfl hc (fun _ _ _ _ h ↦ h) fun _ h _ ↦ ⟨h, rfl, Native.steady_refl _ _⟩
  | @rebuild p q next setters hc' hbatch hq hp hnext hbelow =>
    have hop (t : ℕ) (ht : t ∈ s.operations) : (s.op t).session ≠ r' := by
      rintro rfl
      have hid := (hw.opSession t ht).2.1
      rw [hidle] at hid
      cases hid
    have hgone : (s.drop r').native.live p = none := by
      rw [State.drop]
      cases (s.session r').handle with
      | none => exact hp
      | some p' => exact (Function.update_apply ..).trans (by rw [hp, ite_self])
    obtain ⟨hconv, -⟩ := s.drop_session r' r
    exact (Spared.drop hc hop).trans (.give (hw.drop hr' hop) hr (hconv.trans hc) hne hgone)

theorem Native.start_live (n : Native) (id p : ℕ) (message : Message) (status : ℤ)
    (error : Option Bridge.CString) :
    (n.start id (some p) message status error).live =
      if status = 0 then Function.update n.live p ((n.live p).map (Resource.send id message))
      else n.live := by
  have hlive := (n.bridge_spec id .start).2.1
  unfold Native.start
  split_ifs
  · rw [Native.send, hlive]
  · rw [((n.bridge id .start).bridge_spec id (.startFailed error)).2.1, hlive]

theorem Native.start_other (n : Native) {id id' : ℕ} (hne : id' ≠ id) (pointer : Option ℕ)
    (message : Message) (status : ℤ) (error : Option Bridge.CString) :
    (n.start id pointer message status error).operation id' = n.operation id' ∧
      (n.start id pointer message status error).calls id' = n.calls id' := by
  have hstart := n.bridge_other hne .start
  unfold Native.start
  split_ifs
  · exact hstart
  · have hfailed := (n.bridge id .start).bridge_other hne (.startFailed error)
    exact ⟨hfailed.1.trans hstart.1, hfailed.2.trans hstart.2⟩

theorem Native.start_operation {n : Native} {skip : ℕ} (hid : n.operationId skip ≠ 0)
    (pointer : Option ℕ) (message : Message) (status : ℤ) (error : Option Bridge.CString) :
    let m := (n.operationCreate skip).start (n.operationId skip) pointer message status error
    (m.operation (n.operationId skip)).final = !(status == 0) ∧
      m.calls (n.operationId skip) =
        if status = 0 then [.start] else [.start, .startFailed error] := by
  rw [Native.operationCreate_of_ne hid]
  by_cases hstatus : status = 0
  · simp [Native.start, Native.send, Native.bridge, hstatus, Bridge.call, Bridge.start]
  · simp [Native.start, Native.bridge, hstatus, Bridge.call, Bridge.startFailed_final]

theorem State.launch_op (s : State) (stream r skip : ℕ) (messages : List Message) :
    (s.launch stream r skip messages).op stream =
      { session := r, native := s.native.operationId skip, messages := messages } :=
  Function.update_self ..

theorem State.launch_session (s : State) (stream r skip : ℕ) (messages : List Message) :
    (s.launch stream r skip messages).session r =
      { s.session r with phase := .generating, streamId := some stream } :=
  Function.update_self ..

theorem State.mem_launch {t : ℕ} (hne : t ≠ stream)
    (ht : t ∈ if stream ∈ s.operations then s.operations else s.operations ++ [stream]) :
    t ∈ s.operations := by
  split_ifs at ht with hmem
  · exact ht
  · simpa [hne] using ht

theorem State.start_conversation {skip : ℕ} {status : ℤ} {error : Option Bridge.CString}
    (hc : (s.session r).conversation = true)
    (h : c ∈ ((s.launch stream r skip messages).start stream status error).conversation r) :
    ∃ c₀ ∈ s.conversation r, c =
      if status = 0 then
        { c₀ with sending := some (s.native.operationId skip, messages.getLast?.getD []) }
      else c₀ := by
  obtain ⟨p, owner, hchat, hp⟩ := State.mem_conversation.mp h
  have hchat' : (s.session r).chat = some p := by
    simpa [State.start, State.launch_session] using hchat
  have hhandle : ((s.launch stream r skip messages).session r).handle = some p :=
    NativeSession.handle_of_chat (by rw [State.launch_session]; exact hc)
      (by rw [State.launch_session]; exact hchat')
  have hlive := Native.start_live (s.native.operationCreate skip) (s.native.operationId skip) p
    (messages.getLast?.getD []) status error
  rw [(s.native.operationCreate_spec skip).1] at hlive
  simp only [State.start, State.launch_op, hhandle] at hp
  rw [show (s.launch stream r skip messages).native = s.native.operationCreate skip from rfl,
    hlive] at hp
  split_ifs at hp with hstatus
  · rw [Function.update_self] at hp
    obtain ⟨res, hres, hsend⟩ := Option.map_eq_some_iff.mp hp
    cases res with
    | conversation owner' c₀ =>
      obtain ⟨-, rfl⟩ := Resource.conversation.inj hsend
      exact ⟨c₀, State.mem_conversation.mpr ⟨p, owner', hchat', hres⟩, by rw [if_pos hstatus]⟩
    | _ => cases hsend
  · exact ⟨c, State.mem_conversation.mpr ⟨p, owner, hchat', hp⟩, by rw [if_neg hstatus]⟩

theorem Remembers.launch {skip : ℕ} {status : ℤ} {error : Option Bridge.CString}
    (hw : Consistent s) (hc : (s.session r).conversation = true)
    (hidle : (s.session r).streamId = none) (hid : s.native.operationId skip ≠ 0)
    (hne : messages ≠ []) (hhistory : (s.session r).history = past)
    (hcontext : ∀ c ∈ s.conversation r, (s.session r).nativePreface = c.preface ∧
      c.sending = none ∧ c.preface ++ c.turns = past ++ messages.dropLast) :
    Remembers ((s.launch stream r skip messages).start stream status error) r past := by
  have hself : ((s.launch stream r skip messages).start stream status error).session r =
      { s.session r with phase := .generating, streamId := some stream } :=
    s.launch_session stream r skip messages
  refine ⟨by rw [hself]; exact hhistory, fun c hmem ↦ ?_, fun hnone ↦ ?_, fun t ht hsession ↦ ?_⟩
  · obtain ⟨c₀, hc₀, rfl⟩ := State.start_conversation hc hmem
    rw [hself]
    split_ifs <;> exact (hcontext c₀ hc₀).1
  · rw [hself] at hnone
    cases hnone
  · by_cases hsame : t = stream
    · subst hsame
      have hop : ((s.launch t r skip messages).start t status error).op t =
          { session := r, native := s.native.operationId skip, messages := messages } :=
        s.launch_op t r skip messages
      obtain ⟨hfinal, hcalls⟩ := Native.start_operation hid
        ((s.launch t r skip messages).session r).handle (messages.getLast?.getD []) status error
      have hnative : ((s.launch t r skip messages).start t status error).native =
          (s.native.operationCreate skip).start (s.native.operationId skip)
            ((s.launch t r skip messages).session r).handle (messages.getLast?.getD []) status
              error := by
        simp only [State.start, State.launch_op]
        rfl
      rw [hop, hnative]
      refine ⟨hne, fun c hmem ↦ ?_⟩
      obtain ⟨c₀, hc₀, rfl⟩ := State.start_conversation hc hmem
      obtain ⟨-, hsending, hturns⟩ := hcontext c₀ hc₀
      by_cases hstatus : status = 0
      · subst hstatus
        refine ⟨fun _ ↦ ⟨rfl, hturns⟩, fun hf ↦ ?_⟩
        cases hfinal.symm.trans hf
      · rw [if_neg hstatus] at hcalls ⊢
        refine ⟨fun hf ↦ ?_, fun _ ↦ ⟨hsending, .inl ?_⟩⟩
        · have hf := hfinal.symm.trans hf
          simp [hstatus] at hf
        · rw [hcalls]
          exact ⟨[.start], .startFailed error, [], rfl, rfl, Bridge.startFailed_final .., rfl⟩
    · -- no other operation runs on an idle session
      have ht' : t ∈ s.operations := State.mem_launch hsame ht
      have hsession' : (s.op t).session = r := by
        simpa [State.start, State.launch, hsame] using hsession
      have hstream := (hw.opSession t ht').2.1
      rw [hsession', hidle] at hstream
      cases hstream

theorem Spared.launch {r' skip : ℕ} {status : ℤ} {error : Option Bridge.CString}
    (hw : Consistent s) (hr : r ∈ s.sessions) (hr' : r' ∈ s.sessions)
    (hc : (s.session r).conversation = true) (hne : r ≠ r') (hid : s.native.operationId skip ≠ 0)
    (hh : (s.session r').handle ≠ none) :
    Spared r s ((s.launch stream r' skip messages).start stream status error) := by
  obtain ⟨p', hp'⟩ := Option.ne_none_iff_exists'.mp hh
  have hhandle : ((s.launch stream r' skip messages).session r').handle = some p' := by
    rw [State.launch_session, ← hp']
    rfl
  have hnative : ((s.launch stream r' skip messages).start stream status error).native =
      (s.native.operationCreate skip).start (s.native.operationId skip) (some p')
        (messages.getLast?.getD []) status error := by
    simp only [State.start, State.launch_op, hhandle]
    rfl
  have hself : ((s.launch stream r' skip messages).start stream status error).session r =
      s.session r := Function.update_of_ne hne ..
  refine .of_core (by rw [hself]) hc (fun p owner c hp h ↦ ?_) fun t ht hsession ↦ ?_
  · have hother : p ≠ p' := by
      rintro rfl
      exact hne (hw.distinct r hr r' hr' p (NativeSession.handle_of_chat hc hp) hp')
    rw [hnative, Native.start_live, (s.native.operationCreate_spec skip).1] at h
    split_ifs at h
    · rwa [Function.update_of_ne hother] at h
    · exact h
  · have hother : t ≠ stream := by
      rintro rfl
      have hop : ((s.launch t r' skip messages).start t status error).op t =
          { session := r', native := s.native.operationId skip, messages := messages } :=
        s.launch_op t r' skip messages
      rw [hop] at hsession
      exact hne hsession.symm
    have ht' : t ∈ s.operations := State.mem_launch hother ht
    have hop : ((s.launch stream r' skip messages).start stream status error).op t = s.op t :=
      Function.update_of_ne hother ..
    refine ⟨ht', by rw [hop], ?_⟩
    -- the new operation has a number of its own
    have hnew : (s.op t).native ≠ s.native.operationId skip :=
      (hw.operationId_lt hid (hw.opNative t ht')).ne
    obtain ⟨hop', hcalls⟩ := Native.start_other (s.native.operationCreate skip) hnew (some p')
      (messages.getLast?.getD []) status error
    rw [hnative]
    refine .of_eq (hop'.trans ?_) (hcalls.trans ?_)
    · rw [Native.operationCreate_of_ne hid]
      exact Function.update_of_ne hnew ..
    · rw [Native.operationCreate_of_ne hid]
      exact Function.update_of_ne hnew ..

theorem Spared.abort {r' skip : ℕ} (hw : Consistent s)
    (hidle : (s.session r').streamId = none) (hc : (s.session r).conversation = true)
    (hid : s.native.operationId skip ≠ 0) :
    Spared r s ((s.launch stream r' skip messages).retire stream .ready) := by
  refine .of_core ?_ hc (fun p owner c _ h ↦ ?_) fun t ht _ ↦ ?_
  · rw [State.retire, State.launch_op]
    by_cases hsame : r = r'
    · subst hsame
      simp only [State.launch, Function.update_self, NativeSession.core, hidle]
      rfl
    · simp [State.launch, hsame]
  · rw [← (s.native.operationCreate_spec skip).1]
    exact h
  · obtain ⟨hmem, hother⟩ : t ∈ (s.launch stream r' skip messages).operations ∧ t ≠ stream := by
      simpa [State.retire] using ht
    have ht' : t ∈ s.operations := State.mem_launch hother hmem
    have hop : ((s.launch stream r' skip messages).retire stream .ready).op t = s.op t :=
      Function.update_of_ne hother ..
    have hnew : (s.op t).native ≠ s.native.operationId skip :=
      (hw.operationId_lt hid (hw.opNative t ht')).ne
    refine ⟨ht', by rw [hop], .of_eq ?_ ?_⟩
    · show (s.native.operationCreate skip).operation _ = _
      rw [Native.operationCreate_of_ne hid]
      exact Function.update_of_ne hnew ..
    · show (s.native.operationCreate skip).calls _ = _
      rw [Native.operationCreate_of_ne hid]
      exact Function.update_of_ne hnew ..

theorem Generated.recalls {r' : ℕ} (h : Generated rt harmless stream r' w t)
    (hw : Consistent w.state) (hr : Recalls r w) : Recalls r t := by
  cases h with
  | @launch s skip messages status error hr' hidle hs hid =>
    obtain ⟨hsessions, -, hh, hstream, hconv'⟩ := hs.spec
    have hprepared := hw.prepared hr' hidle hs
    have hnext : s.nextSession = w.state.nextSession := by cases hs <;> rfl
    have hne : messages ≠ [] := by
      cases hs with
      | reuse _ _ hne => exact hne
      | rebuild _ hbatch => exact List.ne_nil_of_length_pos (by omega)
    by_cases hsame : r = r'
    · subst hsame
      have hself : ((s.launch stream r skip messages).start stream status error).session r =
          { s.session r with phase := .generating, streamId := some stream } :=
        s.launch_session stream r skip messages
      refine ⟨fun hmem hc ↦ ?_, fun hlt ↦ hr.fresh (hnext ▸ hlt)⟩
      dsimp only at hc ⊢
      rw [hself] at hc ⊢
      have hc' : (w.state.session r).conversation = true := hconv' ▸ hc
      obtain ⟨hhistory, hinitial, hcontext⟩ := hs.context (hr.known hr' hc') hidle hc'
      dsimp only
      rw [hinitial]
      exact .launch hprepared hc (hstream.trans hidle) hid hne hhistory hcontext
    · have hself : ((s.launch stream r' skip messages).start stream status error).session r =
          s.session r := Function.update_of_ne hsame ..
      refine hr.spared hnext.ge rfl fun hmem hc ↦ ?_
      dsimp only at hc ⊢
      rw [hself] at hc ⊢
      have hmem : r ∈ w.state.sessions := hsessions ▸ hmem
      have hkept : (s.session r).conversation = (w.state.session r).conversation ∧
          (s.session r).initial = (w.state.session r).initial := by
        cases hs with
        | reuse => exact ⟨rfl, rfl⟩
        | rebuild =>
          have hgive := w.state.drop_session r' r
          simpa [State.give, hsame] using hgive
      refine ⟨hmem, hkept.1 ▸ hc, hkept.2, fun hc' ↦ ?_⟩
      exact (Spared.prepared hs hw hr' hidle hmem hc' hsame).trans
        (.launch hprepared (hsessions.symm ▸ hmem) (hsessions.symm ▸ hr') hc hsame hid hh)
  | @abort skip messages e hr' hh hidle hid =>
    obtain ⟨hconv, hinitial⟩ :=
      (w.state.launch stream r' skip messages).retire_session stream .ready r
    have hlaunch : ((w.state.launch stream r' skip messages).session r).conversation =
          (w.state.session r).conversation ∧
        ((w.state.launch stream r' skip messages).session r).initial =
          (w.state.session r).initial := by
      by_cases hsame : r = r'
      · subst hsame
        rw [State.launch_session]
        exact ⟨rfl, rfl⟩
      · simp [State.launch, hsame]
    refine hr.spared le_rfl (transcript_emit _ _ _ (by simp)) fun hmem hc ↦ ?_
    have hc' : (w.state.session r).conversation = true :=
      (hconv.trans hlaunch.1).symm.trans hc
    exact ⟨hmem, hc', hinitial.trans hlaunch.2, fun hc ↦ .abort hw hidle hc hid⟩
  | refuse =>
    refine hr.spared le_rfl (transcript_emit _ _ _ (by simp)) fun hmem hc ↦ ⟨hmem, hc, rfl, ?_⟩
    exact fun hc ↦ .of_core rfl hc (fun _ _ _ _ h ↦ h) fun _ h _ ↦ ⟨h, rfl, Native.steady_refl _ _⟩

theorem Turn.recalls {a : Action} (h : Turn rt harmless w a t) (hg : harmless)
    (hw : Consistent w.state) (hr : w.state.fatalExit = false → Recalls r w) :
    t.state.fatalExit = false → Recalls r t := by
  intro hf
  have hkeep {t : NativeWorker} (h : Moves rt harmless w t) (hf : t.state.fatalExit = false) :
      Recalls r t := by
    have hf' : w.state.fatalExit = false := (congrArg Prod.fst h.flags).symm.trans hf
    exact h.recalls hg hw hf' (hr hf')
  cases h with
  | deaf => exact hr hf
  | plain _ _ h => exact hkeep h hf
  | generate _ h =>
    obtain ⟨u, v, hu, hcons, -, hgenerated, hv⟩ := h
    have hfv : v.state.fatalExit = false := (congrArg Prod.fst hv.2.flags).symm.trans hf
    have hfu : u.state.fatalExit = false := (congrArg Prod.fst hgenerated.flags).symm.trans hfv
    exact hv.2.recalls hg (hgenerated.consistent hcons) hfv
      (hgenerated.recalls hcons (hkeep hu hfu))
  | crash _ _ h =>
    have hcrash := congrArg Prod.fst h.flags
    rw [State.flags, hf] at hcrash
    cases hcrash
  | refuse _ _ h => exact hkeep h hf
  | @close request t _ h =>
    refine (hkeep h hf).spared le_rfl ?_ fun hmem hc ↦ ⟨hmem, hc, rfl, fun hc ↦ ?_⟩
    · cases request with
      | none => rfl
      | some request => exact (transcript_concat ..).trans (List.append_nil _)
    · exact .of_core rfl hc (fun _ _ _ _ h ↦ h) fun _ h _ ↦ ⟨h, rfl, Native.steady_refl _ _⟩
  | tick h => exact hkeep h hf
  | callback c => exact hkeep (.single (.callback w c)) hf

/-- Nothing goes wrong in a run that the native library could do harm with. -/
def HarmlessRun (rt : Runtime) (actions : List Action) : Prop :=
  ∀ before a after, actions = before ++ a :: after → Harmless rt (run rt before) a

theorem HarmlessRun.of_concat {actions : List Action} {a : Action}
    (h : HarmlessRun rt (actions ++ [a])) :
    HarmlessRun rt actions ∧ Harmless rt (run rt actions) a := by
  refine ⟨fun before b after heq ↦ h before b (after ++ [a]) (by simp [heq]), ?_⟩
  exact h actions a [] rfl

theorem run_recalls {actions : List Action} (h : HarmlessRun rt actions) (r : ℕ) :
    (run rt actions).state.fatalExit = false → Recalls r (run rt actions) := by
  induction actions using List.reverseRecOn with
  | nil => exact fun _ ↦ ⟨fun hr ↦ absurd hr List.not_mem_nil, fun _ ↦ rfl⟩
  | append_singleton actions a ih =>
    obtain ⟨hbefore, ha⟩ := h.of_concat
    rw [run_concat]
    exact (step_turn (run_consistent actions) a).recalls ha (run_consistent actions) (ih hbefore)

theorem run_remembers {actions : List Action} (h : HarmlessRun rt actions)
    (hr : r ∈ (run rt actions).state.sessions)
    (hc : ((run rt actions).state.session r).conversation = true) :
    Remembers (run rt actions).state r
      (((run rt actions).state.session r).initial ++ transcript r (run rt actions).sent) := by
  refine (run_recalls h r ?_).known hr hc
  by_contra hf
  have hempty : Empty (run rt actions).state := run_stopped actions (by simp [State.deaf, hf])
  rw [hempty.sessions] at hr
  cases hr

/-- The history of a conversation is what it was created with and, for each
stream that completed, its messages and the reply; an idle handle has the same
history, and a request runs on it. -/
theorem history_of_completed (rt : Runtime) (actions : List Action)
    (hharmless : HarmlessRun rt actions) (r : ℕ) :
    let s := (run rt actions).state
    r ∈ s.sessions → (s.session r).conversation = true →
      (s.session r).history = (s.session r).initial ++ transcript r (run rt actions).sent ∧
      ((s.session r).streamId = none → (s.session r).handle ≠ none →
        ∃ c ∈ s.conversation r, c.preface = (s.session r).nativePreface ∧ c.sending = none ∧
          (s.session r).nativePreface ++ c.turns = (s.session r).history) ∧
      ∀ stream ∈ s.operations, (s.op stream).session = r → ∀ c ∈ s.conversation r,
        (s.native.operation (s.op stream).native).final = false →
          c.sending = some ((s.op stream).native, (s.op stream).messages.getLast?.getD []) ∧
            (s.session r).nativePreface ++ c.turns =
              (s.session r).history ++ (s.op stream).messages.dropLast := by
  intro s hr hc
  have hs := run_remembers hharmless hr hc
  refine ⟨hs.history, fun hidle hh ↦ ?_, fun stream hstream hsession c hmem hf ↦ ?_⟩
  · obtain ⟨c, hmem⟩ := (run_consistent actions).conversation hr hc hh
    obtain ⟨hsending, hturns⟩ := hs.idle hidle c hmem
    have hpreface := hs.preface c hmem
    exact ⟨c, hmem, hpreface.symm, hsending, by rw [hpreface, hturns, hs.history]⟩
  · obtain ⟨-, hanswers⟩ := hs.running stream hstream hsession
    obtain ⟨hsending, hturns⟩ := (hanswers c hmem).sending hf
    exact ⟨hsending, by rw [hs.preface c hmem, hturns, hs.history]⟩

theorem HarmlessRun.nil : HarmlessRun rt [] := by
  intro before a after h
  simp at h

theorem HarmlessRun.concat {actions : List Action} {a : Action} (h : HarmlessRun rt actions)
    (ha : Harmless rt (run rt actions) a) : HarmlessRun rt (actions ++ [a]) := by
  intro before b after heq
  rcases List.eq_nil_or_concat after with rfl | ⟨after, c, rfl⟩
  · obtain ⟨rfl, hb⟩ := List.append_inj' heq rfl
    obtain rfl : a = b := by simpa using hb
    exact ha
  · have heq' : actions ++ [a] = (before ++ b :: after) ++ [c] := by simpa using heq
    obtain ⟨rfl, -⟩ := List.append_inj' heq' rfl
    exact h before b after rfl

namespace Scenario

def question : Message :=
  [("role", .str "user"),
    ("content", .arr [.obj [("type", .str "text"), ("text", .str "question")]])]

def reply : Message := [("role", .str "assistant"), ("content", .str "answer")]

def remembering : Runtime :=
  { runtime with
    jsonDecode := fun text ↦
      if text = "turns" then some (.arr [.obj question, .obj reply]) else none }

def turns : PumpAnswers :=
  { noAnswers with
    history := fun
      | [[("role", .str "user"),
          ("content", .arr [.obj [("type", .str "text"), ("text", .str "question")]])],
          [("role", .str "assistant"), ("content", .str "answer")]] => Bridge.ascii "turns"
      | _ => [] }

def finalChunk (id : ℕ) : Action := .callback ⟨id, some ⟨none, none, true⟩, reply⟩

def answered : List Action :=
  opened {} true ++ [ask 3] ++ [finalChunk 1] ++ [.tick fun _ ↦ turns]

theorem honest_turns : Honest remembering turns := by
  intro messages text items htext hitems
  unfold turns at htext
  dsimp only at htext
  have hsaved : utf8Decode ((Bridge.ascii "turns").takeWhile (· ≠ 0)) = some "turns" := by
    decide +kernel
  have hnone : utf8Decode (([] : List UInt8).takeWhile (· ≠ 0)) = some "" := by decide +kernel
  split at htext
  · obtain rfl : "turns" = text := Option.some.inj (hsaved.symm.trans htext)
    obtain rfl : [.obj question, .obj reply] = items := by simpa [remembering] using hitems
    rfl
  · obtain rfl : "" = text := Option.some.inj (hnone.symm.trans htext)
    simp [remembering] at hitems

theorem honest_noAnswers : Honest remembering noAnswers := by
  intro messages text items htext hitems
  have hnone : utf8Decode (([] : List UInt8).takeWhile (· ≠ 0)) = some "" := by decide +kernel
  obtain rfl : "" = text := Option.some.inj (hnone.symm.trans htext)
  simp [remembering] at hitems

theorem harmless_opened (rt : Runtime) (params : GenerationParams) (conversation : Bool) :
    HarmlessRun rt (opened params conversation) := by
  have hload : HarmlessRun rt ((opened params conversation).take 1) := by
    refine HarmlessRun.nil.concat ?_
    trivial
  refine hload.concat ?_
  trivial

theorem harmless_answered : HarmlessRun remembering answered := by
  have hasked : HarmlessRun remembering (opened {} true ++ [ask 3]) := by
    refine (harmless_opened remembering {} true).concat
      ⟨fun messages _ _ _ ↦ ?_, fun _ ↦ honest_noAnswers⟩
    exact ⟨by decide +kernel, rfl⟩
  have hreplied : HarmlessRun remembering (opened {} true ++ [ask 3] ++ [finalChunk 1]) := by
    refine hasked.concat ?_
    trivial
  exact hreplied.concat fun _ ↦ honest_turns

end Scenario

theorem history_of_completed_answered :
    let s := (run Scenario.remembering Scenario.answered).state
    (s.session 1).history = (s.session 1).initial ++
        transcript 1 (run Scenario.remembering Scenario.answered).sent ∧
      ((s.session 1).streamId = none → (s.session 1).handle ≠ none →
        ∃ c ∈ s.conversation 1, c.preface = (s.session 1).nativePreface ∧ c.sending = none ∧
          (s.session 1).nativePreface ++ c.turns = (s.session 1).history) ∧
      ∀ stream ∈ s.operations, (s.op stream).session = 1 → ∀ c ∈ s.conversation 1,
        (s.native.operation (s.op stream).native).final = false →
          c.sending = some ((s.op stream).native, (s.op stream).messages.getLast?.getD []) ∧
            (s.session 1).nativePreface ++ c.turns =
              (s.session 1).history ++ (s.op stream).messages.dropLast :=
  history_of_completed Scenario.remembering Scenario.answered Scenario.harmless_answered 1
    (by decide +kernel) (by decide +kernel)

end LibLitertLm.Worker
