import LibLitertLm.Worker.Terminals

namespace LibLitertLm.Worker

open Bridge (Call)

def State.conversation (s : State) (r : ℕ) : Option Conversation :=
  match (s.session r).chat.bind s.native.live with
  | some (.conversation _ c) => some c
  | _ => none

def turnsOf (r : ℕ) : Outgoing × State → List Message
  | (.event stream (.complete _), s) =>
    if (s.op stream).session = r then
      (s.op stream).messages ++ (s.native.turns (s.session r).chat).getLast?.toList
    else []
  | _ => []

def transcript (r : ℕ) (sent : List (Outgoing × State)) : List Message := sent.flatMap (turnsOf r)

variable {rt : Runtime} {harmless : Prop} {w t : NativeWorker} {s s' : State} {r stream : ℕ}
  {past messages : List Message} {c : Conversation}

theorem State.mem_conversation : c ∈ s.conversation r ↔
    ∃ p owner, (s.session r).chat = some p ∧ s.native.live p = some (.conversation owner c) := by
  unfold State.conversation
  cases hchat : (s.session r).chat with
  | none => simp
  | some p =>
    rw [Option.bind_some]
    cases hp : s.native.live p with
    | none => simp [hp]
    | some res => cases res <;> simp [hp]

theorem State.turns_eq (h : c ∈ s.conversation r) :
    s.native.turns (s.session r).chat = c.turns := by
  obtain ⟨p, owner, hchat, hp⟩ := State.mem_conversation.mp h
  simp [Native.turns, hchat, hp]

theorem State.conversation_none (h : (s.session r).chat = none) : s.conversation r = none := by
  simp [State.conversation, h]

theorem State.conversation_mono (hchat : (s'.session r).chat = (s.session r).chat)
    (hlive : ∀ p owner c, (s.session r).chat = some p →
      s'.native.live p = some (.conversation owner c) →
        s.native.live p = some (.conversation owner c)) :
    ∀ c ∈ s'.conversation r, c ∈ s.conversation r := by
  intro c hc
  obtain ⟨p, owner, hp, hl⟩ := State.mem_conversation.mp hc
  rw [hchat] at hp
  exact State.mem_conversation.mpr ⟨p, owner, hp, hlive p owner c hp hl⟩

/-- How far a conversation got with the request of an operation: it works on the
last message, on top of the past and the rest of the batch; once the operation
is final it has replied, or the operation failed. -/
structure Answers (n : Native) (id : ℕ) (past messages : List Message) (c : Conversation) :
    Prop where
  sending : (n.operation id).final = false →
    c.sending = some (id, messages.getLast?.getD []) ∧
      c.preface ++ c.turns = past ++ messages.dropLast
  sent : (n.operation id).final = true →
    c.sending = none ∧ ((Bridge.operation id).Occurs (Bridge.failsFirst id) (n.calls id) ∨
      ∃ before reply, c.turns = before ++ [messages.getLast?.getD [], reply] ∧
        c.preface ++ before = past ++ messages.dropLast)

/-- The session has the history `past`, and so has its native conversation
while it is idle. -/
structure Remembers (s : State) (r : ℕ) (past : List Message) : Prop where
  history : (s.session r).history = past
  preface : ∀ c ∈ s.conversation r, (s.session r).nativePreface = c.preface
  idle : (s.session r).streamId = none → ∀ c ∈ s.conversation r,
    c.sending = none ∧ c.preface ++ c.turns = past
  running : ∀ stream ∈ s.operations, (s.op stream).session = r →
    (s.op stream).messages ≠ [] ∧ ∀ c ∈ s.conversation r,
      Answers s.native (s.op stream).native past (s.op stream).messages c

def Native.Steady (n n' : Native) (id : ℕ) : Prop :=
  (n'.operation id).final = (n.operation id).final ∧
    ((Bridge.operation id).Occurs (Bridge.failsFirst id) (n.calls id) →
      (Bridge.operation id).Occurs (Bridge.failsFirst id) (n'.calls id))

theorem Native.Steady.of_eq {n n' : Native} {id : ℕ} (hop : n'.operation id = n.operation id)
    (hcalls : n'.calls id = n.calls id) : n.Steady n' id :=
  ⟨by rw [hop], fun h ↦ hcalls ▸ h⟩

theorem Native.steady_refl (n : Native) (id : ℕ) : n.Steady n id := .of_eq rfl rfl

theorem Answers.steady {n n' : Native} {id : ℕ} (h : Answers n id past messages c)
    (hn : n.Steady n' id) : Answers n' id past messages c :=
  ⟨fun hf ↦ h.sending (hn.1 ▸ hf), fun hf ↦ by
    obtain ⟨hsending, hsent⟩ := h.sent (hn.1 ▸ hf)
    exact ⟨hsending, hsent.imp_left hn.2⟩⟩

/-- A bridge call that neither brings a chunk nor reports a failed start. -/
def takes : Call → Bool
  | .start | .cancel | .take | .callback none => true
  | .startFailed _ | .callback (some _) => false

theorem call_final {c : Call} (hc : takes c = true) (id : ℕ) (op : Bridge.Operation) :
    (Bridge.call id op c).1.final = op.final := by
  cases c with
  | start =>
    simp only [Bridge.call, Bridge.start]
    split_ifs <;> rfl
  | cancel =>
    simp only [Bridge.call, Bridge.operationCancel]
    split_ifs <;> rfl
  | take =>
    simp only [Bridge.call, Bridge.operationTake]
    cases op.queue <;> rfl
  | startFailed => cases hc
  | callback chunk =>
    cases chunk with
    | none => rfl
    | some chunk => cases hc

theorem Native.steady_bridge (n : Native) {c : Call} (hc : takes c = true) (id id' : ℕ) :
    n.Steady (n.bridge id' c) id := by
  by_cases hid : id' ∈ n.registry
  · by_cases hsame : id = id'
    · subst hsame
      refine ⟨?_, fun h ↦ ?_⟩
      · simp [Native.bridge, hid, call_final hc]
      · rw [Native.bridge_calls hid]
        exact (Machine.occurs_concat ..).mpr (.inl h)
    · exact .of_eq (n.bridge_other hsame c).1 (n.bridge_other hsame c).2
  · simp only [Native.bridge, if_neg hid]
    exact n.steady_refl id

def Op.request (o : Op) : ℕ × ℕ × List Message := (o.session, o.native, o.messages)

/-- The session keeps its history, and its native conversation if it keeps it. -/
structure Spared (r : ℕ) (s s' : State) : Prop where
  history : (s'.session r).history = (s.session r).history
  context : ∀ c ∈ s'.conversation r, c ∈ s.conversation r ∧
    (s'.session r).nativePreface = (s.session r).nativePreface
  idle : (s'.session r).streamId = none → s'.conversation r ≠ none →
    (s.session r).streamId = none
  running : ∀ stream ∈ s'.operations, (s'.op stream).session = r →
    stream ∈ s.operations ∧ (s'.op stream).request = (s.op stream).request ∧
      s.native.Steady s'.native (s.op stream).native

theorem Remembers.spared (hs : Remembers s r past) (h : Spared r s s') : Remembers s' r past := by
  refine ⟨h.history.trans hs.history, fun c hc ↦ ?_, fun hid c hc ↦ ?_, fun stream hstream hr ↦ ?_⟩
  · obtain ⟨hc', hpreface⟩ := h.context c hc
    exact hpreface.trans (hs.preface c hc')
  · refine hs.idle (h.idle hid ?_) c (h.context c hc).1
    rw [Option.mem_def.mp hc]
    simp
  · obtain ⟨hlive, hrequest, hsteady⟩ := h.running stream hstream hr
    simp only [Op.request, Prod.mk.injEq] at hrequest
    obtain ⟨hsession, hnative, hmessages⟩ := hrequest
    obtain ⟨hne, hanswers⟩ := hs.running stream hlive (hsession ▸ hr)
    rw [hnative, hmessages]
    exact ⟨hne, fun c hc ↦ (hanswers c (h.context c hc).1).steady hsteady⟩

theorem NativeSession.handle_of_chat {x : NativeSession} (hc : x.conversation = true) {p : ℕ}
    (hp : x.chat = some p) : x.handle = some p := by
  rw [NativeSession.handle, if_pos hc, hp]

/-- A change that a conversation does not notice. -/
theorem Spared.of_core (hcore : (s'.session r).core = (s.session r).core)
    (hc : (s.session r).conversation = true)
    (hlive : ∀ p owner c, (s.session r).chat = some p →
      s'.native.live p = some (.conversation owner c) →
        s.native.live p = some (.conversation owner c))
    (hrunning : ∀ stream ∈ s'.operations, (s'.op stream).session = r →
      stream ∈ s.operations ∧ (s'.op stream).request = (s.op stream).request ∧
        s.native.Steady s'.native (s.op stream).native) : Spared r s s' := by
  obtain ⟨hframe, hhistory, -, hconv, hchat, hpreface⟩ := NativeSession.core_eq hcore
  refine ⟨hhistory, fun c hmem ↦ ⟨State.conversation_mono hchat hlive c hmem, hpreface ?_⟩,
    fun h _ ↦ ?_, hrunning⟩
  · obtain ⟨p, owner, hp, -⟩ := State.mem_conversation.mp hmem
    rw [NativeSession.handle_of_chat (hconv.trans hc) hp]
    simp
  · obtain ⟨-, -, -, -, hid⟩ := NativeSession.frame_eq hframe
    exact hid ▸ h

/-- A session that loses its handle has no conversation to keep. -/
theorem Spared.of_gone (hhistory : (s'.session r).history = (s.session r).history)
    (hgone : s'.conversation r = none)
    (hrunning : ∀ stream ∈ s'.operations, (s'.op stream).session ≠ r) : Spared r s s' :=
  ⟨hhistory, fun c hc ↦ by simp [hgone] at hc, fun _ h ↦ absurd hgone h,
    fun stream hstream hr ↦ absurd hr (hrunning stream hstream)⟩

theorem Op.request_of_core {o o' : Op} (h : o.core = o'.core) : o.request = o'.request :=
  field_eq Op.core Op.request (fun _ ↦ rfl) h

theorem Spared.quiet (h : Quiet s s') (hr : r ∈ s.sessions)
    (hc : (s.session r).conversation = true) : Spared r s s' := by
  obtain ⟨next, setters, -, hnative⟩ := h.native
  refine .of_core (h.session r hr) hc (fun p owner c _ hp ↦ by rwa [hnative] at hp)
    fun stream hstream _ ↦ ⟨h.operations ▸ hstream, Op.request_of_core (h.op stream), ?_⟩
  rw [hnative]
  exact .of_eq rfl rfl

theorem Native.live_other {live : ℕ → Option Resource} {p p' : ℕ} {x : Option Resource}
    (hx : ∀ owner c, x ≠ some (.conversation owner c)) {owner : ℕ} {c : Conversation}
    (h : Function.update live p x p' = some (.conversation owner c)) :
    live p' = some (.conversation owner c) := by
  by_cases hp : p' = p
  · subst hp
    rw [Function.update_self] at h
    exact absurd h (hx owner c)
  · rwa [Function.update_of_ne hp] at h

/-- A change that touches no session and no operation, and adds or takes away
native objects that are not conversations. -/
theorem Spared.objects (hsession : s'.session r = s.session r)
    (hc : (s.session r).conversation = true) (hops : s'.operations = s.operations)
    (hop : s'.op = s.op) (hnative : s'.native.operation = s.native.operation ∧
      s'.native.calls = s.native.calls)
    {p : ℕ} {x : Option Resource} (hx : ∀ owner c, x ≠ some (.conversation owner c))
    (hlive : s'.native.live = Function.update s.native.live p x) : Spared r s s' := by
  refine .of_core (by rw [hsession]) hc (fun p' owner c _ h ↦ ?_) fun stream hstream _ ↦
    ⟨hops ▸ hstream, by rw [hop], .of_eq (by rw [hnative.1]) (by rw [hnative.2])⟩
  rw [hlive] at h
  exact Native.live_other hx h

theorem Spared.bridge (hc : (s.session r).conversation = true) (id : ℕ) {c : Call}
    (htakes : takes c = true) : Spared r s (s.bridge id c) := by
  refine .of_core rfl hc (fun p owner conv _ h ↦ ?_) fun stream hstream _ ↦
    ⟨hstream, rfl, s.native.steady_bridge htakes _ _⟩
  rwa [State.bridge, (s.native.bridge_spec id c).2.1] at h

theorem Spared.of_op (h : Spared r s s') {o : Op} (ho : o.request = (s'.op stream).request) :
    Spared r s { s' with op := Function.update s'.op stream o } := by
  have hop (t : ℕ) : (Function.update s'.op stream o t).request = (s'.op t).request := by
    by_cases ht : t = stream
    · rw [ht, Function.update_self, ho]
    · rw [Function.update_of_ne ht]
  refine ⟨h.history, h.context, h.idle, fun t ht hr ↦ ?_⟩
  obtain ⟨hlive, hrequest, hsteady⟩ := h.running t ht ((congrArg Prod.fst (hop t)).symm.trans hr)
  exact ⟨hlive, (hop t).trans hrequest, hsteady⟩

theorem Spared.cancel (hc : (s.session r).conversation = true) (stream : ℕ) (overflow : Bool) :
    Spared r s (s.cancel stream overflow) := by
  cases overflow with
  | true => exact (Spared.of_core rfl hc (fun _ _ _ _ h ↦ h)
      fun _ h _ ↦ ⟨h, rfl, s.native.steady_refl _⟩).of_op rfl
  | false => exact (Spared.bridge hc _ (c := .cancel) rfl).of_op rfl

theorem State.drop_conversation (s : State) (r : ℕ) : (s.drop r).conversation r = none :=
  State.conversation_none (by simp [State.drop])

/-- Without its handle a session keeps its history, and the others keep theirs. -/
theorem Spared.drop {r' : ℕ} (hc : (s.session r).conversation = true)
    (hop : ∀ stream ∈ s.operations, (s.op stream).session ≠ r') : Spared r s (s.drop r') := by
  by_cases hsame : r = r'
  · subst hsame
    exact .of_gone (by simp [State.drop]) (s.drop_conversation r) hop
  · refine .of_core (by simp [State.drop, hsame]) hc (fun p owner c hp h ↦ ?_)
      fun stream hstream _ ↦ ⟨hstream, rfl, .of_eq rfl rfl⟩
    unfold State.drop at h
    cases hh : (s.session r').handle with
    | none => simpa [hh] using h
    | some q => exact Native.live_other (p := q) (x := none) (by simp) (by simpa [hh] using h)

theorem Native.Steady.trans {n n' n'' : Native} {id : ℕ} (h : n.Steady n' id)
    (h' : n'.Steady n'' id) : n.Steady n'' id :=
  ⟨h'.1.trans h.1, fun hf ↦ h'.2 (h.2 hf)⟩

theorem Spared.trans {s'' : State} (h : Spared r s s') (h' : Spared r s' s'') :
    Spared r s s'' := by
  refine ⟨h'.history.trans h.history, fun c hc ↦ ?_, fun hid hconv ↦ ?_, fun t ht hr ↦ ?_⟩
  · obtain ⟨hc', hpreface'⟩ := h'.context c hc
    obtain ⟨hc'', hpreface⟩ := h.context c hc'
    exact ⟨hc'', hpreface'.trans hpreface⟩
  · refine h.idle (h'.idle hid hconv) fun hnone ↦ ?_
    obtain ⟨c, hc⟩ := Option.ne_none_iff_exists'.mp hconv
    have hc' := (h'.context c hc).1
    simp [hnone] at hc'
  · obtain ⟨hlive', hrequest', hsteady'⟩ := h'.running t ht hr
    obtain ⟨hlive, hrequest, hsteady⟩ :=
      h.running t hlive' ((congrArg Prod.fst hrequest').symm.trans hr)
    have hnative : (s'.op t).native = (s.op t).native :=
      congrArg (fun x : ℕ × ℕ × List Message ↦ x.2.1) hrequest
    exact ⟨hlive, hrequest'.trans hrequest, hsteady.trans (hnative ▸ hsteady')⟩

/-- No other operation runs on the session of an operation. -/
theorem Consistent.op_inj (hs : Consistent s) (hstream : stream ∈ s.operations) {t : ℕ}
    (ht : t ∈ s.operations) (h : (s.op t).session = (s.op stream).session) : t = stream := by
  have hid := (hs.opSession t ht).2.1
  rw [h, (hs.opSession stream hstream).2.1] at hid
  exact (Option.some.inj hid).symm

theorem Staged.running (hw : Consistent s) (hstream : stream ∈ s.operations)
    (hs : Staged s stream s') (phase : HandlePhase) {t : ℕ}
    (ht : t ∈ (s'.retire stream phase).operations) :
    t ∈ s.operations ∧ t ≠ stream ∧ (s'.op t).request = (s.op t).request ∧
      s.native.Steady (s'.retire stream phase).native (s.op t).native := by
  obtain ⟨hmem, hne⟩ : t ∈ s'.operations ∧ t ≠ stream := by simpa [State.retire] using ht
  have hlive : t ∈ s.operations := hs.unseen.operations ▸ hmem
  have hnative : (s.op t).native ≠ (s.op stream).native := fun h ↦
    hne (hw.natives t hlive stream hstream h)
  obtain ⟨hop, hcalls⟩ := hs.bridge _ hnative
  exact ⟨hlive, hne, Op.request_of_core (hs.op t hne), .of_eq hop hcalls⟩

/-- The end of an operation leaves the other sessions alone. -/
theorem Spared.retire (hw : Consistent s) (hstream : stream ∈ s.operations)
    (hs : Staged s stream s') (phase : HandlePhase) (hr : r ∈ s.sessions)
    (hc : (s.session r).conversation = true) (hne : r ≠ (s.op stream).session) :
    Spared r s (s'.retire stream phase) := by
  have hsession : (s'.retire stream phase).session r = s'.session r := by
    rw [State.retire, (hs.session_eq hstream).1]
    exact Function.update_of_ne hne ..
  refine .of_core (by rw [hsession]; exact hs.other r hr hne) hc (fun p owner c _ hp ↦ ?_)
    fun t ht _ ↦ ?_
  · rw [← hs.live]
    exact hp
  · obtain ⟨hlive, -, hrequest, hsteady⟩ := hs.running hw hstream phase ht
    exact ⟨hlive, hrequest, hsteady⟩

/-- An operation that ends with its handle deleted leaves no trace in the
history of its session, as long as nothing was committed to it. -/
theorem Spared.release (hw : Consistent s) (hstream : stream ∈ s.operations)
    (hs : Staged s stream s') (phase : HandlePhase) (hr : r ∈ s.sessions)
    (hc : (s.session r).conversation = true)
    (hhistory : (s'.session (s'.op stream).session).history =
      (s.session (s'.op stream).session).history) :
    Spared r s ((s'.retire stream phase).drop (s'.op stream).session) := by
  obtain ⟨hsession, -⟩ := hs.session_eq hstream
  have hother (t : ℕ) (ht : t ∈ (s'.retire stream phase).operations) :
      (s'.op t).session ≠ (s'.op stream).session := by
    obtain ⟨hlive, hne, hrequest, -⟩ := hs.running hw hstream phase ht
    have hsame : (s'.op t).session = (s.op t).session := congrArg Prod.fst hrequest
    rw [hsame, hsession]
    exact fun h ↦ hne (hw.op_inj hstream hlive h)
  by_cases hsame : r = (s'.op stream).session
  · subst hsame
    exact .of_gone (by simpa [State.drop, State.retire] using hhistory)
      (State.drop_conversation ..) hother
  · have hne : r ≠ (s.op stream).session := hsession ▸ hsame
    have hretire := Spared.retire hw hstream hs phase hr hc hne
    have hc' : ((s'.retire stream phase).session r).conversation = true := by
      have hcore : (s'.session r).core = (s.session r).core := hs.other r hr hne
      have hconv := (NativeSession.core_eq hcore).2.2.2.1
      simpa [State.retire, hsame] using hconv.trans hc
    exact hretire.trans (.drop hc' hother)

def Conversation.callback (id : ℕ) (chunk : Bridge.Chunk) (reply : Message) (c : Conversation) :
    Conversation :=
  match c.sending with
  | some (id', message) =>
    if id' = id then
      if (Bridge.nonEmpty chunk.error).isSome then { c with sending := none }
      else if chunk.final then
        { c with turns := c.turns ++ [message, reply], sending := none }
      else c
    else c
  | none => c

theorem Resource.callback_conversation (id : ℕ) (chunk : Bridge.Chunk) (reply : Message)
    (owner : ℕ) (c : Conversation) :
    Resource.callback id chunk reply (.conversation owner c) =
      .conversation owner (c.callback id chunk reply) := by
  cases hc : c.sending with
  | none => simp [Resource.callback, Conversation.callback, hc]
  | some sending =>
    simp only [Resource.callback, Conversation.callback, hc]
    split_ifs <;> rfl

theorem Conversation.callback_idle (id : ℕ) (chunk : Bridge.Chunk) (reply : Message)
    (h : c.sending = none) : c.callback id chunk reply = c := by
  simp [Conversation.callback, h]

theorem Conversation.callback_other {id id' : ℕ} {message : Message} (chunk : Bridge.Chunk)
    (reply : Message) (h : c.sending = some (id', message)) (hne : id' ≠ id) :
    c.callback id chunk reply = c := by
  simp [Conversation.callback, h, hne]

theorem Conversation.callback_preface (id : ℕ) (chunk : Bridge.Chunk) (reply : Message) :
    (c.callback id chunk reply).preface = c.preface := by
  unfold Conversation.callback
  split
  · split_ifs <;> rfl
  · rfl

theorem State.callback_conversation (s : State) (id : ℕ) (chunk : Bridge.Chunk) (reply : Message)
    (r : ℕ) :
    State.conversation { s with native := s.native.callback ⟨id, some chunk, reply⟩ } r =
      (s.conversation r).map (Conversation.callback id chunk reply) := by
  unfold State.conversation Native.callback
  dsimp only
  rw [(s.native.bridge_spec id (.callback (some chunk))).2.1]
  cases (s.session r).chat with
  | none => rfl
  | some p =>
    simp only [Option.bind_some]
    cases hp : s.native.live p with
    | none => rfl
    | some res =>
      cases res
      case conversation owner c =>
        rw [Option.map_some, Resource.callback_conversation]
        rfl
      all_goals rfl

end LibLitertLm.Worker
