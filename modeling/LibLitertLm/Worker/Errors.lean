import LibLitertLm.Bridge.Errors
import LibLitertLm.Bridge.Lossless
import LibLitertLm.Types.Utf8
import LibLitertLm.Worker.History
import LibLitertLm.Worker.Steps

namespace LibLitertLm.Worker

open Code
open Bridge (Call CString Delivers)

variable {rt : Runtime} {harmless : Prop} {w t u : NativeWorker} {stream : ℕ}

def Readable (rt : Runtime) (conversation : Bool) (e : Bridge.Event) : Prop :=
  e.kind = 0 ∧ ∃ text, shown rt conversation e.text = .ok text

def startsWithMark (text : List Char) : Prop := ∃ c ∈ text.head?, c.toNat = 0xFEFF

def State.chatting (s : State) (stream : ℕ) : Bool := (s.session (s.op stream).session).conversation

def spell (rt : Runtime) (conversation : Bool) (texts : List (List UInt8)) : String :=
  String.join (texts.map fun bytes ↦ (shown rt conversation bytes).toOption.getD "")

theorem spell_append (conversation : Bool) (texts texts' : List (List UInt8)) :
    spell rt conversation (texts ++ texts') =
      spell rt conversation texts ++ spell rt conversation texts' := by
  simp [spell]

theorem spell_text {conversation : Bool} {e : Bridge.Event} {text : String} (hkind : e.kind = 0)
    (htext : shown rt conversation e.text = .ok text) :
    spell rt conversation (Bridge.texts [e]) = text := by
  simp [spell, Bridge.texts, hkind, htext, Except.toOption, String.join]

def Spelled (rt : Runtime) (stream : ℕ) (w : NativeWorker) : Prop :=
  (w.state.op stream).text = spell rt (w.state.chatting stream)
    (Bridge.texts ((Bridge.operation (w.state.op stream).native).outputs
      (w.state.native.calls (w.state.op stream).native)))

/-- The operation runs on and nobody cancels it: all that is taken from it can be read. -/
structure Follows (rt : Runtime) (stream : ℕ) (w t : NativeWorker) : Prop where
  live : stream ∈ w.state.operations
  uncancelled : (w.state.op stream).cancelRequested = false
  native : (t.state.op stream).native = (w.state.op stream).native
  chatting : t.state.chatting stream = w.state.chatting stream
  calls : ∃ more, t.state.native.calls (w.state.op stream).native =
      w.state.native.calls (w.state.op stream).native ++ more ∧ .cancel ∉ more ∧
    ∀ e ∈ (Bridge.operation (w.state.op stream).native).outputs
        (t.state.native.calls (w.state.op stream).native),
      e ∈ (Bridge.operation (w.state.op stream).native).outputs
        (w.state.native.calls (w.state.op stream).native) ∨ Readable rt (w.state.chatting stream) e
  spelled : Spelled rt stream w → Spelled rt stream t

namespace Follows

theorem refl (hlive : stream ∈ w.state.operations)
    (huncancelled : (w.state.op stream).cancelRequested = false) : Follows rt stream w w :=
  ⟨hlive, huncancelled, rfl, rfl, ⟨[], by simp, by simp, fun _ he ↦ .inl he⟩, id⟩

theorem trans (h : Follows rt stream w t) (h' : Follows rt stream t u) : Follows rt stream w u := by
  obtain ⟨more, hcalls, hmore, hread⟩ := h.calls
  obtain ⟨more', hcalls', hmore', hread'⟩ := h'.calls
  rw [h.native] at hcalls' hread'
  refine ⟨h.live, h.uncancelled, h'.native.trans h.native, h'.chatting.trans h.chatting,
    ⟨more ++ more', ?_, ?_, fun e he ↦ ?_⟩, fun hw ↦ h'.spelled (h.spelled hw)⟩
  · rw [hcalls', hcalls, List.append_assoc]
  · simp [hmore, hmore']
  · rcases hread' e he with he | he
    · exact hread e he
    · rw [h.chatting] at he
      exact .inr he

theorem still (hlive : stream ∈ w.state.operations)
    (huncancelled : (w.state.op stream).cancelRequested = false)
    (hnative : (t.state.op stream).native = (w.state.op stream).native)
    (hchatting : t.state.chatting stream = w.state.chatting stream)
    (hcalls : t.state.native.calls (w.state.op stream).native =
      w.state.native.calls (w.state.op stream).native)
    (htext : (t.state.op stream).text = (w.state.op stream).text) : Follows rt stream w t := by
  refine ⟨hlive, huncancelled, hnative, hchatting, ⟨[], by simp [hcalls], by simp,
    fun _ he ↦ .inl (hcalls ▸ he)⟩, fun hw ↦ ?_⟩
  rw [Spelled, htext, hchatting, hnative, hcalls]
  exact hw

theorem called (hw : Consistent w.state) (hlive : stream ∈ w.state.operations)
    (huncancelled : (w.state.op stream).cancelRequested = false)
    (hnative : (t.state.op stream).native = (w.state.op stream).native)
    (hchatting : t.state.chatting stream = w.state.chatting stream) {c : Call} (hc : c ≠ .cancel)
    (hcalls : t.state.native.calls (w.state.op stream).native =
      w.state.native.calls (w.state.op stream).native ++ [c])
    (hread : ∀ e ∈ (Bridge.call (w.state.op stream).native
        (w.state.native.operation (w.state.op stream).native) c).2,
      Readable rt (w.state.chatting stream) e)
    (htext : (t.state.op stream).text = (w.state.op stream).text ++ spell rt
      (w.state.chatting stream)
      (Bridge.texts (Bridge.call (w.state.op stream).native
        (w.state.native.operation (w.state.op stream).native) c).2)) : Follows rt stream w t := by
  have hmachine := hw.machine _ (hw.opNative stream hlive)
  refine ⟨hlive, huncancelled, hnative, hchatting,
    ⟨[c], hcalls, by simpa using hc.symm, fun e he ↦ ?_⟩, fun hspelled ↦ ?_⟩
  · rw [hcalls, Machine.outputs_concat, List.mem_append] at he
    rcases he with he | he
    · exact .inl he
    · refine .inr (hread e ?_)
      rw [hmachine]
      exact he
  · rw [Spelled, hnative, hchatting, hcalls, Machine.outputs_concat,
      Bridge.texts_append, spell_append,
      htext, hmachine, hspelled]
    rfl

end Follows

theorem State.chatting_eq {s s' : State} (hsession : (s'.op stream).session = (s.op stream).session)
    (hconversation : (s'.session (s.op stream).session).conversation =
      (s.session (s.op stream).session).conversation) : s'.chatting stream = s.chatting stream := by
  rw [chatting, chatting, hsession, hconversation]

theorem conversation_update {f : ℕ → NativeSession} {r : ℕ} {x : NativeSession}
    (hx : x.conversation = (f r).conversation) (r' : ℕ) :
    (Function.update f r x r').conversation = (f r').conversation := by
  by_cases h : r' = r
  · subst h
    rw [Function.update_self, hx]
  · rw [Function.update_of_ne h]

theorem Consistent.bridge_other {s : State} (hs : Consistent s) {other : ℕ}
    (hother : other ∈ s.operations) (hstream : stream ∈ s.operations) (hne : other ≠ stream)
    (c : Call) :
    (s.native.bridge (s.op other).native c).calls (s.op stream).native =
      s.native.calls (s.op stream).native :=
  (s.native.bridge_other (fun h ↦ hne (hs.natives other hother stream hstream h.symm)) c).2

theorem Native.callback_calls (n : Native) (c : Callback) (id : ℕ) :
    (n.callback c).calls id = (n.bridge c.id (.callback c.chunk)).calls id := by
  unfold Native.callback
  cases c.chunk <;> rfl

theorem Follows.callback (hw : Consistent w.state) (hlive : stream ∈ w.state.operations)
    (huncancelled : (w.state.op stream).cancelRequested = false) (c : Callback) :
    Follows rt stream w ⟨{ w.state with native := w.state.native.callback c }, w.sent⟩ := by
  by_cases hid : (w.state.op stream).native = c.id
  · refine .called hw hlive huncancelled rfl rfl (c := .callback c.chunk) Call.noConfusion ?_
      (by simp [Bridge.call]) (by simp [Bridge.call, spell, String.join])
    rw [Native.callback_calls, ← hid]
    exact Native.bridge_calls (hw.opNative stream hlive) _
  · refine .still hlive huncancelled rfl rfl ?_ rfl
    rw [Native.callback_calls]
    exact (w.state.native.bridge_other hid _).2

theorem Follows.other {s : State} {other : ℕ} (hw : Consistent w.state)
    (hother : other ∈ w.state.operations) (hs : Staged w.state other s) {v : State} {e : Event}
    (hoperations : v.operations = s.operations.filter (· ≠ other)) (hop : v.op = s.op)
    (hsession : ∀ r, (v.session r).conversation = (s.session r).conversation)
    (hcalls : v.native.calls = s.native.calls) (hlive : stream ∈ v.operations)
    (huncancelled : (v.op stream).cancelRequested = false) :
    Follows rt stream w (emit v w.sent other e) := by
  rw [hoperations, hs.unseen.operations] at hlive
  obtain ⟨hlive, hne⟩ : stream ∈ w.state.operations ∧ stream ≠ other := by simpa using hlive
  have hcore := hs.op stream hne
  have hnative : (w.state.op stream).native ≠ (w.state.op other).native := fun h ↦
    hne (hw.natives stream hlive other hother h)
  have hframe := hs.unseen.session _ (hw.opSession stream hlive).1
  refine .still hlive ?_ ?_ (State.chatting_eq ?_ ?_) ?_ ?_
  · rw [← field_eq Op.core Op.cancelRequested (fun _ ↦ rfl) hcore, ← hop]
    exact huncancelled
  · rw [emit_state, hop]
    exact (hs.unseen.op stream hlive).2
  · rw [emit_state, hop]
    exact (hs.unseen.op stream hlive).1
  · rw [emit_state, hsession]
    exact congrArg (fun x : ℕ × Bool × Option ℕ × Option ℕ × Option ℕ ↦ x.2.1) hframe
  · rw [emit_state, hcalls]
    exact (hs.bridge _ hnative).2
  · rw [emit_state, hop]
    exact (Op.of_core hcore).2.2

theorem Move.follows (h : Move rt harmless w t) (hw : Consistent w.state)
    (hlive : stream ∈ t.state.operations)
    (huncancelled : (t.state.op stream).cancelRequested = false) : Follows rt stream w t := by
  have hbefore : stream ∈ w.state.operations := h.operations stream hlive
  have hr := (hw.opSession stream hbefore).1
  have hupdate {r : ℕ} {x : NativeSession}
    (hx : x.conversation = (w.state.session r).conversation) :
      (Function.update w.state.session r x (w.state.op stream).session).conversation =
        w.state.chatting stream := conversation_update hx _
  cases h with
  | quiet h =>
    obtain ⟨next, setters, -, hnative⟩ := h.native
    obtain ⟨hsession, hnumber, htext⟩ := Op.of_core (h.op stream)
    refine .still hbefore ?_ hnumber (State.chatting_eq hsession ?_) ?_ htext
    · rw [← field_eq Op.core Op.cancelRequested (fun _ ↦ rfl) (h.op stream)]
      exact huncancelled
    · exact (NativeSession.core_eq (h.session _ hr)).2.2.2.1
    · rw [hnative]
      rfl
  | callback c => exact .callback hw hbefore huncancelled c
  | add =>
    refine .still hbefore huncancelled rfl (State.chatting_eq rfl ?_) rfl rfl
    exact congrArg _ (Function.update_of_ne (hw.sessionBound _ hr).2.ne ..)
  | give => exact .still hbefore huncancelled rfl (hupdate rfl) rfl rfl
  | drop => exact .still hbefore huncancelled rfl (hupdate rfl) rfl rfl
  | @cancel other hother hc overflow =>
    have hne : other ≠ stream := by
      intro heq
      subst heq
      simp [State.cancel] at huncancelled
    have hop : (w.state.cancel other overflow).op stream = w.state.op stream :=
      Function.update_of_ne hne.symm ..
    refine .still hbefore (by rwa [hop] at huncancelled) (by rw [hop]) ?_ ?_ (by rw [hop])
    · exact State.chatting_eq (by rw [hop]) rfl
    · cases overflow
      · exact hw.bridge_other hother hbefore hne .cancel
      · rfl
  | @rebuild s r messages _ _ _ hs =>
    cases hs with
    | reuse => exact .refl hbefore huncancelled
    | rebuild =>
      refine .still hbefore huncancelled rfl (State.chatting_eq rfl ?_) rfl rfl
      refine Eq.trans ?_ (w.state.drop_session r _).1
      exact conversation_update (by simp [State.drop, NativeSession.opened]) _
  | @discard other hother h =>
    by_cases hsame : other = stream
    · subst hsame
      have hempty : ∀ e ∈ w.state.head other,
          e.kind = 0 ∧ shown rt (w.state.chatting other) e.text = .ok "" := by
        intro e he
        obtain ⟨hkind, hcancelled | hshown⟩ := h e he
        · rw [show (w.state.op other).cancelRequested = false from huncancelled] at hcancelled
          cases hcancelled
        · exact ⟨hkind, hshown⟩
      refine .called hw hbefore huncancelled rfl rfl (c := .take) Call.noConfusion
        (Native.bridge_calls (hw.opNative other hbefore) .take) (fun e he ↦ ?_) ?_
      · obtain ⟨hkind, hshown⟩ := hempty e (Option.mem_toList.mp he)
        exact ⟨hkind, "", hshown⟩
      · show _ = _ ++ spell rt _ (Bridge.texts (w.state.head other).toList)
        cases hhead : w.state.head other with
        | none => simp [spell, String.join, State.bridge]
        | some e =>
          obtain ⟨hkind, hshown⟩ := hempty e hhead
          rw [Option.toList_some, spell_text hkind hshown, String.append_empty]
          rfl
    · exact .still hbefore huncancelled rfl rfl (hw.bridge_other hother hbefore hsame .take) rfl
  | @token other e text hother he hkind hc htext =>
    by_cases hsame : other = stream
    · subst hsame
      refine .called hw hbefore hc ?_ (State.chatting_eq ?_ rfl) (c := .take) Call.noConfusion
        (Native.bridge_calls (hw.opNative other hbefore) .take) (fun e' he' ↦ ?_) ?_
      · simp [emit, State.addText, State.bridge]
      · simp [emit, State.addText, State.bridge]
      · obtain rfl : e = e' := Option.some.inj (he.symm.trans (Option.mem_toList.mp he'))
        exact ⟨hkind, text, htext⟩
      · show _ = _ ++ spell rt _ (Bridge.texts (w.state.head other).toList)
        have hshown : shown rt (w.state.chatting other) e.text = .ok text := htext
        rw [he, Option.toList_some, spell_text hkind hshown]
        simp [emit, State.addText, State.bridge]
    · have hop : (emit ((w.state.bridge (w.state.op other).native .take).addText other text)
          w.sent other (.token text)).state.op stream = w.state.op stream :=
        Function.update_of_ne (Ne.symm hsame) ..
      refine .still hbefore (by rwa [hop] at huncancelled) (by rw [hop])
        (State.chatting_eq (by rw [hop]) rfl) ?_ (by rw [hop])
      exact hw.bridge_other hother hbefore hsame .take
  | @release s other hother hs hhistory phase e he =>
    refine .other hw hother hs rfl rfl (fun r ↦ ?_) rfl hlive huncancelled
    exact (State.drop_session _ _ r).1.trans (s.retire_session other phase r).1
  | @complete s other e hother hs he hkind hc hcalls hhistory phase =>
    exact .other hw hother hs rfl rfl (fun r ↦ (s.retire_session other phase r).1) rfl hlive
      huncancelled
  | _ => exact .still hbefore huncancelled rfl rfl rfl rfl

theorem Moves.follows (h : Moves rt harmless w t) (hw : Consistent w.state)
    (hlive : stream ∈ t.state.operations)
    (huncancelled : (t.state.op stream).cancelRequested = false) : Follows rt stream w t := by
  induction h with
  | refl => exact .refl hlive huncancelled
  | tail hmoves hmove ih =>
    have hlast := hmove.follows (Moves.consistent rt hmoves hw) hlive huncancelled
    exact (ih hlast.live hlast.uncancelled).trans hlast

/-- All that was taken from the operation could be read and was told, and it was
not cancelled. -/
structure Heard (rt : Runtime) (stream : ℕ) (w : NativeWorker) : Prop where
  uncancelled : .cancel ∉ w.state.native.calls (w.state.op stream).native
  read : ∀ e ∈ (Bridge.operation (w.state.op stream).native).outputs
    (w.state.native.calls (w.state.op stream).native), Readable rt (w.state.chatting stream) e
  spelled : Spelled rt stream w

theorem Heard.follows (hw : Heard rt stream w) (h : Follows rt stream w t) : Heard rt stream t := by
  obtain ⟨more, hcalls, hmore, hread⟩ := h.calls
  refine ⟨?_, fun e he ↦ ?_, h.spelled hw.spelled⟩
  · rw [h.native, hcalls]
    simp [hw.uncancelled, hmore]
  · rw [h.native] at he
    rw [h.chatting]
    exact (hread e he).elim (hw.read e) id

variable {r : ℕ}

theorem Prepared.chatting {s s' : State} {messages : List Message} (h : Prepared s r messages s')
    (stream : ℕ) : s'.chatting stream = s.chatting stream := by
  cases h with
  | reuse => rfl
  | rebuild =>
    refine State.chatting_eq rfl (Eq.trans ?_ (s.drop_session r _).1)
    exact conversation_update (by simp [State.drop, NativeSession.opened]) _

theorem State.launch_other {s : State} {other skip : ℕ} {messages : List Message}
    (hne : stream ≠ other) : (s.launch other r skip messages).op stream = s.op stream :=
  Function.update_of_ne hne ..

theorem State.launch_chatting {s : State} {other skip : ℕ} {messages : List Message}
    (hne : stream ≠ other) :
    (s.launch other r skip messages).chatting stream = s.chatting stream := by
  have hop : (s.launch other r skip messages).op stream = s.op stream := State.launch_other hne
  refine State.chatting_eq (by rw [hop]) ?_
  exact conversation_update
    (x := { s.session r with phase := .generating, streamId := some other }) rfl _

theorem State.launch_calls {s : State} (hs : Consistent s) {other skip : ℕ}
    {messages : List Message}
    (hlive : stream ∈ s.operations) (hid : s.native.operationId skip ≠ 0) :
    (s.launch other r skip messages).native.calls (s.op stream).native =
      s.native.calls (s.op stream).native := by
  have hnew : (s.op stream).native ≠ s.native.operationId skip :=
    (hs.operationId_lt hid (hs.opNative stream hlive)).ne
  show (s.native.operationCreate skip).calls _ = _
  rw [Native.operationCreate_of_ne hid]
  exact Function.update_of_ne hnew ..

theorem Generated.follows {other : ℕ} (h : Generated rt harmless other r w t)
    (hw : Consistent w.state) (hne : stream ≠ other) (hlive : stream ∈ t.state.operations)
    (huncancelled : (t.state.op stream).cancelRequested = false) : Follows rt stream w t := by
  have hbefore : stream ∈ w.state.operations := (h.operations stream hlive).resolve_right hne
  cases h with
  | @launch s skip messages status error hr hidle hs hid =>
    obtain ⟨hoperations, hop, hcalls, -⟩ := hs.streams
    have hprepared := hw.prepared hr hidle hs
    have hmem : stream ∈ s.operations := hoperations.symm ▸ hbefore
    have hsame : ((s.launch other r skip messages).start other status error).op stream =
        w.state.op stream := by
      rw [← hop]
      exact State.launch_other hne
    refine .still hbefore (hsame ▸ huncancelled) (congrArg Op.native hsame) ?_ ?_
      (congrArg Op.text hsame)
    · exact (State.launch_chatting hne).trans (hs.chatting stream)
    · have hnew : (s.op stream).native ≠ s.native.operationId skip :=
        (hprepared.operationId_lt hid (hprepared.opNative stream hmem)).ne
      have hlaunched : (s.launch other r skip messages).native.calls (s.op stream).native = _ :=
        State.launch_calls hprepared hmem hid
      have hstart := (Native.start_other (s.launch other r skip messages).native hnew
        ((s.launch other r skip messages).session r).handle (messages.getLast?.getD []) status
        error).2
      have hself := s.launch_op other r skip messages
      rw [← hop, ← hcalls]
      simp only [State.start, hself]
      exact hstart.trans hlaunched
  | @abort skip messages e hr hh hidle hid =>
    have hsame : (w.state.launch other r skip messages).op stream = w.state.op stream :=
      State.launch_other hne
    refine .still hbefore (hsame ▸ huncancelled) (congrArg Op.native hsame) ?_ ?_
      (congrArg Op.text hsame)
    · have hretire : ((w.state.launch other r skip messages).retire other .ready).chatting stream =
          (w.state.launch other r skip messages).chatting stream :=
        State.chatting_eq rfl
          ((w.state.launch other r skip messages).retire_session other .ready _).1
      exact hretire.trans (State.launch_chatting hne)
    · exact State.launch_calls hw hbefore hid
  | refuse => exact .still hbefore huncancelled rfl rfl rfl rfl

theorem Generated.heard (h : Generated rt harmless stream r w t)
    (hnew : stream ∉ w.state.operations) (hlive : stream ∈ t.state.operations) :
    Heard rt stream t := by
  cases h with
  | @launch s skip messages status error hr hidle hs hid =>
    have hself := s.launch_op stream r skip messages
    have hcalls := (Native.start_operation hid
      ((s.launch stream r skip messages).session r).handle
        (messages.getLast?.getD []) status error).2
    have hcalls' : ((s.launch stream r skip messages).start stream status error).native.calls
        (((s.launch stream r skip messages).start stream status error).op stream).native =
          if status = 0 then [.start] else [.start, .startFailed error] := by
      simp only [State.start, hself]
      exact hcalls
    have hnone : (Bridge.operation (((s.launch stream r skip messages).start stream status
        error).op stream).native).outputs (if status = 0 then [.start] else
          [.start, .startFailed error]) = [] := by split_ifs <;> rfl
    constructor
    · rw [hcalls']
      split_ifs <;> simp
    · rw [hcalls', hnone]
      simp
    · rw [Spelled, hcalls', hnone]
      simp only [State.start, hself]
      rfl
  | abort => exact absurd hlive (by simp [emit, State.retire])
  | refuse => exact absurd hlive hnew

theorem Served.follows {other : ℕ} (h : Served rt harmless w other r t) (hw : Consistent w.state)
    (hne : stream ≠ other) (hlive : stream ∈ t.state.operations)
    (huncancelled : (t.state.op stream).cancelRequested = false) : Follows rt stream w t := by
  obtain ⟨u, v, hu, hconsistent, -, hgenerated, -, hmoves⟩ := h
  have hend := hmoves.follows (hgenerated.consistent hconsistent) hlive huncancelled
  have hmiddle := hgenerated.follows hconsistent hne hend.live hend.uncancelled
  have hstart := hu.follows hw hmiddle.live hmiddle.uncancelled
  exact (hstart.trans hmiddle).trans hend

theorem Served.heard (h : Served rt harmless w stream r t) (hnew : stream ∉ w.state.operations)
    (hlive : stream ∈ t.state.operations)
    (huncancelled : (t.state.op stream).cancelRequested = false) : Heard rt stream t := by
  obtain ⟨u, v, hu, hconsistent, -, hgenerated, -, hmoves⟩ := h
  have hend := hmoves.follows (hgenerated.consistent hconsistent) hlive huncancelled
  have hnew : stream ∉ u.state.operations := fun hmem ↦ hnew (hu.operations stream hmem)
  exact (hgenerated.heard hnew hend.live).follows hend

theorem Turn.follows {request : Option ℕ} {command : Command}
    (h : Turn rt harmless w (.command request command) t)
    (hs : ∀ stream r input a, command ≠ .generate stream r input a) (hw : Consistent w.state)
    (hlive : stream ∈ t.state.operations)
    (huncancelled : (t.state.op stream).cancelRequested = false) : Follows rt stream w t := by
  have hgone (hempty : Empty t.state) : Follows rt stream w t := by
    rw [hempty.operations] at hlive
    cases hlive
  cases h with
  | deaf => exact .refl hlive huncancelled
  | plain _ _ h => exact h.follows hw hlive huncancelled
  | @generate _ stream r input a => exact absurd rfl (hs stream r input a)
  | crash _ _ _ hempty => exact hgone hempty
  | refuse _ _ h => exact h.follows hw hlive huncancelled
  | close _ _ hempty => exact hgone { hempty with }

variable {asked : List ℕ}

theorem Consistent.follows (hw : Consistent w.state) {s : Step} (hs : stream ∉ s.asks)
    (hlive : stream ∈ (advance rt w s).state.operations)
    (huncancelled : ((advance rt w s).state.op stream).cancelRequested = false) :
    Follows rt stream w (advance rt w s) := by
  cases s with
  | command request command =>
    cases hd : w.state.deaf with
    | true =>
      rw [step_deaf hd] at hlive huncancelled ⊢
      exact .refl hlive huncancelled
    | false =>
      by_cases hgenerate : ∃ other r input a, command = .generate other r input a
      · obtain ⟨other, r, input, a, rfl⟩ := hgenerate
        have hne : stream ≠ other := fun h ↦ hs (congrArg some h.symm)
        exact (step_submit hw hd request other r input a).follows hw hne hlive huncancelled
      · have hother (other r : ℕ) (input : Input) (a : GenerateAnswers) :
            command ≠ .generate other r input a :=
          fun heq ↦ hgenerate ⟨other, r, input, a, heq⟩
        rw [step_command_eq hother] at hlive huncancelled ⊢
        exact (step_turn hw (.command request command)).follows hother hw hlive huncancelled
  | _ => exact (step_moves hw fun _ _ ↦ Step.noConfusion).follows hw hlive huncancelled

theorem Step.mem_asks {s : Step} (h : stream ∈ s.asks) :
    ∃ request r input a, s = .command request (.generate stream r input a) := by
  cases s with
  | command request command =>
    cases command with
    | generate other r input a =>
      obtain rfl : other = stream := Option.some.inj h
      exact ⟨request, r, input, a, rfl⟩
    | _ => cases h
  | _ => cases h

theorem Sound.heard (h : Sound asked w) {s : Step} (hnew : ∀ stream ∈ s.asks, stream ∉ asked)
    (hbefore : stream ∈ w.state.operations → (w.state.op stream).cancelRequested = false →
      Heard rt stream w)
    (hlive : stream ∈ (advance rt w s).state.operations)
    (huncancelled : ((advance rt w s).state.op stream).cancelRequested = false) :
    Heard rt stream (advance rt w s) := by
  by_cases hs : stream ∈ s.asks
  · have hgone : stream ∉ w.state.operations := fun hmem ↦ hnew stream hs (h.asked stream hmem)
    obtain ⟨request, r, input, a, rfl⟩ := Step.mem_asks hs
    cases hd : w.state.deaf with
    | true =>
      rw [step_deaf hd] at hlive
      exact absurd hlive hgone
    | false =>
      exact (step_submit h.consistent hd request stream r input a).heard hgone hlive huncancelled
  · have hfollows := h.consistent.follows hs hlive huncancelled
    exact (hbefore hfollows.live hfollows.uncancelled).follows hfollows

theorem trace_heard {steps : List Step} (hdistinct : (steps.filterMap Step.asks).Nodup)
    (hlive : stream ∈ (trace rt steps).state.operations)
    (huncancelled : ((trace rt steps).state.op stream).cancelRequested = false) :
    Heard rt stream (trace rt steps) := by
  induction steps using List.reverseRecOn with
  | nil => cases hlive
  | append_singleton steps s ih =>
    have hasks : [s].filterMap Step.asks = s.asks.toList := by cases h : s.asks <;> simp [h]
    rw [List.filterMap_append, hasks, List.nodup_append] at hdistinct
    obtain ⟨hbefore, -, hnew⟩ := hdistinct
    rw [trace_concat] at hlive huncancelled ⊢
    refine (trace_sound hbefore).heard (fun other hs hmem ↦ ?_) (ih hbefore) hlive huncancelled
    exact hnew other hmem other (Option.mem_toList.mpr hs) rfl

end LibLitertLm.Worker
