import LibLitertLm.Bridge.Lossless
import LibLitertLm.Worker.Errors

namespace LibLitertLm.Worker

open Code

def Outgoing.isTokenOf (stream : ℕ) : Outgoing → Bool
  | .event id e => id == stream && e.isToken
  | .reply _ _ => false

def tokensOf (stream : ℕ) (messages : List Outgoing) : ℕ :=
    messages.countP (Outgoing.isTokenOf stream)

def NativeWorker.messages (w : NativeWorker) : List Outgoing := w.sent.map Prod.fst

def Sends (stream n : ℕ) (w t : NativeWorker) : Prop :=
  ∃ more, t.messages = w.messages ++ more ∧ tokensOf stream more = n

variable {rt : Runtime} {stream other n m : ℕ} {w₀ w t u : NativeWorker}

theorem tokensOf_append (l l' : List Outgoing) :
    tokensOf stream (l ++ l') = tokensOf stream l + tokensOf stream l' := List.countP_append

namespace Sends

theorem of_eq (h : t.sent = w.sent) : Sends stream 0 w t :=
  ⟨[], by simp [NativeWorker.messages, h], rfl⟩

theorem trans (h : Sends stream n w t) (h' : Sends stream m t u) : Sends stream (n + m) w u := by
  obtain ⟨more, hmore, rfl⟩ := h
  obtain ⟨more', hmore', rfl⟩ := h'
  refine ⟨more ++ more', ?_, tokensOf_append ..⟩
  rw [hmore', hmore, List.append_assoc]

theorem unique (h : Sends stream n w t) (h' : Sends stream m w t) : n = m := by
  obtain ⟨more, hmore, rfl⟩ := h
  obtain ⟨more', hmore', rfl⟩ := h'
  rw [List.append_cancel_left (hmore.symm.trans hmore')]

theorem message (w : NativeWorker) (s s' : State) (message : Outgoing) :
    Sends stream (tokensOf stream [message]) w ⟨s, w.sent ++ [(message, s')]⟩ :=
  ⟨[message], by simp [NativeWorker.messages], rfl⟩

theorem emit (s : State) {e : Event} (he : other = stream → e.isToken = false) :
    Sends stream 0 w (emit s w.sent other e) := by
  have htoken : tokensOf stream [.event other e] = 0 := by
    simpa [tokensOf, Outgoing.isTokenOf, List.countP_cons] using he
  unfold Worker.emit
  split_ifs
  · exact .of_eq rfl
  · exact htoken ▸ Sends.message w s s (.event other e)

theorem emit_le (s : State) (e : Event) : ∃ n ≤ 1,
    Sends stream n w (Worker.emit s w.sent other e) := by
  unfold Worker.emit
  split_ifs
  · exact ⟨0, Nat.zero_le _, .of_eq rfl⟩
  · exact ⟨_, List.countP_le_length, .message w s s (.event other e)⟩

theorem emit_told (s : State) (text : String)
    (hf : (Worker.emit s w.sent stream (.token text)).state.fatalExit = false) :
    Sends stream 1 w (Worker.emit s w.sent stream (.token text)) := by
  have hopen : s.fatalExit = false := hf
  have htoken : tokensOf stream [.event stream (.token text)] = 1 := by
    simp [tokensOf, Outgoing.isTokenOf, Event.isToken]
  rw [Worker.emit, if_neg (by simp [hopen])]
  exact htoken ▸ Sends.message w s s (.event stream (.token text))

end Sends

structure Unspent (stream : ℕ) (w t : NativeWorker) : Prop where
  credit : (t.state.op stream).credit = (w.state.op stream).credit
  sends : Sends stream 0 w t

/-- An invariant that neither gives a stream credit nor lets it send a token. -/
structure Frugal (stream : ℕ) (I : NativeWorker → Prop) : Prop where
  state : ∀ w s, (s.op stream).credit = (w.state.op stream).credit → I w → I ⟨s, w.sent⟩
  emit : ∀ w other e, (other = stream → e.isToken = false) → I w → I (emit w.state w.sent other e)

namespace Frugal

variable {I : NativeWorker → Prop}

theorem inside (hI : Frugal stream I) {C : ℕ → NativeSession → NativeSession → Prop} {k : M α}
    (h : Inside C k) : Keeps I k :=
  h I ⟨fun w _ _ _ ↦ hI.state w _ rfl, fun w _ _ _ ↦ hI.state w _ rfl⟩

theorem near (hI : Frugal stream I) {k : M α} (h : Inside (Within 0) k) : Keeps I k := hI.inside h

theorem update (hI : Frugal stream I) {f : State → State} (hf : ∀ s, (f s).op = s.op) :
    Keeps I (update f) :=
  fun w h ↦ hI.state w _ (congrArg (fun op : ℕ → Op ↦ (op stream).credit) (hf w.state)) h

theorem modifySession (hI : Frugal stream I) (r : ℕ) (f : NativeSession → NativeSession) :
    Keeps I (modifySession r f) := hI.update fun _ ↦ rfl

theorem modifyNative (hI : Frugal stream I) (f : Native → Native) : Keeps I (modifyNative f) :=
  hI.update fun _ ↦ rfl

theorem read (f : State → α) : Keeps I (read f) := .map .get _

theorem modifyOp (hI : Frugal stream I) {f : Op → Op}
    (hf : other = stream → ∀ o, (f o).credit = o.credit) : Keeps I (modifyOp other f) := by
  intro w h
  refine hI.state w _ ?_ h
  show (Function.update w.state.op other (f (w.state.op other)) stream).credit = _
  by_cases hsame : other = stream
  · subst hsame
    rw [Function.update_self]
    exact hf rfl _
  · rw [Function.update_of_ne (Ne.symm hsame)]

theorem event (hI : Frugal stream I) {e : Event} (he : other = stream → e.isToken = false) :
    Keeps I (event other e) :=
  fun w h ↦ (post_event ..).mpr (hI.emit w other e he h)

theorem cancel (hI : Frugal stream I) (other : ℕ) (overflow : Bool) :
    Keeps I (cancel other overflow) := by
  refine .bind (read _) fun op ↦ .ite (fun _ ↦ ?_) fun _ ↦ .pure _
  refine .bind (hI.modifyOp fun _ _ ↦ rfl) fun _ ↦ .bind (hI.modifySession _ _) fun _ ↦ ?_
  refine .bind (.when fun _ ↦ hI.modifyNative _) fun _ ↦ .bind (read _) fun session ↦ ?_
  exact hI.near (inside_useHandle session)

theorem deleteHandle (hI : Frugal stream I) (r : ℕ) : Keeps I (deleteHandle r) :=
  hI.inside (inside_deleteHandle r)

theorem settle (hI : Frugal stream I) (other : ℕ) {e : Event} (he : e.isToken = false) :
    Keeps I (settle other e) := by
  refine .bind (read _) fun op ↦ .bind (hI.modifyNative _) fun _ ↦ ?_
  refine .bind (hI.update fun _ ↦ rfl) fun _ ↦ ?_
  exact .bind (hI.modifySession _ _) fun _ ↦ hI.event fun _ ↦ he

theorem terminalEvent_isToken (op : Op) (kind : ℕ) (cancelled : Bool) (detail : String) :
    (terminalEvent op kind cancelled detail).isToken = false := by
  unfold terminalEvent
  split_ifs <;> rfl

theorem finish (hI : Frugal stream I) (other kind : ℕ) (detail : String) (failureAfterStop : Bool)
    (a : PumpAnswers) : Keeps I (finish rt other kind detail failureAfterStop a) := by
  refine .bind (read _) fun known ↦ .ite (fun _ ↦ ?_) fun _ ↦ .pure _
  refine .bind (read _) fun op ↦ .bind (read _) fun session ↦ ?_
  have hsettle (cancelled : Bool) :
      Keeps I (Worker.settle other (terminalEvent op kind cancelled detail)) :=
    hI.settle other (terminalEvent_isToken ..)
  refine .ite (fun _ ↦ .bind (hI.deleteHandle _) fun _ ↦ hsettle _) fun _ ↦ ?_
  refine .bind (hI.inside (inside_metrics _ a)) fun result ↦ .bind (hI.modifySession _ _) fun _ ↦ ?_
  refine .bind (.when fun _ ↦ ?_) fun _ ↦ hsettle _
  exact hI.inside (inside_commitHistory rt (C := fun _ _ _ ↦ True) (fun _ _ ↦ trivial) a)

theorem deliver (hI : Frugal stream I) (hne : other ≠ stream) (kind : ℕ) (text : String)
    (a : PumpAnswers) : Keeps I (deliver rt other kind text a) := by
  have hother {p : Prop} (h : other = stream) : p := absurd h hne
  refine .ite (fun _ ↦ ?_) fun _ ↦ hI.finish _ _ _ _ _
  have hsend (text : String) : Keeps I (if !text.isEmpty then do
      Worker.modifyOp other fun o ↦ { o with text := o.text ++ text }
      Worker.modifyOp other fun o ↦ { o with credit := false }
      Worker.event other (.token text) else pure ()) := by
    refine .ite (fun _ ↦ ?_) fun _ ↦ .pure _
    exact .bind (hI.modifyOp hother) fun _ ↦ .bind (hI.modifyOp hother) fun _ ↦ hI.event hother
  refine .bind (read _) fun op ↦ .ite (fun _ ↦ ?_) fun _ ↦ .pure _
  refine .bind (read _) fun session ↦ .ite (fun _ ↦ ?_) fun _ ↦ ?_
  · exact .bind (.lift _) hsend
  · exact .bind (.pure _) hsend

theorem pumpEvent (hI : Frugal stream I) (hne : other ≠ stream) (native : ℕ) (a : PumpAnswers) :
    Keeps I (pumpEvent rt other native a) := by
  refine .bind (hI.near (inside_take _)) fun payload ↦ ?_
  cases payload with
  | none => exact .pure _
  | some payload =>
    refine .bind (hI.near (inside_readEvent _ _ _)) fun text ↦ ?_
    cases text with
    | none => exact .pure _
    | some text => exact hI.deliver hne _ _ _

theorem callbacks (hI : Frugal stream I) (cs : List Callback) : Keeps I (callbacks cs) :=
  hI.modifyNative _

theorem pumpBody (hI : Frugal stream I) (hne : other ≠ stream) (a : PumpAnswers) :
    Keeps I (pumpBody rt other a) := by
  refine .bind (read _) fun op ↦ .bind (hI.callbacks _) fun _ ↦ .bind (read _) fun overflow ↦ ?_
  refine .bind (.when fun _ ↦ hI.cancel _ _) fun _ ↦ .bind (read _) fun op ↦ ?_
  have hopen (open? : Bool) : Keeps I (if open? then do
      Worker.callbacks a.beforeTake
      Worker.pumpEvent rt other op.native a else pure ()) :=
    .ite (fun _ ↦ .bind (hI.callbacks _) fun _ ↦ hI.pumpEvent hne _ _) fun _ ↦ .pure _
  refine .ite (fun _ ↦ ?_) fun _ ↦ .bind (.pure _) hopen
  exact .bind (hI.callbacks _) fun _ ↦ .bind (read _) hopen

theorem replace (hI : Frugal stream I) (other : ℕ) (a : PumpAnswers) (e : Thrown) :
    Keeps I (do
      Worker.cancel other false
      let op ← Worker.read fun s ↦ s.op other
      Worker.deleteHandle op.session
      Worker.finish rt other 2 ("Invalid native event: " ++ errorText rt e) true a) := by
  refine .bind (hI.cancel _ _) fun _ ↦ .bind (read _) fun op ↦ ?_
  exact .bind (hI.deleteHandle _) fun _ ↦ hI.finish _ _ _ _ _

theorem pumpOne (hI : Frugal stream I) (hne : other ≠ stream) (a : PumpAnswers) :
    Keeps I (pumpOne rt a other) :=
  .tryCatch (hI.pumpBody hne a) fun e ↦ hI.replace other a e

theorem launch (hI : Frugal stream I) (hne : other ≠ stream) (r : ℕ) (messages : List Message)
    (a : GenerateAnswers) : Keeps I (launch other r messages a) := by
  refine .bind (read _) fun native ↦ .bind (hI.modifyNative _) fun _ ↦ keeps_guard _ fun _ ↦ ?_
  refine .bind (hI.modifyOp fun h ↦ absurd h hne) fun _ ↦ .bind (hI.modifySession _ _) fun _ ↦ ?_
  refine .bind (hI.update fun _ ↦ rfl) fun _ ↦ ?_
  refine .bind (.tryCatch ?_ fun e ↦ ?_) fun _ ↦ hI.update fun _ ↦ rfl
  · exact .bind (read _) fun session ↦ hI.near (inside_request _ _ _ _)
  · refine .bind (hI.update fun _ ↦ rfl) fun _ ↦ .bind (hI.modifySession _ _) fun _ ↦ ?_
    exact .bind (hI.modifyNative _) fun _ ↦ .throw _

theorem submit (hI : Frugal stream I) (hne : other ≠ stream) (r : ℕ) (input : Input)
    (a : GenerateAnswers) : Keeps I (submit rt other r input a) :=
  .bind (hI.inside (inside_prepare rt r input a)) fun messages ↦ hI.launch hne r messages a

theorem cancelFound (hI : Frugal stream I) (streamId : Option ℕ) (k : Option ℕ → M α)
    (hk : ∀ op, Keeps I (k op)) :
    Keeps I (do
      let op ← findOperation streamId
      onSome op fun stream ↦ Worker.cancel stream false
      k op) :=
  .bind (read _) fun op ↦ .bind (.onSome fun _ _ ↦ hI.cancel _ _) fun _ ↦ hk op

theorem disposeSession (hI : Frugal stream I) (r : ℕ) : Keeps I (disposeSession rt r) := by
  refine .bind (read _) fun known ↦ .ite (fun _ ↦ ?_) fun _ ↦ .pure _
  refine .bind (hI.modifySession _ _) fun _ ↦ .bind (read _) fun session ↦ ?_
  refine hI.cancelFound _ _ fun op ↦ .bind (hI.deleteHandle _) fun _ ↦ ?_
  refine .bind (.onSome fun _ _ ↦ hI.finish _ _ _ _ _) fun _ ↦ ?_
  exact .bind (hI.modifySession _ _) fun _ ↦ hI.update fun _ ↦ rfl

theorem disposeEngine (hI : Frugal stream I) (id : ℕ) : Keeps I (disposeEngine rt id) := by
  refine .bind (read _) fun engine ↦ ?_
  cases engine with
  | none => exact .pure _
  | some engine =>
    refine .bind (hI.update fun _ ↦ rfl) fun _ ↦ .bind (read _) fun ids ↦ ?_
    refine .bind (.forEach fun r _ ↦ hI.disposeSession r) fun _ ↦ ?_
    refine .bind (hI.modifyNative _) fun _ ↦ ?_
    exact .bind (hI.update fun _ ↦ rfl) fun _ ↦ hI.update fun _ ↦ rfl

theorem closeAll (hI : Frugal stream I) : Keeps I (closeAll rt) := by
  refine .bind (hI.update fun _ ↦ rfl) fun _ ↦ .bind (read _) fun ids ↦ ?_
  exact .bind (.forEach fun id _ ↦ hI.disposeEngine id) fun _ ↦ hI.update fun _ ↦ rfl

theorem createSession (hI : Frugal stream I) (engineId : ℕ) (params : GenerationParams)
    (initial : List ChatMessage) (conversation : Bool) (a : OpenAnswers) :
    Keeps I (createSession rt engineId params initial conversation a) := by
  refine .bind (hI.near (inside_findEngine engineId)) fun engine ↦ keeps_guard _ fun _ ↦ ?_
  refine .bind (hI.near (inside_messages rt _)) fun history ↦ .bind (read _) fun r ↦ ?_
  refine .bind (hI.modifySession _ _) fun _ ↦ .bind (.lift _) fun _ ↦ ?_
  refine .bind (hI.inside (inside_openSession r engine none a)) fun _ ↦ ?_
  exact .bind (hI.update fun _ ↦ rfl) fun _ ↦ .pure _

theorem loadEngine (hI : Frugal stream I) (config : EngineConfig) (a : LoadAnswers) :
    Keeps I (loadEngine config a) := by
  have hutf8 (allocated : Bool) : Keeps I (utf8 true allocated) := hI.near (inside_utf8 _ _)
  refine .bind (read _) fun closing ↦ keeps_guard _ fun _ ↦ ?_
  refine .bind (hI.near (inside_inspect _ _)) fun info ↦ .bind (.lift _) fun limits ↦ ?_
  obtain ⟨maximum, context⟩ := limits
  refine .bind (hutf8 _) fun _ ↦ .bind (hutf8 _) fun _ ↦ .bind
    (hI.near (inside_utf8 _ _)) fun _ ↦ ?_
  refine .bind (hI.near (inside_utf8 _ _)) fun _ ↦ .bind
    (hI.near (inside_create _ _)) fun settings ↦ ?_
  refine .bind (hI.near (inside_checkPointer _ _ _)) fun _ ↦ .tryFinally ?_
    (hI.near (inside_delete _ _))
  have hstring (allocated : Bool) : Keeps I (do
      utf8 true allocated
      use settings isSettings) := .bind (hutf8 _) fun _ ↦ hI.near (inside_use _ _)
  refine .bind (hI.modifyNative _) fun _ ↦ .bind (hI.modifyNative _) fun _ ↦ ?_
  refine .bind (hI.modifyNative _) fun _ ↦ .bind (.onSome fun _ _ ↦ hI.modifyNative _) fun _ ↦ ?_
  refine .bind (.when fun _ ↦ hstring _) fun _ ↦ .bind (.when fun _ ↦ hstring _) fun _ ↦ ?_
  refine .bind (hI.modifyNative _) fun _ ↦ .bind (hI.near (inside_create _ _)) fun pointer ↦ ?_
  refine .bind (hI.near (inside_checkPointer _ _ _)) fun _ ↦ ?_
  cases pointer with
  | none => exact .throw _
  | some pointer =>
    refine .bind (hI.modifyNative _) fun _ ↦ .ite (fun _ ↦ ?_) fun _ ↦ ?_
    · exact .bind (hI.modifyNative _) fun _ ↦ .throw _
    · exact .bind (read _) fun id ↦ .bind (hI.update fun _ ↦ rfl) fun _ ↦ .pure _

theorem serve (hI : Frugal stream I) {command : Command}
    (hgenerate : ∀ s r input a, command ≠ .generate s r input a)
    (hcredit : command ≠ .credit stream) :
    Keeps I (serve rt command) := by
  cases command with
  | generate s r input a => exact absurd rfl (hgenerate s r input a)
  | loadEngine config a => exact .bind (hI.loadEngine config a) fun _ ↦ .pure _
  | inspectModel path a => exact .bind (hI.near (inside_inspect _ _)) fun _ ↦ .pure _
  | engineInfo id => exact .bind (hI.near (inside_findEngine _)) fun _ ↦ .pure _
  | createSession engineId params initial conversation a =>
    exact .bind (hI.createSession _ _ _ _ _) fun _ ↦ .pure _
  | credit other =>
    have hne : other ≠ stream := fun h ↦ hcredit (congrArg Command.credit h)
    refine .bind (read _) fun known ↦ .bind (.when fun _ ↦ ?_) fun _ ↦ .pure _
    exact hI.modifyOp fun h ↦ absurd h hne
  | cancelStream other => exact hI.cancelFound _ _ fun _ ↦ .pure _
  | cancelSession r => exact .bind (read _) fun streamId ↦ hI.cancelFound _ _ fun _ ↦ .pure _
  | disposeSession r => exact .bind (hI.disposeSession r) fun _ ↦ .pure _
  | disposeEngine id => exact .bind (hI.disposeEngine id) fun _ ↦ .pure _
  | budget r input reserve a =>
    refine .bind (hI.near (inside_findSession r)) fun session ↦ keeps_guard _ fun _ ↦ ?_
    refine .bind (hI.near (inside_messages rt input)) fun messages ↦ ?_
    exact .bind (hI.inside (inside_budget rt r messages reserve a)) fun _ ↦ .pure _
  | tokenize id text a =>
    refine .bind (hI.near (inside_findEngine id)) fun engine ↦ ?_
    exact .bind (hI.near (inside_tokenize engine a)) fun _ ↦ .pure _
  | metrics r =>
    exact .bind (hI.near (inside_findSession r)) fun session ↦ keeps_guard _ fun _ ↦ .pure _
  | testCrash =>
    refine keeps_guard _ fun _ ↦ .bind (hI.update fun _ ↦ rfl) fun _ ↦ ?_
    exact .bind hI.closeAll fun _ ↦ .pure _
  | close => exact .bind hI.closeAll fun _ ↦ .bind (hI.update fun _ ↦ rfl) fun _ ↦ .pure _

theorem silently (hI : Frugal stream I) {s : Step} (hserve : ∀ a, s ≠ .serve stream a)
    (hasks : stream ∉ s.asks) (hsaid : ∀ command ∈ s.said, ∃ other r input a,
      command = .generate other r input a) (w : NativeWorker) (h : I w) : I (advance rt w s) := by
  have hkeeps : Keeps I (s.turn rt) := by
    cases s with
    | serve other a =>
      refine .bind (read _) fun known ↦ .when fun _ ↦ hI.pumpOne (fun h ↦ ?_) a
      exact hserve a (congrArg (Step.serve · a) h)
    | rest =>
      exact .bind (read _) fun operations ↦ .ite (fun _ ↦ hI.update fun _ ↦ rfl) fun _ ↦ .pure _
    | callback c => exact hI.callbacks [c]
    | command request command =>
      obtain ⟨other, r, input, a, rfl⟩ := hsaid command rfl
      have hne : other ≠ stream := fun h ↦ hasks (congrArg some h)
      refine .bind (read _) fun deaf ↦ .ite (fun _ ↦ ?_) fun _ ↦ .pure _
      exact .tryCatch (hI.submit hne r input a) fun e ↦ hI.event fun _ ↦ rfl
  exact hkeeps w h

end Frugal

namespace Unspent

theorem refl (w : NativeWorker) : Unspent stream w w := ⟨rfl, .of_eq rfl⟩

theorem trans (h : Unspent stream w t) (h' : Unspent stream t u) : Unspent stream w u :=
  ⟨h'.credit.trans h.credit, h.sends.trans h'.sends⟩

theorem frugal (w₀ : NativeWorker) : Frugal stream (Unspent stream w₀) :=
  ⟨fun _ _ hcredit h ↦ ⟨hcredit.trans h.credit, h.sends⟩, fun _ _ _ he h ↦
    ⟨h.credit, h.sends.trans (.emit _ he)⟩⟩

theorem send {request : Option ℕ} {result : Except Failure Value} :
    Keeps (Unspent stream w₀) (send (.reply request result)) := by
  intro w h
  have hmessage : Sends stream 0 w ⟨w.state, w.sent ++ [(.reply request result, w.state)]⟩ :=
    .message w w.state w.state (.reply request result)
  exact ⟨h.credit, h.sends.trans hmessage⟩

theorem listen {command : Command} (hgenerate : ∀ s r input a, command ≠ .generate s r input a)
    (hcredit : command ≠ .credit stream) (request : Option ℕ) :
    Keeps (Unspent stream w₀) (listen rt request command) := by
  refine .bind (Frugal.read _) fun deaf ↦ .ite (fun _ ↦ .tryCatch ?_ fun e ↦ ?_) fun _ ↦ .pure _
  · refine .bind ((frugal w₀).serve hgenerate hcredit) fun value ↦ ?_
    cases value with
    | none => exact .pure _
    | some value => exact .ite (fun _ ↦ send) fun _ ↦ .pure _
  · cases command with
    | generate s r input a => exact absurd rfl (hgenerate s r input a)
    | _ => exact send

theorem advance {s : Step} (hserve : ∀ a, s ≠ .serve stream a) (hasks : stream ∉ s.asks)
    (hcredit : ∀ request, s ≠ .command request (.credit stream)) (w : NativeWorker) :
    Unspent stream w (advance rt w s) := by
  have hsilently (hsaid : ∀ command ∈ s.said, ∃ other r input a,
      command = .generate other r input a) : Unspent stream w (Worker.advance rt w s) :=
    (frugal w).silently hserve hasks hsaid w (.refl w)
  cases s with
  | command request command =>
    have hcredit' : command ≠ .credit stream := fun h ↦ hcredit request (h ▸ rfl)
    cases command with
    | generate other r input a =>
      refine hsilently fun command hsaid ↦ ⟨other, r, input, a, ?_⟩
      exact (Option.some.inj hsaid).symm
    | _ => exact listen (fun _ _ _ _ ↦ Command.noConfusion) hcredit' request w (.refl w)
  | _ => exact hsilently (by simp [Step.said])

end Unspent

structure Spent (stream : ℕ) (w t : NativeWorker) : Prop where
  credit : (t.state.op stream).credit = false
  sends : ∃ n ≤ 1, Sends stream n w t
  told : t.state.fatalExit = false → Sends stream 1 w t
  live : stream ∈ t.state.operations
  uncancelled : (t.state.op stream).cancelRequested = false

structure Beside (w t : NativeWorker) : Prop where
  op : t.state.op = w.state.op
  operations : t.state.operations = w.state.operations
  sent : t.sent = w.sent

theorem insulated_beside {C : ℕ → NativeSession → NativeSession → Prop} : Insulated C (Beside w₀) :=
  ⟨fun _ _ _ _ h ↦ ⟨h.op, h.operations, h.sent⟩, fun _ _ _ _ h ↦ ⟨h.op, h.operations, h.sent⟩⟩

theorem Beside.refl (w : NativeWorker) : Beside w w := ⟨rfl, rfl, rfl⟩

theorem Beside.unspent (h : Beside w t) : Unspent stream w t :=
  ⟨by rw [h.op], .of_eq h.sent⟩

def Pumps (stream : ℕ) (w : NativeWorker) (result : Except Thrown Unit) (t : NativeWorker) : Prop :=
  Unspent stream w t ∨
    result = .ok () ∧ Spent stream w t ∧ (w.state.op stream).cancelRequested = false

theorem Unspent.spent (h : Unspent stream w t) (h' : Spent stream t u) : Spent stream w u := by
  obtain ⟨n, hn, hsends⟩ := h'.sends
  have hsent := @Sends.trans stream 0 1 w t u h.sends
  exact ⟨h'.credit, ⟨0 + n, by omega, h.sends.trans hsends⟩, fun hf ↦ hsent (h'.told hf), h'.live,
    h'.uncancelled⟩

theorem Beside.pumps (h : Beside w t) {result : Except Thrown Unit} (ht : Pumps stream t result u) :
    Pumps stream w result u := by
  rcases ht with hkept | ⟨hok, hspent, hc⟩
  · exact .inl (h.unspent.trans hkept)
  · exact .inr ⟨hok, h.unspent.spent hspent, h.op ▸ hc⟩

theorem post_deliver (hlive : stream ∈ w.state.operations) (kind : ℕ) (text : String)
    (a : PumpAnswers) : Post (deliver rt stream kind text a) w (Pumps stream w) := by
  rw [deliver]
  by_cases hkind : kind = 0
  · rw [if_pos hkind, post_read_bind]
    cases hc : (w.state.op stream).cancelRequested with
    | true => exact .inl (.refl w)
    | false =>
      rw [if_pos (by simp), post_read_bind]
      have hsend (text : String) : Post (if !text.isEmpty then do
          modifyOp stream fun o ↦ { o with text := o.text ++ text }
          modifyOp stream fun o ↦ { o with credit := false }
          event stream (.token text) else pure ()) w (Pumps stream w) := by
        split_ifs
        · simp only [modifyOp, post_bind, post_update, post_event, Function.update_self,
            Function.update_idem]
          refine .inr ⟨rfl, ⟨?_, Sends.emit_le _ _, Sends.emit_told _ _, hlive, ?_⟩, hc⟩
          · simp [emit]
          · simpa [emit] using hc
        · exact .inl (.refl w)
      cases (w.state.session (w.state.op stream).session).conversation with
      | false => exact hsend text
      | true =>
        refine (post_bind ..).mpr ((post_lift _).mpr ?_)
        cases chatText rt text with
        | error e => exact .inl (.refl w)
        | ok text => exact hsend text
  · rw [if_neg hkind]
    exact ((Unspent.frugal w).finish stream kind text false a w (.refl w)).mono fun _ _ h ↦ .inl h

theorem post_pumpEvent (hlive : stream ∈ w.state.operations) (native : ℕ) (a : PumpAnswers) :
    Post (do
      callbacks a.beforeTake
      pumpEvent rt stream native a) w (Pumps stream w) := by
  have hbeside {α : Type} {k : M α} (h : Inside (Within 0) k) : Keeps (Beside w) k :=
    h _ insulated_beside
  have herror (e : Thrown) (t : NativeWorker) (ht : Beside w t) : Pumps stream w (.error e) t :=
    .inl ht.unspent
  refine (hbeside (inside_callbacks _)).bind_post (.refl w) (fun _ t ht ↦ ?_) herror
  refine (hbeside (inside_take _)).bind_post ht (fun payload t ht ↦ ?_) herror
  cases payload with
  | none => exact .inl ht.unspent
  | some payload =>
    refine (hbeside (inside_readEvent _ _ _)).bind_post ht (fun text t ht ↦ ?_) herror
    cases text with
    | none => exact .inl ht.unspent
    | some text =>
      refine (post_deliver (ht.operations.symm ▸ hlive) _ _ a).mono fun result u hu ↦ ?_
      exact ht.pumps hu

/-- The native side of an operation has its last event queued. -/
def State.isFinal (s : State) (stream : ℕ) : Bool :=
  Bridge.operationIsFinal (s.native.operation (s.op stream).native)

/-- The operation was final before the token went out. -/
def Gated (rt : Runtime) (stream : ℕ) (w t : NativeWorker) : Prop :=
  ∃ u, Moves rt False w u ∧ Moves rt False u t ∧ Sends stream 0 w u ∧ u.state.isFinal stream = true

def Passes (rt : Runtime) (stream : ℕ) (w t : NativeWorker) : Prop :=
  Unspent stream w t ∨
    Spent stream w t ∧ ((w.state.op stream).credit = true ∨ Gated rt stream w t)

theorem post_pumpBody_credit (hw : Consistent w.state) (hlive : stream ∈ w.state.operations)
    (a : PumpAnswers) :
    Post (pumpBody rt stream a) w fun result t ↦
      Unspent stream w t ∨ result = .ok () ∧ Passes rt stream w t := by
  let I : NativeWorker → Prop := fun t ↦
    Live rt False w stream (w.state.op stream).native w.state.operations t ∧ Unspent stream w t
  have herror (e : Thrown) (t : NativeWorker) (ht : I t) :
      Unspent stream w t ∨ (.error e : Except Thrown Unit) = .ok () ∧ Passes rt stream w t :=
    .inl ht.2
  have hcallbacks (cs : List Callback) : Keeps I (callbacks cs) :=
    (Live.callbacks cs).and ((Unspent.frugal w).callbacks cs)
  have hevent {t : NativeWorker} (ht : I t)
      (hcredit : (t.state.op stream).cancelRequested = false →
        (w.state.op stream).credit = true ∨ t.state.isFinal stream = true) :
      Post (do
        callbacks a.beforeTake
        pumpEvent rt stream (w.state.op stream).native a) t fun result u ↦
        Unspent stream w u ∨ result = .ok () ∧ Passes rt stream w u := by
    have hreached : Live rt False t stream (w.state.op stream).native w.state.operations t :=
      ⟨.refl ht.1.reached.1, ht.1.native, ht.1.operations⟩
    have hpumped : Post (do
        callbacks a.beforeTake
        pumpEvent rt stream (w.state.op stream).native a) t
        (Pumped rt False t stream w.state.operations) := by
      refine hreached.bind (.callbacks _) fun _ v hv ↦ ?_
      have hpost := hv.reached.pumpEvent (hv.operations.symm ▸ hlive) (a := a) False.elim
      rwa [hv.native, hv.operations] at hpost
    refine ((post_pumpEvent (ht.1.operations.symm ▸ hlive) _ a).and hpumped).mono
      fun result u ⟨hu, hmoves⟩ ↦ ?_
    rcases hu with hkept | ⟨rfl, hspent, hc⟩
    · exact .inl (ht.2.trans hkept)
    · refine .inr ⟨rfl, .inr ⟨ht.2.spent hspent, (hcredit hc).imp_right fun hfinal ↦ ?_⟩⟩
      exact ⟨t, ht.1.reached.2, hmoves.1.2, ht.2.sends, hfinal⟩
  rw [pumpBody, post_read_bind]
  refine (hcallbacks _).bind_post ⟨⟨.refl hw, rfl, rfl⟩, .refl w⟩ (fun _ t ht ↦ ?_) herror
  rw [ask, post_read_bind]
  have hcancel : Keeps I (cancel stream true) :=
    (Live.cancel hlive true).and ((Unspent.frugal w).cancel stream true)
  refine Keeps.bind_post (.when fun _ ↦ hcancel) ht (fun _ t ht ↦ ?_) herror
  rw [post_read_bind, ht.1.native]
  have hcredit : (t.state.op stream).credit = (w.state.op stream).credit := ht.2.credit
  by_cases hgate : (!(t.state.op stream).credit && !(t.state.op stream).cancelRequested) = true
  · -- without credit only what is left of a final operation is read
    rw [if_pos hgate]
    refine (hcallbacks _).bind_post ht (fun _ u hu ↦ ?_) herror
    rw [ask, post_read_bind]
    dsimp only
    split_ifs with hopen
    · refine hevent hu fun _ ↦ .inr ?_
      rw [State.isFinal, hu.1.native]
      exact (Bool.and_eq_true_iff.mp hopen).2
    · exact .inl hu.2
  · rw [if_neg hgate, post_bind, post_pure]
    dsimp only
    rw [if_pos rfl]
    refine hevent ht fun hc ↦ .inl ?_
    rw [hc, hcredit] at hgate
    simpa using hgate

theorem Consistent.passes (hw : Consistent w.state) (a : PumpAnswers) :
    Passes rt stream w (advance rt w (.serve stream a)) := by
  by_cases hlive : stream ∈ w.state.operations
  · have hpost : Post ((Step.serve stream a).turn rt) w fun _ t ↦ Passes rt stream w t := by
      rw [post_serve hlive, pumpOne, post_tryCatch]
      refine (post_pumpBody_credit hw hlive a).mono fun result t ht ↦ ?_
      cases result with
      | ok => exact ht.elim .inl And.right
      | error e =>
        have hkept := ht.resolve_right (by simp)
        exact ((Unspent.frugal w).replace stream a e t hkept).mono fun _ _ h ↦ .inl h
    exact hpost
  · rw [serve_of_gone hlive]
    exact .inl (.refl w)

section Queue

def State.queuedTexts (s : State) (stream : ℕ) : ℕ :=
  (Bridge.texts (s.native.operation (s.op stream).native).queue).length

theorem Consistent.queuedTexts_le {s : State} (hs : Consistent s) (hlive : stream ∈ s.operations) :
    s.queuedTexts stream ≤ Bridge.kMaxEvents - 1 := by
  rw [State.queuedTexts, Bridge.texts, List.length_map, hs.machine _ (hs.opNative stream hlive)]
  exact (Bridge.protocol _ _).texts_length (Bridge.bounded _ _)

/-- Once it is final, an operation that runs on is only read. -/
theorem Follows.drains (h : Follows rt stream w t) (hw : Consistent w.state)
    (ht : Consistent t.state) (hlive : stream ∈ t.state.operations)
    (hfinal : w.state.isFinal stream = true) :
    t.state.isFinal stream = true ∧ t.state.queuedTexts stream ≤ w.state.queuedTexts stream := by
  have hwmachine := hw.machine _ (hw.opNative stream h.live)
  have htmachine := ht.machine _ (ht.opNative stream hlive)
  obtain ⟨more, hcalls, hmore, -⟩ := h.calls
  rw [h.native, hcalls] at htmachine
  rw [State.isFinal, Bridge.operationIsFinal, hwmachine] at hfinal
  obtain ⟨hfinal', read, -, hqueue⟩ := Bridge.drains hfinal hmore
  refine ⟨?_, ?_⟩
  · rw [State.isFinal, Bridge.operationIsFinal, h.native, htmachine]
    exact hfinal'
  · rw [State.queuedTexts, State.queuedTexts, h.native, htmachine, hwmachine, hqueue,
      Bridge.texts_append, List.length_append]
    exact Nat.le_add_left _ _

theorem Consistent.queuedTexts_take {s : State} (hs : Consistent s) (hlive : stream ∈ s.operations)
    {e : Bridge.Event} (he : s.head stream = some e) (hkind : e.kind = 0) :
    (s.bridge (s.op stream).native .take).queuedTexts stream + 1 = s.queuedTexts stream := by
  have hknown := hs.opNative stream hlive
  rw [State.head] at he
  cases hqueue : (s.native.operation (s.op stream).native).queue with
  | nil => simp [Bridge.operationTake, hqueue] at he
  | cons head queue =>
    obtain rfl : head = e := by simpa [Bridge.operationTake, hqueue] using he
    have htaken : ((s.bridge (s.op stream).native .take).native.operation
        (s.op stream).native).queue = queue := by
      simp [State.bridge, Native.bridge, hknown, Bridge.call, Bridge.operationTake, hqueue]
    have htext : (Bridge.texts [head]).length = 1 := by simp [Bridge.texts, hkind]
    have hop : (s.bridge (s.op stream).native .take).op = s.op := rfl
    rw [State.queuedTexts, State.queuedTexts, hop, htaken, hqueue, Bridge.texts_cons,
      List.length_append, htext, Nat.add_comm]

/-- Only the token of a text sends a token. -/
theorem Move.sends {harmless : Prop} (h : Move rt harmless w t) (stream : ℕ) :
    Sends stream 0 w t ∨ stream ∈ w.state.operations ∧ ∃ e text, w.state.head stream = some e ∧
      e.kind = 0 ∧ t = emit ((w.state.bridge (w.state.op stream).native .take).addText stream text)
        w.sent stream (.token text) := by
  cases h with
  | reply request result => exact .inl (Sends.message w _ _ (.reply request result))
  | @token other e text hother he hkind hc htext =>
    by_cases hsame : other = stream
    · subst hsame
      exact .inr ⟨hother, e, text, he, hkind, rfl⟩
    · exact .inl (.emit _ fun h ↦ absurd h hsame)
  | release _ _ _ _ he => exact .inl (.emit _ fun _ ↦ Event.isToken_of_failure he)
  | complete => exact .inl (.emit _ fun _ ↦ rfl)
  | _ => exact .inl (.of_eq rfl)

/-- Every token of an operation that is final is a text of its queue. -/
theorem Move.drains {harmless : Prop} (h : Move rt harmless w t) (hw : Consistent w.state)
    (hlive : stream ∈ t.state.operations)
    (huncancelled : (t.state.op stream).cancelRequested = false)
    (hfinal : w.state.isFinal stream = true) :
    ∃ n, Sends stream n w t ∧ n + t.state.queuedTexts stream ≤ w.state.queuedTexts stream := by
  have hfollows := h.follows hw hlive huncancelled
  obtain ⟨-, hqueue⟩ := hfollows.drains hw (h.consistent rt hw) hlive hfinal
  rcases h.sends stream with hsends | ⟨hlive, e, text, he, hkind, rfl⟩
  · exact ⟨0, hsends, by rwa [Nat.zero_add]⟩
  · obtain ⟨n, hn, hsends⟩ := @Sends.emit_le stream stream w
      ((w.state.bridge (w.state.op stream).native .take).addText stream text) (.token text)
    refine ⟨n, hsends, ?_⟩
    have htaken := hw.queuedTexts_take hlive he hkind
    have hsame : ((w.state.bridge (w.state.op stream).native .take).addText stream text).queuedTexts
        stream = (w.state.bridge (w.state.op stream).native .take).queuedTexts stream := by
      simp [State.queuedTexts, State.addText, State.bridge]
    rw [emit_state, hsame]
    omega

theorem Moves.drains {harmless : Prop} (h : Moves rt harmless w t) (hw : Consistent w.state)
    (hlive : stream ∈ t.state.operations)
    (huncancelled : (t.state.op stream).cancelRequested = false)
    (hfinal : w.state.isFinal stream = true) :
    ∃ n, Sends stream n w t ∧ n + t.state.queuedTexts stream ≤ w.state.queuedTexts stream := by
  induction h with
  | refl => exact ⟨0, .of_eq rfl, (Nat.zero_add _).le⟩
  | @tail v t hmoves hmove ih =>
    have hv : Consistent v.state := Moves.consistent rt hmoves hw
    have hlast := hmove.follows hv hlive huncancelled
    obtain ⟨n, hsends, hn⟩ := ih hlast.live hlast.uncancelled
    have hfirst := Moves.follows hmoves hw hlast.live hlast.uncancelled
    have hvfinal := (hfirst.drains hw hv hlast.live hfinal).1
    obtain ⟨m, hsends', hm⟩ := hmove.drains hv hlive huncancelled hvfinal
    exact ⟨n + m, hsends.trans hsends', by omega⟩

end Queue

section Silent

variable {r : ℕ}

theorem insulated_sends {C : ℕ → NativeSession → NativeSession → Prop} :
    Insulated C (Sends stream 0 w₀) :=
  ⟨fun _ _ _ _ h ↦ h, fun _ _ _ _ h ↦ h⟩

theorem Inside.silent {C : ℕ → NativeSession → NativeSession → Prop} {k : M α} (h : Inside C k) :
    Keeps (Sends stream 0 w₀) k := h _ insulated_sends

theorem silent_update (f : State → State) : Keeps (Sends stream 0 w₀) (update f) := fun _ h ↦ h

theorem silent_event {e : Event} (he : e.isToken = false) :
    Keeps (Sends stream 0 w₀) (event other e) := by
  intro w h
  exact (post_event ..).mpr (h.trans (.emit _ fun _ ↦ he))

theorem silent_submit (input : Input) (a : GenerateAnswers) :
    Keeps (Sends stream 0 w₀) (submit rt other r input a) := by
  refine .bind (inside_prepare rt r input a).silent fun messages ↦ ?_
  have hread {β : Type} (f : State → β) : Keeps (Sends stream 0 w₀) (read f) := .map .get _
  refine .bind (hread _) fun native ↦ .bind (silent_update _) fun _ ↦ keeps_guard _ fun _ ↦ ?_
  refine .bind (silent_update _) fun _ ↦ .bind (silent_update _) fun _ ↦ ?_
  refine .bind (silent_update _) fun _ ↦ .bind (.tryCatch ?_ fun e ↦ ?_) fun _ ↦ silent_update _
  · exact .bind (hread _) fun session ↦ (inside_request (C := Within 0) _ _ _ _).silent
  · refine .bind (silent_update _) fun _ ↦ .bind (silent_update _) fun _ ↦ ?_
    exact .bind (silent_update _) fun _ ↦ .throw _

theorem silent_command (request : Option ℕ) (command : Command) :
    Sends stream 0 w (advance rt w (.command request command)) := by
  have hlisten (hgenerate : ∀ s r input a, command ≠ .generate s r input a) :
      Sends stream 0 w (step rt w (.command request command)) := by
    by_cases hcredit : command = .credit stream
    · subst hcredit
      have hkeeps : Keeps (Sends stream 0 w) (listen rt request (.credit stream)) := by
        refine .bind (.map .get _) fun deaf ↦ .ite (fun _ ↦ .tryCatch ?_ fun e ↦ ?_) fun _ ↦ .pure _
        · refine .bind (.bind (.map .get _) fun known ↦ ?_) fun value ↦ ?_
          · exact .bind (.when fun _ ↦ silent_update _) fun _ ↦ .pure _
          · cases value with
            | none => exact .pure _
            | some value => exact .ite (fun _ w h ↦ h.trans (.message _ _ _ _)) fun _ ↦ .pure _
        · exact fun w h ↦ h.trans (.message _ _ _ _)
      exact hkeeps w (.of_eq rfl)
    · exact (Unspent.listen hgenerate hcredit request w (.refl w)).sends
  cases command with
  | generate other r input a =>
    have hkeeps :
      Keeps (Sends stream 0 w) ((Step.command request (.generate other r input a)).turn rt) := by
      refine .bind (.map .get _) fun deaf ↦ .ite (fun _ ↦ ?_) fun _ ↦ .pure _
      exact .tryCatch (silent_submit input a) fun e ↦ silent_event rfl
    exact hkeeps w (.of_eq rfl)
  | _ => exact hlisten fun _ _ _ _ ↦ Command.noConfusion

end Silent

section Metered

def Command.isCreditOf (stream : ℕ) : Command → Bool
  | .credit other => other == stream
  | _ => false

def creditsOf (stream : ℕ) (commands : List Command) : ℕ :=
  commands.countP (Command.isCreditOf stream)

/-- After `c` credits for a stream, the `n` tokens of it that were sent: one more
than the credits as long as the native side has not come to its end, and then
at most the texts that were queued. -/
structure Metered (asked : List ℕ) (stream c n : ℕ) (w : NativeWorker) : Prop where
  most : n ≤ c + Bridge.kMaxEvents
  live : stream ∈ w.state.operations → (w.state.op stream).cancelRequested = false →
    if w.state.isFinal stream then n + w.state.queuedTexts stream ≤ c + Bridge.kMaxEvents
    else n + (w.state.op stream).credit.toNat ≤ c + 1
  unknown : stream ∉ asked → n = 0

variable {asked : List ℕ} {c k : ℕ}

theorem Consistent.room {s : State} (hs : Consistent s) (hlive : stream ∈ s.operations)
    (hn : n ≤ c + 1) : n + s.queuedTexts stream ≤ c + Bridge.kMaxEvents := by
  have hqueue := hs.queuedTexts_le hlive
  have hpos : 0 < Bridge.kMaxEvents := by decide
  omega

theorem Metered.flow (h : Metered asked stream c n w) (hlive : stream ∈ w.state.operations)
    (huncancelled : (w.state.op stream).cancelRequested = false)
    (hfinal : w.state.isFinal stream = false) : n + (w.state.op stream).credit.toNat ≤ c + 1 := by
  simpa [hfinal] using h.live hlive huncancelled

theorem Metered.rest (h : Metered asked stream c n w) (hlive : stream ∈ w.state.operations)
    (huncancelled : (w.state.op stream).cancelRequested = false)
    (hfinal : w.state.isFinal stream = true) :
    n + w.state.queuedTexts stream ≤ c + Bridge.kMaxEvents := by
  simpa [hfinal] using h.live hlive huncancelled

/-- A step that sends no token of the stream but may give it `k` credits. -/
theorem Metered.silent (h : Metered asked stream c n w) (hw : Consistent w.state)
    (ht : Consistent t.state) {asks : Option ℕ} (hnew : ∀ other ∈ asks, other ∉ asked)
    (hfollows : stream ∉ asks → stream ∈ t.state.operations →
      (t.state.op stream).cancelRequested = false → Follows rt stream w t)
    (hcredit : stream ∉ asks →
      (t.state.op stream).credit.toNat ≤ (w.state.op stream).credit.toNat + k) :
    Metered (asked ++ asks.toList) stream (c + k) n t := by
  have hflag : (t.state.op stream).credit.toNat ≤ 1 := Bool.toNat_le _
  refine ⟨h.most.trans (by omega), fun hlive huncancelled ↦ ?_, fun hunknown ↦ ?_⟩
  · by_cases hasks : stream ∈ asks
    · obtain rfl : n = 0 := h.unknown (hnew stream hasks)
      have hroom := ht.room hlive (n := 0) (c := c + k) (Nat.zero_le _)
      split_ifs
      · exact hroom
      · omega
    · have hsame := hfollows hasks hlive huncancelled
      cases hfinal : w.state.isFinal stream with
      | true =>
        obtain ⟨hfinal', hqueue⟩ := hsame.drains hw ht hlive hfinal
        have hrest := h.rest hsame.live hsame.uncancelled hfinal
        rw [if_pos hfinal']
        omega
      | false =>
        have hflow := h.flow hsame.live hsame.uncancelled hfinal
        have hcredit' := hcredit hasks
        have hroom := ht.room hlive (n := n) (c := c + k) (by omega)
        split_ifs
        · exact hroom
        · omega
  · exact h.unknown fun hmem ↦ hunknown (List.mem_append_left _ hmem)

theorem Metered.serve (h : Metered asked stream c n w) (hw : Sound asked w) (a : PumpAnswers) :
    ∃ m, Sends stream m w (advance rt w (.serve stream a)) ∧
      Metered asked stream c (n + m) (advance rt w (.serve stream a)) := by
  have hmoves : Moves rt False w (advance rt w (.serve stream a)) :=
    step_moves hw.consistent fun _ _ ↦ Step.noConfusion
  have hpasses : Passes rt stream w _ := hw.consistent.passes a
  set t : NativeWorker := advance rt w (.serve stream a)
  have ht : Consistent t.state := Moves.consistent rt hmoves hw.consistent
  rcases hpasses with hunspent | ⟨hspent, hcause⟩
  · have hsilent : Metered (asked ++ (none : Option ℕ).toList) stream (c + 0) n t :=
      h.silent hw.consistent ht (by simp)
        (fun _ hlive huncancelled ↦ Moves.follows hmoves hw.consistent hlive huncancelled)
        fun _ ↦ by rw [hunspent.credit, Nat.add_zero]
    exact ⟨0, hunspent.sends, by simpa using hsilent⟩
  · obtain ⟨m, hm, hsends⟩ := hspent.sends
    have hsame := Moves.follows hmoves hw.consistent hspent.live hspent.uncancelled
    have hknown : stream ∉ asked → n + m = 0 :=
      fun hunknown ↦ absurd (hw.asked stream hsame.live) hunknown
    have hend (hfinal : t.state.isFinal stream = true)
        (hroom : n + m + t.state.queuedTexts stream ≤ c + Bridge.kMaxEvents) :
        Metered asked stream c (n + m) t :=
      ⟨by omega, fun _ _ ↦ by rwa [if_pos hfinal], hknown⟩
    cases hfinal : w.state.isFinal stream with
    | true =>
      -- the native side has come to its end: what is sent was queued
      obtain ⟨m', hsends', hqueue⟩ :=
        Moves.drains hmoves hw.consistent hspent.live hspent.uncancelled hfinal
      obtain rfl := hsends.unique hsends'
      have hrest := h.rest hsame.live hsame.uncancelled hfinal
      exact ⟨m, hsends, hend (hsame.drains hw.consistent ht hspent.live hfinal).1 (by omega)⟩
    | false =>
      have hflow := h.flow hsame.live hsame.uncancelled hfinal
      rcases hcause with hcredit | ⟨u, hbefore, hafter, hsilent, hufinal⟩
      · -- the credit is spent
        rw [hcredit, Bool.toNat_true] at hflow
        have hroom := ht.room hspent.live (n := n + m) (c := c) (by omega)
        refine ⟨m, hsends, ⟨by omega, fun _ _ ↦ ?_, hknown⟩⟩
        split_ifs
        · exact hroom
        · rw [hspent.credit, Bool.toNat_false]
          omega
      · -- without credit the native side came to its end within the pass
        have hu : Consistent u.state := Moves.consistent rt hbefore hw.consistent
        have hlast := Moves.follows hafter hu hspent.live hspent.uncancelled
        obtain ⟨m', hsends', hqueue⟩ :=
          Moves.drains hafter hu hspent.live hspent.uncancelled hufinal
        obtain rfl := hsends.unique (hsilent.trans hsends')
        have hroom := hu.room hlast.live (n := n) (c := c) (by omega)
        exact ⟨_, hsends, hend (hlast.drains hu ht hspent.live hufinal).1 (by omega)⟩

theorem Metered.step (h : Metered asked stream c n w) (hw : Sound asked w) (s : Step)
    (hnew : ∀ other ∈ s.asks, other ∉ asked) :
    ∃ m, Sends stream m w (advance rt w s) ∧
      Metered (asked ++ s.asks.toList) stream (c + creditsOf stream s.said.toList) (n + m)
        (advance rt w s) := by
  have ht : Consistent (advance rt w s).state := (hw.step s hnew).consistent
  have hsilent (hsends : Sends stream 0 w (advance rt w s))
      (hcredit : stream ∉ s.asks → ((advance rt w s).state.op stream).credit.toNat ≤
        (w.state.op stream).credit.toNat + creditsOf stream s.said.toList) :
      ∃ m, Sends stream m w (advance rt w s) ∧
        Metered (asked ++ s.asks.toList) stream (c + creditsOf stream s.said.toList) (n + m)
          (advance rt w s) :=
    ⟨0, hsends, h.silent hw.consistent ht hnew hw.consistent.follows hcredit⟩
  have hunspent (h : Unspent stream w (advance rt w s)) :
      ((advance rt w s).state.op stream).credit.toNat ≤
        (w.state.op stream).credit.toNat + creditsOf stream s.said.toList := by
    rw [h.credit]
    exact Nat.le_add_right ..
  by_cases hserve : ∃ a, s = .serve stream a
  · obtain ⟨a, rfl⟩ := hserve
    have hserved := @Metered.serve rt _ _ _ _ _ h hw a
    rwa [← List.append_nil asked] at hserved
  · have hserve : ∀ a, s ≠ .serve stream a := fun a heq ↦ hserve ⟨a, heq⟩
    cases s with
    | command request command =>
      refine hsilent (silent_command request command) fun hasks ↦ ?_
      by_cases hcredit : command = .credit stream
      · subst hcredit
        have hone : creditsOf stream (Step.command request (.credit stream)).said.toList = 1 := by
          simp [creditsOf, Step.said, Command.isCreditOf]
        rw [hone]
        exact (Bool.toNat_le _).trans (Nat.le_add_left ..)
      · exact hunspent
          (.advance hserve hasks (fun request' heq ↦ hcredit (Step.command.inj heq).2) w)
    | _ =>
      have hsame :=
        @Unspent.advance rt _ _ hserve (by simp [Step.asks]) (fun _ ↦ Step.noConfusion) w
      exact hsilent hsame.sends fun _ ↦ hunspent hsame

theorem creditsOf_append (commands commands' : List Command) :
    creditsOf stream (commands ++ commands') =
      creditsOf stream commands + creditsOf stream commands' :=
  List.countP_append

/-- What every step keeps, while it counts tokens and credits, a turn keeps. -/
theorem Sound.counts {I : List ℕ → ℕ → ℕ → NativeWorker → Prop}
    (hI : ∀ asked c n w s, I asked c n w → Sound asked w → (∀ other ∈ s.asks, other ∉ asked) →
      ∃ m, Sends stream m w (advance rt w s) ∧
        I (asked ++ s.asks.toList) (c + creditsOf stream s.said.toList) (n + m) (advance rt w s))
    (hw : Sound asked w) (h : I asked c n w) {steps : List Step}
    (hnew : (asked ++ steps.filterMap Step.asks).Nodup) :
    ∃ m, Sends stream m w (steps.foldl (advance rt) w) ∧
      I (asked ++ steps.filterMap Step.asks) (c + creditsOf stream (steps.filterMap Step.said))
        (n + m) (steps.foldl (advance rt) w) := by
  induction steps generalizing w asked c n with
  | nil =>
    rw [List.filterMap_nil, List.append_nil]
    exact ⟨0, .of_eq rfl, h⟩
  | cons s steps ih =>
    have hsaid : (s :: steps).filterMap Step.said = s.said.toList ++ steps.filterMap Step.said := by
      cases h : s.said <;> simp [h]
    obtain ⟨hfirst, hrest⟩ := Step.asks_first hnew
    rw [Step.asks_cons, ← List.append_assoc]
    obtain ⟨m, hsends, hkept⟩ := hI asked c n w s h hw hfirst
    obtain ⟨m', hsends', hkept'⟩ := ih (hw.step s hfirst) hkept hrest
    refine ⟨m + m', hsends.trans hsends', ?_⟩
    rw [hsaid, creditsOf_append, ← Nat.add_assoc, ← Nat.add_assoc]
    exact hkept'

theorem Metered.turn (h : Metered asked stream c n w) (hw : Sound asked w) (a : Action)
    (hnew : (asked ++ a.asks.toList).Nodup) :
    ∃ m, Sends stream m w (Worker.step rt w a) ∧
      Metered (asked ++ a.asks.toList) stream (c + creditsOf stream a.said.toList) (n + m)
        (Worker.step rt w a) := by
  obtain ⟨steps, hsteps, hasks, hsaid⟩ := @step_steps rt _ hw.consistent a
  rw [← hasks] at hnew ⊢
  rw [← hsaid, ← hsteps]
  exact hw.counts (I := fun asked c n w ↦ Metered asked stream c n w)
    (fun _ _ _ _ s h hw hnew ↦ h.step hw s hnew) h hnew

end Metered

section Draining

variable {asked : List ℕ} {c bound : ℕ}

/-- The `n` tokens that were sent for an operation, and those that are still to
come once the native side has come to its end. -/
structure Draining (stream bound n : ℕ) (w : NativeWorker) : Prop where
  most : n ≤ bound
  live : stream ∈ w.state.operations → (w.state.op stream).cancelRequested = false →
    w.state.isFinal stream = true ∧ n + w.state.queuedTexts stream ≤ bound

theorem silent_step {s : Step} (hserve : ∀ a, s ≠ .serve stream a) :
    Sends stream 0 w (advance rt w s) := by
  cases s with
  | command request command => exact silent_command request command
  | _ => exact (Unspent.advance hserve (by simp [Step.asks]) (fun _ ↦ Step.noConfusion) w).sends

theorem Draining.kept (h : Draining stream bound n w) (hw : Consistent w.state)
    (ht : Consistent t.state) (hfollows : stream ∈ t.state.operations →
      (t.state.op stream).cancelRequested = false → Follows rt stream w t) :
    Draining stream bound n t := by
  refine ⟨h.most, fun hlive huncancelled ↦ ?_⟩
  have hsame := hfollows hlive huncancelled
  obtain ⟨hfinal, hroom⟩ := h.live hsame.live hsame.uncancelled
  obtain ⟨hfinal', hqueue⟩ := hsame.drains hw ht hlive hfinal
  exact ⟨hfinal', by omega⟩

theorem Draining.step (h : Draining stream bound n w) (hw : Sound asked w) (hknown : stream ∈ asked)
    (s : Step) (hnew : ∀ other ∈ s.asks, other ∉ asked) :
    ∃ m, Sends stream m w (advance rt w s) ∧ Draining stream bound (n + m) (advance rt w s) := by
  have ht : Consistent (advance rt w s).state := (hw.step s hnew).consistent
  have hasks : stream ∉ s.asks := fun hmem ↦ hnew stream hmem hknown
  have hfollows (hlive : stream ∈ (advance rt w s).state.operations)
      (huncancelled : ((advance rt w s).state.op stream).cancelRequested = false) :
      Follows rt stream w (advance rt w s) := hw.consistent.follows hasks hlive huncancelled
  by_cases hserve : ∃ a, s = .serve stream a
  · obtain ⟨a, rfl⟩ := hserve
    have hpasses : Passes rt stream w (advance rt w (.serve stream a)) := hw.consistent.passes a
    rcases hpasses with hunspent | ⟨hspent, -⟩
    · exact ⟨0, hunspent.sends, h.kept hw.consistent ht hfollows⟩
    · have hmoves : Moves rt False w (advance rt w (.serve stream a)) :=
        step_moves hw.consistent fun _ _ ↦ Step.noConfusion
      have hsame := hfollows hspent.live hspent.uncancelled
      obtain ⟨hfinal, hroom⟩ := h.live hsame.live hsame.uncancelled
      obtain ⟨m, hsends, hqueue⟩ :=
        Moves.drains hmoves hw.consistent hspent.live hspent.uncancelled hfinal
      have hfinal' := (hsame.drains hw.consistent ht hspent.live hfinal).1
      exact ⟨m, hsends, by omega, fun _ _ ↦ ⟨hfinal', by omega⟩⟩
  · exact ⟨0, silent_step fun a heq ↦ hserve ⟨a, heq⟩, h.kept hw.consistent ht hfollows⟩

theorem Draining.turn (h : Draining stream bound n w) (hw : Sound asked w) (hknown : stream ∈ asked)
    (a : Action) (hnew : (asked ++ a.asks.toList).Nodup) :
    ∃ m, Sends stream m w (Worker.step rt w a) ∧
      Draining stream bound (n + m) (Worker.step rt w a) := by
  obtain ⟨steps, hsteps, hasks, hsaid⟩ := @step_steps rt _ hw.consistent a
  rw [← hasks] at hnew
  rw [← hsteps]
  have hstep (asked : List ℕ) (_ n : ℕ) (w : NativeWorker) (s : Step)
      (h : stream ∈ asked ∧ Draining stream bound n w) (hw : Sound asked w)
      (hnew : ∀ other ∈ s.asks, other ∉ asked) : ∃ m, Sends stream m w (advance rt w s) ∧
        stream ∈ asked ++ s.asks.toList ∧ Draining stream bound (n + m) (advance rt w s) := by
    obtain ⟨m, hsends, hdraining⟩ := h.2.step hw h.1 s hnew
    exact ⟨m, hsends, List.mem_append_left _ h.1, hdraining⟩
  obtain ⟨m, hsends, -, hdraining⟩ :=
    hw.counts (c := 0) (I := fun asked _ n w ↦ stream ∈ asked ∧ Draining stream bound n w) hstep
      ⟨hknown, h⟩ hnew
  exact ⟨m, hsends, hdraining⟩

end Draining

end LibLitertLm.Worker
