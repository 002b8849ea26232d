import LibLitertLm.Worker.Steps
import Mathlib.Data.Fintype.EquivFin

namespace LibLitertLm.Worker

open Code

structure Elsewhere (r stream : ℕ) (w₀ w : NativeWorker) : Prop where
  session : ∀ r', r' ≠ r → r' ≠ 0 → w.state.session r' = w₀.state.session r'
  known : ∀ r', r' ≠ r → (r' ∈ w.state.sessions ↔ r' ∈ w₀.state.sessions)
  op : ∀ other, other ≠ stream → w.state.op other = w₀.state.op other
  running : ∀ other, other ≠ stream →
    (other ∈ w.state.operations ↔ other ∈ w₀.state.operations)
  events : ∀ other, other ≠ stream → eventsOf other w.sent = eventsOf other w₀.sent

structure Apart (r stream : ℕ) (w₀ w : NativeWorker) : Prop where
  elsewhere : Elsewhere r stream w₀ w
  own : (w.state.op stream).session = r

variable {rt : Runtime} {r stream : ℕ} {w₀ w t : NativeWorker}

theorem Elsewhere.refl (w : NativeWorker) : Elsewhere r stream w w :=
  ⟨fun _ _ _ ↦ rfl, fun _ _ ↦ Iff.rfl, fun _ _ ↦ rfl, fun _ _ ↦ Iff.rfl, fun _ _ ↦ rfl⟩

theorem Elsewhere.setSession (h : Elsewhere r stream w₀ w) {r' : ℕ} (hr : r' = r ∨ r' = 0)
    (x : NativeSession) : Elsewhere r stream w₀ (w.setSession r' x) := by
  refine { h with session := fun other hne hpos ↦ ?_ }
  have hother : other ≠ r' := by
    obtain rfl | rfl := hr
    · exact hne
    · exact hpos
  exact (Function.update_of_ne hother _ _).trans (h.session other hne hpos)

theorem insulated_elsewhere : Insulated (Within r) (Elsewhere r stream w₀) where
  native _ _ _ _ h := { h with }
  session _ _ x hx h := h.setSession (hx.symm.imp_left And.left) x

theorem insulated_apart : Insulated (Within r) (Apart r stream w₀) where
  native _ _ _ _ h := ⟨{ h.elsewhere with }, h.own⟩
  session _ _ x hx h := ⟨h.elsewhere.setSession (hx.symm.imp_left And.left) x, h.own⟩

theorem Inside.elsewhere {m : M α} (h : Inside (Within r) m) : Keeps (Elsewhere r stream w₀) m :=
  h _ insulated_elsewhere

theorem Inside.apart {m : M α} (h : Inside (Within r) m) : Keeps (Apart r stream w₀) m :=
  h _ insulated_apart

theorem Elsewhere.event (h : Elsewhere r stream w₀ w) (e : Event) :
    Post (event stream e) w fun _ t ↦ Elsewhere r stream w₀ t := by
  refine (post_event ..).mpr { h with events := fun other hne ↦ ?_ }
  rw [eventsOf_emit_other (Ne.symm hne)]
  exact h.events other hne

namespace Apart

theorem event (e : Event) : Keeps (Apart r stream w₀) (event stream e) := by
  intro w hw
  have hpost := hw.elsewhere.event e
  exact (post_event ..).mpr ⟨(post_event ..).mp hpost, hw.own⟩

theorem modifyOp {g : Op → Op} (hg : ∀ o, (g o).session = o.session) :
    Keeps (Apart r stream w₀) (modifyOp stream g) := by
  intro w hw
  refine ⟨{ hw.elsewhere with op := fun other hne ↦ ?_ }, ?_⟩
  · exact (Function.update_of_ne hne _ _).trans (hw.elsewhere.op other hne)
  · have hself : Function.update w.state.op stream (g (w.state.op stream)) stream = _ :=
      Function.update_self ..
    exact (congrArg Op.session hself).trans ((hg _).trans hw.own)

theorem modifySession (g : NativeSession → NativeSession) :
    Keeps (Apart r stream w₀) (modifySession r g) :=
  fun _ hw ↦ ⟨hw.elsewhere.setSession (.inl rfl) _, hw.own⟩

theorem cancel (overflow : Bool) : Keeps (Apart r stream w₀) (cancel stream overflow) := by
  intro w hw
  rw [Worker.cancel, post_read_bind, hw.own]
  have hkeep : Keeps (Apart r stream w₀) (do
      Worker.modifyOp stream fun o ↦ { o with cancelRequested := true, backpressure := overflow }
      Worker.modifySession r fun s ↦ { s with phase := .cancelRequested }
      when (!overflow) (bridge (w.state.op stream).native .cancel)
      let session ← read fun s ↦ s.session r
      useHandle session) := by
    refine .bind (modifyOp fun _ ↦ rfl) fun _ ↦ .bind (modifySession _) fun _ ↦ ?_
    refine .bind (.when fun _ ↦ (inside_bridge _ _).apart) fun _ ↦ ?_
    exact .bind (inside_read _).apart fun _ ↦ (inside_useHandle _).apart
  exact Keeps.ite (fun _ ↦ hkeep) (fun _ ↦ .pure _) w hw

theorem settle (e : Worker.Event) : Keeps (Apart r stream w₀) (settle stream e) := by
  intro w hw
  rw [Worker.settle, post_read_bind, hw.own]
  have hremove : Keeps (Apart r stream w₀)
      (update fun s ↦ { s with operations := s.operations.filter (· ≠ stream) }) := by
    intro w hw
    refine ⟨{ hw.elsewhere with running := fun other hne ↦ ?_ }, hw.own⟩
    refine Iff.trans ?_ (hw.elsewhere.running other hne)
    show other ∈ w.state.operations.filter (· ≠ stream) ↔ _
    simp [hne]
  refine Keeps.bind (inside_operationDelete _).apart (fun _ ↦ ?_) w hw
  exact .bind hremove fun _ ↦ .bind (modifySession _) fun _ ↦ event e

theorem finish (kind : ℕ) (detail : String) (failureAfterStop : Bool) (a : PumpAnswers) :
    Keeps (Apart r stream w₀) (finish rt stream kind detail failureAfterStop a) := by
  intro w hw
  rw [Worker.finish, post_read_bind]
  split_ifs with hknown
  · rw [post_read_bind, post_read_bind]
    dsimp only
    rw [hw.own]
    split_ifs
    · exact Keeps.bind (inside_deleteHandle r).apart (fun _ ↦ settle _) w hw
    · refine Keeps.bind (inside_metrics r a).apart (fun _ ↦ ?_) w hw
      refine .bind (modifySession _) fun _ ↦ .bind ?_ fun _ ↦ settle _
      exact .when fun _ ↦ (inside_commitHistory rt (fun _ _ ↦ .inr ⟨rfl, rfl⟩) a).apart
  · exact hw

theorem deliver (kind : ℕ) (text : String) (a : PumpAnswers) :
    Keeps (Apart r stream w₀) (deliver rt stream kind text a) := by
  unfold Worker.deliver
  refine .ite (fun _ ↦ ?_) fun _ ↦ finish _ _ _ _
  have hsend (text : String) : Keeps (Apart r stream w₀) (do
      Worker.modifyOp stream fun o ↦ { o with text := o.text ++ text }
      Worker.modifyOp stream fun o ↦ { o with credit := false }
      Worker.event stream (.token text)) :=
    .bind (modifyOp fun _ ↦ rfl) fun _ ↦ .bind (modifyOp fun _ ↦ rfl) fun _ ↦ event _
  refine .bind (inside_read _).apart fun op ↦ .ite (fun _ ↦ ?_) fun _ ↦ .pure _
  refine .bind (inside_read _).apart fun session ↦ .ite (fun _ ↦ ?_) fun _ ↦ ?_
  · exact .bind (.lift _) fun text ↦ .ite (fun _ ↦ hsend text) fun _ ↦ .pure _
  · exact .bind (.pure _) fun text ↦ .ite (fun _ ↦ hsend text) fun _ ↦ .pure _

theorem pumpEvent (native : ℕ) (a : PumpAnswers) :
    Keeps (Apart r stream w₀) (pumpEvent rt stream native a) := by
  refine .bind (inside_take _).apart fun payload ↦ ?_
  cases payload with
  | none => exact .pure _
  | some payload =>
    refine .bind (inside_readEvent _ _ _).apart fun text ↦ ?_
    cases text with
    | none => exact .pure _
    | some text => exact deliver _ _ _

theorem pumpBody (a : PumpAnswers) : Keeps (Apart r stream w₀) (pumpBody rt stream a) := by
  refine .bind (inside_read _).apart fun op ↦ .bind (inside_callbacks _).apart fun _ ↦ ?_
  refine .bind (inside_read _).apart fun overflow ↦ .bind (.when fun _ ↦ cancel true) fun _ ↦ ?_
  refine .bind (inside_read _).apart fun op ↦ ?_
  have hopen (open? : Bool) : Keeps (Apart r stream w₀) (if open? then do
      callbacks a.beforeTake
      Worker.pumpEvent rt stream op.native a else pure ()) :=
    .ite (fun _ ↦ .bind (inside_callbacks _).apart fun _ ↦ pumpEvent _ _) fun _ ↦ .pure _
  refine .ite (fun _ ↦ ?_) fun _ ↦ .bind (.pure _) fun open? ↦ hopen open?
  refine .bind (inside_callbacks _).apart fun _ ↦ ?_
  exact .bind (inside_read _).apart fun open? ↦ hopen open?

theorem pumpOne (a : PumpAnswers) : Keeps (Apart r stream w₀) (pumpOne rt a stream) := by
  intro w hw
  rw [Worker.pumpOne, post_tryCatch]
  refine (pumpBody a w hw).mono fun result t ht ↦ ?_
  cases result with
  | ok => exact ht
  | error e =>
    dsimp only
    rw [post_bind]
    refine (cancel false t ht).mono fun result u hu ↦ ?_
    cases result with
    | error e => exact hu
    | ok =>
      rw [post_read_bind, hu.own]
      exact Keeps.bind (inside_deleteHandle r).apart (fun _ ↦ finish _ _ _ _) u hu

end Apart

namespace Elsewhere

theorem setOp (h : Elsewhere r stream w₀ w) (o : Op) (ho : o.session = r) :
    Apart r stream w₀
      ⟨{ w.state with op := Function.update w.state.op stream o }, w.sent⟩ := by
  refine ⟨{ h with op := fun other hne ↦ ?_ }, ?_⟩
  · exact (Function.update_of_ne hne _ _).trans (h.op other hne)
  · exact (congrArg Op.session (Function.update_self ..)).trans ho

theorem launch (messages : List Message) (a : GenerateAnswers) :
    Keeps (Elsewhere r stream w₀) (launch stream r messages a) := by
  refine .bind (inside_read _).elsewhere fun native ↦ .bind ?_ fun _ ↦ ?_
  · exact fun w hw ↦ { hw with }
  refine keeps_guard _ fun _ w hw ↦ ?_
  have hown := hw.setOp { session := r, native := native, messages := messages } rfl
  refine Post.mono (P := fun _ t ↦ Apart r stream w₀ t) ?_ fun _ _ ht ↦ ht.elsewhere
  have hregister (f : List ℕ → List ℕ)
      (hf : ∀ streams other, other ≠ stream → (other ∈ f streams ↔ other ∈ streams)) :
      Keeps (Apart r stream w₀) (update fun s ↦ { s with operations := f s.operations }) := by
    intro w hw
    refine ⟨{ hw.elsewhere with running := fun other hne ↦ ?_ }, hw.own⟩
    exact (hf _ other hne).trans (hw.elsewhere.running other hne)
  rw [post_bind]
  refine (post_update _).mpr (Keeps.bind (Apart.modifySession _) (fun _ ↦ ?_) _ hown)
  refine .bind (hregister (fun streams ↦ if stream ∈ streams then streams else streams ++ [stream])
    fun streams other hne ↦ ?_) fun _ ↦ .bind ?_ fun _ ↦ fun w hw ↦ ⟨{ hw.elsewhere with }, hw.own⟩
  · split_ifs
    · rfl
    · simp [hne]
  · intro w hw
    rw [post_tryCatch]
    refine Post.mono (P := fun _ t ↦ Apart r stream w₀ t) ?_ fun result t ht ↦ ?_
    · exact Keeps.bind (inside_read _).apart (fun session ↦ (inside_request _ _ _ _).apart) w hw
    · cases result with
      | ok => exact ht
      | error e =>
        refine Keeps.bind (hregister (·.filter (· ≠ stream)) fun streams other hne ↦ ?_)
          (fun _ ↦ ?_) t ht
        · simp [hne]
        · refine .bind (Apart.modifySession _) fun _ ↦ ?_
          exact .bind (inside_operationDelete _).apart fun _ ↦ .throw _

theorem submit (input : Input) (a : GenerateAnswers) :
    Keeps (Elsewhere r stream w₀) (submit rt stream r input a) :=
  .bind (inside_prepare rt r input a).elsewhere fun messages ↦ launch messages a

theorem reply (h : Elsewhere r stream w₀ w) (request : Option ℕ) (result : Except Failure Value) :
    Elsewhere r stream w₀ ⟨w.state, w.sent ++ [(.reply request result, w.state)]⟩ := by
  refine { h with events := fun other hne ↦ Eq.trans ?_ (h.events other hne) }
  rw [eventsOf_append]
  exact List.append_nil _

theorem answer (h : Elsewhere r stream w₀ w) (request : Option ℕ) (value : Option Value) :
    Elsewhere r stream w₀ (answer w request value) := by
  cases value with
  | none => exact h
  | some value =>
    cases request with
    | none => exact h
    | some request => exact h.reply _ _

theorem answerFailure (h : Elsewhere r stream w₀ w) (request : Option ℕ) {command : Command}
    (hother : ∀ stream r input a, command ≠ .generate stream r input a) (e : Thrown) :
    Elsewhere r stream w₀ (answerFailure rt w request command e) := by
  cases command with
  | generate stream r input a => exact absurd rfl (hother stream r input a)
  | _ => exact h.reply _ _

theorem command (hd : w.state.deaf = false) (request : Option ℕ) {command : Command}
    (hother : ∀ stream r input a, command ≠ .generate stream r input a)
    (h : Post (serve rt command) w fun _ t ↦ Elsewhere r stream w₀ t) :
    Elsewhere r stream w₀ (advance rt w (.command request command)) := by
  rw [step_command_eq hother]
  have hpost : Post (listen rt request command) w fun _ t ↦ Elsewhere r stream w₀ t := by
    refine post_listen hd request command (h.mono fun result t ht ↦ ?_)
    cases result with
    | ok value => exact ht.answer request value
    | error e => exact ht.answerFailure request hother e
  exact hpost

theorem generate (hd : w.state.deaf = false) (request : Option ℕ) (input : Input)
    (a : GenerateAnswers) :
    Elsewhere r stream w (advance rt w (.command request (.generate stream r input a))) := by
  have hpost : Post ((Step.command request (.generate stream r input a)).turn rt) w
      fun _ t ↦ Elsewhere r stream w t := by
    rw [Step.turn, post_read_bind, if_pos (by simpa [State.deaf] using hd), post_tryCatch]
    refine (submit input a w (.refl w)).mono fun result t ht ↦ ?_
    cases result with
    | ok => exact ht
    | error e => exact ht.event _
  exact hpost

theorem dispose (h : Elsewhere r stream w₀ w)
    (hop : ∀ other ∈ (w.state.session r).streamId, other ∈ w.state.operations →
      other = stream ∧ (w.state.op stream).session = r) :
    Post (do
      let session ← read fun s ↦ s.session r
      let op ← findOperation session.streamId
      onSome op fun stream ↦ cancel stream false
      deleteHandle r
      onSome op fun stream ↦ finish rt stream 3 "" false noAnswers
      modifySession r fun s ↦ { s with phase := .closed }
      update fun s ↦ { s with sessions := s.sessions.filter (· ≠ r) }) w
      fun _ t ↦ Elsewhere r stream w₀ t := by
  have hclose : Keeps (Elsewhere r stream w₀) (do
      modifySession r fun s ↦ { s with phase := .closed }
      update fun s ↦ { s with sessions := s.sessions.filter (· ≠ r) }) := by
    refine .bind (fun w hw ↦ hw.setSession (.inl rfl) _) fun _ w hw ↦ ?_
    refine { hw with known := fun other hne ↦ Iff.trans ?_ (hw.known other hne) }
    show other ∈ w.state.sessions.filter (· ≠ r) ↔ _
    simp [hne]
  rw [post_read_bind, findOperation, post_read_bind]
  cases hfound : (w.state.session r).streamId.filter (· ∈ w.state.operations) with
  | none =>
    refine Keeps.bind (.pure _) (fun _ ↦ ?_) _ h
    exact .bind (inside_deleteHandle r).elsewhere fun _ ↦ .bind (.pure _) fun _ ↦ hclose
  | some other =>
    obtain ⟨hother, hmem⟩ := Option.filter_eq_some_iff.mp hfound
    obtain ⟨rfl, hown⟩ := hop other hother (by simpa using hmem)
    have hdrop : Keeps (Apart r other w₀) (do
        cancel other false
        deleteHandle r
        finish rt other 3 "" false noAnswers) :=
      .bind (Apart.cancel _) fun _ ↦ .bind (inside_deleteHandle r).apart fun _ ↦
        Apart.finish _ _ _ _
    have hall : Post ((do
        cancel other false
        deleteHandle r
        finish rt other 3 "" false noAnswers) >>= fun _ ↦ do
          modifySession r fun s ↦ { s with phase := .closed }
          update fun s ↦ { s with sessions := s.sessions.filter (· ≠ r) }) w
        fun _ t ↦ Elsewhere r other w₀ t := by
      rw [post_bind]
      refine (hdrop w ⟨h, hown⟩).mono fun result t ht ↦ ?_
      cases result with
      | error e => exact ht.elsewhere
      | ok => exact hclose t ht.elsewhere
    simpa only [bind_assoc, onSome] using hall

theorem disposeSession (h : Elsewhere r stream w₀ w)
    (hop : ∀ other ∈ (w.state.session r).streamId, other ∈ w.state.operations →
      other = stream ∧ (w.state.op stream).session = r) :
    Post (disposeSession rt r) w fun _ t ↦ Elsewhere r stream w₀ t := by
  rw [Worker.disposeSession, post_read_bind]
  split_ifs
  · rw [post_bind]
    refine (post_update _).mpr (dispose (h.setSession (.inl rfl) _) fun other hother hmem ↦ ?_)
    refine hop other ?_ hmem
    simpa [NativeWorker.setSession] using hother
  · exact h

end Elsewhere

structure Unaffected (r : ℕ) (w t : NativeWorker) : Prop where
  known : r ∈ t.state.sessions
  session : t.state.session r = w.state.session r
  stream : ∀ stream ∈ w.state.operations, (w.state.op stream).session = r →
    stream ∈ t.state.operations ∧ t.state.op stream = w.state.op stream ∧
      eventsOf stream t.sent = eventsOf stream w.sent

theorem Elsewhere.unaffected (h : Elsewhere r stream w t) {r' : ℕ} (hne : r' ≠ r) (hpos : r' ≠ 0)
    (hknown : r' ∈ w.state.sessions)
    (hown : stream ∈ w.state.operations → (w.state.op stream).session = r) :
    Unaffected r' w t := by
  refine ⟨(h.known r' hne).mpr hknown, h.session r' hne hpos, fun other hother hsession ↦ ?_⟩
  have hother' : other ≠ stream := by
    intro heq
    subst heq
    exact hne (hsession.symm.trans (hown hother))
  exact ⟨(h.running other hother').mpr hother, h.op other hother', h.events other hother'⟩

inductive Addresses (w : NativeWorker) (r : ℕ) : Step → Prop
  | generate (request : Option ℕ) (stream : ℕ) (input : Input) (a : GenerateAnswers) :
    Addresses w r (.command request (.generate stream r input a))
  | budget (request : Option ℕ) (input : Input) (reserve : ℤ) (a : BudgetAnswers) :
    Addresses w r (.command request (.budget r input reserve a))
  | metrics (request : Option ℕ) : Addresses w r (.command request (.metrics r))
  | cancelSession (request : Option ℕ) : Addresses w r (.command request (.cancelSession r))
  | disposeSession (request : Option ℕ) : Addresses w r (.command request (.disposeSession r))
  | cancelStream (request : Option ℕ) {stream : ℕ} (h : stream ∈ w.state.operations)
    (hown : (w.state.op stream).session = r) :
    Addresses w r (.command request (.cancelStream stream))
  | credit (request : Option ℕ) {stream : ℕ} (h : stream ∈ w.state.operations)
    (hown : (w.state.op stream).session = r) : Addresses w r (.command request (.credit stream))
  | serve {stream : ℕ} (a : PumpAnswers) (h : stream ∈ w.state.operations)
    (hown : (w.state.op stream).session = r) : Addresses w r (.serve stream a)

variable {asked : List ℕ}

theorem Sound.named (h : Sound asked w) (hr : r ∈ w.state.sessions)
    (hstream : (w.state.session r).streamId = some stream) :
    stream ∈ w.state.operations ∧ (w.state.op stream).session = r := by
  have hentry := State.tables_session w.state (h.tabled.sessionBound r hr).1
  refine h.tabled.named r hr stream ?_
  rw [hentry]
  exact hstream

theorem exists_fresh (streams : List ℕ) : ∃ stream, stream ∉ streams := by
  obtain ⟨stream, h⟩ := Infinite.exists_notMem_finset streams.toFinset
  exact ⟨stream, fun hmem ↦ h (List.mem_toFinset.mpr hmem)⟩

theorem Elsewhere.cancelFound (h : Elsewhere r stream w₀ w) {streamId : Option ℕ}
    (hop : ∀ other ∈ streamId, other ∈ w.state.operations →
      other = stream ∧ (w.state.op stream).session = r) :
    Post (do
      let op ← findOperation streamId
      onSome op fun stream ↦ cancel stream false) w fun _ t ↦ Elsewhere r stream w₀ t := by
  rw [findOperation, post_read_bind]
  cases hfound : streamId.filter (· ∈ w.state.operations) with
  | none => exact h
  | some other =>
    obtain ⟨hother, hmem⟩ := Option.filter_eq_some_iff.mp hfound
    obtain ⟨rfl, hown⟩ := hop other hother (by simpa using hmem)
    exact (Apart.cancel false w ⟨h, hown⟩).mono fun _ _ ht ↦ ht.elsewhere

theorem Elsewhere.budget (h : Elsewhere r stream w₀ w) (input : Input) (reserve : ℤ)
    (a : BudgetAnswers) :
    Post (serve rt (.budget r input reserve a)) w fun _ t ↦ Elsewhere r stream w₀ t := by
  refine Keeps.bind (inside_findSession r).elsewhere (fun session ↦ ?_) w h
  refine keeps_guard _ fun _ ↦ .bind (inside_messages rt input).elsewhere fun messages ↦ ?_
  exact .bind (inside_budget rt r messages reserve a).elsewhere fun _ ↦ .pure _

theorem Elsewhere.metrics (h : Elsewhere r stream w₀ w) :
    Post (serve rt (.metrics r)) w fun _ t ↦ Elsewhere r stream w₀ t := by
  refine Keeps.bind (inside_findSession r).elsewhere (fun session ↦ ?_) w h
  exact keeps_guard _ fun _ ↦ .pure _

/-- A step about one session leaves the others alone. -/
theorem Sound.isolated (h : Sound asked w) {s : Step} (hnew : ∀ stream ∈ s.asks, stream ∉ asked)
    (hs : Addresses w r s) :
    ∃ stream, Elsewhere r stream w (advance rt w s) ∧
      (stream ∈ w.state.operations → (w.state.op stream).session = r) := by
  have hself (stream : ℕ) : Elsewhere r stream w w := .refl w
  -- the stream of the session, or one that nobody has
  obtain ⟨own, hown, hnamed⟩ : ∃ own, (own ∈ w.state.operations → (w.state.op own).session = r) ∧
      (r ∈ w.state.sessions → ∀ other ∈ (w.state.session r).streamId, other ∈ w.state.operations →
        other = own ∧ (w.state.op own).session = r) := by
    by_cases hr : r ∈ w.state.sessions
    · cases hstream : (w.state.session r).streamId with
      | none =>
        obtain ⟨fresh, hfresh⟩ := exists_fresh w.state.operations
        exact ⟨fresh, fun hmem ↦ absurd hmem hfresh, fun _ _ hother ↦ nomatch hother⟩
      | some stream =>
        obtain ⟨-, hsession⟩ := h.named hr hstream
        refine ⟨stream, fun _ ↦ hsession, fun _ other hother _ ↦ ⟨?_, hsession⟩⟩
        exact (Option.some.inj hother).symm
    · obtain ⟨fresh, hfresh⟩ := exists_fresh w.state.operations
      exact ⟨fresh, fun hmem ↦ absurd hmem hfresh, fun hr' ↦ absurd hr' hr⟩
  cases hd : w.state.deaf with
  | true =>
    cases hs with
    | serve a hmem hsession =>
      rw [(h.stopped hd).operations] at hmem
      cases hmem
    | _ => exact ⟨own, by rw [step_deaf hd]; exact .refl w, hown⟩
  | false =>
    cases hs with
    | generate request stream input a =>
      exact ⟨stream, .generate hd request input a,
        fun hmem ↦ absurd (h.asked stream hmem) (hnew stream rfl)⟩
    | budget request input reserve a =>
      refine ⟨own, .command hd request (fun _ _ _ _ ↦ Command.noConfusion) ?_, hown⟩
      exact (hself own).budget input reserve a
    | metrics request =>
      refine ⟨own, .command hd request (fun _ _ _ _ ↦ Command.noConfusion) ?_, hown⟩
      exact (hself own).metrics
    | cancelSession request =>
      refine ⟨own, .command hd request (fun _ _ _ _ ↦ Command.noConfusion) ?_, hown⟩
      rw [serve, post_read_bind]
      refine (post_assoc _).mpr ((post_bind ..).mpr (((hself own).cancelFound
        fun other hother hmem ↦ ?_).mono fun result t ht ↦ ?_))
      · split_ifs at hother with hr
        · exact hnamed hr other hother hmem
        · cases hother
      · cases result <;> exact ht
    | disposeSession request =>
      refine ⟨own, .command hd request (fun _ _ _ _ ↦ Command.noConfusion) ?_, hown⟩
      by_cases hr : r ∈ w.state.sessions
      · refine (post_bind ..).mpr (((hself own).disposeSession (hnamed hr)).mono
          fun result t ht ↦ ?_)
        cases result <;> exact ht
      · have hpost : Post (disposeSession rt r) w fun result t ↦ t = w := by
          rw [disposeSession, post_read_bind, if_neg (by simpa using hr)]
          exact rfl
        refine (post_bind ..).mpr (hpost.mono fun result t ht ↦ ?_)
        subst ht
        cases result <;> exact .refl t
    | @cancelStream request stream hmem hsession =>
      refine ⟨stream, .command hd request (fun _ _ _ _ ↦ Command.noConfusion) ?_, fun _ ↦ hsession⟩
      refine (post_assoc _).mpr ((post_bind ..).mpr (((hself stream).cancelFound
        fun other hother _ ↦ ?_).mono fun result t ht ↦ ?_))
      · exact ⟨(Option.some.inj hother).symm, hsession⟩
      · cases result <;> exact ht
    | @credit request stream hmem hsession =>
      refine ⟨stream, .command hd request (fun _ _ _ _ ↦ Command.noConfusion) ?_, fun _ ↦ hsession⟩
      refine (Keeps.bind (I := Apart r stream w) (inside_read _).apart (fun known ↦ ?_) w
        ⟨hself stream, hsession⟩).mono fun _ _ ht ↦ ht.elsewhere
      exact .bind (.when fun _ ↦ Apart.modifyOp fun _ ↦ rfl) fun _ ↦ .pure _
    | @serve stream a hmem hsession =>
      refine ⟨stream, ?_, fun _ ↦ hsession⟩
      have hpost : Post ((Step.serve stream a).turn rt) w fun _ t ↦ Elsewhere r stream w t :=
        (post_serve hmem a).mpr ((Apart.pumpOne a w ⟨hself stream, hsession⟩).mono
          fun _ _ ht ↦ ht.elsewhere)
      exact hpost

theorem Sound.unaffected (h : Sound asked w) {s : Step} (hnew : ∀ stream ∈ s.asks, stream ∉ asked)
    (hs : Addresses w r s) {r' : ℕ} (hne : r' ≠ r) (hr' : r' ∈ w.state.sessions) :
    Unaffected r' w (advance rt w s) := by
  obtain ⟨stream, helsewhere, hown⟩ := h.isolated hnew hs
  exact helsewhere.unaffected hne (h.tabled.sessionBound r' hr').1 hr' hown

theorem Sound.phase (h : Sound asked w) (hr : r ∈ w.state.sessions) :
    (w.state.session r).phase ≠ .closing ∧ (w.state.session r).phase ≠ .closed := by
  have hphase := h.tabled.phase r hr not_false
  rw [State.tables_session w.state (h.tabled.sessionBound r hr).1] at hphase
  have hphase : (w.state.session r).phase = w.state.tables.due r := hphase
  rw [hphase, Tables.due]
  split
  · exact ⟨HandlePhase.noConfusion, HandlePhase.noConfusion⟩
  · split_ifs <;> exact ⟨HandlePhase.noConfusion, HandlePhase.noConfusion⟩

/-- A second request on a session that is generating gets its error and nothing else happens. -/
theorem Sound.advance_busy (h : Sound asked w) (hd : w.state.deaf = false)
    (hr : r ∈ w.state.sessions)
    (hbusy : (w.state.session r).streamId ≠ none) (request : Option ℕ) (stream : ℕ) (input : Input)
    (a : GenerateAnswers) :
    advance rt w (.command request (.generate stream r input a)) = ⟨w.state, w.sent ++
      [(.event stream (.error (.busy "Only one generation may run per session")), w.state)]⟩ := by
  have hsubmit : Post (submit rt stream r input a) w fun result t ↦
      result = .error (.failure (.busy "Only one generation may run per session")) ∧ t = w := by
    rw [submit, post_bind, prepare, post_bind]
    have hfind : Post (findSession r) w fun result t ↦
        result = .ok (w.state.session r) ∧ t = w := by
      have hphase := h.phase hr
      simp [findSession, hr, hphase]
    refine hfind.mono fun result t hpost ↦ ?_
    obtain ⟨hresult, ht⟩ := hpost
    subst hresult
    subst ht
    dsimp only
    rw [if_pos (Option.isSome_iff_ne_none.mpr hbusy)]
    exact ⟨rfl, rfl⟩
  have hfatal : w.state.fatalExit = false := by
    simp only [State.deaf, Bool.or_eq_false_iff] at hd
    exact hd.1
  have hadvance := @post_advance_submit rt w hd request stream r input a
  obtain ⟨hresult, ht⟩ := hsubmit
  simp only [Post] at hadvance
  rw [hresult, ht] at hadvance
  simpa [emit, hfatal, Thrown.toFailure] using hadvance

/-- Commands about a stream without operation do nothing. -/
theorem advance_gone (hgone : stream ∉ w.state.operations) (request : Option ℕ)
    {command : Command} (hc : command = .cancelStream stream ∨ command = .credit stream) :
    advance rt w (.command request command) = w := by
  cases hd : w.state.deaf with
  | true => exact step_deaf hd request command
  | false =>
    have hother (stream r : ℕ) (input : Input) (a : GenerateAnswers) :
        command ≠ .generate stream r input a := by
      rintro rfl
      obtain h | h := hc <;> cases h
    have hserve : Post (serve rt command) w fun result t ↦ result = .ok none ∧ t = w := by
      obtain rfl | rfl := hc
      · have hfilter : (some stream).filter (· ∈ w.state.operations) = none := by simp [hgone]
        rw [serve, findOperation, post_read_bind, hfilter]
        exact ⟨rfl, rfl⟩
      · rw [serve, post_read_bind, when, if_neg (by simpa using hgone)]
        exact ⟨rfl, rfl⟩
    rw [step_command_eq hother]
    have hpost : Post (listen rt request command) w fun _ t ↦ t = w := by
      refine post_listen hd request command (hserve.mono fun result t hboth ↦ ?_)
      obtain ⟨hresult, ht⟩ := hboth
      subst hresult
      exact ht
    exact hpost

/-- Between any two steps, those of a pass of `_pump` included: a step about one session leaves the
other sessions alone, the pass serves every operation whatever the others throw, and a request
that comes while its session is generating gets an error, changes nothing, and neither do later
commands about its stream. -/
theorem session_isolation (rt : Runtime) (steps : List Step) (s : Step)
    (hdistinct : ((steps ++ [s]).filterMap Step.asks).Nodup) :
    let w := trace rt steps
    (∀ r, Addresses w r s → ∀ r' ∈ w.state.sessions, r' ≠ r → Unaffected r' w (advance rt w s)) ∧
    (∀ a, Post (pump rt a) w fun result t ↦
      result = .ok () ∧ t = (serves w.state.operations a).foldl (advance rt) w) ∧
    (∀ request stream r input a, s = .command request (.generate stream r input a) →
      w.state.deaf = false → r ∈ w.state.sessions → (w.state.session r).streamId ≠ none →
      advance rt w s = ⟨w.state, w.sent ++
        [(.event stream (.error (.busy "Only one generation may run per session")), w.state)]⟩ ∧
      ∀ after, ((steps ++ [s] ++ after).filterMap Step.asks).Nodup → ∀ request command,
        command = .cancelStream stream ∨ command = .credit stream →
          let u := trace rt (steps ++ [s] ++ after)
          advance rt u (.command request command) = u) := by
  rw [List.filterMap_append, List.nodup_append] at hdistinct
  obtain ⟨hbefore, -, hnew⟩ := hdistinct
  have hw : Sound (steps.filterMap Step.asks) (trace rt steps) := trace_sound hbefore
  have hfresh : ∀ stream ∈ s.asks, stream ∉ steps.filterMap Step.asks := by
    intro stream hs hmem
    have hasks : s.asks = some stream := hs
    exact hnew stream hmem stream (by simp [hasks]) rfl
  refine ⟨fun r hs r' hr' hne ↦ hw.unaffected hfresh hs hne hr', fun a ↦ ?_, ?_⟩
  · exact pump_serves hw.consistent a
  · rintro request stream r input a rfl hd hr hbusy
    have hadvance :
      advance rt (trace rt steps) (.command request (.generate stream r input a)) = _ :=
      hw.advance_busy hd hr hbusy request stream input a
    refine ⟨hadvance, fun after hafter request' command hc ↦ advance_gone ?_ request' hc⟩
    refine trace_gone hafter ?_ fun hmem ↦ ?_
    · rw [trace_concat, hadvance]
      exact fun hmem ↦ hfresh stream rfl (hw.asked stream hmem)
    · rw [List.filterMap_append, List.nodup_append] at hafter
      refine hafter.2.2 stream ?_ stream hmem rfl
      exact List.mem_filterMap.mpr ⟨_, List.mem_append_right _ List.mem_cons_self, rfl⟩

namespace Scenario

def asks (stream r : ℕ) : Step :=
  .command none (.generate stream r (.contents [.text "question"]) starts)

def twoRunning : List Step :=
  [.command (some 1) (.loadEngine { modelPath := "model.litertlm" } loads),
    .command (some 2) (.createSession 1 {} [] true opens),
    .command (some 3) (.createSession 1 {} [] true opens), asks 4 1, asks 5 2]

def malformed : PumpAnswers :=
  { noAnswers with
    beforeTake := [⟨1, some ⟨some ⟨[120], by decide⟩, none, false⟩, []⟩] }

end Scenario

theorem session_isolation_malformed :
    let w := trace Scenario.runtime Scenario.twoRunning
    let t := advance Scenario.runtime w (.serve 4 Scenario.malformed)
    4 ∉ t.state.operations ∧ 5 ∈ t.state.operations ∧ Unaffected 2 w t := by
  refine ⟨by decide +kernel, by decide +kernel, ?_⟩
  refine (session_isolation Scenario.runtime Scenario.twoRunning (.serve 4 Scenario.malformed)
    (by decide)).1 1 (.serve _ ?_ ?_) 2 ?_ (by decide)
  · decide +kernel
  · decide +kernel
  · decide +kernel

end LibLitertLm.Worker
