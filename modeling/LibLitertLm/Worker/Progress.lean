import LibLitertLm.Worker.Credit
import LibLitertLm.Worker.Reporting

namespace LibLitertLm.Worker

open Code

variable {rt : Runtime} {stream other : ℕ} {w t u : NativeWorker} {asked : List ℕ}

def Lit (stream : ℕ) (w : NativeWorker) : Prop :=
  stream ∈ w.state.operations → (w.state.op stream).credit = true

section Lit

/-- The operation of a stream has credit, whether it is running or not. -/
def Credited (stream : ℕ) (w : NativeWorker) : Prop := (w.state.op stream).credit = true

theorem insulated_lit {C : ℕ → NativeSession → NativeSession → Prop} : Insulated C (Lit stream) :=
  ⟨fun _ _ _ _ h ↦ h, fun _ _ _ _ h ↦ h⟩

theorem insulated_credited {C : ℕ → NativeSession → NativeSession → Prop} :
    Insulated C (Credited stream) :=
  ⟨fun _ _ _ _ h ↦ h, fun _ _ _ _ h ↦ h⟩

theorem lit_submit (r : ℕ) (input : Input) (a : GenerateAnswers) :
    Keeps (Lit stream) (submit rt stream r input a) := by
  have hread {β : Type} {I : NativeWorker → Prop} (f : State → β) : Keeps I (read f) := .map .get _
  have hupdate {f : State → State} (hf : ∀ s, (f s).op = s.op) :
    Keeps (Credited stream) (update f) := by
    intro w h
    show ((f w.state).op stream).credit = true
    rw [hf]
    exact h
  refine .bind ((inside_prepare rt r input a) _ insulated_lit) fun messages ↦ ?_
  refine .bind (hread _) fun native ↦ .bind (fun _ h ↦ h) fun _ ↦ keeps_guard _ fun _ ↦ ?_
  intro w hw
  have hrest : Keeps (Credited stream) (do
      modifySession r fun s ↦ { s with phase := .generating, streamId := some stream }
      update fun s ↦
        { s with operations :=
          if stream ∈ s.operations then s.operations else s.operations ++ [stream] }
      tryCatch (do
          let session ← read fun s ↦ s.session r
          request session native (messages.getLast?.getD []) a)
        fun e ↦ do
          update fun s ↦ { s with operations := s.operations.filter (· ≠ stream) }
          modifySession r fun s ↦ { s with streamId := none, phase := .ready }
          modifyNative (·.operationDelete native)
          throw e
      update fun s ↦ { s with timer := true }) := by
    refine .bind (hupdate fun _ ↦ rfl) fun _ ↦ .bind (hupdate fun _ ↦ rfl) fun _ ↦ ?_
    refine .bind (.tryCatch ?_ fun e ↦ ?_) fun _ ↦ hupdate fun _ ↦ rfl
    · refine .bind (hread _) fun session ↦ ?_
      exact (inside_request (C := Within 0) _ _ _ _) _ insulated_credited
    · refine .bind (hupdate fun _ ↦ rfl) fun _ ↦ .bind (hupdate fun _ ↦ rfl) fun _ ↦ ?_
      exact .bind (hupdate fun _ ↦ rfl) fun _ ↦ .throw _
  rw [modifyOp, post_bind, post_update]
  refine (hrest _ ?_).mono fun _ t ht _ ↦ ht
  show (Function.update w.state.op stream _ stream).credit = true
  rw [Function.update_self]

theorem lit_asked {s : Step} (hw : Lit stream w) (hasks : stream ∈ s.asks) :
    Lit stream (advance rt w s) := by
  have hpost : Post (s.turn rt) w fun _ t ↦ Lit stream t := by
    cases s with
    | command request command =>
      cases command with
      | generate other r input a =>
        obtain rfl : other = stream := Option.some.inj hasks
        have hkeeps : Keeps (Lit other)
            ((Step.command request (.generate other r input a)).turn rt) := by
          refine .bind (.map .get _) fun deaf ↦ .ite (fun _ ↦ ?_) fun _ ↦ .pure _
          refine .tryCatch (lit_submit r input a) fun e w h ↦ ?_
          exact (post_event ..).mpr h
        exact hkeeps w hw
      | _ => cases hasks
    | _ => cases hasks
  exact hpost

theorem lit_credit (hd : w.state.deaf = false) (request : Option ℕ) :
    Lit stream (advance rt w (.command request (.credit stream))) := by
  have hpost : Post (listen rt request (.credit stream)) w fun _ t ↦ Lit stream t := by
    refine post_listen hd request _ ?_
    rw [serve, post_bind, post_read]
    dsimp only
    rw [post_bind]
    by_cases hlive : stream ∈ w.state.operations
    · rw [when, if_pos (by simpa using hlive), modifyOp, post_update]
      refine fun _ ↦ ?_
      show (Function.update w.state.op stream _ stream).credit = true
      rw [Function.update_self]
    · rw [when, if_neg (by simpa using hlive)]
      exact fun hmem ↦ absurd hmem hlive
  exact hpost

end Lit

/-- As long as a stream is lit, or is credited along the way, it stays so
unless a token of it is sent. -/
def Wakes (stream c : ℕ) (w t : NativeWorker) : Prop :=
  ∃ n, Sends stream n w t ∧ (Lit stream w ∨ 0 < c → Lit stream t ∨ 0 < n)

namespace Wakes

variable {c c' : ℕ}

theorem refl (w : NativeWorker) : Wakes stream 0 w w :=
  ⟨0, .of_eq rfl, fun h ↦ .inl (h.resolve_right (lt_irrefl 0))⟩

theorem trans (h : Wakes stream c w t) (h' : Wakes stream c' t u) : Wakes stream (c + c') w u := by
  obtain ⟨n, hsends, hn⟩ := h
  obtain ⟨m, hsends', hm⟩ := h'
  refine ⟨n + m, hsends.trans hsends', fun hlit ↦ ?_⟩
  have hbetween : Lit stream t ∨ 0 < n ∨ 0 < c' := by
    rcases hlit with hlit | hpos
    · exact (hn (.inl hlit)).imp_right .inl
    · rcases Nat.add_pos_iff_pos_or_pos.mp hpos with hpos | hpos
      · exact (hn (.inr hpos)).imp_right .inl
      · exact .inr (.inr hpos)
  rcases hbetween with hlit | hpos | hpos
  · exact (hm (.inl hlit)).imp_right fun hpos ↦ by omega
  · exact .inr (by omega)
  · exact (hm (.inr hpos)).imp_right fun hpos ↦ by omega

/-- Its credit is as before. -/
theorem of_unspent (h : Unspent stream w t)
    (hlive : stream ∈ t.state.operations → stream ∈ w.state.operations) : Wakes stream 0 w t := by
  refine ⟨0, h.sends, fun hlit ↦ .inl fun hmem ↦ ?_⟩
  rw [h.credit]
  exact hlit.resolve_right (lt_irrefl 0) (hlive hmem)

theorem step (hw : Sound asked w) (s : Step) (hnew : ∀ other ∈ s.asks, other ∉ asked) :
    Wakes stream (creditsOf stream s.said.toList) w (advance rt w s) := by
  have ht : Sound (asked ++ s.asks.toList) (advance rt w s) := hw.step s hnew
  have hunspent (hasks : stream ∉ s.asks) (h : Unspent stream w (advance rt w s)) :
      Wakes stream 0 w (advance rt w s) :=
    .of_unspent h fun hmem ↦ (hw.consistent.operations_advance s stream hmem).resolve_right hasks
  by_cases hserve : ∃ a, s = .serve stream a
  · obtain ⟨a, rfl⟩ := hserve
    have hpasses : Passes rt stream w (advance rt w (.serve stream a)) := hw.consistent.passes a
    rcases hpasses with hkept | ⟨hspent, -⟩
    · exact hunspent (by simp [Step.asks]) hkept
    · exact ⟨1, hspent.told (ht.failing_fatalExit hspent.live), fun _ ↦ .inr one_pos⟩
  · have hserve : ∀ a, s ≠ .serve stream a := fun a heq ↦ hserve ⟨a, heq⟩
    cases s with
    | command request command =>
      have hsends : Sends stream 0 w (advance rt w (.command request command)) :=
        silent_command request command
      by_cases hasks : stream ∈ (Step.command request command).asks
      · have hnone : stream ∉ w.state.operations :=
          fun hmem ↦ hnew stream hasks (hw.asked stream hmem)
        exact ⟨0, hsends, fun _ ↦ .inl (lit_asked (fun hmem ↦ absurd hmem hnone) hasks)⟩
      · by_cases hcredit : command = .credit stream
        · subst hcredit
          refine ⟨0, hsends, fun _ ↦ .inl ?_⟩
          cases hd : w.state.deaf with
          | false => exact lit_credit hd request
          | true =>
            rw [step_deaf hd]
            intro hmem
            have hempty := hw.stopped hd
            rw [hempty.operations] at hmem
            cases hmem
        · have hnone : creditsOf stream (Step.command request command).said.toList = 0 := by
            cases command with
            | credit other =>
              have hne : other ≠ stream := fun h ↦ hcredit (congrArg Command.credit h)
              simp [creditsOf, Step.said, Command.isCreditOf, hne]
            | _ => rfl
          rw [hnone]
          exact hunspent hasks
            (.advance hserve hasks (fun request' heq ↦ hcredit (Step.command.inj heq).2) w)
    | _ =>
      refine hunspent (by simp [Step.asks]) ?_
      exact .advance hserve (by simp [Step.asks]) (fun _ ↦ Step.noConfusion) w

theorem steps (hw : Sound asked w) {steps : List Step}
    (hnew : (asked ++ steps.filterMap Step.asks).Nodup) :
    Wakes stream (creditsOf stream (steps.filterMap Step.said)) w (steps.foldl (advance rt) w) := by
  induction steps generalizing w asked with
  | nil => exact .refl w
  | cons s steps ih =>
    have hsaid : (s :: steps).filterMap Step.said = s.said.toList ++ steps.filterMap Step.said := by
      cases h : s.said <;> simp [h]
    obtain ⟨hfirst, hrest⟩ := Step.asks_first hnew
    rw [hsaid, creditsOf_append]
    exact (step hw s hfirst).trans (ih (hw.step s hfirst) hrest)

theorem turn (hw : Sound asked w) (a : Action) (hnew : (asked ++ a.asks.toList).Nodup) :
    Wakes stream (creditsOf stream a.said.toList) w (Worker.step rt w a) := by
  obtain ⟨steps, hsteps, hasks, hsaid⟩ := @step_steps rt _ hw.consistent a
  rw [← hasks] at hnew
  rw [← hsaid, ← hsteps]
  exact .steps hw hnew

end Wakes

section Taking

def Taken (stream : ℕ) (w t : NativeWorker) : Prop :=
  ∃ more, t.state.native.calls (w.state.op stream).native =
    w.state.native.calls (w.state.op stream).native ++ more ∧ .take ∈ more

theorem Native.bridge_prefix (n : Native) (id id' : ℕ) (c : Bridge.Call) :
    n.calls id' <+: (n.bridge id c).calls id' := by
  unfold Native.bridge
  split_ifs
  · by_cases hsame : id' = id
    · subst hsame
      simp
    · simp [Function.update_of_ne hsame]
  · exact List.prefix_refl _

theorem Native.callback_prefix (n : Native) (c : Callback) (id : ℕ) :
    n.calls id <+: (n.callback c).calls id := by
  have hbridge := n.bridge_prefix c.id id (.callback c.chunk)
  obtain ⟨id', chunk, reply⟩ := c
  cases chunk with
  | none => exact hbridge
  | some chunk => exact hbridge

theorem keeps_calls_callbacks {calls : List Bridge.Call} {id : ℕ} (cs : List Callback) :
    Keeps (fun t : NativeWorker ↦ calls <+: t.state.native.calls id) (callbacks cs) := by
  intro w h
  have hall : ∀ n : Native, n.calls id <+: (cs.foldl Native.callback n).calls id := by
    induction cs with
    | nil => exact fun n ↦ List.prefix_refl _
    | cons c cs ih => exact fun n ↦ (n.callback_prefix c id).trans (ih _)
  exact h.trans (hall w.state.native)

def Ends (stream : ℕ) (m : M Unit) : Prop :=
  ∀ w, Post m w fun result t ↦ result = .ok () → stream ∉ t.state.operations

theorem Ends.bind {m : M α} {f : α → M Unit} (hf : ∀ a, Ends stream (f a)) :
    Ends stream (m >>= f) := by
  intro w
  rw [post_bind]
  refine Post.mono (P := fun _ _ ↦ True) trivial fun result t _ ↦ ?_
  cases result with
  | error e => exact fun h ↦ by cases h
  | ok a => exact hf a t

theorem ends_settle (e : Event) : Ends stream (settle stream e) := by
  intro w
  refine (post_settle ..).mpr fun _ ↦ ?_
  simp [emit, State.retire]

theorem ends_finish (kind : ℕ) (detail : String) (failureAfterStop : Bool) (a : PumpAnswers) :
    Ends stream (finish rt stream kind detail failureAfterStop a) := by
  intro w
  rw [finish, post_read_bind]
  split_ifs with hknown
  · refine Ends.bind (fun op ↦ .bind fun session ↦ ?_) w
    dsimp only
    split_ifs
    · exact .bind fun _ ↦ ends_settle _
    · exact .bind fun _ ↦ .bind fun _ ↦ .bind fun _ ↦ ends_settle _
  · have hgone : stream ∉ w.state.operations := by simpa using hknown
    exact fun _ ↦ hgone

theorem post_deliver_takes (kind : ℕ) (text : String) (a : PumpAnswers) :
    Post (deliver rt stream kind text a) w fun result t ↦ result = .ok () →
      stream ∈ t.state.operations → t.state.native.calls = w.state.native.calls := by
  rw [deliver]
  by_cases hkind : kind = 0
  · rw [if_pos hkind, post_read_bind]
    split_ifs with hcancelled
    · rw [post_read_bind]
      have hsend (text : String) : Post (if !text.isEmpty then do
          modifyOp stream fun o ↦ { o with text := o.text ++ text }
          modifyOp stream fun o ↦ { o with credit := false }
          event stream (.token text) else pure ()) w fun _ t ↦
          t.state.native.calls = w.state.native.calls := by
        split_ifs
        · simp only [modifyOp, post_bind, post_update, post_event]
          rfl
        · exact rfl
      cases (w.state.session (w.state.op stream).session).conversation with
      | false => exact (hsend text).mono fun _ _ h _ _ ↦ h
      | true =>
        refine (post_bind ..).mpr ((post_lift _).mpr ?_)
        cases chatText rt text with
        | error e => exact fun h ↦ by cases h
        | ok text => exact (hsend text).mono fun _ _ h _ _ ↦ h
    · exact fun _ _ ↦ rfl
  · rw [if_neg hkind]
    exact (ends_finish kind text false a w).mono fun _ _ h hok hmem ↦ absurd hmem (h hok)

theorem Consistent.head_label {s : State} (hs : Consistent s) (hlive : stream ∈ s.operations)
    {e : Bridge.Event} (he : s.head stream = some e) : e.id = (s.op stream).native := by
  have hknown := hs.opNative stream hlive
  have hqueue : e ∈ (s.native.operation (s.op stream).native).queue := by
    rw [State.head, Bridge.operationTake] at he
    split at he
    · cases he
    · next hq =>
      obtain rfl := Option.some.inj he
      rw [hq]
      exact List.mem_cons_self
  rw [hs.machine _ hknown] at hqueue
  exact Bridge.labelled _ _ e hqueue

theorem post_pumpEvent_takes (hw : Consistent w.state) (hlive : stream ∈ w.state.operations)
    (a : PumpAnswers) :
    Post (pumpEvent rt stream (w.state.op stream).native a) w fun result t ↦ result = .ok () →
      stream ∈ t.state.operations → t.state.native.calls (w.state.op stream).native =
        w.state.native.calls (w.state.op stream).native ++ [.take] := by
  have hknown := hw.opNative stream hlive
  have hcalls := Native.bridge_calls hknown .take
  rw [Worker.pumpEvent, post_bind]
  refine (post_take hknown).mpr ?_
  cases he : (Bridge.operationTake (w.state.native.operation (w.state.op stream).native)).2 with
  | none => exact fun _ _ ↦ hcalls
  | some e =>
    refine (post_bind ..).mpr
      ((post_readEvent hw (hw.head_label hlive he)).mono fun result t hread ↦ ?_)
    obtain ⟨rfl, rfl⟩ := hread
    cases utf8Decode (e.text.takeWhile (· ≠ 0)) with
    | none => exact fun h ↦ by cases h
    | some text =>
      refine (post_deliver_takes e.kind text a).mono fun result t ht hok hmem ↦ ?_
      rw [ht hok hmem]
      exact hcalls

/-- With credit the next event is taken, unless the operation goes; and so it is
without, once the native side has come to its end. -/
theorem post_pumpBody_takes (hw : Consistent w.state) (hlive : stream ∈ w.state.operations)
    (hgate : (w.state.op stream).credit = true ∨ w.state.isFinal stream = true) (a : PumpAnswers) :
    Post (pumpBody rt stream a) w fun result t ↦ result = .ok () →
      stream ∈ t.state.operations → Taken stream w t := by
  set native := (w.state.op stream).native with hnative
  let I : NativeWorker → Prop := fun t ↦
    Live rt False w stream native w.state.operations t ∧ Unspent stream w t ∧
      w.state.native.calls native <+: t.state.native.calls native
  have hcallbacks (cs : List Callback) : Keeps I (callbacks cs) :=
    (Live.callbacks cs).and (((Unspent.frugal w).callbacks cs).and (keeps_calls_callbacks cs))
  have hcancel : Keeps I (cancel stream true) := by
    intro t ht
    refine (((Live.cancel hlive true).and ((Unspent.frugal w).cancel stream true)) t
      ⟨ht.1, ht.2.1⟩).and ?_ |>.mono fun _ u hu ↦ ⟨hu.1.1, hu.1.2, hu.2⟩
    have hthere : stream ∈ t.state.operations := ht.1.operations.symm ▸ hlive
    refine (post_cancel ht.1.reached.1 hthere true).mono fun _ u hu ↦ ?_
    obtain ⟨-, rfl⟩ := hu
    split_ifs
    · exact ht.2.2
    · exact ht.2.2
  have herror (e : Thrown) (t : NativeWorker) (_ : I t) :
      (.error e : Except Thrown Unit) = .ok () → stream ∈ t.state.operations →
        Taken stream w t := by
    intro h
    cases h
  have hevent {t : NativeWorker} (ht : I t) : Post (do
      callbacks a.beforeTake
      pumpEvent rt stream native a) t fun result u ↦ result = .ok () →
        stream ∈ u.state.operations → Taken stream w u := by
    refine (hcallbacks _).bind_post ht (fun _ u hu ↦ ?_) herror
    have hthere : stream ∈ u.state.operations := hu.1.operations.symm ▸ hlive
    have htakes : Post (pumpEvent rt stream (u.state.op stream).native a) u _ :=
      post_pumpEvent_takes hu.1.reached.1 hthere a
    rw [hu.1.native] at htakes
    refine htakes.mono fun _ v hv hok hmem ↦ ?_
    obtain ⟨more, hmore⟩ := hu.2.2
    refine ⟨more ++ [.take], ?_, by simp⟩
    rw [hv hok hmem, ← hmore, List.append_assoc]
  rw [pumpBody, post_read_bind]
  refine (hcallbacks _).bind_post ⟨⟨.refl hw, rfl, rfl⟩, .refl w, List.prefix_refl _⟩
    (fun _ t ht ↦ ?_) herror
  rw [ask, post_read_bind]
  refine Keeps.bind_post (.when fun _ ↦ hcancel) ht (fun _ t ht ↦ ?_) herror
  rw [post_read_bind, ht.1.native]
  have hkept : (t.state.op stream).credit = (w.state.op stream).credit := ht.2.1.credit
  by_cases hshut : (!(t.state.op stream).credit && !(t.state.op stream).cancelRequested) = true
  · obtain ⟨hempty, hopen⟩ : (t.state.op stream).credit = false ∧
        (t.state.op stream).cancelRequested = false := by
      simpa using hshut
    have hfinal : w.state.isFinal stream = true :=
      hgate.resolve_left fun hcredit ↦ by cases (hkept.trans hcredit).symm.trans hempty
    rw [if_pos hshut]
    have hstill : Keeps (fun u ↦ I u ∧ (u.state.op stream).cancelRequested = false)
        (callbacks a.beforeIsFinal) :=
      (hcallbacks _).and fun _ h ↦ h
    refine hstill.bind_post ⟨ht, hopen⟩ (fun _ u hu ↦ ?_) fun e u hu ↦ herror e u hu.1
    obtain ⟨hu, huncancelled⟩ := hu
    have hthere : stream ∈ u.state.operations := hu.1.operations.symm ▸ hlive
    have hfollows := Moves.follows hu.1.reached.2 hw hthere huncancelled
    obtain ⟨hfinal', -⟩ := hfollows.drains hw hu.1.reached.1 hthere hfinal
    have hknown := hu.1.reached.1.opNative stream hthere
    rw [State.isFinal, hu.1.native] at hfinal'
    rw [hu.1.native] at hknown
    rw [ask, post_read_bind]
    dsimp only
    rw [if_pos (by simp [hknown, hfinal'])]
    exact hevent hu
  · rw [if_neg hshut, post_bind, post_pure]
    dsimp only
    rw [if_pos rfl]
    exact hevent ht

/-- So it is in a pass of the pump, which ends an operation with a malformed event. -/
theorem serve_takes (hw : Consistent w.state) (hlive : stream ∈ w.state.operations)
    (hgate : (w.state.op stream).credit = true ∨ w.state.isFinal stream = true) (a : PumpAnswers)
    (hmem : stream ∈ (advance rt w (.serve stream a)).state.operations) :
    Taken stream w (advance rt w (.serve stream a)) := by
  have hpost : Post ((Step.serve stream a).turn rt) w fun _ t ↦
      stream ∈ t.state.operations → Taken stream w t := by
    have hreplace (e : Thrown) : Ends stream (do
        cancel stream false
        let op ← read fun s ↦ s.op stream
        deleteHandle op.session
        finish rt stream 2 ("Invalid native event: " ++ errorText rt e) true a) :=
      .bind fun _ ↦ .bind fun _ ↦ .bind fun _ ↦ ends_finish _ _ _ _
    have htakes : Post (pumpOne rt a stream) w fun result t ↦ result = .ok () →
        stream ∈ t.state.operations → Taken stream w t := by
      rw [pumpOne, post_tryCatch]
      refine (post_pumpBody_takes hw hlive hgate a).mono fun result t ht ↦ ?_
      cases result with
      | ok => exact ht
      | error e => exact (hreplace e t).mono fun _ _ h hok hmem ↦ absurd hmem (h hok)
    have hlives : Live rt False w stream (w.state.op stream).native w.state.operations w :=
      ⟨.refl hw, rfl, rfl⟩
    refine (post_serve hlive a).mpr ?_
    exact ((hlives.pumpOne hlive False.elim).and htakes).mono fun _ _ h ↦ h.2 h.1.1
  exact hpost hmem

/-- What happened before and after does not matter. -/
theorem Taken.within {v : NativeWorker} (h : Taken stream t u) (hbefore : Follows rt stream w t)
    (hpass : Follows rt stream t u) (hafter : Follows rt stream u v) : Taken stream w v := by
  obtain ⟨more, hmore, htake⟩ := h
  obtain ⟨before, hcalls, -⟩ := hbefore.calls
  obtain ⟨after, hcalls', -⟩ := hafter.calls
  rw [hpass.native, hbefore.native] at hcalls'
  rw [hbefore.native] at hmore
  refine ⟨before ++ more ++ after, ?_, by simp [htake]⟩
  rw [hcalls', hmore, hcalls]
  simp

section Passes

variable (answers : ℕ → PumpAnswers)

theorem passes_moves (hw : Consistent w.state) (streams : List ℕ) :
    Moves rt False w
      ((streams.map fun stream ↦ Step.serve stream (answers stream)).foldl (advance rt) w) := by
  induction streams generalizing w with
  | nil => exact .refl
  | cons stream streams ih =>
    have hfirst : Moves rt False w (advance rt w (.serve stream (answers stream))) :=
      step_moves hw fun _ _ ↦ Step.noConfusion
    exact hfirst.trans (ih (Moves.consistent rt hfirst hw))

theorem serves_moves (hw : Consistent w.state) (streams : List ℕ) :
    Moves rt False w ((serves streams answers).foldl (advance rt) w) := by
  rw [serves, List.foldl_append]
  have hpasses : Moves rt False w _ := passes_moves answers hw streams
  exact hpasses.trans (step_moves (Moves.consistent rt hpasses hw) fun _ _ ↦ Step.noConfusion)

/-- The passes over other streams leave the credit alone. -/
theorem passes_unspent {streams : List ℕ} (hother : stream ∉ streams) :
    Unspent stream w
      ((streams.map fun stream ↦ Step.serve stream (answers stream)).foldl (advance rt) w) := by
  induction streams generalizing w with
  | nil => exact .refl w
  | cons other streams ih =>
    obtain ⟨hne, hother⟩ := not_or.mp (hother ∘ List.mem_cons.mpr)
    have hfirst : Unspent stream w (advance rt w (.serve other (answers other))) := by
      refine .advance (fun a heq ↦ hne (Step.serve.inj heq).1.symm) (by simp [Step.asks]) ?_ w
      exact fun _ ↦ Step.noConfusion
    exact hfirst.trans (ih hother)

end Passes

/-- A tick takes the next event of every stream that runs on and has credit or
nothing more to come. -/
theorem tick_takes (hw : Consistent w.state) (htimer : w.state.timer = true)
    (hgate : (w.state.op stream).credit = true ∨ w.state.isFinal stream = true)
    (answers : ℕ → PumpAnswers)
    (hlive : stream ∈ (Worker.step rt w (.tick answers)).state.operations)
    (huncancelled : ((Worker.step rt w (.tick answers)).state.op stream).cancelRequested = false) :
    Taken stream w (Worker.step rt w (.tick answers)) := by
  rw [step_tick hw htimer] at hlive huncancelled ⊢
  have hthere := (Moves.follows (serves_moves answers hw _) hw hlive huncancelled).live
  -- the operations before and after it leave it alone
  obtain ⟨before, after, hsplit⟩ := List.append_of_mem hthere
  have hfresh : stream ∉ before := by
    have hnodup := hw.nodup
    rw [hsplit] at hnodup
    exact fun hmem ↦ (List.nodup_append.mp hnodup).2.2 _ hmem _ List.mem_cons_self rfl
  have hserves : serves w.state.operations answers =
      before.map (fun stream ↦ .serve stream (answers stream)) ++
        (.serve stream (answers stream) :: serves after answers) := by
    simp [serves, hsplit]
  rw [hserves, List.foldl_append, List.foldl_cons] at hlive huncancelled ⊢
  have hbefore : Moves rt False w _ := passes_moves answers hw before
  set v := (before.map fun stream ↦ Step.serve stream (answers stream)).foldl (advance rt) w
  have hunspent : Unspent stream w v := passes_unspent answers hfresh
  have hv : Consistent v.state := Moves.consistent rt hbefore hw
  have hpass : Moves rt False v (advance rt v (.serve stream (answers stream))) :=
    step_moves hv fun _ _ ↦ Step.noConfusion
  set u := advance rt v (.serve stream (answers stream))
  have hu : Consistent u.state := Moves.consistent rt hpass hv
  have hafter : Moves rt False u _ := serves_moves answers hu after
  have hlast := Moves.follows hafter hu hlive huncancelled
  have hmiddle := Moves.follows hpass hv hlast.live hlast.uncancelled
  have hfirst := Moves.follows hbefore hw hmiddle.live hmiddle.uncancelled
  have hgate' : (v.state.op stream).credit = true ∨ v.state.isFinal stream = true :=
    hgate.imp hunspent.credit.trans fun hfinal ↦ (hfirst.drains hw hv hmiddle.live hfinal).1
  have htaken : Taken stream v u := serve_takes hv hmiddle.live hgate' _ hlast.live
  exact htaken.within hfirst hmiddle hlast

end Taking

end LibLitertLm.Worker
