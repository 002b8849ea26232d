import LibLitertLm.Worker.Credit

namespace LibLitertLm.Worker

open Code

variable {rt : Runtime} {w₀ w t u : NativeWorker} {request : Option ℕ} {gives : Bool}
  {G : Value → State → Prop}

def Outgoing.answers : Outgoing → Option ℕ
  | .reply request _ => request
  | .event _ _ => none

def Mute (w t : NativeWorker) : Prop :=
  ∃ more, t.sent = w.sent ++ more ∧ ∀ m ∈ more, m.1.answers = none

/-- What is sent on the way answers the request, if there is one, with the last
message; a value in it is as `G` says, in the state that it is sent in. -/
def Answered (G : Value → State → Prop) (request : Option ℕ) (w t : NativeWorker) : Prop :=
  ∃ v, ∃ last : Option Outgoing, Mute w v ∧ t.sent = v.sent ++ last.toList.map (·, t.state) ∧
    last.bind Outgoing.answers = request ∧ ∀ id value, last = some (.reply id (.ok value)) →
      G value t.state

namespace Mute

theorem refl (w : NativeWorker) : Mute w w := ⟨[], by simp, by simp⟩

theorem messages (h : Mute w t) : ∃ more, t.messages = w.messages ++ more ∧ ∀ m ∈ more,
    m.answers = none := by
  obtain ⟨more, hmore, hmute⟩ := h
  refine ⟨more.map Prod.fst, ?_, fun m hm ↦ ?_⟩
  · rw [NativeWorker.messages, hmore, List.map_append, NativeWorker.messages]
  · obtain ⟨sent, hsent, rfl⟩ := List.mem_map.mp hm
    exact hmute sent hsent

theorem trans (h : Mute w t) (h' : Mute t u) : Mute w u := by
  obtain ⟨more, hmore, hmute⟩ := h
  obtain ⟨more', hmore', hmute'⟩ := h'
  refine ⟨more ++ more', by rw [hmore', hmore, List.append_assoc], fun m hm ↦ ?_⟩
  exact (List.mem_append.mp hm).elim (hmute m) (hmute' m)

theorem message (w : NativeWorker) (s s' : State) {m : Outgoing} (hm : m.answers = none) :
    Mute w ⟨s, w.sent ++ [(m, s')]⟩ :=
  ⟨[(m, s')], rfl, by simpa using hm⟩

theorem emit (w : NativeWorker) (stream : ℕ) (e : Event) :
    Mute w (emit w.state w.sent stream e) := by
  unfold Worker.emit
  split_ifs
  · exact .refl w
  · exact .message w _ _ rfl

theorem frugal (stream : ℕ) (w₀ : NativeWorker) : Frugal stream (Mute w₀) :=
  ⟨fun _ _ _ h ↦ h, fun w other e _ h ↦ h.trans (.emit w other e)⟩

theorem advance (s : Step) (hsaid : ∀ command ∈ s.said, ∃ other r input a,
    command = .generate other r input a) (w : NativeWorker) : Mute w (advance rt w s) := by
  -- which stream is not to send a token does not matter here
  obtain ⟨stream, hserve, hasks⟩ : ∃ stream, (∀ a, s ≠ .serve stream a) ∧ stream ∉ s.asks := by
    cases s with
    | serve other a => exact ⟨other + 1, by simp, by simp [Step.asks]⟩
    | command request command =>
      obtain ⟨other, r, input, a, rfl⟩ := hsaid command rfl
      exact ⟨other + 1, by simp, by simp [Step.asks]⟩
    | _ => exact ⟨0, by simp, by simp [Step.asks]⟩
  exact (frugal stream w).silently hserve hasks hsaid w (.refl w)

theorem steps {steps : List Step} (hsaid : ∀ command ∈ steps.filterMap Step.said,
    ∃ other r input a, command = .generate other r input a) (w : NativeWorker) :
    Mute w (steps.foldl (Worker.advance rt) w) := by
  induction steps generalizing w with
  | nil => exact .refl w
  | cons s steps ih =>
    have hfirst : Mute w (Worker.advance rt w s) := by
      refine .advance s (fun command hcommand ↦ hsaid command ?_) w
      exact List.mem_filterMap.mpr ⟨s, List.mem_cons_self, hcommand⟩
    refine hfirst.trans (ih (fun command hcommand ↦ hsaid command ?_) _)
    exact ((List.sublist_cons_self s steps).filterMap _).subset hcommand

theorem turn (hw : Consistent w.state) {a : Action} (hsaid : ∀ command ∈ a.said,
    ∃ other r input answers, command = .generate other r input answers) : Mute w (step rt w a) := by
  obtain ⟨list, hsteps, -, hsaid'⟩ := @step_steps rt _ hw a
  rw [← hsteps]
  refine .steps (fun command hcommand ↦ hsaid command ?_) w
  rw [hsaid'] at hcommand
  exact Option.mem_toList.mp hcommand

end Mute

/-- A command with a request is answered by the listener, whatever comes of it. -/
def Command.replies : Command → Bool
  | .generate .. | .credit _ | .cancelStream _ | .testCrash => false
  | _ => true

def Gives (gives : Bool) (m : M (Option Value)) : Prop :=
  ∀ w, Post m w fun result _ ↦ ∀ value, result = .ok value → value.isSome = gives

namespace Gives

theorem bind {m : M α} {f : α → M (Option Value)} (hf : ∀ a, Gives gives (f a)) :
    Gives gives (m >>= f) := by
  intro w
  refine (post_bind ..).mpr ?_
  rw [Post]
  cases (m w).1 with
  | error e => simp
  | ok a => exact hf a _

theorem pure {value : Option Value} (h : value.isSome = gives) : Gives gives (pure value) := by
  intro w
  refine (post_pure _).mpr fun value' hvalue ↦ ?_
  rwa [← Except.ok.inj hvalue]

theorem guard {p : Prop} [Decidable p] (e : Failure) {f : Unit → M (Option Value)}
    (hf : ∀ a, Gives gives (f a)) :
    Gives gives (if p then (fail e : M Unit) >>= f else f ()) := by
  split_ifs
  · exact .bind hf
  · exact hf ()

theorem serve (command : Command) : Gives command.replies (serve rt command) := by
  cases command with
  | budget r input reserve a =>
    exact .bind fun _ ↦ .guard _ fun _ ↦ .bind fun _ ↦ .bind fun _ ↦ .pure rfl
  | metrics r => exact .bind fun _ ↦ .guard _ fun _ ↦ .pure rfl
  | testCrash => exact .guard _ fun _ ↦ .bind fun _ ↦ .bind fun _ ↦ .pure rfl
  | createSession => exact .bind fun _ ↦ .pure rfl
  | cancelStream => exact .bind fun _ ↦ .bind fun _ ↦ .pure rfl
  | cancelSession => exact .bind fun _ ↦ .bind fun _ ↦ .bind fun _ ↦ .pure rfl
  | credit => exact .bind fun _ ↦ .bind fun _ ↦ .pure rfl
  | tokenize => exact .bind fun _ ↦ .bind fun _ ↦ .pure rfl
  | close => exact .bind fun _ ↦ .bind fun _ ↦ .pure rfl
  | _ => exact .bind fun _ ↦ .pure rfl

end Gives

theorem step_answered (hw : Consistent w.state) (hd : w.state.deaf = false) {command : Command}
    (hrequest : command.replies = false → request = none)
    (hG : Post (serve rt command) w fun result t ↦
      ∀ value, result = .ok (some value) → G value t.state) :
    Answered G request w (step rt w (.command request command)) := by
  have hmute (t : NativeWorker) (h : Mute w t) (hnone : request = none) : Answered G request w t :=
    ⟨t, none, h, by simp, by simp [hnone], by simp⟩
  by_cases hgenerate : ∃ stream r input a, command = .generate stream r input a
  · obtain ⟨stream, r, input, a, rfl⟩ := hgenerate
    refine hmute _ (.turn hw fun command hsaid ↦ ⟨stream, r, input, a, ?_⟩) (hrequest rfl)
    exact (Option.some.inj hsaid).symm
  · have hother (s r : ℕ) (input : Input) (a : GenerateAnswers) : command ≠ .generate s r input a :=
      fun h ↦ hgenerate ⟨s, r, input, a, h⟩
    obtain ⟨stream, hcredit⟩ : ∃ stream, command ≠ .credit stream := by
      cases command with
      | credit other => exact ⟨other + 1, by simp⟩
      | _ => exact ⟨0, by simp⟩
    have hserve := (((Mute.frugal stream w).serve hother hcredit w (.refl w)).and
      (@Gives.serve rt command w)).and hG
    have hpost : Post (listen rt request command) w fun _ t ↦ Answered G request w t := by
      refine post_listen hd request command (hserve.mono fun result t hboth ↦ ?_)
      obtain ⟨⟨ht, hgives⟩, hG⟩ := hboth
      cases result with
      | error e =>
        refine ⟨t, some (.reply request (.error (e.toFailure rt))), ht,
          ?_, by simp [Outgoing.answers],
          by simp⟩
        cases command with
        | generate s r input a => exact absurd rfl (hother s r input a)
        | _ => rfl
      | ok value =>
        have hsome := hgives value rfl
        cases value with
        | none => exact hmute _ ht (hrequest (by simpa using hsome.symm))
        | some value =>
          cases request with
          | none => exact hmute _ ht rfl
          | some id =>
            refine ⟨t, some (.reply (some id) (.ok value)), ht, rfl, by simp [Outgoing.answers],
              fun id' value' hlast ↦ ?_⟩
            obtain ⟨-, hvalue⟩ := Outgoing.reply.inj (Option.some.inj hlast)
            exact hG value' (congrArg (Except.ok ∘ some) (Except.ok.inj hvalue))
    exact hpost

theorem Mute.grows (h : Mute w t) : w.messages <+: t.messages := by
  obtain ⟨more, hmore, -⟩ := h.messages
  exact ⟨more, hmore.symm⟩

theorem Answered.messages (h : Answered G request w t) : ∃ before, ∃ last : Option Outgoing,
    t.messages = w.messages ++ (before ++ last.toList) ∧ (∀ m ∈ before, m.answers = none) ∧
      last.bind Outgoing.answers = request := by
  obtain ⟨v, last, hv, hlast, hanswers, -⟩ := h
  obtain ⟨before, hbefore, hmute⟩ := hv.messages
  have hfirst : (last.toList.map (·, t.state)).map Prod.fst = last.toList := by
    rw [List.map_map]
    exact List.map_id _
  refine ⟨before, last, ?_, hmute, hanswers⟩
  rw [← List.append_assoc, ← hbefore, NativeWorker.messages, hlast, List.map_append, hfirst,
    NativeWorker.messages]

theorem Answered.grows (h : Answered G request w t) : w.messages <+: t.messages := by
  obtain ⟨before, last, hmore, -⟩ := h.messages
  exact ⟨_, hmore.symm⟩

theorem step_grows (hw : Consistent w.state) {command : Command}
    (hrequest : command.replies = false → request = none) :
    w.messages <+: (step rt w (.command request command)).messages := by
  cases hd : w.state.deaf with
  | true => exact ⟨[], by rw [List.append_nil, listen_deaf hd]⟩
  | false =>
    have hanswered : Answered (fun _ _ ↦ True) request w (step rt w (.command request command)) :=
      step_answered hw hd hrequest fun _ _ ↦ trivial
    exact hanswered.grows

/-- Only `close` sets `commandsClosed`, and nothing resets it. -/
theorem Turn.commandsClosed {harmless : Prop} {a : Action} (h : Turn rt harmless w a t) :
    (w.state.commandsClosed = true → t.state.commandsClosed = true) ∧
      (t.state.commandsClosed = true → w.state.commandsClosed = true ∨
        ∃ request, a = .command request .close) ∧
      ∀ request, a = .command request .close → w.state.deaf = false →
        t.state.commandsClosed = true := by
  have hsame (hclosed : t.state.commandsClosed = w.state.commandsClosed)
      (ha : ∀ request, a = .command request .close → w.state.deaf = true) :
      (w.state.commandsClosed = true → t.state.commandsClosed = true) ∧
        (t.state.commandsClosed = true → w.state.commandsClosed = true ∨
          ∃ request, a = .command request .close) ∧
        ∀ request, a = .command request .close → w.state.deaf = false →
          t.state.commandsClosed = true := by
    refine ⟨hclosed.trans, fun h ↦ .inl (hclosed.symm.trans h), fun request heq hd ↦ ?_⟩
    cases hd.symm.trans (ha request heq)
  cases h with
  | deaf hd => exact hsame rfl fun _ _ ↦ hd
  | plain _ hplain h =>
    refine hsame (congrArg Prod.snd h.flags) fun request heq ↦ ?_
    obtain ⟨-, rfl⟩ := Action.command.inj heq
    cases hplain
  | generate _ h => exact hsame (congrArg Prod.snd h.flags) (by simp)
  | crash _ _ h => exact hsame (congrArg Prod.snd h.flags) (by simp)
  | refuse _ _ h => exact hsame (congrArg Prod.snd h.flags) (by simp)
  | close => exact ⟨fun _ ↦ rfl, fun _ ↦ .inr ⟨_, rfl⟩, fun _ _ _ ↦ rfl⟩
  | tick h => exact hsame (congrArg Prod.snd h.flags) (by simp)
  | callback c => exact hsame rfl (by simp)

variable {asked : List ℕ} {stream r : ℕ}

structure Placed (asked : List ℕ) (w : NativeWorker) : Prop where
  known : ∀ stream ∈ asked, ∃ r, Status stream (some r) w
  unknown : ∀ stream, stream ∉ asked → Unknown stream w

theorem placed_init : Placed [] {} := ⟨by simp, fun stream _ ↦ unknown_init stream⟩

theorem Placed.turn (h : Placed asked w) (hw : Consistent w.state) {a : Action}
    (hd : a.asks ≠ none → w.state.deaf = false) (hnew : ∀ stream ∈ a.asks, stream ∉ asked)
    (hf : (step rt w a).state.fatalExit = false) :
      Placed (asked ++ a.asks.toList) (step rt w a) := by
  obtain ⟨hothers, hown⟩ := (step_turn hw a).status hw hf
  have hserves (stream r : ℕ) (hserves : Serves stream r w a) : stream ∈ a.asks := by
    obtain ⟨-, request, input, answers, rfl⟩ := hserves
    exact rfl
  refine ⟨fun stream hstream ↦ ?_, fun stream hstream ↦ ?_⟩
  · rcases List.mem_append.mp hstream with hstream | hstream
    · obtain ⟨r, hr⟩ := h.known stream hstream
      exact ⟨r, hothers stream (some r) (fun r' h ↦ hnew stream (hserves stream r' h) hstream) hr⟩
    · have hasks : a.asks = some stream := Option.mem_toList.mp hstream
      have hlistens : w.state.deaf = false := hd (by simp [hasks])
      have hfresh := h.unknown stream (hnew stream hasks)
      cases a with
      | command request command =>
        cases command with
        | generate other r input answers =>
          obtain rfl : other = stream := Option.some.inj hasks
          exact ⟨r, hown other r ⟨hlistens, request, input, answers, rfl⟩ hfresh⟩
        | _ => cases hasks
      | _ => cases hasks
  · rw [List.mem_append, not_or] at hstream
    refine hothers stream none (fun r hr ↦ hstream.2 ?_) (h.unknown stream hstream.1)
    exact Option.mem_toList.mpr (hserves stream r hr)

theorem mem_eventsOf {sent : List (Outgoing × State)} {e : Event} {s : State} :
    (e, s) ∈ eventsOf stream sent ↔ (.event stream e, s) ∈ sent := by
  have hsentTo (m : Outgoing × State) : sentTo stream m = some (e, s) ↔
    m = (.event stream e, s) := by
    obtain ⟨m, s'⟩ := m
    cases m with
    | reply request result => simp [sentTo]
    | event other e' =>
      simp only [sentTo, Option.ite_none_right_eq_some, Option.some.injEq, Prod.mk.injEq,
        Outgoing.event.injEq]
      exact and_assoc.symm
  simp only [eventsOf, List.mem_filterMap, hsentTo, exists_eq_right]

/-- A stream of which only tokens were heard is over now: it was told so in between. -/
theorem Finished.told (h : Finished stream r t) {more : List Outgoing}
    (hmore : t.messages = w.messages ++ more)
    (htokens : ∀ e ∈ eventsOf stream w.sent, e.1.isToken = true) :
    ∃ e, e.isToken = false ∧ .event stream e ∈ more := by
  obtain ⟨tokens, e, s, hevents, -, hreleased, -⟩ := h.events
  refine ⟨e, hreleased.terminal, ?_⟩
  have hsent : (.event stream e, s) ∈ t.sent := mem_eventsOf.mp (by simp [hevents])
  have hmem : .event stream e ∈ t.messages := List.mem_map.mpr ⟨_, hsent, rfl⟩
  rw [hmore] at hmem
  refine (List.mem_append.mp hmem).resolve_left fun hold ↦ ?_
  obtain ⟨m, hm, hfirst⟩ := List.mem_map.mp hold
  have htoken := htokens (e, m.2) (mem_eventsOf.mpr (hfirst ▸ hm))
  cases hreleased.terminal.symm.trans htoken

theorem Placed.tokens (h : Placed asked w)
    (hstream : stream ∈ w.state.operations ∨ stream ∉ asked) :
    ∀ e ∈ eventsOf stream w.sent, e.1.isToken = true := by
  by_cases hasked : stream ∈ asked
  · obtain ⟨r, hrunning | hfinished⟩ := h.known stream hasked
    · exact hrunning.tokens
    · exact absurd (hstream.resolve_right fun hnew ↦ hnew hasked) hfinished.gone
  · simp [(h.unknown stream hasked).events]

/-- A stream that was not over runs, or it was told that it is over. -/
theorem Placed.live_or_told (h : Placed asked t) (hstream : stream ∈ asked) {more : List Outgoing}
    (hmore : t.messages = w.messages ++ more)
    (htokens : ∀ e ∈ eventsOf stream w.sent, e.1.isToken = true) :
    stream ∈ t.state.operations ∨ ∃ e, e.isToken = false ∧ .event stream e ∈ more := by
  obtain ⟨r, hrunning | hfinished⟩ := h.known stream hstream
  · exact .inl hrunning.live
  · exact .inr (hfinished.told hmore htokens)

end LibLitertLm.Worker
