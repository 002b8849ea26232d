import LibLitertLm.Handles.Calls
import Mathlib.Data.List.Count

namespace LibLitertLm.Handles

open World

/-- What one stretch of code can do to the states of the handles and to the calls. -/
inductive Moves (w u : World) : Prop
  | same (hstates : u.states = w.states) (hlog : u.log = w.log)
  | call (path : Path) (call : Call) (hopen : closed w.states path = false)
    (hcall : call.disposes = false) (hstates : u.states = w.states)
    (hlog : u.log = w.log ++ [(path, call)])
  | close (h : Handle) (hfirst : (w.states h.path).closing = none)
    (hstates : u.states = Function.update w.states h.path ⟨true, some w.futures.length⟩)
    (hlog : u.log = if closed w.states h.parent then w.log else w.log ++ [(h.path, disposal h)])

/-- A stretch that leaves the states and the calls alone goes before or after. -/
theorem Moves.congr {w u w' u' : World} (h : Moves w u) (hw : w'.states = w.states)
    (hw' : w'.log = w.log) (hw'' : w'.futures = w.futures) (hu : u'.states = u.states)
    (hu' : u'.log = u.log) : Moves w' u' := by
  cases h with
  | same hstates hlog => exact .same (by rw [hu, hstates, hw]) (by rw [hu', hlog, hw'])
  | call path call hopen hcall hstates hlog =>
    exact .call path call (by rw [hw, hopen]) hcall (by rw [hu, hstates, hw])
      (by rw [hu', hlog, hw'])
  | close h hfirst hstates hlog =>
    exact .close h (by rw [hw, hfirst]) (by rw [hu, hstates, hw, hw'']) (by rw [hu', hlog, hw, hw'])

section Stretches

variable (w : World) (h : Handle)

theorem call_not_disposes {advanced : Bool} {id : ℕ} {r : Request} {call : Call}
    (hcall : r.call advanced id = .ok call) : call.disposes = false := by
  have hadvanced {c c' : Call} (hc : requireAdvanced advanced c = .ok c')
      (hnot : c.disposes = false) : c'.disposes = false := by
    unfold requireAdvanced at hc
    split_ifs at hc
    obtain rfl := Except.ok.inj hc
    exact hnot
  cases r with
  | loadEngine | createSession | generate | generateStream | cancel =>
    obtain rfl := Except.ok.inj hcall
    rfl
  | inspectModel | getInfo | tokenize | getMetrics => exact hadvanced hcall rfl
  | createConversation messages | sendMessagesStream messages =>
    simp only [Request.call] at hcall
    cases hvalid : validateMessages messages <;> rw [hvalid] at hcall
    · cases hcall
    · exact hadvanced hcall rfl
  | generateContent contents | generateContentStream contents =>
    simp only [Request.call] at hcall
    cases hvalid : normalize contents <;> rw [hvalid] at hcall
    · cases hcall
    · obtain rfl := Except.ok.inj hcall
      rfl
  | budget messages outputReserve =>
    simp only [Request.call] at hcall
    split_ifs at hcall
    cases hvalid : validateMessages messages <;> rw [hvalid] at hcall
    · cases hcall
    · exact hadvanced hcall rfl

theorem begin_moves (r : Request) : Moves w (w.begin h r).1 := by
  unfold World.begin
  split_ifs with hclosed
  · exact .same rfl rfl
  · split
    · exact .same rfl rfl
    next call hcall =>
      exact .call h.path call (Bool.eq_false_iff.mpr hclosed) (call_not_disposes hcall) rfl rfl

theorem close_moves : Moves w (w.close h).1 := by
  unfold World.close
  split
  · exact .same rfl rfl
  next hfirst => exact .close h hfirst rfl rfl

theorem request_moves (r : Request) : Moves w (w.request h r).1 :=
  (begin_moves w h r).congr rfl rfl rfl rfl rfl

theorem sendMessages_moves (messages : List ChatMessage) :
    Moves w (w.sendMessages h messages).1 :=
  (begin_moves w h _).congr rfl rfl rfl rfl rfl

theorem put_moves (input : Input) : Moves w (w.put h input).1 := by
  cases input with
  | prompt | contents => exact request_moves w h _
  | messages messages => exact sendMessages_moves w h messages

theorem invoke_moves (operation : Operation) : Moves w (w.invoke h operation).1 := by
  cases operation with
  | request r =>
    simp only [invoke]
    split_ifs
    · exact begin_moves w h r
    · exact request_moves w h r
  | sendMessages messages => exact sendMessages_moves w h messages
  | ask input params => exact (request_moves w h _).congr rfl rfl rfl rfl rfl
  | dispose => exact close_moves w h

theorem create_moves (t : ℕ) (parent : Path) (kind : Kind) (reply : Reply) :
    Moves w (w.create t parent kind reply) := by
  unfold World.create
  split
  · split_ifs
    · exact .same rfl rfl
    · split <;> exact .same rfl rfl
  · exact .same rfl rfl

theorem resume_moves (t : ℕ) : Moves w (w.resume t) := by
  unfold World.resume
  split
  · exact .same rfl rfl
  next task _ =>
    split
    · split
      · exact create_moves w ..
      · exact .same rfl rfl
    · split <;> exact .same rfl rfl
    · exact .same rfl rfl
    · split <;> exact .same rfl rfl
    · split
      · split
        next session _ => exact (put_moves w session _).congr rfl rfl rfl rfl rfl
        · exact .same rfl rfl
      all_goals exact .same rfl rfl
    · split
      · exact (close_moves w _).congr rfl rfl rfl rfl rfl
      · exact .same rfl rfl
    · split <;> exact .same rfl rfl
    · exact .same rfl rfl

theorem step_moves (action : Action) : Moves w (w.step action).1 := by
  cases action with
  | create => exact .same rfl rfl
  | invoke path operation =>
    simp only [step]
    split
    next h _ =>
      split_ifs
      · exact invoke_moves w h operation
      · exact .same rfl rfl
    · exact .same rfl rfl
  | reply call reply =>
    simp only [step]
    split
    · split_ifs <;> exact .same rfl rfl
    · exact .same rfl rfl
  | resume t => exact resume_moves w t

end Stretches

section Memo

variable {w u : World} {path : Path}

def madeFor (path : Path) (entry : Path × Call) : Bool := entry.1 == path

def disposesOf (path : Path) (entry : Path × Call) : Bool := entry.1 == path && entry.2.disposes

/-- A handle is closed when its future is memoised, and it is disposed of once. -/
structure Memoised (w : World) : Prop where
  closing : ∀ p, (w.states p).closed = (w.states p).closing.isSome
  once : ∀ p, w.log.countP (disposesOf p) ≤ if (w.states p).closed then 1 else 0

theorem Moves.memo (hm : Moves w u) {future : ℕ} (h : (w.states path).closing = some future) :
    (u.states path).closing = some future := by
  cases hm with
  | same hstates | call _ _ _ _ hstates => rw [hstates, h]
  | close other hfirst hstates =>
    have hne : path ≠ other.path := by
      rintro rfl
      rw [hfirst] at h
      cases h
    rw [hstates, Function.update_of_ne hne, h]

theorem Moves.closed_state (hm : Moves w u) (h : (w.states path).closed = true) :
    (u.states path).closed = true := by
  cases hm with
  | same hstates | call _ _ _ _ hstates => rw [hstates, h]
  | close other _ hstates =>
    rw [hstates, Function.update_apply]
    split_ifs
    · rfl
    · exact h

/-- A closed handle stays closed. -/
theorem Moves.stays_closed (hm : Moves w u) (h : closed w.states path = true) :
    closed u.states path = true :=
  closed_mono (fun _ ↦ hm.closed_state) h

theorem Memoised.open_of_none (hw : Memoised w) (h : (w.states path).closing = none) :
    (w.states path).closed = false := by
  rw [hw.closing, h]
  rfl

theorem Moves.silent (hm : Moves w u) (hw : Memoised w) (h : closed w.states path = true) :
    u.log.filter (madeFor path) = w.log.filter (madeFor path) := by
  have hother {p : Path} {call : Call} (hopen : closed w.states p = false) :
      (w.log ++ [(p, call)]).filter (madeFor path) = w.log.filter (madeFor path) := by
    have hne : madeFor path (p, call) = false := by
      rw [madeFor, beq_eq_false_iff_ne]
      rintro rfl
      rw [h] at hopen
      cases hopen
    rw [List.filter_append, List.filter_cons_of_neg (by simp [hne]), List.filter_nil,
      List.append_nil]
  cases hm with
  | same _ hlog => rw [hlog]
  | call p call hopen _ _ hlog => rw [hlog, hother hopen]
  | close other hfirst _ hlog =>
    rw [hlog]
    split_ifs with hparent
    · rfl
    · refine hother ?_
      rw [Handle.path, closed, ← Handle.path, hw.open_of_none hfirst]
      exact Bool.eq_false_iff.mpr hparent

theorem Memoised.init (advanced : Bool) : Memoised { advanced } :=
  ⟨fun _ ↦ rfl, fun _ ↦ by simp⟩

theorem Moves.memoised (hm : Moves w u) (hw : Memoised w) : Memoised u := by
  cases hm with
  | same hstates hlog =>
    exact ⟨by rw [hstates]; exact hw.closing, by rw [hstates, hlog]; exact hw.once⟩
  | call p call _ hcall hstates hlog =>
    refine ⟨by rw [hstates]; exact hw.closing, fun q ↦ ?_⟩
    have hnot : disposesOf q (p, call) = false := by simp [disposesOf, hcall]
    rw [hstates, hlog, List.countP_append, List.countP_singleton, hnot, if_neg (by simp),
      Nat.add_zero]
    exact hw.once q
  | close other hfirst hstates hlog =>
    have hopen := hw.open_of_none hfirst
    constructor
    · intro q
      rw [hstates, Function.update_apply]
      split_ifs
      · rfl
      · exact hw.closing q
    · intro q
      have hq := hw.once q
      have hcount : u.log.countP (disposesOf q) ≤
          w.log.countP (disposesOf q) + if q = other.path then 1 else 0 := by
        rw [hlog]
        split_ifs with hparent hq hq
        · omega
        · omega
        · rw [List.countP_append, List.countP_singleton]
          split_ifs <;> omega
        · have hnot : disposesOf q (other.path, disposal other) = false := by
            simp [disposesOf, Ne.symm hq]
          rw [List.countP_append, List.countP_singleton, hnot, if_neg (by simp)]
      by_cases hsame : q = other.path
      · subst hsame
        rw [hopen, if_neg (by simp)] at hq
        rw [if_pos rfl] at hcount
        rw [hstates, Function.update_self, if_pos rfl]
        omega
      · rw [if_neg hsame, Nat.add_zero] at hcount
        rw [hstates, Function.update_of_ne hsame]
        exact hcount.trans hq

end Memo

section Tasks

variable {w u : World} {h : Handle} {t t' : ℕ} {task : Task} {status : Status}

def Grows (w u : World) : Prop := ∃ more, u.tasks = w.tasks ++ more

theorem Grows.getElem? (hgrows : Grows w u) (htask : w.tasks[t]? = some task) :
    u.tasks[t]? = some task := by
  obtain ⟨more, hmore⟩ := hgrows
  obtain ⟨hlt, -⟩ := List.getElem?_eq_some_iff.mp htask
  rw [hmore, List.getElem?_append_left hlt, htask]

theorem begin_tasks (w : World) (h : Handle) (r : Request) : (w.begin h r).1.tasks = w.tasks := by
  unfold World.begin
  split_ifs
  · rfl
  · split <;> rfl

theorem close_tasks (w : World) (h : Handle) : (w.close h).1.tasks = w.tasks := by
  unfold World.close
  split <;> rfl

theorem request_tasks (w : World) (h : Handle) (r : Request) :
    (w.request h r).1.tasks = w.tasks ++ [⟨h.path, .request r, r.status (w.begin h r).2⟩] :=
  congrArg (· ++ _) (begin_tasks w h r)

theorem sendMessages_tasks (w : World) (h : Handle) (messages : List ChatMessage) :
    (w.sendMessages h messages).1.tasks = w.tasks ++
      [⟨h.path, .sendMessages messages,
        .collecting (w.begin h (.sendMessagesStream messages)).2⟩] :=
  congrArg (· ++ _) (begin_tasks w h _)

theorem put_grows (w : World) (h : Handle) (input : Input) : Grows w (w.put h input).1 := by
  cases input with
  | prompt | contents => exact ⟨_, request_tasks w h _⟩
  | messages messages => exact ⟨_, sendMessages_tasks w h messages⟩

theorem ask_tasks (w : World) (h : Handle) (input : Input) (params : GenerationParams) :
    (w.ask h input params).1.tasks = w.tasks ++
      [⟨h.path, .request (input.creation params),
        (input.creation params).status (w.begin h (input.creation params)).2⟩,
      ⟨h.path, .ask input params, .opening w.tasks.length input⟩] := by
  have hnumber : (w.request h (input.creation params)).2 = w.tasks.length :=
    congrArg List.length (begin_tasks w h _)
  have htasks : (w.ask h input params).1.tasks = (w.request h (input.creation params)).1.tasks ++
      [⟨h.path, .ask input params, .opening (w.request h (input.creation params)).2 input⟩] := rfl
  rw [htasks, request_tasks, hnumber, List.append_assoc]
  rfl

theorem invoke_grows (w : World) (h : Handle) (operation : Operation) :
    Grows w (w.invoke h operation).1 := by
  cases operation with
  | request r =>
    simp only [invoke]
    split_ifs
    · exact ⟨[], by rw [begin_tasks, List.append_nil]⟩
    · exact ⟨_, request_tasks w h r⟩
  | sendMessages messages => exact ⟨_, sendMessages_tasks w h messages⟩
  | ask input params => exact ⟨_, ask_tasks w h input params⟩
  | dispose => exact ⟨[], by rw [invoke, close_tasks, List.append_nil]⟩

theorem settle_self (htask : w.tasks[t]? = some task) :
    (w.settle t status).tasks[t]? = some { task with status } := by
  simp [settle, htask]

theorem settle_other (hne : t' ≠ t) : (w.settle t status).tasks[t']? = w.tasks[t']? := by
  simp [settle, Ne.symm hne]

/-- A task that is not the one that goes on stays as it is. -/
theorem resume_other (hne : t' ≠ t) (htask : w.tasks[t']? = some task) :
    (w.resume t).tasks[t']? = some task := by
  have hsettle (w : World) (status : Status) (htask : w.tasks[t']? = some task) :
      (w.settle t status).tasks[t']? = some task := by
    rw [settle_other hne, htask]
  unfold World.resume
  split
  · exact htask
  next current _ =>
    split
    · split
      · unfold World.create
        split
        · split_ifs
          · exact hsettle w _ htask
          · split
            · exact hsettle w _ htask
            · exact hsettle _ _ htask
        · exact hsettle w _ htask
      · exact htask
    · split
      · exact hsettle w _ htask
      · exact htask
    · exact hsettle w _ htask
    · split
      · exact hsettle w _ htask
      · exact hsettle w _ htask
      · exact htask
    · split
      · split
        next session _ => exact hsettle _ _ ((put_grows w session _).getElem? htask)
        · exact htask
      · exact hsettle w _ htask
      · exact hsettle w _ htask
      · exact htask
    next session _ =>
      split
      · exact hsettle (w.close session).1 _ ((close_tasks w session).symm ▸ htask)
      · exact htask
    · split
      · exact hsettle w _ htask
      · exact hsettle w _ htask
      · exact htask
    · exact htask

theorem step_other {action : Action} (hne : action ≠ .resume t) (htask : w.tasks[t]? = some task) :
    (w.step action).1.tasks[t]? = some task := by
  cases action with
  | create => exact htask
  | invoke path operation =>
    simp only [step]
    split
    next h _ =>
      split_ifs
      · exact (invoke_grows w h operation).getElem? htask
      · exact htask
    · exact htask
  | reply call reply =>
    simp only [step]
    split
    · split_ifs <;> exact htask
    · exact htask
  | resume t' =>
    have hne' : t ≠ t' := fun h ↦ hne (by rw [h])
    exact resume_other hne' htask

end Tasks

section Results

variable {w : World} {h : Handle} {t : ℕ} {result : Completion}

/-- A task that creates a handle below a closed one: it never gets one. -/
def Lost (t : ℕ) (w : World) : Prop :=
  ∃ task, w.tasks[t]? = some task ∧ closed w.states task.path = true ∧
    ((∃ call kind, task.status = .creating call kind) ∨
      task.status = .finished (.failed disposed) ∨ task.status = .finished .threw)

theorem Lost.step (hlost : Lost t w) (action : Action) : Lost t (w.step action).1 := by
  obtain ⟨task, htask, hclosed, hstatus⟩ := hlost
  have hclosed' := (step_moves w action).stays_closed hclosed
  by_cases haction : action = .resume t
  · subst haction
    rcases hstatus with ⟨call, kind, hcreating⟩ | hfinished | hfinished
    · simp only [World.step, World.resume, htask, hcreating] at hclosed' ⊢
      cases hreply : w.replies call with
      | none => exact ⟨task, htask, hclosed, .inl ⟨call, kind, hcreating⟩⟩
      | some reply =>
        simp only [World.create, hclosed, if_true]
        cases reply with
        | created _ => exact ⟨_, settle_self htask, hclosed, .inr (.inl rfl)⟩
        | _ => exact ⟨_, settle_self htask, hclosed, .inr (.inr rfl)⟩
    · simp only [World.step, World.resume, htask, hfinished]
      exact ⟨task, htask, hclosed, .inr (.inl hfinished)⟩
    · simp only [World.step, World.resume, htask, hfinished]
      exact ⟨task, htask, hclosed, .inr (.inr hfinished)⟩
  · exact ⟨task, step_other haction htask, hclosed', hstatus⟩

theorem result_eq : w.result t = some result ↔
    ∃ task, w.tasks[t]? = some task ∧ task.status = .finished result := by
  unfold World.result
  split
  next path operation result' htask =>
    simp [htask]
  next hnot =>
    refine iff_of_false nofun ?_
    intro ⟨task, htask, hstatus⟩
    exact hnot task.path task.operation result (by rw [htask, ← hstatus])

/-- A future that has completed stays as it is. -/
theorem result_step (hresult : w.result t = some result) (action : Action) :
    (w.step action).1.result t = some result := by
  rw [result_eq] at hresult ⊢
  obtain ⟨task, htask, hstatus⟩ := hresult
  refine ⟨task, ?_, hstatus⟩
  by_cases haction : action = .resume t
  · subst haction
    simp only [step, World.resume, htask, hstatus]
  · exact step_other haction htask

/-- A task that has completed with the result, or does so when it goes on. -/
inductive Bound (t : ℕ) : Completion → World → Prop
  | finished {result : Completion} {w : World} (hresult : w.result t = some result) :
    Bound t result w
  | collecting {error : Failure} {w : World} {task : Task} (htask : w.tasks[t]? = some task)
    (hstatus : task.status = .collecting (.error error)) : Bound t (.failed error) w
  | opening {error : Failure} {w : World} {task : Task} {first : ℕ} {input : Input}
    (htask : w.tasks[t]? = some task) (hstatus : task.status = .opening first input)
    (hfirst : w.result first = some (.failed error)) : Bound t (.failed error) w

theorem Bound.resume (hbound : Bound t result w) : (w.resume t).result t = some result := by
  cases hbound with
  | finished hresult => exact result_step hresult (.resume t)
  | collecting htask hstatus =>
    simp only [World.resume, htask, hstatus]
    exact result_eq.mpr ⟨_, settle_self htask, rfl⟩
  | opening htask hstatus hfirst =>
    simp only [World.resume, htask, hstatus, hfirst]
    exact result_eq.mpr ⟨_, settle_self htask, rfl⟩

theorem Bound.step (hbound : Bound t result w) (action : Action) :
    Bound t result (w.step action).1 := by
  by_cases haction : action = .resume t
  · subst haction
    exact .finished hbound.resume
  · cases hbound with
    | finished hresult => exact .finished (result_step hresult action)
    | collecting htask hstatus => exact .collecting (step_other haction htask) hstatus
    | opening htask hstatus hfirst =>
      exact .opening (step_other haction htask) hstatus (result_step hfirst action)

def Operation.refusal : Operation → Completion
  | .request r => r.refusal disposed
  | _ => .failed disposed

def Refuses (operation : Operation) (w : World) : Output → Prop
  | .task t => Bound t operation.refusal w
  | .future .. => operation = .dispose
  | .stream _ source => source = .error disposed

theorem begin_closed (hclosed : closed w.states h.path = true) (r : Request) :
    w.begin h r = (w, .error disposed) := by
  rw [World.begin, if_pos hclosed]

/-- A handle that its parent has closed is not disposed of. -/
theorem close_closed (hw : Memoised w) (hclosed : closed w.states h.path = true) :
    (w.close h).1.log = w.log := by
  unfold World.close
  split
  · rfl
  next hfirst =>
    rw [Handle.path, closed, ← Handle.path, hw.open_of_none hfirst, Bool.false_or] at hclosed
    exact if_pos hclosed

theorem last_task {u : World} {tasks : List Task} {task : Task} (h : u.tasks = tasks ++ [task]) :
    u.tasks[tasks.length]? = some task := by
  simp [h]

theorem invoke_closed (hw : Memoised w) (hclosed : closed w.states h.path = true)
    (operation : Operation) : (w.invoke h operation).1.log = w.log ∧
      Refuses operation (w.invoke h operation).1 (w.invoke h operation).2 := by
  cases operation with
  | request r =>
    simp only [invoke]
    split_ifs
    · rw [begin_closed hclosed]
      exact ⟨rfl, rfl⟩
    · have htasks := request_tasks w h r
      rw [begin_closed hclosed] at htasks
      have hrequest : (w.request h r).1.log = w.log ∧ (w.request h r).2 = w.tasks.length := by
        rw [request, begin_closed hclosed]
        exact ⟨rfl, rfl⟩
      refine ⟨hrequest.1, ?_⟩
      simp only [Refuses, hrequest.2]
      exact .finished (result_eq.mpr ⟨_, last_task htasks, rfl⟩)
  | sendMessages messages =>
    have htasks := sendMessages_tasks w h messages
    rw [begin_closed hclosed] at htasks
    have hrequest : (w.sendMessages h messages).1.log = w.log ∧
        (w.sendMessages h messages).2 = w.tasks.length := by
      rw [World.sendMessages, begin_closed hclosed]
      exact ⟨rfl, rfl⟩
    refine ⟨hrequest.1, ?_⟩
    simp only [invoke, Refuses, hrequest.2]
    exact .collecting (last_task htasks) rfl
  | ask input params =>
    have htasks := ask_tasks w h input params
    rw [begin_closed hclosed] at htasks
    have hcreation : (input.creation params).status (.error disposed) =
        .finished (.failed disposed) := by
      cases input <;> rfl
    have hrequest : (w.ask h input params).1.log = w.log ∧
        (w.ask h input params).2 = w.tasks.length + 1 := by
      rw [World.ask, World.request, begin_closed hclosed]
      exact ⟨rfl, by simp [spawn]⟩
    refine ⟨hrequest.1, ?_⟩
    simp only [invoke, Refuses, hrequest.2]
    rw [hcreation] at htasks
    have hfirst : (w.ask h input params).1.result w.tasks.length = some (.failed disposed) := by
      refine result_eq.mpr ⟨⟨h.path, .request (input.creation params), _⟩, ?_, rfl⟩
      rw [htasks, List.getElem?_append_right le_rfl, Nat.sub_self]
      rfl
    have hsecond : (w.ask h input params).1.tasks[w.tasks.length + 1]? =
        some ⟨h.path, .ask input params, .opening w.tasks.length input⟩ := by
      rw [htasks, List.getElem?_append_right (by omega), Nat.add_sub_cancel_left]
      rfl
    exact .opening hsecond rfl hfirst
  | dispose => exact ⟨close_closed hw hclosed, rfl⟩

end Results

section Family

variable {w : World} {h : Handle} {t : ℕ} {task : Task}

def Task.Parental (task : Task) : Prop :=
  ∀ r kind, task.operation = .request r → r.creates = some kind →
    (∃ call kind, task.status = .creating call kind) ∨
      ∃ result, task.status = .finished result ∧ ∀ path, result = .handle path →
        path.tail = task.path

/-- A task in another place does not create. -/
theorem Task.Parental.elsewhere (hparental : task.Parental)
    (hcreating : ∀ call kind, task.status ≠ .creating call kind)
    (hfinished : ∀ result, task.status ≠ .finished result) (status : Status) :
    Task.Parental { task with status } := by
  intro r kind hoperation hcreates
  rcases hparental r kind hoperation hcreates with ⟨call, kind, hstatus⟩ | ⟨result, hstatus, -⟩
  · exact absurd hstatus (hcreating call kind)
  · exact absurd hstatus (hfinished result)

structure Tidy (w : World) : Prop extends Memoised w where
  parental : ∀ task ∈ w.tasks, task.Parental

theorem Parental.settle {status : Status} (hw : ∀ task ∈ w.tasks, task.Parental)
    (htask : ∀ task, w.tasks[t]? = some task → Task.Parental { task with status }) :
    ∀ task ∈ (w.settle t status).tasks, task.Parental := by
  intro task hmem
  obtain ⟨i, hi⟩ := List.mem_iff_getElem?.mp hmem
  by_cases hsame : i = t
  · subst hsame
    cases hold : w.tasks[i]? with
    | none =>
      simp [World.settle, hold] at hi
    | some old =>
      rw [settle_self hold] at hi
      obtain rfl := Option.some.inj hi
      exact htask old hold
  · rw [settle_other hsame] at hi
    exact hw task (List.mem_of_getElem? hi)

theorem Parental.request (hw : ∀ task ∈ w.tasks, task.Parental) (r : Request) :
    ∀ task ∈ (w.request h r).1.tasks, task.Parental := by
  rw [request_tasks]
  intro task hmem
  rcases List.mem_append.mp hmem with hmem | hmem
  · exact hw task hmem
  · obtain rfl := List.mem_singleton.mp hmem
    intro r' kind hoperation hcreates
    obtain rfl := Operation.request.inj hoperation
    cases (w.begin h r).2 with
    | ok call => exact .inl ⟨call, kind, by simp [Request.status, hcreates]⟩
    | error error =>
      refine .inr ⟨r.refusal error, rfl, fun path hpath ↦ ?_⟩
      cases r <;> cases hpath

theorem Parental.append {tasks : List Task} {operation : Operation} {path : Path} {status : Status}
    (hw : ∀ task ∈ tasks, task.Parental) (hother : ∀ r, operation ≠ .request r) :
    ∀ task ∈ tasks ++ [⟨path, operation, status⟩], task.Parental := by
  intro task hmem
  rcases List.mem_append.mp hmem with hmem | hmem
  · exact hw task hmem
  · obtain rfl := List.mem_singleton.mp hmem
    exact fun r _ hoperation _ ↦ absurd hoperation (hother r)

theorem Parental.sendMessages (hw : ∀ task ∈ w.tasks, task.Parental)
    (messages : List ChatMessage) : ∀ task ∈ (w.sendMessages h messages).1.tasks,
      task.Parental := by
  rw [sendMessages_tasks]
  apply Parental.append hw
  intro r h
  cases h

theorem Parental.put (hw : ∀ task ∈ w.tasks, task.Parental) (input : Input) :
    ∀ task ∈ (w.put h input).1.tasks, task.Parental := by
  cases input with
  | prompt | contents => exact Parental.request hw _
  | messages messages => exact Parental.sendMessages hw messages

theorem Parental.invoke (hw : ∀ task ∈ w.tasks, task.Parental) (operation : Operation) :
    ∀ task ∈ (w.invoke h operation).1.tasks, task.Parental := by
  cases operation with
  | request r =>
    simp only [World.invoke]
    split_ifs
    · rw [begin_tasks]
      exact hw
    · exact Parental.request hw r
  | sendMessages messages => exact Parental.sendMessages hw messages
  | ask input params =>
    apply Parental.append (Parental.request hw (input.creation params))
    intro r h
    cases h
  | dispose =>
    rw [World.invoke, close_tasks]
    exact hw

theorem Parental.create {kind : Kind} {reply : Reply} (hw : ∀ task ∈ w.tasks, task.Parental)
    (htask : w.tasks[t]? = some task) :
    ∀ task' ∈ (w.create t task.path kind reply).tasks, task'.Parental := by
  have hfinish (u : World) (hu : u.tasks = w.tasks) {result : Completion}
      (hresult : ∀ path, result = .handle path → path.tail = task.path) :
      ∀ task' ∈ (u.settle t (.finished result)).tasks, task'.Parental := by
    apply Parental.settle
    · rw [hu]
      exact hw
    · intro task' htask' r kind' _ _
      rw [hu, htask] at htask'
      obtain rfl := Option.some.inj htask'
      exact .inr ⟨result, rfl, hresult⟩
  unfold World.create
  split
  · split_ifs
    · exact hfinish w rfl nofun
    · split
      · exact hfinish w rfl nofun
      · refine hfinish _ rfl fun path hpath ↦ ?_
        obtain rfl := Completion.handle.inj hpath
        rfl
  · exact hfinish w rfl nofun

theorem Parental.resume (hw : ∀ task ∈ w.tasks, task.Parental) (t : ℕ) :
    ∀ task ∈ (w.resume t).tasks, task.Parental := by
  have helsewhere {task : Task} (htask : w.tasks[t]? = some task)
      (hcreating : ∀ call kind, task.status ≠ .creating call kind)
      (hfinished : ∀ result, task.status ≠ .finished result) {u : World} (hu : Grows w u)
      (hu' : ∀ task ∈ u.tasks, task.Parental) (status : Status) :
      ∀ task ∈ (u.settle t status).tasks, task.Parental := by
    refine Parental.settle hu' fun task' htask' ↦ ?_
    rw [hu.getElem? htask] at htask'
    obtain rfl := Option.some.inj htask'
    exact (hw task (List.mem_of_getElem? htask)).elsewhere hcreating hfinished status
  have hsame : Grows w w := ⟨[], by simp⟩
  unfold World.resume
  split
  · exact hw
  next task htask =>
    cases hstatus : task.status with
    | creating call kind =>
      simp only
      split
      · exact Parental.create hw htask
      · exact hw
    | finished result => exact hw
    | passing call =>
      simp only
      split
      · exact helsewhere htask (by simp [hstatus]) (by simp [hstatus]) hsame hw _
      · exact hw
    | collecting source =>
      cases source with
      | error error => exact helsewhere htask (by simp [hstatus]) (by simp [hstatus]) hsame hw _
      | ok call =>
        simp only
        split
        · exact helsewhere htask (by simp [hstatus]) (by simp [hstatus]) hsame hw _
        · exact helsewhere htask (by simp [hstatus]) (by simp [hstatus]) hsame hw _
        · exact hw
    | opening first input =>
      simp only
      split
      · split
        next session _ =>
          exact helsewhere htask (by simp [hstatus]) (by simp [hstatus]) (put_grows w session input)
            (Parental.put hw input) _
        · exact hw
      · exact helsewhere htask (by simp [hstatus]) (by simp [hstatus]) hsame hw _
      · exact helsewhere htask (by simp [hstatus]) (by simp [hstatus]) hsame hw _
      · exact hw
    | asking first session =>
      simp only
      split
      · have htasks := close_tasks w session
        refine helsewhere htask (by simp [hstatus]) (by simp [hstatus]) (u := (w.close session).1)
          ⟨[], by simp [htasks]⟩ (by rw [htasks]; exact hw) _
      · exact hw
    | releasing future result =>
      simp only
      split
      · exact helsewhere htask (by simp [hstatus]) (by simp [hstatus]) hsame hw _
      · exact helsewhere htask (by simp [hstatus]) (by simp [hstatus]) hsame hw _
      · exact hw

end Family

section Runs

variable {w : World} {h : Handle} {t : ℕ}

theorem Tidy.step (hw : Tidy w) (action : Action) : Tidy (w.step action).1 := by
  refine ⟨(step_moves w action).memoised hw.toMemoised, ?_⟩
  cases action with
  | create => exact hw.parental
  | invoke path operation =>
    simp only [World.step]
    split
    next h _ =>
      split_ifs
      · exact Parental.invoke hw.parental operation
      · exact hw.parental
    · exact hw.parental
  | reply call reply =>
    simp only [World.step]
    split
    · split_ifs <;> exact hw.parental
    · exact hw.parental
  | resume t => exact Parental.resume hw.parental t

theorem close_memo (w : World) (h : Handle) :
    ((w.close h).1.states h.path).closing = some (w.close h).2 := by
  unfold World.close
  split
  next future hfuture => exact hfuture
  · simp

theorem step_future {action : Action} {path : Path} {future : ℕ}
    (h : .future path future ∈ (w.step action).2) :
    ((w.step action).1.states path).closing = some future := by
  cases action with
  | invoke path' operation =>
    simp only [World.step] at h ⊢
    split at h
    next handle _ =>
      split_ifs at h ⊢
      · cases operation with
        | request r =>
          simp only [World.invoke] at h
          split_ifs at h <;> simp at h
        | sendMessages | ask => simp [World.invoke] at h
        | dispose =>
          simp only [World.invoke, List.mem_singleton, Output.future.injEq] at h
          obtain ⟨rfl, rfl⟩ := h
          exact close_memo w handle
      · simp at h
    · simp at h
  | reply call reply =>
    simp only [World.step] at h
    split at h
    · split_ifs at h <;> simp at h
    · simp at h
  | create | resume => simp [World.step] at h

theorem machine_tidy (advanced : Bool) (actions : List Action) :
    Tidy ((machine advanced).state actions) := by
  have hinit : Tidy ((machine advanced).state []) := ⟨Memoised.init advanced, by simp [machine]⟩
  exact (machine advanced).stable Tidy (fun _ action hw ↦ hw.step action) hinit actions

theorem machine_futures (advanced : Bool) (actions : List Action) :
    ∀ path future, .future path future ∈ (machine advanced).outputs actions →
      (((machine advanced).state actions).states path).closing = some future := by
  refine (machine advanced).invariant (fun _ w outputs ↦ ∀ path future,
    .future path future ∈ outputs → (w.states path).closing = some future) (by simp) ?_ actions
  intro _ w outputs action hbefore path future hmem
  rcases List.mem_append.mp hmem with hmem | hmem
  · exact (step_moves w action).memo (hbefore path future hmem)
  · exact step_future hmem

theorem path_of_find {path : Path} (hfind : w.find path = some h) : h.path = path := by
  have hpath := List.find?_some hfind
  exact beq_iff_eq.mp hpath

theorem Bound.unique {result result' : Completion} (hbound : Bound t result w)
    (hresult : w.result t = some result') : result' = result := by
  have hstays := result_step hresult (.resume t)
  rw [World.step, hbound.resume] at hstays
  exact (Option.some.inj hstays).symm

/-- The handle is closed with all that is below it. -/
theorem step_dispose {path descendant : Path} (hfind : w.find path = some h)
    (hw : Memoised w) (hbelow : path <:+ descendant) :
    closed (w.step (.invoke path .dispose)).1.states descendant = true := by
  have hpath := path_of_find hfind
  have hstep : (w.step (.invoke path .dispose)).1 = (w.close h).1 := by
    simp only [World.step, hfind, Operation.offeredBy, if_true, World.invoke]
  have hmemo := (close_moves w h).memoised hw
  rw [hstep]
  apply closed_of_suffix hbelow
  rw [← hpath]
  apply closed_of_closed
  · rw [hmemo.closing, close_memo]
    rfl
  · exact List.cons_ne_nil _ _

def Answered (advanced : Bool) (actions : List Action) (operation : Operation) : Output → Prop
  | .task t => ∀ more, let u := (machine advanced).state (actions ++ more)
    (∀ result, u.result t = some result → result = operation.refusal) ∧
      (u.resume t).result t = some operation.refusal
  | .future .. => operation = .dispose
  | .stream _ source => source = .error disposed

theorem answered {advanced : Bool} {actions : List Action} {path : Path} {operation : Operation}
    (hfind : ((machine advanced).state actions).find path = some h)
    (hoffered : operation.offeredBy h.kind = true)
    (hclosed : closed ((machine advanced).state actions).states path = true) :
    ((machine advanced).state (actions ++ [.invoke path operation])).log =
        ((machine advanced).state actions).log ∧
      ∃ output, (((machine advanced).state actions).step (.invoke path operation)).2 = [output] ∧
        Answered advanced (actions ++ [.invoke path operation]) operation output := by
  have hstate := (machine advanced).state_concat actions (.invoke path operation)
  have hstep : ((machine advanced).state actions).step (.invoke path operation) =
      ((((machine advanced).state actions).invoke h operation).1,
        [(((machine advanced).state actions).invoke h operation).2]) := by
    simp only [World.step, hfind, hoffered, if_true]
  have hstate' : (machine advanced).state (actions ++ [.invoke path operation]) =
      (((machine advanced).state actions).invoke h operation).1 :=
    hstate.trans (congrArg Prod.fst hstep)
  rw [← path_of_find hfind] at hclosed
  obtain ⟨hlog, hrefuses⟩ :=
    invoke_closed (machine_tidy advanced actions).toMemoised hclosed operation
  rw [← hstate'] at hlog hrefuses
  refine ⟨hlog, _, congrArg Prod.snd hstep, ?_⟩
  cases houtput : (((machine advanced).state actions).invoke h operation).2 with
  | task t =>
    rw [houtput] at hrefuses
    intro more u
    have hbound : Bound t operation.refusal u :=
      (machine advanced).stable (Bound t operation.refusal) (fun _ action hb ↦ hb.step action)
        hrefuses more
    exact ⟨fun result ↦ hbound.unique, hbound.resume⟩
  | future path' future =>
    rw [houtput] at hrefuses
    exact hrefuses
  | stream path' source =>
    rw [houtput] at hrefuses
    exact hrefuses

/-- A creation below a closed handle gives no handle that is open: what was in
flight completes with the failure, and what had completed is closed too. -/
theorem creation_closed {advanced : Bool} {actions : List Action} {task : Task} {r : Request}
    {kind : Kind} (htask : ((machine advanced).state actions).tasks[t]? = some task)
    (hoperation : task.operation = .request r) (hcreates : r.creates = some kind)
    (hclosed : closed ((machine advanced).state actions).states task.path = true) :
    (((machine advanced).state actions).result t = none → ∀ more result,
      ((machine advanced).state (actions ++ more)).result t = some result →
        result = .failed disposed ∨ result = .threw) ∧
    ∀ path, ((machine advanced).state actions).result t = some (.handle path) →
      closed ((machine advanced).state actions).states path = true := by
  have hparental := (machine_tidy advanced actions).parental task (List.mem_of_getElem? htask)
    r kind hoperation hcreates
  constructor
  · intro hnone more result hresult
    have hcreating : ∃ call kind, task.status = .creating call kind := by
      rcases hparental with hcreating | ⟨result', hfinished, -⟩
      · exact hcreating
      · rw [result_eq.mpr ⟨task, htask, hfinished⟩] at hnone
        cases hnone
    have hlost : Lost t ((machine advanced).state (actions ++ more)) :=
      (machine advanced).stable (Lost t) (fun _ action hl ↦ hl.step action)
        ⟨task, htask, hclosed, .inl hcreating⟩ more
    obtain ⟨task', htask', -, hstatus⟩ := hlost
    obtain ⟨task'', htask'', hfinished⟩ := result_eq.mp hresult
    obtain rfl := Option.some.inj (htask'.symm.trans htask'')
    rcases hstatus with ⟨call, kind, hcreating'⟩ | hdisposed | hthrew
    · rw [hfinished] at hcreating'
      cases hcreating'
    · rw [hfinished] at hdisposed
      exact .inl (Status.finished.inj hdisposed)
    · rw [hfinished] at hthrew
      exact .inr (Status.finished.inj hthrew)
  · intro path hresult
    obtain ⟨task', htask', hfinished⟩ := result_eq.mp hresult
    obtain rfl := Option.some.inj (htask.symm.trans htask')
    rcases hparental with ⟨call, kind, hcreating⟩ | ⟨result, hstatus, hchild⟩
    · rw [hfinished] at hcreating
      cases hcreating
    · rw [hfinished] at hstatus
      apply closed_tail
      rw [hchild path (Status.finished.inj hstatus).symm]
      exact hclosed

example :
    ((machine true).state [.create, .invoke [0] (.request (.loadEngine ⟨"m", "cpu", none, none,
    none, none, none, none, none, none, none, true⟩)), .invoke [0] .dispose,
    .reply 0 (.created (.ok 7)), .resume 0]).result 0 = some (.failed disposed) := rfl

/-- The tree of handles in every run: closing is for good, at once and for all
below; a handle is disposed of once, never below a closed one, and with one future
for all who ask; nothing is called for a closed handle, and its methods say so; a
handle that was still to be made below it is not. -/
theorem handle_tree (advanced : Bool) (actions : List Action) :
    let M := machine advanced
    let w := M.state actions
    (∀ more path, closed w.states path = true →
      closed (M.state (actions ++ more)).states path = true) ∧
    (∀ path descendant, path <:+ descendant → closed w.states path = true →
      closed w.states descendant = true) ∧
    (∀ path h descendant, w.find path = some h → path <:+ descendant →
      closed (w.step (.invoke path .dispose)).1.states descendant = true) ∧
    (∀ path, w.log.countP (disposesOf path) ≤ 1) ∧
    (∀ more path, closed w.states path = true →
      (M.state (actions ++ more)).log.filter (madeFor path) = w.log.filter (madeFor path)) ∧
    (∀ path future future', .future path future ∈ M.outputs actions →
      .future path future' ∈ M.outputs actions → future = future') ∧
    (∀ path h operation, w.find path = some h → operation.offeredBy h.kind = true →
      closed w.states path = true →
        (M.state (actions ++ [.invoke path operation])).log = w.log ∧
          ∃ output, (w.step (.invoke path operation)).2 = [output] ∧
            Answered advanced (actions ++ [.invoke path operation]) operation output) ∧
    (∀ (t : ℕ) task r kind, w.tasks[t]? = some task → task.operation = .request r →
      r.creates = some kind → closed w.states task.path = true →
        (w.result t = none → ∀ more result,
          (M.state (actions ++ more)).result t = some result →
            result = .failed disposed ∨ result = .threw) ∧
        ∀ path, w.result t = some (.handle path) → closed w.states path = true) := by
  intro M w
  have hw : Tidy w := machine_tidy advanced actions
  refine ⟨fun more path hclosed ↦ ?_, fun path descendant ↦ closed_of_suffix,
    fun path h descendant hfind ↦ step_dispose hfind hw.toMemoised, fun path ↦ ?_,
    fun more path hclosed ↦ ?_, fun path future future' hfuture hfuture' ↦ ?_,
    fun path h operation ↦ answered, fun t task r kind ↦ creation_closed⟩
  · exact M.stable (fun u ↦ closed u.states path = true)
      (fun u action hu ↦ (step_moves u action).stays_closed hu) hclosed more
  · refine (hw.once path).trans ?_
    split_ifs <;> omega
  · have hsilent : Memoised (M.state (actions ++ more)) ∧
        closed (M.state (actions ++ more)).states path = true ∧
        (M.state (actions ++ more)).log.filter (madeFor path) = w.log.filter (madeFor path) := by
      refine M.stable (fun u ↦ Memoised u ∧ closed u.states path = true ∧
        u.log.filter (madeFor path) = w.log.filter (madeFor path)) ?_
        ⟨hw.toMemoised, hclosed, rfl⟩ more
      intro u action ⟨hu, hopen, hlog⟩
      have hmoves := step_moves u action
      exact ⟨hmoves.memoised hu, hmoves.stays_closed hopen, (hmoves.silent hu hopen).trans hlog⟩
    exact hsilent.2.2
  · have hmemo := machine_futures advanced actions path future hfuture
    rw [machine_futures advanced actions path future' hfuture'] at hmemo
    exact (Option.some.inj hmemo).symm

end Runs

end LibLitertLm.Handles
