import LibLitertLm.Backend.Closing
import LibLitertLm.Worker.Grants

namespace LibLitertLm.Backend

open Worker (NativeWorker Outgoing)

inductive Counter
  | engines
  | sessions

def Counter.next : Counter → Worker.State → ℕ
  | .engines, s => s.nextEngine
  | .sessions, s => s.nextSession

def Request.counter : Request → Option Counter
  | .loadEngine _ => some .engines
  | .createSession .. => some .sessions
  | _ => none

theorem Request.grants_counter {r : Request} {k : Counter} (hr : r.counter = some k) {a : Answers}
    {before s : Worker.State} {n : ℕ} (h : (r.command a).Grants before (.id n) s) :
    n = k.next before ∧ k.next s = n + 1 := by
  cases r with
  | loadEngine config =>
    obtain rfl := Option.some.inj hr
    obtain ⟨hn, engine, -, hnext, -⟩ := h
    obtain rfl := Worker.Value.id.inj hn
    exact ⟨rfl, hnext⟩
  | createSession engineId params messages conversation =>
    obtain rfl := Option.some.inj hr
    obtain ⟨hn, -, hnext, -⟩ := h
    obtain rfl := Worker.Value.id.inj hn
    exact ⟨rfl, hnext⟩
  | _ => cases hr

def World.Gives (w : World NativeWorker) (k : Counter) (id n : ℕ) : Prop :=
  ∃ r, .request id r ∈ w.seen ∧ r.counter = some k ∧ ∃ s,
    (.reply (some id) (.ok (.id n)), s) ∈ w.worker.sent

namespace Isolate

variable {s t : Isolate} {id : ℕ} {v : Worker.Value}

theorem Change.value (h : Change s t) (hv : .ok v ∈ t.results id) : .ok v ∈ s.results id := by
  cases h with
  | quiet haccount => rwa [field_eq account Isolate.results (fun _ ↦ rfl) haccount] at hv
  | listened _ _ haccount => rwa [field_eq account Isolate.results (fun _ ↦ rfl) haccount] at hv
  | @failed t failure results _ hresults haccount =>
    rw [field_eq account Isolate.results (fun _ ↦ rfl) haccount] at hv
    have hv : .ok v ∈ results id := hv
    rw [hresults] at hv
    split_ifs at hv
    · simpa using hv
    · exact hv
  | _ => exact hv

end Isolate

/-- The worker took the message in one of the turns, its reply went out in that
turn, and the value says what the worker did in it. -/
def Posted.Earns (rt : Worker.Runtime) (turns : List (Turn Answers Work)) (m : Posted) (id : ℕ)
    (v : Worker.Value) (s : Worker.State) : Prop :=
  ∃ before a after u, turns = before ++ .take a :: after ∧
    (nativeParty rt).system.run before = some u ∧ u.isolate.posted[u.taken]? = some m ∧
    (.reply (some id) (.ok v), s) ∈ (Worker.step rt u.worker (m.action a)).sent ∧
    s = (Worker.step rt u.worker (m.action a)).state ∧ (m.command a).2.Grants u.worker.state v s

theorem Posted.Earns.append {rt : Worker.Runtime} {turns : List (Turn Answers Work)} {m : Posted}
    {id : ℕ} {v : Worker.Value} {s : Worker.State} (h : m.Earns rt turns id v s)
    (more : List (Turn Answers Work)) : m.Earns rt (turns ++ more) id v s := by
  obtain ⟨before, a, after, u, rfl, hearned⟩ := h
  exact ⟨before, a, after ++ more, u, by simp, hearned⟩

/-- What the worker has answered is true, the main isolate has its values from
there, and no number was given out twice. -/
structure Granted (Earns : Posted → ℕ → Worker.Value → Worker.State → Prop)
    (w : World NativeWorker) : Prop where
  heard : ∀ id v, .ok v ∈ w.isolate.results id → .reply (some id) (.ok v) ∈ w.worker.messages
  honest : ∀ id v s, (.reply (some id) (.ok v), s) ∈ w.worker.sent →
    ∃ m ∈ w.seen, m.asks = some id ∧ Earns m id v s
  fresh : ∀ k id n, w.Gives k id n → n < k.next w.worker.state
  unique : ∀ k id id' n, w.Gives k id n → w.Gives k id' n → id = id'

namespace Granted

variable {rt : Worker.Runtime} {U : ℕ → Prop} {owed : List Due} {w w' : World NativeWorker}
  {t : NativeWorker} {m : Posted} {Earns Earns' : Posted → ℕ → Worker.Value → Worker.State → Prop}

theorem init : Granted Earns (nativeParty rt).system.init := by
  refine ⟨fun id v h ↦ ?_, fun id v s h ↦ ?_, fun k id n h ↦ ?_, fun k id id' n h ↦ ?_⟩
  · cases h
  · cases h
  · obtain ⟨r, -, -, s, hs⟩ := h
    cases hs
  · obtain ⟨r, -, -, s, hs⟩ := h
    cases hs

theorem quiet (h : Granted Earns w) (hmute : Worker.Mute w.worker t)
    (hnumbered : Worker.Numbered w.worker.state t.state)
    {w' : World NativeWorker} (hworker : w'.worker = t) (hseen : w'.seen = w.seen)
    (hheard : ∀ id v, .ok v ∈ w'.isolate.results id → .ok v ∈ w.isolate.results id ∨
      .reply (some id) (.ok v) ∈ w.worker.messages) : Granted Earns w' := by
  obtain ⟨more, hmore, hnone⟩ := hmute
  have hsent {id : ℕ} {result : Except Failure Worker.Value} {s : Worker.State}
      (hmem : (.reply (some id) result, s) ∈ w'.worker.sent) :
        (.reply (some id) result, s) ∈ w.worker.sent := by
    rw [hworker, hmore] at hmem
    refine (List.mem_append.mp hmem).resolve_right fun hmem ↦ ?_
    cases hnone _ hmem
  have hgives {k : Counter} {id n : ℕ} (hn : w'.Gives k id n) : w.Gives k id n := by
    obtain ⟨r, hr, hk, s, hs⟩ := hn
    exact ⟨r, hseen ▸ hr, hk, s, hsent hs⟩
  have hnext (k : Counter) : k.next w.worker.state ≤ k.next w'.worker.state := by
    rw [hworker]
    cases k with
    | engines => exact hnumbered.engines
    | sessions => exact hnumbered.sessions
  refine ⟨fun id v hv ↦ ?_, fun id v s hs ↦ ?_, fun k id n hn ↦ ?_, fun k id id' n hn hn' ↦ ?_⟩
  · have hmem : .reply (some id) (.ok v) ∈ w.worker.messages :=
      (hheard id v hv).elim (h.heard id v) fun h ↦ h
    obtain ⟨sent, hsent, hfirst⟩ := List.mem_map.mp hmem
    refine List.mem_map.mpr ⟨sent, ?_, hfirst⟩
    rw [hworker, hmore]
    exact List.mem_append_left _ hsent
  · obtain ⟨m, hm, hasks⟩ := h.honest id v s (hsent hs)
    exact ⟨m, hseen ▸ hm, hasks⟩
  · exact (h.fresh k id n (hgives hn)).trans_le (hnext k)
  · exact h.unique k id id' n (hgives hn) (hgives hn')

/-- A message was answered before it is taken only if it was taken before. -/
theorem gives_old (h : Granted Earns w) (hw : Serving U owed w)
    (hm : w.isolate.posted[w.taken]? = some m)
    {r : Request} {id : ℕ} {v : Worker.Value} {s : Worker.State}
    (hr : .request id r ∈ w.seen ++ [m])
    (hs : (.reply (some id) (.ok v), s) ∈ w.worker.sent) : .request id r ∈ w.seen := by
  rcases List.mem_append.mp hr with hr | hr
  · exact hr
  · obtain ⟨m', hm', hasks, -⟩ := h.honest id v s hs
    have hposted : .request id r ∈ w.isolate.posted :=
      List.mem_singleton.mp hr ▸ List.mem_of_getElem? hm
    rwa [hw.joined.fit.ledger.unique hposted (List.mem_of_mem_take hm') rfl hasks]

theorem take (h : Granted Earns w) (hw : Serving U owed w)
    (hm : w.isolate.posted[w.taken]? = some m)
    (hd : w.worker.state.deaf = false) (a : Answers)
    (hearns : ∀ id v s,
      (.reply (some id) (.ok v), s) ∈ (Worker.step rt w.worker (m.action a)).sent →
      s = (Worker.step rt w.worker (m.action a)).state →
        (m.command a).2.Grants w.worker.state v s → Earns m id v s) :
    Granted Earns
      { w with worker := Worker.step rt w.worker (m.action a), taken := w.taken + 1 } := by
  have hanswered : Worker.Answered ((m.command a).2.Grants w.worker.state) (m.command a).1 w.worker
      (Worker.step rt w.worker (m.action a)) :=
    Worker.step_answered hw.joined.sound.consistent hd (m.command_replies a)
      (Worker.post_serve_grants hw.joined.sound _)
  have hnumbered :=
    Worker.Numbered.turn (@Worker.step_turn rt _ hw.joined.sound.consistent (m.action a))
  rw [m.command_fst] at hanswered
  set t := Worker.step rt w.worker (m.action a) with ht
  have hseen : { w with worker := t, taken := w.taken + 1 }.seen = w.seen ++ [m] :=
    World.seen_take hm
  obtain ⟨v, last, ⟨more, hmore, hmute⟩, hlast, hanswers, hgrants⟩ := hanswered
  -- an answer was there before, or it is the one that is sent last
  have hsent {id : ℕ} {result : Except Failure Worker.Value} {s : Worker.State}
      (hmem : (.reply (some id) result, s) ∈ t.sent) :
      (.reply (some id) result, s) ∈ w.worker.sent ∨
        last = some (.reply (some id) result) ∧ s = t.state ∧ m.asks = some id := by
    rw [hlast, hmore, List.mem_append, List.mem_append] at hmem
    rcases hmem with (hmem | hmem) | hmem
    · exact .inl hmem
    · cases hmute _ hmem
    · obtain ⟨m', hm', heq⟩ := List.mem_map.mp hmem
      obtain ⟨rfl, rfl⟩ := Prod.mk.inj heq
      have hsome := Option.mem_toList.mp hm'
      rw [show last = some _ from hsome] at hanswers
      exact .inr ⟨hsome, rfl, hanswers.symm⟩
  have hgives {k : Counter} {id n : ℕ}
      (hn : { w with worker := t, taken := w.taken + 1 }.Gives k id n) :
      w.Gives k id n ∨ m.asks = some id ∧ n = k.next w.worker.state ∧ k.next t.state = n + 1 := by
    obtain ⟨r, hr, hk, s, hs⟩ := hn
    rw [hseen] at hr
    rcases hsent hs with hs | ⟨hsome, -, hasks⟩
    · exact .inl ⟨r, h.gives_old hw hm hr hs, hk, s, hs⟩
    · have hposted : .request id r ∈ w.isolate.posted := List.mem_of_mem_take (hseen.symm ▸ hr)
      obtain rfl := hw.joined.fit.ledger.unique hposted (List.mem_of_getElem? hm) rfl hasks
      exact .inr ⟨rfl, Request.grants_counter hk (hgrants _ _ hsome)⟩
  have hnext (k : Counter) : k.next w.worker.state ≤ k.next t.state := by
    cases k with
    | engines => exact hnumbered.engines
    | sessions => exact hnumbered.sessions
  refine ⟨fun id v hv ↦ ?_, fun id v s hs ↦ ?_, fun k id n hn ↦ ?_, fun k id id' n hn hn' ↦ ?_⟩
  · obtain ⟨sent, hmem, hfirst⟩ := List.mem_map.mp (h.heard id v hv)
    refine List.mem_map.mpr ⟨sent, ?_, hfirst⟩
    show sent ∈ t.sent
    rw [hlast, hmore]
    exact List.mem_append_left _ (List.mem_append_left _ hmem)
  · rw [hseen]
    rcases hsent hs with hold | ⟨hsome, rfl, hasks⟩
    · obtain ⟨m', hm', hasks⟩ := h.honest id v s hold
      exact ⟨m', List.mem_append_left _ hm', hasks⟩
    · exact ⟨m, by simp, hasks, hearns id v _ hs rfl (hgrants _ _ hsome)⟩
  · rcases hgives hn with hn | ⟨-, -, hlater⟩
    · exact (h.fresh k id n hn).trans_le (hnext k)
    · show n < k.next t.state
      omega
  · rcases hgives hn with hn | ⟨hasks, rfl, -⟩
    · rcases hgives hn' with hn' | ⟨-, hn', -⟩
      · exact h.unique k id id' n hn hn'
      · have hbelow := h.fresh k id n hn
        omega
    · rcases hgives hn' with hn' | ⟨hasks', -, -⟩
      · have hbelow := h.fresh k id' _ hn'
        omega
      · exact Option.some.inj (hasks.symm.trans hasks')

/-- A deaf worker takes a message and leaves it without an answer. -/
theorem overlook (h : Granted Earns w) (hw : Serving U owed w)
    (hm : w.isolate.posted[w.taken]? = some m) :
    Granted Earns { w with taken := w.taken + 1 } := by
  have hseen : { w with taken := w.taken + 1 }.seen = w.seen ++ [m] :=
    World.seen_take (t := w.worker) hm
  have hgives {k : Counter} {id n : ℕ} (hn : { w with taken := w.taken + 1 }.Gives k id n) :
    w.Gives k id n := by
    obtain ⟨r, hr, hk, s, hs⟩ := hn
    rw [hseen] at hr
    exact ⟨r, h.gives_old hw hm hr hs, hk, s, hs⟩
  refine ⟨h.heard, fun id v s hs ↦ ?_, fun k id n hn ↦ ?_, fun k id id' n hn hn' ↦ ?_⟩
  · obtain ⟨m', hm', hasks⟩ := h.honest id v s hs
    exact ⟨m', hseen ▸ List.mem_append_left _ hm', hasks⟩
  · exact h.fresh k id n (hgives hn)
  · exact h.unique k id id' n (hgives hn) (hgives hn')

theorem step {turn : Turn Answers Work} (h : Granted Earns w) (hw : Serving U owed w)
    (hearns : ∀ a m id v s, turn = .take a → w.isolate.posted[w.taken]? = some m →
      (.reply (some id) (.ok v), s) ∈ (Worker.step rt w.worker (m.action a)).sent →
        s = (Worker.step rt w.worker (m.action a)).state →
          (m.command a).2.Grants w.worker.state v s → Earns m id v s)
    (ht : Party.Step (nativeParty rt) w turn w') : Granted Earns w' := by
  have hrefl := Worker.Mute.refl w.worker
  have hsame : Worker.Numbered w.worker.state w.worker.state := .of_eq rfl rfl
  have hfit := hw.joined.fit
  cases ht with
  | @main a s hother hs =>
    have hchange := hfit.sound.change hfit.ledger.nodup hother hs
    exact h.quiet hrefl hsame rfl (hw.joined.seen_eq hchange.grows.posted w.read) fun id v hv ↦
      .inl (hchange.value hv)
  | @deliver m hm hframe hports =>
    obtain ⟨more, hmore, -⟩ := (hfit.sound.received hframe m).posted
    refine h.quiet hrefl hsame rfl (hw.joined.seen_eq ⟨more, hmore.symm⟩ _) fun id v hv ↦ ?_
    refine (hfit.sound.results_receive hframe m id _ hv).imp_right fun hreply ↦ ?_
    exact hreply ▸ List.mem_of_getElem? hm
  | @take how m hm =>
    cases hd : w.worker.state.deaf with
    | false => exact h.take hw hm hd how fun id v s ↦ hearns how m id v s rfl hm
    | true =>
      have hdeaf : (nativeParty rt).take w.worker how m = w.worker := Worker.listen_deaf hd _ _
      rw [hdeaf]
      exact h.overlook hw hm
  | act work =>
    have hturn := @Worker.step_turn rt _ hw.joined.sound.consistent work.action
    exact h.quiet (Worker.Mute.turn hw.joined.sound.consistent (by simp [work.said_action]))
      (.turn hturn) rfl rfl
      fun id v hv ↦ .inl hv

theorem mono (h : Granted Earns w) (hearns : ∀ m id v s, Earns m id v s → Earns' m id v s) :
    Granted Earns' w := by
  refine ⟨h.heard, fun id v s hs ↦ ?_, h.fresh, h.unique⟩
  obtain ⟨m, hm, hasks, hearned⟩ := h.honest id v s hs
  exact ⟨m, hm, hasks, hearns m id v s hearned⟩

end Granted

namespace Scenario

open Worker.Scenario (runtime)

def granted : List (Turn Answers Work) := asked ++ [.deliver, .deliver]

def opening : Posted → Option ℕ
  | .request id (.createSession ..) => some id
  | _ => none

def handle : Except Failure Worker.Value → Option ℕ
  | .ok (.id n) => some n
  | _ => none

end Scenario

end LibLitertLm.Backend
