import LibLitertLm.Worker.Turns

namespace LibLitertLm.Worker

open Code

variable {rt : Runtime} {harmless : Prop} {w t : NativeWorker}

theorem Move.flags (h : Move rt harmless w t) : t.state.flags = w.state.flags := by
  cases h with
  | quiet h => exact h.flags
  | rebuild _ _ _ hs => exact hs.spec.2.1
  | release _ hs => exact hs.flags
  | complete _ hs => exact hs.flags
  | _ => rfl

theorem Moves.flags (h : Moves rt harmless w t) : t.state.flags = w.state.flags := by
  induction h with
  | refl => rfl
  | tail _ hmove ih => exact hmove.flags.trans ih

theorem State.deaf_of_flags {s s' : State} (h : s'.flags = s.flags) : s'.deaf = s.deaf := by
  simp only [State.flags, Prod.mk.injEq] at h
  rw [State.deaf, State.deaf, h.1, h.2]

theorem Generated.flags {stream r : ℕ} (h : Generated rt harmless stream r w t) :
    t.state.flags = w.state.flags := by
  cases h with
  | launch _ _ _ _ hs => exact hs.spec.2.1
  | _ => rfl

theorem Served.flags {stream r : ℕ} (h : Served rt harmless w stream r t) :
    t.state.flags = w.state.flags := by
  obtain ⟨u, v, hu, -, -, hgenerated, hv⟩ := h
  exact hv.2.flags.trans (hgenerated.flags.trans hu.flags)

theorem Turn.consistent {a : Action} (h : Turn rt harmless w a t) (hw : Consistent w.state) :
    Consistent t.state := by
  cases h with
  | deaf => exact hw
  | plain _ _ h => exact h.consistent rt hw
  | generate _ h =>
    obtain ⟨u, v, -, -, -, -, hv⟩ := h
    exact hv.1
  | crash _ _ h => exact h.consistent rt { hw with }
  | refuse _ _ h => exact h.consistent rt hw
  | close _ h => exact { h.consistent rt hw with }
  | tick h => exact h.consistent rt hw
  | callback c => exact hw.unseen (.callback hw c)

/-- A worker that no longer listens has nothing left. -/
def Stopped (s : State) : Prop := s.deaf = true → Empty s

theorem Turn.stopped {a : Action} (h : Turn rt harmless w a t) (hw : Stopped w.state) :
    Stopped t.state := by
  have hlistens (hd : w.state.deaf = false) (hflags : t.state.flags = w.state.flags) :
      Stopped t.state := by
    intro hdeaf
    rw [State.deaf_of_flags hflags, hd] at hdeaf
    cases hdeaf
  cases h with
  | deaf => exact hw
  | plain hd _ h => exact hlistens hd h.flags
  | generate hd h => exact hlistens hd h.flags
  | crash _ _ _ ht => exact fun _ ↦ ht
  | refuse hd _ h => exact hlistens hd h.flags
  | close _ _ ht => exact fun _ ↦ ⟨ht.engines, ht.sessions, ht.operations, ht.timer⟩
  | tick h hidle =>
    intro hdeaf
    have hempty := hw ((State.deaf_of_flags h.flags).symm.trans hdeaf)
    rwa [hidle hempty.timer]
  | callback c => exact fun hdeaf ↦
      ⟨(hw hdeaf).engines, (hw hdeaf).sessions, (hw hdeaf).operations, (hw hdeaf).timer⟩

theorem consistent_init : Consistent {} := by
  constructor <;> simp [State.pointers]

theorem run_concat (actions : List Action) (a : Action) :
    run rt (actions ++ [a]) = step rt (run rt actions) a := by
  simp [run]

theorem run_invariant {I : List Action → NativeWorker → Prop} (hinit : I [] {})
    (hstep : ∀ actions a, Consistent (run rt actions).state → I actions (run rt actions) →
      I (actions ++ [a]) (step rt (run rt actions) a)) (actions : List Action) :
    Consistent (run rt actions).state ∧ I actions (run rt actions) := by
  induction actions using List.reverseRecOn with
  | nil => exact ⟨consistent_init, hinit⟩
  | append_singleton actions a ih =>
    rw [run_concat]
    exact ⟨(step_turn ih.1 a).consistent ih.1, hstep actions a ih.1 ih.2⟩

theorem run_consistent (actions : List Action) : Consistent (run rt actions).state :=
  (run_invariant (I := fun _ _ ↦ True) trivial (fun _ _ _ _ ↦ trivial) actions).1

theorem run_stopped (actions : List Action) : Stopped (run rt actions).state := by
  refine (run_invariant (I := fun _ w ↦ Stopped w.state) ?_ (fun actions a hw h ↦ ?_) actions).2
  · intro hdeaf
    cases hdeaf
  · exact (step_turn hw a).stopped h

/-- The Dart object that will delete the native object. -/
def Accounted (s : State) (p : ℕ) : Resource → Prop
  | .engine => ∃ id e, (id, e) ∈ s.engines ∧ e.pointer = p
  | .conversation owner _ =>
    (∃ r ∈ s.sessions, (s.session r).chat = some p) ∧ s.native.live owner = some .engine
  | .session owner =>
    (∃ r ∈ s.sessions, (s.session r).raw = some p) ∧ s.native.live owner = some .engine
  | .inputData => True
  | _ => False

theorem Consistent.accounted {s : State} (hs : Consistent s) {p : ℕ} {res : Resource}
    (hp : s.native.live p = some res) : Accounted s p res := by
  have howned := hs.owned p res hp
  have hheld (h : ∃ r ∈ s.sessions, (s.session r).handle = some p) :
      ∃ r ∈ s.sessions, ∃ q, (s.session r).handle = some p ∧ s.native.live q = some .engine ∧
        (s.session r).owns q res := by
    obtain ⟨r, hr, hh⟩ := h
    obtain ⟨q, hq, hown⟩ := hs.sessionEngine r hr
    obtain ⟨res', hres', hown⟩ := hown p hh
    obtain rfl := Option.some.inj (hp.symm.trans hres')
    exact ⟨r, hr, q, hh, hs.engineLive _ _ hq, hown⟩
  cases res with
  | engine =>
    obtain ⟨id, hid⟩ := howned
    obtain ⟨⟨id', e⟩, he, hsame⟩ := List.mem_map.mp hid
    exact ⟨id', e, he, congrArg Prod.snd hsame⟩
  | conversation owner c =>
    obtain ⟨r, hr, q, hh, hq, hc, rfl⟩ := hheld howned
    refine ⟨⟨r, hr, ?_⟩, hq⟩
    rwa [NativeSession.handle, hc] at hh
  | session owner =>
    obtain ⟨r, hr, q, hh, hq, hc, rfl⟩ := hheld howned
    refine ⟨⟨r, hr, ?_⟩, hq⟩
    rwa [NativeSession.handle, hc] at hh
  | inputData => trivial
  | _ => exact howned

theorem Consistent.inputs {s : State} (hs : Consistent s) (he : Empty s) {p : ℕ} {res : Resource}
    (hp : s.native.live p = some res) : res = .inputData := by
  have haccount := hs.accounted hp
  cases res <;> simp_all [Accounted, he.engines, he.sessions]

theorem Turn.answers_close {request : ℕ}
    (h : Turn rt harmless w (.command (some request) .close) t) (hd : w.state.deaf = false) :
    ∃ sent, t.state.deaf = true ∧
      t.sent = sent ++ [(.reply (some request) (.ok .nothing), t.state)] := by
  cases h with
  | deaf h => simp [hd] at h
  | plain _ hplain => cases hplain
  | @close _ t _ h ht => exact ⟨t.sent, by simp [State.deaf], rfl⟩

/-- No native call ever gets a wrong pointer; every native object that is alive
belongs to an engine or a session, also after a budget, and its engine is alive;
once `close` is answered nothing is left but inputs. -/
theorem resource_safety (rt : Runtime) (actions : List Action) :
    let w := run rt actions
    w.state.native.misuse = false ∧
    (∀ p res, w.state.native.live p = some res → Accounted w.state p res) ∧
    (∀ r ∈ w.state.sessions, (w.state.session r).streamId = none → ∀ messages reserve a,
      Post (budget rt r messages reserve a) w fun _ t ↦ t.state.native.misuse = false ∧
        ∀ p res, t.state.native.live p = some res → Accounted t.state p res) ∧
    (∀ stream ∈ w.state.operations, (w.state.op stream).session ∈ w.state.sessions ∧
      (w.state.session (w.state.op stream).session).handle ≠ none) ∧
    (w.state.deaf = true → w.state.engines = [] ∧ w.state.sessions = [] ∧
      w.state.operations = [] ∧ ∀ p res, w.state.native.live p = some res → res = .inputData) ∧
    (w.state.deaf = false → ∀ request, ∃ sent,
      let t := run rt (actions ++ [.command (some request) .close])
      t.state.deaf = true ∧
        t.sent = sent ++ [(.reply (some request) (.ok .nothing), t.state)]) := by
  have hw : Consistent (run rt actions).state := run_consistent actions
  refine ⟨hw.misuse, fun p res hp ↦ hw.accounted hp, fun r hr hidle messages reserve a ↦ ?_,
    fun stream hstream ↦ ?_, fun hdeaf ↦ ?_, fun hd request ↦ ?_⟩
  · obtain ⟨q, hq, -⟩ := hw.sessionEngine r hr
    have hready : Ready rt True (run rt actions) r q (run rt actions) :=
      ⟨.refl hw, hr, hidle, hq⟩
    refine (hready.budget messages reserve a).mono fun _ t ht ↦ ?_
    exact ⟨ht.1.1.1.misuse, fun p res hp ↦ ht.1.1.1.accounted hp⟩
  · obtain ⟨hr, -, hh⟩ := hw.opSession stream hstream
    exact ⟨hr, hh⟩
  · have hempty := run_stopped actions hdeaf
    exact ⟨hempty.engines, hempty.sessions, hempty.operations, fun p res hp ↦ hw.inputs hempty hp⟩
  · rw [run_concat]
    exact (step_turn hw (.command (some request) .close)).answers_close hd

end LibLitertLm.Worker
