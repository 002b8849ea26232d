import LibLitertLm.Worker.Inside

namespace LibLitertLm.Worker

open Code

structure OpEntry where
  session : ℕ
  cancelRequested : Bool

def Op.entry (o : Op) : OpEntry := ⟨o.session, o.cancelRequested⟩

/-- The tables of the worker without what it keeps for a generation: which
engines, sessions and operations there are, and how they refer to each other. -/
@[ext] structure Tables where
  engines : List (ℕ × NativeEngine)
  sessions : List ℕ
  operations : List ℕ
  nextEngine : ℕ
  nextSession : ℕ
  timer : Bool
  nextId : ℕ
  session : ℕ → SessionEntry
  op : ℕ → OpEntry

/-- The temporary session of `_budget` is in no table. -/
def State.tables (s : State) : Tables where
  engines := s.engines
  sessions := s.sessions
  operations := s.operations
  nextEngine := s.nextEngine
  nextSession := s.nextSession
  timer := s.timer
  nextId := s.native.nextId
  session r := if r = 0 then ⟨0, .ready, none⟩ else (s.session r).entry
  op stream := (s.op stream).entry

theorem State.tables_session (s : State) {r : ℕ} (hr : r ≠ 0) :
    s.tables.session r = (s.session r).entry :=
  if_neg hr

def Aside (m : M α) : Prop := ∀ T, Keeps (fun w ↦ w.state.tables = T) m

variable {m : M α} {f : α → M β}

theorem Aside.bind (hm : Aside m) (hf : ∀ a, Aside (f a)) : Aside (m >>= f) :=
  fun T ↦ (hm T).bind fun a ↦ hf a T

theorem Aside.ite {p : Prop} [Decidable p] {n : M α} (hm : Aside m) (hn : Aside n) :
    Aside (if p then m else n) :=
  fun T ↦ .ite (fun _ ↦ hm T) fun _ ↦ hn T

theorem Aside.when {p : Prop} [Decidable p] {m : M Unit} (hm : Aside m) : Aside (when p m) :=
  fun T ↦ .when fun _ ↦ hm T

theorem Aside.onSome {o : Option α} {f : α → M Unit} (hf : ∀ a, Aside (f a)) :
    Aside (onSome o f) :=
  fun T ↦ .onSome fun a _ ↦ hf a T

theorem Still.aside (h : Still m) : Aside m := fun _ ↦ h _

theorem aside_pure (a : α) : Aside (pure a : M α) := fun _ ↦ .pure a

theorem aside_throw (e : Thrown) : Aside (throw e : M α) := fun _ ↦ .throw e

theorem aside_lift (r : Except Thrown α) : Aside (lift r : M α) := fun _ ↦ .lift r

theorem aside_read (g : State → α) : Aside (read g) := fun _ ↦ .map .get _

theorem aside_guard {p : Prop} [Decidable p] (e : Thrown) {f : Unit → M α} (hf : Aside (f ())) :
    Aside (if p then (throw e : M Unit) >>= f else f ()) :=
  fun T ↦ keeps_guard e fun _ ↦ hf T

theorem aside_update {g : State → State} (hg : ∀ s, (g s).tables = s.tables) : Aside (update g) :=
  fun _ w hw ↦ (hg w.state).trans hw

theorem aside_send (message : Outgoing) : Aside (send message) := fun _ _ hw ↦ hw

theorem NativeWorker.tables_setSession (w : NativeWorker) {r : ℕ} {x : NativeSession}
    (hx : x.entry = (w.state.session r).entry) :
      (w.setSession r x).state.tables = w.state.tables := by
  have hsession : (fun r' ↦ (Function.update w.state.session r x r').entry) =
      fun r' ↦ (w.state.session r').entry := by
    funext r'
    by_cases h : r' = r
    · subst h
      simp [hx]
    · simp [h]
  simp only [NativeWorker.setSession, State.tables, congrFun hsession]

theorem NativeWorker.tables_preview (w : NativeWorker) (x : NativeSession) :
    (w.setSession 0 x).state.tables = w.state.tables := by
  have hsession : (fun r ↦ if r = 0 then (⟨0, .ready, none⟩ : SessionEntry)
      else (Function.update w.state.session 0 x r).entry) =
        fun r ↦ if r = 0 then ⟨0, .ready, none⟩ else (w.state.session r).entry := by
    funext r
    split_ifs with h
    · rfl
    · rw [Function.update_of_ne h]
  simp only [NativeWorker.setSession, State.tables, congrFun hsession]

theorem aside_modifySession (r : ℕ) {g : NativeSession → NativeSession}
    (hg : ∀ x, (g x).entry = x.entry) : Aside (modifySession r g) :=
  fun _ w hw ↦ (w.tables_setSession (hg _)).trans hw

theorem aside_modifyOp (stream : ℕ) {g : Op → Op} (hg : ∀ o, (g o).entry = o.entry) :
    Aside (modifyOp stream g) := by
  refine aside_update fun s ↦ ?_
  have hop : (fun other ↦ (Function.update s.op stream (g (s.op stream)) other).entry) =
      fun other ↦ (s.op other).entry := by
    funext other
    by_cases h : other = stream
    · subst h
      simp [hg]
    · simp [h]
  simp only [State.tables, congrFun hop]

theorem aside_modifyNative {g : Native → Native}
    (hg : ∀ n, (g n).nextId = n.nextId) : Aside (modifyNative g) :=
  aside_update fun s ↦ by simp only [State.tables, hg]

theorem aside_deleteEngine (p : ℕ) : Aside (modifyNative (·.deleteEngine p)) :=
  aside_modifyNative fun _ ↦ rfl

section Natives

variable (pointer : Option ℕ) (kind : Resource → Bool)

theorem aside_use : Aside (use pointer kind) := aside_modifyNative fun _ ↦ rfl

theorem aside_set (setter : Setter) : Aside (set pointer kind setter) :=
  aside_modifyNative fun _ ↦ rfl

theorem aside_delete : Aside (delete pointer kind) := aside_modifyNative fun _ ↦ rfl

theorem aside_create (succeeds : Bool) (resource : Resource) :
    Aside (create succeeds resource) := by
  refine .ite (.bind (aside_read _) fun _ ↦ ?_) (aside_pure _)
  exact .bind (aside_modifyNative fun _ ↦ rfl) fun _ ↦ aside_pure _

theorem aside_utf8 (needed allocated : Bool) : Aside (utf8 needed allocated) :=
  (still_utf8 _ _).aside

theorem aside_checkPointer (action : String) (lastError : List UInt8) :
    Aside (checkPointer pointer action lastError) :=
  (still_checkPointer _ _ _).aside

end Natives

theorem Inside.aside {r : ℕ} (h : Inside (Within r) m) : Aside m := by
  refine fun T ↦ h _ ⟨fun w n hn _ hw ↦ ?_, fun w r' x hx hw ↦ ?_⟩
  · exact Eq.trans (by simp only [NativeWorker.setNative, State.tables, hn]) hw
  · obtain rfl | ⟨rfl, hentry⟩ := hx
    · exact (w.tables_preview x).trans hw
    · exact (w.tables_setSession hentry).trans hw

theorem Inside.aside₀ (h : Inside (Within 0) m) : Aside m := h.aside

theorem aside_event (stream : ℕ) (e : Event) : Aside (event stream e) :=
  .bind (aside_read _) fun _ ↦ .ite (aside_send _) (aside_pure _)

end LibLitertLm.Worker
