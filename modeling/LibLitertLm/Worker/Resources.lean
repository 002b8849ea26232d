import LibLitertLm.Worker.Listen

namespace LibLitertLm.Worker

open Code

/-- The native side after work that only made or deleted objects, and the
objects it left behind. -/
def Native.after (n : Native) (next : ℕ) (setters : List Setter) (live : ℕ → Option Resource) :
    Native :=
  { n with next := next, setters := setters, live := live }

def NativeWorker.after (w : NativeWorker) (next : ℕ) (setters : List Setter)
    (live : ℕ → Option Resource) : NativeWorker :=
  { w with state := { w.state with native := w.state.native.after next setters live } }

/-- `w` is `b` but for the native objects, which are now `live`. -/
def Scratch (b : NativeWorker) (live : ℕ → Option Resource) (w : NativeWorker) : Prop :=
  ∃ next setters, w = b.after next setters live ∧ b.state.native.next ≤ next ∧
    ∀ p, next ≤ p → live p = none

variable {b w : NativeWorker} {live : ℕ → Option Resource} {kind : Resource → Bool}

theorem Scratch.refl (h : ∀ p, w.state.native.next ≤ p → w.state.native.live p = none) :
    Scratch w w.state.native.live w :=
  ⟨_, w.state.native.setters, rfl, le_rfl, h⟩

theorem Scratch.live_eq (h : Scratch b live w) : w.state.native.live = live := by
  obtain ⟨next, setters, rfl, -⟩ := h
  rfl

theorem Native.use_of_valid {n : Native} {pointer : Option ℕ} (h : n.valid pointer kind = true) :
    n.use pointer kind = n := by
  simp [Native.use, h]

variable {p : ℕ} {r : Resource}

theorem Scratch.valid (h : Scratch b live w) (hp : live p = some r) (hr : kind r = true) :
    w.state.native.valid (some p) kind = true := by
  simp [Native.valid, h.live_eq, hp, hr]

@[simp] theorem post_read (f : State → α) {Q : Except Thrown α → NativeWorker → Prop} :
    Post (read f) w Q ↔ Q (.ok (f w.state)) w := by
  simp [read]

theorem post_read_bind (f : State → α) (g : α → M β) {Q : Except Thrown β → NativeWorker → Prop} :
    Post (read f >>= g) w Q ↔ Post (g (f w.state)) w Q := Iff.rfl

@[simp] theorem post_update (f : State → State) {Q : Except Thrown Unit → NativeWorker → Prop} :
    Post (update f) w Q ↔ Q (.ok ()) { w with state := f w.state } := by
  simp [update]

@[simp] theorem post_fail (e : Failure) {Q : Except Thrown α → NativeWorker → Prop} :
    Post (fail e) w Q ↔ Q (.error (.failure e)) w := by
  simp [fail]

theorem post_use_of_valid {pointer : Option ℕ} (h : w.state.native.valid pointer kind = true)
    {Q : Except Thrown Unit → NativeWorker → Prop} : Post (use pointer kind) w Q ↔
      Q (.ok ()) w := by
  simp [use, modifyNative, Native.use_of_valid h]

theorem Scratch.keeps_use (hp : live p = some r) (hr : kind r = true) :
    Keeps (Scratch b live) (use (some p) kind) := by
  intro w hw
  rw [post_use_of_valid (hw.valid hp hr)]
  exact hw

theorem Scratch.keeps_set (hp : live p = some r) (hr : kind r = true) (setter : Setter) :
    Keeps (Scratch b live) (set (some p) kind setter) := by
  intro w hw
  have hvalid := hw.valid hp hr
  obtain ⟨next, setters, rfl, hnext, hfresh⟩ := hw
  simp only [set, modifyNative, post_update, Native.use_of_valid hvalid]
  exact ⟨next, setters ++ [setter], rfl, hnext, hfresh⟩

def Still (m : M α) : Prop := ∀ I, Keeps I m

/-- Such code hands its state to what follows, or to the exception. -/
theorem Still.post_bind {m : M α} (hm : Still m) {f : α → M β}
    {Q : Except Thrown β → NativeWorker → Prop} (hf : ∀ a, Post (f a) w Q)
    (herror : ∀ e, Q (.error e) w) : Post (m >>= f) w Q := by
  rw [Code.post_bind]
  refine (hm (· = w) w rfl).mono fun result t ht ↦ ?_
  subst ht
  cases result with
  | error e => exact herror e
  | ok a => exact hf a

theorem still_utf8 (needed allocated : Bool) : Still (utf8 needed allocated) :=
  fun _ ↦ .ite (fun _ ↦ .throw _) fun _ ↦ .pure _

theorem still_decode (bytes : List UInt8) : Still (decode bytes) := by
  intro I
  unfold decode
  split
  · exact .pure _
  · exact .throw _

theorem still_fail (e : Failure) : Still (fail e : M α) := fun _ ↦ .throw _

theorem still_throw (e : Thrown) : Still (throw e : M α) := fun _ ↦ .throw _

theorem keeps_guard {I : NativeWorker → Prop} {c : Prop} [Decidable c] (e : Thrown)
    {f : Unit → M α} (hf : ¬ c → Keeps I (f ())) :
    Keeps I (if c then (throw e : M Unit) >>= f else f ()) :=
  .ite (fun _ _ h ↦ h) hf

theorem still_dart (r : Except DartError α) : Still (dart r) := fun _ ↦ .lift _

theorem still_nativeError (lastError : List UInt8) (fallback : String) :
    Still (nativeError lastError fallback) :=
  fun I ↦ (still_decode lastError I).bind fun _ ↦ .pure _

theorem still_checkPointer (pointer : Option ℕ) (action : String) (lastError : List UInt8) :
    Still (checkPointer pointer action lastError) :=
  fun I ↦ .ite (fun _ ↦ (still_nativeError lastError action I).bind fun e ↦ still_fail e I)
    fun _ ↦ .pure _

/-- A null pointer throws, whatever the last error says. -/
theorem post_checkPointer {pointer : Option ℕ} {action : String} {lastError : List UInt8}
    {Q : Except Thrown Unit → NativeWorker → Prop} (hnone : pointer = none → ∀ e, Q (.error e) w)
    (hsome : pointer ≠ none → Q (.ok ()) w) : Post (checkPointer pointer action lastError) w Q := by
  cases pointer with
  | some p => exact hsome (by simp)
  | none =>
    simp only [checkPointer, Option.isNone_none, if_true, nativeError, decode, post_bind]
    split <;> exact hnone rfl _

theorem Scratch.post_create (h : Scratch b live w) (succeeds : Bool) (r : Resource) :
    Post (create succeeds r) w fun result t ↦ match result with
      | .ok (some p) =>
        b.state.native.next ≤ p ∧ live p = none ∧ Scratch b (Function.update live p (some r)) t
      | .ok none => Scratch b live t
      | .error _ => False := by
  cases succeeds with
  | false => exact h
  | true =>
    obtain ⟨next, setters, rfl, hnext, hfresh⟩ := h
    simp only [create, if_true, modifyNative, post_bind, post_read, post_update, post_pure]
    refine ⟨hnext, hfresh next le_rfl, next + 1, setters, rfl, Nat.le_succ_of_le hnext, ?_⟩
    intro q hq
    have hne : q ≠ next := by omega
    exact (Function.update_of_ne hne ..).trans (hfresh q (by omega))

theorem Scratch.post_created (h : Scratch b live w) (r : Resource) :
    Post (create true r) w fun result t ↦ ∃ p, result = .ok (some p) ∧ live p = none ∧
      Scratch b (Function.update live p (some r)) t := by
  have hpost := h.post_create true r
  exact ⟨w.state.native.next, rfl, hpost.2⟩

theorem Scratch.post_delete (h : Scratch b live w) (hp : live p = some r) (hr : kind r = true) :
    Post (delete (some p) kind) w fun result t ↦
      result = .ok () ∧ Scratch b (Function.update live p none) t := by
  have hvalid := h.valid hp hr
  obtain ⟨next, setters, rfl, hnext, hfresh⟩ := h
  simp only [delete, modifyNative, post_update, Native.delete, Native.use_of_valid hvalid]
  refine ⟨trivial, next, setters, rfl, hnext, fun q hq ↦ ?_⟩
  rw [Function.update_apply, hfresh q hq, ite_self]

/-- An object that is created for a piece of work and deleted after it. -/
theorem Scratch.bracket {body : M α} (h : Scratch b (Function.update live p (some r)) w)
    (hp : live p = none) (hr : kind r = true)
    (hbody : Keeps (Scratch b (Function.update live p (some r))) body) :
    Post (tryFinally body (delete (some p) kind)) w fun _ t ↦ Scratch b live t := by
  rw [post_tryFinally]
  refine (hbody w h).mono fun result t ht ↦ ?_
  refine (ht.post_delete (Function.update_self ..) hr).mono fun result' u hu ↦ ?_
  rw [Function.update_idem, ← hp, Function.update_eq_self] at hu
  obtain ⟨rfl, hu⟩ := hu
  exact hu

theorem Scratch.keeps_created {body : Option ℕ → M α} (kind : Resource → Bool) (r : Resource)
    (hr : kind r = true)
    (hbody : ∀ p, b.state.native.next ≤ p → live p = none →
      Keeps (Scratch b (Function.update live p (some r))) (body (some p)))
    (succeeds : Bool) (action : String) (lastError : List UInt8) :
    Keeps (Scratch b live) (do
      let p ← create succeeds r
      checkPointer p action lastError
      tryFinally (body p) (delete p kind)) := by
  intro w hw
  rw [post_bind]
  refine (hw.post_create succeeds r).mono fun result t ht ↦ ?_
  match result with
  | .ok (some p) =>
    obtain ⟨hb, hp, ht⟩ := ht
    exact ht.bracket hp hr (hbody p hb hp)
  | .ok none =>
    exact (post_bind ..).mpr (post_checkPointer (fun _ _ ↦ ht) (by simp))
  | .error _ => exact ht.elim

theorem Scratch.keeps_supported (hp : live p = some .loadedFile) (a : Supported) :
    Keeps (Scratch b live) (supported (some p) a) := by
  refine .bind (keeps_use hp rfl) fun _ ↦ keeps_guard _ fun _ ↦ ?_
  exact .bind (keeps_use hp rfl) fun _ ↦ .pure _

theorem Scratch.keeps_inspect (path : String) (a : InspectAnswers) :
    Keeps (Scratch b live) (inspect path a) := by
  unfold inspect
  refine keeps_guard _ fun _ ↦ keeps_guard _ fun _ ↦ .bind (still_utf8 _ _ _) fun _ ↦ ?_
  refine keeps_created isLoadedFile .loadedFile rfl (fun p _ _ ↦ ?_) _ _ _
  have hp := Function.update_self p (some Resource.loadedFile) live
  refine .bind (keeps_supported hp _) fun _ ↦ .bind (keeps_supported hp _) fun _ ↦ ?_
  refine .bind (keeps_supported hp _) fun _ ↦ .bind (keeps_use hp rfl) fun _ ↦ ?_
  cases a.hash with
  | none => exact .throw _
  | some hash =>
    exact .bind (keeps_use hp rfl) fun _ ↦ .bind (still_decode _ _) fun _ ↦ .pure _

theorem Scratch.keeps_tokenize {engine : NativeEngine} (he : live engine.pointer = some .engine)
    (a : TokenizeAnswers) : Keeps (Scratch b live) (tokenize engine a) := by
  refine .bind (still_utf8 _ _ _) fun _ ↦ .bind (keeps_use he rfl) fun _ ↦ ?_
  refine keeps_created isTokenizeResult .tokenizeResult rfl (fun p _ _ ↦ ?_) _ _ _
  have hp := Function.update_self p (some Resource.tokenizeResult) live
  exact .bind (keeps_use hp rfl) fun _ ↦ .bind (keeps_use hp rfl) fun _ ↦ .pure _

end LibLitertLm.Worker
