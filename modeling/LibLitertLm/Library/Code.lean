import Mathlib.Tactic.Common

namespace LibLitertLm

/-- Imperative code over a state: it may throw, and what it did to the state
before it threw stays done. -/
def Code (σ ε α : Type) := σ → Except ε α × σ

namespace Code

variable {σ ε α β : Type}

instance : Monad (Code σ ε) where
  pure a := fun s ↦ (.ok a, s)
  bind m f := fun s ↦
    match m s with
    | (.ok a, t) => f a t
    | (.error e, t) => (.error e, t)

instance : MonadExceptOf ε (Code σ ε) where
  throw e := fun s ↦ (.error e, s)
  tryCatch m h := fun s ↦
    match m s with
    | (.ok a, t) => (.ok a, t)
    | (.error e, t) => h e t

instance : MonadFinally (Code σ ε) where
  tryFinally' m f := fun s ↦
    match m s with
    | (.ok a, t) =>
      match f (some a) t with
      | (.ok b, u) => (.ok (a, b), u)
      | (.error e, u) => (.error e, u)
    | (.error e, t) =>
      match f none t with
      | (.ok _, u) => (.error e, u)
      | (.error e, u) => (.error e, u)

instance : LawfulMonad (Code σ ε) := by
  refine LawfulMonad.mk' (Code σ ε) ?_ ?_ ?_
  · intro α m
    funext s
    simp only [Functor.map]
    rcases m s with ⟨_ | a, t⟩ <;> rfl
  · intro α β a f
    rfl
  · intro α β γ m f g
    funext s
    simp only [bind]
    rcases m s with ⟨_ | a, t⟩ <;> rfl

def get : Code σ ε σ := fun s ↦ (.ok s, s)

def modify (f : σ → σ) : Code σ ε Unit := fun s ↦ (.ok (), f s)

def lift (r : Except ε α) : Code σ ε α := fun s ↦ (r, s)

def forEach : List α → (α → Code σ ε Unit) → Code σ ε Unit
  | [], _ => pure ()
  | a :: as, f => do
    f a
    forEach as f

def when (p : Prop) [Decidable p] (m : Code σ ε Unit) : Code σ ε Unit := if p then m else pure ()

def onSome (o : Option α) (f : α → Code σ ε Unit) : Code σ ε Unit :=
  match o with
  | some a => f a
  | none => pure ()

/-- Running `m` from `s` ends in a result and a state that satisfy `Q`. -/
def Post (m : Code σ ε α) (s : σ) (Q : Except ε α → σ → Prop) : Prop := Q (m s).1 (m s).2

variable {m : Code σ ε α} {f : α → Code σ ε β} {s : σ} {Q : Except ε α → σ → Prop}

theorem Post.mono {P : Except ε α → σ → Prop} (h : Post m s P) (hPQ : ∀ r t, P r t → Q r t) :
    Post m s Q :=
  hPQ _ _ h

theorem Post.and {P : Except ε α → σ → Prop} (hP : Post m s P) (hQ : Post m s Q) :
    Post m s fun r t ↦ P r t ∧ Q r t :=
  ⟨hP, hQ⟩

@[simp] theorem post_pure (a : α) : Post (pure a : Code σ ε α) s Q ↔ Q (.ok a) s := Iff.rfl

@[simp] theorem post_throw (e : ε) : Post (throw e : Code σ ε α) s Q ↔ Q (.error e) s := Iff.rfl

@[simp] theorem post_get {Q : Except ε σ → σ → Prop} : Post get s Q ↔ Q (.ok s) s := Iff.rfl

@[simp] theorem post_modify (g : σ → σ) {Q : Except ε Unit → σ → Prop} :
    Post (modify g) s Q ↔ Q (.ok ()) (g s) := Iff.rfl

@[simp] theorem post_lift (r : Except ε α) : Post (lift r) s Q ↔ Q r s := Iff.rfl

@[simp] theorem post_bind {Q : Except ε β → σ → Prop} :
    Post (m >>= f) s Q ↔ Post m s fun r t ↦
      match r with
      | .ok a => Post (f a) t Q
      | .error e => Q (.error e) t := by
  simp only [Post, bind]
  rcases m s with ⟨_ | a, t⟩ <;> rfl

@[simp] theorem post_map (g : α → β) {Q : Except ε β → σ → Prop} :
    Post (g <$> m) s Q ↔ Post m s fun r t ↦
      match r with
      | .ok a => Q (.ok (g a)) t
      | .error e => Q (.error e) t :=
  post_bind (f := fun a ↦ pure (g a))

theorem post_assoc {γ : Type} (g : β → Code σ ε γ) {Q : Except ε γ → σ → Prop} :
    Post (m >>= fun a ↦ f a >>= g) s Q ↔ Post (m >>= f >>= g) s Q := by
  simp only [Post, bind]
  rcases m s with ⟨_ | a, t⟩ <;> rfl

@[simp] theorem post_tryCatch (h : ε → Code σ ε α) :
    Post (tryCatch m h) s Q ↔ Post m s fun r t ↦
      match r with
      | .ok a => Q (.ok a) t
      | .error e => Post (h e) t Q := by
  simp only [Post, tryCatch, tryCatchThe, MonadExceptOf.tryCatch]
  rcases m s with ⟨_ | a, t⟩ <;> rfl

@[simp] theorem post_tryFinally (n : Code σ ε β) :
    Post (tryFinally m n) s Q ↔ Post m s fun r t ↦
      Post n t fun r' u ↦
        match r' with
        | .ok _ => Q r u
        | .error e => Q (.error e) u := by
  simp only [Post, tryFinally, Functor.map, tryFinally']
  rcases m s with ⟨_ | a, t⟩ <;> dsimp only <;> rcases n t with ⟨_ | b, u⟩ <;> rfl

/-- Running `m` keeps `I`, whether it ends normally or by an exception. -/
def Keeps (I : σ → Prop) (m : Code σ ε α) : Prop := ∀ s, I s → Post m s fun _ t ↦ I t

section Keeps

variable {I : σ → Prop}

theorem Keeps.pure (a : α) : Keeps I (pure a : Code σ ε α) := fun _ h ↦ h

theorem Keeps.throw (e : ε) : Keeps I (throw e : Code σ ε α) := fun _ h ↦ h

theorem Keeps.lift (r : Except ε α) : Keeps I (lift r : Code σ ε α) := fun _ h ↦ h

theorem Keeps.get : Keeps I (get : Code σ ε σ) := fun _ h ↦ h

/-- What was kept is there for what follows, or for the exception. -/
theorem Keeps.bind_post {Q : Except ε β → σ → Prop} (hm : Keeps I m) (hs : I s)
    (hf : ∀ a t, I t → Post (f a) t Q) (herror : ∀ e t, I t → Q (.error e) t) :
    Post (m >>= f) s Q := by
  rw [post_bind]
  refine (hm s hs).mono fun r t ht ↦ ?_
  cases r with
  | error e => exact herror e t ht
  | ok a => exact hf a t ht

theorem Keeps.and {J : σ → Prop} (hI : Keeps I m) (hJ : Keeps J m) :
    Keeps (fun s ↦ I s ∧ J s) m :=
  fun s h ↦ (hI s h.1).and (hJ s h.2)

theorem Keeps.bind (hm : Keeps I m) (hf : ∀ a, Keeps I (f a)) : Keeps I (m >>= f) := by
  intro s hs
  rw [post_bind]
  refine (hm s hs).mono fun r t ht ↦ ?_
  cases r with
  | error e => exact ht
  | ok a => exact hf a t ht

theorem Keeps.map (hm : Keeps I m) (g : α → β) : Keeps I (g <$> m) :=
  hm.bind fun a ↦ .pure (g a)

theorem Keeps.ite {p : Prop} [Decidable p] {n : Code σ ε α} (hm : p → Keeps I m)
    (hn : ¬ p → Keeps I n) : Keeps I (if p then m else n) := by
  by_cases h : p
  · simpa only [if_pos h] using hm h
  · simpa only [if_neg h] using hn h

theorem Keeps.when {p : Prop} [Decidable p] {m : Code σ ε Unit} (hm : p → Keeps I m) :
    Keeps I (when p m) :=
  .ite hm fun _ ↦ .pure ()

theorem Keeps.onSome {o : Option α} {f : α → Code σ ε Unit} (hf : ∀ a ∈ o, Keeps I (f a)) :
    Keeps I (onSome o f) := by
  cases o with
  | none => exact .pure ()
  | some a => exact hf a rfl

theorem Keeps.tryFinally (hm : Keeps I m) {n : Code σ ε β} (hn : Keeps I n) :
    Keeps I (tryFinally m n) := by
  intro s hs
  rw [post_tryFinally]
  refine (hm s hs).mono fun r t ht ↦ (hn t ht).mono fun r' u hu ↦ ?_
  cases r' <;> exact hu

theorem Keeps.tryCatch {h : ε → Code σ ε α} (hm : Keeps I m) (hh : ∀ e, Keeps I (h e)) :
    Keeps I (tryCatch m h) := by
  intro s hs
  rw [post_tryCatch]
  refine (hm s hs).mono fun r t ht ↦ ?_
  cases r with
  | ok a => exact ht
  | error e => exact hh e t ht

theorem Keeps.forEach {as : List α} {body : α → Code σ ε Unit}
    (hbody : ∀ a ∈ as, Keeps I (body a)) : Keeps I (forEach as body) := by
  induction as with
  | nil => exact .pure ()
  | cons a as ih =>
    exact (hbody a (by simp)).bind fun _ ↦ ih fun b hb ↦ hbody b (by simp [hb])

end Keeps

/-- All that `m` can throw is in `E`. -/
def Raises (E : ε → Prop) (m : Code σ ε α) : Prop :=
  ∀ s, Post m s fun r _ ↦ ∀ e, r = .error e → E e

section Raises

variable {E : ε → Prop}

theorem Raises.modify (g : σ → σ) : Raises E (modify g) := by
  intro s e h
  cases h

theorem Raises.pure (a : α) : Raises E (pure a : Code σ ε α) := by
  intro s e h
  cases h

theorem Raises.get : Raises E (get : Code σ ε σ) := by
  intro s e h
  cases h

theorem Raises.throw {e : ε} (he : E e) : Raises E (throw e : Code σ ε α) := by
  intro s e' h
  obtain rfl : e = e' := Except.error.inj h
  exact he

theorem Raises.bind (hm : Raises E m) (hf : ∀ a, Raises E (f a)) : Raises E (m >>= f) := by
  intro s
  rw [post_bind]
  refine (hm s).mono fun r t ht ↦ ?_
  cases r with
  | error e => exact fun e' he ↦ ht e' (congrArg Except.error (Except.error.inj he))
  | ok a => exact hf a t

theorem Raises.map (hm : Raises E m) (g : α → β) : Raises E (g <$> m) := hm.bind fun a ↦ .pure (g a)

theorem Raises.ite {p : Prop} [Decidable p] {n : Code σ ε α} (hm : Raises E m)
    (hn : Raises E n) : Raises E (if p then m else n) := by
  split_ifs
  · exact hm
  · exact hn

theorem Raises.when {p : Prop} [Decidable p] {m : Code σ ε Unit} (hm : Raises E m) :
    Raises E (when p m) :=
  .ite hm (.pure ())

theorem Raises.tryFinally (hm : Raises E m) {n : Code σ ε β} (hn : Raises E n) :
    Raises E (tryFinally m n) := by
  intro s
  rw [post_tryFinally]
  refine (hm s).mono fun r t ht ↦ (hn t).mono fun r' u hu ↦ ?_
  cases r' with
  | ok _ => exact ht
  | error e => exact fun e' he ↦ hu e' (congrArg Except.error (Except.error.inj he))

/-- What is caught does not matter, only what the handler throws. -/
theorem Raises.tryCatch {F : ε → Prop} {h : ε → Code σ ε α} (hm : Raises F m)
    (hh : ∀ e, F e → Raises E (h e)) : Raises E (tryCatch m h) := by
  intro s
  rw [post_tryCatch]
  refine (hm s).mono fun r t ht ↦ ?_
  cases r with
  | error e => exact hh e (ht e rfl) t
  | ok a => exact Raises.pure a t

theorem Raises.forEach {as : List α} {body : α → Code σ ε Unit}
    (hbody : ∀ a, Raises E (body a)) : Raises E (forEach as body) := by
  induction as with
  | nil => exact .pure ()
  | cons a as ih => exact (hbody a).bind fun _ ↦ ih

theorem raises_any : Raises (fun _ ↦ True) m := fun _ _ _ ↦ trivial

end Raises

/-- All that `m` can return is in `P`. -/
def Yields (P : α → Prop) (m : Code σ ε α) : Prop := ∀ s, Post m s fun r _ ↦ ∀ a, r = .ok a → P a

section Yields

variable {P : α → Prop}

theorem Yields.pure {a : α} (ha : P a) : Yields P (pure a : Code σ ε α) := by
  intro s b h
  obtain rfl : a = b := Except.ok.inj h
  exact ha

theorem Yields.bind {f : β → Code σ ε α} (m : Code σ ε β) (hf : ∀ b, Yields P (f b)) :
    Yields P (m >>= f) := by
  intro s
  rw [post_bind]
  refine Post.mono (P := fun _ _ ↦ True) trivial fun r t _ ↦ ?_
  cases r with
  | error e =>
    intro a h
    cases h
  | ok b => exact hf b t

theorem Yields.throw (e : ε) : Yields P (throw e : Code σ ε α) := by
  intro s b h
  cases h

theorem Yields.guard {p : Prop} [Decidable p] (e : ε) {f : Unit → Code σ ε α}
    (hf : Yields P (f ())) :
      Yields P (if p then (MonadExcept.throw e : Code σ ε Unit) >>= f else f ()) := by
  split_ifs
  · exact Yields.throw e
  · exact hf

/-- The code that follows in any case does not change what is returned. -/
theorem Yields.tryFinally (hm : Yields P m) (n : Code σ ε β) : Yields P (tryFinally m n) := by
  intro s
  rw [post_tryFinally]
  refine (hm s).mono fun r t ht ↦ Post.mono (P := fun _ _ ↦ True) trivial fun r' u _ ↦ ?_
  cases r' with
  | ok _ => exact ht
  | error e =>
    intro a h
    cases h

theorem Raises.bind_yields {E : ε → Prop} {f : α → Code σ ε β} (hm : Raises E m)
    (hy : Yields P m) (hf : ∀ a, P a → Raises E (f a)) : Raises E (m >>= f) := by
  intro s
  rw [post_bind]
  refine ((hm s).and (hy s)).mono fun r t ⟨herror, hok⟩ ↦ ?_
  cases r with
  | error e => exact fun e' he ↦ herror e' (congrArg Except.error (Except.error.inj he))
  | ok a => exact hf a (hok a rfl) t

end Yields

end Code

/-- Two values with the same core have the same fields that the core keeps. -/
theorem field_eq {α β : Type} (core : α → α) {x y : α} (f : α → β) (hf : ∀ x, f (core x) = f x)
    (h : core x = core y) : f x = f y :=
  (hf x).symm.trans ((congrArg f h).trans (hf y))

end LibLitertLm
