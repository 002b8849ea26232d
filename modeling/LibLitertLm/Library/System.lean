import Mathlib.Data.List.Induction

namespace LibLitertLm

/-- A system whose actions may be disabled: a step from a state in which the
action cannot happen has no result. -/
structure System (σ α : Type) where
  init : σ
  step : σ → α → Option σ

namespace System

variable {σ α : Type} (S : System σ α)

def exec (s : σ) (actions : List α) : Option σ := actions.foldlM S.step s

def run (actions : List α) : Option σ := S.exec S.init actions

@[simp] theorem exec_nil (s : σ) : S.exec s [] = some s := rfl

@[simp] theorem exec_cons (s : σ) (a : α) (actions : List α) :
    S.exec s (a :: actions) = (S.step s a).bind (S.exec · actions) := rfl

theorem exec_append (s : σ) (actions actions' : List α) :
    S.exec s (actions ++ actions') = (S.exec s actions).bind (S.exec · actions') := by
  induction actions generalizing s with
  | nil => rfl
  | cons a actions ih => cases h : S.step s a <;> simp [h, ih]

theorem exec_append_eq_some {s s' : σ} {actions actions' : List α} :
    S.exec s (actions ++ actions') = some s' ↔
      ∃ t, S.exec s actions = some t ∧ S.exec t actions' = some s' := by
  rw [exec_append, Option.bind_eq_some_iff]

/-- Every action of the execution meets `guard` in the state it is taken in. -/
def Meets (guard : σ → α → Prop) : σ → List α → Prop
  | _, [] => True
  | s, a :: actions => guard s a ∧ ∀ t, S.step s a = some t → Meets guard t actions

variable {S} in
theorem Meets.and {guard guard' : σ → α → Prop} {s : σ} {actions : List α}
    (h : S.Meets guard s actions) (h' : S.Meets guard' s actions) :
    S.Meets (fun s a ↦ guard s a ∧ guard' s a) s actions := by
  induction actions generalizing s with
  | nil => trivial
  | cons a actions ih => exact ⟨⟨h.1, h'.1⟩, fun t ht ↦ ih (h.2 t ht) (h'.2 t ht)⟩

variable {S} in
/-- The guard is about the actions alone. -/
theorem Meets.of_forall {guard : α → Prop} {s : σ} {actions : List α}
    (h : ∀ a ∈ actions, guard a) : S.Meets (fun _ ↦ guard) s actions := by
  induction actions generalizing s with
  | nil => trivial
  | cons a actions ih =>
    exact ⟨h a List.mem_cons_self, fun t _ ↦ ih fun b hb ↦ h b (List.mem_cons_of_mem a hb)⟩

variable {S} in
theorem Meets.cons {guard : σ → α → Prop} {s t : σ} {a : α} {actions : List α}
    (ht : S.step s a = some t) (ha : guard s a) (h : S.Meets guard t actions) :
    S.Meets guard s (a :: actions) := by
  refine ⟨ha, fun u hu ↦ ?_⟩
  obtain rfl : t = u := by simpa [ht] using hu
  exact h

instance decidableMeets {guard : σ → α → Prop} [∀ s a, Decidable (guard s a)] :
    ∀ s actions, Decidable (S.Meets guard s actions)
  | _, [] => .isTrue trivial
  | s, a :: actions =>
    match h : S.step s a with
    | none => decidable_of_iff (guard s a) ⟨fun ha ↦ ⟨ha, by simp [h]⟩, And.left⟩
    | some t =>
      have : Decidable (S.Meets guard t actions) := decidableMeets t actions
      decidable_of_iff (guard s a ∧ S.Meets guard t actions)
        ⟨fun hm ↦ .cons h hm.1 hm.2, fun hm ↦ ⟨hm.1, hm.2 t h⟩⟩

/-- A property that every guarded step keeps holds at the end of every guarded
execution that starts with it. -/
theorem invariant {guard : σ → α → Prop} {P : σ → Prop}
    (hstep : ∀ s a s', P s → guard s a → S.step s a = some s' → P s') {s s' : σ} {actions : List α}
    (hs : P s) (hm : S.Meets guard s actions) (he : S.exec s actions = some s') : P s' := by
  induction actions generalizing s with
  | nil =>
    obtain rfl : s = s' := by simpa using he
    exact hs
  | cons a actions ih =>
    obtain ⟨t, ht, he⟩ := by simpa only [exec_cons, Option.bind_eq_some_iff] using he
    exact ih (hstep s a t hs hm.1 ht) (hm.2 t ht) he

end System

end LibLitertLm
