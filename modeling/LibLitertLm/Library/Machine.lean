import Mathlib.Data.List.Induction

namespace LibLitertLm

structure Machine (σ ι ο : Type) where
  init : σ
  step : σ → ι → σ × List ο

namespace Machine

variable {σ ι ο : Type} (M : Machine σ ι ο)

def run (inputs : List ι) : σ × List ο :=
  inputs.foldl (fun r i ↦ ((M.step r.1 i).1, r.2 ++ (M.step r.1 i).2)) (M.init, [])

def state (inputs : List ι) : σ := (M.run inputs).1

def outputs (inputs : List ι) : List ο := (M.run inputs).2

@[simp] theorem state_nil : M.state [] = M.init := rfl

@[simp] theorem outputs_nil : M.outputs [] = [] := rfl

@[simp] theorem state_concat (inputs : List ι) (i : ι) :
    M.state (inputs ++ [i]) = (M.step (M.state inputs) i).1 := by
  simp [state, run]

@[simp] theorem outputs_concat (inputs : List ι) (i : ι) :
    M.outputs (inputs ++ [i]) = M.outputs inputs ++ (M.step (M.state inputs) i).2 := by
  simp [outputs, state, run]

/-- A property of the inputs so far, the state and the outputs holds after
every run once every single step keeps it. -/
theorem invariant (P : List ι → σ → List ο → Prop) (hinit : P [] M.init [])
    (hstep : ∀ inputs s os i, P inputs s os →
      P (inputs ++ [i]) (M.step s i).1 (os ++ (M.step s i).2)) (inputs : List ι) :
    P inputs (M.state inputs) (M.outputs inputs) := by
  induction inputs using List.reverseRecOn with
  | nil => exact hinit
  | append_singleton inputs i ih =>
    rw [state_concat, outputs_concat]
    exact hstep inputs _ _ i ih

/-- What every step keeps is kept by all that follows. -/
theorem stable (P : σ → Prop) (hstep : ∀ s i, P s → P (M.step s i).1) {inputs : List ι}
    (h : P (M.state inputs)) (more : List ι) : P (M.state (inputs ++ more)) := by
  induction more using List.reverseRecOn with
  | nil => rwa [List.append_nil]
  | append_singleton more i ih =>
    rw [← List.append_assoc, state_concat]
    exact hstep _ i ih

def Occurs (P : σ → ι → Prop) (inputs : List ι) : Prop :=
  ∃ before i after, inputs = before ++ i :: after ∧ P (M.state before) i

@[simp] theorem not_occurs_nil (P : σ → ι → Prop) : ¬ M.Occurs P [] := by
  rintro ⟨before, i, after, h, -⟩
  simp at h

@[simp] theorem occurs_concat (P : σ → ι → Prop) (inputs : List ι) (i : ι) :
    M.Occurs P (inputs ++ [i]) ↔ M.Occurs P inputs ∨ P (M.state inputs) i := by
  constructor
  · rintro ⟨before, j, after, h, hp⟩
    rcases List.eq_nil_or_concat after with rfl | ⟨after, k, rfl⟩
    · obtain ⟨rfl, h⟩ := List.append_inj' h rfl
      obtain rfl : i = j := by simpa using h
      exact .inr hp
    · have h' : inputs ++ [i] = (before ++ j :: after) ++ [k] := by simpa using h
      obtain ⟨rfl, -⟩ := List.append_inj' h' rfl
      exact .inl ⟨before, j, after, rfl, hp⟩
  · rintro (⟨before, j, after, rfl, hp⟩ | hp)
    · exact ⟨before, j, after ++ [i], by simp, hp⟩
    · exact ⟨inputs, i, [], rfl, hp⟩

end Machine

end LibLitertLm
