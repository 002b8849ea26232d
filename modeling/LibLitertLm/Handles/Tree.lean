import Mathlib.Data.List.Infix

namespace LibLitertLm.Handles

/-- A handle, by its number and those of its ancestors: the parent is the tail. -/
abbrev Path := List ℕ

structure HandleState where
  closed : Bool := false
  closing : Option ℕ := none

def closed (states : Path → HandleState) : Path → Bool
  | [] => false
  | n :: parent => (states (n :: parent)).closed || closed states parent

variable {states states' : Path → HandleState} {p path : Path}

theorem closed_of_closed (h : (states path).closed = true) (hpath : path ≠ []) :
    closed states path = true := by
  cases path with
  | nil => exact absurd rfl hpath
  | cons n parent => simp [closed, h]

theorem closed_tail (h : closed states path.tail = true) : closed states path = true := by
  cases path with
  | nil => exact h
  | cons n parent => simp [closed, show closed states parent = true from h]

/-- Whatever is below a closed handle is closed. -/
theorem closed_of_suffix (hsuffix : p <:+ path) (h : closed states p = true) :
    closed states path = true := by
  induction path with
  | nil =>
    rw [List.suffix_nil.mp hsuffix] at h
    exact h
  | cons n parent ih =>
    rcases List.suffix_cons_iff.mp hsuffix with rfl | hsuffix
    · exact h
    · exact closed_tail (ih hsuffix)

theorem closed_iff : closed states path = true ↔
    ∃ p, p ≠ [] ∧ p <:+ path ∧ (states p).closed = true := by
  constructor
  · intro h
    induction path with
    | nil => cases h
    | cons n parent ih =>
      rw [closed, Bool.or_eq_true] at h
      rcases h with h | h
      · exact ⟨n :: parent, List.cons_ne_nil _ _, List.suffix_rfl, h⟩
      · obtain ⟨p, hne, hsuffix, hp⟩ := ih h
        exact ⟨p, hne, hsuffix.trans (List.suffix_cons ..), hp⟩
  · intro ⟨p, hne, hsuffix, hp⟩
    exact closed_of_suffix hsuffix (closed_of_closed hp hne)

theorem closed_mono (h : ∀ p, (states p).closed = true → (states' p).closed = true)
    (hclosed : closed states path = true) : closed states' path = true := by
  rw [closed_iff] at hclosed ⊢
  obtain ⟨p, hne, hsuffix, hp⟩ := hclosed
  exact ⟨p, hne, hsuffix, h p hp⟩

end LibLitertLm.Handles
