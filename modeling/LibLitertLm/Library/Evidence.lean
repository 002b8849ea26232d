import Mathlib.Data.List.Basic

namespace LibLitertLm.Evidence

/-- What a log has to show: an entry of a kind, and every entry of the kind good. -/
structure Requirement (α : Type) where
  applies : α → Prop
  meets : α → Prop

variable {α β : Type} {requirements : List (Requirement α)} {log log' : List α}

def Covered (requirements : List (Requirement α)) (log : List α) : Prop :=
  ∀ r ∈ requirements, ∃ entry ∈ log, r.applies entry

def Flawed (requirements : List (Requirement α)) (log : List α) : Prop :=
  ∃ r ∈ requirements, ∃ entry ∈ log, r.applies entry ∧ ¬ r.meets entry

def Shown (requirements : List (Requirement α)) (log : List α) : Prop :=
  ∀ r ∈ requirements, (∃ entry ∈ log, r.applies entry) ∧
    ∀ entry ∈ log, r.applies entry → r.meets entry

theorem shown_iff : Shown requirements log ↔ Covered requirements log ∧
    ¬ Flawed requirements log := by
  constructor
  · intro h
    refine ⟨fun r hr ↦ (h r hr).1, ?_⟩
    intro ⟨r, hr, entry, hentry, happlies, hnot⟩
    exact hnot ((h r hr).2 entry hentry happlies)
  · intro ⟨hcovered, hclean⟩ r hr
    refine ⟨hcovered r hr, fun entry hentry happlies ↦ ?_⟩
    by_contra hnot
    exact hclean ⟨r, hr, entry, hentry, happlies, hnot⟩

/-- No entry repairs another. -/
theorem Flawed.mono (h : Flawed requirements log) (hsubset : log ⊆ log') :
    Flawed requirements log' := by
  obtain ⟨r, hr, entry, hentry, hflaw⟩ := h
  exact ⟨r, hr, entry, hsubset hentry, hflaw⟩

theorem flawed_append {more : List (Requirement α)} : Flawed (requirements ++ more) log ↔
    Flawed requirements log ∨ Flawed more log := by
  simp only [Flawed, List.mem_append, or_and_right, exists_or]

theorem covered_append {more : List (Requirement α)} : Covered (requirements ++ more) log ↔
    Covered requirements log ∧ Covered more log := by
  simp only [Covered, List.mem_append, or_imp, forall_and]

end LibLitertLm.Evidence
