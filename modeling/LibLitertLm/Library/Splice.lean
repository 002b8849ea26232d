import Mathlib.Data.List.Infix
import Mathlib.Tactic.Common

namespace LibLitertLm.Splice

def chars (s : String) {l : List Char} (_ : s = String.ofList l := by exact rfl) : List Char := l

variable {α : Type}

section Replace

variable [DecidableEq α]

def count (word : List α) : ℕ → List α → ℕ
  | _, [] => 0
  | skip + 1, _ :: rest => count word skip rest
  | 0, c :: rest =>
    if word <+: c :: rest then count word (word.length - 1) rest + 1 else count word 0 rest

def replaceFirst (word replacement : List α) : List α → List α
  | [] => []
  | c :: rest =>
    if word <+: c :: rest then replacement ++ (c :: rest).drop word.length
    else c :: replaceFirst word replacement rest

variable {word text : List α}

theorem infix_of_count {skip : ℕ} (h : count word skip text ≠ 0) : word <:+: text := by
  induction text generalizing skip with
  | nil => cases skip <;> exact absurd rfl h
  | cons c rest ih =>
    have htail (hrest : word <:+: rest) : word <:+: c :: rest :=
      hrest.trans (List.suffix_cons c rest).isInfix
    cases skip with
    | succ skip => exact htail (ih h)
    | zero =>
      rw [count] at h
      split_ifs at h with hprefix
      · exact hprefix.isInfix
      · exact htail (ih h)

theorem replaceFirst_eq (hword : word ≠ []) (h : word <:+: text) (replacement : List α) :
    ∃ u v, text = u ++ (word ++ v) ∧
      replaceFirst word replacement text = u ++ (replacement ++ v) := by
  induction text with
  | nil => exact absurd (List.eq_nil_of_infix_nil h) hword
  | cons c rest ih =>
    by_cases hprefix : word <+: c :: rest
    · refine ⟨[], (c :: rest).drop word.length, (List.prefix_append_drop hprefix), ?_⟩
      rw [replaceFirst, if_pos hprefix, List.nil_append]
    · have hrest : word <:+: rest := (List.infix_cons_iff.mp h).resolve_left hprefix
      obtain ⟨u, v, htext, hreplace⟩ := ih hrest
      refine ⟨c :: u, v, by rw [htext, List.cons_append], ?_⟩
      rw [replaceFirst, if_neg hprefix, hreplace, List.cons_append]

end Replace

variable {word text u v d anchor : List α}

def Inserted (anchor d text text' : List α) : Prop :=
  ∃ u v, text = u ++ (anchor ++ v) ∧ text' = u ++ (anchor ++ (d ++ v))

/-- No part of the word can stand before the place of an insertion and the rest
of it behind, unless what is inserted ends in that part. -/
def Survives (anchor d word : List α) : Prop :=
  ∀ w₁ w₂, word = w₁ ++ w₂ → w₁ ≠ [] → w₂ ≠ [] →
    w₁ <:+ anchor ∨ anchor <:+ w₁ → w₁ <:+ d

/-- An insertion does not make the word appear. -/
def Foreign (anchor d word : List α) : Prop :=
  ¬ word <:+: d ∧ ∀ w₁ w₂, word = w₁ ++ w₂ → w₁ ≠ [] → w₂ ≠ [] →
    (w₁ <:+ anchor ∨ anchor <:+ w₁ → ¬ (w₂ <+: d ∨ d <+: w₂)) ∧ (w₁ <:+ d → w₁ <:+ anchor)

def cuts [DecidableEq α] (c : α) : List α → List α → List (List α × List α)
  | _, [] => []
  | before, b :: rest =>
    if b = c then ((b :: before).reverse, rest) :: cuts c (b :: before) rest
    else cuts c (b :: before) rest

section Cuts

variable [DecidableEq α] {c : α}

theorem mem_cuts (before w₁ w₂ : List α) :
    (before.reverse ++ (w₁ ++ [c]), w₂) ∈ cuts c before (w₁ ++ c :: w₂) := by
  induction w₁ generalizing before with
  | nil => simp [cuts]
  | cons b w₁ ih =>
    have hrest := ih (b :: before)
    rw [List.reverse_cons, List.append_assoc] at hrest
    rw [List.cons_append, cuts]
    split_ifs
    · exact List.mem_cons_of_mem _ hrest
    · exact hrest

/-- Two texts that end alike end in the same character. -/
theorem mem_cuts_of_suffix {w₁ w₂ : List α} (hanchor : anchor.getLast? = some c) (hne : w₁ ≠ [])
    (h : w₁ <:+ anchor ∨ anchor <:+ w₁) : (w₁, w₂) ∈ cuts c [] (w₁ ++ w₂) := by
  have hlast : w₁.getLast? = some c := by
    rcases h with ⟨x, rfl⟩ | ⟨x, rfl⟩
    · rwa [List.getLast?_append_of_ne_nil _ hne] at hanchor
    · have hne : anchor ≠ [] := by
        rintro rfl
        cases hanchor
      rwa [List.getLast?_append_of_ne_nil _ hne]
  obtain ⟨x, rfl⟩ := List.getLast?_eq_some_iff.mp hlast
  rw [List.append_assoc]
  exact mem_cuts [] x w₂

theorem survives_of_cuts (hanchor : anchor.getLast? = some c)
    (h : ∀ cut ∈ cuts c [] word, cut.2 ≠ [] →
      cut.1 <:+ anchor ∨ anchor <:+ cut.1 → cut.1 <:+ d) : Survives anchor d word := by
  intro w₁ w₂ hword hne₁ hne₂ hends
  rw [hword] at h
  exact h _ (mem_cuts_of_suffix hanchor hne₁ hends) hne₂ hends

theorem foreign_of_cuts (hanchor : anchor.getLast? = some c) (hd : d.getLast? = some c)
    (hnot : ¬ word <:+: d)
    (h : ∀ cut ∈ cuts c [] word, cut.2 ≠ [] →
      (cut.1 <:+ anchor ∨ anchor <:+ cut.1 → ¬ (cut.2 <+: d ∨ d <+: cut.2)) ∧
        (cut.1 <:+ d → cut.1 <:+ anchor)) : Foreign anchor d word := by
  refine ⟨hnot, fun w₁ w₂ hword hne₁ hne₂ ↦ ?_⟩
  rw [hword] at h
  constructor
  · intro hends
    exact (h _ (mem_cuts_of_suffix hanchor hne₁ hends) hne₂).1 hends
  · intro hends
    exact (h _ (mem_cuts_of_suffix hd hne₁ (.inl hends)) hne₂).2 hends

end Cuts

theorem suffix_anchor {w₁ : List α} (h : w₁ <:+ u ++ anchor) : w₁ <:+ anchor ∨ anchor <:+ w₁ :=
  List.suffix_or_suffix_of_suffix h (List.suffix_append u anchor)

theorem infix_of_split {x y w₁ w₂ : List α} (h₁ : w₁ <:+ x) (h₂ : w₂ <+: y) :
    w₁ ++ w₂ <:+: x ++ y := by
  obtain ⟨s, rfl⟩ := h₁
  obtain ⟨t, rfl⟩ := h₂
  exact ⟨s, t, by simp⟩

namespace Inserted

variable {text' : List α}

theorem infix_self (h : Inserted anchor d text text') : d <:+: text' := by
  obtain ⟨u, v, -, rfl⟩ := h
  exact ⟨u ++ anchor, v, by simp⟩

theorem mem (h : Inserted anchor d text text') {c : α} (hc : c ∈ text') : c ∈ text ∨ c ∈ d := by
  obtain ⟨u, v, rfl, rfl⟩ := h
  simp only [List.mem_append] at hc ⊢
  tauto

theorem infix_of_survives (h : Inserted anchor d text text') (hsurvives : Survives anchor d word)
    (hword : word <:+: text) : word <:+: text' := by
  obtain ⟨u, v, rfl, rfl⟩ := h
  rw [← List.append_assoc] at hword
  rw [← List.append_assoc]
  rcases List.infix_append_iff_ne_nil.mp hword with
    hleft | hright | ⟨w₁, w₂, hne₁, hne₂, rfl, hleft, hright⟩
  · exact hleft.trans (List.prefix_append _ _).isInfix
  · exact (hright.trans (List.suffix_append d v).isInfix).trans (List.suffix_append _ _).isInfix
  · have hend : w₁ <:+ d := hsurvives w₁ w₂ rfl hne₁ hne₂ (suffix_anchor hleft)
    exact (infix_of_split hend hright).trans (List.suffix_append _ _).isInfix

theorem infix_of_foreign (h : Inserted anchor d text text') (hforeign : Foreign anchor d word)
    (hword : word <:+: text') : word <:+: text := by
  obtain ⟨u, v, rfl, rfl⟩ := h
  obtain ⟨hnot, hsplit⟩ := hforeign
  rw [← List.append_assoc] at hword
  rw [← List.append_assoc]
  rcases List.infix_append_iff_ne_nil.mp hword with
    hleft | hright | ⟨w₁, w₂, hne₁, hne₂, rfl, hleft, hright⟩
  · exact hleft.trans (List.prefix_append _ _).isInfix
  · rcases List.infix_append_iff_ne_nil.mp hright with
      hd | hv | ⟨w₁, w₂, hne₁, hne₂, rfl, hd, hv⟩
    · exact absurd hd hnot
    · exact hv.trans (List.suffix_append _ _).isInfix
    · have hanchor : w₁ <:+ anchor := (hsplit w₁ w₂ rfl hne₁ hne₂).2 hd
      exact infix_of_split (hanchor.trans (List.suffix_append u anchor)) hv
  · have hd : w₂ <+: d ∨ d <+: w₂ :=
      List.prefix_or_prefix_of_prefix hright (List.prefix_append d v)
    exact absurd hd ((hsplit w₁ w₂ rfl hne₁ hne₂).1 (suffix_anchor hleft))

end Inserted

/-- The insertion in place of an anchor that a text contains. -/
theorem inserted_of_count [DecidableEq α] (hanchor : anchor ≠ []) (h : count anchor 0 text ≠ 0)
    (d : List α) :
    Inserted anchor d text (replaceFirst anchor (anchor ++ d) text) := by
  obtain ⟨u, v, htext, hreplace⟩ := replaceFirst_eq hanchor (infix_of_count h) (anchor ++ d)
  exact ⟨u, v, htext, by rw [hreplace, List.append_assoc]⟩

end LibLitertLm.Splice
