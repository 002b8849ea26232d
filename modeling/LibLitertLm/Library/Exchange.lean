import Mathlib.Data.List.Induction
import Mathlib.Order.BooleanAlgebra.Set
import Mathlib.Logic.Relation

namespace LibLitertLm

/-- A client and a server that talk over two queues. The client waits for the
answers to what it asked for; the server owes the answers to what it took; the
client may announce its `last` request (there is at most one), which the server
may have `taken`. -/
@[ext]
structure Exchange (κ : Type) where
  waiting : Set κ := ∅
  asked : List κ := []
  owed : Set κ := ∅
  answers : List κ := []
  last : Set κ := ∅
  taken : Prop := False

namespace Exchange

variable {κ : Type} {e e' : Exchange κ}

/-- Both sides may repeat themselves, and the server may answer what nobody
asked for; but nothing is asked after the last request, and that one is
answered when the server owes nothing else. -/
inductive Step (e : Exchange κ) : Exchange κ → Prop
  | ask (k : κ) (hlast : e.last = ∅) :
    Step e { e with waiting := insert k e.waiting, asked := e.asked ++ [k] }
  | announce (k : κ) (hlast : e.last = ∅) (hasked : k ∉ e.asked) (hanswers : k ∉ e.answers) :
    Step e { e with waiting := insert k e.waiting, asked := e.asked ++ [k], last := {k} }
  | take {k : κ} {asked : List κ} (hasked : e.asked = k :: asked) :
    Step e { e with
      asked := asked, owed := insert k e.owed, taken := e.taken ∨ k ∈ e.last }
  | answer (k : κ) (hlast : k ∈ e.last → e.taken ∧ ∀ other ∈ e.owed, other = k) :
    Step e { e with owed := e.owed \ {k}, answers := e.answers ++ [k] }
  | deliver {k : κ} {answers : List κ} (hanswers : e.answers = k :: answers) :
    Step e { e with waiting := e.waiting \ {k}, answers := answers }

/-- What the client waits for is on its way, and what is delivered before the
answer to the last request is all that the client waits for. -/
structure Balanced (e : Exchange κ) : Prop where
  covered : ∀ k ∈ e.waiting, k ∈ e.asked ∨ k ∈ e.owed ∨ k ∈ e.answers
  ahead : ∀ k ∈ e.last, ¬ e.taken → ∃ before, e.asked = before ++ [k] ∧ k ∉ before
  waits : ∀ k ∈ e.last, ¬ e.taken → k ∈ e.waiting
  taken : e.taken → e.last.Nonempty ∧ e.asked = []
  order : ∀ k ∈ e.last, ∀ before after, e.answers = before ++ k :: after →
    e.taken ∧ ∀ other ∈ e.waiting, other = k ∨ other ∈ before
  settled : ∀ k ∈ e.last, k ∉ e.waiting → e.waiting = ∅

theorem Balanced.init : Balanced ({} : Exchange κ) := by constructor <;> simp

/-- When nothing is on its way the client waits for nothing. -/
theorem Balanced.quiet (h : Balanced e) (hasked : e.asked = []) (howed : e.owed = ∅)
    (hanswers : e.answers = []) : e.waiting = ∅ := by
  rw [Set.eq_empty_iff_forall_notMem]
  intro k hk
  simpa [hasked, howed, hanswers] using h.covered k hk

theorem concat_eq_split {α : Type} {l before after : List α} {x y : α}
    (h : l ++ [x] = before ++ y :: after) :
    (x = y ∧ l = before) ∨ ∃ rest, l = before ++ y :: rest := by
  rcases List.eq_nil_or_concat after with rfl | ⟨rest, z, rfl⟩
  · obtain ⟨hl, hx⟩ := List.append_inj' h rfl
    exact .inl ⟨(List.cons.inj hx).1, hl⟩
  · have hl : l ++ [x] = (before ++ y :: rest) ++ [z] := by simpa using h
    exact .inr ⟨rest, (List.append_inj' hl rfl).1⟩

theorem Balanced.open_of_none (h : Balanced e) (hlast : e.last = ∅) : ¬ e.taken :=
  fun htaken ↦ (h.taken htaken).1.ne_empty hlast

theorem Balanced.ask (h : Balanced e) (k : κ) (hlast : e.last = ∅) :
    Balanced { e with waiting := insert k e.waiting, asked := e.asked ++ [k] } := by
  have hnone (other : κ) : other ∉ e.last := by simp [hlast]
  refine ⟨fun other hother ↦ ?_, fun other hk ↦ absurd hk (hnone other),
    fun other hk ↦ absurd hk (hnone other), fun htaken ↦ absurd htaken (h.open_of_none hlast),
    fun other hk ↦ absurd hk (hnone other), fun other hk ↦ absurd hk (hnone other)⟩
  rcases Set.mem_insert_iff.mp hother with rfl | hother
  · exact .inl (List.mem_append_right _ (List.mem_singleton_self _))
  · exact (h.covered other hother).imp_left fun hmem ↦ List.mem_append_left _ hmem

theorem Balanced.announce (h : Balanced e) {k : κ} (hlast : e.last = ∅) (hasked : k ∉ e.asked)
    (hanswers : k ∉ e.answers) :
    Balanced { e with waiting := insert k e.waiting, asked := e.asked ++ [k], last := {k} } := by
  refine ⟨(h.ask k hlast).covered, fun other hother _ ↦ ?_, fun other hother _ ↦ ?_,
    fun htaken ↦ absurd htaken (h.open_of_none hlast), fun other hother before after heq ↦ ?_,
    fun other hother hnot ↦ ?_⟩
  all_goals obtain rfl : other = k := hother
  · exact ⟨e.asked, rfl, hasked⟩
  · exact Set.mem_insert other e.waiting
  · have heq' : e.answers = before ++ other :: after := heq
    exact absurd (by simp [heq']) hanswers
  · exact absurd (Set.mem_insert other e.waiting) hnot

theorem Balanced.take (h : Balanced e) {k : κ} {asked : List κ} (hasked : e.asked = k :: asked) :
    Balanced { e with
      asked := asked, owed := insert k e.owed, taken := e.taken ∨ k ∈ e.last } := by
  have hopen : ¬ e.taken := fun htaken ↦ by cases hasked.symm.trans (h.taken htaken).2
  refine ⟨fun other hother ↦ ?_, fun other hother htaken ↦ ?_, fun other hother _ ↦ ?_,
    fun htaken ↦ ?_, fun other hother before after heq ↦ ?_, h.settled⟩
  · rcases h.covered other hother with hmem | hmem | hmem
    · rw [hasked] at hmem
      rcases List.mem_cons.mp hmem with rfl | hmem
      · exact .inr (.inl (Set.mem_insert other e.owed))
      · exact .inl hmem
    · exact .inr (.inl (Set.mem_insert_of_mem k hmem))
    · exact .inr (.inr hmem)
  · have hne : k ≠ other := fun hsame ↦ htaken (.inr (hsame ▸ hother))
    obtain ⟨before, hbefore, hnew⟩ := h.ahead other hother hopen
    rw [hasked] at hbefore
    cases before with
    | nil => exact absurd (List.cons.inj hbefore).1 hne
    | cons first before =>
      exact ⟨before, (List.cons.inj hbefore).2, fun hmem ↦ hnew (List.mem_cons_of_mem _ hmem)⟩
  · exact h.waits other hother hopen
  · have hlast : k ∈ e.last := htaken.resolve_left hopen
    obtain ⟨before, hbefore, hnew⟩ := h.ahead k hlast hopen
    rw [hasked] at hbefore
    cases before with
    | nil => exact ⟨⟨k, hlast⟩, (List.cons.inj hbefore).2⟩
    | cons first before =>
      obtain ⟨rfl, -⟩ := List.cons.inj hbefore
      exact absurd List.mem_cons_self hnew
  · exact absurd (h.order other hother before after heq).1 hopen

theorem Balanced.answer (h : Balanced e) (k : κ)
    (hlast : k ∈ e.last → e.taken ∧ ∀ other ∈ e.owed, other = k) :
    Balanced { e with owed := e.owed \ {k}, answers := e.answers ++ [k] } := by
  refine ⟨fun other hother ↦ ?_, h.ahead, h.waits, h.taken,
    fun other hother before after heq ↦ ?_, h.settled⟩
  · by_cases hsame : other = k
    · exact .inr (.inr (by simp [hsame]))
    · rcases h.covered other hother with hmem | hmem | hmem
      · exact .inl hmem
      · exact .inr (.inl ⟨hmem, hsame⟩)
      · exact .inr (.inr (List.mem_append_left _ hmem))
  · rcases concat_eq_split heq with ⟨rfl, hbefore⟩ | ⟨rest, hrest⟩
    · obtain ⟨htaken, howed⟩ := hlast hother
      refine ⟨htaken, fun other hwaits ↦ ?_⟩
      rcases h.covered other hwaits with hmem | hmem | hmem
      · rw [(h.taken htaken).2] at hmem
        cases hmem
      · exact .inl (howed other hmem)
      · exact .inr (hbefore ▸ hmem)
    · exact h.order other hother before rest hrest

theorem Balanced.deliver (h : Balanced e) {k : κ} {answers : List κ}
    (hanswers : e.answers = k :: answers) :
    Balanced { e with waiting := e.waiting \ {k}, answers := answers } := by
  have hends (hlast : k ∈ e.last) : e.taken ∧ ∀ other ∈ e.waiting, other = k := by
    obtain ⟨htaken, hwaits⟩ := h.order k hlast [] answers hanswers
    exact ⟨htaken, fun other hother ↦ (hwaits other hother).resolve_right (by simp)⟩
  refine ⟨fun other hother ↦ ?_, h.ahead, fun other hother hopen ↦ ⟨?_, fun hsame ↦ ?_⟩, h.taken,
    fun other hother before after heq ↦ ?_, fun other hother hnot ↦ ?_⟩
  · refine (h.covered other hother.1).imp_right fun hmem ↦ hmem.imp_right fun hmem ↦ ?_
    rw [hanswers] at hmem
    exact (List.mem_cons.mp hmem).resolve_left hother.2
  · exact h.waits other hother hopen
  · obtain rfl : other = k := hsame
    exact hopen (hends hother).1
  · have hsplit : e.answers = (k :: before) ++ other :: after := by
      rw [hanswers, List.cons_append]
      exact congrArg _ heq
    obtain ⟨htaken, hwaits⟩ := h.order other hother _ after hsplit
    refine ⟨htaken, fun third hthird ↦ (hwaits third hthird.1).imp_right fun hmem ↦ ?_⟩
    exact (List.mem_cons.mp hmem).resolve_left hthird.2
  · by_cases hsame : other = k
    · subst hsame
      exact Set.sdiff_eq_empty.mpr (hends hother).2
    · have hwaiting : e.waiting = ∅ := h.settled other hother fun hmem ↦ hnot ⟨hmem, hsame⟩
      simp [hwaiting]

theorem Balanced.step (h : Balanced e) (hstep : Step e e') : Balanced e' := by
  cases hstep with
  | ask k hlast => exact h.ask k hlast
  | announce k hlast hasked hanswers => exact h.announce hlast hasked hanswers
  | take hasked => exact h.take hasked
  | answer k hlast => exact h.answer k hlast
  | deliver hanswers => exact h.deliver hanswers

theorem Balanced.reflGen (h : Balanced e) (hstep : Relation.ReflGen Step e e') : Balanced e' := by
  cases hstep with
  | refl => exact h
  | single hstep => exact h.step hstep

end Exchange

end LibLitertLm
