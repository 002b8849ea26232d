import LibLitertLm.Bridge.Operation
import Mathlib.Tactic.Common

namespace LibLitertLm.Bridge

def refuses (op : Operation) : Call → Bool
  | .callback (some chunk) =>
    match nonEmpty chunk.error, nonEmpty chunk.text with
    | none, some text => !op.final && !op.cancelled && !op.overflow && full op text
    | _, _ => false
  | _ => false

def carriesError : Call → Bool
  | .callback (some chunk) => (nonEmpty chunk.error).isSome
  | .startFailed _ => true
  | _ => false

/-- The call is the first one to finish the operation, and reports a failure. -/
def failsFirst (id : ℕ) (op : Operation) (c : Call) : Prop :=
  op.final = false ∧ (call id op c).1.final = true ∧ carriesError c = true

section Steps

variable (op : Operation) (id : ℕ)

@[simp] theorem clear_queue : (clear op).queue = [] := rfl

@[simp] theorem clear_cancelled : (clear op).cancelled = op.cancelled := rfl

@[simp] theorem clear_overflow : (clear op).overflow = op.overflow := rfl

@[simp] theorem clear_final : (clear op).final = op.final := rfl

@[simp] theorem clear_terminalTaken : (clear op).terminalTaken = op.terminalTaken := rfl

variable (kind : ℕ) (text : List UInt8)

@[simp] theorem push_queue : (push op id kind text).queue = op.queue ++ [⟨id, kind, text⟩] := rfl

@[simp] theorem push_cancelled : (push op id kind text).cancelled = op.cancelled := rfl

@[simp] theorem push_overflow : (push op id kind text).overflow = op.overflow := rfl

@[simp] theorem push_final : (push op id kind text).final = op.final := rfl

@[simp] theorem push_terminalTaken : (push op id kind text).terminalTaken = op.terminalTaken := rfl

theorem finish_of_final (h : op.final = true) : finish op id kind text = op := by
  simp [finish, h]

/-- `Finish` appends one terminal event, possibly after dropping the queue, and
touches no flag but `final`. -/
theorem finish_spec (h : op.final = false) :
    ∃ texts error, (texts = op.queue ∨ texts = []) ∧
      (finish op id kind text).queue = texts ++
        [⟨id, if op.cancelled then 3 else if op.overflow then 4 else kind, error⟩] ∧
      (finish op id kind text).final = true ∧
      (finish op id kind text).cancelled = op.cancelled ∧
      (finish op id kind text).overflow = op.overflow ∧
      (finish op id kind text).terminalTaken = op.terminalTaken := by
  simp only [finish, verdict, conclude, h, Bool.false_eq_true, if_false]
  split_ifs <;> simp

theorem finish_final : (finish op id kind text).final = true := by
  cases hf : op.final with
  | true => rw [finish_of_final _ _ _ _ hf, hf]
  | false =>
    obtain ⟨-, -, -, -, hfin, -⟩ := finish_spec op id kind text hf
    exact hfin

theorem startFailed_final (error : Option CString) : (startFailed op id error).final = true :=
  finish_final ..

theorem accept_spec (text : CString) (h : ∀ e ∈ op.queue, e.kind = 0) :
    (∀ e ∈ (accept op id text).queue, e.kind = 0) ∧
      (accept op id text).final = op.final ∧
      (accept op id text).cancelled = op.cancelled ∧
      (accept op id text).overflow =
        (op.overflow || (!op.cancelled && !op.overflow && full op text)) ∧
      (accept op id text).terminalTaken = op.terminalTaken := by
  unfold accept
  cases hc : op.cancelled <;> cases ho : op.overflow <;> cases hf : full op text <;> simp_all
  rintro e (he | rfl)
  · exact h e he
  · rfl

end Steps

/-- The terminal kind once the flags are settled and `error` tells whether the
finishing call reported a failure. -/
def terminalKind (op : Operation) (error : Bool) : ℕ :=
  if op.cancelled then 3 else if op.overflow then 4 else if error then 2 else 1

theorem terminalKind_ne_zero (op : Operation) (error : Bool) : terminalKind op error ≠ 0 := by
  unfold terminalKind
  split_ifs <;> decide

theorem terminalKind_eq_one {op : Operation} {error : Bool} :
    terminalKind op error = 1 ↔ op.cancelled = false ∧ op.overflow = false ∧ error = false := by
  unfold terminalKind
  split_ifs <;> simp_all

/-- Exactly one event of non-zero kind is queued, behind texts only. -/
def EndsWith (queue : List Event) (kind : ℕ) : Prop :=
  ∃ texts last, queue = texts ++ [last] ∧ (∀ e ∈ texts, e.kind = 0) ∧ last.kind = kind

theorem finish_ends (op : Operation) (id kind : ℕ) (text : List UInt8) (h : op.final = false)
    (hq : ∀ e ∈ op.queue, e.kind = 0) :
    EndsWith (finish op id kind text).queue
      (if op.cancelled then 3 else if op.overflow then 4 else kind) := by
  obtain ⟨texts, error, ht, he, -⟩ := finish_spec op id kind text h
  refine ⟨texts, _, he, ?_, rfl⟩
  rcases ht with rfl | rfl
  · exact hq
  · simp

/-- What a producer's call does to an operation: nothing once it is final;
before that it queues texts or finishes with the terminal the flags call for. -/
structure Produces (op op' : Operation) (refused error : Bool) : Prop where
  cancelled : op'.cancelled = op.cancelled
  overflow : op'.overflow = (op.overflow || refused)
  terminalTaken : op'.terminalTaken = op.terminalTaken
  kept : op.final = true → op'.final = true ∧ op'.queue = op.queue
  texts : op.final = false → op'.final = false → ∀ e ∈ op'.queue, e.kind = 0
  ends : op.final = false → op'.final = true →
    EndsWith op'.queue (terminalKind op' error)

theorem Produces.of_flags {op op' : Operation} (hc : op'.cancelled = op.cancelled)
    (ho : op'.overflow = op.overflow) (hf : op'.final = op.final) (hqueue : op'.queue = op.queue)
    (ht : op'.terminalTaken = op.terminalTaken)
    (hq : op.final = false → ∀ e ∈ op.queue, e.kind = 0) (error : Bool) :
    Produces op op' false error :=
  ⟨hc, by simp [ho], ht, fun h ↦ ⟨hf.trans h, hqueue⟩, fun h _ ↦ hqueue ▸ hq h,
    fun h h' ↦ by simp [hf, h] at h'⟩

theorem finish_produces (op : Operation) (id : ℕ) (error : Bool) (text : List UInt8)
    (hq : op.final = false → ∀ e ∈ op.queue, e.kind = 0) :
    Produces op (finish op id (if error then 2 else 1) text) false error := by
  cases hf : op.final
  · obtain ⟨texts, err, ht, he, hfin, hc, ho, htt⟩ :=
      finish_spec op id (if error then 2 else 1) text hf
    refine ⟨hc, by simp [ho], htt, by simp [hf], by simp [hfin], fun _ _ ↦ ?_⟩
    have h := finish_ends op id (if error then 2 else 1) text hf (hq hf)
    simpa only [terminalKind, hc, ho] using h
  · rw [finish_of_final op id _ text hf]
    exact .of_flags rfl rfl rfl rfl rfl hq error

theorem start_produces (op : Operation) (hq : op.final = false → ∀ e ∈ op.queue, e.kind = 0) :
    Produces op (start op).1 false false := by
  unfold start
  split_ifs <;> refine .of_flags ?_ ?_ ?_ ?_ ?_ hq false <;> rfl

theorem callback_produces (op : Operation) (id : ℕ) (chunk : Option Chunk)
    (hq : op.final = false → ∀ e ∈ op.queue, e.kind = 0) :
    Produces op (callback op id chunk) (refuses op (.callback chunk))
      (carriesError (.callback chunk)) := by
  have hself (error : Bool) : Produces op op false error := .of_flags rfl rfl rfl rfl rfl hq error
  cases chunk with
  | none => exact hself _
  | some chunk =>
    cases hf : op.final with
    | true =>
      have hr : refuses op (.callback (some chunk)) = false := by
        simp only [refuses, hf]
        split <;> simp
      simpa only [callback, hf, hr, if_true] using hself _
    | false =>
      simp only [callback, hf, Bool.false_eq_true, if_false]
      cases he : nonEmpty chunk.error with
      | some error =>
        simpa [refuses, carriesError, he] using finish_produces op id true _ hq
      | none =>
        simp only [carriesError, he, Option.isSome_none]
        cases htext : nonEmpty chunk.text with
        | none =>
          simp only [refuses, he, htext]
          cases chunk.final with
          | false => exact hself _
          | true => exact finish_produces op id false [] hq
        | some text =>
          obtain ⟨ht, hfin, hc, ho, htt⟩ := accept_spec op id text (hq hf)
          simp only [refuses, he, htext, hf, Bool.not_false, Bool.true_and]
          cases chunk.final with
          | false => exact ⟨hc, ho, htt, by simp [hf], fun _ _ ↦ ht, by simp [hfin, hf]⟩
          | true =>
            have h := finish_produces (accept op id text) id false [] (fun _ ↦ ht)
            exact ⟨h.cancelled.trans hc, by simpa [ho] using h.overflow,
              h.terminalTaken.trans htt, by simp [hf], fun _ ↦ h.texts (hfin.trans hf),
              fun _ ↦ h.ends (hfin.trans hf)⟩

theorem callback_final (op : Operation) (id : ℕ) (chunk : Chunk) :
    (callback op id (some chunk)).final =
      (op.final || (nonEmpty chunk.error).isSome || chunk.final) := by
  have haccept (text : CString) : (accept op id text).final = op.final := by
    unfold accept
    split_ifs <;> rfl
  cases hf : op.final with
  | true => simp [callback, hf]
  | false =>
    cases he : nonEmpty chunk.error with
    | some error => simp [callback, hf, he, finish_final]
    | none =>
      cases hfinal : chunk.final with
      | true => simp [callback, hf, he, hfinal, finish_final]
      | false =>
        cases htext : nonEmpty chunk.text <;> simp [callback, hf, he, htext, hfinal, haccept]

/-- The state of an operation after some calls, and the events it has handed out. -/
structure Protocol (id : ℕ) (calls : List Call) (op : Operation) (taken : List Event) : Prop where
  running : op.final = false →
    (∀ e ∈ op.queue, e.kind = 0) ∧ ¬ (operation id).Occurs (failsFirst id) calls
  closed : op.final = true → ∃ error : Bool,
    (error = true ↔ (operation id).Occurs (failsFirst id) calls) ∧
      EndsWith (if op.terminalTaken then taken else op.queue) (terminalKind op error)
  done : op.terminalTaken = true → op.final = true ∧ op.queue = []
  texts : op.terminalTaken = false → ∀ e ∈ taken, e.kind = 0
  cancelled : op.terminalTaken = false → (op.cancelled = true ↔ .cancel ∈ calls)
  overflow : op.overflow = true ↔ (operation id).Occurs (fun s c ↦ refuses s c = true) calls

theorem refuses_of_final {op : Operation} (h : op.final = true) (c : Call) :
    refuses op c = false := by
  unfold refuses
  split
  · split <;> simp [h]
  · rfl

variable {id : ℕ} {calls : List Call} {taken : List Event}

theorem Protocol.producer (h : Protocol id calls ((operation id).state calls) taken) (c : Call)
    (hp : Produces ((operation id).state calls) (call id ((operation id).state calls) c).1
      (refuses ((operation id).state calls) c) (carriesError c)) (hc : c ≠ .cancel) :
    Protocol id (calls ++ [c]) (call id ((operation id).state calls) c).1 taken := by
  set op := (operation id).state calls
  have hfails : (operation id).Occurs (failsFirst id) (calls ++ [c]) ↔
      (operation id).Occurs (failsFirst id) calls ∨ failsFirst id op c :=
    Machine.occurs_concat _ _ _ _
  refine ⟨fun hf ↦ ?_, fun hf ↦ ?_, fun ht ↦ ?_, fun ht ↦ ?_, fun ht ↦ ?_, ?_⟩
  · have hop : op.final = false := by
      by_contra hop
      simp [(hp.kept (by simpa using hop)).1] at hf
    refine ⟨hp.texts hop hf, ?_⟩
    rw [hfails]
    rintro (hr | ⟨-, hr, -⟩)
    · exact (h.running hop).2 hr
    · simp [hf] at hr
  · cases hop : op.final with
    | true =>
      obtain ⟨error, he, hends⟩ := h.closed hop
      refine ⟨error, ?_, ?_⟩
      · simp [hfails, he, failsFirst, hop]
      · simpa only [hp.terminalTaken, (hp.kept hop).2, terminalKind, hp.cancelled, hp.overflow,
          refuses_of_final hop, Bool.or_false] using hends
    | false =>
      have ht : op.terminalTaken = false := by
        by_contra ht
        simp [(h.done (by simpa using ht)).1] at hop
      refine ⟨carriesError c, ?_, ?_⟩
      · simp [hfails, (h.running hop).2, failsFirst, hop, hf]
      · simpa [hp.terminalTaken, ht] using hp.ends hop hf
  · rw [hp.terminalTaken] at ht
    obtain ⟨hfin, hq⟩ := h.done ht
    obtain ⟨hfin', hq'⟩ := hp.kept hfin
    exact ⟨hfin', hq'.trans hq⟩
  · rw [hp.terminalTaken] at ht
    exact h.texts ht
  · rw [hp.terminalTaken] at ht
    simp only [hp.cancelled, h.cancelled ht, List.mem_append, List.mem_singleton, hc.symm, or_false]
  · simp only [hp.overflow, Bool.or_eq_true, h.overflow, Machine.occurs_concat]
    rfl

theorem Protocol.cancel (h : Protocol id calls ((operation id).state calls) taken) :
    Protocol id (calls ++ [.cancel]) (operationCancel ((operation id).state calls) id) taken := by
  set op := (operation id).state calls
  have hfails : (operation id).Occurs (failsFirst id) (calls ++ [.cancel]) =
      (operation id).Occurs (failsFirst id) calls := by
    simp [failsFirst, carriesError]
  have hover : (operation id).Occurs (fun s c ↦ refuses s c = true) (calls ++ [.cancel]) =
      (operation id).Occurs (fun s c ↦ refuses s c = true) calls := by
    simp [refuses]
  unfold operationCancel
  cases ht : op.terminalTaken with
  | true =>
    simp only [Bool.or_true, if_true]
    exact ⟨by simp [(h.done ht).1], hfails ▸ h.closed, h.done, by simp [ht], by simp [ht],
      hover ▸ h.overflow⟩
  | false =>
    cases hc : op.cancelled with
    | true =>
      simp only [Bool.true_or, if_true]
      exact ⟨hfails ▸ h.running, hfails ▸ h.closed, h.done, h.texts, fun _ ↦ by simp [hc],
        hover ▸ h.overflow⟩
    | false =>
      simp only [Bool.or_self, Bool.false_eq_true, if_false, clear_final]
      cases hf : op.final with
      | false =>
        exact ⟨fun _ ↦ ⟨by simp, hfails ▸ (h.running hf).2⟩, by simp, by simp,
          fun _ ↦ h.texts ht, by simp, hover ▸ h.overflow⟩
      | true =>
        obtain ⟨error, he, -⟩ := h.closed hf
        refine ⟨by simp, fun _ ↦ ⟨error, hfails ▸ he, [], ⟨id, 3, []⟩, ?_⟩, by simp,
          fun _ ↦ h.texts ht, by simp, hover ▸ h.overflow⟩
        simp [terminalKind]

theorem Protocol.take (h : Protocol id calls ((operation id).state calls) taken) :
    Protocol id (calls ++ [.take]) (operationTake ((operation id).state calls)).1
      (taken ++ (operationTake ((operation id).state calls)).2.toList) := by
  set op := (operation id).state calls
  have hfails : (operation id).Occurs (failsFirst id) (calls ++ [.take]) =
      (operation id).Occurs (failsFirst id) calls := by
    simp [failsFirst, carriesError]
  have hover : (operation id).Occurs (fun s c ↦ refuses s c = true) (calls ++ [.take]) =
      (operation id).Occurs (fun s c ↦ refuses s c = true) calls := by
    simp [refuses]
  have hcancel : (Call.cancel ∈ calls ++ [.take]) = (Call.cancel ∈ calls) := by simp
  cases hq : op.queue with
  | nil =>
    simp only [operationTake, hq, Option.toList_none, List.append_nil]
    exact ⟨hfails ▸ h.running, hfails ▸ h.closed, h.done, h.texts, hcancel ▸ h.cancelled,
      hover ▸ h.overflow⟩
  | cons event queue =>
    have ht : op.terminalTaken = false := by
      by_contra ht
      simp [(h.done (by simpa using ht)).2] at hq
    have htaken (hzero : event.kind = 0) : ∀ e ∈ taken ++ [event], e.kind = 0 := by
      intro e he
      rcases List.mem_append.mp he with he | he
      · exact h.texts ht e he
      · rw [List.mem_singleton.mp he, hzero]
    simp only [operationTake, hq, Option.toList_some, ht, Bool.false_or]
    cases hf : op.final with
    | false =>
      -- only texts are queued, so a text is taken
      obtain ⟨htexts, hnever⟩ := h.running hf
      have hzero : event.kind = 0 := htexts event (by simp [hq])
      exact ⟨fun _ ↦ ⟨fun e he ↦ htexts e (by simp [hq, he]), hfails ▸ hnever⟩, by simp,
        by simp [hzero], fun _ ↦ htaken hzero, fun _ ↦ hcancel ▸ h.cancelled ht,
        hover ▸ h.overflow⟩
    | true =>
      obtain ⟨error, he, hends⟩ := h.closed hf
      simp only [ht, hq, Bool.false_eq_true, if_false] at hends
      obtain ⟨texts, last, hends, htexts, hkind⟩ := hends
      cases texts with
      | nil =>
        -- the terminal itself is taken, and nothing is left behind it
        obtain ⟨rfl, rfl⟩ : event = last ∧ queue = [] := by simpa using hends
        have hne : event.kind ≠ 0 := hkind ▸ terminalKind_ne_zero op error
        refine ⟨by simp, fun _ ↦ ⟨error, hfails ▸ he, ?_⟩, fun _ ↦ ⟨rfl, rfl⟩, by simp [hne],
          by simp [hne], hover ▸ h.overflow⟩
        rw [if_pos (by simpa using hne)]
        exact ⟨taken, event, rfl, h.texts ht, hkind⟩
      | cons text texts =>
        obtain ⟨rfl, rfl⟩ : event = text ∧ queue = texts ++ [last] := by simpa using hends
        have hzero : event.kind = 0 := htexts event (by simp)
        refine ⟨by simp, fun _ ↦ ⟨error, hfails ▸ he, ?_⟩, by simp [hzero],
          fun _ ↦ htaken hzero, fun _ ↦ hcancel ▸ h.cancelled ht, hover ▸ h.overflow⟩
        simp only [hzero, bne_self_eq_false, Bool.false_eq_true, if_false]
        exact ⟨texts, last, rfl, fun e he ↦ htexts e (by simp [he]), hkind⟩

theorem protocol (id : ℕ) (calls : List Call) :
    Protocol id calls ((operation id).state calls) ((operation id).outputs calls) := by
  induction calls using List.reverseRecOn with
  | nil =>
    exact ⟨by simp, by simp, by simp, by simp, by simp, by simp⟩
  | append_singleton calls c ih =>
    rw [Machine.state_concat, Machine.outputs_concat]
    have hq (hf : ((operation id).state calls).final = false) := (ih.running hf).1
    cases c with
    | cancel => simpa [call] using ih.cancel
    | take => exact ih.take
    | start =>
      simpa [call] using ih.producer .start (start_produces _ hq) (by simp)
    | startFailed error =>
      simpa [call] using ih.producer (.startFailed error)
        (finish_produces _ id true _ hq) (by simp)
    | callback chunk =>
      simpa [call] using ih.producer (.callback chunk)
        (callback_produces _ id chunk hq) (by simp)

/-- A terminal at the head of the queue is the verdict on the operation. -/
theorem Protocol.head {op : Operation} (h : Protocol id calls op taken) {e : Event}
    {queue : List Event} (hq : op.queue = e :: queue) (hne : e.kind ≠ 0) :
    op.final = true ∧ op.terminalTaken = false ∧ ∃ error : Bool,
      (error = true ↔ (operation id).Occurs (failsFirst id) calls) ∧
        e.kind = terminalKind op error := by
  have ht : op.terminalTaken = false := by
    by_contra ht
    simp [(h.done (by simpa using ht)).2] at hq
  have hf : op.final = true := by
    by_contra hf
    exact hne ((h.running (by simpa using hf)).1 e (by simp [hq]))
  obtain ⟨error, he, texts, last, hends, htexts, hkind⟩ := h.closed hf
  rw [if_neg (by simp [ht]), hq] at hends
  refine ⟨hf, ht, error, he, ?_⟩
  cases texts with
  | nil =>
    obtain ⟨rfl, -⟩ : e = last ∧ queue = [] := by simpa using hends
    exact hkind
  | cons text texts =>
    obtain ⟨rfl, -⟩ : e = text ∧ queue = texts ++ [last] := by simpa using hends
    exact absurd (htexts e (by simp)) hne

/-- A completion is only taken after a plain final chunk. -/
theorem take_complete {e : Event} (h : (operationTake ((operation id).state calls)).2 = some e)
    (hkind : e.kind = 1) :
    ((operation id).state calls).final = true ∧ ¬ (operation id).Occurs (failsFirst id) calls := by
  cases hq : ((operation id).state calls).queue with
  | nil => simp [operationTake, hq] at h
  | cons event queue =>
    obtain rfl : event = e := by simpa [operationTake, hq] using h
    obtain ⟨hf, -, error, herror, he⟩ := (protocol id calls).head hq (by simp [hkind])
    obtain ⟨-, -, rfl⟩ := terminalKind_eq_one.mp (he.symm.trans hkind)
    exact ⟨hf, herror.not.mp (by simp)⟩

open scoped Classical in
/-- A terminal is never lost, duplicated or followed by anything, and its kind
is settled by the cancel, refusal or finishing call that came before it. -/
theorem terminal_protocol (id : ℕ) (calls : List Call) :
    (∃ texts terminal, (operation id).outputs calls = texts ++ terminal ∧
      (∀ e ∈ texts, e.kind = 0) ∧ terminal.length ≤ 1 ∧ ∀ e ∈ terminal, e.kind ≠ 0) ∧
    (((operation id).state calls).final = true → (∀ e ∈ (operation id).outputs calls, e.kind = 0) →
      ∃ texts last, ((operation id).state calls).queue = texts ++ [last] ∧
        (∀ e ∈ texts, e.kind = 0) ∧ last.kind ≠ 0) ∧
    (((operation id).state calls).final = false →
      ∀ e ∈ ((operation id).state calls).queue, e.kind = 0) ∧
    ∀ before after e, calls = before ++ .take :: after →
      (operationTake ((operation id).state before)).2 = some e → e.kind ≠ 0 →
      e.kind = if .cancel ∈ before then 3
        else if (operation id).Occurs (fun op c ↦ refuses op c = true) before then 4
        else if (operation id).Occurs (failsFirst id) before then 2
        else 1 := by
  have h := protocol id calls
  refine ⟨?_, fun hf hout ↦ ?_, fun hf ↦ (h.running hf).1, ?_⟩
  · cases ht : ((operation id).state calls).terminalTaken with
    | false => exact ⟨_, [], by simp, h.texts ht, by simp, by simp⟩
    | true =>
      obtain ⟨error, -, hends⟩ := h.closed (h.done ht).1
      obtain ⟨texts, last, he, htexts, hkind⟩ := by simpa only [ht, if_true] using hends
      have hne := terminalKind_ne_zero ((operation id).state calls) error
      exact ⟨texts, [last], he, htexts, by simp, by simpa [hkind] using hne⟩
  · have ht : ((operation id).state calls).terminalTaken = false := by
      by_contra ht
      obtain ⟨error, -, texts, last, he, -, hkind⟩ := h.closed hf
      rw [if_pos (by simpa using ht)] at he
      exact terminalKind_ne_zero _ error (hkind ▸ hout last (by simp [he]))
    obtain ⟨error, -, texts, last, hq, htexts, hkind⟩ := h.closed hf
    rw [if_neg (by simp [ht])] at hq
    exact ⟨texts, last, hq, htexts, hkind ▸ terminalKind_ne_zero _ error⟩
  · rintro before after e - htake hne
    have hb := protocol id before
    cases hq : ((operation id).state before).queue with
    | nil => simp [operationTake, hq] at htake
    | cons event queue =>
      obtain rfl : event = e := by simpa [operationTake, hq] using htake
      obtain ⟨-, ht, error, he, hkind⟩ := hb.head hq hne
      rw [hkind, terminalKind]
      simp only [hb.cancelled ht, hb.overflow, he]

def Labelled (id : ℕ) (op : Operation) : Prop := ∀ e ∈ op.queue, e.id = id

theorem Labelled.push {id : ℕ} {op : Operation} (h : Labelled id op) (kind : ℕ)
    (text : List UInt8) :
    Labelled id (push op id kind text) := by
  intro e he
  rcases List.mem_append.mp he with he | he
  · exact h e he
  · rw [List.mem_singleton.mp he]

theorem Labelled.clear (id : ℕ) (op : Operation) : Labelled id (clear op) := by simp [Labelled]

theorem Labelled.finish {id : ℕ} {op : Operation} (h : Labelled id op) (kind : ℕ)
    (text : List UInt8) : Labelled id (finish op id kind text) := by
  unfold Bridge.finish Bridge.verdict Bridge.conclude
  split_ifs
  · exact h
  all_goals dsimp only
  all_goals split_ifs <;> first | exact (Labelled.clear id _).push _ _ | exact Labelled.push h _ _

theorem Labelled.accept {id : ℕ} {op : Operation} (h : Labelled id op) (text : CString) :
    Labelled id (accept op id text) := by
  unfold Bridge.accept
  split_ifs
  · exact Labelled.clear id _
  · exact h.push _ _
  · exact h

theorem Labelled.callback {id : ℕ} {op : Operation} (h : Labelled id op) (chunk : Option Chunk) :
    Labelled id (callback op id chunk) := by
  unfold Bridge.callback
  cases chunk with
  | none => exact h
  | some chunk =>
    cases hf : op.final with
    | true => simpa [hf] using h
    | false =>
      simp only [Bool.false_eq_true, if_false]
      cases nonEmpty chunk.error with
      | some error => exact h.finish _ _
      | none =>
        cases nonEmpty chunk.text with
        | none => cases chunk.final with
          | false => exact h
          | true => exact h.finish _ _
        | some text => cases chunk.final with
          | false => exact h.accept text
          | true => exact (h.accept text).finish _ _

theorem labelled (id : ℕ) (calls : List Call) : Labelled id ((operation id).state calls) := by
  induction calls using List.reverseRecOn with
  | nil => simp [Labelled]
  | append_singleton calls c ih =>
    rw [Machine.state_concat, operation_step]
    cases c with
    | start =>
      simp only [call, start]
      split_ifs <;> exact ih
    | startFailed error => exact ih.finish _ _
    | callback chunk => exact ih.callback chunk
    | cancel =>
      simp only [call, operationCancel]
      split_ifs
      · exact ih
      · exact (Labelled.clear id _).push _ _
      · exact Labelled.clear id _
    | take =>
      simp only [call, operationTake]
      cases hq : ((operation id).state calls).queue with
      | nil => exact ih
      | cons event queue => exact fun e he ↦ ih e (by simp [hq, show e ∈ queue from he])

end LibLitertLm.Bridge
