import LibLitertLm.Bridge.Capacity

namespace LibLitertLm.Bridge

def offered (op : Operation) : Call → List (List UInt8)
  | .callback (some chunk) =>
    if op.final then [] else ((nonEmpty chunk.text).map CString.bytes).toList
  | _ => []

/-- The same runs as `operation`, watched from the producer's side. -/
def producer (id : ℕ) : Machine Operation Call (List UInt8) :=
  ⟨{}, fun op c ↦ ((call id op c).1, offered op c)⟩

@[simp] theorem producer_step (id : ℕ) (op : Operation) (c : Call) :
    (producer id).step op c = ((call id op c).1, offered op c) := rfl

@[simp] theorem producer_state (id : ℕ) (calls : List Call) :
    (producer id).state calls = (operation id).state calls := by
  induction calls using List.reverseRecOn with
  | nil => rfl
  | append_singleton calls c ih => simp [ih]

theorem offered_noNul {op : Operation} {c : Call} {bytes : List UInt8}
    (h : bytes ∈ offered op c) : 0 ∉ bytes := by
  unfold offered at h
  split at h
  · split_ifs at h
    · cases h
    · obtain ⟨text, -, rfl⟩ := Option.map_eq_some_iff.mp (Option.mem_toList.mp h)
      exact text.noNul
  · cases h

theorem passed_noNul (id : ℕ) (calls : List Call) :
    ∀ bytes ∈ (producer id).outputs calls, 0 ∉ bytes := by
  induction calls using List.reverseRecOn with
  | nil => exact fun bytes h ↦ by cases h
  | append_singleton calls c ih =>
    intro bytes h
    rw [Machine.outputs_concat, List.mem_append] at h
    exact h.elim (ih bytes) offered_noNul

def texts (events : List Event) : List (List UInt8) :=
  (events.filter fun e ↦ e.kind = 0).map Event.text

@[simp] theorem texts_nil : texts [] = [] := rfl

@[simp] theorem texts_append (events events' : List Event) :
    texts (events ++ events') = texts events ++ texts events' := by simp [texts]

theorem texts_cons (e : Event) (events : List Event) :
    texts (e :: events) = texts [e] ++ texts events := texts_append [e] events

theorem texts_text (id : ℕ) (text : List UInt8) : texts [⟨id, 0, text⟩] = [text] := rfl

theorem texts_terminal {e : Event} (h : e.kind ≠ 0) : texts [e] = [] := by simp [texts, h]

variable {op : Operation}

theorem accept_texts (h : Bounded op) (id : ℕ) (text : CString)
    (hc : (accept op id text).cancelled = false) (ho : (accept op id text).overflow = false) :
    op.cancelled = false ∧ op.overflow = false ∧
      texts (accept op id text).queue = texts op.queue ++ [text.bytes] := by
  unfold accept at hc ho ⊢
  split_ifs at hc ho ⊢ with hopen hfull
  · simp at ho
  · simp only [full, Bool.or_eq_true, decide_eq_true_eq, not_or, not_le, not_lt,
      sizeSub_of_le h.bytes, strnlen] at hfull
    have hlen : text.bytes.length ≤ strnlen text (kMaxBytes + 1) := by
      simp only [strnlen]
      omega
    refine ⟨hc, ho, ?_⟩
    rw [push_queue, texts_append, texts_text, List.take_of_length_le hlen]
  · simp [hc, ho] at hopen

/-- A plain completion keeps every queued text. -/
theorem finish_texts (h : Bounded op) (id : ℕ)
    (hc : (finish op id 1 []).cancelled = false) (ho : (finish op id 1 []).overflow = false) :
    op.cancelled = false ∧ op.overflow = false ∧
      texts (finish op id 1 []).queue = texts op.queue := by
  cases hf : op.final with
  | true =>
    rw [finish_of_final op id 1 [] hf] at hc ho ⊢
    exact ⟨hc, ho, rfl⟩
  | false =>
    obtain ⟨-, -, -, -, -, hcan, hover, -⟩ := finish_spec op id 1 [] hf
    rw [hcan] at hc
    rw [hover] at ho
    refine ⟨hc, ho, ?_⟩
    have hroom : ¬ sizeSub kMaxBytes 0 < op.bytes := by
      rw [sizeSub_of_le (Nat.zero_le _)]
      exact not_lt.mpr h.bytes
    simp [finish, verdict, conclude, hf, hc, ho, hroom, texts_terminal]

theorem callback_texts (h : Bounded op) (id : ℕ) (chunk : Option Chunk)
    (hc : (callback op id chunk).cancelled = false) (ho : (callback op id chunk).overflow = false)
    (he : ¬ failsFirst id op (.callback chunk)) :
    op.cancelled = false ∧ op.overflow = false ∧
      texts (callback op id chunk).queue = texts op.queue ++ offered op (.callback chunk) := by
  unfold callback at hc ho ⊢
  cases chunk with
  | none => exact ⟨hc, ho, by simp [offered]⟩
  | some chunk =>
    cases hf : op.final with
    | true =>
      simp only [hf, if_true] at hc ho ⊢
      exact ⟨hc, ho, by simp [offered, hf]⟩
    | false =>
      simp only [hf, Bool.false_eq_true, if_false, offered] at hc ho ⊢
      cases herr : nonEmpty chunk.error with
      | some error =>
        -- an error chunk finishes the operation, which the hypothesis rules out
        refine absurd ⟨hf, ?_, by simp [carriesError, herr]⟩ he
        obtain ⟨-, -, -, -, hfin, -⟩ := finish_spec op id 2
          (error.bytes.take (if kMaxBytes < strnlen error (kMaxBytes + 1) then kMaxBytes
            else strnlen error (kMaxBytes + 1))) hf
        simpa [call, callback, hf, herr] using hfin
      | none =>
        simp only [herr] at hc ho ⊢
        cases htext : nonEmpty chunk.text with
        | none =>
          simp only [htext, Option.map_none, Option.toList_none, List.append_nil] at hc ho ⊢
          cases hlast : chunk.final with
          | false =>
            simp only [hlast, Bool.false_eq_true, if_false] at hc ho ⊢
            exact ⟨hc, ho, trivial⟩
          | true =>
            simp only [hlast, if_true] at hc ho ⊢
            exact finish_texts h id hc ho
        | some text =>
          simp only [htext, Option.map_some, Option.toList_some] at hc ho ⊢
          cases hlast : chunk.final with
          | false =>
            simp only [hlast, Bool.false_eq_true, if_false] at hc ho ⊢
            exact accept_texts h id text hc ho
          | true =>
            simp only [hlast, if_true] at hc ho ⊢
            obtain ⟨hc', ho', htexts⟩ := finish_texts (h.accept hf id text) id hc ho
            obtain ⟨hc'', ho'', htexts'⟩ := accept_texts h id text hc' ho'
            exact ⟨hc'', ho'', htexts.trans htexts'⟩

/-- Until cancellation, overflow or a failure drops something, what was taken
and what is still queued is all the producer passed. -/
theorem lossless (id : ℕ) (calls : List Call)
    (hc : ((operation id).state calls).cancelled = false)
    (ho : ((operation id).state calls).overflow = false)
    (he : ¬ (operation id).Occurs (failsFirst id) calls) :
    texts ((operation id).outputs calls) ++ texts ((operation id).state calls).queue =
      (producer id).outputs calls := by
  induction calls using List.reverseRecOn with
  | nil => rfl
  | append_singleton calls c ih =>
    have hb := bounded id calls
    simp only [Machine.state_concat, Machine.outputs_concat, Machine.occurs_concat, not_or,
      operation_step, producer_step, producer_state] at hc ho he ⊢
    obtain ⟨he, hlast⟩ := he
    generalize (operation id).state calls = op at *
    cases c with
    | callback chunk =>
      obtain ⟨hc', ho', htexts⟩ := callback_texts hb id chunk hc ho hlast
      simp only [call, htexts, List.append_nil]
      rw [← List.append_assoc, ih hc' ho' he]
    | start =>
      have hq : (start op).1.queue = op.queue ∧ (start op).1.cancelled = op.cancelled ∧
          (start op).1.overflow = op.overflow := by
        unfold start
        split_ifs <;> exact ⟨rfl, rfl, rfl⟩
      simp only [call, hq] at hc ho ⊢
      simpa [offered] using ih hc ho he
    | startFailed error =>
      cases hf : op.final with
      | true =>
        simp only [call, startFailed, finish_of_final _ _ _ _ hf] at hc ho ⊢
        simpa [offered] using ih hc ho he
      | false =>
        obtain ⟨-, -, -, -, hfin, -⟩ := finish_spec op id 2 _ hf
        exact absurd ⟨hf, hfin, rfl⟩ hlast
    | cancel =>
      simp only [call, operationCancel] at hc ho ⊢
      cases hdone : op.cancelled || op.terminalTaken with
      | true =>
        simp only [hdone, if_true] at hc ho ⊢
        simpa [offered] using ih hc ho he
      | false => cases hf : op.final <;> simp [hdone, hf] at hc
    | take =>
      cases hq : op.queue with
      | nil =>
        simp only [call, operationTake, hq] at hc ho ⊢
        simpa [offered, hq] using ih hc ho he
      | cons event queue =>
        simp only [call, operationTake, hq] at hc ho ⊢
        have h := ih hc ho he
        rw [hq, texts_cons] at h
        simpa [offered] using h

/-- Once a plain completion has been taken, the texts taken before it are all
the texts the producer passed up to its final chunk. -/
theorem complete_texts (id : ℕ) (calls : List Call) {e : Event}
    (he : e ∈ (operation id).outputs calls) (hkind : e.kind = 1) :
    texts ((operation id).outputs calls) = (producer id).outputs calls := by
  have h := protocol id calls
  have ht : ((operation id).state calls).terminalTaken = true := by
    by_contra ht
    simp [h.texts (by simpa using ht) e he] at hkind
  obtain ⟨error, herror, before, last, houts, hbefore, hlast⟩ := h.closed (h.done ht).1
  rw [if_pos ht] at houts
  obtain rfl : e = last := by
    rw [houts] at he
    rcases List.mem_append.mp he with he | he
    · simp [hbefore e he] at hkind
    · exact List.mem_singleton.mp he
  obtain ⟨hc, ho, herr⟩ := terminalKind_eq_one.mp (hlast.symm.trans hkind)
  have hall := lossless id calls hc ho (herror.not.mp (by simp [herr]))
  simpa [(h.done ht).2] using hall

end LibLitertLm.Bridge
