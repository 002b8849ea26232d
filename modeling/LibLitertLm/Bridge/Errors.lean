import LibLitertLm.Bridge.Capacity

namespace LibLitertLm.Bridge

variable {id : ℕ} {op : Operation} {error : CString} {c : Call}

def Delivers (error : CString) : Call → Prop
  | .callback (some chunk) => nonEmpty chunk.error = some error
  | .startFailed e => e = some error
  | _ => False

def cut (error : CString) : List UInt8 := error.bytes.take kMaxBytes

def Fits (op : Operation) (error : CString) : Prop := op.bytes + (cut error).length ≤ kMaxBytes

instance : Decidable (Fits op error) := inferInstanceAs (Decidable (_ ≤ _))

def spared (op : Operation) (error : CString) : List Event := if Fits op error then op.queue else []

theorem cut_length_le (error : CString) : (cut error).length ≤ kMaxBytes := List.length_take_le ..

variable (id error) in
theorem finish_error (hfinal : op.final = false) (hcancelled : op.cancelled = false)
    (hoverflow : op.overflow = false) :
    (finish op id 2 (cut error)).final = true ∧
      (finish op id 2 (cut error)).queue = spared op error ++ [⟨id, 2, cut error⟩] := by
  have hshort : ¬ kMaxBytes < (cut error).length := not_lt.mpr (cut_length_le error)
  have hroom : kMaxBytes - (cut error).length < op.bytes ↔ ¬ Fits op error := by
    have hle := cut_length_le error
    rw [Fits]
    omega
  simp only [finish, hfinal, Bool.false_eq_true, if_false, verdict, hcancelled, hoverflow, conclude,
    if_neg hshort, sizeSub_of_le (cut_length_le error), hroom, spared]
  by_cases hfits : Fits op error
  · simp [hfits, push]
  · simp [hfits, push, clear]

variable (id) in
/-- The error is cut and queued behind the texts, or instead of them. -/
theorem call_delivers (hfinal : op.final = false) (hcancelled : op.cancelled = false)
    (hoverflow : op.overflow = false) (hc : Delivers error c) :
    (call id op c).1.final = true ∧
      (call id op c).1.queue = spared op error ++ [⟨id, 2, cut error⟩] := by
  have hfinish := finish_error id error hfinal hcancelled hoverflow
  match c, hc with
  | .startFailed _, rfl =>
    have hcut : error.bytes.take (strnlen error kMaxBytes) = cut error := by
      rw [strnlen, cut, ← List.take_take, List.take_of_length_le]
      exact List.length_take_le' ..
    simpa only [call, startFailed, hcut] using hfinish
  | .callback (some chunk), hc =>
    have hcut : error.bytes.take (if kMaxBytes < strnlen error (kMaxBytes + 1) then kMaxBytes
        else strnlen error (kMaxBytes + 1)) = cut error := by
      rw [strnlen, cut]
      split_ifs with hlong
      · rfl
      · rw [List.take_of_length_le (by omega), List.take_of_length_le (by omega)]
    have herror : nonEmpty chunk.error = some error := hc
    simpa only [call, callback, hfinal, Bool.false_eq_true, if_false, herror, hcut] using hfinish

variable (id) in
/-- Once it is final, an operation that is not cancelled only hands out its queue. -/
theorem call_drains (hfinal : op.final = true) (hc : c ≠ .cancel) :
    (call id op c).1.final = true ∧ op.queue = (call id op c).2 ++ (call id op c).1.queue := by
  cases c with
  | cancel => exact absurd rfl hc
  | start =>
    unfold call start
    split_ifs <;> exact ⟨hfinal, rfl⟩
  | startFailed e =>
    have hsame : startFailed op id e = op := finish_of_final _ _ _ _ hfinal
    rw [call, hsame]
    exact ⟨hfinal, rfl⟩
  | callback chunk =>
    cases chunk with
    | none => exact ⟨hfinal, rfl⟩
    | some chunk =>
      rw [call, callback]
      dsimp only
      rw [if_pos hfinal]
      exact ⟨hfinal, rfl⟩
  | take =>
    unfold call operationTake
    cases hqueue : op.queue with
    | nil => exact ⟨hfinal, by simp [hqueue]⟩
    | cons e queue => exact ⟨hfinal, rfl⟩

theorem drains {before after : List Call} (hfinal : ((operation id).state before).final = true)
    (hafter : .cancel ∉ after) :
    ((operation id).state (before ++ after)).final = true ∧
      ∃ read, (operation id).outputs (before ++ after) = (operation id).outputs before ++ read ∧
        ((operation id).state before).queue =
          read ++ ((operation id).state (before ++ after)).queue := by
  induction after using List.reverseRecOn with
  | nil => exact ⟨by rwa [List.append_nil], [], by simp⟩
  | append_singleton after c ih =>
    rw [List.mem_append, not_or] at hafter
    obtain ⟨hfinal', read, houtputs, hqueue⟩ := ih hafter.1
    have hc : c ≠ .cancel := fun h ↦ hafter.2 (by simp [h])
    obtain ⟨hnow, hdrained⟩ := call_drains id hfinal' hc
    rw [← List.append_assoc, Machine.state_concat, Machine.outputs_concat, operation_step]
    refine ⟨hnow, read ++ (call id ((operation id).state (before ++ after)) c).2, ?_, ?_⟩
    · rw [houtputs, List.append_assoc]
    · rw [List.append_assoc, ← hdrained]
      exact hqueue

/-- When only texts have been taken, the error is still at the end of the queue. -/
theorem error_queued {before after : List Call}
    (hfinal : ((operation id).state before).final = false)
    (hcancelled : ((operation id).state before).cancelled = false)
    (hoverflow : ((operation id).state before).overflow = false) (hc : Delivers error c)
    (hafter : .cancel ∉ after)
    (hread : ∀ e ∈ (operation id).outputs (before ++ c :: after), e.kind = 0) :
    ((operation id).state (before ++ c :: after)).final = true ∧
    ∃ read rest, (operation id).outputs (before ++ [c]) ++ read =
        (operation id).outputs (before ++ c :: after) ∧
      spared ((operation id).state before) error = read ++ rest ∧
      ((operation id).state (before ++ c :: after)).queue = rest ++ [⟨id, 2, cut error⟩] := by
  obtain ⟨hnow, hqueued⟩ := call_delivers id hfinal hcancelled hoverflow hc
  have hstate :
    (operation id).state (before ++ [c]) = (call id ((operation id).state before) c).1 :=
    Machine.state_concat ..
  rw [← hstate] at hnow hqueued
  have hsplit : before ++ c :: after = (before ++ [c]) ++ after := by simp
  rw [hsplit] at hread ⊢
  obtain ⟨hfinal', read, houtputs, hqueue⟩ := drains hnow hafter
  refine ⟨hfinal', read, ?_⟩
  rw [hqueued] at hqueue
  rcases List.eq_nil_or_concat ((operation id).state (before ++ [c] ++ after)).queue with
    hempty | ⟨rest, last, hlast⟩
  · -- the error itself would have been taken
    rw [hempty, List.append_nil] at hqueue
    have hmem : (⟨id, 2, cut error⟩ : Event) ∈ (operation id).outputs (before ++ [c] ++ after) := by
      rw [houtputs, ← hqueue]
      simp
    cases hread _ hmem
  · rw [hlast, List.concat_eq_append, ← List.append_assoc] at hqueue
    obtain ⟨hspared, herror⟩ := List.append_inj' hqueue rfl
    refine ⟨rest, houtputs.symm, hspared, ?_⟩
    rw [hlast, List.concat_eq_append, herror]

end LibLitertLm.Bridge
