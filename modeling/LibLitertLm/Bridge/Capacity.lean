import LibLitertLm.Bridge.Protocol
import Mathlib.Tactic.Linarith

namespace LibLitertLm.Bridge

theorem sizeSub_of_le {a b : ℕ} (h : b ≤ a) : sizeSub a b = a - b := if_pos h

theorem sizeAdd_of_le {a b : ℕ} (h : a + b ≤ kMaxBytes) : sizeAdd a b = a + b :=
  Nat.mod_eq_of_lt (h.trans_lt (by decide))

def size (queue : List Event) : ℕ := (queue.map fun e ↦ e.text.length).sum

@[simp] theorem size_nil : size [] = 0 := rfl

@[simp] theorem size_cons (e : Event) (queue : List Event) :
    size (e :: queue) = e.text.length + size queue := rfl

@[simp] theorem size_append (queue queue' : List Event) :
    size (queue ++ queue') = size queue + size queue' := by simp [size]

/-- The byte count is exact and bounded, and a slot stays free for the terminal. -/
structure Bounded (op : Operation) : Prop where
  exact : op.bytes = size op.queue
  bytes : op.bytes ≤ kMaxBytes
  slots : op.queue.length ≤ if op.final then kMaxEvents else kMaxEvents - 1

variable {op : Operation}

theorem Bounded.clear (op : Operation) : Bounded (clear op) := by
  refine ⟨rfl, Nat.zero_le _, ?_⟩
  simp

theorem Bounded.push (h : Bounded op) (id kind : ℕ) (text : List UInt8)
    (hb : op.bytes + text.length ≤ kMaxBytes)
    (hs : op.queue.length < if op.final then kMaxEvents else kMaxEvents - 1) :
    Bounded (push op id kind text) := by
  have hadd := sizeAdd_of_le hb
  refine ⟨?_, ?_, ?_⟩
  · simp only [Bridge.push, size_append, size_cons, size_nil, Nat.add_zero]
    rw [hadd, h.exact]
  · simpa only [Bridge.push, hadd] using hb
  · simp only [Bridge.push, List.length_append, List.length_singleton]
    exact Nat.succ_le_of_lt hs

theorem Bounded.accept (h : Bounded op) (hf : op.final = false) (id : ℕ) (text : CString) :
    Bounded (accept op id text) := by
  unfold Bridge.accept
  split_ifs with hopen hfull
  · exact .clear _
  · have hb := h.bytes
    simp only [full, Bool.or_eq_true, decide_eq_true_eq, not_or, not_le, not_lt,
      sizeSub_of_le h.bytes] at hfull
    refine h.push id 0 _ ?_ ?_
    · have := List.length_take_le (strnlen text (kMaxBytes + 1)) text.bytes
      omega
    · simp only [hf, Bool.false_eq_true, if_false]
      omega
  · exact h

/-- The last push of `Finish` always finds room. -/
theorem Bounded.conclude (h : Bounded op) (hf : op.final = true)
    (hs : op.queue.length < kMaxEvents) (id kind : ℕ) (error : List UInt8) :
    Bounded (conclude op id kind error) := by
  unfold Bridge.conclude
  extract_lets error' op'
  have he : error'.length ≤ kMaxBytes := by
    dsimp only [error']
    split_ifs with hlen
    · exact List.length_take_le _ _
    · omega
  dsimp only [op']
  rw [sizeSub_of_le he]
  split_ifs with hb
  · exact (Bounded.clear op).push id kind _ (by simpa [Bridge.clear] using he)
      (by simp [hf, kMaxEvents])
  · exact h.push id kind _ (by omega) (by simpa [hf] using hs)

theorem Bounded.finish (h : Bounded op) (id kind : ℕ) (error : List UInt8) :
    Bounded (finish op id kind error) := by
  unfold Bridge.finish
  cases hf : op.final with
  | true => simpa using h
  | false =>
    have hs : op.queue.length < kMaxEvents := by
      have := h.slots
      simp only [hf, Bool.false_eq_true, if_false, kMaxEvents] at this ⊢
      omega
    have hfinal : Bounded { op with final := true } := ⟨h.exact, h.bytes, by simpa using hs.le⟩
    simp only [Bool.false_eq_true, if_false, verdict]
    split_ifs
    · exact (Bounded.clear _).conclude rfl (by simp [kMaxEvents]) _ _ _
    · exact (Bounded.clear _).conclude rfl (by simp [kMaxEvents]) _ _ _
    · exact hfinal.conclude rfl hs _ _ _

theorem Bounded.callback (h : Bounded op) (id : ℕ) (chunk : Option Chunk) :
    Bounded (callback op id chunk) := by
  unfold Bridge.callback
  cases chunk with
  | none => exact h
  | some chunk =>
    cases hf : op.final with
    | true => simpa [hf] using h
    | false =>
      simp only [Bool.false_eq_true, if_false]
      cases nonEmpty chunk.error with
      | some error => exact h.finish _ _ _
      | none =>
        cases nonEmpty chunk.text with
        | none =>
          cases chunk.final with
          | false => exact h
          | true => exact h.finish _ _ _
        | some text =>
          cases chunk.final with
          | false => exact h.accept hf _ _
          | true => exact (h.accept hf _ _).finish _ _ _

theorem Bounded.cancel (h : Bounded op) (id : ℕ) : Bounded (operationCancel op id) := by
  simp only [operationCancel]
  split_ifs
  · exact h
  · refine (Bounded.clear _).push id 3 [] (Nat.zero_le _) ?_
    simp only [clear_queue, List.length_nil]
    split_ifs
    decide
  · exact .clear _

theorem Bounded.take (h : Bounded op) : Bounded (operationTake op).1 := by
  cases hq : op.queue with
  | nil => simpa [operationTake, hq] using h
  | cons event queue =>
    have hexact : op.bytes = event.text.length + size queue := by simpa [hq] using h.exact
    have hbytes := h.bytes
    have hslots := h.slots
    simp only [hq, List.length_cons] at hslots
    have hsub : sizeSub op.bytes event.text.length = size queue := by
      rw [sizeSub_of_le (by omega)]
      omega
    simp only [operationTake, hq, hsub]
    exact ⟨rfl, by dsimp only; omega, (Nat.le_succ _).trans hslots⟩

theorem Bounded.call (h : Bounded op) (id : ℕ) (c : Call) : Bounded (call id op c).1 := by
  cases c with
  | start =>
    simp only [Bridge.call, start]
    split_ifs
    · exact h
    · exact ⟨h.exact, h.bytes, h.slots⟩
  | startFailed error => exact h.finish _ _ _
  | callback chunk => exact h.callback id chunk
  | cancel => exact h.cancel id
  | take => exact h.take

theorem bounded (id : ℕ) (calls : List Call) : Bounded ((operation id).state calls) := by
  induction calls using List.reverseRecOn with
  | nil => exact ⟨rfl, Nat.zero_le _, by simp⟩
  | append_singleton calls c ih =>
    rw [Machine.state_concat]
    exact ih.call id c

section Checked

/-- A `size_t` subtraction that stops where the code's would wrap. -/
def subChecked (a b : ℕ) : Option ℕ := if b ≤ a then some (a - b) else none

def concludeChecked (op : Operation) (id kind : ℕ) (error : List UInt8) : Option Operation := do
  let error := if kMaxBytes < error.length then error.take kMaxBytes else error
  let room ← subChecked kMaxBytes error.length
  let op := if room < op.bytes then clear op else op
  return push op id kind error

def finishChecked (op : Operation) (id kind : ℕ) (error : List UInt8) : Option Operation :=
  if op.final then some op
  else
    let (op, kind, error) := verdict { op with final := true } kind error
    concludeChecked op id kind error

def fullChecked (op : Operation) (text : CString) : Option Bool :=
  if kMaxEvents - 1 ≤ op.queue.length then some true
  else do
    let room ← subChecked kMaxBytes op.bytes
    return decide (room < strnlen text (kMaxBytes + 1))

def acceptChecked (op : Operation) (id : ℕ) (text : CString) : Option Operation :=
  if !op.cancelled && !op.overflow then do
    if ← fullChecked op text then return clear { op with overflow := true }
    else return push op id 0 (text.bytes.take (strnlen text (kMaxBytes + 1)))
  else some op

def callbackChecked (op : Operation) (id : ℕ) (chunk : Option Chunk) : Option Operation :=
  match chunk with
  | none => some op
  | some chunk =>
    if op.final then some op
    else match nonEmpty chunk.error with
      | some error =>
        let n := strnlen error (kMaxBytes + 1)
        finishChecked op id 2 (error.bytes.take (if kMaxBytes < n then kMaxBytes else n))
      | none => do
        let op ← match nonEmpty chunk.text with
          | some text => acceptChecked op id text
          | none => some op
        if chunk.final then finishChecked op id 1 [] else some op

def takeChecked (op : Operation) : Option (Operation × Option Event) :=
  match op.queue with
  | [] => some (op, none)
  | event :: queue => do
    let bytes ← subChecked op.bytes event.text.length
    return ({ op with
        queue := queue
        bytes := bytes
        terminalTaken := op.terminalTaken || event.kind != 0 }, some event)

/-- The bridge's calls as `call` has them, except that a subtraction that
would wrap gives nothing. -/
def callChecked (id : ℕ) (op : Operation) : Call → Option (Operation × List Event)
  | .start => some ((start op).1, [])
  | .startFailed error => (finishChecked op id 2 (match error with
    | some error => error.bytes.take (strnlen error kMaxBytes)
    | none => ascii "Native stream failed to start")).map fun op ↦ (op, [])
  | .callback chunk => (callbackChecked op id chunk).map fun op ↦ (op, [])
  | .cancel => some (operationCancel op id, [])
  | .take => (takeChecked op).map fun (op, event) ↦ (op, event.toList)

theorem subChecked_of_le {a b : ℕ} (h : b ≤ a) : subChecked a b = some (sizeSub a b) := by
  rw [subChecked, if_pos h, sizeSub_of_le h]

/-- An error is cut before room is made for it. -/
theorem concludeChecked_eq (op : Operation) (id kind : ℕ) (error : List UInt8) :
    concludeChecked op id kind error = some (conclude op id kind error) := by
  have hcut : (if kMaxBytes < error.length then error.take kMaxBytes else error).length ≤
      kMaxBytes := by
    split_ifs with hlen
    · exact List.length_take_le _ _
    · omega
  simp only [concludeChecked, subChecked_of_le hcut]
  rfl

theorem finishChecked_eq (op : Operation) (id kind : ℕ) (error : List UInt8) :
    finishChecked op id kind error = some (finish op id kind error) := by
  simp only [finishChecked, concludeChecked_eq, finish]
  split_ifs <;> rfl

theorem Bounded.acceptChecked_eq (h : Bounded op) (id : ℕ) (text : CString) :
    acceptChecked op id text = some (Bridge.accept op id text) := by
  have hfull : fullChecked op text = some (full op text) := by
    rw [fullChecked, subChecked_of_le h.bytes, full]
    split_ifs with hslots <;> simp [hslots]
  unfold acceptChecked Bridge.accept
  rw [hfull]
  cases hroom : full op text with
  | true => cases !op.cancelled && !op.overflow <;> rfl
  | false => cases !op.cancelled && !op.overflow <;> rfl

theorem Bounded.callbackChecked_eq (h : Bounded op) (id : ℕ) (chunk : Option Chunk) :
    callbackChecked op id chunk = some (Bridge.callback op id chunk) := by
  unfold callbackChecked Bridge.callback
  cases chunk with
  | none => rfl
  | some chunk =>
    dsimp only
    split_ifs with hf hfinal
    · rfl
    · cases nonEmpty chunk.error with
      | some error => exact finishChecked_eq ..
      | none =>
        cases nonEmpty chunk.text with
        | none => exact finishChecked_eq ..
        | some text =>
          dsimp only
          rw [h.acceptChecked_eq]
          exact finishChecked_eq ..
    · cases nonEmpty chunk.error with
      | some error => exact finishChecked_eq ..
      | none =>
        cases nonEmpty chunk.text with
        | none => rfl
        | some text =>
          dsimp only
          rw [h.acceptChecked_eq]
          rfl

theorem Bounded.takeChecked_eq (h : Bounded op) : takeChecked op = some (operationTake op) := by
  unfold takeChecked operationTake
  cases hq : op.queue with
  | nil => rfl
  | cons event queue =>
    have hexact := h.exact
    rw [hq, size_cons] at hexact
    simp only [subChecked_of_le (show event.text.length ≤ op.bytes by omega)]
    rfl

theorem Bounded.callChecked_eq (h : Bounded op) (id : ℕ) (c : Call) :
    callChecked id op c = some (Bridge.call id op c) := by
  cases c with
  | start => rfl
  | startFailed error =>
    simp only [callChecked, finishChecked_eq, Option.map_some]
    rfl
  | callback chunk =>
    simp only [callChecked, h.callbackChecked_eq, Option.map_some]
    rfl
  | cancel => rfl
  | take =>
    simp only [callChecked, h.takeChecked_eq, Option.map_some]
    rfl

end Checked

def Silent (op : Operation) : Prop := op.overflow = true → ∀ e ∈ op.queue, e.kind ≠ 0

theorem Silent.finish (h : Silent op) (id kind : ℕ) (text : List UInt8) :
    Silent (finish op id kind text) := by
  cases hf : op.final with
  | true =>
    rw [finish_of_final op id kind text hf]
    exact h
  | false =>
    obtain ⟨texts, error, ht, hqueue, -, -, hoverflow, -⟩ := finish_spec op id kind text hf
    intro ho e he
    rw [hoverflow] at ho
    rw [hqueue, List.mem_append, List.mem_singleton] at he
    rcases he with he | rfl
    · rcases ht with rfl | rfl
      · exact h ho e he
      · cases he
    · dsimp only
      split_ifs <;> decide

theorem Silent.accept (h : Silent op) (id : ℕ) (text : CString) : Silent (accept op id text) := by
  unfold Bridge.accept
  split_ifs with hopen
  · exact fun _ e he ↦ by cases he
  · intro ho
    simp only [push_overflow] at ho
    simp [ho] at hopen
  · exact h

theorem Silent.callback (h : Silent op) (id : ℕ) (chunk : Option Chunk) :
    Silent (callback op id chunk) := by
  unfold Bridge.callback
  cases chunk with
  | none => exact h
  | some chunk =>
    dsimp only
    split_ifs with hf hfinal
    · exact h
    · cases nonEmpty chunk.error with
      | some error => exact h.finish _ _ _
      | none =>
        cases nonEmpty chunk.text with
        | none => exact h.finish _ _ _
        | some text => exact (h.accept id text).finish _ _ _
    · cases nonEmpty chunk.error with
      | some error => exact h.finish _ _ _
      | none =>
        cases nonEmpty chunk.text with
        | none => exact h
        | some text => exact h.accept id text

theorem Silent.cancel (h : Silent op) (id : ℕ) : Silent (operationCancel op id) := by
  simp only [operationCancel]
  split_ifs with hdone hf
  · exact h
  · intro _ e he
    obtain rfl : e = ⟨id, 3, []⟩ := by simpa using he
    exact three_ne_zero
  · intro _ e he
    cases he

theorem Silent.call (h : Silent op) (id : ℕ) (c : Call) : Silent (call id op c).1 := by
  cases c with
  | start =>
    simp only [Bridge.call, start]
    split_ifs <;> exact h
  | startFailed error => exact h.finish _ _ _
  | callback chunk => exact h.callback id chunk
  | cancel => exact h.cancel id
  | take =>
    simp only [Bridge.call, operationTake]
    cases hq : op.queue with
    | nil => exact h
    | cons event queue => exact fun ho e he ↦ h ho e (by simp [hq, show e ∈ queue from he])

theorem silent (id : ℕ) (calls : List Call) : Silent ((operation id).state calls) := by
  induction calls using List.reverseRecOn with
  | nil => exact fun _ e he ↦ by cases he
  | append_singleton calls c ih =>
    rw [Machine.state_concat]
    exact ih.call id c

theorem Silent.outputs (h : Silent op) (ho : op.overflow = true) (id : ℕ) (c : Call) :
    ∀ e ∈ (Bridge.call id op c).2, e.kind ≠ 0 := by
  cases c with
  | take =>
    cases hq : op.queue with
    | nil => simp [Bridge.call, operationTake, hq]
    | cons event queue =>
      have hmem : event ∈ op.queue := by simp [hq]
      simpa [Bridge.call, operationTake, hq] using h ho event hmem
  | _ => simp [Bridge.call]

/-- From the chunk that is turned away on, no text is queued or handed out. -/
theorem refused_silences {id : ℕ} {before : List Call} {c : Call}
    (h : refuses ((operation id).state before) c = true) (after : List Call) :
    (∀ e ∈ ((operation id).state (before ++ c :: after)).queue, e.kind ≠ 0) ∧
      ∃ rest, (operation id).outputs (before ++ c :: after) =
        (operation id).outputs before ++ rest ∧ ∀ e ∈ rest, e.kind ≠ 0 := by
  have hoverflow (after : List Call) :
      ((operation id).state (before ++ c :: after)).overflow = true :=
    (protocol id _).overflow.mpr ⟨before, c, after, rfl, h⟩
  refine ⟨silent id _ (hoverflow after), ?_⟩
  induction after using List.reverseRecOn with
  | nil =>
    obtain ⟨chunk, rfl⟩ : ∃ chunk, c = .callback chunk := by
      cases c with
      | callback chunk => exact ⟨chunk, rfl⟩
      | _ => cases h
    exact ⟨[], by simp [Bridge.call], by simp⟩
  | append_singleton after d ih =>
    obtain ⟨rest, houtputs, hrest⟩ := ih
    have hsplit : before ++ c :: (after ++ [d]) = (before ++ c :: after) ++ [d] := by simp
    rw [hsplit, Machine.outputs_concat, houtputs]
    refine ⟨_, List.append_assoc .., fun e he ↦ ?_⟩
    rcases List.mem_append.mp he with he | he
    · exact hrest e he
    · exact (silent id _).outputs (hoverflow after) id d e he

theorem Protocol.texts_length {id : ℕ} {calls : List Call} {taken : List Event}
    (h : Protocol id calls op taken) (hb : Bounded op) :
    (op.queue.filter fun e ↦ e.kind = 0).length ≤ kMaxEvents - 1 := by
  have hslots := hb.slots
  have hfilter := List.length_filter_le (fun e : Event ↦ decide (e.kind = 0)) op.queue
  cases hf : op.final with
  | false =>
    rw [hf] at hslots
    exact hfilter.trans hslots
  | true =>
    cases ht : op.terminalTaken with
    | true => simp [(h.done ht).2]
    | false =>
      obtain ⟨error, -, texts, last, hqueue, -, hkind⟩ := h.closed hf
      rw [ht, if_neg (by simp)] at hqueue
      have hlast : last.kind ≠ 0 := hkind ▸ terminalKind_ne_zero op error
      have htexts := List.length_filter_le (fun e : Event ↦ decide (e.kind = 0)) texts
      rw [hqueue] at hslots ⊢
      simp only [hf, if_true, List.length_append, List.length_singleton, kMaxEvents] at hslots
      simp only [List.filter_append, List.length_append, kMaxEvents]
      simp only [List.filter_cons, hlast, decide_false, Bool.false_eq_true, if_false,
        List.filter_nil, List.length_nil]
      omega

/-- The byte count is that of the queue, the queue keeps its bounds and a slot
for the terminal, no subtraction wraps, and a chunk that is turned away is the
end of all text. -/
theorem capacity (id : ℕ) (calls : List Call) :
    let op := (operation id).state calls
    op.bytes = size op.queue ∧ op.bytes ≤ kMaxBytes ∧ op.queue.length ≤ kMaxEvents ∧
      (op.queue.filter fun e ↦ e.kind = 0).length ≤ kMaxEvents - 1 ∧
      (∀ c, callChecked id op c = some (call id op c)) ∧
      ∀ before c after, calls = before ++ c :: after →
        refuses ((operation id).state before) c = true →
        (∀ e ∈ op.queue, e.kind ≠ 0) ∧
          ∃ rest, (operation id).outputs calls = (operation id).outputs before ++ rest ∧
            ∀ e ∈ rest, e.kind ≠ 0 := by
  intro op
  have hb : Bounded op := bounded id calls
  have hslots : op.queue.length ≤ kMaxEvents := by
    have hslots := hb.slots
    split_ifs at hslots
    · exact hslots
    · exact hslots.trans (Nat.sub_le _ _)
  refine ⟨hb.exact, hb.bytes, hslots, (protocol id calls).texts_length hb,
    fun c ↦ hb.callChecked_eq id c, ?_⟩
  rintro before c after rfl hrefused
  exact refused_silences hrefused after

end LibLitertLm.Bridge
