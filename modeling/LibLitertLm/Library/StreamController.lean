import Mathlib.Tactic.Common

namespace LibLitertLm

/-- What a subscription that cannot fire holds back. -/
inductive Held (α : Type)
  | data (event : α)
  | done
deriving DecidableEq

/-- Dart's synchronous `StreamController` with its single subscription. While
the listener runs, `callback` is whether input was paused when it was called. -/
structure StreamController (α : Type) where
  listened : Bool := false
  pauses : ℕ := 0
  inputPaused : Bool := false
  callback : Option Bool := none
  pending : List (Held α) := []
  closed : Bool := false
  canceled : Bool := false
  received : List α := []
deriving DecidableEq

namespace StreamController

variable {α : Type}

def hasListener (c : StreamController α) : Bool := c.listened && !c.canceled

def isPaused (c : StreamController α) : Bool :=
  if c.hasListener then c.inputPaused else !c.canceled

def idle (c : StreamController α) : Bool := c.hasListener && c.callback.isNone && c.pauses == 0

def sendData (c : StreamController α) (event : α) : StreamController α :=
  { c with received := c.received ++ [event], callback := some c.inputPaused }

/-- The new state, and whether the listener is called at once. -/
def add (c : StreamController α) (event : α) : StreamController α × Bool :=
  if c.canceled then (c, false)
  else if c.idle && c.pending.isEmpty then (c.sendData event, true)
  else ({ c with pending := c.pending ++ [.data event] }, false)

/-- The new state, and whether the subscription ends at once: `onCancel` is
called then. -/
def close (c : StreamController α) : StreamController α × Bool :=
  if c.canceled then ({ c with closed := true }, false)
  else if c.idle && c.pending.isEmpty then ({ c with closed := true, canceled := true }, true)
  else ({ c with closed := true, pending := c.pending ++ [.done] }, false)

/-- The microtask that hands out what is held back, when it can run: the new
state, and whether the subscription ends. -/
def next (c : StreamController α) : Option (StreamController α × Bool) :=
  if c.idle then
    match c.pending with
    | [] => none
    | .data event :: rest => some ({ c with pending := rest }.sendData event, false)
    | .done :: _ => some ({ c with pending := [], canceled := true }, true)
  else none

def leave (c : StreamController α) : StreamController α × Bool :=
  match c.callback with
  | none => (c, false)
  | some wasPaused =>
    if c.canceled then ({ c with callback := none, pending := [] }, false)
    else
      let inputPaused := c.inputPaused && !(c.pauses == 0 && c.pending.isEmpty)
      ({ c with callback := none, inputPaused := inputPaused }, wasPaused && !inputPaused)

def listen (c : StreamController α) : StreamController α :=
  { c with listened := true, callback := some c.inputPaused }

def pause (c : StreamController α) : StreamController α :=
  if c.hasListener then { c with pauses := c.pauses + 1, inputPaused := true } else c

def resume (c : StreamController α) : StreamController α × Bool :=
  if c.hasListener && c.pauses != 0 then
    if c.pauses == 1 && c.pending.isEmpty then
      ({ c with pauses := 0, inputPaused := false }, c.callback.isNone)
    else ({ c with pauses := c.pauses - 1 }, false)
  else (c, false)

def cancel (c : StreamController α) : StreamController α × Bool :=
  if c.hasListener then
    ({ c with canceled := true, pending := if c.callback.isNone then [] else c.pending }, true)
  else (c, false)

def Held.event : Held α → Option α
  | .data event => some event
  | .done => none

def held (c : StreamController α) : List α := c.pending.filterMap Held.event

/-- The events that were added, as far as they were or will be received. -/
def accepted (c : StreamController α) : List α := c.received ++ c.held

variable {U : Prop} {c d e : StreamController α}

/-- `U` is that the user has cancelled the subscription: nobody else does so
while the listener runs. The end of the stream is held back last. -/
structure Tidy (U : Prop) (c : StreamController α) : Prop where
  callback : c.callback.isSome = true → c.canceled = true → U
  last : ∀ before after, c.pending = before ++ .done :: after → after = []
  unclosed : c.closed = false → .done ∉ c.pending

/-- What the operations other than `add` and `close` have in common: no event
is new, none is received twice or out of order, only a user who cancels loses
events, and a cancelled subscription receives nothing. -/
structure Steady (U : Prop) (c d : StreamController α) : Prop where
  listened : d.listened = c.listened
  closed : d.closed = c.closed
  received : c.received <+: d.received
  accepted : d.accepted <+: c.accepted
  canceled : c.canceled = true → d.canceled = true ∧ d.received = c.received
  kept : Tidy U c → d.accepted = c.accepted ∨ U
  unclosed : Tidy U c → c.closed = false → d.canceled = true → c.canceled = true ∨ U
  tidy : Tidy U c → Tidy U d

namespace Steady

theorem refl (c : StreamController α) : Steady U c c :=
  ⟨rfl, rfl, List.prefix_rfl, List.prefix_rfl, fun h ↦ ⟨h, rfl⟩, fun _ ↦ .inl rfl,
    fun _ _ h ↦ .inl h, id⟩

theorem of_eq (hlistened : d.listened = c.listened) (hclosed : d.closed = c.closed)
    (hreceived : d.received = c.received) (hpending : d.pending = c.pending)
    (hcanceled : c.canceled = true → d.canceled = true)
    (hcanceled' : d.canceled = true → c.canceled = true ∨ U)
    (hcallback : Tidy U c → d.callback.isSome = true → d.canceled = true → U) : Steady U c d := by
  have haccepted :
    d.accepted = c.accepted := by simp [StreamController.accepted, held, hreceived, hpending]
  refine ⟨hlistened, hclosed, hreceived ▸ List.prefix_rfl, haccepted ▸ List.prefix_rfl,
    fun h ↦ ⟨hcanceled h, hreceived⟩, fun _ ↦ .inl haccepted, fun _ _ ↦ hcanceled',
    fun ht ↦ ⟨hcallback ht, ?_, ?_⟩⟩
  · rw [hpending]
    exact ht.last
  · rw [hpending, hclosed]
    exact ht.unclosed

/-- What is held back is dropped. -/
theorem of_dropped (hlistened : d.listened = c.listened) (hclosed : d.closed = c.closed)
    (hreceived : d.received = c.received) (hpending : d.pending = [])
    (hcanceled : d.canceled = true)
    (hcallback : d.callback = none) (hkept : Tidy U c → c.held = [] ∨ U)
    (hunclosed : Tidy U c → c.closed = false → c.canceled = true ∨ U) : Steady U c d := by
  have haccepted : d.accepted = c.received := by
    simp [StreamController.accepted, held, hreceived, hpending]
  refine ⟨hlistened, hclosed, hreceived ▸ List.prefix_rfl, ?_, fun _ ↦ ⟨hcanceled, hreceived⟩,
    fun ht ↦ ?_, fun ht hclosed _ ↦ hunclosed ht hclosed, fun _ ↦ ⟨?_, ?_, ?_⟩⟩
  · rw [haccepted]
    exact List.prefix_append ..
  · refine (hkept ht).imp_left fun hheld ↦ ?_
    rw [haccepted, StreamController.accepted, hheld, List.append_nil]
  · simp [hcallback]
  · simp [hpending]
  · simp [hpending]

end Steady

theorem leave_canceled (c : StreamController α) : c.leave.1.canceled = c.canceled := by
  unfold leave
  split
  · rfl
  · split_ifs <;> rfl

theorem steady_leave (c : StreamController α) : Steady U c c.leave.1 := by
  unfold leave
  split
  · exact .refl c
  · next hcallback =>
    split_ifs with hcanceled
    · exact .of_dropped rfl rfl rfl rfl hcanceled rfl
        (fun ht ↦ .inr (ht.callback (by simp [hcallback]) hcanceled)) fun _ _ ↦ .inl hcanceled
    · exact .of_eq rfl rfl rfl rfl id .inl fun _ h ↦ by cases h

theorem pause_canceled (c : StreamController α) : c.pause.canceled = c.canceled := by
  unfold pause
  split_ifs <;> rfl

theorem steady_pause (c : StreamController α) : Steady U c c.pause := by
  unfold pause
  split_ifs
  · exact .of_eq rfl rfl rfl rfl id .inl Tidy.callback
  · exact .refl c

theorem resume_canceled (c : StreamController α) : c.resume.1.canceled = c.canceled := by
  unfold resume
  split_ifs <;> rfl

theorem steady_resume (c : StreamController α) : Steady U c c.resume.1 := by
  unfold resume
  split_ifs
  · exact .of_eq rfl rfl rfl rfl id .inl Tidy.callback
  · exact .of_eq rfl rfl rfl rfl id .inl Tidy.callback
  · exact .refl c

theorem cancel_canceled (c : StreamController α) :
    c.cancel.1.canceled = (c.canceled || c.cancel.2) := by
  unfold cancel
  split_ifs <;> simp

theorem steady_cancel (hU : U) (c : StreamController α) : Steady U c c.cancel.1 := by
  unfold cancel
  split_ifs with hlistener hcallback
  · exact .of_dropped rfl rfl rfl rfl rfl (by simpa using hcallback) (fun _ ↦ .inr hU)
      fun _ _ ↦ .inr hU
  · exact .of_eq rfl rfl rfl rfl (fun _ ↦ rfl) (fun _ ↦ .inr hU) fun _ _ _ ↦ hU
  · exact .refl c

theorem idle_spec (h : c.idle = true) :
    c.listened = true ∧ c.canceled = false ∧ c.callback = none := by
  simp only [idle, hasListener, Bool.and_eq_true, Bool.not_eq_true', Option.isNone_iff_eq_none] at h
  exact ⟨h.1.1.1, h.1.1.2, h.1.2⟩

theorem next_canceled {ended : Bool} (h : c.next = some (d, ended)) :
    c.canceled = false ∧ d.canceled = ended := by
  unfold next at h
  split_ifs at h with hidle
  have hcanceled := (idle_spec hidle).2.1
  split at h
  · cases h
  · obtain ⟨rfl, rfl⟩ := Prod.mk.inj (Option.some.inj h)
    exact ⟨hcanceled, hcanceled⟩
  · obtain ⟨rfl, rfl⟩ := Prod.mk.inj (Option.some.inj h)
    exact ⟨hcanceled, rfl⟩

theorem next_callback (h : c.next = some (d, true)) : d.callback = c.callback := by
  unfold next at h
  split_ifs at h
  split at h
  · cases h
  · cases h
  · obtain ⟨rfl, -⟩ := Prod.mk.inj (Option.some.inj h)
    rfl

theorem steady_next {ended : Bool} (h : c.next = some (d, ended)) : Steady U c d := by
  unfold next at h
  split_ifs at h with hidle
  obtain ⟨-, hcanceled, hcallback⟩ := idle_spec hidle
  split at h
  · cases h
  · next event rest hpending =>
    obtain ⟨rfl, -⟩ := Prod.mk.inj (Option.some.inj h)
    have haccepted : accepted ({ c with pending := rest }.sendData event) = c.accepted := by
      simp [accepted, held, sendData, hpending, Held.event]
    refine ⟨rfl, rfl, List.prefix_append .., haccepted ▸ List.prefix_rfl, fun h ↦ ?_,
      fun _ ↦ .inl haccepted, fun _ _ ↦ .inl, fun ht ↦ ⟨fun _ h ↦ ?_, fun before after hrest ↦ ?_,
      fun hclosed hmem ↦ ?_⟩⟩
    · rw [hcanceled] at h
      cases h
    · cases hcanceled.symm.trans h
    · refine ht.last (.data event :: before) after ?_
      rw [hpending, List.cons_append]
      exact congrArg _ hrest
    · refine ht.unclosed hclosed ?_
      rw [hpending]
      exact List.mem_cons_of_mem _ hmem
  · next rest hpending =>
    obtain ⟨rfl, -⟩ := Prod.mk.inj (Option.some.inj h)
    refine .of_dropped rfl rfl rfl rfl rfl hcallback (fun ht ↦ .inl ?_) fun ht hclosed ↦ ?_
    · obtain rfl := ht.last [] rest hpending
      simp [held, hpending, Held.event]
    · exact absurd (by simp [hpending]) (ht.unclosed hclosed)

theorem add_callback (c : StreamController α) (event : α) (h : (c.add event).2 = false) :
    (c.add event).1.callback = c.callback := by
  unfold add at h ⊢
  split_ifs at h ⊢ <;> rfl

theorem close_callback (c : StreamController α) : c.close.1.callback = c.callback := by
  unfold close
  split_ifs <;> rfl

theorem leave_callback (c : StreamController α) : c.leave.1.callback = none := by
  unfold leave
  split
  · assumption
  · split_ifs <;> rfl

theorem pause_callback (c : StreamController α) : c.pause.callback = c.callback := by
  unfold pause
  split_ifs <;> rfl

theorem resume_callback (c : StreamController α) : c.resume.1.callback = c.callback := by
  unfold resume
  split_ifs <;> rfl

theorem cancel_callback (c : StreamController α) : c.cancel.1.callback = c.callback := by
  unfold cancel
  split_ifs <;> rfl

structure Added (c : StreamController α) (event : α) (d : StreamController α) : Prop where
  listened : d.listened = c.listened
  closed : d.closed = c.closed
  canceled : d.canceled = c.canceled
  received : c.received <+: d.received
  accepted : d.accepted = c.accepted ++ [event]
  tidy : ∀ U, c.closed = false → Tidy U c → Tidy U d

theorem add_spec (hcanceled : c.canceled = false) (event : α) : Added c event (c.add event).1 := by
  unfold add
  rw [if_neg (by simp [hcanceled])]
  split_ifs with hidle
  · have hpending : c.pending = [] := by
      simp only [Bool.and_eq_true, List.isEmpty_iff] at hidle
      exact hidle.2
    refine ⟨rfl, rfl, rfl, List.prefix_append .., ?_,
      fun U _ ht ↦ ⟨fun _ h ↦ ?_, ht.last, ht.unclosed⟩⟩
    · simp [StreamController.accepted, held, sendData, hpending]
    · cases hcanceled.symm.trans h
  · refine ⟨rfl, rfl, rfl, List.prefix_rfl, ?_, fun U hclosed ht ↦ ⟨ht.callback, ?_, fun _ ↦ ?_⟩⟩
    · simp [StreamController.accepted, held, Held.event]
    · intro before after h
      have hmem : Held.done ∈ c.pending ++ [.data event] := by
        dsimp only at h
        simp [h]
      simp [ht.unclosed hclosed] at hmem
    · simp [ht.unclosed hclosed]

structure Closed (c : StreamController α) (ended : Bool) (d : StreamController α) : Prop where
  listened : d.listened = c.listened
  canceled : d.canceled = (c.canceled || ended)
  received : d.received = c.received
  accepted : d.accepted = c.accepted
  tidy : ∀ U, c.closed = false → Tidy U c → Tidy U d

theorem close_spec (c : StreamController α) : Closed c c.close.2 c.close.1 := by
  unfold close
  split_ifs with hcanceled hidle
  · refine ⟨rfl, by simp, rfl, rfl, fun U hclosed ht ↦ ⟨ht.callback, ht.last, fun h ↦ by cases h⟩⟩
  · obtain ⟨-, hcanceled, hcallback⟩ := idle_spec (Bool.and_eq_true_iff.mp hidle).1
    refine ⟨rfl, by simp, rfl, rfl, fun U _ ht ↦ ⟨fun h ↦ ?_, ht.last, fun h ↦ by cases h⟩⟩
    simp [hcallback] at h
  · refine ⟨rfl, by simp, rfl, ?_, fun U hclosed ht ↦ ⟨ht.callback, fun before after h ↦ ?_,
      fun h ↦ by cases h⟩⟩
    · simp [StreamController.accepted, held, Held.event]
    · have hnot := ht.unclosed hclosed
      rcases List.eq_nil_or_concat after with hafter | ⟨rest, last, rfl⟩
      · exact hafter
      · have hinit : c.pending = before ++ .done :: rest := by
          have h' :
            c.pending ++ [Held.done] = (before ++ .done :: rest) ++ [last] := by simpa using h
          exact (List.append_inj' h' rfl).1
        exact absurd (by simp [hinit]) hnot

/-- Some events are added between `c` and `d`: they are accepted in order, and
all of them unless the subscription ends. -/
structure Feeds (events : List α) (c d : StreamController α) : Prop where
  accepted : d.accepted <+: c.accepted ++ events
  all : d.canceled = false → c.canceled = false ∧ d.accepted = c.accepted ++ events
  stopped : c.canceled = true → d.canceled = true ∧ d.accepted <+: c.accepted

namespace Feeds

variable {events events' : List α}

theorem trans (h : Feeds events c d) (h' : Feeds events' d e) : Feeds (events ++ events') c e := by
  refine ⟨?_, fun he ↦ ?_, fun hc ↦ ?_⟩
  · cases hd : d.canceled with
    | true =>
      have hshort := (h'.stopped hd).2.trans h.accepted
      exact hshort.trans (by simp)
    | false =>
      rw [← List.append_assoc, ← (h.all hd).2]
      exact h'.accepted
  · obtain ⟨hd, haccepted'⟩ := h'.all he
    obtain ⟨hc, haccepted⟩ := h.all hd
    exact ⟨hc, by rw [haccepted', haccepted, List.append_assoc]⟩
  · obtain ⟨hd, hshort⟩ := h.stopped hc
    obtain ⟨he, hshort'⟩ := h'.stopped hd
    exact ⟨he, hshort'.trans hshort⟩

/-- Nothing that was accepted is dropped, unless the subscription has ended. -/
theorem of_steady (h : Steady True c d)
    (hall : d.canceled = false → c.canceled = false ∧ d.accepted = c.accepted) : Feeds [] c d := by
  refine ⟨?_, fun hd ↦ ?_, fun hc ↦ ⟨(h.canceled hc).1, h.accepted⟩⟩
  · rw [List.append_nil]
    exact h.accepted
  · rw [List.append_nil]
    exact hall hd

theorem refl (c : StreamController α) : Feeds [] c c := .of_steady (.refl c) fun h ↦ ⟨h, rfl⟩

/-- A subscription that has ended accepts nothing. -/
theorem of_canceled (hc : c.canceled = true) (events : List α) : Feeds events c c := by
  refine ⟨List.prefix_append .., fun hd ↦ ?_, fun _ ↦ ⟨hc, List.prefix_rfl⟩⟩
  cases hd.symm.trans hc

theorem leave (c : StreamController α) : Feeds [] c c.leave.1 := by
  refine .of_steady c.steady_leave fun hd ↦ ?_
  have hc := c.leave_canceled.symm.trans hd
  refine ⟨hc, ?_⟩
  unfold StreamController.leave
  split
  · rfl
  · rw [if_neg (by simp [hc])]
    rfl

theorem pause (c : StreamController α) : Feeds [] c c.pause := by
  refine .of_steady c.steady_pause fun hd ↦ ⟨c.pause_canceled.symm.trans hd, ?_⟩
  unfold StreamController.pause
  split_ifs <;> rfl

theorem resume (c : StreamController α) : Feeds [] c c.resume.1 := by
  refine .of_steady c.steady_resume fun hd ↦ ⟨c.resume_canceled.symm.trans hd, ?_⟩
  unfold StreamController.resume
  split_ifs <;> rfl

theorem cancel (c : StreamController α) : Feeds [] c c.cancel.1 := by
  refine .of_steady (c.steady_cancel trivial) fun hd ↦ ?_
  unfold StreamController.cancel at hd ⊢
  split_ifs at hd ⊢ with hlistener
  exact ⟨hd, rfl⟩

theorem next {ended : Bool} (h : c.next = some (d, ended)) : Feeds [] c d := by
  refine .of_steady (steady_next h) fun hd ↦ ⟨(next_canceled h).1, ?_⟩
  obtain rfl := (next_canceled h).2.symm.trans hd
  unfold StreamController.next at h
  split_ifs at h
  split at h
  · cases h
  · next event rest hpending =>
    obtain ⟨rfl, -⟩ := Prod.mk.inj (Option.some.inj h)
    simp [StreamController.accepted, held, sendData, hpending, Held.event]
  · cases h

theorem close (c : StreamController α) : Feeds [] c c.close.1 := by
  have hclosed := c.close_spec
  have hprefix : c.close.1.accepted <+: c.accepted :=
    ⟨[], by rw [List.append_nil, hclosed.accepted]⟩
  refine ⟨?_, fun hd ↦ ?_, fun hc ↦ ⟨?_, hprefix⟩⟩
  · rw [List.append_nil]
    exact hprefix
  · have hc : c.canceled = false := by
      rw [hclosed.canceled] at hd
      exact (Bool.or_eq_false_iff.mp hd).1
    exact ⟨hc, by rw [hclosed.accepted, List.append_nil]⟩
  · rw [hclosed.canceled, hc, Bool.true_or]

theorem add (c : StreamController α) (event : α) : Feeds [event] c (c.add event).1 := by
  cases hc : c.canceled with
  | true =>
    have hsame : (c.add event).1 = c := by
      unfold StreamController.add
      rw [if_pos hc]
    rw [hsame]
    exact .of_canceled hc _
  | false =>
    have hadded := add_spec hc event
    refine ⟨hadded.accepted ▸ List.prefix_rfl, fun _ ↦ ⟨hc, hadded.accepted⟩, fun h ↦ ?_⟩
    cases hc.symm.trans h

end Feeds

end StreamController

end LibLitertLm
