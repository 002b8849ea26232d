import LibLitertLm.Backend.Isolate

namespace LibLitertLm.Backend

open Handles (Event)

def isToken : Event → Bool
  | .token _ => true
  | _ => false

def Orderly (events : List Event) : Prop :=
  ∃ tokens last, events = tokens ++ last ∧ (∀ e ∈ tokens, isToken e = true) ∧ last.length ≤ 1

def Ends (events : List Event) : Prop :=
  ∃ tokens e, events = tokens ++ [e] ∧ (∀ e ∈ tokens, isToken e = true) ∧ isToken e = false

theorem Ends.orderly {events : List Event} (h : Ends events) : Orderly events := by
  obtain ⟨tokens, e, rfl, htokens, -⟩ := h
  exact ⟨tokens, [e], rfl, htokens, le_rfl⟩

theorem Orderly.of_tokens {events : List Event} (h : ∀ e ∈ events, isToken e = true) :
    Orderly events :=
  ⟨events, [], by simp, h, Nat.zero_le _⟩

theorem Orderly.of_isPrefix {events events' : List Event} (h : Orderly events)
    (hstart : events' <+: events) : Orderly events' := by
  obtain ⟨tokens, last, rfl, htokens, hlast⟩ := h
  obtain ⟨rest, hrest⟩ := hstart
  rcases List.append_eq_append_iff.mp hrest with ⟨more, hmore, -⟩ | ⟨more, rfl, hmore⟩
  · refine .of_tokens fun e he ↦ htokens e ?_
    rw [hmore]
    exact List.mem_append_left _ he
  · refine ⟨tokens, more, rfl, htokens, ?_⟩
    rw [hmore, List.length_append] at hlast
    omega

namespace Consumer

structure Steady (U : Prop) (c d : Consumer) : Prop where
  controller : c.controller.Steady U d.controller
  done : d.done = c.done
  finished : d.finished = c.finished
  linked : c.cancelled = c.controller.canceled → d.cancelled = d.controller.canceled

/-- What everything does: nothing that was received is lost, and a cancelled
subscription receives nothing more. -/
structure Later (c d : Consumer) : Prop where
  listened : c.controller.listened = true → d.controller.listened = true
  received : c.controller.received <+: d.controller.received
  canceled : c.controller.canceled = true →
    d.controller.canceled = true ∧ d.controller.received = c.controller.received

structure Live (U : Prop) (c : Consumer) : Prop where
  listened : c.controller.listened = true
  unclosed : c.controller.closed = false
  linked : c.cancelled = c.controller.canceled
  canceled : c.controller.canceled = true → U
  finished : c.finished = false
  done : c.done = 0
  tokens : ∀ e ∈ c.controller.accepted, isToken e = true
  tidy : c.controller.Tidy U

/-- The consumer of a stream that has ended; `n` is 0 as long as that is not
yet known to those who wait for it. -/
structure Over (U : Prop) (n : ℕ) (c : Consumer) : Prop where
  listened : c.controller.listened = true
  linked : c.cancelled = c.controller.canceled
  finished : c.finished = true
  done : c.done = n
  orderly : Orderly c.controller.accepted
  ends : Ends c.controller.accepted ∨ U
  tidy : c.controller.Tidy U

variable {U : Prop} {c d e : Consumer} {n : ℕ}

theorem Steady.refl (c : Consumer) : Steady U c c := ⟨.refl _, rfl, rfl, id⟩

theorem Later.refl (c : Consumer) : Later c c := ⟨id, List.prefix_rfl, fun h ↦ ⟨h, rfl⟩⟩

theorem Later.trans (h : Later c d) (h' : Later d e) : Later c e := by
  refine ⟨fun hc ↦ h'.listened (h.listened hc), h.received.trans h'.received, fun hc ↦ ?_⟩
  obtain ⟨hd, hreceived⟩ := h.canceled hc
  obtain ⟨he, hreceived'⟩ := h'.canceled hd
  exact ⟨he, hreceived'.trans hreceived⟩

theorem Later.of_eq (h : d.controller = c.controller) : Later c d := by
  refine ⟨fun hc ↦ h ▸ hc, h ▸ List.prefix_rfl, fun hc ↦ ?_⟩
  rw [h]
  exact ⟨hc, rfl⟩

theorem Later.of_fresh (c : Consumer) : Later {} c := by
  refine ⟨fun h ↦ ?_, List.nil_prefix, fun h ↦ ?_⟩
  · cases h
  · cases h

theorem Steady.later (h : Steady U c d) : Later c d :=
  ⟨fun hc ↦ h.controller.listened.trans hc, h.controller.received, h.controller.canceled⟩

theorem Steady.of_controller {k : StreamController Event} (h : c.controller.Steady U k)
    (hcanceled : k.canceled = c.controller.canceled) : Steady U c { c with controller := k } :=
  ⟨h, rfl, rfl, fun hc ↦ hc.trans hcanceled.symm⟩

theorem Live.steady (hc : Live U c) (h : Steady U c d) : Live U d := by
  refine ⟨h.controller.listened.trans hc.listened, h.controller.closed.trans hc.unclosed,
    h.linked hc.linked, fun hd ↦ ?_, h.finished.trans hc.finished, h.done.trans hc.done,
    fun e he ↦ hc.tokens e (h.controller.accepted.subset he), h.controller.tidy hc.tidy⟩
  exact (h.controller.unclosed hc.tidy hc.unclosed hd).elim hc.canceled id

theorem Over.steady (hc : Over U n c) (h : Steady U c d) : Over U n d := by
  refine ⟨h.controller.listened.trans hc.listened, h.linked hc.linked, h.finished.trans hc.finished,
    h.done.trans hc.done, hc.orderly.of_isPrefix h.controller.accepted, ?_,
      h.controller.tidy hc.tidy⟩
  rcases h.controller.kept hc.tidy with hkept | hU
  · rw [hkept]
    exact hc.ends
  · exact .inr hU

theorem Later.add (hcanceled : c.controller.canceled = false) (event : Event) :
    Later c { c with controller := (c.controller.add event).1 } := by
  have hadded := StreamController.add_spec hcanceled event
  refine ⟨fun hc ↦ hadded.listened.trans hc, hadded.received, fun hc ↦ ?_⟩
  cases hcanceled.symm.trans hc

theorem Live.add (hc : Live U c) (hcanceled : c.controller.canceled = false) {event : Event}
    (htoken : isToken event = true) :
    Live U { c with controller := (c.controller.add event).1 } := by
  have hadded := StreamController.add_spec hcanceled event
  refine ⟨hadded.listened.trans hc.listened, hadded.closed.trans hc.unclosed,
    hc.linked.trans hadded.canceled.symm, fun h ↦ ?_, hc.finished, hc.done, fun e he ↦ ?_,
    hadded.tidy U hc.unclosed hc.tidy⟩
  · cases (hadded.canceled.trans hcanceled).symm.trans h
  · rw [hadded.accepted, List.mem_append, List.mem_singleton] at he
    rcases he with he | rfl
    · exact hc.tokens e he
    · exact htoken

/-- The stream ends with an event. -/
theorem Live.finish (hc : Live U c) (hcanceled : c.controller.canceled = false) {event : Event}
    (hterminal : isToken event = false) :
    Over U 0 { c with finished := true, controller := (c.controller.add event).1 } := by
  have hadded := StreamController.add_spec hcanceled event
  have hends : Ends (c.controller.add event).1.accepted :=
    ⟨c.controller.accepted, event, hadded.accepted, hc.tokens, hterminal⟩
  exact ⟨hadded.listened.trans hc.listened, hc.linked.trans hadded.canceled.symm, rfl, hc.done,
    hends.orderly, .inl hends, hadded.tidy U hc.unclosed hc.tidy⟩

theorem Live.drop (hc : Live U c) (hcancelled : c.cancelled = true) :
    Over U 1 { c with finished := true, done := 1 } :=
  ⟨hc.listened, hc.linked, rfl, rfl, .of_tokens hc.tokens,
    .inr (hc.canceled (hc.linked.symm.trans hcancelled)), hc.tidy⟩

def close (c : Consumer) : Consumer :=
  { c with
    controller := c.controller.close.1
    cancelled := c.cancelled || c.controller.close.2 }

theorem Later.close (c : Consumer) : Later c c.close := by
  have hclosed := c.controller.close_spec
  refine ⟨fun hc ↦ hclosed.listened.trans hc, hclosed.received ▸ List.prefix_rfl,
    fun hc ↦ ⟨?_, hclosed.received⟩⟩
  simp only [Consumer.close, hclosed.canceled, hc, Bool.true_or]

theorem Over.close (hc : Over U n c) (hunclosed : c.controller.closed = false) :
    Over U n c.close := by
  have hclosed := c.controller.close_spec
  refine ⟨hclosed.listened.trans hc.listened, ?_, hc.finished, hc.done, ?_, ?_,
    hclosed.tidy U hunclosed hc.tidy⟩
  · simp only [Consumer.close, hclosed.canceled, hc.linked]
  · simp only [Consumer.close, hclosed.accepted]
    exact hc.orderly
  · simp only [Consumer.close, hclosed.accepted]
    exact hc.ends

theorem Over.completed (hc : Over U 0 c) : Over U 1 { c with done := 1 } :=
  ⟨hc.listened, hc.linked, hc.finished, rfl, hc.orderly, hc.ends, hc.tidy⟩

/-- A stream is listened to. -/
theorem live_listen :
    Live U { controller := (StreamController.listen (α := Event) {}).leave.1 } := by
  refine ⟨rfl, rfl, rfl, ?_, rfl, rfl, ?_, ⟨?_, ?_, ?_⟩⟩ <;>
    simp [StreamController.listen, StreamController.leave, StreamController.accepted,
      StreamController.held]

/-- A stream is listened to in vain. -/
def refuse (failure : Failure) : Consumer :=
  { controller := { listened := true, closed := true, pending := [.data (.failed failure), .done] }
    done := 1
    finished := true }

theorem over_refuse (failure : Failure) : Over U 1 (refuse failure) := by
  have hends : Ends (refuse failure).controller.accepted := ⟨[], .failed failure, rfl, by simp, rfl⟩
  refine ⟨rfl, rfl, rfl, rfl, hends.orderly, .inl hends, ⟨?_, fun before after h ↦ ?_, ?_⟩⟩
  · intro h
    cases h
  · match before, h with
    | [], h => cases h
    | [_], h => exact (by simpa [refuse] using h.symm : _ ∧ after = []).2
    | _ :: _ :: before, h =>
      have hlength := congrArg List.length h
      simp [refuse] at hlength
  · intro h
    cases h

end Consumer

open Consumer

/-- Where a consumer stands: its stream waits for its end, or it is just being
told of it, or it knows, or it was never listened to. -/
structure Standing (U waits told : Prop) (c : Consumer) : Prop where
  fresh : c.controller.listened = false → c = {}
  live : waits → Live U c
  ending : told → Over U 0 c ∧ c.controller.closed = false
  ended : c.controller.listened = true → ¬ waits → ¬ told → Over U 1 c

structure Statuses (U : ℕ → Prop) (waiting : List ℕ) (subject : Option ℕ)
    (consumer : ℕ → Consumer) : Prop where
  nodup : waiting.Nodup
  distinct : ∀ stream ∈ subject, stream ∉ waiting
  standing : ∀ stream, Standing (U stream) (stream ∈ waiting) (subject = some stream)
    (consumer stream)

namespace Standing

variable {U waits told : Prop} {c d : Consumer}

theorem steady (h : Standing U waits told c) (hc : Steady U c d)
    (hfresh : c = {} → d = {}) : Standing U waits told d := by
  refine ⟨fun hd ↦ ?_, fun hw ↦ (h.live hw).steady hc, fun ht ↦ ?_, fun hd hw ht ↦ ?_⟩
  · exact hfresh (h.fresh (hc.controller.listened.symm.trans hd))
  · exact ⟨(h.ending ht).1.steady hc, hc.controller.closed.trans (h.ending ht).2⟩
  · exact (h.ended (hc.controller.listened.symm.trans hd) hw ht).steady hc

theorem of_live (hc : Live U c) (hwaits : waits) (htold : ¬ told) : Standing U waits told c := by
  refine ⟨fun h ↦ ?_, fun _ ↦ hc, fun h ↦ absurd h htold, fun _ h ↦ absurd hwaits h⟩
  cases hc.listened.symm.trans h

theorem of_told (hc : Over U 0 c) (hunclosed : c.controller.closed = false) (hwaits : ¬ waits)
    (htold : told) : Standing U waits told c := by
  refine ⟨fun h ↦ ?_, fun h ↦ absurd h hwaits, fun _ ↦ ⟨hc, hunclosed⟩, fun _ _ h ↦ absurd htold h⟩
  cases hc.listened.symm.trans h

theorem of_over (hc : Over U 1 c) (hwaits : ¬ waits) (htold : ¬ told) :
    Standing U waits told c := by
  refine ⟨fun h ↦ ?_, fun h ↦ absurd h hwaits, fun h ↦ absurd h htold, fun _ _ _ ↦ hc⟩
  cases hc.listened.symm.trans h

end Standing

namespace Statuses

variable {U : ℕ → Prop} {waiting waiting' : List ℕ} {subject subject' : Option ℕ}
  {consumer : ℕ → Consumer} {stream : ℕ} {c : Consumer}

theorem place (h : Statuses U waiting subject consumer) (hnodup : waiting'.Nodup)
    (hdistinct : ∀ stream ∈ subject', stream ∉ waiting')
    (hothers : ∀ other, other ≠ stream → (other ∈ waiting' ↔ other ∈ waiting) ∧
      (subject' = some other ↔ subject = some other))
    (hc : Standing (U stream) (stream ∈ waiting') (subject' = some stream) c) :
    Statuses U waiting' subject' (Function.update consumer stream c) := by
  refine ⟨hnodup, hdistinct, fun other ↦ ?_⟩
  by_cases hsame : other = stream
  · subst hsame
    rw [Function.update_self]
    exact hc
  · obtain ⟨hwaits, htold⟩ := hothers other hsame
    rw [Function.update_of_ne hsame, hwaits, htold]
    exact h.standing other

theorem steady (h : Statuses U waiting subject consumer)
    (hc : Steady (U stream) (consumer stream) c) (hfresh : consumer stream = {} → c = {}) :
    Statuses U waiting subject (Function.update consumer stream c) :=
  h.place h.nodup h.distinct (fun _ _ ↦ ⟨Iff.rfl, Iff.rfl⟩) ((h.standing stream).steady hc hfresh)

theorem keep (h : Statuses U waiting subject consumer) (hmem : stream ∈ waiting)
    (hc : Live (U stream) c) :
    Statuses U waiting subject (Function.update consumer stream c) := by
  refine h.place h.nodup h.distinct (fun _ _ ↦ ⟨Iff.rfl, Iff.rfl⟩)
    (.of_live hc hmem fun hsubject ↦ ?_)
  exact h.distinct stream hsubject hmem

theorem finish (h : Statuses U waiting none consumer) (hnodup : waiting'.Nodup)
    (hwaiting : ∀ other, other ∈ waiting' ↔ other ∈ waiting ∧ other ≠ stream)
    (hc : Over (U stream) 0 c) (hunclosed : c.controller.closed = false) :
    Statuses U waiting' (some stream) (Function.update consumer stream c) := by
  have hgone : stream ∉ waiting' := fun hmem ↦ ((hwaiting stream).mp hmem).2 rfl
  refine h.place hnodup (fun other hother ↦ ?_) (fun other hne ↦ ⟨?_, ?_⟩)
    (.of_told hc hunclosed hgone rfl)
  · obtain rfl : stream = other := Option.some.inj hother
    exact hgone
  · simp [hwaiting, hne]
  · simp [Ne.symm hne]

theorem settle (h : Statuses U waiting (some stream) consumer) (hc : Over (U stream) 1 c) :
    Statuses U waiting none (Function.update consumer stream c) := by
  refine h.place h.nodup (fun _ h ↦ by cases h) (fun other hne ↦ ⟨Iff.rfl, ?_⟩)
    (.of_over hc (h.distinct stream rfl) (by simp))
  simp [Ne.symm hne]

theorem drop (h : Statuses U waiting none consumer) (hnodup : waiting'.Nodup)
    (hwaiting : ∀ other, other ∈ waiting' ↔ other ∈ waiting ∧ other ≠ stream)
    (hc : Over (U stream) 1 c) : Statuses U waiting' none (Function.update consumer stream c) := by
  refine h.place hnodup (fun _ h ↦ by cases h) (fun other hne ↦ ⟨?_, Iff.rfl⟩)
    (.of_over hc (fun hmem ↦ ((hwaiting stream).mp hmem).2 rfl) (by simp))
  simp [hwaiting, hne]

theorem unknown (h : Statuses U waiting subject consumer)
    (hstream : (consumer stream).controller.listened = false) :
    stream ∉ waiting ∧ subject ≠ some stream := by
  refine ⟨fun hmem ↦ ?_, fun hsubject ↦ ?_⟩
  · cases ((h.standing stream).live hmem).listened.symm.trans hstream
  · cases ((h.standing stream).ending hsubject).1.listened.symm.trans hstream

theorem start (h : Statuses U waiting subject consumer)
    (hstream : (consumer stream).controller.listened = false) (hc : Live (U stream) c) :
    Statuses U (waiting ++ [stream]) subject (Function.update consumer stream c) := by
  obtain ⟨hnew, htold⟩ := h.unknown hstream
  refine h.place ?_ (fun other hother ↦ ?_) (fun other hne ↦ ⟨?_, Iff.rfl⟩)
    (.of_live hc (by simp) htold)
  · simpa [List.nodup_append, hnew] using ⟨h.nodup, fun a ha heq ↦ hnew (heq ▸ ha)⟩
  · rw [List.mem_append, List.mem_singleton, not_or]
    refine ⟨h.distinct other hother, ?_⟩
    rintro rfl
    exact htold hother
  · simp [hne]

theorem refuse (h : Statuses U waiting subject consumer)
    (hstream : (consumer stream).controller.listened = false) (hc : Over (U stream) 1 c) :
    Statuses U waiting subject (Function.update consumer stream c) := by
  obtain ⟨hnew, htold⟩ := h.unknown hstream
  exact h.place h.nodup h.distinct (fun _ _ ↦ ⟨Iff.rfl, Iff.rfl⟩) (.of_over hc hnew htold)

end Statuses

end LibLitertLm.Backend
