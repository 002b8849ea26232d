import LibLitertLm.Backend.Consumers

namespace LibLitertLm.Backend

open Handles (Event)
open Consumer

def Posted.light : Posted → Bool
  | .credit _ | .cancelStream _ | .testCrash => true
  | _ => false

namespace Isolate

def core (s : Isolate) : Isolate := { s with consumer := fun _ ↦ {}, posted := [] }

/-- One consumer changes, and nothing is asked of the worker. -/
structure Touches (s : Isolate) (stream : ℕ) (c : Consumer) (t : Isolate) : Prop where
  core : t.core = s.core
  posted : ∃ more, t.posted = s.posted ++ more ∧ ∀ m ∈ more, m.light = true
  consumer : t.consumer = Function.update s.consumer stream c

variable {s t u : Isolate} {stream : ℕ} {c d : Consumer}

theorem core_eq {α : Type} (f : Isolate → α) (hf : ∀ s, f s.core = f s) (h : t.core = s.core) :
    f t = f s :=
  field_eq core f hf h

namespace Touches

theorem trans (h : Touches s stream c t) (h' : Touches t stream d u) : Touches s stream d u := by
  obtain ⟨more, hmore, hlight⟩ := h.posted
  obtain ⟨more', hmore', hlight'⟩ := h'.posted
  refine ⟨h'.core.trans h.core, ⟨more ++ more', ?_, fun m hm ↦ ?_⟩, ?_⟩
  · rw [hmore', hmore, List.append_assoc]
  · exact (List.mem_append.mp hm).elim (hlight m) (hlight' m)
  · rw [h'.consumer, h.consumer, Function.update_idem]

theorem self (h : Touches s stream c t) : t.consumer stream = c := by
  rw [h.consumer, Function.update_self]

theorem and (h : Touches s stream c t) {f : Consumer → Consumer}
    (h' : Touches t stream (f (t.consumer stream)) u) : Touches s stream (f c) u :=
  h.trans (h.self ▸ h')

theorem set (s : Isolate) (stream : ℕ) (c : Consumer) :
    Touches s stream c (s.setConsumer stream c) :=
  ⟨rfl, ⟨[], by simp [setConsumer], by simp⟩, rfl⟩

theorem post (s : Isolate) (stream : ℕ) {m : Posted} (hm : m.light = true) :
    Touches s stream (s.consumer stream) (s.post m) :=
  ⟨rfl, ⟨[m], rfl, by simpa using hm⟩, (Function.update_eq_self ..).symm⟩

theorem refl (s : Isolate) (stream : ℕ) : Touches s stream (s.consumer stream) s :=
  ⟨rfl, ⟨[], by simp, by simp⟩, (Function.update_eq_self ..).symm⟩

end Touches

theorem touches_finish (s : Isolate) (stream : ℕ) :
    Touches s stream { s.consumer stream with finished := true } (s.finish stream) :=
  .set s stream _

def added (event : Event) (c : Consumer) : Consumer :=
  { c with controller := (c.controller.add event).1 }

theorem touches_add (s : Isolate) (stream : ℕ) (event : Event) :
    Touches s stream (added event (s.consumer stream)) (s.add stream event).1 :=
  .set s stream _

theorem touches_onResume (s : Isolate) (stream : ℕ) :
    Touches s stream (s.consumer stream) (s.onResume stream) := by
  unfold onResume
  split_ifs
  · exact .post s stream rfl
  · exact .refl s stream

theorem touches_onCancel (s : Isolate) (stream : ℕ) :
    Touches s stream { s.consumer stream with cancelled := true } (s.onCancel stream) := by
  have hset := Touches.set s stream { s.consumer stream with cancelled := true }
  unfold onCancel
  dsimp only
  split_ifs
  · exact hset.and (f := id) (.post _ stream rfl)
  · exact hset

theorem touches_ended (s : Isolate) (stream : ℕ) (k : StreamController Event) (ended : Bool) :
    Touches s stream
      { s.consumer stream with controller := k, cancelled :=
        (s.consumer stream).cancelled || ended }
      (if ended then (s.setController stream k).onCancel stream else s.setController stream k) := by
  have hset := Touches.set s stream { s.consumer stream with controller := k }
  cases ended with
  | true =>
    rw [if_pos rfl, Bool.or_true]
    exact hset.and (f := fun c ↦ { c with cancelled := true }) (touches_onCancel _ stream)
  | false =>
    rw [if_neg (by simp), Bool.or_false]
    exact hset

theorem touches_closeController (s : Isolate) (stream : ℕ) :
    Touches s stream (s.consumer stream).close (s.closeController stream) :=
  touches_ended s stream _ _

theorem touches_resumed (s : Isolate) (stream : ℕ) (k : StreamController Event) (resumed : Bool) :
    Touches s stream { s.consumer stream with controller := k }
      (if resumed then (s.setController stream k).onResume stream
        else s.setController stream k) := by
  have hset := Touches.set s stream { s.consumer stream with controller := k }
  split_ifs
  · exact hset.and (f := id) (touches_onResume _ stream)
  · exact hset

theorem touches_leave (s : Isolate) (stream : ℕ) :
    Touches s stream
      { s.consumer stream with controller := (s.consumer stream).controller.leave.1 }
      (s.leave stream) :=
  touches_resumed s stream _ _

def doneOnce (c : Consumer) : Consumer := if c.done = 0 then { c with done := c.done + 1 } else c

theorem touches_completeDoneOnce (s : Isolate) (stream : ℕ) :
    Touches s stream (doneOnce (s.consumer stream)) (s.completeDoneOnce stream) := by
  unfold completeDoneOnce doneOnce
  split_ifs
  · exact .set s stream _
  · exact .refl s stream

theorem touches_finished (s : Isolate) (stream : ℕ) :
    Touches s stream (doneOnce (s.consumer stream).close) (s.ended stream) :=
  (touches_closeController s stream).and (touches_completeDoneOnce _ stream)

theorem touches_received (s : Isolate) (stream : ℕ) (terminal : Bool) :
    Touches s stream (if terminal then doneOnce (s.consumer stream).close else s.consumer stream)
      (s.received stream terminal) := by
  unfold received
  split_ifs
  · exact touches_finished s stream
  · exact .post s stream rfl
  · exact .refl s stream

end Isolate

namespace Consumer

variable {U : Prop} {c d : Consumer}

theorem Over.doneOnce {n : ℕ} (hc : Over U 0 c) (hn : n = 1) : Over U n (Isolate.doneOnce c) := by
  subst hn
  rw [Isolate.doneOnce, if_pos hc.done, hc.done]
  exact hc.completed

theorem Later.doneOnce (c : Consumer) : Later c (Isolate.doneOnce c) := by
  unfold Isolate.doneOnce
  split_ifs
  · exact .of_eq rfl
  · exact .refl c

theorem steady_leave (c : Consumer) :
    Steady U c { c with controller := c.controller.leave.1 } :=
  .of_controller (c.controller.steady_leave) c.controller.leave_canceled

theorem fresh_leave (h : c = {}) :
    { c with controller := c.controller.leave.1 } = ({} : Consumer) := by
  subst h
  rfl

end Consumer

def Later (f g : ℕ → Consumer) : Prop := ∀ stream, Consumer.Later (f stream) (g stream)

theorem Later.refl (f : ℕ → Consumer) : Later f f := fun _ ↦ .refl _

theorem Later.trans {f g h : ℕ → Consumer} (hfg : Later f g) (hgh : Later g h) : Later f h :=
  fun stream ↦ (hfg stream).trans (hgh stream)

theorem Later.update {f : ℕ → Consumer} {stream : ℕ} {c : Consumer}
    (h : Consumer.Later (f stream) c) : Later f (Function.update f stream c) := by
  intro other
  by_cases hsame : other = stream
  · subst hsame
    rw [Function.update_self]
    exact h
  · rw [Function.update_of_ne hsame]
    exact .refl _

namespace Isolate

section Statuses

variable {U : ℕ → Prop} {s t : Isolate} {stream : ℕ} {c : Consumer} {waiting : List ℕ}
  {subject : Option ℕ}

theorem Touches.later (h : Touches s stream c t) (hc : Consumer.Later (s.consumer stream) c) :
    Later s.consumer t.consumer := by
  rw [h.consumer]
  exact .update hc

theorem Touches.steady (h : Touches s stream c t) (hs : Statuses U waiting subject s.consumer)
    (hc : Consumer.Steady (U stream) (s.consumer stream) c)
    (hfresh : s.consumer stream = {} → c = {}) :
    Statuses U waiting subject t.consumer ∧ Later s.consumer t.consumer := by
  refine ⟨?_, h.later hc.later⟩
  rw [h.consumer]
  exact hs.steady hc hfresh

theorem leave_statuses (hs : Statuses U waiting subject s.consumer) (stream : ℕ) :
    Statuses U waiting subject (s.leave stream).consumer ∧
      Later s.consumer (s.leave stream).consumer :=
  (touches_leave s stream).steady hs (steady_leave _) fresh_leave

theorem ended_statuses (hs : Statuses U waiting (some stream) s.consumer) :
    Statuses U waiting none (s.ended stream).consumer ∧
      Later s.consumer (s.ended stream).consumer := by
  have htouch := touches_finished s stream
  obtain ⟨hover, hunclosed⟩ := (hs.standing stream).ending rfl
  refine ⟨?_, htouch.later ((Consumer.Later.close _).trans (.doneOnce _))⟩
  rw [htouch.consumer]
  exact hs.settle ((hover.close hunclosed).doneOnce rfl)

theorem received_statuses {terminal : Bool}
    (hs : Statuses U waiting (if terminal then some stream else none) s.consumer) :
    Statuses U waiting none (s.received stream terminal).consumer ∧
      Later s.consumer (s.received stream terminal).consumer := by
  cases terminal with
  | true => exact ended_statuses hs
  | false =>
    exact (touches_received s stream false).steady hs (.refl _) id

theorem told_statuses {waiting' : List ℕ} (hs : Statuses U waiting none s.consumer)
    (hnodup : waiting'.Nodup) (hmem : stream ∈ waiting)
    (hwaiting : ∀ other, other ∈ waiting' ↔ other ∈ waiting ∧ other ≠ stream)
    (hcancelled : (s.consumer stream).cancelled = false) (event : Event)
    (hterminal : isToken event = false)
    (h : Touches s stream (added event { s.consumer stream with finished := true }) t) :
    Statuses U waiting' (some stream) t.consumer ∧ Later s.consumer t.consumer := by
  have hlive := (hs.standing stream).live hmem
  have hcanceled : (s.consumer stream).controller.canceled = false :=
    hlive.linked.symm.trans hcancelled
  have hadded := StreamController.add_spec hcanceled event
  refine ⟨?_, h.later ((Consumer.Later.add hcanceled event).trans (.of_eq rfl))⟩
  rw [h.consumer]
  exact hs.finish hnodup hwaiting (hlive.finish hcanceled hterminal)
    (hadded.closed.trans hlive.unclosed)

/-- A stream has ended that its consumer has cancelled. -/
theorem dropped_statuses {waiting' : List ℕ} (hs : Statuses U waiting none s.consumer)
    (hnodup : waiting'.Nodup) (hmem : stream ∈ waiting)
    (hwaiting : ∀ other, other ∈ waiting' ↔ other ∈ waiting ∧ other ≠ stream)
    (hcancelled : (s.consumer stream).cancelled = true)
    (h : Touches s stream (doneOnce { s.consumer stream with finished := true }) t) :
    Statuses U waiting' none t.consumer ∧ Later s.consumer t.consumer := by
  have hlive := (hs.standing stream).live hmem
  have hfinished : Consumer.Later (s.consumer stream) { s.consumer stream with finished := true } :=
    .of_eq rfl
  refine ⟨?_, h.later (hfinished.trans (.doneOnce _))⟩
  rw [h.consumer]
  refine hs.drop hnodup hwaiting ?_
  rw [doneOnce, if_pos hlive.done]
  dsimp only
  rw [hlive.done]
  exact hlive.drop hcancelled

end Statuses

variable {U : ℕ → Prop} {s t u : Isolate} {stream : ℕ} {c : Consumer} {failure : Failure}

/-- The streams that wait for their end: the loop of `_workerEnded` has come to
some of them. -/
def waiting (s : Isolate) : List ℕ :=
  match s.frame with
  | some (.ending _ _ rest) => rest
  | _ => s.streams

def subject (s : Isolate) : Option ℕ :=
  match s.frame with
  | some (.receiving stream true) | some (.ending _ stream _) => some stream
  | _ => none

def Standings (U : ℕ → Prop) (s : Isolate) : Prop := Statuses U s.waiting s.subject s.consumer

def account (s : Isolate) : Isolate :=
  { s with consumer := fun _ ↦ {}, posted := [], streams := [], ports := true, frame := none }

theorem account_of_core (h : t.core = s.core) : t.account = s.account := by
  have haccount (s : Isolate) : s.account = s.core.account := rfl
  rw [haccount t, haccount s, h]

/-- The loop of `_workerEnded` comes to its end or to a listener that it calls. -/
structure Tells (U : ℕ → Prop) (failure : Failure) (s t : Isolate) : Prop where
  account : t.account = s.account
  posted : ∃ more, t.posted = s.posted ++ more ∧ ∀ m ∈ more, m.light = true
  outcome : t.frame = none ∧ t.streams = [] ∧ t.ports = false ∨
    ∃ stream rest, t.frame = some (.ending failure stream rest) ∧ t.streams = s.streams ∧
      t.ports = s.ports
  standings : Standings U t
  later : Later s.consumer t.consumer

theorem Tells.touched (h : Tells U failure t u) (htouch : Touches s stream c t)
    (hlater : Later s.consumer t.consumer) : Tells U failure s u := by
  obtain ⟨more, hmore, hlight⟩ := htouch.posted
  obtain ⟨more', hmore', hlight'⟩ := h.posted
  refine ⟨h.account.trans (account_of_core htouch.core), ⟨more ++ more', ?_, fun m hm ↦ ?_⟩, ?_,
    h.standings, hlater.trans h.later⟩
  · rw [hmore', hmore, List.append_assoc]
  · exact (List.mem_append.mp hm).elim (hlight m) (hlight' m)
  · rcases h.outcome with houtcome | ⟨other, rest, hframe, hstreams, hports⟩
    · exact .inl houtcome
    · exact .inr ⟨other, rest, hframe, hstreams.trans (core_eq streams (fun _ ↦ rfl) htouch.core),
        hports.trans (core_eq ports (fun _ ↦ rfl) htouch.core)⟩

theorem endStreams_tells (failure : Failure) (rest : List ℕ) (hframe : s.frame = none)
    (hs : Statuses U rest none s.consumer) : Tells U failure s (endStreams failure rest s) := by
  induction rest generalizing s with
  | nil =>
    refine ⟨rfl, ⟨[], by simp [endStreams, finishPorts], by simp⟩,
      .inl ⟨hframe, rfl, rfl⟩, ?_, .refl _⟩
    simpa [Standings, waiting, subject, endStreams, finishPorts, hframe] using hs
  | cons stream rest ih =>
    obtain ⟨hnew, hnodup⟩ := List.nodup_cons.mp hs.nodup
    have hlive := (hs.standing stream).live List.mem_cons_self
    have hwaiting (other : ℕ) : other ∈ rest ↔ other ∈ stream :: rest ∧ other ≠ stream := by
      constructor
      · exact fun h ↦ ⟨List.mem_cons_of_mem _ h, fun heq ↦ hnew (heq ▸ h)⟩
      · exact fun h ↦ (List.mem_cons.mp h.1).resolve_left h.2
    have hfinish := touches_finish s stream
    have hconsumer : ((s.finish stream).consumer stream).cancelled =
        (s.consumer stream).cancelled := by rw [hfinish.self]
    rw [endStreams]
    dsimp only
    split_ifs with hcancelled hfired
    · have hdone := hfinish.and (touches_completeDoneOnce _ stream)
      obtain ⟨hdropped, hlater⟩ := dropped_statuses hs hnodup List.mem_cons_self hwaiting
        (hconsumer.symm.trans hcancelled) hdone
      refine (ih ?_ hdropped).touched hdone hlater
      exact (core_eq frame (fun _ ↦ rfl) hdone.core).trans hframe
    all_goals
      have hadd := hfinish.and (touches_add _ stream (.failed failure))
      obtain ⟨htold, hlater⟩ := told_statuses hs hnodup List.mem_cons_self hwaiting
        (hconsumer.symm.trans (by simpa using hcancelled)) (.failed failure) rfl hadd
    · have haccount := account_of_core hadd.core
      exact ⟨haccount, hadd.posted, .inr ⟨stream, rest, rfl, rfl, rfl⟩, htold, hlater⟩
    · obtain ⟨hended, hendedLater⟩ := ended_statuses htold
      have hdone := hadd.and (f := fun c ↦ doneOnce c.close) (touches_finished _ stream)
      refine (ih ?_ hended).touched hdone (hlater.trans hendedLater)
      exact (core_eq frame (fun _ ↦ rfl) hdone.core).trans hframe

end Isolate

end LibLitertLm.Backend
