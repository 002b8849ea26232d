import LibLitertLm.Backend.Closing
import LibLitertLm.Worker.Lossless

namespace LibLitertLm.Backend

open Handles (Event)
open Worker (NativeWorker Outgoing)

/-- The consumers have accepted what was delivered to them, and failures of the
backend only once they do not wait for anything more. -/
def Fed (log : ℕ → List Worker.Event) (waiting : List ℕ) (consumer : ℕ → Consumer) : Prop :=
  ∀ stream, ∃ failures : List Failure, (stream ∈ waiting → failures = []) ∧
    StreamController.Feeds ((log stream).map Isolate.toEvent ++ failures.map Event.failed) {}
      (consumer stream).controller

namespace Fed

variable {U : ℕ → Prop} {log : ℕ → List Worker.Event} {waiting waiting' : List ℕ}
  {consumer : ℕ → Consumer} {s t : Isolate} {stream : ℕ} {c : Consumer}

theorem init : Fed (fun _ ↦ []) [] fun _ ↦ {} := fun _ ↦ ⟨[], fun _ ↦ rfl, .refl _⟩

theorem mono (h : Fed log waiting consumer) (hsub : ∀ stream ∈ waiting', stream ∈ waiting) :
    Fed log waiting' consumer := by
  intro stream
  obtain ⟨failures, hnone, hfeeds⟩ := h stream
  exact ⟨failures, fun hmem ↦ hnone (hsub stream hmem), hfeeds⟩

theorem log_of_fresh (h : Fed log waiting consumer) (hfresh : consumer stream = {}) :
    log stream = [] ∧ Fed log (stream :: waiting) consumer := by
  obtain ⟨failures, -, hfeeds⟩ := h stream
  rw [hfresh] at hfeeds
  have hempty : (log stream).map Isolate.toEvent ++ failures.map Event.failed = [] :=
    (hfeeds.all rfl).2.symm
  rw [List.append_eq_nil_iff, List.map_eq_nil_iff, List.map_eq_nil_iff] at hempty
  refine ⟨hempty.1, fun other ↦ ?_⟩
  by_cases hsame : other = stream
  · subst hsame
    refine ⟨[], fun _ ↦ rfl, ?_⟩
    rw [hempty.1, hfresh]
    exact .refl _
  · obtain ⟨failures, hnone, hfeeds⟩ := h other
    exact ⟨failures, fun hmem ↦ hnone ((List.mem_cons.mp hmem).resolve_left hsame), hfeeds⟩

theorem update (h : Fed log waiting consumer)
    (hothers : ∀ other ∈ waiting', other ≠ stream → other ∈ waiting)
    {log' : ℕ → List Worker.Event} (hlog : ∀ other, other ≠ stream → log' other = log other)
    (hc : ∃ failures : List Failure, (stream ∈ waiting' → failures = []) ∧
      StreamController.Feeds ((log' stream).map Isolate.toEvent ++ failures.map Event.failed) {}
        c.controller) : Fed log' waiting' (Function.update consumer stream c) := by
  intro other
  by_cases hsame : other = stream
  · subst hsame
    rw [Function.update_self]
    exact hc
  · obtain ⟨failures, hnone, hfeeds⟩ := h other
    rw [Function.update_of_ne hsame, hlog other hsame]
    exact ⟨failures, fun hmem ↦ hnone (hothers other hmem hsame), hfeeds⟩

theorem touch (h : Fed log waiting s.consumer) (ht : Isolate.Touches s stream c t)
    (hc : StreamController.Feeds [] (s.consumer stream).controller c.controller) :
    Fed log waiting t.consumer := by
  rw [ht.consumer]
  refine h.update (fun _ hmem _ ↦ hmem) (fun _ _ ↦ rfl) ?_
  obtain ⟨failures, hnone, hfeeds⟩ := h stream
  have hboth := hfeeds.trans hc
  rw [List.append_nil] at hboth
  exact ⟨failures, hnone, hboth⟩

theorem deliver (h : Fed log waiting s.consumer) (ht : Isolate.Touches s stream c t)
    (hwaits : stream ∈ waiting) {e : Worker.Event}
    (hc : StreamController.Feeds [Isolate.toEvent e] (s.consumer stream).controller c.controller) :
    Fed (Function.update log stream (log stream ++ [e])) waiting t.consumer := by
  rw [ht.consumer]
  refine h.update (fun _ hmem _ ↦ hmem) (fun other hne ↦ Function.update_of_ne hne ..) ?_
  obtain ⟨failures, hnone, hfeeds⟩ := h stream
  obtain rfl := hnone hwaits
  refine ⟨[], fun _ ↦ rfl, ?_⟩
  have hboth := hfeeds.trans hc
  rw [List.map_nil, List.append_nil] at hboth
  rw [Function.update_self, List.map_nil, List.append_nil, List.map_append]
  exact hboth

theorem fail (h : Fed log waiting s.consumer) (ht : Isolate.Touches s stream c t)
    {failure : Failure}
    (hwaiting : ∀ other ∈ waiting', other ∈ waiting ∧ other ≠ stream)
    (hc : StreamController.Feeds [.failed failure] (s.consumer stream).controller c.controller) :
    Fed log waiting' t.consumer := by
  rw [ht.consumer]
  refine h.update (fun other hmem _ ↦ (hwaiting other hmem).1) (fun _ _ ↦ rfl) ?_
  obtain ⟨failures, -, hfeeds⟩ := h stream
  refine ⟨failures ++ [failure], fun hmem ↦ absurd rfl (hwaiting stream hmem).2, ?_⟩
  rw [List.map_append, ← List.append_assoc]
  exact hfeeds.trans hc

theorem doneOnce_controller (c : Consumer) : (Isolate.doneOnce c).controller = c.controller := by
  unfold Isolate.doneOnce
  split_ifs <;> rfl

theorem feeds_close (c : Consumer) :
    StreamController.Feeds [] c.controller (Isolate.doneOnce c.close).controller := by
  rw [doneOnce_controller]
  exact .close _

theorem leave (h : Fed log waiting s.consumer) (stream : ℕ) :
    Fed log waiting (s.leave stream).consumer :=
  h.touch (Isolate.touches_leave s stream) (.leave _)

theorem finish (h : Fed log waiting s.consumer) (stream : ℕ) :
    Fed log waiting (s.finish stream).consumer :=
  h.touch (Isolate.touches_finish s stream) (.refl _)

theorem completeDoneOnce (h : Fed log waiting s.consumer) (stream : ℕ) :
    Fed log waiting (s.completeDoneOnce stream).consumer := by
  refine h.touch (Isolate.touches_completeDoneOnce s stream) ?_
  rw [doneOnce_controller]
  exact .refl _

theorem settle (h : Fed log waiting s.consumer) (stream : ℕ) :
    Fed log waiting (s.ended stream).consumer :=
  h.touch (Isolate.touches_finished s stream) (feeds_close _)

theorem received (h : Fed log waiting s.consumer) (stream : ℕ) (terminal : Bool) :
    Fed log waiting (s.received stream terminal).consumer := by
  refine h.touch (Isolate.touches_received s stream terminal) ?_
  split_ifs
  · exact feeds_close _
  · exact .refl _

/-- The loop of `_workerEnded` tells every consumer that still waits. -/
theorem endStreams (failure : Failure) (rest : List ℕ) (h : Fed log rest s.consumer)
    (hnodup : rest.Nodup) (hframe : s.frame = none) :
    Fed log (Isolate.endStreams failure rest s).waiting
      (Isolate.endStreams failure rest s).consumer ∧
      ∀ stream ∈ (Isolate.endStreams failure rest s).waiting, stream ∈ rest := by
  induction rest generalizing s with
  | nil =>
    have hwaiting : (Isolate.endStreams failure [] s).waiting = [] := by
      simp [Isolate.endStreams, Isolate.finishPorts, Isolate.waiting, hframe]
    rw [hwaiting]
    exact ⟨h, by simp⟩
  | cons stream rest ih =>
    obtain ⟨hnew, hnodup⟩ := List.nodup_cons.mp hnodup
    have hrest : ∀ other ∈ rest, other ∈ stream :: rest ∧ other ≠ stream := fun other hmem ↦
      ⟨List.mem_cons_of_mem _ hmem, fun hsame ↦ hnew (hsame ▸ hmem)⟩
    have hfinish := h.finish stream
    have hadded : Fed log rest ((s.finish stream).add stream (.failed failure)).1.consumer :=
      hfinish.fail (Isolate.touches_add _ stream (.failed failure)) hrest (.add _ _)
    have hnone {c : Consumer} {t : Isolate} (ht : Isolate.Touches s stream c t) : t.frame = none :=
      (Isolate.core_eq Isolate.frame (fun _ ↦ rfl) ht.core).trans hframe
    have hlater {t : Isolate}
      (ht : Fed log t.waiting t.consumer ∧ ∀ other ∈ t.waiting, other ∈ rest) :
        Fed log t.waiting t.consumer ∧ ∀ other ∈ t.waiting, other ∈ stream :: rest :=
      ⟨ht.1, fun other hmem ↦ List.mem_cons_of_mem _ (ht.2 other hmem)⟩
    have htouch :=
      (Isolate.touches_finish s stream).and (Isolate.touches_add _ stream (.failed failure))
    rw [Isolate.endStreams]
    dsimp only
    split_ifs
    · refine hlater
        (ih ((hfinish.mono fun other hmem ↦ (hrest other hmem).1).completeDoneOnce stream)
        hnodup ?_)
      exact hnone
        ((Isolate.touches_finish s stream).and (Isolate.touches_completeDoneOnce _ stream))
    · exact ⟨hadded, fun other hmem ↦ List.mem_cons_of_mem _ hmem⟩
    · refine hlater (ih (hadded.settle stream) hnodup ?_)
      exact hnone
        (htouch.and (f := fun c ↦ Isolate.doneOnce c.close) (Isolate.touches_finished _ stream))

/-- The consumers have accepted what was delivered, and who waits now has waited
before or is new. -/
def After (log : ℕ → List Worker.Event) (s t : Isolate) : Prop :=
  Fed log t.waiting t.consumer ∧ ∀ stream ∈ t.waiting, stream ∈ s.waiting ∨ s.consumer stream = {}

theorem after_of_eq (h : Fed log s.waiting t.consumer) (hwaiting : t.waiting = s.waiting) :
    After log s t := by
  rw [After, hwaiting]
  exact ⟨h, fun _ ↦ .inl⟩

theorem after_of_touch (h : Fed log s.waiting s.consumer) (ht : Isolate.Touches s stream c t)
    (hc : StreamController.Feeds [] (s.consumer stream).controller c.controller) :
      After log s t := by
  refine after_of_eq (h.touch ht hc) ?_
  rw [Isolate.waiting, Isolate.core_eq Isolate.frame (fun _ ↦ rfl) ht.core,
    Isolate.core_eq Isolate.streams (fun _ ↦ rfl) ht.core, Isolate.waiting]

theorem listen (h : Fed log s.waiting s.consumer) (hsound : Isolate.Sound U s) (stream : ℕ) :
    After log s (s.listen stream) := by
  have hlistened := Isolate.listened (hsound.standings.standing stream).fresh
  generalize s.listen stream = t at hlistened
  cases hlistened with
  | nothing => exact after_of_eq h rfl
  | refused hfresh hclosed =>
    have hlistened : (s.consumer stream).controller.listened = false := by rw [hfresh]
    have hwaits := (hsound.standings.unknown hlistened).1
    refine after_of_eq (h.update (fun _ hmem _ ↦ hmem) (fun _ _ ↦ rfl) ?_) rfl
    refine ⟨[s.refusal], fun hmem ↦ absurd hmem hwaits, ?_⟩
    rw [(h.log_of_fresh hfresh).1]
    refine ⟨List.prefix_rfl, fun _ ↦ ⟨rfl, rfl⟩, fun hc ↦ ?_⟩
    cases hc
  | accepted sessionId input hfresh hclosed =>
    have hending := hsound.not_ending (Bool.or_eq_false_iff.mp hclosed).2
    obtain ⟨hlog, hbefore⟩ := h.log_of_fresh hfresh
    rw [Isolate.waiting_of_not_ending hending] at hbefore
    set t := (({ s with streams := s.streams ++ [stream] }.post
      (.generate stream sessionId input)).setConsumer stream
        { controller := (StreamController.listen {}).leave.1 }) with ht
    have hwaiting : t.waiting = s.streams ++ [stream] := Isolate.waiting_of_not_ending hending
    rw [After, hwaiting, Isolate.waiting_of_not_ending hending]
    refine ⟨hbefore.update (fun other hmem hne ↦ ?_) (fun _ _ ↦ rfl) ⟨[], fun _ ↦ rfl, ?_⟩,
      fun other hmem ↦ ?_⟩
    · exact List.mem_cons_of_mem _ ((List.mem_append.mp hmem).resolve_right (by simpa using hne))
    · rw [hlog]
      refine ⟨List.prefix_rfl, fun _ ↦ ⟨rfl, rfl⟩, fun hc ↦ ?_⟩
      cases hc
    · refine (List.mem_append.mp hmem).imp_right fun hnew ↦ ?_
      obtain rfl := List.mem_singleton.mp hnew
      exact hfresh

theorem call (h : Fed log s.waiting s.consumer) (hsound : Isolate.Sound U s) (c : Isolate.Call) :
    After log s (s.call c) := by
  cases c with
  | request r =>
    simp only [Isolate.call, Isolate.request]
    split_ifs <;> exact after_of_eq h rfl
  | stream sessionId input => exact after_of_eq h rfl
  | listen stream => exact h.listen hsound stream
  | pause stream => exact after_of_touch h (.set s stream _) (.pause _)
  | resume stream =>
    exact after_of_touch h (Isolate.touches_resumed s stream
      (s.consumer stream).controller.resume.1 (s.consumer stream).controller.resume.2) (.resume _)
  | cancel stream =>
    exact after_of_touch h (Isolate.touches_ended s stream
      (s.consumer stream).controller.cancel.1 (s.consumer stream).controller.cancel.2) (.cancel _)
  | close =>
    simp only [Isolate.call, Isolate.close]
    split_ifs with hfuture hclosed
    · exact after_of_eq h rfl
    · exact after_of_eq h rfl
    · rw [Isolate.request, if_neg (by simpa using hclosed)]
      exact after_of_eq h rfl
  | crashForTesting => exact after_of_eq h rfl

theorem proceed (h : Fed log s.waiting s.consumer) (hsound : Isolate.Sound U s) {frame : Frame}
    (hframe : s.frame = some frame) : After log s ({ s with frame := none }.proceed frame) := by
  have hnodup := hsound.standings.nodup
  set u : Isolate := { s with frame := none } with hu
  have hfed : Fed log s.waiting u.consumer := h
  have hnone {t : Isolate} (hcore : t.core = u.core) : t.frame = none :=
    Isolate.core_eq Isolate.frame (fun _ ↦ rfl) hcore
  have hquiet {t : Isolate} (hcore : t.core = u.core) (hending : s.waiting = s.streams) :
      t.waiting = s.waiting := by
    have hstreams : t.streams = u.streams := Isolate.core_eq Isolate.streams (fun _ ↦ rfl) hcore
    rw [hending, Isolate.waiting, hnone hcore]
    exact hstreams
  have hleave := Isolate.touches_leave u
  cases frame with
  | receiving stream terminal =>
    have hcore :=
      (Isolate.touches_received (u.leave stream) stream terminal).core.trans (hleave stream).core
    exact after_of_eq ((hfed.leave stream).received stream terminal)
      (hquiet hcore (by rw [Isolate.waiting, hframe]))
  | ending failure stream rest =>
    have hcore := (Isolate.touches_finished (u.leave stream) stream).core.trans (hleave stream).core
    have hwaiting : s.waiting = rest := by rw [Isolate.waiting, hframe]
    rw [hwaiting] at hfed hnodup
    obtain ⟨hafter, hsub⟩ :=
      endStreams failure rest ((hfed.leave stream).settle stream) hnodup (hnone hcore)
    refine ⟨hafter, fun other hmem ↦ .inl ?_⟩
    rw [hwaiting]
    exact hsub other hmem
  | dispatching stream =>
    exact after_of_eq (hfed.leave stream)
      (hquiet (hleave stream).core (by rw [Isolate.waiting, hframe]))

theorem exit (h : Fed log s.waiting s.consumer) (hsound : Isolate.Sound U s)
    (hframe : s.frame = none)
    (detail : Option String) : After log s (s.workerEnded detail) := by
  have hnodup := hsound.standings.nodup
  have hwaiting : s.waiting = s.streams := by rw [Isolate.waiting, hframe]
  rw [Isolate.workerEnded]
  split_ifs
  · exact after_of_eq h rfl
  · have hfailed (ids : List ℕ) (result : Except Failure Worker.Value) : ∀ s : Isolate,
        (ids.foldl (fun s id ↦ s.complete id result) s).consumer = s.consumer ∧
          (ids.foldl (fun s id ↦ s.complete id result) s).frame = s.frame ∧
          (ids.foldl (fun s id ↦ s.complete id result) s).streams = s.streams := by
      induction ids with
      | nil => exact fun _ ↦ ⟨rfl, rfl, rfl⟩
      | cons id ids ih => exact fun s ↦ ih _
    obtain ⟨hconsumer, hframe', hstreams⟩ := hfailed s.pending
      (.error (.workerFailure (Isolate.workerFailureText detail)))
      { s with
        closed := true
        workerFailure := some (.workerFailure (Isolate.workerFailureText detail)) }
    have hends {v : Isolate} (hconsumer : v.consumer = s.consumer) (hnone : v.frame = none)
        (hstreams : v.streams = s.streams) (failure : Failure) :
        After log s (Isolate.endStreams failure v.streams { v with pending := [] }) := by
      have hfed : Fed log v.streams { v with pending := [] }.consumer := by
        rwa [hstreams, ← hwaiting, hconsumer]
      obtain ⟨hafter, hsub⟩ :=
        endStreams failure v.streams hfed (by rwa [hstreams, ← hwaiting]) hnone
      refine ⟨hafter, fun other hmem ↦ .inl ?_⟩
      rw [hwaiting, ← hstreams]
      exact hsub other hmem
    exact hends hconsumer (hframe'.trans hframe) hstreams _

theorem step (h : Fed log s.waiting s.consumer) (hsound : Isolate.Sound U s) {a : Isolate.Action}
    (ha : ∀ m, a ≠ .receive m) (ht : s.step a = some t) : After log s t := by
  cases a with
  | call c =>
    obtain rfl := Option.some.inj ht
    exact h.call hsound c
  | returned =>
    simp only [Isolate.step] at ht
    split at ht
    · next frame hframe =>
      obtain rfl := Option.some.inj ht
      exact h.proceed hsound hframe
    · cases ht
  | receive message => exact absurd rfl (ha message)
  | exit detail =>
    simp only [Isolate.step] at ht
    split_ifs at ht with hready
    obtain rfl := Option.some.inj ht
    exact h.exit hsound (by simpa using (Bool.and_eq_true_iff.mp hready).1) detail
  | dispatch stream =>
    simp only [Isolate.step] at ht
    split_ifs at ht with hready
    have hframe : s.frame = none := by simpa using hready
    split at ht
    · next k hnext =>
      obtain rfl := Option.some.inj ht
      exact after_of_touch h (Isolate.touches_ended s stream k true) (.next hnext)
    · next k hnext =>
      obtain rfl := Option.some.inj ht
      have hset := Isolate.Touches.set s stream { s.consumer stream with controller := k }
      have hfed := h.touch hset (.next hnext)
      refine after_of_eq hfed ?_
      rw [Isolate.waiting, Isolate.waiting, hframe]
      rfl
    · cases ht
  | closed =>
    simp only [Isolate.step] at ht
    split at ht
    · split_ifs at ht
      obtain rfl := Option.some.inj ht
      exact after_of_eq h rfl
    · split_ifs at ht
      obtain rfl := Option.some.inj ht
      exact after_of_eq h rfl
    · cases ht

def extend (log : ℕ → List Worker.Event) (s : Isolate) : Outgoing → ℕ → List Worker.Event
  | .event stream e =>
    if stream ∈ s.streams then Function.update log stream (log stream ++ [e]) else log
  | .reply .. => log

theorem waiting_of_touch (ht : Isolate.Touches s stream c t) (hframe : s.frame = none) :
    t.waiting = s.streams := by
  rw [Isolate.waiting, (Isolate.core_eq Isolate.frame (fun _ ↦ rfl) ht.core).trans hframe]
  exact Isolate.core_eq Isolate.streams (fun _ ↦ rfl) ht.core

theorem heard (h : Fed log waiting s.consumer) (hwaits : stream ∈ waiting)
    (hsub : ∀ other ∈ s.streams, other ∈ waiting) (hframe : s.frame = none)
    (hlinked : (s.consumer stream).cancelled = (s.consumer stream).controller.canceled)
    {e : Worker.Event} {terminal : Bool} (ht : t = if (s.consumer stream).cancelled then
        if terminal then s.completeDoneOnce stream else s
      else if (s.add stream (Isolate.toEvent e)).2 then
        { (s.add stream (Isolate.toEvent e)).1 with frame := some (.receiving stream terminal) }
      else (s.add stream (Isolate.toEvent e)).1.received stream terminal) :
    Fed (Function.update log stream (log stream ++ [e])) t.waiting t.consumer ∧
      ∀ other ∈ t.waiting, other ∈ waiting := by
  have hboth {t : Isolate}
    (hfed : Fed (Function.update log stream (log stream ++ [e])) waiting t.consumer)
      (hwaiting : t.waiting = s.streams) :
      Fed (Function.update log stream (log stream ++ [e])) t.waiting t.consumer ∧
        ∀ other ∈ t.waiting, other ∈ waiting := by
    rw [hwaiting]
    exact ⟨hfed.mono hsub, hsub⟩
  have htouch := Isolate.touches_add s stream (Isolate.toEvent e)
  have hadded := h.deliver htouch hwaits (.add _ _)
  have hdropped (hcancelled : (s.consumer stream).cancelled = true) :
      Fed (Function.update log stream (log stream ++ [e])) waiting s.consumer :=
    h.deliver (.refl s stream) hwaits (.of_canceled (hlinked.symm.trans hcancelled) _)
  subst ht
  split_ifs with hcancelled hterminal hfired
  · exact hboth ((hdropped hcancelled).completeDoneOnce stream)
      (waiting_of_touch (Isolate.touches_completeDoneOnce s stream) hframe)
  · exact hboth (hdropped hcancelled) (waiting_of_touch (.refl s stream) hframe)
  · have hstreams : (s.add stream (Isolate.toEvent e)).1.streams = s.streams :=
      Isolate.core_eq Isolate.streams (fun _ ↦ rfl) htouch.core
    exact hboth hadded hstreams
  · have hnone := (Isolate.core_eq Isolate.frame (fun _ ↦ rfl) htouch.core).trans hframe
    have hwaiting := waiting_of_touch (Isolate.touches_received _ stream terminal) hnone
    exact hboth (hadded.received stream terminal)
      (hwaiting.trans (Isolate.core_eq Isolate.streams (fun _ ↦ rfl) htouch.core))

theorem receive (h : Fed log s.waiting s.consumer) (hsound : Isolate.Sound U s)
    (hframe : s.frame = none)
    (m : Outgoing) : Fed (extend log s m) (s.receive m).waiting (s.receive m).consumer ∧
      ∀ stream ∈ (s.receive m).waiting, stream ∈ s.streams := by
  have hwaiting : s.waiting = s.streams := by rw [Isolate.waiting, hframe]
  rw [hwaiting] at h
  have hsame {t : Isolate} (hconsumer : t.consumer = s.consumer)
    (hstreams : t.waiting = s.streams) :
      Fed log t.waiting t.consumer ∧ ∀ stream ∈ t.waiting, stream ∈ s.streams := by
    rw [hconsumer, hstreams]
    exact ⟨h, fun _ hmem ↦ hmem⟩
  cases m with
  | reply request result =>
    cases request with
    | none => exact hsame rfl hwaiting
    | some id =>
      simp only [Isolate.receive, extend]
      split_ifs
      · exact hsame rfl hwaiting
      · exact hsame rfl hwaiting
  | event stream e =>
    rw [Isolate.receive, extend]
    by_cases hmem : stream ∈ s.streams
    · rw [if_pos hmem, if_pos hmem]
      have hlinked := ((hsound.standings.standing stream).live (hwaiting ▸ hmem)).linked
      cases htoken : e.isToken with
      | true => exact h.heard hmem (fun _ hother ↦ hother) hframe hlinked rfl
      | false =>
        have hfinish :=
          Isolate.touches_finish { s with streams := s.streams.filter (· ≠ stream) } stream
        have hfinished : Fed log s.streams (s.finish stream).consumer := h.finish stream
        have hfed : Fed log s.streams
            ({ s with streams := s.streams.filter (· ≠ stream) }.finish stream).consumer :=
              hfinished
        refine hfed.heard hmem (fun other hother ↦ (List.mem_filter.mp hother).1) hframe ?_ rfl
        rw [hfinish.self]
        exact hlinked
    · rw [if_neg hmem, if_neg hmem]
      exact hsame rfl hwaiting

end Fed

def toldTo (stream : ℕ) : Outgoing → Option Worker.Event
  | .event other e => if other = stream then some e else none
  | .reply .. => none

def told (stream : ℕ) (messages : List Outgoing) : List Worker.Event :=
  messages.filterMap (toldTo stream)

theorem told_messages (stream : ℕ) (w : NativeWorker) :
    told stream w.messages = (Worker.eventsOf stream w.sent).map Prod.fst := by
  have hfirst (m : Outgoing × Worker.State) :
      toldTo stream m.1 = (Worker.sentTo stream m).map Prod.fst := by
    obtain ⟨m, s⟩ := m
    cases m with
    | reply request result => rfl
    | event other e =>
      simp only [toldTo, Worker.sentTo]
      split_ifs <;> rfl
  rw [told, NativeWorker.messages, Worker.eventsOf, List.filterMap_map, List.map_filterMap]
  exact List.filterMap_congr fun m _ ↦ hfirst m

theorem told_append (stream : ℕ) (messages messages' : List Outgoing) :
    told stream (messages ++ messages') = told stream messages ++ told stream messages' :=
  List.filterMap_append

theorem extend_eq (log : ℕ → List Worker.Event) (s : Isolate) (m : Outgoing) (stream : ℕ) :
    Fed.extend log s m stream =
      if stream ∈ s.streams then log stream ++ (toldTo stream m).toList else log stream := by
  cases m with
  | reply => simp [Fed.extend, toldTo]
  | event other e =>
    rw [Fed.extend]
    by_cases hsame : stream = other
    · subst hsame
      split_ifs <;> simp [toldTo]
    · have hnone : toldTo stream (.event other e) = none := if_neg (Ne.symm hsame)
      rw [hnone, Option.toList_none, List.append_nil, ite_self]
      split_ifs
      · exact Function.update_of_ne hsame ..
      · rfl

/-- What was delivered to the consumers is what the worker has sent to them, as
far as it was read; a consumer that waits has got all of it. -/
structure Delivered (rt : Worker.Runtime) (log : ℕ → List Worker.Event)
    (w : World NativeWorker) : Prop where
  fed : Fed log w.isolate.waiting w.isolate.consumer
  sent : ∀ stream, log stream <+: told stream (w.worker.messages.take w.read)
  current : ∀ stream ∈ w.isolate.waiting, log stream = told stream (w.worker.messages.take w.read)
  voiced : Worker.Voiced (started w.seen) w.worker
  truthful : Worker.Truthful rt w.worker

namespace Delivered

variable {rt : Worker.Runtime} {U : ℕ → Prop} {log : ℕ → List Worker.Event} {owed owed' : List Due}
  {w w' : World NativeWorker} {turn : Turn Answers Work}

theorem init : Delivered rt (fun _ ↦ []) (nativeParty rt).system.init :=
  ⟨.init, fun _ ↦ List.nil_prefix, fun _ _ ↦ rfl, Worker.voiced_init,
    ⟨Worker.consistent_init, by simp [Party.system, nativeParty],
      by simp [Party.system, nativeParty]⟩⟩

theorem told_fresh (h : Delivered rt log w) (hw : Joined U w) {stream : ℕ}
    (hfresh : w.isolate.consumer stream = {}) :
      told stream (w.worker.messages.take w.read) = [] := by
  have hsilent := h.voiced.silent stream fun hmem ↦ by
    have hlistened := hw.starting.listened stream (((List.take_sublist ..).filterMap _).subset hmem)
    rw [hfresh] at hlistened
    cases hlistened
  have hnone : told stream w.worker.messages = [] := by rw [told_messages, hsilent, List.map_nil]
  exact List.sublist_nil.mp (hnone ▸ (List.take_sublist ..).filterMap _)

theorem main (h : Delivered rt log w) (hw : Joined U w) {s : Isolate}
    (hposted : w.isolate.posted <+: s.posted) (hafter : Fed.After log w.isolate s) :
    Delivered rt log { w with isolate := s } := by
  refine ⟨hafter.1, h.sent, fun stream hmem ↦ ?_, ?_, h.truthful⟩
  · rcases hafter.2 stream hmem with hwaits | hfresh
    · exact h.current stream hwaits
    · rw [(h.fed.log_of_fresh hfresh).1]
      exact (h.told_fresh hw hfresh).symm
  · rw [hw.seen_eq hposted w.read]
    exact h.voiced

theorem deliver (h : Delivered rt log w) (hw : Joined U w) {m : Outgoing}
    (hm : w.worker.messages[w.read]? = some m) (hframe : w.isolate.frame = none) :
    Delivered rt (Fed.extend log w.isolate m)
      { w with isolate := w.isolate.receive m, read := w.read + 1 } := by
  obtain ⟨hfed, hsub⟩ := h.fed.receive hw.fit.sound hframe m
  have hwaiting : w.isolate.waiting = w.isolate.streams := by rw [Isolate.waiting, hframe]
  have htold (stream : ℕ) : told stream (w.worker.messages.take (w.read + 1)) =
      told stream (w.worker.messages.take w.read) ++ (toldTo stream m).toList := by
    rw [List.take_add_one, hm, told_append]
    refine congrArg _ ?_
    cases hto : toldTo stream m <;> simp [told, hto]
  refine ⟨hfed, fun stream ↦ ?_, fun stream hmem ↦ ?_, ?_, h.truthful⟩
  · rw [htold, extend_eq]
    split_ifs with hmem
    · rw [h.current stream (hwaiting ▸ hmem)]
    · exact (h.sent stream).trans (List.prefix_append ..)
  · have hmem := hsub stream hmem
    rw [htold, extend_eq, if_pos hmem, h.current stream (hwaiting ▸ hmem)]
  · obtain ⟨more, hmore, -⟩ := (hw.fit.sound.received hframe m).posted
    rw [hw.seen_eq ⟨more, hmore.symm⟩ (w.read + 1)]
    exact h.voiced

theorem work (h : Delivered rt log w) {taken : ℕ} (hread : w.read ≤ w.worker.messages.length)
    {a : Worker.Action} (hgrows : w.worker.messages <+: (Worker.step rt w.worker a).messages)
    (hnew : ∀ stream ∈ a.asks, stream ∉ w.worker.state.operations)
    (hseen : started w.seen ⊆ started
      { w with worker := Worker.step rt w.worker a, taken := taken }.seen)
    (hplaced : (Worker.step rt w.worker a).state.fatalExit = false → Worker.Placed
      (started { w with worker := Worker.step rt w.worker a, taken := taken }.seen)
        (Worker.step rt w.worker a)) :
    Delivered rt log { w with worker := Worker.step rt w.worker a, taken := taken } := by
  have hturn := @Worker.step_turn rt _ h.truthful.consistent a
  have hsame : (Worker.step rt w.worker a).messages.take w.read = w.worker.messages.take w.read :=
    take_of_isPrefix hgrows hread
  refine ⟨h.fed, fun stream ↦ ?_, fun stream hmem ↦ ?_, h.voiced.turn hturn hseen hplaced,
    hturn.truthful h.truthful hnew⟩
  · rw [hsame]
    exact h.sent stream
  · rw [hsame]
    exact h.current stream hmem

theorem step (h : Delivered rt log w) (hw : Serving U owed w) (hw' : Serving U owed' w')
    (ht : Party.Step (nativeParty rt) w turn w') : ∃ log', Delivered rt log' w' := by
  have hfit := hw.joined.fit
  cases ht with
  | @main a s hother hs =>
    have hposted := (hfit.sound.change hfit.ledger.nodup hother hs).grows.posted
    exact ⟨log, h.main hw.joined hposted (h.fed.step hfit.sound hother hs)⟩
  | @deliver m hm hframe hports => exact ⟨_, h.deliver hw.joined hm hframe⟩
  | @take how m hm =>
    have hseen :
      { w with worker := Worker.step rt w.worker (m.action how), taken := w.taken + 1 }.seen =
        w.seen ++ [m] := World.seen_take hm
    refine ⟨log, h.work hw.linked.read
      (Worker.step_grows h.truthful.consistent (m.command_replies how))
      (fun stream hstream hmem ↦ ?_) ?_
      hw'.placed⟩
    · have hnodup := (List.nodup_append.mp (hw.joined.fresh hm how)).2.2
      exact hnodup stream (hw.joined.sound.asked stream hmem) stream
        (Option.mem_toList.mpr hstream) rfl
    · rw [hseen, started_append]
      exact List.subset_append_left ..
  | act work =>
    refine ⟨log, h.work hw.linked.read
      (Worker.Mute.turn h.truthful.consistent (by simp [work.said_action])).grows
        (by simp [work.asks_action])
      (fun _ hmem ↦ hmem) hw'.placed⟩

end Delivered

theorem delivered_run {rt : Worker.Runtime} {turns : List (Turn Answers Work)}
    {w : World NativeWorker}
    (ht : (nativeParty rt).system.run turns = some w) : ∃ log, Delivered rt log w := by
  refine (Serving.invariant (P := fun v ↦ ∃ log, Delivered rt log v) ⟨_, .init⟩ ?_ ht).2
  intro v turn v' owed owed' hserving hserving' _ h hstep
  obtain ⟨log, hdelivered⟩ := h
  exact hdelivered.step hserving hserving' hstep

/-- Two splits of a list at its first item without a property are one. -/
theorem split_unique {α : Type} {p : α → Bool} {before before' after after' : List α} {x y : α}
    (hbefore : ∀ a ∈ before, p a = true) (hbefore' : ∀ a ∈ before', p a = true) (hx : p x = false)
    (hy : p y = false) (h : before ++ x :: after = before' ++ y :: after') :
    before = before' ∧ x = y ∧ after = after' := by
  have htake (l rest : List α) (z : α) (hl : ∀ a ∈ l, p a = true) (hz : p z = false) :
      (l ++ z :: rest).takeWhile p = l := by
    rw [List.takeWhile_append_of_pos hl, List.takeWhile_cons_of_neg (by simp [hz]), List.append_nil]
  have hsame : before = before' := by
    rw [← htake before after x hbefore hx, h, htake before' after' y hbefore' hy]
  subst hsame
  obtain ⟨hxy, hafter⟩ := List.cons.inj (List.append_cancel_left h)
  exact ⟨rfl, hxy, hafter⟩

theorem spoken_eq (events : List (Worker.Event × Worker.State)) :
    Worker.spoken events = String.join (events.map fun e ↦ e.1.text) := by
  induction events with
  | nil => rfl
  | cons e events ih => rw [Worker.spoken, List.map_cons, String.join_cons, ih]

theorem toEvent_of_token {e : Worker.Event} (h : e.isToken = true) :
    Isolate.toEvent e = .token e.text := by
  cases e with
  | token text => rfl
  | _ => cases h

theorem toEvent_completed {e : Worker.Event} {text : String}
    (h : Isolate.toEvent e = .completed text) :
    e = .complete text := by
  cases e with
  | complete other => exact congrArg _ (Event.completed.inj h)
  | _ => cases h

section Received

variable {rt : Worker.Runtime} {turns : List (Turn Answers Work)} {w : World NativeWorker}

theorem received_told (ht : (nativeParty rt).system.run turns = some w) (stream : ℕ) :
    ∃ (events : List Worker.Event) (failures : List Failure),
      events <+: told stream w.worker.messages ∧
        (w.isolate.consumer stream).controller.received <+:
          events.map Isolate.toEvent ++ failures.map Event.failed := by
  obtain ⟨log, hdelivered⟩ := delivered_run ht
  obtain ⟨failures, -, hfeeds⟩ := hdelivered.fed stream
  exact ⟨log stream, failures,
    (hdelivered.sent stream).trans ((List.take_prefix ..).filterMap _),
    (List.prefix_append ..).trans hfeeds.accepted⟩

/-- A completed text is the last that the worker tells, behind its tokens. -/
theorem told_complete {asked : List ℕ} {t : NativeWorker} {stream : ℕ} {text : String}
    (h : Worker.Voiced asked t) (htext : .complete text ∈ told stream t.messages) :
    ∃ tokens s, Worker.eventsOf stream t.sent = tokens ++ [(.complete text, s)] ∧
      (∀ e ∈ tokens, e.1.isToken = true) ∧ text = Worker.spoken tokens := by
  obtain ⟨tokens, last, hsaid, htokens, hone, hspoken⟩ := h.spoken stream
  rw [told_messages, hsaid, List.map_append, List.mem_append] at htext
  rcases htext with hmem | hmem
  · obtain ⟨e, he, heq⟩ := List.mem_map.mp hmem
    have htoken := htokens e he
    rw [heq] at htoken
    cases htoken
  · obtain ⟨e, he, heq⟩ := List.mem_map.mp hmem
    obtain ⟨e', rfl⟩ := List.length_eq_one_iff.mp (le_antisymm hone (List.length_pos_of_mem he))
    obtain rfl := List.mem_singleton.mp he
    obtain ⟨event, s⟩ := e
    obtain rfl : event = .complete text := heq
    exact ⟨tokens, s, hsaid, htokens, hspoken text s (List.mem_singleton_self _)⟩

/-- A start of a list that holds its last item, which is not like the others, is all of it. -/
theorem prefix_eq_of_mem {α : Type} {p : α → Bool} {l before : List α} {x : α}
    (h : l <+: before ++ [x]) (hbefore : ∀ a ∈ before, p a = true) (hx : p x = false)
    (hmem : x ∈ l) : l = before ++ [x] := by
  refine (List.prefix_concat_iff.mp h).resolve_right fun hshort ↦ ?_
  cases (hbefore x (hshort.subset hmem)).symm.trans hx

/-- A completed text is that of the tokens that the listener has got before it. -/
theorem received_complete (ht : (nativeParty rt).system.run turns = some w) {stream : ℕ}
    {text : String} (htext : .completed text ∈ (w.isolate.consumer stream).controller.received) :
    ∃ tokens : List String, (w.isolate.consumer stream).controller.received =
        tokens.map Event.token ++ [.completed text] ∧ text = String.join tokens ∧
      ∃ s, (.event stream (.complete text), s) ∈ w.worker.sent ∧
        Worker.Whole rt stream text s := by
  obtain ⟨log, hdelivered⟩ := delivered_run ht
  obtain ⟨events, failures, hevents, hreceived⟩ := received_told ht stream
  -- the completed text was delivered, so the worker has sent it last
  have hcomplete : .complete text ∈ events := by
    rcases List.mem_append.mp (hreceived.subset htext) with hmem | hmem
    · obtain ⟨e, he, heq⟩ := List.mem_map.mp hmem
      exact toEvent_completed heq ▸ he
    · simp at hmem
  obtain ⟨tokens, s, hsaid, htokens, hspoken⟩ :=
    told_complete hdelivered.voiced (hevents.subset hcomplete)
  have hwhole : events = tokens.map Prod.fst ++ [.complete text] := by
    rw [told_messages, hsaid, List.map_append, List.map_singleton] at hevents
    exact prefix_eq_of_mem hevents (by simpa using fun e s he ↦ htokens (e, s) he) rfl hcomplete
  have htexts : (tokens.map Prod.fst).map Isolate.toEvent =
      (tokens.map fun e ↦ e.1.text).map Event.token := by
    rw [List.map_map, List.map_map]
    exact List.map_congr_left fun e he ↦ toEvent_of_token (htokens e he)
  -- the listener has got it behind tokens, which are the same
  have hfit := Party.fit_run ht
  obtain ⟨heard, last, hheard, htoken, hlast⟩ := (hfit.sound.proper hfit.ledger).received stream
  obtain rfl : last = [.completed text] := by
    rw [hheard] at htext
    rcases List.mem_append.mp htext with hmem | hmem
    · cases htoken _ hmem
    · obtain ⟨e, rfl⟩ := List.length_eq_one_iff.mp (le_antisymm hlast (List.length_pos_of_mem hmem))
      rw [List.mem_singleton.mp hmem]
  obtain ⟨more, hmore⟩ := hreceived
  rw [hheard, hwhole, List.map_append, htexts, List.append_assoc, List.append_assoc] at hmore
  have htokens' : ∀ e ∈ (tokens.map fun e ↦ e.1.text).map Event.token, isToken e = true := by
    intro e he
    obtain ⟨text, -, rfl⟩ := List.mem_map.mp he
    rfl
  obtain ⟨hsame, -, -⟩ := split_unique htoken htokens' rfl rfl hmore
  have hsent : (.event stream (.complete text), s) ∈ w.worker.sent := by
    apply Worker.mem_eventsOf.mp
    rw [hsaid]
    exact List.mem_append_right _ (List.mem_singleton_self _)
  refine ⟨tokens.map fun e ↦ e.1.text, ?_, ?_, s, hsent,
    hdelivered.truthful.told stream text s hsent⟩
  · rw [hheard, hsame]
  · rw [← spoken_eq]
    exact hspoken

end Received

namespace Scenario

open Worker.Scenario (runtime)

def heard : List (Turn Answers Work) :=
  begun ++ [.deliver, .deliver, .deliver, .main .returned, .take answers,
    .act (.callback ⟨1, some ⟨none, none, true⟩, []⟩),
      .act (.tick fun _ ↦ Worker.noAnswers), .deliver]

def completed : Event → Option String
  | .completed text => some text
  | _ => none

end Scenario

end LibLitertLm.Backend
