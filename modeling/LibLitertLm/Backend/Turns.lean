import LibLitertLm.Backend.Effects

namespace LibLitertLm.Backend

open Handles (Event)
open Consumer

/-- `_close` is through, whether or not its future is completed. -/
def CloseFuture.through : CloseFuture → Bool
  | .awaiting _ => false
  | _ => true

namespace Isolate

def ending (s : Isolate) : Bool :=
  match s.frame with
  | some (.ending ..) => true
  | _ => false

/-- What holds between any two steps of the main isolate, whatever the worker sends. -/
structure Sound (U : ℕ → Prop) (s : Isolate) : Prop where
  standings : Standings U s
  failed : s.workerFailure.isSome = true →
    s.closed = true ∧ s.pending = [] ∧ (s.ending = false → s.streams = [])
  ending : s.ending = true → s.workerFailure.isSome = true
  through : ∀ f ∈ s.closeFuture, f.through = true →
    s.closed = true ∧ (f = .completed → s.ending = false)
  shut : s.closed = true → s.ending = false → s.ports = false ∧ s.subject = none

variable {U : ℕ → Prop} {s t u : Isolate} {stream : ℕ} {c : Consumer} {failure : Failure}

theorem waiting_of_not_ending (h : s.ending = false) : s.waiting = s.streams := by
  rw [waiting]
  cases hframe : s.frame with
  | none => rfl
  | some frame =>
    cases frame with
    | ending failure stream rest => simp [ending, hframe] at h
    | _ => rfl

theorem standings_iff (h : s.ending = false) :
    Standings U s ↔ Statuses U s.streams s.subject s.consumer := by
  rw [Standings, waiting_of_not_ending h]

namespace Sound

theorem init : Sound U {} := by
  have hstandings : Standings U {} := by
    refine ⟨.nil, by simp [subject], fun stream ↦ ⟨fun _ ↦ rfl, ?_, ?_, ?_⟩⟩
    · simp [waiting]
    · simp [subject]
    · intro h
      cases h
  exact ⟨hstandings, by simp, by simp [Isolate.ending], by simp, by simp⟩

theorem aside (h : Sound U s) (hframe : t.frame = s.frame) (hstreams : t.streams = s.streams)
    (hconsumer : t.consumer = s.consumer) (hfailure : t.workerFailure = s.workerFailure)
    (hclosed : s.closed = true → t.closed = true)
    (hfuture : ∀ f ∈ t.closeFuture, f ∈ s.closeFuture ∨
      (f.through = true → t.closed = true ∧ (f = .completed → s.ending = false)))
    (hshut : t.closed = true →
      s.closed = true ∧ t.ports = s.ports ∨ t.ports = false ∧ s.subject = none)
    (hpending : s.workerFailure.isSome = true → t.pending = []) :
    Sound U t ∧ Later s.consumer t.consumer := by
  refine ⟨⟨?_, fun hf ↦ ?_, fun he ↦ ?_, fun f hf hthrough ↦ ?_, fun hc he ↦ ?_⟩, ?_⟩
  · rw [Standings, waiting, subject, hframe, hstreams, hconsumer]
    exact h.standings
  · rw [hfailure] at hf
    obtain ⟨hc, -, hs⟩ := h.failed hf
    rw [Isolate.ending, hframe, hstreams]
    exact ⟨hclosed hc, hpending hf, hs⟩
  · rw [Isolate.ending, hframe] at he
    rw [hfailure]
    exact h.ending he
  · rw [Isolate.ending, hframe]
    rcases hfuture f hf with hf | hf
    · exact (h.through f hf hthrough).imp_left hclosed
    · exact hf hthrough
  · rw [Isolate.ending, hframe] at he
    rw [subject, hframe]
    rcases hshut hc with ⟨hc, hports⟩ | hshut
    · rw [hports]
      exact h.shut hc he
    · exact hshut
  · rw [hconsumer]
    exact .refl _

theorem of_core (h : Sound U s) (hcore : t.core = s.core)
    (hs : Statuses U s.waiting s.subject t.consumer) : Sound U t := by
  have hframe : t.frame = s.frame := core_eq frame (fun _ ↦ rfl) hcore
  have hstreams : t.streams = s.streams := core_eq streams (fun _ ↦ rfl) hcore
  have hfailure : t.workerFailure = s.workerFailure := core_eq workerFailure (fun _ ↦ rfl) hcore
  have hclosed : t.closed = s.closed := core_eq closed (fun _ ↦ rfl) hcore
  have hpending : t.pending = s.pending := core_eq pending (fun _ ↦ rfl) hcore
  have hfuture : t.closeFuture = s.closeFuture := core_eq closeFuture (fun _ ↦ rfl) hcore
  have hports : t.ports = s.ports := core_eq ports (fun _ ↦ rfl) hcore
  refine ⟨?_, fun hf ↦ ?_, fun he ↦ ?_, ?_, ?_⟩
  · rw [Standings, waiting, subject, hframe, hstreams]
    exact hs
  · rw [hfailure] at hf
    rw [Isolate.ending, hframe, hstreams, hclosed, hpending]
    exact h.failed hf
  · rw [Isolate.ending, hframe] at he
    rw [hfailure]
    exact h.ending he
  · rw [Isolate.ending, hframe, hclosed, hfuture]
    exact h.through
  · rw [Isolate.ending, subject, hframe, hclosed, hports]
    exact h.shut

theorem touch (h : Sound U s) (ht : Touches s stream c t)
    (hc : Consumer.Steady (U stream) (s.consumer stream) c)
    (hfresh : s.consumer stream = {} → c = {}) : Sound U t ∧ Later s.consumer t.consumer := by
  obtain ⟨hstandings, hlater⟩ := ht.steady h.standings hc hfresh
  exact ⟨h.of_core ht.core hstandings, hlater⟩

theorem not_failed (h : Sound U s) (hclosed : s.closed = false) : s.workerFailure = none := by
  by_contra hf
  have hclosed' := (h.failed (Option.isSome_iff_ne_none.mpr hf)).1
  cases hclosed.symm.trans hclosed'

theorem not_ending (h : Sound U s) (hclosed : s.closed = false) : s.ending = false := by
  by_contra he
  have hf := h.ending (by simpa using he)
  rw [h.not_failed hclosed] at hf
  cases hf

end Sound

inductive Listened (s : Isolate) (stream : ℕ) : Isolate → Prop
  | nothing : Listened s stream s
  | refused (hfresh : s.consumer stream = {}) (hclosed : (s.closing || s.closed) = true) :
    Listened s stream (s.setConsumer stream (refuse s.refusal))
  | accepted (sessionId : ℕ) (input : Worker.Input) (hfresh : s.consumer stream = {})
    (hclosed : (s.closing || s.closed) = false) :
    Listened s stream
      (({ s with streams := s.streams ++ [stream] }.post
        (.generate stream sessionId input)).setConsumer
        stream { controller := (StreamController.listen {}).leave.1 })

theorem listen_refused {sessionId : ℕ} {input : Worker.Input}
    (hcreated : s.created stream = some (sessionId, input)) (hfresh : s.consumer stream = {})
    (hclosed : (s.closing || s.closed) = true) :
    s.listen stream = s.setConsumer stream (refuse s.refusal) := by
  rw [Bool.or_eq_true] at hclosed
  simp [listen, hcreated, onListen, finish, add, setController, setConsumer, closeController,
    completeDone, leave, hfresh, StreamController.listen, StreamController.add,
    StreamController.close, StreamController.leave, StreamController.idle, refusal, hclosed, refuse]

theorem listened (hfresh : (s.consumer stream).controller.listened = false →
    s.consumer stream = {}) : Listened s stream (s.listen stream) := by
  cases hcreated : s.created stream with
  | none =>
    simp only [listen, hcreated]
    exact .nothing
  | some source =>
    obtain ⟨sessionId, input⟩ := source
    by_cases hlistened : (s.consumer stream).controller.listened = true
    · simp only [listen, hcreated, hlistened, if_true]
      exact .nothing
    have hfresh := hfresh (by simpa using hlistened)
    cases hclosed : s.closing || s.closed with
    | true =>
      rw [listen_refused hcreated hfresh hclosed]
      exact .refused hfresh hclosed
    | false =>
      have hflags := Bool.or_eq_false_iff.mp hclosed
      convert Listened.accepted sessionId input hfresh hclosed using 1
      simp [listen, hcreated, onListen, setController, setConsumer, leave, hfresh,
        StreamController.listen, StreamController.leave, hflags, post]

namespace Sound

theorem listen (h : Sound U s) (stream : ℕ) :
    Sound U (s.listen stream) ∧ Later s.consumer (s.listen stream).consumer := by
  have hlater (c : Consumer) (hfresh : s.consumer stream = {}) :
      Later s.consumer (Function.update s.consumer stream c) := by
    refine .update ?_
    rw [hfresh]
    exact .of_fresh c
  have hlistened := listened (h.standings.standing stream).fresh
  generalize s.listen stream = t at hlistened
  cases hlistened with
  | nothing => exact ⟨h, .refl _⟩
  | refused hfresh hclosed =>
    refine ⟨h.of_core rfl ?_, hlater _ hfresh⟩
    exact h.standings.refuse (by rw [hfresh]) (over_refuse _)
  | accepted _ _ hfresh hclosed =>
    have hopen := (Bool.or_eq_false_iff.mp hclosed).2
    have hending := h.not_ending hopen
    refine ⟨⟨?_, fun hf ↦ ?_, fun he ↦ ?_, h.through, h.shut⟩, hlater _ hfresh⟩
    · have hstart := ((standings_iff hending).mp h.standings).start (by rw [hfresh]) live_listen
      refine (standings_iff ?_).mpr ?_
      · exact hending
      · exact hstart
    · have hfailure : s.workerFailure.isSome = true := hf
      rw [h.not_failed hopen] at hfailure
      cases hfailure
    · cases hending.symm.trans he

theorem request (h : Sound U s) (duringClose : Bool) (message : ℕ → Posted) :
    Sound U (s.request duringClose message).1 ∧
      Later s.consumer (s.request duringClose message).1.consumer := by
  unfold Isolate.request
  split_ifs with hclosed
  · exact ⟨h, .refl _⟩
  · have hopen : s.closed = false := by
      by_contra hc
      simp [hc] at hclosed
    refine h.aside rfl rfl rfl rfl (fun hc ↦ hc) (fun _ ↦ .inl)
      (fun hc ↦ .inl ⟨hc, rfl⟩) fun hf ↦ ?_
    rw [h.not_failed hopen] at hf
    cases hf

theorem close (h : Sound U s) : Sound U s.close ∧ Later s.consumer s.close.consumer := by
  unfold Isolate.close
  split_ifs with hfuture hclosed
  · exact ⟨h, .refl _⟩
  · refine h.aside rfl rfl rfl rfl id (fun f hf ↦ .inr fun _ ↦ ⟨hclosed, fun hc ↦ ?_⟩)
      (fun hc ↦ .inl ⟨hc, rfl⟩) fun hf ↦ (h.failed hf).2.1
    obtain rfl := Option.some.inj hf
    cases hc
  · have hopen : s.closed = false := by simpa using hclosed
    rw [Isolate.request, if_neg (by simp [hopen])]
    refine h.aside rfl rfl rfl rfl (fun hc ↦ hc) (fun f hf ↦ .inr fun hthrough ↦ ?_)
      (fun hc ↦ .inl ⟨hc, rfl⟩) fun hf ↦ ?_
    · obtain rfl := Option.some.inj hf
      cases hthrough
    · rw [h.not_failed hopen] at hf
      cases hf

theorem call (h : Sound U s) (c : Call) (hU : ∀ stream, c = .cancel stream → U stream) :
    Sound U (s.call c) ∧ Later s.consumer (s.call c).consumer := by
  cases c with
  | request r =>
    simp only [Isolate.call]
    split_ifs
    · exact ⟨h, .refl _⟩
    · exact h.request false _
  | stream sessionId input =>
    exact h.aside rfl rfl rfl rfl id (fun _ ↦ .inl)
      (fun hc ↦ .inl ⟨hc, rfl⟩) fun hf ↦ (h.failed hf).2.1
  | listen stream => exact h.listen stream
  | pause stream =>
    refine h.touch (.set s stream _) (.of_controller (s.consumer stream).controller.steady_pause
      (s.consumer stream).controller.pause_canceled) fun hfresh ↦ ?_
    rw [hfresh]
    rfl
  | resume stream =>
    refine h.touch (touches_resumed s stream (s.consumer stream).controller.resume.1
      (s.consumer stream).controller.resume.2)
      (.of_controller (s.consumer stream).controller.steady_resume
        (s.consumer stream).controller.resume_canceled) fun hfresh ↦ ?_
    rw [hfresh]
    rfl
  | cancel stream =>
    refine h.touch (touches_ended s stream (s.consumer stream).controller.cancel.1
      (s.consumer stream).controller.cancel.2)
      ⟨(s.consumer stream).controller.steady_cancel (hU stream rfl), rfl, rfl, fun hlinked ↦ ?_⟩
      fun hfresh ↦ ?_
    · dsimp only
      rw [StreamController.cancel_canceled, hlinked]
    · rw [hfresh]
      rfl
  | close => exact h.close
  | crashForTesting =>
    exact h.aside rfl rfl rfl rfl id (fun _ ↦ .inl) (fun hc ↦ .inl ⟨hc, rfl⟩)
      fun hf ↦ (h.failed hf).2.1

/-- The main isolate gets on with something else than the end of the worker. -/
theorem settled (h : Sound U s) (hending : s.ending = false) (hframe : t.ending = false)
    (hs : Statuses U t.streams t.subject t.consumer) (hstreams : s.streams = [] → t.streams = [])
    (hfailure : t.workerFailure = s.workerFailure) (hclosed : t.closed = s.closed)
    (hfuture : t.closeFuture = s.closeFuture) (hpending : s.pending = [] → t.pending = [])
    (hports : t.ports = s.ports) (hsubject : s.closed = true → t.subject = none) : Sound U t := by
  refine ⟨(standings_iff hframe).mpr hs, fun hf ↦ ?_, fun he ↦ ?_,
    fun f hf hthrough ↦ ⟨?_, fun _ ↦ hframe⟩, fun hc _ ↦ ?_⟩
  · rw [hfailure] at hf
    obtain ⟨hc, hp, hstreams'⟩ := h.failed hf
    exact ⟨hclosed.trans hc, hpending hp, fun _ ↦ hstreams (hstreams' hending)⟩
  · cases hframe.symm.trans he
  · rw [hfuture] at hf
    exact hclosed.trans (h.through f hf hthrough).1
  · rw [hclosed] at hc
    rw [hports]
    exact ⟨(h.shut hc hending).1, hsubject hc⟩

/-- The loop of `_workerEnded` runs. -/
theorem tells (ht : Tells U failure t u) (hfailure : t.workerFailure.isSome = true)
    (hclosed : t.closed = true) (hpending : t.pending = [])
    (hfuture : some .completed ≠ t.closeFuture) : Sound U u := by
  have hclosed' : u.closed = true :=
    (field_eq account closed (fun _ ↦ rfl) ht.account).trans hclosed
  refine ⟨ht.standings, fun _ ↦ ⟨hclosed', ?_, fun hending ↦ ?_⟩, fun _ ↦ ?_,
    fun f hf _ ↦ ⟨hclosed', fun hc ↦ absurd ?_ hfuture⟩, fun _ hending ↦ ?_⟩
  · exact (field_eq account pending (fun _ ↦ rfl) ht.account).trans hpending
  · rcases ht.outcome with ⟨-, hstreams, -⟩ | ⟨stream, rest, hframe, -⟩
    · exact hstreams
    · rw [Isolate.ending, hframe] at hending
      cases hending
  · rw [field_eq account workerFailure (fun _ ↦ rfl) ht.account]
    exact hfailure
  · rw [← hc, ← field_eq account closeFuture (fun _ ↦ rfl) ht.account]
    exact hf.symm
  · rcases ht.outcome with ⟨hframe, -, hports⟩ | ⟨stream, rest, hframe, -⟩
    · exact ⟨hports, by rw [subject, hframe]⟩
    · rw [Isolate.ending, hframe] at hending
      cases hending

/-- The listener that was called returns. -/
theorem proceed {frame : Frame} (h : Sound U s) (hframe : s.frame = some frame) :
    Sound U ({ s with frame := none }.proceed frame) ∧
      Later s.consumer ({ s with frame := none }.proceed frame).consumer := by
  have hstandings := h.standings
  rw [Standings, waiting, subject, hframe] at hstandings
  set u : Isolate := { s with frame := none } with hu
  have hplain {t : Isolate} (hcore : t.core = u.core) (hending : s.ending = false)
      (ht : Statuses U s.streams none t.consumer) : Sound U t := by
    have hnone : t.frame = none := core_eq Isolate.frame (fun _ ↦ rfl) hcore
    have hstreams : t.streams = u.streams := core_eq streams (fun _ ↦ rfl) hcore
    have hfailure : t.workerFailure = u.workerFailure := core_eq workerFailure (fun _ ↦ rfl) hcore
    have hclosed : t.closed = u.closed := core_eq closed (fun _ ↦ rfl) hcore
    have hpending : t.pending = u.pending := core_eq pending (fun _ ↦ rfl) hcore
    have hfuture : t.closeFuture = u.closeFuture := core_eq closeFuture (fun _ ↦ rfl) hcore
    have hports : t.ports = u.ports := core_eq ports (fun _ ↦ rfl) hcore
    refine h.settled hending ?_ ?_ hstreams.trans hfailure hclosed hfuture hpending.trans hports
      fun _ ↦ by rw [subject, hnone]
    · rw [Isolate.ending, hnone]
    · rw [subject, hnone, hstreams]
      exact ht
  cases frame with
  | receiving stream terminal =>
    have hsubject : Statuses U s.streams (if terminal then some stream else none) s.consumer := by
      cases terminal <;> exact hstandings
    obtain ⟨hleave, hlater⟩ := leave_statuses (s := u) hsubject stream
    obtain ⟨hreceived, hlater'⟩ := received_statuses hleave
    refine ⟨hplain ?_ ?_ hreceived, hlater.trans hlater'⟩
    · exact (touches_received (u.leave stream) stream terminal).core.trans
        (touches_leave u stream).core
    · rw [Isolate.ending, hframe]
  | ending failure stream rest =>
    obtain ⟨hleave, hlater⟩ := leave_statuses (s := u) hstandings stream
    obtain ⟨hended, hlater'⟩ := ended_statuses hleave
    have hcore : ((u.leave stream).ended stream).core = u.core :=
      (touches_finished (u.leave stream) stream).core.trans (touches_leave u stream).core
    have htells := endStreams_tells failure rest
      (core_eq Isolate.frame (fun _ ↦ rfl) hcore) hended
    have hfailure : s.workerFailure.isSome = true := h.ending (by rw [Isolate.ending, hframe])
    obtain ⟨hclosed, hpending, -⟩ := h.failed hfailure
    refine ⟨.tells htells ?_ ?_ ?_ fun hc ↦ ?_, (hlater.trans hlater').trans htells.later⟩
    · rw [core_eq workerFailure (fun _ ↦ rfl) hcore]
      exact hfailure
    · exact (core_eq closed (fun _ ↦ rfl) hcore).trans hclosed
    · exact (core_eq pending (fun _ ↦ rfl) hcore).trans hpending
    · have hfuture : s.closeFuture = some .completed :=
        (core_eq closeFuture (fun _ ↦ rfl) hcore).symm.trans hc.symm
      have hending := (h.through _ hfuture rfl).2 rfl
      rw [Isolate.ending, hframe] at hending
      cases hending
  | dispatching stream =>
    obtain ⟨hleave, hlater⟩ := leave_statuses (s := u) hstandings stream
    refine ⟨hplain (touches_leave u stream).core ?_ hleave, hlater⟩
    rw [Isolate.ending, hframe]

end Sound

structure Heard (U : ℕ → Prop) (s : Isolate) (streams : List ℕ) (t : Isolate) : Prop where
  account : t.account = s.account
  posted : ∃ more, t.posted = s.posted ++ more ∧ ∀ m ∈ more, m.light = true
  streams : t.streams = streams
  ports : t.ports = s.ports
  ending : t.ending = false
  statuses : Statuses U t.streams t.subject t.consumer
  later : Later s.consumer t.consumer

theorem toEvent_isToken (e : Worker.Event) : isToken (toEvent e) = e.isToken := by
  cases e <;> rfl

/-- The listener was called with the event, or it will be. -/
theorem Heard.of_added {streams : List ℕ} (terminal : Bool) (hstreams : u.streams = streams)
    (hframe : u.frame = none) (haccount : u.account = s.account) (hports : u.ports = s.ports)
    (hposted : ∃ more, u.posted = s.posted ++ more ∧ ∀ m ∈ more, m.light = true)
    (h : Statuses U streams (if terminal then some stream else none) u.consumer)
    (hlater : Later s.consumer u.consumer) (fired : Bool) :
    Heard U s streams (if fired then { u with frame := some (.receiving stream terminal) }
      else u.received stream terminal) := by
  subst hstreams
  split_ifs
  · refine ⟨haccount, hposted, rfl, hports, rfl, ?_, hlater⟩
    cases terminal <;> exact h
  · obtain ⟨hreceived, hlater'⟩ := received_statuses h
    have htouch := touches_received u stream terminal
    obtain ⟨more, hmore, hlight⟩ := hposted
    obtain ⟨more', hmore', hlight'⟩ := htouch.posted
    have hframe' : (u.received stream terminal).frame = none :=
      (core_eq frame (fun _ ↦ rfl) htouch.core).trans hframe
    have hstreams : (u.received stream terminal).streams = u.streams :=
      core_eq Isolate.streams (fun _ ↦ rfl) htouch.core
    have hports' : (u.received stream terminal).ports = u.ports :=
      core_eq Isolate.ports (fun _ ↦ rfl) htouch.core
    refine ⟨(account_of_core htouch.core).trans haccount, ⟨more ++ more', ?_, fun m hm ↦ ?_⟩,
      hstreams, hports'.trans hports, ?_, ?_, hlater.trans hlater'⟩
    · rw [hmore', hmore, List.append_assoc]
    · exact (List.mem_append.mp hm).elim (hlight m) (hlight' m)
    · rw [Isolate.ending, hframe']
    · rw [subject, hframe', hstreams]
      exact hreceived

theorem receive_event (h : Sound U s) (hframe : s.frame = none) (stream : ℕ) (e : Worker.Event) :
    Heard U s (if e.isToken then s.streams else s.streams.filter (· ≠ stream))
      (s.receive (.event stream e)) := by
  have hending : s.ending = false := by rw [ending, hframe]
  have hs : Statuses U s.streams none s.consumer := by
    have hs := (standings_iff hending).mp h.standings
    rwa [subject, hframe] at hs
  have hself : Heard U s s.streams s :=
    ⟨rfl, ⟨[], by simp, by simp⟩, rfl, rfl, hending, by rw [subject, hframe]; exact hs, .refl _⟩
  rw [receive]
  by_cases hmem : stream ∈ s.streams
  · rw [if_pos hmem]
    have hlive := (hs.standing stream).live hmem
    cases htoken : e.isToken with
    | true =>
      dsimp only
      rw [Bool.not_true, if_neg Bool.false_ne_true, if_pos rfl]
      by_cases hcancelled : (s.consumer stream).cancelled = true
      · rw [if_pos hcancelled, if_neg Bool.false_ne_true]
        exact hself
      · have hcanceled : (s.consumer stream).controller.canceled = false :=
          hlive.linked.symm.trans (by simpa using hcancelled)
        have hadd := touches_add s stream (toEvent e)
        rw [if_neg hcancelled]
        refine .of_added false ?_ ?_ (account_of_core hadd.core)
          (core_eq ports (fun _ ↦ rfl) hadd.core) hadd.posted ?_
          (hadd.later (.add hcanceled _)) _
        · exact core_eq streams (fun _ ↦ rfl) hadd.core
        · exact (core_eq frame (fun _ ↦ rfl) hadd.core).trans hframe
        · rw [hadd.consumer]
          exact hs.keep hmem (hlive.add hcanceled ((toEvent_isToken e).trans htoken))
    | false =>
      dsimp only
      rw [Bool.not_false, if_pos rfl, if_neg Bool.false_ne_true]
      set v : Isolate := { s with streams := s.streams.filter (· ≠ stream) } with hv
      have hnodup : (s.streams.filter (· ≠ stream)).Nodup := hs.nodup.filter _
      have hwaiting (other : ℕ) : other ∈ s.streams.filter (· ≠ stream) ↔
          other ∈ s.streams ∧ other ≠ stream := by simp
      have hfinish := touches_finish v stream
      have hconsumer : ((v.finish stream).consumer stream).cancelled =
          (s.consumer stream).cancelled := by rw [hfinish.self]
      have haccount {t : Isolate} (h : t.core = v.core) : t.account = s.account :=
        (account_of_core h : t.account = v.account)
      have hports {t : Isolate} (h : t.core = v.core) : t.ports = s.ports :=
        (core_eq ports (fun _ ↦ rfl) h : t.ports = v.ports)
      by_cases hcancelled : ((v.finish stream).consumer stream).cancelled = true
      · have hdone := hfinish.and (touches_completeDoneOnce _ stream)
        obtain ⟨hdropped, hlater⟩ := dropped_statuses (s := v) hs hnodup hmem hwaiting
          (hconsumer.symm.trans hcancelled) hdone
        have hframe' := (core_eq frame (fun _ ↦ rfl) hdone.core).trans hframe
        have hstreams := core_eq streams (fun _ ↦ rfl) hdone.core
        rw [if_pos hcancelled, if_pos rfl]
        refine ⟨haccount hdone.core, hdone.posted, hstreams, ?_, ?_, ?_, hlater⟩
        · exact hports hdone.core
        · rw [ending, hframe']
        · rw [subject, hframe', hstreams]
          exact hdropped
      · have hadd := hfinish.and (touches_add _ stream (toEvent e))
        obtain ⟨htold, hlater⟩ := told_statuses (s := v) hs hnodup hmem hwaiting
          (hconsumer.symm.trans (by simpa using hcancelled)) (toEvent e)
          ((toEvent_isToken e).trans htoken) hadd
        rw [if_neg hcancelled]
        refine .of_added true ?_ ?_ (haccount hadd.core)
          (hports hadd.core) hadd.posted htold hlater _
        · exact core_eq streams (fun _ ↦ rfl) hadd.core
        · exact (core_eq frame (fun _ ↦ rfl) hadd.core).trans hframe
  · have hsame : s.streams.filter (· ≠ stream) = s.streams := by
      rw [List.filter_eq_self]
      intro other hother
      simp only [decide_eq_true_eq]
      exact fun heq ↦ hmem (heq ▸ hother)
    rw [if_neg hmem, hsame, ite_self]
    exact hself

theorem foldl_complete (ids : List ℕ) (result : Except Failure Worker.Value) (s : Isolate) :
    ∃ results, ids.foldl (fun s id ↦ s.complete id result) s = { s with results := results } := by
  induction ids generalizing s with
  | nil => exact ⟨s.results, rfl⟩
  | cons id ids ih => exact ih _

namespace Sound

theorem open_of_ports (h : Sound U s) (hframe : s.frame = none) (hports : s.ports = true) :
    s.closed = false := by
  by_contra hclosed
  have hending : s.ending = false := by rw [Isolate.ending, hframe]
  cases (h.shut (by simpa using hclosed) hending).1.symm.trans hports

theorem receive (h : Sound U s) (hframe : s.frame = none) (hports : s.ports = true)
    (message : Worker.Outgoing) :
    Sound U (s.receive message) ∧ Later s.consumer (s.receive message).consumer := by
  cases message with
  | reply request result =>
    cases request with
    | none => exact ⟨h, .refl _⟩
    | some id =>
      simp only [Isolate.receive]
      split_ifs
      · refine h.aside rfl rfl rfl rfl (fun hc ↦ hc) (fun _ ↦ .inl)
          (fun hc ↦ .inl ⟨hc, rfl⟩) fun hf ↦ ?_
        simp [complete, (h.failed hf).2.1]
      · exact ⟨h, .refl _⟩
  | event stream e =>
    have hheard := receive_event h hframe stream e
    refine ⟨h.settled ?_ hheard.ending hheard.statuses (fun hs ↦ ?_) ?_ ?_ ?_ (fun hp ↦ ?_) ?_
      fun hclosed ↦ ?_, hheard.later⟩
    · rw [Isolate.ending, hframe]
    · rw [hheard.streams, hs]
      simp
    · exact field_eq account workerFailure (fun _ ↦ rfl) hheard.account
    · exact field_eq account closed (fun _ ↦ rfl) hheard.account
    · exact field_eq account closeFuture (fun _ ↦ rfl) hheard.account
    · exact (field_eq account pending (fun _ ↦ rfl) hheard.account).trans hp
    · exact hheard.ports
    · cases (h.open_of_ports hframe hports).symm.trans hclosed

theorem workerEnded (h : Sound U s) (hframe : s.frame = none) (hopen : s.closed = false)
    (detail : Option String) :
    ∃ results, Tells U (.workerFailure (workerFailureText detail))
      { s with
        closed := true, pending := [], results := results
        workerFailure := some (.workerFailure (workerFailureText detail)) }
      (s.workerEnded detail) ∧
      (s.pending.foldl (fun (s : Isolate) (id : ℕ) ↦
          s.complete id (.error (.workerFailure (workerFailureText detail))))
        { s with
          closed := true
          workerFailure := some (.workerFailure (workerFailureText detail)) }).results =
            results := by
  obtain ⟨results, hresults⟩ := foldl_complete s.pending
    (.error (.workerFailure (workerFailureText detail)))
    { s with closed := true, workerFailure := some (.workerFailure (workerFailureText detail)) }
  refine ⟨results, ?_, by rw [hresults]⟩
  rw [Isolate.workerEnded, if_neg (by simp [hopen])]
  dsimp only at hresults ⊢
  rw [hresults]
  refine endStreams_tells _ _ hframe ?_
  have hs := (standings_iff (h.not_ending hopen)).mp h.standings
  rwa [subject, hframe] at hs

theorem exit (h : Sound U s) (hframe : s.frame = none) (detail : Option String) :
    Sound U (s.workerEnded detail) ∧ Later s.consumer (s.workerEnded detail).consumer := by
  cases hclosed : s.closed with
  | true =>
    rw [Isolate.workerEnded, if_pos hclosed]
    exact ⟨h, .refl _⟩
  | false =>
    obtain ⟨results, htells, -⟩ := h.workerEnded hframe hclosed detail
    refine ⟨.tells htells rfl rfl rfl fun hc ↦ ?_, htells.later⟩
    cases hclosed.symm.trans (h.through _ hc.symm rfl).1

theorem step {a : Action} (h : Sound U s) (hU : ∀ stream, a = .call (.cancel stream) → U stream)
    (ht : s.step a = some t) : Sound U t ∧ Later s.consumer t.consumer := by
  cases a with
  | call c =>
    obtain rfl := Option.some.inj ht
    exact h.call c fun stream hc ↦ hU stream (congrArg Action.call hc)
  | returned =>
    simp only [Isolate.step] at ht
    split at ht
    · next frame hframe =>
      obtain rfl := Option.some.inj ht
      exact h.proceed hframe
    · cases ht
  | receive message =>
    simp only [Isolate.step] at ht
    split_ifs at ht with hready
    obtain rfl := Option.some.inj ht
    obtain ⟨hframe, hports⟩ := Bool.and_eq_true_iff.mp hready
    exact h.receive (by simpa using hframe) hports message
  | exit detail =>
    simp only [Isolate.step] at ht
    split_ifs at ht with hready
    obtain rfl := Option.some.inj ht
    exact h.exit (by simpa using (Bool.and_eq_true_iff.mp hready).1) detail
  | dispatch stream =>
    simp only [Isolate.step] at ht
    split_ifs at ht with hready
    have hframe : s.frame = none := by simpa using hready
    split at ht
    · next c hnext =>
      obtain rfl := Option.some.inj ht
      obtain ⟨hcanceled, hcanceled'⟩ := StreamController.next_canceled hnext
      refine h.touch (touches_ended s stream c true)
        ⟨StreamController.steady_next hnext, rfl, rfl, fun _ ↦ ?_⟩ fun hfresh ↦ ?_
      · simp [hcanceled']
      · rw [hfresh] at hnext
        cases hnext
    · next c hnext =>
      obtain rfl := Option.some.inj ht
      obtain ⟨hcanceled, hcanceled'⟩ := StreamController.next_canceled hnext
      have hending : (s.setController stream c).ending = false := by
        rw [Isolate.ending, show (s.setController stream c).frame = none from hframe]
      obtain ⟨hset, hlater⟩ :=
        h.touch (t := s.setController stream c) (.set s stream _) (.of_controller
        (StreamController.steady_next hnext) (hcanceled'.trans hcanceled.symm)) fun hfresh ↦ by
          rw [hfresh] at hnext
          cases hnext
      have hs := (standings_iff hending).mp hset.standings
      have hsubject : (s.setController stream c).subject = none := by
        rw [subject, show (s.setController stream c).frame = none from hframe]
      refine ⟨hset.settled hending ?_ ?_ ?_ rfl rfl rfl ?_ rfl fun _ ↦ rfl, hlater⟩
      · exact rfl
      · rw [hsubject] at hs
        exact hs
      · exact fun hs ↦ hs
      · exact fun hp ↦ hp
    · cases ht
  | closed =>
    have hframe (hready : s.frame.isNone = true) : s.ending = false ∧ s.subject = none := by
      have hnone : s.frame = none := by simpa using hready
      exact ⟨by rw [Isolate.ending, hnone], by rw [subject, hnone]⟩
    simp only [Isolate.step] at ht
    split at ht
    · split_ifs at ht with hready
      obtain rfl := Option.some.inj ht
      exact h.aside rfl rfl rfl rfl (fun _ ↦ rfl)
        (fun _ _ ↦ .inr fun _ ↦ ⟨rfl, fun _ ↦ (hframe (Bool.and_eq_true_iff.mp hready).1).1⟩)
        (fun _ ↦ .inr ⟨rfl, (hframe (Bool.and_eq_true_iff.mp hready).1).2⟩)
        fun hf ↦ (h.failed hf).2.1
    · next hfuture =>
      split_ifs at ht with hready
      obtain rfl := Option.some.inj ht
      exact h.aside rfl rfl rfl rfl id
        (fun _ _ ↦ .inr fun _ ↦ ⟨(h.through _ hfuture rfl).1, fun _ ↦ (hframe hready).1⟩)
        (fun hc ↦ .inl ⟨hc, rfl⟩) fun hf ↦ (h.failed hf).2.1
    · cases ht

end Sound

end Isolate

end LibLitertLm.Backend
