import LibLitertLm.Backend.Closing
import LibLitertLm.Worker.Progress

namespace LibLitertLm.Backend

open Handles (Event)
open Worker (NativeWorker)

def Consumer.owing (c : Consumer) : Bool := c.controller.callback.getD c.controller.inputPaused

namespace Consumer

variable {c : Consumer}

theorem owing_leave (ho : c.owing = true) (hcanceled : c.controller.canceled = false) :
    owing { c with controller := c.controller.leave.1 } = true ∨ c.controller.leave.2 = true := by
  unfold StreamController.leave
  cases hcallback : c.controller.callback with
  | none => exact .inl ho
  | some wasPaused =>
    obtain rfl : wasPaused = true := by simpa [owing, hcallback] using ho
    cases c.controller.inputPaused &&
      !(c.controller.pauses == 0 && c.controller.pending.isEmpty) with
    | false => exact .inr (by simp [hcanceled])
    | true => exact .inl (by simp [owing, hcanceled])

theorem owing_pause (ho : c.owing = true) :
    owing { c with controller := c.controller.pause } = true := by
  unfold StreamController.pause
  split_ifs
  · cases hcallback : c.controller.callback with
    | none => simp [owing]
    | some wasPaused => simpa [owing, hcallback] using ho
  · exact ho

theorem owing_resume (ho : c.owing = true) :
    owing { c with controller := c.controller.resume.1 } = true ∨ c.controller.resume.2 = true := by
  unfold StreamController.resume
  split_ifs
  · cases hcallback : c.controller.callback with
    | none => exact .inr rfl
    | some wasPaused => exact .inl (by simpa [owing, hcallback] using ho)
  · exact .inl ho
  · exact .inl ho

theorem owing_next (ho : c.owing = true) {k : StreamController Event}
    (hk : c.controller.next = some (k, false)) : owing { c with controller := k } = true := by
  unfold StreamController.next at hk
  split_ifs at hk with hidle
  have hcallback := (StreamController.idle_spec hidle).2.2
  have hinput : c.controller.inputPaused = true := by simpa [owing, hcallback] using ho
  cases hpending : c.controller.pending with
  | nil => simp [hpending] at hk
  | cons head rest =>
    cases head with
    | data event =>
      obtain rfl : { c.controller with pending := rest }.sendData event = k := by
        simpa [hpending] using hk
      exact hinput
    | done => simp [hpending] at hk

end Consumer

namespace Isolate

structure Open (stream : ℕ) (s : Isolate) : Prop where
  closed : s.closed = false
  waits : stream ∈ s.streams
  cancelled : (s.consumer stream).cancelled = false

def Owing (stream : ℕ) (s : Isolate) : Prop :=
  unpaid stream s.frame = 1 ∨ (s.consumer stream).owing = true

/-- A credit that is to be posted stays so until it is. -/
def Heeds (stream : ℕ) (s t : Isolate) : Prop :=
  Owing stream t ∨ creditsIn stream s.posted < creditsIn stream t.posted

variable {U : ℕ → Prop} {s t u : Isolate} {stream other : ℕ} {c : Consumer}

theorem Open.live (h : Open stream s) (hsound : Sound U s) :
    Consumer.Live (U stream) (s.consumer stream) := by
  have hstandings := (standings_iff (hsound.not_ending h.closed)).mp hsound.standings
  exact (hstandings.standing stream).live h.waits

theorem Open.uncanceled (h : Open stream s) (hsound : Sound U s) :
    (s.consumer stream).controller.canceled = false :=
  (h.live hsound).linked.symm.trans h.cancelled

theorem creditsIn_le (h : s.posted <+: t.posted) :
    creditsIn stream s.posted ≤ creditsIn stream t.posted :=
  h.sublist.countP_le

theorem Touches.grows (h : Touches s other c t) : s.posted <+: t.posted := by
  obtain ⟨more, hmore, -⟩ := h.posted
  exact ⟨more, hmore.symm⟩

namespace Heeds

theorem of_same (ho : Owing stream s) (hframe : unpaid stream t.frame = unpaid stream s.frame)
    (hconsumer : t.consumer stream = s.consumer stream) : Heeds stream s t := by
  refine .inl ?_
  rw [Owing, hframe, hconsumer]
  exact ho

theorem of_other (ho : Owing stream s) (ht : Touches s other c t) (hne : other ≠ stream) :
    Heeds stream s t := by
  refine of_same ho (congrArg _ (core_eq frame (fun _ ↦ rfl) ht.core)) ?_
  rw [ht.consumer, Function.update_of_ne (Ne.symm hne)]

end Heeds

theorem credits_onResume {V : Prop} (hlive : Consumer.Live V (s.consumer stream))
    (hcancelled : (s.consumer stream).cancelled = false) (k : StreamController Event) :
    creditsIn stream s.posted < creditsIn stream
      ((s.setController stream k).onResume stream).posted := by
  have hposts : ((s.setController stream k).onResume stream).posted =
      s.posted ++ [.credit stream] := by
    simp [onResume, setController, setConsumer, hlive.finished, hcancelled, post]
  rw [hposts]
  simp [creditsIn, Posted.isCreditOf]

namespace Heeds

theorem resumed {V : Prop} (hlive : Consumer.Live V (s.consumer stream))
    (hcancelled : (s.consumer stream).cancelled = false) {k : StreamController Event}
    {resumed : Bool}
    (h : Consumer.owing { s.consumer stream with controller := k } = true ∨ resumed = true) :
    Heeds stream s
      (if resumed then (s.setController stream k).onResume stream
        else s.setController stream k) := by
  have htouch := touches_resumed s stream k resumed
  rcases h with ho | rfl
  · refine .inl (.inr ?_)
    rwa [htouch.self]
  · rw [if_pos rfl]
    exact .inr (credits_onResume hlive hcancelled k)

/-- The listener of another stream, or one that is told of what was held back, returns. -/
theorem leave {V : Prop} (hlive : Consumer.Live V (s.consumer stream))
    (hcancelled : (s.consumer stream).cancelled = false) (ho : (s.consumer stream).owing = true) :
    Heeds stream s (s.leave stream) :=
  .resumed hlive hcancelled (Consumer.owing_leave ho (hlive.linked.symm.trans hcancelled))

/-- The listener that got a token returns, and the stream is paused or credited. -/
theorem received {V : Prop} (hlive : Consumer.Live V (s.consumer stream))
    (hcancelled : (s.consumer stream).cancelled = false)
    (hcalm : (s.consumer stream).controller.callback = none) :
    Heeds stream s (s.received stream false) := by
  have hcanceled : (s.consumer stream).controller.canceled = false :=
    hlive.linked.symm.trans hcancelled
  rw [Isolate.received, if_neg Bool.false_ne_true]
  cases hpaused : (s.consumer stream).controller.isPaused with
  | true =>
    rw [if_neg (by simp)]
    have hinput : (s.consumer stream).controller.inputPaused = true := by
      simpa [StreamController.isPaused, StreamController.hasListener, hlive.listened,
        hcanceled] using hpaused
    refine .inl (.inr ?_)
    rw [Consumer.owing, hcalm]
    exact hinput
  | false =>
    rw [if_pos (by simp [hcancelled])]
    refine .inr ?_
    rw [creditsIn_post]
    simp [Posted.isCreditOf]

theorem call (hsound : Sound U s) (hopen : Open stream s) (ho : Owing stream s) {c : Call}
    (hopen' : Open stream (s.call c)) : Heeds stream s (s.call c) := by
  have hlive := hopen.live hsound
  have hframe := hsound.frame_call c
  have hunpaid (t : Isolate) (ht : t.frame = s.frame) :
    unpaid stream t.frame = unpaid stream s.frame :=
    congrArg _ ht
  cases c with
  | listen other =>
    have hlistened := Isolate.listened (hsound.standings.standing other).fresh
    have hne (hfresh : s.consumer other = {}) : stream ≠ other := by
      rintro rfl
      have hlistens := hlive.listened
      rw [hfresh] at hlistens
      cases hlistens
    simp only [Isolate.call] at hframe ⊢
    generalize s.listen other = t at hlistened hframe
    cases hlistened with
    | nothing => exact .inl ho
    | refused hfresh => exact .of_same ho (hunpaid _ hframe) (Function.update_of_ne (hne hfresh) ..)
    | accepted sessionId input hfresh =>
      exact .of_same ho (hunpaid _ hframe) (Function.update_of_ne (hne hfresh) ..)
  | pause other =>
    have htouch := Touches.set s other
      { s.consumer other with controller := (s.consumer other).controller.pause }
    by_cases hsame : other = stream
    · subst hsame
      refine .inl (ho.imp (hunpaid _ hframe).trans fun ho ↦ ?_)
      simp only [Isolate.call]
      rw [setController, htouch.self]
      exact Consumer.owing_pause ho
    · exact .of_other ho htouch hsame
  | resume other =>
    have htouch := touches_resumed s other (s.consumer other).controller.resume.1
      (s.consumer other).controller.resume.2
    by_cases hsame : other = stream
    · subst hsame
      rcases ho with hunpaid' | ho
      · exact .inl (.inl ((hunpaid _ hframe).trans hunpaid'))
      · exact .resumed hlive hopen.cancelled (Consumer.owing_resume ho)
    · exact .of_other ho htouch hsame
  | cancel other =>
    have htouch := touches_ended s other (s.consumer other).controller.cancel.1
      (s.consumer other).controller.cancel.2
    by_cases hsame : other = stream
    · subst hsame
      have hlistens : (s.consumer other).controller.cancel.2 = true := by
        simp [StreamController.cancel, StreamController.hasListener, hlive.listened,
          hopen.uncanceled hsound]
      have hcancelled := hopen'.cancelled
      simp only [Isolate.call] at hcancelled
      rw [htouch.self] at hcancelled
      simp [hlistens] at hcancelled
    · exact .of_other ho htouch hsame
  | request r =>
    refine .of_same ho (hunpaid _ hframe) ?_
    simp only [Isolate.call, Isolate.request]
    split_ifs <;> rfl
  | close =>
    refine .of_same ho (hunpaid _ hframe) ?_
    simp only [Isolate.call, Isolate.close]
    split_ifs
    · rfl
    · rfl
    · rw [Isolate.request, if_neg (by simpa using hopen.closed)]
      rfl
  | _ => exact .of_same ho (hunpaid _ hframe) rfl

theorem proceed (hsound : Sound U s) (hopen : Open stream s) (ho : Owing stream s) {frame : Frame}
    (hframe : s.frame = some frame)
    (hopen' : Open stream ({ s with frame := none }.proceed frame)) :
    Heeds stream s ({ s with frame := none }.proceed frame) := by
  set u : Isolate := { s with frame := none } with hu
  have hlive : Consumer.Live (U stream) (u.consumer stream) := hopen.live hsound
  have hcancelled : (u.consumer stream).cancelled = false := hopen.cancelled
  have hleft := touches_leave u frame.stream
  have hnone : (u.leave frame.stream).frame = none := core_eq Isolate.frame (fun _ ↦ rfl) hleft.core
  -- the listener of another stream has nothing to do with it
  have hother (hne : frame.stream ≠ stream) {c : Consumer} {t : Isolate}
      (ht : Touches (u.leave frame.stream) frame.stream c t) (hunpaid : unpaid stream s.frame = 0) :
      Heeds stream s t := by
    have hboth := hleft.trans ht
    refine .of_same ho ?_ ?_
    · rw [hunpaid, core_eq Isolate.frame (fun _ ↦ rfl) hboth.core]
      rfl
    · rw [hboth.consumer, Function.update_of_ne (Ne.symm hne)]
  cases frame with
  | dispatching other =>
    have hunpaid : unpaid stream s.frame = 0 := by rw [hframe]; rfl
    by_cases hsame : other = stream
    · subst hsame
      have howing : (u.consumer other).owing = true := ho.resolve_left (by simp [hunpaid])
      exact leave hlive hcancelled howing
    · exact hother hsame (.refl _ _) hunpaid
  | receiving other terminal =>
    have hreceived := touches_received (u.leave other) other terminal
    by_cases hsame : other = stream
    · subst hsame
      have hself : (u.leave other).consumer other =
          { u.consumer other with controller := (u.consumer other).controller.leave.1 } :=
            hleft.self
      have hleft' : Consumer.Live (U other) ((u.leave other).consumer other) := by
        rw [hself]
        exact hlive.steady (Consumer.steady_leave _)
      cases terminal with
      | true =>
        -- the stream has ended
        have hsubject : s.subject = some other := by rw [subject, hframe]
        have hover := ((hsound.standings.standing other).ending hsubject).1.finished
        cases (hopen.live hsound).finished.symm.trans hover
      | false =>
        have hpaid : Heeds other (u.leave other) ((u.leave other).received other false) := by
          refine received hleft' ?_ ?_
          · rw [hself]
            exact hcancelled
          · rw [hself]
            exact StreamController.leave_callback _
        refine hpaid.imp_right fun hlt ↦ ?_
        exact (creditsIn_le hleft.grows).trans_lt hlt
    · refine hother hsame hreceived ?_
      rw [hframe]
      cases terminal with
      | true => rfl
      | false => exact if_neg hsame
  | ending failure other rest =>
    have hfailed := hsound.ending (by rw [Isolate.ending, hframe])
    rw [hsound.not_failed hopen.closed] at hfailed
    cases hfailed

theorem step (hsound : Sound U s) (hopen : Open stream s) (ho : Owing stream s) {a : Action}
    (ha : ∀ m, a ≠ .receive m) (ht : s.step a = some t) (hopen' : Open stream t) :
    Heeds stream s t := by
  cases a with
  | call c =>
    obtain rfl := Option.some.inj ht
    exact call hsound hopen ho hopen'
  | returned =>
    simp only [Isolate.step] at ht
    split at ht
    · next frame hframe =>
      obtain rfl := Option.some.inj ht
      exact proceed hsound hopen ho hframe hopen'
    · cases ht
  | receive m => exact absurd rfl (ha m)
  | exit detail =>
    simp only [Isolate.step] at ht
    split_ifs at ht with hready
    obtain rfl := Option.some.inj ht
    have hframe : s.frame = none := by simpa using (Bool.and_eq_true_iff.mp hready).1
    obtain ⟨results, htells, -⟩ := hsound.workerEnded hframe hopen.closed detail
    have hclosed := field_eq account Isolate.closed (fun _ ↦ rfl) htells.account
    cases hopen'.closed.symm.trans hclosed
  | dispatch other =>
    simp only [Isolate.step] at ht
    split_ifs at ht with hready
    have hframe : s.frame = none := by simpa using hready
    split at ht
    · next k hnext =>
      obtain rfl := Option.some.inj ht
      have htouch := touches_ended s other k true
      by_cases hsame : other = stream
      · subst hsame
        have hcancelled := hopen'.cancelled
        rw [show ((s.setController other k).onCancel other).consumer other = _ from htouch.self]
          at hcancelled
        simp at hcancelled
      · exact of_other ho htouch hsame
    · next k hnext =>
      obtain rfl := Option.some.inj ht
      have htouch := Touches.set s other { s.consumer other with controller := k }
      by_cases hsame : other = stream
      · subst hsame
        have howing : (s.consumer other).owing = true := by
          refine ho.resolve_left ?_
          rw [hframe]
          exact Nat.zero_ne_one
        refine .inl (.inr ?_)
        show Consumer.owing ((s.setController other k).consumer other) = true
        rw [setController, htouch.self]
        exact Consumer.owing_next howing hnext
      · refine of_same ho ?_ ?_
        · rw [hframe]
          rfl
        · exact (congrFun htouch.consumer stream).trans (Function.update_of_ne (Ne.symm hsame) ..)
    · cases ht
  | closed =>
    simp only [Isolate.step] at ht
    split at ht
    · split_ifs at ht
      obtain rfl := Option.some.inj ht
      cases hopen'.closed
    · split_ifs at ht
      obtain rfl := Option.some.inj ht
      exact of_same ho rfl rfl
    · cases ht

theorem receive (hsound : Sound U s) (hframe : s.frame = none) (ho : Owing stream s)
    {m : Worker.Outgoing} (hm : m.isTokenOf stream = false) (hopen' : Open stream (s.receive m)) :
    Heeds stream s (s.receive m) := by
  cases m with
  | reply request result =>
    cases request with
    | none => exact .inl ho
    | some id =>
      rw [Isolate.receive]
      split_ifs
      · exact of_same ho rfl rfl
      · exact .inl ho
  | event other e =>
    by_cases hsame : other = stream
    · -- the stream has ended
      subst hsame
      have htoken : e.isToken = false := by simpa [Worker.Outgoing.isTokenOf] using hm
      have hwaits := (terminal_mem_awaits _ other).mpr hopen'.waits
      have hpays := (((hsound.received hframe (.event other e)).awaits _).mp hwaits).2
      exact absurd (pays_terminal htoken) hpays
    have haside {u t : Isolate} {c : Consumer} (ht : Touches u other c t)
        (hu : u.consumer stream = s.consumer stream ∧ u.frame = none) :
        t.consumer stream = s.consumer stream ∧ t.frame = none := by
      refine ⟨?_, (core_eq frame (fun _ ↦ rfl) ht.core).trans hu.2⟩
      rw [ht.consumer, Function.update_of_ne (Ne.symm hsame)]
      exact hu.1
    have hunpaid : unpaid stream s.frame = 0 := by rw [hframe]; rfl
    have hquiet {t : Isolate} (ht : t.consumer stream = s.consumer stream ∧ t.frame = none) :
        Heeds stream s t := of_same ho (by rw [ht.2, hframe]) ht.1
    have hfired {t : Isolate} {terminal : Bool}
      (ht : t.consumer stream = s.consumer stream ∧ t.frame = none) :
        Heeds stream s { t with frame := some (.receiving other terminal) } := by
      refine of_same ho ?_ ht.1
      rw [hunpaid]
      cases terminal with
      | true => rfl
      | false => exact if_neg hsame
    rw [Isolate.receive]
    split_ifs with hmem
    · dsimp only
      cases htoken : e.isToken with
      | true =>
        simp only [Bool.not_true, Bool.false_eq_true, if_false]
        have hhere : s.consumer stream = s.consumer stream ∧ s.frame = none := ⟨rfl, hframe⟩
        split_ifs
        · exact hquiet hhere
        · exact hfired (haside (touches_add s other _) hhere)
        · exact hquiet (haside (touches_received _ other _) (haside (touches_add s other _) hhere))
      | false =>
        simp only [Bool.not_false, if_true]
        set u : Isolate :=
          ({ s with streams := s.streams.filter (· ≠ other) } : Isolate).finish other
        have hother : u.consumer stream = s.consumer stream ∧ u.frame = none :=
          haside (touches_finish _ other) ⟨rfl, hframe⟩
        split_ifs
        · exact hquiet (haside (touches_completeDoneOnce u other) hother)
        · exact hfired (haside (touches_add u other _) hother)
        · exact hquiet (haside (touches_received _ other _) (haside (touches_add u other _) hother))
    · exact .inl ho

theorem receive_token (hsound : Sound U s) (hopen : Open stream s) (hcalm : Calm stream s)
    {m : Worker.Outgoing} (hm : m.isTokenOf stream = true) :
    Heeds stream s (s.receive m) := by
  have hlive := hopen.live hsound
  cases m with
  | reply request result => cases hm
  | event other e =>
    obtain ⟨rfl, htoken⟩ : other = stream ∧ e.isToken = true := by
      simpa [Worker.Outgoing.isTokenOf] using hm
    rw [Isolate.receive, if_pos hopen.waits]
    dsimp only
    rw [htoken, Bool.not_true, if_neg Bool.false_ne_true, if_neg (by simp [hopen.cancelled])]
    have hadd := touches_add s other (toEvent e)
    cases hfired : (s.add other (toEvent e)).2 with
    | true => exact .inl (.inl (if_pos rfl))
    | false =>
      have hadded : Heeds other (s.add other (toEvent e)).1
          ((s.add other (toEvent e)).1.received other false) := by
        refine received (V := U other) ?_ ?_ ?_
        · rw [hadd.self]
          exact hlive.add (hopen.uncanceled hsound) ((toEvent_isToken e).trans htoken)
        · rw [hadd.self]
          exact hopen.cancelled
        · rw [hadd.self]
          exact (StreamController.add_callback _ _ hfired).trans hcalm
      exact hadded.imp_right fun hlt ↦ (creditsIn_le hadd.grows).trans_lt hlt

end Heeds

end Isolate

open Isolate (Open Owing Heeds Sound)

/-- As long as the listener of a stream waits, a token can be sent, or it is
on its way, or a credit is on its way, or one is still to be posted. -/
structure Primed (stream : ℕ) (w : World NativeWorker) : Prop where
  read : w.read ≤ w.worker.messages.length
  flows : Open stream w.isolate → Worker.Lit stream w.worker ∨
    creditsIn stream w.seen < creditsIn stream w.isolate.posted ∨
    Worker.tokensOf stream (w.worker.messages.take w.read) <
      Worker.tokensOf stream w.worker.messages ∨
    Owing stream w.isolate

namespace Primed

variable {rt : Worker.Runtime} {U : ℕ → Prop} {w w' : World NativeWorker} {stream pauses : ℕ}

theorem init : Primed stream (nativeParty rt).system.init := by
  refine ⟨Nat.zero_le _, fun hopen ↦ ?_⟩
  cases hopen.waits

theorem reopen {s t : Isolate} (hs : Sound U s) (ht : Sound U t)
    (hlater : Later s.consumer t.consumer)
    (hclosed : s.closed = false) (hwaits : stream ∈ s.streams) (hopen : Open stream t) :
      Open stream s := by
  refine ⟨hclosed, hwaits, ?_⟩
  have hstandings := (Isolate.standings_iff (hs.not_ending hclosed)).mp hs.standings
  have hlive := (hstandings.standing stream).live hwaits
  rw [hlive.linked, ← Bool.not_eq_true]
  intro hcanceled
  cases ((hlater stream).canceled hcanceled).1.symm.trans (hopen.uncanceled ht)

/-- Whoever waits now has waited before, or has just listened: the worker does
not know the stream then. -/
theorem waited {s t : Isolate} (hs : Sound U s) (ht : Sound U t)
    (hlater : Later s.consumer t.consumer) (hchange : Isolate.Change s t) (hopen : Open stream t) :
    Open stream s ∨ ∃ sessionId input,
      t.posted = s.posted ++ [.generate stream sessionId input] := by
  have hclosed (haccount : t.account = s.account) : s.closed = false :=
    (field_eq Isolate.account Isolate.closed (fun _ ↦ rfl) haccount).symm.trans hopen.closed
  have hback (hshut : s.closed = false) (hwaits : stream ∈ s.streams) : Open stream s :=
    reopen hs ht hlater hshut hwaits hopen
  cases hchange with
  | quiet haccount hstreams =>
    have hnone := hs.not_failed (hclosed haccount)
    have hsame := hstreams.resolve_right (by simp [hnone])
    exact .inl (hback (hclosed haccount) (hsame ▸ hopen.waits))
  | @listened t other sessionId input _ hshut haccount hstreams hposted =>
    by_cases hsame : other = stream
    · subst hsame
      exact .inr ⟨sessionId, input, hposted⟩
    · have hwaits := hopen.waits
      rw [hstreams, List.mem_append, List.mem_singleton] at hwaits
      exact .inl (hback hshut (hwaits.resolve_right (Ne.symm hsame)))
  | failed _ _ haccount =>
    have hshut := field_eq Isolate.account Isolate.closed (fun _ ↦ rfl) haccount
    cases hopen.closed.symm.trans hshut
  | closed => cases hopen.closed
  | _ => exact .inl (hback hopen.closed hopen.waits)

theorem received {s : Isolate} (hs : Sound U s) (hframe : s.frame = none) {m : Worker.Outgoing}
    (ht : Sound U (s.receive m)) (hlater : Later s.consumer (s.receive m).consumer)
    (hopen : Open stream (s.receive m)) : Open stream s := by
  have hreceived := hs.received hframe m
  have hclosed : s.closed = false := hreceived.closed.symm.trans hopen.closed
  exact reopen hs ht hlater hclosed ((hreceived.awaits (.terminal stream)).mp hopen.waits).1 hopen

theorem heeded (hw : Joined U w) {s : Isolate} (hposted : w.isolate.posted <+: s.posted)
    (hheeds : Heeds stream w.isolate s) (read : ℕ) :
    creditsIn stream { w with isolate := s, read := read }.seen < creditsIn stream s.posted ∨
      Owing stream s := by
  rw [hw.seen_eq hposted read]
  have hseen : creditsIn stream w.seen ≤ creditsIn stream w.isolate.posted := creditsIn_take_le ..
  exact hheeds.symm.imp_left hseen.trans_lt

theorem aside (h : Primed stream w) (hw : Joined U w) {s : Isolate} {read : ℕ}
    (hposted : w.isolate.posted <+: s.posted) (hread : read ≤ w.worker.messages.length)
    (hbefore : Open stream s → Open stream w.isolate)
    (htokens : Worker.tokensOf stream (w.worker.messages.take read) =
      Worker.tokensOf stream (w.worker.messages.take w.read))
    (hheeds : Open stream s → Owing stream w.isolate → Heeds stream w.isolate s) :
    Primed stream { w with isolate := s, read := read } := by
  refine ⟨hread, fun hopen ↦ ?_⟩
  rcases h.flows (hbefore hopen) with hlit | hcredit | htoken | howing
  · exact .inl hlit
  · refine .inr (.inl ?_)
    rw [hw.seen_eq hposted read]
    exact hcredit.trans_le (Isolate.creditsIn_le hposted)
  · exact .inr (.inr (.inl (htokens ▸ htoken)))
  · rcases heeded hw hposted (hheeds hopen howing) read with hcredit | howing
    · exact .inr (.inl hcredit)
    · exact .inr (.inr (.inr howing))

theorem worked (h : Primed stream w) {t : NativeWorker} {taken c : ℕ}
    (hwakes : Worker.Wakes stream c w.worker t)
    (hseen : creditsIn stream { w with worker := t, taken := taken }.seen =
      creditsIn stream w.seen + c) :
    Primed stream { w with worker := t, taken := taken } := by
  obtain ⟨n, ⟨more, hmore, hn⟩, hwakes⟩ := hwakes
  have htake : t.messages.take w.read = w.worker.messages.take w.read := by
    rw [hmore]
    exact List.take_append_of_le_length h.read
  have htokens :
    Worker.tokensOf stream t.messages = Worker.tokensOf stream w.worker.messages + n := by
    rw [hmore, Worker.tokensOf_append, hn]
  have hheard : Worker.tokensOf stream (w.worker.messages.take w.read) ≤
      Worker.tokensOf stream w.worker.messages := (List.take_sublist ..).countP_le
  have hlength : w.worker.messages.length ≤ t.messages.length := by
    rw [hmore, List.length_append]
    exact Nat.le_add_right ..
  refine ⟨h.read.trans hlength, fun hopen ↦ ?_⟩
  have hwoken (hlit : Worker.Lit stream w.worker ∨ 0 < c) : Worker.Lit stream t ∨
      Worker.tokensOf stream (t.messages.take w.read) < Worker.tokensOf stream t.messages := by
    refine (hwakes hlit).imp_right fun hpos ↦ ?_
    rw [htake, htokens]
    omega
  rcases h.flows hopen with hlit | hcredit | htoken | howing
  · exact (hwoken (.inl hlit)).imp_right fun htoken ↦ .inr (.inl htoken)
  · rcases Nat.eq_zero_or_pos c with rfl | hpos
    · exact .inr (.inl (hseen ▸ hcredit))
    · exact (hwoken (.inr hpos)).imp_right fun htoken ↦ .inr (.inl htoken)
  · refine .inr (.inr (.inl ?_))
    show Worker.tokensOf stream (t.messages.take w.read) < Worker.tokensOf stream t.messages
    rw [htake, htokens]
    omega
  · exact .inr (.inr (.inr howing))

/-- A stream that was just listened to is unknown to the worker. -/
theorem lit_of_new (hw : Joined U w) {s : Isolate} (hstarting : s.Starting) {sessionId : ℕ}
    {input : Worker.Input}
    (hposted : s.posted = w.isolate.posted ++ [.generate stream sessionId input]) :
    Worker.Lit stream w.worker := by
  intro hmem
  have hstarted : stream ∈ started w.isolate.posted := by
    obtain ⟨m, hm, hstarts⟩ := List.mem_filterMap.mp (hw.sound.asked stream hmem)
    exact List.mem_filterMap.mpr ⟨m, List.mem_of_mem_take hm, hstarts⟩
  have hnodup := hstarting.nodup
  rw [hposted, started_append, List.nodup_append] at hnodup
  exact absurd rfl (hnodup.2.2 stream hstarted stream (List.mem_singleton_self stream))

theorem step {turn : Turn Answers Work} (h : Primed stream w) (hw : Joined U w) (hw' : Joined U w')
    (hlater : Later w.isolate.consumer w'.isolate.consumer) (ha : Accounted 1 stream pauses w)
    (ht : Party.Step (nativeParty rt) w turn w') : Primed stream w' := by
  have hsound := hw.fit.sound
  cases ht with
  | @main a s hother hs =>
    have hchange := hsound.change hw.fit.ledger.nodup hother hs
    have hposted := hchange.grows.posted
    by_cases hnew : ∃ sessionId input,
      s.posted = w.isolate.posted ++ [.generate stream sessionId input]
    · obtain ⟨sessionId, input, hnew⟩ := hnew
      exact ⟨h.read, fun _ ↦ .inl (lit_of_new (w := w) hw hw'.starting hnew)⟩
    · have hbefore (hopen : Open stream s) : Open stream w.isolate :=
        (waited hsound hw'.fit.sound hlater hchange hopen).resolve_right hnew
      exact h.aside hw hposted h.read hbefore rfl fun hopen howing ↦
        .step hsound (hbefore hopen) howing hother hs hopen
  | @deliver m hm hframe hports =>
    obtain ⟨more, hmore, -⟩ := (hsound.received hframe m).posted
    have hposted : w.isolate.posted <+: (w.isolate.receive m).posted := ⟨more, hmore.symm⟩
    have hread : w.read + 1 ≤ w.worker.messages.length := (List.getElem?_eq_some_iff.mp hm).1
    have hbefore (hopen : Open stream (w.isolate.receive m)) : Open stream w.isolate :=
      received hsound hframe hw'.fit.sound hlater hopen
    cases htoken : m.isTokenOf stream with
    | true =>
      refine ⟨hread, fun hopen ↦ ?_⟩
      have hheeds :=
        Heeds.receive_token hsound (hbefore hopen) (ha.paying.calm_of_frame hframe) htoken
      rcases heeded hw hposted hheeds (w.read + 1) with hcredit | howing
      · exact .inr (.inl hcredit)
      · exact .inr (.inr (.inr howing))
    | false =>
      refine h.aside hw hposted hread hbefore ?_ fun hopen howing ↦
        .receive hsound hframe howing htoken hopen
      have hm : w.worker.messages[w.read]? = some m := hm
      rw [List.take_add_one, hm, Worker.tokensOf_append]
      simp [Worker.tokensOf, htoken]
  | @take how m hm =>
    have hwakes := @Worker.Wakes.turn rt stream _ _ hw.sound (m.action how) (hw.fresh hm how)
    rw [Posted.credits_action] at hwakes
    refine h.worked hwakes ?_
    rw [World.seen_take hm]
    exact creditsIn_concat ..
  | act work =>
    have hwakes := @Worker.Wakes.turn rt stream _ _ hw.sound work.action (hw.again work)
    rw [work.said_action] at hwakes
    exact h.worked hwakes rfl

end Primed

theorem primed_run {rt : Worker.Runtime} {turns : List (Turn Answers Work)} {w : World NativeWorker}
    (ht : (nativeParty rt).system.run turns = some w) (stream : ℕ) :
    (∃ owed, Serving (Party.Cancels turns) owed w) ∧
      (∃ pauses, Accounted 1 stream pauses w) ∧ Primed stream w := by
  have hfirst : Accounted 1 stream 0 (nativeParty rt).system.init := accounted_init
  refine Serving.invariant (P := fun v ↦ (∃ pauses, Accounted 1 stream pauses v) ∧ Primed stream v)
    ⟨⟨0, hfirst⟩, .init⟩ ?_ ht
  intro v turn v' owed owed' hserving hserving' hlater h hstep
  obtain ⟨⟨pauses, haccounted⟩, hprimed⟩ := h
  exact ⟨⟨_, haccounted.step hserving.joined (fun h ↦ absurd h one_ne_zero) hstep⟩,
    hprimed.step hserving.joined hserving'.joined hlater haccounted hstep⟩

structure World.Idle (w : World NativeWorker) : Prop where
  taken : w.taken = w.isolate.posted.length
  read : w.read = w.worker.messages.length
  frame : w.isolate.frame = none

/-- Once nothing is on its way, a credit is owed only while the listener pauses. -/
theorem Isolate.Owing.isPaused {U : ℕ → Prop} {s : Isolate} {stream pauses : ℕ} (h : Owing stream s)
    (hsound : Sound U s) (hopen : Open stream s) (hpaying : s.Paying 1 stream pauses)
    (hframe : s.frame = none) : (s.consumer stream).controller.isPaused = true := by
  have hcalm : (s.consumer stream).controller.callback = none := hpaying.calm_of_frame hframe
  have howing : (s.consumer stream).owing = true := by
    refine h.resolve_left ?_
    rw [hframe]
    exact Nat.zero_ne_one
  have hinput : (s.consumer stream).controller.inputPaused = true := by
    simpa [Consumer.owing, hcalm] using howing
  simp [StreamController.isPaused, StreamController.hasListener, (hopen.live hsound).listened,
    hopen.uncanceled hsound, hinput]

/-- No stream gets stuck. As long as its listener waits and the worker runs its
operation, a token can be sent, or it is on its way, or a credit is on its way
or still to be posted; the last of these alone can last, while the listener
pauses. Whatever the listener does, an operation that may send a token, or has
nothing more to come, is asked for its next event in every tick, unless the tick
ends or cancels it. -/
theorem native_flows (rt : Worker.Runtime) {turns : List (Turn Answers Work)}
    {w : World NativeWorker}
    (ht : (nativeParty rt).system.run turns = some w) {stream : ℕ}
    (hlive : stream ∈ w.worker.state.operations) :
    (Open stream w.isolate →
      (w.worker.state.op stream).credit = true ∨
        creditsIn stream w.seen < creditsIn stream w.isolate.posted ∨
        Worker.tokensOf stream (w.worker.messages.take w.read) <
          Worker.tokensOf stream w.worker.messages ∨
        Owing stream w.isolate) ∧
    (Open stream w.isolate → w.Idle → (w.isolate.consumer stream).controller.isPaused = false →
      (w.worker.state.op stream).credit = true) ∧
    ((w.worker.state.op stream).credit = true ∨ w.worker.state.isFinal stream = true →
      ∀ answers w', (nativeParty rt).step w (.act (.tick answers)) = some w' →
        stream ∈ w'.worker.state.operations →
          (w'.worker.state.op stream).cancelRequested = false →
            Worker.Taken stream w.worker w'.worker) := by
  obtain ⟨⟨owed, hserving⟩, ⟨pauses, haccounted⟩, hprimed⟩ := primed_run ht stream
  have hjoined := hserving.joined
  refine ⟨fun hopen ↦ (hprimed.flows hopen).imp_left fun hlit ↦ hlit hlive,
    fun hopen hidle hpaused ↦ ?_, fun hgate answers w' hw' ↦ ?_⟩
  · rcases hprimed.flows hopen with hlit | hcredit | htoken | howing
    · exact hlit hlive
    · rw [World.seen, hidle.taken, List.take_length] at hcredit
      exact absurd hcredit (lt_irrefl _)
    · rw [hidle.read, List.take_length] at htoken
      exact absurd htoken (lt_irrefl _)
    · have hisPaused := howing.isPaused hjoined.fit.sound hopen haccounted.paying hidle.frame
      cases hpaused.symm.trans hisPaused
  · obtain rfl := Option.some.inj hw'
    have htimer : w.worker.state.timer = true := by
      refine hjoined.sound.tabled.timer fun hnone ↦ ?_
      have hmem : stream ∈ w.worker.state.tables.operations := hlive
      rw [hnone] at hmem
      cases hmem
    exact Worker.tick_takes hjoined.sound.consistent htimer hgate answers

namespace Scenario

def repaid : List (Turn Answers Work) :=
  begun ++ [.deliver, .deliver, .deliver, .main .returned, .take answers]

end Scenario

theorem native_flows_repaid : ∃ w,
    (nativeParty Worker.Scenario.runtime).system.run Scenario.repaid = some w ∧
    (w.isolate.consumer 3).heard = 1 ∧ w.Idle ∧ Open 3 w.isolate ∧
    3 ∈ w.worker.state.operations ∧ (w.worker.state.op 3).credit = true := by
  have hrun : (((nativeParty Worker.Scenario.runtime).system.run Scenario.repaid).map fun w ↦
      ((w.isolate.consumer 3).heard,
        [decide (w.taken = w.isolate.posted.length), decide (w.read = w.worker.messages.length),
          w.isolate.frame.isNone, decide (3 ∈ w.isolate.streams),
            decide (3 ∈ w.worker.state.operations)],
        [w.isolate.closed, (w.isolate.consumer 3).cancelled,
          (w.isolate.consumer 3).controller.isPaused])) =
      some (1, [true, true, true, true, true], [false, false, false]) := by
    decide +kernel
  obtain ⟨w, hw, hresult⟩ := Option.map_eq_some_iff.mp hrun
  obtain ⟨hheard, ⟨htaken, hread, hframe, hwaits, hlive⟩, hclosed, hcancelled, hpaused⟩ := by
    simpa only [Prod.mk.injEq, List.cons.injEq, and_true, decide_eq_true_eq,
      Option.isNone_iff_eq_none] using hresult
  have hidle : w.Idle := ⟨htaken, hread, hframe⟩
  have hopen : Open 3 w.isolate := ⟨hclosed, hwaits, hcancelled⟩
  exact ⟨w, hw, hheard, hidle, hopen, hlive,
    (native_flows Worker.Scenario.runtime hw hlive).2.1 hopen hidle hpaused⟩

end LibLitertLm.Backend
