import LibLitertLm.Backend.Changes

namespace LibLitertLm.Backend

open Handles (Event)

def Posted.isCreditOf (stream : ℕ) : Posted → Bool
  | .credit other => other == stream
  | _ => false

def creditsIn (stream : ℕ) (messages : List Posted) : ℕ :=
  messages.countP (Posted.isCreditOf stream)

namespace Consumer

def heard (c : Consumer) : ℕ := c.controller.received.countP isToken

/-- `onResume` may still be called for the pause that was last asked for. -/
def due (c : Consumer) : Bool := c.controller.inputPaused || c.controller.callback == some true

/-- What was credited, what will be, and the token whose credit is not posted
yet (`f`), against the tokens that were heard and the pauses that were asked for,
where a pause is worth `charge` credits. -/
structure Paid (charge credits pauses f : ℕ) (c : Consumer) : Prop where
  law : credits + charge * c.due.toNat + f ≤ c.heard + charge * pauses
  paused : c.controller.pauses ≠ 0 → c.controller.inputPaused = true
  held : c.finished = false → c.controller.pending ≠ [] → c.controller.inputPaused = true

namespace Paid

variable {c d : Consumer} {charge credits pauses f n : ℕ}

theorem init : Paid charge 0 0 0 {} := ⟨by simp [due, heard], by simp, by simp⟩

theorem mono {credits' pauses' f' : ℕ} (h : Paid charge credits pauses f c)
    (hle : credits' + f' ≤ credits + f) (hpauses : pauses ≤ pauses') :
    Paid charge credits' pauses' f' c := by
  have hlaw := h.law
  have hmore := Nat.mul_le_mul_left charge hpauses
  exact ⟨by omega, h.paused, h.held⟩

/-- A pause ends, for which `n` credits are posted. Where it is worth nothing, a
token that was heard has to pay for them. -/
theorem spend (h : Paid charge credits pauses f c) (hheard : d.heard = c.heard)
    (hdue : n + d.due.toNat ≤ c.due.toNat)
    (hfree : charge = 0 → n ≠ 0 → credits + f < c.heard) :
    credits + n + charge * d.due.toNat + f ≤ d.heard + charge * pauses := by
  have hlaw := h.law
  have hone : n ≤ 1 := ((Nat.le_add_right ..).trans hdue).trans (Bool.toNat_le _)
  rw [hheard]
  rcases Nat.eq_zero_or_pos charge with rfl | hpos
  · rw [Nat.zero_mul] at hlaw ⊢
    rcases Nat.eq_zero_or_pos n with rfl | hn
    · exact hlaw
    · have hless := hfree rfl (by omega)
      omega
  · have hpaid := Nat.mul_le_mul_left charge hdue
    rw [Nat.mul_add] at hpaid
    have hn := Nat.le_mul_of_pos_left n hpos
    omega

theorem of_controller (h : Paid charge credits pauses f c)
    (hcontroller : d.controller = c.controller)
    (hfinished : d.finished = false → c.finished = false) : Paid charge credits pauses f d := by
  obtain ⟨hlaw, hpaused, hheld⟩ := h
  rw [due, heard] at hlaw
  rw [← hcontroller] at hlaw hpaused hheld
  exact ⟨hlaw, hpaused, fun hd ↦ hheld (hfinished hd)⟩

theorem sendData (h : Paid charge credits pauses f c) (hcallback : c.controller.callback = none)
    (event : Event) {rest : List (Held Event)}
    (hrest : rest ≠ [] → c.controller.pending ≠ []) :
    Paid charge credits pauses (f + (isToken event).toNat)
      { c with controller := { c.controller with pending := rest }.sendData event } := by
  obtain ⟨hlaw, hpaused, hheld⟩ := h
  refine ⟨?_, hpaused, fun hfinished hne ↦ hheld hfinished (hrest hne)⟩
  have hheard :
    heard { c with controller := { c.controller with pending := rest }.sendData event } =
      c.heard + (isToken event).toNat := by
    cases htoken : isToken event <;> simp [heard, StreamController.sendData, htoken]
  have hdue : due { c with controller := { c.controller with pending := rest }.sendData event } =
      c.due := by
    simp [due, StreamController.sendData, hcallback]
  rw [hheard, hdue]
  omega

/-- An event is added to a stream that runs: it is handed over, or held back
while the input is paused. -/
theorem add (h : Paid charge credits pauses 0 c) (hlistened : c.controller.listened = true)
    (hcanceled : c.controller.canceled = false) (hcallback : c.controller.callback = none)
    (hfinished : c.finished = false) (event : Event) :
    (c.controller.add event).2 = true ∧
        Paid charge credits pauses (isToken event).toNat
          { c with controller := (c.controller.add event).1 } ∨
      (c.controller.add event).2 = false ∧ (c.controller.add event).1.isPaused = true ∧
        Paid charge credits pauses 0 { c with controller := (c.controller.add event).1 } := by
  unfold StreamController.add
  rw [if_neg (by simp [hcanceled])]
  split_ifs with hidle
  · have hsent := @Paid.sendData _ _ _ _ _ h hcallback event c.controller.pending id
    rw [Nat.zero_add] at hsent
    exact .inl ⟨rfl, hsent⟩
  · have hinput : c.controller.inputPaused = true := by
      by_cases hpending : c.controller.pending = []
      · apply h.paused
        simpa [StreamController.idle, StreamController.hasListener, hlistened, hcanceled, hcallback,
          hpending] using hidle
      · exact h.held hfinished hpending
    refine .inr ⟨rfl, ?_, h.law, h.paused, fun _ _ ↦ hinput⟩
    simp [StreamController.isPaused, StreamController.hasListener, hlistened, hcanceled, hinput]

/-- The event that ends a stream is added. -/
theorem addLast (h : Paid charge credits pauses 0 c) {event : Event}
    (hevent : isToken event = false) (hfinished : c.finished = true) :
    Paid charge credits pauses 0 { c with controller := (c.controller.add event).1 } := by
  have hnever : ¬ c.finished = false := by simp [hfinished]
  unfold StreamController.add
  split_ifs with hcanceled hidle
  · exact h
  · have hcallback := (StreamController.idle_spec (Bool.and_eq_true_iff.mp hidle).1).2.2
    have hsent := @Paid.sendData _ _ _ _ _ h hcallback event c.controller.pending id
    rwa [hevent] at hsent
  · exact ⟨h.law, h.paused, fun hopen ↦ absurd hopen hnever⟩

theorem close (h : Paid charge credits pauses f c) (hfinished : c.finished = true) :
    Paid charge credits pauses f c.close := by
  have hnever : ¬ c.finished = false := by simp [hfinished]
  unfold Consumer.close StreamController.close
  split_ifs
  all_goals exact ⟨h.law, h.paused, fun hopen ↦ absurd hopen hnever⟩

theorem leave_due (c : Consumer) : c.controller.leave.2.toNat +
    (due { c with controller := c.controller.leave.1 }).toNat ≤ c.due.toNat := by
  unfold StreamController.leave
  cases hcallback : c.controller.callback with
  | none => simp [due, hcallback]
  | some wasPaused =>
    split_ifs
    · cases hinput : c.controller.inputPaused <;> cases wasPaused <;>
        simp [due, hinput, hcallback]
    · cases hinput : c.controller.inputPaused <;> cases wasPaused <;>
        cases c.controller.pauses == 0 && c.controller.pending.isEmpty <;>
        simp [due, hinput, hcallback]

/-- A callback returns, which may call `onResume`. -/
theorem leave (h : Paid charge credits pauses f c) (hn : n ≤ c.controller.leave.2.toNat)
    (hfree : charge = 0 → n ≠ 0 → credits + f < c.heard) :
    Paid charge (credits + n) pauses f { c with controller := c.controller.leave.1 } := by
  have hdue := leave_due c
  obtain ⟨-, hpaused, hheld⟩ := id h
  refine ⟨h.spend ?_ (by omega) hfree, ?_, ?_⟩
  · unfold StreamController.leave
    split
    · rfl
    · split_ifs <;> rfl
  · unfold StreamController.leave
    split
    · exact hpaused
    · split_ifs
      · exact hpaused
      · exact fun hne ↦ by simp [hpaused hne, hne]
  · unfold StreamController.leave
    split
    · exact hheld
    · split_ifs
      · exact fun _ hne ↦ absurd rfl hne
      · exact fun hopen hne ↦ by simp [hheld hopen hne, hne]

theorem pause (h : Paid charge credits pauses f c) :
    Paid charge credits (pauses + 1) f { c with controller := c.controller.pause } := by
  obtain ⟨hlaw, hpaused, hheld⟩ := h
  unfold StreamController.pause
  split_ifs
  · refine ⟨?_, fun _ ↦ rfl, fun _ _ ↦ rfl⟩
    rw [heard] at hlaw
    simp only [due, heard, Bool.true_or, Bool.toNat_true, Nat.mul_add, Nat.mul_one]
    omega
  · have hmore := Nat.mul_le_mul_left charge (Nat.le_succ pauses)
    exact ⟨hlaw.trans (Nat.add_le_add_left hmore _), hpaused, hheld⟩

theorem resume (h : Paid charge credits pauses f c) (hn : n ≤ c.controller.resume.2.toNat)
    (hfree : charge = 0 → n ≠ 0 → credits + f < c.heard) :
    Paid charge (credits + n) pauses f { c with controller := c.controller.resume.1 } := by
  obtain ⟨-, hpaused, hheld⟩ := id h
  have hdue : c.controller.resume.2.toNat +
      (due { c with controller := c.controller.resume.1 }).toNat ≤ c.due.toNat := by
    unfold StreamController.resume
    split_ifs with hlistener hlast
    · have hpauses : c.controller.pauses = 1 ∧ c.controller.pending = [] := by simpa using hlast
      have hinput := hpaused (by simp [hpauses.1])
      cases hcallback : c.controller.callback with
      | none => simp [due, hinput, hcallback]
      | some wasPaused => cases wasPaused <;> simp [due, hinput, hcallback]
    · simp [due]
    · simp [due]
  refine ⟨h.spend ?_ (by omega) hfree, ?_, ?_⟩
  · unfold StreamController.resume
    split_ifs <;> rfl
  · unfold StreamController.resume
    split_ifs with hlistener hlast
    · exact fun hne ↦ absurd rfl hne
    · simp only [Bool.and_eq_true, bne_iff_ne] at hlistener
      exact fun _ ↦ hpaused hlistener.2
    · exact hpaused
  · unfold StreamController.resume
    split_ifs with hlistener hlast
    · have hpending : c.controller.pending = [] := by simpa using (Bool.and_eq_true_iff.mp hlast).2
      exact fun _ hne ↦ absurd hpending hne
    · exact hheld
    · exact hheld

theorem cancel (h : Paid charge credits pauses f c) :
    Paid charge credits pauses f { c with controller := c.controller.cancel.1 } := by
  unfold StreamController.cancel
  split_ifs with hlistener hcallback
  · exact ⟨h.law, h.paused, fun _ hne ↦ absurd rfl hne⟩
  · exact ⟨h.law, h.paused, h.held⟩
  · exact h

theorem next (h : Paid charge credits pauses f c) {k : StreamController Event} {ended : Bool}
    (hk : c.controller.next = some (k, ended)) :
    Paid charge credits pauses f { c with controller := k } := by
  unfold StreamController.next at hk
  split_ifs at hk with hidle
  have hcallback := (StreamController.idle_spec hidle).2.2
  cases hpending : c.controller.pending with
  | nil => simp [hpending] at hk
  | cons head rest =>
    cases head with
    | data event =>
      obtain ⟨rfl, -⟩ : { c.controller with pending := rest }.sendData event = k ∧
        false = ended := by
        simpa [hpending] using hk
      exact (h.sendData hcallback event fun _ ↦ by simp [hpending]).mono (by omega) le_rfl
    | done =>
      obtain ⟨rfl, -⟩ : { c.controller with pending := [], canceled := true } = k ∧
        true = ended := by
        simpa [hpending] using hk
      exact ⟨h.law, h.paused, fun _ hne ↦ absurd rfl hne⟩

end Paid

end Consumer

def Frame.stream : Frame → ℕ
  | .receiving stream _ | .ending _ stream _ | .dispatching stream => stream

namespace Isolate

def unpaid (stream : ℕ) : Option Frame → ℕ
  | some (.receiving other false) => if other = stream then 1 else 0
  | _ => 0

def Owes (charge stream pauses f : ℕ) (s : Isolate) : Prop :=
  (s.consumer stream).Paid charge (creditsIn stream s.posted) pauses f

def Calm (stream : ℕ) (s : Isolate) : Prop := (s.consumer stream).controller.callback = none

structure Paying (charge stream pauses : ℕ) (s : Isolate) : Prop where
  paid : Owes charge stream pauses (unpaid stream s.frame) s
  calls : ¬ Calm stream s → s.frame.map Frame.stream = some stream

variable {U : ℕ → Prop} {s t : Isolate} {charge stream other pauses f : ℕ} {c : Consumer}

theorem creditsIn_post (s : Isolate) (m : Posted) :
    creditsIn stream (s.post m).posted = creditsIn stream s.posted +
      (m.isCreditOf stream).toNat := by
  cases h : m.isCreditOf stream <;> simp [creditsIn, post, h]

def wants (s : Isolate) (stream : ℕ) : Bool :=
  !(s.consumer stream).finished && !(s.consumer stream).cancelled

theorem creditsIn_onResume (s : Isolate) (other : ℕ) :
    creditsIn stream (s.onResume other).posted =
      creditsIn stream s.posted + if other = stream then (s.wants stream).toNat else 0 := by
  by_cases hsame : other = stream
  · subst hsame
    rw [onResume, ← wants, if_pos rfl]
    cases hwants : s.wants other with
    | true => rw [if_pos rfl, creditsIn_post, Posted.isCreditOf, beq_self_eq_true]
    | false => rw [if_neg Bool.false_ne_true, Bool.toNat_false, Nat.add_zero]
  · have hother : (Posted.credit other).isCreditOf stream = false := by
      simpa [Posted.isCreditOf] using hsame
    unfold onResume
    split_ifs
    · rw [creditsIn_post, hother, Bool.toNat_false]
    · rfl

theorem creditsIn_onCancel (s : Isolate) (other : ℕ) :
    creditsIn stream (s.onCancel other).posted = creditsIn stream s.posted := by
  unfold onCancel
  dsimp only
  split_ifs
  · rw [creditsIn_post]
    rfl
  · rfl

namespace Owes

theorem of_eq (h : Owes charge stream pauses f s)
    (hconsumer : t.consumer stream = s.consumer stream)
    (hcredits : creditsIn stream t.posted = creditsIn stream s.posted) :
    Owes charge stream pauses f t := by
  rw [Owes, hconsumer, hcredits]
  exact h

theorem touch (h : Owes charge stream pauses f s) (ht : Touches s other c t)
    (hcredits : creditsIn stream t.posted = creditsIn stream s.posted)
    (hc : other = stream → c.Paid charge (creditsIn stream s.posted) pauses f) :
      Owes charge stream pauses f t := by
  by_cases hsame : other = stream
  · subst hsame
    rw [Owes, ht.self, hcredits]
    exact hc rfl
  · refine h.of_eq ?_ hcredits
    rw [ht.consumer, Function.update_of_ne (Ne.symm hsame)]

/-- A subscription of which it is known whether `onResume` is called. -/
theorem resumed (h : Owes charge stream pauses f s) {k : StreamController Event} {resumed : Bool}
    (hk : other = stream → Consumer.Paid charge
      (creditsIn stream s.posted + (s.wants stream && resumed).toNat) pauses f
        { s.consumer other with controller := k }) :
    Owes charge stream pauses f
      (if resumed then (s.setController other k).onResume other else s.setController other k) := by
  cases resumed with
  | false =>
    rw [if_neg Bool.false_ne_true]
    refine h.touch (.set s other _) rfl fun hsame ↦ ?_
    simpa using hk hsame
  | true =>
    rw [if_pos rfl]
    have htouch := touches_resumed s other k true
    rw [if_pos rfl] at htouch
    have hcredits := @creditsIn_onResume stream (s.setController other k) other
    have hposted : creditsIn stream (s.setController other k).posted = creditsIn stream s.posted :=
      rfl
    by_cases hsame : other = stream
    · subst hsame
      have hwants : (s.setController other k).wants other = s.wants other := by
        simp [wants, setController, setConsumer]
      have hpaid := hk rfl
      rw [Bool.and_true] at hpaid
      rw [Owes, htouch.self, hcredits, if_pos rfl, hposted, hwants]
      exact hpaid
    · refine h.of_eq ?_ (by rw [hcredits, if_neg hsame, hposted, Nat.add_zero])
      rw [htouch.consumer, Function.update_of_ne (Ne.symm hsame)]

theorem ended (h : Owes charge stream pauses f s) {k : StreamController Event} (ended : Bool)
    (hk : other = stream → Consumer.Paid charge (creditsIn stream s.posted) pauses f
      { s.consumer other with controller := k }) :
    Owes charge stream pauses f
      (if ended then (s.setController other k).onCancel other else s.setController other k) := by
  refine h.touch (touches_ended s other k ended) ?_ fun hsame ↦ (hk hsame).of_controller rfl id
  split_ifs
  · exact creditsIn_onCancel ..
  · rfl

theorem leave (h : Owes charge stream pauses f s) (other : ℕ)
    (hfree : charge = 0 → other = stream →
      (s.wants stream && (s.consumer stream).controller.leave.2) = true →
        creditsIn stream s.posted + f < (s.consumer stream).heard) :
    Owes charge stream pauses f (s.leave other) := by
  have hk (hsame : other = stream) : Consumer.Paid charge (creditsIn stream s.posted +
      (s.wants stream && (s.consumer other).controller.leave.2).toNat) pauses f
        { s.consumer other with controller := (s.consumer other).controller.leave.1 } := by
    subst hsame
    exact Consumer.Paid.leave h (Bool.toNat_le_toNat (Bool.and_le_right _ _)) fun hcharge hn ↦
      hfree hcharge rfl (by simpa using hn)
  exact h.resumed hk

theorem finish (h : Owes charge stream pauses f s) (other : ℕ) :
    Owes charge stream pauses f (s.finish other) :=
  h.touch (touches_finish s other) rfl fun hsame ↦ by
    subst hsame
    exact Consumer.Paid.of_controller h rfl fun hopen ↦ absurd hopen (by simp)

theorem completeDoneOnce (h : Owes charge stream pauses f s) (other : ℕ) :
    Owes charge stream pauses f (s.completeDoneOnce other) := by
  refine h.touch (touches_completeDoneOnce s other) ?_ fun hsame ↦ ?_
  · unfold Isolate.completeDoneOnce
    split_ifs <;> rfl
  · subst hsame
    refine Consumer.Paid.of_controller h ?_ ?_ <;> unfold doneOnce <;> split_ifs
    · rfl
    · rfl
    · exact id
    · exact id

theorem closeController (h : Owes charge stream pauses f s)
    (hfinished : other = stream → (s.consumer other).finished = true) :
    Owes charge stream pauses f (s.closeController other) :=
  h.ended _ fun hsame ↦ by
    subst hsame
    exact (Consumer.Paid.close h (hfinished rfl)).of_controller rfl id

theorem settle (h : Owes charge stream pauses f s)
    (hfinished : other = stream → (s.consumer other).finished = true) :
    Owes charge stream pauses f (s.ended other) :=
  (h.closeController hfinished).completeDoneOnce other

theorem received (h : Owes charge stream pauses (if other = stream then 1 else 0) s) :
    Owes charge stream pauses 0 (s.received other false) := by
  rw [Isolate.received, if_neg Bool.false_ne_true]
  have hless : Owes charge stream pauses 0 s := Consumer.Paid.mono h (by omega) le_rfl
  by_cases hopen : !(s.consumer other).controller.isPaused && !(s.consumer other).cancelled
  · rw [if_pos hopen]
    by_cases hsame : other = stream
    · subst hsame
      rw [if_pos rfl] at h
      refine Consumer.Paid.mono h ?_ le_rfl
      rw [creditsIn_post]
      simp [Posted.isCreditOf]
    · exact hless.of_eq rfl (by rw [creditsIn_post]; simp [Posted.isCreditOf, hsame])
  · rw [if_neg hopen]
    exact hless

end Owes

/-- The last event of a stream was held back, and the stream is closed. -/
theorem ended_callback {event : Event} {finished : Bool}
    (h : (c.controller.add event).2 = false) :
    (doneOnce (added event { c with finished := finished }).close).controller.callback =
      c.controller.callback := by
  have hcallback := StreamController.add_callback _ _ h
  unfold doneOnce
  split_ifs <;> exact (StreamController.close_callback _).trans hcallback

theorem Touches.callback (ht : Touches s other c t)
    (hc : other = stream → c.controller.callback = (s.consumer other).controller.callback) :
    (t.consumer stream).controller.callback = (s.consumer stream).controller.callback := by
  by_cases hsame : other = stream
  · subst hsame
    rw [ht.self, hc rfl]
  · rw [ht.consumer, Function.update_of_ne (Ne.symm hsame)]

theorem Paying.of_touch (hcalm : Calm stream s) (ht : Touches s other c t) (hframe : t.frame = none)
    (hc : other = stream → c.controller.callback = (s.consumer other).controller.callback)
    (hpaid : Owes charge stream pauses 0 t) : Paying charge stream pauses t :=
  ⟨by rwa [hframe], fun hcall ↦ absurd ((ht.callback hc).trans hcalm) hcall⟩

theorem Paying.of_fired (hcalm : Calm stream s) (ht : Touches s other c t) {frame : Frame}
    (hstream : frame.stream = other)
    (hpaid : Owes charge stream pauses (unpaid stream (some frame)) t) :
    Paying charge stream pauses { t with frame := some frame } := by
  refine ⟨hpaid, fun hcall ↦ ?_⟩
  by_contra hne
  have hne : other ≠ stream := fun hsame ↦ hne (congrArg some (hstream.trans hsame))
  exact hcall ((ht.callback fun hsame ↦ absurd hsame hne).trans hcalm)

/-- The loop of `_workerEnded` posts no credit and hands over no token. -/
theorem endStreams_paying (failure : Failure) (rest : List ℕ) (h : Owes charge stream pauses 0 s)
    (hcalm : Calm stream s) (hframe : s.frame = none) :
    Paying charge stream pauses (endStreams failure rest s) := by
  induction rest generalizing s with
  | nil =>
    have hend : (endStreams failure [] s).frame = none := hframe
    refine ⟨?_, fun hcall ↦ absurd hcalm hcall⟩
    rw [hend]
    exact h
  | cons other rest ih =>
    have hfinish := h.finish other
    have hfinished : ((s.finish other).consumer other).finished = true := by
      rw [(touches_finish s other).self]
    rw [endStreams]
    dsimp only
    have hadd := (touches_finish s other).and (touches_add _ other (.failed failure))
    have hadded : Owes charge stream pauses 0 ((s.finish other).add other (.failed failure)).1 :=
      hfinish.touch (touches_add _ other (.failed failure)) rfl fun hsame ↦ by
        subst hsame
        exact Consumer.Paid.addLast hfinish rfl hfinished
    split_ifs with hcancelled hfired
    · have hdone := (touches_finish s other).and (touches_completeDoneOnce _ other)
      refine ih (hfinish.completeDoneOnce other) ((hdone.callback fun _ ↦ ?_).trans hcalm) ?_
      · unfold doneOnce
        split_ifs <;> rfl
      · exact (core_eq frame (fun _ ↦ rfl) hdone.core).trans hframe
    · exact .of_fired hcalm hadd rfl hadded
    · have hdone := hadd.and (f := fun c ↦ doneOnce c.close) (touches_finished _ other)
      refine ih (hadded.settle fun _ ↦ ?_) ((hdone.callback fun _ ↦ ?_).trans hcalm) ?_
      · rw [hadd.self]
        rfl
      · have hunfired : ((s.consumer other).controller.add (.failed failure)).2 = false := by
          simpa [Isolate.add, (touches_finish s other).self] using hfired
        exact ended_callback hunfired
      · exact (core_eq frame (fun _ ↦ rfl) hdone.core).trans hframe

/-- Whether an action makes `onResume` of a stream post a credit. -/
def resumes (s : Isolate) (stream : ℕ) : Action → Bool
  | .call (.resume other) =>
    other == stream && (s.wants stream && (s.consumer stream).controller.resume.2)
  | .returned =>
    s.frame.map Frame.stream == some stream &&
      (s.wants stream && (s.consumer stream).controller.leave.2)
  | _ => false

/-- The listener has got a token for which no credit is posted or about to be. -/
def Uncredited (stream : ℕ) (s : Isolate) : Prop :=
  creditsIn stream s.posted + unpaid stream s.frame < (s.consumer stream).heard

/-- `onResume` posts the credit of a token, and no other. -/
def Timely (stream : ℕ) (s : Isolate) (a : Action) : Prop :=
  s.resumes stream a = true → Uncredited stream s

def Action.pausesOf (stream : ℕ) : Action → ℕ
  | .call (.pause other) => if other = stream then 1 else 0
  | _ => 0

namespace Paying

theorem init : Paying charge stream 0 {} := ⟨Consumer.Paid.init, fun hcall ↦ absurd rfl hcall⟩

theorem of_owes (h : Paying charge stream pauses s) {pauses' : ℕ} (hframe : t.frame = s.frame)
    (hcalm : (t.consumer stream).controller.callback = (s.consumer stream).controller.callback)
    (ht : Owes charge stream pauses' (unpaid stream s.frame) t) :
    Paying charge stream pauses' t := by
  refine ⟨by rwa [hframe], fun hcall ↦ ?_⟩
  rw [hframe]
  exact h.calls fun hs ↦ hcall (hcalm.trans hs)

theorem of_eq (h : Paying charge stream pauses s) (hframe : t.frame = s.frame)
    (hconsumer : t.consumer = s.consumer)
    (hcredits : creditsIn stream t.posted = creditsIn stream s.posted) :
    Paying charge stream pauses t :=
  h.of_owes hframe (by rw [hconsumer]) (h.paid.of_eq (by rw [hconsumer]) hcredits)

theorem calm_of_frame (h : Paying charge stream pauses s) (hframe : s.frame = none) :
    Calm stream s := by
  by_contra hcall
  have hnone := h.calls hcall
  rw [hframe] at hnone
  cases hnone

theorem owes_of_frame (h : Paying charge stream pauses s) (hframe : s.frame = none) :
    Owes charge stream pauses 0 s := by
  have hpaid := h.paid
  rwa [hframe] at hpaid

theorem listen (h : Paying charge stream pauses s) (hsound : Sound U s) (other : ℕ) :
    Paying charge stream pauses (s.listen other) := by
  have hlistened := listened (hsound.standings.standing other).fresh
  generalize s.listen other = t at hlistened
  cases hlistened with
  | nothing => exact h
  | refused hfresh hclosed =>
    have htouch := Touches.set s other (Consumer.refuse s.refusal)
    refine h.of_owes rfl (htouch.callback fun hsame ↦ by rw [hfresh]; rfl) ?_
    refine h.paid.touch htouch rfl fun hsame ↦ ?_
    have hpaid := h.paid
    rw [Owes, ← hsame, hfresh] at hpaid
    rw [← hsame]
    exact ⟨hpaid.law, fun hne ↦ absurd rfl hne, fun hopen ↦ by cases hopen⟩
  | accepted sessionId input hfresh hclosed =>
    set u : Isolate :=
      { s with streams := s.streams ++ [other] }.post (.generate other sessionId input) with hu
    have hcredits : creditsIn stream u.posted = creditsIn stream s.posted := creditsIn_post ..
    have hbefore : Paying charge stream pauses u := h.of_eq rfl rfl hcredits
    have htouch := Touches.set u other { controller := (StreamController.listen {}).leave.1 }
    refine hbefore.of_owes rfl (htouch.callback fun hsame ↦ ?_) ?_
    · rw [show u.consumer other = s.consumer other from rfl, hfresh]
      rfl
    · refine hbefore.paid.touch htouch rfl fun hsame ↦ ?_
      have hpaid := hbefore.paid
      rw [Owes, ← hsame, show u.consumer other = s.consumer other from rfl, hfresh] at hpaid
      rw [← hsame]
      exact ⟨hpaid.law, fun hne ↦ absurd rfl hne, fun _ hne ↦ absurd rfl hne⟩

theorem call (h : Paying charge stream pauses s) (hsound : Sound U s) {c : Call}
    (htimely : charge = 0 → Timely stream s (.call c)) :
    Paying charge stream (pauses + Action.pausesOf stream (.call c)) (s.call c) := by
  have hposted (m : Posted) (hm : m.isCreditOf stream = false) {u : Isolate}
      (hu : u.posted = s.posted) :
        creditsIn stream (u.post m).posted = creditsIn stream s.posted := by
    rw [creditsIn_post, hm, hu]
    rfl
  cases c with
  | request r =>
    simp only [Isolate.call, Isolate.request]
    split_ifs
    · exact h
    · exact h
    · exact h.of_eq rfl rfl (hposted _ rfl rfl)
  | stream sessionId input => exact h.of_eq rfl rfl rfl
  | listen other => exact h.listen hsound other
  | pause other =>
    have htouch := Touches.set s other
      { s.consumer other with controller := (s.consumer other).controller.pause }
    refine h.of_owes rfl (htouch.callback fun _ ↦ StreamController.pause_callback _) ?_
    have hpaid : Owes charge stream (pauses + Action.pausesOf stream (.call (.pause other)))
        (unpaid stream s.frame) s := Consumer.Paid.mono h.paid le_rfl (Nat.le_add_right ..)
    refine hpaid.touch htouch rfl fun hsame ↦ ?_
    subst hsame
    rw [Action.pausesOf, if_pos rfl]
    exact Consumer.Paid.pause h.paid
  | resume other =>
    have htouch := touches_resumed s other (s.consumer other).controller.resume.1
      (s.consumer other).controller.resume.2
    have hk (hsame : other = stream) : Consumer.Paid charge (creditsIn stream s.posted +
        (s.wants stream && (s.consumer other).controller.resume.2).toNat) pauses
          (unpaid stream s.frame)
          { s.consumer other with controller := (s.consumer other).controller.resume.1 } := by
      subst hsame
      exact Consumer.Paid.resume h.paid (Bool.toNat_le_toNat (Bool.and_le_right _ _))
        fun hcharge hn ↦ htimely hcharge (by simpa [resumes] using hn)
    exact h.of_owes (core_eq frame (fun _ ↦ rfl) htouch.core)
      (htouch.callback fun _ ↦ StreamController.resume_callback _) (h.paid.resumed hk)
  | cancel other =>
    have htouch := touches_ended s other (s.consumer other).controller.cancel.1
      (s.consumer other).controller.cancel.2
    refine h.of_owes (core_eq frame (fun _ ↦ rfl) htouch.core)
      (htouch.callback fun _ ↦ StreamController.cancel_callback _) (h.paid.ended _ fun hsame ↦ ?_)
    subst hsame
    exact Consumer.Paid.cancel h.paid
  | close =>
    simp only [Isolate.call, Isolate.close]
    split_ifs with hfuture hclosed
    · exact h
    · exact h.of_eq rfl rfl rfl
    · rw [Isolate.request, if_neg (by simpa using hclosed)]
      exact h.of_eq rfl rfl (hposted _ rfl rfl)
  | crashForTesting => exact h.of_eq rfl rfl (hposted _ rfl rfl)

theorem proceed (h : Paying charge stream pauses s) (hsound : Sound U s) {frame : Frame}
    (hframe : s.frame = some frame) (htimely : charge = 0 → Timely stream s .returned) :
    Paying charge stream pauses ({ s with frame := none }.proceed frame) := by
  set u : Isolate := { s with frame := none } with hu
  have hpaid : Owes charge stream pauses (unpaid stream (some frame)) u := hframe ▸ h.paid
  have hfree (hcharge : charge = 0) (hsame : frame.stream = stream)
      (hresumed : (s.wants stream && (s.consumer stream).controller.leave.2) = true) :
      creditsIn stream s.posted + unpaid stream (some frame) < (s.consumer stream).heard := by
    have huncredited := htimely hcharge (by simpa [resumes, hframe, hsame] using hresumed)
    rwa [Uncredited, hframe] at huncredited
  have hleft := hpaid.leave frame.stream hfree
  have htouch := touches_leave u frame.stream
  have hcalm : Calm stream (u.leave frame.stream) := by
    by_cases hsame : frame.stream = stream
    · rw [Calm, ← hsame, htouch.self]
      exact StreamController.leave_callback _
    · rw [Calm, htouch.consumer, Function.update_of_ne (Ne.symm hsame)]
      by_contra hcall
      have hcalls := h.calls hcall
      rw [hframe] at hcalls
      exact hsame (Option.some.inj hcalls)
  have hnone : (u.leave frame.stream).frame = none :=
    core_eq Isolate.frame (fun _ ↦ rfl) htouch.core
  have hquiet {t : Isolate} {c : Consumer} (ht : Touches (u.leave frame.stream) frame.stream c t)
      (hc : c.controller.callback =
        ((u.leave frame.stream).consumer frame.stream).controller.callback)
      (howes : Owes charge stream pauses 0 t) : Paying charge stream pauses t :=
    .of_touch hcalm ht ((core_eq Isolate.frame (fun _ ↦ rfl) ht.core).trans hnone)
      (fun _ ↦ hc) howes
  -- the consumer whose stream has ended knows so already
  have hfinished (hsubject : s.subject = some frame.stream) :
      ((u.leave frame.stream).consumer frame.stream).finished = true := by
    rw [htouch.self]
    exact ((hsound.standings.standing frame.stream).ending hsubject).1.finished
  cases frame with
  | dispatching other => exact hquiet (.refl _ _) rfl hleft
  | receiving other terminal =>
    have hreceived := touches_received (u.leave other) other terminal
    cases terminal with
    | false => exact hquiet hreceived rfl (Owes.received hleft)
    | true =>
      rw [if_pos rfl] at hreceived
      refine hquiet hreceived ?_ (hleft.settle fun _ ↦ hfinished (by rw [subject, hframe]; rfl))
      unfold doneOnce
      split_ifs <;> exact StreamController.close_callback _
  | ending failure other rest =>
    have hended := touches_finished (u.leave other) other
    refine endStreams_paying failure rest
      (hleft.settle fun _ ↦ hfinished (by rw [subject, hframe]; rfl)) ?_
      ((core_eq Isolate.frame (fun _ ↦ rfl) hended.core).trans hnone)
    refine (hended.callback fun _ ↦ ?_).trans hcalm
    unfold doneOnce
    split_ifs <;> exact StreamController.close_callback _

theorem receive_token (h : Paying charge stream pauses s) (hframe : s.frame = none)
    (hlive : Consumer.Live (U other) (s.consumer other)) {event : Event}
    (htoken : isToken event = true)
    (hcancelled : (s.consumer other).cancelled = false) :
    Paying charge stream pauses (if (s.add other event).2 then
        { (s.add other event).1 with frame := some (.receiving other false) }
      else (s.add other event).1.received other false) := by
  have hcalm := h.calm_of_frame hframe
  have howes := h.owes_of_frame hframe
  have hadd := touches_add s other event
  have hframe' {t : Isolate} {c : Consumer} (ht : Touches s other c t) : t.frame = none :=
    (core_eq frame (fun _ ↦ rfl) ht.core).trans hframe
  by_cases hsame : other = stream
  · have hadded : (s.add other event).2 = true ∧
          (added event (s.consumer other)).Paid charge (creditsIn stream s.posted) pauses 1 ∨
        (s.add other event).2 = false ∧
          (added event (s.consumer other)).controller.isPaused = true ∧
          (added event (s.consumer other)).Paid charge (creditsIn stream s.posted) pauses 0 := by
      subst hsame
      have hadded :=
        Consumer.Paid.add howes hlive.listened (hlive.linked.symm.trans hcancelled) hcalm
        hlive.finished event
      rwa [htoken] at hadded
    rcases hadded with ⟨hfired, hpaid⟩ | ⟨hheld, hpaused, hpaid⟩
    · rw [if_pos hfired]
      refine .of_fired hcalm hadd rfl ?_
      rw [unpaid, if_pos hsame]
      subst hsame
      rwa [Owes, hadd.self]
    · have hpaused' : ((s.add other event).1.consumer other).controller.isPaused = true := by
        rwa [hadd.self]
      rw [if_neg (by simp [hheld]), received, if_neg Bool.false_ne_true,
        if_neg (by simp [hpaused'])]
      exact .of_touch hcalm hadd (hframe' hadd) (fun _ ↦ StreamController.add_callback _ _ hheld)
        (howes.touch hadd rfl fun _ ↦ hpaid)
  · have hadded : Owes charge stream pauses 0 (s.add other event).1 :=
      howes.touch hadd rfl fun h ↦ absurd h hsame
    split_ifs
    · refine .of_fired hcalm hadd rfl ?_
      rwa [unpaid, if_neg hsame]
    · have hreceived := hadd.trans (touches_received (s.add other event).1 other false)
      refine .of_touch hcalm hreceived (hframe' hreceived) (fun h ↦ absurd h hsame)
        (Owes.received ?_)
      rwa [if_neg hsame]

theorem receive_last (h : Paying charge stream pauses s) (hframe : s.frame = none) {event : Event}
    (hevent : isToken event = false) :
    Paying charge stream pauses (if ((s.finish other).consumer other).cancelled then
        (s.finish other).completeDoneOnce other
      else if ((s.finish other).add other event).2 then
        { ((s.finish other).add other event).1 with frame := some (.receiving other true) }
      else ((s.finish other).add other event).1.received other true) := by
  have hcalm := h.calm_of_frame hframe
  have hfinished := (h.owes_of_frame hframe).finish other
  have hfinish := touches_finish s other
  have hframe' {t : Isolate} {c : Consumer} (ht : Touches s other c t) : t.frame = none :=
    (core_eq frame (fun _ ↦ rfl) ht.core).trans hframe
  have hadd := hfinish.and (touches_add _ other event)
  have hadded : Owes charge stream pauses 0 ((s.finish other).add other event).1 :=
    hfinished.touch (touches_add _ other event) rfl fun hsame ↦ by
      subst hsame
      exact Consumer.Paid.addLast hfinished hevent (by rw [hfinish.self])
  split_ifs with hcancelled hfired
  · have hdone := hfinish.and (touches_completeDoneOnce _ other)
    refine .of_touch hcalm hdone (hframe' hdone) (fun _ ↦ ?_) (hfinished.completeDoneOnce other)
    unfold doneOnce
    split_ifs <;> rfl
  · exact .of_fired hcalm hadd rfl hadded
  · have hended := hadd.and (f := fun c ↦ doneOnce c.close) (touches_finished _ other)
    have hunfired : ((s.consumer other).controller.add event).2 = false := by
      simpa [Isolate.add, hfinish.self] using hfired
    refine .of_touch hcalm hended (hframe' hended) (fun _ ↦ ended_callback hunfired)
      (hadded.settle fun _ ↦ ?_)
    rw [hadd.self]
    rfl

theorem receive (h : Paying charge stream pauses s) (hsound : Sound U s) (hframe : s.frame = none)
    (message : Worker.Outgoing) : Paying charge stream pauses (s.receive message) := by
  cases message with
  | reply request result =>
    cases request with
    | none => exact h
    | some id =>
      rw [Isolate.receive]
      split_ifs
      · exact h.of_eq rfl rfl rfl
      · exact h
  | event other e =>
    rw [Isolate.receive]
    by_cases hmem : other ∈ s.streams
    · rw [if_pos hmem]
      cases htoken : e.isToken with
      | true =>
        dsimp only
        rw [Bool.not_true, if_neg Bool.false_ne_true]
        by_cases hcancelled : (s.consumer other).cancelled = true
        · rw [if_pos hcancelled, if_neg Bool.false_ne_true]
          exact h
        · have hstandings := (standings_iff (by rw [Isolate.ending, hframe])).mp hsound.standings
          rw [if_neg hcancelled]
          exact h.receive_token hframe ((hstandings.standing other).live hmem)
            ((toEvent_isToken e).trans htoken) (by simpa using hcancelled)
      | false =>
        dsimp only
        rw [Bool.not_false, if_pos rfl]
        have hbefore :
            Paying charge stream pauses { s with streams := s.streams.filter (· ≠ other) } :=
          h.of_eq rfl rfl rfl
        exact hbefore.receive_last hframe ((toEvent_isToken e).trans htoken)
    · rw [if_neg hmem]
      exact h

theorem exit (h : Paying charge stream pauses s) (hframe : s.frame = none)
    (detail : Option String) : Paying charge stream pauses (s.workerEnded detail) := by
  rw [Isolate.workerEnded]
  split_ifs
  · exact h
  · have hfailed (ids : List ℕ) (result : Except Failure Worker.Value) : ∀ s : Isolate,
        Paying charge stream pauses s → s.frame = none →
          Paying charge stream pauses (ids.foldl (fun s id ↦ s.complete id result) s) ∧
            (ids.foldl (fun s id ↦ s.complete id result) s).frame = none := by
      induction ids with
      | nil => exact fun _ h hframe ↦ ⟨h, hframe⟩
      | cons id ids ih => exact fun s h hframe ↦ ih _ (h.of_eq rfl rfl rfl) hframe
    obtain ⟨hpaying, hframe'⟩ := hfailed s.pending
      (.error (.workerFailure (workerFailureText detail)))
      { s with closed := true, workerFailure := some (.workerFailure (workerFailureText detail)) }
      (h.of_eq rfl rfl rfl) hframe
    exact endStreams_paying _ _ (hpaying.owes_of_frame hframe')
      (hpaying.calm_of_frame hframe') hframe'

theorem step (h : Paying charge stream pauses s) (hsound : Sound U s) {a : Action}
    (htimely : charge = 0 → Timely stream s a) (ht : s.step a = some t) :
    Paying charge stream (pauses + a.pausesOf stream) t := by
  cases a with
  | call c =>
    obtain rfl := Option.some.inj ht
    exact h.call hsound htimely
  | returned =>
    simp only [Isolate.step] at ht
    split at ht
    · next frame hframe =>
      obtain rfl := Option.some.inj ht
      exact h.proceed hsound hframe htimely
    · cases ht
  | receive message =>
    simp only [Isolate.step] at ht
    split_ifs at ht with hready
    obtain rfl := Option.some.inj ht
    exact h.receive hsound (by simpa using (Bool.and_eq_true_iff.mp hready).1) message
  | exit detail =>
    simp only [Isolate.step] at ht
    split_ifs at ht with hready
    obtain rfl := Option.some.inj ht
    exact h.exit (by simpa using (Bool.and_eq_true_iff.mp hready).1) detail
  | dispatch other =>
    simp only [Isolate.step] at ht
    split_ifs at ht with hready
    have hframe : s.frame = none := by simpa using hready
    have howes := h.owes_of_frame hframe
    have hcalm := h.calm_of_frame hframe
    split at ht
    · next k hnext =>
      obtain rfl := Option.some.inj ht
      have htouch := touches_ended s other k true
      refine .of_touch hcalm htouch ((core_eq frame (fun _ ↦ rfl) htouch.core).trans hframe)
        (fun _ ↦ StreamController.next_callback hnext) (howes.ended true fun hsame ↦ ?_)
      subst hsame
      exact Consumer.Paid.next howes hnext
    · next k hnext =>
      obtain rfl := Option.some.inj ht
      have htouch := Touches.set s other { s.consumer other with controller := k }
      refine .of_fired hcalm htouch rfl (howes.touch htouch rfl fun hsame ↦ ?_)
      subst hsame
      exact Consumer.Paid.next howes hnext
    · cases ht
  | closed =>
    simp only [Isolate.step] at ht
    split at ht
    · split_ifs at ht
      obtain rfl := Option.some.inj ht
      exact h.of_eq rfl rfl rfl
    · split_ifs at ht
      obtain rfl := Option.some.inj ht
      exact h.of_eq rfl rfl rfl
    · cases ht

end Paying

end Isolate

end LibLitertLm.Backend
