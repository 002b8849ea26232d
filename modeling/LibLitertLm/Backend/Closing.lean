import LibLitertLm.Backend.Native
import LibLitertLm.Backend.Settlement
import LibLitertLm.Worker.Replies

namespace LibLitertLm.Backend

open Worker (NativeWorker Outgoing)

variable {rt : Worker.Runtime} {U : ℕ → Prop} {id : ℕ}

theorem pays_eq_reply {m : Outgoing} : pays m = some (.reply id) ↔ m.answers = some id := by
  cases m with
  | reply request result => cases request <;> simp [pays, Outgoing.answers]
  | event stream e => cases h : e.isToken <;> simp [pays, Outgoing.answers, h]

theorem pays_terminal {stream : ℕ} {e : Worker.Event} (h : e.isToken = false) :
    pays (.event stream e) = some (.terminal stream) := by
  simp [pays, h]

theorem Posted.asks_iff {m : Posted} : m.asks = some id ↔ m.due = some (.reply id) := by
  cases m <;> simp [Posted.asks, Posted.due]

theorem Posted.starts_iff {m : Posted} {stream : ℕ} :
    m.starts = some stream ↔ m.due = some (.terminal stream) := by
  cases m <;> simp [Posted.starts, Posted.due]

theorem Posted.command_fst (a : Answers) (m : Posted) : (m.command a).1 = m.asks := by
  cases m <;> rfl

theorem Posted.action_close {a : Answers} {m : Posted} {request : Option ℕ}
    (h : m.action a = .command request .close) : ∃ id, m = .close id := by
  cases m with
  | close id => exact ⟨id, rfl⟩
  | request id r => cases r <;> simp [Posted.action, Posted.command, Request.command] at h
  | _ => simp [Posted.action, Posted.command] at h

theorem Posted.command_replies (a : Answers) (m : Posted) :
    (m.command a).2.replies = false → (m.command a).1 = none := by
  cases m with
  | request id request =>
    cases request <;> simp [Posted.command, Request.command, Worker.Command.replies]
  | close id => simp [Posted.command, Worker.Command.replies]
  | _ => exact fun _ ↦ rfl

namespace Peer

def sends (p : Peer) (messages : List Outgoing) : Peer := messages.foldl send p

theorem sends_spec (p : Peer) (messages : List Outgoing) :
    (p.sends messages).seen = p.seen ∧ (p.sends messages).sent = p.sent ++ messages ∧
      ∀ k, k ∈ (p.sends messages).owed ↔ k ∈ p.owed ∧ ∀ m ∈ messages, pays m ≠ some k := by
  induction messages generalizing p with
  | nil => simp [sends]
  | cons m messages ih =>
    obtain ⟨hseen, hsent, howed⟩ := ih (p.send m)
    refine ⟨hseen, hsent.trans (by simp [send]), fun k ↦ (howed k).trans ?_⟩
    simp [send, and_assoc]

end Peer

theorem Peer.sends_append (p : Peer) (messages messages' : List Outgoing) :
    p.sends (messages ++ messages') = (p.sends messages).sends messages' := List.foldl_append

theorem Linked.send {p : World Peer} (h : Linked U p) {m : Outgoing} (hm : p.worker.Answers m) :
    Linked U { p with worker := p.worker.send m } := by
  have hanswering : Answering p (.act m) := hm
  exact h.step (by simp) hanswering (.act m)

/-- What answers nothing can be sent at any time. -/
theorem Linked.sends {p : World Peer} (h : Linked U p) {messages : List Outgoing}
    (hmute : ∀ m ∈ messages, m.answers = none) :
    Linked U { p with worker := p.worker.sends messages } := by
  induction messages generalizing p with
  | nil => exact h
  | cons m messages ih =>
    have hm : p.worker.Answers m := by
      intro id hid
      cases (hmute m List.mem_cons_self).symm.trans (pays_eq_reply.mp hid)
    exact ih (h.send hm) fun m' hm' ↦ hmute m' (List.mem_cons_of_mem _ hm')

namespace Isolate

variable {s t : Isolate}

/-- How the backend gets closed, as long as its worker is not gone. -/
structure Closing (s : Isolate) : Prop where
  shut : s.closed = true → s.workerFailure = none → s.closeFuture = some .completed
  through : s.workerFailure = none → ∀ f ∈ s.closeFuture, f.through = true →
    ∃ id, .close id ∈ s.posted ∧ s.results id ≠ []

namespace Closing

theorem init : Closing {} := ⟨by simp, by simp⟩

theorem of_account (h : Closing s) (haccount : t.account = s.account)
    (hposted : s.posted <+: t.posted) :
    Closing t := by
  have hfuture : t.closeFuture = s.closeFuture :=
    field_eq account closeFuture (fun _ ↦ rfl) haccount
  have hfailure : t.workerFailure = s.workerFailure :=
    field_eq account workerFailure (fun _ ↦ rfl) haccount
  refine ⟨fun hclosed hnone ↦ ?_, fun hnone f hf hthrough ↦ ?_⟩
  · rw [hfuture]
    exact h.shut ((field_eq account closed (fun _ ↦ rfl) haccount).symm.trans hclosed)
      (hfailure.symm.trans hnone)
  · rw [hfuture] at hf
    obtain ⟨id, hid, hresult⟩ := h.through (hfailure.symm.trans hnone) f hf hthrough
    refine ⟨id, hposted.subset hid, ?_⟩
    rwa [field_eq account results (fun _ ↦ rfl) haccount]

theorem change (h : Closing s) (hledger : Ledger s) (hchange : Change s t) : Closing t := by
  have hposted := hchange.grows.posted
  cases hchange with
  | quiet haccount => exact h.of_account haccount hposted
  | created => exact ⟨h.shut, h.through⟩
  | listened _ _ haccount => exact h.of_account haccount hposted
  | asked request _ hopen =>
    refine ⟨fun hclosed ↦ ?_, fun hnone f hf hthrough ↦ ?_⟩
    · cases hopen.symm.trans hclosed
    · obtain ⟨id, hid, hresult⟩ := h.through hnone f hf hthrough
      exact ⟨id, hposted.subset hid, hresult⟩
  | closing _ hopen =>
    refine ⟨fun hclosed ↦ ?_, fun _ f hf hthrough ↦ ?_⟩
    · cases hopen.symm.trans hclosed
    · obtain rfl : CloseFuture.awaiting _ = f := Option.some.inj hf
      cases hthrough
  | late hfuture hclosed =>
    -- it is closed and `close` was never called: the worker is gone
    refine ⟨fun _ hnone ↦ ?_, fun hnone ↦ ?_⟩
    · cases hfuture.symm.trans (h.shut hclosed hnone)
    · cases hfuture.symm.trans (h.shut hclosed hnone)
  | returned hfuture =>
    refine ⟨fun _ _ ↦ rfl, fun hnone f _ _ ↦ ?_⟩
    obtain ⟨id, hid, hresult⟩ := h.through hnone .returned hfuture rfl
    exact ⟨id, hid, hresult⟩
  | @closed id hfuture hresult =>
    exact ⟨fun _ _ ↦ rfl, fun _ _ _ _ ↦ ⟨id, hledger.future id hfuture, hresult⟩⟩
  | @failed t failure results _ _ haccount =>
    have hfailure : t.workerFailure = some failure :=
      field_eq account workerFailure (fun _ ↦ rfl) haccount
    refine ⟨fun _ hnone ↦ ?_, fun hnone ↦ ?_⟩
    · cases hfailure.symm.trans hnone
    · cases hfailure.symm.trans hnone

end Closing

/-- A message of the worker completes what it answers. -/
theorem Sound.results_receive (h : Sound U s) (hframe : s.frame = none) (m : Outgoing) :
    ∀ id result, result ∈ (s.receive m).results id → result ∈ s.results id ∨
      m = .reply (some id) result := by
  intro id result hresult
  cases m with
  | event stream e =>
    have heq := field_eq account results (fun _ ↦ rfl) (receive_event h hframe stream e).account
    rw [heq] at hresult
    exact .inl hresult
  | reply request value =>
    cases request with
    | none => exact .inl hresult
    | some other =>
      simp only [Isolate.receive] at hresult
      split_ifs at hresult
      · by_cases hsame : id = other
        · subst hsame
          simp only [complete, Function.update_self, List.mem_append, List.mem_singleton] at hresult
          exact hresult.imp_right fun hvalue ↦ by rw [hvalue]
        · simp only [complete, Function.update_of_ne hsame] at hresult
          exact .inl hresult
      · exact .inl hresult

theorem Closing.receive (h : Closing s) (hsound : Sound U s) (hframe : s.frame = none)
    (m : Outgoing) :
    Closing (s.receive m) := by
  cases m with
  | event stream e =>
    have hheard := receive_event hsound hframe stream e
    obtain ⟨more, hmore, -⟩ := hheard.posted
    exact h.of_account hheard.account ⟨more, hmore.symm⟩
  | reply request value =>
    cases request with
    | none => exact h
    | some other =>
      simp only [Isolate.receive]
      split_ifs
      · refine ⟨h.shut, fun hnone f hf hthrough ↦ ?_⟩
        obtain ⟨id, hid, hresult⟩ := h.through hnone f hf hthrough
        refine ⟨id, hid, ?_⟩
        by_cases hsame : id = other
        · subst hsame
          simp [complete]
        · simpa [complete, hsame] using hresult
      · exact h

/-- Only the end of the worker completes a request by itself. -/
theorem Change.results (h : Change s t) (hnone : t.workerFailure = none) :
    s.workerFailure = none ∧ t.results = s.results := by
  cases h with
  | quiet haccount =>
    exact ⟨(field_eq account workerFailure (fun _ ↦ rfl) haccount).symm.trans hnone,
      field_eq account Isolate.results (fun _ ↦ rfl) haccount⟩
  | listened _ _ haccount =>
    exact ⟨(field_eq account workerFailure (fun _ ↦ rfl) haccount).symm.trans hnone,
      field_eq account Isolate.results (fun _ ↦ rfl) haccount⟩
  | @failed t failure results _ _ haccount =>
    have hfailure : t.workerFailure = some failure :=
      field_eq account workerFailure (fun _ ↦ rfl) haccount
    cases hfailure.symm.trans hnone
  | _ => exact ⟨hnone, rfl⟩

end Isolate

def World.peer (w : World NativeWorker) (owed : List Due) : World Peer :=
  ⟨w.isolate, ⟨w.seen, owed, w.worker.messages⟩, w.taken, w.read⟩

/-- The worker answers what it takes: what it owes is the ends of the streams
that it works for. -/
structure Serving (U : ℕ → Prop) (owed : List Due) (w : World NativeWorker) : Prop where
  joined : Joined U w
  linked : Linked U (w.peer owed)
  owed : w.worker.state.fatalExit = false →
    ∀ k ∈ owed, ∃ stream ∈ w.worker.state.operations, k = .terminal stream
  placed : w.worker.state.fatalExit = false → Worker.Placed (started w.seen) w.worker
  closed : w.worker.state.commandsClosed = true → ∃ id, .close id ∈ w.seen
  replied : ∀ id, .close id ∈ w.seen → ∀ m ∈ w.worker.messages, m.answers = some id →
    w.worker.state.commandsClosed = true

namespace Serving

variable {w w' : World NativeWorker} {owed : List Due} {t : NativeWorker} {m : Posted}

theorem init : Serving U [] (nativeParty rt).system.init :=
  ⟨joined_init, .init, by simp, fun _ ↦ Worker.placed_init, (fun h ↦ by cases h),
    by simp [World.seen, Party.system]⟩

/-- What the worker took before it closed asked for nothing after that. -/
theorem light_of_closed (h : Serving U owed w) (hm : w.isolate.posted[w.taken]? = some m)
    (hclosed : w.worker.state.commandsClosed = true) : m.light = true := by
  obtain ⟨id, hid⟩ := h.closed hclosed
  have hlast : (w.seen ++ [m]).Pairwise fun m m' ↦ m.isClose = true → m'.light = true := by
    rw [World.seen, ← Option.toList_some, ← hm, ← List.take_add_one]
    exact h.joined.fit.ledger.last.sublist (List.take_sublist ..)
  rw [List.pairwise_append] at hlast
  exact hlast.2.2 _ hid m (List.mem_singleton_self m) rfl

/-- The reply to `close` was sent after the worker had taken it. -/
theorem seen_of_answer (h : Serving U owed w) (hclose : .close id ∈ w.isolate.posted) {m : Outgoing}
    (hm : m ∈ w.worker.messages) (hid : m.answers = some id) : .close id ∈ w.seen := by
  have hseen := h.linked.replies m hm id (pays_eq_reply.mpr hid)
  obtain ⟨m', hm', hasks⟩ := List.mem_filterMap.mp (reply_mem_due.mp hseen)
  obtain rfl := h.joined.fit.ledger.unique (List.mem_of_mem_take hm') hclose hasks rfl
  exact hm'

/-- The main isolate goes on; the worker takes nothing. -/
theorem aside (h : Serving U owed w) {s : Isolate} {read : ℕ}
    (hposted : w.isolate.posted <+: s.posted)
    (hjoined : Joined U { w with isolate := s, read := read })
    (hlinked : Linked U { w.peer owed with isolate := s, read := read }) :
    Serving U owed { w with isolate := s, read := read } := by
  have hseen := h.joined.seen_eq hposted read
  refine ⟨hjoined, ?_, h.owed, ?_, ?_, ?_⟩
  · rw [World.peer, hseen]
    exact hlinked
  · rw [hseen]
    exact h.placed
  · rw [hseen]
    exact h.closed
  · rw [hseen]
    exact h.replied

theorem live_of_unpaid (h : Serving U owed w) (hf : w.worker.state.fatalExit = false)
    {asked : List ℕ} (ht : Worker.Placed asked t) {stream : ℕ} (hstream : stream ∈ asked)
    (hopen : stream ∈ w.worker.state.operations ∨ stream ∉ started w.seen) {more : List Outgoing}
    (hmore : t.messages = w.worker.messages ++ more)
    (hunpaid : ∀ m ∈ more, pays m ≠ some (.terminal stream)) : stream ∈ t.state.operations := by
  rcases ht.live_or_told hstream hmore ((h.placed hf).tokens hopen) with hlive | ⟨e, he, hmem⟩
  · exact hlive
  · exact absurd (pays_terminal he) (hunpaid _ hmem)

theorem peer_sends {more : List Outgoing} (hmore : t.messages = w.worker.messages ++ more) :
    { w with worker := t }.peer ((w.peer owed).worker.sends more).owed =
      { w.peer owed with worker := (w.peer owed).worker.sends more } := by
  obtain ⟨hseen, hsent, -⟩ := (w.peer owed).worker.sends_spec more
  have hpeer : (w.peer owed).worker.sends more =
      ⟨w.seen, ((w.peer owed).worker.sends more).owed, t.messages⟩ := by
    calc (w.peer owed).worker.sends more = ⟨((w.peer owed).worker.sends more).seen,
          ((w.peer owed).worker.sends more).owed, ((w.peer owed).worker.sends more).sent⟩ := rfl
      _ = _ := by
        rw [hseen, hsent, hmore]
        rfl
  exact congrArg (fun p ↦ { w.peer owed with worker := p }) hpeer.symm

/-- The worker does something by itself. -/
theorem act (h : Serving U owed w) (work : Work)
    (hjoined : Joined U { w with worker := Worker.step rt w.worker work.action }) :
    ∃ owed', Serving U owed' { w with worker := Worker.step rt w.worker work.action } := by
  have hclose (request : Option ℕ) :
    work.action ≠ .command request .close := by cases work <;> simp [Work.action]
  obtain ⟨more, hmore, hmute⟩ :=
    (@Worker.Mute.turn rt _ h.joined.sound.consistent work.action
      (by simp [work.said_action])).messages
  have hturn := @Worker.step_turn rt _ h.joined.sound.consistent work.action
  set t := Worker.step rt w.worker work.action with ht
  have hplaced (hf : t.state.fatalExit = false) : Worker.Placed (started w.seen) t := by
    have hplaced :=
      @Worker.Placed.turn rt _ _ (h.placed (hturn.fatalExit.1 hf)) h.joined.sound.consistent
      work.action (by simp [work.asks_action]) (by simp [work.asks_action]) hf
    rwa [work.asks_action, Option.toList_none, List.append_nil] at hplaced
  have hclosed (hc : t.state.commandsClosed = true) : w.worker.state.commandsClosed = true := by
    rcases hturn.commandsClosed.2.1 hc with hc | ⟨request, heq⟩
    · exact hc
    · exact absurd heq (hclose request)
  refine ⟨((w.peer owed).worker.sends more).owed, hjoined, ?_, fun hf k hk ↦ ?_, hplaced,
    fun hc ↦ h.closed (hclosed hc), fun id hid m hm hanswers ↦ ?_⟩
  · rw [peer_sends hmore]
    exact h.linked.sends hmute
  · obtain ⟨hk, hunpaid⟩ := (((w.peer owed).worker.sends_spec more).2.2 k).mp hk
    obtain ⟨stream, hlive, rfl⟩ := h.owed (hturn.fatalExit.1 hf) k hk
    exact ⟨stream,
      h.live_of_unpaid (hturn.fatalExit.1 hf) (hplaced hf) (h.joined.sound.asked stream hlive)
      (.inl hlive) hmore hunpaid, rfl⟩
  · have hm : m ∈ t.messages := hm
    rw [hmore] at hm
    rcases List.mem_append.mp hm with hm | hm
    · exact hturn.commandsClosed.1 (h.replied id hid m hm hanswers)
    · cases (hmute m hm).symm.trans hanswers

theorem linked_take (h : Serving U owed w) (hm : w.isolate.posted[w.taken]? = some m) :
    Linked U ({ w with taken := w.taken + 1 }.peer (owed ++ m.due.toList)) := by
  have hanswering : Answering (w.peer owed) (.take ()) := trivial
  have hlinked := h.linked.step (by simp) hanswering (.take hm)
  have hseen : { w with taken := w.taken + 1 }.seen = w.seen ++ [m] :=
    World.seen_take (t := w.worker) hm
  rw [World.peer, hseen]
  exact hlinked

theorem take_deaf (h : Serving U owed w) (hm : w.isolate.posted[w.taken]? = some m)
    (hd : w.worker.state.deaf = true) (hjoined : Joined U { w with taken := w.taken + 1 }) :
    Serving U (owed ++ m.due.toList) { w with taken := w.taken + 1 } := by
  have hseen : { w with taken := w.taken + 1 }.seen = w.seen ++ [m] :=
    World.seen_take (t := w.worker) hm
  have hlight (hf : w.worker.state.fatalExit = false) : m.light = true := by
    refine h.light_of_closed hm ?_
    rwa [Worker.State.deaf, hf, Bool.false_or] at hd
  refine ⟨hjoined, h.linked_take hm, fun hf k hk ↦ ?_, fun hf ↦ ?_, fun hc ↦ ?_,
    fun id hid m' hm' hanswers ↦ ?_⟩
  · rw [due_of_light (hlight hf), Option.toList_none, List.append_nil] at hk
    exact h.owed hf k hk
  · have hnone : started [m] = [] := Isolate.started_of_light (by simpa using hlight hf)
    rw [hseen, started_append, hnone, List.append_nil]
    exact h.placed hf
  · obtain ⟨id, hid⟩ := h.closed hc
    exact ⟨id, hseen ▸ List.mem_append_left _ hid⟩
  · have hclose : .close id ∈ w.isolate.posted := List.mem_of_mem_take hid
    exact h.replied id (h.seen_of_answer hclose hm' hanswers) m' hm' hanswers

theorem close_taken (h : Serving U owed w) (hm : w.isolate.posted[w.taken]? = some m)
    (hmem : .close id ∈ w.seen ++ [m]) (hasks : m.asks = some id) : m = .close id := by
  have hseen : { w with taken := w.taken + 1 }.seen = w.seen ++ [m] :=
    World.seen_take (t := w.worker) hm
  have hposted : .close id ∈ w.isolate.posted := List.mem_of_mem_take (hseen.symm ▸ hmem)
  exact h.joined.fit.ledger.unique (List.mem_of_getElem? hm) hposted hasks rfl

theorem placed_heard (h : Serving U owed w) (hm : w.isolate.posted[w.taken]? = some m)
    (hd : w.worker.state.deaf = false) (a : Answers)
    (hf : (Worker.step rt w.worker (m.action a)).state.fatalExit = false) :
    Worker.Placed (started w.seen ++ m.starts.toList) (Worker.step rt w.worker (m.action a)) := by
  have hbefore : w.worker.state.fatalExit = false := (Bool.or_eq_false_iff.mp hd).1
  have hnew : (m.action a).asks = m.starts := m.asks_action a
  have hplaced :=
    @Worker.Placed.turn rt _ _ (h.placed hbefore) h.joined.sound.consistent (m.action a)
    (fun _ ↦ hd) (fun stream hstream ↦ h.joined.starts_fresh hm a stream (hnew ▸ hstream)) hf
  rwa [hnew] at hplaced

/-- What a worker that listens owed, or is asked for now, is the end of a stream
that it works for, or was sent. -/
theorem owed_heard (h : Serving U owed w) (hm : w.isolate.posted[w.taken]? = some m)
    (hd : w.worker.state.deaf = false) (a : Answers) {more : List Outgoing}
    (hmore : (Worker.step rt w.worker (m.action a)).messages = w.worker.messages ++ more)
    (hreply : ∀ id, m.asks = some id → ∃ reply ∈ more, reply.answers = some id)
    (hf : (Worker.step rt w.worker (m.action a)).state.fatalExit = false) {k : Due}
    (hk : k ∈ owed ++ m.due.toList) (hunpaid : ∀ m' ∈ more, pays m' ≠ some k) :
    ∃ stream ∈ (Worker.step rt w.worker (m.action a)).state.operations, k = .terminal stream := by
  have hbefore : w.worker.state.fatalExit = false := (Bool.or_eq_false_iff.mp hd).1
  have hplaced := h.placed_heard hm hd a hf
  rcases List.mem_append.mp hk with hk | hk
  · obtain ⟨stream, hlive, rfl⟩ := h.owed hbefore k hk
    have hstream := List.mem_append_left m.starts.toList (h.joined.sound.asked stream hlive)
    exact ⟨stream, h.live_of_unpaid hbefore hplaced hstream (.inl hlive) hmore hunpaid, rfl⟩
  · have hdue := Option.mem_toList.mp hk
    cases k with
    | reply id =>
      obtain ⟨reply, hmem, hanswers⟩ := hreply id (Posted.asks_iff.mpr hdue)
      exact absurd (pays_eq_reply.mpr hanswers) (hunpaid reply hmem)
    | terminal stream =>
      have hstarts := Posted.starts_iff.mpr hdue
      have hfresh := h.joined.starts_fresh hm a stream hstarts
      refine ⟨stream, h.live_of_unpaid hbefore hplaced ?_ (.inr hfresh) hmore hunpaid, rfl⟩
      exact List.mem_append_right _ (Option.mem_toList.mpr hstarts)

/-- Some messages that answer nothing can be sent, and then the reply; the reply
to `close` when everything else was sent. -/
theorem linked_heard (h : Serving U owed w) (hm : w.isolate.posted[w.taken]? = some m)
    {before : List Outgoing} {last : Option Outgoing} (hmute : ∀ m' ∈ before, m'.answers = none)
    (hanswers : last.bind Outgoing.answers = m.asks)
    (hlast : ∀ id, m = .close id → ∀ k ∈ owed ++ m.due.toList,
      ¬ ∀ m' ∈ before ++ last.toList, pays m' ≠ some k) :
    Linked U { { w with taken := w.taken + 1 }.peer (owed ++ m.due.toList) with
      worker := ({ w with taken := w.taken + 1 }.peer (owed ++ m.due.toList)).worker.sends
        (before ++ last.toList) } := by
  have hmutes := (h.linked_take hm).sends hmute
  rw [Peer.sends_append]
  cases hsome : last with
  | none => exact hmutes
  | some reply =>
    refine hmutes.send fun id hid ↦ ?_
    have hasks : m.asks = some id := by
      rw [hsome, Option.bind_some, pays_eq_reply.mp hid] at hanswers
      exact hanswers.symm
    obtain ⟨hsame, -, howes⟩ :=
      ({ w with taken := w.taken + 1 }.peer (owed ++ m.due.toList)).worker.sends_spec before
    have hseen : { w with taken := w.taken + 1 }.seen = w.seen ++ [m] :=
      World.seen_take (t := w.worker) hm
    have hseen' : (({ w with taken := w.taken + 1 }.peer (owed ++ m.due.toList)).worker.sends
        before).seen = w.seen ++ [m] := hsame.trans hseen
    dsimp only
    rw [hseen']
    refine ⟨reply_mem_due.mpr (List.mem_filterMap.mpr ⟨m, by simp, hasks⟩), fun hclose k hk ↦ ?_⟩
    obtain ⟨hk, hunpaid⟩ := (howes k).mp hk
    by_contra hne
    refine hlast id (h.close_taken hm hclose hasks) k hk fun m' hm' ↦ ?_
    rw [hsome, Option.toList_some, List.mem_append, List.mem_singleton] at hm'
    rcases hm' with hm' | rfl
    · exact hunpaid m' hm'
    · exact fun heq ↦ hne (Option.some.inj (heq.symm.trans hid))

theorem take_heard (h : Serving U owed w) (hm : w.isolate.posted[w.taken]? = some m)
    (hd : w.worker.state.deaf = false) (a : Answers)
    (hjoined :
      Joined U { w with worker := Worker.step rt w.worker (m.action a), taken := w.taken + 1 }) :
    ∃ owed', Serving U owed'
      { w with worker := Worker.step rt w.worker (m.action a), taken := w.taken + 1 } := by
  have hf : w.worker.state.fatalExit = false := (Bool.or_eq_false_iff.mp hd).1
  have hanswered : Worker.Answered (fun _ _ ↦ True) (m.command a).1 w.worker
      (Worker.step rt w.worker (m.action a)) :=
    Worker.step_answered h.joined.sound.consistent hd (m.command_replies a) fun _ _ ↦ trivial
  obtain ⟨before, last, hmore, hmute, hanswers⟩ := hanswered.messages
  rw [m.command_fst] at hanswers
  have hturn := @Worker.step_turn rt _ h.joined.sound.consistent (m.action a)
  have hreply (id : ℕ) (hasks : m.asks = some id) :
      ∃ reply ∈ before ++ last.toList, reply.answers = some id := by
    rw [hasks] at hanswers
    obtain ⟨reply, rfl, hreply⟩ := Option.bind_eq_some_iff.mp hanswers
    exact ⟨reply, by simp, hreply⟩
  have howed (hf' : (Worker.step rt w.worker (m.action a)).state.fatalExit = false) (k : Due)
      (hk : k ∈ owed ++ m.due.toList) (hunpaid : ∀ m' ∈ before ++ last.toList, pays m' ≠ some k) :=
    h.owed_heard hm hd a hmore hreply hf' hk hunpaid
  have hplaced (hf' : (Worker.step rt w.worker (m.action a)).state.fatalExit = false) :=
    h.placed_heard hm hd a hf'
  set t := Worker.step rt w.worker (m.action a) with ht
  have hseen : { w with worker := t, taken := w.taken + 1 }.seen = w.seen ++ [m] :=
    World.seen_take hm
  have hclosed (id : ℕ) (hclose : m = .close id) : t.state.commandsClosed = true := by
    subst hclose
    exact hturn.commandsClosed.2.2 _ rfl hd
  have hlinked := h.linked_heard hm hmute hanswers fun id hclose k hk hunpaid ↦ by
    have hf' : t.state.fatalExit = false := by
      subst hclose
      exact (hturn.fatalExit.2 rfl).trans hf
    obtain ⟨stream, hlive, rfl⟩ := howed hf' k hk hunpaid
    have hempty := hjoined.sound.stopped (by simp [Worker.State.deaf, hclosed id hclose])
    rw [hempty.operations] at hlive
    cases hlive
  refine ⟨(({ w with taken := w.taken + 1 }.peer (owed ++ m.due.toList)).worker.sends
    (before ++ last.toList)).owed, hjoined, ?_, fun hf' k hk ↦ ?_, fun hf' ↦ ?_, fun hc ↦ ?_,
    fun id hid m' hm' hanswered ↦ ?_⟩
  · rw [← peer_sends (w := { w with taken := w.taken + 1 }) hmore] at hlinked
    exact hlinked
  · obtain ⟨hk, hunpaid⟩ := ((Peer.sends_spec _ _).2.2 k).mp hk
    exact howed hf' k hk hunpaid
  · rw [hseen, started_concat]
    exact hplaced hf'
  · rw [hseen]
    rcases hturn.commandsClosed.2.1 hc with hc | ⟨request, heq⟩
    · simp [Worker.State.deaf, hc] at hd
    · obtain ⟨id, rfl⟩ := Posted.action_close heq
      exact ⟨id, by simp⟩
  · have hm' : m' ∈ t.messages := hm'
    rw [hseen] at hid
    rw [hmore, List.mem_append, List.mem_append] at hm'
    rcases hm' with hm' | hm' | hm'
    · have hclose : .close id ∈ w.isolate.posted := List.mem_of_mem_take (hseen.symm ▸ hid)
      have hc := h.replied id (h.seen_of_answer hclose hm' hanswered) m' hm' hanswered
      simp [Worker.State.deaf, hc] at hd
    · cases (hmute m' hm').symm.trans hanswered
    · have hasks : m.asks = some id := by
        rw [show last = some m' from Option.mem_toList.mp hm', Option.bind_some,
          hanswered] at hanswers
        exact hanswers.symm
      exact hclosed id (h.close_taken hm hid hasks)

theorem step {turn : Turn Answers Work} (h : Serving U owed w)
    (hU : ∀ stream, turn = .main (.call (.cancel stream)) → U stream)
    (ht : Party.Step (nativeParty rt) w turn w') : ∃ owed', Serving U owed' w' := by
  have hjoined := h.joined.step hU ht
  cases ht with
  | @main a s hother hs =>
    have hchange := h.joined.fit.sound.change h.joined.fit.ledger.nodup hother hs
    have hanswering : Answering (w.peer owed) (.main a) := trivial
    have hcancels (stream : ℕ)
      (heq : (.main a : Turn Unit Outgoing) = .main (.call (.cancel stream))) :
        U stream := by
      obtain rfl := Turn.main.inj heq
      exact hU stream rfl
    exact ⟨owed, h.aside hchange.grows.posted hjoined
      (h.linked.step hcancels hanswering (.main hother hs))⟩
  | @deliver m hm hframe hports =>
    obtain ⟨more, hmore, -⟩ := (h.joined.fit.sound.received hframe m).posted
    have hanswering : Answering (w.peer owed) .deliver := trivial
    exact ⟨owed, h.aside ⟨more, hmore.symm⟩ hjoined
      (h.linked.step (by simp) hanswering (.deliver hm hframe hports))⟩
  | @take how m hm =>
    cases hd : w.worker.state.deaf with
    | false => exact h.take_heard hm hd how hjoined
    | true =>
      have hdeaf : Worker.step rt w.worker (m.action how) = w.worker := Worker.listen_deaf hd _ _
      have htake : (nativeParty rt).take w.worker how m = w.worker := hdeaf
      rw [htake] at hjoined ⊢
      exact ⟨_, h.take_deaf hm hd hjoined⟩
  | act work => exact h.act work hjoined

end Serving

structure Told (w : World NativeWorker) : Prop where
  closing : w.isolate.Closing
  results : w.isolate.workerFailure = none →
    ∀ id result, result ∈ w.isolate.results id → .reply (some id) result ∈ w.worker.messages

theorem told_init : Told (nativeParty rt).system.init := by
  refine ⟨.init, fun _ id result hresult ↦ ?_⟩
  cases hresult

theorem Told.step {w w' : World NativeWorker} {turn : Turn Answers Work} (h : Told w)
    (hw : Joined U w)
    (ht : Party.Step (nativeParty rt) w turn w') : Told w' := by
  have hworker {t : NativeWorker} {taken : ℕ} (hgrows : w.worker.messages <+: t.messages) :
      Told { w with worker := t, taken := taken } :=
    ⟨h.closing, fun hnone id result hresult ↦ hgrows.subset (h.results hnone id result hresult)⟩
  cases ht with
  | @main a s hother hs =>
    have hchange := hw.fit.sound.change hw.fit.ledger.nodup hother hs
    refine ⟨h.closing.change hw.fit.ledger hchange, fun hnone id result hresult ↦ ?_⟩
    obtain ⟨hbefore, heq⟩ := hchange.results hnone
    have hresult : result ∈ s.results id := hresult
    rw [heq] at hresult
    exact h.results hbefore id result hresult
  | @deliver m hm hframe hports =>
    refine ⟨h.closing.receive hw.fit.sound hframe m, fun hnone id result hresult ↦ ?_⟩
    have hbefore := (hw.fit.sound.received hframe m).failure.symm.trans hnone
    rcases hw.fit.sound.results_receive hframe m id result hresult with hresult | rfl
    · exact h.results hbefore id result hresult
    · exact List.mem_of_getElem? hm
  | @take how m hm =>
    exact hworker (Worker.step_grows hw.sound.consistent (m.command_replies how))
  | act work =>
    exact hworker (Worker.Mute.turn hw.sound.consistent (by simp [work.said_action])).grows

/-- What every turn keeps holds after every run. -/
theorem Serving.invariant {P : World NativeWorker → Prop} (hinit : P (nativeParty rt).system.init)
    {turns : List (Turn Answers Work)}
    (hstep : ∀ v turn v' owed owed', Serving (Party.Cancels turns) owed v →
      Serving (Party.Cancels turns) owed' v' → Later v.isolate.consumer v'.isolate.consumer → P v →
        Party.Step (nativeParty rt) v turn v' → P v')
    {w : World NativeWorker} (ht : (nativeParty rt).system.run turns = some w) :
    (∃ owed, Serving (Party.Cancels turns) owed w) ∧ P w := by
  have hcancels : (nativeParty rt).system.Meets
      (fun _ turn ↦ ∀ stream, turn = .main (.call (.cancel stream)) → Party.Cancels turns stream)
      (nativeParty rt).system.init turns :=
    .of_forall fun turn hturn stream heq ↦ by rwa [heq] at hturn
  refine (nativeParty rt).system.invariant
    (P := fun v ↦ (∃ owed, Serving (Party.Cancels turns) owed v) ∧ P v)
    (fun v turn v' h hguard hv ↦ ?_) ⟨⟨[], .init⟩, hinit⟩ hcancels ht
  obtain ⟨⟨owed, hserving⟩, hv'⟩ := h
  obtain ⟨owed', hserving'⟩ := hserving.step hguard (Party.step_cases hv)
  have hlater := (hserving.joined.fit.step hguard (Party.step_cases hv)).2
  exact ⟨⟨owed', hserving'⟩, hstep _ _ _ _ _ hserving hserving' hlater hv' (Party.step_cases hv)⟩

/-- Once the future of `close` has completed, or the worker is gone, nothing is
open in the main isolate. If the worker is not gone it has let go of everything
by then but the text inputs leaked by a raw request whose array allocation
failed. As soon as nothing is on its way and the worker runs no operation, every
request has the result that the worker replied, whatever the native side does. -/
theorem native_settles (rt : Worker.Runtime) {turns : List (Turn Answers Work)}
    {w : World NativeWorker}
    (ht : (nativeParty rt).system.run turns = some w) :
    (w.isolate.Over → w.isolate.Settled (Party.Cancels turns)) ∧
    (w.isolate.closeFuture = some .completed → w.isolate.workerFailure = none →
      w.worker.state.commandsClosed = true ∧ Worker.Empty w.worker.state ∧
        ∀ p res, w.worker.state.native.live p = some res → res = .inputData) ∧
    (w.worker.state.fatalExit = false → w.worker.state.operations = [] →
      w.taken = w.isolate.posted.length → w.read = w.worker.messages.length →
        w.isolate.pending = [] ∧ ∀ id ∈ w.isolate.asked, ∃ result, w.isolate.results id = [result] ∧
          (w.isolate.workerFailure = none → .reply (some id) result ∈ w.worker.messages)) := by
  obtain ⟨⟨owed, hserving⟩, htold⟩ := Serving.invariant told_init
    (fun _ _ _ _ _ hserving _ _ htold hstep ↦ htold.step hserving.joined hstep) ht
  have hfit := hserving.joined.fit
  refine ⟨fun hover ↦ ?_, fun hfuture hnone ↦ ?_, fun hf hidle htaken hread ↦ ?_⟩
  · exact hfit.sound.settled_of_over hfit.ledger hover hserving.linked.done
  · obtain ⟨id, hclose, hresults⟩ := htold.closing.through hnone .completed hfuture rfl
    obtain ⟨result, hresult⟩ := List.exists_mem_of_ne_nil _ hresults
    have hreply := htold.results hnone id result hresult
    have hanswers : (Outgoing.reply (some id) result).answers = some id := rfl
    have hseen := hserving.seen_of_answer hclose hreply hanswers
    have hclosed := hserving.replied id hseen _ hreply hanswers
    have hempty := hserving.joined.sound.stopped (by simp [Worker.State.deaf, hclosed])
    exact ⟨hclosed, hempty, fun p res hp ↦ hserving.joined.sound.consistent.inputs hempty hp⟩
  · have howed : owed = [] := by
      refine List.eq_nil_iff_forall_not_mem.mpr fun k hk ↦ ?_
      obtain ⟨stream, hlive, -⟩ := hserving.owed hf k hk
      rw [hidle] at hlive
      cases hlive
    have hquiet : (w.peer owed).Quiet := ⟨htaken, howed, hread⟩
    have hpending : w.isolate.pending = [] := hserving.linked.quiet hquiet
    refine ⟨hpending, fun id hid ↦ ?_⟩
    obtain ⟨result, hresult⟩ := hfit.ledger.answered id hid (by simp [hpending])
    exact ⟨result, hresult, fun hnone ↦ htold.results hnone id result (by simp [hresult])⟩

namespace Scenario

def left : List (Turn Answers Work) :=
  begun ++ [.main (.call .close), .take answers, .deliver, .deliver, .deliver,
    .main .returned, .deliver,
    .main .returned, .deliver, .main .closed]

end Scenario

theorem native_settles_left : ∃ w,
    (nativeParty Worker.Scenario.runtime).system.run Scenario.left = some w ∧
    w.isolate.Settled (Party.Cancels Scenario.left) ∧ Worker.Empty w.worker.state := by
  have hrun : (((nativeParty Worker.Scenario.runtime).system.run Scenario.left).map fun w ↦
      (decide (w.isolate.closeFuture = some .completed), w.isolate.workerFailure.isSome)) =
        some (true, false) := by
    decide +kernel
  obtain ⟨w, hw, hresult⟩ := Option.map_eq_some_iff.mp hrun
  obtain ⟨hfuture, hfailure⟩ := by simpa only [Prod.mk.injEq, decide_eq_true_eq] using hresult
  obtain ⟨hsettled, hempty, -⟩ := native_settles Worker.Scenario.runtime hw
  exact ⟨w, hw, hsettled (.inl hfuture), (hempty hfuture (by simpa using hfailure)).2.1⟩

end LibLitertLm.Backend
