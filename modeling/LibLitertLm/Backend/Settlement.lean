import LibLitertLm.Backend.Link
import LibLitertLm.Library.Exchange

namespace LibLitertLm.Backend

open Worker (Outgoing)

/-- A worker that may send what it wants and when it wants. It has taken the
messages `seen`; what it has not answered since then it has `owed`. -/
structure Peer where
  seen : List Posted := []
  owed : List Due := []
  sent : List Outgoing := []

namespace Peer

def take (p : Peer) (m : Posted) : Peer :=
  { p with seen := p.seen ++ [m], owed := p.owed ++ m.due.toList }

def send (p : Peer) (m : Outgoing) : Peer :=
  { p with owed := p.owed.filter fun k ↦ pays m ≠ some k, sent := p.sent ++ [m] }

def party : Party Peer Unit Outgoing := ⟨{}, Peer.sent, fun p _ m ↦ p.take m, Peer.send⟩

/-- It replies to requests that it has taken, and to `close` when every other
request and every stream that it has taken is answered. -/
def Answers (p : Peer) (m : Outgoing) : Prop :=
  ∀ id, pays m = some (.reply id) → .reply id ∈ p.seen.filterMap Posted.due ∧
    (.close id ∈ p.seen → ∀ k ∈ p.owed, k = .reply id)

theorem close_mem_iff {l : List Posted} {id : ℕ} :
    (l.any fun m ↦ m.isClose && m.asks == some id) = true ↔ .close id ∈ l := by
  have hclose (m : Posted) : (m.isClose && m.asks == some id) = true ↔ m = .close id := by
    cases m <;> simp [Posted.isClose, Posted.asks]
  simp only [List.any_eq_true, hclose, exists_eq_right]

instance (p : Peer) (m : Outgoing) : Decidable (p.Answers m) :=
  match h : pays m with
  | some (.reply id) =>
    have := decidable_of_iff _ (@close_mem_iff p.seen id)
    decidable_of_iff (.reply id ∈ p.seen.filterMap Posted.due ∧
      (.close id ∈ p.seen → ∀ k ∈ p.owed, k = .reply id)) (by simp [Answers, h])
  | some (.terminal _) => .isTrue (by simp [Answers, h])
  | none => .isTrue (by simp [Answers, h])

end Peer

def Answering (w : World Peer) : Turn Unit Outgoing → Prop
  | .act m => w.worker.Answers m
  | _ => True

instance (w : World Peer) : ∀ turn, Decidable (Answering w turn)
  | .act m => inferInstanceAs (Decidable (w.worker.Answers m))
  | .main _ | .deliver | .take _ => .isTrue trivial

def World.exchange (w : World Peer) : Exchange Due where
  waiting := w.isolate.awaits
  asked := (w.isolate.posted.drop w.taken).filterMap Posted.due
  owed := {k | k ∈ w.worker.owed}
  answers := (w.worker.sent.drop w.read).filterMap pays
  last := {k | ∃ id, k = .reply id ∧ .close id ∈ w.isolate.posted}
  taken := ∃ id, .close id ∈ w.isolate.posted ∧ .reply id ∈ w.worker.seen.filterMap Posted.due

theorem reply_mem_due {l : List Posted} {id : ℕ} :
    .reply id ∈ l.filterMap Posted.due ↔ id ∈ l.filterMap Posted.asks := by
  have hdue (m : Posted) : m.due = some (.reply id) ↔ m.asks = some id := by
    cases m <;> simp [Posted.due, Posted.asks]
  simp only [List.mem_filterMap, hdue]

theorem due_of_light {m : Posted} (h : m.light = true) : m.due = none := by
  cases m <;> first | rfl | cases h

structure Linked (U : ℕ → Prop) (w : World Peer) : Prop where
  fit : Party.Fit U w
  read : w.read ≤ w.worker.sent.length
  seen : w.worker.seen = w.isolate.posted.take w.taken
  replies : ∀ m ∈ w.worker.sent, ∀ id, pays m = some (.reply id) →
    .reply id ∈ w.worker.seen.filterMap Posted.due
  balanced : w.isolate.workerFailure = none → w.exchange.Balanced
  done : w.isolate.workerFailure = none → w.isolate.closed = true → w.isolate.awaits = ∅

namespace Linked

variable {U : ℕ → Prop} {w w' : World Peer} {turn : Turn Unit Outgoing}

theorem init : Linked U Peer.party.system.init := by
  have hawaits : ({} : Isolate).awaits = ∅ := by
    ext k
    cases k <;> simp
  refine ⟨Party.fit_init, Nat.zero_le _, rfl, by simp [Party.system, Peer.party], fun _ ↦ ?_,
    fun _ _ ↦ hawaits⟩
  constructor <;> simp [World.exchange, Party.system, Peer.party, hawaits]

theorem seen_mem (h : Linked U w) {m : Posted} (hm : m ∈ w.worker.seen) : m ∈ w.isolate.posted :=
  List.mem_of_mem_take (h.seen ▸ hm)

theorem exchange_lightly (h : Linked U w) {s : Isolate} (hposted : Isolate.Lightly w.isolate s)
    (read : ℕ) : { w with isolate := s, read := read }.exchange = { w.exchange with
      waiting := s.awaits
      answers := (w.worker.sent.drop read).filterMap pays } := by
  obtain ⟨more, hmore, hlight⟩ := hposted
  have hdue : (s.posted.drop w.taken).filterMap Posted.due = w.exchange.asked := by
    rw [hmore, List.drop_append_of_le_length h.fit.taken, List.filterMap_append,
      List.filterMap_eq_nil_iff.mpr fun m hm ↦ due_of_light (hlight m hm), List.append_nil]
    rfl
  have hclose (id : ℕ) : .close id ∈ s.posted ↔ .close id ∈ w.isolate.posted := by
    rw [hmore, List.mem_append]
    refine ⟨fun hm ↦ hm.resolve_right fun hm ↦ ?_, .inl⟩
    cases hlight _ hm
  refine Exchange.ext rfl hdue rfl rfl ?_ ?_ <;> simp only [World.exchange, hclose]

theorem exchange_main (h : Linked U w) {s : Isolate} (hgrows : Isolate.Grows w.isolate s)
    (hledger : s.Ledger) (hnone : s.workerFailure = none) :
    Relation.ReflGen Exchange.Step w.exchange { w with isolate := s }.exchange := by
  cases hgrows with
  | lightly hposted hkept =>
    have heq := h.exchange_lightly hposted w.read
    rw [(hkept hnone).2] at heq
    rw [heq]
    exact .refl
  | @asks m k hdue hposted hfailure hawaits =>
    have hopen (id : ℕ) : .close id ∉ w.isolate.posted := by
      intro hm
      have hlast := hledger.last
      rw [hposted, List.pairwise_append] at hlast
      have hlight := hlast.2.2 _ hm m (List.mem_singleton_self m) rfl
      cases (due_of_light hlight).symm.trans hdue
    have hasked : (s.posted.drop w.taken).filterMap Posted.due = w.exchange.asked ++ [k] := by
      rw [hposted, List.drop_append_of_le_length h.fit.taken, List.filterMap_append]
      simp [World.exchange, hdue]
    have hlast : w.exchange.last = ∅ := by simp [World.exchange, hopen]
    by_cases hclose : ∃ id, m = .close id
    · obtain ⟨id, rfl⟩ := hclose
      obtain rfl : Due.reply id = k := Option.some.inj hdue
      have hclose (other : ℕ) : .close other ∈ s.posted ↔ other = id := by simp [hposted, hopen]
      have hnew : id ∉ w.isolate.asked := by
        have hdistinct := hledger.distinct
        rw [Isolate.asked_append hposted] at hdistinct
        exact fun hmem ↦ (List.nodup_append.mp hdistinct).2.2 id hmem id (by simp [Posted.asks]) rfl
      have hseen : .reply id ∉ w.worker.seen.filterMap Posted.due := by
        rw [h.seen, reply_mem_due]
        exact fun hmem ↦ hnew (((List.take_sublist _ _).filterMap _).subset hmem)
      have heq : { w with isolate := s }.exchange = { w.exchange with
          waiting := insert (.reply id) w.exchange.waiting
          asked := w.exchange.asked ++ [.reply id]
          last := {.reply id} } := by
        refine Exchange.ext hawaits hasked rfl rfl ?_ ?_
        · ext k
          simp [World.exchange, hclose]
        · simp only [World.exchange, hclose, hopen, exists_eq_left, false_and, exists_false, hseen]
      rw [heq]
      refine .single (.announce _ hlast (fun hmem ↦ ?_) fun hmem ↦ ?_)
      · refine hnew (((List.drop_sublist w.taken _).filterMap _).subset (reply_mem_due.mp hmem))
      · obtain ⟨m, hm, hpays⟩ := List.mem_filterMap.mp hmem
        exact hseen (h.replies m (List.mem_of_mem_drop hm) id hpays)
    · have hclose (other : ℕ) : .close other ∉ s.posted := by
        simpa [hposted, hopen, eq_comm] using fun heq ↦ hclose ⟨other, heq⟩
      have heq : { w with isolate := s }.exchange = { w.exchange with
          waiting := insert k w.exchange.waiting
          asked := w.exchange.asked ++ [k] } := by
        refine Exchange.ext hawaits hasked rfl rfl ?_ ?_ <;> simp [World.exchange, hclose, hopen]
      rw [heq]
      exact .single (.ask k hlast)

/-- The next message of a queue. -/
theorem drop_of_next {α : Type} {l : List α} {n : ℕ} {x : α} (h : l[n]? = some x) :
    l.drop n = x :: l.drop (n + 1) := by
  obtain ⟨hn, rfl⟩ := List.getElem?_eq_some_iff.mp h
  exact List.drop_eq_getElem_cons hn

theorem exchange_deliver (h : Linked U w) {m : Outgoing} (hm : w.worker.sent[w.read]? = some m)
    (hframe : w.isolate.frame = none) :
    Relation.ReflGen Exchange.Step w.exchange
      { w with isolate := w.isolate.receive m, read := w.read + 1 }.exchange := by
  have hreceived := h.fit.sound.received hframe m
  have hmail : w.exchange.answers =
      (pays m).toList ++ (w.worker.sent.drop (w.read + 1)).filterMap pays := by
    have hnext := drop_of_next hm
    rw [World.exchange, hnext, List.filterMap_cons]
    cases pays m <;> rfl
  rw [h.exchange_lightly hreceived.posted]
  cases hpays : pays m with
  | none =>
    rw [hpays, Option.toList_none, List.nil_append] at hmail
    have hawaits : (w.isolate.receive m).awaits = w.isolate.awaits := by
      ext k
      simp [hreceived.awaits, hpays]
    rw [hawaits, ← hmail]
    exact .refl
  | some k =>
    rw [hpays, Option.toList_some, List.singleton_append] at hmail
    have hawaits : (w.isolate.receive m).awaits = w.isolate.awaits \ {k} := by
      ext other
      simp [hreceived.awaits, hpays, eq_comm]
    rw [hawaits]
    exact .single (.deliver hmail)

theorem exchange_take {m : Posted} (hm : w.isolate.posted[w.taken]? = some m) :
    Relation.ReflGen Exchange.Step w.exchange
      { w with worker := w.worker.take m, taken := w.taken + 1 }.exchange := by
  have hnext := drop_of_next hm
  have hflight : w.exchange.asked =
      m.due.toList ++ (w.isolate.posted.drop (w.taken + 1)).filterMap Posted.due := by
    rw [World.exchange, hnext, List.filterMap_cons]
    cases m.due <;> rfl
  cases hdue : m.due with
  | none =>
    rw [hdue, Option.toList_none, List.nil_append] at hflight
    have heq :
      { w with worker := w.worker.take m, taken := w.taken + 1 }.exchange = w.exchange := by
      refine Exchange.ext rfl hflight.symm ?_ rfl rfl ?_ <;> simp [World.exchange, Peer.take, hdue]
    rw [heq]
  | some k =>
    rw [hdue, Option.toList_some, List.singleton_append] at hflight
    have heq :
      { w with worker := w.worker.take m, taken := w.taken + 1 }.exchange = { w.exchange with
        asked := (w.isolate.posted.drop (w.taken + 1)).filterMap Posted.due
        owed := insert k w.exchange.owed
        taken := w.exchange.taken ∨ k ∈ w.exchange.last } := by
      refine Exchange.ext rfl rfl ?_ rfl rfl ?_
      · ext other
        simp [World.exchange, Peer.take, hdue, or_comm]
      · have hseen (id : ℕ) : .reply id ∈ (w.worker.seen ++ [m]).filterMap Posted.due ↔
            .reply id ∈ w.worker.seen.filterMap Posted.due ∨ k = .reply id := by
          simp [hdue, eq_comm (a := k)]
        simp only [World.exchange, Peer.take, hseen, or_and_right, exists_or, and_comm,
          Set.mem_ofPred_eq]
    rw [heq]
    exact .single (.take hflight)

theorem exchange_send (h : Linked U w) {m : Outgoing} (hanswers : w.worker.Answers m) :
    Relation.ReflGen Exchange.Step w.exchange { w with worker := w.worker.send m }.exchange := by
  have hmail : { w with worker := w.worker.send m }.exchange.answers =
      w.exchange.answers ++ (pays m).toList := by
    simp only [World.exchange, Peer.send]
    rw [List.drop_append_of_le_length h.read, List.filterMap_append]
    cases hpays : pays m <;> simp [hpays]
  cases hpays : pays m with
  | none =>
    rw [hpays, Option.toList_none, List.append_nil] at hmail
    have heq : { w with worker := w.worker.send m }.exchange = w.exchange := by
      refine Exchange.ext rfl rfl ?_ hmail rfl rfl
      simp [World.exchange, Peer.send, hpays]
    rw [heq]
  | some k =>
    rw [hpays, Option.toList_some] at hmail
    have heq : { w with worker := w.worker.send m }.exchange = { w.exchange with
        owed := w.exchange.owed \ {k}
        answers := w.exchange.answers ++ [k] } := by
      refine Exchange.ext rfl rfl ?_ hmail rfl rfl
      ext other
      simp [World.exchange, Peer.send, hpays, eq_comm (a := other)]
    rw [heq]
    refine .single (.answer k fun hlast ↦ ?_)
    obtain ⟨id, rfl, hclose⟩ := hlast
    have hreply := hanswers id hpays
    obtain ⟨m', hm', hasks⟩ := List.mem_filterMap.mp (reply_mem_due.mp hreply.1)
    obtain rfl := h.fit.ledger.unique (h.seen_mem hm') hclose hasks rfl
    exact ⟨⟨id, hclose, hreply.1⟩, hreply.2 hm'⟩

/-- A turn is at most one step of the exchange. -/
theorem simulates (h : Linked U w) (hanswers : Answering w turn)
    (ht : Party.Step Peer.party w turn w')
    (hledger : w'.isolate.Ledger) (hnone : w'.isolate.workerFailure = none) :
    Relation.ReflGen Exchange.Step w.exchange w'.exchange := by
  cases ht with
  | main ha hs =>
    exact h.exchange_main (h.fit.sound.change h.fit.ledger.nodup ha hs).grows hledger hnone
  | deliver hm hframe hports => exact h.exchange_deliver hm hframe
  | take hm => exact exchange_take hm
  | act m => exact h.exchange_send hanswers

/-- When the main isolate closes, nothing is open. -/
theorem done_main (h : Linked U w) {s : Isolate} (hchange : Isolate.Change w.isolate s)
    (hnone : s.workerFailure = none) (hclosed : s.closed = true) : s.awaits = ∅ := by
  cases hchange with
  | @quiet t haccount hstreams hposted =>
    have hfailure : w.isolate.workerFailure = none :=
      (field_eq Isolate.account Isolate.workerFailure (fun _ ↦ rfl) haccount).symm.trans hnone
    have hawaits : s.awaits = w.isolate.awaits := by
      refine Isolate.awaits_eq (field_eq Isolate.account Isolate.pending (fun _ ↦ rfl) haccount) ?_
      exact hstreams.resolve_right (by simp [hfailure])
    rw [hawaits]
    exact h.done hfailure
      ((field_eq Isolate.account Isolate.closed (fun _ ↦ rfl) haccount).symm.trans hclosed)
  | created source => exact h.done hnone hclosed
  | listened _ hopen haccount =>
    have hclosed' := field_eq Isolate.account Isolate.closed (fun _ ↦ rfl) haccount
    cases (hclosed'.trans hopen).symm.trans hclosed
  | asked request _ hopen => cases hopen.symm.trans hclosed
  | closing _ hopen => cases hopen.symm.trans hclosed
  | late => exact h.done hnone hclosed
  | returned => exact h.done hnone hclosed
  | @closed id hfuture hid =>
    have hlast : .reply id ∈ w.exchange.last := ⟨id, rfl, h.fit.ledger.future id hfuture⟩
    exact (h.balanced hnone).settled _ hlast fun hpending ↦
      hid (h.fit.ledger.unanswered id (.inr hpending))
  | failed _ _ haccount =>
    rw [field_eq Isolate.account Isolate.workerFailure (fun _ ↦ rfl) haccount] at hnone
    cases hnone

theorem seen_grows (h : Linked U w) {s : Isolate} (hposted : w.isolate.posted <+: s.posted) :
    w.worker.seen = s.posted.take w.taken := by
  obtain ⟨more, hmore⟩ := hposted
  rw [← hmore, List.take_append_of_le_length h.fit.taken]
  exact h.seen

theorem step (h : Linked U w) (hU : ∀ stream, turn = .main (.call (.cancel stream)) → U stream)
    (hanswers : Answering w turn) (ht : Party.Step Peer.party w turn w') : Linked U w' := by
  have hfit := (h.fit.step hU ht).1
  have hbalanced (hfailure : w'.isolate.workerFailure = none → w.isolate.workerFailure = none)
      (hnone : w'.isolate.workerFailure = none) : w'.exchange.Balanced :=
    (h.balanced (hfailure hnone)).reflGen (h.simulates hanswers ht hfit.ledger hnone)
  cases ht with
  | @main a s ha hs =>
    have hchange := h.fit.sound.change h.fit.ledger.nodup ha hs
    have hgrows := hchange.grows
    refine ⟨hfit, h.read, h.seen_grows hgrows.posted, h.replies, hbalanced fun hnone ↦ ?_,
      h.done_main hchange⟩
    cases hgrows with
    | lightly hposted hkept => exact (hkept hnone).1
    | asks hdue hposted hfailure => exact hfailure.symm.trans hnone
  | @deliver m hm hframe hports =>
    have hreceived := h.fit.sound.received hframe m
    obtain ⟨more, hmore, -⟩ := hreceived.posted
    refine ⟨hfit, (List.getElem?_eq_some_iff.mp hm).1, h.seen_grows ⟨more, hmore.symm⟩, h.replies,
      hbalanced hreceived.failure.symm.trans, fun _ hclosed ↦ ?_⟩
    cases (h.fit.sound.open_of_ports hframe hports).symm.trans (hreceived.closed.symm.trans hclosed)
  | @take how m hm =>
    refine ⟨hfit, h.read, ?_, fun m' hm' id hid ↦ ?_, hbalanced id, h.done⟩
    · have hseen : w.isolate.posted.take (w.taken + 1) = w.isolate.posted.take w.taken ++ [m] := by
        rw [List.take_add_one, hm, Option.toList_some]
      rw [hseen, ← h.seen]
      rfl
    · have hseen : .reply id ∈ (w.worker.seen ++ [m]).filterMap Posted.due := by
        rw [List.filterMap_append]
        exact List.mem_append_left _ (h.replies m' hm' id hid)
      exact hseen
  | act m =>
    refine ⟨hfit, ?_, h.seen, fun m' hm' id hid ↦ ?_, hbalanced id, h.done⟩
    · exact h.read.trans (by simp [Peer.party, Peer.send])
    · rcases List.mem_append.mp hm' with hm' | hm'
      · exact h.replies m' hm' id hid
      · obtain rfl := List.mem_singleton.mp hm'
        exact (hanswers id hid).1

theorem run {turns : List (Turn Unit Outgoing)} (ht : Peer.party.system.run turns = some w)
    (hm : Peer.party.system.Meets Answering Peer.party.system.init turns) :
    Linked (Party.Cancels turns) w := by
  have hcancels : Peer.party.system.Meets
      (fun w turn ↦ Answering w turn ∧ ∀ stream, turn = .main (.call (.cancel stream)) →
        Party.Cancels turns stream) Peer.party.system.init turns :=
    hm.and (.of_forall fun turn hturn stream heq ↦ by rwa [heq] at hturn)
  exact Peer.party.system.invariant (fun w turn w' h hguard ht ↦
    h.step hguard.2 hguard.1 (Party.step_cases ht)) init hcancels ht

end Linked

namespace Isolate

variable {U : ℕ → Prop} {s t : Isolate}

def Over (s : Isolate) : Prop :=
  s.closeFuture = some .completed ∨ s.workerFailure.isSome = true ∧ s.ending = false

theorem Sound.over_shut (h : Sound U s) (hover : s.Over) : s.closed = true ∧ s.ending = false := by
  rcases hover with hfuture | ⟨hfailure, hending⟩
  · obtain ⟨hclosed, hending⟩ := h.through _ hfuture rfl
    exact ⟨hclosed, hending rfl⟩
  · exact ⟨(h.failed hfailure).1, hending⟩

/-- Once it is over it stays so. -/
theorem Sound.over_change {a : Action} (h : Sound U s) (hover : s.Over) (hchange : Change s t)
    (ht : s.step a = some t) : t.Over := by
  obtain ⟨hclosed, hending⟩ := h.over_shut hover
  have hending' := h.not_ending_step hclosed hending ht
  have haccount {t : Isolate} (haccount : t.account = s.account)
    (hending : t.ending = false) : t.Over := by
    rw [Over, field_eq account closeFuture (fun _ ↦ rfl) haccount,
      field_eq account workerFailure (fun _ ↦ rfl) haccount]
    exact hover.imp_right fun hfailed ↦ ⟨hfailed.1, hending⟩
  cases hchange with
  | quiet h => exact haccount h hending'
  | created => exact hover
  | listened _ hopen => cases hopen.symm.trans hclosed
  | asked _ _ hopen => cases hopen.symm.trans hclosed
  | closing _ hopen => cases hopen.symm.trans hclosed
  | late hfuture =>
    rcases hover with hcompleted | hfailed
    · cases hfuture.symm.trans hcompleted
    · exact .inr hfailed
  | returned => exact .inl rfl
  | closed => exact .inl rfl
  | failed hopen => cases hopen.symm.trans hclosed

end Isolate

namespace Party

variable {ω α β : Type} {P : Party ω α β} {w w' : World ω} {turn : Turn α β} {U : ℕ → Prop}

theorem Fit.over_step (h : Fit U w) (hover : w.isolate.Over) (ht : Step P w turn w') :
    w'.isolate.Over := by
  cases ht with
  | main ha hs => exact h.sound.over_change hover (h.sound.change h.ledger.nodup ha hs) hs
  | deliver hm hframe hports =>
    obtain ⟨hclosed, -⟩ := h.sound.over_shut hover
    cases (h.sound.open_of_ports hframe hports).symm.trans hclosed
  | take => exact hover
  | act => exact hover

theorem Fit.over_exec {turns : List (Turn α β)} (h : Fit U w)
    (hU : ∀ stream, Cancels turns stream → U stream) (hover : w.isolate.Over)
    (ht : P.system.exec w turns = some w') : w'.isolate.Over := by
  have hguard : P.system.Meets
      (fun _ turn ↦ ∀ stream, turn = .main (.call (.cancel stream)) → U stream) w turns :=
    .of_forall fun turn hturn stream heq ↦ hU stream (by rwa [heq] at hturn)
  exact (P.system.invariant (P := fun w ↦ Fit U w ∧ w.isolate.Over) (fun w turn w' h hguard ht ↦
    ⟨(h.1.step hguard (step_cases ht)).1, h.1.over_step h.2 (step_cases ht)⟩)
      ⟨h, hover⟩ hguard ht).2

end Party

namespace Isolate

variable {U : ℕ → Prop} {s : Isolate}

/-- No completer is completed twice, and no event follows a terminal one. -/
structure Proper (s : Isolate) : Prop where
  results : ∀ id, (s.results id).length ≤ 1
  received : ∀ stream, Orderly (s.consumer stream).controller.received
  done : ∀ stream, (s.consumer stream).done ≤ 1

theorem Sound.orderly (h : Sound U s) (stream : ℕ) :
    Orderly (s.consumer stream).controller.accepted ∧ (s.consumer stream).done ≤ 1 := by
  have hstanding := h.standings.standing stream
  cases hlistened : (s.consumer stream).controller.listened with
  | false =>
    rw [hstanding.fresh hlistened]
    exact ⟨.of_tokens (by simp [StreamController.accepted, StreamController.held]), Nat.zero_le _⟩
  | true =>
    by_cases hwaits : stream ∈ s.waiting
    · have hlive := hstanding.live hwaits
      exact ⟨.of_tokens hlive.tokens, hlive.done ▸ Nat.zero_le _⟩
    · by_cases htold : s.subject = some stream
      · obtain ⟨hover, -⟩ := hstanding.ending htold
        exact ⟨hover.orderly, hover.done ▸ Nat.zero_le _⟩
      · have hover := hstanding.ended hlistened hwaits htold
        exact ⟨hover.orderly, hover.done.le⟩

theorem Sound.proper (h : Sound U s) (hledger : Ledger s) : Proper s := by
  refine ⟨fun id ↦ ?_, fun stream ↦ ?_, fun stream ↦ (h.orderly stream).2⟩
  · by_cases hid : id ∈ s.asked ∧ id ∉ s.pending
    · obtain ⟨result, hresult⟩ := hledger.answered id hid.1 hid.2
      rw [hresult, List.length_singleton]
    · have hopen : id ∉ s.asked ∨ id ∈ s.pending := by
        by_contra hboth
        push Not at hboth
        exact hid hboth
      rw [hledger.unanswered id hopen]
      exact Nat.zero_le _
  · exact (h.orderly stream).1.of_isPrefix (List.prefix_append ..)

/-- Nothing is open, and nothing more is sent. -/
structure Settled (U : ℕ → Prop) (s : Isolate) : Prop where
  pending : s.pending = []
  streams : s.streams = []
  results : ∀ id ∈ s.asked, ∃ result, s.results id = [result]
  consumers : ∀ stream, (s.consumer stream).controller.listened = true →
    (s.consumer stream).done = 1 ∧ (Ends (s.consumer stream).controller.accepted ∨ U stream)
  request : ∀ duringClose message, s.request duringClose message = (s, .error s.refusal)
  call : ∀ r, s.call (.request r) = s
  listen : ∀ stream, s.created stream ≠ none → (s.consumer stream).controller.listened = false →
    s.listen stream = s.setConsumer stream (Consumer.refuse s.refusal)

theorem Sound.settled_of_over (h : Sound U s) (hledger : Ledger s) (hover : s.Over)
    (hdone : s.workerFailure = none → s.closed = true → s.awaits = ∅) : Settled U s := by
  obtain ⟨hclosed, hending⟩ := h.over_shut hover
  have hempty : s.pending = [] ∧ s.streams = [] := by
    cases hfailure : s.workerFailure with
    | none =>
      exact nothing_open (hdone hfailure hclosed)
    | some failure =>
      obtain ⟨-, hpending, hstreams⟩ := h.failed (by simp [hfailure])
      exact ⟨hpending, hstreams hending⟩
  have hrefuse (duringClose : Bool) (message : ℕ → Posted) :
      s.request duringClose message = (s, .error s.refusal) := by
    rw [Isolate.request, if_pos (by simp [hclosed])]
  refine ⟨hempty.1, hempty.2, fun id hid ↦ hledger.answered id hid (by simp [hempty.1]),
    fun stream hlistened ↦ ?_, hrefuse, fun r ↦ ?_, fun stream hcreated hlistened ↦ ?_⟩
  · have hwaiting : stream ∉ s.waiting := by
      rw [waiting_of_not_ending hending, hempty.2]
      exact List.not_mem_nil
    have hover := (h.standings.standing stream).ended hlistened hwaiting (by
      rw [(h.shut hclosed hending).2]
      simp)
    exact ⟨hover.done, hover.ends⟩
  · rw [Isolate.call, hrefuse, ite_self]
  · obtain ⟨⟨sessionId, input⟩, hsource⟩ := Option.ne_none_iff_exists'.mp hcreated
    exact listen_refused hsource ((h.standings.standing stream).fresh hlistened) (by simp [hclosed])

end Isolate

structure World.Quiet (w : World Peer) : Prop where
  taken : w.taken = w.isolate.posted.length
  owed : w.worker.owed = []
  read : w.read = w.worker.sent.length

theorem Linked.quiet {U : ℕ → Prop} {w : World Peer} (h : Linked U w) (hquiet : w.Quiet) :
    w.isolate.pending = [] := by
  cases hfailure : w.isolate.workerFailure with
  | none =>
    refine (Isolate.nothing_open ((h.balanced hfailure).quiet ?_ ?_ ?_)).1
    · simp [World.exchange, hquiet.taken]
    · simp [World.exchange, hquiet.owed]
    · simp [World.exchange, hquiet.read]
  | some failure => exact (h.fit.sound.failed (by simp [hfailure])).2.1

/-- Whatever the worker sends, no completer is completed twice, no event follows
a terminal one and none reaches a cancelled subscription. When the worker
answers what it takes, every request has one result as soon as nothing is on
its way, and nothing is open once the backend is closed or the worker is gone. -/
theorem main_isolate_settles {turns : List (Turn Unit Outgoing)} {w : World Peer}
    (ht : Peer.party.system.run turns = some w) :
    w.isolate.Proper ∧
    (∀ more w', Peer.party.system.exec w more = some w' →
      (∀ stream, (w.isolate.consumer stream).controller.canceled = true →
        (w'.isolate.consumer stream).controller.received =
          (w.isolate.consumer stream).controller.received) ∧
      (w.isolate.Over → w'.isolate.Over)) ∧
    (Peer.party.system.Meets Answering Peer.party.system.init turns →
      (w.Quiet → ∀ id ∈ w.isolate.asked, ∃ result, w.isolate.results id = [result]) ∧
      (w.isolate.Over → w.isolate.Settled (Party.Cancels turns))) := by
  have hfit := Party.fit_run ht
  refine ⟨hfit.sound.proper hfit.ledger, fun more w' ht' ↦ ?_, fun hm ↦ ⟨fun hquiet id hid ↦ ?_,
    fun hover ↦ ?_⟩⟩
  · have hfit' : Party.Fit (fun _ ↦ True) w := (Party.fit_init.exec (fun _ _ ↦ trivial) ht).1
    exact ⟨fun stream hcanceled ↦
      (((hfit'.exec (fun _ _ ↦ trivial) ht').2 stream).canceled hcanceled).2,
      fun hover ↦ hfit'.over_exec (fun _ _ ↦ trivial) hover ht'⟩
  · have hlinked := Linked.run ht hm
    exact hfit.ledger.answered id hid (by simp [hlinked.quiet hquiet])
  · have hlinked := Linked.run ht hm
    exact hfit.sound.settled_of_over hfit.ledger hover hlinked.done

def farewell : List (Turn Unit Outgoing) :=
  [.main (.call (.request (.engineInfo 1))), .main (.call (.stream 1 (.contents []))),
    .main (.call (.listen 2)), .main (.call .close), .take (), .take (), .take (),
    .act (.event 2 (.token "a")), .act (.reply (some 1) (.ok .nothing)),
    .act (.event 2 (.complete "a")), .act (.reply (some 3) (.ok .nothing)), .deliver,
    .main .returned, .deliver, .deliver, .main .returned, .deliver, .main .closed]

theorem main_isolate_settles_farewell : ∃ w, Peer.party.system.run farewell = some w ∧
    w.isolate.Settled (Party.Cancels farewell) :=
  ⟨_, rfl, ((main_isolate_settles rfl).2.2 (by decide +kernel)).2 (.inl rfl)⟩

end LibLitertLm.Backend
