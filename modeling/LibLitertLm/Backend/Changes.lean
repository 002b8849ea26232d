import LibLitertLm.Backend.Turns
import Mathlib.Data.Set.Insert

namespace LibLitertLm.Backend

def Posted.asks : Posted → Option ℕ
  | .request id _ | .close id => some id
  | _ => none

def Posted.isClose : Posted → Bool
  | .close _ => true
  | _ => false

/-- What a message asks the worker for: a reply, or the terminal event of a stream. -/
inductive Due
  | reply (id : ℕ)
  | terminal (stream : ℕ)
deriving DecidableEq

def Posted.due : Posted → Option Due
  | .request id _ | .close id => some (.reply id)
  | .generate stream _ _ => some (.terminal stream)
  | _ => none

def pays : Worker.Outgoing → Option Due
  | .reply (some id) _ => some (.reply id)
  | .reply none _ => none
  | .event stream e => if e.isToken then none else some (.terminal stream)

namespace Isolate

def Lightly (s t : Isolate) : Prop :=
  ∃ more, t.posted = s.posted ++ more ∧ ∀ m ∈ more, m.light = true

/-- What a step that takes no message comes to, seen from the worker. -/
inductive Change (s : Isolate) : Isolate → Prop
  | quiet {t : Isolate} (haccount : t.account = s.account)
    (hstreams : t.streams = s.streams ∨ s.workerFailure.isSome = true) (hposted : Lightly s t) :
    Change s t
  | created (source : ℕ → Option (ℕ × Worker.Input)) :
    Change s { s with nextId := s.nextId + 1, created := source }
  | listened {t : Isolate} {stream sessionId : ℕ} {input : Worker.Input}
    (hclosing : s.closing = false) (hclosed : s.closed = false) (haccount : t.account = s.account)
    (hstreams : t.streams = s.streams ++ [stream])
    (hposted : t.posted = s.posted ++ [.generate stream sessionId input]) : Change s t
  | asked (request : Request) (hclosing : s.closing = false) (hclosed : s.closed = false) :
    Change s ({ s with nextId := s.nextId + 1, pending := s.pending ++ [s.nextId] }.post
      (.request s.nextId request))
  | closing (hfuture : s.closeFuture = none) (hclosed : s.closed = false) :
    Change s ({ s with
      closing := true, nextId := s.nextId + 1, pending := s.pending ++ [s.nextId]
      closeFuture := some (.awaiting s.nextId) }.post (.close s.nextId))
  | late (hfuture : s.closeFuture = none) (hclosed : s.closed = true) :
    Change s { s with closeFuture := some .returned }
  | returned (hfuture : s.closeFuture = some .returned) :
    Change s { s with closeFuture := some .completed }
  | closed {id : ℕ} (hfuture : s.closeFuture = some (.awaiting id)) (hid : s.results id ≠ [])
    (hframe : s.frame = none) :
    Change s { s with closed := true, closeFuture := some .completed, ports := false }
  | failed {t : Isolate} {failure : Failure} {results : ℕ → List (Except Failure Worker.Value)}
    (hclosed : s.closed = false)
    (hresults : ∀ id, results id =
      if id ∈ s.pending then s.results id ++ [.error failure] else s.results id)
    (haccount : t.account = { s with
      closed := true, pending := [], results := results, workerFailure := some failure }.account)
    (hposted : Lightly s t) : Change s t

variable {U : ℕ → Prop} {s t u : Isolate} {stream : ℕ} {c : Consumer} {failure : Failure}

theorem Lightly.trans (h : Lightly s t) (h' : Lightly t u) : Lightly s u := by
  obtain ⟨more, hmore, hlight⟩ := h
  obtain ⟨more', hmore', hlight'⟩ := h'
  refine ⟨more ++ more', ?_, fun m hm ↦ ?_⟩
  · rw [hmore', hmore, List.append_assoc]
  · exact (List.mem_append.mp hm).elim (hlight m) (hlight' m)

theorem Lightly.of_eq (h : t.posted = s.posted) : Lightly s t := ⟨[], by simp [h], by simp⟩

theorem Touches.change (h : Touches s stream c t) : Change s t :=
  .quiet (account_of_core h.core) (.inl (core_eq streams (fun _ ↦ rfl) h.core)) h.posted

theorem Sound.change_call (h : Sound U s) (c : Call) : Change s (s.call c) := by
  have hself : Change s s := .quiet rfl (.inl rfl) (.of_eq rfl)
  cases c with
  | request r =>
    simp only [Isolate.call, Isolate.request]
    split_ifs with hyields hclosed
    · exact hself
    · exact hself
    · have hopen : s.closed = false ∧ s.closing = false := by simpa using hclosed
      exact .asked r hopen.2 hopen.1
  | stream sessionId input => exact .created _
  | listen stream =>
    have hlistened := listened (h.standings.standing stream).fresh
    simp only [Isolate.call]
    generalize s.listen stream = t at hlistened
    cases hlistened with
    | nothing => exact hself
    | refused => exact .quiet rfl (.inl rfl) (.of_eq rfl)
    | accepted _ _ hfresh hclosed =>
      obtain ⟨hclosing, hclosed⟩ := Bool.or_eq_false_iff.mp hclosed
      exact .listened hclosing hclosed rfl rfl rfl
  | pause stream => exact (Touches.set s stream _).change
  | resume stream =>
    exact (touches_resumed s stream (s.consumer stream).controller.resume.1
      (s.consumer stream).controller.resume.2).change
  | cancel stream =>
    exact (touches_ended s stream (s.consumer stream).controller.cancel.1
      (s.consumer stream).controller.cancel.2).change
  | close =>
    simp only [Isolate.call, Isolate.close]
    split_ifs with hfuture hclosed
    · exact hself
    · exact .late (by simpa using hfuture) hclosed
    · have hopen : s.closed = false := by simpa using hclosed
      rw [Isolate.request, if_neg (by simp [hopen])]
      exact .closing (by simpa using hfuture) hopen
  | crashForTesting => exact .quiet rfl (.inl rfl) ⟨[.testCrash], rfl, by simp [Posted.light]⟩

theorem foldl_complete_results {ids : List ℕ} (hnodup : ids.Nodup)
    (result : Except Failure Worker.Value) (s : Isolate) (id : ℕ) :
    (ids.foldl (fun s id ↦ s.complete id result) s).results id =
      if id ∈ ids then s.results id ++ [result] else s.results id := by
  induction ids generalizing s with
  | nil => rfl
  | cons other ids ih =>
    obtain ⟨hnew, hnodup⟩ := List.nodup_cons.mp hnodup
    rw [List.foldl_cons, ih hnodup]
    by_cases hsame : id = other
    · subst hsame
      simp [hnew, complete]
    · simp [hsame, complete]

theorem Sound.change_proceed {frame : Frame} (h : Sound U s) (hframe : s.frame = some frame) :
    Change s ({ s with frame := none }.proceed frame) := by
  set u : Isolate := { s with frame := none } with hu
  have hplain {t : Isolate} (hcore : t.core = u.core) (hposted : Lightly u t) : Change s t :=
    .quiet (account_of_core hcore : t.account = u.account)
      (.inl (core_eq streams (fun _ ↦ rfl) hcore : t.streams = u.streams)) hposted
  have hleave := touches_leave u
  cases frame with
  | receiving stream terminal =>
    have hreceived := touches_received (u.leave stream) stream terminal
    exact hplain (hreceived.core.trans (hleave stream).core)
      (Lightly.trans (hleave stream).posted hreceived.posted)
  | ending failure stream rest =>
    have hstandings := h.standings
    rw [Standings, waiting, subject, hframe] at hstandings
    have hended := touches_finished (u.leave stream) stream
    have hcore := hended.core.trans (hleave stream).core
    have htells := endStreams_tells failure rest (core_eq Isolate.frame (fun _ ↦ rfl) hcore)
      (ended_statuses (leave_statuses (s := u) hstandings stream).1).1
    refine .quiet ?_ (.inr (h.ending (by rw [Isolate.ending, hframe]))) ?_
    · have haccount : ((u.leave stream).ended stream).account = u.account := account_of_core hcore
      exact htells.account.trans haccount
    · exact (Lightly.trans (hleave stream).posted hended.posted).trans htells.posted
  | dispatching stream => exact hplain (hleave stream).core (hleave stream).posted

theorem Sound.change_exit (h : Sound U s) (hnodup : s.pending.Nodup) (hframe : s.frame = none)
    (detail : Option String) : Change s (s.workerEnded detail) := by
  cases hclosed : s.closed with
  | true =>
    rw [Isolate.workerEnded, if_pos hclosed]
    exact .quiet rfl (.inl rfl) (.of_eq rfl)
  | false =>
    obtain ⟨results, htells, hresults⟩ := h.workerEnded hframe hclosed detail
    refine .failed hclosed (fun id ↦ ?_) htells.account htells.posted
    rw [← hresults]
    exact foldl_complete_results hnodup _ _ id

theorem Sound.change {a : Action} (h : Sound U s) (hnodup : s.pending.Nodup)
    (ha : ∀ message, a ≠ .receive message) (ht : s.step a = some t) : Change s t := by
  cases a with
  | call c =>
    obtain rfl := Option.some.inj ht
    exact h.change_call c
  | returned =>
    simp only [Isolate.step] at ht
    split at ht
    · next frame hframe =>
      obtain rfl := Option.some.inj ht
      exact h.change_proceed hframe
    · cases ht
  | receive message => exact absurd rfl (ha message)
  | exit detail =>
    simp only [Isolate.step] at ht
    split_ifs at ht with hready
    obtain rfl := Option.some.inj ht
    exact h.change_exit hnodup (by simpa using (Bool.and_eq_true_iff.mp hready).1) detail
  | dispatch stream =>
    simp only [Isolate.step] at ht
    split_ifs at ht with hready
    split at ht
    · next c _ =>
      obtain rfl := Option.some.inj ht
      exact (touches_ended s stream c true).change
    · obtain rfl := Option.some.inj ht
      exact .quiet rfl (.inl rfl) (.of_eq rfl)
    · cases ht
  | closed =>
    simp only [Isolate.step] at ht
    split at ht
    · next id hfuture =>
      split_ifs at ht with hready
      obtain rfl := Option.some.inj ht
      obtain ⟨hframe, hid⟩ := Bool.and_eq_true_iff.mp hready
      exact .closed hfuture (by simpa using hid) (by simpa using hframe)
    · next hfuture =>
      split_ifs at ht
      obtain rfl := Option.some.inj ht
      exact .returned hfuture
    · cases ht

theorem Sound.frame_call (h : Sound U s) (c : Call) : (s.call c).frame = s.frame := by
  cases c with
  | request r =>
    simp only [Isolate.call, Isolate.request]
    split_ifs <;> rfl
  | listen stream =>
    have hlistened := listened (h.standings.standing stream).fresh
    simp only [Isolate.call]
    generalize s.listen stream = t at hlistened
    cases hlistened <;> rfl
  | resume stream =>
    exact core_eq frame (fun _ ↦ rfl) (touches_resumed s stream
      (s.consumer stream).controller.resume.1 (s.consumer stream).controller.resume.2).core
  | cancel stream =>
    exact core_eq frame (fun _ ↦ rfl) (touches_ended s stream
      (s.consumer stream).controller.cancel.1 (s.consumer stream).controller.cancel.2).core
  | close =>
    simp only [Isolate.call, Isolate.close]
    split_ifs with hfuture hclosed
    · rfl
    · rfl
    · rw [Isolate.request, if_neg (by simpa using hclosed)]
      rfl
  | _ => rfl

/-- Nothing more ends once the backend is closed. -/
theorem Sound.not_ending_step {a : Action} (h : Sound U s) (hclosed : s.closed = true)
    (hending : s.ending = false) (ht : s.step a = some t) : t.ending = false := by
  have hframe {t : Isolate} (hframe : t.frame = s.frame) : t.ending = false := by
    rwa [Isolate.ending, hframe]
  have hnone {t : Isolate} (hnone : t.frame = none) : t.ending = false := by
    rw [Isolate.ending, hnone]
  cases a with
  | call c =>
    obtain rfl := Option.some.inj ht
    exact hframe (h.frame_call c)
  | returned =>
    simp only [Isolate.step] at ht
    split at ht
    · next frame heq =>
      obtain rfl := Option.some.inj ht
      refine hnone ?_
      set u : Isolate := { s with frame := none } with hu
      cases frame with
      | receiving stream terminal =>
        exact (core_eq Isolate.frame (fun _ ↦ rfl)
          (touches_received (u.leave stream) stream terminal).core).trans
          (core_eq Isolate.frame (fun _ ↦ rfl) (touches_leave u stream).core)
      | ending failure stream rest =>
        rw [Isolate.ending, heq] at hending
        cases hending
      | dispatching stream =>
        exact core_eq Isolate.frame (fun _ ↦ rfl) (touches_leave u stream).core
    · cases ht
  | receive message =>
    simp only [Isolate.step] at ht
    split_ifs at ht with hready
    rw [(h.shut hclosed hending).1, Bool.and_false] at hready
    cases hready
  | exit detail =>
    simp only [Isolate.step] at ht
    split_ifs at ht with hready
    rw [(h.shut hclosed hending).1, Bool.and_false] at hready
    cases hready
  | dispatch stream =>
    simp only [Isolate.step] at ht
    split_ifs at ht with hready
    split at ht
    · next c _ =>
      obtain rfl := Option.some.inj ht
      exact hframe (core_eq frame (fun _ ↦ rfl) (touches_ended s stream c true).core)
    · obtain rfl := Option.some.inj ht
      rfl
    · cases ht
  | closed =>
    simp only [Isolate.step] at ht
    split at ht
    · split_ifs at ht
      obtain rfl := Option.some.inj ht
      exact hframe rfl
    · split_ifs at ht
      obtain rfl := Option.some.inj ht
      exact hframe rfl
    · cases ht

def awaits (s : Isolate) : Set Due :=
  {k | match k with | .reply id => id ∈ s.pending | .terminal stream => stream ∈ s.streams}

@[simp] theorem reply_mem_awaits (s : Isolate) (id : ℕ) : .reply id ∈ s.awaits ↔ id ∈ s.pending :=
  Iff.rfl

@[simp] theorem terminal_mem_awaits (s : Isolate) (stream : ℕ) :
    .terminal stream ∈ s.awaits ↔ stream ∈ s.streams :=
  Iff.rfl

theorem awaits_eq (hpending : t.pending = s.pending) (hstreams : t.streams = s.streams) :
    t.awaits = s.awaits := by
  ext k
  cases k with
  | reply id => rw [reply_mem_awaits, reply_mem_awaits, hpending]
  | terminal stream => rw [terminal_mem_awaits, terminal_mem_awaits, hstreams]

theorem nothing_open (h : s.awaits = ∅) : s.pending = [] ∧ s.streams = [] := by
  refine ⟨List.eq_nil_iff_forall_not_mem.mpr fun id hid ↦ ?_,
    List.eq_nil_iff_forall_not_mem.mpr fun stream hstream ↦ ?_⟩
  · exact (h ▸ (reply_mem_awaits s id).mpr hid : Due.reply id ∈ (∅ : Set Due))
  · exact (h ▸ (terminal_mem_awaits s stream).mpr hstream : Due.terminal stream ∈ (∅ : Set Due))

/-- What a step posts, and what the isolate waits for from then on. -/
inductive Grows (s t : Isolate) : Prop
  | lightly (hposted : Lightly s t)
    (hkept : t.workerFailure = none → s.workerFailure = none ∧ t.awaits = s.awaits)
  | asks {m : Posted} {k : Due} (hdue : m.due = some k) (hposted : t.posted = s.posted ++ [m])
    (hfailure : t.workerFailure = s.workerFailure) (hawaits : t.awaits = insert k s.awaits)

theorem Change.grows (h : Change s t) : Grows s t := by
  cases h with
  | quiet haccount hstreams hposted =>
    have hfailure : t.workerFailure = s.workerFailure :=
      field_eq account workerFailure (fun _ ↦ rfl) haccount
    refine .lightly hposted fun hnone ↦ ⟨hfailure.symm.trans hnone, ?_⟩
    refine awaits_eq (field_eq account pending (fun _ ↦ rfl) haccount) (hstreams.resolve_right ?_)
    rw [← hfailure, hnone]
    simp
  | created source => exact .lightly (.of_eq rfl) fun hnone ↦ ⟨hnone, awaits_eq rfl rfl⟩
  | @listened t stream _ _ _ _ haccount hstreams hposted =>
    refine .asks (k := .terminal stream) rfl hposted
      (field_eq account workerFailure (fun _ ↦ rfl) haccount) ?_
    ext k
    cases k with
    | reply id => simp [field_eq account pending (fun _ ↦ rfl) haccount]
    | terminal other => simp [hstreams, or_comm]
  | asked request hclosing hclosed =>
    refine .asks (k := .reply s.nextId) rfl rfl rfl ?_
    ext k
    cases k <;> simp [post, or_comm]
  | closing hfuture hclosed =>
    refine .asks (k := .reply s.nextId) rfl rfl rfl ?_
    ext k
    cases k <;> simp [post, or_comm]
  | late => exact .lightly (.of_eq rfl) fun hnone ↦ ⟨hnone, awaits_eq rfl rfl⟩
  | returned => exact .lightly (.of_eq rfl) fun hnone ↦ ⟨hnone, awaits_eq rfl rfl⟩
  | closed => exact .lightly (.of_eq rfl) fun hnone ↦ ⟨hnone, awaits_eq rfl rfl⟩
  | failed _ _ haccount hposted =>
    refine .lightly hposted fun hnone ↦ ?_
    rw [field_eq account workerFailure (fun _ ↦ rfl) haccount] at hnone
    cases hnone

theorem Grows.posted (h : Grows s t) : s.posted <+: t.posted := by
  cases h with
  | lightly hposted =>
    obtain ⟨more, hmore, -⟩ := hposted
    exact ⟨more, hmore.symm⟩
  | asks _ hposted => exact ⟨_, hposted.symm⟩

structure Received (s : Isolate) (m : Worker.Outgoing) (t : Isolate) : Prop where
  posted : Lightly s t
  failure : t.workerFailure = s.workerFailure
  closed : t.closed = s.closed
  awaits : ∀ k, k ∈ t.awaits ↔ k ∈ s.awaits ∧ pays m ≠ some k

theorem Sound.received (h : Sound U s) (hframe : s.frame = none) (m : Worker.Outgoing) :
    Received s m (s.receive m) := by
  cases m with
  | reply request result =>
    cases request with
    | none => exact ⟨.of_eq rfl, rfl, rfl, fun k ↦ by simp [pays, Isolate.receive]⟩
    | some id =>
      simp only [Isolate.receive]
      split_ifs with hmem
      · refine ⟨.of_eq rfl, rfl, rfl, fun k ↦ ?_⟩
        cases k with
        | reply other => simp [pays, complete, eq_comm (a := other)]
        | terminal stream => simp [pays, complete]
      · refine ⟨.of_eq rfl, rfl, rfl, fun k ↦ ?_⟩
        cases k with
        | reply other =>
          have hother : other ∈ s.pending → id ≠ other := fun hother heq ↦ hmem (heq ▸ hother)
          simpa [pays] using hother
        | terminal stream => simp [pays]
  | event stream e =>
    have hheard := receive_event h hframe stream e
    have hpending := field_eq account pending (fun _ ↦ rfl) hheard.account
    refine ⟨hheard.posted, field_eq account workerFailure (fun _ ↦ rfl) hheard.account,
      field_eq account Isolate.closed (fun _ ↦ rfl) hheard.account, fun k ↦ ?_⟩
    cases k with
    | reply id => cases htoken : e.isToken <;> simp [pays, hpending, htoken]
    | terminal other =>
      cases htoken : e.isToken <;> simp [pays, hheard.streams, htoken, eq_comm (a := other)]

end Isolate

end LibLitertLm.Backend
