import LibLitertLm.Backend.Changes
import Mathlib.Data.List.Nodup
import Mathlib.Data.List.Pairwise

namespace LibLitertLm.Backend

theorem Posted.asks_of_light {m : Posted} (h : m.light = true) : m.asks = none := by
  cases m <;> first | rfl | cases h

theorem Posted.asks_of_isClose {m : Posted} (h : m.isClose = true) : ∃ id, m = .close id := by
  cases m with
  | close id => exact ⟨id, rfl⟩
  | _ => cases h

namespace Isolate

def asked (s : Isolate) : List ℕ := s.posted.filterMap Posted.asks

/-- Every request that was issued is pending or has its result, and after the
`close` command nothing is sent that the worker answers. -/
structure Ledger (s : Isolate) : Prop where
  nodup : s.pending.Nodup
  asked : ∀ id ∈ s.pending, id ∈ s.asked
  distinct : s.asked.Nodup
  below : ∀ id ∈ s.asked, id < s.nextId
  unanswered : ∀ id, id ∉ s.asked ∨ id ∈ s.pending → s.results id = []
  answered : ∀ id ∈ s.asked, id ∉ s.pending → ∃ result, s.results id = [result]
  closing : ∀ m ∈ s.posted, m.isClose = true → s.closing = true ∧ s.closeFuture ≠ none
  last : s.posted.Pairwise fun m m' ↦ m.isClose = true → m'.light = true
  future : ∀ id, s.closeFuture = some (.awaiting id) → .close id ∈ s.posted

variable {U : ℕ → Prop} {s t : Isolate} {more : List Posted} {id : ℕ}

theorem Ledger.init : Ledger {} :=
  ⟨.nil, by simp, by simp [Isolate.asked], by simp [Isolate.asked], by simp, by
    simp [Isolate.asked],
    by simp, .nil, by simp⟩

theorem asked_append (h : t.posted = s.posted ++ more) :
    t.asked = s.asked ++ more.filterMap Posted.asks := by
  rw [Isolate.asked, h, List.filterMap_append, Isolate.asked]

namespace Ledger

theorem unknown (h : Ledger s) : s.nextId ∉ s.asked := fun hmem ↦ (h.below _ hmem).false

theorem unique (h : Ledger s) {m m' : Posted} (hm : m ∈ s.posted) (hm' : m' ∈ s.posted)
    (hid : m.asks = some id) (hid' : m'.asks = some id) : m = m' := by
  by_contra hne
  have hpairwise := List.pairwise_filterMap.mp h.distinct
  have hsymm : Std.Symm fun m m' : Posted ↦
      ∀ id, m.asks = some id → ∀ id', m'.asks = some id' → id ≠ id' :=
    ⟨fun _ _ hne id hid id' hid' heq ↦ hne id' hid' id hid heq.symm⟩
  exact hpairwise.forall hm hm' hne id hid id hid' rfl

theorem post (h : Ledger s) (haccount : t.account = s.account)
    (hposted : t.posted = s.posted ++ more)
    (hasks : ∀ m ∈ more, m.asks = none)
    (hlight : s.closing = true → ∀ m ∈ more, m.light = true) : Ledger t := by
  have hpending : t.pending = s.pending := field_eq account pending (fun _ ↦ rfl) haccount
  have hnext : t.nextId = s.nextId := field_eq account nextId (fun _ ↦ rfl) haccount
  have hresults : t.results = s.results := field_eq account results (fun _ ↦ rfl) haccount
  have hclosing : t.closing = s.closing := field_eq account Isolate.closing (fun _ ↦ rfl) haccount
  have hfuture : t.closeFuture = s.closeFuture :=
    field_eq account closeFuture (fun _ ↦ rfl) haccount
  have hasked : t.asked = s.asked := by
    rw [asked_append hposted, List.filterMap_eq_nil_iff.mpr hasks, List.append_nil]
  have hopen : ∀ m ∈ more, m.isClose = false := by
    intro m hm
    by_contra hclose
    obtain ⟨id, rfl⟩ := Posted.asks_of_isClose (by simpa using hclose)
    cases hasks _ hm
  constructor
  · rw [hpending]
    exact h.nodup
  · rw [hpending, hasked]
    exact h.asked
  · rw [hasked]
    exact h.distinct
  · rw [hasked, hnext]
    exact h.below
  · rw [hasked, hpending, hresults]
    exact h.unanswered
  · rw [hasked, hpending, hresults]
    exact h.answered
  · rw [hposted, hclosing, hfuture]
    intro m hm hclose
    refine h.closing m ((List.mem_append.mp hm).resolve_right fun hmore ↦ ?_) hclose
    cases (hopen m hmore).symm.trans hclose
  · rw [hposted, List.pairwise_append]
    refine ⟨h.last, List.pairwise_of_forall_mem_list fun m hm m' _ hclose ↦ ?_, ?_⟩
    · cases (hopen m hm).symm.trans hclose
    · exact fun m hm m' hm' hclose ↦ hlight (h.closing m hm hclose).1 m' hm'
  · rw [hfuture, hposted]
    exact fun id hid ↦ List.mem_append_left _ (h.future id hid)

theorem lightly (h : Ledger s) (haccount : t.account = s.account) (hposted : Lightly s t) :
    Ledger t := by
  obtain ⟨more, hmore, hlight⟩ := hposted
  exact h.post haccount hmore (fun m hm ↦ Posted.asks_of_light (hlight m hm)) fun _ ↦ hlight

theorem issue (h : Ledger s) (hopen : ∀ m ∈ s.posted, m.isClose = false) {m : Posted}
    (hasks : m.asks = some s.nextId) (hnext : t.nextId = s.nextId + 1)
    (hpending : t.pending = s.pending ++ [s.nextId]) (hresults : t.results = s.results)
    (hposted : t.posted = s.posted ++ [m])
    (hclosing : m.isClose = true → t.closing = true ∧ t.closeFuture ≠ none)
    (hfuture : ∀ id, t.closeFuture = some (.awaiting id) → .close id ∈ t.posted) : Ledger t := by
  have hasked : t.asked = s.asked ++ [s.nextId] := by
    rw [asked_append hposted]
    simp [hasks]
  have hnew : s.nextId ∉ s.pending := fun hmem ↦ h.unknown (h.asked _ hmem)
  constructor
  · rw [hpending]
    exact List.concat_eq_append ▸ h.nodup.concat hnew
  · rw [hpending, hasked]
    intro id hid
    rcases List.mem_append.mp hid with hid | hid
    · exact List.mem_append_left _ (h.asked id hid)
    · exact List.mem_append_right _ hid
  · rw [hasked]
    exact List.concat_eq_append ▸ h.distinct.concat h.unknown
  · rw [hasked, hnext]
    intro id hid
    rcases List.mem_append.mp hid with hid | hid
    · exact (h.below id hid).trans (Nat.lt_succ_self _)
    · exact List.mem_singleton.mp hid ▸ Nat.lt_succ_self _
  · rw [hasked, hpending, hresults]
    intro id hid
    by_cases hsame : id = s.nextId
    · subst hsame
      exact h.unanswered _ (.inl h.unknown)
    · exact h.unanswered id (by simpa [hsame] using hid)
  · rw [hasked, hpending, hresults]
    intro id hid hnot
    have hold : id ∉ s.pending ∧ id ≠ s.nextId := by simpa using hnot
    exact h.answered id (by simpa [hold.2] using hid) hold.1
  · rw [hposted]
    intro m' hm' hclose
    rcases List.mem_append.mp hm' with hm' | hm'
    · cases (hopen m' hm').symm.trans hclose
    · exact hclosing (List.mem_singleton.mp hm' ▸ hclose)
  · rw [hposted, List.pairwise_append]
    refine ⟨h.last, List.pairwise_singleton _ _, fun m' hm' _ _ hclose ↦ ?_⟩
    cases (hopen m' hm').symm.trans hclose
  · exact hfuture

/-- The flags that `_close` sets matter to nobody else. -/
theorem flags (h : Ledger s) (hpending : t.pending = s.pending) (hnext : t.nextId = s.nextId)
    (hresults : t.results = s.results) (hposted : t.posted = s.posted)
    (hclosing : t.closing = s.closing) (hsome : t.closeFuture ≠ none)
    (hfuture : ∀ id, t.closeFuture = some (.awaiting id) → s.closeFuture = some (.awaiting id)) :
    Ledger t := by
  have hasked : t.asked = s.asked := by rw [Isolate.asked, hposted, Isolate.asked]
  constructor
  · rw [hpending]
    exact h.nodup
  · rw [hpending, hasked]
    exact h.asked
  · rw [hasked]
    exact h.distinct
  · rw [hasked, hnext]
    exact h.below
  · rw [hasked, hpending, hresults]
    exact h.unanswered
  · rw [hasked, hpending, hresults]
    exact h.answered
  · rw [hposted, hclosing]
    exact fun m hm hclose ↦ ⟨(h.closing m hm hclose).1, hsome⟩
  · rw [hposted]
    exact h.last
  · rw [hposted]
    exact fun id hid ↦ h.future id (hfuture id hid)

theorem answer (h : Ledger s) (answers : ℕ → Bool)
    (hpending : t.pending = s.pending.filter fun id ↦ !answers id)
    (hresults : ∀ id, if id ∈ s.pending ∧ answers id = true
      then ∃ result, t.results id = s.results id ++ [result] else t.results id = s.results id)
    (hposted : t.posted = s.posted) (hnext : t.nextId = s.nextId) (hclosing : t.closing = s.closing)
    (hfuture : t.closeFuture = s.closeFuture) : Ledger t := by
  have hasked : t.asked = s.asked := by rw [Isolate.asked, hposted, Isolate.asked]
  have hmem (id : ℕ) : id ∈ t.pending ↔ id ∈ s.pending ∧ answers id = false := by
    rw [hpending]
    simp
  constructor
  · rw [hpending]
    exact h.nodup.filter _
  · rw [hasked]
    exact fun id hid ↦ h.asked id ((hmem id).mp hid).1
  · rw [hasked]
    exact h.distinct
  · rw [hasked, hnext]
    exact h.below
  · rw [hasked]
    intro id hid
    rw [hmem] at hid
    have hnot : ¬ (id ∈ s.pending ∧ answers id = true) := by
      intro hboth
      rcases hid with hid | hid
      · exact hid (h.asked id hboth.1)
      · cases hid.2.symm.trans hboth.2
    have hresult := hresults id
    rw [if_neg hnot] at hresult
    rw [hresult]
    exact h.unanswered id (hid.imp_right And.left)
  · rw [hasked]
    intro id hid hnot
    have hresult := hresults id
    by_cases hboth : id ∈ s.pending ∧ answers id = true
    · rw [if_pos hboth, h.unanswered id (.inr hboth.1)] at hresult
      exact hresult
    · rw [if_neg hboth] at hresult
      rw [hresult]
      refine h.answered id hid fun hpending' ↦ hnot ((hmem id).mpr ⟨hpending', ?_⟩)
      simpa using fun hanswers ↦ hboth ⟨hpending', hanswers⟩
  · rw [hposted, hclosing, hfuture]
    exact h.closing
  · rw [hposted]
    exact h.last
  · rw [hposted, hfuture]
    exact h.future

theorem change (h : Ledger s) (hchange : Change s t) : Ledger t := by
  have hopen (hclosing : s.closing = false) : ∀ m ∈ s.posted, m.isClose = false := by
    intro m hm
    by_contra hclose
    cases hclosing.symm.trans (h.closing m hm (by simpa using hclose)).1
  cases hchange with
  | quiet haccount hstreams hposted => exact h.lightly haccount hposted
  | created source =>
    constructor
    · exact h.nodup
    · exact h.asked
    · exact h.distinct
    · exact fun id hid ↦ (h.below id hid).trans (Nat.lt_succ_self _)
    · exact h.unanswered
    · exact h.answered
    · exact h.closing
    · exact h.last
    · exact h.future
  | listened hclosing hclosed haccount hstreams hposted =>
    refine h.post haccount hposted (fun m hm ↦ ?_) fun hclosing' ↦ ?_
    · rw [List.mem_singleton.mp hm]
      rfl
    · cases hclosing.symm.trans hclosing'
  | asked request hclosing hclosed =>
    refine h.issue (hopen hclosing) (m := .request s.nextId request) rfl rfl rfl rfl rfl
      (fun hclose ↦ by cases hclose) fun id hid ↦ ?_
    exact List.mem_append_left _ (h.future id hid)
  | closing hfuture hclosed =>
    refine h.issue (fun m hm ↦ ?_) (m := .close s.nextId) rfl rfl rfl rfl rfl
      (fun _ ↦ ⟨rfl, by simp [Isolate.post]⟩) fun id hid ↦ ?_
    · by_contra hclose
      exact (h.closing m hm (by simpa using hclose)).2 hfuture
    · obtain rfl : s.nextId = id := by simpa [Isolate.post] using hid
      exact List.mem_append_right _ (List.mem_singleton_self _)
  | late hfuture hclosed =>
    exact h.flags rfl rfl rfl rfl rfl (by simp) fun id hid ↦ by simp at hid
  | returned hfuture =>
    exact h.flags rfl rfl rfl rfl rfl (by simp) fun id hid ↦ by simp at hid
  | closed hfuture hid hframe =>
    exact h.flags rfl rfl rfl rfl rfl (by simp) fun id hid ↦ by simp at hid
  | @failed t failure results hclosed hresults haccount hposted =>
    refine Ledger.lightly (s := { s with
      closed := true, pending := [], results := results, workerFailure := some failure }) ?_
      haccount hposted
    refine h.answer (fun _ ↦ true) (by simp) (fun id ↦ ?_) rfl rfl rfl rfl
    dsimp only
    rw [hresults id]
    split_ifs with hboth hmem hmem
    · exact ⟨_, rfl⟩
    · exact absurd hboth.1 hmem
    · exact absurd ⟨hmem, rfl⟩ hboth
    · rfl

theorem receive (h : Ledger s) (hsound : Sound U s) (hframe : s.frame = none)
    (message : Worker.Outgoing) : Ledger (s.receive message) := by
  cases message with
  | reply request result =>
    cases request with
    | none => exact h
    | some id =>
      simp only [Isolate.receive]
      split_ifs with hmem
      · refine h.answer (fun other ↦ other = id) ?_ (fun other ↦ ?_) rfl rfl rfl rfl
        · simp [complete]
        · by_cases hsame : other = id
          · subst hsame
            rw [if_pos ⟨hmem, by simp⟩]
            exact ⟨result, by simp [complete]⟩
          · rw [if_neg (by simp [hsame])]
            simp [complete, hsame]
      · exact h
  | event stream e =>
    have hheard := receive_event hsound hframe stream e
    exact h.lightly hheard.account hheard.posted

end Ledger

end Isolate

end LibLitertLm.Backend
