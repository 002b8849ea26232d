import LibLitertLm.Worker.Tables
import LibLitertLm.Worker.Terminals

namespace LibLitertLm.Worker

open Code

namespace Tables

def setPhase (T : Tables) (r : ℕ) (phase : HandlePhase) : Tables :=
  { T with session := Function.update T.session r { T.session r with phase := phase } }

def cancel (T : Tables) (stream : ℕ) : Tables :=
  if (T.op stream).cancelRequested then T
  else
    { T.setPhase (T.op stream).session .cancelRequested with
      op := Function.update T.op stream { T.op stream with cancelRequested := true } }

def settle (T : Tables) (stream : ℕ) : Tables :=
  let r := (T.op stream).session
  { T with
    operations := T.operations.filter (· ≠ stream)
    session := Function.update T.session r
      { T.session r with
        streamId := none
        phase := if (T.session r).phase ≠ .closing then .ready else (T.session r).phase } }

def launch (T : Tables) (stream r : ℕ) : Tables :=
  { T with
    operations := T.operations ++ [stream]
    timer := true
    op := Function.update T.op stream ⟨r, false⟩
    session := Function.update T.session r
      { T.session r with phase := .generating, streamId := some stream } }

def abort (T : Tables) (stream r : ℕ) : Tables :=
  { T with
    op := Function.update T.op stream ⟨r, false⟩
    session := Function.update T.session r { T.session r with phase := .ready, streamId := none } }

/-- The phase that goes with what the session is doing. -/
def due (T : Tables) (r : ℕ) : HandlePhase :=
  match (T.session r).streamId with
  | none => .ready
  | some stream => if (T.op stream).cancelRequested then .cancelRequested else .generating

theorem setPhase_streamId (T : Tables) (r r' : ℕ) (phase : HandlePhase) :
    ((T.setPhase r phase).session r').streamId = (T.session r').streamId := by
  by_cases h : r' = r
  · subst h
    simp [setPhase]
  · simp [setPhase, h]

theorem setPhase_engineId (T : Tables) (r r' : ℕ) (phase : HandlePhase) :
    ((T.setPhase r phase).session r').engineId = (T.session r').engineId := by
  by_cases h : r' = r
  · subst h
    simp [setPhase]
  · simp [setPhase, h]

theorem setPhase_phase (T : Tables) {r r' : ℕ} (h : r' ≠ r) (phase : HandlePhase) :
    ((T.setPhase r phase).session r').phase = (T.session r').phase := by
  simp [setPhase, h]

theorem cancel_spec (T : Tables) (stream : ℕ) :
    (T.cancel stream).sessions = T.sessions ∧ (T.cancel stream).operations = T.operations ∧
      (T.cancel stream).engines = T.engines ∧
      (T.cancel stream).timer = T.timer ∧ (T.cancel stream).nextSession = T.nextSession ∧
      (T.cancel stream).nextEngine = T.nextEngine := by
  unfold cancel
  split_ifs <;> exact ⟨rfl, rfl, rfl, rfl, rfl, rfl⟩

theorem cancel_session (T : Tables) (stream r : ℕ) :
    ((T.cancel stream).session r).streamId = (T.session r).streamId ∧
      ((T.cancel stream).session r).engineId = (T.session r).engineId ∧
      (r ≠ (T.op stream).session → ((T.cancel stream).session r).phase = (T.session r).phase) := by
  unfold cancel
  split_ifs
  · exact ⟨rfl, rfl, fun _ ↦ rfl⟩
  · exact ⟨T.setPhase_streamId _ _ _, T.setPhase_engineId _ _ _, fun h ↦ T.setPhase_phase h _⟩

theorem cancel_op (T : Tables) (stream other : ℕ) :
    ((T.cancel stream).op other).session = (T.op other).session ∧
      ((T.cancel stream).op other).cancelRequested =
        if other = stream then true else (T.op other).cancelRequested := by
  unfold cancel
  by_cases h : other = stream
  · subst h
    rw [if_pos rfl]
    split_ifs with hc
    · exact ⟨rfl, hc⟩
    · simp
  · split_ifs <;> simp [h]

theorem settle_session (T : Tables) (stream r : ℕ) :
    ((T.settle stream).session r).engineId = (T.session r).engineId ∧
      (r = (T.op stream).session → ((T.settle stream).session r).streamId = none) ∧
      (r ≠ (T.op stream).session → (T.settle stream).session r = T.session r) := by
  by_cases h : r = (T.op stream).session
  · subst h
    simp [settle]
  · simp [settle, h]

end Tables

/-- The tables agree with each other: sessions and operations name each other,
the phase of a session is the due one, its engine is ready, and the pump runs
while there are operations. Sessions in `d` and engines in `e` are on their way
out and need not keep their part. -/
structure Tabled (d e : ℕ → Prop) (T : Tables) : Prop where
  positive : 0 < T.nextSession
  sessionBound : ∀ r ∈ T.sessions, r ≠ 0 ∧ r < T.nextSession
  engineBound : ∀ x ∈ T.engines, x.1 < T.nextEngine
  engineIds : (T.engines.map Prod.fst).Nodup
  nodup : T.operations.Nodup
  named : ∀ r ∈ T.sessions, ∀ stream, (T.session r).streamId = some stream →
    stream ∈ T.operations ∧ (T.op stream).session = r
  registered : ∀ stream ∈ T.operations, (T.op stream).session ∈ T.sessions ∧
    (T.session (T.op stream).session).streamId = some stream
  phase : ∀ r ∈ T.sessions, ¬ d r → (T.session r).phase = T.due r
  engine : ∀ r ∈ T.sessions, ¬ e (T.session r).engineId →
    ∃ x, ((T.session r).engineId, x) ∈ T.engines ∧ x.phase = .ready
  timer : T.operations ≠ [] → T.timer = true

namespace Tabled

variable {d e : ℕ → Prop} {T : Tables} {stream r : ℕ}

theorem session_ne (h : Tabled d e T) (hstream : stream ∈ T.operations) :
    (T.op stream).session ≠ 0 :=
  (h.sessionBound _ (h.registered stream hstream).1).1

theorem due_ne_closing (T : Tables) (r : ℕ) : T.due r ≠ .closing := by
  unfold Tables.due
  split
  · simp
  · split_ifs <;> simp

theorem cancel (h : Tabled d e T) (hstream : stream ∈ T.operations) :
    Tabled d e (T.cancel stream) := by
  obtain ⟨hsessions, hoperations, hengines, htimer, hnextSession, hnextEngine⟩ :=
    T.cancel_spec stream
  obtain ⟨hmem, hself⟩ := h.registered stream hstream
  refine ⟨?_, ?_, ?_, ?_, ?_, fun r hr other hother ↦ ?_, fun other hother ↦ ?_, fun r hr hd ↦ ?_,
    fun r hr he ↦ ?_, ?_⟩
  · rw [hnextSession]
    exact h.positive
  · rw [hsessions, hnextSession]
    exact h.sessionBound
  · rw [hengines, hnextEngine]
    exact h.engineBound
  · rw [hengines]
    exact h.engineIds
  · rw [hoperations]
    exact h.nodup
  · rw [(T.cancel_session stream r).1] at hother
    rw [hoperations, (T.cancel_op stream other).1]
    exact h.named r (hsessions ▸ hr) other hother
  · rw [hoperations] at hother
    rw [(T.cancel_op stream other).1, (T.cancel_session stream _).1, hsessions]
    exact h.registered other hother
  · have hr' : r ∈ T.sessions := hsessions ▸ hr
    unfold Tables.due
    rw [(T.cancel_session stream r).1]
    by_cases hsame : r = (T.op stream).session
    · subst hsame
      simp only [hself, (T.cancel_op stream stream).2, if_true]
      unfold Tables.cancel
      split_ifs with hc
      · rw [h.phase _ hmem hd, Tables.due, hself]
        simp [hc]
      · simp [Tables.setPhase]
    · rw [(T.cancel_session stream r).2.2 hsame, h.phase r hr' hd, Tables.due]
      cases hother : (T.session r).streamId with
      | none => rfl
      | some other =>
        have hne : other ≠ stream := by
          rintro rfl
          exact hsame (h.named r hr' other hother).2.symm
        simp only [(T.cancel_op stream other).2, if_neg hne]
  · rw [(T.cancel_session stream r).2.1] at he ⊢
    rw [hengines]
    exact h.engine r (hsessions ▸ hr) he
  · rw [hoperations, htimer]
    exact h.timer

theorem settle (h : Tabled d e T) (hstream : stream ∈ T.operations) :
    Tabled d e (T.settle stream) := by
  obtain ⟨hmem, hself⟩ := h.registered stream hstream
  have hoperations (other : ℕ) :
      other ∈ (T.settle stream).operations ↔ other ∈ T.operations ∧ other ≠ stream := by
    simp [Tables.settle]
  have hother (r : ℕ) (hr : r ∈ T.sessions) (other : ℕ) (hne : other ≠ stream)
      (hstreamId : (T.session r).streamId = some other) : r ≠ (T.op stream).session := by
    rintro rfl
    exact hne (Option.some.inj (hstreamId.symm.trans hself))
  refine ⟨h.positive, h.sessionBound, h.engineBound, h.engineIds, h.nodup.filter _,
    fun r hr other ho ↦ ?_,
    fun other ho ↦ ?_, fun r hr hd ↦ ?_, fun r hr he ↦ ?_, fun hne ↦ ?_⟩
  · obtain ⟨-, hnone, hkept⟩ := T.settle_session stream r
    by_cases hsame : r = (T.op stream).session
    · rw [hnone hsame] at ho
      cases ho
    · rw [hkept hsame] at ho
      obtain ⟨hlive, hsession⟩ := h.named r hr other ho
      refine ⟨(hoperations other).mpr ⟨hlive, ?_⟩, hsession⟩
      rintro rfl
      exact hsame hsession.symm
  · obtain ⟨hlive, hne⟩ := (hoperations other).mp ho
    obtain ⟨hsession, hstreamId⟩ := h.registered other hlive
    refine ⟨hsession, ?_⟩
    have hkept := (T.settle_session stream (T.op other).session).2.2
      (hother _ hsession other hne hstreamId)
    exact (congrArg SessionEntry.streamId hkept).trans hstreamId
  · obtain ⟨-, hnone, hkept⟩ := T.settle_session stream r
    by_cases hsame : r = (T.op stream).session
    · have hphase := h.phase r hr hd
      unfold Tables.due
      rw [hnone hsame]
      subst hsame
      have hne := due_ne_closing T (T.op stream).session
      rw [← hphase] at hne
      simp [Tables.settle, hne]
    · unfold Tables.due
      rw [hkept hsame]
      exact h.phase r hr hd
  · have hengineId := (T.settle_session stream r).1
    rw [hengineId] at he ⊢
    exact h.engine r hr he
  · refine h.timer fun hnil ↦ hne ?_
    simp [Tables.settle, hnil]

theorem launch (h : Tabled d e T) (hr : r ∈ T.sessions) (hidle : (T.session r).streamId = none)
    (hnew : stream ∉ T.operations) : Tabled d e (T.launch stream r) := by
  have hsession (r' : ℕ) (hne : r' ≠ r) : (T.launch stream r).session r' = T.session r' := by
    simp [Tables.launch, hne]
  have hself : (T.launch stream r).session r =
      { T.session r with phase := .generating, streamId := some stream } := by
    simp [Tables.launch]
  have hop (other : ℕ) (hne : other ≠ stream) : (T.launch stream r).op other = T.op other := by
    simp [Tables.launch, hne]
  have hnewOp : (T.launch stream r).op stream = ⟨r, false⟩ := by simp [Tables.launch]
  have hoperations (other : ℕ) :
      other ∈ (T.launch stream r).operations ↔ other ∈ T.operations ∨ other = stream := by
    simp [Tables.launch]
  have hold (other : ℕ) (hother : other ∈ T.operations) : other ≠ stream :=
    fun heq ↦ hnew (heq ▸ hother)
  refine ⟨h.positive, h.sessionBound, h.engineBound, h.engineIds, ?_, fun r' hr' other ho ↦ ?_,
    fun other ho ↦ ?_, fun r' hr' hd ↦ ?_, fun r' hr' he ↦ ?_, fun _ ↦ rfl⟩
  · refine List.nodup_append.mpr ⟨h.nodup, by simp, fun other ho other' ho' ↦ ?_⟩
    rw [List.mem_singleton] at ho'
    exact ho' ▸ hold other ho
  · by_cases hsame : r' = r
    · subst hsame
      rw [hself] at ho
      obtain rfl : stream = other := Option.some.inj ho
      exact ⟨(hoperations _).mpr (.inr rfl), by rw [hnewOp]⟩
    · rw [hsession r' hsame] at ho
      obtain ⟨hlive, hs⟩ := h.named r' hr' other ho
      exact ⟨(hoperations _).mpr (.inl hlive), by rw [hop other (hold other hlive), hs]⟩
  · rcases (hoperations other).mp ho with ho | rfl
    · obtain ⟨hs, hstreamId⟩ := h.registered other ho
      have hne : (T.op other).session ≠ r := by
        rintro rfl
        rw [hidle] at hstreamId
        cases hstreamId
      rw [hop other (hold other ho), hsession _ hne]
      exact ⟨hs, hstreamId⟩
    · rw [hnewOp, hself]
      exact ⟨hr, rfl⟩
  · unfold Tables.due
    by_cases hsame : r' = r
    · subst hsame
      rw [hself]
      simp [hnewOp]
    · rw [hsession r' hsame, h.phase r' hr' hd, Tables.due]
      cases hs : (T.session r').streamId with
      | none => rfl
      | some other => simp only [hop other (hold other (h.named r' hr' other hs).1)]
  · by_cases hsame : r' = r
    · subst hsame
      rw [hself] at he ⊢
      exact h.engine r' hr' he
    · rw [hsession r' hsame] at he ⊢
      exact h.engine r' hr' he

theorem abort (h : Tabled d e T) (hidle : (T.session r).streamId = none)
    (hnew : stream ∉ T.operations) : Tabled d e (T.abort stream r) := by
  have hsession (r' : ℕ) (hne : r' ≠ r) : (T.abort stream r).session r' = T.session r' := by
    simp [Tables.abort, hne]
  have hself : (T.abort stream r).session r =
      { T.session r with phase := .ready, streamId := none } := by
    simp [Tables.abort]
  have hop (other : ℕ) (hother : other ∈ T.operations) :
      (T.abort stream r).op other = T.op other := by
    have hne : other ≠ stream := fun heq ↦ hnew (heq ▸ hother)
    simp [Tables.abort, hne]
  have hstreamId (r' : ℕ) : ((T.abort stream r).session r').streamId = (T.session r').streamId := by
    by_cases hsame : r' = r
    · subst hsame
      rw [hself, hidle]
    · rw [hsession r' hsame]
  refine ⟨h.positive, h.sessionBound, h.engineBound, h.engineIds, h.nodup, fun r' hr' other ho ↦ ?_,
    fun other ho ↦ ?_, fun r' hr' hd ↦ ?_, fun r' hr' he ↦ ?_, h.timer⟩
  · rw [hstreamId] at ho
    obtain ⟨hlive, hs⟩ := h.named r' hr' other ho
    exact ⟨hlive, by rw [hop other hlive, hs]⟩
  · rw [hop other ho, hstreamId]
    exact h.registered other ho
  · unfold Tables.due
    rw [hstreamId]
    by_cases hsame : r' = r
    · subst hsame
      rw [hself, hidle]
    · rw [hsession r' hsame, h.phase r' hr' hd, Tables.due]
      cases hs : (T.session r').streamId with
      | none => rfl
      | some other => simp only [hop other (h.named r' hr' other hs).1]
  · by_cases hsame : r' = r
    · subst hsame
      rw [hself] at he ⊢
      exact h.engine r' hr' he
    · rw [hsession r' hsame] at he ⊢
      exact h.engine r' hr' he

theorem fresh (h : Tabled d e T) (hr : r ∉ T.sessions) (x : SessionEntry) :
    Tabled d e { T with session := Function.update T.session r x } := by
  have hsession (r' : ℕ) (hr' : r' ∈ T.sessions) :
      Function.update T.session r x r' = T.session r' := by
    have hne : r' ≠ r := by
      rintro rfl
      exact hr hr'
    rw [Function.update_of_ne hne]
  refine ⟨h.positive, h.sessionBound, h.engineBound, h.engineIds, h.nodup, fun r' hr' other ho ↦ ?_,
    fun other ho ↦ ?_, fun r' hr' hd ↦ ?_, fun r' hr' he ↦ ?_, h.timer⟩
  · dsimp only at ho
    rw [hsession r' hr'] at ho
    exact h.named r' hr' other ho
  · obtain ⟨hmem, hstreamId⟩ := h.registered other ho
    dsimp only
    rw [hsession _ hmem]
    exact ⟨hmem, hstreamId⟩
  · unfold Tables.due
    dsimp only
    rw [hsession r' hr']
    exact h.phase r' hr' hd
  · dsimp only at he ⊢
    rw [hsession r' hr'] at he ⊢
    exact h.engine r' hr' he

theorem register (h : Tabled d e T) {engineId : ℕ} {x : NativeEngine}
    (hself : T.session T.nextSession = ⟨engineId, .ready, none⟩) (hx : (engineId, x) ∈ T.engines)
    (hready : x.phase = .ready) :
    Tabled d e { T with
      nextSession := T.nextSession + 1, sessions := T.sessions ++ [T.nextSession] } := by
  have hcase (r : ℕ) (hr : r ∈ T.sessions ++ [T.nextSession]) : r ∈ T.sessions ∨
    r = T.nextSession := by
    simpa using hr
  refine ⟨Nat.succ_pos _, fun r hr ↦ ?_, h.engineBound, h.engineIds, h.nodup,
    fun r hr other ho ↦ ?_, fun other ho ↦ ?_, fun r hr hd ↦ ?_, fun r hr he ↦ ?_, h.timer⟩
  · have hpositive := h.positive
    dsimp only
    rcases hcase r hr with hr | rfl
    · obtain ⟨hne, hlt⟩ := h.sessionBound r hr
      exact ⟨hne, hlt.trans (Nat.lt_succ_self _)⟩
    · omega
  · rcases hcase r hr with hr | rfl
    · exact h.named r hr other ho
    · dsimp only at ho
      rw [hself] at ho
      cases ho
  · obtain ⟨hmem, hstreamId⟩ := h.registered other ho
    exact ⟨List.mem_append_left _ hmem, hstreamId⟩
  · rcases hcase r hr with hr | rfl
    · exact h.phase r hr hd
    · unfold Tables.due
      dsimp only
      rw [hself]
  · rcases hcase r hr with hr | rfl
    · exact h.engine r hr he
    · dsimp only
      rw [hself]
      exact ⟨x, hx, hready⟩

theorem load (h : Tabled d e T) (x : NativeEngine) :
    Tabled d e { T with
      nextEngine := T.nextEngine + 1, engines := T.engines ++ [(T.nextEngine, x)] } := by
  refine { h with engineBound := fun y hy ↦ ?_, engineIds := ?_, engine := fun r hr he ↦ ?_ }
  · rcases List.mem_append.mp hy with hy | hy
    · exact (h.engineBound y hy).trans (Nat.lt_succ_self _)
    · rw [List.mem_singleton.mp hy]
      exact Nat.lt_succ_self _
  · rw [List.map_append, List.nodup_append]
    refine ⟨h.engineIds, by simp, fun id hid id' hid' ↦ ?_⟩
    obtain ⟨y, hy, rfl⟩ := List.mem_map.mp hid
    obtain rfl : id' = T.nextEngine := by simpa using hid'
    exact (h.engineBound y hy).ne
  · obtain ⟨y, hy, hready⟩ := h.engine r hr he
    exact ⟨y, List.mem_append_left _ hy, hready⟩

theorem setPhase (h : Tabled d e T) (r : ℕ) (phase : HandlePhase) :
    Tabled (fun r' ↦ d r' ∨ r' = r) e (T.setPhase r phase) := by
  refine ⟨h.positive, h.sessionBound, h.engineBound, h.engineIds, h.nodup, fun r' hr' other ho ↦ ?_,
    fun other ho ↦ ?_, fun r' hr' hd ↦ ?_, fun r' hr' he ↦ ?_, h.timer⟩
  · rw [T.setPhase_streamId] at ho
    exact h.named r' hr' other ho
  · rw [T.setPhase_streamId]
    exact h.registered other ho
  · rw [not_or] at hd
    unfold Tables.due
    rw [T.setPhase_streamId, T.setPhase_phase hd.2]
    exact h.phase r' hr' hd.1
  · rw [T.setPhase_engineId] at he ⊢
    exact h.engine r' hr' he

theorem remove (h : Tabled (fun r' ↦ d r' ∨ r' = r) e T) (hidle : (T.session r).streamId = none) :
    Tabled d e { T with sessions := T.sessions.filter (· ≠ r) } := by
  have hmem (r' : ℕ) : r' ∈ T.sessions.filter (· ≠ r) ↔ r' ∈ T.sessions ∧ r' ≠ r := by simp
  refine ⟨h.positive, fun r' hr' ↦ h.sessionBound r' ((hmem r').mp hr').1, h.engineBound,
    h.engineIds, h.nodup, fun r' hr' ↦ h.named r' ((hmem r').mp hr').1, fun other ho ↦ ?_,
    fun r' hr' hd ↦ ?_, fun r' hr' ↦ h.engine r' ((hmem r').mp hr').1, h.timer⟩
  · obtain ⟨hr', hstreamId⟩ := h.registered other ho
    refine ⟨(hmem _).mpr ⟨hr', fun heq ↦ ?_⟩, hstreamId⟩
    rw [heq, hidle] at hstreamId
    cases hstreamId
  · obtain ⟨hr', hne⟩ := (hmem r').mp hr'
    exact h.phase r' hr' (by simp [hd, hne])

theorem setEngine (h : Tabled d e T) (id : ℕ) (phase : HandlePhase) :
    Tabled d (fun id' ↦ e id' ∨ id' = id) { T with
      engines :=
        T.engines.map fun x ↦ if x.1 = id then (x.1, { x.2 with phase := phase }) else x } := by
  have hid (x : ℕ × NativeEngine) :
      (if x.1 = id then (x.1, { x.2 with phase := phase }) else x).1 = x.1 := by
    split_ifs <;> rfl
  refine { h with engineBound := fun y hy ↦ ?_, engineIds := ?_, engine := fun r hr he ↦ ?_ }
  · obtain ⟨x, hx, rfl⟩ := List.mem_map.mp hy
    rw [hid]
    exact h.engineBound x hx
  · have hids : (T.engines.map fun x ↦
        if x.1 = id then (x.1, { x.2 with phase := phase }) else x).map Prod.fst =
          T.engines.map Prod.fst := by
      rw [List.map_map]
      exact List.map_congr_left fun x _ ↦ hid x
    rw [hids]
    exact h.engineIds
  · rw [not_or] at he
    obtain ⟨x, hx, hready⟩ := h.engine r hr he.1
    refine ⟨x, List.mem_map.mpr ⟨_, hx, ?_⟩, hready⟩
    exact if_neg he.2

theorem unload {id : ℕ} (h : Tabled d (fun id' ↦ e id' ∨ id' = id) T)
    (hgone : ∀ r ∈ T.sessions, (T.session r).engineId ≠ id) :
    Tabled d e { T with engines := T.engines.filter fun x ↦ x.1 ≠ id } := by
  refine { h with engineBound := fun x hx ↦ ?_, engineIds := ?_, engine := fun r hr he ↦ ?_ }
  · exact h.engineBound x (List.mem_filter.mp hx).1
  · exact h.engineIds.sublist (List.filter_sublist.map _)
  · obtain ⟨x, hx, hready⟩ := h.engine r hr (by simp [he, hgone r hr])
    refine ⟨x, List.mem_filter.mpr ⟨hx, ?_⟩, hready⟩
    simpa using hgone r hr

end Tabled

section Steps

variable {s : State} {r stream : ℕ}

theorem State.tables_setSession (s : State) (hr : r ≠ 0) (x : NativeSession) :
    State.tables { s with session := Function.update s.session r x } =
      { s.tables with session := Function.update s.tables.session r x.entry } := by
  have hsession : (fun r' ↦ if r' = 0 then (⟨0, .ready, none⟩ : SessionEntry)
      else (Function.update s.session r x r').entry) =
        Function.update s.tables.session r x.entry := by
    funext r'
    by_cases hsame : r' = r
    · subst hsame
      simp [hr]
    · simp [State.tables, hsame]
  simp only [State.tables, hsession]

theorem State.tables_setOp (s : State) (stream : ℕ) (o : Op) :
    State.tables { s with op := Function.update s.op stream o } =
      { s.tables with op := Function.update s.tables.op stream o.entry } := by
  have hop : (fun other ↦ (Function.update s.op stream o other).entry) =
      Function.update s.tables.op stream o.entry := by
    funext other
    by_cases hsame : other = stream
    · subst hsame
      simp
    · simp [State.tables, hsame]
  simp only [State.tables, hop]

theorem State.tables_setPhase (s : State) (hr : r ≠ 0) (phase : HandlePhase) :
    (s.setPhase r phase).tables = s.tables.setPhase r phase := by
  rw [State.setPhase, State.tables_setSession _ hr, Tables.setPhase, State.tables_session _ hr]
  rfl

def Sure (m : M α) : Prop := ∀ w, Post m w fun result _ ↦ ∃ a, result = .ok a

theorem Sure.bind {m : M α} {f : α → M β} (hm : Sure m) (hf : ∀ a, Sure (f a)) :
    Sure (m >>= f) := by
  intro w
  rw [post_bind]
  refine (hm w).mono fun result t h ↦ ?_
  obtain ⟨a, rfl⟩ := h
  exact hf a t

theorem Sure.ite {p : Prop} [Decidable p] {m n : M α} (hm : Sure m) (hn : Sure n) :
    Sure (if p then m else n) := by
  split_ifs
  · exact hm
  · exact hn

theorem sure_update (f : State → State) : Sure (update f) := fun _ ↦ ⟨_, rfl⟩

theorem sure_read (f : State → α) : Sure (read f) := fun _ ↦ ⟨_, rfl⟩

theorem sure_pure (a : α) : Sure (pure a : M α) := fun _ ↦ ⟨_, rfl⟩

theorem sure_send (message : Outgoing) : Sure (send message) := fun _ ↦ ⟨_, rfl⟩

theorem sure_useHandle (session : NativeSession) : Sure (useHandle session) :=
  .ite (sure_update _) (sure_update _)

theorem sure_deleteHandle (r : ℕ) : Sure (deleteHandle r) := by
  refine .bind (sure_read _) fun session ↦ .bind (.ite ?_ (sure_pure _)) fun _ ↦
    .ite ?_ (sure_pure _)
  · exact .bind (sure_update _) fun _ ↦ sure_update _
  · exact .bind (sure_update _) fun _ ↦ sure_update _

variable {w : NativeWorker}

theorem Aside.post_bind {m : M α} {f : α → M β} {Q : Except Thrown β → NativeWorker → Prop}
    (hm : Aside m) (hf : ∀ a t, t.state.tables = w.state.tables → Post (f a) t Q)
    (herror : ∀ e t, t.state.tables = w.state.tables → Q (.error e) t) : Post (m >>= f) w Q := by
  rw [Code.post_bind]
  refine (hm w.state.tables w rfl).mono fun result t ht ↦ ?_
  cases result with
  | error e => exact herror e t ht
  | ok a => exact hf a t ht

theorem Aside.post_sure {m : M α} {f : α → M β} {Q : Except Thrown β → NativeWorker → Prop}
    (hm : Aside m) (hs : Sure m) (hf : ∀ a t, t.state.tables = w.state.tables → Post (f a) t Q) :
    Post (m >>= f) w Q := by
  rw [Code.post_bind]
  refine ((hm w.state.tables w rfl).and (hs w)).mono fun result t h ↦ ?_
  obtain ⟨ht, a, rfl⟩ := h
  exact hf a t ht

/-- Code that keeps the tables keeps what they are like. -/
theorem Aside.keeps {m : M α} (hm : Aside m) (P : Tables → Prop) :
    Keeps (fun w ↦ P w.state.tables) m := by
  intro w hw
  refine (hm w.state.tables w rfl).mono fun _ t ht ↦ ?_
  have ht : t.state.tables = w.state.tables := ht
  show P t.state.tables
  rw [ht]
  exact hw

theorem post_cancel_tables (hr : (w.state.op stream).session ≠ 0) (overflow : Bool) :
    Post (cancel stream overflow) w fun result t ↦
      result = .ok () ∧ t.state.tables = w.state.tables.cancel stream := by
  rw [cancel, post_read_bind]
  cases hc : (w.state.op stream).cancelRequested with
  | true =>
    have hself : w.state.tables.cancel stream = w.state.tables :=
      if_pos (show (w.state.tables.op stream).cancelRequested = true from hc)
    exact ⟨rfl, hself.symm⟩
  | false =>
    refine (post_bind ..).mpr ((post_update _).mpr ((post_bind ..).mpr ((post_update _).mpr ?_)))
    refine Aside.post_sure (.when (inside_bridge _ _).aside₀)
      (.ite (sure_update _) (sure_pure _)) fun _ t ht ↦ ?_
    rw [post_read_bind]
    refine (((inside_useHandle _).aside₀ t.state.tables t rfl).and (sure_useHandle _ t)).mono
      fun result u hu ↦ ?_
    obtain ⟨hu, ⟨⟩, rfl⟩ := hu
    refine ⟨rfl, hu.trans (ht.trans ?_)⟩
    rw [State.tables_setSession _ hr, State.tables_setOp, Tables.cancel,
      if_neg (show ¬ (w.state.tables.op stream).cancelRequested =
        true by simp [State.tables, Op.entry, hc])]
    simp only [Tables.setPhase, State.tables, Op.entry, NativeSession.entry, hr, if_false]

theorem sure_event (stream : ℕ) (e : Event) : Sure (event stream e) :=
  .bind (sure_read _) fun _ ↦ .ite (sure_send _) (sure_pure _)

theorem post_settle_tables (hr : (w.state.op stream).session ≠ 0) (e : Event) :
    Post (settle stream e) w fun result t ↦
      result = .ok () ∧ t.state.tables = w.state.tables.settle stream := by
  rw [settle, post_read_bind]
  refine (post_bind ..).mpr ((post_update _).mpr ((post_bind ..).mpr ((post_update _).mpr ?_)))
  refine (post_bind ..).mpr ((post_update _).mpr ?_)
  refine ((aside_event stream e _ _ rfl).and (sure_event stream e _)).mono fun result t ht ↦ ?_
  obtain ⟨ht, ⟨⟩, rfl⟩ := ht
  refine ⟨rfl, ht.trans ?_⟩
  rw [State.tables_setSession _ hr]
  simp only [Tables.settle, State.tables, Op.entry, NativeSession.entry, hr, if_false]
  rfl

def Finishes (T : Tables) (stream : ℕ) (result : Except Thrown Unit) (T' : Tables) : Prop :=
  T' = T ∧ ((∃ e, result = .error e) ∨ result = .ok () ∧ stream ∉ T.operations) ∨
    result = .ok () ∧ stream ∈ T.operations ∧ T' = T.settle stream

variable {rt : Runtime}

theorem post_finish_tables (hr : stream ∈ w.state.operations → (w.state.op stream).session ≠ 0)
    (kind : ℕ) (detail : String) (failureAfterStop : Bool) (a : PumpAnswers) :
    Post (finish rt stream kind detail failureAfterStop a) w fun result t ↦
      Finishes w.state.tables stream result t.state.tables ∧ (kind ≠ 1 → result = .ok ()) := by
  rw [finish, post_read_bind]
  split_ifs with hknown
  · have hlive : stream ∈ w.state.operations := by simpa using hknown
    rw [post_read_bind, post_read_bind]
    dsimp only
    have hsettle (e : Event) (t : NativeWorker) (ht : t.state.tables = w.state.tables) :
        Post (settle stream e) t fun result u ↦
          Finishes w.state.tables stream result u.state.tables ∧ (kind ≠ 1 → result = .ok ()) := by
      have hop : (t.state.op stream).session = (w.state.op stream).session :=
        congrArg (fun T : Tables ↦ (T.op stream).session) ht
      refine (post_settle_tables (hop ▸ hr hlive) e).mono fun result u hresult ↦ ?_
      obtain ⟨hok, hu⟩ := hresult
      exact ⟨.inr ⟨hok, hlive, ht ▸ hu⟩, fun _ ↦ hok⟩
    split_ifs with hstop
    · exact (inside_deleteHandle _).aside.post_sure (sure_deleteHandle _) fun _ t ht ↦
        hsettle _ t ht
    · have hkind : kind = 1 := by
        by_contra hkind
        simp [hkind] at hstop
      have herror (e : Thrown) (t : NativeWorker) (ht : t.state.tables = w.state.tables) :
          Finishes w.state.tables stream (.error e) t.state.tables ∧
            (kind ≠ 1 → (.error e : Except Thrown Unit) = .ok ()) :=
        ⟨.inl ⟨ht, .inl ⟨e, rfl⟩⟩, fun h ↦ absurd hkind h⟩
      refine (inside_metrics _ _).aside.post_bind (fun result t ht ↦ ?_) herror
      refine Aside.post_bind (aside_modifySession _ ?_) (fun _ u hu ↦ ?_) (fun e u hu ↦ ?_)
      · exact fun _ ↦ rfl
      · refine (Aside.when (inside_commitHistory rt (fun _ _ ↦ .inr ⟨rfl, rfl⟩) _).aside).post_bind
          (fun _ v hv ↦ ?_) (fun e v hv ↦ ?_)
        · exact hsettle _ v (hv.trans (hu.trans ht))
        · exact herror e v (hv.trans (hu.trans ht))
      · exact herror e u (hu.trans ht)
  · refine ⟨.inl ⟨rfl, .inr ⟨rfl, ?_⟩⟩, fun _ ↦ rfl⟩
    simpa [State.tables] using hknown

inductive Touched (stream : ℕ) (T : Tables) : Tables → Prop
  | kept : Touched stream T T
  | cancel {T' : Tables} (h : Touched stream T T') (hlive : stream ∈ T'.operations) :
    Touched stream T (T'.cancel stream)
  | settle {T' : Tables} (h : Touched stream T T') (hlive : stream ∈ T'.operations) :
    Touched stream T (T'.settle stream)

theorem Touched.tabled {d e : ℕ → Prop} {T T' : Tables} (h : Touched stream T T')
    (hT : Tabled d e T) : Tabled d e T' := by
  induction h with
  | kept => exact hT
  | cancel _ hlive ih => exact ih.cancel hlive
  | settle _ hlive ih => exact ih.settle hlive

theorem Touched.other {T T' : Tables} (h : Touched stream T T') {other : ℕ} (hne : other ≠ stream)
    (hother : other ∈ T.operations) : other ∈ T'.operations := by
  induction h with
  | kept => exact hother
  | @cancel T' _ _ ih =>
    rw [(T'.cancel_spec stream).2.1]
    exact ih
  | settle _ _ ih => simpa [Tables.settle, hne] using ih

structure Drawn (stream : ℕ) (T₀ T : Tables) : Prop where
  touched : Touched stream T₀ T
  live : stream ∈ T.operations

abbrev Delivered (stream : ℕ) (T₀ : Tables) (result : Except Thrown α) (t : NativeWorker) : Prop :=
  Touched stream T₀ t.state.tables ∧ ∀ e, result = .error e → stream ∈ t.state.operations

variable {d e : ℕ → Prop} {T₀ : Tables}

theorem Drawn.aside (h : Drawn stream T₀ w.state.tables) {m : M α} (hm : Aside m) :
    Post m w (Delivered stream T₀) := by
  refine (hm w.state.tables w rfl).mono fun result t ht ↦ ?_
  have ht : t.state.tables = w.state.tables := ht
  rw [← ht] at h
  exact ⟨h.touched, fun _ _ ↦ h.live⟩

theorem Drawn.bind (h : Drawn stream T₀ w.state.tables) {m : M α} {f : α → M β} (hm : Aside m)
    (hf : ∀ a t, Drawn stream T₀ t.state.tables → Post (f a) t (Delivered stream T₀)) :
    Post (m >>= f) w (Delivered stream T₀) := by
  refine hm.post_bind (fun a t ht ↦ hf a t (ht ▸ h)) fun e t ht ↦ ?_
  rw [← ht] at h
  exact ⟨h.touched, fun _ _ ↦ h.live⟩

theorem Drawn.session_ne (h : Drawn stream T₀ w.state.tables) (hT : Tabled d e T₀) :
    (w.state.op stream).session ≠ 0 :=
  (h.touched.tabled hT).session_ne h.live

theorem Drawn.finish (h : Drawn stream T₀ w.state.tables) (hT : Tabled d e T₀) (kind : ℕ)
    (detail : String) (failureAfterStop : Bool) (a : PumpAnswers) :
    Post (finish rt stream kind detail failureAfterStop a) w fun result t ↦
      Delivered stream T₀ result t ∧ (kind ≠ 1 → result = .ok ()) := by
  refine (post_finish_tables (fun _ ↦ h.session_ne hT) kind detail failureAfterStop a).mono
    fun result t ⟨ht, hok⟩ ↦ ⟨?_, hok⟩
  rcases ht with ⟨ht, -⟩ | ⟨rfl, hlive, ht⟩
  · rw [← ht] at h
    exact ⟨h.touched, fun _ _ ↦ h.live⟩
  · refine ⟨ht ▸ h.touched.settle hlive, fun e he ↦ ?_⟩
    cases he

theorem Drawn.deliver (h : Drawn stream T₀ w.state.tables) (hT : Tabled d e T₀) (kind : ℕ)
    (text : String) (a : PumpAnswers) :
    Post (deliver rt stream kind text a) w (Delivered stream T₀) := by
  unfold Worker.deliver
  split_ifs
  · have hsend (text : String) : Aside (do
        modifyOp stream fun o ↦ { o with text := o.text ++ text }
        modifyOp stream fun o ↦ { o with credit := false }
        event stream (.token text)) := by
      refine .bind (aside_modifyOp _ fun _ ↦ rfl) fun _ ↦ ?_
      exact .bind (aside_modifyOp _ fun _ ↦ rfl) fun _ ↦ aside_event _ _
    refine h.aside (.bind (aside_read _) fun op ↦ .ite ?_ (aside_pure _))
    refine .bind (aside_read _) fun session ↦ .ite ?_ ?_
    · exact .bind (aside_lift _) fun text ↦ .ite (hsend text) (aside_pure _)
    · exact .bind (aside_pure _) fun text ↦ .ite (hsend text) (aside_pure _)
  · exact (h.finish hT kind text false a).mono fun _ _ ht ↦ ht.1

theorem Drawn.pumpEvent (h : Drawn stream T₀ w.state.tables) (hT : Tabled d e T₀) (native : ℕ)
    (a : PumpAnswers) : Post (pumpEvent rt stream native a) w (Delivered stream T₀) := by
  refine h.bind (inside_take _).aside₀ fun payload t ht ↦ ?_
  cases payload with
  | none => exact ht.aside (aside_pure _)
  | some payload =>
    refine ht.bind (inside_readEvent _ _ _).aside₀ fun text u hu ↦ ?_
    cases text with
    | none => exact hu.aside (aside_pure _)
    | some text => exact hu.deliver hT _ _ _

theorem Drawn.cancel (h : Drawn stream T₀ w.state.tables) (hT : Tabled d e T₀) (overflow : Bool) :
    Post (cancel stream overflow) w fun result t ↦
      result = .ok () ∧ Drawn stream T₀ t.state.tables := by
  refine (post_cancel_tables (h.session_ne hT) overflow).mono fun result t ⟨hok, ht⟩ ↦ ⟨hok, ?_⟩
  rw [ht]
  refine ⟨h.touched.cancel h.live, ?_⟩
  rw [(w.state.tables.cancel_spec stream).2.1]
  exact h.live

theorem Drawn.pumpBody (h : Drawn stream T₀ w.state.tables) (hT : Tabled d e T₀)
    (a : PumpAnswers) : Post (pumpBody rt stream a) w (Delivered stream T₀) := by
  have hrest (t : NativeWorker) (ht : Drawn stream T₀ t.state.tables) :
      Post (do
        let op ← read fun s ↦ s.op stream
        let open? ←
          if !op.credit && !op.cancelRequested then do
            callbacks a.beforeIsFinal
            ask op.native Bridge.operationIsFinal
          else pure true
        if open? then
          callbacks a.beforeTake
          Worker.pumpEvent rt stream op.native a) t (Delivered stream T₀) := by
    refine ht.bind (aside_read _) fun op u hu ↦ ?_
    have hopen (open? : Bool) (v : NativeWorker) (hv : Drawn stream T₀ v.state.tables) :
        Post (if open? then do
          callbacks a.beforeTake
          Worker.pumpEvent rt stream op.native a
        else pure ()) v (Delivered stream T₀) := by
      split_ifs
      · exact hv.bind (inside_callbacks _).aside₀ fun _ x hx ↦ hx.pumpEvent hT _ _
      · exact hv.aside (aside_pure _)
    dsimp only
    split_ifs
    · refine hu.bind (inside_callbacks _).aside₀ fun _ v hv ↦ ?_
      exact hv.bind (aside_read _) fun open? x hx ↦ hopen open? x hx
    · exact hu.bind (aside_pure _) fun open? x hx ↦ hopen open? x hx
  refine h.bind (aside_read _) fun op t ht ↦ ht.bind (inside_callbacks _).aside₀ fun _ u hu ↦ ?_
  refine hu.bind (aside_read _) fun overflow v hv ↦ ?_
  rw [Code.post_bind]
  cases overflow with
  | false => exact hrest v hv
  | true =>
    refine (hv.cancel hT true).mono fun result x ⟨hok, hx⟩ ↦ ?_
    subst hok
    exact hrest x hx

theorem post_pumpOne (hT : Tabled d e w.state.tables) (hlive : stream ∈ w.state.operations)
    (a : PumpAnswers) :
    Post (pumpOne rt a stream) w fun result t ↦
      result = .ok () ∧ Touched stream w.state.tables t.state.tables := by
  have hdrawn : Drawn stream w.state.tables w.state.tables := ⟨.kept, hlive⟩
  rw [pumpOne, post_tryCatch]
  refine (hdrawn.pumpBody hT a).mono fun result t hresult ↦ ?_
  obtain ⟨ht, herror⟩ := hresult
  cases result with
  | ok => exact ⟨rfl, ht⟩
  | error e =>
    have hdrawn : Drawn stream w.state.tables t.state.tables := ⟨ht, herror e rfl⟩
    refine (post_bind ..).mpr ((hdrawn.cancel hT false).mono fun result u hresult ↦ ?_)
    obtain ⟨hok, hu⟩ := hresult
    subst hok
    refine (aside_read _).post_sure (sure_read _) fun op v hv ↦ ?_
    refine (inside_deleteHandle _).aside.post_sure (sure_deleteHandle _) fun _ x hx ↦ ?_
    rw [← hv, ← hx] at hu
    exact (hu.finish hT 2 _ true a).mono fun result y h ↦ ⟨h.2 (by decide), h.1.1⟩

theorem post_pump (hT : Tabled d e w.state.tables) (a : ℕ → PumpAnswers) :
    Post (pump rt a) w fun _ t ↦ Tabled d e t.state.tables := by
  have hall (streams : List ℕ) (w : NativeWorker) (hnodup : streams.Nodup)
      (hlive : ∀ stream ∈ streams, stream ∈ w.state.operations)
      (hT : Tabled d e w.state.tables) :
      Post (forEach streams fun stream ↦ pumpOne rt (a stream) stream) w fun result t ↦
        result = .ok () ∧ Tabled d e t.state.tables := by
    induction streams generalizing w with
    | nil => exact ⟨rfl, hT⟩
    | cons stream streams ih =>
      obtain ⟨hnew, hnodup⟩ := List.nodup_cons.mp hnodup
      refine (post_bind ..).mpr ((post_pumpOne hT (hlive stream (by simp)) _).mono
        fun result t hresult ↦ ?_)
      obtain ⟨hok, ht⟩ := hresult
      subst hok
      refine ih t hnodup (fun other hother ↦ ?_) (ht.tabled hT)
      have hne : other ≠ stream := fun heq ↦ hnew (heq ▸ hother)
      exact ht.other hne (hlive other (by simp [hother]))
  rw [pump, post_read_bind]
  refine (post_bind ..).mpr ((hall _ w hT.nodup (fun _ h ↦ h) hT).mono fun result t hresult ↦ ?_)
  obtain ⟨hok, ht⟩ := hresult
  subst hok
  rw [post_read_bind]
  split_ifs with hempty
  · have hnil : t.state.operations = [] := by simpa using hempty
    exact { ht with timer := fun hne ↦ absurd hnil hne }
  · exact ht

theorem post_prepare_tables (input : Input) (a : GenerateAnswers) :
    Post (prepare rt r input a) w fun result t ↦ t.state.tables = w.state.tables ∧
      ∀ messages, result = .ok messages →
        r ∈ w.state.sessions ∧ (w.state.session r).streamId = none := by
  have hfacts : Post (prepare rt r input a) w fun result _ ↦ ∀ messages, result = .ok messages →
      r ∈ w.state.sessions ∧ (w.state.session r).streamId = none := by
    rw [prepare, post_bind]
    refine post_findSession (fun hr ↦ ?_) fun messages h ↦ by cases h
    dsimp only
    split_ifs with hbusy
    · exact fun messages h ↦ by cases h
    · have hidle : (w.state.session r).streamId = none := by simpa using hbusy
      exact fun messages _ ↦ ⟨hr, hidle⟩
  exact ((inside_prepare rt r input a).aside w.state.tables w rfl).and hfacts

theorem post_launch (hT : Tabled d e w.state.tables) (hr : r ∈ w.state.sessions)
    (hidle : (w.state.session r).streamId = none) (hnew : stream ∉ w.state.operations)
    (messages : List Message) (a : GenerateAnswers) :
    Post (launch stream r messages a) w fun _ t ↦ Tabled d e t.state.tables := by
  have hr0 : r ≠ 0 := (hT.sessionBound r hr).1
  have hidle' : (w.state.tables.session r).streamId = none := by
    rw [State.tables_session _ hr0]
    exact hidle
  rw [launch, post_read_bind]
  refine (post_bind ..).mpr ((post_update _).mpr ?_)
  have hcreated : Tabled d e { w.state.tables with
      nextId := (w.state.native.operationCreate a.skip).nextId } := { hT with }
  split_ifs with hid
  · exact hcreated
  refine (post_bind ..).mpr ((post_update _).mpr ((post_bind ..).mpr ((post_update _).mpr ?_)))
  refine (post_bind ..).mpr ((post_update _).mpr ((post_bind ..).mpr ((post_tryCatch _).mpr ?_)))
  refine ((Aside.bind (aside_read _) fun session ↦ (inside_request _ _ _ _).aside₀) _ _ rfl).mono
    fun result t ht ↦ ?_
  have ht : t.state.tables = { w.state.tables with
      nextId := (w.state.native.operationCreate a.skip).nextId
      operations := w.state.operations ++ [stream]
      op := Function.update w.state.tables.op stream ⟨r, false⟩
      session := Function.update w.state.tables.session r
        { w.state.tables.session r with phase := .generating, streamId := some stream } } := by
    refine ht.trans (Tables.ext rfl rfl (if_neg hnew) rfl rfl rfl rfl ?_ ?_)
    · have hsession := congrArg Tables.session (w.state.tables_setSession hr0
        { w.state.session r with phase := .generating, streamId := some stream })
      rw [w.state.tables_session hr0]
      exact hsession
    · have hop := congrArg Tables.op (w.state.tables_setOp stream
        { session := r, native := w.state.native.operationId a.skip, messages := messages })
      exact hop
  cases result with
  | ok =>
    refine (post_update _).mpr ?_
    have hlaunched := hcreated.launch hr hidle' hnew
    rw [show ({ w.state.tables with
        nextId := (w.state.native.operationCreate a.skip).nextId } : Tables).launch stream r =
          { t.state.tables with timer := true } by rw [ht]; rfl] at hlaunched
    exact hlaunched
  | error error =>
    refine (post_bind ..).mpr ((post_update _).mpr ((post_bind ..).mpr ((post_update _).mpr ?_)))
    refine (post_bind ..).mpr ((post_update _).mpr ?_)
    have hfilter : (w.state.operations ++ [stream]).filter (· ≠ stream) = w.state.operations := by
      have hall : ∀ other ∈ w.state.operations, other ≠ stream := fun other h heq ↦ hnew (heq ▸ h)
      simpa [List.filter_append] using hall
    have hsession := congrArg Tables.session
      (t.state.tables_setSession hr0 { t.state.session r with streamId := none, phase := .ready })
    have haborted := hcreated.abort hidle' hnew
    refine cast (congrArg (Tabled d e) (Tables.ext ?_ ?_ ?_ ?_ ?_ ?_ ?_ ?_ ?_)) haborted
    · exact (congrArg Tables.engines ht).symm
    · exact (congrArg Tables.sessions ht).symm
    · exact hfilter.symm.trans
        (congrArg (fun T : Tables ↦ T.operations.filter (· ≠ stream)) ht).symm
    · exact (congrArg Tables.nextEngine ht).symm
    · exact (congrArg Tables.nextSession ht).symm
    · exact (congrArg Tables.timer ht).symm
    · exact (congrArg Tables.nextId ht).symm
    · have hentry : t.state.tables.session r = (t.state.session r).entry :=
        t.state.tables_session hr0
      rw [ht] at hsession hentry
      simp only [Function.update_self, Function.update_idem] at hsession hentry
      have hengineId : (w.state.tables.session r).engineId = (t.state.session r).engineId :=
        congrArg SessionEntry.engineId hentry
      refine Eq.trans ?_ hsession.symm
      simp only [Tables.abort, NativeSession.entry, hengineId]
    · exact (congrArg Tables.op ht).symm

theorem post_submit_tables (hT : Tabled d e w.state.tables) (hnew : stream ∉ w.state.operations)
    (input : Input) (a : GenerateAnswers) :
    Post (submit rt stream r input a) w fun _ t ↦ Tabled d e t.state.tables := by
  rw [submit, post_bind]
  refine (post_prepare_tables input a).mono fun result t hresult ↦ ?_
  obtain ⟨ht, hfacts⟩ := hresult
  rw [← ht] at hT
  have hoperations : t.state.operations = w.state.operations := congrArg Tables.operations ht
  have hsessions : t.state.sessions = w.state.sessions := congrArg Tables.sessions ht
  cases result with
  | error error => exact hT
  | ok messages =>
    obtain ⟨hr, hidle⟩ := hfacts messages rfl
    have hr : r ∈ t.state.sessions := hsessions ▸ hr
    have hr0 : r ≠ 0 := (hT.sessionBound r hr).1
    have hidle' : (t.state.session r).streamId = none := by
      have hentry := congrArg (fun T : Tables ↦ (T.session r).streamId) ht
      simp only [State.tables_session _ hr0, NativeSession.entry] at hentry
      exact hentry.trans hidle
    exact post_launch hT hr hidle' (hoperations ▸ hnew) messages a

theorem post_generate_tables (hT : Tabled d e w.state.tables) (hnew : stream ∉ w.state.operations)
    (input : Input) (a : GenerateAnswers) :
    Post (generate rt stream r input a) w fun _ t ↦ Tabled d e t.state.tables := by
  rw [generate_eq_submit, post_bind]
  refine (post_submit_tables hT hnew input a).mono fun result t ht ↦ ?_
  cases result with
  | error error => exact ht
  | ok => exact post_pump ht a.pump

theorem post_findReady {id : ℕ} {Q : Except Thrown NativeEngine → NativeWorker → Prop}
    (hok : ∀ x : NativeEngine, (id, x) ∈ w.state.engines → x.phase = .ready → Q (.ok x) w)
    (herror : ∀ e, Q (.error e) w) : Post (findEngine id) w Q := by
  rw [findEngine, post_read_bind]
  cases h : w.state.engines.lookup id with
  | none => exact herror _
  | some x =>
    dsimp only
    split_ifs with hphase
    · exact herror _
    · exact hok x (mem_of_lookup h) (by simpa using hphase)

theorem post_createSession_tables (hT : Tabled d e w.state.tables) (engineId : ℕ)
    (params : GenerationParams) (initial : List ChatMessage) (conversation : Bool)
    (a : OpenAnswers) :
    Post (createSession rt engineId params initial conversation a) w fun _ t ↦
      Tabled d e t.state.tables := by
  rw [createSession, post_bind]
  refine post_findReady (fun x hx hready ↦ ?_) fun _ ↦ hT
  dsimp only
  split_ifs
  · exact hT
  refine (inside_messages rt _).aside₀.post_bind (fun history t ht ↦ ?_) fun _ t ht ↦ ht ▸ hT
  rw [← ht] at hT
  rw [post_read_bind]
  have hr0 : t.state.nextSession ≠ 0 := hT.positive.ne'
  have hnew : t.state.nextSession ∉ t.state.sessions :=
    fun hmem ↦ (hT.sessionBound _ hmem).2.ne rfl
  rw [newSession, modifySession, Code.post_bind, post_update]
  dsimp only
  generalize hy : ({ engineId := engineId, params := params, history := history, initial := history
                     conversation := conversation || params.applyPromptTemplate } :
      NativeSession) = y
  have hentry : y.entry = ⟨engineId, .ready, none⟩ := by
    rw [← hy]
    rfl
  have hfresh : Tabled d e (State.tables { t.state with
      session := Function.update t.state.session t.state.nextSession y }) := by
    rw [State.tables_setSession _ hr0]
    exact hT.fresh hnew y.entry
  refine Aside.post_bind (aside_lift _) (fun _ u hu ↦ ?_) fun _ u hu ↦ ?_
  · refine (inside_openSession _ _ _ _).aside.post_bind (fun _ v hv ↦ ?_) fun _ v hv ↦ ?_
    · rw [← hu, ← hv] at hfresh
      refine (post_bind ..).mpr ((post_update _).mpr ?_)
      have hnext : v.state.nextSession = t.state.nextSession :=
        congrArg Tables.nextSession (hv.trans hu)
      have hself : v.state.tables.session v.state.nextSession = ⟨engineId, .ready, none⟩ := by
        have hsession := congrArg (fun T : Tables ↦ T.session t.state.nextSession) (hv.trans hu)
        rw [State.tables_setSession _ hr0] at hsession
        rw [hnext, ← hentry]
        exact hsession.trans (Function.update_self ..)
      have hmoved : v.state.engines = t.state.engines := congrArg Tables.engines (hv.trans hu)
      have hengines : v.state.engines = w.state.engines :=
        hmoved.trans (congrArg Tables.engines ht)
      rw [← hengines] at hx
      rw [← hnext]
      exact hfresh.register hself hx hready
    · rw [hv, hu]
      exact hfresh
  · rw [hu]
    exact hfresh

theorem keeps_loadEngine (config : EngineConfig) (a : LoadAnswers) :
    Keeps (fun w ↦ Tabled d e w.state.tables) (loadEngine config a) := by
  have hkeep {α : Type} {m : M α} (hm : Aside m) : Keeps (fun w ↦ Tabled d e w.state.tables) m :=
    hm.keeps (Tabled d e)
  have hsettings {m : M ℕ} (kind : Resource → Bool) (p : Option ℕ)
      (hm : Keeps (fun w ↦ Tabled d e w.state.tables) m) :
      Keeps (fun w ↦ Tabled d e w.state.tables) (tryFinally m (delete p kind)) :=
    hm.tryFinally (hkeep (aside_delete _ _))
  refine .bind (hkeep (aside_read _)) fun closing ↦ keeps_guard _ fun _ ↦ ?_
  refine .bind (hkeep (inside_inspect _ _).aside₀) fun info ↦ .bind
    (hkeep (aside_lift _)) fun context ↦ ?_
  refine .bind (hkeep (aside_utf8 _ _)) fun _ ↦ .bind (hkeep (aside_utf8 _ _)) fun _ ↦ ?_
  refine .bind (hkeep (aside_utf8 _ _)) fun _ ↦ .bind (hkeep (aside_utf8 _ _)) fun _ ↦ ?_
  refine .bind (hkeep (aside_create _ _)) fun settings ↦ ?_
  refine .bind (hkeep (aside_checkPointer _ _ _)) fun _ ↦ hsettings _ _ ?_
  refine .bind (hkeep (aside_set _ _ _)) fun _ ↦ .bind (hkeep (aside_use _ _)) fun _ ↦ ?_
  refine .bind (hkeep (aside_use _ _)) fun _ ↦ ?_
  refine .bind (hkeep (.onSome fun _ ↦ aside_set _ _ _)) fun _ ↦ ?_
  refine .bind (hkeep (.when (.bind (aside_utf8 _ _) fun _ ↦ aside_use _ _))) fun _ ↦ ?_
  refine .bind (hkeep (.when (.bind (aside_utf8 _ _) fun _ ↦ aside_use _ _))) fun _ ↦ ?_
  refine .bind (hkeep (aside_use _ _)) fun _ ↦ .bind (hkeep (aside_create _ _)) fun pointer ↦ ?_
  refine .bind (hkeep (aside_checkPointer _ _ _)) fun _ ↦ ?_
  cases pointer with
  | none => exact hkeep (aside_throw _)
  | some pointer =>
    refine .bind (hkeep (aside_use _ _)) fun _ ↦ .ite (fun _ ↦ ?_) fun _ ↦ ?_
    · exact .bind (hkeep (aside_modifyNative fun _ ↦ rfl)) fun _ _ hw ↦ hw
    · intro w hw
      exact Tabled.load hw _

structure Disposed (r : ℕ) (T T' : Tables) : Prop where
  sessions : T'.sessions = T.sessions.filter (· ≠ r)
  engines : T'.engines = T.engines
  engineId : ∀ r', (T'.session r').engineId = (T.session r').engineId

theorem Touched.alike {T T' : Tables} (h : Touched stream T T') :
    T'.sessions = T.sessions ∧ T'.engines = T.engines ∧
      (∀ r, (T'.session r).engineId = (T.session r).engineId) ∧
      (T'.op stream).session = (T.op stream).session := by
  induction h with
  | kept => exact ⟨rfl, rfl, fun _ ↦ rfl, rfl⟩
  | @cancel T' _ _ ih =>
    obtain ⟨hsessions, hengines, hengineId, hop⟩ := ih
    obtain ⟨hsessions', -, hengines', -⟩ := T'.cancel_spec stream
    refine ⟨hsessions'.trans hsessions, hengines'.trans hengines, fun r ↦ ?_, ?_⟩
    · exact (T'.cancel_session stream r).2.1.trans (hengineId r)
    · exact (T'.cancel_op stream stream).1.trans hop
  | @settle T' _ _ ih =>
    obtain ⟨hsessions, hengines, hengineId, hop⟩ := ih
    exact ⟨hsessions, hengines, fun r ↦ (T'.settle_session stream r).1.trans (hengineId r), hop⟩

theorem post_removeSession (hr : r ≠ 0) (hT : Tabled (fun r' ↦ d r' ∨ r' = r) e w.state.tables)
    (hidle : (w.state.tables.session r).streamId = none) :
    Post (do
      modifySession r fun s ↦ { s with phase := .closed }
      update fun s ↦ { s with sessions := s.sessions.filter (· ≠ r) }) w fun result t ↦
        result = .ok () ∧ Tabled d e t.state.tables ∧ Disposed r w.state.tables t.state.tables := by
  refine (post_bind ..).mpr ((post_update _).mpr ((post_update _).mpr ⟨rfl, ?_⟩))
  have hclosed := hT.setPhase r .closed
  have hweaker : Tabled (fun r' ↦ d r' ∨ r' = r) e (w.state.tables.setPhase r .closed) :=
    { hclosed with phase := fun r' hr' hd ↦ hclosed.phase r' hr' (by simp_all) }
  have htables := w.state.tables_setPhase hr .closed
  have hidle' : ((w.state.tables.setPhase r .closed).session r).streamId = none := by
    rw [Tables.setPhase_streamId]
    exact hidle
  have hremoved := hweaker.remove hidle'
  rw [← htables] at hremoved
  refine ⟨hremoved, rfl, rfl, fun r' ↦ ?_⟩
  rw [← w.state.tables.setPhase_engineId r r' .closed, ← htables]
  rfl

/-- The operation of a session that is closing is cancelled and finished. -/
theorem post_closeSession (hT : Tabled (fun r' ↦ d r' ∨ r' = r) e w.state.tables)
    (hr : r ∈ w.state.sessions) :
    Post (do
      let session ← read fun s ↦ s.session r
      let op ← findOperation session.streamId
      onSome op fun stream ↦ cancel stream false
      deleteHandle r
      onSome op fun stream ↦ finish rt stream 3 "" false noAnswers
      modifySession r fun s ↦ { s with phase := .closed }
      update fun s ↦ { s with sessions := s.sessions.filter (· ≠ r) }) w fun result t ↦
        result = .ok () ∧ Tabled d e t.state.tables ∧ Disposed r w.state.tables t.state.tables := by
  have hr0 : r ≠ 0 := (hT.sessionBound r hr).1
  rw [post_read_bind, findOperation, post_read_bind]
  have hentry := w.state.tables_session hr0
  have hself : (w.state.tables.session r).streamId = (w.state.session r).streamId :=
    congrArg SessionEntry.streamId hentry
  cases hstream : (w.state.session r).streamId with
  | none =>
    rw [hstream] at hself
    refine (aside_pure ()).post_sure (sure_pure _) fun _ t ht ↦ ?_
    refine (inside_deleteHandle r).aside.post_sure (sure_deleteHandle r) fun _ u hu ↦ ?_
    refine (aside_pure ()).post_sure (sure_pure _) fun _ v hv ↦ ?_
    rw [← ht, ← hu, ← hv] at hT hself ⊢
    exact post_removeSession hr0 hT hself
  | some stream =>
    rw [hstream] at hself
    obtain ⟨hlive, hsession⟩ := hT.named r hr stream hself
    have hlive' : stream ∈ w.state.operations := hlive
    simp only [Option.filter_some, hlive', decide_true, if_true, onSome]
    have hdrawn : Drawn stream w.state.tables w.state.tables := ⟨.kept, hlive⟩
    refine (post_bind ..).mpr ((hdrawn.cancel hT false).mono fun result t hresult ↦ ?_)
    obtain ⟨hok, ht⟩ := hresult
    subst hok
    refine (inside_deleteHandle r).aside.post_sure (sure_deleteHandle r) fun _ u hu ↦ ?_
    rw [← hu] at ht
    refine (post_bind ..).mpr ((post_finish_tables (fun _ ↦ ht.session_ne hT) 3 _ _ _).mono
      fun result v hresult ↦ ?_)
    obtain ⟨hv, hok⟩ := hresult
    have hok := hok (by decide)
    subst hok
    have hsettled : v.state.tables = u.state.tables.settle stream := by
      rcases hv with ⟨-, ⟨error, herror⟩ | ⟨-, hgone⟩⟩ | ⟨-, -, hv⟩
      · cases herror
      · exact absurd ht.live hgone
      · exact hv
    have htouched : Touched stream w.state.tables v.state.tables :=
      hsettled ▸ ht.touched.settle ht.live
    have hidle : (v.state.tables.session r).streamId = none := by
      rw [hsettled]
      refine (Tables.settle_session _ stream r).2.1 ?_
      exact hsession.symm.trans ht.touched.alike.2.2.2.symm
    obtain ⟨hsessions, hengines, hengineId, -⟩ := htouched.alike
    refine (post_removeSession hr0 (htouched.tabled hT) hidle).mono fun result x hresult ↦ ?_
    obtain ⟨hok, hx, hd⟩ := hresult
    refine ⟨hok, hx, ?_, hd.engines.trans hengines, fun r' ↦ (hd.engineId r').trans (hengineId r')⟩
    rw [hd.sessions, hsessions]

theorem post_disposeSession (hT : Tabled d e w.state.tables) (r : ℕ) :
    Post (disposeSession rt r) w fun result t ↦ result = .ok () ∧ Tabled d e t.state.tables ∧
      Disposed r w.state.tables t.state.tables := by
  rw [disposeSession, post_read_bind]
  split_ifs with hknown
  · have hr : r ∈ w.state.sessions := by simpa using hknown
    have hr0 : r ≠ 0 := (hT.sessionBound r hr).1
    have htables := w.state.tables_setPhase hr0 .closing
    have hclosing := hT.setPhase r .closing
    rw [← htables] at hclosing
    refine (post_bind ..).mpr ((post_update _).mpr ?_)
    refine (post_closeSession (w := ⟨w.state.setPhase r .closing, w.sent⟩) hclosing hr).mono
      fun result t hresult ↦ ?_
    obtain ⟨hok, ht, hd⟩ := hresult
    refine ⟨hok, ht, hd.sessions, hd.engines, fun r' ↦ (hd.engineId r').trans ?_⟩
    rw [htables]
    exact w.state.tables.setPhase_engineId r r' .closing
  · have hr : r ∉ w.state.tables.sessions := by simpa [State.tables] using hknown
    refine ⟨rfl, hT, (List.filter_eq_self.mpr fun r' hr' ↦ ?_).symm, rfl, fun _ ↦ rfl⟩
    have hne : r' ≠ r := by
      rintro rfl
      exact hr hr'
    simpa using hne

theorem post_disposeEngine (hT : Tabled d e w.state.tables) (id : ℕ) :
    Post (disposeEngine rt id) w fun _ t ↦ Tabled d e t.state.tables := by
  have hall (ids : List ℕ) (w : NativeWorker) (e : ℕ → Prop) (hT : Tabled d e w.state.tables) :
      Post (forEach ids fun r ↦ disposeSession rt r) w fun result t ↦
        result = .ok () ∧ Tabled d e t.state.tables ∧
          t.state.tables.sessions = w.state.tables.sessions.filter (· ∉ ids) ∧
          t.state.tables.engines = w.state.tables.engines ∧
          ∀ r, (t.state.tables.session r).engineId = (w.state.tables.session r).engineId := by
    induction ids generalizing w with
    | nil =>
      have hnone :
        w.state.tables.sessions.filter (· ∉ ([] : List ℕ)) = w.state.tables.sessions := by
        simp
      exact ⟨rfl, hT, hnone.symm, rfl, fun _ ↦ rfl⟩
    | cons r ids ih =>
      refine (post_bind ..).mpr ((post_disposeSession hT r).mono fun result t hresult ↦ ?_)
      obtain ⟨hok, ht, hd⟩ := hresult
      subst hok
      refine (ih t ht).mono fun result u hresult ↦ ?_
      obtain ⟨hok, hu, hsessions, hengines, hengineId⟩ := hresult
      refine ⟨hok, hu, ?_, hengines.trans hd.engines,
        fun r' ↦ (hengineId r').trans (hd.engineId r')⟩
      rw [hsessions, hd.sessions, List.filter_filter]
      refine List.filter_congr fun r' _ ↦ ?_
      simp [Bool.and_comm]
  rw [disposeEngine, post_read_bind]
  cases w.state.engines.lookup id with
  | none => exact hT
  | some engine =>
    refine (post_bind ..).mpr ((post_update _).mpr ?_)
    dsimp only
    rw [post_read_bind]
    have hclosing := hT.setEngine id .closing
    refine (post_bind ..).mpr ((hall _ _ _ hclosing).mono
      fun result t hresult ↦ ?_)
    obtain ⟨hok, ht, hsessions, hengines, hengineId⟩ := hresult
    subst hok
    refine (aside_deleteEngine _).post_sure (sure_update _) fun _ u hu ↦ ?_
    refine (post_bind ..).mpr ((post_update _).mpr ((post_update _).mpr ?_))
    have hgone : ∀ r ∈ u.state.tables.sessions, (u.state.tables.session r).engineId ≠ id := by
      intro r hr hengine
      rw [hu, hsessions, List.mem_filter] at hr
      obtain ⟨hr, hids⟩ := hr
      have hr0 : r ≠ 0 := (hT.sessionBound r hr).1
      rw [hu, hengineId] at hengine
      refine of_decide_eq_true hids (List.mem_filter.mpr ⟨hr, decide_eq_true ?_⟩)
      exact (congrArg SessionEntry.engineId (w.state.tables_session hr0)).symm.trans hengine
    rw [← hu] at ht
    have hclosed := ht.setEngine id .closed
    have hweaker : Tabled d (fun id' ↦ e id' ∨ id' = id) { u.state.tables with
        engines := u.state.tables.engines.map fun x ↦
          if x.1 = id then (x.1, { x.2 with phase := .closed }) else x } :=
      { hclosed with engine := fun r hr he ↦ hclosed.engine r hr (by simp_all) }
    exact hweaker.unload hgone

theorem Tabled.of_empty {s : State} (hs : Consistent s) (he : Empty s) : Tabled d e s.tables := by
  refine ⟨hs.sessionNext, ?_, ?_, ?_, hs.nodup, ?_, ?_, ?_, ?_, fun h ↦ absurd he.operations h⟩
  all_goals simp [State.tables, he.engines, he.sessions, he.operations]

/-- A command keeps the tables in order, unless it is one that stops the worker. -/
theorem post_serve_tables (hT : Tabled d e w.state.tables) (command : Command)
    (hnew : ∀ stream r input a, command = .generate stream r input a →
      stream ∉ w.state.operations)
    (hclose : command ≠ .close) (hcrash : command = .testCrash → rt.testing = false) :
    Post (serve rt command) w fun _ t ↦ Tabled d e t.state.tables := by
  have hkeep {α : Type} {m : M α} (hm : Aside m) : Post m w fun _ t ↦ Tabled d e t.state.tables :=
    hm.keeps (Tabled d e) w hT
  have hcancel (op : Option ℕ) (hop : ∀ stream ∈ op, stream ∈ w.state.operations) :
      Post (onSome op fun stream ↦ cancel stream false) w fun result t ↦
        result = .ok () ∧ Tabled d e t.state.tables := by
    cases op with
    | none => exact ⟨rfl, hT⟩
    | some stream =>
      have hlive := hop stream rfl
      refine (post_cancel_tables (hT.session_ne hlive) false).mono fun result t hresult ↦ ?_
      obtain ⟨hok, ht⟩ := hresult
      refine ⟨hok, ?_⟩
      rw [ht]
      exact hT.cancel hlive
  cases command with
  | loadEngine config a =>
    exact Keeps.bind (keeps_loadEngine config a) (fun _ ↦ .pure _) w hT
  | inspectModel path a => exact hkeep (.bind (inside_inspect _ _).aside₀ fun _ ↦ aside_pure _)
  | engineInfo engineId => exact hkeep (.bind (inside_findEngine _).aside₀ fun _ ↦ aside_pure _)
  | createSession engineId params initial conversation a =>
    refine (post_bind ..).mpr
      ((post_createSession_tables hT engineId params initial conversation a).mono
      fun result t ht ↦ ?_)
    cases result <;> exact ht
  | generate stream r input a =>
    refine (post_bind ..).mpr ((post_generate_tables hT (hnew stream r input a rfl) input a).mono
      fun result t ht ↦ ?_)
    cases result <;> exact ht
  | credit stream =>
    refine hkeep (.bind (aside_read _) fun _ ↦ .bind (.when ?_) fun _ ↦ aside_pure _)
    exact aside_modifyOp _ fun _ ↦ rfl
  | cancelStream stream =>
    rw [serve, findOperation, post_read_bind]
    refine (post_bind ..).mpr ((hcancel _ fun other hother ↦ ?_).mono fun result t hresult ↦ ?_)
    · simpa using (Option.filter_eq_some_iff.mp hother).2
    · obtain ⟨hok, ht⟩ := hresult
      subst hok
      exact ht
  | cancelSession r =>
    rw [serve, post_read_bind, findOperation, post_read_bind]
    refine (post_bind ..).mpr ((hcancel _ fun other hother ↦ ?_).mono fun result t hresult ↦ ?_)
    · simpa using (Option.filter_eq_some_iff.mp hother).2
    · obtain ⟨hok, ht⟩ := hresult
      subst hok
      exact ht
  | disposeSession r =>
    refine (post_bind ..).mpr ((post_disposeSession hT r).mono fun result t hresult ↦ ?_)
    obtain ⟨hok, ht, -⟩ := hresult
    subst hok
    exact ht
  | disposeEngine id =>
    refine (post_bind ..).mpr ((post_disposeEngine hT id).mono fun result t ht ↦ ?_)
    cases result <;> exact ht
  | budget r input reserve a =>
    refine hkeep (.bind (inside_findSession _).aside₀ fun session ↦ aside_guard _ ?_)
    refine .bind (inside_messages _ _).aside₀ fun messages ↦ .bind
      (inside_budget _ _ _ _ _).aside fun _ ↦ ?_
    exact aside_pure _
  | tokenize engineId text a =>
    refine hkeep (.bind (inside_findEngine _).aside₀ fun engine ↦ .bind
      (inside_tokenize _ _).aside₀ fun _ ↦ ?_)
    exact aside_pure _
  | metrics r =>
    exact hkeep (.bind (inside_findSession _).aside₀ fun session ↦ aside_guard _ (aside_pure _))
  | testCrash =>
    have hraise : serve rt .testCrash = (do
        fail (.unsupported "Unknown command")
        update fun s ↦ { s with fatalExit := true }
        closeAll rt
        pure none) := by
      simp [serve, hcrash rfl]
    rw [hraise]
    exact hT
  | close => exact absurd rfl hclose

def Command.Stops (rt : Runtime) (command : Command) : Prop :=
  command = .close ∨ command = .testCrash ∧ rt.testing = true

theorem Turn.stops {harmless : Prop} {request : Option ℕ} {command : Command}
    (h : Turn rt harmless w (.command request command) t) (hd : w.state.deaf = false)
    (hstops : command.Stops rt) : t.state.deaf = true := by
  cases h with
  | deaf h => simp [hd] at h
  | plain _ hplain =>
    obtain rfl | ⟨rfl, -⟩ := hstops
    · cases hplain
    · cases hplain
  | generate =>
    obtain h | ⟨h, -⟩ := hstops
    · cases h
    · cases h
  | crash _ _ h =>
    have hfatal : t.state.fatalExit = true := congrArg Prod.fst h.flags
    simp [State.deaf, hfatal]
  | refuse _ htesting =>
    obtain h | ⟨-, h⟩ := hstops
    · cases h
    · simp [htesting] at h
  | close => simp [State.deaf]

theorem answer_state (w : NativeWorker) (request : Option ℕ) (value : Option Value) :
    (answer w request value).state = w.state := by
  cases value <;> rfl

theorem answerFailure_state (w : NativeWorker) (request : Option ℕ) (command : Command)
    (e : Thrown) : (answerFailure rt w request command e).state = w.state := by
  cases command <;> rfl

theorem Tabled.step (hT : Tabled d e w.state.tables) (hw : Consistent w.state)
    (hstopped : Stopped w.state) (a : Action)
    (hnew : w.state.deaf = false → ∀ stream ∈ a.asks, stream ∉ w.state.operations) :
    Tabled d e (step rt w a).state.tables := by
  have hturn : Turn rt (Harmless rt w a) w a (Worker.step rt w a) := step_turn hw a
  cases a with
  | callback c => exact (inside_callbacks [c]).aside₀.keeps (Tabled d e) w hT
  | tick answers =>
    have hpost : Post (turn rt (.tick answers)) w fun _ t ↦ Tabled d e t.state.tables := by
      rw [turn, post_read_bind]
      split_ifs
      · exact (post_pump hT answers).mono fun result t ht ↦ ht
      · exact hT
    exact hpost
  | command request command =>
    cases hd : w.state.deaf with
    | true =>
      have hpost : Post (listen rt request command) w fun _ t ↦ t = w := by
        rw [listen, post_read_bind,
          show (w.state.fatalExit || w.state.commandsClosed) = true from hd]
        exact rfl
      rw [show Worker.step rt w (.command request command) = w from hpost]
      exact hT
    | false =>
      by_cases hstops : command.Stops rt
      · exact .of_empty (hturn.consistent hw) (hturn.stopped hstopped (hturn.stops hd hstops))
      have hclose : command ≠ .close := fun h ↦ hstops (.inl h)
      have hcrash (h : command = .testCrash) : rt.testing = false := by
        cases htesting : rt.testing with
        | true => exact absurd (.inr ⟨h, htesting⟩) hstops
        | false => rfl
      refine Post.mono (P := fun _ (t : NativeWorker) ↦ Tabled d e t.state.tables) ?_
        fun _ _ ht ↦ ht
      refine post_listen hd request command ?_
      refine (post_serve_tables hT command (fun stream r input a heq ↦ ?_) hclose hcrash).mono
        fun result t ht ↦ ?_
      · subst heq
        exact hnew hd stream rfl
      · cases result with
        | ok value =>
          dsimp only
          rw [answer_state]
          exact ht
        | error failure =>
          dsimp only
          rw [answerFailure_state]
          exact ht

theorem tabled_init : Tabled d e ({} : State).tables := by
  refine .of_empty consistent_init ⟨rfl, rfl, rfl, rfl⟩

/-- The tables are in order between any two turns. -/
theorem run_tabled {actions : List Action} (hdistinct : (actions.filterMap Action.asks).Nodup) :
    Tabled d e (run rt actions).state.tables := by
  induction actions using List.reverseRecOn with
  | nil => exact tabled_init
  | append_singleton actions a ih =>
    rw [List.filterMap_append, List.nodup_append] at hdistinct
    obtain ⟨hbefore, -, hnew⟩ := hdistinct
    rw [run_concat]
    refine (ih hbefore).step (run_consistent actions) (run_stopped actions) a fun hd stream ha ↦ ?_
    have hf : (run rt actions).state.fatalExit = false := by
      simp only [State.deaf, Bool.or_eq_false_iff] at hd
      exact hd.1
    have hunknown : Unknown stream (run rt actions) := by
      refine (run_status hbefore hf stream).1 fun r h ↦ ?_
      refine hnew stream h.mem stream ?_ rfl
      simpa using ha
    exact hunknown.gone

end Steps

/-- Between any two turns the tables of sessions, operations and engines agree,
and the pump runs while there is an operation. -/
theorem tables_agree (rt : Runtime) (actions : List Action)
    (hdistinct : (actions.filterMap Action.asks).Nodup) :
    let s := (run rt actions).state
    s.operations.Nodup ∧
    (∀ r ∈ s.sessions,
      (∀ stream, (s.session r).streamId = some stream ↔
        stream ∈ s.operations ∧ (s.op stream).session = r) ∧
      ((s.session r).streamId = none ↔ ∀ stream ∈ s.operations, (s.op stream).session ≠ r) ∧
      ((s.session r).phase = .generating ∨ (s.session r).phase = .cancelRequested ↔
        (s.session r).streamId ≠ none) ∧
      (∀ stream, (s.session r).streamId = some stream →
        ((s.session r).phase = .cancelRequested ↔ (s.op stream).cancelRequested = true)) ∧
      ∃ engine, ((s.session r).engineId, engine) ∈ s.engines ∧ engine.phase = .ready) ∧
    (∀ stream ∈ s.operations, (s.op stream).session ∈ s.sessions) ∧
    (∀ stream ∈ s.operations, ∀ other ∈ s.operations,
      (s.op stream).session = (s.op other).session → stream = other) ∧
    (s.engines.map Prod.fst).Nodup ∧
    (s.operations ≠ [] → s.timer = true) := by
  have hT : Tabled (fun _ ↦ False) (fun _ ↦ False) (run rt actions).state.tables :=
    run_tabled hdistinct
  have hentry {r : ℕ} (hr : r ∈ (run rt actions).state.sessions) :
      (run rt actions).state.tables.session r = ((run rt actions).state.session r).entry :=
    State.tables_session _ (hT.sessionBound r hr).1
  have hnamed {r : ℕ} (hr : r ∈ (run rt actions).state.sessions) (stream : ℕ) :
      ((run rt actions).state.session r).streamId = some stream ↔
        stream ∈ (run rt actions).state.operations ∧
          ((run rt actions).state.op stream).session = r := by
    constructor
    · intro hstream
      exact hT.named r hr stream ((congrArg SessionEntry.streamId (hentry hr)).trans hstream)
    · rintro ⟨hlive, rfl⟩
      have hstreamId := (hT.registered stream hlive).2
      exact (congrArg SessionEntry.streamId (hentry hr)).symm.trans hstreamId
  have hphase {r : ℕ} (hr : r ∈ (run rt actions).state.sessions) :
      ((run rt actions).state.session r).phase =
        match ((run rt actions).state.session r).streamId with
        | none => .ready
        | some stream =>
          if ((run rt actions).state.op stream).cancelRequested then .cancelRequested
          else .generating := by
    have hdue := hT.phase r hr not_false
    rw [Tables.due, hentry hr] at hdue
    exact hdue
  refine ⟨hT.nodup, fun r hr ↦ ⟨hnamed hr, ?_, ?_, fun stream hstream ↦ ?_, ?_⟩,
    fun stream hlive ↦ (hT.registered stream hlive).1, fun stream hlive other hother hsame ↦ ?_,
    hT.engineIds, hT.timer⟩
  · constructor
    · intro hnone stream hlive hsession
      rw [(hnamed hr stream).mpr ⟨hlive, hsession⟩] at hnone
      cases hnone
    · intro hnone
      refine Option.eq_none_iff_forall_ne_some.mpr fun stream hstream ↦ ?_
      obtain ⟨hlive, hsession⟩ := (hnamed hr stream).mp hstream
      exact hnone stream hlive hsession
  · rw [hphase hr]
    cases ((run rt actions).state.session r).streamId with
    | none => simp
    | some stream => cases ((run rt actions).state.op stream).cancelRequested <;> simp
  · rw [hphase hr, hstream]
    cases hflag : ((run rt actions).state.op stream).cancelRequested <;> simp [hflag]
  · have hengine := hT.engine r hr not_false
    rwa [hentry hr] at hengine
  · have hstream := (hT.registered stream hlive).2
    have hotherStream := (hT.registered other hother).2
    have hsame' : ((run rt actions).state.tables.op stream).session =
        ((run rt actions).state.tables.op other).session := hsame
    rw [hsame', hotherStream] at hstream
    exact (Option.some.inj hstream).symm

theorem tables_agree_twoAsked :
    let s := (run Scenario.runtime Scenario.twoAsked).state
    s.operations.Nodup ∧
    (∀ r ∈ s.sessions,
      (∀ stream, (s.session r).streamId = some stream ↔
        stream ∈ s.operations ∧ (s.op stream).session = r) ∧
      ((s.session r).streamId = none ↔ ∀ stream ∈ s.operations, (s.op stream).session ≠ r) ∧
      ((s.session r).phase = .generating ∨ (s.session r).phase = .cancelRequested ↔
        (s.session r).streamId ≠ none) ∧
      (∀ stream, (s.session r).streamId = some stream →
        ((s.session r).phase = .cancelRequested ↔ (s.op stream).cancelRequested = true)) ∧
      ∃ engine, ((s.session r).engineId, engine) ∈ s.engines ∧ engine.phase = .ready) ∧
    (∀ stream ∈ s.operations, (s.op stream).session ∈ s.sessions) ∧
    (∀ stream ∈ s.operations, ∀ other ∈ s.operations,
      (s.op stream).session = (s.op other).session → stream = other) ∧
    (s.engines.map Prod.fst).Nodup ∧
    (s.operations ≠ [] → s.timer = true) :=
  tables_agree Scenario.runtime Scenario.twoAsked (by decide)

end LibLitertLm.Worker
