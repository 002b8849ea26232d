import LibLitertLm.Worker.Opening
import Mathlib.Data.List.Nodup

namespace LibLitertLm.Worker

def NativeSession.handle (x : NativeSession) : Option ℕ := if x.conversation then x.chat else x.raw

def NativeSession.spare (x : NativeSession) : Option ℕ := if x.conversation then x.raw else x.chat

/-- A native object that the handle of the session may point to, when its
engine is behind the pointer `q`. -/
def NativeSession.owns (x : NativeSession) (q : ℕ) : Resource → Prop
  | .conversation owner _ => x.conversation = true ∧ owner = q
  | .session owner => x.conversation = false ∧ owner = q
  | _ => False

def State.pointers (s : State) : List (ℕ × ℕ) := s.engines.map fun e ↦ (e.1, e.2.pointer)

/-- Some Dart object is there to delete the native object, or it is one that
is deleted by nobody. -/
def Owned (s : State) (p : ℕ) : Resource → Prop
  | .engine => ∃ id, (id, p) ∈ s.pointers
  | .conversation _ _ | .session _ => ∃ r ∈ s.sessions, (s.session r).handle = some p
  | .inputData => True
  | _ => False

/-- What holds of the worker between the steps of its code: no native call got a
wrong pointer, every native object has one owner, and a live operation has a
session with a handle. -/
structure Consistent (s : State) : Prop where
  misuse : s.native.misuse = false
  fresh : ∀ p, s.native.next ≤ p → s.native.live p = none
  owned : ∀ p res, s.native.live p = some res → Owned s p res
  engineIds : (s.pointers.map Prod.fst).Nodup
  enginePointers : (s.pointers.map Prod.snd).Nodup
  engineBound : ∀ id q, (id, q) ∈ s.pointers → id < s.nextEngine
  engineLive : ∀ id q, (id, q) ∈ s.pointers → s.native.live q = some .engine
  sessionNext : 0 < s.nextSession
  sessionBound : ∀ r ∈ s.sessions, 0 < r ∧ r < s.nextSession
  sessionEngine : ∀ r ∈ s.sessions, ∃ q, ((s.session r).engineId, q) ∈ s.pointers ∧
    ∀ p ∈ (s.session r).handle, ∃ res ∈ s.native.live p, (s.session r).owns q res
  sessionSpare : ∀ r ∈ s.sessions, (s.session r).spare = none
  distinct : ∀ r ∈ s.sessions, ∀ r' ∈ s.sessions, ∀ p ∈ (s.session r).handle,
    p ∈ (s.session r').handle → r = r'
  nodup : s.operations.Nodup
  opSession : ∀ stream ∈ s.operations, (s.op stream).session ∈ s.sessions ∧
    (s.session (s.op stream).session).streamId = some stream ∧
    (s.session (s.op stream).session).handle ≠ none
  opNative : ∀ stream ∈ s.operations, (s.op stream).native ∈ s.native.registry
  natives : ∀ stream ∈ s.operations, ∀ stream' ∈ s.operations,
    (s.op stream).native = (s.op stream').native → stream = stream'
  backpressure : ∀ stream ∈ s.operations, (s.op stream).backpressure = true →
    (s.op stream).cancelRequested = true
  registry : ∀ id ∈ s.native.registry, 0 < id ∧ (s.native.nextId = 0 ∨ id < s.native.nextId)
  machine : ∀ id ∈ s.native.registry,
    s.native.operation id = (Bridge.operation id).state (s.native.calls id)

def Resource.kind : Resource → Resource
  | .conversation owner _ => .conversation owner { preface := [] }
  | resource => resource

def NativeSession.frame (x : NativeSession) :
    ℕ × Bool × Option ℕ × Option ℕ × Option ℕ :=
  (x.engineId, x.conversation, x.chat, x.raw, x.streamId)

theorem NativeSession.frame_eq {x y : NativeSession} (h : x.frame = y.frame) :
    x.engineId = y.engineId ∧ x.handle = y.handle ∧ x.spare = y.spare ∧ x.owns = y.owns ∧
      x.streamId = y.streamId := by
  simp only [frame, Prod.mk.injEq] at h
  obtain ⟨he, hk, hc, hr, hs⟩ := h
  refine ⟨he, by simp [handle, hk, hc, hr], by simp [spare, hk, hc, hr], ?_, hs⟩
  funext q res
  cases res <;> simp [owns, hk]

variable {s s' : State}

theorem Owned.mono {p : ℕ} {res : Resource} (h : Owned s p res)
    (hpointers : ∀ id, (id, p) ∈ s.pointers → (id, p) ∈ s'.pointers)
    (hhandle : ∀ r ∈ s.sessions, (s.session r).handle = some p →
      r ∈ s'.sessions ∧ (s'.session r).handle = some p) : Owned s' p res := by
  have hheld (h : ∃ r ∈ s.sessions, (s.session r).handle = some p) :
      ∃ r ∈ s'.sessions, (s'.session r).handle = some p := by
    obtain ⟨r, hr, hp⟩ := h
    exact ⟨r, hhandle r hr hp⟩
  cases res
  case engine =>
    obtain ⟨id, hid⟩ := h
    exact ⟨id, hpointers id hid⟩
  case conversation => exact hheld h
  case session => exact hheld h
  all_goals exact h

theorem owned_of_kind {p : ℕ} {res res' : Resource} (hkind : res.kind = res'.kind)
    (h : Owned s p res) : Owned s p res' := by
  cases res <;> cases res' <;> first | exact h | simp [Resource.kind] at hkind

theorem NativeSession.owns_of_kind {x : NativeSession} {q : ℕ} {res res' : Resource}
    (hkind : res.kind = res'.kind) (h : x.owns q res) : x.owns q res' := by
  cases res <;> cases res' <;> simp_all [Resource.kind, owns]

structure Unseen (s s' : State) : Prop where
  sessions : s'.sessions = s.sessions
  operations : s'.operations = s.operations
  pointers : s'.pointers = s.pointers
  nextEngine : s'.nextEngine = s.nextEngine
  nextSession : s'.nextSession = s.nextSession
  session : ∀ r ∈ s.sessions, (s'.session r).frame = (s.session r).frame
  op : ∀ stream ∈ s.operations, (s'.op stream).session = (s.op stream).session ∧
    (s'.op stream).native = (s.op stream).native
  backpressure : ∀ stream ∈ s.operations, (s'.op stream).backpressure = true →
    (s'.op stream).cancelRequested = true
  next : s.native.next ≤ s'.native.next
  live : ∀ p, (s'.native.live p).map Resource.kind = (s.native.live p).map Resource.kind
  misuse : s'.native.misuse = s.native.misuse
  nextId : s'.native.nextId = s.native.nextId
  known : s'.native.registry = s.native.registry
  machine : ∀ id ∈ s.native.registry,
    s'.native.operation id = (Bridge.operation id).state (s'.native.calls id)

theorem Unseen.live_iff (h : Unseen s s') (p : ℕ) (res' : Resource) :
    (∃ res ∈ s'.native.live p, res.kind = res'.kind) ↔
      ∃ res ∈ s.native.live p, res.kind = res'.kind := by
  have hp := h.live p
  cases hs : s.native.live p <;> cases hs' : s'.native.live p <;> simp_all

theorem Unseen.owned (h : Unseen s s') {p : ℕ} {res : Resource} (ho : Owned s p res) :
    Owned s' p res := by
  refine ho.mono (fun id hid ↦ h.pointers ▸ hid) fun r hr hp ↦ ⟨h.sessions ▸ hr, ?_⟩
  exact (NativeSession.frame_eq (h.session r hr)).2.1.trans hp

theorem Unseen.trans {s s' s'' : State} (h : Unseen s s') (h' : Unseen s' s'') : Unseen s s'' := by
  refine ⟨h'.sessions.trans h.sessions, h'.operations.trans h.operations,
    h'.pointers.trans h.pointers, h'.nextEngine.trans h.nextEngine,
    h'.nextSession.trans h.nextSession, fun r hr ↦ ?_, fun t ht ↦ ?_, fun t ht ↦ ?_,
    h.next.trans h'.next, fun p ↦ (h'.live p).trans (h.live p), h'.misuse.trans h.misuse,
    h'.nextId.trans h.nextId, h'.known.trans h.known, fun id hid ↦ ?_⟩
  · exact (h'.session r (h.sessions ▸ hr)).trans (h.session r hr)
  · obtain ⟨hs, hn⟩ := h'.op t (h.operations ▸ ht)
    exact ⟨hs.trans (h.op t ht).1, hn.trans (h.op t ht).2⟩
  · exact h'.backpressure t (h.operations ▸ ht)
  · exact h'.machine id (h.known ▸ hid)

theorem Consistent.unseen (hs : Consistent s) (h : Unseen s s') : Consistent s' := by
  have hframe (r : ℕ) (hr : r ∈ s.sessions) := NativeSession.frame_eq (h.session r hr)
  constructor
  case misuse => exact h.misuse.trans hs.misuse
  case fresh =>
    intro p hp
    have hlive := h.live p
    rw [hs.fresh p (h.next.trans hp)] at hlive
    simpa using hlive
  case owned =>
    intro p res hp
    obtain ⟨res', hp', hkind⟩ := (h.live_iff p res).mp ⟨res, hp, rfl⟩
    exact h.owned (owned_of_kind hkind (hs.owned p res' hp'))
  case engineIds => exact h.pointers ▸ hs.engineIds
  case enginePointers => exact h.pointers ▸ hs.enginePointers
  case engineBound => exact h.pointers ▸ h.nextEngine ▸ hs.engineBound
  case engineLive =>
    rw [h.pointers]
    intro id q hq
    obtain ⟨res, hres, hkind⟩ := (h.live_iff q .engine).mpr ⟨_, hs.engineLive id q hq, rfl⟩
    cases res <;> simp_all [Resource.kind]
  case sessionNext => exact h.nextSession ▸ hs.sessionNext
  case sessionBound => exact h.sessions ▸ h.nextSession ▸ hs.sessionBound
  case sessionEngine =>
    rw [h.sessions, h.pointers]
    intro r hr
    obtain ⟨he, hh, -, ho, -⟩ := hframe r hr
    obtain ⟨q, hq, hown⟩ := hs.sessionEngine r hr
    rw [he, hh, ho]
    refine ⟨q, hq, fun p hp ↦ ?_⟩
    obtain ⟨res, hres, hown⟩ := hown p hp
    obtain ⟨res', hres', hkind⟩ := (h.live_iff p res).mpr ⟨res, hres, rfl⟩
    exact ⟨res', hres', NativeSession.owns_of_kind hkind.symm hown⟩
  case sessionSpare =>
    rw [h.sessions]
    exact fun r hr ↦ (hframe r hr).2.2.1.trans (hs.sessionSpare r hr)
  case distinct =>
    rw [h.sessions]
    intro r hr r' hr'
    rw [(hframe r hr).2.1, (hframe r' hr').2.1]
    exact hs.distinct r hr r' hr'
  case nodup => exact h.operations ▸ hs.nodup
  case opSession =>
    rw [h.operations, h.sessions]
    intro stream hstream
    obtain ⟨hr, hid, hh⟩ := hs.opSession stream hstream
    obtain ⟨-, hh', -, -, hid'⟩ := hframe _ hr
    rw [(h.op stream hstream).1, hid', hh']
    exact ⟨hr, hid, hh⟩
  case opNative =>
    rw [h.operations, h.known]
    exact fun stream hstream ↦ (h.op stream hstream).2 ▸ hs.opNative stream hstream
  case natives =>
    rw [h.operations]
    intro stream hstream stream' hstream'
    rw [(h.op stream hstream).2, (h.op stream' hstream').2]
    exact hs.natives stream hstream stream' hstream'
  case backpressure => exact h.operations ▸ h.backpressure
  case registry => exact h.known ▸ h.nextId ▸ hs.registry
  case machine => exact h.known ▸ h.machine

def State.drop (s : State) (r : ℕ) : State :=
  { s with
    session := Function.update s.session r { s.session r with chat := none, raw := none }
    native :=
      { s.native with
        live := match (s.session r).handle with
          | some p => Function.update s.native.live p none
          | none => s.native.live } }

@[simp] theorem handle_dropped (x : NativeSession) :
    { x with chat := none, raw := none }.handle = none := by
  simp [NativeSession.handle]

@[simp] theorem spare_dropped (x : NativeSession) :
    { x with chat := none, raw := none }.spare = none := by
  simp [NativeSession.spare]

theorem Consistent.engine_ne (hs : Consistent s) {r p id q : ℕ} (hr : r ∈ s.sessions)
    (hp : (s.session r).handle = some p) (hq : (id, q) ∈ s.pointers) : q ≠ p := by
  rintro rfl
  obtain ⟨q', -, hlive⟩ := hs.sessionEngine r hr
  obtain ⟨res, hres, howns⟩ := hlive q hp
  rw [hs.engineLive id q hq, Option.mem_some_iff] at hres
  subst hres
  exact howns

theorem Consistent.drop (hs : Consistent s) {r : ℕ} (hr : r ∈ s.sessions)
    (hop : ∀ stream ∈ s.operations, (s.op stream).session ≠ r) : Consistent (s.drop r) := by
  have hother {r' : ℕ} (h : r' ≠ r) : (s.drop r).session r' = s.session r' :=
    Function.update_of_ne h ..
  have hself : (s.drop r).session r = { s.session r with chat := none, raw := none } :=
    Function.update_self ..
  -- what is still live was live before, and is not what `r` pointed to
  have hlive (p : ℕ) (res : Resource) : (s.drop r).native.live p = some res ↔
      s.native.live p = some res ∧ (s.session r).handle ≠ some p := by
    simp only [State.drop]
    cases hh : (s.session r).handle with
    | none => simp
    | some q =>
      by_cases h : p = q
      · simp [h]
      · simp [Function.update_of_ne h, Ne.symm h]
  constructor
  case misuse => exact hs.misuse
  case fresh =>
    intro p hp
    by_contra h
    obtain ⟨res, hres⟩ := Option.ne_none_iff_exists'.mp h
    simpa [hs.fresh p hp] using ((hlive p res).mp hres).1
  case owned =>
    intro p res hp
    obtain ⟨hp, hne⟩ := (hlive p res).mp hp
    refine (hs.owned p res hp).mono (fun _ h ↦ h) fun r' hr' hh ↦ ⟨hr', ?_⟩
    rwa [hother (by rintro rfl; exact hne hh)]
  case engineIds => exact hs.engineIds
  case enginePointers => exact hs.enginePointers
  case engineBound => exact hs.engineBound
  case engineLive =>
    intro id q hq
    refine (hlive q _).mpr ⟨hs.engineLive id q hq, fun hp ↦ ?_⟩
    exact hs.engine_ne hr hp hq rfl
  case sessionNext => exact hs.sessionNext
  case sessionBound => exact hs.sessionBound
  case sessionEngine =>
    intro r' hr'
    by_cases h : r' = r
    · subst h
      obtain ⟨q, hq, -⟩ := hs.sessionEngine r' hr'
      rw [hself]
      exact ⟨q, hq, by simp⟩
    · obtain ⟨q, hq, hlive'⟩ := hs.sessionEngine r' hr'
      rw [hother h]
      refine ⟨q, hq, fun p hp ↦ ?_⟩
      obtain ⟨res, hres, ho⟩ := hlive' p hp
      refine ⟨res, (hlive p res).mpr ⟨hres, fun hp' ↦ ?_⟩, ho⟩
      exact h (hs.distinct r' hr' r hr p hp hp')
  case sessionSpare =>
    intro r' hr'
    by_cases h : r' = r
    · rw [h, hself, spare_dropped]
    · rw [hother h]
      exact hs.sessionSpare r' hr'
  case distinct =>
    intro r₁ h₁ r₂ h₂ p hp₁ hp₂
    by_cases h : r₁ = r
    · rw [h, hself, handle_dropped] at hp₁
      simp at hp₁
    · by_cases h' : r₂ = r
      · rw [h', hself, handle_dropped] at hp₂
        simp at hp₂
      · rw [hother h] at hp₁
        rw [hother h'] at hp₂
        exact hs.distinct r₁ h₁ r₂ h₂ p hp₁ hp₂
  case opSession =>
    intro stream hstream
    show _ ∧ ((s.drop r).session (s.op stream).session).streamId = _ ∧
      ((s.drop r).session (s.op stream).session).handle ≠ none
    rw [hother (hop stream hstream)]
    exact hs.opSession stream hstream
  case nodup => exact hs.nodup
  case opNative => exact hs.opNative
  case natives => exact hs.natives
  case backpressure => exact hs.backpressure
  case registry => exact hs.registry
  case machine => exact hs.machine

def State.remove (s : State) (r : ℕ) : State := { s with sessions := s.sessions.filter (· ≠ r) }

theorem Consistent.remove (hs : Consistent s) {r : ℕ} (hh : (s.session r).handle = none)
    (hop : ∀ stream ∈ s.operations, (s.op stream).session ≠ r) : Consistent (s.remove r) := by
  have hsub {r' : ℕ} (h : r' ∈ (s.remove r).sessions) : r' ∈ s.sessions := (List.mem_filter.mp h).1
  have hkept {r' : ℕ} (h : r' ∈ s.sessions) (hne : r' ≠ r) : r' ∈ (s.remove r).sessions :=
    List.mem_filter.mpr ⟨h, by simpa using hne⟩
  constructor
  case owned =>
    intro p res hp
    refine (hs.owned p res hp).mono (fun _ h ↦ h) fun r' hr' hp' ↦ ⟨hkept hr' ?_, hp'⟩
    rintro rfl
    rw [hh] at hp'
    cases hp'
  case sessionBound => exact fun r' hr' ↦ hs.sessionBound r' (hsub hr')
  case sessionEngine => exact fun r' hr' ↦ hs.sessionEngine r' (hsub hr')
  case sessionSpare => exact fun r' hr' ↦ hs.sessionSpare r' (hsub hr')
  case distinct => exact fun r₁ h₁ r₂ h₂ ↦ hs.distinct r₁ (hsub h₁) r₂ (hsub h₂)
  case opSession =>
    intro stream hstream
    obtain ⟨hr, h⟩ := hs.opSession stream hstream
    exact ⟨hkept hr (hop stream hstream), h⟩
  all_goals first
    | exact hs.misuse | exact hs.fresh | exact hs.engineIds | exact hs.enginePointers
    | exact hs.engineBound | exact hs.engineLive | exact hs.opNative | exact hs.natives
    | exact hs.backpressure | exact hs.registry | exact hs.machine | exact hs.nodup |
      exact hs.sessionNext

def State.retire (s : State) (stream : ℕ) (phase : HandlePhase) : State :=
  { s with
    operations := s.operations.filter (· ≠ stream)
    session := Function.update s.session (s.op stream).session
      { s.session (s.op stream).session with streamId := none, phase := phase }
    native := s.native.operationDelete (s.op stream).native }

theorem Consistent.retire (hs : Consistent s) {stream : ℕ} (hstream : stream ∈ s.operations)
    (phase : HandlePhase) : Consistent (s.retire stream phase) := by
  set r := (s.op stream).session with hr
  have hother {r' : ℕ} (h : r' ≠ r) : (s.retire stream phase).session r' = s.session r' :=
    Function.update_of_ne h ..
  have hself : (s.retire stream phase).session r =
      { s.session r with streamId := none, phase := phase } := Function.update_self ..
  have hhandle (r' : ℕ) : ((s.retire stream phase).session r').handle = (s.session r').handle ∧
      ((s.retire stream phase).session r').spare = (s.session r').spare ∧
      ((s.retire stream phase).session r').engineId = (s.session r').engineId ∧
      ((s.retire stream phase).session r').owns = (s.session r').owns := by
    by_cases h : r' = r
    · rw [h, hself]
      refine ⟨rfl, rfl, rfl, ?_⟩
      funext q res
      cases res <;> rfl
    · rw [hother h]
      exact ⟨rfl, rfl, rfl, rfl⟩
  have hsub {t : ℕ} (h : t ∈ (s.retire stream phase).operations) : t ∈ s.operations ∧
    t ≠ stream := by
    simpa [State.retire] using h
  constructor
  case owned =>
    intro p res hp
    exact (hs.owned p res hp).mono (fun _ h ↦ h) fun r' hr' hp' ↦ ⟨hr', (hhandle r').1.trans hp'⟩
  case sessionEngine =>
    intro r' hr'
    obtain ⟨hh, -, he, ho⟩ := hhandle r'
    rw [hh, he, ho]
    exact hs.sessionEngine r' hr'
  case sessionSpare => exact fun r' hr' ↦ (hhandle r').2.1.trans (hs.sessionSpare r' hr')
  case distinct =>
    intro r₁ h₁ r₂ h₂
    rw [(hhandle r₁).1, (hhandle r₂).1]
    exact hs.distinct r₁ h₁ r₂ h₂
  case opSession =>
    intro t ht
    obtain ⟨ht, hne⟩ := hsub ht
    obtain ⟨hr', hid, hh⟩ := hs.opSession t ht
    -- the session of another live operation is another session
    have hdiff : (s.op t).session ≠ r := by
      intro h
      rw [h, (hs.opSession stream hstream).2.1, Option.some.injEq] at hid
      exact hne hid.symm
    show _ ∧ ((s.retire stream phase).session (s.op t).session).streamId = _ ∧
      ((s.retire stream phase).session (s.op t).session).handle ≠ none
    rw [hother hdiff]
    exact ⟨hr', hid, hh⟩
  case opNative =>
    intro t ht
    obtain ⟨ht, hne⟩ := hsub ht
    refine List.mem_filter.mpr ⟨hs.opNative t ht, ?_⟩
    exact decide_eq_true fun h ↦ hne (hs.natives t ht stream hstream h)
  case nodup => exact hs.nodup.filter _
  case natives =>
    exact fun t ht t' ht' ↦ hs.natives t (hsub ht).1 t' (hsub ht').1
  case backpressure => exact fun t ht ↦ hs.backpressure t (hsub ht).1
  case registry => exact fun id hid ↦ hs.registry id (List.mem_filter.mp hid).1
  case machine => exact fun id hid ↦ hs.machine id (List.mem_filter.mp hid).1
  all_goals first
    | exact hs.misuse | exact hs.fresh | exact hs.engineIds | exact hs.enginePointers
    | exact hs.engineBound | exact hs.engineLive | exact hs.nodup | exact hs.sessionNext |
      exact hs.sessionBound

def State.add (s : State) (x : NativeSession) : State :=
  { s with
    session := Function.update s.session s.nextSession x
    sessions := s.sessions ++ [s.nextSession]
    nextSession := s.nextSession + 1 }

theorem Consistent.add (hs : Consistent s) {x : NativeSession} {q : ℕ} (hchat : x.chat = none)
    (hraw : x.raw = none) (hq : (x.engineId, q) ∈ s.pointers) : Consistent (s.add x) := by
  have hne {r : ℕ} (hr : r ∈ s.sessions) : r ≠ s.nextSession := by
    have := (hs.sessionBound r hr).2
    omega
  have hother {r : ℕ} (hr : r ∈ s.sessions) : (s.add x).session r = s.session r :=
    Function.update_of_ne (hne hr) ..
  have hself : (s.add x).session s.nextSession = x := Function.update_self ..
  have hmem {r : ℕ} (hr : r ∈ (s.add x).sessions) : r ∈ s.sessions ∨ r = s.nextSession := by
    simpa [State.add] using hr
  have hkept {r : ℕ} (hr : r ∈ s.sessions) : r ∈ (s.add x).sessions :=
    List.mem_append_left _ hr
  have hhandle : x.handle = none := by simp [NativeSession.handle, hchat, hraw]
  constructor
  case owned =>
    intro p res hp
    refine (hs.owned p res hp).mono (fun _ h ↦ h) fun r hr hp' ↦ ⟨hkept hr, ?_⟩
    rwa [hother hr]
  case sessionNext => exact Nat.succ_pos _
  case sessionBound =>
    intro r hr
    have hpos := hs.sessionNext
    show 0 < r ∧ r < s.nextSession + 1
    rcases hmem hr with hr | rfl
    · have := hs.sessionBound r hr
      omega
    · omega
  case sessionEngine =>
    intro r hr
    rcases hmem hr with hr | rfl
    · rw [hother hr]
      exact hs.sessionEngine r hr
    · rw [hself, hhandle]
      exact ⟨q, hq, by simp⟩
  case sessionSpare =>
    intro r hr
    rcases hmem hr with hr | rfl
    · rw [hother hr]
      exact hs.sessionSpare r hr
    · rw [hself]
      simp [NativeSession.spare, hchat, hraw]
  case distinct =>
    intro r₁ h₁ r₂ h₂ p hp₁ hp₂
    rcases hmem h₁ with h₁ | rfl
    · rcases hmem h₂ with h₂ | rfl
      · rw [hother h₁] at hp₁
        rw [hother h₂] at hp₂
        exact hs.distinct r₁ h₁ r₂ h₂ p hp₁ hp₂
      · simp [hself, hhandle] at hp₂
    · simp [hself, hhandle] at hp₁
  case opSession =>
    intro stream hstream
    obtain ⟨hr, hid, hh⟩ := hs.opSession stream hstream
    have hsession : (s.add x).session ((s.add x).op stream).session =
        s.session (s.op stream).session := hother hr
    rw [hsession]
    exact ⟨hkept hr, hid, hh⟩
  all_goals first
    | exact hs.misuse | exact hs.fresh | exact hs.engineIds | exact hs.enginePointers
    | exact hs.engineBound | exact hs.engineLive | exact hs.opNative | exact hs.natives
    | exact hs.nodup | exact hs.backpressure | exact hs.registry | exact hs.machine

def State.give (s : State) (r : ℕ) (x : NativeSession) (p next : ℕ) (setters : List Setter)
    (res : Resource) : State :=
  { s with
    session := Function.update s.session r x
    native := s.native.after next setters (Function.update s.native.live p (some res)) }

theorem Consistent.give (hs : Consistent s) {r p q next : ℕ} {x : NativeSession}
    {setters : List Setter} {res : Resource} (hr : r ∈ s.sessions)
    (hh : (s.session r).handle = none)
    (hx : x.engineId = (s.session r).engineId ∧ x.streamId = (s.session r).streamId)
    (hhandle : x.handle = some p) (hspare : x.spare = none) (hq : (x.engineId, q) ∈ s.pointers)
    (hres : x.owns q res) (hp : s.native.live p = none) (hnext : s.native.next ≤ next)
    (hbelow : p < next) : Consistent (s.give r x p next setters res) := by
  have hother {r' : ℕ} (h : r' ≠ r) : (s.give r x p next setters res).session r' = s.session r' :=
    Function.update_of_ne h ..
  have hself : (s.give r x p next setters res).session r = x := Function.update_self ..
  have hlive {p' : ℕ} {res' : Resource} (h : s.native.live p' = some res') :
      (s.give r x p next setters res).native.live p' = some res' :=
    (Function.update_of_ne (by rintro rfl; rw [hp] at h; cases h) ..).trans h
  have hnew : (s.give r x p next setters res).native.live p = some res := Function.update_self ..
  constructor
  case fresh =>
    intro p' hp'
    have hne : p' ≠ p := by
      rintro rfl
      exact absurd hbelow (not_lt.mpr hp')
    exact (Function.update_of_ne hne ..).trans (hs.fresh p' (hnext.trans hp'))
  case owned =>
    intro p' res' hp'
    by_cases h : p' = p
    · subst h
      obtain rfl : res = res' := Option.some.inj (hnew.symm.trans hp')
      have hheld : ∃ r' ∈ s.sessions,
          ((s.give r x p' next setters res).session r').handle = some p' :=
        ⟨r, hr, by rw [hself, hhandle]⟩
      cases res
      case conversation => exact hheld
      case session => exact hheld
      all_goals exact hres.elim
    · have hlive' : s.native.live p' = some res' := (Function.update_of_ne h ..).symm.trans hp'
      refine (hs.owned p' res' hlive').mono (fun _ h ↦ h) fun r' hr' hh' ↦ ⟨hr', ?_⟩
      rwa [hother (by rintro rfl; rw [hh] at hh'; cases hh')]
  case engineLive => exact fun id q' hq' ↦ hlive (hs.engineLive id q' hq')
  case sessionEngine =>
    intro r' hr'
    by_cases h : r' = r
    · subst h
      rw [hself, hhandle]
      refine ⟨q, hq, fun p' hp' ↦ ?_⟩
      obtain rfl := Option.some.inj hp'
      exact ⟨res, hnew, hres⟩
    · obtain ⟨q', hq', hown⟩ := hs.sessionEngine r' hr'
      rw [hother h]
      refine ⟨q', hq', fun p' hp' ↦ ?_⟩
      obtain ⟨res', hres', ho⟩ := hown p' hp'
      exact ⟨res', hlive hres', ho⟩
  case sessionSpare =>
    intro r' hr'
    by_cases h : r' = r
    · rw [h, hself, hspare]
    · rw [hother h]
      exact hs.sessionSpare r' hr'
  case distinct =>
    -- the new pointer is not live before, so no other session has it
    have hfresh {r' : ℕ} (hr' : r' ∈ s.sessions) : (s.session r').handle ≠ some p := by
      intro h
      obtain ⟨q', -, hown⟩ := hs.sessionEngine r' hr'
      obtain ⟨res', hres', -⟩ := hown p h
      rw [hp] at hres'
      cases hres'
    intro r₁ h₁ r₂ h₂ p' hp₁ hp₂
    by_cases h : r₁ = r
    · by_cases h' : r₂ = r
      · rw [h, h']
      · rw [h, hself, hhandle] at hp₁
        rw [hother h'] at hp₂
        obtain rfl := Option.some.inj hp₁
        exact absurd hp₂ (hfresh h₂)
    · by_cases h' : r₂ = r
      · rw [h', hself, hhandle] at hp₂
        rw [hother h] at hp₁
        obtain rfl := Option.some.inj hp₂
        exact absurd hp₁ (hfresh h₁)
      · rw [hother h] at hp₁
        rw [hother h'] at hp₂
        exact hs.distinct r₁ h₁ r₂ h₂ p' hp₁ hp₂
  case opSession =>
    intro stream hstream
    obtain ⟨hr', hid, hh'⟩ := hs.opSession stream hstream
    have hne : (s.op stream).session ≠ r := by
      rintro h
      exact hh' (h ▸ hh)
    have hsession : (s.give r x p next setters res).session
        ((s.give r x p next setters res).op stream).session = s.session (s.op stream).session :=
      hother hne
    rw [hsession]
    exact ⟨hr', hid, hh'⟩
  all_goals first
    | exact hs.misuse | exact hs.engineIds | exact hs.enginePointers | exact hs.engineBound
    | exact hs.opNative | exact hs.natives | exact hs.backpressure | exact hs.registry
    | exact hs.machine | exact hs.nodup | exact hs.sessionNext | exact hs.sessionBound

def State.load (s : State) (e : NativeEngine) (next : ℕ) (setters : List Setter) : State :=
  { s with
    engines := s.engines ++ [(s.nextEngine, e)]
    nextEngine := s.nextEngine + 1
    native := s.native.after next setters (Function.update s.native.live e.pointer (some .engine)) }

theorem State.load_pointers (s : State) (e : NativeEngine) (next : ℕ) (setters : List Setter) :
    (s.load e next setters).pointers = s.pointers ++ [(s.nextEngine, e.pointer)] := by
  simp [State.load, State.pointers]

theorem Consistent.load (hs : Consistent s) {e : NativeEngine} {next : ℕ} {setters : List Setter}
    (hp : s.native.live e.pointer = none) (hnext : s.native.next ≤ next)
    (hbelow : e.pointer < next) : Consistent (s.load e next setters) := by
  have hlive {p : ℕ} {res : Resource} (h : s.native.live p = some res) :
      (s.load e next setters).native.live p = some res :=
    (Function.update_of_ne (by rintro rfl; rw [hp] at h; cases h) ..).trans h
  have hmem {id q : ℕ} (h : (id, q) ∈ (s.load e next setters).pointers) :
      (id, q) ∈ s.pointers ∨ (id = s.nextEngine ∧ q = e.pointer) := by
    simpa [State.load_pointers] using h
  have hkept {id q : ℕ} (h : (id, q) ∈ s.pointers) :
    (id, q) ∈ (s.load e next setters).pointers := by
    simp [State.load_pointers, h]
  constructor
  case fresh =>
    intro p hp'
    have hne : p ≠ e.pointer := by
      rintro rfl
      exact absurd hbelow (not_lt.mpr hp')
    exact (Function.update_of_ne hne ..).trans (hs.fresh p (hnext.trans hp'))
  case owned =>
    intro p res hp'
    by_cases h : p = e.pointer
    · subst h
      obtain rfl : Resource.engine = res := by simpa [State.load, Native.after] using hp'
      exact ⟨s.nextEngine, by simp [State.load_pointers]⟩
    · refine (hs.owned p res ((Function.update_of_ne h ..).symm.trans hp')).mono
        (fun _ h ↦ hkept h) fun r hr hh ↦ ⟨hr, hh⟩
  case engineIds =>
    rw [State.load_pointers, List.map_append, List.nodup_append]
    refine ⟨hs.engineIds, by simp, ?_⟩
    intro id hid id' hid' h
    obtain ⟨⟨_, q⟩, hq, rfl⟩ := List.mem_map.mp hid
    obtain rfl : id' = s.nextEngine := by simpa using hid'
    exact absurd (hs.engineBound _ q hq) (by omega)
  case enginePointers =>
    rw [State.load_pointers, List.map_append, List.nodup_append]
    refine ⟨hs.enginePointers, by simp, ?_⟩
    intro q hq q' hq' h
    obtain ⟨⟨id, _⟩, hid, rfl⟩ := List.mem_map.mp hq
    obtain rfl : q' = e.pointer := by simpa using hq'
    have hlive' : s.native.live e.pointer = some .engine := h ▸ hs.engineLive id _ hid
    rw [hp] at hlive'
    cases hlive'
  case engineBound =>
    intro id q h
    show id < s.nextEngine + 1
    rcases hmem h with h | ⟨rfl, -⟩
    · exact Nat.lt_succ_of_lt (hs.engineBound id q h)
    · exact Nat.lt_succ_self _
  case engineLive =>
    intro id q h
    rcases hmem h with h | ⟨-, rfl⟩
    · exact hlive (hs.engineLive id q h)
    · exact Function.update_self ..
  case sessionEngine =>
    intro r hr
    obtain ⟨q, hq, hown⟩ := hs.sessionEngine r hr
    refine ⟨q, hkept hq, fun p hp' ↦ ?_⟩
    obtain ⟨res, hres, ho⟩ := hown p hp'
    exact ⟨res, hlive hres, ho⟩
  all_goals first
    | exact hs.misuse | exact hs.nodup | exact hs.sessionNext | exact hs.sessionBound |
      exact hs.sessionSpare
    | exact hs.distinct | exact hs.opSession | exact hs.opNative | exact hs.natives
    | exact hs.nodup | exact hs.backpressure | exact hs.registry | exact hs.machine

def State.unload (s : State) (id q : ℕ) : State :=
  { s with
    engines := s.engines.filter fun e ↦ e.1 ≠ id
    native := { s.native with live := Function.update s.native.live q none } }

theorem State.mem_unload_pointers {id q id' q' : ℕ} :
    (id', q') ∈ (s.unload id q).pointers ↔ (id', q') ∈ s.pointers ∧ id' ≠ id := by
  simp only [State.unload, State.pointers, List.mem_map, List.mem_filter, Prod.mk.injEq]
  constructor
  · rintro ⟨e, ⟨he, hne⟩, rfl, rfl⟩
    exact ⟨⟨e, he, rfl, rfl⟩, by simpa using hne⟩
  · rintro ⟨⟨e, he, rfl, rfl⟩, hne⟩
    exact ⟨e, ⟨he, by simpa using hne⟩, rfl, rfl⟩

theorem State.unload_sublist (id q : ℕ) : (s.unload id q).pointers.Sublist s.pointers :=
  List.filter_sublist.map _

theorem Consistent.pointer_inj (hs : Consistent s) {id id' q : ℕ} (h : (id, q) ∈ s.pointers)
    (h' : (id', q) ∈ s.pointers) : id = id' :=
  congrArg Prod.fst (List.inj_on_of_nodup_map hs.enginePointers h h' rfl)

theorem Consistent.unload (hs : Consistent s) {id q : ℕ} (hq : (id, q) ∈ s.pointers)
    (hsessions : ∀ r ∈ s.sessions, (s.session r).engineId ≠ id) : Consistent (s.unload id q) := by
  have hlive {p : ℕ} {res : Resource} (hne : p ≠ q) (h : s.native.live p = some res) :
      (s.unload id q).native.live p = some res :=
    (Function.update_of_ne hne ..).trans h
  constructor
  case fresh =>
    intro p hp
    simp only [State.unload, Function.update_apply, hs.fresh p hp, ite_self]
  case owned =>
    intro p res hp
    have hne : p ≠ q := by
      rintro rfl
      simp [State.unload] at hp
    refine (hs.owned p res ((Function.update_of_ne hne ..).symm.trans hp)).mono
      (fun id' hid' ↦ State.mem_unload_pointers.mpr ⟨hid', ?_⟩) fun r hr hh ↦ ⟨hr, hh⟩
    rintro rfl
    exact hne (congrArg Prod.snd (List.inj_on_of_nodup_map hs.engineIds hid' hq rfl))
  case engineIds => exact hs.engineIds.sublist ((State.unload_sublist id q).map _)
  case enginePointers => exact hs.enginePointers.sublist ((State.unload_sublist id q).map _)
  case engineBound =>
    exact fun id' q' h ↦ hs.engineBound id' q' (State.mem_unload_pointers.mp h).1
  case engineLive =>
    intro id' q' h
    obtain ⟨h, hne⟩ := State.mem_unload_pointers.mp h
    refine hlive ?_ (hs.engineLive id' q' h)
    intro hsame
    exact hne (hs.pointer_inj h (hsame ▸ hq))
  case sessionEngine =>
    intro r hr
    obtain ⟨q', hq', hown⟩ := hs.sessionEngine r hr
    refine ⟨q', State.mem_unload_pointers.mpr ⟨hq', hsessions r hr⟩, fun p hp ↦ ?_⟩
    obtain ⟨res, hres, ho⟩ := hown p hp
    exact ⟨res, hlive (hs.engine_ne hr hp hq).symm hres, ho⟩
  all_goals first
    | exact hs.misuse | exact hs.nodup | exact hs.sessionNext | exact hs.sessionBound |
      exact hs.sessionSpare
    | exact hs.distinct | exact hs.opSession | exact hs.opNative | exact hs.natives
    | exact hs.nodup | exact hs.backpressure | exact hs.registry | exact hs.machine

def State.leak (s : State) (p next : ℕ) : State :=
  { s with
    native := { s.native with
      next := next
      live := Function.update s.native.live p (some .inputData) } }

theorem Consistent.leak (hs : Consistent s) {p next : ℕ} (hp : s.native.live p = none)
    (hnext : s.native.next ≤ next) (hbelow : p < next) : Consistent (s.leak p next) := by
  have hlive {p' : ℕ} {res : Resource} (h : s.native.live p' = some res) :
      (s.leak p next).native.live p' = some res :=
    (Function.update_of_ne (by rintro rfl; rw [hp] at h; cases h) ..).trans h
  constructor
  case fresh =>
    intro p' hp'
    have hne : p' ≠ p := by
      rintro rfl
      exact absurd hbelow (not_lt.mpr hp')
    exact (Function.update_of_ne hne ..).trans (hs.fresh p' (hnext.trans hp'))
  case owned =>
    intro p' res hp'
    by_cases h : p' = p
    · subst h
      obtain rfl : Resource.inputData = res := by simpa [State.leak] using hp'
      trivial
    · exact (hs.owned p' res ((Function.update_of_ne h ..).symm.trans hp')).mono
        (fun _ h ↦ h) fun r hr hh ↦ ⟨hr, hh⟩
  case engineLive => exact fun id q h ↦ hlive (hs.engineLive id q h)
  case sessionEngine =>
    intro r hr
    obtain ⟨q, hq, hown⟩ := hs.sessionEngine r hr
    refine ⟨q, hq, fun p' hp' ↦ ?_⟩
    obtain ⟨res, hres, ho⟩ := hown p' hp'
    exact ⟨res, hlive hres, ho⟩
  all_goals first
    | exact hs.misuse | exact hs.engineIds | exact hs.enginePointers | exact hs.engineBound
    | exact hs.nodup | exact hs.sessionNext | exact hs.sessionBound | exact hs.sessionSpare
    | exact hs.distinct | exact hs.opSession | exact hs.opNative | exact hs.natives
    | exact hs.nodup | exact hs.backpressure | exact hs.registry | exact hs.machine

def State.launch (s : State) (stream r skip : ℕ) (messages : List Message) : State :=
  { s with
    op := Function.update s.op stream
      { session := r, native := s.native.operationId skip, messages := messages }
    session := Function.update s.session r
      { s.session r with phase := .generating, streamId := some stream }
    operations := if stream ∈ s.operations then s.operations else s.operations ++ [stream]
    native := s.native.operationCreate skip }

theorem Consistent.operationId_lt (hs : Consistent s) {skip id : ℕ}
    (hid : s.native.operationId skip ≠ 0) (h : id ∈ s.native.registry) :
    id < s.native.operationId skip := by
  obtain ⟨-, hlt⟩ := hs.registry id h
  unfold Native.operationId at hid ⊢
  split_ifs at hid ⊢ with hnone
  · exact absurd rfl hid
  · omega

theorem Consistent.launch (hs : Consistent s) {stream r skip : ℕ} {messages : List Message}
    (hr : r ∈ s.sessions) (hh : (s.session r).handle ≠ none) (hidle : (s.session r).streamId = none)
    (hid : s.native.operationId skip ≠ 0) : Consistent (s.launch stream r skip messages) := by
  set id := s.native.operationId skip with hid'
  set s' := s.launch stream r skip messages with hs'
  have hother {r' : ℕ} (h : r' ≠ r) : s'.session r' = s.session r' := Function.update_of_ne h ..
  have hself : s'.session r = { s.session r with phase := .generating, streamId := some stream } :=
    Function.update_self ..
  have hop : s'.op stream = { session := r, native := id, messages := messages } :=
    Function.update_self ..
  have hop' {t : ℕ} (h : t ≠ stream) : s'.op t = s.op t := Function.update_of_ne h ..
  have hmem {t : ℕ} (h : t ∈ s'.operations) (hne : t ≠ stream) : t ∈ s.operations := by
    simp only [hs', State.launch] at h
    split_ifs at h
    · exact h
    · simpa [hne] using h
  have hnative : s'.native.registry = s.native.registry ++ [id] ∧
      s'.native.nextId = (if id + 1 = 2 ^ 64 then 0 else id + 1) ∧
      s'.native.operation = Function.update s.native.operation id {} ∧
      s'.native.calls = Function.update s.native.calls id [] ∧ s'.native.live = s.native.live ∧
      s'.native.next = s.native.next ∧ s'.native.misuse = s.native.misuse := by
    simp [hs', State.launch, Native.operationCreate, ← hid', hid]
  obtain ⟨hregistry, hnextId, hoperation, hcalls, hlive, hnext, hmisuse⟩ := hnative
  have hframe (r' : ℕ) : (s'.session r').handle = (s.session r').handle ∧
      (s'.session r').spare = (s.session r').spare ∧
      (s'.session r').engineId = (s.session r').engineId ∧
      (s'.session r').owns = (s.session r').owns := by
    by_cases h : r' = r
    · rw [h, hself]
      refine ⟨rfl, rfl, rfl, ?_⟩
      funext q res
      cases res <;> rfl
    · rw [hother h]
      exact ⟨rfl, rfl, rfl, rfl⟩
  constructor
  case misuse => exact hmisuse.trans hs.misuse
  case fresh => exact hlive ▸ hnext ▸ hs.fresh
  case owned =>
    rw [hlive]
    exact fun p res hp ↦ (hs.owned p res hp).mono (fun _ h ↦ h)
      fun r' hr' hh' ↦ ⟨hr', (hframe r').1.trans hh'⟩
  case engineLive => exact hlive ▸ hs.engineLive
  case sessionEngine =>
    intro r' hr'
    obtain ⟨hh', -, he, ho⟩ := hframe r'
    rw [hh', he, ho, hlive]
    exact hs.sessionEngine r' hr'
  case sessionSpare => exact fun r' hr' ↦ (hframe r').2.1.trans (hs.sessionSpare r' hr')
  case distinct =>
    intro r₁ h₁ r₂ h₂
    rw [(hframe r₁).1, (hframe r₂).1]
    exact hs.distinct r₁ h₁ r₂ h₂
  case opSession =>
    intro t ht
    by_cases h : t = stream
    · subst h
      rw [hop, hself]
      exact ⟨hr, rfl, hh⟩
    · obtain ⟨hr', hstream, hh'⟩ := hs.opSession t (hmem ht h)
      have hne : (s.op t).session ≠ r := by
        intro hsame
        rw [hsame, hidle] at hstream
        cases hstream
      rw [hop' h, hother hne]
      exact ⟨hr', hstream, hh'⟩
  case opNative =>
    intro t ht
    rw [hregistry]
    by_cases h : t = stream
    · simp [h, hop]
    · rw [hop' h]
      exact List.mem_append_left _ (hs.opNative t (hmem ht h))
  case natives =>
    have hne {t : ℕ} (ht : t ∈ s.operations) : (s.op t).native ≠ id :=
      (hs.operationId_lt hid (hs.opNative t ht)).ne
    intro t ht t' ht' hsame
    by_cases h : t = stream
    · by_cases h' : t' = stream
      · rw [h, h']
      · rw [h, hop, hop' h'] at hsame
        exact absurd hsame.symm (hne (hmem ht' h'))
    · by_cases h' : t' = stream
      · rw [h', hop, hop' h] at hsame
        exact absurd hsame (hne (hmem ht h))
      · rw [hop' h, hop' h'] at hsame
        exact hs.natives t (hmem ht h) t' (hmem ht' h') hsame
  case nodup =>
    show (if stream ∈ s.operations then s.operations else s.operations ++ [stream]).Nodup
    split_ifs with h
    · exact hs.nodup
    · refine List.nodup_append.mpr ⟨hs.nodup, by simp, fun t ht t' ht' hsame ↦ h ?_⟩
      obtain rfl := List.mem_singleton.mp ht'
      exact hsame ▸ ht
  case backpressure =>
    intro t ht
    by_cases h : t = stream
    · simp [h, hop]
    · rw [hop' h]
      exact hs.backpressure t (hmem ht h)
  case registry =>
    rw [hregistry, hnextId]
    intro id' h
    rcases List.mem_append.mp h with h | h
    · have hpos := (hs.registry id' h).1
      have hlt := hs.operationId_lt hid h
      split_ifs <;> omega
    · obtain rfl := List.mem_singleton.mp h
      split_ifs <;> omega
  case machine =>
    rw [hregistry, hoperation, hcalls]
    intro id' h
    by_cases hne : id' = id
    · simp [hne]
    · rw [Function.update_of_ne hne, Function.update_of_ne hne]
      exact hs.machine id' (by simpa [hne] using h)
  all_goals first
    | exact hs.engineIds | exact hs.enginePointers | exact hs.engineBound
    | exact hs.nodup | exact hs.sessionNext | exact hs.sessionBound

end LibLitertLm.Worker
