import LibLitertLm.Worker.Resources

namespace LibLitertLm.Worker

open Code

def NativeWorker.setSession (w : NativeWorker) (r : ℕ) (x : NativeSession) : NativeWorker :=
  { w with state := { w.state with session := Function.update w.state.session r x } }

def NativeSession.opened (x : NativeSession) (preface : List Message) (handle : Option ℕ) :
    NativeSession :=
  { x with
    prefillTurns := 0
    decodeTurns := 0
    nativePreface := preface
    chat := if x.conversation then handle else none
    raw := if x.conversation then none else handle }

def NativeSession.resource (x : NativeSession) (engine : ℕ) (preface : List Message) : Resource :=
  if x.conversation then .conversation engine { preface := preface } else .session engine

variable {b w : NativeWorker} {live : ℕ → Option Resource} {r : ℕ}

@[simp] theorem NativeWorker.setSession_session (w : NativeWorker) (r : ℕ) (x : NativeSession) :
    (w.setSession r x).state.session r = x :=
  Function.update_self ..

@[simp] theorem NativeWorker.setSession_setSession (w : NativeWorker) (r : ℕ)
    (x y : NativeSession) : (w.setSession r x).setSession r y = w.setSession r y := by
  simp [setSession]

theorem NativeWorker.setSession_self (w : NativeWorker) (r : ℕ) :
    w.setSession r (w.state.session r) = w := by
  simp [setSession]

theorem Scratch.session (h : Scratch b live w) : w.state.session = b.state.session := by
  obtain ⟨next, setters, rfl, -⟩ := h
  rfl

theorem Scratch.engines (h : Scratch b live w) : w.state.engines = b.state.engines := by
  obtain ⟨next, setters, rfl, -⟩ := h
  rfl

theorem Scratch.post_modifySession (h : Scratch b live w) (r : ℕ)
    (f : NativeSession → NativeSession) :
    Post (modifySession r f) w fun result t ↦
      result = .ok () ∧ Scratch (b.setSession r (f (b.state.session r))) live t := by
  obtain ⟨next, setters, rfl, hnext, hfresh⟩ := h
  simp only [modifySession, post_update]
  exact ⟨trivial, next, setters, rfl, hnext, hfresh⟩

/-- Code that works on `b` either throws or makes one object that stays, at some
pointer `p`, and ends as `done p`; the objects made on the way are gone. -/
def Creates (b : NativeWorker) (done : ℕ → NativeWorker) (new : Resource)
    (live : ℕ → Option Resource) (result : Except Thrown α) (t : NativeWorker) : Prop :=
  match result with
  | .ok _ => ∃ p, b.state.native.next ≤ p ∧ live p = none ∧
      Scratch (done p) (Function.update live p (some new)) t
  | .error _ => Scratch b live t

section Creates

variable {done : ℕ → NativeWorker} {new temp : Resource} {kind : Resource → Bool} {p : ℕ}

theorem Creates.post_delete {result : Except Thrown α}
    (h : Creates b done new (Function.update live p (some temp)) result w) (hp : live p = none)
    (ht : kind temp = true) :
    Post (delete (some p) kind) w fun result' u ↦
      result' = .ok () ∧ Creates b done new live result u := by
  cases result with
  | error e =>
    refine (Scratch.post_delete h (Function.update_self ..) ht).mono fun result' u hu ↦ ?_
    rw [Function.update_idem, ← hp, Function.update_eq_self] at hu
    exact hu
  | ok _ =>
    obtain ⟨q, hb, hq, h⟩ := h
    have hne : p ≠ q := by
      rintro rfl
      simp at hq
    rw [Function.update_of_ne hne.symm] at hq
    rw [Function.update_comm hne] at h
    refine (h.post_delete (Function.update_self ..) ht).mono fun result' u hu ↦
      ⟨hu.1, q, hb, hq, ?_⟩
    have hgone : Function.update (Function.update live q (some new)) p none =
        Function.update live q (some new) := by
      rw [← hp, ← Function.update_of_ne hne (some new) live, Function.update_eq_self]
    simpa only [Function.update_idem, hgone] using hu.2

theorem Creates.bracket {body : M α} (hp : live p = none) (ht : kind temp = true)
    (hbody : Post body w (Creates b done new (Function.update live p (some temp)))) :
    Post (tryFinally body (delete (some p) kind)) w (Creates b done new live) := by
  rw [post_tryFinally]
  refine hbody.mono fun result t h ↦ (h.post_delete hp ht).mono fun result' u hu ↦ ?_
  obtain ⟨rfl, hu⟩ := hu
  exact hu

theorem Creates.bind {m : M α} {f : α → M β} (hw : Scratch b live w) (hm : Keeps (Scratch b live) m)
    (hf : ∀ a t, Scratch b live t → Post (f a) t (Creates b done new live)) :
    Post (m >>= f) w (Creates b done new live) := by
  rw [post_bind]
  refine (hm w hw).mono fun result t ht ↦ ?_
  cases result with
  | error e => exact ht
  | ok a => exact hf a t ht

end Creates

/-- `_openSession` and its parts either find a handle for the session or throw. -/
abbrev Opens (b : NativeWorker) (r : ℕ) (x : Option ℕ → NativeSession) (new : Resource)
    (live : ℕ → Option Resource) : Except Thrown Unit → NativeWorker → Prop :=
  Creates (b.setSession r (x none)) (fun p ↦ b.setSession r (x (some p))) new live

variable {x : Option ℕ → NativeSession} {new : Resource} {p : ℕ}

theorem Opens.post_create (hw : Scratch (b.setSession r (x none)) live w) (succeeds : Bool)
    (store : Option ℕ → NativeSession → NativeSession) (hstore : ∀ h, store h (x none) = x h)
    (action : String) (lastError : List UInt8) :
    Post (do
      let handle ← create succeeds new
      modifySession r (store handle)
      checkPointer handle action lastError) w (Opens b r x new live) := by
  rw [post_bind]
  refine (hw.post_create succeeds new).mono fun result t ht ↦ ?_
  match result with
  | .error _ => exact ht.elim
  | .ok none =>
    refine (post_bind ..).mpr ((ht.post_modifySession r (store none)).mono fun result u hu ↦ ?_)
    obtain ⟨rfl, hu⟩ := hu
    rw [NativeWorker.setSession_session, hstore, NativeWorker.setSession_setSession] at hu
    exact post_checkPointer (fun _ _ ↦ hu) (by simp)
  | .ok (some p) =>
    obtain ⟨hb, hp, ht⟩ := ht
    refine (post_bind ..).mpr ((ht.post_modifySession r (store (some p))).mono fun result u hu ↦ ?_)
    obtain ⟨rfl, hu⟩ := hu
    rw [NativeWorker.setSession_session, hstore, NativeWorker.setSession_setSession] at hu
    exact ⟨p, hb, hp, hu⟩

theorem Opens.post_openRaw {engine : NativeEngine} {config : ℕ} {y : NativeSession}
    {preface : List Message} (hraw : y.conversation = false)
    (hw : Scratch (b.setSession r (y.opened preface none)) live w)
    (he : live engine.pointer = some .engine) (hc : live config = some .sessionConfig)
    (a : OpenAnswers) :
    Post (openRaw r engine (some config) a) w
      (Opens b r (y.opened preface) (y.resource engine.pointer preface) live) := by
  refine Creates.bind hw (Scratch.keeps_use he rfl) fun _ t ht ↦ ?_
  refine Creates.bind ht (Scratch.keeps_use hc rfl) fun _ u hu ↦ ?_
  rw [NativeSession.resource, hraw]
  refine Opens.post_create hu a.handle (fun h s ↦ { s with raw := h }) (fun h ↦ ?_) _ _
  simp [NativeSession.opened, hraw]

theorem Opens.post_openConversation {engine : NativeEngine} {config : ℕ} {y : NativeSession}
    {preface : List Message} (hchat : y.conversation = true)
    (hw : Scratch (b.setSession r (y.opened preface none)) live w)
    (he : live engine.pointer = some .engine) (hc : live config = some .sessionConfig)
    (a : OpenAnswers) :
    Post (openConversation r engine (some config) a) w
      (Opens b r (y.opened preface) (y.resource engine.pointer preface) live) := by
  have hsession : w.state.session r = y.opened preface none := by simp [hw.session]
  rw [openConversation, post_read_bind, hsession, post_bind]
  refine (hw.post_create a.chatConfig .conversationConfig).mono fun result t ht ↦ ?_
  match result with
  | .error _ => exact ht.elim
  | .ok none =>
    exact (post_bind ..).mpr (post_checkPointer (fun _ _ ↦ ht) (by simp))
  | .ok (some chatConfig) =>
    obtain ⟨-, hp, ht⟩ := ht
    have hk := Function.update_self chatConfig (some Resource.conversationConfig) live
    have hne {q : ℕ} {res : Resource} (hq : live q = some res) :
        Function.update live chatConfig (some .conversationConfig) q = some res := by
      rw [Function.update_of_ne (by rintro rfl; simp [hp] at hq), hq]
    refine Creates.bracket hp (show isChatConfig .conversationConfig = true from rfl) ?_
    refine Creates.bind ht (Scratch.keeps_use hk rfl) fun _ t ht ↦ ?_
    refine Creates.bind ht (Scratch.keeps_use (hne hc) rfl) fun _ t ht ↦ ?_
    refine Creates.bind ht (Scratch.keeps_use hk rfl) fun _ t ht ↦ ?_
    refine Creates.bind ht (.when fun _ ↦ .bind (still_utf8 _ _ _) fun _ ↦ Scratch.keeps_use hk rfl)
      fun _ t ht ↦ ?_
    refine Creates.bind ht (Scratch.keeps_use (hne he) rfl) fun _ t ht ↦ ?_
    refine Creates.bind ht (Scratch.keeps_use hk rfl) fun _ t ht ↦ ?_
    rw [NativeSession.resource, hchat]
    refine Opens.post_create ht a.handle (fun h s ↦ { s with chat := h }) (fun h ↦ ?_) _ _
    simp [NativeSession.opened, hchat]

theorem Opens.post_openSession {engine : NativeEngine} (hw : Scratch b live w)
    (he : live engine.pointer = some .engine) (hchat : (b.state.session r).chat = none)
    (hraw : (b.state.session r).raw = none) (preface : Option (List Message)) (a : OpenAnswers) :
    Post (openSession r engine preface a) w
      (Opens b r ((b.state.session r).opened (preface.getD (b.state.session r).history))
        ((b.state.session r).resource engine.pointer (preface.getD (b.state.session r).history))
        live) := by
  generalize hy : b.state.session r = y at hchat hraw
  generalize hpre : preface.getD y.history = pre
  rw [openSession, post_bind]
  refine (hw.post_modifySession r _).mono fun result t ht ↦ ?_
  obtain ⟨rfl, ht⟩ := ht
  have hopened : { b.state.session r with
      prefillTurns := 0, decodeTurns := 0
      nativePreface := preface.getD (b.state.session r).history } = y.opened pre none := by
    cases y
    simp_all [NativeSession.opened]
  rw [hopened] at ht
  have hsession : t.state.session r = y.opened pre none := by simp [ht.session]
  show Post _ t _
  rw [post_read_bind, hsession, post_bind]
  refine (ht.post_create a.config .sessionConfig).mono fun result t ht ↦ ?_
  match result with
  | .error _ => exact ht.elim
  | .ok none =>
    exact (post_bind ..).mpr (post_checkPointer (fun _ _ ↦ ht) (by simp))
  | .ok (some config) =>
    obtain ⟨-, hp, ht⟩ := ht
    have hc := Function.update_self config (some Resource.sessionConfig) live
    refine (post_bind ..).mpr (post_checkPointer (by simp) fun _ ↦ (post_bind ..).mpr ?_)
    refine (ht.post_create a.sampler .samplerParams).mono fun result t ht ↦ ?_
    match result with
    | .error _ => exact ht.elim
    | .ok none =>
      refine (post_tryFinally ..).mpr ((post_bind ..).mpr ?_)
      refine post_checkPointer (fun _ e ↦ ?_) (by simp)
      have h : Opens b r (y.opened pre) (y.resource engine.pointer pre)
        (Function.update live config (some .sessionConfig)) (.error e) t := ht
      refine (h.post_delete hp rfl).mono fun result u hu ↦ ?_
      obtain ⟨rfl, hu⟩ := hu
      exact hu
    | .ok (some sampler) =>
      obtain ⟨-, hs, ht⟩ := ht
      have hk := Function.update_self sampler (some Resource.samplerParams)
        (Function.update live config (some .sessionConfig))
      have hne {q : ℕ} {res : Resource}
          (hq : Function.update live config (some .sessionConfig) q = some res) :
          Function.update (Function.update live config (some .sessionConfig)) sampler
            (some .samplerParams) q = some res := by
        rw [Function.update_of_ne (by rintro rfl; simp [hs] at hq), hq]
      have he' :
        Function.update live config (some .sessionConfig) engine.pointer = some .engine := by
        rw [Function.update_of_ne (by rintro rfl; simp [hp] at he), he]
      refine (post_tryFinally ..).mpr (Post.mono (P := Opens b r (y.opened pre)
        (y.resource engine.pointer pre) (Function.update (Function.update live config
          (some .sessionConfig)) sampler (some .samplerParams))) ?_ fun result t ht ↦ ?_)
      · refine Creates.bind ht (still_checkPointer _ _ _ _) fun _ t ht ↦ ?_
        refine Creates.bind ht (Scratch.keeps_set hk rfl _) fun _ t ht ↦ ?_
        refine Creates.bind ht (Scratch.keeps_use hk rfl) fun _ t ht ↦ ?_
        refine Creates.bind ht (Scratch.keeps_use hk rfl) fun _ t ht ↦ ?_
        refine Creates.bind ht (Scratch.keeps_set hk rfl _) fun _ t ht ↦ ?_
        refine Creates.bind ht (Scratch.keeps_use (hne hc) rfl) fun _ t ht ↦ ?_
        refine Creates.bind ht (Scratch.keeps_use hk rfl) fun _ t ht ↦ ?_
        refine Creates.bind ht (Scratch.keeps_set (hne hc) rfl _) fun _ t ht ↦ ?_
        refine Creates.bind ht (Scratch.keeps_use (hne hc) rfl) fun _ t ht ↦ ?_
        by_cases hkind : y.conversation = true
        · rw [if_pos (show (y.opened pre none).conversation = true from hkind)]
          exact Opens.post_openConversation hkind ht (hne he') (hne hc) a
        · rw [if_neg (show ¬ (y.opened pre none).conversation = true from hkind)]
          exact Opens.post_openRaw (by simpa using hkind) ht (hne he') (hne hc) a
      · refine (post_bind ..).mpr ((ht.post_delete hs rfl).mono fun result u hu ↦ ?_)
        obtain ⟨rfl, hu⟩ := hu
        refine (hu.post_delete hp rfl).mono fun result u hu ↦ ?_
        obtain ⟨rfl, hu⟩ := hu
        exact hu

end LibLitertLm.Worker
