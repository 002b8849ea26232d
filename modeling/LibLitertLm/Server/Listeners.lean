import LibLitertLm.Server.Lifecycle

namespace LibLitertLm.Server

def Bind.isOpening : Bind → Bool
  | .opening | .opened => true
  | _ => false

def Close.server : Close → Option ℕ
  | .cancelling server | .stopping server => server
  | _ => none

/-- A `bind` goes on to open a server only when no other one is opening and no
server is still being closed; `close` is not called while one is opening. -/
def wellTimed (s : State) : Action → Bool
  | .resume _ =>
    s.server.isSome || (!s.binds.any Bind.isOpening && s.closes.all fun c ↦ c.server.isNone)
  | .close => !s.binds.any Bind.isOpening
  | _ => true

def Opening (binds : List Bind) (i : ℕ) : Prop := ∃ b, binds[i]? = some b ∧ b.isOpening = true

def Taken (closes : List Close) (c k : ℕ) : Prop :=
  ∃ run, closes[c]? = some run ∧ run.server = some k

/-- Who may be responsible for a listening socket. -/
inductive Holder
  | field
  | bind (i : ℕ)
  | close (c : ℕ)

def Holds (s : State) : Holder → Prop
  | .field => s.server.isSome
  | .bind i => Opening s.binds i
  | .close c => ∃ k, Taken s.closes c k

/-- At most one party holds a server, every listening one is held, and a
memoised `_closing` leaves only its own run of `_close` to hold one. -/
structure Single (s : State) : Prop where
  unique : ∀ h h', Holds s h → Holds s h' → h = h'
  held : ∀ k ∈ s.listening,
    s.server = some k ∨ s.binds[k]? = some .opened ∨ ∃ c, Taken s.closes c k
  nodup : s.listening.Nodup
  closing : ∀ c, s.closing = some c → s.server = none ∧ ∀ i, ¬ Opening s.binds i
  taken : ∀ c k, Taken s.closes c k → s.closing = some c

theorem Single.init : Single {} := by
  refine ⟨?_, by simp, by simp, by simp, by simp [Taken]⟩
  intro h h' hh
  cases h <;> simp [Holds, Opening, Taken] at hh

section Lists

variable {binds : List Bind} {closes : List Close} {i j c d k : ℕ}

theorem opening_append (b : Bind) (hb : b.isOpening = false) :
    Opening (binds ++ [b]) j ↔ Opening binds j := by
  unfold Opening
  grind

theorem opening_set {b b' : Bind} (hi : binds[i]? = some b) :
    Opening (binds.set i b') j ↔ if j = i then b'.isOpening = true else Opening binds j := by
  unfold Opening
  grind

theorem taken_append (run : Close) :
    Taken (closes ++ [run]) d k ↔
      Taken closes d k ∨ d = closes.length ∧ run.server = some k := by
  unfold Taken
  grind

theorem taken_set {run run' : Close} (hc : closes[c]? = some run) :
    Taken (closes.set c run') d k ↔
      if d = c then run'.server = some k else Taken closes d k := by
  unfold Taken
  grind

theorem not_opening_of_any (h : binds.any Bind.isOpening = false) : ¬ Opening binds i := by
  rintro ⟨b, hb, ho⟩
  have := List.any_eq_false.mp h b (List.mem_of_getElem? hb)
  exact this ho

theorem not_taken_of_all (h : (closes.all fun c ↦ c.server.isNone) = true) :
    ¬ Taken closes c k := by
  rintro ⟨run, hrun, hk⟩
  have := List.all_eq_true.mp h run (List.mem_of_getElem? hrun)
  simp [hk] at this

end Lists

variable {s s' : State} {i c : ℕ}

/-- Steps after which nobody new holds a server. -/
theorem Single.shrink (h : Single s) (hserver : s'.server = s.server)
    (hclosing : s'.closing = s.closing)
    (hopen : ∀ j, Opening s'.binds j → Opening s.binds j)
    (htaken : ∀ c k, Taken s'.closes c k → Taken s.closes c k)
    (hheld : ∀ k ∈ s'.listening,
      s'.server = some k ∨ s'.binds[k]? = some .opened ∨ ∃ c, Taken s'.closes c k)
    (hnodup : s'.listening.Nodup) : Single s' := by
  have hholds (p : Holder) (hp : Holds s' p) : Holds s p := by
    cases p with
    | field => simpa only [Holds, hserver] using hp
    | bind j => exact hopen j hp
    | close c => exact hp.imp fun k ↦ htaken c k
  refine ⟨fun p q hp hq ↦ h.unique p q (hholds p hp) (hholds q hq), hheld, hnodup, ?_, ?_⟩
  · intro c hc
    obtain ⟨hs, ho⟩ := h.closing c (hclosing ▸ hc)
    exact ⟨hserver.trans hs, fun j hj ↦ ho j (hopen j hj)⟩
  · intro c k hk
    exact hclosing.trans (h.taken c k (htaken c k hk))

theorem Single.bind (h : Single s) :
    Single { s with binds := s.binds ++ [.awaiting s.closing] } := by
  refine h.shrink rfl rfl (fun j ↦ (opening_append _ rfl).mp) (fun c k ↦ id) ?_ h.nodup
  intro k hk
  refine (h.held k hk).imp_right (Or.imp_left fun hb ↦ ?_)
  rw [List.getElem?_append_left (List.getElem?_eq_some_iff.mp hb).1, hb]

theorem Single.not_taken (h : Single s) (hs : s.server.isSome) {k : ℕ} :
    ¬ Taken s.closes c k := by
  intro ht
  have := h.unique .field (.close c) hs ⟨k, ht⟩
  cases this

theorem Single.afterClosing (h : Single s) {closing : Option ℕ}
    (hi : s.binds[i]? = some (.awaiting closing)) (hg : wellTimed s (.resume i) = true) :
    Single (afterClosing s i) := by
  simp only [Server.afterClosing]
  cases hs : s.server with
  | some k =>
    have hopen (j : ℕ) : Opening (s.binds.set i .returned) j → Opening s.binds j := by
      rw [opening_set hi]
      split_ifs <;> simp [Bind.isOpening]
    have hsome : s.server.isSome := by simp [hs]
    refine ⟨fun p q hp hq ↦ ?_, fun k' hk ↦ ?_, h.nodup, by simp, fun c k' ht ↦ ?_⟩
    · refine h.unique p q ?_ ?_
      · cases p with
        | bind j => exact hopen j hp
        | field => exact hsome
        | close => exact hp
      · cases q with
        | bind j => exact hopen j hq
        | field => exact hsome
        | close => exact hq
    · rcases h.held k' hk with hf | hb | ⟨c, hc⟩
      · exact .inl (hs.symm.trans hf)
      · have := h.unique .field (.bind k') hsome ⟨_, hb, rfl⟩
        cases this
      · exact absurd hc (h.not_taken hsome)
    · exact absurd ht (h.not_taken hsome)
  | none =>
    obtain ⟨ho, ht⟩ : s.binds.any Bind.isOpening = false ∧
        (s.closes.all fun c ↦ c.server.isNone) = true := by
      simpa [wellTimed, hs] using hg
    have hopen (j : ℕ) : Opening (s.binds.set i .opening) j → j = i := by
      rw [opening_set hi]
      split_ifs with hj
      · exact fun _ ↦ hj
      · exact fun hj ↦ absurd hj (not_opening_of_any ho)
    refine ⟨fun p q hp hq ↦ ?_, fun k hk ↦ ?_, h.nodup, by simp, fun c k hk ↦ ?_⟩
    · have honly (p : Holder) (hp : Holds { s with
          server := none, closing := none, binds := s.binds.set i .opening } p) : p = .bind i := by
        cases p with
        | field => simp [Holds] at hp
        | bind j => rw [hopen j hp]
        | close c => exact absurd hp.choose_spec (not_taken_of_all ht)
      rw [honly p hp, honly q hq]
    · rcases h.held k hk with hf | hb | ⟨c, hc⟩
      · simp [hs] at hf
      · exact absurd ⟨_, hb, rfl⟩ (not_opening_of_any ho)
      · exact absurd hc (not_taken_of_all ht)
    · exact absurd hk (not_taken_of_all ht)

/-- While a `bind` is opening a server, nobody holds another one. -/
theorem Single.alone (h : Single s) (ho : Opening s.binds i) :
    s.server = none ∧ (∀ j, Opening s.binds j → j = i) ∧ ∀ c k, ¬ Taken s.closes c k := by
  refine ⟨?_, ?_, ?_⟩
  · by_contra hs
    have := h.unique .field (.bind i) (Option.isSome_iff_ne_none.mpr hs) ho
    cases this
  · intro j hj
    have := h.unique (.bind j) (.bind i) hj ho
    cases this
    rfl
  · intro c k hk
    have := h.unique (.close c) (.bind i) ⟨k, hk⟩ ho
    cases this

theorem Single.listen (h : Single s) (hi : s.binds[i]? = some .opening) :
    Single { s with binds := s.binds.set i .opened, listening := i :: s.listening } := by
  obtain ⟨hs, -, ht⟩ := h.alone ⟨_, hi, rfl⟩
  have hfresh : i ∉ s.listening := by
    intro hmem
    rcases h.held i hmem with hf | hb | ⟨c, hc⟩
    · simp [hs] at hf
    · simp [hi] at hb
    · exact ht c i hc
  refine h.shrink rfl rfl (fun j ↦ ?_) (fun c k ↦ id) ?_ (List.nodup_cons.mpr ⟨hfresh, h.nodup⟩)
  · rw [opening_set hi]
    split_ifs with hj
    · exact fun _ ↦ hj ▸ ⟨_, hi, rfl⟩
    · exact id
  · intro k hk
    rcases List.mem_cons.mp hk with rfl | hk
    · exact .inr (.inl (by simp [(List.getElem?_eq_some_iff.mp hi).1]))
    · refine (h.held k hk).imp_right (Or.imp_left fun hb ↦ ?_)
      have hne : i ≠ k := fun he ↦ hfresh (he ▸ hk)
      rwa [List.getElem?_set_ne hne]

theorem Single.bound (h : Single s) (hi : s.binds[i]? = some .opened) :
    Single { s with binds := s.binds.set i .returned, server := some i } := by
  obtain ⟨hs, hopen, ht⟩ := h.alone ⟨_, hi, rfl⟩
  have hnone (j : ℕ) : ¬ Opening (s.binds.set i .returned) j := by
    rw [opening_set hi]
    split_ifs with hj
    · simp [Bind.isOpening]
    · exact fun hj' ↦ hj (hopen j hj')
  refine ⟨fun p q hp hq ↦ ?_, fun k hk ↦ ?_, h.nodup, fun c hc ↦ ?_, fun c k hk ↦ ?_⟩
  · have honly (p : Holder) (hp : Holds { s with
        binds := s.binds.set i .returned, server := some i } p) : p = .field := by
      cases p with
      | field => rfl
      | bind j => exact absurd hp (hnone j)
      | close c => exact absurd hp.choose_spec (ht c _)
    rw [honly p hp, honly q hq]
  · rcases h.held k hk with hf | hb | ⟨c, hc⟩
    · simp [hs] at hf
    · exact .inl (by rw [hopen k ⟨_, hb, rfl⟩])
    · exact absurd hc (ht c k)
  · exact absurd ⟨_, hi, rfl⟩ ((h.closing c hc).2 i)
  · exact absurd hk (ht c k)

theorem Single.bindFailed (h : Single s) (hi : s.binds[i]? = some .opening) :
    Single { s with binds := s.binds.set i .returned } := by
  refine h.shrink rfl rfl (fun j ↦ ?_) (fun c k ↦ id) ?_ h.nodup
  · rw [opening_set hi]
    split_ifs <;> simp [Bind.isOpening]
  · intro k hk
    refine (h.held k hk).imp_right (Or.imp_left fun hb ↦ ?_)
    have hne : i ≠ k := by
      rintro rfl
      simp [hi] at hb
    rwa [List.getElem?_set_ne hne]

theorem Single.close (h : Single s) (hg : wellTimed s .close = true) : Single (close s) := by
  unfold Server.close
  cases hc : s.closing with
  | some c => exact h
  | none =>
    have ho : s.binds.any Bind.isOpening = false := by simpa [wellTimed] using hg
    have htaken (d k : ℕ) : Taken (s.closes ++ [.cancelling s.server]) d k →
        d = s.closes.length ∧ s.server = some k := by
      rw [taken_append]
      rintro (ht | ht)
      · simp [h.taken d k ht] at hc
      · exact ht
    refine ⟨fun p q hp hq ↦ ?_, fun k hk ↦ ?_, h.nodup, ?_, ?_⟩
    · have honly (p : Holder) (hp : Holds { s with
          closing := some s.closes.length, closes := s.closes ++ [.cancelling s.server],
          server := none } p) : p = .close s.closes.length := by
        cases p with
        | field => simp [Holds] at hp
        | bind j => exact absurd hp (not_opening_of_any ho)
        | close d =>
          obtain ⟨k, hk⟩ := hp
          rw [(htaken d k hk).1]
      rw [honly p hp, honly q hq]
    · rcases h.held k hk with hf | hb | ⟨d, hd⟩
      · exact .inr (.inr ⟨_, (taken_append _).mpr (.inr ⟨rfl, hf⟩)⟩)
      · exact .inr (.inl hb)
      · exact .inr (.inr ⟨d, (taken_append _).mpr (.inl hd)⟩)
    · exact fun d _ ↦ ⟨rfl, fun j ↦ not_opening_of_any ho⟩
    · intro d k hk
      rw [(htaken d k hk).1]

/-- A run of `_close` that moves on without touching its server. -/
theorem Single.advance (h : Single s) {run run' : Close} (hc : s.closes[c]? = some run)
    (hserver : run'.server = run.server) : Single { s with closes := s.closes.set c run' } := by
  have htaken (d k : ℕ) : Taken (s.closes.set c run') d k ↔ Taken s.closes d k := by
    rw [taken_set hc]
    split_ifs with hd
    · rw [hserver, hd]
      simp [Taken, hc]
    · rfl
  refine h.shrink rfl rfl (fun j ↦ id) (fun d k ↦ (htaken d k).mp) (fun k hk ↦ ?_) h.nodup
  simpa only [htaken] using h.held k hk

theorem Single.stopped (h : Single s) {server : Option ℕ}
    (hc : s.closes[c]? = some (.stopping server)) :
    Single { s with
      closes := s.closes.set c .draining
      listening := s.listening.filter fun k ↦ some k ≠ server } := by
  have htaken (d k : ℕ) : Taken (s.closes.set c .draining) d k ↔ d ≠ c ∧ Taken s.closes d k := by
    rw [taken_set hc]
    split_ifs with hd <;> simp [hd, Close.server]
  refine h.shrink rfl rfl (fun j ↦ id) (fun d k hk ↦ ((htaken d k).mp hk).2) (fun k hk ↦ ?_)
    (h.nodup.filter _)
  obtain ⟨hk, hne⟩ := by simpa using List.mem_filter.mp hk
  refine (h.held k hk).imp_right (Or.imp_right ?_)
  rintro ⟨d, hd⟩
  refine ⟨d, (htaken d k).mpr ⟨?_, hd⟩⟩
  rintro rfl
  obtain ⟨run, hrun, hserver⟩ := hd
  obtain rfl : .stopping server = run := by simpa [hc] using hrun
  exact hne hserver.symm

theorem Single.step {a : Action} (h : Single s) (hg : wellTimed s a = true)
    (hs : step s a = some s') : Single s' := by
  cases a with
  | bind =>
    obtain rfl := by simpa [Server.step] using hs
    exact h.bind
  | resume i =>
    simp only [Server.step] at hs
    split at hs
    next closing hi =>
      split_ifs at hs
      obtain rfl := Option.some.inj hs
      exact h.afterClosing hi hg
    next => cases hs
  | listen i =>
    simp only [Server.step, Option.ite_none_right_eq_some, Option.some.injEq] at hs
    obtain ⟨hi, rfl⟩ := hs
    exact h.listen hi
  | bound i =>
    simp only [Server.step, Option.ite_none_right_eq_some, Option.some.injEq] at hs
    obtain ⟨hi, rfl⟩ := hs
    exact h.bound hi
  | bindFailed i =>
    simp only [Server.step, Option.ite_none_right_eq_some, Option.some.injEq] at hs
    obtain ⟨hi, rfl⟩ := hs
    exact h.bindFailed hi
  | close =>
    obtain rfl := by simpa [Server.step] using hs
    exact h.close hg
  | cancelled c =>
    simp only [Server.step] at hs
    split at hs
    next server hc =>
      obtain rfl := Option.some.inj hs
      exact h.advance hc rfl
    next => cases hs
  | stopped c =>
    simp only [Server.step] at hs
    split at hs
    next server hc =>
      obtain rfl := Option.some.inj hs
      exact h.stopped hc
    next => cases hs
  | drained c =>
    simp only [Server.step, Option.ite_none_right_eq_some, Option.some.injEq] at hs
    obtain ⟨hc, rfl⟩ := hs
    exact h.advance hc rfl

theorem Single.run {actions : List Action}
    (hm : system.Meets (fun s a ↦ wellTimed s a = true) {} actions)
    (hr : system.run actions = some s) : Single s :=
  system.invariant (fun _ _ _ h hg hs ↦ h.step hg hs) .init hm hr

theorem Single.length_le (h : Single s) : s.listening.length ≤ 1 := by
  have hheld (k : ℕ) (hk : k ∈ s.listening) : ∃ p, Holds s p ∧
      ((p = .field ∧ s.server = some k) ∨ p = .bind k ∨ ∃ c, p = .close c ∧
        Taken s.closes c k) := by
    rcases h.held k hk with hf | hb | ⟨c, hc⟩
    · exact ⟨.field, by simp [Holds, hf], .inl ⟨rfl, hf⟩⟩
    · exact ⟨.bind k, ⟨_, hb, rfl⟩, .inr (.inl rfl)⟩
    · exact ⟨.close c, ⟨k, hc⟩, .inr (.inr ⟨c, rfl, hc⟩)⟩
  have hsame (k k' : ℕ) (hk : k ∈ s.listening) (hk' : k' ∈ s.listening) : k = k' := by
    obtain ⟨p, hp, hkp⟩ := hheld k hk
    obtain ⟨q, hq, hkq⟩ := hheld k' hk'
    obtain rfl := h.unique p q hp hq
    unfold Taken at hkp hkq
    grind
  match hl : s.listening with
  | [] | [_] => simp
  | k :: k' :: rest =>
    have hne := h.nodup
    rw [hl, hsame k k' (by simp [hl]) (by simp [hl])] at hne
    simp at hne

/-- Once the memoised run of `_close` holds no server, nothing is left listening. -/
theorem Single.silent (h : Single s) {d : ℕ} (hd : s.closing = some d)
    (hrun : ∀ run, s.closes[d]? = some run → run = .completed) : s.listening = [] := by
  obtain ⟨hserver, hopen⟩ := h.closing d hd
  refine List.eq_nil_iff_forall_not_mem.mpr fun k hk ↦ ?_
  rcases h.held k hk with hf | hb | ⟨c, run, hc, hk⟩
  · simp [hserver] at hf
  · exact hopen k ⟨_, hb, rfl⟩
  · obtain rfl : c = d := by simpa [hd] using (h.taken c k ⟨run, hc, hk⟩).symm
    simp [hrun run hc, Close.server] at hk

def Quiet (d : ℕ) (s : State) : Prop :=
  s.closing = some d ∧ ∀ b ∈ s.binds, b = .returned ∨ b = .awaiting (some d)

variable {d : ℕ} {a : Action}

theorem Quiet.step (h : Quiet d s) (hd : s.closes[d]? ≠ some .completed)
    (hs : step s a = some s') : Quiet d s' := by
  have hbind (i : ℕ) (b : Bind) (hi : s.binds[i]? = some b) := h.2 b (List.mem_of_getElem? hi)
  cases a with
  | bind =>
    obtain rfl := Option.some.inj hs
    refine ⟨h.1, fun b hb ↦ ?_⟩
    rcases List.mem_append.mp hb with hb | hb
    · exact h.2 b hb
    · exact .inr (by rw [List.mem_singleton.mp hb, h.1])
  | resume i =>
    simp only [Server.step] at hs
    split at hs
    next closing hi =>
      obtain rfl : closing = some d := by simpa using hbind i _ hi
      simp [ready, hd] at hs
    next => cases hs
  | listen i | bound i | bindFailed i =>
    simp only [Server.step, Option.ite_none_right_eq_some] at hs
    simpa using hbind i _ hs.1
  | close =>
    obtain rfl := Option.some.inj hs
    simpa [Server.close, h.1] using h
  | cancelled c | stopped c =>
    simp only [Server.step] at hs
    split at hs
    next =>
      obtain rfl := Option.some.inj hs
      exact h
    next => cases hs
  | drained c =>
    simp only [Server.step, Option.ite_none_right_eq_some, Option.some.injEq] at hs
    obtain ⟨-, rfl⟩ := hs
    exact h

theorem completed_step (hd : s.closes[d]? = some .completed) (hs : step s a = some s') :
    s'.closes[d]? = some .completed := by
  have hlt := (List.getElem?_eq_some_iff.mp hd).1
  cases a <;> simp only [step] at hs <;> (try split at hs) <;>
    grind [afterClosing, close]

theorem completed_exec {actions : List Action} (hd : s.closes[d]? = some .completed)
    (he : system.exec s actions = some s') : s'.closes[d]? = some .completed := by
  induction actions generalizing s with
  | nil =>
    obtain rfl : s = s' := by simpa using he
    exact hd
  | cons a actions ih =>
    obtain ⟨t, ht, he⟩ := by simpa only [System.exec_cons, Option.bind_eq_some_iff] using he
    exact ih (completed_step hd ht) he

theorem Quiet.exec {actions : List Action} (h : Quiet d s) (he : system.exec s actions = some s')
    (hd : s'.closes[d]? ≠ some .completed) : Quiet d s' := by
  induction actions generalizing s with
  | nil =>
    obtain rfl : s = s' := by simpa using he
    exact h
  | cons a actions ih =>
    have hlate : s.closes[d]? ≠ some .completed := fun hc ↦ hd (completed_exec hc he)
    obtain ⟨t, ht, he⟩ := by simpa only [System.exec_cons, Option.bind_eq_some_iff] using he
    exact ih (h.step hlate ht) he

def closeFuture (s : State) : ℕ := s.closing.getD s.closes.length

theorem quiet_close (h : ∀ b ∈ s.binds, b = .returned) : Quiet (closeFuture s) (close s) := by
  unfold close closeFuture
  cases hc : s.closing with
  | some d => exact ⟨hc, fun b hb ↦ .inl (h b hb)⟩
  | none => exact ⟨rfl, fun b hb ↦ .inl (h b hb)⟩

def CompletesAtEnd (s : State) (d : ℕ) (actions : List Action) : Prop :=
  (∀ s', system.exec s actions = some s' → s'.closes[d]? = some .completed) ∧
    ∀ before a s', actions = before ++ [a] → system.exec s before = some s' →
      s'.closes[d]? ≠ some .completed

/-- What is asked of a run of `bind` and `close` calls: one listener at most; none
when a `close` issued with no `bind` outstanding completes; and `_closing` is
null while a server listens and no `_close` runs. -/
structure Lifecycle (actions : List Action) : Prop where
  one : ∀ s, system.run actions = some s → s.listening.length ≤ 1
  closed : ∀ before after s s', actions = before ++ .close :: after →
    system.run before = some s → (∀ b ∈ s.binds, b = .returned) →
    system.run actions = some s' → CompletesAtEnd (close s) (closeFuture s) after →
    s'.listening = []
  closing : ∀ s, system.run actions = some s → s.listening ≠ [] →
    (∀ run ∈ s.closes, run = .completed) → s.closing = none

theorem lifecycle (actions : List Action)
    (h : system.Meets (fun s a ↦ wellTimed s a = true) {} actions) : Lifecycle actions := by
  refine ⟨fun s hr ↦ (Single.run h hr).length_le, ?_, fun s hr hl hall ↦ ?_⟩
  · rintro before after s s' rfl hs hidle hr ⟨hdone, hfirst⟩
    have hsingle := Single.run h hr
    obtain ⟨t, ht, hr⟩ := System.exec_append_eq_some _ |>.mp hr
    obtain rfl : s = t := Option.some.inj (hs.symm.trans ht)
    replace hr : system.exec (close s) after = some s' := hr
    suffices hd : s'.closing = some (closeFuture s) from
      hsingle.silent hd fun run hrun ↦ Option.some.inj (hrun.symm.trans (hdone s' hr))
    rcases List.eq_nil_or_concat after with rfl | ⟨rest, a, rfl⟩
    · obtain rfl : close s = s' := by simpa using hr
      exact (quiet_close hidle).1
    · obtain ⟨t, ht, hr⟩ := by
        simpa only [List.concat_eq_append, System.exec_append_eq_some] using hr
      have hlate := hfirst rest a t (List.concat_eq_append ..) ht
      have hquiet := (quiet_close hidle).exec ht hlate
      have hstep : step t a = some s' := by simpa [system] using hr
      exact (hquiet.step hlate hstep).1
  · by_contra hne
    obtain ⟨d, hd⟩ := Option.ne_none_iff_exists'.mp hne
    exact hl ((Single.run h hr).silent hd fun run hrun ↦ hall run (List.mem_of_getElem? hrun))

/-- A server is bound, closed, and bound again. -/
theorem lifecycle_rebind :
    Lifecycle [.bind, .resume 0, .listen 0, .bound 0, .close, .cancelled 0, .stopped 0, .bind,
      .drained 0, .resume 1, .listen 1, .bound 1] := by
  apply lifecycle
  simp [System.Meets, system, step, wellTimed, ready, afterClosing, close, Bind.isOpening,
    Close.server]

/-- Two overlapping calls of `bind` leave two servers listening, and a `close`
during `HttpServer.bind` leaves `_closing` set under a listening server. -/
theorem lifecycle_overlap :
    ¬ Lifecycle [.bind, .bind, .resume 0, .resume 1, .listen 0, .listen 1] ∧
    ¬ Lifecycle [.bind, .resume 0, .close, .cancelled 0, .stopped 0, .drained 0, .listen 0,
      .bound 0] := by
  refine ⟨fun h ↦ absurd (h.one _ rfl) (by decide), fun h ↦ ?_⟩
  exact absurd (h.closing _ rfl (by decide) (by decide)) (by decide)

end LibLitertLm.Server
