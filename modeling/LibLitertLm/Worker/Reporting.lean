import LibLitertLm.Worker.Errors
import LibLitertLm.Worker.Isolation

namespace LibLitertLm.Worker

open Code
open Bridge (Call CString Delivers kMaxBytes)

section Message

/-- The failure has the text as its message, or the start of a text that is too long. -/
def Told (text : List Char) (f : Failure) : Prop :=
  ∃ m : String, f = Failure.classify m ∧
    (m.toList = text ∨ kMaxBytes < (utf8Encode text).length ∧ m.toList <+: text)

/-- The end of what is kept of a text falls between two of its characters. -/
def Clean (text : List Char) : Prop :=
  (utf8Encode text).length ≤ kMaxBytes ∨
    ∃ kept, kept <+: text ∧ (utf8Encode kept).length = kMaxBytes

theorem classify_message (m : String) : (Failure.classify m).message = m := by
  unfold Failure.classify
  split_ifs <;> rfl

variable {error : CString} {text : List Char}

theorem CString.cut_takeWhile (error : CString) :
    (Bridge.cut error).takeWhile (· ≠ 0) = Bridge.cut error := by
  refine List.takeWhile_eq_self_iff.mpr fun b hb ↦ ?_
  have hmem : b ∈ error.bytes := List.mem_of_mem_take hb
  have hne : b ≠ 0 := fun h ↦ error.noNul (h ▸ hmem)
  simpa using hne

theorem utf8Chars_cut (herror : error.bytes = utf8Encode text) (kept : List Char) :
    utf8Chars (Bridge.cut error) = some kept ↔
      (kept = text ∧ (utf8Encode text).length ≤ kMaxBytes) ∨
        (kept <+: text ∧ (utf8Encode kept).length = kMaxBytes ∧
          kMaxBytes < (utf8Encode text).length) := by
  rw [Bridge.cut, herror]
  by_cases hlong : kMaxBytes < (utf8Encode text).length
  · rw [utf8Chars_take hlong.le]
    constructor
    · intro h
      exact .inr ⟨h.1, h.2, hlong⟩
    · intro h
      rcases h with ⟨-, hshort⟩ | ⟨hstart, hlength, -⟩
      · omega
      · exact ⟨hstart, hlength⟩
  · rw [List.take_of_length_le (not_lt.mp hlong), utf8Chars_encode]
    constructor
    · intro h
      exact .inl ⟨(Option.some.inj h).symm, not_lt.mp hlong⟩
    · intro h
      rcases h with ⟨rfl, -⟩ | ⟨-, -, hlong'⟩
      · rfl
      · exact absurd hlong' hlong

theorem utf8Decode_isSome (bytes : List UInt8) :
    (utf8Decode bytes).isSome = (utf8Chars bytes).isSome := Option.isSome_map

theorem decodes_iff_clean (herror : error.bytes = utf8Encode text) :
    (utf8Decode (Bridge.cut error)).isSome = true ↔ Clean text := by
  rw [utf8Decode_isSome, Option.isSome_iff_exists]
  constructor
  · intro ⟨kept, hkept⟩
    rcases (utf8Chars_cut herror kept).mp hkept with ⟨-, hshort⟩ | ⟨hstart, hlength, -⟩
    · exact .inl hshort
    · exact .inr ⟨kept, hstart, hlength⟩
  · intro h
    by_cases hshort : (utf8Encode text).length ≤ kMaxBytes
    · exact ⟨text, (utf8Chars_cut herror text).mpr (.inl ⟨rfl, hshort⟩)⟩
    · obtain ⟨kept, hstart, hlength⟩ := h.resolve_left hshort
      exact ⟨kept, (utf8Chars_cut herror kept).mpr (.inr ⟨hstart, hlength, not_le.mp hshort⟩)⟩

theorem eq_of_prefix_cons {α : Type} {b : α} {l rest : List α} (h : l <+: b :: (l ++ rest)) :
    ∀ c ∈ l, c = b := by
  induction l with
  | nil => simp
  | cons c l ih =>
    obtain ⟨rfl, hrest⟩ := List.cons_prefix_cons.mp h
    intro d hd
    rcases List.mem_cons.mp hd with rfl | hd
    · rfl
    · exact ih hrest d hd

theorem length_marks {l : List Char} (h : ∀ c ∈ l, c.toNat = 0xFEFF) :
    (utf8Encode l).length = 3 * l.length := by
  induction l with
  | nil => rfl
  | cons c l ih =>
    have hc : (charBytes c).length = 3 := by
      rw [charBytes, h c (by simp)]
      rfl
    rw [utf8Encode, List.flatMap_cons, List.length_append, hc, List.length_cons]
    have hrest := ih fun d hd ↦ h d (by simp [hd])
    rw [utf8Encode] at hrest
    omega

/-- A byte order mark at the start is lost when the error is decoded. -/
theorem told_iff (herror : error.bytes = utf8Encode text) (hne : text ≠ []) {m : String}
    (hm : utf8Decode (Bridge.cut error) = some m) :
    Told text (Failure.classify m) ↔ ¬ startsWithMark text := by
  obtain ⟨kept, hkept, hstrip⟩ := Option.map_eq_some_iff.mp hm
  have hcut := (utf8Chars_cut herror kept).mp hkept
  have hstart : kept <+: text := by
    rcases hcut with ⟨rfl, -⟩ | ⟨hstart, -⟩
    · exact List.prefix_rfl
    · exact hstart
  obtain ⟨c, text, rfl⟩ := List.exists_cons_of_ne_nil hne
  have hkeptne : kept ≠ [] := by
    rintro rfl
    rcases hcut with ⟨h, -⟩ | ⟨-, hzero, -⟩
    · cases h
    · cases hzero
  obtain ⟨c', kept, rfl⟩ := List.exists_cons_of_ne_nil hkeptne
  obtain ⟨rfl, hrest⟩ := List.cons_prefix_cons.mp hstart
  have hmark : startsWithMark (c' :: text) ↔ c'.toNat = 0xFEFF := by simp [startsWithMark]
  rw [hmark]
  dsimp only at hstrip
  split_ifs at hstrip with hbom
  · -- the mark is gone, and what is left is no start of the text
    subst hstrip
    refine iff_of_false ?_ (not_not.mpr hbom)
    intro ⟨m, hsame, htold⟩
    obtain rfl : String.ofList kept = m := by
      have := congrArg Failure.message hsame
      rwa [classify_message, classify_message] at this
    rw [String.toList_ofList] at htold
    rcases htold with heq | ⟨hlong, hstart⟩
    · have hlength := hstart.length_le
      rw [← heq] at hlength
      simp at hlength
    · rcases hcut with ⟨-, hshort⟩ | ⟨-, hlength, -⟩
      · omega
      · obtain ⟨rest, hrest⟩ := hrest
        rw [← hrest] at hstart
        have hsame := eq_of_prefix_cons hstart
        have hall : ∀ d ∈ c' :: kept, d.toNat = 0xFEFF := by
          intro d hd
          rcases List.mem_cons.mp hd with rfl | hd
          · exact hbom
          · rw [hsame d hd, hbom]
        have hthree := length_marks hall
        rw [hlength, kMaxBytes] at hthree
        omega
  · subst hstrip
    refine iff_of_true ⟨_, rfl, ?_⟩ hbom
    rw [String.toList_ofList]
    rcases hcut with ⟨heq, -⟩ | ⟨hstart, -, hlong⟩
    · exact .inl heq
    · exact .inr ⟨hlong, hstart⟩

end Message

section Pump

variable {rt : Runtime} {u v w t : NativeWorker} {stream : ℕ}

structure FailsWith (stream : ℕ) (u : NativeWorker) (f : Failure) (t : NativeWorker) : Prop where
  gone : stream ∉ t.state.operations
  event : eventsOf stream t.sent = eventsOf stream u.sent ++ [(.error f, t.state)]

structure Waits (stream : ℕ) (u v : NativeWorker) : Prop where
  consistent : Consistent v.state
  sent : v.sent = u.sent
  operations : v.state.operations = u.state.operations
  op : v.state.op = u.state.op
  session : v.state.session = u.state.session
  fatalExit : v.state.fatalExit = u.state.fatalExit
  operation : v.state.native.operation (u.state.op stream).native =
    u.state.native.operation (u.state.op stream).native

theorem Native.callback_operation (n : Native) (c : Callback) {id : ℕ}
    (hfinal : (n.operation id).final = true) : (n.callback c).operation id = n.operation id := by
  have hbridge : (n.bridge c.id (.callback c.chunk)).operation id = n.operation id := by
    unfold Native.bridge
    split_ifs
    · by_cases hid : id = c.id
      · subst hid
        simp only [Function.update_self]
        cases hchunk : c.chunk with
        | none => rfl
        | some chunk => simp [Bridge.call, Bridge.callback, hfinal]
      · exact Function.update_of_ne hid ..
    · rfl
  unfold Native.callback
  cases hchunk : c.chunk <;> simpa [hchunk] using hbridge

theorem Waits.callback (h : Waits stream u v)
    (hfinal : (u.state.native.operation (u.state.op stream).native).final = true) (c : Callback) :
    Waits stream u ⟨{ v.state with native := v.state.native.callback c }, v.sent⟩ := by
  refine { h with consistent := h.consistent.unseen (.callback h.consistent c), operation := ?_ }
  rw [← h.operation] at hfinal ⊢
  exact Native.callback_operation _ c hfinal

theorem Waits.callbacks
    (hfinal : (u.state.native.operation (u.state.op stream).native).final = true)
    (cs : List Callback) : Keeps (Waits stream u) (callbacks cs) := by
  intro v hv
  rw [Worker.callbacks, modifyNative, post_update]
  induction cs generalizing v with
  | nil => exact hv
  | cons c cs ih => exact ih _ (hv.callback hfinal c)

variable (hw : Consistent u.state) (hlive : stream ∈ u.state.operations)
  (huncancelled : (u.state.op stream).cancelRequested = false)
  (hfinal : (u.state.native.operation (u.state.op stream).native).final = true)

include hw hlive hfinal

/-- The next event of an operation that is final is always looked at. -/
theorem post_pumpBody {a : PumpAnswers} {Q : Except Thrown Unit → NativeWorker → Prop}
    (h : ∀ v, Waits stream u v → Post (pumpEvent rt stream (u.state.op stream).native a) v Q) :
    Post (pumpBody rt stream a) u Q := by
  have hcallbacks (cs : List Callback) {v : NativeWorker} (hv : Waits stream u v)
    {f : Unit → M Unit}
      (hf : ∀ t, Waits stream u t → Post (f ()) t Q) : Post (callbacks cs >>= f) v Q := by
    rw [post_bind, callbacks, modifyNative, post_update]
    exact hf _ (Waits.callbacks hfinal cs v hv)
  have hask {v : NativeWorker} (hv : Waits stream u v) {f : Bridge.Operation → Bool} {b : Bool}
      (hb : f (u.state.native.operation (u.state.op stream).native) = b) {g : Bool → M Unit}
      (hg : Post (g b) v Q) : Post (ask (u.state.op stream).native f >>= g) v Q := by
    have hknown : (u.state.op stream).native ∈ v.state.native.registry := by
      have hmem := hv.consistent.opNative stream (hv.operations ▸ hlive)
      rwa [hv.op] at hmem
    rw [ask, post_read_bind, hv.operation, hb]
    simpa [hknown] using hg
  have htake {v : NativeWorker} (hv : Waits stream u v) : Post (do
      callbacks a.beforeTake
      pumpEvent rt stream (u.state.op stream).native a) v Q :=
    hcallbacks _ hv fun t ht ↦ h t ht
  have hself : Waits stream u u := ⟨hw, rfl, rfl, rfl, rfl, rfl, rfl⟩
  rw [pumpBody, post_read_bind]
  refine hcallbacks _ hself fun v hv ↦ hask hv (b := false)
    (by simp [Bridge.operationNeedsCancel, hfinal]) ?_
  rw [when, if_neg (by simp), post_bind, post_pure]
  dsimp only
  rw [post_read_bind, hv.op]
  split_ifs
  · refine hcallbacks _ hv fun v hv ↦ hask hv (b := true) hfinal ?_
    exact htake hv
  · exact htake hv

omit hfinal

variable {e : Bridge.Event} {rest : List Bridge.Event}
  (hqueue : (u.state.native.operation (u.state.op stream).native).queue = e :: rest)

include hqueue

/-- The text of the next event is decoded first. -/
theorem post_pumpEvent_head {a : PumpAnswers} {Q : Except Thrown Unit → NativeWorker → Prop}
    (hmalformed : utf8Decode (e.text.takeWhile (· ≠ 0)) = none →
      Q (.error (.error .formatException)) (u.taken (u.state.op stream).native))
    (hdeliver : ∀ text, utf8Decode (e.text.takeWhile (· ≠ 0)) = some text →
      Post (deliver rt stream e.kind text a) (u.taken (u.state.op stream).native) Q) :
    Post (pumpEvent rt stream (u.state.op stream).native a) u Q := by
  have hknown := hw.opNative stream hlive
  have hlabel : e.id = (u.state.op stream).native := by
    have hmem : e ∈ (u.state.native.operation (u.state.op stream).native).queue := by simp [hqueue]
    rw [hw.machine _ hknown] at hmem
    exact Bridge.labelled _ _ e hmem
  have htake : (Bridge.operationTake
      (u.state.native.operation (u.state.op stream).native)).2 = some e := by
    simp [Bridge.operationTake, hqueue]
  rw [pumpEvent, post_bind]
  refine (post_take hknown).mpr ?_
  rw [htake]
  refine (post_bind ..).mpr ((post_readEvent hw hlabel).mono fun result t hpost ↦ ?_)
  obtain ⟨ht, hresult⟩ := hpost
  subst ht hresult
  cases htext : utf8Decode (e.text.takeWhile (· ≠ 0)) with
  | none => exact hmalformed htext
  | some text => exact hdeliver text htext

variable (huncancelled : (u.state.op stream).cancelRequested = false)

include huncancelled

theorem post_pumpEvent_text (hkind : e.kind = 0) {a : PumpAnswers} :
    Post (pumpEvent rt stream (u.state.op stream).native a) u fun result t ↦
      match result with
      | .ok _ => stream ∈ t.state.operations ∧
          (t.state.native.operation (u.state.op stream).native).queue = rest
      | .error _ => (¬ Readable rt (u.state.chatting stream) e) ∧
          t = u.taken (u.state.op stream).native := by
  refine post_pumpEvent_head hw hlive hqueue (fun hnone ↦ ⟨?_, rfl⟩) fun text htext ↦ ?_
  · rintro ⟨_, text, hshown⟩
    rw [shown, hnone] at hshown
    cases hshown
  rw [deliver, if_pos hkind, post_read_bind]
  have hc : ((u.taken (u.state.op stream).native).state.op stream).cancelRequested = false :=
    huncancelled
  rw [if_pos (by simp [hc]), post_read_bind]
  have htaken : ((u.taken (u.state.op stream).native).state.native.operation
      (u.state.op stream).native).queue = rest := by
    have hknown := hw.opNative stream hlive
    simp [NativeWorker.taken, NativeWorker.after, Native.after, State.bridge, Native.bridge, hknown,
      Bridge.call, Bridge.operationTake, hqueue]
  have hsend (text' : String) : Post (if !text'.isEmpty then do
        modifyOp stream fun o ↦ { o with text := o.text ++ text' }
        modifyOp stream fun o ↦ { o with credit := false }
        event stream (.token text')
      else pure ()) (u.taken (u.state.op stream).native) fun result t ↦
      match result with
      | .ok _ => stream ∈ t.state.operations ∧
          (t.state.native.operation (u.state.op stream).native).queue = rest
      | .error _ => (¬ Readable rt (u.state.chatting stream) e) ∧
          t = u.taken (u.state.op stream).native := by
    split_ifs
    · simp only [modifyOp, post_bind, post_update, post_event]
      exact ⟨hlive, htaken⟩
    · exact ⟨hlive, htaken⟩
  have hconversation : ((u.taken (u.state.op stream).native).state.session
      ((u.taken (u.state.op stream).native).state.op stream).session).conversation =
        u.state.chatting stream := rfl
  rw [hconversation]
  cases hchat : u.state.chatting stream with
  | false =>
    rw [hchat] at hsend
    exact hsend text
  | true =>
    refine (post_bind ..).mpr ((post_lift _).mpr ?_)
    cases hshown : chatText rt text with
    | ok text' =>
      rw [hchat] at hsend
      exact hsend text'
    | error err =>
      refine ⟨?_, rfl⟩
      rintro ⟨_, text', hread⟩
      rw [shown, htext] at hread
      simp only [if_true] at hread
      rw [hshown] at hread
      cases hread

omit hw hlive hqueue huncancelled in
theorem failsWith_emit {s : State} (hfatal : s.fatalExit = false) (phase : HandlePhase)
    (hsent : w.sent = u.sent) (f : Failure) :
    FailsWith stream u f
      (emit ((s.retire stream phase).drop (s.op stream).session) w.sent stream (.error f)) := by
  refine ⟨by simp [emit, State.drop, State.retire], ?_⟩
  rw [← hsent]
  exact eventsOf_emit (s := (s.retire stream phase).drop (s.op stream).session) hfatal w.sent _

theorem post_pumpEvent_error (hkind : e.kind = 2) (hfatal : u.state.fatalExit = false)
    {a : PumpAnswers} :
    Post (pumpEvent rt stream (u.state.op stream).native a) u fun result t ↦
      match result with
      | .ok _ => ∃ m, utf8Decode (e.text.takeWhile (· ≠ 0)) = some m ∧
          FailsWith stream u (.classify m) t
      | .error _ => utf8Decode (e.text.takeWhile (· ≠ 0)) = none ∧
          t = u.taken (u.state.op stream).native := by
  refine post_pumpEvent_head hw hlive hqueue (fun hnone ↦ ⟨hnone, rfl⟩) fun text htext ↦ ?_
  have hstaged : Staged u.state stream (u.taken (u.state.op stream).native).state := .taken hw
  have htaken : Consistent (u.taken (u.state.op stream).native).state := hw.unseen hstaged.unseen
  have hr := (htaken.opSession stream hlive).1
  have hbackpressure : (u.state.op stream).backpressure = false := by
    by_contra hb
    rw [Bool.not_eq_false] at hb
    rw [hw.backpressure stream hlive hb] at huncancelled
    cases huncancelled
  rw [deliver, if_neg (by simp [hkind])]
  refine (post_finish_failed (w := u.taken _) hlive (htaken.sessionSpare _ hr)
    (htaken.handle_live hr) (.inr (by simp [hkind])) text a).mono
    fun result t hresult ↦ ?_
  obtain ⟨hok, event, -, hevent, ht⟩ := hresult
  subst hok ht
  refine ⟨text, htext, ?_⟩
  have hterminal : event = .error (.classify text) := by
    have hop : (u.taken (u.state.op stream).native).state.op stream = u.state.op stream := rfl
    rw [hevent, hop, terminalEvent, hkind, hbackpressure, huncancelled]
    rfl
  rw [hterminal]
  exact failsWith_emit (s := (u.taken (u.state.op stream).native).state) hfatal _ rfl _

end Pump

section Malformed

variable {rt : Runtime} {u v : NativeWorker} {stream : ℕ}

def Replaced (rt : Runtime) (stream : ℕ) (a : PumpAnswers) (u : NativeWorker) : Prop :=
  ∃ e, (pumpBody rt stream a u).1 = .error e

theorem post_pumpOne_replaced (hlive : stream ∈ u.state.operations)
    (huncancelled : (u.state.op stream).cancelRequested = false)
    (hfatal : u.state.fatalExit = false) {a : PumpAnswers}
    (h : Post (pumpBody rt stream a) u fun result t ↦ ∃ e v, result = .error e ∧ Waits stream u v ∧
      t = v.taken (v.state.op stream).native) :
    Post (pumpOne rt a stream) u fun _ t ↦
      ∃ e, FailsWith stream u (.classify ("Invalid native event: " ++ errorText rt e)) t := by
  rw [pumpOne, post_tryCatch]
  refine h.mono fun result t hpost ↦ ?_
  obtain ⟨e, v, hresult, hv, ht⟩ := hpost
  subst hresult ht
  have hvlive : stream ∈ v.state.operations := hv.operations ▸ hlive
  have hstaged : Staged v.state stream (v.taken (v.state.op stream).native).state :=
    .taken hv.consistent
  have htaken : Consistent (v.taken (v.state.op stream).native).state :=
    hv.consistent.unseen hstaged.unseen
  refine (post_bind ..).mpr ((post_cancel htaken hvlive false).mono fun result t hpost ↦ ?_)
  obtain ⟨hok, ht⟩ := hpost
  have hc : ((v.taken (v.state.op stream).native).state.op stream).cancelRequested = false := by
    rw [← hv.op] at huncancelled
    exact huncancelled
  rw [hc, if_neg (by simp)] at ht
  have hcancelled := htaken.unseen (Staged.cancelled htaken hvlive false .cancelRequested).unseen
  obtain ⟨hconsistent, hlive', hback, hsent, hfatal'⟩ : Consistent t.state ∧
      stream ∈ t.state.operations ∧ (t.state.op stream).backpressure = false ∧ t.sent = u.sent ∧
      t.state.fatalExit = false := by
    rw [ht]
    refine ⟨hcancelled, hvlive, ?_, hv.sent, hv.fatalExit.trans hfatal⟩
    simp [State.setPhase, State.cancel]
  subst hok
  rw [post_read_bind]
  refine (post_finish_dropped hconsistent hlive' (by decide) _ a).mono
    fun result x hends ↦ ⟨e, ?_⟩
  obtain ⟨-, phase, event, -, hevent, hx⟩ := hends
  subst hx
  have hterminal : event = .error (.classify ("Invalid native event: " ++ errorText rt e)) := by
    rw [hevent, terminalEvent, hback]
    rfl
  rw [hterminal]
  exact failsWith_emit hfatal' phase hsent _

end Malformed

section Body

variable {rt : Runtime} {u : NativeWorker} {stream : ℕ} {e : Bridge.Event}
    {rest : List Bridge.Event}
  (hw : Consistent u.state) (hlive : stream ∈ u.state.operations)
  (huncancelled : (u.state.op stream).cancelRequested = false)
  (hfinal : (u.state.native.operation (u.state.op stream).native).final = true)
  (hqueue : (u.state.native.operation (u.state.op stream).native).queue = e :: rest)

include hw hlive huncancelled hfinal hqueue

theorem post_pumpBody_text (hkind : e.kind = 0) {a : PumpAnswers} :
    Post (pumpBody rt stream a) u fun result t ↦
      match result with
      | .ok _ => stream ∈ t.state.operations ∧
          (t.state.native.operation (u.state.op stream).native).queue = rest
      | .error _ => (¬ Readable rt (u.state.chatting stream) e) ∧
          ∃ v, Waits stream u v ∧ t = v.taken (v.state.op stream).native := by
  refine post_pumpBody hw hlive hfinal fun v hv ↦ ?_
  have hop : v.state.op stream = u.state.op stream := by rw [hv.op]
  have hchatting : v.state.chatting stream = u.state.chatting stream :=
    State.chatting_eq (by rw [hop]) (by rw [hv.session])
  have hqueue' : (v.state.native.operation (v.state.op stream).native).queue = e :: rest := by
    rw [hop, hv.operation, hqueue]
  have htext : Post (pumpEvent rt stream (v.state.op stream).native a) v _ :=
    post_pumpEvent_text hv.consistent (hv.operations ▸ hlive) (by rw [hop]; exact huncancelled)
      hqueue' hkind
  rw [hop, hchatting] at htext
  refine htext.mono fun result t ht ↦ ?_
  cases result with
  | ok _ => exact ht
  | error _ => exact ⟨ht.1, v, hv, by rw [hop]; exact ht.2⟩

theorem post_pumpBody_error (hkind : e.kind = 2) (hfatal : u.state.fatalExit = false)
    {a : PumpAnswers} :
    Post (pumpBody rt stream a) u fun result t ↦
      match result with
      | .ok _ => ∃ m, utf8Decode (e.text.takeWhile (· ≠ 0)) = some m ∧
          FailsWith stream u (.classify m) t
      | .error _ => utf8Decode (e.text.takeWhile (· ≠ 0)) = none ∧
          ∃ v, Waits stream u v ∧ t = v.taken (v.state.op stream).native := by
  refine post_pumpBody hw hlive hfinal fun v hv ↦ ?_
  have hop : v.state.op stream = u.state.op stream := by rw [hv.op]
  have hqueue' : (v.state.native.operation (v.state.op stream).native).queue = e :: rest := by
    rw [hop, hv.operation, hqueue]
  have herror : Post (pumpEvent rt stream (v.state.op stream).native a) v _ :=
    post_pumpEvent_error hv.consistent (hv.operations ▸ hlive) (by rw [hop]; exact huncancelled)
      hqueue' hkind (hv.fatalExit.trans hfatal)
  rw [hop] at herror
  refine herror.mono fun result t ht ↦ ?_
  cases result with
  | ok _ =>
    obtain ⟨m, hm, hgone, hevent⟩ := ht
    rw [hv.sent] at hevent
    exact ⟨m, hm, hgone, hevent⟩
  | error _ => exact ⟨ht.1, v, hv, by rw [hop]; exact ht.2⟩

end Body

section Arrival

variable {rt : Runtime} {w u : NativeWorker} {stream : ℕ} {op : Bridge.Operation} {error : CString}
  {text : List Char}

/-- The error reaches the operation in the state `op`, in which it was neither
final nor cancelled, and had not overflowed. -/
def Brings (op : Bridge.Operation) (error : CString) (s : Bridge.Operation) (c : Call) : Prop :=
  s = op ∧ op.final = false ∧ op.cancelled = false ∧ op.overflow = false ∧ Delivers error c

/-- The operation of the stream runs, nobody cancelled it, and the error has reached it. -/
structure Failing (op : Bridge.Operation) (error : CString) (stream : ℕ) (w : NativeWorker) :
    Prop where
  live : stream ∈ w.state.operations
  uncancelled : (w.state.op stream).cancelRequested = false
  arrived : (Bridge.operation (w.state.op stream).native).Occurs (Brings op error)
    (w.state.native.calls (w.state.op stream).native)

/-- What decides whether a native error keeps its message. -/
structure Legible (rt : Runtime) (conversation : Bool) (op : Bridge.Operation) (error : CString)
    (text : List Char) : Prop where
  before : Bridge.Fits op error → ∀ e ∈ op.queue, Readable rt conversation e
  clean : Clean text
  unmarked : ¬ startsWithMark text

structure Queued (rt : Runtime) (op : Bridge.Operation) (error : CString) (stream : ℕ)
    (w : NativeWorker) (rest : List Bridge.Event) : Prop where
  final : (w.state.native.operation (w.state.op stream).native).final = true
  queue : (w.state.native.operation (w.state.op stream).native).queue =
    rest ++ [⟨(w.state.op stream).native, 2, Bridge.cut error⟩]
  texts : ∀ e ∈ rest, e.kind = 0
  suffix : ∃ read, Bridge.spared op error = read ++ rest ∧
    ∀ e ∈ read, Readable rt (w.state.chatting stream) e

theorem Failing.queued (h : Failing op error stream w) (hw : Consistent w.state)
    (hheard : Heard rt stream w) : ∃ rest, Queued rt op error stream w rest := by
  obtain ⟨before, c, after, hcalls, rfl, hfinal, hcancelled, hoverflow, hc⟩ := h.arrived
  have hmachine := hw.machine _ (hw.opNative stream h.live)
  have hafter : .cancel ∉ after := fun hmem ↦ hheard.uncancelled (by rw [hcalls]; simp [hmem])
  have hread := hheard.read
  rw [hcalls] at hmachine hread
  obtain ⟨hnow, read, rest, houtputs, hspared, hqueue⟩ := Bridge.error_queued hfinal hcancelled
    hoverflow hc hafter fun e he ↦ (hread e he).1
  rw [← hmachine] at hnow hqueue
  refine ⟨rest, hnow, hqueue, fun e he ↦ ?_, read, hspared, fun e he ↦ ?_⟩
  · have hmem :
      e ∈ Bridge.spared ((Bridge.operation (w.state.op stream).native).state before) error :=
      by simp [hspared, he]
    rw [Bridge.spared] at hmem
    split_ifs at hmem
    · exact ((Bridge.protocol _ before).running hfinal).1 e hmem
    · cases hmem
  · refine hread e ?_
    rw [← houtputs]
    exact List.mem_append_right _ he

/-- The stream runs on, and the error is still to come. -/
theorem Failing.follows (h : Failing op error stream w) (hu : Follows rt stream w u)
    (hlive : stream ∈ u.state.operations)
    (huncancelled : (u.state.op stream).cancelRequested = false) : Failing op error stream u := by
  obtain ⟨more, hcalls, -⟩ := hu.calls
  refine ⟨hlive, huncancelled, ?_⟩
  obtain ⟨before, c, after, hsplit, hbrings⟩ := h.arrived
  rw [hu.native]
  exact ⟨before, c, after ++ more, by rw [hcalls, hsplit]; simp, hbrings⟩

/-- The pass of `_pump` over an operation that an error has reached: the next
text goes, or the operation ends. -/
theorem Queued.pumped {rest : List Bridge.Event} (h : Queued rt op error stream w rest)
    (hw : Consistent w.state) (hlive : stream ∈ w.state.operations)
    (huncancelled : (w.state.op stream).cancelRequested = false)
    (hfatal : w.state.fatalExit = false) (herror : error.bytes = utf8Encode text) (hne : text ≠ [])
    (a : PumpAnswers) :
    Post (pumpOne rt a stream) w fun _ t ↦
      (stream ∈ t.state.operations ∧ rest ≠ [] ∧
        (t.state.native.operation (w.state.op stream).native).queue =
          (w.state.native.operation (w.state.op stream).native).queue.tail) ∨
      ∃ f, FailsWith stream w f t ∧ (Told text f ∧ ¬ Replaced rt stream a w ↔
        Legible rt (w.state.chatting stream) op error text) := by
  have hreplaced {e : Thrown} (hresult : (pumpBody rt stream a w).1 = .error e)
      (hstate : ∃ v, Waits stream w v ∧ (pumpBody rt stream a w).2 =
        v.taken (v.state.op stream).native)
      (hnot : ¬ Legible rt (w.state.chatting stream) op error text) :
      Post (pumpOne rt a stream) w fun _ t ↦
        ∃ f, FailsWith stream w f t ∧ (Told text f ∧ ¬ Replaced rt stream a w ↔
          Legible rt (w.state.chatting stream) op error text) := by
    obtain ⟨v, hv, ht⟩ := hstate
    have hbody : Post (pumpBody rt stream a) w fun result t ↦ ∃ e v, result = .error e ∧
        Waits stream w v ∧ t = v.taken (v.state.op stream).native := ⟨e, v, hresult, hv, ht⟩
    refine (post_pumpOne_replaced hlive huncancelled hfatal hbody).mono fun _ t hpost ↦ ?_
    obtain ⟨f, hevents⟩ := hpost
    exact ⟨_, hevents, iff_of_false (fun h ↦ h.2 ⟨e, hresult⟩) hnot⟩
  have hok {result : Unit} {Q : Except Thrown Unit → NativeWorker → Prop}
      (hresult : (pumpBody rt stream a w).1 = .ok result)
      (hQ : Q (.ok result) (pumpBody rt stream a w).2) : Post (pumpOne rt a stream) w Q := by
    rw [pumpOne, post_tryCatch, Post, hresult]
    exact hQ
  cases rest with
  | cons e rest =>
    have hbody : Post (pumpBody rt stream a) w _ :=
      post_pumpBody_text hw hlive huncancelled h.final h.queue (h.texts e (by simp))
    rw [Post] at hbody
    cases hresult : (pumpBody rt stream a w).1 with
    | ok result =>
      rw [hresult] at hbody
      refine hok hresult (.inl ⟨hbody.1, by simp, ?_⟩)
      rw [hbody.2, h.queue]
      rfl
    | error err =>
      rw [hresult] at hbody
      refine (hreplaced hresult hbody.2 fun hlegible ↦ hbody.1 ?_).mono fun _ _ ↦ .inr
      obtain ⟨read, hspared, -⟩ := h.suffix
      rw [Bridge.spared] at hspared
      split_ifs at hspared with hfits
      · exact hlegible.before hfits e (by simp [hspared])
      · cases read <;> cases hspared
  | nil =>
    have hbody : Post (pumpBody rt stream a) w _ :=
      post_pumpBody_error hw hlive huncancelled h.final h.queue rfl hfatal
    rw [Post, CString.cut_takeWhile] at hbody
    cases hresult : (pumpBody rt stream a w).1 with
    | ok result =>
      rw [hresult] at hbody
      obtain ⟨m, hm, hevents⟩ := hbody
      refine hok hresult (.inr ⟨_, hevents, ?_⟩)
      have hnot : ¬ Replaced rt stream a w := by
        rintro ⟨e, he⟩
        rw [hresult] at he
        cases he
      rw [told_iff herror hne hm, and_iff_left hnot]
      constructor
      · intro hunmarked
        refine ⟨fun hfits e he ↦ ?_, (decodes_iff_clean herror).mp (by rw [hm]; rfl), hunmarked⟩
        obtain ⟨read, hspared, hread⟩ := h.suffix
        rw [Bridge.spared, if_pos hfits, List.append_nil] at hspared
        exact hread e (hspared ▸ he)
      · exact fun hlegible ↦ hlegible.unmarked
    | error err =>
      rw [hresult] at hbody
      refine (hreplaced hresult hbody.2 fun hlegible ↦ ?_).mono fun _ _ ↦ .inr
      have hsome := (decodes_iff_clean herror).mpr hlegible.clean
      rw [hbody.1] at hsome
      cases hsome

def Step.serves (stream : ℕ) : Step → Bool
  | .serve other _ => other == stream
  | _ => false

def NativeWorker.queued (w : NativeWorker) (stream : ℕ) : ℕ :=
  (w.state.native.operation (w.state.op stream).native).queue.length

theorem Sound.failing_fatalExit {asked : List ℕ} (hw : Sound asked w)
    (hlive : stream ∈ w.state.operations) : w.state.fatalExit = false := by
  by_contra hfatal
  rw [Bool.not_eq_false] at hfatal
  rw [(hw.stopped (by simp [State.deaf, hfatal])).operations] at hlive
  cases hlive

theorem Failing.serve {asked : List ℕ} (h : Failing op error stream w) (hw : Sound asked w)
    (hheard : Heard rt stream w) (herror : error.bytes = utf8Encode text) (hne : text ≠ [])
    (a : PumpAnswers) :
    let t := advance rt w (.serve stream a)
    (stream ∈ t.state.operations ∧
      (t.state.native.operation (w.state.op stream).native).queue =
        (w.state.native.operation (w.state.op stream).native).queue.tail) ∨
    ∃ f, FailsWith stream w f t ∧ (Told text f ∧ ¬ Replaced rt stream a w ↔
      Legible rt (w.state.chatting stream) op error text) := by
  obtain ⟨rest, hqueued⟩ := h.queued hw.consistent hheard
  have hpost : Post ((Step.serve stream a).turn rt) w _ :=
    (post_serve h.live a).mpr (hqueued.pumped hw.consistent h.live h.uncancelled
      (hw.failing_fatalExit h.live) herror hne a)
  rcases hpost with ⟨hlive, -, hqueue⟩ | hfails
  · exact .inl ⟨hlive, hqueue⟩
  · exact .inr hfails

/-- No step that leaves the operation running makes its queue longer. -/
theorem Failing.drains {asked asked' : List ℕ} (h : Failing op error stream w) (hw : Sound asked w)
    (hu : Sound asked' u) (hheard : Heard rt stream w) (hfollows : Follows rt stream w u)
    (hlive : stream ∈ u.state.operations) : u.queued stream ≤ w.queued stream := by
  obtain ⟨rest, hqueued⟩ := h.queued hw.consistent hheard
  obtain ⟨more, hcalls, hmore, -⟩ := hfollows.calls
  have hmachine := hw.consistent.machine _ (hw.consistent.opNative stream h.live)
  have hmachine' := hu.consistent.machine _ (hu.consistent.opNative stream hlive)
  have hfinal := hqueued.final
  rw [hmachine] at hfinal
  obtain ⟨-, read, -, hqueue⟩ := Bridge.drains hfinal hmore
  rw [← hcalls, ← hmachine, ← hfollows.native, ← hmachine'] at hqueue
  rw [NativeWorker.queued, NativeWorker.queued, ← hfollows.native, hqueue, List.length_append]
  omega

theorem asks_eq (s : Step) : [s].filterMap Step.asks = s.asks.toList := by
  cases h : s.asks <;> simp [h]

/-- While the operation runs, every pass over it takes an event. -/
theorem Failing.passes {steps : List Step}
    (hdistinct : (steps.filterMap Step.asks).Nodup) (h : Failing op error stream (trace rt steps))
    (herror : error.bytes = utf8Encode text) (hne : text ≠ []) {more : List Step}
    (hmore : ((steps ++ more).filterMap Step.asks).Nodup)
    (hlive : stream ∈ (trace rt (steps ++ more)).state.operations)
    (huncancelled : ((trace rt (steps ++ more)).state.op stream).cancelRequested = false) :
    Failing op error stream (trace rt (steps ++ more)) ∧
      more.countP (Step.serves stream) + (trace rt (steps ++ more)).queued stream ≤
        (trace rt steps).queued stream := by
  induction more using List.reverseRecOn with
  | nil =>
    rw [List.append_nil]
    exact ⟨h, by simp⟩
  | append_singleton more s ih =>
    rw [← List.append_assoc] at hmore hlive huncancelled ⊢
    have hsound : Sound _ (trace rt (steps ++ more ++ [s])) := trace_sound hmore
    rw [List.filterMap_append, asks_eq, List.nodup_append] at hmore
    obtain ⟨hbefore, -, hnew⟩ := hmore
    rw [trace_concat] at hlive huncancelled hsound ⊢
    have hsound' : Sound _ (trace rt (steps ++ more)) := trace_sound hbefore
    have hasked : stream ∈ (steps ++ more).filterMap Step.asks := by
      rw [List.filterMap_append]
      exact List.mem_append_left _ ((trace_sound hdistinct).asked stream h.live)
    have hs : stream ∉ s.asks := fun hmem ↦
      hnew stream hasked stream (Option.mem_toList.mpr hmem) rfl
    have hfollows := hsound'.consistent.follows hs hlive huncancelled
    obtain ⟨hfailing, hcount⟩ := ih hbefore hfollows.live hfollows.uncancelled
    have hheard := trace_heard hbefore hfollows.live hfollows.uncancelled
    refine ⟨hfailing.follows hfollows hlive huncancelled, ?_⟩
    have hdrains := hfailing.drains hsound' hsound hheard hfollows hlive
    rw [List.countP_append]
    cases hserves : Step.serves stream s with
    | false =>
      have hnone : [s].countP (Step.serves stream) = 0 := by simp [hserves]
      omega
    | true =>
      have hone : [s].countP (Step.serves stream) = 1 := by simp [hserves]
      obtain ⟨a, rfl⟩ : ∃ a, s = .serve stream a := by
        cases s with
        | serve other a =>
          obtain rfl : other = stream := by simpa [Step.serves] using hserves
          exact ⟨a, rfl⟩
        | _ => cases hserves
      -- the pass takes the next event, since the operation is still there
      rcases hfailing.serve hsound' hheard herror hne a with ⟨-, hqueue⟩ | ⟨f, hfails, -⟩
      · obtain ⟨rest, hqueued⟩ := hfailing.queued hsound'.consistent hheard
        have hlength : (advance rt (trace rt (steps ++ more)) (.serve stream a)).queued stream + 1 =
            (trace rt (steps ++ more)).queued stream := by
          rw [NativeWorker.queued, hfollows.native, hqueue, NativeWorker.queued, hqueued.queue]
          simp
        omega
      · exact absurd hlive hfails.gone

/-- A native error that has reached an operation which nobody cancels ends it after
at most 64 more passes of `_pump`. The consumer is told the error, or the start of
one that is too long, exactly when the texts queued before it can be read, the cut
falls between two characters, and no byte order mark is at its start. -/
theorem native_error_told_iff (rt : Runtime) (steps : List Step)
    (hdistinct : (steps.filterMap Step.asks).Nodup) (stream : ℕ) (op : Bridge.Operation)
    (error : CString) (text : List Char) (herror : error.bytes = utf8Encode text) (hne : text ≠ [])
    (h : Failing op error stream (trace rt steps)) :
    let w := trace rt steps
    (∀ more, ((steps ++ more).filterMap Step.asks).Nodup →
      stream ∈ (trace rt (steps ++ more)).state.operations →
      ((trace rt (steps ++ more)).state.op stream).cancelRequested = false →
        more.countP (Step.serves stream) < Bridge.kMaxEvents) ∧
    ∀ a, let t := advance rt w (.serve stream a)
      stream ∉ t.state.operations → ∃ f, FailsWith stream w f t ∧
        (Told text f ∧ ¬ Replaced rt stream a w ↔
          Legible rt (w.state.chatting stream) op error text) := by
  have hsound : Sound _ (trace rt steps) := trace_sound hdistinct
  have hheard : Heard rt stream (trace rt steps) := trace_heard hdistinct h.live h.uncancelled
  refine ⟨fun more hmore hlive huncancelled ↦ ?_, fun a hend ↦ ?_⟩
  · obtain ⟨hfailing, hcount⟩ := h.passes hdistinct herror hne hmore hlive huncancelled
    have hbounded := Bridge.bounded ((trace rt steps).state.op stream).native
      ((trace rt steps).state.native.calls ((trace rt steps).state.op stream).native)
    rw [← hsound.consistent.machine _ (hsound.consistent.opNative stream h.live)] at hbounded
    have hslots : (trace rt steps).queued stream ≤ Bridge.kMaxEvents :=
      hbounded.slots.trans (by split_ifs <;> decide)
    obtain ⟨rest, hqueued⟩ := hfailing.queued (trace_sound hmore).consistent
      (trace_heard hmore hlive huncancelled)
    have hpositive : 0 < (trace rt (steps ++ more)).queued stream := by
      rw [NativeWorker.queued, hqueued.queue]
      simp
    omega
  · rcases h.serve hsound hheard herror hne a with ⟨hlive, -⟩ | hfails
    · exact absurd hlive hend
    · exact hfails

end Arrival

namespace Scenario

def failing (error : CString) : List Step :=
  twoRunning ++ [.callback ⟨1, some ⟨none, some error, false⟩, []⟩]

theorem failing_arrived {error : CString} (hne : error.bytes ≠ []) :
    Failing { started := true } error 4 (trace runtime (failing error)) := by
  have hcalls : (trace runtime twoRunning).state.native.calls 1 = [.start] := by decide +kernel
  have hlive : 4 ∈ (trace runtime twoRunning).state.operations := by decide +kernel
  have hop : ((trace runtime twoRunning).state.op 4).native = 1 ∧
      ((trace runtime twoRunning).state.op 4).cancelRequested = false := by decide +kernel
  have hknown : 1 ∈ (trace runtime twoRunning).state.native.registry := by decide +kernel
  have hdelivers : Delivers error (.callback (some ⟨none, some error, false⟩)) := by
    simp [Delivers, Bridge.nonEmpty, hne]
  rw [failing, trace_concat]
  refine ⟨hlive, hop.2, ?_⟩
  have hnative : ((advance runtime (trace runtime twoRunning)
      (.callback ⟨1, some ⟨none, some error, false⟩, []⟩)).state.op 4).native = 1 := hop.1
  rw [hnative]
  refine ⟨[.start], _, [], ?_, rfl, rfl, rfl, rfl, hdelivers⟩
  have hstep : (advance runtime (trace runtime twoRunning)
      (.callback ⟨1, some ⟨none, some error, false⟩, []⟩)).state.native =
      (trace runtime twoRunning).state.native.callback ⟨1, some ⟨none, some error, false⟩, []⟩ :=
        rfl
  rw [hstep, Native.callback_calls, Native.bridge_calls hknown, hcalls]

theorem failing_distinct {error : CString} : ((failing error).filterMap Step.asks).Nodup := by
  have hasks : (failing error).filterMap Step.asks = twoRunning.filterMap Step.asks := by
    rw [failing, List.filterMap_append]
    exact List.append_nil _
  rw [hasks]
  decide

theorem untold {error : CString} {text : List Char} (herror : error.bytes = utf8Encode text)
    (hne : text ≠ []) (htorn : ¬ Clean text) :
    let w := trace runtime (failing error)
    let t := advance runtime w (.serve 4 noAnswers)
    Failing { started := true } error 4 w ∧ ∃ f, FailsWith 4 w f t ∧
      ¬ (Told text f ∧ ¬ Replaced runtime 4 noAnswers w) := by
  intro w t
  have hfailing : Failing { started := true } error 4 w := by
    apply failing_arrived
    rw [herror]
    exact utf8Encode_ne_nil hne
  have hsound : Sound _ w := trace_sound failing_distinct
  have hheard : Heard runtime 4 w :=
    trace_heard failing_distinct hfailing.live hfailing.uncancelled
  refine ⟨hfailing, ?_⟩
  obtain ⟨rest, hqueued⟩ := hfailing.queued hsound.consistent hheard
  have hnone : rest = [] := by
    obtain ⟨read, hspared, -⟩ := hqueued.suffix
    have hempty : read ++ rest = [] := by rw [← hspared, Bridge.spared, ite_self]
    exact (List.append_eq_nil_iff.mp hempty).2
  have hpost : Post ((Step.serve 4 noAnswers).turn runtime) w _ :=
    (post_serve hfailing.live noAnswers).mpr (hqueued.pumped hsound.consistent hfailing.live
      hfailing.uncancelled (hsound.failing_fatalExit hfailing.live) herror hne noAnswers)
  rcases hpost with ⟨-, hrest, -⟩ | ⟨f, hfails, htold⟩
  · exact absurd hnone hrest
  · exact ⟨f, hfails, fun h ↦ htorn (htold.mp h).clean⟩

def shortError : CString := ⟨utf8Encode "no".toList, by decide⟩

@[irreducible] def longText : List Char := List.replicate 349526 '一'

theorem encode_replicate (n : ℕ) (c : Char) : utf8Encode (List.replicate n c) =
    (List.replicate n (charBytes c)).flatten := by
  rw [utf8Encode, List.flatMap_def, List.map_replicate]

def longError : CString where
  bytes := utf8Encode longText
  noNul := by
    rw [longText, encode_replicate]
    intro hmem
    obtain ⟨l, hl, hzero⟩ := List.mem_flatten.mp hmem
    rw [List.eq_of_mem_replicate hl] at hzero
    exact absurd hzero (by decide)

theorem length_encode_replicate (n : ℕ) : (utf8Encode (List.replicate n '一')).length = 3 * n := by
  have hthree : (charBytes '一').length = 3 := by decide
  rw [encode_replicate, List.length_flatten, List.map_replicate, hthree]
  induction n with
  | zero => rfl
  | succ n ih =>
    rw [List.replicate_succ, List.sum_cons, ih]
    omega

theorem longText_ne_nil : longText ≠ [] := by
  rw [longText]
  exact List.cons_ne_nil _ _

theorem longText_torn : ¬ Clean longText := by
  rintro (hshort | ⟨kept, ⟨rest, hkept⟩, hlength⟩)
  · rw [longText, length_encode_replicate, kMaxBytes] at hshort
    omega
  · have hsame : kept = List.replicate kept.length '一' := by
      refine List.eq_replicate_of_mem fun c hc ↦ ?_
      refine List.eq_of_mem_replicate (n := 349526) ?_
      rw [← longText, ← hkept]
      exact List.mem_append_left _ hc
    rw [hsame, length_encode_replicate, kMaxBytes] at hlength
    omega

end Scenario

theorem native_error_told_iff_short :
    let w := trace Scenario.runtime (Scenario.failing Scenario.shortError)
    (∀ more, ((Scenario.failing Scenario.shortError ++ more).filterMap Step.asks).Nodup →
      4 ∈ (trace Scenario.runtime (Scenario.failing Scenario.shortError ++ more)).state.operations →
      ((trace Scenario.runtime (Scenario.failing Scenario.shortError ++ more)).state.op
        4).cancelRequested = false → more.countP (Step.serves 4) < Bridge.kMaxEvents) ∧
    ∀ a, let t := advance Scenario.runtime w (.serve 4 a)
      4 ∉ t.state.operations → ∃ f, FailsWith 4 w f t ∧
        (Told "no".toList f ∧ ¬ Replaced Scenario.runtime 4 a w ↔
          Legible Scenario.runtime (w.state.chatting 4) { started := true } Scenario.shortError
            "no".toList) :=
  native_error_told_iff Scenario.runtime (Scenario.failing Scenario.shortError)
    Scenario.failing_distinct 4 { started := true } Scenario.shortError "no".toList rfl (by simp)
    (Scenario.failing_arrived (by decide))

/-- An error of one MiB and two bytes whose last character is cut off is not told. -/
theorem native_error_torn :
    let w := trace Scenario.runtime (Scenario.failing Scenario.longError)
    let t := advance Scenario.runtime w (.serve 4 noAnswers)
    Failing { started := true } Scenario.longError 4 w ∧ ∃ f, FailsWith 4 w f t ∧
      ¬ (Told Scenario.longText f ∧ ¬ Replaced Scenario.runtime 4 noAnswers w) :=
  Scenario.untold rfl Scenario.longText_ne_nil Scenario.longText_torn

end LibLitertLm.Worker
