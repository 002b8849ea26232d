import LibLitertLm.Worker.Errors
import LibLitertLm.Worker.Replies
import Mathlib.Data.List.Flatten

namespace LibLitertLm.Worker

variable {rt : Runtime} {harmless : Prop} {w t u : NativeWorker} {stream r : ℕ}

/-- The texts that the native library passed to the operation of a stream, up to
its final chunk. -/
def State.passed (s : State) (stream : ℕ) : List (List UInt8) :=
  (Bridge.producer (s.op stream).native).outputs (s.native.calls (s.op stream).native)

/-- The texts that were taken from the operation of a stream. -/
def State.taken (s : State) (stream : ℕ) : List (List UInt8) :=
  Bridge.texts ((Bridge.operation (s.op stream).native).outputs
    (s.native.calls (s.op stream).native))

/-- A text is all that the native library passed: the bridge dropped no chunk, and
each could be read. -/
structure Whole (rt : Runtime) (stream : ℕ) (text : String) (s : State) : Prop where
  taken : s.taken stream = s.passed stream
  readable : ∀ bytes ∈ s.passed stream, ∃ text, shown rt (s.chatting stream) bytes = .ok text
  text : text = spell rt (s.chatting stream) (s.passed stream)

structure Truthful (rt : Runtime) (w : NativeWorker) : Prop where
  consistent : Consistent w.state
  heard : ∀ stream ∈ w.state.operations, (w.state.op stream).cancelRequested = false →
    Heard rt stream w
  told : ∀ stream text s, (.event stream (.complete text), s) ∈ w.sent → Whole rt stream text s

theorem Truthful.of_sent (h : Truthful rt w) (ht : Consistent t.state)
    (hheard : ∀ stream ∈ t.state.operations, (t.state.op stream).cancelRequested = false →
      Heard rt stream t)
    (hsent : ∀ m ∈ t.sent, m ∈ w.sent ∨ ∀ stream text, m.1 ≠ .event stream (.complete text)) :
    Truthful rt t := by
  refine ⟨ht, hheard, fun stream text s hm ↦ ?_⟩
  rcases hsent _ hm with hm | hother
  · exact h.told stream text s hm
  · exact absurd rfl (hother stream text)

theorem emit_sent {s : State} {sent : List (Outgoing × State)} {e : Event} {m : Outgoing × State}
    (h : m ∈ (emit s sent stream e).sent) : m ∈ sent ∨ m = (.event stream e, s) := by
  unfold emit at h
  dsimp only at h
  split_ifs at h
  · exact .inl h
  · simpa using h

theorem emit_failure {s : State} {sent : List (Outgoing × State)} {e : Event}
    (he : e.isFailure = true)
    {m : Outgoing × State} (h : m ∈ (emit s sent stream e).sent) :
    m ∈ sent ∨ ∀ other text, m.1 ≠ .event other (.complete text) := by
  refine (emit_sent h).imp_right ?_
  rintro rfl other text heq
  obtain ⟨-, rfl⟩ := Outgoing.event.inj heq
  cases he

theorem Heard.whole {s : State} {e : Bridge.Event} (hw : Consistent w.state)
    (hheard : Heard rt stream w) (hlive : stream ∈ w.state.operations)
    (hs : Staged w.state stream s)
    (he : w.state.head stream = some e) (hkind : e.kind = 1)
    (hcalls : s.native.calls (s.op stream).native =
      w.state.native.calls (s.op stream).native ++ [.take]) (phase : HandlePhase) :
    Whole rt stream (s.op stream).text (s.retire stream phase) := by
  obtain ⟨hsession, hnative⟩ := hs.session_eq hlive
  have hchatting : (s.retire stream phase).chatting stream = w.state.chatting stream := by
    have hbefore : (s.retire stream phase).chatting stream = s.chatting stream :=
      State.chatting_eq rfl (s.retire_session stream phase _).1
    have hframe := hs.unseen.session _ (hw.opSession stream hlive).1
    refine hbefore.trans (State.chatting_eq hsession ?_)
    exact congrArg (fun x : ℕ × Bool × Option ℕ × Option ℕ × Option ℕ ↦ x.2.1) hframe
  have hmachine := hw.machine _ (hw.opNative stream hlive)
  have houtputs : (Bridge.operation (w.state.op stream).native).outputs
      (w.state.native.calls (w.state.op stream).native ++ [.take]) =
        (Bridge.operation (w.state.op stream).native).outputs
          (w.state.native.calls (w.state.op stream).native) ++ [e] := by
    rw [Machine.outputs_concat, ← hmachine]
    refine congrArg _ ?_
    show (w.state.head stream).toList = [e]
    rw [he, Option.toList_some]
  have hcalls' : (s.retire stream phase).native.calls (s.op stream).native =
      w.state.native.calls (w.state.op stream).native ++ [.take] := by
    rw [← hnative]
    exact hcalls
  have htaken : (s.retire stream phase).taken stream = (s.retire stream phase).passed stream := by
    refine Bridge.complete_texts _ _ (e := e) ?_ hkind
    show e ∈ (Bridge.operation (s.op stream).native).outputs
      ((s.retire stream phase).native.calls (s.op stream).native)
    rw [hcalls', hnative, houtputs]
    exact List.mem_append_right _ (List.mem_singleton_self _)
  have hpassed : (s.retire stream phase).passed stream =
      Bridge.texts ((Bridge.operation (w.state.op stream).native).outputs
        (w.state.native.calls (w.state.op stream).native)) := by
    rw [← htaken]
    show Bridge.texts ((Bridge.operation (s.op stream).native).outputs
      ((s.retire stream phase).native.calls (s.op stream).native)) = _
    rw [hcalls', hnative, houtputs, Bridge.texts_append, Bridge.texts_terminal (by simp [hkind]),
      List.append_nil]
  refine ⟨htaken, fun bytes hbytes ↦ ?_, ?_⟩
  · rw [hpassed, Bridge.texts] at hbytes
    obtain ⟨event, hevent, rfl⟩ := List.mem_map.mp hbytes
    rw [hchatting]
    exact (hheard.read event (List.mem_filter.mp hevent).1).2
  · rw [hpassed, hchatting, hs.text]
    exact hheard.spelled

theorem Move.truthful (h : Move rt harmless w t) (hw : Truthful rt w) : Truthful rt t := by
  have hheard : ∀ stream ∈ t.state.operations, (t.state.op stream).cancelRequested = false →
      Heard rt stream t := by
    intro stream hlive huncancelled
    have hfollows := h.follows hw.consistent hlive huncancelled
    exact (hw.heard stream hfollows.live hfollows.uncancelled).follows hfollows
  have ht := h.consistent rt hw.consistent
  cases h with
  | reply request result =>
    refine hw.of_sent ht hheard fun m hm ↦ (List.mem_append.mp hm).imp_right fun hm ↦ ?_
    obtain rfl := List.mem_singleton.mp hm
    simp
  | token =>
    refine hw.of_sent ht hheard fun m hm ↦ (emit_sent hm).imp_right ?_
    rintro rfl
    simp
  | release _ _ _ _ he => exact hw.of_sent ht hheard fun m hm ↦ emit_failure he hm
  | @complete s stream e hlive hs he hkind hc hcalls _ phase =>
    refine ⟨ht, hheard, fun other text s' hm ↦ ?_⟩
    rcases emit_sent hm with hm | hm
    · exact hw.told other text s' hm
    · obtain ⟨hevent, rfl⟩ := Prod.mk.inj hm
      obtain ⟨rfl, htext⟩ := Outgoing.event.inj hevent
      obtain rfl := Event.complete.inj htext
      exact (hw.heard _ hlive hc).whole hw.consistent hlive hs he hkind hcalls phase
  | _ => exact hw.of_sent ht hheard fun m hm ↦ .inl hm

theorem Moves.truthful (h : Moves rt harmless w t) (hw : Truthful rt w) : Truthful rt t := by
  induction h with
  | refl => exact hw
  | tail _ hmove ih => exact hmove.truthful ih

theorem Generated.truthful (h : Generated rt harmless stream r w t) (hw : Truthful rt w)
    (hnew : stream ∉ w.state.operations) : Truthful rt t := by
  have hheard : ∀ other ∈ t.state.operations, (t.state.op other).cancelRequested = false →
      Heard rt other t := by
    intro other hlive huncancelled
    by_cases hsame : other = stream
    · subst hsame
      exact h.heard hnew hlive
    · have hfollows := h.follows hw.consistent hsame hlive huncancelled
      exact (hw.heard other hfollows.live hfollows.uncancelled).follows hfollows
  have ht := h.consistent hw.consistent
  cases h with
  | launch => exact hw.of_sent ht hheard fun m hm ↦ .inl hm
  | abort => exact hw.of_sent ht hheard fun m hm ↦ emit_failure rfl hm
  | refuse => exact hw.of_sent ht hheard fun m hm ↦ emit_failure rfl hm

theorem Turn.truthful {a : Action} (h : Turn rt harmless w a t) (hw : Truthful rt w)
    (hnew : ∀ stream ∈ a.asks, stream ∉ w.state.operations) : Truthful rt t := by
  cases h with
  | deaf => exact hw
  | plain _ _ h => exact Moves.truthful h hw
  | @generate _ stream _ _ _ _ _ h =>
    obtain ⟨u, v, hu, -, -, hgenerated, hv⟩ := h
    have hgone : stream ∉ u.state.operations :=
      fun hmem ↦ hnew stream rfl (Moves.operations hu stream hmem)
    exact Moves.truthful hv.2 (hgenerated.truthful (Moves.truthful hu hw) hgone)
  | crash _ _ h =>
    refine Moves.truthful h ⟨{ hw.consistent with }, fun stream hlive huncancelled ↦ ?_, hw.told⟩
    obtain ⟨huncancelled', hread, hspelled⟩ := hw.heard stream hlive huncancelled
    exact ⟨huncancelled', hread, hspelled⟩
  | refuse _ _ h => exact Moves.truthful h hw
  | close _ h hempty =>
    have ht := Moves.truthful h hw
    refine ht.of_sent { ht.consistent with } (fun stream hlive ↦ ?_) fun m hm ↦ ?_
    · have hlive' := hempty.operations ▸ hlive
      cases hlive'
    · dsimp only at hm
      split_ifs at hm
      · refine (List.mem_append.mp hm).imp_right fun hm ↦ ?_
        obtain rfl := List.mem_singleton.mp hm
        simp
      · exact .inl hm
  | tick h => exact Moves.truthful h hw
  | callback c => exact (Move.callback w c : Move rt harmless w _).truthful hw

/-- Tokens and at most one other event; a completed text is that of the tokens. -/
def Spoken (events : List (Event × State)) : Prop :=
  ∃ tokens last, events = tokens ++ last ∧ (∀ e ∈ tokens, e.1.isToken = true) ∧ last.length ≤ 1 ∧
    ∀ text s, (.complete text, s) ∈ last → text = spoken tokens

theorem Spoken.of_tokens {events : List (Event × State)} (h : ∀ e ∈ events, e.1.isToken = true) :
    Spoken events :=
  ⟨events, [], by simp, h, by simp, by simp⟩

structure Voiced (asked : List ℕ) (w : NativeWorker) : Prop where
  silent : ∀ stream, stream ∉ asked → eventsOf stream w.sent = []
  spoken : ∀ stream, Spoken (eventsOf stream w.sent)

variable {asked asked' : List ℕ}

theorem voiced_init : Voiced [] {} := ⟨fun _ _ ↦ rfl, fun _ ↦ .of_tokens (by simp [eventsOf])⟩

theorem Placed.voiced (h : Placed asked w) : Voiced asked w := by
  refine ⟨fun stream hstream ↦ (h.unknown stream hstream).events, fun stream ↦ ?_⟩
  by_cases hstream : stream ∈ asked
  · obtain ⟨r, hrunning | hfinished⟩ := h.known stream hstream
    · exact .of_tokens hrunning.tokens
    · obtain ⟨tokens, e, s, hevents, htokens, -, htext⟩ := hfinished.events
      refine ⟨tokens, [(e, s)], hevents, htokens, le_rfl, fun text s' hmem ↦ ?_⟩
      obtain ⟨hcomplete, -⟩ := Prod.mk.inj (List.mem_singleton.mp hmem)
      exact htext text hcomplete.symm
  · rw [(h.unknown stream hstream).events]
    exact .of_tokens (by simp)

theorem Move.silent (h : Move rt harmless w t) (hf : w.state.fatalExit = true) (stream : ℕ) :
    eventsOf stream t.sent = eventsOf stream w.sent := by
  have hemit {s : State} {other : ℕ} {e : Event}
    (hflags : (emit s w.sent other e).state.flags = w.state.flags) :
      eventsOf stream (emit s w.sent other e).sent = eventsOf stream w.sent := by
    have hfatal : s.fatalExit = true := (congrArg Prod.fst hflags).trans hf
    rw [emit, if_pos hfatal]
  have hflags := h.flags
  cases h with
  | reply => simp [eventsOf, sentTo]
  | token => exact hemit hflags
  | release => exact hemit hflags
  | complete => exact hemit hflags
  | _ => rfl

theorem Moves.silent (h : Moves rt harmless w t) (hf : w.state.fatalExit = true) (stream : ℕ) :
    eventsOf stream t.sent = eventsOf stream w.sent := by
  induction h with
  | refl => rfl
  | tail hmoves hmove ih =>
    have hfatal := (congrArg Prod.fst (Moves.flags hmoves)).trans hf
    exact (hmove.silent hfatal stream).trans ih

theorem Turn.silent {a : Action} (h : Turn rt harmless w a t) (hf : t.state.fatalExit = true)
    (stream : ℕ) : eventsOf stream t.sent = eventsOf stream w.sent := by
  have hlistens (hd : w.state.deaf = false) (hflags : t.state.flags = w.state.flags) : False := by
    have hfatal := (congrArg Prod.fst hflags).symm.trans hf
    have hopen : w.state.fatalExit = false := (Bool.or_eq_false_iff.mp hd).1
    cases hopen.symm.trans hfatal
  cases h with
  | deaf => rfl
  | plain hd _ h => exact (hlistens hd h.flags).elim
  | generate hd h => exact (hlistens hd h.flags).elim
  | crash _ _ h => exact Moves.silent h rfl stream
  | refuse hd _ h => exact (hlistens hd h.flags).elim
  | close hd h =>
    have hfatal := (congrArg Prod.fst (Moves.flags h)).symm.trans hf
    have hopen : w.state.fatalExit = false := (Bool.or_eq_false_iff.mp hd).1
    cases hopen.symm.trans hfatal
  | tick h =>
    exact Moves.silent h ((congrArg Prod.fst (Moves.flags h)).symm.trans hf) stream
  | callback c => rfl

theorem Voiced.turn (h : Voiced asked w) {a : Action} (hturn : Turn rt harmless w a t)
    (hmore : asked ⊆ asked') (hplaced : t.state.fatalExit = false → Placed asked' t) :
      Voiced asked' t := by
  cases hf : t.state.fatalExit with
  | false => exact (hplaced hf).voiced
  | true =>
    have hsilent := hturn.silent hf
    refine ⟨fun stream hstream ↦ ?_, fun stream ↦ ?_⟩
    · rw [hsilent]
      exact h.silent stream fun hmem ↦ hstream (hmore hmem)
    · rw [hsilent]
      exact h.spoken stream

section Chunks

/-- The text of a chunk: its characters for a raw session, and what `_chatText`
finds in them for a conversation. -/
def chunkText (rt : Runtime) (conversation : Bool) (bytes : List UInt8) : Option String :=
  (utf8Chars bytes).bind fun cs ↦
    if conversation then (chatText rt (String.ofList cs)).toOption else some (String.ofList cs)

/-- `toDartString` drops the first character of the chunk. -/
def Marked (bytes : List UInt8) : Prop := ∃ cs ∈ utf8Chars bytes, startsWithMark cs

variable {bytes : List UInt8}

theorem utf8Decode_unmarked (h : ¬ Marked bytes) :
    utf8Decode bytes = (utf8Chars bytes).map String.ofList := by
  cases hchars : utf8Chars bytes with
  | none => rw [utf8Decode, hchars, Option.map_none, Option.map_none]
  | some cs =>
    rw [utf8Decode, hchars, Option.map_some, Option.map_some]
    cases cs with
    | nil => rfl
    | cons c rest =>
      have hc : c.toNat ≠ 0xFEFF := fun hc ↦ h ⟨c :: rest, hchars, c, rfl, hc⟩
      exact congrArg some (if_neg hc)

theorem takeWhile_noNul (h : 0 ∉ bytes) : bytes.takeWhile (· ≠ 0) = bytes := by
  rw [List.takeWhile_eq_self_iff]
  exact fun b hb ↦ by simpa using ne_of_mem_of_not_mem hb h

theorem shown_unmarked (conversation : Bool) (hnul : 0 ∉ bytes) (h : ¬ Marked bytes) :
    (shown rt conversation bytes).toOption = chunkText rt conversation bytes := by
  rw [shown, takeWhile_noNul hnul, utf8Decode_unmarked h, chunkText]
  cases utf8Chars bytes with
  | none => rfl
  | some cs => cases conversation <;> rfl

/-- For a raw session no chunk is shown with more than its text, and a marked one
with less. -/
theorem shown_sublist {text : String} (hnul : 0 ∉ bytes) (h : shown rt false bytes = .ok text) :
    ∃ full, chunkText rt false bytes = some full ∧ List.Sublist text.toList full.toList ∧
      (text = full → ¬ Marked bytes) := by
  rw [shown, takeWhile_noNul hnul, utf8Decode] at h
  cases hchars : utf8Chars bytes with
  | none => simp [hchars] at h
  | some cs =>
    refine ⟨String.ofList cs, by simp [chunkText, hchars], ?_⟩
    cases cs with
    | nil =>
      obtain rfl : "" = text := by simpa [hchars] using h
      exact ⟨by simp, fun _ hmarked ↦ by simp [Marked, startsWithMark, hchars] at hmarked⟩
    | cons c rest =>
      by_cases hc : c.toNat = 0xFEFF
      · obtain rfl : String.ofList rest = text := by simpa [hchars, hc] using h
        refine ⟨by simp, fun heq ↦ ?_⟩
        have hlength := congrArg String.length heq
        simp at hlength
      · obtain rfl : String.ofList (c :: rest) = text := by simpa [hchars, hc] using h
        refine ⟨by simp, fun _ hmarked ↦ hc ?_⟩
        simpa [Marked, startsWithMark, hchars] using hmarked

/-- Items that are replaced by parts of themselves add up to the same only when
each stays what it is. -/
theorem flatMap_eq_iff_of_sublist {α β : Type} {l : List α} {f g : α → List β}
    (h : ∀ a ∈ l, List.Sublist (f a) (g a)) : l.flatMap f = l.flatMap g ↔ ∀ a ∈ l, f a = g a := by
  refine ⟨fun heq ↦ ?_, fun heq ↦ List.flatMap_congr heq⟩
  induction l with
  | nil => simp
  | cons a l ih =>
    have hrest (b : α) (hb : b ∈ l) : List.Sublist (f b) (g b) := h b (List.mem_cons_of_mem _ hb)
    have hfirst := h a List.mem_cons_self
    have hlengths := congrArg List.length heq
    rw [List.flatMap_cons, List.flatMap_cons] at heq
    simp only [List.flatMap_cons, List.length_append] at hlengths
    have hle := (List.Sublist.flatMap_right l hrest).length_le
    have hsame : f a = g a := hfirst.eq_of_length (by have := hfirst.length_le; omega)
    rw [hsame] at heq
    intro b hb
    rcases List.mem_cons.mp hb with rfl | hb
    · exact hsame
    · exact ih hrest (List.append_cancel_left heq) b hb

end Chunks

end LibLitertLm.Worker
