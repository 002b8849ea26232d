import LibLitertLm.Server.Handlers

namespace LibLitertLm.Server

open Code JsonText Utf16

inductive Terminal
  | completed (text : Text)
  | failed (error : Failure)
  | cancelled

def Terminal.event : Terminal → StreamEvent
  | .completed text => .completed text
  | .failed error => .failed error
  | .cancelled => .cancelled

def eventsOf (tokens : List Text) (terminal : Option Terminal) : List StreamEvent :=
  tokens.map .token ++ terminal.toList.map Terminal.event

def Env.undisturbed (env : Env) (session : ℕ) (events : List StreamEvent) : Env :=
  { env with
    closing := fun _ ↦ false
    fault := fun _ ↦ none
    session := fun _ ↦ .ok session
    events := fun _ ↦ events
    streamError := none }

variable {F : Type}

def failureObject (error : Failure) : Value F :=
  errorObject (literal error.message) (literal error.code) .null (literal error.code)

def ending (stop : Value F) : Option Terminal → List (Item F)
  | none | some (.completed _) => [.data stop, .done]
  | some (.failed error) => [.data (failureObject error)]
  | some .cancelled => [.done]

/-- What a client should see of a stream, a chunk for each token and then the end. -/
def framed (chunk : Text → Value F) (stop : Value F) (tokens : List Text)
    (terminal : Option Terminal) : List (Item F) :=
  tokens.map (fun token ↦ .data (chunk token)) ++ ending stop terminal

section Writing

variable {floats : Floats F} {env : Env} {w : Exchange F} {Q : Except Exn Unit → Exchange F → Prop}

@[simp] theorem post_wait : Post wait w Q ↔ Q (.ok ()) { w with clock := w.clock + 1 } := Iff.rfl

theorem post_connect (h : ∀ n, env.fault n = none) :
    Post (connect env) w Q ↔ Q (.ok ()) { w with clock := w.clock + 1 } := by
  simp [connect, h]

theorem post_send (h : ∀ n, env.fault n = none) (bytes : List UInt8) :
    Post (send env bytes) w Q ↔
      Q (.ok ()) { w with clock := w.clock + 1, output := w.output.map (· ++ bytes) } := by
  simp [send, post_connect h]

def Sent (floats : Floats F) (items : List (Item F)) (w t : Exchange F) : Prop :=
  ∃ clock, t = { w with
    clock := clock
    output := w.output.map (· ++ items.flatMap (Item.bytes floats)) }

theorem Sent.trans {items items' : List (Item F)} {t u : Exchange F} (h : Sent floats items w t)
    (h' : Sent floats items' t u) : Sent floats (items ++ items') w u := by
  obtain ⟨clock, rfl⟩ := h
  obtain ⟨clock', rfl⟩ := h'
  exact ⟨clock', by simp [Function.comp_def, List.flatMap_append]⟩

def Sends (floats : Floats F) (items : List (Item F)) (m : H F Unit) : Prop :=
  ∀ w, Post m w fun result t ↦ result = .ok () ∧ Sent floats items w t

theorem Sends.bind {items items' : List (Item F)} {m n : H F Unit} (h : Sends floats items m)
    (h' : Sends floats items' n) : Sends floats (items ++ items') (do m; n) := by
  intro w
  rw [post_bind]
  refine (h w).mono fun result t ht ↦ ?_
  obtain ⟨rfl, ht⟩ := ht
  exact (h' t).mono fun result' u hu ↦ ⟨hu.1, ht.trans hu.2⟩

theorem sends_wait : Sends floats [] (wait : H F Unit) := by
  intro w
  rw [post_wait]
  exact ⟨rfl, w.clock + 1, by simp⟩

theorem sends_send (h : ∀ n, env.fault n = none) (item : Item F) :
    Sends floats [item] (send env (item.bytes floats)) := by
  intro w
  rw [post_send h]
  exact ⟨rfl, w.clock + 1, by simp⟩

/-- The loop sends a chunk for each token and then the right ending. -/
theorem sends_relay (hfault : ∀ n, env.fault n = none) (hstream : env.streamError = none)
    (chunk : Text → Value F) (stop : Value F) (tokens : List Text) (terminal : Option Terminal) :
    Sends floats (framed chunk stop tokens terminal)
      (relay floats env chunk stop (eventsOf tokens terminal)) := by
  have hstop : Sends floats [.data stop, .done] (do
      send env (writeSse floats stop)
      send env writeSseDone) :=
    (sends_send hfault (.data stop)).bind (sends_send hfault .done)
  induction tokens with
  | nil =>
    cases terminal with
    | none =>
      rw [eventsOf]
      simp only [List.map_nil, Option.toList_none, List.append_nil, relay, hstream]
      exact sends_wait.bind hstop
    | some terminal =>
      cases terminal with
      | completed text => exact sends_wait.bind hstop
      | failed error => exact sends_wait.bind (sends_send hfault (.data (failureObject error)))
      | cancelled => exact sends_wait.bind (sends_send hfault .done)
  | cons token tokens ih =>
    exact sends_wait.bind ((sends_send hfault (.data (chunk token))).bind ih)

end Writing

section Streams

variable {floats : Floats F} {env : Env} {prompt : Prompt} {params : GenerationParams}
  {session : ℕ} {tokens : List Text} {terminal : Option Terminal}

theorem post_prepareSse (h : ∀ n, env.fault n = none) {w : Exchange F} (hw : w.committed = false) :
    Post (prepareSse env) w fun result t ↦
      result = .ok () ∧ t.output = some [] ∧ t.answers = w.answers := by
  simp [prepareSse, setHeaders, Code.when, hw, post_connect h]

/-- The part of a streaming handler that its `try` guards. -/
theorem post_guarded (hfault : ∀ n, env.fault n = none) (hclosing : ∀ n, env.closing n = false)
    {opening body : H F Unit} {first items : List (Item F)} (hopening : Sends floats first opening)
    (hbody : Sends floats items body) {w : Exchange F} (hw : w.committed = false) :
    Post (do
      prepareSse env
      opening
      if ← isClosing env then pure () else body) w fun result t ↦
        result = .ok () ∧ t.output = some ((first ++ items).flatMap (Item.bytes floats)) ∧
          t.answers = w.answers := by
  rw [post_bind]
  refine (post_prepareSse hfault hw).mono fun result t ht ↦ ?_
  obtain ⟨rfl, houtput, hanswers⟩ := ht
  have hrest : Sends floats (first ++ items) (do
      opening
      if ← isClosing env then pure () else body) := by
    refine hopening.bind fun w ↦ ?_
    simp only [isClosing, post_bind, post_get, post_pure, hclosing]
    exact hbody w
  refine (hrest t).mono fun result u hu ↦ ?_
  obtain ⟨rfl, clock, rfl⟩ := hu
  exact ⟨rfl, by simp [houtput], hanswers⟩

theorem post_finish (hfault : ∀ n, env.fault n = none) (session : ℕ) {w : Exchange F}
    {bytes : List UInt8} (hw : w.output = some bytes) :
    Post (do
      release session
      closeOutput env) w fun result t ↦
        result = .ok () ∧ t.answers = w.answers ++ [.stream bytes] := by
  simp [release, closeOutput, hw, post_connect hfault]

theorem stream_undisturbed (kind : String) {opening : Text → H F Unit}
    {chunk : Text → Text → Value F} {stop : Text → Value F} {first : Text → List (Item F)}
    (hopening : ∀ id, Sends floats (first id) (opening id)) (counter : ℕ) :
    ∃ id, (stream floats (env.undisturbed session (eventsOf tokens terminal)) prompt params kind
      opening chunk stop { idCounter := counter }).2.answers =
        [.stream ((first id ++ framed (chunk id) (stop id) tokens terminal).flatMap
          (Item.bytes floats))] := by
  let quiet := env.undisturbed session (eventsOf tokens terminal)
  let id := literal (kind ++ "-" ++ toString env.microseconds ++ "-" ++ toString (counter + 1))
  have hfault : ∀ n, quiet.fault n = none := fun _ ↦ rfl
  have hrelay : Sends floats (framed (chunk id) (stop id) tokens terminal)
      (relay floats quiet (chunk id) (stop id) (eventsOf tokens terminal)) :=
    sends_relay hfault rfl (chunk id) (stop id) tokens terminal
  let w : Exchange F :=
    { clock := 1, idCounter := counter + 1, created := [session], activeCancels := [session] }
  have hguarded := post_guarded (w := w) hfault (fun _ ↦ rfl) (hopening id) hrelay rfl
  refine ⟨id, ?_⟩
  have hpost : Post (stream floats quiet prompt params kind opening chunk stop)
      { idCounter := counter } fun _ t ↦ t.answers =
        [.stream ((first id ++ framed (chunk id) (stop id) tokens terminal).flatMap
          (Item.bytes floats))] := by
    have hsession : quiet.session params = .ok session := rfl
    simp only [stream, nextId, call, trackGeneration, hsession, post_bind, post_modify, post_get,
      post_pure, post_wait]
    rw [post_tryFinally, post_tryCatch]
    refine hguarded.mono fun result t ht ↦ ?_
    obtain ⟨rfl, houtput, hanswers⟩ := ht
    refine (post_finish hfault session houtput).mono fun result' u hu ↦ ?_
    obtain ⟨rfl, hu⟩ := hu
    rw [hu, hanswers]
    rfl
  exact hpost

end Streams

section Contents

def contents (read : Value F → Option Text) (items : List (Item F)) : Text :=
  (items.filterMap fun
    | .data value => read value
    | .done => none).flatten

theorem contents_append (read : Value F → Option Text) (items items' : List (Item F)) :
    contents read (items ++ items') = contents read items ++ contents read items' := by
  simp [contents]

theorem contents_framed {read : Value F → Option Text} {chunk : Text → Value F} {stop : Value F}
    (hchunk : ∀ text, read (chunk text) = some text) (hstop : (read stop).getD [] = [])
    (hfailure : ∀ error, (read (failureObject error)).getD [] = []) (tokens : List Text)
    (terminal : Option Terminal) :
    contents read (framed chunk stop tokens terminal) = tokens.flatten := by
  have hquiet {value : Value F} (h : (read value).getD [] = []) (items : List (Item F)) :
      contents read (.data value :: items) = contents read items := by
    cases hread : read value with
    | none => simp [contents, hread]
    | some text =>
      obtain rfl : text = [] := by simpa [hread] using h
      simp [contents, hread]
  have hending : contents read (ending stop terminal) = [] := by
    cases terminal with
    | none => exact (hquiet hstop _).trans rfl
    | some terminal =>
      cases terminal with
      | completed text => exact (hquiet hstop _).trans rfl
      | failed error => exact (hquiet (hfailure error) _).trans rfl
      | cancelled => rfl
  rw [framed, contents_append, hending, List.append_nil]
  induction tokens with
  | nil => rfl
  | cons token tokens ih =>
    have hhead : contents read (.data (chunk token) :: tokens.map fun token ↦ .data (chunk token)) =
        token ++ contents read (tokens.map fun token ↦ .data (chunk token)) := by
      simp [contents, hchunk]
    rw [List.map_cons, hhead, ih, List.flatten_cons]

theorem sound_framed {chunk : Text → Value F} {stop : Value F}
    (hchunk : ∀ text, Item.Sound (.data (chunk text))) (hstop : Item.Sound (.data stop))
    (tokens : List Text) (terminal : Option Terminal) :
    ∀ item ∈ framed chunk stop tokens terminal, item.Sound := by
  have hending : ∀ item ∈ ending stop terminal, item.Sound := by
    cases terminal with
    | none => simpa [ending] using ⟨hstop, trivial⟩
    | some terminal =>
      cases terminal with
      | completed text => simpa [ending] using ⟨hstop, trivial⟩
      | failed error => simpa [ending] using ⟨proper_errorObject _ _ _, _, rfl⟩
      | cancelled => simp [ending, Item.Sound]
  intro item hitem
  rcases List.mem_append.mp hitem with hitem | hitem
  · obtain ⟨token, -, rfl⟩ := List.mem_map.mp hitem
    exact hchunk token
  · exact hending item hitem

theorem return_notMem {floats : Floats F} {items : List (Item F)} (h : ∀ item ∈ items, item.Sound) :
    (13 : UInt8) ∉ items.flatMap (Item.bytes floats) := by
  intro hmem
  obtain ⟨item, hitem, hbyte⟩ := List.mem_flatMap.mp hmem
  rw [Item.bytes_eq] at hbyte
  rcases List.mem_append.mp hbyte with hline | hblank
  · exact notMem_encode (by decide) (h item hitem).printable hline
  · simp at hblank

end Contents

section Endpoints

variable (floats : Floats F) (config : ServerConfig) (env : Env) (prompt : Prompt)
  (params : GenerationParams) (session counter : ℕ) (tokens : List Text)
  (terminal : Option Terminal)

def Recovered (answers : List (Answer F)) (read : Value F → Option Text) (first : List (Item F))
    (chunk : Text → Value F) (stop : Value F) : Prop :=
  ∃ bytes, answers = [.stream bytes] ∧ (13 : UInt8) ∉ bytes ∧
    readSse floats.parse bytes = some (first ++ framed chunk stop tokens terminal) ∧
    (∀ token, read (chunk token) = some token) ∧
    contents read (first ++ framed chunk stop tokens terminal) = tokens.flatten

variable {floats tokens terminal} in
theorem recovered {answers : List (Answer F)} {read : Value F → Option Text}
    {first : List (Item F)} {chunk : Text → Value F} {stop : Value F}
    (hanswers : answers =
      [.stream ((first ++ framed chunk stop tokens terminal).flatMap (Item.bytes floats))])
    (hfirst : ∀ item ∈ first, item.Sound) (hsilent : contents read first = [])
    (hchunk : ∀ text, Item.Sound (.data (chunk text))) (hstop : Item.Sound (.data stop))
    (hread : ∀ text, read (chunk text) = some text) (hend : (read stop).getD [] = [])
    (hfailure : ∀ error, (read (failureObject error)).getD [] = []) :
    Recovered floats tokens terminal answers read first chunk stop := by
  have hsound : ∀ item ∈ first ++ framed chunk stop tokens terminal, item.Sound := by
    intro item hitem
    rcases List.mem_append.mp hitem with hitem | hitem
    · exact hfirst item hitem
    · exact sound_framed hchunk hstop tokens terminal item hitem
  refine ⟨_, hanswers, return_notMem hsound, readSse_bytes hsound, hread, ?_⟩
  rw [contents_append, hsilent, contents_framed hread hend hfailure, List.nil_append]

def roleChunk (id : Text) (created : ℤ) (model : Text) : Value F :=
  chatChunk id created model [("role", string (literal "assistant"))]

def contentChunk (id : Text) (created : ℤ) (model token : Text) : Value F :=
  chatChunk id created model [("content", string token)]

theorem sound_roleChunk (id : Text) (created : ℤ) (model : Text) :
    Item.Sound (.data (roleChunk id created model : Value F)) := by
  refine ⟨proper_chatChunk (proper_object (by simp) ?_), _, rfl⟩
  simp [proper_string]

theorem sound_contentChunk (id : Text) (created : ℤ) (model token : Text) :
    Item.Sound (.data (contentChunk id created model token : Value F)) := by
  refine ⟨proper_chatChunk (proper_object (by simp) ?_), _, rfl⟩
  simp [proper_string]

theorem field_failureObject {name : String} (h : name ≠ "error") (error : Failure) :
    field name (failureObject error : Value F) = none := by
  rw [failureObject, errorObject, field_object, List.lookup_cons, beq_false_of_ne h]
  rfl

theorem recovered_chat (id : Text) (created : ℤ) (model : Text) {answers : List (Answer F)}
    (hanswers : answers = [.stream (([Item.data (roleChunk id created model)] ++
      framed (contentChunk id created model) (chatStopChunk id created model) tokens
        terminal).flatMap (Item.bytes floats))]) :
    Recovered floats tokens terminal answers deltaContent [.data (roleChunk id created model)]
      (contentChunk id created model) (chatStopChunk id created model) := by
  have hstop : deltaContent (chatStopChunk id created model : Value F) = none := by
    simp [deltaContent, chatStopChunk, field_object, List.lookup_cons, firstItem]
  have hrole : deltaContent (roleChunk id created model : Value F) = none :=
    (deltaContent_chatChunk _).trans rfl
  refine recovered hanswers ?_ ?_ (sound_contentChunk id created model)
    ⟨proper_chatStopChunk, _, rfl⟩ (fun text ↦ ?_) ?_ fun error ↦ ?_
  · intro item hitem
    obtain rfl := List.mem_singleton.mp hitem
    exact sound_roleChunk id created model
  · simp [contents, hrole]
  · exact (deltaContent_chatChunk _).trans (asText_string (F := F) text)
  · rw [hstop]
    rfl
  · rw [deltaContent, field_failureObject (by decide)]
    rfl

theorem recovered_completion (id : Text) (created : ℤ) (model : Text) {answers : List (Answer F)}
    (hanswers : answers = [.stream (([] ++
      framed (completionChunk id created model) (completionStopChunk id created model) tokens
        terminal).flatMap (Item.bytes floats))]) :
    Recovered floats tokens terminal answers choiceText [] (completionChunk id created model)
      (completionStopChunk id created model) := by
  have hstop : choiceText (completionStopChunk id created model : Value F) = some [] := by
    have hnone : literal "" = [] := rfl
    simp [choiceText, completionStopChunk, field_object, List.lookup_cons, firstItem,
      asText_string, hnone]
  refine recovered hanswers (by simp) rfl (fun text ↦ ⟨proper_completionChunk text, _, rfl⟩)
    ⟨proper_completionStopChunk, _, rfl⟩ choiceText_completionChunk ?_ fun error ↦ ?_
  · rw [hstop]
    rfl
  · rw [choiceText, field_failureObject (by decide)]
    rfl

/-- A client gets the tokens of a stream whatever text they are, and then one
ending: the stop chunk and `[DONE]`, an error, or `[DONE]` alone. -/
theorem sse_round_trip :
    (∃ id, Recovered floats tokens terminal
      (streamChatCompletion floats config
        (env.undisturbed session (eventsOf tokens terminal)) prompt
        params { idCounter := counter }).2.answers deltaContent
      [.data (roleChunk id env.seconds (literal config.modelId))]
      (contentChunk id env.seconds (literal config.modelId))
      (chatStopChunk id env.seconds (literal config.modelId))) ∧
    ∃ id, Recovered floats tokens terminal
      (streamCompletion floats config (env.undisturbed session (eventsOf tokens terminal)) prompt
        params { idCounter := counter }).2.answers choiceText []
      (completionChunk id env.seconds (literal config.modelId))
      (completionStopChunk id env.seconds (literal config.modelId)) := by
  constructor
  · have hopening (id : Text) :
      Sends floats [.data (roleChunk id env.seconds (literal config.modelId))]
        (send (env.undisturbed session (eventsOf tokens terminal))
          (writeSse floats (roleChunk id env.seconds (literal config.modelId)))) :=
      sends_send (fun _ ↦ rfl) (.data (roleChunk id env.seconds (literal config.modelId)))
    obtain ⟨id, hanswers⟩ := stream_undisturbed "chatcmpl" hopening counter
    exact ⟨id,
      recovered_chat floats tokens terminal id env.seconds (literal config.modelId) hanswers⟩
  · have hopening (id : Text) : Sends floats ([] : List (Item F)) (pure ()) := by
      intro w
      refine ⟨rfl, w.clock, ?_⟩
      simp only [List.flatMap_nil, List.append_nil, Option.map_id']
      rfl
    obtain ⟨id, hanswers⟩ := stream_undisturbed "cmpl" hopening counter
    exact ⟨id, recovered_completion floats tokens terminal id env.seconds (literal config.modelId)
      hanswers⟩

end Endpoints

end LibLitertLm.Server
