import LibLitertLm.Server.Framing

namespace LibLitertLm.Server

open Code JsonText

variable {F : Type} {floats : Floats F} {config : ServerConfig} {env : Env} {request : Request}
  {prompt : Prompt} {params : GenerationParams} {w t : Exchange F}

def Fresh (w : Exchange F) : Prop := w.committed = false ∧ w.answers = [] ∧ w.output = none

/-- The request was answered once, unless its connection broke or its headers were refused. -/
def Settled (w : Exchange F) : Prop := w.faulted = true ∨ ∃ a, w.answers = [a]

/-- Only an exception that is not the connection's leaves the request without an
answer, and then an error can still be sent. -/
def Replied {α : Type} (result : Except Exn α) (w : Exchange F) : Prop :=
  match result with
  | .error (.other _) => Fresh w
  | _ => Settled w

def Final {α : Type} (result : Except Exn α) (w : Exchange F) : Prop :=
  Settled w ∧ ∀ text, result ≠ .error (.other text)

theorem Final.replied {α : Type} {result : Except Exn α} (h : Final result w) :
    Replied result w := by
  obtain ⟨hsettled, hthrown⟩ := h
  match result with
  | .ok _ | .error .socket | .error .http => exact hsettled
  | .error (.other text) => exact absurd rfl (hthrown text)

section Answers

theorem Connection.toExn_ne (e : Connection) (text : String) : e.toExn ≠ .other text := by
  cases e <;> simp [Connection.toExn]

theorem post_connect_cases {Q : Except Exn Unit → Exchange F → Prop}
    (hok : Q (.ok ()) { w with clock := w.clock + 1 })
    (hfault : ∀ e : Connection, Q (.error e.toExn)
      { w with clock := w.clock + 1, faulted := true }) : Post (connect env) w Q := by
  simp only [connect, post_bind, post_get, post_wait]
  cases env.fault w.clock with
  | none => exact hok
  | some e => exact hfault e

theorem post_closeResponse (hw : w.answers = []) (body : Option (Value F)) :
    Post (closeResponse env body) w Final := by
  rw [closeResponse, post_bind, post_modify, post_bind]
  refine post_connect_cases ?_ fun e ↦ ?_
  · rw [post_modify]
    exact ⟨.inr ⟨_, by rw [hw, List.nil_append]⟩, by simp⟩
  · refine ⟨.inl rfl, fun text h ↦ e.toExn_ne text (Except.error.inj h)⟩

theorem post_writeJson (hw : Fresh w) (value : Value F) : Post (writeJson env value) w Final := by
  obtain ⟨hcommitted, hanswers, -⟩ := hw
  simp only [writeJson, setHeaders, hcommitted, Code.when, post_bind, post_get,
    Bool.false_eq_true, if_false, post_pure]
  exact post_closeResponse hanswers _

theorem post_writeError (hw : Fresh w) (status : ℕ) (code message : String)
    (param : Option String) :
    Post (writeError env status code message param) w Final := by
  have hcommitted := hw.1
  simp only [writeError, setStatus, hcommitted, Code.when, post_bind, post_get,
    Bool.false_eq_true, if_false, post_pure, post_modify]
  apply post_writeJson
  exact ⟨rfl, hw.2⟩

theorem post_writeFailure (hw : Fresh w) (failure : Failure) :
    Post (writeFailure env failure) w Final := post_writeError hw _ _ _ _

end Answers

section Sessions

structure Ledger where
  created : List ℕ
  disposed : List ℕ
  activeCancels : List ℕ

def Exchange.ledger (w : Exchange F) : Ledger := ⟨w.created, w.disposed, w.activeCancels⟩

def Ledger.Tidy (l : Ledger) : Prop := ∀ s ∈ l.created, s ∈ l.disposed ∧ s ∉ l.activeCancels

def Apart {α : Type} (m : H F α) : Prop := ∀ l, Keeps (fun w ↦ w.ledger = l) m

theorem Apart.pure {α : Type} (a : α) : Apart (pure a : H F α) := fun _ ↦ .pure a

theorem Apart.throw {α : Type} (e : Exn) : Apart (throw e : H F α) := fun _ ↦ .throw e

theorem Apart.bind {α β : Type} {m : H F α} {f : α → H F β} (hm : Apart m) (hf : ∀ a, Apart (f a)) :
    Apart (m >>= f) := fun l ↦ (hm l).bind fun a ↦ hf a l

theorem Apart.get : Apart (Code.get : H F (Exchange F)) := fun _ ↦ .get

theorem Apart.modify {f : Exchange F → Exchange F} (h : ∀ w, (f w).ledger = w.ledger) :
    Apart (Code.modify f : H F Unit) := by
  intro l w hw
  exact (h w).trans hw

theorem Apart.ite {α : Type} {p : Prop} [Decidable p] {m n : H F α} (hm : Apart m) (hn : Apart n) :
    Apart (if p then m else n) := fun l ↦ .ite (fun _ ↦ hm l) fun _ ↦ hn l

theorem Apart.when {p : Prop} [Decidable p] {m : H F Unit} (hm : Apart m) : Apart (Code.when p m) :=
  .ite hm (.pure ())

theorem Apart.tryCatch {α : Type} {m : H F α} {h : Exn → H F α} (hm : Apart m)
    (hh : ∀ e, Apart (h e)) :
    Apart (tryCatch m h) := fun l ↦ (hm l).tryCatch fun e ↦ hh e l

theorem apart_wait : Apart (wait : H F Unit) := .modify fun _ ↦ rfl

theorem apart_connect : Apart (connect env : H F Unit) := by
  refine .bind .get fun w ↦ .bind apart_wait fun _ ↦ ?_
  cases env.fault w.clock with
  | none => exact .pure ()
  | some e => exact .bind (.modify fun _ ↦ rfl) fun _ ↦ .throw _

theorem apart_closeResponse (body : Option (Value F)) : Apart (closeResponse env body) :=
  .bind (.modify fun _ ↦ rfl) fun _ ↦ .bind apart_connect fun _ ↦ .modify fun _ ↦ rfl

theorem apart_setStatus (status : ℕ) : Apart (setStatus status : H F Unit) :=
  .bind .get fun _ ↦ .bind (.when (.throw _)) fun _ ↦ .modify fun _ ↦ rfl

theorem apart_setHeaders : Apart (setHeaders : H F Unit) :=
  .bind .get fun _ ↦ .when (.throw _)

theorem apart_writeJson (value : Value F) : Apart (writeJson env value) :=
  .bind apart_setHeaders fun _ ↦ apart_closeResponse _

theorem apart_writeError (status : ℕ) (code message : String) (param : Option String) :
    Apart (writeError env status code message param : H F Unit) :=
  .bind (apart_setStatus status) fun _ ↦ apart_writeJson _

theorem apart_writeFailure (failure : Failure) : Apart (writeFailure env failure : H F Unit) :=
  apart_writeError _ _ _ _

theorem apart_send (bytes : List UInt8) : Apart (send env bytes : H F Unit) :=
  .bind (.modify fun _ ↦ rfl) fun _ ↦ apart_connect

theorem apart_prepareSse : Apart (prepareSse env : H F Unit) :=
  .bind apart_setHeaders fun _ ↦ .bind (.modify fun _ ↦ rfl) fun _ ↦ .bind apart_connect fun _ ↦
    .modify fun _ ↦ rfl

theorem apart_closeOutput : Apart (closeOutput env : H F Unit) := by
  refine .bind .get fun w ↦ ?_
  cases w.output with
  | none => exact .pure ()
  | some bytes => exact .bind apart_connect fun _ ↦ .modify fun _ ↦ rfl

theorem apart_isClosing : Apart (isClosing env : H F Bool) := .bind .get fun _ ↦ .pure _

theorem apart_nextId (kind : String) : Apart (nextId env kind : H F Text) :=
  .bind (.modify fun _ ↦ rfl) fun _ ↦ .bind .get fun _ ↦ .pure _

theorem apart_call {α : Type} (outcome : Outcome α) : Apart (call outcome : H F _) := by
  refine .bind apart_wait fun _ ↦ ?_
  cases outcome with
  | ok a => exact .pure _
  | err failure => exact .pure _
  | throws text => exact .throw _

theorem apart_recover (e : Exn) : Apart (recover floats env e : H F Unit) := by
  refine .bind apart_wait fun _ ↦ ?_
  cases e with
  | socket | http => exact .pure ()
  | other text =>
    refine .bind .get fun w ↦ ?_
    cases w.output with
    | none => exact .throw _
    | some bytes => exact apart_send _

theorem apart_relay (chunk : Text → Value F) (stop : Value F) (events : List StreamEvent) :
    Apart (relay floats env chunk stop events) := by
  have hstop : Apart (do
      send env (writeSse floats stop)
      send env writeSseDone : H F Unit) := .bind (apart_send _) fun _ ↦ apart_send _
  induction events with
  | nil =>
    refine .bind apart_wait fun _ ↦ ?_
    cases env.streamError with
    | none => exact hstop
    | some text => exact .throw _
  | cons event events ih =>
    cases event with
    | token text => exact .bind apart_wait fun _ ↦ .bind (apart_send _) fun _ ↦ ih
    | completed text => exact .bind apart_wait fun _ ↦ hstop
    | failed error => exact .bind apart_wait fun _ ↦ apart_send _
    | cancelled => exact .bind apart_wait fun _ ↦ apart_send _

abbrev Tidies {α : Type} (m : H F α) : Prop := Keeps (fun w ↦ w.ledger.Tidy) m

theorem Apart.tidies {α : Type} {m : H F α} (h : Apart m) : Tidies m := by
  intro w hw
  refine (h w.ledger w rfl).mono fun _ t ht ↦ ?_
  exact Eq.mpr (congrArg Ledger.Tidy ht) hw

def Ledger.release (l : Ledger) (session : ℕ) : Ledger :=
  ⟨l.created, session :: l.disposed, l.activeCancels.filter (· ≠ session)⟩

def Releases {α : Type} (session : ℕ) (m : H F α) : Prop :=
  ∀ w, Post m w fun _ t ↦ t.ledger = w.ledger.release session

theorem releases_release (session : ℕ) : Releases session (release session : H F Unit) :=
  fun _ ↦ rfl

theorem Releases.bind {α : Type} {session : ℕ} {finish : H F α} (hfinish : Apart finish) :
    Releases session (do
      release session
      finish) := fun w ↦ by
  simp only [release, post_bind, post_modify, post_wait]
  exact hfinish (w.ledger.release session) _ rfl

/-- A session that is tracked, used and released in the end leaves nothing behind. -/
theorem tidies_session {α β : Type} {body : H F α} {finish : H F β} {session : ℕ}
    (hbody : Apart body) (hfinish : Releases session finish) : Tidies (do
      modify fun w ↦ { w with created := session :: w.created }
      trackGeneration session
      tryFinally body finish) := by
  intro w hw
  simp only [trackGeneration, post_bind, post_modify]
  rw [post_tryFinally]
  refine (hbody ⟨session :: w.created, w.disposed, session :: w.activeCancels⟩ _ rfl).mono
    fun result t ht ↦ (hfinish t).mono fun result' u hu ↦ ?_
  have htidy : u.ledger.Tidy := by
    rw [hu, ht]
    intro s hs
    rcases List.mem_cons.mp hs with rfl | hs
    · simp [Ledger.release]
    · obtain ⟨hdisposed, hactive⟩ := hw s hs
      by_cases heq : s = session
      · simp [Ledger.release, heq]
      · refine ⟨List.mem_cons_of_mem _ hdisposed, fun hmem ↦ ?_⟩
        rcases List.mem_cons.mp (List.mem_filter.mp hmem).1 with rfl | hmem
        · exact heq rfl
        · exact hactive hmem
  cases result' <;> exact htidy

theorem tidies_complete (kind : String) (respond : Text → Text → Value F → Value F) :
    Tidies (complete env prompt params kind respond) := by
  refine .bind (apart_nextId _).tidies fun id ↦ .bind (apart_call _).tidies fun result ↦ ?_
  cases result with
  | error failure => exact (apart_writeFailure _).tidies
  | ok session =>
    refine tidies_session ?_ (releases_release session)
    refine .bind apart_isClosing fun closing ↦ .ite (.pure ())
      (.bind (apart_call _) fun result ↦ ?_)
    cases result with
    | error failure => exact apart_writeFailure _
    | ok text => exact .bind (apart_call _) fun metrics ↦ apart_writeJson _

theorem tidies_stream (kind : String) {opening : Text → H F Unit}
    (hopening : ∀ id, Apart (opening id))
    (chunk : Text → Text → Value F) (stop : Text → Value F) :
    Tidies (stream floats env prompt params kind opening chunk stop) := by
  refine .bind (apart_nextId _).tidies fun id ↦ .bind (apart_call _).tidies fun result ↦ ?_
  cases result with
  | error failure => exact (apart_writeFailure _).tidies
  | ok session =>
    refine tidies_session (.tryCatch ?_ apart_recover) (.bind apart_closeOutput)
    exact .bind apart_prepareSse fun _ ↦ .bind (hopening id) fun _ ↦
      .bind apart_isClosing fun closing ↦
      .ite (.pure ()) (apart_relay _ _ _)

theorem tidies_streamChatCompletion :
    Tidies (streamChatCompletion floats config env prompt params) :=
  tidies_stream _ (fun _ ↦ apart_send _) _ _

theorem tidies_streamCompletion : Tidies (streamCompletion floats config env prompt params) :=
  tidies_stream _ (fun _ ↦ .pure ()) _ _

theorem tidies_checked (body : Body) {next : H F Unit} (hnext : Tidies next) :
    Tidies (checked config env body next) :=
  .ite (fun _ ↦ (apart_writeError _ _ _ _).tidies) fun _ ↦
    .ite (fun _ ↦ (apart_writeError _ _ _ _).tidies) fun _ ↦ hnext

theorem tidies_answered (body : Body) {streaming whole : GenerationParams → H F Unit}
    (hstreaming : ∀ params, Tidies (streaming params)) (hwhole : ∀ params, Tidies (whole params)) :
    Tidies (answered config env request body streaming whole) := by
  unfold answered
  cases paramsFromRequest request.path body config.defaultParams with
  | error key => exact (apart_writeError _ _ _ _).tidies
  | ok params => exact .ite (fun _ ↦ hstreaming params) fun _ ↦ hwhole params

theorem apart_readJsonObject : Apart (readJsonObject env request : H F (Option Body)) := by
  refine .bind apart_wait fun _ ↦ ?_
  split
  · exact .pure _
  · exact .bind (apart_writeError _ _ _ _) fun _ ↦ .pure _

theorem tidies_handleChatCompletions :
    Tidies (handleChatCompletions floats config env request) := by
  refine .bind apart_readJsonObject.tidies fun body ↦ ?_
  cases body with
  | none => exact .pure ()
  | some body =>
    refine tidies_checked body ?_
    split
    next messages _ =>
      cases messagesFromRequest messages with
      | none => exact (apart_writeError _ _ _ _).tidies
      | some prompt =>
        exact tidies_answered body (fun _ ↦ tidies_streamChatCompletion) fun _ ↦ tidies_complete _ _
    next => exact (apart_writeError _ _ _ _).tidies

theorem tidies_handleCompletions : Tidies (handleCompletions floats config env request) := by
  refine .bind apart_readJsonObject.tidies fun body ↦ ?_
  cases body with
  | none => exact .pure ()
  | some body =>
    refine tidies_checked body ?_
    cases completionPrompt (body.lookup "prompt") with
    | none => exact (apart_writeError _ _ _ _).tidies
    | some prompt =>
      exact tidies_answered body (fun _ ↦ tidies_streamCompletion) fun _ ↦ tidies_complete _ _

theorem tidies_route : Tidies (route floats config env request) :=
  .ite (fun _ ↦ (apart_writeJson _).tidies) fun _ ↦
    .ite (fun _ ↦ (apart_writeJson _).tidies) fun _ ↦
      .ite (fun _ ↦ tidies_handleChatCompletions) fun _ ↦
        .ite (fun _ ↦ tidies_handleCompletions) fun _ ↦ (apart_writeError _ _ _ _).tidies

theorem apart_headerValue (values : List String) :
    Apart (headerValue values : H F (Option String)) := by
  match values with
  | [] | [_] => exact .pure _
  | _ :: _ :: _ => exact .bind (.modify fun _ ↦ rfl) fun _ ↦ .throw _

theorem apart_authorized : Apart (authorized config request : H F Bool) := by
  unfold authorized
  cases config.apiKey with
  | none => exact .pure _
  | some apiKey => exact .ite (.pure _) (.bind (apart_headerValue _) fun _ ↦ .pure _)

theorem tidies_handle : Tidies (handle floats config env request) := by
  refine .ite (fun _ ↦ (Apart.bind (apart_setStatus _) fun _ ↦ apart_closeResponse _).tidies)
    fun _ ↦ .bind apart_authorized.tidies fun _ ↦ .ite (fun _ ↦ (apart_writeError _ _ _ _).tidies)
      fun _ ↦ .tryCatch tidies_route fun e ↦ ?_
  cases e with
  | socket | http => exact .throw _
  | other text => exact (apart_writeError _ _ _ _).tidies

theorem tidies_serve (n : ℕ) : Tidies (serve floats config env request n) := by
  refine .bind (Apart.modify fun _ ↦ rfl).tidies fun _ ↦ .tryFinally
    (.tryCatch tidies_handle fun e ↦ ?_)
    (Apart.modify fun _ ↦ rfl).tidies
  cases e with
  | socket | http => exact .pure ()
  | other text => exact .throw _

end Sessions

section Generations

theorem post_release {α : Type} {result : Except Exn α} (hw : Replied result w) (session : ℕ) :
    Post (release session) w fun result' t ↦ result' = .ok () ∧ Replied result t := by
  refine ⟨rfl, ?_⟩
  match result with
  | .ok _ | .error .socket | .error .http | .error (.other _) => exact hw

theorem Fresh.nextId {α : Type} {Q : Except Exn α → Exchange F → Prop} (hw : Fresh w)
    (kind : String)
    {f : Text → H F α} (hf : ∀ id t, Fresh t → t.clock = w.clock → Post (f id) t Q) :
    Post (nextId env kind >>= f) w Q := by
  simp only [Server.nextId, post_bind, post_modify, post_get, post_pure]
  exact hf _ _ hw rfl

/-- A call of the engine comes back, or its exception goes on. -/
theorem Fresh.call {α β : Type} (hw : Fresh w) {outcome : Outcome α} {f : Except Failure α → H F β}
    (hf : ∀ r t, Fresh t → t.clock = w.clock + 1 → (∀ a, r = .ok a → outcome = .ok a) →
      Post (f r) t Replied) : Post (call outcome >>= f) w Replied := by
  simp only [Server.call, post_bind, post_wait]
  cases outcome with
  | ok a => exact hf (.ok a) _ hw rfl fun _ ha ↦ congrArg Outcome.ok (Except.ok.inj ha)
  | err failure => exact hf (.error failure) _ hw rfl (by simp)
  | throws text => exact hw

/-- A `finally` block that throws takes over. -/
def after {α β : Type} (result : Except Exn α) : Except Exn β → Except Exn α
  | .ok _ => result
  | .error e => .error e

/-- What a generation replies, it replies after its session was released, too. -/
theorem Fresh.session {α : Type} (hw : Fresh w) (session : ℕ) {body : H F Unit} {finish : H F α}
    {P : Except Exn Unit → Exchange F → Prop}
    (hbody : ∀ t, Fresh t → t.clock = w.clock → Post body t P)
    (hfinish : ∀ result t, P result t → Post finish t fun result' u ↦
      Replied (after result result') u) : Post (do
      modify fun w ↦ { w with created := session :: w.created }
      trackGeneration session
      tryFinally body finish) w Replied := by
  simp only [trackGeneration, post_bind, post_modify]
  rw [post_tryFinally]
  have hstart := hbody { w with
    created := session :: w.created
    activeCancels := session :: w.activeCancels } hw rfl
  refine hstart.mono fun result t ht ↦ (hfinish result t ht).mono fun result' u hu ↦ ?_
  cases result' <;> exact hu

theorem post_isClosing {α : Type} {Q : Except Exn α → Exchange F → Prop} {f : Bool → H F α} :
    Post (isClosing env >>= f) w Q ↔ Post (f (env.closing w.clock)) w Q := by
  simp only [isClosing, post_bind, post_get, post_pure]

/-- One response is sent unless a shutdown has begun by the time the session is there. -/
theorem post_complete (hw : Fresh w)
    (hclosing : ∀ session, env.session params = .ok session → env.closing (w.clock + 1) = false)
    (kind : String) (respond : Text → Text → Value F → Value F) :
    Post (complete env prompt params kind respond) w Replied := by
  refine hw.nextId kind fun id t ht hclock ↦ ht.call fun result t ht hclock' hresult ↦ ?_
  cases result with
  | error failure => exact (post_writeFailure ht failure).mono fun _ _ ↦ Final.replied
  | ok session =>
    have hopen : env.closing t.clock = false := by
      rw [hclock', hclock]
      exact hclosing session (hresult session rfl)
    refine ht.session session (P := Replied) (fun t' ht' hsame ↦ ?_) fun result t' ht' ↦ ?_
    · rw [post_isClosing, hsame, hopen]
      refine ht'.call fun result u hu _ _ ↦ ?_
      cases result with
      | error failure => exact (post_writeFailure hu failure).mono fun _ _ ↦ Final.replied
      | ok text =>
        refine hu.call fun metrics v hv _ _ ↦ ?_
        exact (post_writeJson hv _).mono fun _ _ ↦ Final.replied
    · refine (post_release ht' session).mono fun result' u hu ↦ ?_
      obtain ⟨rfl, hu⟩ := hu
      exact hu

def Opened (w : Exchange F) : Prop := w.answers = [] ∧ ∃ bytes, w.output = some bytes

/-- Where a stream stands after some of its code: its socket is open, or broken. -/
def Streaming {α : Type} (result : Except Exn α) (w : Exchange F) : Prop :=
  match result with
  | .ok _ | .error (.other _) => Opened w
  | .error _ => w.faulted = true

def Writes {α : Type} (m : H F α) : Prop := ∀ w, Opened w → Post m w Streaming

theorem Writes.pure {α : Type} (a : α) : Writes (pure a : H F α) := fun _ hw ↦ hw

theorem Writes.throw {α : Type} (text : String) : Writes (throw (.other text) : H F α) :=
  fun _ hw ↦ hw

theorem Writes.bind {α β : Type} {m : H F α} {f : α → H F β} (hm : Writes m)
    (hf : ∀ a, Writes (f a)) :
    Writes (m >>= f) := by
  intro w hw
  rw [post_bind]
  refine (hm w hw).mono fun result t ht ↦ ?_
  match result with
  | .ok a => exact hf a t ht
  | .error .socket | .error .http | .error (.other _) => exact ht

theorem writes_wait : Writes (wait : H F Unit) := fun _ hw ↦ hw

/-- After the `catch` clauses the socket is there still, or broken. -/
def Caught (result : Except Exn Unit) (w : Exchange F) : Prop :=
  match result with
  | .ok _ => Opened w ∨ w.faulted = true
  | .error (.other _) => False
  | .error _ => w.faulted = true

theorem caught_connection (e : Connection) (hw : w.faulted = true) : Caught (.error e.toExn) w := by
  cases e <;> exact hw

theorem Opened.send (hw : Opened w) (bytes : List UInt8) :
    Post (send env bytes) w fun result t ↦ Caught result t ∧ (result = .ok () → Opened t) := by
  obtain ⟨hanswers, before, houtput⟩ := hw
  rw [Server.send, post_bind, post_modify]
  refine post_connect_cases ?_ fun e ↦ ?_
  · have hopened : Opened { w with
        clock := w.clock + 1, output := w.output.map (· ++ bytes) } :=
      ⟨hanswers, before ++ bytes, by simp [houtput]⟩
    exact ⟨.inl hopened, fun _ ↦ hopened⟩
  · exact ⟨caught_connection e rfl, by simp⟩

theorem writes_send (bytes : List UInt8) : Writes (send env bytes : H F Unit) := by
  intro w hw
  refine (hw.send bytes).mono fun result t ⟨hcaught, hok⟩ ↦ ?_
  match result with
  | .ok _ => exact hok rfl
  | .error .socket | .error .http => exact hcaught
  | .error (.other _) => exact hcaught.elim

theorem writes_relay (chunk : Text → Value F) (stop : Value F) (events : List StreamEvent) :
    Writes (relay floats env chunk stop events) := by
  have hstop : Writes (do
      send env (writeSse floats stop)
      send env writeSseDone : H F Unit) := .bind (writes_send _) fun _ ↦ writes_send _
  induction events with
  | nil =>
    refine .bind writes_wait fun _ ↦ ?_
    cases env.streamError with
    | none => exact hstop
    | some text => exact .throw text
  | cons event events ih =>
    cases event with
    | token text => exact .bind writes_wait fun _ ↦ .bind (writes_send _) fun _ ↦ ih
    | completed text => exact .bind writes_wait fun _ ↦ hstop
    | failed error => exact .bind writes_wait fun _ ↦ writes_send _
    | cancelled => exact .bind writes_wait fun _ ↦ writes_send _

theorem Fresh.prepareSse (hw : Fresh w) {f : Unit → H F Unit} (hf : Writes (f ())) :
    Post (prepareSse env >>= f) w Streaming := by
  obtain ⟨hcommitted, hanswers, -⟩ := hw
  simp only [Server.prepareSse, setHeaders, hcommitted, Code.when, post_bind, post_get,
    Bool.false_eq_true, if_false, post_pure, post_modify]
  refine post_connect_cases ?_ fun e ↦ ?_
  · exact hf _ ⟨hanswers, [], rfl⟩
  · cases e <;> rfl

theorem post_recover {e : Exn} (hw : Streaming (.error e : Except Exn Unit) w) :
    Post (recover floats env e) w Caught := by
  unfold recover
  rw [post_bind, post_wait]
  cases e with
  | socket => exact .inr hw
  | http => exact .inr hw
  | other text =>
    obtain ⟨hanswers, bytes, houtput⟩ := hw
    have hopened : Opened { w with clock := w.clock + 1 } := ⟨hanswers, bytes, houtput⟩
    simp only [post_bind, post_get, houtput]
    apply Post.mono
    · apply Opened.send
      exact ⟨hanswers, bytes, rfl⟩
    · exact fun _ _ h ↦ h.1

/-- What is closed after the `catch` clauses answers the request. -/
theorem post_closeOutput {result : Except Exn Unit} (hw : Caught result w) :
    Post (closeOutput env) w fun result' t ↦ Replied (after result result') t := by
  have hbroken (e : Connection) {t : Exchange F} (ht : t.faulted = true) :
      Replied (.error e.toExn : Except Exn Unit) t :=
    Final.replied ⟨.inl ht, fun text h ↦ e.toExn_ne text (Except.error.inj h)⟩
  simp only [closeOutput, post_bind, post_get]
  cases houtput : w.output with
  | none =>
    dsimp only
    rw [post_pure]
    rcases result with (_ | _ | _) | _
    · exact .inl hw
    · exact .inl hw
    · exact hw.elim
    · rcases hw with ⟨-, bytes, hbytes⟩ | hfaulted
      · rw [houtput] at hbytes
        cases hbytes
      · exact .inl hfaulted
  | some bytes =>
    dsimp only
    rw [post_bind]
    refine post_connect_cases ?_ fun e ↦ hbroken e rfl
    rcases result with (_ | _ | _) | _
    · exact .inl hw
    · exact .inl hw
    · exact hw.elim
    · rcases hw with ⟨hanswers, -⟩ | hfaulted
      · refine .inr ⟨.stream bytes, ?_⟩
        exact congrArg (· ++ [Answer.stream bytes]) hanswers
      · exact .inl hfaulted

/-- A stream is closed once, however its generation ends and whenever a shutdown begins. -/
theorem post_stream (hw : Fresh w) (kind : String) {opening : Text → H F Unit}
    (hopening : ∀ id, Writes (opening id)) (chunk : Text → Text → Value F) (stop : Text → Value F) :
    Post (stream floats env prompt params kind opening chunk stop) w Replied := by
  refine hw.nextId kind fun id t ht _ ↦ ht.call fun result t ht _ _ ↦ ?_
  cases result with
  | error failure => exact (post_writeFailure ht failure).mono fun _ _ ↦ Final.replied
  | ok session =>
    refine ht.session session (P := Caught) (fun t' ht' _ ↦ ?_) fun result t' ht' ↦ ?_
    · rw [post_tryCatch]
      refine (ht'.prepareSse ?_ : Post _ t' Streaming).mono fun result u hu ↦ ?_
      · refine .bind (hopening id) fun _ ↦ .bind (fun v hv ↦ hv) fun closing ↦ ?_
        cases closing with
        | true => exact .pure ()
        | false => exact writes_relay _ _ _
      · match result with
        | .ok _ => exact .inl hu
        | .error e => exact post_recover hu
    · have hcaught : Caught result { t' with
          clock := t'.clock + 1
          activeCancels := t'.activeCancels.filter (· ≠ session)
          disposed := session :: t'.disposed } := by
        match result with
        | .ok _ | .error .socket | .error .http | .error (.other _) => exact ht'
      simp only [release, post_bind, post_modify, post_wait]
      exact post_closeOutput hcaught

theorem post_streamChatCompletion (hw : Fresh w) :
    Post (streamChatCompletion floats config env prompt params) w Replied :=
  post_stream hw _ (fun _ ↦ writes_send _) _ _

theorem post_streamCompletion (hw : Fresh w) :
    Post (streamCompletion floats config env prompt params) w Replied :=
  post_stream hw _ (fun _ ↦ .pure ()) _ _

end Generations

section Dispatch

def hasPrompt (path : String) (body : Body) : Bool :=
  if path = chatPath then
    match body.lookup "messages" with
    | some (.arr messages) => (messagesFromRequest messages).isSome
    | _ => false
  else path = "/v1/completions" && (completionPrompt (body.lookup "prompt")).isSome

def Authorized (config : ServerConfig) (request : Request) : Prop :=
  ∀ apiKey, config.apiKey = some apiKey →
    apiKey.isEmpty = true ∨ request.authorization = ["Bearer " ++ apiKey]

theorem authorized_of (h : Authorized config request) :
    (authorized config request : H F Bool) = pure true := by
  unfold authorized
  cases hkey : config.apiKey with
  | none => rfl
  | some apiKey =>
    rcases h apiKey hkey with hempty | hvalue
    · exact if_pos hempty
    · by_cases hempty : apiKey.isEmpty = true
      · exact if_pos hempty
      · simp [hempty, hvalue, headerValue]

theorem post_authorized {Q : Except Exn Unit → Exchange F → Prop} {f : Bool → H F Unit}
    (htrue : Authorized config request → Post (f true) w Q) (hfalse : Post (f false) w Q)
    (hthrown : Q (.error .http) { w with faulted := true }) :
    Post (authorized config request >>= f) w Q := by
  unfold authorized
  split
  next hkey => exact htrue (by simp [Authorized, hkey])
  next apiKey hkey =>
    split_ifs with hempty
    · refine htrue fun key hsome ↦ .inl ?_
      rw [hkey] at hsome
      exact Option.some.inj hsome ▸ hempty
    · match hvalues : request.authorization with
      | [] => exact hfalse
      | [value] =>
        by_cases hvalue : value = "Bearer " ++ apiKey
        · have hauthorized :
            Authorized config request := by simp [Authorized, hkey, hvalues, hvalue]
          simpa [headerValue, hvalue, post_bind, post_pure] using htrue hauthorized
        · have hdenied : (value == "Bearer " ++ apiKey) = false := by simpa using hvalue
          simpa [headerValue, hdenied, post_bind, post_pure] using hfalse
      | _ :: _ :: _ => exact hthrown

/-- A request for a completion in one response that passes every check. -/
structure Whole (config : ServerConfig) (request : Request) (params : GenerationParams) : Prop where
  method : request.method = "POST"
  authorized : Authorized config request
  accepted : ∃ body, request.body = some (.obj body) ∧ requestModelMatches config body = true ∧
    singleChoiceOnly body = true ∧ hasPrompt request.path body = true ∧
    paramsFromRequest request.path body config.defaultParams = .ok params ∧ wantsStream body = false

/-- A shutdown has begun when the session of a whole completion is there: reading
the body and creating the session are two awaits. -/
def Dropped (config : ServerConfig) (env : Env) (request : Request) : Prop :=
  ∃ params session, Whole config request params ∧ env.session params = .ok session ∧
    env.closing 2 = true

theorem Fresh.readJsonObject {Q : Except Exn Unit → Exchange F → Prop} (hw : Fresh w)
    {f : Option Body → H F Unit}
    (hf : ∀ body t, request.body = some (.obj body) → Fresh t → t.clock = w.clock + 1 →
      Post (f (some body)) t Q) (hnone : ∀ t, Settled t → Post (f none) t Q)
    (herror : ∀ e t, Settled t → (∀ text, e ≠ .other text) → Q (.error e) t) :
    Post (readJsonObject env request >>= f) w Q := by
  have hrefused {t : Exchange F} (ht : Fresh t) : Post ((do
      writeError env 400 "invalid_request_error" "Request body must be a JSON object" none
      pure none) >>= f) t Q := by
    rw [post_bind, post_bind]
    refine (post_writeError ht _ _ _ _).mono fun result u ⟨hsettled, hthrown⟩ ↦ ?_
    cases result with
    | ok _ => exact hnone u hsettled
    | error e => exact herror e u hsettled fun text h ↦ hthrown text (h ▸ rfl)
  have hfresh : Fresh { w with clock := w.clock + 1 } := hw
  unfold Server.readJsonObject
  rw [post_bind, post_bind, post_wait]
  dsimp only
  rw [← post_bind]
  split
  next body hbody =>
    rw [post_bind]
    exact hf body _ hbody hfresh rfl
  next => exact hrefused hfresh

theorem post_checked (hw : Fresh w) {body : Body} {next : H F Unit}
    (hnext : requestModelMatches config body = true → singleChoiceOnly body = true →
      Post next w Replied) : Post (checked config env body next) w Replied := by
  unfold checked
  split
  next => exact (post_writeError hw _ _ _ _).mono fun _ _ ↦ Final.replied
  next hmodel =>
    split
    next => exact (post_writeError hw _ _ _ _).mono fun _ _ ↦ Final.replied
    next hsingle => exact hnext (by simpa using hmodel) (by simpa using hsingle)

theorem post_answered (hw : Fresh w) {body : Body} {streaming whole : GenerationParams → H F Unit}
    (hstreaming : ∀ params, Post (streaming params) w Replied)
    (hwhole : ∀ params, paramsFromRequest request.path body config.defaultParams = .ok params →
      wantsStream body = false → Post (whole params) w Replied) :
    Post (answered config env request body streaming whole) w Replied := by
  unfold answered
  split
  next => exact (post_writeError hw _ _ _ _).mono fun _ _ ↦ Final.replied
  next params hparams =>
    split
    next => exact hstreaming params
    next hstream => exact hwhole params hparams (by simpa using hstream)

variable (hmethod : request.method = "POST") (hauthorized : Authorized config request)
  (hclosing : ∀ params session, Whole config request params → env.session params = .ok session →
    env.closing (w.clock + 2) = false)

include hmethod hauthorized hclosing

theorem post_handleChatCompletions (hw : Fresh w) (hpath : request.path = chatPath) :
    Post (handleChatCompletions floats config env request) w Replied := by
  refine hw.readJsonObject (fun body t hbody ht hclock ↦ ?_) (fun t ht ↦ ht) fun e t ht he ↦ ?_
  · refine post_checked ht fun hmodel hsingle ↦ ?_
    have hwrite (status : ℕ) (code message : String) (param : Option String) :
        Post (writeError env status code message param) t Replied :=
      (post_writeError ht _ _ _ _).mono fun _ _ ↦ Final.replied
    split
    next messages hmessages =>
      split
      next => exact hwrite _ _ _ _
      next prompt hprompt =>
        refine post_answered ht
          (fun _ ↦ post_streamChatCompletion ht) fun params hparams hstream ↦ ?_
        refine post_complete ht (fun session hsession ↦ ?_) _ _
        have hhas : hasPrompt request.path body = true := by
          simp only [hasPrompt, if_pos hpath, hmessages, hprompt, Option.isSome_some]
        rw [hclock]
        exact hclosing params session
          ⟨hmethod, hauthorized, body, hbody, hmodel, hsingle, hhas, hparams, hstream⟩ hsession
    next => exact hwrite _ _ _ _
  · exact Final.replied ⟨ht, fun text h ↦ he text (Except.error.inj h)⟩

theorem post_handleCompletions (hw : Fresh w) (hpath : request.path = "/v1/completions") :
    Post (handleCompletions floats config env request) w Replied := by
  refine hw.readJsonObject (fun body t hbody ht hclock ↦ ?_) (fun t ht ↦ ht) fun e t ht he ↦ ?_
  · refine post_checked ht fun hmodel hsingle ↦ ?_
    split
    next => exact (post_writeError ht _ _ _ _).mono fun _ _ ↦ Final.replied
    next prompt hprompt =>
      refine post_answered ht (fun _ ↦ post_streamCompletion ht) fun params hparams hstream ↦ ?_
      refine post_complete ht (fun session hsession ↦ ?_) _ _
      have hhas : hasPrompt request.path body = true := by
        have hne : request.path ≠ chatPath := by
          rw [hpath]
          decide
        rw [hasPrompt, if_neg hne, hprompt]
        simp [hpath]
      rw [hclock]
      exact hclosing params session
        ⟨hmethod, hauthorized, body, hbody, hmodel, hsingle, hhas, hparams, hstream⟩ hsession
  · exact Final.replied ⟨ht, fun text h ↦ he text (Except.error.inj h)⟩

omit hmethod hauthorized in
theorem post_route (hw : Fresh w) (hauthorized : Authorized config request) :
    Post (route floats config env request) w Replied := by
  have hreplied {m : H F Unit} (h : Post m w Final) : Post m w Replied :=
    h.mono fun _ _ ↦ Final.replied
  unfold route
  split_ifs with hmodels hhealth hchat htext
  · exact hreplied (post_writeJson hw _)
  · exact hreplied (post_writeJson hw _)
  · exact post_handleChatCompletions hchat.1 hauthorized hclosing hw hchat.2
  · exact post_handleCompletions htext.1 hauthorized hclosing hw htext.2
  · exact hreplied (post_writeError hw _ _ _ _)

omit hmethod hauthorized in
theorem post_handle (hw : Fresh w) : Post (handle floats config env request) w Final := by
  unfold handle
  split_ifs with hoptions
  · simp only [setStatus, hw.1, Code.when, post_bind, post_get, Bool.false_eq_true, if_false,
      post_pure, post_modify]
    apply post_closeResponse
    exact hw.2.1
  apply post_authorized
  · intro hauthorized
    rw [if_neg (by decide), post_tryCatch]
    refine (post_route hclosing hw hauthorized).mono fun result t ht ↦ ?_
    have hsocket (text : String) :
      (.error .socket : Except Exn Unit) ≠ .error (.other text) := by simp
    have hhttp (text : String) : (.error .http : Except Exn Unit) ≠ .error (.other text) := by simp
    have hok (text : String) : (.ok () : Except Exn Unit) ≠ .error (.other text) := by simp
    rcases result with (_ | _ | text) | _
    · exact ⟨ht, hsocket⟩
    · exact ⟨ht, hhttp⟩
    · exact post_writeError ht _ _ _ _
    · exact ⟨ht, hok⟩
  · rw [if_pos (by decide)]
    exact post_writeError hw _ _ _ _
  · refine ⟨.inl rfl, fun text h ↦ ?_⟩
    cases h

omit hmethod hauthorized in
theorem post_serve (hw : Fresh w) (n : ℕ) :
    Post (serve floats config env request n) w fun result t ↦
      result = .ok () ∧ Settled t ∧ n ∉ t.requests := by
  have hstart :
    Post (handle floats config env request) { w with requests := n :: w.requests } Final :=
    post_handle (w := { w with requests := n :: w.requests }) hclosing hw
  rw [serve, post_bind, post_modify]
  dsimp only
  rw [post_tryFinally, serveRequest, post_tryCatch]
  refine hstart.mono fun result t ⟨hsettled, hthrown⟩ ↦ ?_
  have hdone (hsettled : Settled t) : Settled { t with requests := t.requests.filter (· ≠ n) } ∧
      n ∉ t.requests.filter (· ≠ n) := ⟨hsettled, by simp⟩
  match result with
  | .ok _ => exact ⟨rfl, hdone hsettled⟩
  | .error .socket | .error .http => exact ⟨rfl, hdone hsettled⟩
  | .error (.other text) => exact absurd rfl (hthrown text)

end Dispatch

section Shutdown

def Silent (result : Except Exn Unit) (w : Exchange F) : Prop :=
  result = .ok () ∧ w.answers = [] ∧ w.faulted = false

/-- A completion whose session is created during a shutdown returns without a response. -/
theorem silent_complete (hanswers : w.answers = []) (hfaulted : w.faulted = false) {session : ℕ}
    (hsession : env.session params = .ok session) (hclosing : env.closing (w.clock + 1) = true)
    (kind : String) (respond : Text → Text → Value F → Value F) :
    Post (complete env prompt params kind respond) w Silent := by
  simp only [complete, nextId, call, trackGeneration, release, isClosing, wait, hsession, hclosing,
    post_bind, post_modify, post_get, post_pure, post_tryFinally, if_true]
  exact ⟨rfl, hanswers, hfaulted⟩

theorem silent_answered (hanswers : w.answers = []) (hfaulted : w.faulted = false) {session : ℕ}
    (hsession : env.session params = .ok session) (hclosing : env.closing (w.clock + 1) = true)
    {body : Body} (hmodel : requestModelMatches config body = true)
    (hsingle : singleChoiceOnly body = true)
    (hparams : paramsFromRequest request.path body config.defaultParams = .ok params)
    (hstream : wantsStream body = false) (kind : String)
    (respond : Text → Text → Value F → Value F) (streaming : GenerationParams → H F Unit) :
    Post (checked config env body (answered config env request body streaming
      fun params ↦ complete env prompt params kind respond)) w Silent := by
  simp only [checked, hmodel, hsingle, answered, hparams, hstream, Bool.not_true,
    Bool.false_eq_true, if_false]
  exact silent_complete hanswers hfaulted hsession hclosing kind respond

theorem silent_route (hanswers : w.answers = []) (hfaulted : w.faulted = false)
    (hwhole : Whole config request params) {session : ℕ}
    (hsession : env.session params = .ok session) (hclosing : env.closing (w.clock + 2) = true) :
    Post (route floats config env request) w Silent := by
  obtain ⟨hmethod, -, body, hbody, hmodel, hsingle, hhas, hparams, hstream⟩ := hwhole
  unfold hasPrompt at hhas
  split_ifs at hhas with hpath
  · split at hhas
    next messages hmessages =>
      obtain ⟨prompt, hprompt⟩ := Option.isSome_iff_exists.mp hhas
      have hroute : route floats config env request =
          handleChatCompletions floats config env request := by
        rw [route, hmethod, hpath, if_neg (by decide), if_neg (by decide), if_pos ⟨rfl, rfl⟩]
      rw [hroute]
      simp only [handleChatCompletions, readJsonObject, wait, hbody, hmessages, hprompt, post_bind,
        post_modify, post_pure]
      exact silent_answered
        (w := { w with clock := w.clock + 1 }) hanswers hfaulted hsession hclosing
        hmodel hsingle hparams hstream _ _ _
    next => cases hhas
  · obtain ⟨htext, hprompt⟩ := Bool.and_eq_true_iff.mp hhas
    obtain ⟨prompt, hprompt⟩ := Option.isSome_iff_exists.mp hprompt
    have hroute :
      route floats config env request = handleCompletions floats config env request := by
      rw [route, hmethod, of_decide_eq_true htext, if_neg (by decide), if_neg (by decide),
        if_neg (by decide), if_pos ⟨rfl, rfl⟩]
    rw [hroute]
    simp only [handleCompletions, readJsonObject, wait, hbody, hprompt, post_bind, post_modify,
      post_pure]
    exact silent_answered (w := { w with clock := w.clock + 1 }) hanswers hfaulted hsession hclosing
      hmodel hsingle hparams hstream _ _ _

theorem silent_serve (hanswers : w.answers = []) (hfaulted : w.faulted = false)
    (hwhole : Whole config request params) {session : ℕ}
    (hsession : env.session params = .ok session) (hclosing : env.closing (w.clock + 2) = true)
    (n : ℕ) : Post (serve floats config env request n) w Silent := by
  have hnot : ¬ (config.enableCors = true ∧ request.method = "OPTIONS") := by
    rw [hwhole.method]
    exact fun h ↦ absurd h.2 (by decide)
  have hhandle : Post (handle floats config env request)
      { w with requests := n :: w.requests } Silent := by
    rw [handle, if_neg hnot, authorized_of hwhole.authorized, post_bind, post_pure]
    dsimp only
    rw [if_neg (by decide), post_tryCatch]
    refine Post.mono (silent_route (w := { w with requests := n :: w.requests }) hanswers hfaulted
      hwhole hsession hclosing) fun result t ht ↦ ?_
    obtain ⟨rfl, ht⟩ := ht
    exact ⟨rfl, ht⟩
  rw [serve, post_bind, post_modify]
  dsimp only
  rw [post_tryFinally, serveRequest, post_tryCatch]
  refine hhandle.mono fun result t ht ↦ ?_
  obtain ⟨rfl, ht⟩ := ht
  exact ⟨rfl, ht⟩

/-- What a request is owed: one answer, unless its connection broke or its headers
were refused, and nothing left of the sessions made for it or of the request itself. -/
structure Meets (n : ℕ) (w : Exchange F) : Prop where
  answered : w.faulted = false → ∃ a, w.answers = [a]
  tidy : w.ledger.Tidy
  gone : n ∉ w.requests

def arrived (counter : ℕ) (requests activeCancels : List ℕ) : Exchange F :=
  { idCounter := counter, requests := requests, activeCancels := activeCancels }

/-- Sessions are released whatever happens, and one response is sent except to a
request for a whole completion whose session is created while a shutdown has begun. -/
theorem answered_once_iff (counter : ℕ) (requests activeCancels : List ℕ) (n : ℕ) :
    Meets n (serve floats config env request n (arrived counter requests activeCancels)).2 ↔
      ¬ Dropped config env request := by
  constructor
  · intro ⟨hanswered, _, _⟩ ⟨params, session, hwhole, hsession, hclosing⟩
    obtain ⟨-, hnone, hfaulted⟩ := silent_serve (F := F)
      (w := arrived counter requests activeCancels) rfl rfl hwhole hsession hclosing n
    obtain ⟨a, ha⟩ := hanswered hfaulted
    rw [hnone] at ha
    cases ha
  · intro hdropped
    have hclosing (params : GenerationParams) (session : ℕ) (hwhole : Whole config request params)
        (hsession : env.session params = .ok session) : env.closing (0 + 2) = false := by
      by_contra hne
      exact hdropped ⟨params, session, hwhole, hsession, by simpa using hne⟩
    have hserve :
      Post (serve floats config env request n) (arrived counter requests activeCancels) _ :=
      post_serve hclosing ⟨rfl, rfl, rfl⟩ n
    obtain ⟨-, hsettled, hgone⟩ := hserve
    have htidy : (arrived counter requests activeCancels : Exchange F).ledger.Tidy :=
      fun s hs ↦ absurd hs (by simp [arrived, Exchange.ledger])
    refine ⟨fun hfaulted ↦ ?_, tidies_serve n _ htidy, hgone⟩
    rcases hsettled with hbroken | hanswered
    · rw [hfaulted] at hbroken
      cases hbroken
    · exact hanswered

def closedMeanwhile : Env where
  closing clock := 2 ≤ clock
  fault _ := none
  session _ := .ok 0
  generated _ := .ok []
  events _ := []
  streamError := none
  metrics := .ok (none, none)
  seconds := 0
  microseconds := 0
  printDouble _ := ""

def greeting : Request :=
  ⟨"POST", "/v1/completions", [], some (.obj [("prompt", .str "hello")])⟩

def zeroes : Floats Unit where
  print _ := ⟨false, 0, [0], none⟩
  parse _ := ()
  isFloat_print _ := rfl
  parse_print _ := rfl

/-- A text completion that a shutdown meets while its session is created is never answered. -/
theorem greeting_unanswered :
    ¬ Meets 0 (serve zeroes {} closedMeanwhile greeting 0 (arrived 0 [] [])).2 := by
  have hwhole : Whole {} greeting {} := ⟨rfl, by simp [Authorized], _, rfl, rfl, rfl, rfl, rfl, rfl⟩
  have hsilent : Post (serve zeroes {} closedMeanwhile greeting 0) (arrived 0 [] []) Silent :=
    silent_serve rfl rfl hwhole rfl rfl 0
  obtain ⟨-, hnone, hfaulted⟩ := hsilent
  intro ⟨hanswered, _, _⟩
  obtain ⟨a, ha⟩ := hanswered hfaulted
  rw [hnone] at ha
  cases ha

end Shutdown

end LibLitertLm.Server
