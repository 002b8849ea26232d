import LibLitertLm.Handles.Tree
import LibLitertLm.Library.Machine
import LibLitertLm.Types.Normalization
import Mathlib.Logic.Function.Basic

namespace LibLitertLm.Handles

inductive Kind
  | client
  | engine
  | session
  | conversation
deriving DecidableEq

structure Handle where
  number : ℕ
  parent : Path
  kind : Kind
  id : ℕ

def Handle.path (h : Handle) : Path := h.number :: h.parent

inductive Call
  | loadEngine (config : EngineConfig)
  | inspectModel (path : String)
  | createSession (engineId : ℕ) (params : GenerationParams)
  | createConversation (engineId : ℕ) (messages : List ChatMessage) (params : GenerationParams)
  | engineInfo (engineId : ℕ)
  | tokenize (engineId : ℕ) (text : String)
  | generate (sessionId : ℕ) (prompt : String)
  | generateStream (sessionId : ℕ) (prompt : String)
  | generateContent (sessionId : ℕ) (contents : List Content)
  | generateContentStream (sessionId : ℕ) (contents : List Content)
  | sendMessagesStream (conversationId : ℕ) (messages : List ChatMessage)
  | sessionMetrics (sessionId : ℕ)
  | conversationBudget (conversationId : ℕ) (messages : List ChatMessage) (outputReserve : ℤ)
  | cancelSession (sessionId : ℕ)
  | disposeSession (sessionId : ℕ)
  | disposeEngine (engineId : ℕ)
  | close

def Call.disposes : Call → Bool
  | .disposeSession _ | .disposeEngine _ | .close => true
  | _ => false

inductive Event
  | token (text : String)
  | completed (text : String)
  | failed (error : Failure)
  | cancelled (reason : Failure)

/-- What comes of a call; of a stream, the events that are taken from it. -/
inductive Reply
  | created (result : Except Failure ℕ)
  | text (result : Except Failure String)
  | data (result : Except Failure Json)
  | tokens (result : Except Failure (List ℤ))
  | events (events : List Event)
  | done
  | threw

def Call.allows : Call → Reply → Bool
  | .loadEngine _, .created _ | .createSession ..,
    .created _ | .createConversation .., .created _ =>
    true
  | .generate .., .text _ | .generateContent .., .text _ => true
  | .inspectModel _, .data _ | .engineInfo _, .data _ | .sessionMetrics _, .data _
  | .conversationBudget .., .data _ => true
  | .tokenize .., .tokens _ => true
  | .generateStream .., .events _ | .generateContentStream .., .events _
  | .sendMessagesStream .., .events _ => true
  | .cancelSession _, .done | .disposeSession _, .done | .disposeEngine _, .done | .close, .done =>
    true
  | _, .threw => true
  | _, _ => false

inductive Completion
  | handle (path : Path)
  | text (text : String)
  | data (value : Json)
  | tokens (tokens : List ℤ)
  | done
  | failed (error : Failure)
  | threw

def disposed : Failure := .disposed "LiteRT-LM handle or its parent has been disposed"

def unsupported : Failure := .unsupported "Backend does not support this operation"

section Validation

def argument : DartError → String
  | .argumentError message => message
  | _ => ""

def validateMessages (messages : List ChatMessage) : Except Failure Unit :=
  match messages.mapM (ChatMessage.toJson base64Encode) with
  | .ok _ => .ok ()
  | .error e => .error (.invalidArgument (argument e))

def normalize (contents : List Content) : Except Failure (List Content) :=
  match normalizeContents none contents with
  | .ok contents => .ok contents
  | .error e => .error (.invalidArgument (argument e))

def requireAdvanced (advanced : Bool) (call : Call) : Except Failure Call :=
  if advanced then .ok call else .error unsupported

end Validation

inductive Request
  | loadEngine (config : EngineConfig)
  | inspectModel (path : String)
  | createSession (params : GenerationParams)
  | createConversation (messages : List ChatMessage) (params : GenerationParams)
  | getInfo
  | tokenize (text : String)
  | generate (prompt : String)
  | generateStream (prompt : String)
  | generateContent (contents : List Content)
  | generateContentStream (contents : List Content)
  | sendMessagesStream (messages : List ChatMessage)
  | getMetrics
  | budget (messages : List ChatMessage) (outputReserve : ℤ)
  | cancel

namespace Request

def offeredBy : Request → Kind → Bool
  | .loadEngine _, .client | .inspectModel _, .client => true
  | .createSession _, .engine | .createConversation .., .engine | .getInfo, .engine
  | .tokenize _, .engine => true
  | .generate _, .session | .generateStream _, .session | .generateContent _, .session
  | .generateContentStream _, .session => true
  | .sendMessagesStream _, .conversation => true
  | .getMetrics, kind | .budget .., kind | .cancel, kind => kind = .session ∨ kind = .conversation
  | _, _ => false

def call (advanced : Bool) (id : ℕ) : Request → Except Failure Call
  | .loadEngine config => .ok (.loadEngine config)
  | .inspectModel path => requireAdvanced advanced (.inspectModel path)
  | .createSession params => .ok (.createSession id params)
  | .createConversation messages params => do
    validateMessages messages
    requireAdvanced advanced (.createConversation id messages params)
  | .getInfo => requireAdvanced advanced (.engineInfo id)
  | .tokenize text => requireAdvanced advanced (.tokenize id text)
  | .generate prompt => .ok (.generate id prompt)
  | .generateStream prompt => .ok (.generateStream id prompt)
  | .generateContent contents => do
    let contents ← normalize contents
    .ok (.generateContent id contents)
  | .generateContentStream contents => do
    let contents ← normalize contents
    .ok (.generateContentStream id contents)
  | .sendMessagesStream messages => do
    validateMessages messages
    requireAdvanced advanced (.sendMessagesStream id messages)
  | .getMetrics => requireAdvanced advanced (.sessionMetrics id)
  | .budget messages outputReserve =>
    if outputReserve < 0 then
      .error (.invalidArgument "outputReserve must be nonnegative")
    else do
      validateMessages messages
      requireAdvanced advanced (.conversationBudget id messages outputReserve)
  | .cancel => .ok (.cancelSession id)

def isStream : Request → Bool
  | .generateStream _ | .generateContentStream _ | .sendMessagesStream _ => true
  | _ => false

def creates : Request → Option Kind
  | .loadEngine _ => some .engine
  | .createSession _ => some .session
  | .createConversation .. => some .conversation
  | _ => none

/-- `cancel` has no result. -/
def refusal (error : Failure) : Request → Completion
  | .cancel => .done
  | _ => .failed error

end Request

/-- What an engine is asked through a session or a conversation of its own. -/
inductive Input
  | prompt (prompt : String)
  | contents (contents : List Content)
  | messages (messages : List ChatMessage)

def Input.creation (params : GenerationParams) : Input → Request
  | .prompt _ | .contents _ => .createSession params
  | .messages _ => .createConversation [] params

/-- A method of a handle. `send` and `sendStream` are `sendMessages` and
`sendMessagesStream` with one message; `ask` is `generate`, `generateContent` and
`generateMessages` of an engine. -/
inductive Operation
  | request (request : Request)
  | sendMessages (messages : List ChatMessage)
  | ask (input : Input) (params : GenerationParams)
  | dispose

def Operation.offeredBy : Operation → Kind → Bool
  | .request r, kind => r.offeredBy kind
  | .sendMessages _, kind => kind = .conversation
  | .ask .., kind => kind = .engine
  | .dispose, _ => true

/-- Where an `async` method is suspended: at the call of the backend, with or
without a handle to make of the reply; at the events of a stream; at the future of
another method, which creates a session or asks it; at a disposal; or nowhere. -/
inductive Status
  | creating (call : ℕ) (kind : Kind)
  | passing (call : ℕ)
  | collecting (source : Except Failure ℕ)
  | opening (task : ℕ) (input : Input)
  | asking (task : ℕ) (session : Handle)
  | releasing (future : ℕ) (result : Completion)
  | finished (result : Completion)

def Request.status (r : Request) : Except Failure ℕ → Status
  | .error error => .finished (r.refusal error)
  | .ok call =>
    match r.creates with
    | some kind => .creating call kind
    | none => .passing call

structure Task where
  path : Path
  operation : Operation
  status : Status

/-- Calls of the backend are numbered as they are made, with the handle they are
made for. Futures that `close` memoises are `Future.value` or the future of a call. -/
structure World where
  advanced : Bool
  handles : List Handle := []
  states : Path → HandleState := fun _ ↦ {}
  futures : List (Option ℕ) := []
  log : List (Path × Call) := []
  replies : ℕ → Option Reply := fun _ ↦ none
  tasks : List Task := []

/-- A call of a method gives the future of a task, the future of a disposal, or
a stream: one failure, or the stream of a call. -/
inductive Output
  | task (task : ℕ)
  | future (path : Path) (future : ℕ)
  | stream (path : Path) (source : Except Failure ℕ)

inductive Action
  | create
  | invoke (path : Path) (operation : Operation)
  | reply (call : ℕ) (reply : Reply)
  | resume (task : ℕ)

def Reply.completion : Reply → Completion
  | .text (.ok s) => .text s
  | .data (.ok value) => .data value
  | .tokens (.ok ids) => .tokens ids
  | .text (.error error) | .data (.error error) | .tokens (.error error)
  | .created (.error error) => .failed error
  | .done => .done
  | .created (.ok _) | .events _ | .threw => .threw

def collectEvents : List Event → Completion
  | [] => .failed (.generationFailure "Stream ended without completion")
  | .completed text :: _ => .text text
  | .failed error :: _ => .failed error
  | .cancelled reason :: _ => .failed reason
  | .token _ :: events => collectEvents events

def disposal (h : Handle) : Call :=
  match h.kind with
  | .client => .close
  | .engine => .disposeEngine h.id
  | .session | .conversation => .disposeSession h.id

namespace World

variable (w : World)

def find (path : Path) : Option Handle := w.handles.find? fun h ↦ h.path == path

def close (h : Handle) : World × ℕ :=
  match (w.states h.path).closing with
  | some future => (w, future)
  | none =>
    let parentClosed := closed w.states h.parent
    ({ w with
      states := Function.update w.states h.path ⟨true, some w.futures.length⟩
      futures := w.futures ++ [if parentClosed then none else some w.log.length]
      log := if parentClosed then w.log else w.log ++ [(h.path, disposal h)] },
    w.futures.length)

/-- The part of a method up to its call of the backend. -/
def begin (h : Handle) (request : Request) : World × Except Failure ℕ :=
  if closed w.states h.path then (w, .error disposed)
  else match request.call w.advanced h.id with
    | .error error => (w, .error error)
    | .ok call => ({ w with log := w.log ++ [(h.path, call)] }, .ok w.log.length)

def spawn (path : Path) (operation : Operation) (status : Status) : World × ℕ :=
  ({ w with tasks := w.tasks ++ [⟨path, operation, status⟩] }, w.tasks.length)

def settle (t : ℕ) (status : Status) : World :=
  { w with tasks := w.tasks.modify t fun task ↦ { task with status := status } }

def request (h : Handle) (request : Request) : World × ℕ :=
  let (w, source) := w.begin h request
  w.spawn h.path (.request request) (request.status source)

def sendMessages (h : Handle) (messages : List ChatMessage) : World × ℕ :=
  let (w, source) := w.begin h (.sendMessagesStream messages)
  w.spawn h.path (.sendMessages messages) (.collecting source)

def put (h : Handle) : Input → World × ℕ
  | .prompt prompt => w.request h (.generate prompt)
  | .contents contents => w.request h (.generateContent contents)
  | .messages messages => w.sendMessages h messages

def ask (h : Handle) (input : Input) (params : GenerationParams) : World × ℕ :=
  let (w, task) := w.request h (input.creation params)
  w.spawn h.path (.ask input params) (.opening task input)

def invoke (h : Handle) : Operation → World × Output
  | .request request =>
    if request.isStream then
      let (w, source) := w.begin h request
      (w, .stream h.path source)
    else
      let (w, task) := w.request h request
      (w, .task task)
  | .sendMessages messages =>
    let (w, task) := w.sendMessages h messages
    (w, .task task)
  | .ask input params =>
    let (w, task) := w.ask h input params
    (w, .task task)
  | .dispose =>
    let (w, future) := w.close h
    (w, .future h.path future)

/-- The rest of a method that creates a handle below `parent`. -/
def create (t : ℕ) (parent : Path) (kind : Kind) : Reply → World
  | .created result =>
    if closed w.states parent then w.settle t (.finished (.failed disposed))
    else match result with
      | .error error => w.settle t (.finished (.failed error))
      | .ok id =>
        let h : Handle := ⟨w.handles.length, parent, kind, id⟩
        let w : World := { w with handles := w.handles ++ [h] }
        w.settle t (.finished (.handle h.path))
  | _ => w.settle t (.finished .threw)

def result (t : ℕ) : Option Completion :=
  match w.tasks[t]? with
  | some ⟨_, _, .finished result⟩ => some result
  | _ => none

/-- Whether the future that `close` memoised has completed, and how. -/
def released (future : ℕ) : Option Reply :=
  match w.futures[future]? with
  | some (some call) => w.replies call
  | some none => some .done
  | none => none

def resume (t : ℕ) : World :=
  match w.tasks[t]? with
  | none => w
  | some task =>
    match task.status with
    | .creating call kind =>
      match w.replies call with
      | some reply => w.create t task.path kind reply
      | none => w
    | .passing call =>
      match w.replies call with
      | some reply => w.settle t (.finished reply.completion)
      | none => w
    | .collecting (.error error) => w.settle t (.finished (collectEvents [.failed error]))
    | .collecting (.ok call) =>
      match w.replies call with
      | some (.events events) => w.settle t (.finished (collectEvents events))
      | some _ => w.settle t (.finished .threw)
      | none => w
    | .opening task input =>
      match w.result task with
      | some (.handle path) =>
        match w.find path with
        | some session =>
          let (w, task) := w.put session input
          w.settle t (.asking task session)
        | none => w
      | some (.failed error) => w.settle t (.finished (.failed error))
      | some _ => w.settle t (.finished .threw)
      | none => w
    | .asking task session =>
      match w.result task with
      | some result =>
        let (w, future) := w.close session
        w.settle t (.releasing future result)
      | none => w
    | .releasing future result =>
      match w.released future with
      | some .threw => w.settle t (.finished .threw)
      | some _ => w.settle t (.finished result)
      | none => w
    | .finished _ => w

def step : Action → World × List Output
  | .create => ({ w with handles := w.handles ++ [⟨w.handles.length, [], .client, 0⟩] }, [])
  | .invoke path operation =>
    match w.find path with
    | some h =>
      if operation.offeredBy h.kind then
        let (w, output) := w.invoke h operation
        (w, [output])
      else (w, [])
    | none => (w, [])
  | .reply call reply =>
    match w.log[call]? with
    | some (_, made) =>
      if made.allows reply && (w.replies call).isNone then
        ({ w with replies := Function.update w.replies call (some reply) }, [])
      else (w, [])
    | none => (w, [])
  | .resume t => (w.resume t, [])

end World

def machine (advanced : Bool) : Machine World Action Output := ⟨{ advanced }, World.step⟩

end LibLitertLm.Handles
