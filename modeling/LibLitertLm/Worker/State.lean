import LibLitertLm.Bridge.Operation
import LibLitertLm.Library.Code
import LibLitertLm.Types.Message
import Mathlib.Logic.Function.Basic

namespace LibLitertLm.Worker

open Bridge (Operation Call Chunk CString)

/-- The parts of the Dart library that only matter through their results, and
whether the worker runs under test. -/
structure Runtime where
  testing : Bool
  jsonDecode : String → Option Json
  base64Encode : List UInt8 → String
  base64Decode : String → Option (List UInt8)
  describe : DartError → String

inductive Thrown
  | failure (failure : Failure)
  | error (error : DartError)
deriving DecidableEq

inductive HandlePhase
  | ready
  | generating
  | cancelRequested
  | closing
  | closed
deriving DecidableEq

structure ModelInfo where
  path : String
  artifactSha256 : String
  maxContextTokens : Option ℤ
  dynamicContext : Bool
  backends : List (String × List String)
  minimumRuntimeVersion : String
deriving DecidableEq

structure EngineInfo extends ModelInfo where
  requestedContextTokens : Option ℤ
  effectiveContextTokens : ℤ
  modelId : Option String
  revision : Option String
deriving DecidableEq

structure Metrics where
  backend : Option String := none
  effectiveContextTokens : Option ℤ := none
  contextUsedTokens : Option ℤ := none
  prefillTokens : Option ℤ := none
  decodeTokens : Option ℤ := none
deriving DecidableEq

structure Budget where
  contextTokens : ℤ
  usedTokens : ℤ
  inputTokens : ℤ
  outputReserve : ℤ
  requiredTokens : ℤ
  remainingTokens : ℤ
deriving DecidableEq

structure NativeEngine where
  pointer : ℕ
  config : EngineConfig
  info : EngineInfo
  phase : HandlePhase := .ready

/-- A `_NativeSession`; `initial` is the history it was created with. -/
structure NativeSession where
  engineId : ℕ
  params : GenerationParams
  conversation : Bool
  history : List Message
  initial : List Message
  nativePreface : List Message := []
  chat : Option ℕ := none
  raw : Option ℕ := none
  phase : HandlePhase := .ready
  streamId : Option ℕ := none
  prefillTurns : ℕ := 0
  decodeTurns : ℕ := 0
  metrics : Metrics := {}

structure Op where
  session : ℕ
  native : ℕ
  messages : List Message
  text : String := ""
  credit : Bool := true
  cancelRequested : Bool := false
  backpressure : Bool := false

/-- A native conversation: what it was created with, the sent messages and
replies of its completed sends, and the send under way. -/
structure Conversation where
  preface : List Message
  turns : List Message := []
  sending : Option (ℕ × Message) := none

inductive Resource
  | engine
  | conversation (engine : ℕ) (conversation : Conversation)
  | session (engine : ℕ)
  | engineSettings
  | sessionConfig
  | samplerParams
  | conversationConfig
  | loadedFile
  | event
  | inputData
  | tokenizeResult
  | benchmarkInfo

/-- The integers that setters of the native library receive. -/
inductive Setter
  | topK (value : ℤ)
  | seed (value : ℤ)
  | maxOutputTokens (value : ℤ)
  | maxNumTokens (value : ℤ)
  | prefillChunkSize (value : ℤ)
deriving DecidableEq

/-- The native side: objects behind pointers, which are never numbered twice,
and the operations of the bridge, with the calls each one has received. -/
structure Native where
  next : ℕ := 1
  live : ℕ → Option Resource := fun _ ↦ none
  misuse : Bool := false
  nextId : ℕ := 1
  registry : List ℕ := []
  operation : ℕ → Operation := fun _ ↦ {}
  calls : ℕ → List Call := fun _ ↦ []
  setters : List Setter := []

/-- The Dart objects of the worker and the native library under it. Sessions
are numbered from 1; number 0 is the temporary one of `_budget`. -/
structure State where
  engines : List (ℕ × NativeEngine) := []
  session : ℕ → NativeSession :=
    fun _ ↦ ⟨0, {}, false, [], [], [], none, none, .ready, none, 0, 0, {}⟩
  sessions : List ℕ := []
  op : ℕ → Op := fun _ ↦ ⟨0, 0, [], "", true, false, false⟩
  operations : List ℕ := []
  nextEngine : ℕ := 1
  nextSession : ℕ := 1
  timer : Bool := false
  closing : Bool := false
  fatalExit : Bool := false
  commandsClosed : Bool := false
  native : Native := {}

inductive Event
  | token (text : String)
  | complete (text : String)
  | cancelled
  | error (failure : Failure)
deriving DecidableEq

def Event.isToken : Event → Bool
  | .token _ => true
  | _ => false

inductive Value
  | nothing
  | id (n : ℕ)
  | model (info : ModelInfo)
  | engine (info : EngineInfo)
  | tokens (tokens : List ℤ)
  | budget (budget : Budget)
  | metrics (metrics : Metrics)

inductive Outgoing
  | reply (request : Option ℕ) (result : Except Failure Value)
  | event (stream : ℕ) (event : Event)

/-- The worker, with every message it has sent and the state it was sent in. -/
structure NativeWorker where
  state : State := {}
  sent : List (Outgoing × State) := []

abbrev M := Code NativeWorker Thrown

def update (f : State → State) : M Unit := Code.modify fun w ↦ { w with state := f w.state }

def read (f : State → α) : M α := (fun w ↦ f w.state) <$> Code.get

def send (message : Outgoing) : M Unit :=
  Code.modify fun w ↦ { w with sent := w.sent ++ [(message, w.state)] }

def fail (failure : Failure) : M α := throw (.failure failure)

def dart (r : Except DartError α) : M α :=
  Code.lift (match r with
    | .ok a => .ok a
    | .error e => .error (.error e))

/-- `_utf8`, whose allocation may fail. -/
def utf8 (needed allocated : Bool) : M Unit :=
  if needed && !allocated then throw (.error (.argumentError "Could not allocate")) else pure ()

def decode (bytes : List UInt8) : M String :=
  match utf8Decode (bytes.takeWhile (· ≠ 0)) with
  | some text => pure text
  | none => throw (.error .formatException)

def modifySession (r : ℕ) (f : NativeSession → NativeSession) : M Unit :=
  update fun s ↦ { s with session := Function.update s.session r (f (s.session r)) }

def modifyOp (stream : ℕ) (f : Op → Op) : M Unit :=
  update fun s ↦ { s with op := Function.update s.op stream (f (s.op stream)) }

def modifyNative (f : Native → Native) : M Unit :=
  update fun s ↦ { s with native := f s.native }

def Resource.isEngine : Resource → Bool
  | .engine => true
  | _ => false

def Resource.isConversation : Resource → Bool
  | .conversation _ _ => true
  | _ => false

def Resource.isSession : Resource → Bool
  | .session _ => true
  | _ => false

def Resource.ofEngine (pointer : ℕ) : Resource → Bool
  | .conversation owner _ | .session owner => owner == pointer
  | _ => false

def Resource.same : Resource → Resource → Bool
  | .engineSettings, .engineSettings | .sessionConfig, .sessionConfig
  | .samplerParams, .samplerParams | .conversationConfig, .conversationConfig
  | .loadedFile, .loadedFile | .event, .event | .inputData, .inputData
  | .tokenizeResult, .tokenizeResult | .benchmarkInfo, .benchmarkInfo => true
  | _, _ => false

def Native.create (n : Native) (resource : Resource) : Native :=
  { n with next := n.next + 1, live := Function.update n.live n.next (some resource) }

def Native.valid (n : Native) (pointer : Option ℕ) (kind : Resource → Bool) : Bool :=
  (pointer.bind n.live).any kind

def Native.use (n : Native) (pointer : Option ℕ) (kind : Resource → Bool) : Native :=
  { n with misuse := n.misuse || !n.valid pointer kind }

def Native.delete (n : Native) (pointer : Option ℕ) (kind : Resource → Bool) : Native :=
  { n.use pointer kind with
    live := match pointer with
      | some p => Function.update n.live p none
      | none => n.live }

/-- An engine may only go once no conversation or session of it is left. -/
def Native.deleteEngine (n : Native) (pointer : ℕ) : Native :=
  let orphans := (List.range n.next).any fun p ↦ (n.live p).any (Resource.ofEngine pointer)
  let n := n.delete (some pointer) Resource.isEngine
  { n with misuse := n.misuse || orphans }

def create (succeeds : Bool) (resource : Resource) : M (Option ℕ) :=
  if succeeds then do
    let pointer ← read fun s ↦ s.native.next
    modifyNative (·.create resource)
    pure (some pointer)
  else pure none

def use (pointer : Option ℕ) (kind : Resource → Bool) : M Unit := modifyNative (·.use pointer kind)

def delete (pointer : Option ℕ) (kind : Resource → Bool) : M Unit :=
  modifyNative (·.delete pointer kind)

/-- Dart's FFI passes the low 32 bits of an `int`. -/
def toInt32 (n : ℤ) : ℤ := n.bmod (2 ^ 32)

def set (pointer : Option ℕ) (kind : Resource → Bool) (setter : Setter) : M Unit :=
  modifyNative fun n ↦ { n.use pointer kind with setters := n.setters ++ [setter] }

/-- A bridge call on an operation, without effect once it has been deleted. -/
def Native.bridge (n : Native) (id : ℕ) (c : Call) : Native :=
  if id ∈ n.registry then
    { n with
      operation := Function.update n.operation id (Bridge.call id (n.operation id) c).1
      calls := Function.update n.calls id (n.calls id ++ [c]) }
  else n

/-- The effect of a callback on the native conversation that is sending: an
error ends the send, the final chunk completes it with a reply. -/
def Resource.callback (id : ℕ) (chunk : Chunk) (reply : Message) : Resource → Resource
  | .conversation owner c =>
    match c.sending with
    | some (id', message) =>
      if id' = id then
        if (Bridge.nonEmpty chunk.error).isSome then .conversation owner { c with sending := none }
        else if chunk.final then
          .conversation owner { c with turns := c.turns ++ [message, reply], sending := none }
        else .conversation owner c
      else .conversation owner c
    | none => .conversation owner c
  | resource => resource

/-- A chunk that the native producer hands to `Callback`, with the reply that
its conversation records when the chunk completes the send. -/
structure Callback where
  id : ℕ
  chunk : Option Chunk
  reply : Message

def Native.callback (n : Native) (c : Callback) : Native :=
  let n := n.bridge c.id (.callback c.chunk)
  match c.chunk with
  | some chunk => { n with live := fun p ↦ (n.live p).map (Resource.callback c.id chunk c.reply) }
  | none => n

/-- `lrlm_operation_create`, after other threads of the process took `skip` numbers. -/
def Native.operationId (n : Native) (skip : ℕ) : ℕ :=
  if n.nextId = 0 ∨ 2 ^ 64 ≤ n.nextId + skip then 0 else n.nextId + skip

def Native.operationCreate (n : Native) (skip : ℕ) : Native :=
  let id := n.operationId skip
  if id = 0 then { n with nextId := 0 }
  else
    { n with
      nextId := if id + 1 = 2 ^ 64 then 0 else id + 1
      registry := n.registry ++ [id]
      operation := Function.update n.operation id {}
      calls := Function.update n.calls id [] }

def Native.operationDelete (n : Native) (id : ℕ) : Native :=
  { n with registry := n.registry.filter (· ≠ id) }

end LibLitertLm.Worker
