import LibLitertLm.Worker.Session

namespace LibLitertLm.Worker

open Bridge (Operation Call CString)

variable (rt : Runtime)

def event (stream : ℕ) (e : Event) : M Unit := do
  let fatalExit ← read State.fatalExit
  if !fatalExit then send (.event stream e)

def callbacks (cs : List Callback) : M Unit :=
  modifyNative fun n ↦ cs.foldl Native.callback n

def ask (id : ℕ) (f : Operation → Bool) : M Bool :=
  read fun s ↦ s.native.registry.contains id && f (s.native.operation id)

def bridge (id : ℕ) (c : Call) : M Unit := modifyNative (·.bridge id c)

/-- `lrlm_operation_take`, which returns null when nothing is queued. -/
def take (id : ℕ) : M (Option (ℕ × Bridge.Event)) := do
  let known ← read fun s ↦ s.native.registry.contains id
  let operation ← read fun s ↦ s.native.operation id
  bridge id .take
  match known, (Bridge.operationTake operation).2 with
  | true, some e =>
    let pointer ← create true .event
    pure (pointer.map fun p ↦ (p, e))
  | _, _ => pure none

def cancel (stream : ℕ) (overflow : Bool) : M Unit := do
  let op ← read fun s ↦ s.op stream
  if !op.cancelRequested then
    modifyOp stream fun o ↦ { o with cancelRequested := true, backpressure := overflow }
    modifySession op.session fun s ↦ { s with phase := .cancelRequested }
    Code.when (!overflow) (bridge op.native .cancel)
    let session ← read fun s ↦ s.session op.session
    useHandle session

structure Benchmark where
  prefill : List ℤ
  decode : List ℤ

structure PumpAnswers where
  beforeNeedsCancel : List Callback
  beforeIsFinal : List Callback
  beforeTake : List Callback
  tokenCount : ℤ
  benchmark : Option Benchmark
  history : List Message → List UInt8

def isBenchmark : Resource → Bool := Resource.same .benchmarkInfo

def metrics (r : ℕ) (a : PumpAnswers) : M Metrics := do
  let session ← read fun s ↦ s.session r
  let engine ← read fun s ↦ s.engines.lookup session.engineId
  match engine with
  | none => throw (.error .typeError)
  | some engine =>
    useHandle session
    let result : Metrics :=
      { backend := some engine.config.backend
        effectiveContextTokens := some engine.info.effectiveContextTokens
        contextUsedTokens := some a.tokenCount }
    useHandle session
    match a.benchmark with
    | none => pure result
    | some turns =>
      let info ← create true .benchmarkInfo
      tryFinally (do
          use info isBenchmark
          modifySession r fun s ↦
            { s with prefillTurns := turns.prefill.length, decodeTurns := turns.decode.length }
          pure
            { result with
              prefillTokens := if session.prefillTurns < turns.prefill.length
                then some (toInt64 (turns.prefill.drop session.prefillTurns).sum) else none
              decodeTokens := if session.decodeTurns < turns.decode.length
                then some (toInt64 (turns.decode.drop session.decodeTurns).sum) else none })
        (delete info isBenchmark)

/-- `addAll` on a lazy map, which appends up to the first element that is not a
`Map`. -/
def addAll (r : ℕ) (items : List Json) : M Unit :=
  Code.forEach items fun item ↦
    match item.asMap with
    | some message => modifySession r fun s ↦ { s with history := s.history ++ [message] }
    | none => throw (.error .typeError)

def Native.turns (n : Native) (pointer : Option ℕ) : List Message :=
  match pointer.bind n.live with
  | some (.conversation _ c) => c.turns
  | _ => []

def commitHistory (r : ℕ) (a : PumpAnswers) : M Unit := do
  let session ← read fun s ↦ s.session r
  use session.chat Resource.isConversation
  let turns ← read fun s ↦ s.native.turns session.chat
  let text ← decode (a.history turns)
  match rt.jsonDecode text with
  | none => throw (.error .formatException)
  | some (.arr items) =>
    modifySession r fun s ↦ { s with history := s.nativePreface }
    addAll r items
  | some _ => throw (.error .typeError)

def terminalEvent (op : Op) (kind : ℕ) (cancelled : Bool) (detail : String) : Event :=
  if op.backpressure || kind == 4 then
    .error (.backpressure (if detail.isEmpty then "Native event queue overflowed" else detail))
  else if cancelled then .cancelled
  else if kind == 1 then .complete op.text
  else .error (Failure.classify detail)

def settle (stream : ℕ) (e : Event) : M Unit := do
  let op ← read fun s ↦ s.op stream
  modifyNative (·.operationDelete op.native)
  update fun s ↦ { s with operations := s.operations.filter (· ≠ stream) }
  modifySession op.session fun s ↦
    { s with streamId := none, phase := if s.phase ≠ .closing then .ready else s.phase }
  event stream e

def finish (stream : ℕ) (kind : ℕ) (detail : String) (failureAfterStop : Bool)
    (a : PumpAnswers) : M Unit := do
  let known ← read fun s ↦ s.operations.contains stream
  if known then
    let op ← read fun s ↦ s.op stream
    let session ← read fun s ↦ s.session op.session
    let cancelled := !failureAfterStop && (op.cancelRequested || kind == 3)
    if cancelled || kind != 1 then deleteHandle op.session
    else
      let result ← metrics op.session a
      modifySession op.session fun s ↦ { s with metrics := result }
      Code.when session.conversation (commitHistory rt op.session a)
    settle stream (terminalEvent op kind cancelled detail)

def joinTexts : List Json → Except Thrown String
  | [] => .ok ""
  | .obj fields :: items =>
    if isStr (fields.lookup "type") "text" then
      match fields.lookup "text" with
      | some (.str text) => do
        let rest ← joinTexts items
        .ok (text ++ rest)
      | _ => .error (.error .typeError)
    else joinTexts items
  | _ :: items => joinTexts items

def chatText (text : String) : Except Thrown String :=
  match rt.jsonDecode text with
  | none => .error (.error .formatException)
  | some (.obj fields) =>
    match fields.lookup "content" with
    | some (.str content) => .ok content
    | some (.arr content) => joinTexts content
    | _ => .ok ""
  | some _ => .error (.error .typeError)

def isEvent : Resource → Bool := Resource.same .event

def deliver (stream : ℕ) (kind : ℕ) (text : String) (a : PumpAnswers) : M Unit := do
  if kind = 0 then
    let op ← read fun s ↦ s.op stream
    if !op.cancelRequested then
      let session ← read fun s ↦ s.session op.session
      let text ← if session.conversation then Code.lift (chatText rt text) else pure text
      if !text.isEmpty then
        modifyOp stream fun o ↦ { o with text := o.text ++ text }
        modifyOp stream fun o ↦ { o with credit := false }
        event stream (.token text)
  else finish rt stream kind text false a

def readEvent (native pointer : ℕ) (e : Bridge.Event) : M (Option String) :=
  tryFinally (do
      use (some pointer) isEvent
      if e.id ≠ native then pure none
      else
        use (some pointer) isEvent
        use (some pointer) isEvent
        let text ← decode e.text
        pure (some text))
    (delete (some pointer) isEvent)

def pumpEvent (stream native : ℕ) (a : PumpAnswers) : M Unit := do
  let payload ← take native
  match payload with
  | none => pure ()
  | some (pointer, e) =>
    let read ← readEvent native pointer e
    match read with
    | none => pure ()
    | some text => deliver rt stream e.kind text a

def pumpBody (stream : ℕ) (a : PumpAnswers) : M Unit := do
  let op ← read fun s ↦ s.op stream
  callbacks a.beforeNeedsCancel
  let overflow ← ask op.native Bridge.operationNeedsCancel
  Code.when overflow (cancel stream true)
  let op ← read fun s ↦ s.op stream
  let open? ←
    if !op.credit && !op.cancelRequested then do
      callbacks a.beforeIsFinal
      ask op.native Bridge.operationIsFinal
    else pure true
  if open? then
    callbacks a.beforeTake
    pumpEvent rt stream op.native a

def errorText : Thrown → String
  | .failure _ => "Instance of '_NativeError'"
  | .error error => rt.describe error

/-- One operation of `_pump`. A malformed event is a failure; the producer is
joined before the operation goes. -/
def pumpOne (a : PumpAnswers) (stream : ℕ) : M Unit :=
  tryCatch (pumpBody rt stream a) fun e ↦ do
    cancel stream false
    let op ← read fun s ↦ s.op stream
    deleteHandle op.session
    finish rt stream 2 ("Invalid native event: " ++ errorText rt e) true a

def pump (a : ℕ → PumpAnswers) : M Unit := do
  let streams ← read State.operations
  Code.forEach streams fun stream ↦ pumpOne rt (a stream) stream
  let operations ← read State.operations
  if operations.isEmpty then update fun s ↦ { s with timer := false }

structure GenerateAnswers where
  openAnswers : OpenAnswers
  budget : BudgetAnswers
  rebuild : OpenAnswers
  skip : ℕ
  message : Bool
  inputData : Bool
  array : Bool
  status : ℤ
  startError : Option CString
  lastError : List UInt8
  pump : ℕ → PumpAnswers

def Resource.send (id : ℕ) (message : Message) : Resource → Resource
  | .conversation owner c => .conversation owner { c with sending := some (id, message) }
  | resource => resource

def Native.send (n : Native) (pointer : Option ℕ) (id : ℕ) (message : Message) : Native :=
  { n with
    live := match pointer with
      | some p => Function.update n.live p ((n.live p).map (Resource.send id message))
      | none => n.live }

/-- `lrlm_operation_start_*`, on the pointer of the session or conversation. -/
def start (native : ℕ) (pointer : Option ℕ) (kind : Resource → Bool) (message : Message)
    (a : GenerateAnswers) : M Unit := do
  let known ← read fun s ↦ s.native.registry.contains native
  let operation ← read fun s ↦ s.native.operation native
  bridge native .start
  if known && (Bridge.start operation).2 then
    use pointer kind
    if a.status = 0 then modifyNative (·.send pointer native message)
    else bridge native (.startFailed a.startError)

def isInput : Resource → Bool := Resource.same .inputData

def request (session : NativeSession) (native : ℕ) (last : Message) (a : GenerateAnswers) :
    M Unit := do
  utf8 true a.message
  if session.conversation then start native session.chat Resource.isConversation last a
  else
    let input ← create a.inputData .inputData
    checkPointer input "Cannot create text input" a.lastError
    if !a.array then throw (.error (.argumentError "Could not allocate"))
    tryFinally (do
        use input isInput
        start native session.raw Resource.isSession last a)
      (delete input isInput)

def prepare (sessionId : ℕ) (input : Input) (a : GenerateAnswers) : M (List Message) := do
  let session ← findSession sessionId
  if session.streamId.isSome then
    fail (.busy "Only one generation may run per session")
  let engine ← findEngine session.engineId
  let messages ← messages rt input
  Code.lift (validateModalities rt engine messages true)
  ensureOpen sessionId engine a.openAnswers
  let budget ← budget rt sessionId messages session.params.maxTokens a.budget
  if budget.contextTokens < budget.requiredTokens then
    fail (.contextFull (some budget.requiredTokens) (some budget.contextTokens)
      ("Context needs " ++ toString budget.requiredTokens ++
        " tokens including output reserve; available " ++ toString budget.contextTokens))
  let session ← read fun s ↦ s.session sessionId
  Code.when (session.conversation && 1 < messages.length) do
    deleteHandle sessionId
    openSession sessionId engine (some (session.history ++ messages.dropLast)) a.rebuild
  pure messages

def launch (stream sessionId : ℕ) (messages : List Message) (a : GenerateAnswers) : M Unit := do
  let native ← read fun s ↦ s.native.operationId a.skip
  modifyNative (·.operationCreate a.skip)
  if native = 0 then fail (.generationFailure "Native operation IDs exhausted")
  modifyOp stream fun _ ↦ { session := sessionId, native := native, messages := messages }
  modifySession sessionId fun s ↦ { s with phase := .generating, streamId := some stream }
  update fun s ↦
    { s with operations :=
      if stream ∈ s.operations then s.operations else s.operations ++ [stream] }
  tryCatch (do
      let session ← read fun s ↦ s.session sessionId
      request session native (messages.getLast?.getD []) a)
    fun e ↦ do
      update fun s ↦ { s with operations := s.operations.filter (· ≠ stream) }
      modifySession sessionId fun s ↦ { s with streamId := none, phase := .ready }
      modifyNative (·.operationDelete native)
      throw e
  update fun s ↦ { s with timer := true }

def generate (stream sessionId : ℕ) (input : Input) (a : GenerateAnswers) : M Unit := do
  let messages ← prepare rt sessionId input a
  launch stream sessionId messages a
  pump rt a.pump

end LibLitertLm.Worker
