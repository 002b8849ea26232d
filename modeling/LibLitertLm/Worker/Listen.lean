import LibLitertLm.Worker.Generation

namespace LibLitertLm.Worker

variable (rt : Runtime)

def noAnswers : PumpAnswers := ⟨[], [], [], 0, none, fun _ ↦ []⟩

def findOperation (streamId : Option ℕ) : M (Option ℕ) :=
  read fun s ↦ streamId.filter (· ∈ s.operations)

def disposeSession (id : ℕ) : M Unit := do
  let known ← read fun s ↦ s.sessions.contains id
  if known then
    modifySession id fun s ↦ { s with phase := .closing }
    let session ← read fun s ↦ s.session id
    let op ← findOperation session.streamId
    Code.onSome op fun stream ↦ cancel stream false
    deleteHandle id
    Code.onSome op fun stream ↦ finish rt stream 3 "" false noAnswers
    modifySession id fun s ↦ { s with phase := .closed }
    update fun s ↦ { s with sessions := s.sessions.filter (· ≠ id) }

def setEnginePhase (id : ℕ) (phase : HandlePhase) : M Unit :=
  update fun s ↦ { s with
    engines := s.engines.map fun e ↦ if e.1 = id then (e.1, { e.2 with phase := phase }) else e }

def disposeEngine (id : ℕ) : M Unit := do
  let engine ← read fun s ↦ s.engines.lookup id
  match engine with
  | none => pure ()
  | some engine =>
    setEnginePhase id .closing
    let ids ← read fun s ↦ s.sessions.filter fun r ↦ (s.session r).engineId = id
    Code.forEach ids fun r ↦ disposeSession rt r
    modifyNative (·.deleteEngine engine.pointer)
    setEnginePhase id .closed
    update fun s ↦ { s with engines := s.engines.filter fun e ↦ e.1 ≠ id }

def closeAll : M Unit := do
  update fun s ↦ { s with closing := true }
  let ids ← read fun s ↦ s.engines.map Prod.fst
  Code.forEach ids fun id ↦ disposeEngine rt id
  update fun s ↦ { s with timer := false }

structure TokenizeAnswers where
  text : Bool
  result : Bool
  tokens : List ℤ
  lastError : List UInt8

def isTokenizeResult : Resource → Bool := Resource.same .tokenizeResult

def tokenize (engine : NativeEngine) (a : TokenizeAnswers) : M (List ℤ) := do
  utf8 true a.text
  use (some engine.pointer) Resource.isEngine
  let tokens ← create a.result .tokenizeResult
  checkPointer tokens "Tokenizer failed" a.lastError
  tryFinally (do
      use tokens isTokenizeResult
      use tokens isTokenizeResult
      pure a.tokens)
    (delete tokens isTokenizeResult)

inductive Command
  | loadEngine (config : EngineConfig) (answers : LoadAnswers)
  | inspectModel (path : String) (answers : InspectAnswers)
  | engineInfo (engineId : ℕ)
  | createSession (engineId : ℕ) (params : GenerationParams) (messages : List ChatMessage)
      (conversation : Bool) (answers : OpenAnswers)
  | generate (stream sessionId : ℕ) (input : Input) (answers : GenerateAnswers)
  | credit (stream : ℕ)
  | cancelStream (stream : ℕ)
  | cancelSession (sessionId : ℕ)
  | disposeSession (sessionId : ℕ)
  | disposeEngine (engineId : ℕ)
  | budget (sessionId : ℕ) (messages : Input) (reserve : ℤ) (answers : BudgetAnswers)
  | tokenize (engineId : ℕ) (text : String) (answers : TokenizeAnswers)
  | metrics (sessionId : ℕ)
  | testCrash
  | close

/-- The value a command replies with, or nothing when it sends no reply itself. -/
def serve : Command → M (Option Value)
  | .loadEngine config a => do
    let id ← loadEngine config a
    pure (some (.id id))
  | .inspectModel path a => do
    let info ← inspect path a
    pure (some (.model info))
  | .engineInfo engineId => do
    let engine ← findEngine engineId
    pure (some (.engine engine.info))
  | .createSession engineId params initial conversation a => do
    let id ← createSession rt engineId params initial conversation a
    pure (some (.id id))
  | .generate stream sessionId input a => do
    generate rt stream sessionId input a
    pure none
  | .credit stream => do
    let known ← read fun s ↦ s.operations.contains stream
    Code.when known (modifyOp stream fun o ↦ { o with credit := true })
    pure none
  | .cancelStream stream => do
    let op ← findOperation (some stream)
    Code.onSome op fun stream ↦ cancel stream false
    pure none
  | .cancelSession sessionId => do
    let streamId ← read fun s ↦
      if sessionId ∈ s.sessions then (s.session sessionId).streamId else none
    let op ← findOperation streamId
    Code.onSome op fun stream ↦ cancel stream false
    pure (some .nothing)
  | .disposeSession sessionId => do
    disposeSession rt sessionId
    pure (some .nothing)
  | .disposeEngine engineId => do
    disposeEngine rt engineId
    pure (some .nothing)
  | .budget sessionId input reserve a => do
    let session ← findSession sessionId
    if session.streamId.isSome then fail (.busy "Session is generating")
    let messages ← messages rt input
    let result ← budget rt sessionId messages reserve a
    pure (some (.budget result))
  | .tokenize engineId _ a => do
    let engine ← findEngine engineId
    let tokens ← tokenize engine a
    pure (some (.tokens tokens))
  | .metrics sessionId => do
    let session ← findSession sessionId
    if session.streamId.isSome then
      fail (.busy "Metrics are available after native completion")
    pure (some (.metrics session.metrics))
  | .testCrash => do
    if !rt.testing then fail (.unsupported "Unknown command")
    update fun s ↦ { s with fatalExit := true }
    closeAll rt
    pure none
  | .close => do
    closeAll rt
    update fun s ↦ { s with commandsClosed := true }
    pure (some .nothing)

def Thrown.toFailure : Thrown → Failure
  | .failure f => f
  | .error e => .generationFailure ("Native operation failed: " ++ rt.describe e)

def listen (request : Option ℕ) (command : Command) : M Unit := do
  let deaf ← read fun s ↦ s.fatalExit || s.commandsClosed
  if !deaf then
    tryCatch (do
        let value ← serve rt command
        match value with
        | some value => if request.isSome then send (.reply request (.ok value))
        | none => pure ())
      fun e ↦
        match command with
        | .generate stream _ _ _ => event stream (.error (e.toFailure rt))
        | _ => send (.reply request (.error (e.toFailure rt)))

inductive Action
  | command (request : Option ℕ) (command : Command)
  | tick (answers : ℕ → PumpAnswers)
  | callback (callback : Callback)

def turn : Action → M Unit
  | .command request command => listen rt request command
  | .tick answers => do
    let timer ← read State.timer
    if timer then pump rt answers
  | .callback callback => callbacks [callback]

def step (w : NativeWorker) (a : Action) : NativeWorker := (turn rt a w).2

def run (actions : List Action) : NativeWorker := actions.foldl (step rt) {}

end LibLitertLm.Worker
