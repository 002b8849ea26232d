import LibLitertLm.Worker.Engine

namespace LibLitertLm.Worker

def findSession (id : ℕ) : M NativeSession := do
  let known ← read fun s ↦ s.sessions.contains id
  let session ← read fun s ↦ s.session id
  if !known || session.phase = .closing || session.phase = .closed then
    fail (.disposed "Session is closed")
  pure session

structure OpenAnswers where
  config : Bool
  sampler : Bool
  chatConfig : Bool
  preface : Bool
  handle : Bool
  lastError : List UInt8

def isConfig : Resource → Bool := Resource.same .sessionConfig

def isSampler : Resource → Bool := Resource.same .samplerParams

def isChatConfig : Resource → Bool := Resource.same .conversationConfig

def openConversation (r : ℕ) (engine : NativeEngine) (config : Option ℕ) (a : OpenAnswers) :
    M Unit := do
  let session ← read fun s ↦ s.session r
  let chatConfig ← create a.chatConfig .conversationConfig
  checkPointer chatConfig "Cannot create Conversation settings" a.lastError
  tryFinally (do
      use chatConfig isChatConfig
      use config isConfig
      use chatConfig isChatConfig
      Code.when (!session.nativePreface.isEmpty) do
        utf8 true a.preface
        use chatConfig isChatConfig
      use (some engine.pointer) Resource.isEngine
      use chatConfig isChatConfig
      let chat ← create a.handle (.conversation engine.pointer { preface := session.nativePreface })
      modifySession r fun s ↦ { s with chat := chat }
      checkPointer chat "Conversation creation failed" a.lastError)
    (delete chatConfig isChatConfig)

def openRaw (r : ℕ) (engine : NativeEngine) (config : Option ℕ) (a : OpenAnswers) : M Unit := do
  use (some engine.pointer) Resource.isEngine
  use config isConfig
  let raw ← create a.handle (.session engine.pointer)
  modifySession r fun s ↦ { s with raw := raw }
  checkPointer raw "Session creation failed" a.lastError

def openSession (r : ℕ) (engine : NativeEngine) (preface : Option (List Message))
    (a : OpenAnswers) : M Unit := do
  modifySession r fun s ↦
    { s with prefillTurns := 0, decodeTurns := 0, nativePreface := preface.getD s.history }
  let session ← read fun s ↦ s.session r
  let config ← create a.config .sessionConfig
  checkPointer config "Cannot create session settings" a.lastError
  let sampler ← create a.sampler .samplerParams
  tryFinally (do
      checkPointer sampler "Cannot create sampler settings" a.lastError
      set sampler isSampler (.topK (toInt32 session.params.topK))
      use sampler isSampler
      use sampler isSampler
      set sampler isSampler (.seed (toInt32 (session.params.seed.getD 0)))
      use config isConfig
      use sampler isSampler
      set config isConfig (.maxOutputTokens (toInt32 session.params.maxTokens))
      use config isConfig
      if session.conversation then openConversation r engine config a
      else openRaw r engine config a)
    (do
      Code.when sampler.isSome (delete sampler isSampler)
      delete config isConfig)

def deleteHandle (r : ℕ) : M Unit := do
  let session ← read fun s ↦ s.session r
  Code.when session.chat.isSome do
    delete session.chat Resource.isConversation
    modifySession r fun s ↦ { s with chat := none }
  Code.when session.raw.isSome do
    delete session.raw Resource.isSession
    modifySession r fun s ↦ { s with raw := none }

def useHandle (session : NativeSession) : M Unit :=
  if session.conversation then use session.chat Resource.isConversation
  else use session.raw Resource.isSession

inductive Input
  | messages (messages : List ChatMessage)
  | contents (contents : List Content)

variable (rt : Runtime)

def messages (input : Input) : M (List Message) :=
  dart (match input with
    | .messages messages => messages.mapM (ChatMessage.toJson rt.base64Encode)
    | .contents contents => do
      let message ← ChatMessage.toJson rt.base64Encode ⟨"user", contents⟩
      .ok [message])

def isStr (value : Option Json) (s : String) : Bool :=
  match value with
  | some (.str s') => s' == s
  | _ => false

def isPng (bytes : List UInt8) : Bool :=
  8 ≤ bytes.length && bytes.head? == some 137 && (bytes.drop 1).take 3 == [80, 78, 71]

def isJpeg (bytes : List UInt8) : Bool := bytes.take 3 == [255, 216, 255]

def isWav (bytes : List UInt8) : Bool :=
  44 ≤ bytes.length && bytes.take 4 == [82, 73, 70, 70] &&
    (bytes.drop 8).take 4 == [87, 65, 86, 69]

def validateItem (engine : NativeEngine) : Json → Except Thrown Unit
  | .obj fields => do
    let image := isStr (fields.lookup "type") "image"
    let audio := isStr (fields.lookup "type") "audio"
    if (image && engine.config.visionBackend.isNone) ||
        (audio && engine.config.audioBackend.isNone) then
      throw (.failure (.unsupported ((if image then "image" else "audio") ++
        " encoder is not enabled; configure its backend when loading the engine")))
    if image || audio then
      match fields.lookup "blob" with
      | some (.str blob) =>
        match rt.base64Decode blob with
        | none => throw (.error .formatException)
        | some bytes =>
          if bytes.isEmpty || 32 * 1024 * 1024 < bytes.length then
            throw (.failure (.invalidArgument
              "Media must contain 1..32 MiB of encoded file data"))
          if (image && !isPng bytes && !isJpeg bytes) || (audio && !isWav bytes) then
            throw (.failure (.invalidArgument (if image
              then "Image must be an encoded PNG or JPEG file"
              else "Audio must be an encoded WAV file")))
      | _ => throw (.error .typeError)
  | _ => throw (.error .typeError)

def content (message : Message) : Except Thrown (List Json) :=
  match message.lookup "content" with
  | some (.arr items) => .ok items
  | _ => .error (.error .typeError)

def validateModalities (engine : NativeEngine) (messages : List Message) (generation : Bool) :
    Except Thrown Unit := do
  if generation && !(messages.getLast?.any fun message ↦ isStr (message.lookup "role") "user") then
    throw (.failure (.invalidArgument "A generation must end with a user message"))
  for message in messages do
    let items ← content message
    for item in items do
      validateItem rt engine item

def newSession (r : ℕ) (session : NativeSession) : M Unit := modifySession r fun _ ↦ session

def createSession (engineId : ℕ) (params : GenerationParams) (initial : List ChatMessage)
    (conversation : Bool) (a : OpenAnswers) : M ℕ := do
  let engine ← findEngine engineId
  if !params.temperature.isFinite || params.temperature.isNegative || params.topK ≤ 0 ||
      params.maxTokens ≤ 0 then
    fail (.invalidArgument "Invalid generation parameters")
  let history ← messages rt (.messages initial)
  let r ← read State.nextSession
  newSession r
    { engineId := engineId
      params := params
      conversation := conversation || params.applyPromptTemplate
      history := history
      initial := history }
  Code.lift (validateModalities rt engine history false)
  openSession r engine none a
  update fun s ↦ { s with nextSession := r + 1, sessions := s.sessions ++ [r] }
  pure r

structure BudgetAnswers where
  preview : OpenAnswers
  openAnswers : OpenAnswers
  used : ℤ
  input : Bool
  inputTokens : ℤ
  lastError : List UInt8
  budgetError : List UInt8

def textOnly (messages : List Message) : Except Thrown Unit := do
  for message in messages do
    let items ← content message
    for item in items do
      match item with
      | .obj fields =>
        if !isStr (fields.lookup "type") "text" then
          throw (.failure (.unsupported "Raw Session accepts text; use Conversation for media"))
      | _ => throw (.error .typeError)

def budgetChecks (r : ℕ) (messages : List Message) (reserve : ℤ) : M NativeEngine := do
  if reserve < 0 then fail (.invalidArgument "Output reserve cannot be negative")
  let session ← read fun s ↦ s.session r
  let engine ← findEngine session.engineId
  Code.when (!messages.isEmpty) (Code.lift (validateModalities rt engine messages true))
  Code.when (!session.conversation) (Code.lift (textOnly messages))
  pure engine

/-- A session whose handle was deleted is opened again. -/
def ensureOpen (r : ℕ) (engine : NativeEngine) (a : OpenAnswers) : M Unit := do
  let session ← read fun s ↦ s.session r
  Code.when (session.chat.isNone && session.raw.isNone) (openSession r engine none a)

def query (r : ℕ) (engine : NativeEngine) (messages : List Message) (reserve : ℤ)
    (a : BudgetAnswers) : M Budget := do
  let session ← read fun s ↦ s.session r
  useHandle session
  Code.when (a.used < 0) do
    if session.conversation then
      let failure ← nativeError a.lastError "Cannot query context use"
      fail failure
    else
      let message ← decode a.budgetError
      fail (Failure.classify message)
  Code.when (!messages.isEmpty) do
    utf8 true a.input
    use (some engine.pointer) Resource.isEngine
    useHandle session
  let input := if messages.isEmpty then 0 else a.inputTokens
  Code.when (input < 0) do
    let message ← decode a.budgetError
    fail (Failure.classify message)
  let context := engine.info.effectiveContextTokens
  let required := toInt64 (toInt64 (a.used + input) + reserve)
  pure
    { contextTokens := context
      usedTokens := a.used
      inputTokens := input
      outputReserve := reserve
      requiredTokens := required
      remainingTokens := toInt64 (context - required) }

def budgetQuery (r : ℕ) (engine : NativeEngine) (messages : List Message) (reserve : ℤ)
    (a : BudgetAnswers) : M Budget := do
  ensureOpen r engine a.openAnswers
  query r engine messages reserve a

/-- `_budget`; its call on the preview of a batch, which has one message left,
is written out. -/
def budget (r : ℕ) (messages : List Message) (reserve : ℤ) (a : BudgetAnswers) : M Budget := do
  let engine ← budgetChecks rt r messages reserve
  let session ← read fun s ↦ s.session r
  match messages.getLast? with
  | some last =>
    if session.conversation && 1 < messages.length then
      newSession 0
        { engineId := session.engineId
          params := session.params
          conversation := true
          history := session.history ++ messages.dropLast
          initial := session.history ++ messages.dropLast }
      openSession 0 engine none a.preview
      tryFinally (do
          let engine ← budgetChecks rt 0 [last] reserve
          budgetQuery 0 engine [last] reserve a)
        (deleteHandle 0)
    else budgetQuery r engine messages reserve a
  | none => budgetQuery r engine messages reserve a

end LibLitertLm.Worker
