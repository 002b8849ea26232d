import LibLitertLm.Worker.State

namespace LibLitertLm.Worker

def nativeError (lastError : List UInt8) (fallback : String) : M Failure := do
  let message ← decode lastError
  pure (Failure.classify (if message.isEmpty then fallback else message))

def checkPointer (pointer : Option ℕ) (action : String) (lastError : List UInt8) : M Unit := do
  if pointer.isNone then
    let failure ← nativeError lastError action
    fail failure

def findEngine (id : ℕ) : M NativeEngine := do
  let engine ← read fun s ↦ s.engines.lookup id
  match engine with
  | none => fail (.disposed "Engine is closed")
  | some engine =>
    if engine.phase ≠ .ready then fail (.disposed "Engine is closed") else pure engine

structure Supported where
  allocated : Bool
  values : List ℤ

structure InspectAnswers where
  exists? : Bool
  path : Bool
  file : Bool
  text : Supported
  vision : Supported
  audio : Supported
  maximum : ℤ
  hash : Option String
  dynamicContext : Bool
  minimumRuntimeVersion : List UInt8
  lastError : List UInt8

def backendName (value : ℤ) : String :=
  if value = 1 then "cpu" else if value = 2 then "gpu" else if value = 3 then "npu"
  else "unknown:" ++ toString value

def isLoadedFile : Resource → Bool := Resource.same .loadedFile

def supported (file : Option ℕ) (a : Supported) : M (List String) := do
  use file isLoadedFile
  if !a.allocated then throw (.error (.argumentError "Could not allocate"))
  use file isLoadedFile
  pure (a.values.map backendName)

def inspect (path : String) (a : InspectAnswers) : M ModelInfo := do
  if !a.exists? then fail (.modelNotFound ("Model not found: " ++ path))
  if !path.toLower.endsWith ".litertlm" then
    fail (.unsupportedModel "Expected a .litertlm file")
  utf8 true a.path
  let file ← create a.file .loadedFile
  checkPointer file "Cannot read model capabilities" a.lastError
  tryFinally (do
      let text ← supported file a.text
      let vision ← supported file a.vision
      let audio ← supported file a.audio
      use file isLoadedFile
      match a.hash with
      | none => throw (.error .fileSystemException)
      | some hash =>
        use file isLoadedFile
        let version ← decode a.minimumRuntimeVersion
        pure
          { path := path
            artifactSha256 := hash
            maxContextTokens := if 0 < a.maximum then some a.maximum else none
            dynamicContext := a.dynamicContext
            backends := [("text", text), ("vision", vision), ("audio", audio)]
            minimumRuntimeVersion := version })
    (delete file isLoadedFile)

structure LoadAnswers where
  inspect : InspectAnswers
  path : Bool
  backend : Bool
  vision : Bool
  audio : Bool
  cacheDir : Bool
  dispatchDir : Bool
  settings : Bool
  engine : Bool
  contextTokens : ℤ
  lastError : List UInt8

def checkArtifact (config : EngineConfig) (info : ModelInfo) : Except Thrown (ℤ × ℤ) := do
  if config.artifactSha256.any fun sha ↦ sha.toLower ≠ info.artifactSha256 then
    throw (.failure (.invalidArgument "Model SHA256 does not match the requested artifact"))
  match info.maxContextTokens with
  | none =>
    throw (.failure (.unsupportedModel "Artifact has no discoverable context capacity"))
  | some maximum =>
    let context := config.maxNumTokens.getD
      (if info.dynamicContext then (if maximum < 4096 then maximum else 4096) else maximum)
    if context ≤ 0 || maximum < context || (!info.dynamicContext && context ≠ maximum) then
      throw (.failure (.invalidArgument ("Requested context " ++ toString context ++
        "; artifact " ++ (if info.dynamicContext then "maximum" else "fixed context") ++
        " is " ++ toString maximum)))
    for (name, backend) in [("text", some config.backend), ("vision", config.visionBackend),
        ("audio", config.audioBackend)] do
      match backend with
      | none => pure ()
      | some backend =>
        if !((info.backends.lookup name).any fun names ↦ names.contains backend) then
          throw (.failure (.unsupported
            ("Artifact does not support " ++ name ++ " backend " ++ backend)))
    if config.prefillChunkSize.any fun size ↦
        size ≤ 0 || config.backend ≠ "cpu" || !info.dynamicContext then
      throw (.failure (.invalidArgument
        "prefillChunkSize requires a CPU dynamic-context artifact and a positive chunk size"))
    pure (maximum, context)

def isSettings : Resource → Bool := Resource.same .engineSettings

def loadEngine (config : EngineConfig) (a : LoadAnswers) : M ℕ := do
  let closing ← read State.closing
  if closing then fail (.disposed "Client is closing")
  let info ← inspect config.modelPath a.inspect
  let (maximum, context) ← Code.lift (checkArtifact config info)
  utf8 true a.path
  utf8 true a.backend
  utf8 config.visionBackend.isSome a.vision
  utf8 config.audioBackend.isSome a.audio
  let settings ← create a.settings .engineSettings
  checkPointer settings "Cannot create engine settings" a.lastError
  tryFinally (do
      set settings isSettings (.maxNumTokens (toInt32 context))
      use settings isSettings
      use settings isSettings
      Code.onSome config.prefillChunkSize fun size ↦
        set settings isSettings (.prefillChunkSize (toInt32 size))
      Code.when config.cacheDir.isSome do
        utf8 true a.cacheDir
        use settings isSettings
      Code.when config.litertDispatchLibDir.isSome do
        utf8 true a.dispatchDir
        use settings isSettings
      use settings isSettings
      let pointer ← create a.engine .engine
      checkPointer pointer "Engine creation failed" a.lastError
      match pointer with
      | none => throw (.error .typeError)
      | some pointer =>
        use (some pointer) Resource.isEngine
        if a.contextTokens ≤ 0 || maximum < a.contextTokens then
          modifyNative (·.deleteEngine pointer)
          fail (.nativeInitFailure "Native effective context is invalid")
        let id ← read State.nextEngine
        update fun s ↦ { s with
          nextEngine := id + 1
          engines := s.engines ++ [(id,
            { pointer := pointer
              config := config
              info :=
                { info with
                  requestedContextTokens := config.maxNumTokens
                  effectiveContextTokens := a.contextTokens
                  modelId := config.modelId
                  revision := config.revision } })] }
        pure id)
    (delete settings isSettings)

end LibLitertLm.Worker
