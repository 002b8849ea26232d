import LibLitertLm.Library.Code
import LibLitertLm.Server.Requests
import LibLitertLm.Server.Sse

namespace LibLitertLm.Server

open Code JsonText

/-- What is thrown while a request is handled: a `SocketException`, an
`HttpException`, or anything else. -/
inductive Exn
  | socket
  | http
  | other (text : String)

inductive Connection
  | socket
  | http

def Connection.toExn : Connection → Exn
  | .socket => .socket
  | .http => .http

/-- An answer that a client gets whole: a response, or a detached socket. -/
inductive Answer (F : Type)
  | response (status : ℕ) (body : Option (Value F))
  | stream (bytes : List UInt8)

inductive StreamEvent
  | token (text : Text)
  | completed (text : Text)
  | failed (error : Failure)
  | cancelled

inductive Outcome (α : Type)
  | ok (a : α)
  | err (failure : Failure)
  | throws (text : String)

structure ServerConfig where
  modelId : String := "litert-lm-local"
  apiKey : Option String := none
  enableCors : Bool := true
  defaultParams : GenerationParams := {}

/-- A request; its body is none when it cannot be read as JSON, and `authorization`
has a value for each header of that name. -/
structure Request where
  method : String
  path : String
  authorization : List String
  body : Option Decoded

inductive Prompt
  | messages (messages : List ChatMessage)
  | text (text : String)

/-- What a request meets: after how many awaits `_closing` is set, which of the
awaits breaks the connection, and how the calls of the engine end. -/
structure Env where
  closing : ℕ → Bool
  fault : ℕ → Option Connection
  session : GenerationParams → Outcome ℕ
  generated : Prompt → Outcome Text
  events : Prompt → List StreamEvent
  streamError : Option String
  metrics : Outcome (Option ℤ × Option ℤ)
  seconds : ℤ
  microseconds : ℕ
  printDouble : Double → String

/-- The state of a request; the entries of other requests are left out. -/
structure Exchange (F : Type) where
  clock : ℕ := 0
  idCounter : ℕ := 0
  statusCode : ℕ := 200
  committed : Bool := false
  output : Option (List UInt8) := none
  answers : List (Answer F) := []
  activeCancels : List ℕ := []
  created : List ℕ := []
  disposed : List ℕ := []
  requests : List ℕ := []
  faulted : Bool := false

variable {F : Type}

abbrev H (F α : Type) := Code (Exchange F) Exn α

section Io

def wait : H F Unit := modify fun w ↦ { w with clock := w.clock + 1 }

variable (env : Env)

def connect : H F Unit := do
  let w ← get
  wait
  match env.fault w.clock with
  | none => pure ()
  | some e => do
    modify fun w ↦ { w with faulted := true }
    throw e.toExn

def isClosing : H F Bool := do
  let w ← get
  pure (env.closing w.clock)

def closeResponse (body : Option (Value F)) : H F Unit := do
  modify fun w ↦ { w with committed := true }
  connect env
  modify fun w ↦ { w with answers := w.answers ++ [.response w.statusCode body] }

/-- The status cannot be set any more once the headers are sent. -/
def setStatus (status : ℕ) : H F Unit := do
  let w ← get
  Code.when w.committed (throw (.other "Bad state: Header already sent"))
  modify fun w ↦ { w with statusCode := status }

def setHeaders : H F Unit := do
  let w ← get
  Code.when w.committed (throw .http)

def writeJson (value : Value F) : H F Unit := do
  setHeaders
  closeResponse env (some value)

def writeError (status : ℕ) (code message : String) (param : Option String) : H F Unit := do
  setStatus status
  writeJson env (errorObject (literal message) (literal code)
    (match param with
      | some param => string (literal param)
      | none => .null) (literal code))

def statusOf : Failure → ℕ
  | .modelNotFound _ => 404
  | .unsupportedModel _ => 400
  | .outOfMemory _ => 500
  | .disposed _ => 400
  | .cancelled _ => 400
  | .generationFailure _ => 500
  | .nativeInitFailure _ => 500
  | .busy _ => 409
  | .contextFull .. => 400
  | .invalidArgument _ => 400
  | .unsupported _ => 400
  | .workerFailure _ => 500
  | .backpressure _ => 503

/-- Only the error of a result gets here, so there always is one. -/
def writeFailure (failure : Failure) : H F Unit :=
  writeError env (statusOf failure) failure.code failure.message none

def prepareSse : H F Unit := do
  setHeaders
  modify fun w ↦ { w with committed := true }
  connect env
  modify fun w ↦ { w with output := some [] }

def send (bytes : List UInt8) : H F Unit := do
  modify fun w ↦ { w with output := w.output.map (· ++ bytes) }
  connect env

def closeOutput : H F Unit := do
  let w ← get
  match w.output with
  | none => pure ()
  | some bytes => do
    connect env
    modify fun w ↦ { w with answers := w.answers ++ [.stream bytes] }

end Io

section Generation

variable (floats : Floats F) (config : ServerConfig) (env : Env) (prompt : Prompt)
  (params : GenerationParams)

def nextId (kind : String) : H F Text := do
  modify fun w ↦ { w with idCounter := w.idCounter + 1 }
  let w ← get
  pure (literal (kind ++ "-" ++ toString env.microseconds ++ "-" ++ toString w.idCounter))

def call {α : Type} (outcome : Outcome α) : H F (Except Failure α) := do
  wait
  match outcome with
  | .ok a => pure (.ok a)
  | .err failure => pure (.error failure)
  | .throws text => throw (.other text)

def trackGeneration (session : ℕ) : H F Unit :=
  modify fun w ↦ { w with activeCancels := session :: w.activeCancels }

def release (session : ℕ) : H F Unit := do
  modify fun w ↦ { w with activeCancels := w.activeCancels.filter (· ≠ session) }
  wait
  modify fun w ↦ { w with disposed := session :: w.disposed }

def usage (metrics : Except Failure (Option ℤ × Option ℤ)) : Value F :=
  match metrics with
  | .ok (some promptTokens, some completionTokens) =>
    object [("prompt_tokens", .int promptTokens), ("completion_tokens", .int completionTokens),
      ("total_tokens", .int (toInt64 (promptTokens + completionTokens)))]
  | _ => .null

/-- `_completeChatCompletion` and `_completeTextCompletion`, up to the response. -/
def complete (kind : String) (respond : Text → Text → Value F → Value F) : H F Unit := do
  let id ← nextId env kind
  match ← call (env.session params) with
  | .error failure => writeFailure env failure
  | .ok session => do
    modify fun w ↦ { w with created := session :: w.created }
    trackGeneration session
    tryFinally (do
        if ← isClosing env then pure ()
        else match ← call (env.generated prompt) with
          | .error failure => writeFailure env failure
          | .ok text => do
            let metrics ← call env.metrics
            writeJson env (respond id text (usage metrics)))
      (release session)

def completeChatCompletion : H F Unit :=
  complete env prompt params "chatcmpl" fun id text usage ↦
    object [("id", string id), ("object", string (literal "chat.completion")),
      ("created", .int env.seconds), ("model", string (literal config.modelId)),
      ("choices", .arr [object [("index", .int 0),
        ("message", object [("role", string (literal "assistant")), ("content", string text)]),
        ("finish_reason", string (literal "stop"))]]),
      ("usage", usage)]

def completeTextCompletion : H F Unit :=
  complete env prompt params "cmpl" fun id text usage ↦
    object [("id", string id), ("object", string (literal "text_completion")),
      ("created", .int env.seconds), ("model", string (literal config.modelId)),
      ("choices", .arr [object [("text", string text), ("index", .int 0), ("logprobs", .null),
        ("finish_reason", string (literal "stop"))]]),
      ("usage", usage)]

def relay (chunk : Text → Value F) (stop : Value F) : List StreamEvent → H F Unit
  | [] => do
    wait
    match env.streamError with
    | some text => throw (.other text)
    | none => do
      send env (writeSse floats stop)
      send env writeSseDone
  | .token text :: events => do
    wait
    send env (writeSse floats (chunk text))
    relay chunk stop events
  | .completed _ :: _ => do
    wait
    send env (writeSse floats stop)
    send env writeSseDone
  | .failed error :: _ => do
    wait
    send env (writeSseError floats error)
  | .cancelled :: _ => do
    wait
    send env writeSseDone

/-- The `catch` clauses of the streaming handlers: each cancels the session. -/
def recover (e : Exn) : H F Unit := do
  wait
  match e with
  | .other text => do
    let w ← get
    match w.output with
    | none => throw (.other text)
    | some _ =>
      send env (writeSseError floats (.generationFailure ("Streaming request failed: " ++ text)))
  | _ => pure ()

/-- `_streamChatCompletion` and `_streamCompletion`, which differ in what they
send before the first event and in the shape of their chunks. -/
def stream (kind : String) (opening : Text → H F Unit) (chunk : Text → Text → Value F)
    (stop : Text → Value F) : H F Unit := do
  let id ← nextId env kind
  match ← call (env.session params) with
  | .error failure => writeFailure env failure
  | .ok session => do
    modify fun w ↦ { w with created := session :: w.created }
    trackGeneration session
    tryFinally
      (tryCatch (do
          prepareSse env
          opening id
          if ← isClosing env then pure ()
          else relay floats env (chunk id) (stop id) (env.events prompt))
        (recover floats env))
      (do
        release session
        closeOutput env)

def streamChatCompletion : H F Unit :=
  stream floats env prompt params "chatcmpl"
    (fun id ↦ send env (writeSse floats (chatChunk id env.seconds (literal config.modelId)
      [("role", string (literal "assistant"))])))
    (fun id text ↦ chatChunk id env.seconds (literal config.modelId) [("content", string text)])
    (fun id ↦ chatStopChunk id env.seconds (literal config.modelId))

def streamCompletion : H F Unit :=
  stream floats env prompt params "cmpl" (fun _ ↦ pure ())
    (fun id text ↦ completionChunk id env.seconds (literal config.modelId) text)
    (fun id ↦ completionStopChunk id env.seconds (literal config.modelId))

end Generation

section Dispatch

variable (floats : Floats F) (config : ServerConfig) (env : Env) (request : Request)

mutual

def display (printDouble : Double → String) : Decoded → String
  | .null => "null"
  | .bool b => toString b
  | .int n => toString n
  | .double x => printDouble x
  | .str s => s
  | .arr items => "[" ++ displayItems printDouble items ++ "]"
  | .obj fields => "\x7b" ++ displayFields printDouble fields ++ "\x7d"

def displayItems (printDouble : Double → String) : List Decoded → String
  | [] => ""
  | [v] => display printDouble v
  | v :: vs => display printDouble v ++ ", " ++ displayItems printDouble vs

def displayFields (printDouble : Double → String) : List (String × Decoded) → String
  | [] => ""
  | [(key, v)] => key ++ ": " ++ display printDouble v
  | (key, v) :: fields =>
    key ++ ": " ++ display printDouble v ++ ", " ++ displayFields printDouble fields

end

def readJsonObject : H F (Option Body) := do
  wait
  match request.body with
  | some (.obj body) => pure (some body)
  | _ => do
    writeError env 400 "invalid_request_error" "Request body must be a JSON object" none
    pure none

def requestModelMatches (body : Body) : Bool :=
  match body.lookup "model" with
  | none | some .null => true
  | some (.str model) => model == config.modelId
  | _ => false

def checked (body : Body) (next : H F Unit) : H F Unit :=
  if !requestModelMatches config body then
    writeError env 404 "model_not_found"
      ("Unknown model: " ++ display env.printDouble ((body.lookup "model").getD .null)) none
  else if !singleChoiceOnly body then
    writeError env 400 "invalid_request_error" "Only n=1 is supported" (some "n")
  else next

def wantsStream (body : Body) : Bool :=
  match body.lookup "stream" with
  | some (.bool b) => b
  | _ => false

def answered (body : Body) (streaming whole : GenerationParams → H F Unit) : H F Unit :=
  match paramsFromRequest request.path body config.defaultParams with
  | .error key =>
    writeError env 400 "invalid_request_error" ("Unsupported or invalid parameter: " ++ key)
      (some key)
  | .ok params => if wantsStream body then streaming params else whole params

def handleChatCompletions : H F Unit := do
  match ← readJsonObject env request with
  | none => pure ()
  | some body =>
    checked config env body <|
      match body.lookup "messages" with
      | some (.arr messages) =>
        match messagesFromRequest messages with
        | none =>
          writeError env 400 "invalid_request_error"
            "Messages require supported system/user/assistant roles and text content"
            (some "messages")
        | some prompt =>
          answered config env request body
            (streamChatCompletion floats config env (.messages prompt))
            (completeChatCompletion config env (.messages prompt))
      | _ =>
        writeError env 400 "invalid_request_error" "`messages` must be an array" (some "messages")

def handleCompletions : H F Unit := do
  match ← readJsonObject env request with
  | none => pure ()
  | some body =>
    checked config env body <|
      match completionPrompt (body.lookup "prompt") with
      | none =>
        writeError env 400 "invalid_request_error"
          "`prompt` must be a string or an array containing exactly one string" (some "prompt")
      | some prompt =>
        answered config env request body (streamCompletion floats config env (.text prompt))
          (completeTextCompletion config env (.text prompt))

def handleModels : H F Unit :=
  writeJson env (object [("object", string (literal "list")),
    ("data", .arr [object [("id", string (literal config.modelId)),
      ("object", string (literal "model")), ("created", .int env.seconds),
      ("owned_by", string (literal "local"))]])])

/-- `HttpHeaders.value`, to which a second value is an error of HTTP. -/
def headerValue : List String → H F (Option String)
  | [] => pure none
  | [value] => pure (some value)
  | _ => do
    modify fun w ↦ { w with faulted := true }
    throw .http

def authorized : H F Bool :=
  match config.apiKey with
  | none => pure true
  | some apiKey =>
    if apiKey.isEmpty then pure true
    else do
      let value ← headerValue request.authorization
      pure (value == some ("Bearer " ++ apiKey))

def route : H F Unit :=
  if request.method = "GET" ∧ request.path = "/v1/models" then handleModels config env
  else if request.method = "GET" ∧ request.path = "/health" then
    writeJson env (object [("status", string (literal "ok"))])
  else if request.method = "POST" ∧ request.path = chatPath then
    handleChatCompletions floats config env request
  else if request.method = "POST" ∧ request.path = "/v1/completions" then
    handleCompletions floats config env request
  else
    writeError env 404 "not_found"
      ("Unknown endpoint: " ++ request.method ++ " " ++ request.path) none

def handle : H F Unit :=
  if config.enableCors ∧ request.method = "OPTIONS" then do
    setStatus 204
    closeResponse env none
  else do
    if !(← authorized config request) then
      writeError env 401 "invalid_api_key" "Missing or invalid bearer token" none
    else
      tryCatch (route floats config env request) fun
        | .other text => writeError env 500 "server_error" text none
        | e => throw e

def serveRequest : H F Unit :=
  tryCatch (handle floats config env request) fun
    | .other text => throw (.other text)
    | _ => pure ()

def serve (n : ℕ) : H F Unit := do
  modify fun w ↦ { w with requests := n :: w.requests }
  tryFinally (serveRequest floats config env request)
    (modify fun w ↦ { w with requests := w.requests.filter (· ≠ n) })

end Dispatch

end LibLitertLm.Server
