import LibLitertLm.Types.Value
import LibLitertLm.Types.Failure

namespace LibLitertLm

inductive Content
  | text (text : String)
  | image (bytes : List UInt8)
  | imageEnd
  | audio (bytes : List UInt8)
  | audioEnd
deriving DecidableEq

structure ChatMessage where
  role : String
  contents : List Content
deriving DecidableEq

structure GenerationParams where
  temperature : Double := .finite (4 / 5)
  topK : ℤ := 40
  maxTokens : ℤ := 256
  seed : Option ℤ := none
  applyPromptTemplate : Bool := true
deriving DecidableEq

structure EngineConfig where
  modelPath : String
  backend : String := "cpu"
  visionBackend : Option String := none
  audioBackend : Option String := none
  modelId : Option String := none
  artifactSha256 : Option String := none
  revision : Option String := none
  maxNumTokens : Option ℤ := none
  cacheDir : Option String := none
  litertDispatchLibDir : Option String := none
  prefillChunkSize : Option ℤ := none
  parallelFileSectionLoading : Bool := true
deriving DecidableEq

/-- An end marker follows the modality it closes. -/
def closes (previous : Option Content) : Content → Bool
  | .imageEnd => match previous with
    | some (.image _) => true
    | _ => false
  | .audioEnd => match previous with
    | some (.audio _) => true
    | _ => false
  | _ => true

def isEnd : Content → Bool
  | .imageEnd | .audioEnd => true
  | _ => false

inductive DartError
  | argumentError (message : String)
  | stateError (message : String)
  | formatException
  | typeError
  | fileSystemException
deriving DecidableEq

/-- Drops end markers, which may only stand right behind what they close. -/
def normalizeContents (previous : Option Content) :
    List Content → Except DartError (List Content)
  | [] => .ok []
  | content :: contents =>
    if closes previous content then do
      let rest ← normalizeContents (some content) contents
      .ok (if isEnd content then rest else content :: rest)
    else
      .error (.argumentError "End marker must immediately follow matching image/audio content")

def contentToJson (base64Encode : List UInt8 → String) : Content → Except DartError Json
  | .text text => .ok (.obj [("type", .str "text"), ("text", .str text)])
  | .image bytes => .ok (.obj [("type", .str "image"), ("blob", .str (base64Encode bytes))])
  | .audio bytes => .ok (.obj [("type", .str "audio"), ("blob", .str (base64Encode bytes))])
  | .imageEnd | .audioEnd => .error (.stateError "Unnormalized end marker")

def ChatMessage.toJson (base64Encode : List UInt8 → String) (message : ChatMessage) :
    Except DartError Message :=
  if ["system", "user", "assistant"].contains message.role then do
    let contents ← normalizeContents none message.contents
    let items ← contents.mapM (contentToJson base64Encode)
    .ok [("role", .str message.role), ("content", .arr items)]
  else .error (.argumentError ("Unsupported message role: " ++ message.role))

end LibLitertLm
