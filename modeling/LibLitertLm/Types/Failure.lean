import LibLitertLm.Library.Regex

namespace LibLitertLm

inductive Failure
  | modelNotFound (message : String)
  | outOfMemory (message : String)
  | unsupportedModel (message : String)
  | nativeInitFailure (message : String)
  | generationFailure (message : String)
  | disposed (message : String)
  | cancelled (message : String)
  | busy (message : String)
  | invalidArgument (message : String)
  | unsupported (message : String)
  | workerFailure (message : String)
  | backpressure (message : String)
  | contextFull (requiredTokens availableTokens : Option ℤ) (message : String)
deriving DecidableEq

namespace Failure

def message : Failure → String
  | modelNotFound message | outOfMemory message | unsupportedModel message
  | nativeInitFailure message | generationFailure message | disposed message
  | cancelled message | busy message | invalidArgument message | unsupported message
  | workerFailure message | backpressure message | contextFull _ _ message => message

def code : Failure → String
  | modelNotFound _ => "model-not-found"
  | outOfMemory _ => "oom"
  | unsupportedModel _ => "unsupported-model"
  | nativeInitFailure _ => "native-init-failure"
  | generationFailure _ => "generation-failure"
  | disposed _ => "disposed"
  | cancelled _ => "cancelled"
  | busy _ => "busy"
  | invalidArgument _ => "invalid-argument"
  | unsupported _ => "unsupported"
  | workerFailure _ => "worker-failure"
  | backpressure _ => "backpressure"
  | contextFull .. => "context-full"

open Regex

def word (s : String) (r : Regex) : Regex :=
  s.toList.foldr (fun c ↦ seq (one (·.toLower == c))) r

def anything (r : Regex) : Regex :=
  seq (many true fun c ↦ c != '\n' && c != '\r' && c.toNat != 0x2028 && c.toNat != 0x2029) r

def nothing : Regex := many true fun _ ↦ false

def memoryPattern : Regex :=
  alt (word "bad_alloc" nothing)
    (alt (word "out of memory" nothing) (word "failed to allocate memory" nothing))

def contextPattern : Regex :=
  alt (word "max" (anything (word "tokens" (anything (word "exceed" nothing)))))
    (alt (word "context" (anything (alt (word "full" nothing) (word "exceed" nothing))))
      (word "input" (anything (word "tokens" (anything (word "exceed" nothing))))))

def startsWith (text start : String) : Bool := start.toList.isPrefixOf text.toList

def classify (text : String) : Failure :=
  if hasMatch memoryPattern text.toList then .outOfMemory text
  else if startsWith text "CANCELLED:" then .cancelled text
  else if hasMatch contextPattern text.toList then .contextFull none none text
  else if startsWith text "UNIMPLEMENTED:" then .unsupported text
  else if startsWith text "INVALID_ARGUMENT:" then .invalidArgument text
  else .generationFailure text

end Failure

end LibLitertLm
