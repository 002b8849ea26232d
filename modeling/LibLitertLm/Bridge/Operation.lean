import LibLitertLm.Library.Machine
import Mathlib.Algebra.Group.Nat.Defs

namespace LibLitertLm.Bridge

def kMaxEvents : ℕ := 64

def kMaxBytes : ℕ := 1024 * 1024

/-- `size_t` arithmetic on the 64-bit target, which wraps. -/
def sizeAdd (a b : ℕ) : ℕ := (a + b) % 2 ^ 64

def sizeSub (a b : ℕ) : ℕ := if b ≤ a then a - b else a + 2 ^ 64 - b

/-- The bytes a `const char*` points to, up to its terminating NUL. -/
structure CString where
  bytes : List UInt8
  noNul : 0 ∉ bytes
deriving DecidableEq

def strnlen (s : CString) (max : ℕ) : ℕ := min s.bytes.length max

/-- `pointer && *pointer`: the string behind a pointer that is neither null
nor empty. -/
def nonEmpty (s : Option CString) : Option CString := s.filter (·.bytes ≠ [])

structure Chunk where
  text : Option CString
  error : Option CString
  final : Bool
deriving DecidableEq

/-- Kinds: 0=text, 1=complete, 2=native error, 3=cancelled, 4=backpressure. -/
structure Event where
  id : ℕ
  kind : ℕ
  text : List UInt8
deriving DecidableEq

structure Operation where
  queue : List Event := []
  bytes : ℕ := 0
  cancelled : Bool := false
  overflow : Bool := false
  final : Bool := false
  started : Bool := false
  terminalTaken : Bool := false
deriving DecidableEq

def ascii (s : String) : List UInt8 := s.toList.map fun c ↦ UInt8.ofNat c.toNat

def overflowText : List UInt8 :=
  ascii "Native event queue exceeded 64 payloads or 1 MiB; generation stopped"

def clear (op : Operation) : Operation := { op with queue := [], bytes := 0 }

def push (op : Operation) (id kind : ℕ) (text : List UInt8) : Operation :=
  { op with queue := op.queue ++ [⟨id, kind, text⟩], bytes := sizeAdd op.bytes text.length }

/-- What `Finish` queues once cancellation and overflow had their say. -/
def verdict (op : Operation) (kind : ℕ) (error : List UInt8) : Operation × ℕ × List UInt8 :=
  if op.cancelled then (clear op, 3, [])
  else if op.overflow then (clear op, 4, overflowText)
  else (op, kind, error)

/-- The end of `Finish`: cut an oversized error, and drop the queue when the
error needs its room. -/
def conclude (op : Operation) (id kind : ℕ) (error : List UInt8) : Operation :=
  let error := if kMaxBytes < error.length then error.take kMaxBytes else error
  let op := if sizeSub kMaxBytes error.length < op.bytes then clear op else op
  push op id kind error

def finish (op : Operation) (id kind : ℕ) (error : List UInt8) : Operation :=
  if op.final then op
  else
    let (op, kind, error) := verdict { op with final := true } kind error
    conclude op id kind error

/-- No room for a text chunk. One slot is reserved for the terminal event. -/
def full (op : Operation) (text : CString) : Bool :=
  kMaxEvents - 1 ≤ op.queue.length || sizeSub kMaxBytes op.bytes < strnlen text (kMaxBytes + 1)

def accept (op : Operation) (id : ℕ) (text : CString) : Operation :=
  if !op.cancelled && !op.overflow then
    if full op text then clear { op with overflow := true }
    else push op id 0 (text.bytes.take (strnlen text (kMaxBytes + 1)))
  else op

def callback (op : Operation) (id : ℕ) (chunk : Option Chunk) : Operation :=
  match chunk with
  | none => op
  | some chunk =>
    if op.final then op
    else match nonEmpty chunk.error with
      | some error =>
        let n := strnlen error (kMaxBytes + 1)
        finish op id 2 (error.bytes.take (if kMaxBytes < n then kMaxBytes else n))
      | none =>
        let op := match nonEmpty chunk.text with
          | some text => accept op id text
          | none => op
        if chunk.final then finish op id 1 [] else op

def start (op : Operation) : Operation × Bool :=
  if op.started then (op, false) else ({ op with started := true }, true)

def startFailed (op : Operation) (id : ℕ) (error : Option CString) : Operation :=
  finish op id 2 (match error with
    | some error => error.bytes.take (strnlen error kMaxBytes)
    | none => ascii "Native stream failed to start")

def operationCancel (op : Operation) (id : ℕ) : Operation :=
  if op.cancelled || op.terminalTaken then op
  else
    let op := clear { op with cancelled := true }
    if op.final then push op id 3 [] else op

def operationNeedsCancel (op : Operation) : Bool := op.overflow && !op.final

def operationIsFinal (op : Operation) : Bool := op.final

def operationTake (op : Operation) : Operation × Option Event :=
  match op.queue with
  | [] => (op, none)
  | event :: queue =>
    ({ op with
        queue := queue
        bytes := sizeSub op.bytes event.text.length
        terminalTaken := op.terminalTaken || event.kind != 0 }, some event)

/-- The bridge calls one operation receives, each atomic under its mutex. -/
inductive Call
  | start
  | startFailed (error : Option CString)
  | callback (chunk : Option Chunk)
  | cancel
  | take
deriving DecidableEq

def call (id : ℕ) (op : Operation) : Call → Operation × List Event
  | .start => ((start op).1, [])
  | .startFailed error => (startFailed op id error, [])
  | .callback chunk => (callback op id chunk, [])
  | .cancel => (operationCancel op id, [])
  | .take => ((operationTake op).1, (operationTake op).2.toList)

/-- One operation under an arbitrary interleaving of calls; its outputs are
the events handed out by `lrlm_operation_take`. -/
def operation (id : ℕ) : Machine Operation Call Event := ⟨{}, call id⟩

@[simp] theorem operation_init (id : ℕ) : (operation id).init = {} := rfl

@[simp] theorem operation_step (id : ℕ) : (operation id).step = call id := rfl

end LibLitertLm.Bridge
