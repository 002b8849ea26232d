import LibLitertLm.Handles.Calls
import LibLitertLm.Library.StreamController
import LibLitertLm.Library.System
import LibLitertLm.Worker.Session

namespace LibLitertLm.Backend

open Handles (Event)
open Worker (Input Outgoing Value)

inductive Request
  | loadEngine (config : EngineConfig)
  | createSession (engineId : ℕ) (params : GenerationParams) (messages : List ChatMessage)
      (conversation : Bool)
  | inspectModel (path : String)
  | engineInfo (engineId : ℕ)
  | tokenize (engineId : ℕ) (text : String)
  | budget (sessionId : ℕ) (messages : List ChatMessage) (reserve : ℤ)
  | metrics (sessionId : ℕ)
  | cancelSession (sessionId : ℕ)
  | disposeSession (sessionId : ℕ)
  | disposeEngine (engineId : ℕ)

/-- `cancelSession` and the disposals return at once when the backend closes. -/
def Request.yields : Request → Bool
  | .cancelSession _ | .disposeSession _ | .disposeEngine _ => true
  | _ => false

inductive Posted
  | request (id : ℕ) (request : Request)
  | close (id : ℕ)
  | generate (stream sessionId : ℕ) (input : Input)
  | credit (stream : ℕ)
  | cancelStream (stream : ℕ)
  | testCrash

/-- A `_Consumer`; `done` is how often its completer was completed. -/
structure Consumer where
  controller : StreamController Event := {}
  done : ℕ := 0
  cancelled : Bool := false
  finished : Bool := false

/-- What is left to do when the listener of a stream returns: the rest of
`_receive`, of the loop of `_workerEnded` or of a delayed delivery. -/
inductive Frame
  | receiving (stream : ℕ) (terminal : Bool)
  | ending (failure : Failure) (stream : ℕ) (rest : List ℕ)
  | dispatching (stream : ℕ)

/-- `_close` awaits its request, or it has returned before its first `await`: its
future is completed by a microtask then. -/
inductive CloseFuture
  | awaiting (request : ℕ)
  | returned
  | completed
deriving DecidableEq

/-- A `NativeLiteRtLmBackend` after startup. The completer of a request has
been completed with each of its `results`; a stream has the arguments that it
sends when it is listened to. -/
structure Isolate where
  nextId : ℕ := 1
  pending : List ℕ := []
  results : ℕ → List (Except Failure Value) := fun _ ↦ []
  created : ℕ → Option (ℕ × Input) := fun _ ↦ none
  streams : List ℕ := []
  consumer : ℕ → Consumer := fun _ ↦ {}
  closing : Bool := false
  closed : Bool := false
  closeFuture : Option CloseFuture := none
  workerFailure : Option Failure := none
  ports : Bool := true
  frame : Option Frame := none
  posted : List Posted := []

namespace Isolate

def post (s : Isolate) (message : Posted) : Isolate := { s with posted := s.posted ++ [message] }

def setConsumer (s : Isolate) (stream : ℕ) (c : Consumer) : Isolate :=
  { s with consumer := Function.update s.consumer stream c }

def setController (s : Isolate) (stream : ℕ) (c : StreamController Event) : Isolate :=
  s.setConsumer stream { s.consumer stream with controller := c }

def complete (s : Isolate) (id : ℕ) (result : Except Failure Value) : Isolate :=
  { s with results := Function.update s.results id (s.results id ++ [result]) }

def completeDone (s : Isolate) (stream : ℕ) : Isolate :=
  s.setConsumer stream { s.consumer stream with done := (s.consumer stream).done + 1 }

def completeDoneOnce (s : Isolate) (stream : ℕ) : Isolate :=
  if (s.consumer stream).done = 0 then s.completeDone stream else s

def finish (s : Isolate) (stream : ℕ) : Isolate :=
  s.setConsumer stream { s.consumer stream with finished := true }

def add (s : Isolate) (stream : ℕ) (event : Event) : Isolate × Bool :=
  let (c, fired) := (s.consumer stream).controller.add event
  (s.setController stream c, fired)

def finishPorts (s : Isolate) : Isolate := { s with ports := false }

/-- `_workerFailure ?? const LiteRtLmDisposed('Backend is closed')` -/
def refusal (s : Isolate) : Failure := s.workerFailure.getD (.disposed "Backend is closed")

/-- `_request` up to the future it awaits. -/
def request (s : Isolate) (duringClose : Bool) (message : ℕ → Posted) :
    Isolate × Except Failure ℕ :=
  if s.closed || (s.closing && !duringClose) then (s, .error s.refusal)
  else
    ({ s with nextId := s.nextId + 1, pending := s.pending ++ [s.nextId] }.post (message s.nextId),
      .ok s.nextId)

def onResume (s : Isolate) (stream : ℕ) : Isolate :=
  if !(s.consumer stream).finished && !(s.consumer stream).cancelled then s.post (.credit stream)
  else s

def onCancel (s : Isolate) (stream : ℕ) : Isolate :=
  let s := s.setConsumer stream { s.consumer stream with cancelled := true }
  if !(s.consumer stream).finished && !s.closed then s.post (.cancelStream stream) else s

def closeController (s : Isolate) (stream : ℕ) : Isolate :=
  let (c, ended) := (s.consumer stream).controller.close
  let s := s.setController stream c
  if ended then s.onCancel stream else s

def leave (s : Isolate) (stream : ℕ) : Isolate :=
  let (c, resumed) := (s.consumer stream).controller.leave
  let s := s.setController stream c
  if resumed then s.onResume stream else s

def onListen (s : Isolate) (stream sessionId : ℕ) (input : Input) : Isolate :=
  if s.closing || s.closed then
    let (s, _) := (s.finish stream).add stream (.failed s.refusal)
    (s.closeController stream).completeDone stream
  else { s with streams := s.streams ++ [stream] }.post (.generate stream sessionId input)

def listen (s : Isolate) (stream : ℕ) : Isolate :=
  match s.created stream with
  | none => s
  | some (sessionId, input) =>
    if (s.consumer stream).controller.listened then s
    else
      let s := s.setController stream (s.consumer stream).controller.listen
      (s.onListen stream sessionId input).leave stream

def toEvent : Worker.Event → Event
  | .token text => .token text
  | .complete text => .completed text
  | .cancelled => .cancelled (.cancelled "cancelled")
  | .error failure => .failed failure

def received (s : Isolate) (stream : ℕ) (terminal : Bool) : Isolate :=
  if terminal then (s.closeController stream).completeDoneOnce stream
  else if !(s.consumer stream).controller.isPaused && !(s.consumer stream).cancelled then
    s.post (.credit stream)
  else s

/-- `_receive`, up to the call of a listener. -/
def receive (s : Isolate) : Outgoing → Isolate
  | .reply (some id) result =>
    if id ∈ s.pending then { s with pending := s.pending.filter (· ≠ id) }.complete id result else s
  | .reply none _ => s
  | .event stream e =>
    if stream ∈ s.streams then
      let terminal := !e.isToken
      let s :=
        if terminal then { s with streams := s.streams.filter (· ≠ stream) }.finish stream else s
      if (s.consumer stream).cancelled then
        if terminal then s.completeDoneOnce stream else s
      else
        let (s, fired) := s.add stream (toEvent e)
        if fired then { s with frame := some (.receiving stream terminal) }
        else s.received stream terminal
    else s

/-- The rest of the body of the loop of `_workerEnded` once the failure was added. -/
def ended (s : Isolate) (stream : ℕ) : Isolate :=
  (s.closeController stream).completeDoneOnce stream

/-- The loop of `_workerEnded` over the consumers and what follows it, up to
the call of a listener. -/
def endStreams (failure : Failure) : List ℕ → Isolate → Isolate
  | [], s => { s with streams := [] }.finishPorts
  | stream :: rest, s =>
    let s := s.finish stream
    if (s.consumer stream).cancelled then endStreams failure rest (s.completeDoneOnce stream)
    else
      let (s, fired) := s.add stream (.failed failure)
      if fired then { s with frame := some (.ending failure stream rest) }
      else endStreams failure rest (s.ended stream)

def workerFailureText (detail : Option String) : String :=
  "LiteRT-LM worker exited" ++ (detail.map (": " ++ ·)).getD ""

def workerEnded (s : Isolate) (detail : Option String) : Isolate :=
  if s.closed then s
  else
    let failure : Failure := .workerFailure (workerFailureText detail)
    let s := { s with closed := true, workerFailure := some failure }
    let s := s.pending.foldl (fun s id ↦ s.complete id (.error failure)) s
    endStreams failure s.streams { s with pending := [] }

/-- `close`, which is memoised, with `_close` up to the future it awaits. -/
def close (s : Isolate) : Isolate :=
  if s.closeFuture.isSome then s
  else if s.closed then { s with closeFuture := some .returned }
  else
    match { s with closing := true }.request true .close with
    | (s, .ok id) => { s with closeFuture := some (.awaiting id) }
    | (s, .error _) => { s with closed := true, closeFuture := some .completed }.finishPorts

inductive Call
  | request (request : Request)
  | stream (sessionId : ℕ) (input : Input)
  | listen (stream : ℕ)
  | pause (stream : ℕ)
  | resume (stream : ℕ)
  | cancel (stream : ℕ)
  | close
  | crashForTesting

def call (s : Isolate) : Call → Isolate
  | .request r =>
    if r.yields && (s.closing || s.closed) then s else (s.request false (.request · r)).1
  | .stream sessionId input =>
    { s with
      nextId := s.nextId + 1
      created := Function.update s.created s.nextId (some (sessionId, input)) }
  | .listen stream => s.listen stream
  | .pause stream => s.setController stream (s.consumer stream).controller.pause
  | .resume stream =>
    let (c, resumed) := (s.consumer stream).controller.resume
    let s := s.setController stream c
    if resumed then s.onResume stream else s
  | .cancel stream =>
    let (c, canceled) := (s.consumer stream).controller.cancel
    let s := s.setController stream c
    if canceled then s.onCancel stream else s
  | .close => s.close
  | .crashForTesting => s.post .testCrash

def proceed (s : Isolate) : Frame → Isolate
  | .receiving stream terminal => (s.leave stream).received stream terminal
  | .ending failure stream rest => endStreams failure rest ((s.leave stream).ended stream)
  | .dispatching stream => s.leave stream

/-- The user calls the backend at any time; a listener that was called returns
before the event loop goes on with a message, an exit or a microtask. -/
inductive Action
  | call (call : Call)
  | returned
  | receive (message : Outgoing)
  | exit (detail : Option String)
  | dispatch (stream : ℕ)
  | closed

def step (s : Isolate) : Action → Option Isolate
  | .call c => some (s.call c)
  | .returned =>
    match s.frame with
    | some frame => some ({ s with frame := none }.proceed frame)
    | none => none
  | .receive message =>
    if s.frame.isNone && s.ports then some (s.receive message) else none
  | .exit detail => if s.frame.isNone && s.ports then some (s.workerEnded detail) else none
  | .dispatch stream =>
    if s.frame.isNone then
      match (s.consumer stream).controller.next with
      | some (c, true) => some ((s.setController stream c).onCancel stream)
      | some (c, false) =>
        some { s.setController stream c with frame := some (.dispatching stream) }
      | none => none
    else none
  | .closed =>
    match s.closeFuture with
    | some (.awaiting id) =>
      if s.frame.isNone && !(s.results id).isEmpty then
        some { s with closed := true, closeFuture := some .completed }.finishPorts
      else none
    | some .returned =>
      if s.frame.isNone then some { s with closeFuture := some .completed } else none
    | _ => none

end Isolate

end LibLitertLm.Backend
