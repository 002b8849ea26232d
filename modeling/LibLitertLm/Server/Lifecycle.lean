import LibLitertLm.Library.System
import Mathlib.Tactic.Common

namespace LibLitertLm.Server

/-- Where a call of `bind` is suspended: at `await _closing` with the future it
read, at `await HttpServer.bind` before and after the socket listens, or done. -/
inductive Bind
  | awaiting (closing : Option ℕ)
  | opening
  | opened
  | returned
deriving DecidableEq

/-- Where a run of `_close` is suspended: at the cancels and then at
`server?.close`, with the server it took, at the requests, or done. -/
inductive Close
  | cancelling (server : Option ℕ)
  | stopping (server : Option ℕ)
  | draining
  | completed
deriving DecidableEq

/-- A `LiteRtLmOpenAiServer`. Calls are numbered in the order they are made; the
`HttpServer` that call `i` of `bind` obtains is numbered `i`, and the memoised
`_closing` is the number of the run of `_close` whose future it is. -/
structure State where
  server : Option ℕ := none
  closing : Option ℕ := none
  binds : List Bind := []
  closes : List Close := []
  listening : List ℕ := []
deriving DecidableEq

inductive Action
  | bind
  | resume (i : ℕ)
  | listen (i : ℕ)
  | bound (i : ℕ)
  | bindFailed (i : ℕ)
  | close
  | cancelled (c : ℕ)
  | stopped (c : ℕ)
  | drained (c : ℕ)
deriving DecidableEq

/-- `await` on a future that is null or already completed comes back. -/
def ready (s : State) (closing : Option ℕ) : Bool :=
  closing.all fun c ↦ s.closes[c]? = some .completed

/-- `_closing = null`, and on to `HttpServer.bind` unless there is a server. -/
def afterClosing (s : State) (i : ℕ) : State :=
  { s with
    closing := none
    binds := s.binds.set i (if s.server.isSome then .returned else .opening) }

def close (s : State) : State :=
  match s.closing with
  | some _ => s
  | none =>
    { s with
      closing := some s.closes.length
      closes := s.closes ++ [.cancelling s.server]
      server := none }

/-- One synchronous stretch of `bind` or `_close`, or of the socket under them. -/
def step (s : State) : Action → Option State
  | .bind => some { s with binds := s.binds ++ [.awaiting s.closing] }
  | .resume i =>
    match s.binds[i]? with
    | some (.awaiting closing) => if ready s closing then some (afterClosing s i) else none
    | _ => none
  | .listen i =>
    if s.binds[i]? = some .opening then
      some { s with binds := s.binds.set i .opened, listening := i :: s.listening }
    else none
  | .bound i =>
    if s.binds[i]? = some .opened then
      some { s with binds := s.binds.set i .returned, server := some i }
    else none
  | .bindFailed i =>
    if s.binds[i]? = some .opening then some { s with binds := s.binds.set i .returned }
    else none
  | .close => some (close s)
  | .cancelled c =>
    match s.closes[c]? with
    | some (.cancelling server) => some { s with closes := s.closes.set c (.stopping server) }
    | _ => none
  | .stopped c =>
    match s.closes[c]? with
    | some (.stopping server) =>
      some { s with
        closes := s.closes.set c .draining
        listening := s.listening.filter fun k ↦ some k ≠ server }
    | _ => none
  | .drained c =>
    if s.closes[c]? = some .draining then some { s with closes := s.closes.set c .completed }
    else none

def system : System State Action := ⟨{}, step⟩

end LibLitertLm.Server
