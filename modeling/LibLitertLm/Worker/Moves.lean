import LibLitertLm.Worker.Consistency
import Mathlib.Logic.Relation

namespace LibLitertLm.Worker

open Bridge (Call CString)

/-- A session but for what no later request depends on. -/
def NativeSession.core (x : NativeSession) : NativeSession :=
  { x with
    phase := .ready
    prefillTurns := 0
    decodeTurns := 0
    metrics := {}
    nativePreface := if x.handle = none then [] else x.nativePreface }

/-- A session but for its history. -/
def NativeSession.bare (x : NativeSession) : NativeSession := { x.core with history := [] }

theorem NativeSession.bare_of_core {x y : NativeSession} (h : x.core = y.core)
    (history : List Message) : { x with history := history }.bare = y.bare :=
  congrArg (fun z : NativeSession ↦ { z with history := [] }) h

def Op.core (o : Op) : Op := { o with credit := true }

def State.flags (s : State) : Bool × Bool := (s.fatalExit, s.commandsClosed)

/-- Work that changes nothing that lasts: phases, metrics, credit, session
objects nobody knows, native objects that are gone again. -/
structure Quiet (s s' : State) : Prop where
  sessions : s'.sessions = s.sessions
  operations : s'.operations = s.operations
  pointers : s'.pointers = s.pointers
  nextEngine : s'.nextEngine = s.nextEngine
  nextSession : s'.nextSession = s.nextSession
  session : ∀ r ∈ s.sessions, (s'.session r).core = (s.session r).core
  streamId : ∀ r stream, (s'.session r).streamId = some stream →
    (s.session r).streamId = some stream
  op : ∀ stream, (s'.op stream).core = (s.op stream).core
  flags : s'.flags = s.flags
  native : ∃ next setters, s.native.next ≤ next ∧
    s'.native = s.native.after next setters s.native.live

/-- The last steps of an operation before it goes, on the way to `_finish` and
in it: the event is taken, a malformed one cancels, the history may change. -/
structure Staged (s : State) (stream : ℕ) (s' : State) : Prop where
  unseen : Unseen s s'
  flags : s'.flags = s.flags
  streamId : ∀ r t, (s'.session r).streamId = some t → (s.session r).streamId = some t
  other : ∀ r ∈ s.sessions, r ≠ (s.op stream).session → (s'.session r).core = (s.session r).core
  own : (s'.session (s.op stream).session).bare = (s.session (s.op stream).session).bare
  op : ∀ t, t ≠ stream → (s'.op t).core = (s.op t).core
  messages : (s'.op stream).messages = (s.op stream).messages
  text : (s'.op stream).text = (s.op stream).text
  live : s'.native.live = s.native.live
  bridge : ∀ id, id ≠ (s.op stream).native →
    s'.native.operation id = s.native.operation id ∧ s'.native.calls id = s.native.calls id

def State.bridge (s : State) (id : ℕ) (c : Call) : State :=
    { s with native := s.native.bridge id c }

def State.head (s : State) (stream : ℕ) : Option Bridge.Event :=
  (Bridge.operationTake (s.native.operation (s.op stream).native)).2

def State.cancel (s : State) (stream : ℕ) (overflow : Bool) : State :=
  { s with
    op := Function.update s.op stream
      { s.op stream with cancelRequested := true, backpressure := overflow }
    native := if overflow then s.native else s.native.bridge (s.op stream).native .cancel }

def State.addText (s : State) (stream : ℕ) (text : String) : State :=
  { s with
    op := Function.update s.op stream
      { s.op stream with text := (s.op stream).text ++ text, credit := false } }

def emit (s : State) (sent : List (Outgoing × State)) (stream : ℕ) (e : Event) : NativeWorker :=
  ⟨s, if s.fatalExit then sent else sent ++ [(.event stream e, s)]⟩

/-- How a session with a handle gets ready for a request: a batch to a
conversation needs a new handle, whose preface has all messages but the last. -/
inductive Prepared (s : State) (r : ℕ) (messages : List Message) : State → Prop
  | reuse (hh : (s.session r).handle ≠ none)
    (hsingle : (s.session r).conversation = true → messages.length ≤ 1) (hne : messages ≠ []) :
    Prepared s r messages s
  | rebuild {p q next : ℕ} {setters : List Setter} (hc : (s.session r).conversation = true)
    (hbatch : 1 < messages.length) (hq : ((s.session r).engineId, q) ∈ s.pointers)
    (hp : s.native.live p = none) (hnext : s.native.next ≤ next) (hbelow : p < next) :
    Prepared s r messages ((s.drop r).give r
      ((s.session r).opened ((s.session r).history ++ messages.dropLast) (some p)) p next setters
      ((s.session r).resource q ((s.session r).history ++ messages.dropLast)))

def Event.isFailure : Event → Bool
  | .cancelled | .error _ => true
  | _ => false

variable (rt : Runtime)

def shown (conversation : Bool) (bytes : List UInt8) : Except Thrown String :=
  match utf8Decode (bytes.takeWhile (· ≠ 0)) with
  | none => .error (.error .formatException)
  | some text => if conversation then chatText rt text else .ok text

/-- The steps that the code of the worker is made of. `harmless` is what may be
assumed of the answers of the native library. -/
inductive Move (harmless : Prop) : NativeWorker → NativeWorker → Prop
  | quiet {w : NativeWorker} {s : State} (h : Quiet w.state s) : Move harmless w ⟨s, w.sent⟩
  | reply (w : NativeWorker) (request : Option ℕ) (result : Except Failure Value) :
    Move harmless w ⟨w.state, w.sent ++ [(.reply request result, w.state)]⟩
  | callback (w : NativeWorker) (c : Callback) :
    Move harmless w ⟨{ w.state with native := w.state.native.callback c }, w.sent⟩
  | load {w : NativeWorker} {e : NativeEngine} {next : ℕ} {setters : List Setter}
    (hp : w.state.native.live e.pointer = none) (hnext : w.state.native.next ≤ next)
    (hbelow : e.pointer < next) : Move harmless w ⟨w.state.load e next setters, w.sent⟩
  | unload {w : NativeWorker} {id q : ℕ} (hq : (id, q) ∈ w.state.pointers)
    (hsessions : ∀ r ∈ w.state.sessions, (w.state.session r).engineId ≠ id) :
    Move harmless w ⟨w.state.unload id q, w.sent⟩
  | add {w : NativeWorker} {x : NativeSession} {q : ℕ} (hchat : x.chat = none)
    (hraw : x.raw = none) (hstream : x.streamId = none) (hhistory : x.initial = x.history)
    (hq : (x.engineId, q) ∈ w.state.pointers) : Move harmless w ⟨w.state.add x, w.sent⟩
  | give {w : NativeWorker} {r p q next : ℕ} {setters : List Setter} (hr : r ∈ w.state.sessions)
    (hh : (w.state.session r).handle = none)
    (hq : ((w.state.session r).engineId, q) ∈ w.state.pointers)
    (hp : w.state.native.live p = none) (hnext : w.state.native.next ≤ next) (hbelow : p < next) :
    Move harmless w
      ⟨w.state.give r ((w.state.session r).opened (w.state.session r).history (some p))
      p next setters ((w.state.session r).resource q (w.state.session r).history), w.sent⟩
  | drop {w : NativeWorker} {r : ℕ} (hr : r ∈ w.state.sessions)
    (hop : ∀ stream ∈ w.state.operations, (w.state.op stream).session ≠ r) :
    Move harmless w ⟨w.state.drop r, w.sent⟩
  | remove {w : NativeWorker} {r : ℕ} (hh : (w.state.session r).handle = none)
    (hop : ∀ stream ∈ w.state.operations, (w.state.op stream).session ≠ r) :
    Move harmless w ⟨w.state.remove r, w.sent⟩
  | cancel {w : NativeWorker} {stream : ℕ} (hstream : stream ∈ w.state.operations)
    (hc : (w.state.op stream).cancelRequested = false) (overflow : Bool) :
    Move harmless w ⟨w.state.cancel stream overflow, w.sent⟩
  | rebuild {w : NativeWorker} {s : State} {r : ℕ} {messages : List Message} (hbad : ¬ harmless)
    (hr : r ∈ w.state.sessions) (hidle : (w.state.session r).streamId = none)
    (hs : Prepared w.state r messages s) : Move harmless w ⟨s, w.sent⟩
  | exhaust (w : NativeWorker) :
    Move harmless w ⟨{ w.state with native := { w.state.native with nextId := 0 } }, w.sent⟩
  | leak {w : NativeWorker} {p next : ℕ} (hp : w.state.native.live p = none)
    (hnext : w.state.native.next ≤ next) (hbelow : p < next) :
    Move harmless w ⟨w.state.leak p next, w.sent⟩
  | discard {w : NativeWorker} {stream : ℕ} (hstream : stream ∈ w.state.operations)
    (h : ∀ e ∈ w.state.head stream, e.kind = 0 ∧ ((w.state.op stream).cancelRequested = true ∨
      shown rt (w.state.session (w.state.op stream).session).conversation e.text = .ok "")) :
    Move harmless w ⟨w.state.bridge (w.state.op stream).native .take, w.sent⟩
  | token {w : NativeWorker} {stream : ℕ} {e : Bridge.Event} {text : String}
    (hstream : stream ∈ w.state.operations) (he : w.state.head stream = some e) (hkind : e.kind = 0)
    (hc : (w.state.op stream).cancelRequested = false)
    (htext : shown rt
      (w.state.session (w.state.op stream).session).conversation e.text = .ok text) :
    Move harmless w (emit ((w.state.bridge (w.state.op stream).native .take).addText stream text)
      w.sent stream (.token text))
  | release {w : NativeWorker} {s : State} {stream : ℕ} (hstream : stream ∈ w.state.operations)
    (hs : Staged w.state stream s)
    (hhistory : harmless → (s.session (s.op stream).session).history =
      (w.state.session (s.op stream).session).history)
    (phase : HandlePhase) {e : Event} (he : e.isFailure = true) :
    Move harmless w (emit ((s.retire stream phase).drop (s.op stream).session) w.sent stream e)
  | complete {w : NativeWorker} {s : State} {stream : ℕ} {e : Bridge.Event}
    (hstream : stream ∈ w.state.operations) (hs : Staged w.state stream s)
    (he : w.state.head stream = some e) (hkind : e.kind = 1)
    (hc : (w.state.op stream).cancelRequested = false)
    (hcalls : s.native.calls (s.op stream).native =
      w.state.native.calls (s.op stream).native ++ [.take])
    (hhistory : harmless → (s.session (s.op stream).session).history =
      if (s.session (s.op stream).session).conversation then
        (w.state.session (s.op stream).session).nativePreface ++
          w.state.native.turns (w.state.session (s.op stream).session).chat
      else (w.state.session (s.op stream).session).history)
    (phase : HandlePhase) :
    Move harmless w (emit (s.retire stream phase) w.sent stream (.complete (s.op stream).text))

abbrev Moves (harmless : Prop) : NativeWorker → NativeWorker → Prop :=
  Relation.ReflTransGen (Move rt harmless)

section Consistent

variable {s s' : State}

theorem NativeSession.core_eq {x y : NativeSession} (h : x.core = y.core) :
    x.frame = y.frame ∧ x.history = y.history ∧ x.initial = y.initial ∧
      x.conversation = y.conversation ∧ x.chat = y.chat ∧
      (x.handle ≠ none → x.nativePreface = y.nativePreface) := by
  have hframe : x.frame = y.frame := field_eq core frame (fun _ ↦ rfl) h
  refine ⟨hframe, field_eq core history (fun _ ↦ rfl) h, field_eq core initial (fun _ ↦ rfl) h,
    field_eq core conversation (fun _ ↦ rfl) h, field_eq core chat (fun _ ↦ rfl) h, fun hx ↦ ?_⟩
  have hy : y.handle ≠ none := (NativeSession.frame_eq hframe).2.1 ▸ hx
  have hpreface := congrArg nativePreface h
  simpa only [core, if_neg hx, if_neg hy] using hpreface

theorem Quiet.unseen (hs : Consistent s) (h : Quiet s s') : Unseen s s' := by
  obtain ⟨next, setters, hnext, hnative⟩ := h.native
  have hop (stream : ℕ) : (s'.op stream).session = (s.op stream).session ∧
      (s'.op stream).native = (s.op stream).native ∧
      (s'.op stream).backpressure = (s.op stream).backpressure ∧
      (s'.op stream).cancelRequested = (s.op stream).cancelRequested :=
    ⟨field_eq Op.core Op.session (fun _ ↦ rfl) (h.op stream),
      field_eq Op.core Op.native (fun _ ↦ rfl) (h.op stream),
      field_eq Op.core Op.backpressure (fun _ ↦ rfl) (h.op stream),
      field_eq Op.core Op.cancelRequested (fun _ ↦ rfl) (h.op stream)⟩
  constructor
  case session => exact fun r hr ↦ (NativeSession.core_eq (h.session r hr)).1
  case op => exact fun stream _ ↦ ⟨(hop stream).1, (hop stream).2.1⟩
  case backpressure =>
    intro stream hstream hb
    rw [(hop stream).2.2.2]
    exact hs.backpressure stream hstream ((hop stream).2.2.1 ▸ hb)
  case next => rwa [hnative]
  case machine => rw [hnative]; exact hs.machine
  all_goals first
    | exact h.sessions | exact h.operations | exact h.pointers | exact h.nextEngine
    | exact h.nextSession | (rw [hnative]; rfl) | (intro p; rw [hnative]; rfl)

/-- A change of the native side alone, to operations or inside conversations. -/
theorem Unseen.of_native (hs : Consistent s) {n : Native} (hnext : n.next = s.native.next)
    (hlive : ∀ p, (n.live p).map Resource.kind = (s.native.live p).map Resource.kind)
    (hmisuse : n.misuse = s.native.misuse) (hnextId : n.nextId = s.native.nextId)
    (hregistry : n.registry = s.native.registry)
    (hmachine : ∀ id ∈ s.native.registry,
      n.operation id = (Bridge.operation id).state (n.calls id)) :
    Unseen s { s with native := n } :=
  ⟨rfl, rfl, rfl, rfl, rfl, fun _ _ ↦ rfl, fun _ _ ↦ ⟨rfl, rfl⟩, hs.backpressure, hnext.ge, hlive,
    hmisuse, hnextId, hregistry, hmachine⟩

theorem Native.bridge_spec (n : Native) (id : ℕ) (c : Call) :
    (n.bridge id c).next = n.next ∧ (n.bridge id c).live = n.live ∧
      (n.bridge id c).misuse = n.misuse ∧ (n.bridge id c).nextId = n.nextId ∧
      (n.bridge id c).registry = n.registry := by
  unfold Native.bridge
  split_ifs <;> simp

theorem Native.bridge_machine {n : Native} (h : ∀ id ∈ n.registry,
    n.operation id = (Bridge.operation id).state (n.calls id)) (id : ℕ) (c : Call) :
    ∀ id' ∈ n.registry,
      (n.bridge id c).operation id' = (Bridge.operation id').state ((n.bridge id c).calls id') := by
  intro id' hid'
  unfold Native.bridge
  split_ifs with hid
  · by_cases hne : id' = id
    · simp [hne, h id hid]
    · simp [Function.update_of_ne hne, h id' hid']
  · exact h id' hid'

theorem Unseen.bridge (hs : Consistent s) (id : ℕ) (c : Call) : Unseen s (s.bridge id c) := by
  obtain ⟨hnext, hlive, hmisuse, hnextId, hregistry⟩ := s.native.bridge_spec id c
  exact .of_native hs hnext (fun p ↦ by rw [hlive]) hmisuse hnextId hregistry
    (Native.bridge_machine hs.machine id c)

theorem Resource.callback_kind (id : ℕ) (chunk : Bridge.Chunk) (reply : Message) (res : Resource) :
    (res.callback id chunk reply).kind = res.kind := by
  cases res <;> simp only [Resource.callback]
  split
  · split_ifs <;> rfl
  · rfl

theorem Unseen.callback (hs : Consistent s) (c : Callback) :
    Unseen s { s with native := s.native.callback c } := by
  obtain ⟨id, chunk, reply⟩ := c
  obtain ⟨hnext, hlive, hmisuse, hnextId, hregistry⟩ := s.native.bridge_spec id (.callback chunk)
  have hmachine := Native.bridge_machine hs.machine id (.callback chunk)
  unfold Native.callback
  cases chunk with
  | none => exact .of_native hs hnext (fun p ↦ by rw [hlive]) hmisuse hnextId hregistry hmachine
  | some chunk =>
    refine .of_native hs hnext (fun p ↦ ?_) hmisuse hnextId hregistry hmachine
    dsimp only
    rw [hlive, Option.map_map]
    congr 1
    funext res
    exact Resource.callback_kind ..

theorem Unseen.of_op (hs : Consistent s) {stream : ℕ} {o : Op}
    (hsession : o.session = (s.op stream).session) (hnative : o.native = (s.op stream).native)
    (hb : o.backpressure = true → o.cancelRequested = true) :
    Unseen s { s with op := Function.update s.op stream o } := by
  refine ⟨rfl, rfl, rfl, rfl, rfl, fun _ _ ↦ rfl, fun t _ ↦ ?_, fun t ht ↦ ?_, le_rfl, fun _ ↦ rfl,
    rfl, rfl, rfl, hs.machine⟩
  · by_cases h : t = stream
    · simp [h, hsession, hnative]
    · simp [h]
  · by_cases h : t = stream
    · simpa [h] using hb
    · simpa [h] using hs.backpressure t ht

theorem Unseen.cancel (hs : Consistent s) (stream : ℕ) (overflow : Bool) :
    Unseen s (s.cancel stream overflow) := by
  let o : Op := { s.op stream with cancelRequested := true, backpressure := overflow }
  have hop : Unseen s { s with op := Function.update s.op stream o } :=
    .of_op hs rfl rfl fun _ ↦ rfl
  cases overflow with
  | true => exact hop
  | false => exact hop.trans (.bridge (hs.unseen hop) _ .cancel)

theorem Consistent.addText (hs : Consistent s) {stream : ℕ} (hstream : stream ∈ s.operations)
    (text : String) : Consistent (s.addText stream text) :=
  hs.unseen (.of_op hs rfl rfl (hs.backpressure stream hstream))

theorem emit_state (s : State) (sent : List (Outgoing × State)) (stream : ℕ) (e : Event) :
    (emit s sent stream e).state = s := rfl

theorem Staged.session_eq {stream : ℕ} (h : Staged s stream s') (hstream : stream ∈ s.operations) :
    (s'.op stream).session = (s.op stream).session ∧
      (s'.op stream).native = (s.op stream).native :=
  h.unseen.op stream hstream

theorem Consistent.opened (hs : Consistent s) {r p q next : ℕ}
    (hr : r ∈ s.sessions) (hh : (s.session r).handle = none)
    (hq : ((s.session r).engineId, q) ∈ s.pointers) (hp : s.native.live p = none)
    (hnext : s.native.next ≤ next) (hbelow : p < next) (preface : List Message)
    (setters : List Setter) :
      Consistent (s.give r ((s.session r).opened preface (some p)) p next setters
      ((s.session r).resource q preface)) := by
  refine hs.give hr hh ⟨rfl, rfl⟩ ?_ ?_ hq ?_ hp hnext hbelow
  · cases h : (s.session r).conversation <;> simp [NativeSession.opened, NativeSession.handle, h]
  · cases h : (s.session r).conversation <;> simp [NativeSession.opened, NativeSession.spare, h]
  · cases h : (s.session r).conversation <;>
      simp [NativeSession.opened, NativeSession.resource, NativeSession.owns, h]

theorem Consistent.prepared (hs : Consistent s) {r : ℕ} {messages : List Message}
    (hr : r ∈ s.sessions) (hidle : (s.session r).streamId = none)
    (h : Prepared s r messages s') : Consistent s' := by
  cases h with
  | reuse => exact hs
  | @rebuild p q next setters hc hbatch hq hp hnext hbelow =>
    have hdrop : Consistent (s.drop r) := hs.drop hr fun stream hstream hsame ↦ by
      have hid := (hs.opSession stream hstream).2.1
      rw [hsame, hidle] at hid
      cases hid
    have hself : (s.drop r).session r = { s.session r with chat := none, raw := none } :=
      Function.update_self ..
    have hgone : (s.drop r).native.live p = none := by
      rw [State.drop]
      cases (s.session r).handle with
      | none => exact hp
      | some p' => exact (Function.update_apply ..).trans (by rw [hp, ite_self])
    have hopened := hdrop.opened hr (by rw [hself, handle_dropped]) (by rw [hself]; exact hq) hgone
      hnext hbelow ((s.session r).history ++ messages.dropLast) setters
    rw [hself] at hopened
    exact hopened

/-- Every step of the worker keeps it consistent. -/
theorem Move.consistent {harmless : Prop} {w t : NativeWorker} (h : Move rt harmless w t)
    (hw : Consistent w.state) : Consistent t.state := by
  cases h with
  | quiet h => exact hw.unseen (h.unseen hw)
  | reply => exact hw
  | callback c => exact hw.unseen (.callback hw c)
  | load hp hnext hbelow => exact hw.load hp hnext hbelow
  | unload hq hsessions => exact hw.unload hq hsessions
  | add hchat hraw _ _ hq => exact hw.add hchat hraw hq
  | give hr hh hq hp hnext hbelow => exact hw.opened hr hh hq hp hnext hbelow _ _
  | drop hr hop => exact hw.drop hr hop
  | remove hh hop => exact hw.remove hh hop
  | cancel hstream _ overflow => exact hw.unseen (.cancel hw _ overflow)
  | rebuild _ hr hidle hs => exact hw.prepared hr hidle hs
  | exhaust =>
    exact { hw with registry := fun id hid ↦ ⟨(hw.registry id hid).1, .inl rfl⟩ }
  | leak hp hnext hbelow => exact hw.leak hp hnext hbelow
  | discard => exact hw.unseen (.bridge hw _ .take)
  | @token stream _ text hstream =>
    have hbridge := Unseen.bridge hw (w.state.op stream).native .take
    exact (hw.unseen hbridge).addText hstream text
  | @release s stream hstream hs hhistory phase e he =>
    have hs' := hw.unseen hs.unseen
    have hstream' : stream ∈ s.operations := hs.unseen.operations ▸ hstream
    have hretire := hs'.retire hstream' phase
    refine hretire.drop (hs'.opSession stream hstream').1 fun t ht hsame ↦ ?_
    have ht' : t ∈ s.operations ∧ t ≠ stream := by simpa [State.retire] using ht
    have hid := (hs'.opSession t ht'.1).2.1
    rw [show (s.op t).session = (s.op stream).session from hsame,
      (hs'.opSession stream hstream').2.1] at hid
    exact ht'.2 (Option.some.inj hid).symm
  | complete hstream hs _ _ _ _ _ phase =>
    exact (hw.unseen hs.unseen).retire (hs.unseen.operations ▸ hstream) phase

theorem Moves.consistent {harmless : Prop} {w t : NativeWorker} (h : Moves rt harmless w t)
    (hw : Consistent w.state) : Consistent t.state := by
  induction h with
  | refl => exact hw
  | tail _ hstep ih => exact hstep.consistent rt ih

end Consistent

end LibLitertLm.Worker
