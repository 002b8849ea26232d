import LibLitertLm.Backend.Ledger

namespace LibLitertLm.Backend

open Worker (Outgoing)

/-- A worker, as far as the main isolate has to do with it: what it has sent so
far, how it takes a message from its port and what else it does. -/
structure Party (ω α β : Type) where
  init : ω
  sent : ω → List Outgoing
  take : ω → α → Posted → ω
  act : ω → β → ω

/-- The main isolate and a worker. Each has taken the first messages that the
other has sent; the rest is on its way. -/
structure World (ω : Type) where
  isolate : Isolate := {}
  worker : ω
  taken : ℕ := 0
  read : ℕ := 0

inductive Turn (α β : Type)
  | main (action : Isolate.Action)
  | deliver
  | take (how : α)
  | act (act : β)

variable {ω α β : Type}

namespace Party

def step (P : Party ω α β) (w : World ω) : Turn α β → Option (World ω)
  | .main (.receive _) => none
  | .main a => (w.isolate.step a).map fun s ↦ { w with isolate := s }
  | .deliver =>
    ((P.sent w.worker)[w.read]?).bind fun m ↦
      (w.isolate.step (.receive m)).map fun s ↦ { w with isolate := s, read := w.read + 1 }
  | .take how =>
    (w.isolate.posted[w.taken]?).map fun m ↦
      { w with worker := P.take w.worker how m, taken := w.taken + 1 }
  | .act a => some { w with worker := P.act w.worker a }

def system (P : Party ω α β) : System (World ω) (Turn α β) := ⟨{ worker := P.init }, P.step⟩

inductive Step (P : Party ω α β) (w : World ω) : Turn α β → World ω → Prop
  | main {a : Isolate.Action} {s : Isolate} (ha : ∀ m, a ≠ .receive m)
    (hs : w.isolate.step a = some s) : Step P w (.main a) { w with isolate := s }
  | deliver {m : Outgoing} (hm : (P.sent w.worker)[w.read]? = some m)
    (hframe : w.isolate.frame = none) (hports : w.isolate.ports = true) :
    Step P w .deliver { w with isolate := w.isolate.receive m, read := w.read + 1 }
  | take {how : α} {m : Posted} (hm : w.isolate.posted[w.taken]? = some m) :
    Step P w (.take how) { w with worker := P.take w.worker how m, taken := w.taken + 1 }
  | act (a : β) : Step P w (.act a) { w with worker := P.act w.worker a }

variable {P : Party ω α β} {w w' : World ω} {turn : Turn α β} {turns : List (Turn α β)}

theorem step_cases (h : P.step w turn = some w') : Step P w turn w' := by
  cases turn with
  | main a =>
    have hmain (ha : ∀ m, a ≠ .receive m)
        (h : (w.isolate.step a).map (fun s ↦ { w with isolate := s }) = some w') :
        Step P w (.main a) w' := by
      obtain ⟨s, hs, rfl⟩ := Option.map_eq_some_iff.mp h
      exact .main ha hs
    cases a with
    | receive m => cases h
    | _ => exact hmain (by simp) h
  | deliver =>
    obtain ⟨m, hm, h⟩ := Option.bind_eq_some_iff.mp h
    obtain ⟨s, hs, rfl⟩ := Option.map_eq_some_iff.mp h
    simp only [Isolate.step] at hs
    split_ifs at hs with hready
    obtain rfl := Option.some.inj hs
    obtain ⟨hframe, hports⟩ := Bool.and_eq_true_iff.mp hready
    exact .deliver hm (by simpa using hframe) hports
  | take how =>
    obtain ⟨m, hm, rfl⟩ := Option.map_eq_some_iff.mp h
    exact .take hm
  | act a =>
    obtain rfl := Option.some.inj h
    exact .act a

/-- What holds of the main isolate whatever its worker does. -/
structure Fit (U : ℕ → Prop) (w : World ω) : Prop where
  sound : Isolate.Sound U w.isolate
  ledger : w.isolate.Ledger
  taken : w.taken ≤ w.isolate.posted.length

def Cancels (turns : List (Turn α β)) (stream : ℕ) : Prop :=
  .main (.call (.cancel stream)) ∈ turns

variable {U : ℕ → Prop}

theorem Fit.step (h : Fit U w) (hU : ∀ stream, turn = .main (.call (.cancel stream)) → U stream)
    (ht : Step P w turn w') : Fit U w' ∧ Later w.isolate.consumer w'.isolate.consumer := by
  cases ht with
  | @main a s ha hs =>
    obtain ⟨hsound, hlater⟩ := h.sound.step (fun stream hc ↦ hU stream (congrArg Turn.main hc)) hs
    have hchange := h.sound.change h.ledger.nodup ha hs
    exact ⟨⟨hsound, h.ledger.change hchange, h.taken.trans hchange.grows.posted.length_le⟩, hlater⟩
  | @deliver m hm hframe hports =>
    obtain ⟨hsound, hlater⟩ := h.sound.receive hframe hports m
    obtain ⟨more, hmore, -⟩ := (h.sound.received hframe m).posted
    refine ⟨⟨hsound, h.ledger.receive h.sound hframe m, ?_⟩, hlater⟩
    rw [hmore, List.length_append]
    exact h.taken.trans (Nat.le_add_right ..)
  | take hm => exact ⟨⟨h.sound, h.ledger, (List.getElem?_eq_some_iff.mp hm).1⟩, .refl _⟩
  | act a => exact ⟨⟨h.sound, h.ledger, h.taken⟩, .refl _⟩

theorem fit_init : Fit U P.system.init := ⟨.init, .init, Nat.zero_le _⟩

theorem Fit.exec (h : Fit U w) (hU : ∀ stream, Cancels turns stream → U stream)
    (ht : P.system.exec w turns = some w') :
    Fit U w' ∧ Later w.isolate.consumer w'.isolate.consumer := by
  induction turns generalizing w with
  | nil =>
    obtain rfl : w = w' := by simpa using ht
    exact ⟨h, .refl _⟩
  | cons turn turns ih =>
    obtain ⟨v, hv, ht⟩ := by simpa only [System.exec_cons, Option.bind_eq_some_iff] using ht
    obtain ⟨hfit, hlater⟩ := h.step (fun stream heq ↦ hU stream (by simp [Cancels, heq]))
      (step_cases hv)
    obtain ⟨hfit', hlater'⟩ := ih hfit (fun stream hc ↦ hU stream (List.mem_cons_of_mem _ hc)) ht
    exact ⟨hfit', hlater.trans hlater'⟩

theorem fit_run (ht : P.system.run turns = some w) : Fit (Cancels turns) w :=
  (fit_init.exec (fun _ hc ↦ hc) ht).1

end Party

end LibLitertLm.Backend
