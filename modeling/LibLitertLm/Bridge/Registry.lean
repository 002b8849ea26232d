import LibLitertLm.Bridge.Lossless
import Mathlib.Logic.Function.Basic

namespace LibLitertLm.Bridge

open Function

/-- Where a thread is inside the bridge: in `lrlm_operation_create` with the
number it has read, there with a number of its own that is not registered yet,
or in a call on an operation with what `Find` gave it. -/
inductive Progress
  | idle
  | creating (id : ℕ)
  | issuing (id : ℕ)
  | calling (id : ℕ) (op : Option ℕ) (c : Call)
deriving DecidableEq

/-- The globals of the bridge and its threads. The operations that have been
made are numbered, as a shared pointer keeps one that the registry has lost. -/
structure Registry (τ : Type) where
  nextId : ℕ := 1
  operations : ℕ → Option ℕ := fun _ ↦ none
  count : ℕ := 0
  owner : ℕ → ℕ := fun _ ↦ 0
  object : ℕ → Operation := fun _ ↦ {}
  thread : τ → Progress := fun _ ↦ .idle

/-- What happens at once: an atomic access, or what one lock protects. -/
inductive Access (τ : Type)
  | load (t : τ)
  | exchange (t : τ) (spurious : Bool)
  | emplace (t : τ)
  | find (t : τ) (id : ℕ) (c : Call)
  | apply (t : τ)
  | delete (t : τ) (id : ℕ)

inductive Returned (τ : Type)
  | created (t : τ) (id : ℕ)
  | event (t : τ) (e : Event)

def maxId : ℕ := 2 ^ 64 - 1

def nextOf (id : ℕ) : ℕ := if id = maxId then 0 else id + 1

variable {τ : Type}

def created (returned : List (Returned τ)) : List ℕ :=
  returned.filterMap fun
    | .created _ id => some id
    | _ => none

def issued (returned : List (Returned τ)) : List ℕ := (created returned).filter (· ≠ 0)

@[simp] theorem created_append (returned returned' : List (Returned τ)) :
    created (returned ++ returned') = created returned ++ created returned' :=
  List.filterMap_append

theorem created_events (t : τ) (events : List Event) :
    created (events.map (.event t)) = ([] : List ℕ) := by
  simp [created]

@[simp] theorem issued_append (returned returned' : List (Returned τ)) :
    issued (returned ++ returned') = issued returned ++ issued returned' := by
  simp [issued]

theorem mem_issued {returned : List (Returned τ)} {id : ℕ} :
    id ∈ issued returned ↔ id ∈ created returned ∧ id ≠ 0 := by
  simp [issued]

variable [DecidableEq τ]

namespace Registry

def go (s : Registry τ) (t : τ) (p : Progress) : Registry τ :=
  { s with thread := update s.thread t p }

/-- One round of the loop in `lrlm_operation_create`. -/
def exchange (s : Registry τ) (t : τ) (id : ℕ) (spurious : Bool) : Registry τ × List (Returned τ) :=
  if id = 0 then (s.go t .idle, [.created t 0])
  else if !spurious && s.nextId = id then
    ({ s with nextId := nextOf id }.go t (.issuing id), [])
  else (s.go t (.creating s.nextId), [])

/-- `make_shared` and `emplace`, which keeps an entry that is there. -/
def emplace (s : Registry τ) (t : τ) (id : ℕ) : Registry τ × List (Returned τ) :=
  ({ s with
      operations := update s.operations id ((s.operations id).or (some s.count))
      count := s.count + 1
      owner := update s.owner s.count id
      object := update s.object s.count {} }.go t .idle, [.created t id])

def apply (s : Registry τ) (t : τ) (id : ℕ) (op : Option ℕ) (c : Call) :
    Registry τ × List (Returned τ) :=
  match op with
  | none => (s.go t .idle, [])
  | some o =>
    ({ s with object := update s.object o (call id (s.object o) c).1 }.go t .idle,
      (call id (s.object o) c).2.map (.event t))

def step (s : Registry τ) : Access τ → Registry τ × List (Returned τ)
  | .load t =>
    match s.thread t with
    | .idle => (s.go t (.creating s.nextId), [])
    | _ => (s, [])
  | .exchange t spurious =>
    match s.thread t with
    | .creating id => s.exchange t id spurious
    | _ => (s, [])
  | .emplace t =>
    match s.thread t with
    | .issuing id => s.emplace t id
    | _ => (s, [])
  | .find t id c =>
    match s.thread t with
    | .idle => (s.go t (.calling id (s.operations id) c), [])
    | _ => (s, [])
  | .apply t =>
    match s.thread t with
    | .calling id op c => s.apply t id op c
    | _ => (s, [])
  | .delete t id =>
    match s.thread t with
    | .idle => ({ s with operations := update s.operations id none }, [])
    | _ => (s, [])

end Registry

def registry (τ : Type) [DecidableEq τ] : Machine (Registry τ) (Access τ) (Returned τ) :=
  ⟨{}, Registry.step⟩

@[simp] theorem registry_init : (registry τ).init = {} := rfl

@[simp] theorem registry_step : (registry τ).step = Registry.step := rfl

inductive Accessed (s : Registry τ) : Access τ → Registry τ → List (Returned τ) → Prop
  | disabled (a : Access τ) : Accessed s a s []
  | load {t : τ} (ht : s.thread t = .idle) :
    Accessed s (.load t) (s.go t (.creating s.nextId)) []
  | exhausted {t : τ} {spurious : Bool} (ht : s.thread t = .creating 0) :
    Accessed s (.exchange t spurious) (s.go t .idle) [.created t 0]
  | issue {t : τ} {spurious : Bool} (ht : s.thread t = .creating s.nextId) (hne : s.nextId ≠ 0) :
    Accessed s (.exchange t spurious)
      ({ s with nextId := nextOf s.nextId }.go t (.issuing s.nextId)) []
  | retry {t : τ} {spurious : Bool} {id : ℕ} (ht : s.thread t = .creating id) :
    Accessed s (.exchange t spurious) (s.go t (.creating s.nextId)) []
  | emplace {t : τ} {id : ℕ} (ht : s.thread t = .issuing id) :
    Accessed s (.emplace t) (s.emplace t id).1 [.created t id]
  | find {t : τ} {id : ℕ} {c : Call} (ht : s.thread t = .idle) :
    Accessed s (.find t id c) (s.go t (.calling id (s.operations id) c)) []
  | apply {t : τ} {id o : ℕ} {c : Call} (ht : s.thread t = .calling id (some o) c) :
    Accessed s (.apply t) (s.apply t id (some o) c).1 (s.apply t id (some o) c).2
  | miss {t : τ} {id : ℕ} {c : Call} (ht : s.thread t = .calling id none c) :
    Accessed s (.apply t) (s.go t .idle) []
  | delete {t : τ} {id : ℕ} (ht : s.thread t = .idle) :
    Accessed s (.delete t id) { s with operations := update s.operations id none } []

theorem Registry.accessed (s : Registry τ) (a : Access τ) :
    Accessed s a (s.step a).1 (s.step a).2 := by
  cases a with
  | load t =>
    cases ht : s.thread t with
    | idle => simpa [step, ht] using Accessed.load ht
    | _ => simpa [step, ht] using Accessed.disabled _
  | exchange t spurious =>
    cases ht : s.thread t with
    | creating id =>
      simp only [step, ht, exchange]
      split_ifs with hzero hsame
      · subst hzero
        exact .exhausted ht
      · obtain ⟨-, rfl⟩ : spurious = false ∧ s.nextId = id := by simpa using hsame
        exact .issue ht hzero
      · exact .retry ht
    | _ => simpa [step, ht] using Accessed.disabled _
  | emplace t =>
    cases ht : s.thread t with
    | issuing id =>
      simp only [step, ht]
      exact .emplace ht
    | _ => simpa [step, ht] using Accessed.disabled _
  | find t id c =>
    cases ht : s.thread t with
    | idle => simpa [step, ht] using Accessed.find ht
    | _ => simpa [step, ht] using Accessed.disabled _
  | apply t =>
    cases ht : s.thread t with
    | calling id op c =>
      simp only [step, ht]
      cases op with
      | none => exact .miss ht
      | some o => exact .apply ht
    | _ => simpa [step, ht] using Accessed.disabled _
  | delete t id =>
    cases ht : s.thread t with
    | idle => simpa [step, ht] using Accessed.delete ht
    | _ => simpa [step, ht] using Accessed.disabled _

/-- The number has been issued, and the allocator will not come to it again. -/
def Used (next id : ℕ) : Prop := id ≠ 0 ∧ id ≤ maxId ∧ (next = 0 ∨ id < next)

theorem Used.ne {next id : ℕ} (h : Used next id) (hne : next ≠ 0) : id ≠ next := by
  obtain ⟨-, -, hzero | hlt⟩ := h
  · exact absurd hzero hne
  · exact hlt.ne

theorem Used.next {next id : ℕ} (h : Used next id) (hne : next ≠ 0) : Used (nextOf next) id := by
  obtain ⟨hid, hmax, hzero | hlt⟩ := h
  · exact absurd hzero hne
  · refine ⟨hid, hmax, ?_⟩
    unfold nextOf
    split_ifs
    · exact .inl rfl
    · exact .inr (hlt.trans (Nat.lt_succ_self _))

theorem Used.self {next : ℕ} (hne : next ≠ 0) (hmax : next ≤ maxId) : Used (nextOf next) next := by
  refine ⟨hne, hmax, ?_⟩
  unfold nextOf
  split_ifs
  · exact .inl rfl
  · exact .inr (Nat.lt_succ_self _)

theorem nextOf_le {next : ℕ} (hmax : next ≤ maxId) : nextOf next ≤ maxId := by
  unfold nextOf
  split_ifs with h
  · exact Nat.zero_le _
  · omega

theorem Used.exhausted {next : ℕ} (h : Used next maxId) (hmax : next ≤ maxId) : next = 0 := by
  obtain ⟨-, -, hzero | hlt⟩ := h
  · exact hzero
  · omega

/-- No number is held twice, and what is registered or found under a number is
the operation that was made with it. -/
structure Fresh (s : Registry τ) (returned : List (Returned τ)) : Prop where
  next : s.nextId ≤ maxId
  nodup : (issued returned).Nodup
  used : ∀ id ∈ issued returned, Used s.nextId id
  issuing : ∀ t id, s.thread t = .issuing id → Used s.nextId id ∧ id ∉ issued returned
  distinct : ∀ t t' id, s.thread t = .issuing id → s.thread t' = .issuing id → t = t'
  owner : ∀ o < s.count, s.owner o ∈ issued returned
  ownerInj : ∀ o < s.count, ∀ o' < s.count, s.owner o = s.owner o' → o = o'
  operations : ∀ id o, s.operations id = some o → o < s.count ∧ s.owner o = id
  calling : ∀ t id o c, s.thread t = .calling id (some o) c → o < s.count ∧ s.owner o = id

variable {s s' : Registry τ} {returned : List (Returned τ)}

/-- A thread moves on without a number of its own. -/
theorem Fresh.go (h : Fresh s returned) (t : τ) {p : Progress} (hissuing : ∀ id, p ≠ .issuing id)
    (hcalling : ∀ id o c, p = .calling id (some o) c → o < s.count ∧ s.owner o = id) :
    Fresh (s.go t p) returned := by
  have hother (t' : τ) (id : ℕ) (ht : (s.go t p).thread t' = .issuing id) :
      s.thread t' = .issuing id := by
    by_cases hsame : t' = t
    · subst hsame
      exact absurd (show p = .issuing id by simpa [Registry.go] using ht) (hissuing id)
    · simpa [Registry.go, hsame] using ht
  refine ⟨h.next, h.nodup, h.used, fun t' id ht ↦ h.issuing t' id (hother t' id ht),
    fun t' t'' id ht ht' ↦ h.distinct t' t'' id (hother t' id ht) (hother t'' id ht'), h.owner,
    h.ownerInj, h.operations, fun t' id o c ht ↦ ?_⟩
  by_cases hsame : t' = t
  · subst hsame
    exact hcalling id o c (by simpa [Registry.go] using ht)
  · exact h.calling t' id o c (by simpa [Registry.go, hsame] using ht)

theorem Fresh.idle (h : Fresh s returned) (t : τ) : Fresh (s.go t .idle) returned := by
  apply h.go
  · simp
  · simp

omit [DecidableEq τ] in
theorem Fresh.answer {more : List (Returned τ)} (h : Fresh s returned)
    (hmore : issued more = []) : Fresh s (returned ++ more) := by
  have hsame : issued (returned ++ more) = issued returned := by simp [hmore]
  refine ⟨h.next, ?_, ?_, ?_, h.distinct, ?_, h.ownerInj, h.operations, h.calling⟩
  · rw [hsame]
    exact h.nodup
  · rw [hsame]
    exact h.used
  · rw [hsame]
    exact h.issuing
  · rw [hsame]
    exact h.owner

/-- A successful exchange gives the thread a number that nobody has. -/
theorem Fresh.issue (h : Fresh s returned) (t : τ) (hne : s.nextId ≠ 0) :
    Fresh ({ s with nextId := nextOf s.nextId }.go t (.issuing s.nextId)) returned := by
  have hnew : s.nextId ∉ issued returned := fun hmem ↦ (h.used _ hmem).ne hne rfl
  have hcase (t' : τ) (id : ℕ)
      (ht : ({ s with nextId := nextOf s.nextId }.go t (.issuing s.nextId)).thread t' =
        .issuing id) :
      (t' = t ∧ id = s.nextId) ∨ (t' ≠ t ∧ s.thread t' = .issuing id) := by
    by_cases hsame : t' = t
    · subst hsame
      have heq : s.nextId = id := by simpa [Registry.go] using ht
      exact .inl ⟨rfl, heq.symm⟩
    · exact .inr ⟨hsame, by simpa [Registry.go, hsame] using ht⟩
  refine ⟨nextOf_le h.next, h.nodup, fun id hid ↦ (h.used id hid).next hne, fun t' id ht ↦ ?_,
    fun t' t'' id ht ht' ↦ ?_, h.owner, h.ownerInj, h.operations, fun t' id o c ht ↦ ?_⟩
  · rcases hcase t' id ht with ⟨-, rfl⟩ | ⟨-, ht⟩
    · exact ⟨.self hne h.next, hnew⟩
    · obtain ⟨hused, hmem⟩ := h.issuing t' id ht
      exact ⟨hused.next hne, hmem⟩
  · rcases hcase t' id ht with ⟨heq, hid⟩ | ⟨-, ht⟩ <;>
      rcases hcase t'' id ht' with ⟨heq', hid'⟩ | ⟨-, ht'⟩
    · exact heq.trans heq'.symm
    · exact absurd hid ((h.issuing t'' id ht').1.ne hne)
    · exact absurd hid' ((h.issuing t' id ht).1.ne hne)
    · exact h.distinct t' t'' id ht ht'
  · by_cases hsame : t' = t
    · subst hsame
      simp [Registry.go] at ht
    · exact h.calling t' id o c (by simpa [Registry.go, hsame] using ht)

theorem Fresh.emplace (h : Fresh s returned) {t : τ} {id : ℕ} (ht : s.thread t = .issuing id) :
    Fresh (s.emplace t id).1 (returned ++ [.created t id]) := by
  obtain ⟨hused, hnew⟩ := h.issuing t id ht
  have hissued : issued [Returned.created t id] = [id] := by simp [issued, created, hused.1]
  have hthread (t' : τ) (hne : t' ≠ t) : (s.emplace t id).1.thread t' = s.thread t' := by
    simp [Registry.emplace, Registry.go, hne]
  have hself : (s.emplace t id).1.thread t = .idle := by simp [Registry.emplace, Registry.go]
  have howner (o : ℕ) (ho : o < s.count) : (s.emplace t id).1.owner o = s.owner o := by
    simp [Registry.emplace, Registry.go, ho.ne]
  have hlast : (s.emplace t id).1.owner s.count = id := by simp [Registry.emplace, Registry.go]
  have hcount (o : ℕ) (ho : o < s.count + 1) : o < s.count ∨ o = s.count :=
    Nat.lt_succ_iff_lt_or_eq.mp ho
  have hold (o : ℕ) (ho : o < s.count) : s.owner o ≠ id :=
    fun heq ↦ hnew (heq ▸ h.owner o ho)
  have hnone : s.operations id = none := by
    by_contra hsome
    obtain ⟨o, ho⟩ := Option.ne_none_iff_exists'.mp hsome
    obtain ⟨hlt, heq⟩ := h.operations id o ho
    exact hold o hlt heq
  refine ⟨h.next, ?_, fun i hi ↦ ?_, fun t' i ht' ↦ ?_, fun t' t'' i ht' ht'' ↦ ?_, fun o ho ↦ ?_,
    fun o ho o' ho' heq ↦ ?_, fun i o ho ↦ ?_, fun t' i o c ht' ↦ ?_⟩
  · rw [issued_append, hissued]
    refine List.nodup_append.mpr ⟨h.nodup, by simp, fun i hi i' hi' ↦ ?_⟩
    rintro rfl
    rw [List.mem_singleton] at hi'
    exact hnew (hi' ▸ hi)
  · rw [issued_append, hissued, List.mem_append, List.mem_singleton] at hi
    rcases hi with hi | rfl
    · exact h.used i hi
    · exact hused
  · have hne : t' ≠ t := by
      rintro rfl
      rw [hself] at ht'
      cases ht'
    rw [hthread t' hne] at ht'
    obtain ⟨hused', hnew'⟩ := h.issuing t' i ht'
    refine ⟨hused', ?_⟩
    rw [issued_append, hissued, List.mem_append, List.mem_singleton, not_or]
    refine ⟨hnew', ?_⟩
    rintro rfl
    exact hne (h.distinct t' t _ ht' ht)
  · have hne : t' ≠ t := by
      rintro rfl
      rw [hself] at ht'
      cases ht'
    have hne' : t'' ≠ t := by
      rintro rfl
      rw [hself] at ht''
      cases ht''
    rw [hthread t' hne] at ht'
    rw [hthread t'' hne'] at ht''
    exact h.distinct t' t'' i ht' ht''
  · rw [issued_append, hissued, List.mem_append, List.mem_singleton]
    rcases hcount o ho with ho | rfl
    · exact .inl (howner o ho ▸ h.owner o ho)
    · exact .inr hlast
  · rcases hcount o ho with ho | rfl <;> rcases hcount o' ho' with ho' | rfl
    · rw [howner o ho, howner o' ho'] at heq
      exact h.ownerInj o ho o' ho' heq
    · rw [howner o ho, hlast] at heq
      exact absurd heq (hold o ho)
    · rw [howner o' ho', hlast] at heq
      exact absurd heq.symm (hold o' ho')
    · rfl
  · by_cases hsame : i = id
    · subst hsame
      have ho : s.count = o := by simpa [Registry.emplace, Registry.go, hnone] using ho
      subst ho
      exact ⟨Nat.lt_succ_self _, hlast⟩
    · have ho : s.operations i = some o := by
        simpa [Registry.emplace, Registry.go, hsame] using ho
      obtain ⟨hlt, heq⟩ := h.operations i o ho
      exact ⟨hlt.trans (Nat.lt_succ_self _), (howner o hlt).trans heq⟩
  · have hne : t' ≠ t := by
      rintro rfl
      rw [hself] at ht'
      cases ht'
    rw [hthread t' hne] at ht'
    obtain ⟨hlt, heq⟩ := h.calling t' i o c ht'
    exact ⟨hlt.trans (Nat.lt_succ_self _), (howner o hlt).trans heq⟩

theorem Fresh.accessed {a : Access τ} {more : List (Returned τ)} (h : Fresh s returned)
    (ha : Accessed s a s' more) : Fresh s' (returned ++ more) := by
  cases ha with
  | disabled => simpa using h
  | @load t =>
    rw [List.append_nil]
    apply h.go t <;> simp
  | @exhausted t => exact (h.idle t).answer (by simp [issued, created])
  | @issue t _ _ hne =>
    rw [List.append_nil]
    exact h.issue t hne
  | @retry t =>
    rw [List.append_nil]
    apply h.go t <;> simp
  | emplace ht => exact h.emplace ht
  | @find t id c =>
    rw [List.append_nil]
    apply h.go t
    · simp
    · intro i o c' heq
      simp only [Progress.calling.injEq] at heq
      obtain ⟨rfl, ho, -⟩ := heq
      exact h.operations _ o ho
  | @apply t id o c =>
    have hsame : Fresh { s with object := update s.object o (call id (s.object o) c).1 } returned :=
      { h with }
    exact (hsame.idle t).answer (by simp [Registry.apply, issued, created_events])
  | @miss t =>
    rw [List.append_nil]
    exact h.idle t
  | @delete t id =>
    rw [List.append_nil]
    refine { h with operations := fun i o ho ↦ ?_ }
    by_cases hsame : i = id
    · subst hsame
      simp at ho
    · exact h.operations i o (by simpa [hsame] using ho)

theorem fresh (actions : List (Access τ)) :
    Fresh ((registry τ).state actions) ((registry τ).outputs actions) := by
  apply (registry τ).invariant (fun _ s returned ↦ Fresh s returned)
  · constructor <;> simp [issued, created, maxId]
  · intro _ s returned a h
    exact h.accessed (s.accessed a)

/-- What became of an operation is what the calls on it did. -/
theorem object_operation (actions : List (Access τ)) :
    ∀ o < ((registry τ).state actions).count, ∃ calls,
      ((registry τ).state actions).object o =
        (operation (((registry τ).state actions).owner o)).state calls := by
  have hall : Fresh ((registry τ).state actions) ((registry τ).outputs actions) ∧
      ∀ o < ((registry τ).state actions).count, ∃ calls,
        ((registry τ).state actions).object o =
          (operation (((registry τ).state actions).owner o)).state calls := by
    refine (registry τ).invariant (fun _ s returned ↦ Fresh s returned ∧
      ∀ o < s.count, ∃ calls, s.object o = (operation (s.owner o)).state calls) ?_ ?_ actions
    · exact ⟨fresh [], by simp⟩
    · rintro - s returned a ⟨hfresh, h⟩
      have ha := s.accessed a
      refine ⟨hfresh.accessed ha, ?_⟩
      rw [registry_step]
      generalize (s.step a).1 = s', (s.step a).2 = more at ha
      cases ha with
      | @emplace t id ht =>
        intro o ho
        rcases Nat.lt_succ_iff_lt_or_eq.mp ho with ho | rfl
        · simpa [Registry.emplace, Registry.go, ho.ne] using h o ho
        · exact ⟨[], by simp [Registry.emplace, Registry.go]⟩
      | @apply t id o c ht =>
        obtain ⟨ho, howner⟩ := hfresh.calling t id o c ht
        intro o' ho'
        by_cases hsame : o' = o
        · subst hsame
          obtain ⟨calls, hcalls⟩ := h o' ho
          exact ⟨calls ++ [c], by simp [Registry.apply, Registry.go, hcalls, howner]⟩
        · simpa [Registry.apply, Registry.go, hsame] using h o' ho'
      | _ => exact h
  exact hall.2

theorem object_bounded (actions : List (Access τ)) :
    ∀ o < ((registry τ).state actions).count, Bounded (((registry τ).state actions).object o) := by
  intro o ho
  obtain ⟨calls, hcalls⟩ := object_operation actions o ho
  rw [hcalls]
  exact bounded _ calls

/-- A call is the only thing that changes an operation, and it carries the
number that the operation was made with. -/
theorem Fresh.changes (h : Fresh s returned) (a : Access τ) {o : ℕ} (ho : o < s.count)
    (hne : (s.step a).1.object o ≠ s.object o) :
    ∃ t c, a = .apply t ∧ s.thread t = .calling (s.owner o) (some o) c := by
  have ha := s.accessed a
  generalize (s.step a).1 = s', (s.step a).2 = more at ha hne
  cases ha with
  | emplace ht => simp [Registry.emplace, Registry.go, ho.ne] at hne
  | @apply t id o' c ht =>
    have hsame : o = o' := by
      by_contra hother
      simp [Registry.apply, Registry.go, hother] at hne
    subst hsame
    obtain ⟨-, howner⟩ := h.calling t id o c ht
    exact ⟨t, c, rfl, howner ▸ ht⟩
  | _ => exact absurd rfl hne

/-- Once the counter is at zero it stays there, and only threads that had a
number before return one. -/
theorem Accessed.no_more {a : Access τ} {more : List (Returned τ)} (ha : Accessed s a s' more)
    (h : s.nextId = 0) :
    s'.nextId = 0 ∧ (∀ t id, s'.thread t = .issuing id → s.thread t = .issuing id) ∧
      ∀ t id, .created t id ∈ more → id = 0 ∨ s.thread t = .issuing id := by
  have hgo (t : τ) {p : Progress} (hp : ∀ id, p ≠ .issuing id) (t' : τ) (id : ℕ)
      (ht : (s.go t p).thread t' = .issuing id) : s.thread t' = .issuing id := by
    by_cases hsame : t' = t
    · subst hsame
      exact absurd (show p = .issuing id by simpa [Registry.go] using ht) (hp id)
    · simpa [Registry.go, hsame] using ht
  cases ha with
  | disabled => exact ⟨h, fun _ _ ht ↦ ht, by simp⟩
  | load => exact ⟨h, hgo _ (by simp), by simp⟩
  | exhausted => exact ⟨h, hgo _ (by simp), fun t id hmem ↦ .inl (by simp_all)⟩
  | issue _ hne => exact absurd h hne
  | retry => exact ⟨h, hgo _ (by simp), by simp⟩
  | @emplace t id ht =>
    refine ⟨h, fun t' id' ht' ↦ ?_, fun t' id' hmem ↦ .inr ?_⟩
    · exact hgo t (p := .idle) (by simp) t' id' ht'
    · obtain ⟨rfl, rfl⟩ : t' = t ∧ id' = id := by simpa using hmem
      exact ht
  | find => exact ⟨h, hgo _ (by simp), by simp⟩
  | @apply t id o c =>
    refine ⟨h, fun t' id' ht' ↦ hgo t (p := .idle) (by simp) t' id' ht', by simp [Registry.apply]⟩
  | miss => exact ⟨h, hgo _ (by simp), by simp⟩
  | delete => exact ⟨h, fun _ _ ht ↦ ht, by simp⟩

theorem exhausted_after {before : List (Access τ)} (h : ((registry τ).state before).nextId = 0)
    (after : List (Access τ)) :
    ((registry τ).state (before ++ after)).nextId = 0 ∧
      ∃ rest, (registry τ).outputs (before ++ after) = (registry τ).outputs before ++ rest ∧
        ∀ t id, .created t id ∈ rest → id = 0 ∨
          ((registry τ).state before).thread t = .issuing id := by
  suffices hall : ((registry τ).state (before ++ after)).nextId = 0 ∧
      (∀ t id, ((registry τ).state (before ++ after)).thread t = .issuing id →
        ((registry τ).state before).thread t = .issuing id) ∧
      ∃ rest, (registry τ).outputs (before ++ after) = (registry τ).outputs before ++ rest ∧
        ∀ t id, .created t id ∈ rest →
          id = 0 ∨ ((registry τ).state before).thread t = .issuing id from ⟨hall.1, hall.2.2⟩
  induction after using List.reverseRecOn with
  | nil => exact ⟨by simpa using h, by simp, [], by simp, by simp⟩
  | append_singleton after a ih =>
    obtain ⟨hnext, hthread, rest, houtputs, hrest⟩ := ih
    rw [← List.append_assoc, Machine.state_concat, Machine.outputs_concat, houtputs]
    obtain ⟨hnext', hthread', hmore⟩ := (Registry.accessed _ a).no_more hnext
    refine ⟨hnext', fun t id ht ↦ hthread t id (hthread' t id ht), _, List.append_assoc .., ?_⟩
    intro t id hmem
    rcases List.mem_append.mp hmem with hmem | hmem
    · exact hrest t id hmem
    · exact (hmore t id hmem).imp_right (hthread t id)

theorem Fresh.gone (h : Fresh s returned) {id : ℕ} (hid : id ∈ created returned)
    (hnone : s.operations id = none) (a : Access τ) : (s.step a).1.operations id = none := by
  have ha := s.accessed a
  generalize (s.step a).1 = s', (s.step a).2 = more at ha
  cases ha with
  | @emplace t id' ht =>
    obtain ⟨hused, hnew⟩ := h.issuing t id' ht
    have hne : id ≠ id' := by
      rintro rfl
      exact hnew (mem_issued.mpr ⟨hid, hused.1⟩)
    simpa [Registry.emplace, Registry.go, hne] using hnone
  | @delete t id' =>
    by_cases hsame : id = id'
    · subst hsame
      simp
    · simpa [hsame] using hnone
  | _ => exact hnone

theorem gone_after {before : List (Access τ)} {id : ℕ}
    (hid : id ∈ created ((registry τ).outputs before))
    (hnone : ((registry τ).state before).operations id = none) (after : List (Access τ)) :
    ((registry τ).state (before ++ after)).operations id = none := by
  suffices hall : id ∈ created ((registry τ).outputs (before ++ after)) ∧
      ((registry τ).state (before ++ after)).operations id = none from hall.2
  induction after using List.reverseRecOn with
  | nil => exact ⟨by simpa using hid, by simpa using hnone⟩
  | append_singleton after a ih =>
    obtain ⟨hmem, hgone⟩ := ih
    rw [← List.append_assoc, Machine.state_concat, Machine.outputs_concat]
    refine ⟨by simp [hmem], (fresh _).gone hmem hgone a⟩

theorem calling_after {before : List (Access τ)} {t : τ} {id : ℕ} {op : Option ℕ} {c : Call}
    (ht : ((registry τ).state before).thread t = .calling id op c) {after : List (Access τ)}
    (hafter : ∀ a ∈ after, a ≠ .apply t) :
    ((registry τ).state (before ++ after)).thread t = .calling id op c := by
  induction after using List.reverseRecOn with
  | nil => simpa using ht
  | append_singleton after a ih =>
    have ih := ih fun b hb ↦ hafter b (by simp [hb])
    rw [← List.append_assoc, Machine.state_concat]
    have ha := Registry.accessed ((registry τ).state (before ++ after)) a
    rw [registry_step]
    have hne : a ≠ .apply t := hafter a (by simp)
    generalize (registry τ).state (before ++ after) = s at ha ih ⊢
    generalize (s.step a).1 = s', (s.step a).2 = more at ha
    have hgo (t' : τ) (p : Progress) (hother : t ≠ t') :
        (s.go t' p).thread t = .calling id op c := by simpa [Registry.go, hother] using ih
    have hmoved (t' : τ) {p : Progress} (ht' : s.thread t' = p) (hp : p ≠ .calling id op c) :
        t ≠ t' := by
      rintro rfl
      exact hp (ht'.symm.trans ih)
    cases ha with
    | disabled => exact ih
    | load ht' => exact hgo _ _ (hmoved _ ht' (by simp))
    | exhausted ht' => exact hgo _ _ (hmoved _ ht' (by simp))
    | issue ht' => exact hgo _ _ (hmoved _ ht' (by simp))
    | retry ht' => exact hgo _ _ (hmoved _ ht' (by simp))
    | emplace ht' => exact hgo _ _ (hmoved _ ht' (by simp))
    | find ht' => exact hgo _ _ (hmoved _ ht' (by simp))
    | @apply t' => exact hgo _ _ (fun h ↦ hne (h ▸ rfl))
    | @miss t' => exact hgo _ _ (fun h ↦ hne (h ▸ rfl))
    | delete => exact ih

/-- The numbers of operations are never handed out twice, and after the last of
them none is. A call changes no operation but the one made with its number, and
nothing at all once that operation has been deleted before the call began. -/
theorem operation_ids (actions : List (Access τ)) :
    let s := (registry τ).state actions
    (issued ((registry τ).outputs actions)).Nodup ∧
      (∀ before after t, actions = before ++ after →
        (.created t maxId ∈ (registry τ).outputs before ∨
          ((registry τ).state before).thread t = .issuing maxId) →
        s.nextId = 0 ∧ ∃ rest, (registry τ).outputs actions = (registry τ).outputs before ++ rest ∧
          ∀ t id, .created t id ∈ rest → id = 0 ∨
            ((registry τ).state before).thread t = .issuing id) ∧
      (s.nextId = 0 → ∀ t spurious, s.thread t = .idle →
        (registry τ).outputs (actions ++ [.load t, .exchange t spurious]) =
          (registry τ).outputs actions ++ [.created t 0]) ∧
      (∀ a, ∀ o < s.count, (s.step a).1.object o ≠ s.object o →
        ∃ t c, a = .apply t ∧ s.thread t = .calling (s.owner o) (some o) c) ∧
      (∀ o < s.count, ∀ o' < s.count, s.owner o = s.owner o' → o = o') ∧
      ∀ before u id between t c after,
        actions = before ++ .delete u id :: (between ++ .find t id c :: after) →
        id ∈ created ((registry τ).outputs before) →
        ((registry τ).state before).thread u = .idle →
        ((registry τ).state (before ++ .delete u id :: between)).thread t = .idle →
        (∀ a ∈ after, a ≠ .apply t) →
        (s.step (.apply t)).1.object = s.object := by
  intro s
  have h : Fresh s ((registry τ).outputs actions) := fresh actions
  refine ⟨h.nodup, ?_, ?_, fun a o ho ↦ h.changes a ho, h.ownerInj, ?_⟩
  · rintro before after t rfl hlast
    have hbefore := fresh before
    refine exhausted_after (Used.exhausted ?_ hbefore.next) after
    rcases hlast with hlast | hlast
    · apply hbefore.used
      refine mem_issued.mpr ⟨List.mem_filterMap.mpr ⟨_, hlast, rfl⟩, ?_⟩
      decide
    · exact (hbefore.issuing t maxId hlast).1
  · intro hzero t spurious ht
    have hload : (registry τ).state (actions ++ [.load t]) = s.go t (.creating 0) := by
      rw [Machine.state_concat, registry_step, Registry.step, ht, hzero]
    have hreturn : ((s.go t (.creating 0)).step (.exchange t spurious)).2 = [.created t 0] := by
      simp [Registry.step, Registry.go, Registry.exchange]
    have houtputs : (registry τ).outputs (actions ++ [.load t]) = (registry τ).outputs actions := by
      rw [Machine.outputs_concat, registry_step, Registry.step, ht]
      exact List.append_nil _
    rw [List.append_cons, Machine.outputs_concat, hload, houtputs, registry_step, hreturn]
  · rintro before u id between t c after rfl hid hu ht hafter
    have hdeleted : ((registry τ).state (before ++ [.delete u id])).operations id = none := by
      simp [Registry.step, hu]
    have hmem : id ∈ created ((registry τ).outputs (before ++ [.delete u id])) := by
      simp [hid]
    have hgone := gone_after hmem hdeleted between
    rw [List.append_cons] at ht
    have hfound : ((registry τ).state ((before ++ [.delete u id] ++ between) ++
        [.find t id c])).thread t = .calling id none c := by
      rw [Machine.state_concat, registry_step, Registry.step, ht, hgone]
      simp [Registry.go]
    have hcalling := calling_after hfound hafter
    have hsame : s = (registry τ).state
        ((before ++ [.delete u id] ++ between) ++ [.find t id c] ++ after) := by
      simp [s]
    rw [hsame, Registry.step, hcalling]
    rfl

end LibLitertLm.Bridge
