import LibLitertLm.Library.Evidence
import LibLitertLm.Library.JsonEqual
import LibLitertLm.Library.Rounding
import LibLitertLm.Library.Splice
import LibLitertLm.Tool.Reports
import LibLitertLm.Types.Value
import Mathlib.Tactic.NormNum

namespace LibLitertLm.Tool.Validation

open Evidence JsonText Rounding Splice

abbrev Row := List (List CodePoint × Value Double)

/-- What `evaluate_run` does not catch. -/
inductive Raised
  | attributeError
  | overflowError
deriving DecidableEq

/-- `==` of a `float` and a number; a NaN equals nothing. -/
def floatEq : Double → Double ⊕ ℤ → Bool
  | .finite x, .inl (.finite y) => x == y
  | .finite x, .inr n => x == n
  | .infinite negative, .inl (.infinite negative') => negative == negative'
  | _, _ => false

def equal (v w : Value Double) : Bool := same floatEq v w

def field (row : Row) (name : List Char) : Value Double := get row (name.map ofChar)

def text (s : List Char) : Value Double := .str (s.map ofChar)

def isTrue : Value Double → Bool
  | .bool b => b
  | _ => false

def subfields (row : Row) (name : List Char) : Except Raised Row :=
  match row.lookup (name.map ofChar) with
  | none => .ok []
  | some (.obj fields) => .ok fields
  | some _ => .error .attributeError

namespace Pin

def revision : List Char := chars "1caa527c1e88b55f046fcd8d2b4265606680663d"

def sha256 : List Char := chars "181938105e0eefd105961417e8da75903eacda102c4fce9ce90f50b97139a63c"

def runtimeVersion : List Char := chars "v0.18.1"

def runtimeCommit : List Char := chars "bda624851d74be34d4e1f7fac1fc4155939539c7"

end Pin

def contexts : List ℤ := [4096, 8192, 16384, 32768]

/-- The `float` nearest to 97/100. -/
def share : ℚ := 4368491638549381 / 4503599627370496

def nearCapacity (context : ℤ) : Except Raised ℤ :=
  let converted := toPrecision 53 context
  if 2 ^ 1024 ≤ |converted| then .error .overflowError
  else .ok ⌊toPrecision 53 (converted * share)⌋

theorem share_nearest : share = toPrecision 53 (97 / 100) := by decide +kernel

/-- Nothing is lost below the percentage, and nothing is added to it where a
unit in the last place is less than a hundredth. -/
theorem nearCapacity_spec {context : ℤ} (hnonneg : 0 ≤ context) (hlt : context < 2 ^ 53) :
    ∃ least, nearCapacity context = .ok least ∧ 97 * context / 100 ≤ least ∧
      (context ≤ 2 ^ 46 → least = 97 * context / 100) := by
  by_cases hzero : context = 0
  · subst hzero
    exact ⟨0, by decide +kernel, by omega, by omega⟩
  have hpos : (1 : ℚ) ≤ context := by
    have hone : 1 ≤ context := by omega
    exact_mod_cast hone
  have hlt' : (context : ℚ) < 2 ^ 53 := by exact_mod_cast hlt
  have habs : |(context : ℚ)| = context := abs_of_pos (by linarith)
  have hconverted : toPrecision 53 (context : ℚ) = context :=
    toPrecision_intCast (by rw [habs]; exact hlt')
  have hfits : ¬ 2 ^ 1024 ≤ |(context : ℚ)| := by
    rw [habs, not_le]
    exact hlt'.trans (pow_lt_pow_right₀ one_lt_two (by omega))
  refine ⟨⌊toPrecision 53 (context * share)⌋, ?_, ?_⟩
  · simp only [nearCapacity, hconverted, if_neg hfits]
  have hproduct : 0 < (context : ℚ) * share := by
    unfold share
    linarith
  have hproduct' : |(context : ℚ) * share| = context * share := abs_of_pos hproduct
  have hsmall : |(context : ℚ) * share| < 2 ^ 53 := by
    rw [hproduct']
    unfold share
    linarith
  have hquotient : 100 * (97 * context / 100) ≤ 97 * context ∧
      97 * context ≤ 100 * (97 * context / 100) + 99 := by omega
  obtain ⟨hdown, hup⟩ := hquotient
  generalize 97 * context / 100 = n at hdown hup ⊢
  have hdown' : 100 * (n : ℚ) ≤ 97 * context := by exact_mod_cast hdown
  have hup' : 97 * (context : ℚ) ≤ 100 * n + 99 := by exact_mod_cast hup
  have hle : n ≤ toPrecision 53 (context * share) := by
    apply le_toPrecision hsmall hproduct.ne'
    rw [hproduct']
    unfold share
    norm_num
    linarith
  refine ⟨Int.le_floor.mpr hle, fun hbound ↦ ?_⟩
  have hbound' : (context : ℚ) ≤ 2 ^ 46 := by exact_mod_cast hbound
  have hless : toPrecision 53 (context * share) < (n + 1 : ℤ) := by
    apply toPrecision_lt hsmall hproduct.ne'
    rw [hproduct']
    unfold share
    norm_num at hbound' ⊢
    linarith
  refine Int.floor_eq_iff.mpr ⟨hle, ?_⟩
  rw [Int.cast_add, Int.cast_one] at hless
  exact hless

structure Position where
  shown : List Char
  value : ℚ

def positions : List Position :=
  [⟨chars "0.05", 3602879701896397 / 72057594037927936⟩, ⟨chars "0.5", 1 / 2⟩,
    ⟨chars "0.95", 4278419646001971 / 4503599627370496⟩]

theorem positions_nearest :
    positions.map Position.value = [1 / 20, 1 / 2, 19 / 20].map (toPrecision 53) := by
  decide +kernel

def phases : List (List Char) := [chars "cold_engine", chars "warm_disk_cache"]

def scenarios : List (List Char) :=
  [chars "cancel_prefill", chars "cancel_decode", chars "multi_turn_full"]

def identity (context : ℤ) : List (List Char × Value Double) :=
  [(chars "artifactSha256", text Pin.sha256), (chars "revision", text Pin.revision),
    (chars "runtimeCommit", text Pin.runtimeCommit),
    (chars "runtimeVersion", text Pin.runtimeVersion),
    (chars "effectiveContextTokens", .int context)]

def exactBudget (context : ℤ) (budget : Row) : Except Raised Bool :=
  match field budget (chars "requiredTokens") with
  | .int required =>
    if isTrue (field budget (chars "exact")) then do
      let least ← nearCapacity context
      return least ≤ required ∧ required ≤ context
    else .ok false
  | _ => .ok false

structure Findings where
  problems : List (List Char)
  missing : List (List Char)

def report (ok : Bool) (problem : List Char) : List (List Char) := if ok then [] else [problem]

def retrievalProblems (context : ℤ) (name : List Char) (row : Row) :
    Except Raised (List (List Char)) := do
  let model ← subfields row (chars "model")
  let budget ← subfields row (chars "budget")
  let exact ← exactBudget context budget
  return report (isTrue (field row (chars "retrievalCorrect"))) (name ++ chars " incorrect") ++
    report ((identity context).all fun entry ↦ equal (field model entry.1) entry.2)
      (name ++ chars " model/runtime/context identity mismatch") ++
    report exact (name ++ chars " lacks exact near-capacity evidence")

def isRetrieval (phase : List Char) (position : Position) (row : Row) : Bool :=
  equal (field row (chars "scenario")) (text (chars "retrieval")) &&
    equal (field row (chars "phase")) (text phase) &&
    equal (field row (chars "position")) (.float (.finite position.value))

def evaluatePosition (relevant : List Row) (context : ℤ) (phase : List Char) (position : Position) :
    Except Raised Findings := do
  let name := phase ++ chars "/retrieval/" ++ position.shown
  let found := relevant.filter (isRetrieval phase position)
  if found.isEmpty then return ⟨[], [name]⟩
  let problems ← found.mapM (retrievalProblems context name)
  return ⟨problems.flatten, []⟩

def isScenario (phase scenario : List Char) (row : Row) : Bool :=
  equal (field row (chars "phase")) (text phase) &&
    equal (field row (chars "scenario")) (text scenario)

def isContextFull (row : Row) : Bool :=
  equal (field row (chars "failure")) (text (chars "context-full"))

def isReused (scenario : List Char) (row : Row) : Bool :=
  isTrue (field row (chars "cancelled")) &&
    (scenario != chars "cancel_decode" || isTrue (field row (chars "phaseConfirmed"))) &&
    match field row (chars "retry") with
    | .str s => !s.isEmpty
    | _ => false

def evaluateScenario (relevant : List Row) (phase scenario : List Char) : Findings :=
  let name := phase ++ chars "/" ++ scenario
  let found := relevant.filter (isScenario phase scenario)
  if found.isEmpty then ⟨[], [name]⟩
  else if scenario = chars "multi_turn_full" then
    ⟨report (found.all isContextFull) (name ++ chars " did not report context-full"), []⟩
  else
    ⟨report (found.all (isReused scenario)) (name ++ chars " cancellation/reuse not confirmed"), []⟩

def evaluatePhase (relevant : List Row) (context : ℤ) (phase : List Char) :
    Except Raised (List Findings) := do
  let retrievals ← positions.mapM (evaluatePosition relevant context phase)
  return retrievals ++ scenarios.map (evaluateScenario relevant phase)

def isSummary (row : Row) : Bool :=
  equal (field row (chars "scenario")) (text (chars "summary"))

def kinds : List (List Char) := [chars "image", chars "audio"]

def mediaStatus (relevant : List Row) (kind : List Char) : Value Double :=
  let found := relevant.filter fun row ↦
    equal (field row (chars "scenario")) (text (chars "media_" ++ kind))
  match found.getLast? with
  | some row => (row.lookup ((chars "status").map ofChar)).getD (text (chars "not_reported"))
  | none => text (chars "not_reported")

def isMediaValidated (status : Value Double) : Bool :=
  equal status (text (chars "passed")) || equal status (text (chars "unsupported_by_artifact"))

inductive Status
  | failed
  | incomplete
  | passed
deriving DecidableEq

structure Evaluation where
  automatedStatus : Status
  problems : List (List Char)
  missingReports : List (List Char)
  manualLifecycleAcceptance : List Char
  nativePrefillPhaseAcceptance : List Char
  mediaAcceptance : List (List Char × Value Double)
  osPageCacheColdProven : Bool
  cacheInterpretation : List Char

def isRelevant (backend : List Char) (context : ℤ) (row : Row) : Bool :=
  equal (field row (chars "backend")) (text backend) &&
    equal (field row (chars "context")) (.int context)

def evaluateRun (rows : List Row) (exitCode : ℤ) (backend : List Char) (context : ℤ)
    (requestedMedia : List (List Char)) : Except Raised Evaluation := do
  let relevant := rows.filter (isRelevant backend context)
  let findings ← phases.mapM (evaluatePhase relevant context)
  let problems := findings.flatten.flatMap Findings.problems
  let missing := findings.flatten.flatMap Findings.missing ++
    report (relevant.any isSummary) (chars "summary") ++
    kinds.flatMap fun kind ↦
      report (!requestedMedia.contains kind || isMediaValidated (mediaStatus relevant kind))
        (chars "media_" ++ kind ++ chars " requested but not validated")
  return {
    automatedStatus :=
      if exitCode ≠ 0 ∨ problems ≠ [] then .failed
      else if missing ≠ [] then .incomplete
      else .passed
    problems := problems
    missingReports := missing
    manualLifecycleAcceptance := chars "pending"
    nativePrefillPhaseAcceptance := chars "pending_native_trace"
    mediaAcceptance := kinds.map fun kind ↦ (kind, mediaStatus relevant kind)
    osPageCacheColdProven := false
    cacheInterpretation :=
      chars "cold_engine is fresh engine initialization; OS page cache is uncontrolled" }

structure Retrieved (context : ℤ) (row : Row) : Prop where
  correct : field row (chars "retrievalCorrect") = .bool true
  identified : ∃ model, subfields row (chars "model") = .ok model ∧
    ∀ entry ∈ identity context, equal (field model entry.1) entry.2 = true
  capacity : ∃ budget required least, subfields row (chars "budget") = .ok budget ∧
    field budget (chars "exact") = .bool true ∧
    field budget (chars "requiredTokens") = .int required ∧ nearCapacity context = .ok least ∧
    least ≤ required ∧ required ≤ context

structure Reused (scenario : List Char) (row : Row) : Prop where
  cancelled : field row (chars "cancelled") = .bool true
  confirmed : scenario = chars "cancel_decode" → field row (chars "phaseConfirmed") = .bool true
  retry : ∃ s, field row (chars "retry") = .str s ∧ s ≠ []

def ContextFull (row : Row) : Prop := field row (chars "failure") = text (chars "context-full")

def retrieval (context : ℤ) (phase : List Char) (position : Position) : Requirement Row where
  applies row := isRetrieval phase position row = true
  meets := Retrieved context

def scenarioRequirement (phase scenario : List Char) : Requirement Row where
  applies row := isScenario phase scenario row = true
  meets row := if scenario = chars "multi_turn_full" then ContextFull row else Reused scenario row

def summary : Requirement Row where
  applies row := isSummary row = true
  meets _ := True

def requirements (context : ℤ) : List (Requirement Row) :=
  (phases.flatMap fun phase ↦
    positions.map (retrieval context phase) ++ scenarios.map (scenarioRequirement phase)) ++
      [summary]

section Checks

theorem bind_eq_ok {ε α β : Type} {x : Except ε α} {f : α → Except ε β} {b : β} :
    x >>= f = .ok b ↔ ∃ a, x = .ok a ∧ f a = .ok b := by
  cases x with
  | error e => exact iff_of_false (fun h ↦ nomatch h) (fun ⟨_, h, _⟩ ↦ nomatch h)
  | ok a => simp [bind, Except.bind]

theorem forall₂_of_ok {ε α β : Type} {f : α → Except ε β} {xs : List α} {ys : List β}
    (h : xs.mapM f = .ok ys) : List.Forall₂ (fun x y ↦ f x = .ok y) xs ys := by
  induction xs generalizing ys with
  | nil =>
    obtain rfl : [] = ys := by simpa [pure, Except.pure] using h
    exact .nil
  | cons x xs ih =>
    rw [List.mapM_cons, bind_eq_ok] at h
    obtain ⟨y, hy, h⟩ := h
    rw [bind_eq_ok] at h
    obtain ⟨ys', hys', h⟩ := h
    obtain rfl : y :: ys' = ys := by simpa [pure, Except.pure] using h
    exact .cons hy (ih hys')

theorem isTrue_iff {v : Value Double} : isTrue v = true ↔ v = .bool true := by
  cases v <;> simp [isTrue]

theorem equal_text {v : Value Double} {s : List Char} : equal v (text s) = true ↔ v = text s :=
  same_str

theorem report_eq_nil {ok : Bool} {problem : List Char} : report ok problem = [] ↔ ok = true := by
  cases ok <;> simp [report]

theorem exactBudget_ok {context : ℤ} {budget : Row} {exact : Bool}
    (h : exactBudget context budget = .ok exact) : exact = true ↔ ∃ required least,
      field budget (chars "exact") = .bool true ∧
      field budget (chars "requiredTokens") = .int required ∧ nearCapacity context = .ok least ∧
      least ≤ required ∧ required ≤ context := by
  unfold exactBudget at h
  split at h
  next required hrequired =>
    split_ifs at h with hexact
    · obtain ⟨least, hleast, h⟩ := bind_eq_ok.mp h
      rw [isTrue_iff] at hexact
      obtain rfl := Except.ok.inj h
      simp [hexact, hrequired, hleast]
    · obtain rfl := Except.ok.inj h
      rw [isTrue_iff] at hexact
      simp [hexact]
  next hnot =>
    obtain rfl := Except.ok.inj h
    refine iff_of_false Bool.false_ne_true ?_
    intro ⟨required, _, _, hrequired, _⟩
    exact hnot required hrequired

theorem retrievalProblems_ok {context : ℤ} {name : List Char} {row : Row}
    {problems : List (List Char)} (h : retrievalProblems context name row = .ok problems) :
    problems = [] ↔ Retrieved context row := by
  rw [retrievalProblems, bind_eq_ok] at h
  obtain ⟨model, hmodel, h⟩ := h
  rw [bind_eq_ok] at h
  obtain ⟨budget, hbudget, h⟩ := h
  rw [bind_eq_ok] at h
  obtain ⟨exact, hexact, h⟩ := h
  obtain rfl := Except.ok.inj h
  rw [List.append_eq_nil_iff, List.append_eq_nil_iff, report_eq_nil, report_eq_nil, report_eq_nil,
    isTrue_iff, exactBudget_ok hexact, List.all_eq_true]
  constructor
  · intro ⟨⟨hcorrect, hidentity⟩, required, least, hbudget'⟩
    exact ⟨hcorrect, ⟨model, hmodel, hidentity⟩, budget, required, least, hbudget, hbudget'⟩
  · intro ⟨hcorrect, ⟨model', hmodel', hidentity⟩, budget', required, least, hbudget', hrest⟩
    obtain rfl := Except.ok.inj (hmodel.symm.trans hmodel')
    obtain rfl := Except.ok.inj (hbudget.symm.trans hbudget')
    exact ⟨⟨hcorrect, hidentity⟩, required, least, hrest⟩

theorem retrievals_ok {context : ℤ} {name : List Char} {found : List Row}
    {problems : List (List (List Char))}
    (h : found.mapM (retrievalProblems context name) = .ok problems) :
    problems.flatten = [] ↔ ∀ row ∈ found, Retrieved context row := by
  have hrows := forall₂_of_ok h
  clear h
  induction hrows with
  | nil => simp
  | @cons row problem found problems hrow _ ih =>
    have hrest : problems.flatten = [] ↔ ∀ row ∈ found, Retrieved context row := ih
    rw [List.flatten_cons, List.append_eq_nil_iff, retrievalProblems_ok hrow, hrest,
      List.forall_mem_cons]

theorem isReused_iff {scenario : List Char} {row : Row} :
    isReused scenario row = true ↔ Reused scenario row := by
  have hretry : (match field row (chars "retry") with
      | .str s => !s.isEmpty
      | _ => false) = true ↔ ∃ s, field row (chars "retry") = .str s ∧ s ≠ [] := by
    cases field row (chars "retry") <;> simp
  rw [isReused, Bool.and_eq_true, Bool.and_eq_true, isTrue_iff, hretry, Bool.or_eq_true, isTrue_iff,
    bne_iff_ne]
  constructor
  · intro ⟨⟨hcancelled, hconfirmed⟩, hs⟩
    exact ⟨hcancelled, fun h ↦ hconfirmed.resolve_left (fun hne ↦ hne h), hs⟩
  · intro ⟨hcancelled, hconfirmed, hs⟩
    exact ⟨⟨hcancelled, or_iff_not_imp_left.mpr fun h ↦ hconfirmed (not_not.mp h)⟩, hs⟩

end Checks

section Reflection

variable {relevant : List Row} {context : ℤ} {phase : List Char}

/-- The findings tell whether the requirements are flawed or uncovered. -/
structure Reflects (relevant : List Row) (findings : List Findings)
    (requirements : List (Requirement Row)) : Prop where
  problems : findings.flatMap Findings.problems = [] ↔ ¬ Flawed requirements relevant
  missing : findings.flatMap Findings.missing = [] ↔ Covered requirements relevant

theorem Reflects.nil : Reflects relevant [] [] :=
  ⟨by simp [Flawed], by simp [Covered]⟩

theorem Reflects.append {fs gs : List Findings} {rs ts : List (Requirement Row)}
    (h : Reflects relevant fs rs) (h' : Reflects relevant gs ts) :
    Reflects relevant (fs ++ gs) (rs ++ ts) := by
  constructor
  · rw [List.flatMap_append, List.append_eq_nil_iff, h.problems, h'.problems, flawed_append, not_or]
  · rw [List.flatMap_append, List.append_eq_nil_iff, h.missing, h'.missing, covered_append]

theorem Reflects.map {α : Type} {xs : List α} {fs : List Findings} {r : α → Requirement Row}
    (h : List.Forall₂ (fun x f ↦ Reflects relevant [f] [r x]) xs fs) :
    Reflects relevant fs (xs.map r) := by
  induction h with
  | nil => exact .nil
  | cons hhead _ ih => exact hhead.append ih

theorem Reflects.flatten {α : Type} {xs : List α} {fss : List (List Findings)}
    {r : α → List (Requirement Row)}
    (h : List.Forall₂ (fun x fs ↦ Reflects relevant fs (r x)) xs fss) :
    Reflects relevant fss.flatten (xs.flatMap r) := by
  induction h with
  | nil => exact .nil
  | cons hhead _ ih => exact hhead.append ih

/-- No row of the kind, and so none that is wrong. -/
theorem Reflects.absent {r : Requirement Row} {applies : Row → Bool} {name : List Char}
    (happlies : ∀ row, r.applies row ↔ applies row = true)
    (h : (relevant.filter applies).isEmpty = true) : Reflects relevant [⟨[], [name]⟩] [r] := by
  rw [List.isEmpty_iff, List.filter_eq_nil_iff] at h
  constructor
  · refine iff_of_true (by simp) ?_
    intro ⟨r', hr', row, hrow, hr, _⟩
    obtain rfl := List.mem_singleton.mp hr'
    exact h row hrow ((happlies row).mp hr)
  · refine iff_of_false (by simp) ?_
    intro hcovered
    obtain ⟨row, hrow, hr⟩ := hcovered r (List.mem_singleton_self _)
    exact h row hrow ((happlies row).mp hr)

theorem Reflects.present {r : Requirement Row} {applies : Row → Bool} {problems : List (List Char)}
    (happlies : ∀ row, r.applies row ↔ applies row = true)
    (h : ¬ (relevant.filter applies).isEmpty = true)
    (hproblems : problems = [] ↔ ∀ row ∈ relevant.filter applies, r.meets row) :
    Reflects relevant [⟨problems, []⟩] [r] := by
  constructor
  · rw [List.flatMap_singleton, hproblems]
    constructor
    · intro hall ⟨r', hr', row, hrow, hr, hnot⟩
      obtain rfl := List.mem_singleton.mp hr'
      exact hnot (hall row (List.mem_filter.mpr ⟨hrow, (happlies row).mp hr⟩))
    · intro hclean row hrow
      rw [List.mem_filter] at hrow
      by_contra hnot
      exact hclean ⟨r, List.mem_singleton_self _, row, hrow.1, (happlies row).mpr hrow.2, hnot⟩
  · refine iff_of_true (by simp) ?_
    intro r' hr'
    obtain rfl := List.mem_singleton.mp hr'
    obtain ⟨row, hrow⟩ := List.exists_mem_of_ne_nil _ (fun hnil ↦ h (List.isEmpty_iff.mpr hnil))
    rw [List.mem_filter] at hrow
    exact ⟨row, hrow.1, (happlies row).mpr hrow.2⟩

theorem evaluatePosition_ok {position : Position} {f : Findings}
    (h : evaluatePosition relevant context phase position = .ok f) :
    Reflects relevant [f] [retrieval context phase position] := by
  unfold evaluatePosition at h
  simp only at h
  split_ifs at h with hfound
  · obtain rfl := Except.ok.inj h
    exact .absent (fun _ ↦ Iff.rfl) hfound
  · rw [bind_eq_ok] at h
    obtain ⟨problems, hproblems, h⟩ := h
    obtain rfl := Except.ok.inj h
    exact .present (fun _ ↦ Iff.rfl) hfound (retrievals_ok hproblems)

theorem evaluateScenario_reflects (scenario : List Char) :
    Reflects relevant [evaluateScenario relevant phase scenario]
      [scenarioRequirement phase scenario] := by
  unfold evaluateScenario
  simp only
  split_ifs with hfound hfull
  · exact .absent (fun _ ↦ Iff.rfl) hfound
  · refine .present (fun _ ↦ Iff.rfl) hfound ?_
    rw [report_eq_nil, List.all_eq_true]
    simp only [scenarioRequirement, if_pos hfull, isContextFull, equal_text, ContextFull]
  · refine .present (fun _ ↦ Iff.rfl) hfound ?_
    rw [report_eq_nil, List.all_eq_true]
    simp only [scenarioRequirement, if_neg hfull, isReused_iff]

theorem evaluatePhase_ok {fs : List Findings} (h : evaluatePhase relevant context phase = .ok fs) :
    Reflects relevant fs (positions.map (retrieval context phase) ++
      scenarios.map (scenarioRequirement phase)) := by
  obtain ⟨retrievals, hretrievals, h⟩ := bind_eq_ok.mp h
  obtain rfl := Except.ok.inj h
  refine (Reflects.map ((forall₂_of_ok hretrievals).imp fun _ _ ↦ evaluatePosition_ok)).append ?_
  refine Reflects.map (List.forall₂_map_right_iff.mpr (List.forall₂_same.mpr fun scenario _ ↦ ?_))
  exact evaluateScenario_reflects scenario

end Reflection

section Verdict

variable {rows more : List Row} {exitCode : ℤ} {backend : List Char} {context : ℤ}
  {requestedMedia : List (List Char)} {e e' : Evaluation}

/-- The kinds of media that a run was given have been tried, the last time with an answer. -/
def MediaValidated (requestedMedia : List (List Char)) (relevant : List Row) : Prop :=
  ∀ kind ∈ kinds, kind ∈ requestedMedia → isMediaValidated (mediaStatus relevant kind) = true

variable (exitCode) in
theorem status_of_lists {problems missing : List (List Char)} {flawed covered : Prop}
    (hproblems : problems = [] ↔ ¬ flawed) (hmissing : missing = [] ↔ covered) :
    let status : Status :=
      if exitCode ≠ 0 ∨ problems ≠ [] then .failed
      else if missing ≠ [] then .incomplete
      else .passed
    (status = .failed ↔ exitCode ≠ 0 ∨ flawed) ∧
      (status = .passed ↔ exitCode = 0 ∧ ¬ flawed ∧ covered) := by
  intro status
  have hflawed : problems ≠ [] ↔ flawed := by rw [ne_eq, hproblems, not_not]
  have hcovered : missing ≠ [] ↔ ¬ covered := by rw [ne_eq, hmissing]
  by_cases hbad : exitCode ≠ 0 ∨ problems ≠ []
  · have hstatus : status = .failed := if_pos hbad
    rw [hflawed] at hbad
    refine ⟨iff_of_true hstatus hbad, iff_of_false (by rw [hstatus]; exact nofun) ?_⟩
    intro ⟨hzero, hclean, _⟩
    exact hbad.elim (fun h ↦ h hzero) hclean
  · have hgood : exitCode = 0 ∧ ¬ flawed := by
      rw [not_or, not_not, hflawed] at hbad
      exact hbad
    by_cases hgap : missing ≠ []
    · have hstatus : status = .incomplete := (if_neg hbad).trans (if_pos hgap)
      rw [hcovered] at hgap
      rw [hstatus]
      exact ⟨iff_of_false nofun fun h ↦ h.elim (fun h ↦ h hgood.1) hgood.2,
        iff_of_false nofun fun h ↦ hgap h.2.2⟩
    · have hstatus : status = .passed := (if_neg hbad).trans (if_neg hgap)
      rw [hcovered, not_not] at hgap
      rw [hstatus]
      exact ⟨iff_of_false nofun fun h ↦ h.elim (fun h ↦ h hgood.1) hgood.2,
        iff_of_true rfl ⟨hgood.1, hgood.2, hgap⟩⟩

theorem evaluateRun_status
    (h : evaluateRun rows exitCode backend context requestedMedia = .ok e) :
    let relevant := rows.filter (isRelevant backend context)
    (e.automatedStatus = .failed ↔ exitCode ≠ 0 ∨ Flawed (requirements context) relevant) ∧
      (e.automatedStatus = .passed ↔ exitCode = 0 ∧ Shown (requirements context) relevant ∧
        MediaValidated requestedMedia relevant) := by
  intro relevant
  rw [evaluateRun, bind_eq_ok] at h
  obtain ⟨findings, hfindings, h⟩ := h
  obtain rfl := Except.ok.inj h
  have hphases := Reflects.flatten ((forall₂_of_ok hfindings).imp fun _ _ ↦ evaluatePhase_ok)
  have hsummary : Covered [summary] relevant ↔ relevant.any isSummary = true := by
    simp [Covered, summary]
  have hclean : ¬ Flawed [summary] relevant := by simp [Flawed, summary]
  have hmedia : (kinds.flatMap fun kind ↦
      report (!requestedMedia.contains kind || isMediaValidated (mediaStatus relevant kind))
        (chars "media_" ++ kind ++ chars " requested but not validated")) = [] ↔
      MediaValidated requestedMedia relevant := by
    simp only [List.flatMap_eq_nil_iff, report_eq_nil, Bool.or_eq_true, Bool.not_eq_true',
      List.contains_eq_mem, decide_eq_false_iff_not, MediaValidated, imp_iff_not_or]
  have hproblems : findings.flatten.flatMap Findings.problems = [] ↔
      ¬ Flawed (requirements context) relevant := by
    rw [hphases.problems, requirements, flawed_append, or_iff_left hclean]
  have hmissing : findings.flatten.flatMap Findings.missing ++
      report (relevant.any isSummary) (chars "summary") ++ (kinds.flatMap fun kind ↦
        report (!requestedMedia.contains kind || isMediaValidated (mediaStatus relevant kind))
          (chars "media_" ++ kind ++ chars " requested but not validated")) = [] ↔
      Covered (requirements context) relevant ∧ MediaValidated requestedMedia relevant := by
    rw [List.append_eq_nil_iff, List.append_eq_nil_iff, hphases.missing, report_eq_nil, hmedia,
      requirements, covered_append, hsummary]
  obtain ⟨hfailed, hpassed⟩ := status_of_lists exitCode hproblems hmissing
  refine ⟨hfailed, hpassed.trans ?_⟩
  rw [shown_iff]
  constructor
  · rintro ⟨hexit, hclean, hcovered, hmedia⟩
    exact ⟨hexit, ⟨hcovered, hclean⟩, hmedia⟩
  · rintro ⟨hexit, ⟨hcovered, hclean⟩, hmedia⟩
    exact ⟨hexit, hclean, hcovered, hmedia⟩

/-- A run that failed still fails when further rows come in between. -/
theorem evaluateRun_absorbs (hsublist : rows.Sublist more)
    (h : evaluateRun rows exitCode backend context requestedMedia = .ok e)
    (hfailed : e.automatedStatus = .failed)
    (h' : evaluateRun more exitCode backend context requestedMedia = .ok e') :
    e'.automatedStatus = .failed := by
  rw [(evaluateRun_status h').1]
  rcases (evaluateRun_status h).1.mp hfailed with hexit | hflawed
  · exact .inl hexit
  · exact .inr (hflawed.mono (hsublist.filter _).subset)

/-- `model` and `budget` are objects where a row has them. -/
def WellTyped (row : Row) : Prop :=
  ∀ name ∈ [chars "model", chars "budget"], ∃ fields, subfields row name = .ok fields

theorem exists_mapM_ok {ε α β : Type} {f : α → Except ε β} {xs : List α}
    (h : ∀ x ∈ xs, ∃ y, f x = .ok y) : ∃ ys, xs.mapM f = .ok ys := by
  induction xs with
  | nil => exact ⟨[], rfl⟩
  | cons x xs ih =>
    obtain ⟨y, hy⟩ := h x (List.mem_cons_self ..)
    obtain ⟨ys, hys⟩ := ih fun x hx ↦ h x (List.mem_cons_of_mem _ hx)
    refine ⟨y :: ys, ?_⟩
    rw [List.mapM_cons, hy, hys]
    rfl

theorem exists_retrievalProblems (name : List Char) {row : Row} (hrow : WellTyped row)
    (hcontext : ∃ least, nearCapacity context = .ok least) :
    ∃ problems, retrievalProblems context name row = .ok problems := by
  obtain ⟨model, hmodel⟩ := hrow (chars "model") (by simp)
  obtain ⟨budget, hbudget⟩ := hrow (chars "budget") (by simp)
  obtain ⟨least, hleast⟩ := hcontext
  obtain ⟨exact, hexact⟩ : ∃ exact, exactBudget context budget = .ok exact := by
    unfold exactBudget
    split
    · split_ifs
      · rw [hleast]
        exact ⟨_, rfl⟩
      · exact ⟨_, rfl⟩
    · exact ⟨_, rfl⟩
  simp only [retrievalProblems, hmodel, hbudget, bind, Except.bind, hexact]
  exact ⟨_, rfl⟩

/-- Well-typed rows are always evaluated to the end. -/
theorem evaluateRun_returns (hrows : ∀ row ∈ rows, WellTyped row)
    (hcontext : ∃ least, nearCapacity context = .ok least) :
    ∃ e, evaluateRun rows exitCode backend context requestedMedia = .ok e := by
  have hposition (phase : List Char) (position : Position) :
      ∃ f, evaluatePosition (rows.filter (isRelevant backend context)) context phase position =
        .ok f := by
    unfold evaluatePosition
    simp only
    split_ifs
    · exact ⟨_, rfl⟩
    · obtain ⟨problems, hproblems⟩ := exists_mapM_ok fun row hrow ↦
        exists_retrievalProblems (phase ++ chars "/retrieval/" ++ position.shown)
          (hrows row (List.mem_of_mem_filter (List.mem_of_mem_filter hrow))) hcontext
      exact ⟨_, bind_eq_ok.mpr ⟨problems, hproblems, rfl⟩⟩
  have hphase (phase : List Char) :
      ∃ fs, evaluatePhase (rows.filter (isRelevant backend context)) context phase = .ok fs := by
    obtain ⟨retrievals, hretrievals⟩ := exists_mapM_ok fun position _ ↦ hposition phase position
    exact ⟨_, bind_eq_ok.mpr ⟨retrievals, hretrievals, rfl⟩⟩
  obtain ⟨findings, hfindings⟩ := exists_mapM_ok fun phase _ ↦ hphase phase
  exact ⟨_, bind_eq_ok.mpr ⟨findings, hfindings, rfl⟩⟩

/-- A run only passes on a zero exit code and on rows of its own backend and
context that show every retrieval and scenario of both phases and a summary, and
show no bad one. Other rows are not looked at, and no row undoes a failure. -/
theorem evaluateRun_fail_closed (exitCode : ℤ) (backend : List Char) (context : ℤ)
    (requestedMedia : List (List Char)) :
    (∀ rows e, evaluateRun rows exitCode backend context requestedMedia = .ok e →
      e.automatedStatus = .passed → exitCode = 0 ∧
        Shown (requirements context) (rows.filter (isRelevant backend context))) ∧
    (∀ rows rows' : List Row,
      rows.filter (isRelevant backend context) = rows'.filter (isRelevant backend context) →
        evaluateRun rows exitCode backend context requestedMedia =
          evaluateRun rows' exitCode backend context requestedMedia) ∧
    (∀ rows more e e', rows.Sublist more →
      evaluateRun rows exitCode backend context requestedMedia = .ok e →
      e.automatedStatus = .failed →
      evaluateRun more exitCode backend context requestedMedia = .ok e' →
        e'.automatedStatus = .failed) ∧
    (0 ≤ context → context < 2 ^ 53 → ∃ least, nearCapacity context = .ok least ∧
      97 * context / 100 ≤ least ∧ (context ≤ 2 ^ 46 → least = 97 * context / 100)) := by
  refine ⟨fun rows e h hpassed ↦ ?_, fun rows rows' h ↦ ?_, fun _ _ _ _ ↦ evaluateRun_absorbs,
    nearCapacity_spec⟩
  · obtain ⟨hexit, hshown, -⟩ := (evaluateRun_status h).2.mp hpassed
    exact ⟨hexit, hshown⟩
  · rw [evaluateRun, evaluateRun, h]

end Verdict

section Execution

variable (parse : List Char → Double)

structure Run where
  stdout : List Char
  exitCode : ℤ
  backend : List Char
  context : ℤ
  requestedMedia : List (List Char)

def recordedStatus (run : Run) : Except Raised Status := do
  let (rows, errors) := parseReports parse run.stdout
  let e ← evaluateRun rows run.exitCode run.backend run.context run.requestedMedia
  return if errors.isEmpty then e.automatedStatus
    else if run.exitCode = 0 then .incomplete
    else .failed

def executePasses (runs : List Run) : Except Raised Bool := do
  let statuses ← runs.mapM (recordedStatus parse)
  return statuses.all (· == .passed)

variable {parse}

theorem recordedStatus_passed {run : Run} (h : recordedStatus parse run = .ok .passed) :
    (parseReports parse run.stdout).2 = [] ∧ run.exitCode = 0 ∧ Shown (requirements run.context)
      ((parseReports parse run.stdout).1.filter (isRelevant run.backend run.context)) := by
  obtain ⟨e, he, h⟩ := bind_eq_ok.mp h
  have hstatus := Except.ok.inj h
  split_ifs at hstatus with hread
  obtain ⟨hexit, hshown, -⟩ := (evaluateRun_status he).2.mp hstatus
  exact ⟨List.isEmpty_iff.mp hread, hexit, hshown⟩

/-- What passes was read without an error from the output of processes that
ended well, and shows all that is required of each of them. -/
theorem executePasses_sound {runs : List Run} (h : executePasses parse runs = .ok true) :
    ∀ run ∈ runs, (parseReports parse run.stdout).2 = [] ∧ run.exitCode = 0 ∧
      Shown (requirements run.context)
        ((parseReports parse run.stdout).1.filter (isRelevant run.backend run.context)) := by
  obtain ⟨statuses, hstatuses, hpassed⟩ := bind_eq_ok.mp h
  have hall := List.all_eq_true.mp (Except.ok.inj hpassed)
  have hruns := forall₂_of_ok hstatuses
  clear hstatuses hpassed h
  induction hruns with
  | nil => simp
  | cons hrun _ ih =>
    rw [List.forall_mem_cons] at hall ⊢
    rw [beq_iff_eq] at hall
    rw [hall.1] at hrun
    exact ⟨recordedStatus_passed hrun, ih hall.2⟩

end Execution

namespace Scenario

def entry (name : List Char) (value : Value Double) : List CodePoint × Value Double :=
  (name.map ofChar, value)

def row (backend : List Char) (context : ℤ) (phase scenario : List Char) (rest : Row) : Row :=
  entry (chars "backend") (text backend) :: entry (chars "context") (.int context) ::
    entry (chars "phase") (text phase) :: entry (chars "scenario") (text scenario) :: rest

def model (context : ℤ) : Value Double :=
  .obj ((identity context).map fun field ↦ entry field.1 field.2)

def budget (required : ℤ) : Value Double :=
  .obj [entry (chars "exact") (.bool true), entry (chars "requiredTokens") (.int required)]

def rows : List Row :=
  (phases.flatMap fun phase ↦
    positions.map (fun position ↦ row (chars "cpu") 4096 phase (chars "retrieval")
      [entry (chars "position") (.float (.finite position.value)),
        entry (chars "retrievalCorrect") (.bool true), entry (chars "model") (model 4096),
        entry (chars "budget") (budget 4000)]) ++
    [row (chars "cpu") 4096 phase (chars "cancel_prefill")
        [entry (chars "cancelled") (.bool true), entry (chars "retry") (text (chars "OK"))],
      row (chars "cpu") 4096 phase (chars "cancel_decode")
        [entry (chars "cancelled") (.bool true), entry (chars "phaseConfirmed") (.bool true),
          entry (chars "retry") (text (chars "OK"))],
      row (chars "cpu") 4096 phase (chars "multi_turn_full")
        [entry (chars "failure") (text (chars "context-full"))]]) ++
  [row (chars "cpu") 4096 [] (chars "summary") []]

end Scenario

theorem rows_pass : ∃ e, evaluateRun Scenario.rows 0 (chars "cpu") 4096 [] = .ok e ∧
    e.automatedStatus = .passed ∧ Shown (requirements 4096)
      (Scenario.rows.filter (isRelevant (chars "cpu") 4096)) := by
  have hstatus : (evaluateRun Scenario.rows 0 (chars "cpu") 4096 []).map
      Evaluation.automatedStatus = .ok .passed := by decide +kernel
  cases hrun : evaluateRun Scenario.rows 0 (chars "cpu") 4096 [] with
  | error error =>
    rw [hrun] at hstatus
    cases hstatus
  | ok e =>
    rw [hrun] at hstatus
    have hpassed : e.automatedStatus = .passed := Except.ok.inj hstatus
    exact ⟨e, rfl, hpassed,
      ((evaluateRun_fail_closed 0 (chars "cpu") 4096 []).1 Scenario.rows e hrun hpassed).2⟩

end LibLitertLm.Tool.Validation
