import LibLitertLm.Types.Normalization
import LibLitertLm.Worker.Narrowing
import Mathlib.Algebra.Order.Field.Rat
import Mathlib.Data.Nat.Cast.Order.Ring
import Mathlib.Tactic.NormNum

namespace LibLitertLm.Server

inductive Decoded
  | null
  | bool (b : Bool)
  | int (n : ℤ)
  | double (x : Double)
  | str (s : String)
  | arr (items : List Decoded)
  | obj (fields : List (String × Decoded))

abbrev Body := List (String × Decoded)

def chatPath : String := "/v1/chat/completions"

/-- To the nearest multiple of the unit, and of two the even one. -/
def roundToUnit (n unit : ℕ) : ℕ :=
  let q := n / unit
  if 2 * (n % unit) < unit || (2 * (n % unit) == unit && q % 2 == 0) then q * unit
  else (q + 1) * unit

/-- `int.toDouble`: 53 bits are kept. -/
def toDouble (n : ℤ) : Double :=
  let magnitude : ℕ := roundToUnit n.natAbs (2 ^ (Nat.log2 n.natAbs - 52))
  .finite (if n < 0 then -(magnitude : ℚ) else magnitude)

section Messages

def isText : Option Decoded → Bool
  | some (.str s) => s == "text"
  | _ => false

def partFromRequest : Decoded → Option Content
  | .obj part =>
    if !isText (part.lookup "type") then none
    else match part.lookup "text" with
      | some (.str text) =>
        if part.any fun field ↦ field.1 != "type" && field.1 != "text" then none
        else some (.text text)
      | _ => none
  | _ => none

def contentsFromRequest : Option Decoded → Option (List Content)
  | some (.str content) => some [.text content]
  | some (.arr parts) => parts.mapM partFromRequest
  | _ => none

def messageFromRequest : Decoded → Option ChatMessage
  | .obj message =>
    if message.any fun field ↦ field.1 != "role" && field.1 != "content" then none
    else match message.lookup "role" with
      | some (.str role) =>
        if !(["system", "user", "assistant"].contains role) then none
        else (contentsFromRequest (message.lookup "content")).map (⟨role, ·⟩)
      | _ => none
  | _ => none

def messagesFromRequest (messages : List Decoded) : Option (List ChatMessage) :=
  if messages.isEmpty then none else messages.mapM messageFromRequest

def completionPrompt : Option Decoded → Option String
  | some (.str prompt) => some prompt
  | some (.arr [.str prompt]) => some prompt
  | _ => none

end Messages

section Parameters

variable (path : String) (body : Body)

def containsKey (key : String) : Bool := (body.lookup key).isSome

def singleChoiceOnly : Bool :=
  !containsKey body "n" || match body.lookup "n" with
    | some (.int n) => n == 1
    | _ => false

def supported : List String :=
  ["model", if path = chatPath then "messages" else "prompt", "stream", "n", "temperature",
    "top_k", "topK", "max_tokens", "maxTokens", "seed", "apply_prompt_template"]

def isBool : Option Decoded → Bool
  | some (.bool _) => true
  | _ => false

def isFalse : Option Decoded → Bool
  | some (.bool b) => !b
  | _ => false

/-- `body[key] is! int`, or an integer out of range. -/
def invalidInt (key : String) : Bool :=
  match body.lookup key with
  | some (.int n) => 2147483647 < n || n < (if key = "seed" then -2147483648 else 1)
  | _ => true

def invalidTemperature : Option Decoded → Bool
  | some (.int n) => n < 0
  | some (.double x) => !x.isFinite || x.isNegative
  | _ => true

def invalidParameter : Option String :=
  ((body.map Prod.fst).find? fun key ↦ !(supported path).contains key)
    <|> (if containsKey body "stream" && !isBool
      (body.lookup "stream") then some "stream" else none)
    <|> (if containsKey body "apply_prompt_template" &&
        (!isBool (body.lookup "apply_prompt_template") ||
          (path == chatPath && isFalse (body.lookup "apply_prompt_template")))
      then some "apply_prompt_template" else none)
    <|> (["top_k", "topK", "max_tokens", "maxTokens", "seed"].find? fun key ↦
      containsKey body key && invalidInt body key)
    <|> (if containsKey body "temperature" && invalidTemperature (body.lookup "temperature")
      then some "temperature" else none)

def asInt (key : String) : Option ℤ :=
  match body.lookup key with
  | some (.int n) => some n
  | _ => none

def asDouble (key : String) : Option Double :=
  match body.lookup key with
  | some (.int n) => some (toDouble n)
  | some (.double x) => some x
  | _ => none

def asBool (key : String) : Option Bool :=
  match body.lookup key with
  | some (.bool b) => some b
  | _ => none

def paramsFromRequest (defaults : GenerationParams) : Except String GenerationParams :=
  match invalidParameter path body with
  | some key => .error key
  | none => .ok
    { temperature := (asDouble body "temperature").getD defaults.temperature
      topK := (asInt body "top_k" <|> asInt body "topK").getD defaults.topK
      maxTokens := (asInt body "max_tokens" <|> asInt body "maxTokens").getD defaults.maxTokens
      seed := asInt body "seed" <|> defaults.seed
      applyPromptTemplate :=
        (asBool body "apply_prompt_template").getD defaults.applyPromptTemplate }

end Parameters

section Prompt

inductive SamePart : Decoded → Content → Prop
  | text {part : List (String × Decoded)} {text : String}
    (htype : part.lookup "type" = some (.str "text"))
    (htext : part.lookup "text" = some (.str text)) : SamePart (.obj part) (.text text)

inductive SameContents : Option Decoded → List Content → Prop
  | text (text : String) : SameContents (some (.str text)) [.text text]
  | parts {parts : List Decoded} {contents : List Content}
    (h : List.Forall₂ SamePart parts contents) : SameContents (some (.arr parts)) contents

/-- A message of the request and the one handed on have the same role and the
same parts, in the same order. -/
inductive SameMessage : Decoded → ChatMessage → Prop
  | mk {message : List (String × Decoded)} {role : String} {contents : List Content}
    (hrole : message.lookup "role" = some (.str role))
    (hknown : role ∈ ["system", "user", "assistant"])
    (hcontents : SameContents (message.lookup "content") contents) :
    SameMessage (.obj message) ⟨role, contents⟩

theorem forall₂_of_mapM {α β : Type} {f : α → Option β} {R : α → β → Prop}
    (h : ∀ a b, f a = some b → R a b) {as : List α} {bs : List β} (hm : as.mapM f = some bs) :
    List.Forall₂ R as bs := by
  induction as generalizing bs with
  | nil =>
    obtain rfl : [] = bs := by simpa using hm
    exact .nil
  | cons a as ih =>
    obtain ⟨b, hb, bs', hbs, rfl⟩ : ∃ b, f a = some b ∧ ∃ bs', as.mapM f = some bs' ∧
      b :: bs' = bs := by
      simpa [List.mapM_cons, Option.bind_eq_some_iff] using hm
    exact .cons (h a b hb) (ih hbs)

theorem samePart_of_request {part : Decoded} {content : Content}
    (h : partFromRequest part = some content) : SamePart part content := by
  unfold partFromRequest at h
  split at h
  next part =>
    have htype : part.lookup "type" = some (.str "text") := by
      by_contra hne
      have hfalse : isText (part.lookup "type") = false := by
        unfold isText
        split
        next s hs =>
          rw [hs] at hne
          simpa using fun heq ↦ hne (by rw [heq])
        · rfl
      simp [hfalse] at h
    cases htext : part.lookup "text" with
    | none => simp [htext] at h
    | some value =>
      cases value with
      | str text =>
        have hcontent : .text text = content := by
          simp only [htext] at h
          split_ifs at h
          exact Option.some.inj h
        subst hcontent
        exact .text htype htext
      | _ => simp [htext] at h
  next => cases h

theorem sameContents_of_request {value : Option Decoded} {contents : List Content}
    (h : contentsFromRequest value = some contents) : SameContents value contents := by
  unfold contentsFromRequest at h
  split at h
  next text =>
    cases h
    exact .text text
  next parts => exact .parts (forall₂_of_mapM (fun _ _ ↦ samePart_of_request) h)
  next => cases h

theorem sameMessage_of_request {value : Decoded} {message : ChatMessage}
    (h : messageFromRequest value = some message) : SameMessage value message := by
  unfold messageFromRequest at h
  split at h
  next fields =>
    split_ifs at h
    cases hrole : fields.lookup "role" with
    | none => simp [hrole] at h
    | some value =>
      cases value with
      | str role =>
        simp only [hrole] at h
        split_ifs at h with hunknown
        obtain ⟨contents, hcontents, rfl⟩ := Option.map_eq_some_iff.mp h
        rw [Bool.not_eq_true, Bool.not_eq_false'] at hunknown
        exact .mk hrole (List.contains_iff_mem.mp hunknown) (sameContents_of_request hcontents)
      | _ => simp [hrole] at h
  next => cases h

theorem sameMessages_of_request {messages : List Decoded} {prompt : List ChatMessage}
    (h : messagesFromRequest messages = some prompt) :
      List.Forall₂ SameMessage messages prompt := by
  unfold messagesFromRequest at h
  split_ifs at h
  exact forall₂_of_mapM (fun _ _ ↦ sameMessage_of_request) h

end Prompt

section Wire

structure Textual (message : ChatMessage) : Prop where
  role : message.role ∈ ["system", "user", "assistant"]
  contents : ∀ content ∈ message.contents, ∃ text, content = .text text

theorem SameContents.texts {value : Option Decoded} {contents : List Content}
    (h : SameContents value contents) : ∀ content ∈ contents, ∃ text, content = .text text := by
  cases h with
  | text text => exact fun content hcontent ↦ ⟨text, List.mem_singleton.mp hcontent⟩
  | parts h =>
    induction h with
    | nil => simp
    | cons hpart _ ih =>
      cases hpart with
      | text => exact List.forall_mem_cons.mpr ⟨⟨_, rfl⟩, ih⟩

theorem SameMessage.textual {value : Decoded} {message : ChatMessage}
    (h : SameMessage value message) :
    Textual message := by
  cases h with
  | mk hrole hknown hcontents => exact ⟨hknown, hcontents.texts⟩

theorem textual_of_same {messages : List Decoded} {prompt : List ChatMessage}
    (h : List.Forall₂ SameMessage messages prompt) : ∀ message ∈ prompt, Textual message := by
  induction h with
  | nil => simp
  | cons hmessage _ ih => exact List.forall_mem_cons.mpr ⟨hmessage.textual, ih⟩

def textItem (content : Content) : Json :=
  match content with
  | .text text => .obj [("type", .str "text"), ("text", .str text)]
  | _ => .null

def wire (message : ChatMessage) : Message :=
  [("role", .str message.role), ("content", .arr (message.contents.map textItem))]

variable {message : ChatMessage} {prompt : List ChatMessage}

theorem mapM_textItem {contents : List Content}
    (h : ∀ content ∈ contents, ∃ text, content = .text text) (base64Encode : List UInt8 → String) :
    contents.mapM (contentToJson base64Encode) = .ok (contents.map textItem) := by
  induction contents with
  | nil => rfl
  | cons content contents ih =>
    obtain ⟨text, rfl⟩ := h content (by simp)
    rw [List.mapM_cons, ih fun content hcontent ↦ h content (by simp [hcontent])]
    rfl

theorem Textual.toJson (h : Textual message) (base64Encode : List UInt8 → String) :
    message.toJson base64Encode = .ok (wire message) := by
  have hnormal : normalizeContents none message.contents = .ok message.contents := by
    refine normalizeContents_self fun content hcontent ↦ ?_
    obtain ⟨text, rfl⟩ := h.contents content hcontent
    rfl
  rw [ChatMessage.toJson, if_pos (List.contains_iff_mem.mpr h.role), hnormal]
  simp only [bind, Except.bind, mapM_textItem h.contents base64Encode]
  rfl

theorem toJson_textual (h : ∀ message ∈ prompt, Textual message)
    (base64Encode : List UInt8 → String) :
    prompt.mapM (ChatMessage.toJson base64Encode) = .ok (prompt.map wire) := by
  induction prompt with
  | nil => rfl
  | cons message prompt ih =>
    rw [List.mapM_cons, (h message (by simp)).toJson, ih fun m hm ↦ h m (by simp [hm])]
    rfl

theorem forIn_passes {α : Type} {l : List α}
    {body : α → PUnit → Except Worker.Thrown (ForInStep PUnit)}
    (h : ∀ x ∈ l, body x .unit = .ok (.yield .unit)) : forIn l PUnit.unit body = .ok .unit := by
  induction l with
  | nil => rfl
  | cons x l ih =>
    rw [List.forIn_cons, h x (by simp)]
    exact ih fun y hy ↦ h y (by simp [hy])

theorem validateItem_text (rt : Worker.Runtime) (engine : Worker.NativeEngine) (text : String) :
    Worker.validateItem rt engine (textItem (.text text)) = .ok () := by
  rfl

/-- Text passes the worker's checks on modalities, which then look at the last role only. -/
theorem validateModalities_textual (rt : Worker.Runtime) (engine : Worker.NativeEngine)
    (h : ∀ message ∈ prompt, Textual message) :
    Worker.validateModalities rt engine (prompt.map wire) true =
      if prompt.getLast?.map ChatMessage.role = some "user" then .ok ()
      else .error (.failure (.invalidArgument "A generation must end with a user message")) := by
  have hlast : ((prompt.map wire).getLast?.any fun message ↦
      Worker.isStr (message.lookup "role") "user") =
        decide (prompt.getLast?.map ChatMessage.role = some "user") := by
    rw [List.getLast?_map]
    cases prompt.getLast? with
    | none => rfl
    | some message =>
      simp only [wire, Option.map_some, Option.any_some, List.lookup_cons, beq_self_eq_true,
        Worker.isStr, Option.some.injEq]
      rfl
  have hmessage (message : ChatMessage) (hmem : message ∈ prompt) :
      (forIn (message.contents.map textItem) PUnit.unit fun item _ ↦ do
        Worker.validateItem rt engine item
        pure (ForInStep.yield PUnit.unit)) = .ok PUnit.unit := by
    refine forIn_passes fun item hitem ↦ ?_
    obtain ⟨content, hcontent, rfl⟩ := List.mem_map.mp hitem
    obtain ⟨text, rfl⟩ := (h message hmem).contents content hcontent
    rw [validateItem_text]
    rfl
  have hpasses : (forIn (prompt.map wire) PUnit.unit fun message _ ↦ do
      let items ← Worker.content message
      for item in items do
        Worker.validateItem rt engine item
      pure (ForInStep.yield PUnit.unit)) = .ok PUnit.unit := by
    refine forIn_passes fun encoded hencoded ↦ ?_
    obtain ⟨message, hmem, rfl⟩ := List.mem_map.mp hencoded
    have hcontent : Worker.content (wire message) = .ok (message.contents.map textItem) := rfl
    rw [hcontent]
    exact congrArg (Except.bind · fun _ ↦ .ok (ForInStep.yield PUnit.unit)) (hmessage message hmem)
  unfold Worker.validateModalities
  rw [hlast]
  by_cases huser : prompt.getLast?.map ChatMessage.role = some "user"
  · simp only [huser, decide_true, Bool.not_true, Bool.and_false, if_true]
    exact congrArg (Except.bind · fun _ ↦ .ok ()) hpasses
  · simp only [huser, decide_false, if_false]
    rfl

end Wire

section Ranges

/-- What the worker can take: integers in range, and a temperature that is
finite and not negative. -/
structure Served (params : GenerationParams) : Prop where
  topK : 1 ≤ params.topK ∧ params.topK ≤ 2147483647
  maxTokens : 1 ≤ params.maxTokens ∧ params.maxTokens ≤ 2147483647
  seed : ∀ seed ∈ params.seed, IsInt32 seed
  temperature : params.temperature.isFinite = true ∧ params.temperature.isNegative = false

theorem Served.validParams {params : GenerationParams} (h : Served params) :
    Worker.validParams params = true := by
  obtain ⟨hfinite, hnegative⟩ := h.temperature
  have htopK : 0 < params.topK := by
    have hrange := h.topK
    omega
  have hmaxTokens : 0 < params.maxTokens := by
    have hrange := h.maxTokens
    omega
  simp [Worker.validParams, hfinite, hnegative, htopK, hmaxTokens]

def Chosen {α : Type} (body : Body) (keys : List String) (convert : Decoded → Option α)
    (default value : α) : Prop :=
  match keys.findSome? fun key ↦ body.lookup key with
  | some v => convert v = some value
  | none => value = default

def ofInt : Decoded → Option ℤ
  | .int n => some n
  | _ => none

def ofNumber : Decoded → Option Double
  | .int n => some (toDouble n)
  | .double x => some x
  | _ => none

def ofBool : Decoded → Option Bool
  | .bool b => some b
  | _ => none

/-- A parameter comes from the request whenever one of its keys is there. -/
structure Supplied (body : Body) (defaults params : GenerationParams) : Prop where
  topK : Chosen body ["top_k", "topK"] ofInt defaults.topK params.topK
  maxTokens : Chosen body ["max_tokens", "maxTokens"] ofInt defaults.maxTokens params.maxTokens
  seed : Chosen body ["seed"] (fun v ↦ (ofInt v).map some) defaults.seed params.seed
  temperature : Chosen body ["temperature"] ofNumber defaults.temperature params.temperature
  applyPromptTemplate : Chosen body ["apply_prompt_template"] ofBool
    defaults.applyPromptTemplate params.applyPromptTemplate

def intKeys : List String := ["top_k", "topK", "max_tokens", "maxTokens", "seed"]

def lowest (key : String) : ℤ := if key = "seed" then -2147483648 else 1

inductive Malformed (path : String) (body : Body) : Prop
  | unsupported (key : String) (v : Decoded) (h : body.lookup key = some v)
    (hkey : key ∉ supported path)
  | notBool (key : String) (v : Decoded) (h : body.lookup key = some v)
    (hkey : key = "stream" ∨ key = "apply_prompt_template") (hv : ofBool v = none)
  | notNumber (v : Decoded) (h : body.lookup "temperature" = some v) (hv : ofNumber v = none)
  | notInt (key : String) (v : Decoded) (h : body.lookup key = some v) (hkey : key ∈ intKeys)
    (hv : ofInt v = none)
  | outOfRange (key : String) (n : ℤ) (h : body.lookup key = some (.int n)) (hkey : key ∈ intKeys)
    (hn : n < lowest key ∨ 2147483647 < n)
  | choices (v : Decoded) (h : body.lookup "n" = some v) (hv : ofInt v ≠ some 1)

variable {path : String} {body : Body} {defaults params : GenerationParams}

structure WellTyped (path : String) (body : Body) : Prop where
  supported : ∀ key ∈ body.map Prod.fst, key ∈ supported path
  stream : ∀ v, body.lookup "stream" = some v → (ofBool v).isSome
  template : ∀ v, body.lookup "apply_prompt_template" = some v → (ofBool v).isSome
  ints : ∀ key ∈ intKeys, ∀ v, body.lookup key = some v →
    ∃ n, v = .int n ∧ lowest key ≤ n ∧ n ≤ 2147483647
  temperature : ∀ v, body.lookup "temperature" = some v →
    ∃ x, ofNumber v = some x ∧ x.isFinite = true ∧ x.isNegative = false

theorem toDouble_isNegative {n : ℤ} (hn : 0 ≤ n) : (toDouble n).isNegative = false := by
  have hnot : ¬ n < 0 := by omega
  have hmagnitude : ¬ ((roundToUnit n.natAbs (2 ^ (Nat.log2 n.natAbs - 52)) : ℕ) : ℚ) < 0 :=
    not_lt.mpr (Nat.cast_nonneg _)
  simp only [toDouble, if_neg hnot, Double.isNegative, decide_eq_false hmagnitude]

theorem containsKey_of_lookup {key : String} {v : Decoded} (h : body.lookup key = some v) :
    containsKey body key = true := by
  rw [containsKey, h]
  rfl

theorem ofBool_of_isBool {v : Decoded} (h : isBool (some v) = true) : (ofBool v).isSome := by
  cases v <;> first | rfl | cases h

theorem int_of_valid {key : String} (h : invalidInt body key = false) :
    ∃ n, body.lookup key = some (.int n) ∧ lowest key ≤ n ∧ n ≤ 2147483647 := by
  unfold invalidInt at h
  split at h
  next n hn =>
    rw [Bool.or_eq_false_iff, decide_eq_false_iff_not, decide_eq_false_iff_not] at h
    refine ⟨n, hn, ?_, by omega⟩
    rw [lowest]
    omega
  next => cases h

theorem number_of_valid {v : Decoded} (h : invalidTemperature (some v) = false) :
    ∃ x, ofNumber v = some x ∧ x.isFinite = true ∧ x.isNegative = false := by
  cases v with
  | int n =>
    have hn : ¬ n < 0 := of_decide_eq_false h
    exact ⟨toDouble n, rfl, rfl, toDouble_isNegative (by omega)⟩
  | double x =>
    obtain ⟨hfinite, hnegative⟩ := Bool.or_eq_false_iff.mp h
    exact ⟨x, rfl, by simpa using hfinite, hnegative⟩
  | _ => cases h

theorem wellTyped_of_valid (h : invalidParameter path body = none) : WellTyped path body := by
  simp only [invalidParameter, Option.orElse_eq_orElse, Option.orElse_eq_or,
    Option.or_eq_none_iff, List.find?_eq_none, ite_eq_right_iff, reduceCtorEq, imp_false,
    Bool.not_eq_true, Bool.and_eq_false_iff] at h
  obtain ⟨hsupported, hstream, htemplate, hints, htemperature⟩ := h
  refine ⟨fun key hkey ↦ ?_, fun v hv ↦ ?_, fun v hv ↦ ?_, fun key hkey v hv ↦ ?_, fun v hv ↦ ?_⟩
  · exact List.contains_iff_mem.mp (Bool.not_eq_eq_eq_not.mp (hsupported key hkey))
  · rw [containsKey_of_lookup hv, hv] at hstream
    exact ofBool_of_isBool (Bool.not_eq_eq_eq_not.mp (hstream.resolve_left (by simp)))
  · rw [containsKey_of_lookup hv, hv] at htemplate
    have hvalid := htemplate.resolve_left (by simp)
    exact ofBool_of_isBool (Bool.not_eq_eq_eq_not.mp (Bool.or_eq_false_iff.mp hvalid).1)
  · have hvalid := hints key hkey
    rw [containsKey_of_lookup hv] at hvalid
    obtain ⟨n, hn, hrange⟩ := int_of_valid (hvalid.resolve_left (by simp))
    rw [hv] at hn
    exact ⟨n, Option.some.inj hn, hrange⟩
  · rw [containsKey_of_lookup hv, hv] at htemperature
    exact number_of_valid (htemperature.resolve_left (by simp))

theorem paramsFromRequest_ok (h : paramsFromRequest path body defaults = .ok params) :
    WellTyped path body ∧ params =
      { temperature := (asDouble body "temperature").getD defaults.temperature
        topK := (asInt body "top_k" <|> asInt body "topK").getD defaults.topK
        maxTokens := (asInt body "max_tokens" <|> asInt body "maxTokens").getD defaults.maxTokens
        seed := asInt body "seed" <|> defaults.seed
        applyPromptTemplate :=
          (asBool body "apply_prompt_template").getD defaults.applyPromptTemplate } := by
  unfold paramsFromRequest at h
  split at h
  next => cases h
  next hvalid => exact ⟨wellTyped_of_valid hvalid, (Except.ok.inj h).symm⟩

theorem asInt_eq (key : String) : asInt body key = (body.lookup key).bind ofInt := by
  unfold asInt
  cases body.lookup key with
  | none => rfl
  | some v => cases v <;> rfl

theorem asDouble_eq (key : String) : asDouble body key = (body.lookup key).bind ofNumber := by
  unfold asDouble
  cases body.lookup key with
  | none => rfl
  | some v => cases v <;> rfl

theorem asBool_eq (key : String) : asBool body key = (body.lookup key).bind ofBool := by
  unfold asBool
  cases body.lookup key with
  | none => rfl
  | some v => cases v <;> rfl

/-- The first of two keys counts, then the other one. -/
theorem WellTyped.chosen (h : WellTyped path body) {key other : String} (hkey : key ∈ intKeys)
    (hother : other ∈ intKeys) (default : ℤ) :
    Chosen body [key, other] ofInt default
      ((asInt body key <|> asInt body other).getD default) := by
  rw [Chosen, asInt_eq, asInt_eq, List.findSome?_cons, List.findSome?_cons, List.findSome?_nil]
  cases hlookup : body.lookup key with
  | some v =>
    obtain ⟨n, rfl, -⟩ := h.ints key hkey v hlookup
    rfl
  | none =>
    cases hlookup' : body.lookup other with
    | some v =>
      obtain ⟨n, rfl, -⟩ := h.ints other hother v hlookup'
      rfl
    | none => rfl

/-- A chosen integer is in range when the default is. -/
theorem WellTyped.chosen_range (h : WellTyped path body) {key other : String} {default value : ℤ}
    (hkey : key ∈ intKeys) (hother : other ∈ intKeys) (hne : key ≠ "seed") (hne' : other ≠ "seed")
    (hdefault : 1 ≤ default ∧ default ≤ 2147483647)
    (hchosen : Chosen body [key, other] ofInt default value) : 1 ≤ value ∧ value ≤ 2147483647 := by
  rw [Chosen, List.findSome?_cons, List.findSome?_cons, List.findSome?_nil] at hchosen
  have hrange {k : String} {v : Decoded} (hk : k ∈ intKeys) (hne : k ≠ "seed")
      (hv : body.lookup k = some v) (hvalue : ofInt v = some value) :
      1 ≤ value ∧ value ≤ 2147483647 := by
    obtain ⟨n, rfl, hlow, hhigh⟩ := h.ints k hk v hv
    obtain rfl : n = value := Option.some.inj hvalue
    rw [lowest, if_neg hne] at hlow
    exact ⟨hlow, hhigh⟩
  cases hlookup : body.lookup key with
  | some v =>
    rw [hlookup] at hchosen
    exact hrange hkey hne hlookup hchosen
  | none =>
    rw [hlookup] at hchosen
    cases hlookup' : body.lookup other with
    | some v =>
      rw [hlookup'] at hchosen
      exact hrange hother hne' hlookup' hchosen
    | none =>
      rw [hlookup'] at hchosen
      obtain rfl : value = default := hchosen
      exact hdefault

theorem chosen_one {α : Type} {key : String} {convert : Decoded → Option α} {default : α}
    {found : Option α} (h : ∀ v, body.lookup key = some v → (convert v).isSome)
    (hfound : found = (body.lookup key).bind convert) :
    Chosen body [key] convert default (found.getD default) := by
  rw [Chosen, List.findSome?_cons, List.findSome?_nil, hfound]
  cases hlookup : body.lookup key with
  | none => rfl
  | some v =>
    obtain ⟨value, hvalue⟩ := Option.isSome_iff_exists.mp (h v hlookup)
    simp only [Option.bind_some, hvalue, Option.getD_some]

def Accepted (path : String) (body : Body) (defaults params : GenerationParams) : Prop :=
  singleChoiceOnly body = true ∧ paramsFromRequest path body defaults = .ok params

theorem Accepted.wellTyped (h : Accepted path body defaults params) : WellTyped path body :=
  (paramsFromRequest_ok h.2).1

theorem Accepted.supplied (h : Accepted path body defaults params) :
    Supplied body defaults params := by
  obtain ⟨htyped, rfl⟩ := paramsFromRequest_ok h.2
  refine ⟨htyped.chosen (by decide) (by decide) _,
    htyped.chosen (by decide) (by decide) _, ?_, ?_, ?_⟩
  · simp only [Chosen, List.findSome?_cons, List.findSome?_nil, asInt_eq]
    cases hlookup : body.lookup "seed" with
    | none => rfl
    | some v =>
      obtain ⟨n, rfl, -⟩ := htyped.ints "seed" (by decide) v hlookup
      rfl
  · refine chosen_one (fun v hv ↦ ?_) (asDouble_eq _)
    obtain ⟨x, hx, -⟩ := htyped.temperature v hv
    rw [hx]
    rfl
  · exact chosen_one htyped.template (asBool_eq _)

theorem Accepted.served (h : Accepted path body defaults params) (hdefaults : Served defaults) :
    Served params := by
  have htyped := h.wellTyped
  have hsupplied := h.supplied
  refine ⟨?_, ?_, fun seed hseed ↦ ?_, ?_⟩
  · exact htyped.chosen_range (by decide) (by decide) (by decide)
      (by decide) hdefaults.topK hsupplied.topK
  · exact htyped.chosen_range (by decide) (by decide) (by decide) (by decide) hdefaults.maxTokens
      hsupplied.maxTokens
  · have hchosen := hsupplied.seed
    rw [Chosen, List.findSome?_cons, List.findSome?_nil] at hchosen
    cases hlookup : body.lookup "seed" with
    | none =>
      rw [hlookup] at hchosen
      exact hdefaults.seed seed (hchosen ▸ hseed)
    | some v =>
      obtain ⟨n, rfl, hlow, hhigh⟩ := htyped.ints "seed" (by decide) v hlookup
      rw [hlookup, hseed] at hchosen
      obtain rfl : n = seed := Option.some.inj (Option.some.inj hchosen)
      rw [lowest, if_pos rfl] at hlow
      exact ⟨by omega, by omega⟩
  · have hchosen := hsupplied.temperature
    rw [Chosen, List.findSome?_cons, List.findSome?_nil] at hchosen
    cases hlookup : body.lookup "temperature" with
    | none =>
      rw [hlookup] at hchosen
      rw [hchosen]
      exact hdefaults.temperature
    | some v =>
      obtain ⟨x, hx, hvalid⟩ := htyped.temperature v hlookup
      rw [hlookup] at hchosen
      obtain rfl : x = params.temperature := Option.some.inj (hx.symm.trans hchosen)
      exact hvalid

theorem mem_keys_of_lookup {key : String} {v : Decoded} (h : body.lookup key = some v) :
    key ∈ body.map Prod.fst := by
  obtain ⟨before, after, rfl, -⟩ := List.lookup_eq_some_iff.mp h
  simp

theorem Accepted.not_malformed (h : Accepted path body defaults params) :
    ¬ Malformed path body := by
  have htyped := h.wellTyped
  intro hbad
  cases hbad with
  | unsupported key v hv hkey => exact hkey (htyped.supported key (mem_keys_of_lookup hv))
  | notBool key v hv hkey hnone =>
    rcases hkey with rfl | rfl
    · have hsome := htyped.stream v hv
      rw [hnone] at hsome
      cases hsome
    · have hsome := htyped.template v hv
      rw [hnone] at hsome
      cases hsome
  | notNumber v hv hnone =>
    obtain ⟨x, hx, -⟩ := htyped.temperature v hv
    rw [hnone] at hx
    cases hx
  | notInt key v hv hkey hnone =>
    obtain ⟨n, rfl, -⟩ := htyped.ints key hkey v hv
    cases hnone
  | outOfRange key n hv hkey hn =>
    obtain ⟨m, hm, hlow, hhigh⟩ := htyped.ints key hkey _ hv
    obtain rfl : n = m := by injection hm
    omega
  | choices v hv hne =>
    have hsingle := h.1
    rw [singleChoiceOnly, containsKey_of_lookup hv, hv] at hsingle
    cases v with
    | int n =>
      obtain rfl : n = 1 := by simpa using hsingle
      exact hne rfl
    | _ => cases hsingle

end Ranges

/-- What the server accepts, the worker accepts too, with nothing lost on the way. -/
theorem accepted_serves (rt : Worker.Runtime) (path : String) {defaults : GenerationParams}
    (hdefaults : Served defaults) (body : Body) :
    (∀ messages prompt, messagesFromRequest messages = some prompt →
      prompt.length = messages.length ∧ List.Forall₂ SameMessage messages prompt ∧
      prompt.mapM (ChatMessage.toJson rt.base64Encode) = .ok (prompt.map wire) ∧
      ∀ engine, Worker.validateModalities rt engine (prompt.map wire) true =
        if prompt.getLast?.map ChatMessage.role = some "user" then .ok ()
        else .error (.failure (.invalidArgument "A generation must end with a user message"))) ∧
    (∀ params, Accepted path body defaults params →
      Worker.validParams params = true ∧ Served params ∧ Supplied body defaults params) ∧
    (Malformed path body → ∀ params, ¬ Accepted path body defaults params) := by
  refine ⟨fun messages prompt h ↦ ?_, fun params h ↦ ?_, fun hbad params h ↦ h.not_malformed hbad⟩
  · have hsame := sameMessages_of_request h
    have htextual := textual_of_same hsame
    exact ⟨hsame.length_eq.symm, hsame, toJson_textual htextual _,
      fun engine ↦ validateModalities_textual rt engine htextual⟩
  · have hserved := h.served hdefaults
    exact ⟨hserved.validParams, hserved, h.supplied⟩

theorem served_default : Served {} := by
  refine ⟨by decide, by decide, by simp, rfl, ?_⟩
  norm_num [Double.isNegative]

namespace Scenario

def dialogue : List Decoded :=
  [.obj [("role", .str "system"), ("content", .str "Be brief")],
    .obj [("role", .str "user"),
      ("content", .arr [.obj [("type", .str "text"), ("text", .str "hello")]])]]

def spoken : List ChatMessage :=
  [⟨"system", [.text "Be brief"]⟩, ⟨"user", [.text "hello"]⟩]

def body : Body :=
  [("messages", .arr dialogue), ("topK", .int 7), ("top_k", .int 5), ("temperature", .int 0),
    ("stream", .bool true)]

end Scenario

open Scenario in
theorem accepted_serves_default :
    List.Forall₂ SameMessage dialogue spoken ∧
      (∀ engine,
        Worker.validateModalities Worker.Scenario.runtime engine (spoken.map wire) true = .ok ()) ∧
      Served { topK := 5, temperature := .finite 0 } ∧
      Supplied body {} { topK := 5, temperature := .finite 0 } := by
  have htemperature : toDouble 0 = .finite 0 := by norm_num [toDouble, roundToUnit]
  obtain ⟨hmessages, hparams, -⟩ :=
    accepted_serves Worker.Scenario.runtime chatPath served_default body
  obtain ⟨-, hsame, -, hmodalities⟩ := hmessages dialogue spoken rfl
  refine ⟨hsame, fun engine ↦ hmodalities engine, (hparams _ ⟨rfl, ?_⟩).2⟩
  rw [← htemperature]
  rfl

end LibLitertLm.Server
