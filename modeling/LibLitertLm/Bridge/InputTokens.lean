import Mathlib.Algebra.Order.Floor.Div
import Mathlib.Algebra.Order.BigOperators.Group.List

namespace LibLitertLm.Bridge.InputTokens

inductive StatusCode
  | invalidArgument | unimplemented | outOfRange | other
deriving DecidableEq

structure Status where
  code : StatusCode
  message : String
deriving DecidableEq

/-- Why there is no count: a status that was returned, or a signed addition whose result the type
does not hold, which leaves the behaviour undefined. -/
inductive Fault
  | status (status : Status)
  | overflow
deriving DecidableEq

abbrev StatusOr := Except Fault

/-- `ASSIGN_OR_RETURN`. -/
def orReturn (result : Except Status α) : StatusOr α := result.mapError .status

def invalidArgument (message : String) : StatusOr α :=
  .error (.status ⟨.invalidArgument, message⟩)

def maxInt : ℤ := 2 ^ 31 - 1

def int (n : ℤ) : StatusOr ℤ := if -2 ^ 31 ≤ n ∧ n ≤ maxInt then .ok n else .error .overflow

def int64 (n : ℤ) : StatusOr ℤ := if -2 ^ 63 ≤ n ∧ n < 2 ^ 63 then .ok n else .error .overflow

/-- A `std::vector<int>`, whose elements fit into the address space. -/
structure TokenIds where
  ids : List Int32
  length_lt : ids.length < 2 ^ 61

structure TextTensor where
  tokenIds : Except Status (List TokenIds)

structure Tensor where
  dimensions : Except Status (List Int32)

structure InputText where
  preprocessedTextTensor : Except Status TextTensor

structure InputImage where
  isTensorBufferMap : Bool
  preprocessedImageTensorMap : Except Status (List (String × Tensor))

structure InputAudio where
  preprocessedAudioTensor : Except Status Tensor

inductive InputData
  | text (text : InputText)
  | image (image : InputImage)
  | imageEnd
  | audio (audio : InputAudio)
  | audioEnd
  | other

structure VisionExecutorProperties where
  numTokensPerImage : Int32
  patchNumShrinkFactor : Option Int32

structure AudioExecutorProperties where
  audioShrinkFactor : Int32

structure Engine where
  visionExecutorProperties : Except Status VisionExecutorProperties
  audioExecutorProperties : Except Status AudioExecutorProperties

/-- The patches and the shrink factor of an image that has both. -/
def InputImage.patches (image : InputImage) (properties : VisionExecutorProperties) :
    StatusOr (Option (ℤ × ℤ)) :=
  match properties.patchNumShrinkFactor, image.isTensorBufferMap with
  | some shrink, true => do
    let tensors ← orReturn image.preprocessedImageTensorMap
    match tensors.lookup "positions_xy" with
    | some tensor => do
      let dims ← orReturn tensor.dimensions
      if shrink.toInt ≤ 0 then invalidArgument "Invalid vision shrink factor"
      else pure (dims[1]?.map (·.toInt, shrink.toInt))
    | none => pure none
  | _, _ => pure none

def imageCount (properties : VisionExecutorProperties) : Option (ℤ × ℤ) → StatusOr ℤ
  | some (patches, shrink) => do
    let sum ← int (patches + shrink)
    let sum ← int (sum - 1)
    pure (sum.tdiv shrink)
  | none => pure properties.numTokensPerImage.toInt

def addImage (engine : Engine) (total : ℤ) (image : InputImage) : StatusOr ℤ := do
  let properties ← orReturn engine.visionExecutorProperties
  let count ← imageCount properties (← image.patches properties)
  if count < 0 then invalidArgument "Invalid vision token count" else int64 (total + count)

def InputText.tokenIds (text : InputText) : StatusOr (List TokenIds) := do
  let tensor ← orReturn text.preprocessedTextTensor
  orReturn tensor.tokenIds

def addText (total : ℤ) (text : InputText) : StatusOr ℤ := do
  match ← text.tokenIds with
  | [front] => int64 (total + front.ids.length)
  | _ => invalidArgument "Token budget requires batch size one"

def InputAudio.dimensions (audio : InputAudio) : StatusOr (List Int32) := do
  let tensor ← orReturn audio.preprocessedAudioTensor
  orReturn tensor.dimensions

def addAudio (engine : Engine) (total : ℤ) (audio : InputAudio) : StatusOr ℤ := do
  let properties ← orReturn engine.audioExecutorProperties
  let dims ← audio.dimensions
  let frames := (dims.getD (dims.length - 2) 0).toInt
  let shrink := properties.audioShrinkFactor.toInt
  if dims.length < 2 ∨ shrink ≤ 0 ∨ frames ≤ 0 then
    invalidArgument "Invalid processed audio layout or shrink factor"
  else do
    let sum ← int64 (frames + shrink)
    let sum ← int64 (sum - 1)
    int64 (total + sum.tdiv shrink)

def addPart (engine : Engine) (total : ℤ) : InputData → StatusOr ℤ
  | .text text => addText total text
  | .image image => addImage engine total image
  | .audio audio => addAudio engine total audio
  | .imageEnd | .audioEnd => int64 (total + 1)
  | .other => .error (.status ⟨.unimplemented, "Unsupported model input in token budget"⟩)

def checkTotal (total : ℤ) : StatusOr ℤ :=
  if maxInt < total then .error (.status ⟨.outOfRange, "Input token count overflow"⟩)
  else pure total

def count (engine : Engine) (prepared : List InputData) : StatusOr ℤ :=
  prepared.foldlM (fun total part ↦ addPart engine total part >>= checkTotal) 0

/-- The parts are what `PreprocessContents` made of the input. -/
def countPrepared (engine : Engine) (preprocessed : Except Status (List InputData)) :
    StatusOr ℤ := do
  count engine (← orReturn preprocessed)

section Footprint

variable (engine : Engine)

def InputText.footprint (text : InputText) : Option ℕ :=
  match text.tokenIds with
  | .ok [front] => some front.ids.length
  | _ => none

def VisionExecutorProperties.footprint (properties : VisionExecutorProperties) : Option ℕ :=
  let tokens := properties.numTokensPerImage.toInt
  if 0 ≤ tokens then some tokens.toNat else none

def Tensor.footprint (positions : Tensor) (properties : VisionExecutorProperties) (shrink : ℤ) :
    Option ℕ :=
  match positions.dimensions with
  | .ok (_ :: patches :: _) =>
    if 1 ≤ shrink ∧ 1 ≤ patches.toInt then some (patches.toInt.toNat ⌈/⌉ shrink.toNat) else none
  | .ok _ => if 1 ≤ shrink then properties.footprint else none
  | .error _ => none

def InputImage.footprint (image : InputImage) (properties : VisionExecutorProperties) : Option ℕ :=
  match properties.patchNumShrinkFactor, image.isTensorBufferMap,
    image.preprocessedImageTensorMap with
  | some shrink, true, .ok tensors =>
    match tensors.lookup "positions_xy" with
    | some positions => positions.footprint properties shrink.toInt
    | none => properties.footprint
  | some _, true, .error _ => none
  | _, _, _ => properties.footprint

def InputAudio.footprint (audio : InputAudio) (properties : AudioExecutorProperties) : Option ℕ :=
  match audio.dimensions with
  | .ok dims =>
    let frames := (dims.getD (dims.length - 2) 0).toInt
    let shrink := properties.audioShrinkFactor.toInt
    if 2 ≤ dims.length ∧ 1 ≤ shrink ∧ 1 ≤ frames then some (frames.toNat ⌈/⌉ shrink.toNat)
    else none
  | .error _ => none

def InputData.footprint : InputData → Option ℕ
  | .text input => input.footprint
  | .image input => engine.visionExecutorProperties.toOption.bind input.footprint
  | .audio input => engine.audioExecutorProperties.toOption.bind input.footprint
  | .imageEnd | .audioEnd => some 1
  | .other => none

def tokens (part : InputData) : ℕ := (part.footprint engine).getD 0

def sum (prepared : List InputData) : ℕ := (prepared.map (tokens engine)).sum

/-- The exact count, or an error where there is none. -/
structure Exact (prepared : List InputData) (result : StatusOr ℤ) : Prop where
  value : ∀ total, result = .ok total → 0 ≤ total ∧ total ≤ maxInt ∧ total = sum engine prepared
  refusal : (∃ part ∈ prepared, part.footprint engine = none) ∨ maxInt < sum engine prepared →
    ∃ status, result = .error (.status status)
  inRange : result ≠ .error .overflow

def InputData.patches : InputData → Option (ℤ × ℤ)
  | .image input =>
    engine.visionExecutorProperties.toOption.bind fun properties ↦
      (input.patches properties).toOption.bind id
  | _ => none

/-- Patches that are not positive and still come to zero tokens. -/
def Unseen (part : InputData) : Prop :=
  ∃ m ∈ part.patches engine, 1 - 2 * m.2 < m.1 ∧ m.1 ≤ 0

/-- So many patches that rounding up leaves the range of `int`. -/
def Overflowing (part : InputData) : Prop := ∃ m ∈ part.patches engine, maxInt < m.1 + m.2

def Stops (prepared : List InputData) : Prop :=
  (∃ part ∈ prepared, part.footprint engine = none ∧ ¬Unseen engine part) ∨
    maxInt < sum engine prepared

end Footprint

section Steps

variable {engine : Engine} {total : ℤ}

@[simp] theorem orReturn_ok (a : α) : orReturn (.ok a) = .ok a := rfl

@[simp] theorem orReturn_error (status : Status) :
    (orReturn (.error status) : StatusOr α) = .error (.status status) :=
  rfl

@[simp] theorem ok_bind (a : α) (f : α → StatusOr β) : (Except.ok a >>= f) = f a := rfl

@[simp] theorem error_bind (fault : Fault) (f : α → StatusOr β) :
    (Except.error fault >>= f) = .error fault :=
  rfl

@[simp] theorem pure_eq_ok (a : α) : (pure a : StatusOr α) = .ok a := rfl

theorem int_of_le {n : ℤ} (h : -2 ^ 31 ≤ n) (h' : n ≤ maxInt) : int n = .ok n := if_pos ⟨h, h'⟩

theorem int64_of_le {n : ℤ} (h : 0 ≤ n) (h' : n ≤ 2 ^ 62) : int64 n = .ok n := by
  refine if_pos ⟨?_, ?_⟩ <;> omega

/-- Rounding up in machine integers is rounding up. -/
theorem tdiv_eq_ceilDiv {n d : ℤ} (hn : 0 ≤ n) (hd : 0 < d) :
    (n + d - 1).tdiv d = (n.toNat ⌈/⌉ d.toNat : ℕ) := by
  obtain ⟨n, rfl⟩ := Int.eq_ofNat_of_zero_le hn
  obtain ⟨d, rfl⟩ := Int.eq_ofNat_of_zero_le hd.le
  have h : (n + d - 1 : ℤ) = ((n + d - 1 : ℕ) : ℤ) := by omega
  rw [h, Int.toNat_natCast, Int.toNat_natCast, Nat.ceilDiv_eq_add_pred_div]
  exact (Int.ofNat_tdiv _ _).symm

theorem tdiv_eq_zero {n d : ℤ} (hn : 1 - 2 * d < n) (hn' : n ≤ 0) : (n + d - 1).tdiv d = 0 := by
  by_cases h : 0 ≤ n + d - 1
  · rw [Int.tdiv_eq_ediv_of_nonneg h]
    exact Int.ediv_eq_zero_of_lt h (by omega)
  · have hneg : n + d - 1 = -(1 - n - d) := by omega
    rw [hneg, Int.neg_tdiv, Int.tdiv_eq_ediv_of_nonneg (by omega)]
    rw [Int.ediv_eq_zero_of_lt (by omega) (by omega), neg_zero]

theorem tdiv_neg {n d : ℤ} (hd : 0 < d) (hn : n ≤ 1 - 2 * d) : (n + d - 1).tdiv d < 0 := by
  have hneg : n + d - 1 = -(1 - n - d) := by omega
  rw [hneg, Int.neg_tdiv, Int.tdiv_eq_ediv_of_nonneg (by omega)]
  have h : 1 ≤ (1 - n - d) / d := Int.le_ediv_of_mul_le hd (by omega)
  omega

theorem ceilDiv_le {n d : ℤ} (hn : n ≤ maxInt) : ((n.toNat ⌈/⌉ d.toNat : ℕ) : ℤ) ≤ maxInt := by
  have h : n.toNat ⌈/⌉ d.toNat ≤ n.toNat := by
    by_cases hd : d.toNat = 0
    · simp [hd]
    · refine (ceilDiv_le_iff_le_mul (Nat.pos_of_ne_zero hd)).2 ?_
      exact Nat.le_mul_of_pos_left _ (Nat.pos_of_ne_zero hd)
  unfold maxInt at hn ⊢
  omega

theorem Int32.toInt_bounds (n : Int32) : -2 ^ 31 ≤ n.toInt ∧ n.toInt ≤ maxInt := by
  have h := n.toInt_lt
  refine ⟨n.le_toInt, ?_⟩
  unfold maxInt
  omega

section Image

variable {image : InputImage} {properties : VisionExecutorProperties}

theorem InputImage.patches_cases (image : InputImage) (properties : VisionExecutorProperties) :
    (∃ status, image.patches properties = .error (.status status)) ∨
      image.patches properties = .ok none ∨
      ∃ patches shrink, image.patches properties = .ok (some (patches, shrink)) ∧
        (-2 ^ 31 ≤ patches ∧ patches ≤ maxInt) ∧ 0 < shrink ∧ shrink ≤ maxInt := by
  unfold InputImage.patches
  split
  · rename_i factor _ _
    cases image.preprocessedImageTensorMap with
    | error status => exact .inl ⟨status, rfl⟩
    | ok tensors =>
      cases htensor : tensors.lookup "positions_xy" with
      | none => exact .inr (.inl (by simp [htensor]))
      | some tensor =>
        cases hdims : tensor.dimensions with
        | error status =>
          exact .inl ⟨status, by simp [htensor, hdims]⟩
        | ok dims =>
          by_cases hfactor : factor.toInt ≤ 0
          · exact .inl ⟨_, by simp [htensor, hdims, hfactor, invalidArgument]; rfl⟩
          · refine .inr ?_
            cases hpatches : dims[1]? with
            | none =>
              exact .inl (by simp [htensor, hdims, hfactor, hpatches])
            | some patches =>
              refine .inr ⟨patches.toInt, factor.toInt, ?_, Int32.toInt_bounds patches, ?_⟩
              · simp [htensor, hdims, hfactor, hpatches]
              · exact ⟨by omega, (Int32.toInt_bounds factor).2⟩
  · exact .inr (.inl rfl)

/-- What the loop reads of an image is what the image stands for. -/
theorem InputImage.footprint_eq (image : InputImage) (properties : VisionExecutorProperties) :
    image.footprint properties =
      match image.patches properties with
      | .ok (some (patches, shrink)) =>
        if 1 ≤ patches then some (patches.toNat ⌈/⌉ shrink.toNat) else none
      | .ok none => properties.footprint
      | .error _ => none := by
  unfold InputImage.footprint InputImage.patches
  cases properties.patchNumShrinkFactor with
  | none => rfl
  | some shrink =>
    cases image.isTensorBufferMap with
    | false => rfl
    | true =>
      cases image.preprocessedImageTensorMap with
      | error status => rfl
      | ok tensors =>
        cases htensor : tensors.lookup "positions_xy" with
        | none => simp [htensor]
        | some positions =>
          cases hdims : positions.dimensions with
          | error status => simp [htensor, hdims, Tensor.footprint]
          | ok dims =>
            by_cases hshrink : shrink.toInt ≤ 0
            · have hnot : ¬ 1 ≤ shrink.toInt := by omega
              rcases dims with _ | ⟨_, _ | ⟨patches, _⟩⟩ <;>
                simp [htensor, hdims, Tensor.footprint, hshrink, hnot, invalidArgument]
            · have hpositive : 1 ≤ shrink.toInt := by omega
              rcases dims with _ | ⟨_, _ | ⟨patches, _⟩⟩ <;>
                simp [htensor, hdims, Tensor.footprint, hshrink, hpositive]

theorem imageCount_some {patches shrink : ℤ} (hpatches : -2 ^ 31 ≤ patches ∧ patches ≤ maxInt)
    (hshrink : 0 < shrink ∧ shrink ≤ maxInt) :
    imageCount properties (some (patches, shrink)) =
      if maxInt < patches + shrink then .error .overflow
      else .ok ((patches + shrink - 1).tdiv shrink) := by
  simp only [imageCount]
  split_ifs with h
  · have hint : int (patches + shrink) = .error .overflow := if_neg (by omega)
    rw [hint, error_bind]
  · have hsum : -2 ^ 31 ≤ patches + shrink - 1 := by omega
    rw [int_of_le (by omega) (by omega), ok_bind, int_of_le hsum (by omega), ok_bind, pure_eq_ok]

end Image

theorem InputText.tokenIds_cases (text : InputText) :
    (∃ status, text.tokenIds = .error (.status status)) ∨ ∃ ids, text.tokenIds = .ok ids := by
  unfold InputText.tokenIds
  cases text.preprocessedTextTensor with
  | error status => exact .inl ⟨status, rfl⟩
  | ok tensor =>
    cases hids : tensor.tokenIds with
    | error status => exact .inl ⟨status, by simp [hids]⟩
    | ok ids => exact .inr ⟨ids, by simp [hids]⟩

theorem InputAudio.dimensions_cases (audio : InputAudio) :
    (∃ status, audio.dimensions = .error (.status status)) ∨ ∃ dims,
      audio.dimensions = .ok dims := by
  unfold InputAudio.dimensions
  cases audio.preprocessedAudioTensor with
  | error status => exact .inl ⟨status, rfl⟩
  | ok tensor =>
    cases hdims : tensor.dimensions with
    | error status => exact .inl ⟨status, by simp [hdims]⟩
    | ok dims => exact .inr ⟨dims, by simp [hdims]⟩

/-- What one part of the input does to the loop. -/
inductive Added (engine : Engine) (total : ℤ) (part : InputData) (result : StatusOr ℤ) : Prop
  | overflow (h : Overflowing engine part) (hresult : result = .error .overflow)
  | refused (h : ¬Overflowing engine part) (hnone : part.footprint engine = none)
      (hseen : ¬Unseen engine part) (hresult : ∃ status, result = .error (.status status))
  | counted (h : ¬Overflowing engine part)
      (hsome : part.footprint engine = none → Unseen engine part)
      (hresult : result = .ok (total + tokens engine part))

section Unpatched

variable {part : InputData} {result : StatusOr ℤ} (hpatches : part.patches engine = none)

include hpatches

theorem not_overflowing : ¬Overflowing engine part := by
  intro ⟨m, hm, _⟩
  rw [hpatches] at hm
  cases hm

theorem not_unseen : ¬Unseen engine part := by
  intro ⟨m, hm, _⟩
  rw [hpatches] at hm
  cases hm

theorem Added.ofNone (hnone : part.footprint engine = none)
    (hresult : ∃ status, result = .error (.status status)) : Added engine total part result :=
  .refused (not_overflowing hpatches) hnone (not_unseen hpatches) hresult

theorem Added.ofSome {n : ℕ} (hsome : part.footprint engine = some n)
    (hresult : result = .ok (total + n)) : Added engine total part result := by
  refine .counted (not_overflowing hpatches) (fun h ↦ ?_) ?_
  · rw [hsome] at h
    cases h
  · rw [hresult, tokens, hsome, Option.getD_some]

end Unpatched

theorem addText_added (htotal : 0 ≤ total ∧ total ≤ maxInt) (text : InputText) :
    Added engine total (.text text) (addText total text) := by
  have hpatches : (InputData.text text).patches engine = none := rfl
  obtain ⟨status, hids⟩ | ⟨ids, hids⟩ := text.tokenIds_cases
  · refine .ofNone hpatches ?_ ⟨status, by rw [addText, hids, error_bind]⟩
    simp only [InputData.footprint, InputText.footprint, hids]
  · unfold addText
    rw [hids, ok_bind]
    split
    · rename_i front
      have hlength := front.length_lt
      unfold maxInt at htotal
      rw [int64_of_le (by omega) (by omega)]
      refine .ofSome hpatches ?_ rfl
      simp only [InputData.footprint, InputText.footprint, hids]
    · rename_i h
      refine .ofNone hpatches ?_ ⟨_, rfl⟩
      simp only [InputData.footprint, InputText.footprint, hids]
      split
      · rename_i front heq
        exact absurd (Except.ok.inj heq) (h front)
      · rfl

theorem addAudio_added (htotal : 0 ≤ total ∧ total ≤ maxInt) (audio : InputAudio) :
    Added engine total (.audio audio) (addAudio engine total audio) := by
  have hpatches : (InputData.audio audio).patches engine = none := rfl
  unfold addAudio
  cases hproperties : engine.audioExecutorProperties with
  | error status =>
    refine .ofNone hpatches ?_ ⟨status, rfl⟩
    simp only [InputData.footprint, hproperties, Except.toOption, Option.bind_none]
  | ok properties =>
    have hfootprint : (InputData.audio audio).footprint engine = audio.footprint properties := by
      simp only [InputData.footprint, hproperties, Except.toOption, Option.bind_some]
    obtain ⟨status, hdims⟩ | ⟨dims, hdims⟩ := audio.dimensions_cases
    · refine .ofNone hpatches ?_ ⟨status, by rw [hdims, orReturn_ok, ok_bind, error_bind]⟩
      rw [hfootprint, InputAudio.footprint, hdims]
    · have hframes := Int32.toInt_bounds (dims.getD (dims.length - 2) 0)
      have hshrink := Int32.toInt_bounds properties.audioShrinkFactor
      rw [hdims, orReturn_ok, ok_bind, ok_bind]
      dsimp only
      generalize hn : (dims.getD (dims.length - 2) 0).toInt = frames at hframes ⊢
      generalize hd : properties.audioShrinkFactor.toInt = shrink at hshrink ⊢
      have hread : (InputData.audio audio).footprint engine =
          if 2 ≤ dims.length ∧ 1 ≤ shrink ∧ 1 ≤ frames then
            some (frames.toNat ⌈/⌉ shrink.toNat) else none := by
        rw [hfootprint, InputAudio.footprint, hdims, ← hn, ← hd]
      split_ifs with hbad
      · exact .ofNone hpatches (hread.trans (if_neg (by omega))) ⟨_, rfl⟩
      · have hle := ceilDiv_le (d := shrink) hframes.2
        unfold maxInt at htotal hframes hshrink hle
        rw [int64_of_le (by omega) (by omega), ok_bind, int64_of_le (by omega) (by omega), ok_bind]
        rw [tdiv_eq_ceilDiv (by omega) (by omega), int64_of_le (by omega) (by omega)]
        exact .ofSome hpatches (hread.trans (if_pos (by omega))) rfl

theorem addImage_added (htotal : 0 ≤ total ∧ total ≤ maxInt) (image : InputImage) :
    Added engine total (.image image) (addImage engine total image) := by
  unfold addImage
  cases hproperties : engine.visionExecutorProperties with
  | error status =>
    refine .ofNone ?_ ?_ ⟨status, rfl⟩
    · simp only [InputData.patches, hproperties, Except.toOption, Option.bind_none]
    · simp only [InputData.footprint, hproperties, Except.toOption, Option.bind_none]
  | ok properties =>
    have hfootprint : (InputData.image image).footprint engine = image.footprint properties := by
      simp only [InputData.footprint, hproperties, Except.toOption, Option.bind_some]
    have hmeasure : (InputData.image image).patches engine =
        (image.patches properties).toOption.bind id := by
      simp only [InputData.patches, hproperties, Except.toOption, Option.bind_some]
    rw [orReturn_ok, ok_bind]
    rcases image.patches_cases properties with
      ⟨status, hpatches⟩ | hpatches | ⟨patches, shrink, hpatches, hbounds, hshrink⟩
    · refine .ofNone ?_ ?_ ⟨status, by rw [hpatches, error_bind]⟩
      · rw [hmeasure, hpatches]
        rfl
      · rw [hfootprint, InputImage.footprint_eq, hpatches]
    · have hnone : (InputData.image image).patches engine = none := by
        rw [hmeasure, hpatches]
        rfl
      have htokens := Int32.toInt_bounds properties.numTokensPerImage
      rw [hpatches, ok_bind, imageCount, pure_eq_ok, ok_bind]
      unfold maxInt at htotal htokens
      split_ifs with hcount
      · refine .ofNone hnone ?_ ⟨_, rfl⟩
        rw [hfootprint, InputImage.footprint_eq, hpatches]
        exact if_neg (by omega)
      · rw [int64_of_le (by omega) (by omega)]
        refine .ofSome (n := properties.numTokensPerImage.toInt.toNat) hnone ?_ ?_
        · rw [hfootprint, InputImage.footprint_eq, hpatches]
          exact if_pos (by omega)
        · rw [Int.toNat_of_nonneg (by omega)]
    · have hsome : (InputData.image image).patches engine = some (patches, shrink) := by
        rw [hmeasure, hpatches]
        rfl
      have hread : (InputData.image image).footprint engine =
          if 1 ≤ patches then some (patches.toNat ⌈/⌉ shrink.toNat) else none := by
        rw [hfootprint, InputImage.footprint_eq, hpatches]
      rw [hpatches, ok_bind, imageCount_some hbounds hshrink]
      split_ifs with hover
      · exact .overflow ⟨_, hsome, hover⟩ rfl
      · have hnot : ¬Overflowing engine (.image image) := by
          intro ⟨m, hm, hm'⟩
          rw [hsome] at hm
          cases hm
          exact hover hm'
        have hseen : Unseen engine (.image image) ↔ 1 - 2 * shrink < patches ∧ patches ≤ 0 := by
          simp only [Unseen, hsome, Option.mem_def, Option.some.injEq, exists_eq_left']
        rw [ok_bind]
        by_cases hpositive : 1 ≤ patches
        · have hle := ceilDiv_le (d := shrink) hbounds.2
          have hvalue := hread.trans (if_pos hpositive)
          unfold maxInt at htotal hle
          rw [tdiv_eq_ceilDiv (by omega) hshrink.1, if_neg (by omega),
            int64_of_le (by omega) (by omega)]
          refine .counted hnot (fun h ↦ ?_) (by rw [tokens, hvalue, Option.getD_some])
          rw [hvalue] at h
          cases h
        · have hnone := hread.trans (if_neg hpositive)
          by_cases hzero : 1 - 2 * shrink < patches
          · unfold maxInt at htotal
            rw [tdiv_eq_zero hzero (by omega), if_neg (by omega), int64_of_le (by omega) (by omega)]
            refine .counted hnot (fun _ ↦ hseen.2 ⟨hzero, by omega⟩) ?_
            rw [tokens, hnone, Option.getD_none, Nat.cast_zero]
          · rw [if_pos (tdiv_neg hshrink.1 (by omega))]
            exact .refused hnot hnone (fun h ↦ hzero (hseen.1 h).1) ⟨_, rfl⟩

theorem addPart_added (htotal : 0 ≤ total ∧ total ≤ maxInt) (part : InputData) :
    Added engine total part (addPart engine total part) := by
  have hone : int64 (total + 1) = .ok (total + (1 : ℕ)) := by
    unfold maxInt at htotal
    exact int64_of_le (by omega) (by omega)
  cases part with
  | text text => exact addText_added htotal text
  | image image => exact addImage_added htotal image
  | audio audio => exact addAudio_added htotal audio
  | imageEnd => exact .ofSome rfl rfl hone
  | audioEnd => exact .ofSome rfl rfl hone
  | other => exact .ofNone rfl rfl ⟨_, rfl⟩

end Steps

section Loop

variable {engine : Engine} {before : List InputData}

theorem sum_append (before after : List InputData) :
    sum engine (before ++ after) = sum engine before + sum engine after := by
  simp only [sum, List.map_append, List.sum_append]

theorem sum_concat (before : List InputData) (part : InputData) :
    sum engine (before ++ [part]) = sum engine before + tokens engine part := by
  simp [sum]

/-- The loop does not go on after a part at which it returned. -/
theorem Stops.append (h : Stops engine before) (after : List InputData) :
    Stops engine (before ++ after) := by
  obtain ⟨part, hmem, hnone⟩ | hsum := h
  · exact .inl ⟨part, List.mem_append_left _ hmem, hnone⟩
  · refine .inr ?_
    rw [sum_append]
    omega

theorem concat_eq_append {part part' : α} {before prepared after : List α}
    (h : prepared ++ [part] = before ++ part' :: after) :
    (before = prepared ∧ part' = part) ∨ ∃ after', prepared = before ++ part' :: after' := by
  rcases List.eq_nil_or_concat' after with rfl | ⟨after, last, rfl⟩
  · obtain ⟨hbefore, hpart⟩ := List.append_inj' h rfl
    cases hpart
    exact .inl ⟨hbefore.symm, rfl⟩
  · rw [← List.cons_append, ← List.append_assoc] at h
    exact .inr ⟨after, (List.append_inj' h rfl).1⟩

inductive Ended (engine : Engine) (prepared : List InputData) (result : StatusOr ℤ) : Prop
  | value (hstops : ¬Stops engine prepared) (hover : ∀ part ∈ prepared, ¬Overflowing engine part)
      (hresult : result = .ok (sum engine prepared : ℕ))
  | status (hstops : Stops engine prepared)
      (hover : ∀ before part after, prepared = before ++ part :: after →
        Overflowing engine part → Stops engine before)
      (hresult : ∃ status, result = .error (.status status))
  | overflow (hover : ∃ before part after, prepared = before ++ part :: after ∧
        Overflowing engine part ∧ ¬Stops engine before)
      (hresult : result = .error .overflow)

/-- One more part after a loop that did not stop. -/
theorem Ended.concat {prepared : List InputData} {part : InputData}
    (hstops : ¬Stops engine prepared) (hover : ∀ part ∈ prepared, ¬Overflowing engine part) :
    Ended engine (prepared ++ [part])
      (addPart engine (sum engine prepared : ℕ) part >>= checkTotal) := by
  have hsum : ((sum engine prepared : ℕ) : ℤ) ≤ maxInt := not_lt.1 fun h ↦ hstops (.inr h)
  have hover' (hpart : ¬Overflowing engine part) :
      ∀ part' ∈ prepared ++ [part], ¬Overflowing engine part' := by
    intro part' hmem
    obtain hmem | hmem := List.mem_append.1 hmem
    · exact hover part' hmem
    · exact List.mem_singleton.1 hmem ▸ hpart
  have hsplit (hpart : ¬Overflowing engine part) : ∀ before part' after,
      prepared ++ [part] = before ++ part' :: after → Overflowing engine part' →
        Stops engine before :=
    fun before part' after h h' ↦
      absurd h' (hover' hpart part' (h ▸ List.mem_append_right _ List.mem_cons_self))
  cases addPart_added ⟨Int.natCast_nonneg _, hsum⟩ part with
  | overflow h hresult =>
    rw [hresult, error_bind]
    exact .overflow ⟨prepared, part, [], rfl, h, hstops⟩ rfl
  | refused h hnone hseen hresult =>
    obtain ⟨status, hresult⟩ := hresult
    rw [hresult, error_bind]
    exact .status (.inl ⟨part, List.mem_append_right _ List.mem_cons_self, hnone, hseen⟩)
      (hsplit h) ⟨status, rfl⟩
  | counted h hsome hresult =>
    have hcast : ((sum engine prepared : ℕ) : ℤ) + tokens engine part =
        (sum engine (prepared ++ [part]) : ℕ) := by
      rw [sum_concat, Nat.cast_add]
    rw [hresult, ok_bind, hcast, checkTotal]
    split_ifs with hmax
    · exact .status (.inr hmax) (hsplit h) ⟨_, rfl⟩
    · refine .value ?_ (hover' h) rfl
      intro hstop
      obtain ⟨part', hmem, hnone, hseen⟩ | hstop := hstop
      · obtain hmem | hmem := List.mem_append.1 hmem
        · exact hstops (.inl ⟨part', hmem, hnone, hseen⟩)
        · cases List.mem_singleton.1 hmem
          exact hseen (hsome hnone)
      · exact hmax hstop

theorem count_ended (engine : Engine) (prepared : List InputData) :
    Ended engine prepared (count engine prepared) := by
  induction prepared using List.reverseRecOn with
  | nil =>
    refine .value ?_ (fun _ h ↦ nomatch h) rfl
    intro h
    obtain ⟨_, h, _⟩ | h := h
    · cases h
    · simp [sum, maxInt] at h
  | append_singleton prepared part ih =>
    have hstep : count engine (prepared ++ [part]) = count engine prepared >>= fun total ↦
        addPart engine total part >>= checkTotal := by
      simp only [count, List.foldlM_append, List.foldlM_cons, List.foldlM_nil, bind_pure]
    rw [hstep]
    cases ih with
    | overflow hover hresult =>
      obtain ⟨before, part', after, rfl, hover⟩ := hover
      rw [hresult, error_bind]
      exact .overflow ⟨before, part', after ++ [part], by simp, hover⟩ rfl
    | status hstops hover hresult =>
      obtain ⟨status, hresult⟩ := hresult
      rw [hresult, error_bind]
      refine .status (hstops.append _) (fun before part' after h h' ↦ ?_) ⟨status, rfl⟩
      obtain ⟨rfl, -⟩ | ⟨after', h⟩ := concat_eq_append h
      · exact hstops
      · exact hover before part' after' h h'
    | value hstops hover hresult =>
      rw [hresult, ok_bind]
      exact .concat hstops hover

end Loop

/-- Patches that overflow are met only after the loop has returned, and patches that are not
positive and not noticed only where it returns for another part. -/
structure Noticed (engine : Engine) (prepared : List InputData) : Prop where
  overflowing : ∀ before part after, prepared = before ++ part :: after →
    Overflowing engine part → Stops engine before
  unseen : ∀ part ∈ prepared, Unseen engine part → Stops engine prepared

theorem Unseen.footprint {engine : Engine} {part : InputData} (h : Unseen engine part) :
    part.footprint engine = none := by
  obtain ⟨⟨patches, shrink⟩, hm, _, hle⟩ := h
  cases part with
  | image image =>
    simp only [InputData.patches, Option.mem_def, Option.bind_eq_some_iff] at hm
    obtain ⟨properties, hproperties, m, hm, rfl⟩ := hm
    simp only [InputData.footprint, hproperties, Option.bind_some, InputImage.footprint_eq]
    cases hpatches : image.patches properties with
    | error fault => rfl
    | ok m =>
      rw [hpatches] at hm
      cases hm
      exact if_neg (by omega)
  | _ => cases hm

/-- `CountPrepared` is exact just where no patches slip past its checks. -/
theorem countPrepared_exact_iff (engine : Engine) (prepared : List InputData) :
    Exact engine prepared (countPrepared engine (.ok prepared)) ↔ Noticed engine prepared := by
  have hcount : countPrepared engine (.ok prepared) = count engine prepared := rfl
  rw [hcount]
  constructor
  · intro h
    cases count_ended engine prepared with
    | value hstops hover hresult =>
      refine ⟨fun before part after hsplit hpart ↦ ?_, fun part hmem hpart ↦ ?_⟩
      · exact absurd hpart (hover part (hsplit ▸ List.mem_append_right _ List.mem_cons_self))
      · obtain ⟨status, herror⟩ := h.refusal (.inl ⟨part, hmem, hpart.footprint⟩)
        rw [hresult] at herror
        cases herror
    | status hstops hover hresult => exact ⟨hover, fun _ _ _ ↦ hstops⟩
    | overflow hover hresult => exact absurd hresult h.inRange
  · intro h
    cases count_ended engine prepared with
    | value hstops hover hresult =>
      rw [hresult]
      refine ⟨fun total htotal ↦ ?_, fun hrefused ↦ ?_, fun h ↦ nomatch h⟩
      · cases htotal
        exact ⟨Int.natCast_nonneg _, not_lt.1 fun h ↦ hstops (.inr h), rfl⟩
      · refine absurd ?_ hstops
        obtain ⟨part, hmem, hnone⟩ | hsum := hrefused
        · by_cases hpart : Unseen engine part
          · exact h.unseen part hmem hpart
          · exact .inl ⟨part, hmem, hnone, hpart⟩
        · exact .inr hsum
    | status hstops hover hresult =>
      obtain ⟨status, hresult⟩ := hresult
      rw [hresult]
      exact {
        value := fun _ h ↦ nomatch h
        refusal := fun _ ↦ ⟨status, rfl⟩
        inRange := fun h ↦ nomatch h }
    | overflow hover hresult =>
      obtain ⟨before, part, after, hsplit, hpart, hstops⟩ := hover
      exact absurd (h.overflowing before part after hsplit hpart) hstops

namespace Scenario

def engine : Engine where
  visionExecutorProperties := .ok ⟨256, some 4⟩
  audioExecutorProperties := .ok ⟨4⟩

def noPatches : InputImage where
  isTensorBufferMap := true
  preprocessedImageTensorMap := .ok [("positions_xy", ⟨.ok [1, 0, 2]⟩)]

theorem no_patches :
    countPrepared engine (.ok [.image noPatches]) = .ok 0 ∧
      ¬Exact engine [.image noPatches] (countPrepared engine (.ok [.image noPatches])) := by
  have hcount : countPrepared engine (.ok [.image noPatches]) = .ok 0 := by decide
  refine ⟨hcount, fun h ↦ ?_⟩
  obtain ⟨status, hstatus⟩ := h.refusal (.inl ⟨.image noPatches, List.mem_cons_self, by decide⟩)
  rw [hcount] at hstatus
  cases hstatus

end Scenario

end LibLitertLm.Bridge.InputTokens
