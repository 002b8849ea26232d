import LibLitertLm.Types.Message
import LibLitertLm.Library.Base64

namespace LibLitertLm

inductive Block : List Content → Prop
  | text (text : String) : Block [.text text]
  | image (bytes : List UInt8) : Block [.image bytes]
  | closedImage (bytes : List UInt8) : Block [.image bytes, .imageEnd]
  | audio (bytes : List UInt8) : Block [.audio bytes]
  | closedAudio (bytes : List UInt8) : Block [.audio bytes, .audioEnd]

def WellFormed (contents : List Content) : Prop :=
  ∃ blocks : List (List Content), (∀ block ∈ blocks, Block block) ∧ contents = blocks.flatten

inductive Closing : Option Content → List Content → Prop
  | none (previous : Option Content) : Closing previous []
  | image (bytes : List UInt8) : Closing (some (.image bytes)) [.imageEnd]
  | audio (bytes : List UInt8) : Closing (some (.audio bytes)) [.audioEnd]

section Normalization

variable {previous : Option Content} {content : Content} {contents rest : List Content}

theorem Closing.of_closes (h : closes previous content = true) (hend : isEnd content = true) :
    Closing previous [content] := by
  cases content with
  | imageEnd =>
    rcases previous with _ | (_ | bytes | _ | _ | _)
    case some.image => exact .image bytes
    all_goals cases h
  | audioEnd =>
    rcases previous with _ | (_ | _ | _ | bytes | _)
    case some.audio => exact .audio bytes
    all_goals cases h
  | text | image | audio => cases hend

theorem normalizeContents_cons :
    normalizeContents previous (content :: contents) = .ok rest ↔
      closes previous content = true ∧ ∃ rest',
        normalizeContents (some content) contents = .ok rest' ∧
        rest = if isEnd content then rest' else content :: rest' := by
  rw [normalizeContents]
  by_cases hcloses : closes previous content = true
  · rw [if_pos hcloses]
    cases normalizeContents (some content) contents with
    | error e => simp [bind, Except.bind]
    | ok rest' =>
      simp only [bind, Except.bind, Except.ok.injEq, hcloses, true_and, exists_eq_left']
      exact eq_comm
  · simp [hcloses]

/-- The markers are dropped and nothing else is. -/
theorem normalizeContents_eq (h : normalizeContents previous contents = .ok rest) :
    rest = contents.filter fun content ↦ !isEnd content := by
  induction contents generalizing previous rest with
  | nil => exact (Except.ok.inj h).symm
  | cons content contents ih =>
    obtain ⟨-, rest', hrest', rfl⟩ := normalizeContents_cons.mp h
    rw [List.filter_cons, ← ih hrest']
    cases isEnd content <;> rfl

theorem normalizeContents_self (h : ∀ content ∈ contents, isEnd content = false) :
    normalizeContents previous contents = .ok contents := by
  induction contents generalizing previous with
  | nil => rfl
  | cons content contents ih =>
    obtain ⟨hcontent, hcontents⟩ := List.forall_mem_cons.mp h
    refine normalizeContents_cons.mpr ⟨?_, contents, ih hcontents, ?_⟩
    · cases content <;> first | rfl | cases hcontent
    · rw [hcontent]
      rfl

/-- A block begins with an item, so it may stand behind anything. -/
theorem normalizeContents_block {block : List Content} (hblock : Block block)
    (h : ∀ previous, ∃ rest, normalizeContents previous contents = .ok rest) :
    ∃ rest, normalizeContents previous (block ++ contents) = .ok rest := by
  cases hblock with
  | text t =>
    obtain ⟨rest, hrest⟩ := h (some (.text t))
    exact ⟨_, normalizeContents_cons.mpr ⟨rfl, rest, hrest, rfl⟩⟩
  | image bytes =>
    obtain ⟨rest, hrest⟩ := h (some (.image bytes))
    exact ⟨_, normalizeContents_cons.mpr ⟨rfl, rest, hrest, rfl⟩⟩
  | audio bytes =>
    obtain ⟨rest, hrest⟩ := h (some (.audio bytes))
    exact ⟨_, normalizeContents_cons.mpr ⟨rfl, rest, hrest, rfl⟩⟩
  | closedImage bytes =>
    obtain ⟨rest, hrest⟩ := h (some .imageEnd)
    have hmarker := normalizeContents_cons.mpr
      ⟨(rfl : closes (some (.image bytes)) .imageEnd = true), rest, hrest, rfl⟩
    exact ⟨_, normalizeContents_cons.mpr ⟨rfl, _, hmarker, rfl⟩⟩
  | closedAudio bytes =>
    obtain ⟨rest, hrest⟩ := h (some .audioEnd)
    have hmarker := normalizeContents_cons.mpr
      ⟨(rfl : closes (some (.audio bytes)) .audioEnd = true), rest, hrest, rfl⟩
    exact ⟨_, normalizeContents_cons.mpr ⟨rfl, _, hmarker, rfl⟩⟩

theorem normalizeContents_blocks {blocks : List (List Content)}
    (h : ∀ block ∈ blocks, Block block) (previous : Option Content) :
    ∃ rest, normalizeContents previous blocks.flatten = .ok rest := by
  induction blocks generalizing previous with
  | nil => exact ⟨[], rfl⟩
  | cons block blocks ih =>
    obtain ⟨hblock, hblocks⟩ := List.forall_mem_cons.mp h
    rw [List.flatten_cons]
    exact normalizeContents_block hblock (ih hblocks)

/-- What is accepted behind an item is its marker, if any, and blocks. -/
theorem blocks_of_normalizeContents (h : normalizeContents previous contents = .ok rest) :
    ∃ (closing : List Content) (blocks : List (List Content)), Closing previous closing ∧
      (∀ block ∈ blocks, Block block) ∧ contents = closing ++ blocks.flatten := by
  induction contents generalizing previous rest with
  | nil => exact ⟨[], [], .none previous, by simp, rfl⟩
  | cons content contents ih =>
    obtain ⟨hcloses, rest', hrest', -⟩ := normalizeContents_cons.mp h
    obtain ⟨closing, blocks, hclosing, hblocks, rfl⟩ := ih hrest'
    -- An item opens a block that takes the marker behind it; a marker closes what came before.
    cases content with
    | text t =>
      cases hclosing
      exact ⟨[], [.text t] :: blocks, .none _, List.forall_mem_cons.mpr ⟨.text t, hblocks⟩, rfl⟩
    | image bytes =>
      cases hclosing with
      | none =>
        exact ⟨[], [.image bytes] :: blocks, .none _,
          List.forall_mem_cons.mpr ⟨.image bytes, hblocks⟩, rfl⟩
      | image =>
        exact ⟨[], [.image bytes, .imageEnd] :: blocks, .none _,
          List.forall_mem_cons.mpr ⟨.closedImage bytes, hblocks⟩, rfl⟩
    | audio bytes =>
      cases hclosing with
      | none =>
        exact ⟨[], [.audio bytes] :: blocks, .none _,
          List.forall_mem_cons.mpr ⟨.audio bytes, hblocks⟩, rfl⟩
      | audio =>
        exact ⟨[], [.audio bytes, .audioEnd] :: blocks, .none _,
          List.forall_mem_cons.mpr ⟨.closedAudio bytes, hblocks⟩, rfl⟩
    | imageEnd =>
      cases hclosing
      refine ⟨[.imageEnd], blocks, ?_, hblocks, rfl⟩
      exact .of_closes hcloses rfl
    | audioEnd =>
      cases hclosing
      refine ⟨[.audioEnd], blocks, ?_, hblocks, rfl⟩
      exact .of_closes hcloses rfl

theorem normalizeContents_isOk_iff :
    (∃ rest, normalizeContents none contents = .ok rest) ↔ WellFormed contents := by
  constructor
  · rintro ⟨rest, h⟩
    obtain ⟨closing, blocks, hclosing, hblocks, hcontents⟩ := blocks_of_normalizeContents h
    cases hclosing
    exact ⟨blocks, hblocks, hcontents⟩
  · rintro ⟨blocks, hblocks, rfl⟩
    exact normalizeContents_blocks hblocks none

theorem normalizeContents_error {e : DartError}
    (h : normalizeContents previous contents = .error e) : ∃ message,
      e = .argumentError message := by
  induction contents generalizing previous with
  | nil => cases h
  | cons content contents ih =>
    rw [normalizeContents] at h
    by_cases hcloses : closes previous content = true
    · rw [if_pos hcloses] at h
      cases hrest : normalizeContents (some content) contents with
      | ok rest' =>
        rw [hrest] at h
        cases h
      | error e' =>
        rw [hrest] at h
        cases h
        exact ih hrest
    · rw [if_neg hcloses] at h
      cases h
      exact ⟨_, rfl⟩

theorem not_isEnd_of_normalizeContents (h : normalizeContents previous contents = .ok rest) :
    ∀ content ∈ rest, isEnd content = false := by
  rw [normalizeContents_eq h]
  intro content hcontent
  exact (Bool.not_eq_eq_eq_not.mp (List.mem_filter.mp hcontent).2)

end Normalization

def base64Encode (bytes : List UInt8) : String := String.ofList (Base64.encode bytes)

def base64Decode (text : String) : Option (List UInt8) := Base64.decode text.toList

theorem base64Decode_encode (bytes : List UInt8) :
    base64Decode (base64Encode bytes) = some bytes := by
  rw [base64Decode, base64Encode, String.toList_ofList, Base64.decode_encode]

inductive Carries : Content → Json → Prop
  | text (text : String) : Carries (.text text) (.obj [("type", .str "text"), ("text", .str text)])
  | image (bytes : List UInt8) (blob : String) (h : base64Decode blob = some bytes) :
    Carries (.image bytes) (.obj [("type", .str "image"), ("blob", .str blob)])
  | audio (bytes : List UInt8) (blob : String) (h : base64Decode blob = some bytes) :
    Carries (.audio bytes) (.obj [("type", .str "audio"), ("blob", .str blob)])

section Messages

variable {contents rest : List Content} {role : String}

theorem mapM_contentToJson (h : ∀ content ∈ contents, isEnd content = false) :
    ∃ items, contents.mapM (contentToJson base64Encode) = .ok items ∧
      List.Forall₂ Carries contents items := by
  induction contents with
  | nil => exact ⟨[], rfl, .nil⟩
  | cons content contents ih =>
    obtain ⟨hcontent, hcontents⟩ := List.forall_mem_cons.mp h
    obtain ⟨items, hitems, hcarries⟩ := ih hcontents
    obtain ⟨item, hitem, hcarry⟩ :
        ∃ item, contentToJson base64Encode content = .ok item ∧ Carries content item := by
      cases content with
      | text t => exact ⟨_, rfl, .text t⟩
      | image bytes => exact ⟨_, rfl, .image bytes _ (base64Decode_encode bytes)⟩
      | audio bytes => exact ⟨_, rfl, .audio bytes _ (base64Decode_encode bytes)⟩
      | imageEnd | audioEnd => cases hcontent
    refine ⟨item :: items, ?_, .cons hcarry hcarries⟩
    rw [List.mapM_cons, hitem, hitems]
    rfl

theorem toJson_of_normalizeContents (hrole : role ∈ ["system", "user", "assistant"])
    (h : normalizeContents none contents = .ok rest) :
    ∃ items, ChatMessage.toJson base64Encode ⟨role, contents⟩ =
        .ok [("role", .str role), ("content", .arr items)] ∧ List.Forall₂ Carries rest items := by
  obtain ⟨items, hitems, hcarries⟩ := mapM_contentToJson (not_isEnd_of_normalizeContents h)
  refine ⟨items, ?_, hcarries⟩
  rw [ChatMessage.toJson, if_pos (List.contains_iff_mem.mpr hrole), h]
  simp only [bind, Except.bind, hitems]

theorem toJson_error {e : DartError}
    (h : ChatMessage.toJson base64Encode ⟨role, contents⟩ = .error e) :
    ∃ message, e = .argumentError message := by
  by_cases hrole : role ∈ ["system", "user", "assistant"]
  · cases hnormal : normalizeContents none contents with
    | ok rest =>
      obtain ⟨items, hitems, -⟩ := toJson_of_normalizeContents hrole hnormal
      rw [hitems] at h
      cases h
    | error e' =>
      rw [ChatMessage.toJson, if_pos (List.contains_iff_mem.mpr hrole), hnormal] at h
      cases h
      exact normalizeContents_error hnormal
  · rw [ChatMessage.toJson, if_neg (fun hmem ↦ hrole (List.contains_iff_mem.mp hmem))] at h
    cases h
    exact ⟨_, rfl⟩

end Messages

/-- What is accepted is made of blocks, and nothing but the markers is lost on the way into the
message. -/
theorem normalizeContents_grammar (contents : List Content) :
    ((∃ rest, normalizeContents none contents = .ok rest) ↔ WellFormed contents) ∧
    ∀ rest, normalizeContents none contents = .ok rest →
      rest = contents.filter (fun content ↦ !isEnd content) ∧
      normalizeContents none rest = .ok rest ∧
      ∀ role ∈ ["system", "user", "assistant"],
        (∃ items, ChatMessage.toJson base64Encode ⟨role, contents⟩ =
          .ok [("role", .str role), ("content", .arr items)] ∧ List.Forall₂ Carries rest items) ∧
        ChatMessage.toJson base64Encode ⟨role, contents⟩ ≠
          .error (.stateError "Unnormalized end marker") := by
  refine ⟨normalizeContents_isOk_iff, fun rest h ↦ ⟨normalizeContents_eq h, ?_, ?_⟩⟩
  · exact normalizeContents_self (not_isEnd_of_normalizeContents h)
  · intro role hrole
    refine ⟨toJson_of_normalizeContents hrole h, fun herror ↦ ?_⟩
    obtain ⟨message, hmessage⟩ := toJson_error herror
    cases hmessage

/-- A doubled marker, a marker behind a text and a crossed one are refused;
closed items are kept. -/
example : normalizeContents none [.image [], .imageEnd, .imageEnd] =
      normalizeContents none [.audio [], .imageEnd] ∧
    normalizeContents none [.image [1], .imageEnd, .audio [2], .text "a"] =
      .ok [.image [1], .audio [2], .text "a"] := by
  decide

end LibLitertLm
