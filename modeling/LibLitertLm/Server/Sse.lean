import LibLitertLm.Library.JsonCut
import LibLitertLm.Library.Utf16
import LibLitertLm.Types.Utf8
import LibLitertLm.Types.Failure
import Mathlib.Data.List.Nodup

namespace LibLitertLm.Server

open JsonText Utf16

abbrev Text := List UInt16

def literal (s : String) : Text := units (s.toList.map ofChar)

variable {F : Type}

def string (text : Text) : Value F := .str (points text)

def key (name : String) : List CodePoint := name.toList.map ofChar

def object (fields : List (String × Value F)) : Value F := .obj (fields.map fun f ↦ (key f.1, f.2))

section Chunks

variable (id : Text) (created : ℤ) (model : Text)

def chatChunk (delta : List (String × Value F)) : Value F :=
  object [("id", string id), ("object", string (literal "chat.completion.chunk")),
    ("created", .int created), ("model", string model),
    ("choices", .arr [object [("index", .int 0), ("delta", object delta),
      ("finish_reason", .null)]])]

def chatStopChunk : Value F :=
  object [("id", string id), ("object", string (literal "chat.completion.chunk")),
    ("created", .int created), ("model", string model),
    ("choices", .arr [object [("index", .int 0), ("delta", object []),
      ("finish_reason", string (literal "stop"))]])]

def completionChunk (text : Text) : Value F :=
  object [("id", string id), ("object", string (literal "text_completion")),
    ("created", .int created), ("model", string model),
    ("choices", .arr [object [("text", string text), ("index", .int 0), ("logprobs", .null),
      ("finish_reason", .null)]])]

def completionStopChunk : Value F :=
  object [("id", string id), ("object", string (literal "text_completion")),
    ("created", .int created), ("model", string model),
    ("choices", .arr [object [("text", string (literal "")), ("index", .int 0),
      ("logprobs", .null), ("finish_reason", string (literal "stop"))]])]

end Chunks

def errorObject (message type : Text) (param : Value F) (code : Text) : Value F :=
  object [("error", object [("message", string message), ("type", string type),
    ("param", param), ("code", string code)])]

section Writing

variable (floats : Floats F)

def writeSse (value : Value F) : List UInt8 :=
  utf8Encode ("data: ".toList ++ encode floats value ++ "\n\n".toList)

def writeSseDone : List UInt8 := utf8Encode "data: [DONE]\n\n".toList

def writeSseError (error : Failure) : List UInt8 :=
  writeSse floats (errorObject (literal error.message) (literal error.code) .null
    (literal error.code))

end Writing

inductive Item (F : Type)
  | done
  | data (value : Value F)

section Reading

def blocks : List UInt8 → List (List UInt8)
  | [] => [[]]
  | [b] => [[b]]
  | a :: b :: rest =>
    if a = 10 ∧ b = 10 then [] :: blocks rest
    else match blocks (b :: rest) with
      | block :: others => (a :: block) :: others
      | [] => [[a]]

def stripData (line : List Char) : Option (List Char) :=
  if "data: ".toList.isPrefixOf line then some (line.drop 6) else none

def jsonDecode (parse : List Char → F) (text : List Char) : Option (Value F) :=
  match rawDecode parse text with
  | .ok (value, []) => some value
  | _ => none

def readItem (parse : List Char → F) (block : List UInt8) : Option (Item F) := do
  let line ← utf8Chars block
  let payload ← stripData line
  if payload = "[DONE]".toList then some .done
  else (jsonDecode parse payload).map .data

def readSse (parse : List Char → F) (bytes : List UInt8) : Option (List (Item F)) :=
  match (blocks bytes).getLast? with
  | some [] => (blocks bytes).dropLast.mapM (readItem parse)
  | _ => none

end Reading

section RoundTrip

theorem proper_string (text : Text) : Proper (string text : Value F) := .str (unpaired_points text)

theorem key_injective : Function.Injective key := by
  intro a b h
  exact String.toList_inj.mp (List.map_injective_iff.mpr ofChar_injective h)

theorem proper_object {fields : List (String × Value F)}
    (hdistinct : (fields.map Prod.fst).Nodup) (hvalues : ∀ f ∈ fields, Proper f.2) :
    Proper (object fields) := by
  refine .obj ?_ (fun f hf ↦ ?_) fun f hf ↦ ?_
  · have hnodup := List.Nodup.map key_injective hdistinct
    rwa [List.map_map] at hnodup ⊢
  · obtain ⟨g, -, rfl⟩ := List.mem_map.mp hf
    exact unpaired_map_ofChar _
  · obtain ⟨g, hg, rfl⟩ := List.mem_map.mp hf
    exact hvalues g hg

section Chunks

variable {id : Text} {created : ℤ} {model : Text}

theorem proper_envelope {kind : Text} {choice : List (String × Value F)}
    (h : Proper (object choice)) :
    Proper (object [("id", string id), ("object", string kind), ("created", .int created),
      ("model", string model), ("choices", .arr [object choice])]) := by
  refine proper_object (by simp) ?_
  simp [proper_string, Proper.int, Proper.arr, h]

theorem proper_chatChunk {delta : List (String × Value F)} (h : Proper (object delta)) :
    Proper (chatChunk id created model delta) := by
  refine proper_envelope (proper_object (by simp) ?_)
  simp [h, Proper.int, Proper.null]

theorem proper_chatStopChunk : Proper (chatStopChunk id created model : Value F) := by
  have hdelta : Proper (object [] : Value F) := proper_object (by simp) (by simp)
  refine proper_envelope (proper_object (by simp) ?_)
  simp [hdelta, proper_string, Proper.int]

theorem proper_completionChunk (text : Text) :
    Proper (completionChunk id created model text : Value F) := by
  refine proper_envelope (proper_object (by simp) ?_)
  simp [proper_string, Proper.int, Proper.null]

theorem proper_completionStopChunk : Proper (completionStopChunk id created model : Value F) := by
  refine proper_envelope (proper_object (by simp) ?_)
  simp [proper_string, Proper.int, Proper.null]

end Chunks

theorem proper_errorObject (message type code : Text) :
    Proper (errorObject message type .null code : Value F) := by
  have hfields : Proper (object [("message", string message), ("type", string type),
      ("param", .null), ("code", string code)] : Value F) := by
    refine proper_object (by simp) ?_
    simp [proper_string, Proper.null]
  refine proper_object (by simp) ?_
  simp [hfields]

section Fields

def field (name : String) : Value F → Option (Value F)
  | .obj fields => fields.lookup (key name)
  | _ => none

def firstItem : Value F → Option (Value F)
  | .arr (value :: _) => some value
  | _ => none

def asText : Value F → Option Text
  | .str s => some (units s)
  | _ => none

def deltaContent (chunk : Value F) : Option Text := do
  let choice ← firstItem (← field "choices" chunk)
  asText (← field "content" (← field "delta" choice))

def choiceText (chunk : Value F) : Option Text := do
  let choice ← firstItem (← field "choices" chunk)
  asText (← field "text" choice)

theorem field_object (name : String) (fields : List (String × Value F)) :
    field name (object fields) = fields.lookup name := by
  rw [object, field]
  induction fields with
  | nil => rfl
  | cons f fields ih =>
    rw [List.map_cons, List.lookup_cons, List.lookup_cons, ih]
    by_cases h : name = f.1
    · rw [h, beq_self_eq_true, beq_self_eq_true]
    · have hkey : (key name == key f.1) = false := beq_false_of_ne (key_injective.ne h)
      rw [hkey, beq_false_of_ne h]

theorem asText_string (text : Text) : asText (string text : Value F) = some text :=
  congrArg some (units_points text)

variable {id : Text} {created : ℤ} {model : Text}

theorem deltaContent_chatChunk (delta : List (String × Value F)) :
    deltaContent (chatChunk id created model delta) = (delta.lookup "content").bind asText := by
  simp [deltaContent, chatChunk, field_object, List.lookup_cons, firstItem]

theorem choiceText_completionChunk (text : Text) :
    choiceText (completionChunk id created model text : Value F) = some text := by
  simp [choiceText, completionChunk, field_object, List.lookup_cons, firstItem, asText_string]

end Fields

/-- No byte of a character is a control byte unless it is one. -/
theorem notMem_charBytes {b : UInt8} {c : Char} (hb : b.toNat < 0x20) (hc : 0x20 ≤ c.toNat) :
    b ∉ charBytes c := by
  have hbyte {n : ℕ} (hn : n < 256) (hne : 0x20 ≤ n) : b ≠ UInt8.ofNat n := by
    rintro rfl
    rw [toNat_ofNat hn] at hb
    omega
  have hlt := toNat_lt c
  unfold charBytes
  by_cases h1 : c.toNat < 0x80
  · simp only [h1, if_true, List.mem_singleton]
    exact hbyte (by omega) hc
  by_cases h2 : c.toNat < 0x800
  · simp only [h1, h2, if_true, if_false, List.mem_cons, List.not_mem_nil, or_false, not_or]
    exact ⟨hbyte (by omega) (by omega), hbyte (by omega) (by omega)⟩
  by_cases h3 : c.toNat < 0x10000
  · simp only [h1, h2, h3, if_true, if_false, List.mem_cons, List.not_mem_nil, or_false, not_or]
    exact ⟨hbyte (by omega) (by omega), hbyte (by omega) (by omega), hbyte (by omega) (by omega)⟩
  · simp only [h1, h2, h3, if_false, List.mem_cons, List.not_mem_nil, or_false, not_or]
    exact ⟨hbyte (by omega) (by omega), hbyte (by omega) (by omega),
      hbyte (by omega) (by omega), hbyte (by omega) (by omega)⟩

theorem notMem_encode {b : UInt8} {line : List Char} (hb : b.toNat < 0x20)
    (h : ∀ c ∈ line, 0x20 ≤ c.toNat) : b ∉ utf8Encode line := by
  intro hmem
  obtain ⟨c, hc, hbyte⟩ := List.mem_flatMap.mp hmem
  exact notMem_charBytes hb (h c hc) hbyte

theorem blocks_append {block : List UInt8} (h : (10 : UInt8) ∉ block) (rest : List UInt8) :
    blocks (block ++ 10 :: 10 :: rest) = block :: blocks rest := by
  induction block with
  | nil => simp [blocks]
  | cons a block ih =>
    obtain ⟨ha, hblock⟩ := not_or.mp (List.mem_cons.not.mp h)
    obtain ⟨b, more, hmore⟩ := List.exists_cons_of_ne_nil
      (show block ++ 10 :: 10 :: rest ≠ [] by simp)
    rw [List.cons_append, hmore, blocks, if_neg fun hboth ↦ ha hboth.1.symm, ← hmore, ih hblock]

variable {floats : Floats F}

theorem jsonDecode_encode {value : Value F} (h : Proper value) :
    jsonDecode floats.parse (encode floats value) = some value := by
  have hall : Reads floats value := h.reads
  have hreads := hall (encode floats value).length (2 * (encode floats value).length + 2) []
    (by omega) (by simp [Ends])
  rw [List.append_nil] at hreads
  rw [jsonDecode, rawDecode, hreads]

/-- The line of an event, without the blank line behind it. -/
def Item.line (floats : Floats F) : Item F → List Char
  | .done => "data: [DONE]".toList
  | .data value => "data: ".toList ++ encode floats value

def Item.bytes (floats : Floats F) : Item F → List UInt8
  | .done => writeSseDone
  | .data value => writeSse floats value

/-- What is sent as an event's data is an object that can be written. -/
def Item.Sound : Item F → Prop
  | .done => True
  | .data value => Proper value ∧ ∃ fields, value = .obj fields

theorem Item.bytes_eq (item : Item F) :
    item.bytes floats = utf8Encode (item.line floats) ++ [10, 10] := by
  cases item with
  | done => rfl
  | data value => exact List.flatMap_append

theorem Item.Sound.printable {item : Item F} (h : item.Sound) :
    ∀ c ∈ item.line floats, 0x20 ≤ c.toNat := by
  cases item with
  | done =>
    have hdone : ∀ c ∈ "data: [DONE]".toList, 0x20 ≤ c.toNat := by simp
    exact hdone
  | data value =>
    have hdata : ∀ c ∈ "data: ".toList, 0x20 ≤ c.toNat := by simp
    intro c hc
    rcases List.mem_append.mp hc with hc | hc
    · exact hdata c hc
    · exact (h.1.written floats c hc).elim And.left And.left

theorem readItem_done : readItem floats.parse (utf8Encode "data: [DONE]".toList) = some .done := by
  have hstrip : stripData "data: [DONE]".toList = some "[DONE]".toList := by decide
  unfold readItem
  rw [utf8Chars_encode]
  dsimp only [Option.bind_eq_bind, Option.bind_some]
  rw [hstrip]
  dsimp only [Option.bind_eq_bind, Option.bind_some]
  rw [if_pos rfl]

theorem readItem_data {fields : List (List CodePoint × Value F)}
    (h : Proper (.obj fields : Value F)) :
    readItem floats.parse (utf8Encode ("data: ".toList ++ encode floats (.obj fields))) =
      some (.data (.obj fields)) := by
  have hstrip : stripData ("data: ".toList ++ encode floats (.obj fields)) =
      some (encode floats (.obj fields)) := by
    rw [stripData, if_pos (List.isPrefixOf_iff_prefix.mpr (List.prefix_append _ _))]
    rfl
  -- an object begins with a brace
  have hdone : encode floats (.obj fields) ≠ "[DONE]".toList := by
    intro h
    rw [encode] at h
    exact absurd (List.cons.inj h).1 (by decide)
  unfold readItem
  rw [utf8Chars_encode]
  dsimp only [Option.bind_eq_bind, Option.bind_some]
  rw [hstrip]
  dsimp only [Option.bind_eq_bind, Option.bind_some]
  rw [if_neg hdone, jsonDecode_encode h]
  rfl

theorem Item.Sound.read {item : Item F} (h : item.Sound) :
    readItem floats.parse (utf8Encode (item.line floats)) = some item := by
  cases item with
  | done => exact readItem_done
  | data value =>
    obtain ⟨hproper, fields, rfl⟩ := h
    exact readItem_data hproper

/-- The events come back, whatever text they carry. -/
theorem readSse_bytes {items : List (Item F)} (h : ∀ item ∈ items, item.Sound) :
    readSse floats.parse (items.flatMap (Item.bytes floats)) = some items := by
  have hblocks : blocks (items.flatMap (Item.bytes floats)) =
      (items.map fun item ↦ utf8Encode (item.line floats)) ++ [[]] := by
    induction items with
    | nil => rfl
    | cons item items ih =>
      have hline : (10 : UInt8) ∉ utf8Encode (item.line floats) :=
        notMem_encode (by decide) (h item (by simp)).printable
      rw [List.flatMap_cons, Item.bytes_eq, List.append_assoc, List.cons_append, List.cons_append,
        List.nil_append, blocks_append hline, ih fun i hi ↦ h i (by simp [hi])]
      rfl
  rw [readSse, hblocks, List.getLast?_concat, List.dropLast_concat]
  clear hblocks
  induction items with
  | nil => rfl
  | cons item items ih =>
    simp only at ih ⊢
    rw [List.map_cons, List.mapM_cons, (h item (by simp)).read, ih fun i hi ↦ h i (by simp [hi])]
    rfl

end RoundTrip

end LibLitertLm.Server
