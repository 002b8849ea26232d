import Mathlib.Algebra.Ring.Nat
import Mathlib.Data.Fin.Basic
import Mathlib.Data.List.Chain
import Mathlib.Data.List.TakeWhile
import Mathlib.Tactic.Common

namespace LibLitertLm.JsonText

/-- A code point; a surrogate is one that is not part of a pair. -/
abbrev CodePoint := Fin 0x110000

def isHigh (c : CodePoint) : Bool := 0xD800 ≤ c.val && c.val < 0xDC00

def isLow (c : CodePoint) : Bool := 0xDC00 ≤ c.val && c.val < 0xE000

def point (n : ℕ) : CodePoint := Fin.ofNat _ n

def ofChar (c : Char) : CodePoint := point c.toNat

instance neZero_ten : NeZero 10 := ⟨by decide⟩

inductive Value (F : Type)
  | null
  | bool (b : Bool)
  | int (n : ℤ)
  | float (x : F)
  | str (s : List CodePoint)
  | arr (items : List (Value F))
  | obj (fields : List (List CodePoint × Value F))

/-- The text of a number with a fraction or an exponent: the exponent has a sign
and at least one digit. -/
structure Lexeme where
  negative : Bool
  whole : ℕ
  fraction : List (Fin 10)
  exponent : Option (Bool × Fin 10 × List (Fin 10))

def sign (negative : Bool) : List Char := if negative then ['-'] else []

def digit (d : Fin 10) : Char := Nat.digitChar d

def Lexeme.fractionText (l : Lexeme) : List Char :=
  if l.fraction.isEmpty then [] else '.' :: l.fraction.map digit

def Lexeme.exponentText (l : Lexeme) : List Char :=
  match l.exponent with
  | none => []
  | some (negative, d, ds) => 'e' :: (if negative then '-' else '+') :: (d :: ds).map digit

def Lexeme.text (l : Lexeme) : List Char :=
  sign l.negative ++ Nat.toDigits 10 l.whole ++ l.fractionText ++ l.exponentText

def Lexeme.isFloat (l : Lexeme) : Bool := !l.fraction.isEmpty || l.exponent.isSome

/-- Floating-point numbers, which one side prints and the other parses: the text
is long enough to tell the number. -/
structure Floats (F : Type) where
  print : F → Lexeme
  parse : List Char → F
  isFloat_print : ∀ x, (print x).isFloat = true
  parse_print : ∀ x, parse (print x).text = x

section Encode

def hex (n : ℕ) : List Char :=
  [Nat.digitChar (n / 4096 % 16), Nat.digitChar (n / 256 % 16), Nat.digitChar (n / 16 % 16),
    Nat.digitChar (n % 16)]

def letters : List (ℕ × Char) :=
  [(8, 'b'), (9, 't'), (10, 'n'), (12, 'f'), (13, 'r'), (34, '"'), (92, '\\')]

def escape (c : CodePoint) : List Char :=
  match letters.lookup c.val with
  | some letter => ['\\', letter]
  | none =>
    if c.val < 0x20 || isHigh c || isLow c then '\\' :: 'u' :: hex c.val else [Char.ofNat c.val]

def quote (s : List CodePoint) : List Char := '"' :: s.flatMap escape ++ ['"']

variable {F : Type} (floats : Floats F)

mutual

def encode : Value F → List Char
  | .null => ['n', 'u', 'l', 'l']
  | .bool true => ['t', 'r', 'u', 'e']
  | .bool false => ['f', 'a', 'l', 's', 'e']
  | .int n => sign (n < 0) ++ Nat.toDigits 10 n.natAbs
  | .float x => (floats.print x).text
  | .str s => quote s
  | .arr items => '[' :: encodeItems [] items
  | .obj fields => '{' :: encodeFields [] fields

def encodeItems : List Char → List (Value F) → List Char
  | _, [] => [']']
  | separator, v :: vs => separator ++ encode v ++ encodeItems [','] vs

def encodeFields : List Char → List (List CodePoint × Value F) → List Char
  | _, [] => ['}']
  | separator, (key, v) :: fields =>
    separator ++ quote key ++ ':' :: encode v ++ encodeFields [','] fields

end

end Encode

structure DecodeError where
  message : String
  position : ℕ
deriving DecidableEq

section Decode

-- the length of the document tells the position from what is left
variable (length : ℕ)

def stop {α : Type} (message : String) (rest : List Char) : Except DecodeError α :=
  .error ⟨message, length - rest.length⟩

def hexDigit (c : Char) : Option ℕ :=
  if '0' ≤ c ∧ c ≤ '9' then some (c.toNat - 48)
  else if 'a' ≤ c ∧ c ≤ 'f' then some (c.toNat - 87)
  else if 'A' ≤ c ∧ c ≤ 'F' then some (c.toNat - 55)
  else none

def unhex : List Char → Option ℕ
  | [a, b, c, d] => do
    let a ← hexDigit a
    let b ← hexDigit b
    let c ← hexDigit c
    let d ← hexDigit d
    some (((a * 16 + b) * 16 + c) * 16 + d)
  | _ => none

def unescaped : List (Char × ℕ) :=
  [('"', 34), ('\\', 92), ('/', 47), ('b', 8), ('f', 12), ('n', 10), ('r', 13), ('t', 9)]

/-- A `\u` escape from the `u` on, with how many characters it takes: a high
surrogate is joined with the low one that an escape behind it gives. -/
def unicode (text : List Char) : Except DecodeError (CodePoint × ℕ) :=
  let rest := text.drop 1
  match if 4 < rest.length then unhex (rest.take 4) else none with
  | none => stop length "Invalid \\uXXXX escape" text
  | some n =>
    let c := point n
    match rest.drop 4 with
    | '\\' :: 'u' :: more =>
      if isHigh c && 4 < more.length then
        match unhex (more.take 4) with
        | none => stop length "Invalid \\uXXXX escape" ('u' :: more)
        | some n' =>
          if isLow (point n') then
            .ok (point (0x10000 + (n - 0xD800) * 0x400 + (n' - 0xDC00)), 11)
          else .ok (c, 5)
      else .ok (c, 5)
    | _ => .ok (c, 5)

def unescape (start : ℕ) : List Char → Except DecodeError (CodePoint × ℕ)
  | [] => .error ⟨"Unterminated string starting at", start⟩
  | c :: rest =>
    if c = 'u' then unicode length (c :: rest)
    else match unescaped.lookup c with
      | some n => .ok (point n, 1)
      | none => stop length "Invalid \\escape" ('\\' :: c :: rest)

def scanString (start : ℕ) :
    ℕ → List Char → Except DecodeError (List CodePoint × List Char)
  | _, [] => .error ⟨"Unterminated string starting at", start⟩
  | skip + 1, _ :: rest => scanString start skip rest
  | 0, c :: rest =>
    if c = '"' then .ok ([], rest)
    else if c = '\\' then do
      let (p, skip) ← unescape length start rest
      let (s, rest) ← scanString start skip rest
      .ok (p :: s, rest)
    else if c.toNat ≤ 0x1f then stop length "Invalid control character at" (c :: rest)
    else do
      let (s, rest) ← scanString start 0 rest
      .ok (ofChar c :: s, rest)

def isBlank (c : Char) : Bool := c == ' ' || c == '\t' || c == '\n' || c == '\r'

def skipBlanks (text : List Char) : List Char := text.dropWhile isBlank

def takeWhole : List Char → Option (List Char × List Char)
  | [] => none
  | c :: rest =>
    if c = '0' then some ([c], rest)
    else if c.isDigit then some (c :: rest.takeWhile Char.isDigit, rest.dropWhile Char.isDigit)
    else none

def takeFraction : List Char → List Char × List Char
  | '.' :: rest =>
    if (rest.takeWhile Char.isDigit).isEmpty then ([], '.' :: rest)
    else ('.' :: rest.takeWhile Char.isDigit, rest.dropWhile Char.isDigit)
  | text => ([], text)

def takeSign : List Char → List Char × List Char
  | c :: rest => if c = '-' ∨ c = '+' then ([c], rest) else ([], c :: rest)
  | [] => ([], [])

def takeExponent (text : List Char) : List Char × List Char :=
  match text with
  | e :: rest =>
    if e = 'e' ∨ e = 'E' then
      let (sign, rest) := takeSign rest
      if (rest.takeWhile Char.isDigit).isEmpty then ([], text)
      else (e :: sign ++ rest.takeWhile Char.isDigit, rest.dropWhile Char.isDigit)
    else ([], text)
  | [] => ([], [])

variable {F : Type} (parse : List Char → F)

def scanNumber (text : List Char) : Option (Value F × List Char) := do
  let negative := text.head? == some '-'
  let (whole, rest) ← takeWhole (if negative then text.drop 1 else text)
  let (fraction, rest) := takeFraction rest
  let (exponent, rest) := takeExponent rest
  if fraction.isEmpty && exponent.isEmpty then
    let n : ℤ := Nat.ofDigitChars 10 whole 0
    some (.int (if negative then -n else n), rest)
  else some (.float (parse (sign negative ++ whole ++ fraction ++ exponent)), rest)

def words : List (List Char × Value F) :=
  [(['n', 'u', 'l', 'l'], .null), (['t', 'r', 'u', 'e'], .bool true),
    (['f', 'a', 'l', 's', 'e'], .bool false)] ++
  [['N', 'a', 'N'], ['I', 'n', 'f', 'i', 'n', 'i', 't', 'y'],
    ['-', 'I', 'n', 'f', 'i', 'n', 'i', 't', 'y']].map fun word ↦ (word, .float (parse word))

def scanAtom (text : List Char) : Except DecodeError (Value F × List Char) :=
  match (words parse).find? fun word ↦ word.1.isPrefixOf text with
  | some (word, v) => .ok (v, text.drop word.length)
  | none =>
    match scanNumber parse text with
    | some result => .ok result
    | none => stop length "Expecting value" text

/-- `dict`: the last value of a key counts, at the place of the first. -/
def dictInsert (fields : List (List CodePoint × Value F)) (field : List CodePoint × Value F) :
    List (List CodePoint × Value F) :=
  if fields.any fun f ↦ f.1 == field.1 then
    fields.map fun f ↦ if f.1 = field.1 then field else f
  else fields ++ [field]

def dict (fields : List (List CodePoint × Value F)) : List (List CodePoint × Value F) :=
  fields.foldl dictInsert []

mutual

/-- One value; the fuel is for the calls and never runs out. -/
def scanOnce : ℕ → List Char → Except DecodeError (Value F × List Char)
  | 0, text => stop length "maximum recursion depth exceeded" text
  | fuel + 1, text =>
    match text with
    | '"' :: rest => do
      let (s, rest) ← scanString length (length - text.length) 0 rest
      .ok (.str s, rest)
    | '{' :: rest => do
      let (fields, rest) ← scanFields fuel true (skipBlanks rest)
      .ok (.obj (dict fields), rest)
    | '[' :: rest => do
      let (items, rest) ← scanItems fuel true (skipBlanks rest)
      .ok (.arr items, rest)
    | text => scanAtom length parse text

def scanItems : ℕ → Bool → List Char → Except DecodeError (List (Value F) × List Char)
  | 0, _, text => stop length "maximum recursion depth exceeded" text
  | fuel + 1, first, text =>
    if first && text.head? == some ']' then .ok ([], text.drop 1)
    else do
      let (v, rest) ← scanOnce fuel text
      match skipBlanks rest with
      | ']' :: rest => .ok ([v], rest)
      | ',' :: rest =>
        let (vs, rest) ← scanItems fuel false (skipBlanks rest)
        .ok (v :: vs, rest)
      | rest => stop length "Expecting ',' delimiter" rest

def scanFields : ℕ → Bool → List Char →
    Except DecodeError (List (List CodePoint × Value F) × List Char)
  | 0, _, text => stop length "maximum recursion depth exceeded" text
  | fuel + 1, first, text =>
    if first && text.head? == some '}' then .ok ([], text.drop 1)
    else match text with
      | '"' :: rest => do
        let (key, rest) ← scanString length (length - text.length) 0 rest
        match skipBlanks rest with
        | ':' :: rest =>
          let (v, rest) ← scanOnce fuel (skipBlanks rest)
          match skipBlanks rest with
          | '}' :: rest => .ok ([(key, v)], rest)
          | ',' :: rest =>
            let (fields, rest) ← scanFields fuel false (skipBlanks rest)
            .ok ((key, v) :: fields, rest)
          | rest => stop length "Expecting ',' delimiter" rest
        | rest => stop length "Expecting ':' delimiter" rest
      | text => stop length "Expecting property name enclosed in double quotes" text

end

end Decode

def rawDecode {F : Type} (parse : List Char → F) (document : List Char) :
    Except DecodeError (Value F × List Char) :=
  scanOnce document.length parse (2 * document.length + 2) document

section Strings

/-- No two surrogates in a row make a pair. -/
def Unpaired (s : List CodePoint) : Prop :=
  s.IsChain fun a b ↦ ¬ (isHigh a = true ∧ isLow b = true)

theorem ofChar_val (c : Char) : (ofChar c).val = c.toNat := by
  have hvalid : c.toNat.isValidChar := c.valid
  unfold Nat.isValidChar at hvalid
  exact Nat.mod_eq_of_lt (by omega)

theorem ofChar_injective : Function.Injective ofChar := by
  intro c d h
  have hval := congrArg Fin.val h
  rw [ofChar_val, ofChar_val] at hval
  exact Char.toNat_inj.mp hval

theorem isHigh_ofChar (c : Char) : isHigh (ofChar c) = false := by
  have hvalid : c.toNat.isValidChar := c.valid
  unfold Nat.isValidChar at hvalid
  simp only [isHigh, ofChar_val, Bool.and_eq_false_iff, decide_eq_false_iff_not]
  omega

theorem unpaired_map_ofChar (text : List Char) : Unpaired (text.map ofChar) := by
  induction text with
  | nil => exact List.isChain_nil
  | cons c text ih =>
    cases text with
    | nil => exact List.isChain_singleton _
    | cons d text => exact List.isChain_cons_cons.mpr ⟨by simp [isHigh_ofChar], ih⟩

theorem point_val (c : CodePoint) : point c.val = c := Fin.ofNat_val_eq_self c

theorem hexDigit_digitChar : ∀ d < 16, hexDigit (Nat.digitChar d) = some d := by decide

theorem unhex_hex {n : ℕ} (hn : n < 65536) : unhex (hex n) = some n := by
  have hdigit (k : ℕ) : hexDigit (Nat.digitChar (k % 16)) = some (k % 16) :=
    hexDigit_digitChar _ (Nat.mod_lt _ (by omega))
  simp only [hex, unhex, hdigit, Option.bind_eq_bind, Option.bind_some, Option.some.injEq]
  omega

inductive Escaped (c : CodePoint) : List Char → Prop
  | letter (letter : Char) (hu : letter ≠ 'u') (h : unescaped.lookup letter = some c.val) :
    Escaped c ['\\', letter]
  | unit (h : c.val < 65536) : Escaped c ('\\' :: 'u' :: hex c.val)
  | plain (d : Char) (hd : ofChar d = c) (hquote : d ≠ '"') (hslash : d ≠ '\\')
    (hcontrol : 0x1f < d.toNat) : Escaped c [d]

theorem escaped (c : CodePoint) : Escaped c (escape c) := by
  unfold escape
  split
  next letter h =>
    have hmem : (c.val, letter) ∈ letters := by
      obtain ⟨l₁, l₂, heq, -⟩ := List.lookup_eq_some_iff.mp h
      simp [heq]
    simp only [letters, List.mem_cons, Prod.mk.injEq, List.not_mem_nil, or_false] at hmem
    refine .letter letter ?_ ?_
    · rintro rfl
      simp at hmem
    · rcases hmem with h | h | h | h | h | h | h <;> rw [h.1, h.2] <;> rfl
  next hletter =>
    have hplain {n : ℕ} {l : Char} (hmem : (n, l) ∈ letters) : c.val ≠ n := by
      rintro rfl
      have hnone := List.lookup_eq_none_iff.mp hletter _ hmem
      simp at hnone
    have hquote : c.val ≠ 34 := hplain (l := '"') (by decide)
    have hslash : c.val ≠ 92 := hplain (l := '\\') (by decide)
    split_ifs with h
    · simp only [isHigh, isLow, Bool.or_eq_true, Bool.and_eq_true, decide_eq_true_eq] at h
      exact .unit (by omega)
    · simp only [isHigh, isLow, Bool.or_eq_true, Bool.and_eq_true, decide_eq_true_eq] at h
      have hvalid : c.val.isValidChar := by
        have := c.isLt
        unfold Nat.isValidChar
        omega
      have htoNat : (Char.ofNat c.val).toNat = c.val := by
        rw [Char.ofNat, dif_pos hvalid]
        rfl
      refine .plain _ ?_ ?_ ?_ ?_
      · rw [ofChar, htoNat]
        exact point_val c
      · intro heq
        rw [heq] at htoNat
        exact hquote htoNat.symm
      · intro heq
        rw [heq] at htoNat
        exact hslash htoNat.symm
      · omega

/-- The text behind a lone high surrogate does not continue it. -/
def Follows (c : CodePoint) (t : List Char) : Prop :=
  isHigh c = true → ∀ more, t = '\\' :: 'u' :: more →
    ∃ n, unhex (more.take 4) = some n ∧ isLow (point n) = false

theorem follows (c : CodePoint) {s : List CodePoint} (hs : Unpaired (c :: s)) {t : List Char}
    (ht : t.head? ≠ some '\\') : Follows c (s.flatMap escape ++ t) := by
  intro hhigh more hmore
  cases s with
  | nil =>
    rw [List.flatMap_nil, List.nil_append] at hmore
    simp [hmore] at ht
  | cons d s =>
    have hlow : isLow d = false := by
      have hpair := (List.isChain_cons_cons.mp hs).1
      simpa [hhigh] using hpair
    rw [List.flatMap_cons, List.append_assoc] at hmore
    have hd := escaped d
    generalize escape d = e at hd hmore
    cases hd with
    | letter letter hu =>
      simp only [List.cons_append, List.cons.injEq, true_and] at hmore
      exact absurd hmore.1 hu
    | unit h =>
      simp only [List.cons_append, List.cons.injEq, true_and] at hmore
      refine ⟨d.val, ?_, ?_⟩
      · rw [← hmore, hex]
        exact unhex_hex h
      · rw [point_val]
        exact hlow
    | plain d' _ _ hslash =>
      simp only [List.cons_append, List.cons.injEq] at hmore
      exact absurd hmore.1 hslash

variable (length start : ℕ)

theorem unicode_hex {c : CodePoint} (hc : c.val < 65536) {t : List Char} (hne : t ≠ [])
    (ht : Follows c t) : unicode length ('u' :: hex c.val ++ t) = .ok (c, 5) := by
  have hlen : 0 < t.length := List.length_pos_iff.mpr hne
  have htake : (hex c.val ++ t).take 4 = hex c.val := rfl
  have hdrop : (hex c.val ++ t).drop 4 = t := rfl
  have hlong : 4 < (hex c.val ++ t).length := by
    simp only [hex, List.length_append, List.length_cons, List.length_nil]
    omega
  simp only [unicode, List.cons_append, List.drop_succ_cons, List.drop_zero, hlong, if_true, htake,
    unhex_hex hc, hdrop, point_val]
  split
  next more =>
    split_ifs with hpair
    · simp only [Bool.and_eq_true, decide_eq_true_eq] at hpair
      obtain ⟨n, hn, hlow⟩ := ht hpair.1 more rfl
      simp [hn, hlow]
    · rfl
  next => rfl

theorem scanString_skip (u rest : List Char) :
    scanString length start u.length (u ++ rest) = scanString length start 0 rest := by
  induction u with
  | nil => rfl
  | cons c u ih => exact ih

theorem scanString_slash {c : CodePoint} {u t : List Char}
    (h : unescape length start (u ++ t) = .ok (c, u.length)) :
    scanString length start 0 ('\\' :: (u ++ t)) =
      (scanString length start 0 t).map fun p ↦ (c :: p.1, p.2) := by
  rw [scanString, if_neg (by decide), if_pos rfl, h]
  simp only [bind, Except.bind]
  rw [scanString_skip]
  cases scanString length start 0 t <;> rfl

theorem scanString_plain {d : Char} (hquote : d ≠ '"') (hslash : d ≠ '\\')
    (hcontrol : 0x1f < d.toNat) (t : List Char) :
    scanString length start 0 (d :: t) =
      (scanString length start 0 t).map fun p ↦ (ofChar d :: p.1, p.2) := by
  rw [scanString, if_neg hquote, if_neg hslash, if_neg (by omega)]
  cases scanString length start 0 t <;> rfl

theorem unescape_letter {letter : Char} {n : ℕ} (hu : letter ≠ 'u')
    (h : unescaped.lookup letter = some n) (t : List Char) :
    unescape length start (letter :: t) = .ok (point n, 1) := by
  rw [unescape, if_neg hu, h]

/-- A written code point is read back. -/
theorem scanString_escape (c : CodePoint) {t : List Char} (hne : t ≠ []) (ht : Follows c t) :
    scanString length start 0 (escape c ++ t) =
      (scanString length start 0 t).map fun p ↦ (c :: p.1, p.2) := by
  have hc := escaped c
  generalize escape c = e at hc
  cases hc with
  | letter letter hu h =>
    refine scanString_slash length start (u := [letter]) ?_
    rw [List.singleton_append, unescape_letter length start hu h, point_val]
    rfl
  | unit h =>
    exact scanString_slash length start (u := 'u' :: hex c.val) (unicode_hex length h hne ht)
  | plain d hd hquote hslash hcontrol =>
    rw [← hd]
    exact scanString_plain length start hquote hslash hcontrol t

theorem escape_ne_nil (c : CodePoint) : escape c ≠ [] := by
  have hc := escaped c
  generalize escape c = e at hc
  cases hc <;> simp

theorem scanString_quote {s : List CodePoint} (hs : Unpaired s) (rest : List Char) :
    scanString length start 0 (s.flatMap escape ++ '"' :: rest) = .ok (s, rest) := by
  induction s with
  | nil => rfl
  | cons c s ih =>
    rw [List.flatMap_cons, List.append_assoc]
    have hfollows := follows c hs (t := '"' :: rest) (by simp)
    rw [scanString_escape length start c (by simp) hfollows, ih hs.of_cons]
    rfl

theorem scanString_open {s : List CodePoint} (hs : Unpaired s) :
    ∃ e, scanString length start 0 (s.flatMap escape) = .error e := by
  induction s with
  | nil => exact ⟨_, rfl⟩
  | cons c s ih =>
    rw [List.flatMap_cons]
    cases s with
    | nil =>
      have hc := escaped c
      generalize escape c = e at hc
      cases hc with
      | letter letter hu h =>
        refine ⟨⟨"Unterminated string starting at", start⟩, ?_⟩
        have hslash := scanString_slash length start (u := [letter]) (t := [])
          (unescape_letter length start hu h [])
        exact hslash
      | unit h => exact ⟨_, rfl⟩
      | plain d hd hquote hslash hcontrol =>
        rw [List.singleton_append, scanString_plain length start hquote hslash hcontrol]
        exact ⟨_, rfl⟩
    | cons d s =>
      have hne : (d :: s).flatMap escape ≠ [] := by simp [escape_ne_nil]
      have hfollows := follows c hs (t := []) (by simp)
      rw [List.append_nil] at hfollows
      obtain ⟨e, he⟩ := ih hs.of_cons
      rw [scanString_escape length start c hne hfollows, he]
      exact ⟨e, rfl⟩

end Strings

section Numbers

/-- The text does not go on with one of the characters of a number. -/
def Ends (text : List Char) : Prop :=
  ∀ c ∈ text.head?, c.isDigit = false ∧ c ≠ '.' ∧ c ≠ 'e' ∧ c ≠ 'E'

theorem digits_append {u t : List Char} (hu : ∀ c ∈ u, c.isDigit = true)
    (ht : ∀ c ∈ t.head?, c.isDigit = false) :
    (u ++ t).takeWhile Char.isDigit = u ∧ (u ++ t).dropWhile Char.isDigit = t := by
  have hnil : t.takeWhile Char.isDigit = [] ∧ t.dropWhile Char.isDigit = t := by
    cases t with
    | nil => exact ⟨rfl, rfl⟩
    | cons c t =>
      have hc := ht c rfl
      simp [hc]
  rw [List.takeWhile_append_of_pos hu, List.dropWhile_append_of_pos hu, hnil.1, hnil.2]
  exact ⟨List.append_nil u, rfl⟩

theorem isDigit_digit (d : Fin 10) : (digit d).isDigit = true := by
  revert d
  decide

/-- A decimal numeral is a zero or begins with another digit. -/
theorem toDigits_cases (n : ℕ) :
    n = 0 ∧ Nat.toDigits 10 n = ['0'] ∨
      ∃ c u, Nat.toDigits 10 n = c :: u ∧ c ≠ '0' ∧ c.isDigit = true ∧ ∀ d ∈ u,
        d.isDigit = true := by
  have hdigitChar : ∀ k < 10, (Nat.digitChar k).isDigit = true := by decide
  have hnonzero : ∀ k < 10, k ≠ 0 → Nat.digitChar k ≠ '0' := by decide
  induction n using Nat.strongRecOn with
  | ind n ih =>
    by_cases hsmall : n < 10
    · rw [Nat.toDigits_of_lt_base hsmall]
      by_cases hzero : n = 0
      · subst hzero
        exact .inl ⟨rfl, rfl⟩
      · exact .inr ⟨_, [], rfl, hnonzero n hsmall hzero, hdigitChar n hsmall, by simp⟩
    · rw [Nat.toDigits_of_base_le (by decide) (by omega)]
      have hlast := hdigitChar (n % 10) (by omega)
      rcases ih (n / 10) (by omega) with ⟨hzero, -⟩ | ⟨c, u, h, hc, hdigit, hu⟩
      · omega
      · refine .inr ⟨c, u ++ [Nat.digitChar (n % 10)], by rw [h, List.cons_append], hc, hdigit,
          fun d hd ↦ ?_⟩
        rcases List.mem_append.mp hd with hd | hd
        · exact hu d hd
        · rw [List.mem_singleton.mp hd]
          exact hlast

theorem takeWhole_digits (n : ℕ) {t : List Char} (ht : ∀ c ∈ t.head?, c.isDigit = false) :
    takeWhole (Nat.toDigits 10 n ++ t) = some (Nat.toDigits 10 n, t) := by
  rcases toDigits_cases n with ⟨-, h⟩ | ⟨c, u, h, hc, hdigit, hu⟩
  · rw [h]
    rfl
  · obtain ⟨htake, hdrop⟩ := digits_append hu ht
    rw [h, List.cons_append, takeWhole, if_neg hc, if_pos hdigit, htake, hdrop]

theorem takeFraction_text (l : Lexeme) {t : List Char}
    (ht : ∀ c ∈ t.head?, c.isDigit = false ∧ c ≠ '.') :
    takeFraction (l.fractionText ++ t) = (l.fractionText, t) := by
  unfold Lexeme.fractionText
  split_ifs with h
  · cases t with
    | nil => rfl
    | cons c t =>
      have hc := (ht c rfl).2
      rw [List.nil_append, takeFraction.eq_def]
      split
      next heq => exact absurd (List.cons.inj heq).1 hc
      next => rfl
  · obtain ⟨htake, hdrop⟩ := digits_append (u := l.fraction.map digit)
      (by simp [isDigit_digit]) fun c hc ↦ (ht c hc).1
    rw [List.cons_append, takeFraction, htake, hdrop, if_neg (by simpa using h)]

theorem takeExponent_text (l : Lexeme) {t : List Char} (ht : Ends t) :
    takeExponent (l.exponentText ++ t) = (l.exponentText, t) := by
  unfold Lexeme.exponentText
  cases l.exponent with
  | none =>
    cases t with
    | nil => rfl
    | cons c t =>
      obtain ⟨-, -, he, hE⟩ := ht c rfl
      have hneither : ¬ (c = 'e' ∨ c = 'E') := by tauto
      simp only [List.nil_append, takeExponent, if_neg hneither]
  | some x =>
    obtain ⟨negative, d, ds⟩ := x
    obtain ⟨htake, hdrop⟩ := digits_append (u := (d :: ds).map digit) (t := t)
      (by simp [isDigit_digit]) fun c hc ↦ (ht c hc).1
    have hsign : takeSign ((if negative then '-' else '+') :: ((d :: ds).map digit ++ t)) =
        ([if negative then '-' else '+'], (d :: ds).map digit ++ t) := by
      cases negative <;> rfl
    dsimp only
    rw [List.cons_append, List.cons_append, takeExponent, if_pos (.inl rfl), hsign]
    dsimp only
    rw [htake, hdrop, if_neg (by simp)]
    rfl

theorem exponentText_head (l : Lexeme) {t : List Char} (ht : Ends t) :
    ∀ c ∈ (l.exponentText ++ t).head?, c.isDigit = false ∧ c ≠ '.' := by
  intro c hc
  unfold Lexeme.exponentText at hc
  cases hexponent : l.exponent with
  | none =>
    simp only [hexponent, List.nil_append] at hc
    exact ⟨(ht c hc).1, (ht c hc).2.1⟩
  | some x =>
    obtain ⟨negative, d, ds⟩ := x
    simp only [hexponent, List.cons_append, List.head?_cons, Option.mem_def,
      Option.some.injEq] at hc
    subst hc
    exact ⟨rfl, by decide⟩

theorem fractionText_head (l : Lexeme) {t : List Char} (ht : Ends t) :
    ∀ c ∈ (l.fractionText ++ (l.exponentText ++ t)).head?, c.isDigit = false := by
  intro c hc
  unfold Lexeme.fractionText at hc
  split_ifs at hc
  · exact (exponentText_head l ht c hc).1
  · simp only [List.cons_append, List.head?_cons, Option.mem_def, Option.some.injEq] at hc
    subst hc
    rfl

theorem fractionText_isEmpty (l : Lexeme) : l.fractionText.isEmpty = l.fraction.isEmpty := by
  unfold Lexeme.fractionText
  cases h : l.fraction.isEmpty <;> simp

theorem exponentText_isEmpty (l : Lexeme) : l.exponentText.isEmpty = l.exponent.isNone := by
  unfold Lexeme.exponentText
  cases l.exponent <;> rfl

/-- The text of a number begins with a digit, or with a minus before one. -/
theorem text_cases (l : Lexeme) :
    ∃ c u, c.isDigit = true ∧ l.text = sign l.negative ++ c :: u := by
  have hassoc : l.text = sign l.negative ++
      (Nat.toDigits 10 l.whole ++ (l.fractionText ++ l.exponentText)) := by
    simp [Lexeme.text]
  rcases toDigits_cases l.whole with ⟨-, h⟩ | ⟨c, u, h, -, hdigit, -⟩
  · exact ⟨'0', l.fractionText ++ l.exponentText, rfl, by rw [hassoc, h]; rfl⟩
  · exact ⟨c, u ++ (l.fractionText ++ l.exponentText), hdigit, by
      rw [hassoc, h, List.cons_append]⟩

theorem ne_of_isDigit {c d : Char} (hc : c.isDigit = true) (hd : d.isDigit = false) : c ≠ d := by
  rintro rfl
  rw [hc] at hd
  cases hd

variable {F : Type} (length : ℕ) (parse : List Char → F)

theorem scanNumber_text (l : Lexeme) {t : List Char} (ht : Ends t) :
    scanNumber parse (l.text ++ t) = some (if l.isFloat then .float (parse l.text)
      else .int (if l.negative then -(l.whole : ℤ) else l.whole), t) := by
  obtain ⟨c, u, hc, htext⟩ := text_cases l
  have hhead : ((l.text ++ t).head? == some '-') = l.negative := by
    rw [htext]
    cases l.negative with
    | true => rfl
    | false =>
      have hne := ne_of_isDigit hc (d := '-') rfl
      simp [sign, hne]
  have hrest : (if l.negative = true then (l.text ++ t).drop 1 else l.text ++ t) =
      Nat.toDigits 10 l.whole ++ (l.fractionText ++ (l.exponentText ++ t)) := by
    unfold Lexeme.text
    cases l.negative <;> simp [sign]
  unfold scanNumber
  simp only [hhead, hrest, takeWhole_digits _ (fractionText_head l ht), Option.bind_eq_bind,
    Option.bind_some, takeFraction_text l (exponentText_head l ht), takeExponent_text l ht,
    fractionText_isEmpty, exponentText_isEmpty, Nat.ofDigitChars_ten_toDigits]
  cases hfraction : l.fraction.isEmpty <;> cases hexponent : l.exponent <;>
    simp [Lexeme.isFloat, Lexeme.text, hfraction, hexponent]

theorem words_text (l : Lexeme) (t : List Char) :
    (words parse).find? (fun word ↦ word.1.isPrefixOf (l.text ++ t)) = none := by
  obtain ⟨c, u, hc, htext⟩ := text_cases l
  have hn := ne_of_isDigit hc (d := 'n') rfl
  have ht := ne_of_isDigit hc (d := 't') rfl
  have hf := ne_of_isDigit hc (d := 'f') rfl
  have hN := ne_of_isDigit hc (d := 'N') rfl
  have hI := ne_of_isDigit hc (d := 'I') rfl
  have hminus := ne_of_isDigit hc (d := '-') rfl
  rw [htext]
  cases l.negative <;>
    simp [sign, words, List.isPrefixOf, hn.symm, ht.symm, hf.symm, hN.symm, hI.symm, hminus.symm]

theorem scanAtom_text (l : Lexeme) {t : List Char} (ht : Ends t) :
    scanAtom length parse (l.text ++ t) = .ok (if l.isFloat then .float (parse l.text)
      else .int (if l.negative then -(l.whole : ℤ) else l.whole), t) := by
  rw [scanAtom, words_text, scanNumber_text parse l ht]

end Numbers

section Values

variable {F : Type}

/-- A value that can be written: its strings are well formed and its keys distinct. -/
inductive Proper : Value F → Prop
  | null : Proper .null
  | bool (b : Bool) : Proper (.bool b)
  | int (n : ℤ) : Proper (.int n)
  | float (x : F) : Proper (.float x)
  | str {s : List CodePoint} (h : Unpaired s) : Proper (.str s)
  | arr {items : List (Value F)} (h : ∀ v ∈ items, Proper v) : Proper (.arr items)
  | obj {fields : List (List CodePoint × Value F)} (hdistinct : (fields.map Prod.fst).Nodup)
    (hkeys : ∀ f ∈ fields, Unpaired f.1) (hvalues : ∀ f ∈ fields, Proper f.2) :
    Proper (.obj fields)

theorem dict_eq_self {fields : List (List CodePoint × Value F)}
    (h : (fields.map Prod.fst).Nodup) : dict fields = fields := by
  induction fields using List.reverseRecOn with
  | nil => rfl
  | append_singleton fields f ih =>
    rw [List.map_append, List.nodup_append] at h
    obtain ⟨hfields, -, hnew⟩ := h
    have hnone : (fields.any fun g ↦ g.1 == f.1) = false := by
      refine List.any_eq_false.mpr fun g hg ↦ ?_
      have hne := hnew g.1 (List.mem_map_of_mem hg) f.1 (by simp)
      simpa using hne
    have hlast : dict (fields ++ [f]) = dictInsert (dict fields) f := by simp [dict]
    rw [hlast, ih hfields, dictInsert, hnone]
    rfl

variable (floats : Floats F)

theorem skipBlanks_cons {c : Char} (hc : isBlank c = false) (t : List Char) :
    skipBlanks (c :: t) = c :: t := by
  rw [skipBlanks, List.dropWhile_cons, if_neg (by simp [hc])]

theorem encode_int (n : ℤ) :
    encode floats (.int n) = (⟨n < 0, n.natAbs, [], none⟩ : Lexeme).text := by
  simp [encode, Lexeme.text, Lexeme.fractionText, Lexeme.exponentText]

theorem text_head (l : Lexeme) : ∃ c u, l.text = c :: u ∧ isBlank c = false ∧ c ≠ ']' := by
  obtain ⟨c, u, hc, htext⟩ := text_cases l
  cases hl : l.negative with
  | true => exact ⟨'-', c :: u, by rw [htext, hl]; rfl, rfl, by decide⟩
  | false =>
    refine ⟨c, u, by rw [htext, hl]; rfl, ?_, ne_of_isDigit hc rfl⟩
    have hspace := ne_of_isDigit hc (d := ' ') rfl
    have htab := ne_of_isDigit hc (d := '\t') rfl
    have hnewline := ne_of_isDigit hc (d := '\n') rfl
    have hreturn := ne_of_isDigit hc (d := '\r') rfl
    simp [isBlank, hspace, htab, hnewline, hreturn]

/-- The text of a value begins with neither a blank nor a closing bracket. -/
theorem encode_head (v : Value F) :
    ∃ c u, encode floats v = c :: u ∧ isBlank c = false ∧ c ≠ ']' := by
  cases v with
  | null => exact ⟨_, _, rfl, rfl, by decide⟩
  | bool b => cases b <;> exact ⟨_, _, rfl, rfl, by decide⟩
  | int n =>
    rw [encode_int]
    exact text_head _
  | float x => exact text_head _
  | str s => exact ⟨_, _, rfl, rfl, by decide⟩
  | arr items => exact ⟨_, _, rfl, rfl, by decide⟩
  | obj fields => exact ⟨_, _, rfl, rfl, by decide⟩

theorem ends_cons {c : Char} (hc : c = ',' ∨ c = ']' ∨ c = '}') (t : List Char) :
    Ends (c :: t) := by
  intro d hd
  obtain rfl : c = d := by simpa using hd
  rcases hc with rfl | rfl | rfl <;> exact ⟨rfl, by decide⟩

def Reads (v : Value F) : Prop :=
  ∀ length fuel rest, (encode floats v).length ≤ fuel → Ends rest →
    scanOnce length floats.parse fuel (encode floats v ++ rest) = .ok (v, rest)

variable {floats} {length fuel : ℕ} {first : Bool}

theorem scanItems_open {v : Value F} (hv : Reads floats v)
    (hfuel : (encode floats v).length ≤ fuel) {t : List Char} (ht : Ends t) :
    scanItems length floats.parse (fuel + 1) first (encode floats v ++ t) =
      match skipBlanks t with
      | ']' :: rest => .ok ([v], rest)
      | ',' :: rest => do
        let (vs, rest) ← scanItems length floats.parse fuel false (skipBlanks rest)
        .ok (v :: vs, rest)
      | rest => stop length "Expecting ',' delimiter" rest := by
  obtain ⟨c, u, hc, -, hbracket⟩ := encode_head floats v
  have hopen : (first && (encode floats v ++ t).head? == some ']') = false := by
    rw [hc]
    simp [hbracket]
  rw [scanItems, hopen, hv length fuel _ hfuel ht]
  rfl

theorem scanItems_last {v : Value F} (hv : Reads floats v)
    (hfuel : (encode floats v).length ≤ fuel) (rest : List Char) :
    scanItems length floats.parse (fuel + 1) first (encode floats v ++ ']' :: rest) =
      .ok ([v], rest) := by
  rw [scanItems_open hv hfuel (ends_cons (by simp) rest), skipBlanks_cons rfl]
  rfl

theorem scanItems_next {v : Value F} (hv : Reads floats v)
    (hfuel : (encode floats v).length ≤ fuel) (t : List Char) :
    scanItems length floats.parse (fuel + 1) first (encode floats v ++ ',' :: t) =
      (scanItems length floats.parse fuel false (skipBlanks t)).map fun p ↦ (v :: p.1, p.2) := by
  rw [scanItems_open hv hfuel (ends_cons (by simp) t), skipBlanks_cons rfl]
  change (scanItems length floats.parse fuel false (skipBlanks t) >>= _) = _
  cases scanItems length floats.parse fuel false (skipBlanks t) <;> rfl

theorem encodeItems_cons (v v' : Value F) (vs : List (Value F)) :
    encodeItems floats [] (v :: v' :: vs) =
      encode floats v ++ ',' :: encodeItems floats [] (v' :: vs) := by
  simp [encodeItems]

theorem skipBlanks_items (v : Value F) (vs : List (Value F)) (rest : List Char) :
    skipBlanks (encodeItems floats [] (v :: vs) ++ rest) =
      encodeItems floats [] (v :: vs) ++ rest := by
  obtain ⟨c, u, hc, hblank, -⟩ := encode_head floats v
  have hnext : encodeItems floats [] (v :: vs) ++ rest =
      c :: (u ++ (encodeItems floats [','] vs ++ rest)) := by simp [encodeItems, hc]
  rw [hnext, skipBlanks_cons hblank]

theorem scanItems_encode {vs : List (Value F)} (hvs : ∀ v ∈ vs, Reads floats v)
    (hfuel : (encodeItems floats [] vs).length ≤ fuel) (hfirst : vs = [] → first = true)
    (rest : List Char) :
    scanItems length floats.parse fuel first (encodeItems floats [] vs ++ rest) =
      .ok (vs, rest) := by
  induction vs generalizing fuel first with
  | nil =>
    rw [hfirst rfl]
    cases fuel with
    | zero => simp [encodeItems] at hfuel
    | succ fuel => rfl
  | cons v vs ih =>
    have hv : Reads floats v := hvs v (by simp)
    cases vs with
    | nil =>
      have htext : encodeItems floats [] [v] = encode floats v ++ [']'] := by simp [encodeItems]
      rw [htext, List.length_append, List.length_singleton] at hfuel
      obtain ⟨fuel, rfl⟩ : ∃ n, fuel = n + 1 := ⟨fuel - 1, by omega⟩
      rw [htext, List.append_assoc]
      exact scanItems_last hv (by omega) rest
    | cons v' vs =>
      rw [encodeItems_cons, List.length_append, List.length_cons] at hfuel
      obtain ⟨fuel, rfl⟩ : ∃ n, fuel = n + 1 := ⟨fuel - 1, by omega⟩
      rw [encodeItems_cons, List.append_assoc, List.cons_append, scanItems_next hv (by omega),
        skipBlanks_items, ih (fun v hv ↦ hvs v (by simp [hv])) (by omega) (by simp)]
      rfl

theorem scanFields_key {key : List CodePoint} (hkey : Unpaired key) (t : List Char) :
    scanFields length floats.parse (fuel + 1) first (quote key ++ ':' :: t) = (do
      let (v, rest) ← scanOnce length floats.parse fuel (skipBlanks t)
      match skipBlanks rest with
      | '}' :: rest => .ok ([(key, v)], rest)
      | ',' :: rest =>
        let (fields, rest) ← scanFields length floats.parse fuel false (skipBlanks rest)
        .ok ((key, v) :: fields, rest)
      | rest => stop length "Expecting ',' delimiter" rest) := by
  have hquote : quote key ++ ':' :: t = '"' :: (key.flatMap escape ++ '"' :: ':' :: t) := by
    simp [quote]
  have hopen : (first && ('"' :: (key.flatMap escape ++ '"' :: ':' :: t)).head? == some '}') =
      false := by simp
  rw [hquote, scanFields, hopen, scanString_quote _ _ hkey]
  change (match skipBlanks (':' :: t) with
    | ':' :: rest => _
    | rest => stop length "Expecting ':' delimiter" rest) = _
  rw [skipBlanks_cons rfl]
  rfl

theorem scanFields_open {key : List CodePoint} {v : Value F} (hkey : Unpaired key)
    (hv : Reads floats v) (hfuel : (encode floats v).length ≤ fuel) {t : List Char} (ht : Ends t) :
    scanFields length floats.parse (fuel + 1) first
        (quote key ++ ':' :: (encode floats v ++ t)) =
      match skipBlanks t with
      | '}' :: rest => .ok ([(key, v)], rest)
      | ',' :: rest => do
        let (fields, rest) ← scanFields length floats.parse fuel false (skipBlanks rest)
        .ok ((key, v) :: fields, rest)
      | rest => stop length "Expecting ',' delimiter" rest := by
  obtain ⟨c, u, hc, hblank, -⟩ := encode_head floats v
  have hblanks : skipBlanks (encode floats v ++ t) = encode floats v ++ t := by
    rw [hc, List.cons_append, skipBlanks_cons hblank]
  rw [scanFields_key hkey, hblanks, hv length fuel _ hfuel ht]
  rfl

theorem scanFields_last {key : List CodePoint} {v : Value F} (hkey : Unpaired key)
    (hv : Reads floats v) (hfuel : (encode floats v).length ≤ fuel) (rest : List Char) :
    scanFields length floats.parse (fuel + 1) first
        (quote key ++ ':' :: (encode floats v ++ '}' :: rest)) = .ok ([(key, v)], rest) := by
  rw [scanFields_open hkey hv hfuel (ends_cons (by simp) rest), skipBlanks_cons rfl]
  rfl

theorem scanFields_next {key : List CodePoint} {v : Value F} (hkey : Unpaired key)
    (hv : Reads floats v) (hfuel : (encode floats v).length ≤ fuel) (t : List Char) :
    scanFields length floats.parse (fuel + 1) first
        (quote key ++ ':' :: (encode floats v ++ ',' :: t)) =
      (scanFields length floats.parse fuel false (skipBlanks t)).map fun p ↦
        ((key, v) :: p.1, p.2) := by
  rw [scanFields_open hkey hv hfuel (ends_cons (by simp) t), skipBlanks_cons rfl]
  change (scanFields length floats.parse fuel false (skipBlanks t) >>= _) = _
  cases scanFields length floats.parse fuel false (skipBlanks t) <;> rfl

theorem encodeFields_cons (key : List CodePoint) (v : Value F) (f : List CodePoint × Value F)
    (fields : List (List CodePoint × Value F)) :
    encodeFields floats [] ((key, v) :: f :: fields) =
      quote key ++ ':' :: (encode floats v ++ ',' :: encodeFields floats [] (f :: fields)) := by
  obtain ⟨key', v'⟩ := f
  simp [encodeFields]

theorem skipBlanks_fields (fields : List (List CodePoint × Value F)) (rest : List Char) :
    skipBlanks (encodeFields floats [] fields ++ rest) = encodeFields floats [] fields ++ rest := by
  cases fields with
  | nil => rfl
  | cons f fields =>
    obtain ⟨key, v⟩ := f
    simp [encodeFields, quote, skipBlanks_cons (c := '"') rfl]

theorem scanFields_encode {fields : List (List CodePoint × Value F)}
    (hkeys : ∀ f ∈ fields, Unpaired f.1) (hvalues : ∀ f ∈ fields, Reads floats f.2)
    (hfuel : (encodeFields floats [] fields).length ≤ fuel) (hfirst : fields = [] → first = true)
    (rest : List Char) :
    scanFields length floats.parse fuel first (encodeFields floats [] fields ++ rest) =
      .ok (fields, rest) := by
  induction fields generalizing fuel first with
  | nil =>
    rw [hfirst rfl]
    cases fuel with
    | zero => simp [encodeFields] at hfuel
    | succ fuel => rfl
  | cons f fields ih =>
    obtain ⟨key, v⟩ := f
    have hkey : Unpaired key := hkeys (key, v) (by simp)
    have hv : Reads floats v := hvalues (key, v) (by simp)
    cases fields with
    | nil =>
      have htext : encodeFields floats [] [(key, v)] =
          quote key ++ ':' :: (encode floats v ++ ['}']) := by simp [encodeFields]
      rw [htext] at hfuel ⊢
      simp only [List.length_append, List.length_cons, List.length_nil] at hfuel
      obtain ⟨fuel, rfl⟩ : ∃ n, fuel = n + 1 := ⟨fuel - 1, by omega⟩
      rw [List.append_assoc, List.cons_append, List.append_assoc]
      exact scanFields_last hkey hv (by omega) rest
    | cons f fields =>
      rw [encodeFields_cons] at hfuel ⊢
      simp only [List.length_append, List.length_cons] at hfuel
      obtain ⟨fuel, rfl⟩ : ∃ n, fuel = n + 1 := ⟨fuel - 1, by omega⟩
      rw [List.append_assoc, List.cons_append, List.append_assoc, List.cons_append,
        scanFields_next hkey hv (by omega), skipBlanks_fields,
        ih (fun f hf ↦ hkeys f (by simp [hf])) (fun f hf ↦ hvalues f (by simp [hf])) (by omega)
          (by simp)]
      rfl

theorem scanOnce_atom {c : Char} (hquote : c ≠ '"') (hbrace : c ≠ '\x7b') (hbracket : c ≠ '[')
    (t : List Char) :
    scanOnce length floats.parse (fuel + 1) (c :: t) = scanAtom length floats.parse (c :: t) := by
  rw [scanOnce]
  · rintro t h
    exact hquote (List.cons.inj h).1
  · rintro t h
    exact hbrace (List.cons.inj h).1
  · rintro t h
    exact hbracket (List.cons.inj h).1

theorem scanOnce_fields {fields : List (List CodePoint × Value F)}
    (hdistinct : (fields.map Prod.fst).Nodup) (hkeys : ∀ f ∈ fields, Unpaired f.1)
    (hvalues : ∀ f ∈ fields, Reads floats f.2)
    (hfuel : (encodeFields floats [] fields).length ≤ fuel) (rest : List Char) :
    scanOnce length floats.parse (fuel + 1) (encode floats (.obj fields) ++ rest) =
      .ok (.obj fields, rest) := by
  rw [encode, List.cons_append, scanOnce, skipBlanks_fields,
    scanFields_encode hkeys hvalues hfuel (by simp)]
  simp only [bind, Except.bind, dict_eq_self hdistinct]

theorem scanOnce_text (l : Lexeme) {rest : List Char} (hrest : Ends rest) :
    scanOnce length floats.parse (fuel + 1) (l.text ++ rest) =
      .ok (if l.isFloat then .float (floats.parse l.text)
        else .int (if l.negative then -(l.whole : ℤ) else l.whole), rest) := by
  rw [← scanAtom_text length floats.parse l hrest]
  obtain ⟨c, u, hc, htext⟩ := text_cases l
  cases hl : l.negative with
  | true =>
    rw [htext, hl]
    exact scanOnce_atom (by decide) (by decide) (by decide) _
  | false =>
    rw [htext, hl]
    exact scanOnce_atom (ne_of_isDigit hc rfl) (ne_of_isDigit hc rfl) (ne_of_isDigit hc rfl) _

variable (floats) in
theorem encode_pos (v : Value F) : 0 < (encode floats v).length := by
  obtain ⟨c, u, hc, -⟩ := encode_head floats v
  simp [hc]

theorem exists_fuel {v : Value F} (h : (encode floats v).length ≤ fuel) : ∃ n, fuel = n + 1 := by
  have hpos := encode_pos floats v
  exact ⟨fuel - 1, by omega⟩

/-- A value that can be written is read back. -/
theorem Proper.reads {v : Value F} (h : Proper v) : Reads floats v := by
  induction h with
  | null =>
    intro length fuel rest hfuel _
    obtain ⟨fuel, rfl⟩ := exists_fuel hfuel
    rfl
  | bool b =>
    intro length fuel rest hfuel _
    obtain ⟨fuel, rfl⟩ := exists_fuel hfuel
    cases b <;> rfl
  | int n =>
    intro length fuel rest hfuel hrest
    obtain ⟨fuel, rfl⟩ := exists_fuel hfuel
    rw [encode_int, scanOnce_text _ hrest]
    simp only [Lexeme.isFloat, List.isEmpty_nil, Option.isSome_none]
    by_cases hn : n < 0
    · have hvalue : -(n.natAbs : ℤ) = n := by omega
      simp only [hn, decide_true, if_true, hvalue]
      rfl
    · have hvalue : (n.natAbs : ℤ) = n := by omega
      simp only [hn, decide_false, hvalue]
      rfl
  | float x =>
    intro length fuel rest hfuel hrest
    obtain ⟨fuel, rfl⟩ := exists_fuel hfuel
    rw [encode, scanOnce_text _ hrest, if_pos (floats.isFloat_print x), floats.parse_print]
  | @str s h =>
    intro length fuel rest hfuel _
    obtain ⟨fuel, rfl⟩ := exists_fuel hfuel
    have htext : encode floats (.str s) ++ rest = '"' :: (s.flatMap escape ++ '"' :: rest) := by
      simp [encode, quote]
    rw [htext, scanOnce, scanString_quote _ _ h]
    rfl
  | @arr items h ih =>
    intro length fuel rest hfuel _
    rw [encode, List.length_cons] at hfuel
    obtain ⟨fuel, rfl⟩ : ∃ n, fuel = n + 1 := ⟨fuel - 1, by omega⟩
    have hblanks : skipBlanks (encodeItems floats [] items ++ rest) =
        encodeItems floats [] items ++ rest := by
      cases items with
      | nil => rfl
      | cons v vs => exact skipBlanks_items v vs rest
    rw [encode, List.cons_append, scanOnce, hblanks,
      scanItems_encode ih (by omega) (by simp)]
    rfl
  | @obj fields hdistinct hkeys hvalues ih =>
    intro length fuel rest hfuel _
    rw [encode, List.length_cons] at hfuel
    obtain ⟨fuel, rfl⟩ : ∃ n, fuel = n + 1 := ⟨fuel - 1, by omega⟩
    exact scanOnce_fields hdistinct hkeys ih (by omega) rest

end Values

end LibLitertLm.JsonText
