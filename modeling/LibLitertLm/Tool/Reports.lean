import LibLitertLm.Library.JsonCut
import LibLitertLm.Tool.Symbols
import Mathlib.Data.List.Infix

namespace LibLitertLm.Tool

open JsonText Regex

def pushLine (c : Char) : List (List Char) → List (List Char)
  | [] => [[c]]
  | line :: lines => (c :: line) :: lines

/-- `str.splitlines`, to which a carriage return and a newline are one break. -/
def splitlines : List Char → List (List Char)
  | [] => []
  | c :: rest =>
    if c = '\r' ∧ rest.head? = some '\n' then splitlines rest
    else if isLineEnd c then [] :: splitlines rest
    else pushLine c (splitlines rest)

def escapeChar : Char := '\x1b'

def isParameter (c : Char) : Bool := c.isDigit || c == ';'

def ansiPattern : Regex :=
  seq (one (· == escapeChar))
    (seq (one (· == '[')) (seq (many true isParameter) (one Char.isAlpha)))

def stripAnsi (line : List Char) : List Char := remove (fun _ ↦ false) ansiPattern 0 [] line

def marker : List Char := ['L', 'R', 'L', 'M', '_', 'R', 'E', 'P', 'O', 'R', 'T', ' ']

def behind (word : List Char) : List Char → Option (List Char)
  | [] => if word.isEmpty then some [] else none
  | c :: rest =>
    if word.isPrefixOf (c :: rest) then some ((c :: rest).drop word.length) else behind word rest

structure ReportError where
  line : ℕ
  error : String
deriving DecidableEq

def describe (document : List Char) (e : DecodeError) : String :=
  let before := document.take e.position
  e.message ++ ": line " ++ toString (before.count '\n' + 1) ++
    " column " ++ toString ((before.reverse.takeWhile (· != '\n')).length + 1) ++
    " (char " ++ toString e.position ++ ")"

variable {F : Type} (parse : List Char → F)

def parseLine (number : ℕ) (line : List Char) :
    Option (Except ReportError (List (List CodePoint × Value F))) :=
  match behind marker (stripAnsi line) with
  | none => none
  | some rest =>
    let document := rest.dropWhile isSpace
    match rawDecode parse document with
    | .ok (.obj payload, _) => some (.ok payload)
    | .ok _ => some (.error ⟨number, "report is not a JSON object"⟩)
    | .error error => some (.error ⟨number, describe document error⟩)

def parseLines : ℕ → List (List Char) → List (List (List CodePoint × Value F)) × List ReportError
  | _, [] => ([], [])
  | number, line :: lines =>
    let (reports, errors) := parseLines (number + 1) lines
    match parseLine parse number line with
    | none => (reports, errors)
    | some (.ok report) => (report :: reports, errors)
    | some (.error error) => (reports, error :: errors)

def parseReports (text : List Char) :
    List (List (List CodePoint × Value F)) × List ReportError :=
  parseLines parse 1 (splitlines text)

def Printable (c : Char) : Prop := 0x20 ≤ c.toNat ∧ c.toNat < 0x7f

def InCommand (c : Char) : Prop := c = '\x08' ∨ c = '\t' ∨ Printable c

/-- A piece of what stands before a report: a character, or an escape sequence
with its end. -/
inductive Piece
  | char (c : Char) (h : Printable c)
  | control (body : List Char) (final : Char)
    (hbody : ∀ c ∈ body, 0x20 ≤ c.toNat ∧ c.toNat < 0x40) (hfinal : 0x40 ≤ final.toNat)
    (hprintable : Printable final)
  | short (body : List Char) (final : Char)
    (hbody : ∀ c ∈ body, 0x20 ≤ c.toNat ∧ c.toNat < 0x30) (hfinal : 0x30 ≤ final.toNat)
    (hprintable : Printable final) (hc : body = [] → final ≠ '[')
  -- a command string, up to a bell or a string terminator
  | string (kind : Char) (body : List Char) (bell : Bool) (hkind : kind ∈ [']', 'P', 'X', '^', '_'])
    (hbody : ∀ c ∈ body, InCommand c)

def Piece.text : Piece → List Char
  | .char c _ => [c]
  | .control body final _ _ _ => escapeChar :: '[' :: (body ++ [final])
  | .short body final _ _ _ _ => escapeChar :: (body ++ [final])
  | .string kind body bell _ _ =>
    escapeChar :: kind :: (body ++ if bell then ['\x07'] else [escapeChar, '\\'])

/-- What is left once the escape sequences are removed. -/
def Piece.shown : Piece → List Char
  | .char c _ => [c]
  | _ => []

/-- What the pattern of the code leaves. -/
def Piece.kept : Piece → List Char
  | .control body final _ _ _ =>
    if body.all isParameter && final.isAlpha then [] else escapeChar :: '[' :: (body ++ [final])
  | piece => piece.text

/-- A line with a report, as the device harness prints it and the terminal shows it. -/
structure ReportLine (F : Type) where
  before : List Piece
  report : List (List CodePoint × Value F)
  after : List Char
  unmarked : ¬ marker <:+: before.flatMap Piece.shown
  proper : Proper (.obj report)
  printable : ∀ c ∈ after, Printable c

namespace ReportLine

variable (floats : Floats F) (line : ReportLine F)

def content : List Char :=
  line.before.flatMap Piece.text ++ (marker ++ (encode floats (.obj line.report) ++ line.after))

def text : List Char := line.content floats ++ ['\n']

def Unbroken : Prop :=
  ∀ p ∈ points (.obj line.report), p.val ≠ 0x85 ∧ p.val ≠ 0x2028 ∧ p.val ≠ 0x2029

/-- The pattern leaves a marker before the one of the report. -/
def Misled : Prop := marker <:+: line.before.flatMap Piece.kept

def document : List Char := encode floats (.obj line.report) ++ line.after

def head : List Char := (line.document floats).takeWhile fun c ↦ !isLineEnd c

def later : List (List Char) :=
  splitlines ((line.document floats ++ ['\n']).dropWhile fun c ↦ !isLineEnd c).tail

/-- By chance the text behind the first marker begins with the report too, and
the later lines have no marker. -/
def Echoed : Prop :=
  (∃ document rest,
    behind marker (line.before.flatMap Piece.kept ++ (marker ++ line.head floats)) = some document ∧
      rawDecode floats.parse (document.dropWhile isSpace) = .ok (.obj line.report, rest)) ∧
  ∀ later ∈ line.later floats, ¬ marker <:+: later

def Readable : Prop := (¬ line.Misled → line.Unbroken) ∧ (line.Misled → line.Echoed floats)

end ReportLine

section Lines

theorem splitlines_head {u : List Char} (hu : ∀ c ∈ u, c ≠ '\r') :
    splitlines (u ++ ['\n']) = (u.takeWhile fun c ↦ !isLineEnd c) ::
      splitlines ((u ++ ['\n']).dropWhile fun c ↦ !isLineEnd c).tail := by
  induction u with
  | nil => simp [splitlines, isLineEnd]
  | cons c u ih =>
    obtain ⟨hc, hu⟩ := List.forall_mem_cons.mp hu
    have hnot : ¬ (c = '\r' ∧ (u ++ ['\n']).head? = some '\n') := fun h ↦ hc h.1
    rw [List.cons_append, splitlines, if_neg hnot]
    cases hbreak : isLineEnd c with
    | true => simp [hbreak]
    | false =>
      rw [if_neg Bool.false_ne_true, ih hu]
      simp [hbreak, pushLine]

end Lines

section Strip

variable {before rest t u : List Char}

theorem ends_ansi_of_ne {c : Char} (hc : c ≠ escapeChar) :
    ends (fun _ ↦ false) ansiPattern ⟨before, c :: rest, []⟩ = [] := by
  simp [ansiPattern, hc]

variable (before t) in
theorem remove_plain (hu : ∀ c ∈ u, c ≠ escapeChar) :
    remove (fun _ ↦ false) ansiPattern 0 before (u ++ t) =
      u ++ remove (fun _ ↦ false) ansiPattern 0 (u.reverse ++ before) t := by
  induction u generalizing before with
  | nil => rfl
  | cons c u ih =>
    rw [List.cons_append, remove_step (ends_ansi_of_ne (hu c (by simp))),
      ih (c :: before) fun d hd ↦ hu d (by simp [hd])]
    simp

theorem ne_escape {c : Char} (hc : 0x20 ≤ c.toNat) : c ≠ escapeChar := by
  rintro rfl
  exact absurd hc (by decide)

theorem InCommand.ne_escape {c : Char} (hc : InCommand c) : c ≠ escapeChar := by
  rcases hc with rfl | rfl | hc
  · decide
  · decide
  · exact Tool.ne_escape hc.1

theorem not_isAlpha {c : Char} (hc : c.toNat < 0x40) : c.isAlpha = false := by
  have hval : c.val.toNat < 0x40 := hc
  have hA : 'A'.val.toNat = 65 := rfl
  have ha : 'a'.val.toNat = 97 := rfl
  have hrange : c.isAlpha = (decide (c.val ≥ 'A'.val ∧ c.val ≤ 'Z'.val) ||
      (c.val ≥ 'a'.val && c.val ≤ 'z'.val)) := rfl
  cases h : c.isAlpha with
  | false => rfl
  | true =>
    rw [hrange] at h
    simp only [Bool.or_eq_true, Bool.and_eq_true, decide_eq_true_eq, ge_iff_le,
      UInt32.le_iff_toNat_le] at h
    omega

theorem isParameter_lt {c : Char} (hc : isParameter c = true) : c.toNat < 0x40 := by
  simp only [isParameter, Bool.or_eq_true, beq_iff_eq] at hc
  rcases hc with hc | rfl
  · have hdigit : c.toNat ≤ 57 := by
      simp only [Char.isDigit, Bool.and_eq_true, decide_eq_true_eq] at hc
      exact UInt32.le_iff_toNat_le.mp hc.2
    omega
  · decide

theorem ends_parameters : ends (fun _ ↦ false) (seq (many true isParameter) (one Char.isAlpha))
      ⟨before, rest, []⟩ =
    ends (fun _ ↦ false) (one Char.isAlpha)
      ⟨(rest.takeWhile isParameter).reverse ++ before, rest.dropWhile isParameter, []⟩ := by
  refine ends_many fun e c rest he hc ↦ ?_
  exact ends_last_eq_nil (fun c hc ↦ not_isAlpha (isParameter_lt hc)) c he hc

theorem ends_ansi : ends (fun _ ↦ false) ansiPattern ⟨before, escapeChar :: '[' :: rest, []⟩ =
    ends (fun _ ↦ false) (one Char.isAlpha)
      ⟨(rest.takeWhile isParameter).reverse ++ '[' :: escapeChar :: before,
        rest.dropWhile isParameter, []⟩ := by
  rw [← ends_parameters]
  simp [ansiPattern]

variable (before t) in
/-- An escape sequence that does not begin like a control sequence stays. -/
theorem remove_escape {c : Char} (hc : c ≠ '[') (hu : ∀ d ∈ c :: u, d ≠ escapeChar) :
    remove (fun _ ↦ false) ansiPattern 0 before (escapeChar :: (c :: u ++ t)) =
      escapeChar :: (c :: u ++
        remove (fun _ ↦ false) ansiPattern 0 ((escapeChar :: c :: u).reverse ++ before) t) := by
  have hends : ends (fun _ ↦ false) ansiPattern ⟨before, escapeChar :: (c :: u ++ t), []⟩ = [] := by
    simp [ansiPattern, hc]
  rw [remove_step hends, remove_plain _ _ hu]
  simp

theorem remove_string (kind : Char) (body : List Char) (bell : Bool)
    (hkind : kind ∈ [']', 'P', 'X', '^', '_']) (hbody : ∀ c ∈ body, InCommand c) :
    remove (fun _ ↦ false) ansiPattern 0 before
      ((Piece.string kind body bell hkind hbody).text ++ t) =
      (Piece.string kind body bell hkind hbody).text ++ remove (fun _ ↦ false) ansiPattern 0
        ((Piece.string kind body bell hkind hbody).text.reverse ++ before) t := by
  have hbracket : kind ≠ '[' ∧ kind ≠ escapeChar := by
    simp only [List.mem_cons, List.not_mem_nil, or_false] at hkind
    rcases hkind with rfl | rfl | rfl | rfl | rfl <;> decide
  have hplain : ∀ c ∈ kind :: body, c ≠ escapeChar := by
    simp only [List.forall_mem_cons]
    exact ⟨hbracket.2, fun c hc ↦ (hbody c hc).ne_escape⟩
  cases bell with
  | true =>
    have hbell : ∀ c ∈ kind :: (body ++ ['\x07']), c ≠ escapeChar := by
      rw [← List.cons_append]
      simp only [List.mem_append, List.mem_singleton]
      rintro c (hc | rfl)
      · exact hplain c hc
      · decide
    have hremove := remove_escape before t hbracket.1 hbell
    simpa [Piece.text] using hremove
  | false =>
    have hfirst := remove_escape before (escapeChar :: '\\' :: t) hbracket.1 hplain
    have hlast := remove_escape ((escapeChar :: kind :: body).reverse ++ before) t (c := '\\')
      (u := []) (by decide) (by simp [escapeChar])
    simp only [List.cons_append, List.nil_append] at hlast
    rw [hlast] at hfirst
    simpa [Piece.text] using hfirst

theorem remove_piece (piece : Piece) :
    remove (fun _ ↦ false) ansiPattern 0 before (piece.text ++ t) =
      piece.kept ++ remove (fun _ ↦ false) ansiPattern 0 (piece.text.reverse ++ before) t := by
  cases piece with
  | char c h => exact remove_plain _ _ (by simpa [Piece.text] using ne_escape h.1)
  | string kind body bell hkind hbody => exact remove_string kind body bell hkind hbody
  | short body final hbody hfinal hprintable hc =>
    have hplain : ∀ c ∈ body ++ [final], c ≠ escapeChar := by
      intro c hc
      rcases List.mem_append.mp hc with hc | hc
      · exact ne_escape (hbody c hc).1
      · rw [List.mem_singleton.mp hc]
        exact ne_escape hprintable.1
    cases body with
    | nil =>
      have hremove := remove_escape before t (hc rfl) hplain
      simpa [Piece.text, Piece.kept] using hremove
    | cons d body =>
      have hbracket : d ≠ '[' := by
        rintro rfl
        exact absurd (hbody '[' (by simp)).2 (by decide)
      have hremove := remove_escape before t hbracket hplain
      simpa [Piece.text, Piece.kept] using hremove
  | control body final hbody hfinal hprintable =>
    have hparameter : isParameter final = false := by
      cases h : isParameter final with
      | false => rfl
      | true => exact absurd (isParameter_lt h) (by omega)
    have hkeep (hends : ends (fun _ ↦ false) ansiPattern
        ⟨before, escapeChar :: '[' :: (body ++ final :: t), []⟩ = []) :
        remove (fun _ ↦ false) ansiPattern 0 before
            (escapeChar :: '[' :: (body ++ final :: t)) =
          escapeChar :: '[' :: (body ++ [final]) ++ remove (fun _ ↦ false) ansiPattern 0
            ((escapeChar :: '[' :: (body ++ [final])).reverse ++ before) t := by
      have hplain := remove_plain (escapeChar :: before) t
        (u := '[' :: (body ++ [final])) fun c hc ↦ ne_escape (by
          rcases List.mem_cons.mp hc with rfl | hc
          · decide
          rcases List.mem_append.mp hc with hc | hc
          · exact (hbody c hc).1
          · rw [List.mem_singleton.mp hc]
            exact hprintable.1)
      rw [remove_step hends]
      have htext : '[' :: (body ++ final :: t) = '[' :: (body ++ [final]) ++ t := by simp
      rw [htext, hplain]
      simp
    have htext : (Piece.control body final hbody hfinal hprintable).text ++ t =
        escapeChar :: '[' :: (body ++ final :: t) := by simp [Piece.text]
    rw [htext, Piece.kept]
    split_ifs with h
    · obtain ⟨hall, hletter⟩ := (Bool.and_eq_true _ _).mp h
      have hbody' : ∀ c ∈ body, isParameter c = true := List.all_eq_true.mp hall
      have hends : (ends (fun _ ↦ false) ansiPattern
          ⟨before, escapeChar :: '[' :: (body ++ final :: t), []⟩).head? =
            some ⟨final :: (body.reverse ++ '[' :: escapeChar :: before), t, []⟩ := by
        rw [ends_ansi, List.takeWhile_append_of_pos hbody', List.dropWhile_append_of_pos hbody']
        simp [hparameter, hletter]
      rw [remove_match hends (by simp; omega)]
      simp [Piece.text]
    · refine hkeep ?_
      rw [ends_ansi]
      cases hdrop : body.dropWhile isParameter with
      | nil =>
        have hbody' : ∀ c ∈ body, isParameter c = true := List.dropWhile_eq_nil_iff.mp hdrop
        rw [List.dropWhile_append_of_pos hbody']
        have hletter : final.isAlpha = false := by simp_all
        simp [hparameter, hletter]
      | cons x v =>
        have hx : x ∈ body := (List.dropWhile_sublist isParameter).subset (by simp [hdrop])
        have hletter := not_isAlpha (hbody x hx).2
        rw [List.dropWhile_append, hdrop]
        simp [hletter]

variable (before t) in
theorem stripAnsi_pieces (pieces : List Piece) :
    remove (fun _ ↦ false) ansiPattern 0 before (pieces.flatMap Piece.text ++ t) =
      pieces.flatMap Piece.kept ++
        remove (fun _ ↦ false) ansiPattern 0 ((pieces.flatMap Piece.text).reverse ++ before) t := by
  induction pieces generalizing before with
  | nil => rfl
  | cons piece pieces ih =>
    rw [List.flatMap_cons, List.append_assoc, remove_piece, ih]
    simp

theorem stripAnsi_kept (pieces : List Piece) (hu : ∀ c ∈ u, c ≠ escapeChar) :
    stripAnsi (pieces.flatMap Piece.text ++ u) = pieces.flatMap Piece.kept ++ u := by
  have hplain := remove_plain ((pieces.flatMap Piece.text).reverse ++ []) [] hu
  rw [List.append_nil u] at hplain
  rw [stripAnsi, stripAnsi_pieces, hplain]
  simp [remove]

theorem stripAnsi_marked (pieces : List Piece) (hu : ∀ c ∈ u, c ≠ escapeChar) :
    stripAnsi (pieces.flatMap Piece.text ++ (marker ++ u)) =
      pieces.flatMap Piece.kept ++ (marker ++ u) := by
  refine stripAnsi_kept pieces fun c hc ↦ ?_
  rcases List.mem_append.mp hc with hc | hc
  · have hmarker : ∀ c ∈ marker, c ≠ escapeChar := by simp [marker, escapeChar]
    exact hmarker c hc
  · exact hu c hc

/-- A word that is nowhere is not found. -/
theorem behind_eq_none {word l : List Char} (hword : word ≠ []) : behind word l = none ↔
    ¬ word <:+: l := by
  induction l with
  | nil => simp [behind, hword]
  | cons c l ih =>
    rw [behind, List.infix_cons_iff]
    split_ifs with hprefix
    · simp [List.isPrefixOf_iff_prefix.mp hprefix]
    · rw [ih, not_or]
      exact ⟨fun h ↦ ⟨fun h ↦ hprefix (List.isPrefixOf_iff_prefix.mpr h), h⟩, And.right⟩

/-- No end of the marker is a beginning of it. -/
theorem marker_unbordered : ∀ n < 12, 0 < n → ¬ marker.drop n <+: marker := by decide

/-- The marker is found where it is the first. -/
theorem behind_marker {k : List Char} (hk : ¬ marker <:+: k) (rest : List Char) :
    behind marker (k ++ (marker ++ rest)) = some rest := by
  induction k with
  | nil => rfl
  | cons c k ih =>
    have hnot : ¬ marker <+: c :: k ++ (marker ++ rest) := by
      intro hprefix
      by_cases hlong : marker.length ≤ (c :: k).length
      · exact hk (List.prefix_of_prefix_length_le hprefix (List.prefix_append _ _) hlong).isInfix
      · have hbegin : c :: k <+: marker :=
          List.prefix_of_prefix_length_le (List.prefix_append _ _) hprefix (by omega)
        have hlength : marker.length = 12 := rfl
        refine marker_unbordered (c :: k).length (by omega) (by simp) ?_
        rw [List.prefix_append_drop hbegin, List.append_assoc,
          List.prefix_append_right_inj] at hprefix
        refine List.prefix_of_prefix_length_le hprefix ?_ (by simp)
        rw [← List.append_assoc, ← List.prefix_append_drop hbegin]
        exact List.prefix_append _ _
    have htail : ¬ marker <:+: k := fun h ↦ hk (h.trans (List.suffix_cons c k).isInfix)
    rw [List.cons_append] at hnot ⊢
    rw [behind, if_neg (by simpa using hnot), ih htail]

end Strip

section Parse

variable {F : Type} {floats : Floats F}

theorem parseLine_of_marker (number : ℕ) {line rest : List Char}
    (h : behind marker (stripAnsi line) = some ('\x7b' :: rest)) (parse : List Char → F) :
    parseLine parse number line =
      match rawDecode parse ('\x7b' :: rest) with
      | .ok (.obj payload, _) => some (.ok payload)
      | .ok _ => some (.error ⟨number, "report is not a JSON object"⟩)
      | .error error => some (.error ⟨number, describe ('\x7b' :: rest) error⟩) := by
  rw [parseLine, h]
  rfl

theorem encode_obj (fields : List (List CodePoint × Value F)) :
    encode floats (.obj fields) = '\x7b' :: encodeFields floats [] fields := by
  rw [encode]

variable (floats) in
theorem encode_ne_escape {v : Value F} (hv : Proper v) : ∀ c ∈ encode floats v, c ≠ escapeChar := by
  intro c hc
  rcases hv.written floats c hc with h | h
  · exact ne_escape h.1
  · exact ne_escape h.1

variable (floats) in
theorem ReportLine.document_ne_escape (line : ReportLine F) :
    ∀ c ∈ line.document floats, c ≠ escapeChar := by
  intro c hc
  rcases List.mem_append.mp hc with hc | hc
  · exact encode_ne_escape floats line.proper c hc
  · exact ne_escape (line.printable c hc).1

theorem ReportLine.reads {line : ReportLine F} (hclear : ¬ line.Misled) (number : ℕ) :
    parseLine floats.parse number (line.content floats) = some (.ok line.report) := by
  have hbehind : behind marker (stripAnsi (line.content floats)) =
      some ('\x7b' :: (encodeFields floats [] line.report ++ line.after)) := by
    have hstrip := stripAnsi_marked line.before (line.document_ne_escape floats)
    rw [ReportLine.document] at hstrip
    rw [ReportLine.content, hstrip, behind_marker hclear, encode_obj]
    rfl
  have hread : rawDecode floats.parse (encode floats (.obj line.report) ++ line.after) =
      .ok (.obj line.report, line.after) := by
    have hproper := line.proper
    cases hproper with
    | obj hdistinct hkeys hvalues =>
      refine scanOnce_fields hdistinct hkeys (fun f hf ↦ (hvalues f hf).reads) ?_ _
      rw [encode_obj]
      simp only [List.length_append, List.length_cons]
      omega
  rw [encode_obj, List.cons_append] at hread
  rw [parseLine_of_marker number hbehind, hread]

/-- A line that ends within the report gives an error. -/
theorem ReportLine.cut {line : ReportLine F} (hclear : ¬ line.Misled) (number : ℕ)
    {p q : List Char} {b : Char} (hb : 127 < b.toNat)
    (h : encode floats (.obj line.report) = p ++ b :: q) :
    ∃ error, parseLine floats.parse number (line.before.flatMap Piece.text ++ (marker ++ p)) =
      some (.error error) := by
  have hplain : ∀ c ∈ p, c ≠ escapeChar := fun c hc ↦
    encode_ne_escape floats line.proper c (by simp [h, hc])
  obtain ⟨p', rfl⟩ : ∃ p', p = '\x7b' :: p' := by
    have hbrace := h
    rw [encode_obj] at hbrace
    obtain ⟨p', hp, -⟩ := (ascii_singleton (by decide)).cut hb
      (show ['\x7b'] ++ encodeFields floats [] line.report = p ++ b :: q from hbrace)
    exact ⟨p', hp⟩
  have hbehind : behind marker (stripAnsi (line.before.flatMap Piece.text ++
      (marker ++ '\x7b' :: p'))) = some ('\x7b' :: p') := by
    rw [stripAnsi_marked _ hplain, behind_marker hclear]
  obtain ⟨e, he⟩ := line.proper.cuts ('\x7b' :: p').length (2 * ('\x7b' :: p').length + 2)
    ('\x7b' :: p') b q hb h (by omega)
  rw [parseLine_of_marker number hbehind, rawDecode, he]
  exact ⟨_, rfl⟩

theorem isLineEnd_of_ge {c : Char} (hc : 0x20 ≤ c.toNat) : isLineEnd c = true ↔
    c.toNat = 0x85 ∨ c.toNat = 0x2028 ∨ c.toNat = 0x2029 := by
  simp only [isLineEnd, Bool.or_eq_true, Bool.and_eq_true, decide_eq_true_eq, beq_iff_eq]
  omega

theorem printable_not_break {c : Char} (hc : Printable c) : isLineEnd c = false := by
  obtain ⟨hlarge, hsmall⟩ := hc
  cases hbreak : isLineEnd c with
  | false => rfl
  | true =>
    have hcases := (isLineEnd_of_ge hlarge).mp hbreak
    omega

theorem InCommand.not_break {c : Char} (hc : InCommand c) : isLineEnd c = false := by
  rcases hc with rfl | rfl | hc
  · rfl
  · rfl
  · exact printable_not_break hc

theorem Piece.not_break (piece : Piece) : ∀ c ∈ piece.text, isLineEnd c = false := by
  intro c hc
  cases piece with
  | char d h =>
    rw [List.mem_singleton.mp hc]
    exact printable_not_break h
  | short body final hbody hfinal hprintable =>
    rcases List.mem_cons.mp hc with rfl | hc
    · rfl
    rcases List.mem_append.mp hc with hc | hc
    · obtain ⟨hlow, hhigh⟩ := hbody c hc
      exact printable_not_break ⟨hlow, by omega⟩
    · rw [List.mem_singleton.mp hc]
      exact printable_not_break hprintable
  | string kind body bell hkind hbody =>
    rcases List.mem_cons.mp hc with rfl | hc
    · rfl
    rcases List.mem_cons.mp hc with rfl | hc
    · simp only [List.mem_cons, List.not_mem_nil, or_false] at hkind
      rcases hkind with rfl | rfl | rfl | rfl | rfl <;> rfl
    rcases List.mem_append.mp hc with hc | hc
    · exact (hbody c hc).not_break
    · cases bell with
      | true =>
        rw [List.mem_singleton.mp hc]
        rfl
      | false => rcases List.mem_pair.mp hc with rfl | rfl <;> rfl
  | control body final hbody hfinal hprintable =>
    rcases List.mem_cons.mp hc with rfl | hc
    · rfl
    rcases List.mem_cons.mp hc with rfl | hc
    · rfl
    rcases List.mem_append.mp hc with hc | hc
    · obtain ⟨hlow, hhigh⟩ := hbody c hc
      exact printable_not_break ⟨hlow, by omega⟩
    · rw [List.mem_singleton.mp hc]
      exact printable_not_break hprintable

theorem before_not_break (line : ReportLine F) :
    ∀ c ∈ line.before.flatMap Piece.text ++ marker, isLineEnd c = false := by
  intro c hc
  rcases List.mem_append.mp hc with hc | hc
  · obtain ⟨piece, -, hc⟩ := List.mem_flatMap.mp hc
    exact piece.not_break c hc
  · have hmarker : ∀ c ∈ marker, isLineEnd c = false := by
      simp [marker, isLineEnd]
    exact hmarker c hc

/-- The characters that end a line and that the encoder leaves as they are. -/
theorem escape_break {p : CodePoint} (hp : p.val = 0x85 ∨ p.val = 0x2028 ∨ p.val = 0x2029) :
    ∃ c ∈ escape p, isLineEnd c = true := by
  have hletters : letters.lookup p.val = none := by
    rcases hp with hp | hp | hp <;> rw [hp] <;> rfl
  have hplain : ¬ (p.val < 0x20 ∨ isHigh p = true ∨ isLow p = true) := by
    simp only [isHigh, isLow, Bool.and_eq_true, decide_eq_true_eq]
    omega
  refine ⟨Char.ofNat p.val, ?_, ?_⟩
  · simp only [escape, hletters]
    rw [if_neg (by simpa [or_assoc] using hplain)]
    exact List.mem_singleton_self _
  · rcases hp with hp | hp | hp <;> rw [hp] <;> rfl

variable (floats) in
theorem ReportLine.unbroken_iff (line : ReportLine F) :
    line.Unbroken ↔ ∀ c ∈ encode floats (.obj line.report), isLineEnd c = false := by
  constructor
  · intro hunbroken c hc
    cases hbreak : isLineEnd c with
    | false => rfl
    | true =>
      rcases line.proper.written floats c hc with ⟨hge, hlt⟩ | ⟨hge, hpoint⟩
      · have hcases := (isLineEnd_of_ge hge).mp hbreak
        omega
      · have hcases := (isLineEnd_of_ge hge).mp hbreak
        have hval := hunbroken _ hpoint
        rw [ofChar_val] at hval
        omega
  · intro hnone p hp
    have hescapes := line.proper.escapes floats hp
    by_contra hbroken
    obtain ⟨c, hc, hbreak⟩ := escape_break (p := p) (by omega)
    rw [hnone c (hescapes hc)] at hbreak
    cases hbreak

theorem ReportLine.not_break {line : ReportLine F} (hunbroken : line.Unbroken) :
    ∀ c ∈ line.content floats, isLineEnd c = false := by
  intro c hc
  rw [ReportLine.content, ← List.append_assoc] at hc
  rcases List.mem_append.mp hc with hc | hc
  · exact before_not_break line c hc
  rcases List.mem_append.mp hc with hc | hc
  · exact (line.unbroken_iff floats).mp hunbroken c hc
  · exact printable_not_break (line.printable c hc)

theorem parseLine_eq_none {number : ℕ} {line : List Char} {parse : List Char → F} :
    parseLine parse number line = none ↔ ¬ marker <:+: stripAnsi line := by
  rw [← behind_eq_none (by decide)]
  unfold parseLine
  cases behind marker (stripAnsi line) with
  | none => simp
  | some rest =>
    dsimp only
    cases rawDecode parse (rest.dropWhile isSpace) with
    | error e => simp
    | ok result =>
      obtain ⟨v, tail⟩ := result
      cases v <;> simp

variable (floats)

namespace ReportLine

variable (line : ReportLine F)

theorem splitlines_text : splitlines (line.text floats) =
    (line.before.flatMap Piece.text ++ (marker ++ line.head floats)) :: line.later floats := by
  have hclean : ∀ c ∈ line.before.flatMap Piece.text ++ marker, (!isLineEnd c) = true := by
    simpa using before_not_break line
  have hcontent : line.content floats =
      (line.before.flatMap Piece.text ++ marker) ++ line.document floats := by
    rw [content, document, List.append_assoc]
  have hreturn : ∀ c ∈ line.content floats, c ≠ '\r' := by
    rintro c hc rfl
    rw [hcontent] at hc
    rcases List.mem_append.mp hc with hc | hc
    · cases before_not_break line _ hc
    rcases List.mem_append.mp hc with hc | hc
    · rcases line.proper.written floats _ hc with h | h
      · exact absurd h.1 (by decide)
      · exact absurd h.1 (by decide)
    · exact absurd (line.printable _ hc).1 (by decide)
  rw [text, splitlines_head hreturn, hcontent, List.takeWhile_append_of_pos hclean,
    List.append_assoc _ (line.document floats), List.dropWhile_append_of_pos hclean,
      List.append_assoc]
  rfl

theorem stripAnsi_head :
    stripAnsi (line.before.flatMap Piece.text ++ (marker ++ line.head floats)) =
      line.before.flatMap Piece.kept ++ (marker ++ line.head floats) :=
  stripAnsi_marked _ fun c hc ↦
    line.document_ne_escape floats c ((List.takeWhile_sublist _).subset hc)

theorem parseLine_head (number : ℕ) : parseLine floats.parse number
    (line.before.flatMap Piece.text ++ (marker ++ line.head floats)) ≠ none := by
  rw [Ne, parseLine_eq_none, not_not, stripAnsi_head]
  exact ⟨_, _, List.append_assoc ..⟩

theorem counted (number : ℕ)
    (h : (parseLines floats.parse number (splitlines (line.text floats))).2 = []) :
    1 ≤ (parseLines floats.parse number (splitlines (line.text floats))).1.length := by
  rw [splitlines_text, parseLines] at h ⊢
  cases hfirst : parseLine floats.parse number
      (line.before.flatMap Piece.text ++ (marker ++ line.head floats)) with
  | none => exact absurd hfirst (line.parseLine_head floats number)
  | some result =>
    rw [hfirst] at h
    cases result with
    | error e => cases h
    | ok report => simp

end ReportLine

end Parse

namespace Scenario

def tenthsLexeme (n : ℤ) : Lexeme := ⟨n < 0, n.natAbs / 10, [Fin.ofNat 10 n.natAbs], none⟩

theorem filter_tenths (n : ℤ) : (tenthsLexeme n).text.filter Char.isDigit =
    Nat.toDigits 10 (n.natAbs / 10) ++ [Nat.digitChar (n.natAbs % 10)] := by
  have hsign : (sign (n < 0)).filter Char.isDigit = [] := by
    cases decide (n < 0) <;> rfl
  have hwhole : (Nat.toDigits 10 (n.natAbs / 10)).filter Char.isDigit =
      Nat.toDigits 10 (n.natAbs / 10) :=
    List.filter_eq_self.mpr fun c hc ↦ Nat.isDigit_of_mem_toDigits (by decide) (by decide) hc
  have hlast : (['.', digit (Fin.ofNat 10 n.natAbs)]).filter Char.isDigit =
      [Nat.digitChar (n.natAbs % 10)] := by
    have hdigit := isDigit_digit (Fin.ofNat 10 n.natAbs)
    rw [List.filter_cons_of_neg (by decide), List.filter_cons_of_pos hdigit]
    rfl
  have htext : (tenthsLexeme n).text = sign (n < 0) ++
      (Nat.toDigits 10 (n.natAbs / 10) ++ ['.', digit (Fin.ofNat 10 n.natAbs)]) := by
    simp [tenthsLexeme, Lexeme.text, Lexeme.fractionText, Lexeme.exponentText]
  rw [htext, List.filter_append, List.filter_append, hsign, hwhole, hlast, List.nil_append]

theorem head_tenths (n : ℤ) : (tenthsLexeme n).text.head? = some '-' ↔ n < 0 := by
  obtain ⟨c, u, hc, htext⟩ := text_cases (tenthsLexeme n)
  have hminus := ne_of_isDigit hc (d := '-') rfl
  rw [htext]
  by_cases hn : n < 0 <;> simp [tenthsLexeme, sign, hn, hminus]

def tenths : Floats ℤ where
  print := tenthsLexeme
  parse text :=
    let n : ℤ := Nat.ofDigitChars 10 (text.filter Char.isDigit) 0
    if text.head? = some '-' then -n else n
  isFloat_print _ := rfl
  parse_print n := by
    have hvalue : Nat.ofDigitChars 10 ((tenthsLexeme n).text.filter Char.isDigit) 0 = n.natAbs := by
      rw [filter_tenths, Nat.ofDigitChars_append, Nat.ofDigitChars_ten_toDigits,
        Nat.ofDigitChars_cons_digitChar_of_lt_ten (by omega), Nat.ofDigitChars_nil]
      omega
    rw [hvalue]
    simp only [head_tenths]
    split_ifs <;> omega

/-- A cursor sequence before a text that only begins like a marker once its letter is there. -/
def misled : ReportLine ℤ where
  before := .control ['?', '2', '5'] 'L' (by simp) (by decide) (by simp [Printable]) ::
    ['R', 'L', 'M', '_', 'R', 'E', 'P', 'O', 'R', 'T', ' ', 'x', ' '].pmap Piece.char
      (by simp [Printable])
  report := []
  after := []
  unmarked := by decide
  proper := .obj (by simp) (by simp) (by simp)
  printable := by simp

example : (parseReports tenths.parse (misled.text tenths)).1.length = 0 ∧
    (parseReports tenths.parse (misled.text tenths)).2 =
      [⟨1, "Expecting value: line 1 column 1 (char 0)"⟩] := by
  decide +kernel

end Scenario

end LibLitertLm.Tool
