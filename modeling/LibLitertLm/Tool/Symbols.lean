import LibLitertLm.Library.Regex

namespace LibLitertLm.Tool

open Regex

instance lawfulBEq_chars : LawfulBEq (List Char) := inferInstance

def isSpace (c : Char) : Bool :=
  let n := c.toNat
  (9 ≤ n && n ≤ 13) || (28 ≤ n && n ≤ 32) || n == 0x85 || n == 0xa0 || n == 0x1680 ||
    (0x2000 ≤ n && n ≤ 0x200a) || n == 0x2028 || n == 0x2029 || n == 0x202f || n == 0x205f ||
    n == 0x3000

/-- `\w` in a text pattern. Beyond ASCII it follows the Unicode tables, of which
only this much matters. -/
structure WordClass where
  word : Char → Bool
  ascii : ∀ c, c.toNat < 128 → word c = (c.isAlphanum || c == '_')
  space : ∀ c, isSpace c = true → word c = false

def isQuote (c : Char) : Bool := c == '\'' || c == '"'

def isFirst (c : Char) : Bool := c.isAlpha || c == '_'

def lookupName : List Char := ['_', 'l', 'o', 'o', 'k', 'u', 'p']

def litertName : List Char := ['l', 'i', 't', 'e', 'r', 't', '_', 'l', 'm', '_']

def bridgeName : List Char := ['l', 'r', 'l', 'm', '_']

def spaces (r : Regex) : Regex := seq (many true isSpace) r

/-- `\b_lookup\s*<.*?>\s*\(\s*['"]([A-Za-z_]\w*)['"]\s*\)`, where `.` matches newlines. -/
def lookupHead (r : Regex) : Regex :=
  seq boundary (lit lookupName (spaces (seq (one (· == '<')) r)))

def lookupTail (w : WordClass) : Regex :=
  seq (one (· == '>')) (spaces (seq (one (· == '(')) (spaces (seq (one isQuote)
    (seq (group (seq (one isFirst) (many true w.word)))
      (seq (one isQuote) (spaces (one (· == ')')))))))))

def lookupPattern (w : WordClass) : Regex :=
  lookupHead (lazily (lookupTail w))

/-- `/\*.*?\*/|//[^\n]*`, where `.` matches newlines. -/
def commentPattern : Regex :=
  alt (seq (one (· == '/')) (seq (one (· == '*')) (lazily
      (seq (one (· == '*')) (one (· == '/'))))))
    (seq (one (· == '/')) (seq (one (· == '/')) (many true (· != '\n'))))

def callPattern (w : WordClass) : Regex :=
  seq boundary (seq (group (alt (lit litertName (seq (one w.word) (many true w.word)))
      (lit bridgeName (seq (one w.word) (many true w.word)))))
    (spaces (one (· == '('))))

inductive VerificationError
  | noSymbols
  | symbolReaderFailed
  | missingSymbols (symbols : List (List Char))

def requiredSymbols (w : WordClass) (bindings bridgeSources : List (List Char)) :
    Except VerificationError (List (List Char)) :=
  let symbols := bindings.flatMap fun source ↦ findall w.word (lookupPattern w) 0 [] source
  if symbols.isEmpty then .error .noSymbols
  else .ok (symbols ++ bridgeSources.flatMap fun source ↦
    findall w.word (callPattern w) 0 [] (remove w.word commentPattern 0 [] source))

/-- `str.splitlines` ends a line at each of these. -/
def isLineEnd (c : Char) : Bool :=
  let n := c.toNat
  (10 ≤ n && n ≤ 13) || (28 ≤ n && n ≤ 30) || n == 0x85 || n == 0x2028 || n == 0x2029

def exportedSymbols (stdout : List Char) : List (List Char) :=
  (stdout.splitOnP isLineEnd).filterMap fun line ↦
    ((line.splitOnP isSpace).filter (· ≠ [])).getLast?.map fun token ↦ token.takeWhile (· ≠ '@')

def verifySymbols (nm : Option (List Char)) (required : List (List Char)) :
    Except VerificationError Unit :=
  match nm with
  | none => .error .symbolReaderFailed
  | some stdout =>
    match required.filter fun symbol ↦ symbol ∉ exportedSymbols stdout with
    | [] => .ok ()
    | missing => .error (.missingSymbols missing)

end LibLitertLm.Tool
