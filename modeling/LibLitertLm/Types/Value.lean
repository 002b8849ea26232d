import Mathlib.Algebra.Ring.Int.Defs
import Mathlib.Algebra.Ring.Nat
import Mathlib.Data.Nat.Basic
import Mathlib.Data.Rat.Defs

namespace LibLitertLm

inductive Json
  | null
  | bool (b : Bool)
  | num (literal : String)
  | str (s : String)
  | arr (items : List Json)
  | obj (fields : List (String × Json))

abbrev Message := List (String × Json)

def Json.isObject : Json → Bool
  | .obj _ => true
  | _ => false

/-- `m as Map`, for an element of the native history. -/
def Json.asMap : Json → Option Message
  | .obj fields => some fields
  | _ => none

/-- A `double`: the code asks no more of it than finiteness and its sign. -/
inductive Double
  | finite (value : ℚ)
  | infinite (negative : Bool)
  | nan
deriving DecidableEq

def Double.isFinite : Double → Bool
  | .finite _ => true
  | _ => false

def Double.isNegative : Double → Bool
  | .finite value => value < 0
  | .infinite negative => negative
  | .nan => false

/-- Dart's `int`: 64 bits in two's complement. -/
def toInt64 (n : ℤ) : ℤ := n.bmod (2 ^ 64)

theorem toInt64_of_lt {n : ℤ} (h : -2 ^ 63 ≤ n) (h' : n < 2 ^ 63) : toInt64 n = n := by
  rw [toInt64]
  exact Int.bmod_eq_of_le (by omega) (by omega)

theorem toInt64_of_ge {n : ℤ} (h : 2 ^ 63 ≤ n) (h' : n < 2 ^ 64) : toInt64 n = n - 2 ^ 64 := by
  rw [toInt64, ← Int.sub_bmod_right]
  exact Int.bmod_eq_of_le (by omega) (by omega)

def IsInt32 (n : ℤ) : Prop := -2 ^ 31 ≤ n ∧ n < 2 ^ 31

instance : DecidablePred IsInt32 := fun _ ↦ inferInstanceAs (Decidable (_ ∧ _))

def continuation (b : UInt8) : Option ℕ :=
  if 0x80 ≤ b.toNat && b.toNat < 0xC0 then some (b.toNat - 0x80) else none

def codePoint (n min : ℕ) : Option Char :=
  if min ≤ n && n.isValidChar then some (Char.ofNat n) else none

def utf8Chars : List UInt8 → Option (List Char)
  | [] => some []
  | b₀ :: bs =>
    if b₀.toNat < 0x80 then do
      let rest ← utf8Chars bs
      some (Char.ofNat b₀.toNat :: rest)
    else match bs with
    | [] => none
    | b₁ :: bs =>
      if 0xC0 ≤ b₀.toNat && b₀.toNat < 0xE0 then do
        let n₁ ← continuation b₁
        let c ← codePoint ((b₀.toNat - 0xC0) * 64 + n₁) 0x80
        let rest ← utf8Chars bs
        some (c :: rest)
      else match bs with
      | [] => none
      | b₂ :: bs =>
        if 0xE0 ≤ b₀.toNat && b₀.toNat < 0xF0 then do
          let n₁ ← continuation b₁
          let n₂ ← continuation b₂
          let c ← codePoint (((b₀.toNat - 0xE0) * 64 + n₁) * 64 + n₂) 0x800
          let rest ← utf8Chars bs
          some (c :: rest)
        else match bs with
        | [] => none
        | b₃ :: bs =>
          if 0xF0 ≤ b₀.toNat && b₀.toNat < 0xF8 then do
            let n₁ ← continuation b₁
            let n₂ ← continuation b₂
            let n₃ ← continuation b₃
            let c ← codePoint ((((b₀.toNat - 0xF0) * 64 + n₁) * 64 + n₂) * 64 + n₃) 0x10000
            let rest ← utf8Chars bs
            some (c :: rest)
          else none

/-- `utf8.decode`, which throws on malformed input and drops a leading byte
order mark. -/
def utf8Decode (bytes : List UInt8) : Option String :=
  (utf8Chars bytes).map fun
    | [] => ""
    | c :: rest => if c.toNat = 0xFEFF then String.ofList rest else String.ofList (c :: rest)

end LibLitertLm
