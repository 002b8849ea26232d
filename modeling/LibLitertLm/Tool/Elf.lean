import LibLitertLm.Tool.Symbols
import Mathlib.Algebra.Ring.Nat
import Mathlib.Data.List.DropRight

namespace LibLitertLm.Tool

/-- An exception of the tool; `main` does not catch the ones of the last kind. -/
inductive Failure
  | verification (message : String)
  | symbols (error : VerificationError)
  | os
  | value
  | struct
  | badZip
  | process
  | other

section Checks

variable {α β : Type} {p : Prop} [Decidable p] {message : String}

def refuse (p : Prop) [Decidable p] (message : String) : Except Failure Unit :=
  if p then .error (.verification message) else .ok ()

theorem refuse_ok {u : Unit} : refuse p message = .ok u ↔ ¬ p := by
  unfold refuse
  split_ifs with h <;> simp [h]

theorem bind_ok {x : Except Failure α} {f : α → Except Failure β} {b : β} :
    (x >>= f) = .ok b ↔ ∃ a, x = .ok a ∧ f a = .ok b := by
  cases x with
  | error e => simp [bind, Except.bind]
  | ok a => simp [bind, Except.bind]

end Checks

abbrev Bytes := List UInt8

def pageSize : ℕ := 16384

def littleEndian : Bytes → ℕ
  | [] => 0
  | b :: bs => b.toNat + 256 * littleEndian bs

def splitFields : List ℕ → Bytes → List ℕ
  | [], _ => []
  | n :: ns, data => littleEndian (data.take n) :: splitFields ns (data.drop n)

/-- `struct.unpack_from` for unsigned numbers without padding between them. -/
def unpackFrom (sizes : List ℕ) (data : Bytes) (offset : ℕ) : Except Failure (List ℕ) :=
  if 2 ^ 63 ≤ offset then .error .other
  else if data.length < offset + sizes.sum then .error .struct
  else .ok (splitFields sizes (data.drop offset))

structure ElfHeader where
  kind : ℕ
  machine : ℕ
  version : ℕ
  phoff : ℕ
  ehsize : ℕ
  phentsize : ℕ
  phnum : ℕ

def readHeader (data : Bytes) : Except Failure ElfHeader := do
  match ← unpackFrom [2, 2, 4, 8, 8, 8, 4, 2, 2, 2, 2, 2, 2] data 16 with
  | [kind, machine, version, _, phoff, _, _, ehsize, phentsize, phnum, _, _, _] =>
    .ok ⟨kind, machine, version, phoff, ehsize, phentsize, phnum⟩
  | _ => .error .value

structure Segment where
  kind : ℕ
  offset : ℕ
  address : ℕ
  fileSize : ℕ
  memorySize : ℕ
  alignment : ℕ

def readSegment (data : Bytes) (header : ElfHeader) (index : ℕ) : Except Failure Segment := do
  match ← unpackFrom [4, 4, 8, 8, 8, 8, 8, 8] data (header.phoff + index * header.phentsize) with
  | [kind, _, offset, address, _, fileSize, memorySize, alignment] =>
    .ok ⟨kind, offset, address, fileSize, memorySize, alignment⟩
  | _ => .error .value

def modulo (a b : ℕ) : Except Failure ℕ := if b = 0 then .error .other else .ok (a % b)

def hexadecimal (n : ℕ) : String := "0x" ++ String.ofList (Nat.toDigits 16 n)

def verifySegment (data : Bytes) (label : String) (header : ElfHeader) (loads index : ℕ) :
    Except Failure ℕ := do
  let segment ← readSegment data header index
  if segment.kind ≠ 1 then .ok loads
  else do
    let name := label ++ ": PT_LOAD " ++ toString index
    refuse (segment.alignment < pageSize ∨ segment.alignment &&& (segment.alignment - 1) ≠ 0)
      (name ++ " alignment " ++ hexadecimal segment.alignment ++
        " must be a power of two >= 16 KiB")
    let offset ← modulo segment.offset segment.alignment
    let address ← modulo segment.address segment.alignment
    refuse (offset ≠ address) (name ++ " offset/address are not congruent")
    refuse (segment.memorySize < segment.fileSize ∨
        data.length < segment.offset + segment.fileSize)
      (name ++ " has invalid/truncated file bounds")
    .ok (loads + 1)

def magic : Bytes := [0x7f, 0x45, 0x4c, 0x46, 2, 1, 1]

def verifyElf (data : Bytes) (label : String) : Except Failure ℕ := do
  refuse (data.length < 64 ∨ data.take 7 ≠ magic)
    (label ++ ": expected a little-endian ELF64 file")
  let header ← readHeader data
  refuse (header.kind ≠ 3 ∨ header.machine ≠ 183 ∨ header.version ≠ 1)
    (label ++ ": expected an AArch64 ELF shared object")
  refuse (header.ehsize ≠ 64 ∨ header.phentsize ≠ 56 ∨ header.phnum = 0xffff)
    (label ++ ": invalid or unsupported ELF program header table")
  refuse (header.phoff < 64 ∨ data.length < header.phoff + header.phentsize * header.phnum)
    (label ++ ": truncated ELF program header table")
  let loads ← (List.range header.phnum).foldlM (verifySegment data label header) 0
  refuse (loads = 0) (label ++ ": no PT_LOAD segments")
  .ok loads

inductive Identity
  | buildId (id : List Char)
  | sha256 (digest : List Char)
deriving DecidableEq

def align (n : ℕ) : ℕ := (n + 3) / 4 * 4

def slice (data : Bytes) (offset size : ℕ) : Bytes := (data.drop offset).take size

def hexDigits (data : Bytes) : List Char :=
  data.flatMap fun b ↦ [Nat.digitChar (b.toNat / 16), Nat.digitChar (b.toNat % 16)]

def gnuName : Bytes := [0x47, 0x4e, 0x55]

/-- The loop over the notes of a segment. Every note takes twelve bytes, so the
fuel never runs out. -/
def findBuildId (data : Bytes) (stop : ℕ) : ℕ → ℕ → Except Failure (Option Identity)
  | 0, _ => .error .other
  | fuel + 1, offset =>
    if offset + 12 ≤ stop then do
      match ← unpackFrom [4, 4, 4] data offset with
      | [nameSize, valueSize, kind] =>
        let valueOffset := offset + 12 + align nameSize
        let nextOffset := valueOffset + align valueSize
        refuse (stop < nextOffset) "truncated ELF note"
        let name := (slice data (offset + 12) nameSize).rdropWhile (· == 0)
        if name = gnuName ∧ kind = 3 ∧ valueSize ≠ 0 then
          .ok (some (.buildId (hexDigits (slice data valueOffset valueSize))))
        else findBuildId data stop fuel nextOffset
      | _ => .error .value
    else .ok none

def findNotes (data : Bytes) (header : ElfHeader) : List ℕ → Except Failure (Option Identity)
  | [] => .ok none
  | index :: indices => do
    let segment ← readSegment data header index
    if segment.kind ≠ 4 then findNotes data header indices
    else do
      let stop := segment.offset + segment.fileSize
      refuse (data.length < stop) "truncated ELF note segment"
      match ← findBuildId data stop (data.length + 1) segment.offset with
      | some identity => .ok (some identity)
      | none => findNotes data header indices

def binaryIdentity (sha256 : Bytes → List Char) (data : Bytes) : Except Failure Identity := do
  let header ← readHeader data
  match ← findNotes data header (List.range header.phnum) with
  | some identity => .ok identity
  | none => .ok (.sha256 (sha256 data))

namespace Scenario

def byte (n : ℕ) : UInt8 := UInt8.ofNat n

def field (size n : ℕ) : Bytes := (List.range size).map fun i ↦ byte (n / 256 ^ i)

def image : Bytes :=
  magic ++ field 9 0 ++ field 2 3 ++ field 2 183 ++ field 4 1 ++ field 8 0 ++ field 8 64 ++
    field 12 0 ++ field 2 64 ++ field 2 56 ++ field 2 1 ++ field 6 0 ++
    field 4 1 ++ field 28 0 ++ field 8 120 ++ field 8 120 ++ field 8 pageSize

end Scenario

end LibLitertLm.Tool
