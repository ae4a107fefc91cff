import Mathlib.Data.Fin.VecNotation
import Mathlib.Logic.Function.Iterate
import Roman.Lib.LittleEndian

/-! # Salsa20

The stream cipher as its specification defines it: a quarter-round on four words, rounds
on the columns and on the rows of a square of 16 words, and a key stream that is a
function of the position. XSalsa20 derives the key from the first half of a long nonce.
-/

namespace Salsa20

open CMem LittleEndian

/-- A square of words. -/
abbrev Square := Fin 4 → Fin 4 → UInt32

def rotl (c : Nat) (x : UInt32) : UInt32 := ⟨x.toBitVec.rotateLeft c⟩

def quarterround (y : Fin 4 → UInt32) : Fin 4 → UInt32 :=
  let z1 := y 1 ^^^ rotl 7 (y 0 + y 3)
  let z2 := y 2 ^^^ rotl 9 (z1 + y 0)
  let z3 := y 3 ^^^ rotl 13 (z2 + z1)
  let z0 := y 0 ^^^ rotl 18 (z3 + z2)
  ![z0, z1, z2, z3]

/-- Each column, from the diagonal down. -/
def columnround (y : Square) : Square := fun r c => quarterround (fun m => y (c + m) c) (r - c)

/-- Each row, from the diagonal to the right. -/
def rowround (y : Square) : Square := fun r c => quarterround (fun m => y r (r + m)) (c - r)

def doubleround (y : Square) : Square := rowround (columnround y)

/-- The word of a square at a place of its array. -/
def flat (y : Square) (l : Nat) : UInt32 := y (Fin.ofNat 4 (l / 4)) (Fin.ofNat 4 l)

def transposed (y : Square) : Square := fun r c => y c r

/-- Two rounds on columns, with a transposition after each, are a double round. -/
theorem iterate_columnround (n : Nat) (y : Square) :
    (fun y => transposed (columnround y))^[2 * n] y = doubleround^[n] y := by
  rw [Function.iterate_mul]
  rfl

/-- A word of a byte string. -/
def word (b : Bytes) (i : Nat) : UInt32 := UInt32.ofNat (fromBytes ((b.drop (4 * i)).take 4))

def wordBytes (x : UInt32) : Bytes := toBytes 4 x.toNat

/-- `"expand 32-byte k"` -/
def constant : Bytes :=
  [0x65, 0x78, 0x70, 0x61, 0x6e, 0x64, 0x20, 0x33, 0x32, 0x2d, 0x62, 0x79, 0x74, 0x65, 0x20, 0x6b]

/-- The square of a key and an input of 16 bytes. -/
def expand (k n : Bytes) : Square :=
  ![![word constant 0, word k 0, word k 1, word k 2], ![word k 3, word constant 1, word n 0, word n 1],
    ![word n 2, word n 3, word constant 2, word k 4], ![word k 5, word k 6, word k 7, word constant 3]]

/-- The expansion function: 64 bytes. -/
def salsa20 (k n : Bytes) : Bytes :=
  (List.finRange 4).flatMap fun r => (List.finRange 4).flatMap fun c =>
    wordBytes (doubleround^[10] (expand k n) r c + expand k n r c)

/-- The words that become a key. -/
def hsalsa20 (k n : Bytes) : Bytes :=
  let z := doubleround^[10] (expand k n)
  [z 0 0, z 1 1, z 2 2, z 3 3, z 1 2, z 1 3, z 2 0, z 2 1].flatMap wordBytes

/-- The key stream: 64 bytes for each value of a counter. -/
def keystream (k n : Bytes) (i : Nat) : UInt8 := (salsa20 k (n ++ toBytes 8 (i / 64))).getD (i % 64) 0

def xsalsa20 (k n : Bytes) (i : Nat) : UInt8 := keystream (hsalsa20 k (n.take 16)) (n.drop 16) i

end Salsa20
