import Mathlib.Data.ZMod.Basic
import Roman.Lib.LittleEndian

/-! # Poly1305

The authenticator as its specification defines it: the chunks of the message are the
coefficients of a polynomial, which is evaluated at one half of the key modulo a prime;
the other half is added to what comes out.
-/

namespace Poly1305

open CMem LittleEndian

def P : Nat := 2 ^ 130 - 5

/-- A chunk of at most 16 bytes with a one behind it. -/
def chunk (b : Bytes) : Nat := fromBytes (b ++ [1])

def chunks (m : Bytes) : List Nat :=
  if m = [] then [] else chunk (m.take 16) :: chunks (m.drop 16)
termination_by m.length
decreasing_by
  rename_i nonempty
  have := List.length_pos_iff.mpr nonempty
  rw [List.length_drop]
  omega

/-- The point at which the polynomial is evaluated. -/
def clamp (k : Bytes) : Nat := fromBytes (k.take 16) &&& 0x0ffffffc0ffffffc0ffffffc0fffffff

/-- The first chunk has the highest power and the last one the first. -/
def polynomial (m : Bytes) (r : Nat) : Nat := Nat.ofDigits r (0 :: (chunks m).reverse)

def poly1305 (m k : Bytes) : Bytes :=
  toBytes 16 (polynomial m (clamp k) % P + fromBytes ((k.drop 16).take 16))

@[simp] theorem poly1305_length (m k : Bytes) : (poly1305 m k).length = 16 := toBytes_length 16 _

/-- Horner's rule: one more chunk. -/
theorem horner (r : Nat) (cs : List Nat) (c : Nat) :
    Nat.ofDigits r (0 :: (cs ++ [c]).reverse) = (Nat.ofDigits r (0 :: cs.reverse) + c) * r := by
  rw [List.reverse_append, List.reverse_singleton, List.singleton_append]
  simp only [Nat.ofDigits_cons]
  ring

end Poly1305
