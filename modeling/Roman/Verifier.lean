import Roman.Lib.LittleEndian
import Roman.Lib.PrimeField

/-! # tools/verify_signature.py: Ed25519

Translation of the verifier that judges the board's signatures. Its integers are
unbounded; `%` of Python is the remainder that is never negative, as the modulus is
positive. The hash function of the standard library is a parameter.
-/

namespace Roman.Verifier

open CMem LittleEndian PrimeField

def P : Nat := 2 ^ 255 - 19

def L : Nat := 2 ^ 252 + 27742317777372353535851937790883648493

/-- Python's `pow` with a modulus. -/
def pow (b : Int) (e m : Nat) : Int := powMod m (b % m).toNat e

def D : Int := -121665 * pow 121666 (P - 2) P % P

def SQRT_M1 : Int := pow 2 ((P - 1) / 4) P

/-- `_recover_x` -/
def recoverX (y : Int) : Int :=
  let xx := (y * y - 1) * pow (D * y * y + 1) (P - 2) P
  let x := pow xx ((P + 3) / 8) P
  let x := if (x * x - xx) % P ≠ 0 then x * SQRT_M1 % P else x
  if x % 2 ≠ 0 then P - x else x

/-- A point in extended coordinates: `x z`, `y z`, `z` and `x y z`. -/
structure Point where
  x : Int
  y : Int
  z : Int
  t : Int
  deriving DecidableEq

def BY : Int := 4 * pow 5 (P - 2) P % P

def B : Point := ⟨recoverX BY, BY, 1, recoverX BY * BY % P⟩

/-- `_add` -/
def add (p q : Point) : Point :=
  let a := (p.y - p.x) * (q.y - q.x) % P
  let b := (p.y + p.x) * (q.y + q.x) % P
  let c := 2 * p.t * q.t * D % P
  let d := 2 * p.z * q.z % P
  let e := b - a
  let f := d - c
  let g := d + c
  let h := b + a
  ⟨e * f % P, g * h % P, f * g % P, e * h % P⟩

/-- `_mul` -/
def mul (point : Point) (scalar : Nat) : Point :=
  if scalar = 0 then ⟨0, 1, 1, 0⟩
  else
    let half := mul point (scalar >>> 1)
    let doubled := add half half
    if scalar &&& 1 = 1 then add doubled point else doubled
termination_by scalar
decreasing_by
  rw [Nat.shiftRight_one]
  omega

/-- `_decode_point`. The error is the text of the `ValueError`. -/
def decodePoint (enc : Bytes) : Except String Point :=
  if enc.length ≠ 32 then .error "public key must be 32 bytes"
  else
    let y : Int := (fromBytes enc &&& ((1 <<< 255) - 1) : Nat)
    let x := recoverX y
    let x := if x % 2 ≠ (enc.getD 31 0 >>> 7).toNat then P - x else x
    .ok ⟨x, y, 1, x * y % P⟩

/-- `_encode_point` -/
def encodePoint (point : Point) : Bytes :=
  let zi := pow point.z (P - 2) P
  let x := (point.x * zi % P).toNat
  let y := (point.y * zi % P).toNat
  toBytes 32 ((y &&& ((1 <<< 255) - 1)) ||| ((x &&& 1) <<< 255))

/-- `ed25519_verify` -/
def ed25519Verify (sha512 : Bytes → Bytes) (pk message signature : Bytes) : Except String Bool :=
  if signature.length ≠ 64 then .ok false
  else
    let s := fromBytes (signature.drop 32)
    if s ≥ L then .ok false
    else do
      let h := fromBytes (sha512 (signature.take 32 ++ pk ++ message)) % L
      let left := encodePoint (mul B s)
      let right := encodePoint (add (← decodePoint (signature.take 32)) (mul (← decodePoint pk) h))
      return left == right

end Roman.Verifier
