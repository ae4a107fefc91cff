import Roman.TweetNacl.SecretBox

/-! # tweetnacl.c: X25519 and `crypto_box`

Field elements are sixteen `i64` limbs, as in the source. A box is a secret box
under the key `crypto_box_beforenm` derives from the two halves of a key pair;
the store passes both halves of its own pair to the writer and to the reader, so
both derive the same key whatever the scalar multiplication computes.
-/

namespace Roman.TweetNacl

open CMem CStr

abbrev Gf := Array Int64

def gf0 : Gf := Array.replicate 16 0

def gf1 : Gf := gf0.set! 0 1

def gf121665 : Gf := (gf0.set! 0 0xDB41).set! 1 1

def car25519 (o : Gf) : Gf := Id.run do
  let mut o := o
  for i in [0:16] do
    o := o.set! i (o[i]! + 65536)
    let c := o[i]! >>> 16
    if i < 15 then
      o := o.set! (i + 1) (o[i + 1]! + (c - 1))
    else
      o := o.set! 0 (o[0]! + (c - 1 + 37 * (c - 1)))
    o := o.set! i (o[i]! - (c <<< 16))
  return o

/-- `sel25519`: swaps the two elements if `b` is 1. -/
def sel25519 (p q : Gf) (b : Int64) : Gf × Gf := Id.run do
  let c := ~~~(b - 1)
  let mut p := p
  let mut q := q
  for i in [0:16] do
    let t := c &&& (p[i]! ^^^ q[i]!)
    p := p.set! i (p[i]! ^^^ t)
    q := q.set! i (q[i]! ^^^ t)
  return (p, q)

/-- The two conditional subtractions of `pack25519`. -/
def packLimbs (n : Gf) : Gf := Id.run do
  let mut t : Gf := car25519 (car25519 (car25519 n))
  for _ in [0:2] do
    let mut m : Gf := gf0.set! 0 (t[0]! - (0xffed : Int64))
    for i in [1:15] do
      m := m.set! i (t[i]! - (0xffff : Int64) - ((m[i - 1]! >>> 16) &&& 1))
      m := m.set! (i - 1) (m[i - 1]! &&& (0xffff : Int64))
    m := m.set! 15 (t[15]! - (0x7fff : Int64) - ((m[14]! >>> 16) &&& 1))
    let b : Int64 := (m[15]! >>> 16) &&& 1
    m := m.set! 14 (m[14]! &&& (0xffff : Int64))
    t := (sel25519 t m (1 - b)).1
  return t

def pack25519 (n : Gf) : Bytes :=
  let t := packLimbs n
  (List.range 16).flatMap fun i =>
    let limb : Int64 := t[i]!
    [limb.toUInt64.toUInt8, (limb >>> 8).toUInt64.toUInt8]

def unpack25519 (n : Bytes) : Gf := Id.run do
  let mut o := gf0
  for i in [0:16] do
    o := o.set! i ((n.getD (2 * i) 0).toUInt64.toInt64 + ((n.getD (2 * i + 1) 0).toUInt64.toInt64 <<< 8))
  o := o.set! 15 (o[15]! &&& 0x7fff)
  return o

def gfA (a b : Gf) : Gf := Array.zipWith (· + ·) a b

def gfZ (a b : Gf) : Gf := Array.zipWith (· - ·) a b

def gfM (a b : Gf) : Gf := Id.run do
  let mut t : Array Int64 := Array.replicate 31 0
  for i in [0:16] do
    for j in [0:16] do
      t := t.set! (i + j) (t[i + j]! + a[i]! * b[j]!)
  for i in [0:15] do
    t := t.set! i (t[i]! + 38 * t[i + 16]!)
  return car25519 (car25519 (t.extract 0 16))

def gfS (a : Gf) : Gf := gfM a a

def inv25519 (i : Gf) : Gf := Id.run do
  let mut c := i
  for k in [0:254] do
    let a := 253 - k
    c := gfS c
    if a ≠ 2 ∧ a ≠ 4 then
      c := gfM c i
  return c

/-- One step of the ladder of `crypto_scalarmult`, on the selected bit `r`. -/
def ladderStep (x : Gf) (r : Int64) (s : Gf × Gf × Gf × Gf) : Gf × Gf × Gf × Gf :=
  let (a, b, c, d) := s
  let (a, b) := sel25519 a b r
  let (c, d) := sel25519 c d r
  let e := gfA a c
  let a := gfZ a c
  let c := gfA b d
  let b := gfZ b d
  let d := gfS e
  let f := gfS a
  let a := gfM c a
  let c := gfM b e
  let e := gfA a c
  let a := gfZ a c
  let b := gfS a
  let c := gfZ d f
  let a := gfM c gf121665
  let a := gfA a d
  let c := gfM c a
  let a := gfM d f
  let d := gfM b x
  let b := gfS e
  let (a, b) := sel25519 a b r
  let (c, d) := sel25519 c d r
  (a, b, c, d)

/-- The clamped scalar. -/
def clampScalar (n : Bytes) : Array UInt8 := Id.run do
  let mut z := n.toArray
  z := z.set! 31 ((n.getD 31 0 &&& 127) ||| 64)
  z := z.set! 0 (z[0]! &&& 248)
  return z

def ladder (n p : Bytes) : Gf × Gf × Gf × Gf := Id.run do
  let z := clampScalar n
  let x := unpack25519 p
  let mut s := (gf1, x, gf0, gf1)
  for k in [0:255] do
    let i := 254 - k
    let r := ((z[i / 8]! >>> (UInt8.ofNat (i % 8))) &&& 1).toUInt64.toInt64
    s := ladderStep x r s
  return s

def cryptoScalarmult (n p : Bytes) : Bytes :=
  let (a, _, c, _) := ladder n p
  pack25519 (gfM a (inv25519 c))

theorem pack25519_length (n : Gf) : (pack25519 n).length = 32 := by
  simp [pack25519, List.length_flatMap]

theorem cryptoScalarmult_length (n p : Bytes) : (cryptoScalarmult n p).length = 32 :=
  pack25519_length _

/-- The base point 9. -/
def basePoint : Bytes := 9 :: List.replicate 31 0

def cryptoScalarmultBase (n : Bytes) : Bytes := cryptoScalarmult n basePoint

theorem cryptoScalarmultBase_length (n : Bytes) : (cryptoScalarmultBase n).length = 32 :=
  cryptoScalarmult_length n basePoint

attribute [irreducible] cryptoScalarmult cryptoScalarmultBase

def cryptoBoxBeforenm (y x : Bytes) : Bytes :=
  cryptoCoreHsalsa20 (List.replicate 16 0) (cryptoScalarmult x y) sigma

/-- `crypto_box` of a message under the public key `y` and the secret key `x`. -/
def cryptoBox (m n y x : Bytes) : Option Bytes :=
  cryptoSecretbox m n (cryptoBoxBeforenm y x)

def cryptoBoxOpen (c n y x : Bytes) : Option Bytes :=
  cryptoSecretboxOpen c n (cryptoBoxBeforenm y x)

/-- Opening a box under the keys and the nonce it was made with gives the message back. -/
theorem cryptoBoxOpen_box {m n y x c : Bytes} (padded : m.take 32 = List.replicate 32 0)
    (boxed : cryptoBox m n y x = some c) : cryptoBoxOpen c n y x = some m :=
  cryptoSecretboxOpen_secretbox padded boxed

theorem cryptoBoxOpen_length {c n y x m : Bytes} (opened : cryptoBoxOpen c n y x = some m) :
    m.length = c.length :=
  cryptoSecretboxOpen_length opened

theorem cryptoBox_length {m n y x c : Bytes} (boxed : cryptoBox m n y x = some c) :
    c.length = m.length :=
  cryptoSecretbox_length boxed

theorem cryptoBox_take {m n y x c : Bytes} (boxed : cryptoBox m n y x = some c) :
    c.take 16 = List.replicate 16 0 :=
  cryptoSecretbox_take boxed

theorem cryptoBox_isSome {m n y x : Bytes} (long : 32 ≤ m.length) :
    ∃ c, cryptoBox m n y x = some c :=
  cryptoSecretbox_isSome long

/-- The authenticator of a ciphertext under a nonce and a key pair. -/
def cryptoBoxMac (cipher n y x : Bytes) : Bytes :=
  cryptoOnetimeauth cipher (cryptoStream 32 n (cryptoBoxBeforenm y x))

theorem cryptoBoxOpen_isSome_iff {c n y x : Bytes} (long : 32 ≤ c.length) :
    (cryptoBoxOpen c n y x).isSome = true ↔ (c.drop 16).take 16 = cryptoBoxMac (c.drop 32) n y x :=
  cryptoSecretboxOpen_isSome_iff long

/-- Opening succeeds on exactly the boxes, and gives the boxed message. -/
theorem cryptoBoxOpen_iff {c n y x m : Bytes} (zeros : c.take 16 = List.replicate 16 0) :
    cryptoBoxOpen c n y x = some m ↔ cryptoBox m n y x = some c ∧ m.take 32 = List.replicate 32 0 :=
  ⟨cryptoSecretbox_of_open zeros, fun ⟨boxed, padded⟩ => cryptoBoxOpen_box padded boxed⟩

end Roman.TweetNacl
