import Roman.TweetNacl.Box

/-! # tweetnacl.c: SHA-512 and `crypto_sign`

Translation of the signing half of tweetnacl.c. The server uses the first 64
bytes of what `crypto_sign` writes.
-/

namespace Roman.TweetNacl

open CMem CStr

def dl64 (x : Bytes) (off : Nat) : UInt64 :=
  (List.range 8).foldl (fun u i => (u <<< 8) ||| (x.getD (off + i) 0).toUInt64) 0

def ts64 (u : UInt64) : Bytes :=
  [(u >>> 56).toUInt8, (u >>> 48).toUInt8, (u >>> 40).toUInt8, (u >>> 32).toUInt8,
    (u >>> 24).toUInt8, (u >>> 16).toUInt8, (u >>> 8).toUInt8, u.toUInt8]

def R (x c : UInt64) : UInt64 := (x >>> c) ||| (x <<< (64 - c))

def Ch (x y z : UInt64) : UInt64 := (x &&& y) ^^^ (~~~x &&& z)

def Maj (x y z : UInt64) : UInt64 := (x &&& y) ^^^ (x &&& z) ^^^ (y &&& z)

def bigSigma0 (x : UInt64) : UInt64 := R x 28 ^^^ R x 34 ^^^ R x 39

def bigSigma1 (x : UInt64) : UInt64 := R x 14 ^^^ R x 18 ^^^ R x 41

def smallSigma0 (x : UInt64) : UInt64 := R x 1 ^^^ R x 8 ^^^ (x >>> 7)

def smallSigma1 (x : UInt64) : UInt64 := R x 19 ^^^ R x 61 ^^^ (x >>> 6)

def K : Array UInt64 := #[
  0x428a2f98d728ae22, 0x7137449123ef65cd, 0xb5c0fbcfec4d3b2f, 0xe9b5dba58189dbbc,
  0x3956c25bf348b538, 0x59f111f1b605d019, 0x923f82a4af194f9b, 0xab1c5ed5da6d8118,
  0xd807aa98a3030242, 0x12835b0145706fbe, 0x243185be4ee4b28c, 0x550c7dc3d5ffb4e2,
  0x72be5d74f27b896f, 0x80deb1fe3b1696b1, 0x9bdc06a725c71235, 0xc19bf174cf692694,
  0xe49b69c19ef14ad2, 0xefbe4786384f25e3, 0x0fc19dc68b8cd5b5, 0x240ca1cc77ac9c65,
  0x2de92c6f592b0275, 0x4a7484aa6ea6e483, 0x5cb0a9dcbd41fbd4, 0x76f988da831153b5,
  0x983e5152ee66dfab, 0xa831c66d2db43210, 0xb00327c898fb213f, 0xbf597fc7beef0ee4,
  0xc6e00bf33da88fc2, 0xd5a79147930aa725, 0x06ca6351e003826f, 0x142929670a0e6e70,
  0x27b70a8546d22ffc, 0x2e1b21385c26c926, 0x4d2c6dfc5ac42aed, 0x53380d139d95b3df,
  0x650a73548baf63de, 0x766a0abb3c77b2a8, 0x81c2c92e47edaee6, 0x92722c851482353b,
  0xa2bfe8a14cf10364, 0xa81a664bbc423001, 0xc24b8b70d0f89791, 0xc76c51a30654be30,
  0xd192e819d6ef5218, 0xd69906245565a910, 0xf40e35855771202a, 0x106aa07032bbd1b8,
  0x19a4c116b8d2d0c8, 0x1e376c085141ab53, 0x2748774cdf8eeb99, 0x34b0bcb5e19b48a8,
  0x391c0cb3c5c95a63, 0x4ed8aa4ae3418acb, 0x5b9cca4f7763e373, 0x682e6ff3d6b2b8a3,
  0x748f82ee5defb2fc, 0x78a5636f43172f60, 0x84c87814a1f0ab72, 0x8cc702081a6439ec,
  0x90befffa23631e28, 0xa4506cebde82bde9, 0xbef9a3f7b2c67915, 0xc67178f2e372532b,
  0xca273eceea26619c, 0xd186b8c721c0c207, 0xeada7dd6cde0eb1e, 0xf57d4f7fee6ed178,
  0x06f067aa72176fba, 0x0a637dc5a2c898a6, 0x113f9804bef90dae, 0x1b710b35131c471b,
  0x28db77f523047d84, 0x32caab7b40c72493, 0x3c9ebe0a15c9bebc, 0x431d67c49c100d4c,
  0x4cc5d4becb3e42b6, 0x597f299cfc657e2a, 0x5fcb6fab3ad6faec, 0x6c44198c4a475817]

/-- One 128-byte block of `crypto_hashblocks`. -/
def hashBlock (z : Array UInt64) (m : Bytes) : Array UInt64 := Id.run do
  let mut w : Array UInt64 := ((List.range 16).map fun i => dl64 m (8 * i)).toArray
  let mut a := z
  for i in [0:80] do
    let t : UInt64 := a[7]! + bigSigma1 a[4]! + Ch a[4]! a[5]! a[6]! + K[i]! + w[i % 16]!
    let mut b := a
    b := b.set! 7 (t + bigSigma0 a[0]! + Maj a[0]! a[1]! a[2]!)
    b := b.set! 3 (b[3]! + t)
    for j in [0:8] do
      a := a.set! ((j + 1) % 8) b[j]!
    if i % 16 = 15 then
      for j in [0:16] do
        w := w.set! j (w[j]! + (w[(j + 9) % 16]! + smallSigma0 w[(j + 1) % 16]! +
          smallSigma1 w[(j + 14) % 16]!))
  let mut r := z
  for i in [0:8] do
    r := r.set! i (a[i]! + z[i]!)
  return r

def cryptoHashblocks (z : Array UInt64) (m : Bytes) : Array UInt64 :=
  if 128 ≤ m.length then cryptoHashblocks (hashBlock z (m.take 128)) (m.drop 128) else z
termination_by m.length
decreasing_by simp only [List.length_drop]; omega

def iv : Array UInt64 := #[
  0x6a09e667f3bcc908, 0xbb67ae8584caa73b, 0x3c6ef372fe94f82b, 0xa54ff53a5f1d36f1,
  0x510e527fade682d1, 0x9b05688c2b3e6c1f, 0x1f83d9abfb41bd6b, 0x5be0cd19137e2179]

def cryptoHash (m : Bytes) : Bytes :=
  let h := cryptoHashblocks iv m
  let tail := m.drop (m.length - m.length % 128)
  let n := if tail.length < 112 then 128 else 256
  let x := tail ++ 128 :: List.replicate (n - 10 - tail.length) 0 ++
    (UInt8.ofNat (m.length / 2 ^ 61)) :: ts64 (UInt64.ofNat (m.length * 8))
  let h := cryptoHashblocks h x
  (List.range 8).flatMap fun i => ts64 h[i]!

def limbs (l : List Int64) : Gf := l.toArray

def gfD2 : Gf := limbs [0xf159, 0x26b2, 0x9b94, 0xebd6, 0xb156, 0x8283, 0x149a, 0x00e0,
  0xd130, 0xeef3, 0x80f2, 0x198e, 0xfce7, 0x56df, 0xd9dc, 0x2406]

def gfX : Gf := limbs [0xd51a, 0x8f25, 0x2d60, 0xc956, 0xa7b2, 0x9525, 0xc760, 0x692c,
  0xdc5c, 0xfdd6, 0xe231, 0xc0a4, 0x53fe, 0xcd6e, 0x36d3, 0x2169]

def gfY : Gf := limbs [0x6658, 0x6666, 0x6666, 0x6666, 0x6666, 0x6666, 0x6666, 0x6666,
  0x6666, 0x6666, 0x6666, 0x6666, 0x6666, 0x6666, 0x6666, 0x6666]

abbrev Point := Gf × Gf × Gf × Gf

/-- `add(p, q)`, which leaves its sum in `p`. -/
def edAdd (p q : Point) : Point :=
  let (p0, p1, p2, p3) := p
  let (q0, q1, q2, q3) := q
  let a := gfM (gfZ p1 p0) (gfZ q1 q0)
  let b := gfM (gfA p0 p1) (gfA q0 q1)
  let c := gfM (gfM p3 q3) gfD2
  let d := gfM p2 q2
  let d := gfA d d
  let e := gfZ b a
  let f := gfZ d c
  let g := gfA d c
  let h := gfA b a
  (gfM e f, gfM h g, gfM g f, gfM e h)

def cswap (p q : Point) (b : Int64) : Point × Point :=
  let (p0, p1, p2, p3) := p
  let (q0, q1, q2, q3) := q
  let (p0, q0) := sel25519 p0 q0 b
  let (p1, q1) := sel25519 p1 q1 b
  let (p2, q2) := sel25519 p2 q2 b
  let (p3, q3) := sel25519 p3 q3 b
  ((p0, p1, p2, p3), (q0, q1, q2, q3))

def par25519 (a : Gf) : UInt8 := (pack25519 a).getD 0 0 &&& 1

def pack (p : Point) : Bytes :=
  let (p0, p1, p2, _) := p
  let zi := inv25519 p2
  let tx := gfM p0 zi
  let r := pack25519 (gfM p1 zi)
  r.set 31 (r.getD 31 0 ^^^ (par25519 tx <<< 7))

def scalarmult (q : Point) (s : Bytes) : Point := Id.run do
  let mut p : Point := (gf0, gf1, gf1, gf0)
  let mut q := q
  for k in [0:256] do
    let i := 255 - k
    let b := ((s.getD (i / 8) 0 >>> (UInt8.ofNat (i % 8))) &&& 1).toUInt64.toInt64
    (p, q) := cswap p q b
    q := edAdd q p
    p := edAdd p p
    (p, q) := cswap p q b
  return p

def scalarbase (s : Bytes) : Point := scalarmult (gfX, gfY, gf1, gfM gfX gfY) s

def orderL : Array Int64 := #[0xed, 0xd3, 0xf5, 0x5c, 0x1a, 0x63, 0x12, 0x58, 0xd6, 0x9c, 0xf7,
  0xa2, 0xde, 0xf9, 0xde, 0x14, 0, 0, 0, 0, 0, 0, 0, 0, 0, 0, 0, 0, 0, 0, 0, 0x10]

/-- The limbs `modL` leaves in `x`; its output is their low bytes. -/
def modLimbs (x : Array Int64) : Array Int64 := Id.run do
  let mut x := x
  for k in [0:32] do
    let i := 63 - k
    let mut carry : Int64 := 0
    for j in [i - 32:i - 12] do
      x := x.set! j (x[j]! + (carry - 16 * x[i]! * orderL[j - (i - 32)]!))
      carry := (x[j]! + 128) >>> 8
      x := x.set! j (x[j]! - (carry <<< 8))
    x := x.set! (i - 12) (x[i - 12]! + carry)
    x := x.set! i 0
  let mut carry : Int64 := 0
  for j in [0:32] do
    x := x.set! j (x[j]! + (carry - (x[31]! >>> 4) * orderL[j]!))
    carry := x[j]! >>> 8
    x := x.set! j (x[j]! &&& 255)
  for j in [0:32] do
    x := x.set! j (x[j]! - carry * orderL[j]!)
  for i in [0:32] do
    x := x.set! (i + 1) (x[i + 1]! + (x[i]! >>> 8))
  return x

def modL (x : Array Int64) : Bytes :=
  let x := modLimbs x
  (List.range 32).map fun i =>
    let limb : Int64 := x[i]!
    (limb &&& 255).toUInt64.toUInt8

def reduce (r : Bytes) : Bytes :=
  modL (r.map fun b => b.toUInt64.toInt64).toArray

/-- `h * d + r` before the reduction. -/
def signScalar (r h d : Bytes) : Array Int64 := Id.run do
  let mut x : Array Int64 := Array.replicate 64 0
  for i in [0:32] do
    x := x.set! i (r.getD i 0).toUInt64.toInt64
  for i in [0:32] do
    for j in [0:32] do
      x := x.set! (i + j) (x[i + j]! + (h.getD i 0).toUInt64.toInt64 * (d.getD j 0).toUInt64.toInt64)
  return x

/-- The 64 signature bytes `crypto_sign` puts before the message. -/
def signature (m sk : Bytes) : Bytes :=
  let d := cryptoHash (sk.take 32)
  let d := d.set 0 (d.getD 0 0 &&& 248)
  let d := d.set 31 ((d.getD 31 0 &&& 127) ||| 64)
  let r := reduce (cryptoHash (d.drop 32 ++ m))
  let R := pack (scalarbase r)
  let h := reduce (cryptoHash (R ++ sk.drop 32 ++ m))
  R ++ modL (signScalar r h d)

theorem signature_length (m sk : Bytes) : (signature m sk).length = 64 := by
  simp only [signature, pack, modL, List.length_append, List.length_set, pack25519_length,
    List.length_map, List.length_range]

attribute [irreducible] signature

/-- `crypto_sign`: the signature, then the message. -/
def cryptoSign (m sk : Bytes) : Bytes :=
  signature m sk ++ m

end Roman.TweetNacl
