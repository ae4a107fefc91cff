import Roman.TweetNacl.Signature

/-! # Opening signed messages

`crypto_sign_open` of tweetnacl.c, which the firmware has but never calls. It decodes the
negative of the public key, and differs from the tool in the scalar only: it does not
refuse one from the order on.
-/

namespace Roman.TweetNacl

open CMem LittleEndian Limbs Loops Words Verifier PrimeField

def gfD : Gf := limbs [0x78a3, 0x1359, 0x4dca, 0x75eb, 0xd8ab, 0x4141, 0x0a4d, 0x0070,
  0xe898, 0x7779, 0x4079, 0x8cc7, 0xfe73, 0x2b6f, 0x6cee, 0x5203]

def gfI : Gf := limbs [0xa0b0, 0x4a0e, 0x1b27, 0xc4ee, 0xe478, 0xad2f, 0x1806, 0x2f43,
  0xd7a7, 0x3dfb, 0x0099, 0x2b4d, 0xdf0b, 0x4fc1, 0x2480, 0x2b83]

def neq25519 (a b : Gf) : Bool := cryptoVerify32 (pack25519 a) (pack25519 b) != 0

def pow2523 (i : Gf) : Gf := Id.run do
  let mut c := i
  for k in [0:251] do
    let a := 250 - k
    c := gfS c
    if a ≠ 1 then
      c := gfM c i
  return c

/-- `unpackneg`: the opposite of the point that the bytes are of. -/
def unpackneg (p : Bytes) : Option Point :=
  let r2 := gf1
  let r1 := unpack25519 p
  let num := gfS r1
  let den := gfM num gfD
  let num := gfZ num r2
  let den := gfA r2 den
  let den2 := gfS den
  let den4 := gfS den2
  let den6 := gfM den4 den2
  let t := gfM den6 num
  let t := gfM t den
  let t := pow2523 t
  let t := gfM t num
  let t := gfM t den
  let t := gfM t den
  let r0 := gfM t den
  let chk := gfM (gfS r0) den
  let r0 := if neq25519 chk num then gfM r0 gfI else r0
  let chk := gfM (gfS r0) den
  if neq25519 chk num then none
  else
    let r0 := if par25519 r0 = p.getD 31 0 >>> 7 then gfZ gf0 r0 else r0
    some (r0, r1, r2, gfM r0 r1)

/-- `crypto_sign_open`: the message, if the signature before it is one of the public key. -/
def cryptoSignOpen (sm pk : Bytes) : Option Bytes :=
  if sm.length < 64 then none
  else
    match unpackneg pk with
    | none => none
    | some q =>
        let h := reduce (cryptoHash (sm.take 32 ++ pk.take 32 ++ sm.drop 64))
        let p := scalarmult q h
        let q := scalarbase (sm.drop 32)
        let t := pack (edAdd p q)
        if cryptoVerify32 (sm.take 32) t ≠ 0 then none else some (sm.drop 64)

theorem gfD_represents : Represents gfD 65573 (D : Int) :=
  represents_constant D rfl (by decide +kernel) (by decide +kernel)

theorem gfI_represents : Represents gfI 65573 (SQRT_M1 : Int) :=
  represents_constant SQRT_M1 rfl (by decide +kernel) (by decide +kernel)

theorem neq25519_eq {a c : Gf} {m n : Int} {x y : ZMod P} (one : Represents a m x) (two : Represents c n y)
    (small : m ≤ 2 ^ 60) (small' : n ≤ 2 ^ 60) : neq25519 a c = true ↔ x ≠ y := by
  have size : ∀ v : ZMod P, v.val < 256 ^ 32 := fun v => v.val_lt.trans (by norm_num [P])
  unfold neq25519
  rw [bne_iff_ne, ne_eq, ne_eq, not_iff_not, cryptoVerify32_eq_zero_iff (by rw [pack25519_length, pack25519_length]),
    pack25519_eq one small, pack25519_eq two small']
  constructor
  · intro same
    have numbers := congrArg fromBytes same
    rw [fromBytes_toBytes, fromBytes_toBytes, Nat.mod_eq_of_lt (size x), Nat.mod_eq_of_lt (size y)] at numbers
    exact ZMod.val_injective P numbers
  · rintro rfl
    rfl

/-- The exponent that `pow2523` has reached after `k` squarings. -/
def rootExponent : Nat → Nat
  | 0 => 1
  | k + 1 => 2 * rootExponent k + if 250 - k = 1 then 0 else 1

theorem pow2523_represents {a : Gf} {x : ZMod P} (one : Represents a 65573 x) :
    Represents (pow2523 a) 65573 (x ^ ((P - 5) / 8)) := by
  have exponent : (P - 5) / 8 = rootExponent 251 := by decide +kernel
  rw [exponent]
  unfold pow2523
  refine forIn_range (fun k s => Represents s 65573 (x ^ rootExponent k)) (Nat.zero_le 251) ?_ ?_
  · rwa [rootExponent, pow_one]
  · intro k s _ inside reached
    have squared := reached.square (by norm_num)
    rw [← pow_add, ← two_mul] at squared
    dsimp only
    split
    · next other =>
        refine .yield ?_
        rw [rootExponent, if_neg other, pow_succ]
        exact squared.mul one (by norm_num)
    · next skipped =>
        refine .yield ?_
        rwa [rootExponent, if_pos (by omega), Nat.add_zero]

theorem unpack25519_holds (n : Bytes) : Limbed (unpack25519 n) 16 (digit 65536 (fromBytes n % 2 ^ 255 : Nat)) := by
  have limb : ∀ i, (n.getD (2 * i) 0).toUInt64.toInt64 + ((n.getD (2 * i + 1) 0).toUInt64.toInt64 <<< 8) =
      word (digit 65536 (fromBytes n) i) := by
    intro i
    rw [word_byte, word_byte, word_shiftLeft _ (k := 8) rfl, word_add, fromBytes_getD, fromBytes_getD, pow_succ, pow_mul,
      ← Nat.div_div_eq_div_mul, digit]
    congr 1
    have whole : (fromBytes n : Int) / 65536 ^ i = (fromBytes n / 65536 ^ i : Nat) := by
      push_cast
      rfl
    rw [whole, show 256 ^ 2 = 65536 from rfl]
    omega
  unfold unpack25519
  rw [Id.run_bind]
  generalize filled : Id.run (forIn [0:16] gf0 _) = o
  have all : Limbed o 16 (digit 65536 (fromBytes n)) := by
    suffices all : Limbed o 16 fun j => if j < 16 then digit 65536 (fromBytes n) j else 0 from
      all.congr fun j inside => if_pos inside
    rw [← filled]
    refine forIn_range (fun k (o : Gf) => Limbed o 16 fun j => if j < k then digit 65536 (fromBytes n) j else 0)
      (Nat.zero_le 16) (.replicate 16) ?_
    intro k o _ inside held
    refine .yield ((held.set inside (limb k)).congr fun j _ => ?_)
    by_cases same : j = k
    · rw [same, Function.update_self, if_pos (Nat.lt_succ_self k)]
    · rw [Function.update_of_ne same]
      congr 1
      simp only [eq_iff_iff]
      omega
  have top : o[15]! &&& 0x7fff = word (digit 65536 (fromBytes n) 15 % 2 ^ 15) := by
    rw [all.limb 15 (by omega), word_and _ (k := 15) rfl (by norm_num)]
  refine (all.set (by omega) top).congr fun j inside => ?_
  generalize fromBytes n = w
  by_cases last : j = 15
  · rw [last, Function.update_self, digit, digit]
    norm_num
    omega
  · have whole : (w : Int) = (w % 2 ^ 255 : Nat) + 2 ^ 15 * (w / 2 ^ 255 : Nat) * 65536 ^ 15 := by
      norm_num
      omega
    rw [Function.update_of_ne last]
    conv_lhs => rw [whole, digit_add_mul (by norm_num) _ _ (by omega)]

theorem unpack25519_represents (n : Bytes) : Represents (unpack25519 n) 65573 (fromBytes n % 2 ^ 255 : Nat) := by
  have value : value 65536 (digit 65536 (fromBytes n % 2 ^ 255 : Nat)) 16 = (fromBytes n % 2 ^ 255 : Nat) := by
    have small := Nat.mod_lt (fromBytes n) (y := 2 ^ 255) (by positivity)
    rw [value_digit_mod (by norm_num)]
    generalize fromBytes n % 2 ^ 255 = v at small ⊢
    norm_num at small ⊢
    omega
  refine ⟨_, unpack25519_holds n, fun j _ => ?_, by rw [value, Int.cast_natCast]⟩
  have least := digit_nonneg (b := 65536) (by norm_num) (fromBytes n % 2 ^ 255 : Nat) j
  have most := digit_lt (b := 65536) (by norm_num) (fromBytes n % 2 ^ 255 : Nat) j
  omega

/-- The root that the power gives of a quotient. -/
theorem root_of_quotient {num den a : ZMod P} (nonzero : den ≠ 0) (quotient : num = a * den) :
    (den ^ 6 * num * den) ^ ((P - 5) / 8) * num * den * den * den = a ^ ((P + 3) / 8) := by
  have exponent : (P + 3) / 8 = (P - 5) / 8 + 1 := by decide +kernel
  have cycle : 8 * ((P - 5) / 8) + 4 = P - 1 := by decide +kernel
  have one : den ^ (8 * ((P - 5) / 8) + 4) = 1 := by rw [cycle, ZMod.pow_card_sub_one_eq_one nonzero]
  have base : den ^ 6 * num * den = a * den ^ 8 := by
    rw [quotient]
    ring
  rw [base, exponent, pow_succ a, mul_pow, ← pow_mul]
  calc a ^ ((P - 5) / 8) * den ^ (8 * ((P - 5) / 8)) * num * den * den * den
      = a ^ ((P - 5) / 8) * a * den ^ (8 * ((P - 5) / 8) + 4) := by
        rw [quotient, pow_add]
        ring
    _ = a ^ ((P - 5) / 8) * a := by rw [one, mul_one]

/-- The candidate of `unpackneg` for the root of `num / den`. -/
def quotientRoot (num den : Gf) : Gf :=
  let den2 := gfS den
  let den4 := gfS den2
  let den6 := gfM den4 den2
  let t := gfM den6 num
  let t := gfM t den
  let t := pow2523 t
  let t := gfM t num
  let t := gfM t den
  let t := gfM t den
  gfM t den

/-- The first check, and the factor that makes a root of a root of the negative. -/
def adjustRoot (r0 num den : Gf) : Gf := if neq25519 (gfM (gfS r0) den) num then gfM r0 gfI else r0

/-- The second check, and the sign. -/
def signRoot (r0 num den : Gf) (bit : UInt8) : Option Gf :=
  if neq25519 (gfM (gfS r0) den) num then none
  else some (if par25519 r0 = bit then gfZ gf0 r0 else r0)

theorem unpackneg_eq (p : Bytes) :
    let num := gfZ (gfS (unpack25519 p)) gf1
    let den := gfA gf1 (gfM (gfS (unpack25519 p)) gfD)
    unpackneg p = (signRoot (adjustRoot (quotientRoot num den) num den) num den (p.getD 31 0 >>> 7)).map fun r0 =>
      (r0, unpack25519 p, gf1, gfM r0 (unpack25519 p)) := by
  dsimp only
  rw [signRoot, apply_ite (Option.map _)]
  rfl

section
variable {r num den : Gf} {v d x : ZMod P}

theorem quotientRoot_represents (top : Represents num 131146 (x ^ 2 * d)) (bottom : Represents den 131146 d)
    (nonzero : d ≠ 0) : Represents (quotientRoot num den) 65573 ((x ^ 2) ^ ((P + 3) / 8)) := by
  have second := bottom.square (by norm_num)
  have sixth := (second.square (by norm_num)).mul second (by norm_num)
  have base := (sixth.mul top (by norm_num)).mul bottom (by norm_num)
  have power := (pow2523_represents base).mul top (by norm_num)
  have root := ((power.mul bottom (by norm_num)).mul bottom (by norm_num)).mul bottom (by norm_num)
  rw [← root_of_quotient nonzero (rfl : x ^ 2 * d = x ^ 2 * d)]
  refine root.congr ?_
  congr 5
  ring

theorem adjustRoot_represents (candidate : Represents r 65573 v) (top : Represents num 131146 (x ^ 2 * d))
    (bottom : Represents den 131146 d) (nonzero : d ≠ 0) (root : v ^ 2 = x ^ 2 ∨ v ^ 2 = -x ^ 2) :
    ∃ w, Represents (adjustRoot r num den) 65573 w ∧ w ^ 2 = x ^ 2 := by
  have check := (candidate.square (by norm_num)).mul bottom (by norm_num)
  have differs := neq25519_eq check top (by norm_num) (by norm_num)
  unfold adjustRoot
  split
  · next differ =>
      have other : v ^ 2 = -x ^ 2 := by
        refine root.resolve_left fun same => differs.mp differ ?_
        rw [← pow_two, same]
      refine ⟨_, candidate.mul gfI_represents (by norm_num), ?_⟩
      rw [mul_pow, sq_sqrt_m1, other]
      ring
  · next agree =>
      refine ⟨v, candidate, ?_⟩
      have same := not_not.mp (mt differs.mpr agree)
      rw [← pow_two] at same
      exact mul_right_cancel₀ nonzero same

/-- The root with the other sign. -/
theorem signRoot_represents (root : Represents r 65573 v) (top : Represents num 131146 (x ^ 2 * d))
    (bottom : Represents den 131146 d) (square : v ^ 2 = x ^ 2) :
    ∃ o, signRoot r num den (UInt8.ofNat (x.val % 2)) = some o ∧ Represents o 131146 (-x) := by
  have check := (root.square (by norm_num)).mul bottom (by norm_num)
  have agree : ¬ neq25519 (gfM (gfS r) den) num = true := by
    rw [neq25519_eq check top (by norm_num) (by norm_num), not_not, ← pow_two, square]
  have parity : par25519 r = UInt8.ofNat (x.val % 2) ↔ v.val % 2 = x.val % 2 := by
    rw [par25519_eq root (by norm_num), ← UInt8.toNat_inj, UInt8.toNat_ofNat', UInt8.toNat_ofNat']
    omega
  refine ⟨_, if_neg agree, ?_⟩
  split
  · next even =>
      refine (gf0_represents.sub root).congr ?_
      rw [zero_sub]
      rcases sq_eq_sq_iff_eq_or_eq_neg.mp square with same | minus
      · rw [same]
      · have equal := parity.mp even
        by_cases zero : x = 0
        · rw [minus, zero, neg_zero, neg_zero]
        · have odd := P_odd
          have small := x.val_lt
          rw [minus, ZMod.neg_val, if_neg zero] at equal
          omega
  · next odd =>
      refine (root.mono (by norm_num)).congr ?_
      rcases sq_eq_sq_iff_eq_or_eq_neg.mp square with same | minus
      · exact absurd (parity.mpr (congrArg (fun w => w.val % 2) same)) odd
      · exact minus

end

/-- `unpackneg` gives the opposite of the point. -/
theorem unpackneg_encoding (A : Edwards.Point curve) :
    ∃ q, unpackneg (encoding A.x A.y) = some q ∧ Coordinates q (-A) := by
  have height : ((fromBytes (encoding A.x A.y) % 2 ^ 255 : Nat) : ZMod P) = A.y := by
    rw [← height_eq, height_encoding, ZMod.natCast_zmod_val]
  have y := (unpack25519_represents (encoding A.x A.y)).congr height
  have nonzero := curve.height_ne_zero A.y
  have quotient : A.y ^ 2 - 1 = A.x ^ 2 * (curve.d * A.y ^ 2 + 1) :=
    ((div_eq_iff nonzero).mp (Edwards.Curve.on_iff.mp A.on).symm)
  have square := y.square (by norm_num)
  have top := (square.sub gf1_represents).congr (y := A.x ^ 2 * (curve.d * A.y ^ 2 + 1)) (by rw [← quotient, pow_two])
  have bottom := (gf1_represents.add (square.mul gfD_represents (by norm_num))).congr
    (y := curve.d * A.y ^ 2 + 1) (by simp only [curve]; ring)
  have candidate := quotientRoot_represents (top.mono (by norm_num)) (bottom.mono (by norm_num)) nonzero
  obtain ⟨w, root, same⟩ := adjustRoot_represents candidate (top.mono (by norm_num)) (bottom.mono (by norm_num)) nonzero
    (root_of_square (by decide +kernel) ⟨A.x, pow_two A.x⟩)
  have bit : (encoding A.x A.y).getD 31 0 >>> 7 = UInt8.ofNat (A.x.val % 2) := by
    apply UInt8.toNat.inj
    have sign := signBit_encoding A.x A.y
    rw [UInt8.toNat_ofNat']
    unfold signBit at sign
    omega
  obtain ⟨o, signed, opposite⟩ := signRoot_represents root (top.mono (by norm_num)) (bottom.mono (by norm_num)) same
  have decoded := unpackneg_eq (encoding A.x A.y)
  dsimp only at decoded
  rw [bit, signed] at decoded
  refine ⟨_, decoded, ⟨-A.x, A.y, 1, -A.x * A.y⟩, opposite, y.mono (by norm_num), gf1_represents.mono (by norm_num),
    (opposite.mul y (by norm_num)).mono (by norm_num), ?_⟩
  constructor <;> simp

/-- The group equation that `crypto_sign_open` tests, under the key of a point. -/
theorem cryptoSignOpen_point (A : Edwards.Point curve) {R S : Bytes} (first : R.length = 32) (second : S.length = 32)
    (m : Bytes) : cryptoSignOpen (R ++ S ++ m) (encoding A.x A.y) =
      let T := fromBytes S • base - hashScalar cryptoHash R (encoding A.x A.y) m • A
      if R = encoding T.x T.y then some m else none := by
  obtain ⟨q, decoded, opposite⟩ := unpackneg_encoding A
  have whole : R ++ S ++ m = R ++ (S ++ m) := List.append_assoc ..
  have front : (R ++ S ++ m).take 32 = R := by rw [whole, List.take_left' first]
  have rest : (R ++ S ++ m).drop 32 = S ++ m := by rw [whole, List.drop_left' first]
  have message : (R ++ S ++ m).drop 64 = m := List.drop_left' (by rw [List.length_append, first, second])
  have key : (encoding A.x A.y).take 32 = encoding A.x A.y := List.take_of_length_le (encoding_length _ _).le
  have scalar : fromBytes (S ++ m) % 2 ^ 256 = fromBytes S := by
    have less := fromBytes_lt S
    rw [fromBytes_append, second] at *
    norm_num at less ⊢
    omega
  have small : ∀ n, n % L % 2 ^ 256 = n % L := fun n =>
    Nat.mod_eq_of_lt ((Nat.mod_lt _ (by norm_num [L])).trans L_small)
  have hash := scalarmult_coordinates opposite (reduce (cryptoHash (R ++ encoding A.x A.y ++ m)))
  rw [reduce_cryptoHash, fromBytes_scalar, small] at hash
  have multiple := scalarbase_coordinates (S ++ m)
  rw [scalar] at multiple
  have point : (fromBytes (cryptoHash (R ++ encoding A.x A.y ++ m)) % L) • -A + fromBytes S • base =
      fromBytes S • base - hashScalar cryptoHash R (encoding A.x A.y) m • A := by
    rw [smul_neg, neg_add_eq_sub]
    rfl
  have sum := edAdd_coordinates hash multiple
  rw [point] at sum
  have packed := pack_eq sum
  unfold cryptoSignOpen
  rw [if_neg (by simp only [List.length_append]; omega), decoded, front, rest, message, key]
  dsimp only
  rw [reduce_cryptoHash, packed]
  by_cases same : R = encoding (fromBytes S • base - hashScalar cryptoHash R (encoding A.x A.y) m • A).x
      (fromBytes S • base - hashScalar cryptoHash R (encoding A.x A.y) m • A).y
  · rw [if_pos same, if_neg (by rw [not_not]; exact (cryptoVerify32_eq_zero_iff (by rw [first, encoding_length])).mpr same)]
  · rw [if_neg same, if_pos (mt (cryptoVerify32_eq_zero_iff (by rw [first, encoding_length])).mp same)]

/-- For points of the curve `crypto_sign_open` tests the equation of the group. -/
theorem cryptoSignOpen_points (A R : Edwards.Point curve) {S : Bytes} (size : S.length = 32) (m : Bytes) :
    cryptoSignOpen (encoding R.x R.y ++ S ++ m) (encoding A.x A.y) = some m ↔
      fromBytes S • base = R + hashScalar cryptoHash (encoding R.x R.y) (encoding A.x A.y) m • A := by
  rw [cryptoSignOpen_point A (encoding_length _ _) size]
  dsimp only
  generalize fromBytes S • base = T
  generalize hashScalar cryptoHash (encoding R.x R.y) (encoding A.x A.y) m • A = H
  constructor
  · intro opened
    have same := encoding_inj (by_contra fun other => by rw [if_neg other] at opened; cases opened)
    rw [same, sub_add_cancel]
  · intro equation
    rw [if_pos]
    rw [equation, add_sub_cancel_right]

/-- `crypto_sign_open` accepts what the tool accepts with the scalar reduced. -/
theorem cryptoSignOpen_iff_ed25519Verify (A R : Edwards.Point curve) (S : Region 32) (m : Bytes) :
    cryptoSignOpen (encoding R.x R.y ++ S.bytes ++ m) (encoding A.x A.y) = some m ↔
      ed25519Verify cryptoHash (encoding A.x A.y) m (encoding R.x R.y ++ toBytes 32 (fromBytes S.bytes % L)) = .ok true := by
  rw [cryptoSignOpen_points A R S.size, ed25519Verify_points _ A R m (Nat.mod_lt _ (by norm_num [L])), mod_nsmul_base]

/-- What `crypto_sign` signs with a key pair of `crypto_sign_keypair` is opened. -/
theorem cryptoSignOpen_sign (seed : Region 32) (m : Bytes) :
    cryptoSignOpen (cryptoSign m (cryptoSignKeypair seed.bytes).2) (cryptoSignKeypair seed.bytes).1 = some m := by
  have front : (seed.bytes ++ publicKey (secretScalar seed.bytes)).take 32 = seed.bytes := List.take_left' seed.size
  have back : (seed.bytes ++ publicKey (secretScalar seed.bytes)).drop 32 = publicKey (secretScalar seed.bytes) :=
    List.drop_left' seed.size
  rw [cryptoSignKeypair_eq, cryptoSign, signature_eq, front, back]
  generalize nonceScalar seed.bytes m = r
  generalize secretScalar seed.bytes = a
  rw [publicKey_eq r, publicKey_eq a, cryptoSignOpen_points _ _ (toBytes_length 32 _), fromBytes_scalar, honest_equation]

end Roman.TweetNacl
