import Roman.Lib.CString

/-! # tweetnacl.c: Salsa20, Poly1305 and the secret box

Translation of the symmetric half of tweetnacl.c, and the one fact the store
needs of it: opening a box gives back what was boxed, and only boxes open. The
two primitives are never unfolded in a proof beyond the length of their output.
-/

namespace Roman.TweetNacl

open CMem CStr

/-- `vn`: 0 if the `n` bytes agree, otherwise -1 (as the `u32` it is computed in). -/
def vn (x y : Bytes) : UInt32 :=
  let d := (x.zip y).foldl (fun d p => d ||| (p.1 ^^^ p.2).toUInt32) 0
  ((1 : UInt32) &&& ((d - 1) >>> 8)) - 1

def cryptoVerify16 (x y : Bytes) : UInt32 := vn x y

def cryptoVerify32 (x y : Bytes) : UInt32 := vn x y

def L32 (x c : UInt32) : UInt32 := (x <<< c) ||| (x >>> (32 - c))

def ld32 (x : Bytes) (off : Nat) : UInt32 :=
  let u := (x.getD (off + 3) 0).toUInt32
  let u := (u <<< 8) ||| (x.getD (off + 2) 0).toUInt32
  let u := (u <<< 8) ||| (x.getD (off + 1) 0).toUInt32
  (u <<< 8) ||| (x.getD off 0).toUInt32

def st32 (u : UInt32) : Bytes :=
  [u.toUInt8, (u >>> 8).toUInt8, (u >>> 16).toUInt8, (u >>> 24).toUInt8]

/-- One pass of the inner loop of `core`: four columns, written transposed. -/
def coreRound (x : Array UInt32) : Array UInt32 := Id.run do
  let mut w := x
  for j in [0:4] do
    let t0 := x[(5 * j) % 16]!
    let t1 := x[(5 * j + 4) % 16]!
    let t2 := x[(5 * j + 8) % 16]!
    let t3 := x[(5 * j + 12) % 16]!
    let t1 := t1 ^^^ L32 (t0 + t3) 7
    let t2 := t2 ^^^ L32 (t1 + t0) 9
    let t3 := t3 ^^^ L32 (t2 + t1) 13
    let t0 := t0 ^^^ L32 (t3 + t2) 18
    w := w.set! (4 * j + j % 4) t0
    w := w.set! (4 * j + (j + 1) % 4) t1
    w := w.set! (4 * j + (j + 2) % 4) t2
    w := w.set! (4 * j + (j + 3) % 4) t3
  return w

/-- The input block of `core`, before any round. -/
def coreInput (inp k c : Bytes) : Array UInt32 := Id.run do
  let mut x : Array UInt32 := Array.replicate 16 0
  for i in [0:4] do
    x := x.set! (5 * i) (ld32 c (4 * i))
    x := x.set! (1 + i) (ld32 k (4 * i))
    x := x.set! (6 + i) (ld32 inp (4 * i))
    x := x.set! (11 + i) (ld32 k (16 + 4 * i))
  return x

/-- The block after 20 rounds, before the feed-forward. -/
def coreRounds (inp k c : Bytes) : Array UInt32 := Id.run do
  let mut x := coreInput inp k c
  for _ in [0:20] do
    x := coreRound x
  return x

/-- `core` with `h == 0`. -/
def cryptoCoreSalsa20 (inp k c : Bytes) : Bytes :=
  let y := coreInput inp k c
  let x := coreRounds inp k c
  (List.range 16).flatMap fun i => st32 (x[i]! + y[i]!)

/-- `core` with `h == 1`: the feed-forward is taken back for the words that leave. -/
def cryptoCoreHsalsa20 (inp k c : Bytes) : Bytes :=
  let y := coreInput inp k c
  let x := coreRounds inp k c
  let x := (List.range 16).map fun i => x[i]! + y[i]!
  let out1 := (List.range 4).flatMap fun i => st32 (x.getD (5 * i) 0 - ld32 c (4 * i))
  let out2 := (List.range 4).flatMap fun i => st32 (x.getD (6 + i) 0 - ld32 inp (4 * i))
  out1 ++ out2

def sigma : Bytes := ascii "expand 32-byte k"

/-- The carry loop over the counter half of `z`. -/
def carryUp : UInt32 → Bytes → Bytes
  | _, [] => []
  | u, b :: rest =>
      let u := u + b.toUInt32
      u.toUInt8 :: carryUp (u >>> 8) rest

/-- The loop of `crypto_stream_salsa20_xor`: 64 bytes a turn, then the rest. -/
def streamBlocks (k z m : Bytes) : Bytes :=
  if 64 ≤ m.length then
    List.zipWith (· ^^^ ·) (m.take 64) (cryptoCoreSalsa20 z k sigma) ++
      streamBlocks k (z.take 8 ++ carryUp 1 (z.drop 8)) (m.drop 64)
  else
    List.zipWith (· ^^^ ·) m (cryptoCoreSalsa20 z k sigma)
termination_by m.length
decreasing_by simp only [List.length_drop]; omega

def cryptoStreamSalsa20Xor (m n k : Bytes) : Bytes :=
  streamBlocks k (n.take 8 ++ List.replicate 8 0) m

def cryptoStreamXor (m n k : Bytes) : Bytes :=
  cryptoStreamSalsa20Xor m (n.drop 16) (cryptoCoreHsalsa20 n k sigma)

/-- `crypto_stream`: the same loop over no message, that is, over zeros. -/
def cryptoStream (d : Nat) (n k : Bytes) : Bytes :=
  cryptoStreamXor (List.replicate d 0) n k

def add1305 (h addend : Array UInt32) : Array UInt32 := Id.run do
  let mut h := h
  let mut u : UInt32 := 0
  for j in [0:17] do
    u := u + (h[j]! + addend[j]!)
    h := h.set! j (u &&& 255)
    u := u >>> 8
  return h

def minusp : Array UInt32 := #[5, 0, 0, 0, 0, 0, 0, 0, 0, 0, 0, 0, 0, 0, 0, 0, 252]

/-- The clamped multiplier. -/
def onetimeauthKey (k : Bytes) : Array UInt32 :=
  #[(k.getD 0 0).toUInt32, (k.getD 1 0).toUInt32, (k.getD 2 0).toUInt32,
    (k.getD 3 0).toUInt32 &&& 15, (k.getD 4 0).toUInt32 &&& 252, (k.getD 5 0).toUInt32,
    (k.getD 6 0).toUInt32, (k.getD 7 0).toUInt32 &&& 15, (k.getD 8 0).toUInt32 &&& 252,
    (k.getD 9 0).toUInt32, (k.getD 10 0).toUInt32, (k.getD 11 0).toUInt32 &&& 15,
    (k.getD 12 0).toUInt32 &&& 252, (k.getD 13 0).toUInt32, (k.getD 14 0).toUInt32,
    (k.getD 15 0).toUInt32 &&& 15, 0]

/-- One turn of the message loop: add the block, multiply by `r`, reduce. -/
def onetimeauthBlock (r h : Array UInt32) (block : Bytes) : Array UInt32 := Id.run do
  let mut c : Array UInt32 := Array.replicate 17 0
  for j in [0:block.length] do
    c := c.set! j (block.getD j 0).toUInt32
  c := c.set! block.length 1
  let h := add1305 h c
  let mut x : Array UInt32 := Array.replicate 17 0
  for i in [0:17] do
    for j in [0:17] do
      x := x.set! i (x[i]! + h[j]! * (if j ≤ i then r[i - j]! else 320 * r[i + 17 - j]!))
  let mut h := x
  let mut u : UInt32 := 0
  for j in [0:16] do
    u := u + h[j]!
    h := h.set! j (u &&& 255)
    u := u >>> 8
  u := u + h[16]!
  h := h.set! 16 (u &&& 3)
  u := (5 : UInt32) * (u >>> 2)
  for j in [0:16] do
    u := u + h[j]!
    h := h.set! j (u &&& 255)
    u := u >>> 8
  u := u + h[16]!
  h := h.set! 16 u
  return h

def onetimeauthBlocks (r : Array UInt32) (m : Bytes) (h : Array UInt32) : Array UInt32 :=
  if m = [] then h
  else onetimeauthBlocks r (m.drop 16) (onetimeauthBlock r h (m.take 16))
termination_by m.length
decreasing_by
  rename_i nonempty
  have := List.length_pos_iff.mpr nonempty
  simp only [List.length_drop]
  omega

/-- The last reduction and the addition of the second half of the key. -/
def onetimeauthFinish (h : Array UInt32) (k : Bytes) : Array UInt32 := Id.run do
  let g := h
  let mut h := add1305 h minusp
  let s := (0 : UInt32) - (h[16]! >>> 7)
  for j in [0:17] do
    h := h.set! j (h[j]! ^^^ (s &&& (g[j]! ^^^ h[j]!)))
  let mut c : Array UInt32 := Array.replicate 17 0
  for j in [0:16] do
    c := c.set! j (k.getD (j + 16) 0).toUInt32
  return add1305 h c

def cryptoOnetimeauth (m k : Bytes) : Bytes :=
  let h := onetimeauthBlocks (onetimeauthKey k) m (Array.replicate 17 0)
  let h := onetimeauthFinish h k
  (List.range 16).map fun j => (h[j]!).toUInt8

def cryptoOnetimeauthVerify (h m k : Bytes) : UInt32 :=
  cryptoVerify16 h (cryptoOnetimeauth m k)

/-- `crypto_secretbox`; the message starts with 32 zero bytes. -/
def cryptoSecretbox (m n k : Bytes) : Option Bytes :=
  if m.length < 32 then none
  else
    let c := cryptoStreamXor m n k
    let mac := cryptoOnetimeauth (c.drop 32) (c.take 32)
    some (List.replicate 16 0 ++ mac ++ c.drop 32)

/-- `crypto_secretbox_open`: the MAC is verified before anything is decrypted. -/
def cryptoSecretboxOpen (c n k : Bytes) : Option Bytes :=
  if c.length < 32 then none
  else
    let x := cryptoStream 32 n k
    if cryptoOnetimeauthVerify ((c.drop 16).take 16) (c.drop 32) x ≠ 0 then none
    else some (List.replicate 32 0 ++ (cryptoStreamXor c n k).drop 32)

theorem cryptoCoreSalsa20_length (inp k c : Bytes) : (cryptoCoreSalsa20 inp k c).length = 64 := by
  simp [cryptoCoreSalsa20, st32, List.length_flatMap]

theorem cryptoOnetimeauth_length (m k : Bytes) : (cryptoOnetimeauth m k).length = 16 := by
  simp only [cryptoOnetimeauth, List.length_map, List.length_range]

attribute [irreducible] cryptoCoreSalsa20 cryptoCoreHsalsa20 cryptoOnetimeauth

private theorem diff_byte (pairs : List (UInt8 × UInt8)) (acc : UInt8) :
    pairs.foldl (fun d p => d ||| (p.1 ^^^ p.2).toUInt32) acc.toUInt32 =
      (pairs.foldl (fun d p => d ||| (p.1 ^^^ p.2)) acc).toUInt32 := by
  induction pairs generalizing acc with
  | nil => rfl
  | cons p pairs ih => simp only [List.foldl_cons, ← UInt8.toUInt32_or, ih]

private theorem diff_zero_iff (x y : Bytes) (acc : UInt8) (eq : x.length = y.length) :
    (x.zip y).foldl (fun d p => d ||| (p.1 ^^^ p.2)) acc = 0 ↔ acc = 0 ∧ x = y := by
  induction x generalizing y acc with
  | nil => cases y <;> simp at eq ⊢
  | cons a x ih =>
      cases y with
      | nil => simp at eq
      | cons b y =>
          simp only [List.zip_cons_cons, List.foldl_cons, List.cons.injEq,
            ih y (acc ||| (a ^^^ b)) (by simpa using eq), UInt8.or_eq_zero_iff,
            UInt8.xor_eq_zero_iff, and_assoc]

private theorem vn_byte (e : UInt8) :
    ((1 : UInt32) &&& ((e.toUInt32 - 1) >>> 8)) - 1 = 0 ↔ e = 0 := by
  have all : ∀ i : Fin 256, ((1 : UInt32) &&& (((UInt8.ofFin i).toUInt32 - 1) >>> 8)) - 1 = 0 ↔
      UInt8.ofFin i = 0 := by decide +kernel
  exact all e.toFin

theorem vn_eq_zero_iff {x y : Bytes} (eq : x.length = y.length) : vn x y = 0 ↔ x = y := by
  have start := diff_byte (x.zip y) 0
  rw [show UInt8.toUInt32 0 = (0 : UInt32) from rfl] at start
  simp only [vn, start]
  rw [vn_byte, diff_zero_iff x y 0 eq]
  simp only [true_and]

theorem cryptoVerify32_eq_zero_iff {x y : Bytes} (eq : x.length = y.length) :
    cryptoVerify32 x y = 0 ↔ x = y := vn_eq_zero_iff eq

theorem streamBlocks_long {k z m : Bytes} (long : 64 ≤ m.length) :
    streamBlocks k z m = List.zipWith (· ^^^ ·) (m.take 64) (cryptoCoreSalsa20 z k sigma) ++
      streamBlocks k (z.take 8 ++ carryUp 1 (z.drop 8)) (m.drop 64) := by
  rw [streamBlocks, if_pos long]

theorem streamBlocks_short {k z m : Bytes} (short : ¬ 64 ≤ m.length) :
    streamBlocks k z m = List.zipWith (· ^^^ ·) m (cryptoCoreSalsa20 z k sigma) := by
  rw [streamBlocks, if_neg short]

/-- A full block of the message gives a full block of output. -/
private theorem block_length {k z m : Bytes} (long : 64 ≤ m.length) :
    (List.zipWith (· ^^^ ·) (m.take 64) (cryptoCoreSalsa20 z k sigma)).length = 64 := by
  rw [List.length_zipWith, cryptoCoreSalsa20_length, List.length_take]
  omega

theorem streamBlocks_length (k z m : Bytes) : (streamBlocks k z m).length = m.length := by
  induction z, m using streamBlocks.induct with
  | case1 z m long ih =>
      rw [streamBlocks_long long, List.length_append, block_length long, ih, List.length_drop]
      omega
  | case2 z m short =>
      rw [streamBlocks_short short, List.length_zipWith, cryptoCoreSalsa20_length]
      omega

private theorem zipWith_xor_self (m x : Bytes) (le : m.length ≤ x.length) :
    List.zipWith (· ^^^ ·) (List.zipWith (· ^^^ ·) m x) x = m := by
  induction m generalizing x with
  | nil => simp
  | cons b m ih =>
      cases x with
      | nil => simp at le
      | cons a x =>
          simp only [List.zipWith_cons_cons, UInt8.xor_assoc, UInt8.xor_self, UInt8.xor_zero]
          rw [ih x (by simpa using le)]

theorem streamBlocks_invol (k z m : Bytes) : streamBlocks k z (streamBlocks k z m) = m := by
  induction z, m using streamBlocks.induct with
  | case1 z m long ih =>
      have same := streamBlocks_length k z m
      rw [streamBlocks_long (m := streamBlocks k z m) (by omega), streamBlocks_long long,
        List.take_left' (block_length long), List.drop_left' (block_length long), ih,
        zipWith_xor_self _ _ (by rw [cryptoCoreSalsa20_length, List.length_take]; omega),
        List.take_append_drop]
  | case2 z m short =>
      have same := streamBlocks_length k z m
      rw [streamBlocks_short (m := streamBlocks k z m) (by omega), streamBlocks_short short,
        zipWith_xor_self _ _ (by rw [cryptoCoreSalsa20_length]; omega)]

/-- The first 32 bytes depend only on the first 32 bytes of the message. -/
theorem streamBlocks_take (k z m : Bytes) :
    (streamBlocks k z m).take 32 =
      List.zipWith (· ^^^ ·) (m.take 32) ((cryptoCoreSalsa20 z k sigma).take 32) := by
  by_cases long : 64 ≤ m.length
  · rw [streamBlocks_long long, List.take_append_of_le_length (by rw [block_length long]; omega),
      List.take_zipWith, List.take_take]
    rfl
  · rw [streamBlocks_short long, List.take_zipWith]

/-- What comes after the first 32 bytes does not depend on them. -/
theorem streamBlocks_drop (k z : Bytes) {a b : Bytes} (size : a.length = b.length)
    (same : a.drop 32 = b.drop 32) :
    (streamBlocks k z a).drop 32 = (streamBlocks k z b).drop 32 := by
  by_cases long : 64 ≤ a.length
  · have tail : a.drop 64 = b.drop 64 := by
      have := congrArg (List.drop 32) same
      simpa only [List.drop_drop] using this
    have block : (a.take 64).drop 32 = (b.take 64).drop 32 := by
      rw [List.drop_take, List.drop_take, same]
    have long' : 64 ≤ b.length := by omega
    rw [streamBlocks_long long, streamBlocks_long long', tail,
      List.drop_append_of_le_length (by rw [block_length long]; omega),
      List.drop_append_of_le_length (by rw [block_length long']; omega),
      List.drop_zipWith, List.drop_zipWith, block]
  · rw [streamBlocks_short long, streamBlocks_short (by omega), List.drop_zipWith,
      List.drop_zipWith, same]

theorem cryptoStreamXor_length (m n k : Bytes) : (cryptoStreamXor m n k).length = m.length :=
  streamBlocks_length _ _ _

theorem cryptoStreamXor_invol (m n k : Bytes) :
    cryptoStreamXor (cryptoStreamXor m n k) n k = m :=
  streamBlocks_invol _ _ _

theorem cryptoStream_length (d : Nat) (n k : Bytes) : (cryptoStream d n k).length = d := by
  rw [cryptoStream, cryptoStreamXor_length, List.length_replicate]

/-- The one-time key of a box is the start of its own stream: the padding of the
    message is zero, so the boxed padding is the bare stream. -/
theorem cryptoStreamXor_take {m n k : Bytes} (padded : m.take 32 = List.replicate 32 0) :
    (cryptoStreamXor m n k).take 32 = cryptoStream 32 n k := by
  have whole : (cryptoStream 32 n k).take 32 = cryptoStream 32 n k :=
    List.take_of_length_le (by rw [cryptoStream_length])
  rw [← whole]
  simp only [cryptoStream, cryptoStreamXor, cryptoStreamSalsa20Xor]
  rw [streamBlocks_take, streamBlocks_take, padded]
  rfl

theorem cryptoSecretbox_length {m n k c : Bytes} (boxed : cryptoSecretbox m n k = some c) :
    c.length = m.length := by
  simp only [cryptoSecretbox] at boxed
  split at boxed
  · cases boxed
  · cases boxed
    simp only [List.length_append, List.length_replicate, cryptoOnetimeauth_length,
      List.length_drop, cryptoStreamXor_length]
    omega

/-- The sixteen bytes before the MAC are zero. -/
theorem cryptoSecretbox_take {m n k c : Bytes} (boxed : cryptoSecretbox m n k = some c) :
    c.take 16 = List.replicate 16 0 := by
  simp only [cryptoSecretbox] at boxed
  split at boxed
  · cases boxed
  · cases boxed
    rw [List.append_assoc]
    exact List.take_left' List.length_replicate

theorem cryptoSecretbox_isSome {m n k : Bytes} (long : 32 ≤ m.length) :
    ∃ c, cryptoSecretbox m n k = some c := by
  simp only [cryptoSecretbox, if_neg (by omega : ¬ m.length < 32)]
  exact ⟨_, rfl⟩

/-- Sixteen zero bytes, the MAC and the ciphertext, taken apart again. -/
private theorem box_parts (mac c : Bytes) (size : mac.length = 16) :
    ((List.replicate 16 0 ++ mac ++ c).drop 16).take 16 = mac ∧
      (List.replicate 16 0 ++ mac ++ c).drop 32 = c := by
  constructor
  · rw [List.append_assoc, List.drop_left' (by simp), List.take_left' size]
  · exact List.drop_left' (by simp [size])

theorem cryptoSecretboxOpen_length {c n k m : Bytes} (opened : cryptoSecretboxOpen c n k = some m) :
    m.length = c.length := by
  simp only [cryptoSecretboxOpen] at opened
  split at opened
  · cases opened
  · rename_i long
    split at opened
    · cases opened
    · cases opened
      simp only [List.length_append, List.length_replicate, List.length_drop,
        cryptoStreamXor_length]
      omega

theorem cryptoSecretboxOpen_secretbox {m n k c : Bytes} (padded : m.take 32 = List.replicate 32 0)
    (boxed : cryptoSecretbox m n k = some c) : cryptoSecretboxOpen c n k = some m := by
  have same := cryptoSecretbox_length boxed
  simp only [cryptoSecretbox] at boxed
  split at boxed
  · cases boxed
  · rename_i long
    cases boxed
    have long : 32 ≤ m.length := by omega
    let x := cryptoStreamXor m n k
    have xSize : x.length = m.length := cryptoStreamXor_length m n k
    have parts := box_parts (cryptoOnetimeauth (x.drop 32) (x.take 32)) (x.drop 32)
      (cryptoOnetimeauth_length _ _)
    have key : x.take 32 = cryptoStream 32 n k := cryptoStreamXor_take padded
    have verified : cryptoOnetimeauthVerify (cryptoOnetimeauth (x.drop 32) (x.take 32)) (x.drop 32)
        (cryptoStream 32 n k) = 0 := by
      rw [← key]
      exact (vn_eq_zero_iff rfl).mpr rfl
    simp only [cryptoSecretboxOpen]
    rw [if_neg (by omega), parts.1, parts.2, if_neg (not_not.mpr verified)]
    have body : (cryptoStreamXor (List.replicate 16 0 ++ cryptoOnetimeauth (x.drop 32) (x.take 32) ++
        x.drop 32) n k).drop 32 = m.drop 32 := by
      have back : (cryptoStreamXor x n k).drop 32 = m.drop 32 := by
        rw [cryptoStreamXor_invol]
      rw [← back]
      exact streamBlocks_drop _ _ (by rw [xSize]; exact same) parts.2
    rw [body, ← padded, List.take_append_drop]

/-- What opens is decided by the MAC alone. -/
theorem cryptoSecretboxOpen_isSome_iff {c n k : Bytes} (long : 32 ≤ c.length) :
    (cryptoSecretboxOpen c n k).isSome = true ↔
      (c.drop 16).take 16 = cryptoOnetimeauth (c.drop 32) (cryptoStream 32 n k) := by
  have size : ((c.drop 16).take 16).length = 16 := by
    rw [List.length_take, List.length_drop]
    omega
  have verify : cryptoOnetimeauthVerify ((c.drop 16).take 16) (c.drop 32) (cryptoStream 32 n k) = 0 ↔
      (c.drop 16).take 16 = cryptoOnetimeauth (c.drop 32) (cryptoStream 32 n k) :=
    vn_eq_zero_iff (by rw [size, cryptoOnetimeauth_length])
  unfold cryptoSecretboxOpen
  rw [if_neg (by omega), ← verify]
  simp only
  split
  · rename_i wrong
    exact iff_of_false nofun wrong
  · rename_i right
    exact iff_of_true rfl (not_not.mp right)

/-- What opens was boxed: the message boxes to the bytes that were opened. -/
theorem cryptoSecretbox_of_open {c n k m : Bytes} (zeros : c.take 16 = List.replicate 16 0)
    (opened : cryptoSecretboxOpen c n k = some m) :
    cryptoSecretbox m n k = some c ∧ m.take 32 = List.replicate 32 0 := by
  have size := cryptoSecretboxOpen_length opened
  have long : 32 ≤ c.length := by
    by_contra short
    rw [cryptoSecretboxOpen, if_pos (by omega)] at opened
    cases opened
  have mac := (cryptoSecretboxOpen_isSome_iff long).mp (by rw [opened]; rfl)
  have plain : m = List.replicate 32 0 ++ (cryptoStreamXor c n k).drop 32 := by
    unfold cryptoSecretboxOpen at opened
    rw [if_neg (by omega)] at opened
    simp only at opened
    split at opened
    · cases opened
    · exact (Option.some.inj opened).symm
  have padded : m.take 32 = List.replicate 32 0 := by
    rw [plain]
    exact List.take_left' List.length_replicate
  have tail : m.drop 32 = (cryptoStreamXor c n k).drop 32 := by
    rw [plain]
    exact List.drop_left' List.length_replicate
  have body : (cryptoStreamXor m n k).drop 32 = c.drop 32 := by
    have back : (cryptoStreamXor (cryptoStreamXor c n k) n k).drop 32 = c.drop 32 := by
      rw [cryptoStreamXor_invol]
    rw [← back]
    apply streamBlocks_drop
    · rw [size, cryptoStreamXor_length]
    · exact tail
  refine ⟨?_, padded⟩
  unfold cryptoSecretbox
  rw [if_neg (by omega)]
  simp only
  rw [body, cryptoStreamXor_take padded, ← mac, ← zeros]
  congr 1
  calc c.take 16 ++ (c.drop 16).take 16 ++ c.drop 32
      = c.take 16 ++ ((c.drop 16).take 16 ++ (c.drop 16).drop 16) := by
        rw [List.append_assoc, List.drop_drop]
    _ = c := by rw [List.take_append_drop, List.take_append_drop]

end Roman.TweetNacl
