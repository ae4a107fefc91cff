import Roman.Lib.Arrays
import Roman.Lib.Loops
import Roman.Lib.Salsa20
import Roman.TweetNacl.SecretBox

/-! # crypto_stream_xor is XSalsa20

`core` works on columns only and writes each round transposed, `crypto_core_hsalsa20`
takes back the words that it has just added, and the counter is carried byte by byte.
-/

namespace Roman.TweetNacl

open Arrays CMem CStr LittleEndian Salsa20

theorem L32_eq (x : UInt32) (n : Nat) (low : 0 < n) (high : n < 32) : L32 x (UInt32.ofNat n) = rotl n x := by
  have shift : (UInt32.ofNat n).toNat = n := by
    rw [UInt32.toNat_ofNat']
    omega
  have left : (32 - UInt32.ofNat n).toNat = 32 - n := by
    have size : (32 : UInt32).toNat = 32 := rfl
    rw [UInt32.toNat_sub, shift]
    omega
  have left' : ((UInt32.ofNat n).toBitVec % 32).toNat = n := by
    rw [BitVec.toNat_umod]
    change (UInt32.ofNat n).toNat % 32 = n
    omega
  have right' : ((32 - UInt32.ofNat n).toBitVec % 32).toNat = 32 - n := by
    rw [BitVec.toNat_umod]
    change (32 - UInt32.ofNat n).toNat % 32 = 32 - n
    omega
  apply UInt32.toBitVec_inj.mp
  rw [L32, rotl, UInt32.toBitVec_or, UInt32.toBitVec_shiftRight, UInt32.toBitVec_shiftLeft, BitVec.rotateLeft_def,
    BitVec.ushiftRight_eq', BitVec.shiftLeft_eq', right', left', Nat.mod_eq_of_lt high]

/-- The places of a column in the array, from the diagonal down. -/
theorem flat_column (y : Square) (i m : Fin 4) : flat y ((5 * i.val + 4 * m.val) % 16) = y (i + m) i := by
  have row : ∀ i m : Fin 4, Fin.ofNat 4 ((5 * i.val + 4 * m.val) % 16 / 4) = i + m := by decide
  have column : ∀ i m : Fin 4, Fin.ofNat 4 ((5 * i.val + 4 * m.val) % 16) = i := by decide
  rw [flat, row, column]

/-- The places of a row, from the diagonal to the right. -/
theorem flat_row (y : Square) (i m : Fin 4) : flat y (4 * i.val + (i.val + m.val) % 4) = y i (i + m) := by
  have row : ∀ i m : Fin 4, Fin.ofNat 4 ((4 * i.val + (i.val + m.val) % 4) / 4) = i := by decide
  have column : ∀ i m : Fin 4, Fin.ofNat 4 (4 * i.val + (i.val + m.val) % 4) = i + m := by decide
  rw [flat, row, column]

/-- One turn of the inner loop of `core`. -/
def coreColumn (x w : Array UInt32) (j : Nat) : Array UInt32 :=
  let t0 := x[(5 * j) % 16]!
  let t1 := x[(5 * j + 4) % 16]!
  let t2 := x[(5 * j + 8) % 16]!
  let t3 := x[(5 * j + 12) % 16]!
  let t1 := t1 ^^^ L32 (t0 + t3) 7
  let t2 := t2 ^^^ L32 (t1 + t0) 9
  let t3 := t3 ^^^ L32 (t2 + t1) 13
  let t0 := t0 ^^^ L32 (t3 + t2) 18
  let w := w.set! (4 * j + j % 4) t0
  let w := w.set! (4 * j + (j + 1) % 4) t1
  let w := w.set! (4 * j + (j + 2) % 4) t2
  w.set! (4 * j + (j + 3) % 4) t3

theorem coreColumn_entries {x w : Array UInt32} {y z : Square} (input : Entries x 16 (flat y)) {j : Nat} (inside : j < 4)
    (holds : Entries w 16 fun l => if l / 4 < j then flat (transposed (columnround y)) l else flat z l) :
    Entries (coreColumn x w j) 16 fun l => if l / 4 < j + 1 then flat (transposed (columnround y)) l else flat z l := by
  have seven : ∀ x, L32 x 7 = rotl 7 x := fun x => L32_eq x 7 (by decide) (by decide)
  have nine : ∀ x, L32 x 9 = rotl 9 x := fun x => L32_eq x 9 (by decide) (by decide)
  have thirteen : ∀ x, L32 x 13 = rotl 13 x := fun x => L32_eq x 13 (by decide) (by decide)
  have eighteen : ∀ x, L32 x 18 = rotl 18 x := fun x => L32_eq x 18 (by decide) (by decide)
  obtain ⟨i, rfl⟩ : ∃ i : Fin 4, j = i := ⟨⟨j, inside⟩, rfl⟩
  have read : ∀ m : Fin 4, x[(5 * i.val + 4 * m.val) % 16]! = y (i + m) i := fun m => by
    rw [input.entry _ (Nat.mod_lt _ (by omega)), flat_column]
  have back : ∀ i m : Fin 4, i + m - i = m := by decide
  have out : ∀ m : Fin 4, flat (transposed (columnround y)) (4 * i.val + (i.val + m.val) % 4) =
      quarterround (fun m => y (i + m) i) m := fun m => by
    rw [flat_row, transposed, columnround, back]
  have zero : x[(5 * i.val) % 16]! = y (i + 0) i := read 0
  have one : x[(5 * i.val + 4) % 16]! = y (i + 1) i := read 1
  have two : x[(5 * i.val + 8) % 16]! = y (i + 2) i := read 2
  have three : x[(5 * i.val + 12) % 16]! = y (i + 3) i := read 3
  unfold coreColumn
  dsimp only
  rw [zero, one, two, three, seven, nine, thirteen, eighteen]
  have zero : quarterround (fun m => y (i + m) i) 0 = flat (transposed (columnround y)) (4 * i.val + i.val % 4) :=
    (out 0).symm
  have one : quarterround (fun m => y (i + m) i) 1 = flat (transposed (columnround y)) (4 * i.val + (i.val + 1) % 4) :=
    (out 1).symm
  have two : quarterround (fun m => y (i + m) i) 2 = flat (transposed (columnround y)) (4 * i.val + (i.val + 2) % 4) :=
    (out 2).symm
  have three : quarterround (fun m => y (i + m) i) 3 = flat (transposed (columnround y)) (4 * i.val + (i.val + 3) % 4) :=
    (out 3).symm
  have row := (((holds.put (by omega) zero).put (by omega) one).put (by omega) two).put (by omega) three
  exact row.congr fun l _ => if_congr (by omega) rfl rfl

theorem coreRound_entries {x : Array UInt32} {y : Square} (input : Entries x 16 (flat y)) :
    Entries (coreRound x) 16 (flat (transposed (columnround y))) := by
  suffices all : Entries (coreRound x) 16 fun l => if l / 4 < 4 then flat (transposed (columnround y)) l else flat y l from
    all.congr fun l inside => if_pos (by omega)
  unfold coreRound
  refine Loops.forIn_range (fun j (w : Array UInt32) => Entries w 16 fun l =>
    if l / 4 < j then flat (transposed (columnround y)) l else flat y l) (Nat.zero_le 4) (input.congr fun l _ => ?_) ?_
  · rw [if_neg (Nat.not_lt_zero _)]
  · exact fun j w _ inside holds => .yield (coreColumn_entries input inside holds)

theorem shift_byte32 {u : UInt32} (b : UInt8) (small : u.toNat < 2 ^ 24) :
    ((u <<< 8) ||| b.toUInt32).toNat = b.toNat + 256 * u.toNat := by
  have place : (8 : UInt32).toNat % 32 = 8 := rfl
  have less := b.toNat_lt
  have shifted : u.toNat <<< 8 % 2 ^ 32 = 2 ^ 8 * u.toNat := by
    rw [Nat.shiftLeft_eq]
    omega
  rw [UInt32.toNat_or, UInt32.toNat_shiftLeft, UInt8.toNat_toUInt32, place, shifted,
    ← Nat.two_pow_add_eq_or_of_lt less]
  omega

theorem ld32_eq (b : Bytes) (i : Nat) : ld32 b (4 * i) = word b i := by
  have byte : ∀ j, (b.getD (4 * i + j) 0).toNat = fromBytes (b.drop (4 * i)) / 256 ^ j % 256 := fun j => by
    rw [← fromBytes_getD, List.getD_eq_getElem?_getD, List.getD_eq_getElem?_getD, List.getElem?_drop]
  have last := UInt8.toNat_toUInt32 (b.getD (4 * i + 3) 0)
  have low := byte 0
  have second := byte 1
  have third := byte 2
  have high := byte 3
  rw [Nat.add_zero] at low
  apply UInt32.toNat.inj
  rw [word, UInt32.toNat_ofNat', fromBytes_take, ld32]
  have two : ((b.getD (4 * i + 3) 0).toUInt32 <<< 8 ||| (b.getD (4 * i + 2) 0).toUInt32).toNat = _ :=
    shift_byte32 _ (by omega)
  have one : (((b.getD (4 * i + 3) 0).toUInt32 <<< 8 ||| (b.getD (4 * i + 2) 0).toUInt32) <<< 8 |||
      (b.getD (4 * i + 1) 0).toUInt32).toNat = _ := shift_byte32 _ (by omega)
  rw [shift_byte32 _ (by omega), one, two, last, low, second, third, high]
  omega

theorem st32_eq (u : UInt32) : st32 u = wordBytes u := by
  have byte : ∀ i < 4, (u >>> UInt32.ofNat (8 * i)).toUInt8 = UInt8.ofNat (u.toNat / 256 ^ i) := by
    intro i inside
    apply UInt8.toNat.inj
    have place : (UInt32.ofNat (8 * i)).toNat % 32 = 8 * i := by
      rw [UInt32.toNat_ofNat']
      omega
    have power : 2 ^ (8 * i) = 256 ^ i := by norm_num [pow_mul]
    rw [UInt32.toNat_toUInt8, UInt32.toNat_shiftRight, place, Nat.shiftRight_eq_div_pow, power, UInt8.toNat_ofNat']
  have last : u.toUInt8 = UInt8.ofNat (u.toNat / 256 ^ 0) := by
    rw [pow_zero, Nat.div_one]
    exact UInt8.toNat.inj (by rw [UInt32.toNat_toUInt8, UInt8.toNat_ofNat'])
  rw [wordBytes, toBytes_map, st32, last]
  simp only [List.range_succ, List.range_zero, List.map_cons, List.map_nil, List.nil_append, List.cons_append]
  rw [← byte 1 (by omega), ← byte 2 (by omega), ← byte 3 (by omega)]
  rfl

theorem sigma_eq : sigma = constant := by decide

/-- The turn of the first loop that writes a place. -/
def inputTurn (l : Nat) : Nat := if l % 5 = 0 then l / 5 else l % 5 - 1

theorem coreInput_entries (inp k : Bytes) : Entries (coreInput inp k sigma) 16 (flat (expand k inp)) := by
  have turns : ∀ l < 16, inputTurn l < 4 := by decide
  suffices all : Entries (coreInput inp k sigma) 16 fun l => if inputTurn l < 4 then flat (expand k inp) l else 0 from
    all.congr fun l inside => if_pos (turns l inside)
  unfold coreInput
  refine Loops.forIn_range (fun i (x : Array UInt32) =>
    Entries x 16 fun l => if inputTurn l < i then flat (expand k inp) l else 0) (Nat.zero_le 4)
    ((Entries.replicate 16 0).congr fun l _ => (if_neg (Nat.not_lt_zero _)).symm) ?_
  intro i x _ inside holds
  have words : ld32 sigma (4 * i) = flat (expand k inp) (5 * i) ∧ ld32 k (4 * i) = flat (expand k inp) (1 + i) ∧
      ld32 inp (4 * i) = flat (expand k inp) (6 + i) ∧ ld32 k (16 + 4 * i) = flat (expand k inp) (11 + i) := by
    rw [show 16 + 4 * i = 4 * (4 + i) by omega, ld32_eq, ld32_eq, ld32_eq, ld32_eq, sigma_eq]
    interval_cases i
    all_goals exact ⟨rfl, rfl, rfl, rfl⟩
  obtain ⟨diagonal, first, middle, last⟩ := words
  have turn := (((holds.put (by omega) diagonal).put (by omega) first).put (by omega) middle).put (by omega) last
  refine .yield (turn.congr fun l small => if_congr ?_ rfl rfl)
  unfold inputTurn
  split <;> omega

theorem coreRounds_entries (inp k : Bytes) :
    Entries (coreRounds inp k sigma) 16 (flat (doubleround^[10] (expand k inp))) := by
  rw [← iterate_columnround]
  unfold coreRounds
  refine Loops.forIn_range (fun i (x : Array UInt32) =>
    Entries x 16 (flat ((fun y => transposed (columnround y))^[i] (expand k inp)))) (Nat.zero_le 20)
    (coreInput_entries inp k) fun i x _ _ holds => .yield ?_
  rw [Function.iterate_succ_apply']
  exact coreRound_entries holds

theorem flat_place (y : Square) (r c : Fin 4) : flat y (4 * r.val + c.val) = y r c := by
  have row : ∀ r c : Fin 4, Fin.ofNat 4 ((4 * r.val + c.val) / 4) = r := by decide
  have column : ∀ r c : Fin 4, Fin.ofNat 4 (4 * r.val + c.val) = c := by decide
  rw [flat, row, column]

theorem cryptoCoreSalsa20_eq (inp k : Bytes) : cryptoCoreSalsa20 inp k sigma = salsa20 k inp := by
  have order : ∀ f : Nat → Bytes, (List.range 16).flatMap f =
      (List.finRange 4).flatMap fun r => (List.finRange 4).flatMap fun c => f (4 * r.val + c.val) := fun f => by
    simp only [List.range_succ, List.range_zero, List.finRange_succ, List.finRange_zero, List.flatMap_append,
      List.flatMap_cons, List.flatMap_nil, List.map_cons, List.map_nil, List.nil_append, List.append_nil,
      List.append_assoc]
    rfl
  have out : ∀ r c : Fin 4, st32 ((coreRounds inp k sigma)[4 * r.val + c.val]! + (coreInput inp k sigma)[4 * r.val + c.val]!) =
      wordBytes (doubleround^[10] (expand k inp) r c + expand k inp r c) := fun r c => by
    rw [(coreRounds_entries inp k).entry _ (by omega), (coreInput_entries inp k).entry _ (by omega), flat_place, flat_place,
      st32_eq]
  unfold cryptoCoreSalsa20
  dsimp only
  rw [order, salsa20]
  simp only [out]

theorem cryptoCoreHsalsa20_eq (inp k : Bytes) : cryptoCoreHsalsa20 inp k sigma = hsalsa20 k inp := by
  have sum : ∀ l < 16, ((List.range 16).map fun i => (coreRounds inp k sigma)[i]! + (coreInput inp k sigma)[i]!).getD l 0 =
      flat (doubleround^[10] (expand k inp)) l + flat (expand k inp) l := fun l inside => by
    rw [List.getD_eq_getElem?_getD, List.getElem?_map, List.getElem?_range inside, Option.map_some, Option.getD_some,
      (coreRounds_entries inp k).entry l inside, (coreInput_entries inp k).entry l inside]
  have diagonal : ∀ i < 4, ld32 sigma (4 * i) = flat (expand k inp) (5 * i) := fun i inside => by
    rw [ld32_eq, sigma_eq]
    interval_cases i
    all_goals rfl
  have middle : ∀ i < 4, ld32 inp (4 * i) = flat (expand k inp) (6 + i) := fun i inside => by
    rw [ld32_eq]
    interval_cases i
    all_goals rfl
  unfold cryptoCoreHsalsa20
  dsimp only
  rw [hsalsa20]
  generalize doubleround^[10] (expand k inp) = z at sum ⊢
  have first : ∀ i < 4, st32 (((List.range 16).map fun i => (coreRounds inp k sigma)[i]! +
      (coreInput inp k sigma)[i]!).getD (5 * i) 0 - ld32 sigma (4 * i)) = wordBytes (flat z (5 * i)) := fun i inside => by
    rw [sum _ (by omega), diagonal i inside, UInt32.add_sub_cancel, st32_eq]
  have second : ∀ i < 4, st32 (((List.range 16).map fun i => (coreRounds inp k sigma)[i]! +
      (coreInput inp k sigma)[i]!).getD (6 + i) 0 - ld32 inp (4 * i)) = wordBytes (flat z (6 + i)) := fun i inside => by
    rw [sum _ (by omega), middle i inside, UInt32.add_sub_cancel, st32_eq]
  rw [List.flatMap_congr fun i member => first i (List.mem_range.mp member),
    List.flatMap_congr fun i member => second i (List.mem_range.mp member)]
  simp only [List.range_succ, List.range_zero, List.flatMap_append, List.flatMap_cons, List.flatMap_nil, List.nil_append,
    List.append_nil, List.append_assoc]
  rfl

/-- The carry loop adds a small number. -/
theorem carryUp_eq (s : Bytes) {u : UInt32} (small : u.toNat ≤ 1) :
    carryUp u s = toBytes s.length (fromBytes s + u.toNat) := by
  induction s generalizing u with
  | nil => rfl
  | cons b s ih =>
      have less := b.toNat_lt
      have sum : (u + b.toUInt32).toNat = u.toNat + b.toNat := by
        rw [UInt32.toNat_add, UInt8.toNat_toUInt32]
        omega
      have carry : ((u + b.toUInt32) >>> 8).toNat = (u.toNat + b.toNat) / 256 := by
        rw [UInt32.toNat_shiftRight, sum]
        exact Nat.shiftRight_eq_div_pow _ 8
      have low : (u + b.toUInt32).toUInt8 = UInt8.ofNat (b.toNat + 256 * fromBytes s + u.toNat) := by
        apply UInt8.toNat.inj
        rw [UInt32.toNat_toUInt8, UInt8.toNat_ofNat', sum]
        omega
      have rest : (b.toNat + 256 * fromBytes s + u.toNat) / 256 = fromBytes s + (u.toNat + b.toNat) / 256 := by omega
      rw [carryUp, ih (by omega), carry, low, List.length_cons, toBytes, fromBytes_cons, rest]

/-- The second half of the block is the number of the block. -/
theorem carryUp_counter (q : Nat) : carryUp 1 (toBytes 8 q) = toBytes 8 (q + 1) := by
  rw [carryUp_eq _ (by decide), toBytes_length, fromBytes_toBytes]
  change toBytes 8 (q % 256 ^ 8 + 1) = toBytes 8 (q + 1)
  rw [← toBytes_mod 8 (q % 256 ^ 8 + 1), Nat.mod_add_mod, toBytes_mod]

/-- A block of the message, or what is left of it, with the block of the stream. -/
theorem zipWith_keystream (k n m : Bytes) (q : Nat) (size : m.length ≤ 64) :
    List.zipWith (· ^^^ ·) m (salsa20 k (n ++ toBytes 8 q)) = m.mapIdx fun i b => b ^^^ keystream k n (64 * q + i) := by
  have block : (salsa20 k (n ++ toBytes 8 q)).length = 64 := by
    rw [← cryptoCoreSalsa20_eq, cryptoCoreSalsa20_length]
  apply List.ext_getElem
  · rw [List.length_zipWith, List.length_mapIdx, block]
    omega
  · intro i inside inside'
    rw [List.length_mapIdx] at inside'
    rw [List.getElem_zipWith, List.getElem_mapIdx, keystream, show (64 * q + i) / 64 = q by omega,
      show (64 * q + i) % 64 = i by omega, List.getD_eq_getElem?_getD, List.getElem?_eq_getElem (by omega), Option.getD_some]

theorem streamBlocks_keystream (k m : Bytes) {n : Bytes} (size : n.length = 8) (q : Nat) :
    streamBlocks k (n ++ toBytes 8 q) m = m.mapIdx fun i b => b ^^^ keystream k n (64 * q + i) := by
  generalize block : n ++ toBytes 8 q = z
  induction z, m using streamBlocks.induct generalizing q with
  | case1 z m long ih =>
      subst block
      have next : (n ++ toBytes 8 q).take 8 ++ carryUp 1 ((n ++ toBytes 8 q).drop 8) = n ++ toBytes 8 (q + 1) := by
        rw [List.take_left' size, List.drop_left' size, carryUp_counter]
      have first : (m.take 64).length = 64 := List.length_take_of_le long
      conv_rhs => rw [← List.take_append_drop 64 m, List.mapIdx_append, first]
      have later : ∀ i, 64 * q + (i + 64) = 64 * (q + 1) + i := fun i => by omega
      rw [streamBlocks_long long, ih (q + 1) next.symm, cryptoCoreSalsa20_eq, zipWith_keystream k n _ q (by omega)]
      simp only [later]
  | case2 z m short =>
      subst block
      rw [streamBlocks_short short, cryptoCoreSalsa20_eq, zipWith_keystream k n _ q (by omega)]

theorem cryptoStreamXor_eq (m : Bytes) (n : Region 24) (k : Region 32) :
    cryptoStreamXor m n.bytes k.bytes = m.mapIdx fun i b => b ^^^ xsalsa20 k.bytes n.bytes i := by
  have half : (n.bytes.drop 16).length = 8 := by
    rw [List.length_drop, n.size]
  have key : hsalsa20 k.bytes (n.bytes.take 16) = hsalsa20 k.bytes n.bytes := by
    have words : ∀ i < 4, word (n.bytes.take 16) i = word n.bytes i := fun i inside => by
      rw [word, word, List.drop_take, List.take_take, Nat.min_eq_left (by omega)]
    have same : expand k.bytes (n.bytes.take 16) = expand k.bytes n.bytes := by
      rw [expand, words 0 (by decide), words 1 (by decide), words 2 (by decide), words 3 (by decide), expand]
    rw [hsalsa20, same, hsalsa20]
  have whole : (n.bytes.drop 16).take 8 = n.bytes.drop 16 := List.take_of_length_le (by omega)
  have start := streamBlocks_keystream (hsalsa20 k.bytes n.bytes) m half 0
  rw [cryptoStreamXor, cryptoStreamSalsa20Xor, cryptoCoreHsalsa20_eq, whole]
  simp only [Nat.mul_zero, Nat.zero_add] at start
  simp only [xsalsa20, key]
  exact start

theorem cryptoStream_eq (d : Nat) (n : Region 24) (k : Region 32) :
    cryptoStream d n.bytes k.bytes = (List.range d).map (xsalsa20 k.bytes n.bytes) := by
  rw [cryptoStream, cryptoStreamXor_eq]
  apply List.ext_getElem
  · rw [List.length_mapIdx, List.length_replicate, List.length_map, List.length_range]
  · intro i inside inside'
    simp only [List.getElem_mapIdx, List.getElem_replicate, List.getElem_map, List.getElem_range, UInt8.zero_xor]

/-- `crypto_stream_xor` and `crypto_stream` are XSalsa20, at every length. -/
theorem cryptoStream_xsalsa20 (n : Region 24) (k : Region 32) :
    (∀ m, cryptoStreamXor m n.bytes k.bytes = m.mapIdx fun i b => b ^^^ xsalsa20 k.bytes n.bytes i) ∧
      ∀ d, cryptoStream d n.bytes k.bytes = (List.range d).map (xsalsa20 k.bytes n.bytes) :=
  ⟨fun m => cryptoStreamXor_eq m n k, fun d => cryptoStream_eq d n k⟩

end Roman.TweetNacl
