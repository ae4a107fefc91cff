import Roman.Record
import Roman.HttpServer.Helpers

/-! # The strict decoder accepts exactly what the encoder writes

Both functions are first brought to arithmetic on sextets: a group of three, two
or one byte is four, three or two values below 64. On sextets the two are
inverse to each other, and each loop is an induction over its own groups.
-/

namespace Roman.Base64

open CMem CStr Roman

theorem b64Value_char : ∀ v < 64, b64Value (base64Char v) = some v := by
  decide +kernel

theorem base64Char_ne_pad : ∀ v < 64, base64Char v ≠ 0x3D := by
  decide +kernel

theorem b64Value_sound {c : UInt8} {v : Nat} (value : b64Value c = some v) :
    v < 64 ∧ c = base64Char v := by
  have table : ∀ i : Fin 256, (b64Value (UInt8.ofFin i)).all
      (fun v => v < 64 && UInt8.ofFin i == base64Char v) = true := by decide +kernel
  have entry := table c.toFin
  rw [UInt8.ofFin_toFin, value] at entry
  simpa using entry

private theorem or_eq_add (a : Nat) {b i : Nat} (small : b < 2 ^ i) :
    (2 ^ i * a) ||| b = 2 ^ i * a + b :=
  (Nat.two_pow_add_eq_or_of_lt small a).symm

private theorem triple_eq {v0 v1 v2 v3 : Nat} (h1 : v1 < 64) (h2 : v2 < 64) (h3 : v3 < 64) :
    (v0 <<< 18) ||| (v1 <<< 12) ||| (v2 <<< 6) ||| v3 =
      v0 * 262144 + v1 * 4096 + v2 * 64 + v3 := by
  simp only [Nat.shiftLeft_eq]
  have first : v0 * 2 ^ 18 ||| v1 * 2 ^ 12 = 2 ^ 12 * (v0 * 64 + v1) := by
    have := or_eq_add v0 (b := v1 * 2 ^ 12) (i := 18) (by omega)
    rw [Nat.mul_comm v0, this]
    omega
  have second : 2 ^ 12 * (v0 * 64 + v1) ||| v2 * 2 ^ 6 = 2 ^ 6 * (v0 * 4096 + v1 * 64 + v2) := by
    rw [or_eq_add (v0 * 64 + v1) (by omega)]
    omega
  rw [first, second, or_eq_add _ (by omega)]
  omega

private theorem group_eq (x y z : UInt8) :
    (x.toNat <<< 16) ||| (y.toNat <<< 8) ||| z.toNat =
      x.toNat * 65536 + y.toNat * 256 + z.toNat := by
  have hy := y.toNat_lt
  have hz := z.toNat_lt
  simp only [Nat.shiftLeft_eq]
  have first : x.toNat * 2 ^ 16 ||| y.toNat * 2 ^ 8 = 2 ^ 8 * (x.toNat * 256 + y.toNat) := by
    rw [Nat.mul_comm x.toNat, or_eq_add x.toNat (by omega)]
    omega
  rw [first, or_eq_add _ (by omega)]
  omega

private theorem low_sextet (b : Nat) : b &&& 0x3F = b % 64 :=
  Nat.and_two_pow_sub_one_eq_mod b 6

theorem base64Encode_three (x y z : UInt8) (rest : Bytes) :
    base64Encode (x :: y :: z :: rest) =
      base64Char (x.toNat / 4) :: base64Char (x.toNat % 4 * 16 + y.toNat / 16) ::
        base64Char (y.toNat % 16 * 4 + z.toNat / 64) :: base64Char (z.toNat % 64) ::
        base64Encode rest := by
  have hx := x.toNat_lt
  have hy := y.toNat_lt
  have hz := z.toNat_lt
  simp only [base64Encode, group_eq, low_sextet, Nat.shiftRight_eq_div_pow, List.cons_append,
    List.nil_append]
  generalize x.toNat = a, y.toNat = b, z.toNat = c at *
  have e0 : (a * 65536 + b * 256 + c) / 2 ^ 18 % 64 = a / 4 := by omega
  have e1 : (a * 65536 + b * 256 + c) / 2 ^ 12 % 64 = a % 4 * 16 + b / 16 := by omega
  have e2 : (a * 65536 + b * 256 + c) / 2 ^ 6 % 64 = b % 16 * 4 + c / 64 := by omega
  have e3 : (a * 65536 + b * 256 + c) % 64 = c % 64 := by omega
  rw [e0, e1, e2, e3]

theorem base64Encode_two (x y : UInt8) :
    base64Encode [x, y] =
      [base64Char (x.toNat / 4), base64Char (x.toNat % 4 * 16 + y.toNat / 16),
        base64Char (y.toNat % 16 * 4), 0x3D] := by
  have hx := x.toNat_lt
  have hy := y.toNat_lt
  have whole := group_eq x y 0
  rw [show (0 : UInt8).toNat = 0 from rfl, Nat.or_zero] at whole
  simp only [base64Encode, whole, low_sextet, Nat.shiftRight_eq_div_pow]
  generalize x.toNat = a, y.toNat = b at *
  have e0 : (a * 65536 + b * 256 + 0) / 2 ^ 18 % 64 = a / 4 := by omega
  have e1 : (a * 65536 + b * 256 + 0) / 2 ^ 12 % 64 = a % 4 * 16 + b / 16 := by omega
  have e2 : (a * 65536 + b * 256 + 0) / 2 ^ 6 % 64 = b % 16 * 4 := by omega
  rw [e0, e1, e2]

theorem base64Encode_one (x : UInt8) :
    base64Encode [x] = [base64Char (x.toNat / 4), base64Char (x.toNat % 4 * 16), 0x3D, 0x3D] := by
  have hx := x.toNat_lt
  simp only [base64Encode, low_sextet, Nat.shiftLeft_eq, Nat.shiftRight_eq_div_pow]
  generalize x.toNat = a at *
  have e0 : a * 2 ^ 16 / 2 ^ 18 % 64 = a / 4 := by omega
  have e1 : a * 2 ^ 16 / 2 ^ 12 % 64 = a % 4 * 16 := by omega
  rw [e0, e1]

/-- What the inner loop accepts: four values, or in the final quartet three or
    two values followed by padding. -/
inductive Quartet (last : Bool) : Bytes → Nat × List Nat → Prop where
  | full {v0 v1 v2 v3} : v0 < 64 → v1 < 64 → v2 < 64 → v3 < 64 →
      Quartet last [base64Char v0, base64Char v1, base64Char v2, base64Char v3] (0, [v0, v1, v2, v3])
  | padOne {v0 v1 v2} : last = true → v0 < 64 → v1 < 64 → v2 < 64 →
      Quartet last [base64Char v0, base64Char v1, base64Char v2, 0x3D] (1, [v0, v1, v2, 0])
  | padTwo {v0 v1} : last = true → v0 < 64 → v1 < 64 →
      Quartet last [base64Char v0, base64Char v1, 0x3D, 0x3D] (2, [v0, v1, 0, 0])

theorem scan_char {last : Bool} {k v : Nat} {rest : Bytes} (small : v < 64) :
    scanQuartet last k 0 (base64Char v :: rest) =
      (scanQuartet last (k + 1) 0 rest).map fun r => (r.1, v :: r.2) := by
  simp only [scanQuartet, if_neg (base64Char_ne_pad v small), ne_eq, not_true_eq_false, if_false,
    b64Value_char v small]

theorem scan_of_quartet {last : Bool} {cs : Bytes} {r : Nat × List Nat}
    (quartet : Quartet last cs r) : scanQuartet last 0 0 cs = some r := by
  cases quartet with
  | full h0 h1 h2 h3 => rw [scan_char h0, scan_char h1, scan_char h2, scan_char h3]; rfl
  | padOne final h0 h1 h2 =>
      subst final
      rw [scan_char h0, scan_char h1, scan_char h2]
      rfl
  | padTwo final h0 h1 =>
      subst final
      rw [scan_char h0, scan_char h1]
      rfl

/-- A scan that succeeds starts with a value of the alphabet or with a pad. -/
theorem scan_cons {last : Bool} {k pad : Nat} {c : UInt8} {rest : Bytes} {r : Nat × List Nat}
    (scan : scanQuartet last k pad (c :: rest) = some r) :
    (c = 0x3D ∧ 2 ≤ k ∧ last = true ∧
        ∃ r', scanQuartet last (k + 1) (pad + 1) rest = some r' ∧ r = (r'.1, 0 :: r'.2)) ∨
      (pad = 0 ∧ ∃ v < 64, c = base64Char v ∧
        ∃ r', scanQuartet last (k + 1) pad rest = some r' ∧ r = (r'.1, v :: r'.2)) := by
  simp only [scanQuartet] at scan
  split at scan
  · rename_i isPad
    split at scan
    · cases scan
    · rename_i allowed
      obtain ⟨r', tail, eq⟩ := Option.map_eq_some_iff.mp scan
      exact .inl ⟨isPad, by omega, by simpa using (not_or.mp allowed).2, r', tail, eq.symm⟩
  · split at scan
    · cases scan
    · rename_i noPad
      cases value : b64Value c with
      | none => simp [value] at scan
      | some v =>
          simp only [value] at scan
          obtain ⟨small, rfl⟩ := b64Value_sound value
          obtain ⟨r', tail, eq⟩ := Option.map_eq_some_iff.mp scan
          exact .inr ⟨by simpa using noPad, v, small, rfl, r', tail, eq.symm⟩

theorem quartet_of_scan {last : Bool} {c0 c1 c2 c3 : UInt8} {r : Nat × List Nat}
    (scan : scanQuartet last 0 0 [c0, c1, c2, c3] = some r) :
    Quartet last [c0, c1, c2, c3] r := by
  obtain ⟨-, two, -⟩ | ⟨-, v0, h0, rfl, r0, scan1, rfl⟩ := scan_cons scan
  · omega
  obtain ⟨-, two, -⟩ | ⟨-, v1, h1, rfl, r1, scan2, rfl⟩ := scan_cons scan1
  · omega
  obtain ⟨rfl, -, final, r2, scan3, rfl⟩ | ⟨-, v2, h2, rfl, r2, scan3, rfl⟩ := scan_cons scan2
  · -- a pad in the third place: the fourth must be one too
    obtain ⟨rfl, -, -, r3, done, rfl⟩ | ⟨zero, -⟩ := scan_cons scan3
    · cases done
      exact .padTwo final h0 h1
    · omega
  · obtain ⟨rfl, -, final, r3, done, rfl⟩ | ⟨-, v3, h3, rfl, r3, done, rfl⟩ := scan_cons scan3
    · cases done
      exact .padOne final h0 h1 h2
    · cases done
      exact .full h0 h1 h2 h3

private theorem byte_of_sextets {v w : Nat} (small : v < 256) (eq : w % 256 = v) :
    UInt8.ofNat w = UInt8.ofNat v := by
  apply UInt8.toNat_inj.mp
  simp only [UInt8.toNat_ofNat']
  omega

section
variable {n : Nat} (rest : Bytes) (o cap : Nat) (out : Region n)

theorem decode_full {v0 v1 v2 v3 : Nat} (h0 : v0 < 64) (h1 : v1 < 64) (h2 : v2 < 64)
    (h3 : v3 < 64) :
    decodeQuartets (base64Char v0 :: base64Char v1 :: base64Char v2 :: base64Char v3 :: rest)
        o cap out =
      if o + 3 > cap then (none, out)
      else decodeQuartets rest (o + 3) cap (out.store o
        [UInt8.ofNat (v0 * 4 + v1 / 16), UInt8.ofNat (v1 % 16 * 16 + v2 / 4),
          UInt8.ofNat (v2 % 4 * 64 + v3)]) := by
  have e0 := byte_of_sextets (v := v0 * 4 + v1 / 16)
    (w := (v0 * 262144 + v1 * 4096 + v2 * 64 + v3) / 2 ^ 16) (by omega) (by omega)
  have e1 := byte_of_sextets (v := v1 % 16 * 16 + v2 / 4)
    (w := (v0 * 262144 + v1 * 4096 + v2 * 64 + v3) / 2 ^ 8) (by omega) (by omega)
  have e2 := byte_of_sextets (v := v2 % 4 * 64 + v3)
    (w := v0 * 262144 + v1 * 4096 + v2 * 64 + v3) (by omega) (by omega)
  rw [decodeQuartets, scan_of_quartet (.full h0 h1 h2 h3)]
  simp only [List.getD_cons_zero, List.getD_cons_succ, triple_eq h1 h2 h3,
    Nat.shiftRight_eq_div_pow, e0, e1, e2]
  rfl

theorem decode_padOne {v0 v1 v2 : Nat} (h0 : v0 < 64) (h1 : v1 < 64) (h2 : v2 < 64) :
    decodeQuartets [base64Char v0, base64Char v1, base64Char v2, 0x3D] o cap out =
      if v2 % 4 ≠ 0 ∨ o + 2 > cap then (none, out)
      else (some (o + 2), out.store o
        [UInt8.ofNat (v0 * 4 + v1 / 16), UInt8.ofNat (v1 % 16 * 16 + v2 / 4)]) := by
  have e0 := byte_of_sextets (v := v0 * 4 + v1 / 16)
    (w := (v0 * 262144 + v1 * 4096 + v2 * 64 + 0) / 2 ^ 16) (by omega) (by omega)
  have e1 := byte_of_sextets (v := v1 % 16 * 16 + v2 / 4)
    (w := (v0 * 262144 + v1 * 4096 + v2 * 64 + 0) / 2 ^ 8) (by omega) (by omega)
  have bits : v2 &&& 0x03 = v2 % 4 := Nat.and_two_pow_sub_one_eq_mod v2 2
  rw [decodeQuartets, List.isEmpty_nil, scan_of_quartet (.padOne rfl h0 h1 h2)]
  simp only [List.getD_cons_zero, List.getD_cons_succ, triple_eq h1 h2 (by omega : 0 < 64),
    Nat.shiftRight_eq_div_pow, e0, e1, bits, true_and]
  by_cases clean : v2 % 4 = 0 <;> by_cases room : o + 2 > cap <;>
    simp [clean, room, decodeQuartets]

theorem decode_padTwo {v0 v1 : Nat} (h0 : v0 < 64) (h1 : v1 < 64) :
    decodeQuartets [base64Char v0, base64Char v1, 0x3D, 0x3D] o cap out =
      if v1 % 16 ≠ 0 ∨ o + 1 > cap then (none, out)
      else (some (o + 1), out.store o [UInt8.ofNat (v0 * 4 + v1 / 16)]) := by
  have e0 := byte_of_sextets (v := v0 * 4 + v1 / 16)
    (w := (v0 * 262144 + v1 * 4096 + 0 * 64 + 0) / 2 ^ 16) (by omega) (by omega)
  have bits : v1 &&& 0x0F = v1 % 16 := Nat.and_two_pow_sub_one_eq_mod v1 4
  rw [decodeQuartets, List.isEmpty_nil, scan_of_quartet (.padTwo rfl h0 h1)]
  simp only [List.getD_cons_zero, List.getD_cons_succ,
    triple_eq h1 (by omega : 0 < 64) (by omega : 0 < 64), Nat.shiftRight_eq_div_pow, e0, bits]
  by_cases clean : v1 % 16 = 0 <;> by_cases room : o + 1 > cap <;>
    simp [clean, room, decodeQuartets]

end

private theorem toNat_byte {v : Nat} (small : v < 256) : (UInt8.ofNat v).toNat = v := by
  simp only [UInt8.toNat_ofNat']
  omega

theorem encode_full {v0 v1 v2 v3 : Nat} (h0 : v0 < 64) (h1 : v1 < 64) (h2 : v2 < 64)
    (h3 : v3 < 64) (rest : Bytes) :
    base64Encode (UInt8.ofNat (v0 * 4 + v1 / 16) :: UInt8.ofNat (v1 % 16 * 16 + v2 / 4) ::
        UInt8.ofNat (v2 % 4 * 64 + v3) :: rest) =
      base64Char v0 :: base64Char v1 :: base64Char v2 :: base64Char v3 :: base64Encode rest := by
  rw [base64Encode_three, toNat_byte (by omega), toNat_byte (by omega), toNat_byte (by omega),
    show (v0 * 4 + v1 / 16) / 4 = v0 by omega,
    show (v0 * 4 + v1 / 16) % 4 * 16 + (v1 % 16 * 16 + v2 / 4) / 16 = v1 by omega,
    show (v1 % 16 * 16 + v2 / 4) % 16 * 4 + (v2 % 4 * 64 + v3) / 64 = v2 by omega,
    show (v2 % 4 * 64 + v3) % 64 = v3 by omega]

theorem encode_padOne {v0 v1 v2 : Nat} (h0 : v0 < 64) (h1 : v1 < 64) (h2 : v2 < 64)
    (clean : v2 % 4 = 0) :
    base64Encode [UInt8.ofNat (v0 * 4 + v1 / 16), UInt8.ofNat (v1 % 16 * 16 + v2 / 4)] =
      [base64Char v0, base64Char v1, base64Char v2, 0x3D] := by
  rw [base64Encode_two, toNat_byte (by omega), toNat_byte (by omega),
    show (v0 * 4 + v1 / 16) / 4 = v0 by omega,
    show (v0 * 4 + v1 / 16) % 4 * 16 + (v1 % 16 * 16 + v2 / 4) / 16 = v1 by omega,
    show (v1 % 16 * 16 + v2 / 4) % 16 * 4 = v2 by omega]

theorem encode_padTwo {v0 v1 : Nat} (h0 : v0 < 64) (h1 : v1 < 64) (clean : v1 % 16 = 0) :
    base64Encode [UInt8.ofNat (v0 * 4 + v1 / 16)] =
      [base64Char v0, base64Char v1, 0x3D, 0x3D] := by
  rw [base64Encode_one, toNat_byte (by omega),
    show (v0 * 4 + v1 / 16) / 4 = v0 by omega,
    show (v0 * 4 + v1 / 16) % 4 * 16 = v1 by omega]

/-- What the loop accepts from offset `o` on is an encoding, and its bytes are in `out`. -/
theorem decodeQuartets_sound {n : Nat} : ∀ (s : Bytes) (o cap : Nat) (out : Region n) (m : Nat),
    s.length % 4 = 0 → o ≤ cap → cap ≤ n → (decodeQuartets s o cap out).1 = some m →
    ∃ b, s = base64Encode b ∧ m = o + b.length ∧ m ≤ cap ∧
      (decodeQuartets s o cap out).2 = out.store o b
  | [], o, cap, out, m, _, le, _, accepted => by
      simp only [decodeQuartets, Option.some.injEq] at accepted ⊢
      exact ⟨[], rfl, by simp [accepted], by omega, by simp⟩
  | c0 :: c1 :: c2 :: c3 :: rest, o, cap, out, m, quartets, le, room, accepted => by
      cases scan : scanQuartet rest.isEmpty 0 0 [c0, c1, c2, c3] with
      | none => simp [decodeQuartets, scan] at accepted
      | some r =>
          cases quartet_of_scan scan with
          | @full v0 v1 v2 v3 h0 h1 h2 h3 =>
              rw [decode_full rest o cap out h0 h1 h2 h3] at accepted ⊢
              split at accepted
              · cases accepted
              · rename_i fits
                rw [if_neg fits]
                simp only [List.length_cons] at quartets
                obtain ⟨b, rfl, rfl, bound, stored⟩ := decodeQuartets_sound rest _ cap _ m
                  (by omega) (by omega) room accepted
                refine ⟨_, (encode_full h0 h1 h2 h3 b).symm, ?_, bound, ?_⟩
                · simp only [List.length_cons]
                  omega
                · rw [stored]
                  exact Region.store_store out o [_, _, _] b
                    (by simp only [List.length_cons, List.length_nil]; omega)
          | @padOne v0 v1 v2 final h0 h1 h2 =>
              obtain rfl := List.isEmpty_iff.mp final
              rw [decode_padOne o cap out h0 h1 h2] at accepted ⊢
              split at accepted
              · cases accepted
              · rename_i fits
                rw [if_neg fits]
                cases accepted
                have clean : v2 % 4 = 0 := by simpa using (not_or.mp fits).1
                exact ⟨_, (encode_padOne h0 h1 h2 clean).symm, rfl, by omega, rfl⟩
          | @padTwo v0 v1 final h0 h1 =>
              obtain rfl := List.isEmpty_iff.mp final
              rw [decode_padTwo o cap out h0 h1] at accepted ⊢
              split at accepted
              · cases accepted
              · rename_i fits
                rw [if_neg fits]
                cases accepted
                have clean : v1 % 16 = 0 := by simpa using (not_or.mp fits).1
                exact ⟨_, (encode_padTwo h0 h1 clean).symm, rfl, by omega, rfl⟩
  | [_], _, _, _, _, quartets, _, _, _ => by simp at quartets
  | [_, _], _, _, _, _, quartets, _, _, _ => by simp at quartets
  | [_, _, _], _, _, _, _, quartets, _, _, _ => by simp at quartets

private theorem ofNat_toNat_eq {v : Nat} {x : UInt8} (eq : v = x.toNat) : UInt8.ofNat v = x := by
  rw [eq, UInt8.ofNat_toNat]

/-- An encoding that fits is decoded to the bytes it was made from. -/
theorem decodeQuartets_encode {n : Nat} (b : Bytes) (o cap : Nat) (out : Region n)
    (fits : o + b.length ≤ cap) (room : cap ≤ n) :
    decodeQuartets (base64Encode b) o cap out = (some (o + b.length), out.store o b) := by
  induction b using base64Encode.induct generalizing o out with
  | case1 => simp [base64Encode, decodeQuartets]
  | case2 x =>
      have hx := x.toNat_lt
      simp only [List.length_singleton] at fits
      rw [base64Encode_one, decode_padTwo _ _ _ (by omega) (by omega), if_neg (by omega),
        ofNat_toNat_eq (x := x) (by omega)]
      rfl
  | case3 x y =>
      have hx := x.toNat_lt
      have hy := y.toNat_lt
      simp only [List.length_cons, List.length_nil] at fits
      rw [base64Encode_two, decode_padOne _ _ _ (by omega) (by omega) (by omega), if_neg (by omega),
        ofNat_toNat_eq (x := x) (by omega), ofNat_toNat_eq (x := y) (by omega)]
      rfl
  | case4 x y z rest ih =>
      have hx := x.toNat_lt
      have hy := y.toNat_lt
      have hz := z.toNat_lt
      simp only [List.length_cons] at fits
      rw [base64Encode_three, decode_full _ _ _ _ (by omega) (by omega) (by omega) (by omega),
        if_neg (by omega), ofNat_toNat_eq (x := x) (by omega), ofNat_toNat_eq (x := y) (by omega),
        ofNat_toNat_eq (x := z) (by omega), ih _ _ (by omega)]
      congr 1
      · simp only [List.length_cons, Option.some.injEq]
        omega
      · exact Region.store_store out o [x, y, z] rest
          (by simp only [List.length_cons, List.length_nil]; omega)

/-- Nothing at or past `cap` is written, whether or not the string is accepted. -/
theorem decodeQuartets_frame {n : Nat} : ∀ (s : Bytes) (o cap : Nat) (out : Region n) (len : Nat),
    o ≤ cap → cap ≤ n → (decodeQuartets s o cap out).2.load cap len = out.load cap len
  | [], _, _, _, _, _, _ => rfl
  | [_], _, _, _, _, _, _ => rfl
  | [_, _], _, _, _, _, _, _ => rfl
  | [_, _, _], _, _, _, _, _, _ => rfl
  | c0 :: c1 :: c2 :: c3 :: rest, o, cap, out, len, le, room => by
      rw [decodeQuartets]
      split
      · rfl
      · split
        · rfl
        · split
          · rfl
          · dsimp only
            split
            · rfl
            · rename_i fits
              rw [decodeQuartets_frame rest _ cap _ len (by omega) room,
                Region.load_store_apart _ _ _ (by simp only [List.length_take]; omega)
                  (.inr (by simp only [List.length_take]; omega))]

theorem base64Encode_length (b : Bytes) : (base64Encode b).length = (b.length + 2) / 3 * 4 := by
  induction b using base64Encode.induct with
  | case1 => rfl
  | case2 x => simp [base64Encode]
  | case3 x y => simp [base64Encode]
  | case4 x y z rest ih =>
      rw [base64Encode_three]
      simp only [List.length_cons, ih]
      omega

theorem base64Encode_eq_nil_iff {b : Bytes} : base64Encode b = [] ↔ b = [] := by
  cases b using base64Encode.induct with
  | case1 => simp [base64Encode]
  | case2 x => simp [base64Encode]
  | case3 x y => simp [base64Encode]
  | case4 x y z rest => simp [base64Encode_three]

section
variable {n : Nat} {s : Bytes} {cap : Nat} {out : Region n}

theorem recordB64Decode_sound {m : Nat} (room : cap ≤ n)
    (accepted : (recordB64Decode s out cap).1 = some m) :
    ∃ b, b ≠ [] ∧ s = base64Encode b ∧ m = b.length ∧ m ≤ cap ∧
      (recordB64Decode s out cap).2 = out.store 0 b := by
  simp only [recordB64Decode] at accepted ⊢
  split at accepted
  · cases accepted
  · rename_i shape
    rw [if_neg shape]
    obtain ⟨b, rfl, rfl, bound, stored⟩ :=
      decodeQuartets_sound s 0 cap out m (by omega) (Nat.zero_le _) room accepted
    refine ⟨b, ?_, rfl, by omega, bound, stored⟩
    rintro rfl
    exact shape (.inl rfl)

theorem recordB64Decode_encode {b : Bytes} (nonempty : b ≠ []) (fits : b.length ≤ cap)
    (room : cap ≤ n) :
    recordB64Decode (base64Encode b) out cap = (some b.length, out.store 0 b) := by
  have shape : ¬ ((base64Encode b).length = 0 ∨ (base64Encode b).length % 4 ≠ 0) := by
    have := base64Encode_length b
    have : base64Encode b ≠ [] := fun eq => nonempty (base64Encode_eq_nil_iff.mp eq)
    have := List.length_pos_iff.mpr this
    omega
  rw [recordB64Decode, if_neg shape, decodeQuartets_encode b 0 cap out (by omega) room, Nat.zero_add]

theorem recordB64Decode_frame (len : Nat) (room : cap ≤ n) :
    (recordB64Decode s out cap).2.load cap len = out.load cap len := by
  rw [recordB64Decode]
  split
  · rfl
  · exact decodeQuartets_frame s 0 cap out len (Nat.zero_le _) room

end

/-- Two byte strings with the same encoding are the same. -/
theorem base64Encode_injective {b b' : Bytes} (same : base64Encode b = base64Encode b') :
    b = b' := by
  let cap := max b.length b'.length
  let out := Region.fill cap 0
  have first := decodeQuartets_encode b 0 cap out (by omega) (Nat.le_refl cap)
  have second := decodeQuartets_encode b' 0 cap out (by omega) (Nat.le_refl cap)
  rw [same, second, Nat.zero_add, Nat.zero_add, Prod.mk.injEq, Option.some.injEq] at first
  obtain ⟨sizes, stored⟩ := first
  have loads := congrArg (fun r => Region.load r 0 b.length) stored
  simp only [Region.load_store_of_eq _ sizes (by omega : 0 + b.length ≤ cap),
    Region.load_store_of_eq _ rfl (by omega : 0 + b.length ≤ cap)] at loads
  exact loads.symm

/-- `record_b64_decode` accepts the encodings of what fits in `cap` and nothing
    else, writes the bytes back, and stays below `cap` whatever it is given. -/
theorem recordB64Decode_inverse (s : Bytes) (cap extra : Nat) (out : Region (cap + extra)) :
    (∀ m, (recordB64Decode s out cap).1 = some m ↔
      ∃ b, 1 ≤ b.length ∧ b.length = m ∧ m ≤ cap ∧ s = base64Encode b) ∧
    (∀ b m, s = base64Encode b → (recordB64Decode s out cap).1 = some m →
      (recordB64Decode s out cap).2.load 0 m = b) ∧
    (recordB64Decode s out cap).2.load cap extra = out.load cap extra ∧
    (∀ b, b ≠ [] → b.length ≤ cap →
      recordB64Decode (base64Encode b) out cap = (some b.length, out.store 0 b)) ∧
    (∀ s' m, (recordB64Decode s out cap).1 = some m → (recordB64Decode s' out cap).1 = some m →
      (recordB64Decode s out cap).2.load 0 m = (recordB64Decode s' out cap).2.load 0 m →
      s = s') := by
  have room : cap ≤ cap + extra := Nat.le_add_right cap extra
  have stored : ∀ b t m, t = base64Encode b → (recordB64Decode t out cap).1 = some m →
      (recordB64Decode t out cap).2.load 0 m = b := by
    intro b t m encodes accepted
    obtain ⟨b', -, encodes', rfl, bound, region⟩ := recordB64Decode_sound room accepted
    obtain rfl := base64Encode_injective (encodes.symm.trans encodes')
    rw [region]
    exact Region.load_store out 0 b (by omega)
  refine ⟨fun m => ⟨fun accepted => ?_, ?_⟩, fun b m => stored b s m,
    recordB64Decode_frame extra room, fun b nonempty fits =>
      recordB64Decode_encode nonempty fits room, fun s' m accepted accepted' same => ?_⟩
  · obtain ⟨b, nonempty, encodes, rfl, bound, -⟩ := recordB64Decode_sound room accepted
    exact ⟨b, List.length_pos_iff.mpr nonempty, rfl, bound, encodes⟩
  · rintro ⟨b, nonempty, rfl, bound, rfl⟩
    rw [recordB64Decode_encode (List.length_pos_iff.mp nonempty) bound room]
  · obtain ⟨b, -, encodes, -⟩ := recordB64Decode_sound room accepted
    obtain ⟨b', -, encodes', -⟩ := recordB64Decode_sound room accepted'
    rw [stored b s m encodes accepted, stored b' s' m encodes' accepted'] at same
    rw [encodes, encodes', same]

end Roman.Base64
