import Roman.Record

/-! # What the record codec means

A `Record` is a key pair and a valid device id; its `payload` is the one byte
string that stands for it. The encoder writes payloads of records. The decoder
reads every payload back, and besides them only the byte strings with a NUL
inside the id field, whose tail it does not see.
-/

namespace Roman

open CMem CStr

structure Record where
  pk : Region 32
  sk : Region 64
  deviceId : Bytes
  valid : recordDeviceIdValid deviceId = true

theorem recordDeviceIdValid_iff {deviceId : Bytes} :
    recordDeviceIdValid deviceId = true ↔
      1 ≤ deviceId.length ∧ deviceId.length ≤ RECORD_MAX_DEVICE_ID ∧
        deviceId.all deviceIdChar = true := by
  simp only [recordDeviceIdValid]
  split
  · simp only [Bool.false_eq_true, false_iff]
    omega
  · constructor
    · exact fun chars => ⟨by omega, by omega, chars⟩
    · exact fun valid => valid.2.2

theorem recordDeviceIdValid_nulFree {deviceId : Bytes} (valid : recordDeviceIdValid deviceId = true) :
    NulFree deviceId := by
  intro b member zero
  have char := List.all_eq_true.mp (recordDeviceIdValid_iff.mp valid).2.2 b member
  rw [zero] at char
  exact absurd char (by decide)

namespace Record

theorem deviceId_nulFree (r : Record) : NulFree r.deviceId :=
  recordDeviceIdValid_nulFree r.valid

theorem deviceId_pos (r : Record) : 1 ≤ r.deviceId.length :=
  (recordDeviceIdValid_iff.mp r.valid).1

theorem deviceId_le (r : Record) : r.deviceId.length ≤ RECORD_MAX_DEVICE_ID :=
  (recordDeviceIdValid_iff.mp r.valid).2.1

def payload (r : Record) : Bytes :=
  RECORD_FORMAT_VERSION :: UInt8.ofNat r.deviceId.length ::
    (r.pk.bytes ++ (r.sk.bytes ++ r.deviceId))

@[simp] theorem payload_length (r : Record) :
    r.payload.length = RECORD_FIXED_LEN + r.deviceId.length := by
  simp only [payload, List.length_cons, List.length_append, r.pk.size, r.sk.size, RECORD_FIXED_LEN]
  omega

theorem payload_le (r : Record) : r.payload.length ≤ RECORD_MAX := by
  have := r.deviceId_le
  simp only [payload_length, RECORD_MAX]
  omega

theorem payload_pos (r : Record) : 0 < r.payload.length := by
  rw [payload_length, RECORD_FIXED_LEN]
  omega

theorem payload_small (r : Record) : r.payload.length ≤ 232 :=
  Nat.le_trans r.payload_le (by decide)

/-- The length byte is the length: an id has at most 32 characters. -/
theorem lengthByte_toNat (r : Record) :
    (UInt8.ofNat r.deviceId.length).toNat = r.deviceId.length := by
  have := r.deviceId_le
  simp only [RECORD_MAX_DEVICE_ID] at this
  simp only [UInt8.toNat_ofNat']
  omega

theorem payload_pk (r : Record) : (r.payload.drop 2).take 32 = r.pk.bytes := by
  have size := r.pk.size
  simp only [payload, List.drop_succ_cons, List.drop_zero]
  exact List.take_left' size

theorem payload_sk (r : Record) : (r.payload.drop 34).take 64 = r.sk.bytes := by
  have size := r.pk.size
  have skip : r.payload.drop 34 = r.sk.bytes ++ r.deviceId := by
    simp only [payload, List.drop_succ_cons]
    exact List.drop_left' size
  rw [skip]
  exact List.take_left' r.sk.size

theorem payload_deviceId (r : Record) : r.payload.drop RECORD_FIXED_LEN = r.deviceId := by
  have size : (r.pk.bytes ++ r.sk.bytes).length = 96 := by
    rw [List.length_append, r.pk.size, r.sk.size]
  simp only [payload, RECORD_FIXED_LEN, List.drop_succ_cons, ← List.append_assoc]
  exact List.drop_left' size

end Record

/-- The five stores of the encoder are one store of the payload. -/
theorem recordEncode_record {n cap : Nat} (r : Record) (dst : Region n)
    (fits : r.payload.length ≤ cap) (room : cap ≤ n) :
    recordEncode dst cap r.pk r.sk r.deviceId = (r.payload.length, dst.store 0 r.payload) := by
  have small := r.payload_le
  have pkSize := r.pk.size
  have skSize := r.sk.size
  rw [r.payload_length] at fits small
  simp only [recordEncode, r.valid, Bool.true_eq_false, if_false]
  rw [if_neg (by omega), r.payload_length]
  congr 1
  simp only [RECORD_FIXED_LEN] at fits
  have header := Region.store_store dst 0 [RECORD_FORMAT_VERSION] [UInt8.ofNat r.deviceId.length]
    (by simp only [List.length_cons, List.length_nil]; omega)
  have keys := Region.store_store dst 0 [RECORD_FORMAT_VERSION, UInt8.ofNat r.deviceId.length]
    r.pk.bytes (by simp only [List.length_cons, List.length_nil]; omega)
  have secret := Region.store_store dst 0
    (RECORD_FORMAT_VERSION :: UInt8.ofNat r.deviceId.length :: r.pk.bytes) r.sk.bytes
    (by simp only [List.length_cons]; omega)
  have name := Region.store_store dst 0
    (RECORD_FORMAT_VERSION :: UInt8.ofNat r.deviceId.length :: (r.pk.bytes ++ r.sk.bytes))
    r.deviceId (by simp only [List.length_cons, List.length_append]; omega)
  simp only [List.length_cons, List.length_nil, List.length_append, pkSize, skSize, Nat.zero_add,
    Nat.reduceAdd, List.cons_append, List.nil_append, List.append_assoc] at header keys secret name
  rw [header, keys, secret, RECORD_FIXED_LEN, name, Record.payload]

/-- Whatever the encoder accepts is a record that fits. -/
theorem recordEncode_pos {n cap : Nat} {dst : Region n} {pk : Region 32} {sk : Region 64}
    {deviceId : Bytes} (pos : 0 < (recordEncode dst cap pk sk deviceId).1) :
    recordDeviceIdValid deviceId = true ∧ RECORD_FIXED_LEN + deviceId.length ≤ cap := by
  simp only [recordEncode] at pos
  split at pos
  · omega
  · rename_i valid
    split at pos
    · omega
    · exact ⟨by simpa using valid, by omega⟩

/-- The id field of a payload: as many bytes as its length byte says. -/
def idField (src : Bytes) : Bytes :=
  (src.drop RECORD_FIXED_LEN).take (src.getD 1 0).toNat

/-- What `record_decode` checks. The id is looked at as a C string. -/
structure WellFormed (src : Bytes) : Prop where
  version : src.getD 0 0 = RECORD_FORMAT_VERSION
  idLen : 1 ≤ (src.getD 1 0).toNat ∧ (src.getD 1 0).toNat ≤ RECORD_MAX_DEVICE_ID
  length : src.length = RECORD_FIXED_LEN + (src.getD 1 0).toNat
  id : recordDeviceIdValid (content (idField src)) = true

theorem wellFormed_iff {src : Bytes} : WellFormed src ↔
    src.getD 0 0 = RECORD_FORMAT_VERSION ∧
      (1 ≤ (src.getD 1 0).toNat ∧ (src.getD 1 0).toNat ≤ RECORD_MAX_DEVICE_ID) ∧
      src.length = RECORD_FIXED_LEN + (src.getD 1 0).toNat ∧
      recordDeviceIdValid (content (idField src)) = true :=
  ⟨fun h => ⟨h.version, h.idLen, h.length, h.id⟩, fun ⟨v, i, l, d⟩ => ⟨v, i, l, d⟩⟩

instance (src : Bytes) : Decidable (WellFormed src) := decidable_of_iff _ wellFormed_iff.symm

/-- The record a payload stands for. -/
def decoded (src : Bytes) : Option Record :=
  if h : WellFormed src then
    some {
      pk := ⟨(src.drop 2).take 32, by
        have := h.length
        simp only [List.length_take, List.length_drop, RECORD_FIXED_LEN] at this ⊢
        omega⟩
      sk := ⟨(src.drop 34).take 64, by
        have := h.length
        simp only [List.length_take, List.length_drop, RECORD_FIXED_LEN] at this ⊢
        omega⟩
      deviceId := content (idField src)
      valid := h.id }
  else none

theorem wellFormed_of_decoded {src : Bytes} {r : Record} (eq : decoded src = some r) :
    WellFormed src := by
  simp only [decoded] at eq
  split at eq
  · assumption
  · cases eq

theorem decoded_deviceId {src : Bytes} {r : Record} (eq : decoded src = some r) :
    r.deviceId = content (idField src) := by
  simp only [decoded, dif_pos (wellFormed_of_decoded eq), Option.some.injEq] at eq
  rw [← eq]

theorem idField_length {src : Bytes} (well : WellFormed src) :
    (idField src).length = (src.getD 1 0).toNat := by
  have := well.length
  simp only [idField, List.length_take, List.length_drop]
  omega

/-- The outputs once the keys are copied. -/
def DecodeOut.copied {n : Nat} (out : DecodeOut n) (r : Record) : DecodeOut n where
  pk := out.pk.map fun _ => r.pk
  sk := out.sk.map fun _ => r.sk
  deviceId := out.deviceId

theorem decoded_keys {src : Bytes} {r : Record} (eq : decoded src = some r) :
    r.pk.bytes = (src.drop 2).take 32 ∧ r.sk.bytes = (src.drop 34).take 64 := by
  have well := wellFormed_of_decoded eq
  simp only [decoded, dif_pos well, Option.some.injEq] at eq
  subst eq
  exact ⟨rfl, rfl⟩

/-- Copying a key over an array of its size leaves the key. -/
theorem store_key {k : Nat} {key : Region k} {text : Bytes} (eq : key.bytes = text) (r : Region k) :
    r.store 0 text = key := by
  ext1
  rw [Region.store_whole r text (by rw [← eq]; exact key.size), eq]

/-- With any outputs: the payload decides first, then the room for the id. -/
theorem recordDecode_spec {n : Nat} (src : Bytes) (out : DecodeOut n) (deviceIdCap : Nat) :
    recordDecode src out deviceIdCap =
      match decoded src with
      | none => (false, out)
      | some r =>
          match out.deviceId with
          | none => (true, out.copied r)
          | some deviceId =>
              if deviceIdCap < (idField src).length + 1 then (false, out.copied r)
              else (true, { out.copied r with deviceId := some (deviceId.store 0 (idField src ++ [0])) }) := by
  have name : content ((src.drop RECORD_FIXED_LEN).take (src.getD 1 0).toNat ++ [0]) = content (idField src) :=
    content_append_zero _ []
  cases eq : decoded src with
  | some r =>
      have well := wellFormed_of_decoded eq
      obtain ⟨pk, sk⟩ := decoded_keys eq
      have fieldLength := idField_length well
      obtain ⟨version, idLen, length, valid⟩ := well
      unfold recordDecode
      dsimp only
      rw [if_neg (by simp only [RECORD_MAX]; omega), if_neg (not_not.mpr version), if_neg (by omega),
        if_neg (not_not.mpr length), name, valid, if_neg (by decide)]
      simp only [store_key pk, store_key sk, fieldLength]
      rfl
  | none =>
      have ill : ¬ WellFormed src := by
        intro well
        rw [decoded, dif_pos well] at eq
        cases eq
      unfold recordDecode
      dsimp only
      split
      · rfl
      rename_i size
      split
      · rfl
      rename_i version
      split
      · rfl
      rename_i idLen
      split
      · rfl
      rename_i length
      rw [name]
      split
      · rfl
      rename_i valid
      exact absurd ⟨not_not.mp version, by omega, not_not.mp length, by simpa using valid⟩ ill

/-- `record_decode` into the three arrays of its callers: there is room for every id. -/
theorem recordDecode_eq (src : Bytes) (pk : Region 32) (sk : Region 64)
    (id : Region (RECORD_MAX_DEVICE_ID + 1)) :
    recordDecode src ⟨some pk, some sk, some id⟩ (RECORD_MAX_DEVICE_ID + 1) =
      match decoded src with
      | none => (false, ⟨some pk, some sk, some id⟩)
      | some r => (true, ⟨some r.pk, some r.sk, some (id.store 0 (idField src ++ [0]))⟩) := by
  rw [recordDecode_spec]
  cases eq : decoded src with
  | none => rfl
  | some r =>
      have well := wellFormed_of_decoded eq
      have fits : (idField src).length ≤ RECORD_MAX_DEVICE_ID := by
        rw [idField_length well]
        exact well.idLen.2
      dsimp only
      rw [if_neg (by omega)]
      rfl

/-- The id array holds the id of the record, as a C string. -/
theorem cstr_store_idField {src : Bytes} {r : Record} (eq : decoded src = some r)
    (id : Region (RECORD_MAX_DEVICE_ID + 1)) :
    (id.store 0 (idField src ++ [0])).cstr = r.deviceId := by
  have well := wellFormed_of_decoded eq
  have bound := well.idLen.2
  rw [Region.cstr_store_content id (by rw [idField_length well]; omega), decoded_deviceId eq]

theorem decoded_payload (r : Record) : decoded r.payload = some r := by
  have lengthByte : (r.payload.getD 1 0).toNat = r.deviceId.length := r.lengthByte_toNat
  have field : idField r.payload = r.deviceId := by
    rw [idField, lengthByte, r.payload_deviceId, List.take_length]
  have name : content (idField r.payload) = r.deviceId := by
    rw [field, content_of_nulFree r.deviceId_nulFree]
  have well : WellFormed r.payload :=
    ⟨rfl, by rw [lengthByte]; exact ⟨r.deviceId_pos, r.deviceId_le⟩,
      by rw [lengthByte, r.payload_length], by rw [name]; exact r.valid⟩
  simp only [decoded, dif_pos well, r.payload_pk, r.payload_sk, name]

/-- Without a NUL in its id field, a payload that is accepted is the one the
    encoder writes for the record read from it. -/
theorem payload_of_decoded {src : Bytes} {r : Record} (eq : decoded src = some r)
    (free : (0 : UInt8) ∉ idField src) : r.payload = src := by
  have well := wellFormed_of_decoded eq
  have length := well.length
  have whole : content (idField src) = idField src :=
    content_of_nulFree fun b member zero => free (zero ▸ member)
  have field : idField src = src.drop RECORD_FIXED_LEN := by
    refine List.take_of_length_le ?_
    simp only [List.length_drop]
    omega
  have bytes : UInt8.ofNat (idField src).length = src.getD 1 0 := by
    rw [idField_length well, UInt8.ofNat_toNat]
  simp only [decoded, dif_pos well, Option.some.injEq] at eq
  rw [← eq]
  simp only [Record.payload, whole, bytes, ← well.version]
  rw [field]
  cases src with
  | nil => simp [RECORD_FIXED_LEN] at length
  | cons b0 src =>
      cases src with
      | nil => simp [RECORD_FIXED_LEN] at length
      | cons b1 rest =>
          simp only [List.getD_cons_zero, List.getD_cons_succ, List.drop_succ_cons, List.drop_zero,
            RECORD_FIXED_LEN, List.cons.injEq, true_and]
          have split := List.take_append_drop 64 (rest.drop 32)
          rw [List.drop_drop] at split
          rw [split, List.take_append_drop]

/-- `record_decode` of `src` into a caller's arrays returns true and leaves the triple in them. -/
def Decodes (src : Bytes) (into : Region 32 × Region 64 × Region (RECORD_MAX_DEVICE_ID + 1))
    (pk : Region 32) (sk : Region 64) (deviceId : Bytes) : Prop :=
  ∃ buf : Region (RECORD_MAX_DEVICE_ID + 1),
    recordDecode src ⟨some into.1, some into.2.1, some into.2.2⟩ (RECORD_MAX_DEVICE_ID + 1) =
      (true, ⟨some pk, some sk, some buf⟩) ∧ buf.cstr = deviceId

/-- `record_encode` of the triple produces exactly `src`. -/
def Encodes (dst : Region RECORD_MAX) (pk : Region 32) (sk : Region 64) (deviceId src : Bytes) :
    Prop :=
  0 < (recordEncode dst RECORD_MAX pk sk deviceId).1 ∧
    (recordEncode dst RECORD_MAX pk sk deviceId).2.load 0
      (recordEncode dst RECORD_MAX pk sk deviceId).1 = src

/-- A payload whose id field goes on behind a NUL: the decoder validates only
    `name`, the length byte counts all of it. -/
def NulInId (src : Bytes) : Prop :=
  ∃ head name tail : Bytes, src = head ++ name ++ 0 :: tail ∧ head.length = RECORD_FIXED_LEN ∧
    head.getD 0 0 = RECORD_FORMAT_VERSION ∧
    (head.getD 1 0).toNat = name.length + 1 + tail.length ∧
    name.length + 1 + tail.length ≤ RECORD_MAX_DEVICE_ID ∧ recordDeviceIdValid name = true

theorem decodes_iff {src deviceId : Bytes} {pk : Region 32} {sk : Region 64}
    (into : Region 32 × Region 64 × Region (RECORD_MAX_DEVICE_ID + 1)) :
    Decodes src into pk sk deviceId ↔
      ∃ r, decoded src = some r ∧ pk = r.pk ∧ sk = r.sk ∧ deviceId = r.deviceId := by
  simp only [Decodes, recordDecode_eq]
  cases read : decoded src with
  | none => simp
  | some r =>
      simp only [Prod.mk.injEq, DecodeOut.mk.injEq, Option.some.injEq, true_and]
      constructor
      · rintro ⟨buf, ⟨rfl, rfl, rfl⟩, rfl⟩
        exact ⟨r, rfl, rfl, rfl, cstr_store_idField read into.2.2⟩
      · rintro ⟨r', rfl, rfl, rfl, rfl⟩
        exact ⟨_, ⟨rfl, rfl, rfl⟩, cstr_store_idField read into.2.2⟩

theorem encodes_iff {src deviceId : Bytes} {pk : Region 32} {sk : Region 64}
    (dst : Region RECORD_MAX) :
    Encodes dst pk sk deviceId src ↔
      ∃ r : Record, r.payload = src ∧ pk = r.pk ∧ sk = r.sk ∧ deviceId = r.deviceId := by
  have image : ∀ r : Record, Encodes dst r.pk r.sk r.deviceId src ↔ r.payload = src := by
    intro r
    simp only [Encodes]
    rw [recordEncode_record r dst r.payload_le (Nat.le_refl _)]
    simp only [Region.load_store dst 0 r.payload (by have := r.payload_le; omega),
      and_iff_right_iff_imp]
    intro _
    rw [r.payload_length, RECORD_FIXED_LEN]
    omega
  constructor
  · intro encodes
    have valid := (recordEncode_pos encodes.1).1
    exact ⟨⟨pk, sk, deviceId, valid⟩, (image ⟨pk, sk, deviceId, valid⟩).mp encodes, rfl, rfl, rfl⟩
  · rintro ⟨r, produced, rfl, rfl, rfl⟩
    exact (image r).mpr produced

/-- The part of a field before its first NUL, and the rest. -/
private theorem split_at_nul {field : Bytes} (nul : (0 : UInt8) ∈ field) :
    ∃ tail, field = content field ++ 0 :: tail := by
  induction field with
  | nil => simp at nul
  | cons b field ih =>
      by_cases zero : b = 0
      · exact ⟨field, by simp [content, zero]⟩
      · obtain ⟨tail, eq⟩ := ih (by simpa [Ne.symm zero] using nul)
        refine ⟨tail, ?_⟩
        rw [show content (b :: field) = b :: content field by simp [content, zero],
          List.cons_append, ← eq]

theorem nulInId_iff {src : Bytes} :
    NulInId src ↔ ∃ r, decoded src = some r ∧ (0 : UInt8) ∈ idField src := by
  constructor
  · rintro ⟨head, name, tail, rfl, size, version, lengthByte, short, valid⟩
    have byte : ∀ i < RECORD_FIXED_LEN, (head ++ name ++ 0 :: tail).getD i 0 = head.getD i 0 := by
      intro i small
      rw [List.append_assoc, List.getD_eq_getElem?_getD, List.getElem?_append_left (by omega),
        ← List.getD_eq_getElem?_getD]
    have first := byte 0 (by decide)
    have second := byte 1 (by decide)
    have field : idField (head ++ name ++ 0 :: tail) = name ++ 0 :: tail := by
      rw [idField, second, lengthByte, List.append_assoc, List.drop_left' size]
      refine List.take_of_length_le ?_
      simp only [List.length_append, List.length_cons]
      omega
    have text : content (idField (head ++ name ++ 0 :: tail)) = name := by
      rw [field, content_append_nul (recordDeviceIdValid_nulFree valid)]
    have well : WellFormed (head ++ name ++ 0 :: tail) := by
      refine ⟨first.trans version, ?_, ?_, by rw [text]; exact valid⟩
      · rw [second, lengthByte]
        omega
      · rw [second, lengthByte]
        simp only [List.length_append, List.length_cons, size]
        omega
    refine ⟨_, dif_pos well, ?_⟩
    rw [field]
    simp
  · rintro ⟨r, eq, nul⟩
    have well := wellFormed_of_decoded eq
    obtain ⟨tail, split⟩ := split_at_nul nul
    have field : idField src = src.drop RECORD_FIXED_LEN := by
      have := well.length
      refine List.take_of_length_le ?_
      simp only [List.length_drop]
      omega
    have long : RECORD_FIXED_LEN ≤ src.length := by
      have := well.length
      omega
    have byte : ∀ i < RECORD_FIXED_LEN, (src.take RECORD_FIXED_LEN).getD i 0 = src.getD i 0 := by
      intro i small
      rw [List.getD_eq_getElem?_getD, List.getElem?_take_of_lt small, ← List.getD_eq_getElem?_getD]
    have sizes := congrArg List.length split
    rw [idField_length well] at sizes
    simp only [List.length_append, List.length_cons] at sizes
    refine ⟨src.take RECORD_FIXED_LEN, content (idField src), tail, ?_, ?_, ?_, ?_, ?_, well.id⟩
    · rw [List.append_assoc, ← split, field, List.take_append_drop]
    · rw [List.length_take, Nat.min_eq_left long]
    · rw [byte 0 (by decide)]
      exact well.version
    · rw [byte 1 (by decide)]
      omega
    · have := well.idLen.2
      omega

/-- The decoder accepts the image of the encoder, except that it also accepts the
    payloads with a NUL inside the id field. -/
theorem recordDecode_iff_recordEncode (src : Bytes)
    (into : Region 32 × Region 64 × Region (RECORD_MAX_DEVICE_ID + 1)) (dst : Region RECORD_MAX) :
    ((∀ pk sk deviceId, Decodes src into pk sk deviceId ↔ Encodes dst pk sk deviceId src) ↔
      ¬ NulInId src) ∧
    (¬ NulInId src → ∀ src', ¬ NulInId src' → ∀ pk sk deviceId,
      Decodes src into pk sk deviceId → Decodes src' into pk sk deviceId → src = src') := by
  simp only [decodes_iff, encodes_iff, nulInId_iff]
  refine ⟨⟨?_, ?_⟩, ?_⟩
  · rintro inverse ⟨r, eq, nul⟩
    obtain ⟨r', payload, -, -, id⟩ := (inverse r.pk r.sk r.deviceId).mp ⟨r, eq, rfl, rfl, rfl⟩
    -- the id field of an encoded record has no NUL
    have field : idField src = r'.deviceId := by
      rw [← payload, idField, show (r'.payload.getD 1 0).toNat = r'.deviceId.length from
        r'.lengthByte_toNat, r'.payload_deviceId, List.take_length]
    rw [field] at nul
    exact r'.deviceId_nulFree 0 nul rfl
  · intro clean pk sk deviceId
    constructor
    · rintro ⟨r, eq, rfl, rfl, rfl⟩
      exact ⟨r, payload_of_decoded eq fun nul => clean ⟨r, eq, nul⟩, rfl, rfl, rfl⟩
    · rintro ⟨r, rfl, rfl, rfl, rfl⟩
      exact ⟨r, decoded_payload r, rfl, rfl, rfl⟩
  · rintro clean src' clean' pk sk deviceId ⟨r, eq, rfl, rfl, rfl⟩ ⟨r', eq', pkEq, skEq, idEq⟩
    have same : r = r' := by
      cases r
      cases r'
      simp_all
    rw [← payload_of_decoded eq fun nul => clean ⟨r, eq, nul⟩,
      ← payload_of_decoded eq' fun nul => clean' ⟨r', eq', nul⟩, same]

/-- The length byte says two, the id is "a" and a NUL: accepted as "a", which
    encodes to a shorter payload. -/
theorem recordDecode_accepts_nul_in_id :
    ¬ ∀ (src : Bytes) (into : Region 32 × Region 64 × Region (RECORD_MAX_DEVICE_ID + 1))
      (dst : Region RECORD_MAX) pk sk deviceId,
      Decodes src into pk sk deviceId ↔ Encodes dst pk sk deviceId src := by
  intro inverse
  let src : Bytes := 1 :: 2 :: List.replicate 96 0 ++ [0x61, 0x00]
  let into := (Region.fill 32 0, Region.fill 64 0, Region.fill (RECORD_MAX_DEVICE_ID + 1) 0)
  let dst := Region.fill RECORD_MAX 0
  have accepted : Decodes src into (Region.fill 32 0) (Region.fill 64 0) [0x61] :=
    ⟨(Region.fill (RECORD_MAX_DEVICE_ID + 1) 0).store 0 [0x61, 0], by decide, by decide⟩
  have produced := (inverse src into dst _ _ _).mp accepted
  exact absurd produced.2 (by decide)

end Roman
