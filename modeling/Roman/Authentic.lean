import Roman.Provisioning

/-! # What storage_read accepts

A region is written as `m` if every part that `storage_write` stages for `m`, the
marker aside, stands at its place. The reader accepts these regions, and besides
them only those that differ in the version byte, which it never looks at.
-/

namespace Roman

open CMem CStr NorFlash TweetNacl

/-- The version byte aside, the region is the record of `m` under its own nonce and keys. -/
structure SealedAs (f : Flash) (m : Bytes) : Prop where
  pos : 1 ≤ m.length
  small : m.length ≤ STORAGE_MAX_PAYLOAD
  magic : read f 0 STORAGE_MAGIC_LEN = STORAGE_MAGIC
  len : (f 4).toNat + 256 * (f 5).toNat + 65536 * (f 6).toNat + 16777216 * (f 7).toNat = m.length
  box : cryptoBox (List.replicate 32 0 ++ m) (storageSectionNonce (read f 0x0C STORAGE_NONCE_LEN) 0)
      (read f 0x24 STORAGE_KEY_LEN) (read f 0x44 STORAGE_KEY_LEN) =
    some (List.replicate 16 0 ++ read f STORAGE_SECTION_OFF (STORAGE_BOX_OVERHEAD + m.length))

/-- The region is the record of `m`. -/
structure WrittenAs (f : Flash) (m : Bytes) : Prop where
  sealed : SealedAs f m
  version : f 8 = STORAGE_FORMAT_VERSION

theorem storedLen_eq (f : Flash) :
    storedLen f =
      (f 4).toNat + 256 * (f 5).toNat + 65536 * (f 6).toNat + 16777216 * (f 7).toNat :=
  ld32_toNat (f 4) (f 5) (f 6) (f 7)

theorem read_one (f : Flash) (a : Nat) (b : UInt8) : read f a 1 = [b] ↔ f a = b := by
  simp [NorFlash.read, List.range_succ]

/-- The length field is the four bytes of the length. -/
theorem read_len_iff {f : Flash} {n : Nat} (small : n < 256) :
    read f 4 4 = st32 (UInt32.ofNat n) ↔ storedLen f = n := by
  constructor
  · intro field
    rw [storedLen, STORAGE_MAGIC_LEN, field]
    exact storedLen_st32 small
  · intro len
    have bytes := storedLen_eq f
    have h4 := (f 4).toNat_lt
    have h5 := (f 5).toNat_lt
    have h6 := (f 6).toNat_lt
    have h7 := (f 7).toNat_lt
    have whole : (UInt32.ofNat n).toNat = n := by
      rw [UInt32.toNat_ofNat']
      omega
    have four : read f 4 4 = [f 4, f 5, f 6, f 7] := rfl
    rw [four, st32]
    simp only [List.cons.injEq, and_true, ← UInt8.toNat_inj, UInt32.toNat_toUInt8,
      UInt32.toNat_shiftRight, UInt32.reduceToNat, whole, Nat.shiftRight_eq_div_pow, Nat.reduceMod,
      Nat.reducePow]
    omega

/-- The parts `storage_write` stages, at the places where it stages them. -/
theorem writtenAs_iff_layout {f : Flash} {m : Bytes} :
    WrittenAs f m ↔ 1 ≤ m.length ∧ m.length ≤ STORAGE_MAX_PAYLOAD ∧ ∃ d : Draw,
      ∀ p ∈ imageLayout m d, p.1 ≠ STORAGE_MARKER_OFF → read f p.1 p.2.length = p.2 := by
  have apart : ∀ {a : Nat}, a < 504 → a ≠ STORAGE_MARKER_OFF := by
    intro a small
    rw [STORAGE_MARKER_OFF]
    omega
  have lenIff : m.length ≤ STORAGE_MAX_PAYLOAD →
      (read f 4 4 = st32 (UInt32.ofNat m.length) ↔ storedLen f = m.length) :=
    fun small => read_len_iff (Nat.lt_of_le_of_lt small (by decide))
  constructor
  · rintro ⟨⟨pos, small, magic, len, box⟩, version⟩
    let d : Draw := {
      pk := read f 0x24 STORAGE_KEY_LEN
      sk := read f 0x44 STORAGE_KEY_LEN
      nonce := read f 0x0C STORAGE_NONCE_LEN
      pk_size := read_length _ _ _
      sk_size := read_length _ _ _
      nonce_size := read_length _ _ _ }
    obtain ⟨c, boxed, eq, size⟩ := sealed_box d m
    have whole : sealed m d = read f STORAGE_SECTION_OFF (STORAGE_BOX_OVERHEAD + m.length) := by
      rw [box, Option.some.injEq] at boxed
      rw [eq, ← boxed]
      exact List.drop_left' List.length_replicate
    refine ⟨pos, small, d, ?_⟩
    intro p member other
    simp only [imageLayout, List.mem_cons, List.not_mem_nil, or_false] at member
    rcases member with rfl | rfl | rfl | rfl | rfl | rfl | rfl | rfl
    · exact magic
    · rw [st32_length]
      exact (lenIff small).mpr ((storedLen_eq f).trans len)
    · exact (read_one f 8 _).mpr version
    · simp only [d, read_length]
    · simp only [d, read_length]
    · simp only [d, read_length]
    · simp only [whole, read_length]
    · exact absurd rfl other
  · rintro ⟨pos, small, d, parts⟩
    have part : ∀ (off : Nat) (bytes : Bytes), (off, bytes) ∈ imageLayout m d → off < 504 →
        read f off bytes.length = bytes := fun _ _ member low => parts _ member (apart low)
    have magic := part 0 STORAGE_MAGIC (by simp [imageLayout]) (by omega)
    have len := part 4 (st32 (UInt32.ofNat m.length)) (by simp [imageLayout]) (by omega)
    have version := part 8 [STORAGE_FORMAT_VERSION] (by simp [imageLayout]) (by omega)
    have nonce := part 0x0C d.nonce (by simp [imageLayout]) (by omega)
    have pk := part 0x24 d.pk (by simp [imageLayout]) (by omega)
    have sk := part 0x44 d.sk (by simp [imageLayout]) (by omega)
    have box := part STORAGE_SECTION_OFF (sealed m d) (by simp [imageLayout])
      (by rw [STORAGE_SECTION_OFF]; omega)
    rw [d.nonce_size] at nonce
    rw [d.pk_size] at pk
    rw [d.sk_size] at sk
    rw [st32_length] at len
    rw [sealed_length] at box
    obtain ⟨c, boxed, eq, size⟩ := sealed_box d m
    refine ⟨⟨pos, small, magic, ?_, ?_⟩, (read_one f 8 _).mp version⟩
    · rw [← storedLen_eq]
      exact (lenIff small).mp len
    · rw [nonce, pk, sk, box, boxed, eq, ← cryptoBox_take boxed, List.take_append_drop]

/-- The whole image on the erased sector. -/
theorem program_writtenAs (f : Flash) (d : Draw) {src : Bytes} (pos : 1 ≤ src.length)
    (small : src.length ≤ STORAGE_MAX_PAYLOAD) :
    WrittenAs (program (stagedImage src d).bytes (erase FLASH_SECTOR_SIZE f)) src := by
  have size := (stagedImage src d).size
  refine writtenAs_iff_layout.mpr ⟨pos, small, d, ?_⟩
  rintro ⟨off, part⟩ member -
  have inside := (imageLayout_layout d small).1 _ member
  apply read_part off (blank_erase f) small member rfl inside
  rw [size]
  exact inside

/-- What `storage_write` leaves once its program is through is written as its payload. -/
theorem storageWrite_writtenAs {s s' : Storage} {src : Bytes} {env : FlashEnv}
    (through : storageWrite s env src = .done (true, s')) : WrittenAs s'.flash src := by
  have range : 0 < src.length ∧ src.length ≤ STORAGE_MAX_PAYLOAD := by
    by_contra outside
    unfold storageWrite at through
    rw [if_pos (by omega)] at through
    cases through
  obtain ⟨boxWrite, write⟩ := storageWrite_eq s env range.1 range.2
  rw [write] at through
  have ends := written s.flash env (stagedImage src (drawn s.rng)).bytes
  generalize eraseThenProgram _ _ _ = ended at ends through
  cases ends with
  | eraseCut reached => cases through
  | eraseFailed => cases through
  | programCut k => cases through
  | programFailed => cases through
  | ok =>
      cases through
      exact program_writtenAs s.flash (drawn s.rng) range.1 range.2

/-- The payload that opens is the one the region is sealed as. -/
theorem sectionPayload_iff {f : Flash} {m : Bytes} : sectionPayload f = some m ↔ SealedAs f m := by
  have zeros : ∀ len, (List.replicate 16 0 ++
      read f STORAGE_SECTION_OFF (STORAGE_BOX_OVERHEAD + len)).take 16 = List.replicate 16 0 :=
    fun len => List.take_left' List.length_replicate
  constructor
  · intro payload
    obtain ⟨pos, small⟩ := sectionPayload_length payload
    unfold sectionPayload at payload
    split at payload
    · rename_i available
      have magic : read f 0 STORAGE_MAGIC_LEN = STORAGE_MAGIC := by
        by_contra other
        rw [storageAvailable, if_pos other] at available
        cases available
      have len : storedLen f = m.length := (openSection_length payload).symm
      rw [len] at payload
      obtain ⟨padded, opened, rfl⟩ := Option.map_eq_some_iff.mp payload
      obtain ⟨boxed, pad⟩ := (cryptoBoxOpen_iff (zeros _)).mp opened
      refine ⟨pos, small, magic, (storedLen_eq f).symm.trans len, ?_⟩
      rw [← pad, List.take_append_drop]
      exact boxed
    · cases payload
  · rintro ⟨pos, small, magic, len, box⟩
    rw [← storedLen_eq] at len
    have available : storageAvailable f = true := by
      rw [storageAvailable, if_neg (not_not.mpr magic), len]
      exact decide_eq_true ⟨pos, small⟩
    have opened := (cryptoBoxOpen_iff (zeros m.length)).mpr ⟨box, List.take_left' List.length_replicate⟩
    rw [sectionPayload, if_pos available, openSection, len, opened, Option.map_some,
      List.drop_left' List.length_replicate]

section
variable {extra : Nat} (s : Storage) (dst : Region (STORAGE_MAX_PAYLOAD + extra))

/-- `storage_read` returns the length of `m`, with `m` in front of the caller's buffer. -/
def ReadsAs (m : Bytes) : Prop :=
  0 < m.length ∧ (storageRead s dst STORAGE_MAX_PAYLOAD).1 = m.length ∧
    (storageRead s dst STORAGE_MAX_PAYLOAD).2.1.load 0 m.length = m

/-- `storage_read` returns 0 and the caller's buffer is as it was. -/
def Unreadable : Prop :=
  (storageRead s dst STORAGE_MAX_PAYLOAD).1 = 0 ∧ (storageRead s dst STORAGE_MAX_PAYLOAD).2.1 = dst

theorem readsAs_iff (m : Bytes) : ReadsAs s dst m ↔ SealedAs s.flash m := by
  rw [← sectionPayload_iff]
  obtain ⟨boxRead, eq⟩ := storageRead_eq s dst (Nat.le_refl STORAGE_MAX_PAYLOAD)
  unfold ReadsAs
  rw [eq]
  cases payload : sectionPayload s.flash with
  | none =>
      refine iff_of_false ?_ nofun
      rintro ⟨pos, len, -⟩
      exact absurd len (Nat.ne_of_lt pos)
  | some p =>
      obtain ⟨pos, small⟩ := sectionPayload_length payload
      rw [Option.some.injEq]
      constructor
      · rintro ⟨-, len, bytes⟩
        change p.length = m.length at len
        have loaded : (dst.store 0 p).load 0 p.length = p := Region.load_store dst 0 p (by omega)
        rw [len] at loaded
        exact loaded.symm.trans bytes
      · rintro rfl
        exact ⟨pos, rfl, Region.load_store dst 0 p (by omega)⟩

theorem unreadable_iff : Unreadable s dst ↔ ∀ m, ¬ SealedAs s.flash m := by
  simp only [← sectionPayload_iff]
  obtain ⟨boxRead, eq⟩ := storageRead_eq s dst (Nat.le_refl STORAGE_MAX_PAYLOAD)
  unfold Unreadable
  rw [eq]
  cases payload : sectionPayload s.flash with
  | none => exact iff_of_true ⟨rfl, rfl⟩ fun m => nofun
  | some p =>
      refine iff_of_false ?_ fun none => none p rfl
      rintro ⟨zero, -⟩
      exact absurd zero (Nat.ne_of_gt (sectionPayload_length payload).1)

/-- The reader accepts the records the writer makes, and nothing else. -/
def ReadsExactly : Prop :=
  (∀ m, ReadsAs s dst m ↔ WrittenAs s.flash m) ∧
    ((∀ m, ¬ WrittenAs s.flash m) → Unreadable s dst)

theorem readsExactly_iff :
    ReadsExactly s dst ↔ s.flash 8 = STORAGE_FORMAT_VERSION ∨ ¬ ∃ m, SealedAs s.flash m := by
  constructor
  · rintro ⟨accepts, -⟩
    by_contra fails
    obtain ⟨other, sealing⟩ := not_or.mp fails
    obtain ⟨m, isSealed⟩ := not_not.mp sealing
    exact other ((accepts m).mp ((readsAs_iff s dst m).mpr isSealed)).version
  · intro condition
    have same : ∀ m, SealedAs s.flash m ↔ WrittenAs s.flash m := by
      intro m
      refine ⟨fun isSealed => ⟨isSealed, ?_⟩, fun isWritten => isWritten.sealed⟩
      rcases condition with version | nothing
      · exact version
      · exact absurd ⟨m, isSealed⟩ nothing
    refine ⟨fun m => (readsAs_iff s dst m).trans (same m), fun nothing => ?_⟩
    exact (unreadable_iff s dst).mpr fun m isSealed => nothing m ((same m).mp isSealed)

end

/-- The two regions differ somewhere, and only in the `len` bytes from `off` on. -/
structure ChangedIn (off len : Nat) (f g : Flash) : Prop where
  outside : ∀ a, ¬ (off ≤ a ∧ a < off + len) → g a = f a
  inside : ∃ a, g a ≠ f a

/-- The MAC in flash is also the authenticator of the section that is there now. -/
def Forged (f : Flash) : Prop :=
  0 < storedLen f ∧ storedLen f ≤ STORAGE_MAX_PAYLOAD ∧
    read f STORAGE_SECTION_OFF STORAGE_BOX_OVERHEAD =
      cryptoBoxMac (read f (STORAGE_SECTION_OFF + STORAGE_BOX_OVERHEAD) (storedLen f))
        (storageSectionNonce (read f 0x0C STORAGE_NONCE_LEN) 0) (read f 0x24 STORAGE_KEY_LEN)
        (read f 0x44 STORAGE_KEY_LEN)

/-- With the magic in place, a region opens exactly if its MAC fits. -/
theorem sealed_iff_forged {f : Flash} (magic : read f 0 STORAGE_MAGIC_LEN = STORAGE_MAGIC) :
    (∃ m, SealedAs f m) ↔ Forged f := by
  have open_iff : (openSection f (storedLen f)).isSome = true ↔
      read f STORAGE_SECTION_OFF STORAGE_BOX_OVERHEAD =
        cryptoBoxMac (read f (STORAGE_SECTION_OFF + STORAGE_BOX_OVERHEAD) (storedLen f))
          (storageSectionNonce (read f 0x0C STORAGE_NONCE_LEN) 0) (read f 0x24 STORAGE_KEY_LEN)
          (read f 0x44 STORAGE_KEY_LEN) := by
    have parts := read_add f STORAGE_SECTION_OFF STORAGE_BOX_OVERHEAD (storedLen f)
    have tail : (List.replicate 16 (0 : UInt8) ++
        read f STORAGE_SECTION_OFF (STORAGE_BOX_OVERHEAD + storedLen f)).drop 16 =
        read f STORAGE_SECTION_OFF STORAGE_BOX_OVERHEAD ++
          read f (STORAGE_SECTION_OFF + STORAGE_BOX_OVERHEAD) (storedLen f) := by
      rw [List.drop_left' List.length_replicate, parts]
    have mac : ∀ rest, (read f STORAGE_SECTION_OFF STORAGE_BOX_OVERHEAD ++ rest).take STORAGE_BOX_OVERHEAD =
        read f STORAGE_SECTION_OFF STORAGE_BOX_OVERHEAD := fun _ => List.take_left' (read_length ..)
    have cipher : ∀ rest, (read f STORAGE_SECTION_OFF STORAGE_BOX_OVERHEAD ++ rest).drop STORAGE_BOX_OVERHEAD =
        rest := fun _ => List.drop_left' (read_length ..)
    rw [openSection, Option.isSome_map, cryptoBoxOpen_isSome_iff (by
      simp only [List.length_append, List.length_replicate, read_length, STORAGE_BOX_OVERHEAD]
      omega)]
    have twice : ∀ l : Bytes, l.drop 32 = (l.drop 16).drop 16 := fun l => by rw [List.drop_drop]
    rw [twice, tail]
    simp only [STORAGE_BOX_OVERHEAD] at mac cipher ⊢
    rw [mac, cipher]
  rw [Forged, ← open_iff, ← and_assoc]
  simp only [← sectionPayload_iff, ← Option.isSome_iff_exists]
  have available : storageAvailable f = true ↔ 0 < storedLen f ∧ storedLen f ≤ STORAGE_MAX_PAYLOAD := by
    rw [storageAvailable, if_neg (not_not.mpr magic), decide_eq_true_eq]
  rw [← available, sectionPayload]
  by_cases here : storageAvailable f = true
  · rw [if_pos here]
    exact ⟨fun some => ⟨here, some⟩, fun both => both.2⟩
  · rw [if_neg here]
    exact iff_of_false Bool.false_ne_true fun both => here both.1

section
variable {off len : Nat} {f g : Flash}

theorem ChangedIn.read_eq (changed : ChangedIn off len f g) {a n : Nat}
    (apart : a + n ≤ off ∨ off + len ≤ a) : read g a n = read f a n := by
  rw [read_eq_iff]
  intro i inside
  apply changed.outside
  omega

theorem ChangedIn.storedLen_eq (changed : ChangedIn off len f g) (apart : 8 ≤ off ∨ off + len ≤ 4) :
    storedLen g = storedLen f := by
  unfold storedLen
  rw [changed.read_eq (by simp only [STORAGE_MAGIC_LEN]; omega)]

theorem ChangedIn.read_ne (changed : ChangedIn off len f g) : read g off len ≠ read f off len := by
  intro same
  rw [read_eq_iff] at same
  obtain ⟨a, differs⟩ := changed.inside
  apply differs
  by_cases here : off ≤ a ∧ a < off + len
  · have byte := same (a - off) (by omega)
    rwa [Nat.add_sub_cancel' here.1] at byte
  · exact changed.outside a here

end

section
variable {f g : Flash} {m : Bytes}

/-- The reader does not look at the version byte. -/
theorem SealedAs.of_version (isSealed : SealedAs f m) (changed : ChangedIn 8 1 f g) : SealedAs g m := by
  have lenField := changed.storedLen_eq (by omega)
  rw [storedLen_eq, storedLen_eq] at lenField
  constructor
  · exact isSealed.pos
  · exact isSealed.small
  · rw [changed.read_eq (by simp only [STORAGE_MAGIC_LEN]; omega)]
    exact isSealed.magic
  · rw [lenField]
    exact isSealed.len
  · rw [changed.read_eq (by omega), changed.read_eq (by omega), changed.read_eq (by omega),
      changed.read_eq (by simp only [STORAGE_SECTION_OFF]; omega)]
    exact isSealed.box

/-- A section has one MAC. -/
theorem SealedAs.not_forged (isSealed : SealedAs f m)
    (changed : ChangedIn STORAGE_SECTION_OFF STORAGE_BOX_OVERHEAD f g) : ¬ Forged g := by
  intro forged
  have own := ((sealed_iff_forged isSealed.magic).mp ⟨m, isSealed⟩).2.2
  have other := forged.2.2
  have len := changed.storedLen_eq (.inl (by decide))
  have cipher := changed.read_eq (a := STORAGE_SECTION_OFF + STORAGE_BOX_OVERHEAD) (n := storedLen f)
    (.inr (Nat.le_refl _))
  have nonce := changed.read_eq (a := 0x0C) (n := STORAGE_NONCE_LEN) (.inl (by decide))
  have pk := changed.read_eq (a := 0x24) (n := STORAGE_KEY_LEN) (.inl (by decide))
  have sk := changed.read_eq (a := 0x44) (n := STORAGE_KEY_LEN) (.inl (by decide))
  rw [len, cipher, nonce, pk, sk, ← own] at other
  exact changed.read_ne other

/-- With the magic untouched a changed record is unreadable unless its MAC fits by chance. -/
theorem unreadable_iff_of_changed {extra : Nat} (s : Storage)
    (dst : Region (STORAGE_MAX_PAYLOAD + extra)) (isSealed : SealedAs s.flash m) {off len : Nat}
    (changed : ChangedIn off len s.flash g) (header : 4 ≤ off) :
    Unreadable { s with flash := g } dst ↔ ¬ Forged g := by
  have magic : read g 0 STORAGE_MAGIC_LEN = STORAGE_MAGIC := by
    rw [changed.read_eq (by simp only [STORAGE_MAGIC_LEN]; omega)]
    exact isSealed.magic
  rw [unreadable_iff, ← sealed_iff_forged magic, not_exists]

end

/-- The reader accepts exactly the records of the writer if and only if the version
    byte is right or nothing but it is. A record whose version byte is changed still
    reads, one whose MAC is changed never does, and one whose length field or
    ciphertext is changed reads exactly if its MAC is also that of the new section. What a write
    leaves is a record of the writer. -/
theorem storageRead_exact {extra : Nat} (s : Storage) (dst : Region (STORAGE_MAX_PAYLOAD + extra)) :
    (ReadsExactly s dst ↔ s.flash 8 = STORAGE_FORMAT_VERSION ∨ ¬ ∃ m, SealedAs s.flash m) ∧
    (∀ env src after, storageWrite s env src = .done (true, after) → WrittenAs after.flash src) ∧
    ∀ m, WrittenAs s.flash m → ∀ g,
      (ChangedIn 8 1 s.flash g → ReadsAs { s with flash := g } dst m) ∧
      (ChangedIn STORAGE_SECTION_OFF STORAGE_BOX_OVERHEAD s.flash g →
        Unreadable { s with flash := g } dst) ∧
      (ChangedIn STORAGE_MAGIC_LEN 4 s.flash g →
        (Unreadable { s with flash := g } dst ↔ ¬ Forged g)) ∧
      (ChangedIn (STORAGE_SECTION_OFF + STORAGE_BOX_OVERHEAD) m.length s.flash g →
        (Unreadable { s with flash := g } dst ↔ ¬ Forged g)) := by
  refine ⟨readsExactly_iff s dst, fun _ _ _ => storageWrite_writtenAs, ?_⟩
  rintro m ⟨isSealed, -⟩ g
  refine ⟨?_, ?_, ?_, ?_⟩
  · intro changed
    rw [readsAs_iff]
    exact isSealed.of_version changed
  · intro changed
    rw [unreadable_iff_of_changed s dst isSealed changed (by decide)]
    exact isSealed.not_forged changed
  · intro changed
    exact unreadable_iff_of_changed s dst isSealed changed (by decide)
  · intro changed
    exact unreadable_iff_of_changed s dst isSealed changed (by decide)

/-- A provisioned flash. -/
def writtenFlash : Flash := committed (fun _ => 0xFF) sampleRecord (drawn (.boot silent))

theorem writtenFlash_written : WrittenAs writtenFlash sampleRecord.payload :=
  program_writtenAs _ _ sampleRecord.payload_pos sampleRecord.payload_small

/-- The same with version byte 2. -/
def otherVersion : Flash := fun a => if a = 8 then 2 else writtenFlash a

theorem otherVersion_changed : ChangedIn 8 1 writtenFlash otherVersion := by
  constructor
  · intro a outside
    exact if_neg (by omega)
  · refine ⟨8, ?_⟩
    rw [writtenFlash_written.version]
    exact (by decide : (2 : UInt8) ≠ STORAGE_FORMAT_VERSION)

/-- The same with a byte of the MAC changed. -/
def otherMac : Flash := Function.update writtenFlash STORAGE_SECTION_OFF (writtenFlash STORAGE_SECTION_OFF + 1)

theorem otherMac_changed : ChangedIn STORAGE_SECTION_OFF STORAGE_BOX_OVERHEAD writtenFlash otherMac := by
  constructor
  · intro a outside
    apply Function.update_of_ne
    rintro rfl
    exact outside ⟨Nat.le_refl _, Nat.lt_add_of_pos_right (by decide)⟩
  · refine ⟨STORAGE_SECTION_OFF, ?_⟩
    rw [otherMac, Function.update_self]
    exact fun same => absurd (UInt8.add_eq_left.mp same) (by decide)

/-- The record reads under the other version, and not at all under the other MAC. -/
theorem storageRead_exact_sample :
    ReadsAs (.boot otherVersion silent) (Region.fill (STORAGE_MAX_PAYLOAD + 0) 0) sampleRecord.payload ∧
      Unreadable (.boot otherMac silent) (Region.fill (STORAGE_MAX_PAYLOAD + 0) 0) := by
  have changes := (storageRead_exact (.boot writtenFlash silent) (Region.fill (STORAGE_MAX_PAYLOAD + 0) 0)).2.2 _
    writtenFlash_written
  exact ⟨(changes otherVersion).1 otherVersion_changed, (changes otherMac).2.1 otherMac_changed⟩

/-- It reads as if the version were 1. -/
theorem storageRead_not_exact :
    ¬ ReadsExactly (.boot otherVersion silent) (Region.fill (STORAGE_MAX_PAYLOAD + 0) 0) := by
  rw [readsExactly_iff]
  rintro (version | nothing)
  · exact absurd version (by decide : (2 : UInt8) ≠ STORAGE_FORMAT_VERSION)
  · exact nothing ⟨_, writtenFlash_written.sealed.of_version otherVersion_changed⟩

end Roman
