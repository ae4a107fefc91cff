import Roman.Lib.JsonText
import Roman.HttpServer.Bodies
import Roman.OneShot
import Roman.Verdict
import Mathlib.Data.List.Find

/-! # What POST /sign signs

The three fields pass through arrays of fixed size before they are joined and
signed. So the message is the one that was asked for if every field fits its
array; a field that is not found refuses the request.
-/

namespace Roman

open CMem CStr NorFlash TweetNacl Json

theorem base64Char_printed (i : Nat) : Printed [base64Char (i &&& 0x3F)] := by
  have small : i &&& 0x3F < BASE64.length := Nat.and_lt_two_pow i (by decide : 0x3F < 2 ^ 6)
  have alphabet : Printed BASE64 := by decide +kernel
  intro b member
  rw [List.mem_singleton] at member
  subst member
  apply alphabet
  rw [base64Char, List.getD_eq_getElem?_getD, List.getElem?_eq_getElem small, Option.getD_some]
  exact List.getElem_mem small

theorem base64Encode_printed (s : Bytes) : Printed (base64Encode s) := by
  have pad : Printed [0x3D] := by decide +kernel
  fun_induction base64Encode s with
  | case1 => exact nofun
  | case2 x b =>
      exact (base64Char_printed _).append ((base64Char_printed _).append (pad.append pad))
  | case3 x y b =>
      exact (base64Char_printed _).append ((base64Char_printed _).append
        ((base64Char_printed _).append pad))
  | case4 x y z rest b ih =>
      exact (base64Char_printed _).append ((base64Char_printed _).append
        ((base64Char_printed _).append ((base64Char_printed _).append ih)))

theorem deviceIdChar_printed (b : UInt8) :
    deviceIdChar b = true → 0x20 ≤ b ∧ b < 0x80 ∧ b ≠ 0x22 ∧ b ≠ 0x5C := by
  simp only [deviceIdChar, Bool.or_eq_true, Bool.and_eq_true, decide_eq_true_eq, beq_iff_eq,
    UInt8.le_iff_toNat_le, UInt8.lt_iff_toNat_lt, ne_eq, ← UInt8.toNat_inj, UInt8.reduceToNat]
  omega

theorem deviceId_printed (r : Record) : Printed r.deviceId := by
  intro b member
  exact deviceIdChar_printed b ((idRule_iff.mp r.valid).2.2 b member)

/-- The fields of a sign request, with the arrays they are copied into. -/
def signFields : List (Bytes × Nat) :=
  [(ascii "challenge", 256), (ascii "context", 128), (ascii "timestamp", 128)]

theorem signFields_field : ∀ f ∈ signFields, FieldKey f.1 ∧ 0 < f.2 := by decide +kernel

/-- A flat object none of whose values spells the name of a field. Its names are
    arbitrary JSON strings. -/
structure SignBody (o : FlatObject) : Prop where
  formed : o.Formed
  values : ∀ m ∈ o.members, ∀ f ∈ signFields, m.value ≠ f.1

/-- The member that is taken for the one named so. -/
def taken (o : FlatObject) (key : Bytes) : Option Member :=
  o.members.find? fun m => EndsIn m.name key

/-- A field is not there, or its colon is followed by whitespace other than blanks. -/
def FieldMissing (o : FlatObject) : Prop :=
  ∃ f ∈ signFields, ∀ m, taken o f.1 = some m → ¬ Blanks m.pad

/-- No name hides the name of a field behind a quote in it. -/
def NamesApart (o : FlatObject) : Prop :=
  ∀ f ∈ signFields, ∀ m ∈ o.members, EndsIn m.name f.1 → m.name = f.1

/-- Every field fits its array. -/
def FieldsFit (o : FlatObject) : Prop :=
  ∀ f ∈ signFields, ∀ v, valueOf f.1 o.members = some v → v.length < f.2

/-- What is taken for the fields and cut to their arrays joins to what they join to. -/
def SameMessage (o : FlatObject) : Prop :=
  ∃ c x t c' x' t', (valueOf (ascii "challenge") o.members = some c ∧
      valueOf (ascii "context") o.members = some x ∧ valueOf (ascii "timestamp") o.members = some t) ∧
    ((taken o (ascii "challenge")).map (·.value) = some c' ∧
      (taken o (ascii "context")).map (·.value) = some x' ∧
      (taken o (ascii "timestamp")).map (·.value) = some t') ∧
    c'.take 255 ++ ascii ":" ++ x'.take 127 = c ++ ascii ":" ++ x ∧ t'.take 127 = t

section
variable {o : FlatObject} (body : SignBody o)
include body

theorem jsonField_taken {f : Bytes × Nat} (field : f ∈ signFields) :
    jsonField o.text f.1 f.2 = (taken o f.1).bind (memberGives f.2) :=
  jsonField_object body.formed (signFields_field f field).1 (fun m member => body.values m member f field)
    (signFields_field f field).2

theorem jsonField_cases {f : Bytes × Nat} (field : f ∈ signFields) :
    (jsonField o.text f.1 f.2 = none ∧ FieldMissing o) ∨
      ∃ m ∈ o.members, taken o f.1 = some m ∧ Blanks m.pad ∧
        jsonField o.text f.1 f.2 = some (m.value.take (f.2 - 1)) := by
  have eq := jsonField_taken body field
  cases found : taken o f.1 with
  | none =>
      rw [found] at eq
      refine .inl ⟨eq, f, field, ?_⟩
      rw [found]
      exact nofun
  | some m =>
      rw [found, Option.bind_some, memberGives] at eq
      by_cases blanks : Blanks m.pad
      · rw [if_pos blanks] at eq
        exact .inr ⟨m, List.mem_of_find?_eq_some found, rfl, blanks, eq⟩
      · rw [if_neg blanks] at eq
        refine .inl ⟨eq, f, field, ?_⟩
        intro m' found'
        rw [found, Option.some.injEq] at found'
        exact found' ▸ blanks

end

/-- The reply to a signed request. -/
def signedReply (sig timestamp deviceId : Bytes) : Response :=
  ⟨200, ascii "\x7b\"signature\":\"" ++ base64Encode sig ++ ascii "\",\"timestamp\":\"" ++ timestamp ++
    ascii "\",\"device_id\":\"" ++ deviceId ++ ascii "\"\x7d"⟩

/-- The reply is not cut. -/
theorem signedReply_eq {sig timestamp : Bytes} (size : sig.length = 64) (free : NulFree timestamp)
    (short : timestamp.length ≤ 127) (r : Record) :
    content ((ascii "\x7b\"signature\":\"" ++ content (base64Encode sig) ++
      ascii "\",\"timestamp\":\"" ++ timestamp ++ ascii "\",\"device_id\":\"" ++ r.deviceId ++
        ascii "\"\x7d").take 1023) =
      (signedReply sig timestamp r.deviceId).body := by
  have idSize := (idRule_iff.mp r.valid).2.1
  rw [RECORD_MAX_DEVICE_ID] at idSize
  have sigText := Base64.base64Encode_length sig
  have front : (ascii "\x7b\"signature\":\"").length = 14 := by decide +kernel
  have middle : (ascii "\",\"timestamp\":\"").length = 15 := by decide +kernel
  have back : (ascii "\",\"device_id\":\"").length = 15 := by decide +kernel
  have last : (ascii "\"\x7d").length = 2 := by decide +kernel
  have frame : NulFree (ascii "\x7b\"signature\":\"") ∧ NulFree (ascii "\",\"timestamp\":\"") ∧
      NulFree (ascii "\",\"device_id\":\"") ∧ NulFree (ascii "\"\x7d") := by
    decide +kernel
  have sigFree := (base64Encode_printed sig).plain.nulFree
  rw [content_of_nulFree sigFree, List.take_of_length_le]
  · rw [content_of_nulFree, signedReply]
    intro b member
    simp only [List.mem_append] at member
    rcases member with (((((front | sig) | middle) | time) | back) | id) | last
    · exact frame.1 b front
    · exact sigFree b sig
    · exact frame.2.1 b middle
    · exact free b time
    · exact frame.2.2.1 b back
    · exact (deviceId_printed r).plain.nulFree b id
    · exact frame.2.2.2 b last
  · simp only [List.length_append, front, middle, back, last, sigText, size]
    omega

/-- On a board that holds a record a request is refused, or the fields are signed as
    far as they fit. -/
inductive SignCase (o : FlatObject) (r : Record) : Prop where
  | refused (missing : FieldMissing o) (call : signCall (some r) o.text = none)
      (status : (signReply (some r) o.text).status = 400)
  | signed {c x t : Member} (present : ¬ FieldMissing o) (challenge : taken o (ascii "challenge") = some c)
      (context : taken o (ascii "context") = some x) (timestamp : taken o (ascii "timestamp") = some t)
      (plain : Plain t.value)
      (call : signCall (some r) o.text = some (signMessage (c.value.take 255) (x.value.take 127)
        (t.value.take 127) r.deviceId, r.sk.bytes))
      (answer : signReply (some r) o.text = signedReply (signature (signMessage (c.value.take 255)
        (x.value.take 127) (t.value.take 127) r.deviceId) r.sk.bytes) (t.value.take 127) r.deviceId)

theorem signMessage_length (c x t id : Bytes) :
    (signMessage c x t id).length = c.length + x.length + t.length + id.length + 3 := by
  have colon : (ascii ":").length = 1 := by decide +kernel
  simp only [signMessage, List.length_append, colon]
  omega

theorem signCase {o : FlatObject} (body : SignBody o) (r : Record) : SignCase o r := by
  have nonempty : ¬ o.text = [] := FlatObject.text_ne_nil o
  rcases jsonField_cases body (f := (ascii "challenge", 256)) (by simp [signFields]) with
    ⟨absent, missing⟩ | ⟨c, -, cTaken, cBlanks, challenge⟩
  · apply SignCase.refused missing
    · simp only [signCall, if_neg nonempty, absent]
    · simp only [signReply, if_neg nonempty, absent]
      rfl
  rcases jsonField_cases body (f := (ascii "context", 128)) (by simp [signFields]) with
    ⟨absent, missing⟩ | ⟨x, -, xTaken, xBlanks, context⟩
  · apply SignCase.refused missing
    · simp only [signCall, if_neg nonempty, challenge, absent]
    · simp only [signReply, if_neg nonempty, challenge, absent]
      rfl
  rcases jsonField_cases body (f := (ascii "timestamp", 128)) (by simp [signFields]) with
    ⟨absent, missing⟩ | ⟨t, member, tTaken, tBlanks, timestamp⟩
  · apply SignCase.refused missing
    · simp only [signCall, if_neg nonempty, challenge, context, absent]
    · simp only [signReply, if_neg nonempty, challenge, context, absent]
      rfl
  have plain : Plain t.value := (body.formed.members t member).value
  have short : ¬ (signMessage (c.value.take 255) (x.value.take 127) (t.value.take 127) r.deviceId).length
      ≥ 1024 := by
    have idSize := (idRule_iff.mp r.valid).2.1
    rw [RECORD_MAX_DEVICE_ID] at idSize
    simp only [signMessage_length, List.length_take]
    omega
  have present : ¬ FieldMissing o := by
    rintro ⟨f, field, missing⟩
    simp only [signFields, List.mem_cons, List.not_mem_nil, or_false] at field
    rcases field with rfl | rfl | rfl
    · exact missing c cTaken cBlanks
    · exact missing x xTaken xBlanks
    · exact missing t tTaken tBlanks
  apply SignCase.signed present cTaken xTaken tTaken plain
  · simp only [signCall, if_neg nonempty, challenge, context, timestamp, if_neg short]
  · simp only [signReply, if_neg nonempty, challenge, context, timestamp, if_neg short]
    rw [signedReply_eq (signature_length _ _) (plain.take 127).nulFree (by rw [List.length_take]; omega) r]
    rfl

/-- A reply 200 is that to a message that was joined and signed. -/
theorem signReply_signed {o : Option Record} {body : Bytes} (ok : (signReply o body).status = 200) :
    ∃ r c x t, o = some r ∧ jsonField body (ascii "challenge") 256 = some c ∧
      jsonField body (ascii "context") 128 = some x ∧ jsonField body (ascii "timestamp") 128 = some t ∧
      (signMessage c x t r.deviceId).length < 1024 ∧
      signCall o body = some (signMessage c x t r.deviceId, r.sk.bytes) := by
  unfold signReply at ok
  split at ok
  · exact absurd ok (by decide)
  rename_i nonempty
  split at ok
  · exact absurd ok (by decide)
  rename_i r
  split at ok
  · exact absurd ok (by decide)
  rename_i c challenge
  split at ok
  · exact absurd ok (by decide)
  rename_i x context
  split at ok
  · exact absurd ok (by decide)
  rename_i t timestamp
  dsimp only at ok
  split at ok
  · exact absurd ok (by decide)
  rename_i short
  refine ⟨r, c, x, t, rfl, challenge, context, timestamp, Nat.not_le.mp short, ?_⟩
  simp only [signCall, if_neg nonempty, challenge, context, timestamp, if_neg short]

/-- `crypto_sign` is called for this message under this key: whatever its array held, it
    holds what the call puts over it. -/
def SignsMessage (s : Http) (body message sk : Bytes) : Prop :=
  ∀ held, (handleSignPost { s with sigSm := held } (some body)).2.sigSm =
    held.store 0 (cryptoSign message sk)

/-- The answer 200 to a request for these values, with this record stored. -/
structure SignedAs (s : Http) (o : FlatObject) (r : Record) (c x t : Bytes) : Prop where
  challenge : valueOf (ascii "challenge") o.members = some c
  context : valueOf (ascii "context") o.members = some x
  timestamp : valueOf (ascii "timestamp") o.members = some t
  message : SignsMessage s o.text (signMessage c x t r.deviceId) r.sk.bytes
  reply : (handleSignPost s (some o.text)).1 =
    signedReply ((cryptoSign (signMessage c x t r.deviceId) r.sk.bytes).take 64) t r.deviceId

/-- The request is answered 400 without a call of `crypto_sign`, or what it asks for is signed. -/
def SignsWhatWasAsked (s : Http) (o : FlatObject) : Prop :=
  ∀ r, storedRecord s.flash = some r →
    ((handleSignPost s (some o.text)).1.status = 400 ∧
      ∀ held, (handleSignPost { s with sigSm := held } (some o.text)).2.sigSm = held) ∨
    ∃ c x t, SignedAs s o r c x t

theorem cryptoSign_take (m sk : Bytes) : (cryptoSign m sk).take 64 = signature m sk := by
  unfold cryptoSign
  exact List.take_left' (signature_length m sk)

theorem cryptoSign_inj {m m' sk sk' : Bytes} (same : cryptoSign m sk = cryptoSign m' sk') : m = m' := by
  have tails := congrArg (List.drop 64) same
  unfold cryptoSign at tails
  rwa [List.drop_left' (signature_length m sk), List.drop_left' (signature_length m' sk')] at tails

section
variable {s : Http} (coherent : Coherent s.keystore) {r : Record} (stored : storedRecord s.flash = some r)
  {o : FlatObject}
include coherent stored

theorem signServes : Serves s.keystore (some r) := by
  have serves := coherent.serves
  rwa [show storedRecord s.keystore.store.flash = some r from stored] at serves

theorem signOutput_held (held : Region 2048) :
    (handleSignPost { s with sigSm := held } (some o.text)).2.sigSm =
      signOutput held (signCall (some r) o.text) :=
  (handleSignPost_result (s := { s with sigSm := held }) (signServes coherent stored) (some o.text)).2

theorem signAnswer : (handleSignPost s (some o.text)).1 = signReply (some r) o.text :=
  (handleSignPost_result (signServes coherent stored) (some o.text)).1

/-- The message that is signed can be told from the array. -/
theorem signsMessage_iff {given sk m : Bytes} (call : signCall (some r) o.text = some (given, sk))
    (short : given.length < 1024) : SignsMessage s o.text m sk ↔ given = m := by
  constructor
  · intro signs
    have size : (cryptoSign given sk).length < 2048 := by
      rw [cryptoSign, List.length_append, signature_length]
      omega
    refine @cryptoSign_inj given m sk sk (Region.store_inj size ?_)
    intro held
    rw [← signs held, signOutput_held coherent stored, call, signOutput]
  · rintro rfl held
    rw [signOutput_held coherent stored, call, signOutput]

/-- A request is signed as asked exactly if it is refused or if the arrays hold what it asks for. -/
theorem signsWhatWasAsked_iff (body : SignBody o) :
    SignsWhatWasAsked s o ↔ FieldMissing o ∨ SameMessage o := by
  have answer := signAnswer (o := o) coherent stored
  have held := signOutput_held (o := o) coherent stored
  cases signCase body r with
  | refused missing call status =>
      refine iff_of_true ?_ (.inl missing)
      intro r' stored'
      refine .inl ⟨by rw [answer, status], fun held' => ?_⟩
      rw [held, call, signOutput]
  | @signed c x t present challenge context timestamp plain call text =>
      have short : (signMessage (c.value.take 255) (x.value.take 127) (t.value.take 127) r.deviceId).length
          < 1024 := by
        have idSize := (idRule_iff.mp r.valid).2.1
        rw [RECORD_MAX_DEVICE_ID] at idSize
        simp only [signMessage_length, List.length_take]
        omega
      rw [text] at answer
      constructor
      · intro asked
        rcases asked r stored with ⟨refused, -⟩ | ⟨c', x', t', signed⟩
        · rw [answer] at refused
          cases refused
        · have message := (signsMessage_iff coherent stored call short).mp signed.message
          have reply := signed.reply
          rw [answer, cryptoSign_take, ← message, signedReply, signedReply, Response.mk.injEq] at reply
          have time := List.append_cancel_right (List.append_cancel_right (List.append_cancel_right reply.2))
          have timeEq : t.value.take 127 = t' := List.append_cancel_left time
          rw [signMessage, signMessage, timeEq] at message
          have front := List.append_cancel_right (List.append_cancel_right (List.append_cancel_right
            (List.append_cancel_right message)))
          refine .inr ⟨c', x', t', c.value, x.value, t.value,
            ⟨signed.challenge, signed.context, signed.timestamp⟩, ?_, front, timeEq⟩
          simp only [challenge, context, timestamp, Option.map_some, and_self]
      · rintro (missing | ⟨c₁, x₁, t₁, c₂, x₂, t₂, ⟨challenge₁, context₁, timestamp₁⟩, found, front, time⟩)
        · exact absurd missing present
        simp only [challenge, context, timestamp, Option.map_some, Option.some.injEq] at found
        obtain ⟨rfl, rfl, rfl⟩ := found
        have message : signMessage (c.value.take 255) (x.value.take 127) (t.value.take 127) r.deviceId =
            signMessage c₁ x₁ t₁ r.deviceId := by
          rw [signMessage, signMessage, front, time]
        intro r' stored'
        rw [stored, Option.some.injEq] at stored'
        subst stored'
        refine .inr ⟨c₁, x₁, t₁, challenge₁, context₁, timestamp₁, ?_, ?_⟩
        · exact (signsMessage_iff coherent stored call short).mpr message
        · rw [answer, cryptoSign_take, message, time]

end

section
variable {o : FlatObject} (apart : NamesApart o)
include apart

theorem valueOf_taken {f : Bytes × Nat} (field : f ∈ signFields) :
    valueOf f.1 o.members = (taken o f.1).map (·.value) := by
  have same : (o.members.find? fun m => EndsIn m.name f.1) = o.members.find? fun m => m.name = f.1 := by
    apply List.find?_congr
    intro m member
    have iff : EndsIn m.name f.1 ↔ m.name = f.1 := by
      constructor
      · exact apart f field m member
      · intro eq
        have whole : EndsIn f.1 f.1 := List.suffix_refl _
        rwa [eq]
    simp only [iff]
  rw [taken, same, valueOf]

theorem sameMessage_iff (present : ¬ FieldMissing o) : SameMessage o ↔ FieldsFit o := by
  have challenge := valueOf_taken apart (f := (ascii "challenge", 256)) (by simp [signFields])
  have context := valueOf_taken apart (f := (ascii "context", 128)) (by simp [signFields])
  have timestamp := valueOf_taken apart (f := (ascii "timestamp", 128)) (by simp [signFields])
  constructor
  · rintro ⟨c, x, t, c', x', t', ⟨cValue, xValue, tValue⟩, ⟨cTaken, xTaken, tTaken⟩, front, time⟩
    rw [cTaken, cValue, Option.some.injEq] at challenge
    rw [xTaken, xValue, Option.some.injEq] at context
    rw [tTaken, tValue, Option.some.injEq] at timestamp
    subst challenge context timestamp
    have frontSize := congrArg List.length front
    have timeSize := congrArg List.length time
    simp only [List.length_append, List.length_take] at frontSize timeSize
    intro f field v value
    simp only [signFields, List.mem_cons, List.not_mem_nil, or_false] at field
    rcases field with rfl | rfl | rfl
    · rw [cValue, Option.some.injEq] at value
      subst value
      show c.length < 256
      omega
    · rw [xValue, Option.some.injEq] at value
      subst value
      show x.length < 128
      omega
    · rw [tValue, Option.some.injEq] at value
      subst value
      show t.length < 128
      omega
  · intro fit
    have whole : ∀ f ∈ signFields, ∃ m, taken o f.1 = some m ∧ m.value.length < f.2 := by
      intro f field
      cases found : taken o f.1 with
      | none =>
          refine absurd ⟨f, field, ?_⟩ present
          rw [found]
          exact nofun
      | some m =>
          refine ⟨m, rfl, fit f field m.value ?_⟩
          rw [valueOf_taken apart field, found, Option.map_some]
    obtain ⟨c, cTaken, cFits⟩ := whole (ascii "challenge", 256) (by simp [signFields])
    obtain ⟨x, xTaken, xFits⟩ := whole (ascii "context", 128) (by simp [signFields])
    obtain ⟨t, tTaken, tFits⟩ := whole (ascii "timestamp", 128) (by simp [signFields])
    rw [cTaken, Option.map_some] at challenge
    rw [xTaken, Option.map_some] at context
    rw [tTaken, Option.map_some] at timestamp
    refine ⟨c.value, x.value, t.value, c.value, x.value, t.value, ⟨challenge, context, timestamp⟩, ?_, ?_, ?_⟩
    · simp only [cTaken, xTaken, tTaken, Option.map_some, and_self]
    · rw [List.take_of_length_le (Nat.le_of_lt_succ cFits), List.take_of_length_le (Nat.le_of_lt_succ xFits)]
    · exact List.take_of_length_le (Nat.le_of_lt_succ tFits)

end

/-- On every provisioned board: POST /sign signs what was asked or refuses, if and only
    if a field is missing or the arrays hold what the fields join to. For names without
    a quote in front of the name of a field that means that every field fits its array. -/
theorem signPost_asked {s : Http} (reachable : Reachable s)
    (provisioned : (keystoreState s.keystore).1 = .provisioned) {o : FlatObject} (body : SignBody o) :
    (SignsWhatWasAsked s o ↔ FieldMissing o ∨ SameMessage o) ∧
    (NamesApart o → (SignsWhatWasAsked s o ↔ FieldMissing o ∨ FieldsFit o)) := by
  obtain ⟨set, r, stored, -⟩ := provisioned_record reachable.settled provisioned
  have coherent := reachable.settled set
  have exactly := signsWhatWasAsked_iff coherent stored body
  refine ⟨exactly, fun apart => ?_⟩
  rw [exactly]
  by_cases missing : FieldMissing o
  · exact iff_of_true (.inl missing) (.inl missing)
  · rw [sameMessage_iff apart missing]

/-- A request with this context. -/
def signObject (context : Bytes) : FlatObject :=
  tightObject [(ascii "challenge", ascii "c"), (ascii "context", context),
    (ascii "timestamp", ascii "1700000000")]

theorem provisionedBoard_record : storedRecord provisionedBoard.flash = some sampleRecord := by
  unfold provisionedBoard
  rw [(boot_quiet _ _).1]
  exact storedRecord_committed _ _ _

/-- The request of the manual is signed as it is. -/
theorem signPost_asked_sample : SignsWhatWasAsked provisionedBoard (signObject (ascii "x")) := by
  have body : SignBody (signObject (ascii "x")) :=
    ⟨(tightObject_formed _ (by decide +kernel)).1, by decide +kernel⟩
  have apart : NamesApart (signObject (ascii "x")) := by
    unfold NamesApart
    decide +kernel
  have values : ∀ f ∈ signFields,
      (valueOf f.1 (signObject (ascii "x")).members).any (fun v => v.length < f.2) = true := by
    decide +kernel
  have asked := signPost_asked provisionedBoard_reachable provisionedBoard_readsBack.state body
  rw [asked.2 apart]
  refine .inr ?_
  intro f field v value
  have fits := values f field
  rw [value] at fits
  exact of_decide_eq_true fits

/-- 128 characters are one more than the array holds. -/
def longContext : Bytes := List.replicate 128 0x61

/-- A board signs the first 127 of them. -/
theorem signPost_asked_long : ¬ SignsWhatWasAsked provisionedBoard (signObject longContext) := by
  have body : SignBody (signObject longContext) :=
    ⟨(tightObject_formed _ (by decide +kernel)).1, by decide +kernel⟩
  have apart : NamesApart (signObject longContext) := by
    unfold NamesApart
    decide +kernel
  have blanks : ∀ f ∈ signFields, (taken (signObject longContext) f.1).map (·.pad) = some [] := by
    decide +kernel
  have value : valueOf (ascii "context") (signObject longContext).members = some longContext := by
    decide +kernel
  have set := provisionedBoard_readsBack.writen
  have coherent := provisionedBoard_reachable.settled set
  have present : ¬ FieldMissing (signObject longContext) := by
    rintro ⟨f, field, missing⟩
    obtain ⟨m, found, pad⟩ := Option.map_eq_some_iff.mp (blanks f field)
    apply missing m found
    rw [pad]
    exact nofun
  rw [signsWhatWasAsked_iff coherent provisionedBoard_record body, sameMessage_iff apart present]
  rintro (missing | fit)
  · exact present missing
  · have long := fit (ascii "context", 128) (by simp [signFields]) longContext value
    rw [longContext, List.length_replicate] at long
    exact absurd long (Nat.lt_irrefl 128)

end Roman
