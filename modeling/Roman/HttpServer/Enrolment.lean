import Roman.HttpServer.Bodies
import Roman.Verdict
import Mathlib.Data.List.Find

/-! # The device id of POST /write

The rule on device ids is checked on what a 33-byte buffer holds of the value. So
it holds of the value itself unless the first 32 characters of a longer one make
a valid request.
-/

namespace Roman

open CMem CStr NorFlash Json TweetNacl Base64

/-- What is cut off at a length that no base64 text has did not decode anyway. -/
theorem b64Bytes_take (cap : Nat) {n : Nat} (odd : n % 4 ≠ 0) (room : (cap + 2) / 3 * 4 ≤ n) (s : Bytes) :
    b64Bytes cap (s.take n) = b64Bytes cap s := by
  by_cases fits : s.length ≤ n
  · rw [List.take_of_length_le fits]
  · apply Option.ext
    intro b
    rw [b64Bytes_eq_some_iff, b64Bytes_eq_some_iff]
    constructor
    · rintro ⟨-, -, text⟩
      have size := congrArg List.length text
      rw [base64Encode_length, List.length_take] at size
      omega
    · rintro ⟨-, small, text⟩
      have size := congrArg List.length text
      rw [base64Encode_length] at size
      omega

theorem names_take {pkB64 skB64 deviceId : Bytes} {r : Record} :
    Names (pkB64.take 63) (skB64.take 127) deviceId r ↔ Names pkB64 skB64 deviceId r := by
  have pk := b64Bytes_take 32 (n := 63) (by decide) (by decide) pkB64
  have sk := b64Bytes_take 64 (n := 127) (by decide) (by decide) skB64
  constructor
  · rintro ⟨pkBytes, skBytes, id⟩
    rw [pk] at pkBytes
    rw [sk] at skBytes
    exact ⟨pkBytes, skBytes, id⟩
  · rintro ⟨pkBytes, skBytes, id⟩
    refine ⟨?_, ?_, id⟩
    · rw [pk]
      exact pkBytes
    · rw [sk]
      exact skBytes

def writeKeys : List Bytes := [ascii "pk", ascii "sk", ascii "device_id"]

theorem writeKeys_field : ∀ key ∈ writeKeys, FieldKey key := by decide +kernel

/-- A flat object of plain strings, none of which spells one of these keys. -/
structure PlainBody (keys : List Bytes) (o : FlatObject) : Prop where
  formed : o.Formed
  names : ∀ m ∈ o.members, Plain m.name
  values : ∀ m ∈ o.members, ∀ key ∈ keys, m.value ≠ key

/-- The member of that name has whitespace other than spaces and tabs behind its colon. -/
def BrokenLine (key : Bytes) (o : FlatObject) : Prop :=
  ∃ m, (o.members.find? fun m => m.name = key) = some m ∧ ¬ Blanks m.pad

/-- A field of a plain body. -/
theorem jsonField_plain {keys : List Bytes} {o : FlatObject} (body : PlainBody keys o) {key : Bytes}
    (asked : key ∈ keys) (field : FieldKey key) {value : Bytes}
    (present : valueOf key o.members = some value) {n : Nat} (pos : 0 < n) :
    (BrokenLine key o ∧ jsonField o.text key n = none) ∨
      (¬ BrokenLine key o ∧ jsonField o.text key n = some (value.take (n - 1))) := by
  have same : (o.members.find? fun m => EndsIn m.name key) = o.members.find? fun m => m.name = key := by
    apply List.find?_congr
    intro m member
    simp only [endsIn_iff_of_quote (body.names m member).quote]
  obtain ⟨m, found, rfl⟩ := Option.map_eq_some_iff.mp present
  have eq := jsonField_object body.formed field (fun m member => body.values m member key asked) pos
  rw [same, found, Option.bind_some, memberGives] at eq
  by_cases blanks : Blanks m.pad
  · rw [if_pos blanks] at eq
    refine .inr ⟨?_, eq⟩
    rintro ⟨m', found', broken⟩
    rw [found, Option.some.injEq] at found'
    exact broken (found' ▸ blanks)
  · rw [if_neg blanks] at eq
    exact .inl ⟨⟨m, found, blanks⟩, eq⟩

/-- POST /write of this body answers 200 only if the device id follows the rule and is
    the one stored then, and 400 with flash unchanged for every other device id. -/
structure Enforced (s : Http) (env : FlashEnv) (o : FlatObject) (id : Bytes) : Prop where
  accepted : ∀ r s', handleWritePost s o.text.length env (some o.text) = .done (r, s') →
    r.status = 200 → IdRule id ∧ ∀ out : Region (RECORD_MAX_DEVICE_ID + 1),
      (keystoreDeviceId s'.keystore out (RECORD_MAX_DEVICE_ID + 1)).1 = true ∧
        (keystoreDeviceId s'.keystore out (RECORD_MAX_DEVICE_ID + 1)).2.1.cstr = id
  refused : ¬ IdRule id → ∃ r s', handleWritePost s o.text.length env (some o.text) = .done (r, s') ∧
    r.status = 400 ∧ s'.flash = s.flash

/-- `handleWritePost` returns what `writeReply` does, with the keystore it leaves. -/
theorem handleWritePost_reply {s : Http} {env : FlashEnv} {o : FlatObject} {r : Response} {k : Keystore} :
    (∃ s', handleWritePost s o.text.length env (some o.text) = .done (r, s') ∧ s'.keystore = k) ↔
      writeReply s.keystore o.text.length env o.text = .done (r, k) := by
  have spec := handleWritePost_spec s o.text.length env (some o.text)
  rw [bodyText, Option.getD_some] at spec
  rw [← spec]
  cases handleWritePost s o.text.length env (some o.text) with
  | cut f =>
      constructor
      · rintro ⟨s', done, -⟩
        cases done
      · intro done
        cases done
  | done answer =>
      obtain ⟨r', s'⟩ := answer
      rw [Outcome.map_done, Outcome.done.injEq, Prod.mk.injEq]
      constructor
      · rintro ⟨s'', done, keystore⟩
        cases done
        exact ⟨rfl, keystore⟩
      · rintro ⟨rfl, keystore⟩
        exact ⟨s', rfl, keystore⟩

/-- A refusal that leaves flash alone. -/
theorem enforced_of_refused {s : Http} {env : FlashEnv} {o : FlatObject} {text : String} {k : Keystore}
    (flash : k.store.flash = s.flash)
    (refusal : writeReply s.keystore o.text.length env o.text = .done (reply 400 text, k)) (id : Bytes) :
    Enforced s env o id := by
  obtain ⟨s', done, keystore⟩ := handleWritePost_reply.mpr refusal
  constructor
  · intro r s'' done' ok
    rw [done] at done'
    cases done'
    cases ok
  · intro _
    refine ⟨_, s', done, rfl, ?_⟩
    rw [Http.flash, keystore, flash]

theorem acceptedReply_status (f : Flash) : (acceptedReply f).status = 200 := by
  unfold acceptedReply
  split <;> rfl

/-- A request that names a record is answered 200 or 500, if it is answered. -/
theorem provision_named {k k' : Keystore} {env : FlashEnv} {pkB64 skB64 deviceId : Bytes} {r : Record}
    {status : KeystoreStatus} (unset : storageWriten k.store.flash = false)
    (names : Names pkB64 skB64 deviceId r)
    (done : keystoreProvision k env pkB64 skB64 deviceId = .done (status, k')) :
    status = .ok ∨ status = .errFlash := by
  obtain ⟨payload, boxWrite, eq⟩ := keystoreProvision_names unset names env
  rw [eq] at done
  have ends := written k.store.flash env (stagedImage r.payload (drawn k.store.rng)).bytes
  generalize eraseThenProgram _ _ _ = ended at ends done
  cases ends with
  | eraseCut reached => cases done
  | eraseFailed =>
      cases done
      exact .inr rfl
  | programCut n => cases done
  | programFailed =>
      cases done
      exact .inr rfl
  | ok =>
      cases done
      exact .inl rfl

section
variable {s : Http} (unset : keystoreWriten s.keystore = false) (env : FlashEnv) {o : FlatObject}
  (body : PlainBody writeKeys o) (size : o.text.length ≤ 1024) {pk sk id : Bytes}
  (pkValue : valueOf (ascii "pk") o.members = some pk)
  (skValue : valueOf (ascii "sk") o.members = some sk)
  (idValue : valueOf (ascii "device_id") o.members = some id)
include unset body size pkValue skValue idValue

/-- The three lookups of `handle_write_post`: one of them fails, or the request goes on
    with what the arrays hold. -/
theorem writeReply_plain :
    ((∃ key ∈ writeKeys, BrokenLine key o) ∧
      ∃ text, writeReply s.keystore o.text.length env o.text = .done (reply 400 text, s.keystore)) ∨
    ((¬ ∃ key ∈ writeKeys, BrokenLine key o) ∧
      writeReply s.keystore o.text.length env o.text =
        (keystoreProvision s.keystore env (pk.take 63) (sk.take 127) (id.take 32)).map fun w =>
          (provisionReply w.2.store.flash w.1, w.2)) := by
  have pkAsked : ascii "pk" ∈ writeKeys := by simp [writeKeys]
  have skAsked : ascii "sk" ∈ writeKeys := by simp [writeKeys]
  have idAsked : ascii "device_id" ∈ writeKeys := by simp [writeKeys]
  have pkField := jsonField_plain body pkAsked (writeKeys_field _ pkAsked) pkValue (n := 64) (by decide)
  have skField := jsonField_plain body skAsked (writeKeys_field _ skAsked) skValue (n := 128) (by decide)
  have idField := jsonField_plain body idAsked (writeKeys_field _ idAsked) idValue
    (n := RECORD_MAX_DEVICE_ID + 1) (by decide)
  have small : ¬ (o.text.length : Int) > HTTP_FORM_BODY_LIMIT := by
    rw [HTTP_FORM_BODY_LIMIT]
    omega
  rw [writeReply, if_neg (by rw [unset]; exact Bool.false_ne_true), if_neg (FlatObject.text_ne_nil o), if_neg small]
  rcases pkField with ⟨broken, missing⟩ | ⟨pkWhole, pkFound⟩
  · rw [missing]
    exact .inl ⟨⟨_, pkAsked, broken⟩, _, rfl⟩
  rcases skField with ⟨broken, missing⟩ | ⟨skWhole, skFound⟩
  · rw [pkFound, missing]
    exact .inl ⟨⟨_, skAsked, broken⟩, _, rfl⟩
  rcases idField with ⟨broken, missing⟩ | ⟨idWhole, idFound⟩
  · rw [pkFound, skFound, missing]
    exact .inl ⟨⟨_, idAsked, broken⟩, _, rfl⟩
  rw [pkFound, skFound, idFound]
  refine .inr ⟨?_, rfl⟩
  rintro ⟨key, asked, broken⟩
  simp only [writeKeys, List.mem_cons, List.not_mem_nil, or_false] at asked
  rcases asked with rfl | rfl | rfl
  · exact pkWhole broken
  · exact skWhole broken
  · exact idWhole broken

/-- An id that is too long is answered 200 or 500 when its start makes a valid request. -/
theorem not_enforced_of_long (whole : ¬ ∃ key ∈ writeKeys, BrokenLine key o) {r : Record}
    (names : Names pk sk (id.take 32) r) (long : 32 < id.length) : ¬ Enforced s env o id := by
  intro enforced
  have noRule : ¬ IdRule id := by
    intro rule
    have := rule.2.1
    rw [RECORD_MAX_DEVICE_ID] at this
    omega
  obtain ⟨reply, s', done, status, -⟩ := enforced.refused noRule
  have replied := handleWritePost_reply.mp ⟨s', done, rfl⟩
  rcases writeReply_plain unset env body size pkValue skValue idValue with ⟨broken, -⟩ | ⟨-, eq⟩
  · exact whole broken
  rw [eq] at replied
  cases provision : keystoreProvision s.keystore env (pk.take 63) (sk.take 127) (id.take 32) with
  | cut f =>
      rw [provision] at replied
      cases replied
  | done answer =>
      obtain ⟨verdict, k⟩ := answer
      rw [provision] at replied
      cases replied
      rcases provision_named unset (names_take.mpr names) provision with rfl | rfl
      · rw [provisionReply, acceptedReply_status] at status
        cases status
      · cases status

/-- An id that fits is checked as a whole. -/
theorem enforced_of_fits {r : Record} (names : Names pk sk id r) (fits : id.length ≤ 32) :
    Enforced s env o id := by
  have rule : IdRule id := by
    rw [names.deviceId]
    exact idRule_iff.mp r.valid
  have given := names_take.mpr names
  refine ⟨fun answer s' done ok => ⟨rule, ?_⟩, fun broken => absurd rule broken⟩
  have replied := handleWritePost_reply.mp ⟨s', done, rfl⟩
  rcases writeReply_plain unset env body size pkValue skValue idValue with ⟨-, text, eq⟩ | ⟨-, eq⟩
  · rw [eq, Outcome.done.injEq, Prod.mk.injEq] at replied
    rw [← replied.1] at ok
    cases ok
  rw [eq, List.take_of_length_le fits] at replied
  cases provision : keystoreProvision s.keystore env (pk.take 63) (sk.take 127) id with
  | cut f =>
      rw [provision] at replied
      cases replied
  | done result =>
      obtain ⟨verdict, k⟩ := result
      rw [provision, Outcome.map_done, Outcome.done.injEq, Prod.mk.injEq] at replied
      obtain ⟨rfl, keystore⟩ := replied
      rcases provision_named unset given provision with rfl | rfl
      · have back := (readsBack_of_provision provision given).deviceId
        rw [← given.deviceId] at back
        rw [← keystore]
        exact back
      · cases ok

/-- On an unprovisioned board the rule is enforced on what the client sent if and only if
    the id has at most 32 characters, or the request fails for another reason: a line break
    behind the colon of a field, or the first 32 characters do not make a valid request. -/
theorem deviceId_enforced_iff :
    Enforced s env o id ↔
      id.length ≤ 32 ∨ (∃ key ∈ writeKeys, BrokenLine key o) ∨ ∀ r, ¬ Names pk sk (id.take 32) r := by
  by_cases named : ∃ r, Names pk sk (id.take 32) r
  · obtain ⟨r, names⟩ := named
    rcases writeReply_plain unset env body size pkValue skValue idValue with
      ⟨broken, text, eq⟩ | ⟨whole, eq⟩
    · exact iff_of_true (enforced_of_refused rfl eq id) (.inr (.inl broken))
    by_cases fits : id.length ≤ 32
    · rw [List.take_of_length_le fits] at names
      exact iff_of_true (enforced_of_fits unset env body size pkValue skValue idValue names fits) (.inl fits)
    · refine iff_of_false (not_enforced_of_long unset env body size pkValue skValue idValue whole names
        (by omega)) ?_
      rintro (short | broken | unnamed)
      · exact fits short
      · exact whole broken
      · exact unnamed r names
  · refine iff_of_true ?_ (.inr (.inr (not_exists.mp named)))
    rcases writeReply_plain unset env body size pkValue skValue idValue with
      ⟨-, text, eq⟩ | ⟨-, eq⟩
    · exact enforced_of_refused rfl eq id
    have provision := keystoreProvision_eq unset env (pk.take 63) (sk.take 127) (id.take 32)
    cases request : requestedRecord (pk.take 63) (sk.take 127) (id.take 32) with
    | ok r => exact absurd ⟨r, names_take.mp (requestedRecord_ok_iff.mp request)⟩ named
    | error status =>
        rw [request] at provision
        obtain ⟨pkOut, skOut, done⟩ := provision
        rw [done] at eq
        rcases requestedRecord_error request with rfl | rfl
        · exact enforced_of_refused (k := { s.keystore with pk := pkOut, sk := skOut }) rfl eq id
        · exact enforced_of_refused (k := { s.keystore with pk := pkOut, sk := skOut }) rfl eq id

end

/-- A request for the sample record, under this id. -/
def writeBody (id : Bytes) : FlatObject :=
  tightObject [(ascii "pk", base64Encode samplePk), (ascii "sk", base64Encode sampleSeed),
    (ascii "device_id", id)]

theorem writeBody_plain (id : Bytes) (plain : Plain id) (other : ∀ key ∈ writeKeys, id ≠ key) :
    PlainBody writeKeys (writeBody id) := by
  have texts : Plain (base64Encode samplePk) ∧ Plain (base64Encode sampleSeed) := by decide +kernel
  have names : Plain (ascii "pk") ∧ Plain (ascii "sk") ∧ Plain (ascii "device_id") := by decide +kernel
  have apart : ∀ key ∈ writeKeys, base64Encode samplePk ≠ key ∧ base64Encode sampleSeed ≠ key := by
    decide +kernel
  obtain ⟨formed, nameText⟩ := tightObject_formed [(ascii "pk", base64Encode samplePk),
    (ascii "sk", base64Encode sampleSeed), (ascii "device_id", id)] (by
      simp only [List.mem_cons, List.not_mem_nil, or_false]
      rintro m (rfl | rfl | rfl)
      · exact ⟨names.1, texts.1⟩
      · exact ⟨names.2.1, texts.2⟩
      · exact ⟨names.2.2, plain⟩)
  refine ⟨formed, nameText, ?_⟩
  simp only [writeBody, tightObject, List.map_cons, List.map_nil, List.mem_cons, List.not_mem_nil, or_false]
  rintro m (rfl | rfl | rfl) key asked
  · exact (apart key asked).1
  · exact (apart key asked).2
  · exact other key asked

theorem tightObject_not_broken (key : Bytes) (members : List (Bytes × Bytes)) :
    ¬ BrokenLine key (tightObject members) := by
  rintro ⟨m, found, broken⟩
  obtain ⟨pair, -, rfl⟩ := List.mem_map.mp (List.mem_of_find?_eq_some found)
  exact broken nofun

section
variable (id : Bytes)

theorem writeBody_pk : valueOf (ascii "pk") (writeBody id).members = some (base64Encode samplePk) := by
  have same : ascii "pk" = ascii "pk" := rfl
  exact valueOf_cons_of_eq same _

theorem writeBody_sk : valueOf (ascii "sk") (writeBody id).members = some (base64Encode sampleSeed) := by
  have other : ascii "pk" ≠ ascii "sk" := by decide +kernel
  have same : ascii "sk" = ascii "sk" := rfl
  exact (valueOf_cons_of_ne other _).trans (valueOf_cons_of_eq same _)

theorem writeBody_id : valueOf (ascii "device_id") (writeBody id).members = some id := by
  have first : ascii "pk" ≠ ascii "device_id" := by decide +kernel
  have second : ascii "sk" ≠ ascii "device_id" := by decide +kernel
  have same : ascii "device_id" = ascii "device_id" := rfl
  exact (valueOf_cons_of_ne first _).trans ((valueOf_cons_of_ne second _).trans (valueOf_cons_of_eq same _))

end

/-- A blank board, zeroed and not booted yet. -/
def bareBoard : Http := .zeroed (fun _ => 0xFF) silent

theorem bareBoard_unset : keystoreWriten bareBoard.keystore = false := blankKeystore_unset

/-- The sample request is enforced there. -/
theorem deviceId_enforced_sample : Enforced bareBoard ⟨.ok, .ok⟩ (writeBody sampleId) sampleId := by
  have body := writeBody_plain sampleId (by decide +kernel) (by decide +kernel)
  rw [deviceId_enforced_iff bareBoard_unset ⟨.ok, .ok⟩ body (by decide +kernel) (writeBody_pk _)
    (writeBody_sk _) (writeBody_id _)]
  exact .inl (by decide)

/-- 33 characters of the device id alphabet. -/
def longId : Bytes := List.replicate 33 0x61

/-- A board takes the first 32 of them for the id. -/
theorem deviceId_enforced_long : ¬ Enforced bareBoard ⟨.ok, .ok⟩ (writeBody longId) longId := by
  have names : Names (base64Encode samplePk) (base64Encode sampleSeed) (longId.take 32)
      { sampleRecord with deviceId := longId.take 32, valid := by decide } :=
    ⟨sample_names.pk, sample_names.sk, rfl⟩
  have body := writeBody_plain longId (by decide +kernel) (by decide +kernel)
  have whole : ¬ ∃ key ∈ writeKeys, BrokenLine key (writeBody longId) := by
    rintro ⟨key, -, broken⟩
    exact tightObject_not_broken key _ broken
  exact not_enforced_of_long bareBoard_unset ⟨.ok, .ok⟩ body (by decide +kernel) (writeBody_pk _)
    (writeBody_sk _) (writeBody_id _) whole names (by decide)

end Roman
