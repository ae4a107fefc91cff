import Roman.RecordCodec

/-! # The outputs of the decoder

`record_decode` looks at the payload before it writes anything, but at the room for the
device id only when the keys are already copied. A payload that is refused for want of
room there has changed the keys.
-/

namespace Roman

open CMem CStr

variable {n : Nat}

/-- `record_decode` with the check of its source, which `none` stands for when it is NULL. -/
def recordDecodeFrom (src : Option Bytes) (out : DecodeOut n) (deviceIdCap : Nat) : Bool × DecodeOut n :=
  match src with
  | none => (false, out)
  | some src => recordDecode src out deviceIdCap

/-- Every output holds its part of the record, and the id is terminated inside its array. -/
structure Delivered (src : Bytes) (r : Record) (out after : DecodeOut n) (deviceIdCap : Nat) : Prop where
  pk : after.pk = out.pk.map fun _ => r.pk
  sk : after.sk = out.sk.map fun _ => r.sk
  absent : out.deviceId = none → after.deviceId = none
  deviceId : ∀ d, out.deviceId = some d → ∃ d', after.deviceId = some d' ∧
    d'.load 0 ((idField src).length + 1) = idField src ++ [0] ∧ (idField src).length < deviceIdCap

/-- A call fails with its outputs as they were, or it delivers the whole record. -/
structure Atomic (src : Option Bytes) (out : DecodeOut n) (deviceIdCap : Nat) : Prop where
  failed : (recordDecodeFrom src out deviceIdCap).1 = false → (recordDecodeFrom src out deviceIdCap).2 = out
  decoded : (recordDecodeFrom src out deviceIdCap).1 = true → ∃ bytes r, src = some bytes ∧
    decoded bytes = some r ∧ Delivered bytes r out (recordDecodeFrom src out deviceIdCap).2 deviceIdCap

/-- The payload is one that is accepted, there is no room for its id, and one of the
    keys is to be written and is not there yet. -/
def LateRefusal (src : Option Bytes) (out : DecodeOut n) (deviceIdCap : Nat) : Prop :=
  ∃ bytes r, src = some bytes ∧ decoded bytes = some r ∧
    (out.deviceId.isSome ∧ deviceIdCap ≤ (idField bytes).length) ∧
    ((∃ pk, out.pk = some pk ∧ pk ≠ r.pk) ∨ ∃ sk, out.sk = some sk ∧ sk ≠ r.sk)

/-- The keys of a refused payload are there already, or are not asked for. -/
theorem copied_eq_iff (out : DecodeOut n) (r : Record) : out.copied r = out ↔
    ¬ ((∃ pk, out.pk = some pk ∧ pk ≠ r.pk) ∨ ∃ sk, out.sk = some sk ∧ sk ≠ r.sk) := by
  obtain ⟨pk, sk, deviceId⟩ := out
  cases pk <;> cases sk <;> simp [DecodeOut.copied, eq_comm]

/-- A call is atomic unless it refuses the payload when the keys are already copied. -/
theorem recordDecode_atomic_iff (src : Option Bytes) (out : DecodeOut n) {deviceIdCap : Nat} (room : deviceIdCap ≤ n) :
    Atomic src out deviceIdCap ↔ ¬ LateRefusal src out deviceIdCap := by
  cases src with
  | none =>
      refine iff_of_true ⟨fun _ => rfl, nofun⟩ ?_
      rintro ⟨bytes, r, none, -⟩
      cases none
  | some bytes =>
      have spec := recordDecode_spec bytes out deviceIdCap
      cases eq : decoded bytes with
      | none =>
          rw [eq] at spec
          refine iff_of_true ⟨fun _ => congrArg Prod.snd spec, ?_⟩ ?_
          · intro accepted
            rw [recordDecodeFrom, spec] at accepted
            cases accepted
          · rintro ⟨bytes', r, same, accepted, -⟩
            cases same
            rw [eq] at accepted
            cases accepted
      | some r =>
          rw [eq] at spec
          dsimp only at spec
          have late : LateRefusal (some bytes) out deviceIdCap ↔
              (out.deviceId.isSome ∧ deviceIdCap ≤ (idField bytes).length) ∧ ¬ out.copied r = out := by
            rw [copied_eq_iff, not_not]
            constructor
            · rintro ⟨bytes', r', same, accepted, refusal⟩
              cases same
              rw [eq] at accepted
              cases accepted
              exact refusal
            · intro refusal
              exact ⟨bytes, r, rfl, eq, refusal⟩
          rw [late]
          cases id : out.deviceId with
          | none =>
              rw [id] at spec
              refine iff_of_true ⟨?_, fun _ => ⟨bytes, r, rfl, eq, ?_⟩⟩ (fun refusal => nomatch refusal.1.1)
              · intro refused
                rw [recordDecodeFrom, spec] at refused
                cases refused
              · rw [recordDecodeFrom, spec]
                refine ⟨rfl, rfl, fun none => none, fun d present => ?_⟩
                rw [id] at present
                cases present
          | some d =>
              rw [id] at spec
              dsimp only at spec
              by_cases small : deviceIdCap < (idField bytes).length + 1
              · rw [if_pos small] at spec
                have short : (some d).isSome ∧ deviceIdCap ≤ (idField bytes).length := ⟨rfl, Nat.lt_succ_iff.mp small⟩
                constructor
                · rintro atomic ⟨-, changed⟩
                  have failed := atomic.failed
                  rw [recordDecodeFrom, spec] at failed
                  exact changed (failed rfl)
                · intro kept
                  refine ⟨fun _ => ?_, ?_⟩
                  · rw [recordDecodeFrom, spec]
                    by_contra changed
                    exact kept ⟨short, changed⟩
                  · intro accepted
                    rw [recordDecodeFrom, spec] at accepted
                    cases accepted
              · rw [if_neg small] at spec
                refine iff_of_true ⟨?_, fun _ => ⟨bytes, r, rfl, eq, ?_⟩⟩ (fun refusal => ?_)
                · intro refused
                  rw [recordDecodeFrom, spec] at refused
                  cases refused
                · rw [recordDecodeFrom, spec]
                  refine ⟨rfl, rfl, fun absent => ?_, fun d' present => ?_⟩
                  · rw [id] at absent
                    cases absent
                  · rw [id] at present
                    cases present
                    refine ⟨_, rfl, ?_, by omega⟩
                    apply Region.load_store_of_eq
                    · rw [List.length_append, List.length_singleton]
                    · omega
                · have small' := refusal.1.2
                  omega

/-- An array for the longest id is room enough, as `keystore_load` has it. -/
theorem not_lateRefusal {src : Option Bytes} {out : DecodeOut n} {deviceIdCap : Nat}
    (room : RECORD_MAX_DEVICE_ID < deviceIdCap) : ¬ LateRefusal src out deviceIdCap := by
  rintro ⟨bytes, r, -, eq, ⟨-, short⟩, -⟩
  have well := wellFormed_of_decoded eq
  have bound := well.idLen.2
  rw [idField_length well] at short
  omega

/-- A payload for the id "a". -/
def shortPayload : Bytes := 1 :: 1 :: List.replicate 96 0 ++ [0x61]

theorem recordDecode_atomic_sample : Atomic (some shortPayload)
    (⟨some (.fill 32 0xFF), some (.fill 64 0xFF), some (.fill (RECORD_MAX_DEVICE_ID + 1) 0)⟩ :
      DecodeOut (RECORD_MAX_DEVICE_ID + 1)) (RECORD_MAX_DEVICE_ID + 1) :=
  (recordDecode_atomic_iff _ _ (Nat.le_refl _)).mpr (not_lateRefusal (Nat.lt_succ_self _))

/-- The id "a" does not fit one byte with its NUL, and the public key is overwritten. -/
theorem recordDecode_late : ¬ ∀ (src : Option Bytes) (out : DecodeOut 1), Atomic src out 1 := by
  intro all
  have failed := (all (some shortPayload) ⟨some (.fill 32 0xFF), none, some (.fill 1 0)⟩).failed (by decide)
  exact absurd failed (by decide)

end Roman
