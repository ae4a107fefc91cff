import Roman.HttpServer.Fields
import Roman.HttpServer.Replies

/-! # The fields of a request body

No value of the object spells the key. Then only a name can be hit, and what a
handler gets for a field is the beginning of the value of the member that the key
names.
-/

namespace Roman

open CMem CStr Json

section
variable {n : Nat} {key after : Bytes} (pos : 0 < n) (short : key.length ≤ 125)
  (searchable : Searchable key) (backslash : (0x5C : UInt8) ∉ key) (wsAfter : Ws after)
include pos short searchable backslash wsAfter

theorem finds_only_names {json : Bytes} {m : Member} {ms : List Member}
    (formed : ∀ m' ∈ m :: ms, m'.Formed ∧ m'.value ≠ key)
    (search : strstr json (0x22 :: (key ++ [0x22])) =
      strstr (m.text (membersTail after ms)) (0x22 :: (key ++ [0x22]))) (buf : Region n) :
    Finds json key buf (((m :: ms).find? fun m => EndsIn m.name key).bind (memberGives n)) := by
  induction ms generalizing m with
  | nil =>
      obtain ⟨form, other⟩ := formed m (List.mem_cons_self ..)
      rw [strstr_member searchable form (.inl backslash), if_neg other] at search
      by_cases named : EndsIn m.name key
      · rw [if_pos named] at search
        rw [List.find?_cons_of_pos (by simpa using named)]
        exact finds_cond form.value.nulFree pos
          (fun buf => jsonGetString_named searchable short form pos buf search) buf
      · rw [if_neg named, membersTail, strstr_end form.trail wsAfter] at search
        rw [List.find?_cons_of_neg (by simpa using named)]
        exact .none (jsonGetString_miss (by rw [needle_short short, search]) buf)
  | cons m' ms ih =>
      obtain ⟨form, other⟩ := formed m (List.mem_cons_self ..)
      have later : ∀ m'' ∈ m' :: ms, m''.Formed ∧ m''.value ≠ key := fun m'' member =>
        formed m'' (List.mem_cons_of_mem m member)
      rw [strstr_member searchable form (.inl backslash), if_neg other] at search
      by_cases named : EndsIn m.name key
      · rw [if_pos named] at search
        rw [List.find?_cons_of_pos (by simpa using named)]
        exact finds_cond form.value.nulFree pos
          (fun buf => jsonGetString_named searchable short form pos buf search) buf
      · rw [if_neg named, membersTail,
          strstr_next searchable form.trail (later m' (List.mem_cons_self ..)).1] at search
        rw [List.find?_cons_of_neg (by simpa using named)]
        exact ih later search

end

/-- A key that a handler asks for. -/
structure FieldKey (key : Bytes) : Prop where
  short : key.length ≤ 125
  plain : ∀ b ∈ key, b ≠ 0x22 ∧ b ≠ 0x5C ∧ b ≠ 0x3A ∧ b ≠ 0x2C

instance (key : Bytes) : Decidable (FieldKey key) :=
  have : Decidable (∀ b ∈ key, b ≠ 0x22 ∧ b ≠ 0x5C ∧ b ≠ 0x3A ∧ b ≠ 0x2C) := List.decidableBAll _ _
  decidable_of_iff (key.length ≤ 125 ∧ ∀ b ∈ key, b ≠ 0x22 ∧ b ≠ 0x5C ∧ b ≠ 0x3A ∧ b ≠ 0x2C)
    ⟨fun both => ⟨both.1, both.2⟩, fun both => ⟨both.1, both.2⟩⟩

theorem FieldKey.searchable {key : Bytes} (field : FieldKey key) : Searchable key :=
  .of_notMem (fun member => (field.plain _ member).1 rfl) (fun member => (field.plain _ member).2.2.1 rfl)
    fun member => (field.plain _ member).2.2.2 rfl

theorem FlatObject.text_ne_nil (o : FlatObject) : o.text ≠ [] := by
  simp [FlatObject.text]

/-- The field of a handler, read off the members. -/
theorem jsonField_object {o : FlatObject} (formed : o.Formed) {key : Bytes} (field : FieldKey key)
    (values : ∀ m ∈ o.members, m.value ≠ key) {n : Nat} (pos : 0 < n) :
    jsonField o.text key n =
      (o.members.find? fun m => EndsIn m.name key).bind (memberGives n) := by
  have finds : ∀ buf : Region n, Finds o.text key buf
      ((o.members.find? fun m => EndsIn m.name key).bind (memberGives n)) := by
    intro buf
    cases members : o.members with
    | nil =>
        have search : strstr o.text (0x22 :: (key ++ [0x22])) = none := by
          rw [FlatObject.text, members]
          exact strstr_empty formed.before formed.blank formed.after
        exact .none (jsonGetString_miss (by rw [needle_short field.short, search]) buf)
    | cons m ms =>
        have free : (0x22 : UInt8) ∉ o.before ++ [0x7B] := by
          simp [formed.before.notMem (c := 0x22) rfl]
        have backslash : (0x5C : UInt8) ∉ key := fun member => (field.plain _ member).2.1 rfl
        apply finds_only_names pos field.short field.searchable backslash formed.after
        · intro m' member
          rw [← members] at member
          exact ⟨formed.members m' member, values m' member⟩
        · rw [FlatObject.text, members, List.append_cons, strstr_skip free]
          rfl
  have fresh := finds (.fill n 0)
  unfold jsonField
  generalize (o.members.find? fun m => EndsIn m.name key).bind (memberGives n) = v at fresh ⊢
  cases fresh with
  | none missed => simp [missed]
  | some found text => simp [found, text]

end Roman
