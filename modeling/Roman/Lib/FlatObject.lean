import Roman.Lib.CString

/-! # Flat JSON objects as text, and substring searches in them

A flat object is a list of members whose names and values are strings. Its text
is a row of pieces between quotes, and a search for a quoted key can only hit
where a piece begins. The lemmas walk the text piece by piece.
-/

namespace CStr

open CMem

/-- A search begins to match at a byte equal to its first. -/
theorem strstr_skip {front : Bytes} {c : UInt8} (absent : c ∉ front) (rest key : Bytes) :
    strstr (front ++ rest) (c :: key) = strstr rest (c :: key) := by
  induction front with
  | nil => rfl
  | cons b front ih =>
      rw [List.mem_cons, not_or] at absent
      have away : ¬ (c :: key).isPrefixOf (b :: (front ++ rest)) = true := by
        intro here
        have start := List.isPrefixOf_iff_prefix.mp here
        exact absent.1 (List.cons_prefix_cons.mp start).1
      rw [List.cons_append, strstr, if_neg away]
      exact ih absent.2

/-- A search that begins with a delimiter, at a delimiter. -/
theorem strstr_delimiter (c : UInt8) (s tail : Bytes) :
    strstr (c :: tail) (c :: s) = if s <+: tail then some (c :: tail) else strstr tail (c :: s) := by
  have here : (c :: s).isPrefixOf (c :: tail) = true ↔ s <+: tail := by
    rw [List.isPrefixOf_iff_prefix, List.cons_prefix_cons, and_iff_right rfl]
  rw [strstr]
  exact if_congr here rfl rfl

/-- Between two delimiters a piece without one is the key exactly if the quoted key starts there. -/
theorem delimited_prefix_iff {c : UInt8} {key piece : Bytes} (keyFree : c ∉ key) (free : c ∉ piece)
    (rest : Bytes) : key ++ [c] <+: piece ++ c :: rest ↔ piece = key := by
  induction key generalizing piece with
  | nil =>
      cases piece with
      | nil => simp
      | cons b piece =>
          have other : c ≠ b := fun eq => free (by simp [eq])
          simp [other]
  | cons k key ih =>
      rw [List.mem_cons, not_or] at keyFree
      cases piece with
      | nil => simp [Ne.symm keyFree.1]
      | cons b piece =>
          rw [List.mem_cons, not_or] at free
          rw [List.cons_append, List.cons_append, List.cons_prefix_cons, ih keyFree.2 free.2,
            List.cons.injEq, eq_comm]

/-- A search for a delimited key at a piece. -/
theorem strstr_piece {c : UInt8} {key piece : Bytes} (keyFree : c ∉ key) (free : c ∉ piece)
    (rest : Bytes) :
    strstr (c :: (piece ++ c :: rest)) (c :: (key ++ [c])) =
      if piece = key then some (c :: (key ++ c :: rest)) else strstr (c :: rest) (c :: (key ++ [c])) := by
  have here : (c :: (key ++ [c])).isPrefixOf (c :: (piece ++ c :: rest)) = true ↔ piece = key := by
    rw [List.isPrefixOf_iff_prefix, List.cons_prefix_cons, delimited_prefix_iff keyFree free]
    simp
  by_cases same : piece = key
  · rw [strstr, if_pos (here.mpr same), if_pos same, same]
  · rw [strstr, if_neg (mt here.mp same), if_neg same]
    exact strstr_skip free (c :: rest) (key ++ [c])

/-- No delimiter, no match but at the start, and a key does not match there alone. -/
theorem strstr_last {c : UInt8} {piece : Bytes} (free : c ∉ piece) (key : Bytes) :
    strstr (c :: piece) (c :: (key ++ [c])) = none := by
  rw [strstr_eq_none_iff]
  rintro ⟨front, back, eq⟩
  have count := congrArg (List.count c) eq
  have none : List.count c piece = 0 := List.count_eq_zero.mpr free
  simp only [List.count_cons_self, none, List.count_append, List.count_nil] at count
  omega

end CStr

namespace Json

open CMem CStr

/-- Insignificant whitespace. -/
def isWs (b : UInt8) : Bool := b == 0x20 || b == 0x09 || b == 0x0A || b == 0x0D

def Ws (s : Bytes) : Prop := ∀ b ∈ s, isWs b = true

/-- A string that stands for itself: no quote, no backslash, no control character. -/
def Plain (s : Bytes) : Prop := ∀ b ∈ s, 0x20 ≤ b ∧ b ≠ 0x22 ∧ b ≠ 0x5C

/-- Every quote has a backslash in front of it. -/
def Escaped (s : Bytes) : Prop := ∀ a b, s = a ++ 0x22 :: b → ∃ a', a = a' ++ [0x5C]

instance (s : Bytes) : Decidable (Ws s) := List.decidableBAll (fun b => isWs b = true) s

instance (s : Bytes) : Decidable (Plain s) :=
  List.decidableBAll (fun b => 0x20 ≤ b ∧ b ≠ 0x22 ∧ b ≠ 0x5C) s

theorem Ws.notMem {s : Bytes} (ws : Ws s) {c : UInt8} (solid : isWs c = false) : c ∉ s := by
  intro member
  rw [ws c member] at solid
  cases solid

theorem Plain.quote {s : Bytes} (plain : Plain s) : (0x22 : UInt8) ∉ s :=
  fun member => (plain _ member).2.1 rfl

theorem Plain.nulFree {s : Bytes} (plain : Plain s) : NulFree s := by
  intro b member zero
  exact absurd (zero ▸ (plain b member).1) (by decide)

theorem Plain.escaped {s : Bytes} (plain : Plain s) : Escaped s := by
  intro a b eq
  exact absurd (by simp [eq]) plain.quote

theorem Plain.take {s : Bytes} (plain : Plain s) (n : Nat) : Plain (s.take n) :=
  fun b member => plain b (List.mem_of_mem_take member)

/-- The name ends in the key, and the key starts the name or follows a quote in it. -/
def EndsIn (name key : Bytes) : Prop := 0x22 :: key <:+ 0x22 :: name

instance (name key : Bytes) : Decidable (EndsIn name key) :=
  inferInstanceAs (Decidable (0x22 :: key <:+ 0x22 :: name))

theorem endsIn_iff_of_quote {name key : Bytes} (free : (0x22 : UInt8) ∉ name) :
    EndsIn name key ↔ name = key := by
  constructor
  · rintro ⟨front, eq⟩
    cases front with
    | nil => exact (List.cons.inj eq).2.symm
    | cons b front =>
        have tail := (List.cons.inj eq).2
        exact absurd (by simp [← tail]) free
  · rintro rfl
    exact List.suffix_refl _

/-- A quote inside a name splits it; the key can only be at its end. -/
theorem endsIn_split {front back key : Bytes} (keyFree : (0x22 : UInt8) ∉ key) :
    EndsIn (front ++ 0x22 :: back) key ↔ EndsIn back key := by
  unfold EndsIn
  constructor
  · intro ends
    have whole : 0x22 :: back <:+ 0x22 :: (front ++ 0x22 :: back) :=
      ⟨0x22 :: front, by rw [List.cons_append]⟩
    rcases List.suffix_or_suffix_of_suffix ends whole with short | long
    · exact short
    · rcases List.suffix_cons_iff.mp long with same | inside
      · exact same.symm ▸ List.suffix_refl _
      · exact absurd (inside.subset (List.mem_cons_self ..)) keyFree
  · intro ends
    exact ends.trans ⟨0x22 :: front, by rw [List.cons_append]⟩

/-- A search for a quoted key at a name, whatever quotes are escaped in it. -/
theorem strstr_name {key : Bytes} (quote : (0x22 : UInt8) ∉ key) {name : Bytes} (escaped : Escaped name)
    (apart : (0x5C : UInt8) ∉ key ∨ (0x22 : UInt8) ∉ name) (rest : Bytes) :
    strstr (0x22 :: (name ++ 0x22 :: rest)) (0x22 :: (key ++ [0x22])) =
      if EndsIn name key then some (0x22 :: (key ++ 0x22 :: rest))
      else strstr (0x22 :: rest) (0x22 :: (key ++ [0x22])) := by
  induction size : name.length using Nat.strongRecOn generalizing name with
  | ind n ih =>
      by_cases inside : (0x22 : UInt8) ∈ name
      · have backslash : (0x5C : UInt8) ∉ key := apart.resolve_right (not_not.mpr inside)
        obtain ⟨front, back, rfl, free⟩ := List.eq_append_cons_of_mem inside
        obtain ⟨front', tail⟩ := escaped front back rfl
        have other : front ≠ key := by
          rintro rfl
          exact backslash (by simp [tail])
        have later : Escaped back := by
          intro a b eq
          obtain ⟨a', eq'⟩ := escaped (front ++ 0x22 :: a) b (by rw [eq]; simp)
          -- the backslash is the last byte of `a`: what ends in the quote does not end in it
          have last : (0x22 :: a).getLast? = some 0x5C := by
            have same := congrArg List.getLast? eq'
            rw [List.getLast?_append_of_ne_nil _ (List.cons_ne_nil _ _)] at same
            rw [same, List.getLast?_concat]
          cases a with
          | nil => cases last
          | cons b' a =>
              rw [List.getLast?_cons_cons] at last
              obtain ⟨a', tail'⟩ := List.getLast?_eq_some_iff.mp last
              exact ⟨a', tail'⟩
        have first := strstr_piece quote free (back ++ 0x22 :: rest)
        rw [if_neg other] at first
        rw [List.append_assoc, List.cons_append, first,
          ih back.length (by simp only [List.length_append, List.length_cons] at size; omega) later
            (.inl backslash) rfl]
        simp only [endsIn_split quote]
      · rw [strstr_piece quote inside]
        simp only [endsIn_iff_of_quote inside]

/-- One member, with the whitespace around its parts. -/
structure Member where
  lead : Bytes
  name : Bytes
  gap : Bytes
  pad : Bytes
  value : Bytes
  trail : Bytes

namespace Member

/-- What stands behind the name, in front of `rest`. -/
def assigned (m : Member) (rest : Bytes) : Bytes :=
  m.gap ++ 0x3A :: (m.pad ++ 0x22 :: (m.value ++ 0x22 :: (m.trail ++ rest)))

/-- The member in front of `rest`. -/
def text (m : Member) (rest : Bytes) : Bytes :=
  m.lead ++ 0x22 :: (m.name ++ 0x22 :: m.assigned rest)

structure Formed (m : Member) : Prop where
  lead : Ws m.lead
  name : Escaped m.name
  gap : Ws m.gap
  pad : Ws m.pad
  value : Plain m.value
  trail : Ws m.trail

end Member

structure FlatObject where
  before : Bytes
  /-- What stands between the braces if there is no member. -/
  blank : Bytes
  members : List Member
  after : Bytes

/-- The members behind the first, each behind its comma, and the closing brace. -/
def membersTail (after : Bytes) : List Member → Bytes
  | [] => 0x7D :: after
  | m :: ms => 0x2C :: m.text (membersTail after ms)

def membersText (blank after : Bytes) : List Member → Bytes
  | [] => blank ++ 0x7D :: after
  | m :: ms => m.text (membersTail after ms)

namespace FlatObject

def text (o : FlatObject) : Bytes :=
  o.before ++ 0x7B :: membersText o.blank o.after o.members

structure Formed (o : FlatObject) : Prop where
  before : Ws o.before
  blank : Ws o.blank
  members : ∀ m ∈ o.members, m.Formed
  after : Ws o.after

end FlatObject

/-- The value of the first member of that name. -/
def valueOf (key : Bytes) (ms : List Member) : Option Bytes :=
  (ms.find? fun m => m.name = key).map (·.value)

/-- A key that is not mistaken for what stands between two strings. -/
structure Searchable (key : Bytes) : Prop where
  quote : (0x22 : UInt8) ∉ key
  colon : (0x3A : UInt8) ∉ key
  comma : ∀ a b, Ws a → Ws b → key ≠ a ++ 0x2C :: b

/-- Behind the last value there is nothing left to find. -/
theorem strstr_end {trail after : Bytes} (wsTrail : Ws trail) (wsAfter : Ws after) (key : Bytes) :
    strstr (0x22 :: (trail ++ 0x7D :: after)) (0x22 :: (key ++ [0x22])) = none := by
  apply strstr_last
  simp [wsTrail.notMem (c := 0x22) rfl, wsAfter.notMem (c := 0x22) rfl]

/-- An object without members has no string in it. -/
theorem strstr_empty {before blank after s : Bytes} (wsBefore : Ws before) (wsBlank : Ws blank)
    (wsAfter : Ws after) : strstr (before ++ 0x7B :: membersText blank after []) (0x22 :: s) = none := by
  have free : (0x22 : UInt8) ∉ before ++ 0x7B :: membersText blank after [] := by
    simp [membersText, wsBefore.notMem (c := 0x22) rfl, wsBlank.notMem (c := 0x22) rfl,
      wsAfter.notMem (c := 0x22) rfl]
  have skip := strstr_skip free [] s
  rw [List.append_nil] at skip
  rw [skip, strstr, if_neg (List.cons_ne_nil _ _)]

/-- A member is searched from each of its four quotes in turn. -/
theorem strstr_text {m : Member} (formed : m.Formed) (plain : (0x22 : UInt8) ∉ m.name) (s rest : Bytes) :
    strstr (m.text rest) (0x22 :: s) =
      if s <+: m.name ++ 0x22 :: m.assigned rest then some (0x22 :: (m.name ++ 0x22 :: m.assigned rest))
      else if s <+: m.assigned rest then some (0x22 :: m.assigned rest)
      else if s <+: m.value ++ 0x22 :: (m.trail ++ rest) then some (0x22 :: (m.value ++ 0x22 :: (m.trail ++ rest)))
      else if s <+: m.trail ++ rest then some (0x22 :: (m.trail ++ rest))
      else strstr (m.trail ++ rest) (0x22 :: s) := by
  have lead : (0x22 : UInt8) ∉ m.lead := formed.lead.notMem rfl
  have between : (0x22 : UInt8) ∉ m.gap ++ 0x3A :: m.pad := by
    simp [formed.gap.notMem (c := 0x22) rfl, formed.pad.notMem (c := 0x22) rfl]
  have assigned : m.assigned rest = m.gap ++ 0x3A :: m.pad ++ 0x22 :: (m.value ++ 0x22 :: (m.trail ++ rest)) := by
    rw [Member.assigned, List.append_assoc, List.cons_append]
  have second : strstr (m.assigned rest) (0x22 :: s) = strstr (0x22 :: (m.value ++ 0x22 :: (m.trail ++ rest))) (0x22 :: s) := by
    rw [assigned, strstr_skip between]
  rw [Member.text, strstr_skip lead, strstr_delimiter, strstr_skip plain, strstr_delimiter, second, strstr_delimiter,
    strstr_skip formed.value.quote, strstr_delimiter]

theorem Searchable.of_notMem {key : Bytes} (quote : (0x22 : UInt8) ∉ key) (colon : (0x3A : UInt8) ∉ key)
    (comma : (0x2C : UInt8) ∉ key) : Searchable key where
  quote
  colon
  comma a b _ _ same := comma (by simp [same])

section
variable {key : Bytes} (searchable : Searchable key)
include searchable

/-- A member is searched by its name first and by its value second. -/
theorem strstr_member {m : Member} (formed : m.Formed)
    (apart : (0x5C : UInt8) ∉ key ∨ (0x22 : UInt8) ∉ m.name) (rest : Bytes) :
    strstr (m.text rest) (0x22 :: (key ++ [0x22])) =
      if EndsIn m.name key then some (0x22 :: (key ++ 0x22 :: m.assigned rest))
      else if m.value = key then some (0x22 :: (key ++ 0x22 :: (m.trail ++ rest)))
      else strstr (0x22 :: (m.trail ++ rest)) (0x22 :: (key ++ [0x22])) := by
  have lead : (0x22 : UInt8) ∉ m.lead := formed.lead.notMem rfl
  have colon : m.gap ++ 0x3A :: m.pad ≠ key := by
    rintro rfl
    exact searchable.colon (by simp)
  have free : (0x22 : UInt8) ∉ m.gap ++ 0x3A :: m.pad := by
    simp [formed.gap.notMem (c := 0x22) rfl, formed.pad.notMem (c := 0x22) rfl]
  have between := strstr_piece searchable.quote free (m.value ++ 0x22 :: (m.trail ++ rest))
  rw [if_neg colon] at between
  rw [Member.text, strstr_skip lead, strstr_name searchable.quote formed.name apart]
  have assigned : m.assigned rest =
      m.gap ++ 0x3A :: m.pad ++ 0x22 :: (m.value ++ 0x22 :: (m.trail ++ rest)) := by
    simp [Member.assigned]
  by_cases ends : EndsIn m.name key
  · rw [if_pos ends, if_pos ends]
  · rw [if_neg ends, if_neg ends, assigned, between, strstr_piece searchable.quote formed.value.quote]

/-- Behind any other value the search goes on at the next member. -/
theorem strstr_next {trail : Bytes} (wsTrail : Ws trail) {m : Member} (formed : m.Formed) (rest : Bytes) :
    strstr (0x22 :: (trail ++ 0x2C :: m.text rest)) (0x22 :: (key ++ [0x22])) =
      strstr (m.text rest) (0x22 :: (key ++ [0x22])) := by
  have lead : (0x22 : UInt8) ∉ m.lead := formed.lead.notMem rfl
  have free : (0x22 : UInt8) ∉ trail ++ 0x2C :: m.lead := by
    simp [wsTrail.notMem (c := 0x22) rfl, lead]
  have other : trail ++ 0x2C :: m.lead ≠ key := fun same =>
    searchable.comma trail m.lead wsTrail formed.lead same.symm
  have piece := strstr_piece searchable.quote free (m.name ++ 0x22 :: m.assigned rest)
  rw [if_neg other, List.append_assoc, List.cons_append] at piece
  rw [Member.text, piece, strstr_skip lead]

end

end Json
