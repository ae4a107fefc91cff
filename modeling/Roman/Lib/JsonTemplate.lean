import Mathlib.Algebra.GroupWithZero.Nat
import Roman.Lib.JsonText

/-! # Templates of JSON texts

A template is a text with holes: places inside a string and places for a whole
value. A reader checks the template once; then the text is well-formed whatever
fills the holes, as long as characters go into strings and values stand for values.
The reader takes texts without whitespace between tokens and without empty arrays
and objects, which is what a program prints that writes its replies by hand.
-/

namespace Json

open CMem CStr

/-- A byte of the text, or a hole. -/
inductive Piece where
  | byte (b : UInt8)
  | chars
  | value

/-- What a template can turn into. -/
inductive Fills : List Piece → Bytes → Prop where
  | nil : Fills [] []
  | byte {b : UInt8} {ts : List Piece} {s : Bytes} (rest : Fills ts s) : Fills (.byte b :: ts) (b :: s)
  | chars {x : Bytes} {ts : List Piece} {s : Bytes} (chars : Chars x) (rest : Fills ts s) :
      Fills (.chars :: ts) (x ++ s)
  | value {v : Value} {x : Bytes} {ts : List Piece} {s : Bytes} (text : Text v x) (rest : Fills ts s) :
      Fills (.value :: ts) (x ++ s)

def isPrinted (b : UInt8) : Bool := 0x20 ≤ b && b < 0x80 && b != 0x22 && b != 0x5C

/-- Behind an opening quote: what follows the closing one. -/
def readString : List Piece → Option (List Piece)
  | .byte b :: ts => if b = 0x22 then some ts else if isPrinted b then readString ts else none
  | .chars :: ts => readString ts
  | _ => none

def skipByte (b : UInt8) : List Piece → Option (List Piece)
  | .byte c :: ts => if c = b then some ts else none
  | _ => none

def skipBytes : Bytes → List Piece → Option (List Piece)
  | [], ts => some ts
  | b :: s, ts => (skipByte b ts).bind (skipBytes s)

inductive Expect where
  | value
  /-- The members of an object and its closing brace. -/
  | members
  /-- The items of an array and its closing bracket. -/
  | items

/-- What is left of a template behind what is expected. -/
def read : Nat → Expect → List Piece → Option (List Piece)
  | 0, _, _ => none
  | _ + 1, .value, .value :: ts => some ts
  | n + 1, .value, .byte b :: ts =>
      if b = 0x22 then readString ts
      else if b = 0x7B then read n .members ts
      else if b = 0x5B then read n .items ts
      else if b = 0x74 then skipBytes (ascii "rue") ts
      else if b = 0x66 then skipBytes (ascii "alse") ts
      else if b = 0x6E then skipBytes (ascii "ull") ts
      else none
  | _ + 1, .value, _ => none
  | n + 1, .members, ts =>
      (skipByte 0x22 ts).bind fun ts => (readString ts).bind fun ts => (skipByte 0x3A ts).bind fun ts =>
        (read n .value ts).bind fun ts =>
          match skipByte 0x2C ts with
          | some ts => read n .members ts
          | none => skipByte 0x7D ts
  | n + 1, .items, ts =>
      (read n .value ts).bind fun ts =>
        match skipByte 0x2C ts with
        | some ts => read n .items ts
        | none => skipByte 0x5D ts

theorem skipByte_fills {b : UInt8} {ts rest : List Piece} {s : Bytes} (skipped : skipByte b ts = some rest)
    (fills : Fills ts s) : ∃ s', s = b :: s' ∧ Fills rest s' := by
  cases fills with
  | nil | chars chars fills | value text fills => cases skipped
  | byte fills =>
      rw [skipByte] at skipped
      split at skipped
      · rename_i same
        cases skipped
        exact ⟨_, by rw [same], fills⟩
      · cases skipped

theorem skipBytes_fills {p : Bytes} {ts rest : List Piece} {s : Bytes} (skipped : skipBytes p ts = some rest)
    (fills : Fills ts s) : ∃ s', s = p ++ s' ∧ Fills rest s' := by
  induction p generalizing ts s with
  | nil =>
      cases skipped
      exact ⟨s, rfl, fills⟩
  | cons b p ih =>
      rw [skipBytes] at skipped
      obtain ⟨ts', first, later⟩ := Option.bind_eq_some_iff.mp skipped
      obtain ⟨s', rfl, fills'⟩ := skipByte_fills first fills
      obtain ⟨s'', rfl, fills''⟩ := ih later fills'
      exact ⟨s'', rfl, fills''⟩

theorem readString_fills {ts rest : List Piece} {s : Bytes} (reads : readString ts = some rest)
    (fills : Fills ts s) : ∃ x s', s = x ++ 0x22 :: s' ∧ Chars x ∧ Fills rest s' := by
  induction fills with
  | nil => cases reads
  | @byte b ts s fills ih =>
      rw [readString] at reads
      split at reads
      · rename_i quote
        cases reads
        exact ⟨[], s, by rw [quote]; rfl, .nil, fills⟩
      · split at reads
        · rename_i printed
          obtain ⟨x, s', rfl, chars, rest⟩ := ih reads
          have glyph : Glyph [b] := by
            simp only [isPrinted, Bool.and_eq_true, decide_eq_true_eq, bne_iff_ne] at printed
            exact .ascii printed.1.1.1 printed.1.1.2 printed.1.2 printed.2
          exact ⟨b :: x, s', rfl, Chars.cons glyph chars, rest⟩
        · cases reads
  | chars chars fills ih =>
      rw [readString] at reads
      obtain ⟨x, s', rfl, later, rest⟩ := ih reads
      exact ⟨_, s', (List.append_assoc ..).symm, chars.append later, rest⟩
  | value text fills ih => cases reads

/-- What the reader has read. -/
inductive Reads : Expect → Bytes → Prop where
  | value {v : Value} {s : Bytes} (text : Text v s) : Reads .value s
  | members {ms : List (Bytes × Value)} {s : Bytes} (members : Members ms s) : Reads .members (s ++ [0x7D])
  | items {vs : List Value} {s : Bytes} (items : Items vs s) : Reads .items (s ++ [0x5D])

theorem Text.element {v : Value} {s : Bytes} (text : Text v s) : Element v s := by
  have element := Element.mk (a := []) (b := []) nofun text nofun
  rwa [List.nil_append, List.append_nil] at element

/-- A literal, whose first byte has been looked at. -/
theorem literal_fills {b : UInt8} {p : Bytes} {ts rest : List Piece} {s : Bytes} {v : Value}
    (text : Text v (b :: p)) (skipped : skipBytes p ts = some rest) (fills : Fills ts s) :
    ∃ x s', b :: s = x ++ s' ∧ Reads .value x ∧ Fills rest s' := by
  obtain ⟨s', rfl, fills'⟩ := skipBytes_fills skipped fills
  exact ⟨b :: p, s', rfl, .value text, fills'⟩

theorem read_fills {n : Nat} {e : Expect} {ts rest : List Piece} {s : Bytes}
    (reads : read n e ts = some rest) (fills : Fills ts s) :
    ∃ x s', s = x ++ s' ∧ Reads e x ∧ Fills rest s' := by
  induction n generalizing e ts rest s with
  | zero => cases reads
  | succ n ih =>
      cases e with
      | value =>
          cases fills with
          | nil => cases reads
          | chars chars fills => cases reads
          | value text fills =>
              cases reads
              exact ⟨_, _, rfl, .value text, fills⟩
          | byte fills =>
              rw [read] at reads
              split at reads
              · rename_i quote
                obtain ⟨x, s', rfl, chars, fills'⟩ := readString_fills reads fills
                refine ⟨0x22 :: (x ++ [0x22]), s', ?_, .value (.str chars), fills'⟩
                rw [quote]
                simp
              split at reads
              · rename_i brace
                obtain ⟨x, s', rfl, inside, fills'⟩ := ih reads fills
                cases inside with
                | members members => exact ⟨_, s', by rw [brace]; rfl, .value (.obj members), fills'⟩
              split at reads
              · rename_i bracket
                obtain ⟨x, s', rfl, inside, fills'⟩ := ih reads fills
                cases inside with
                | items items => exact ⟨_, s', by rw [bracket]; rfl, .value (.arr items), fills'⟩
              split at reads
              · rename_i letter
                rw [letter]
                exact literal_fills .yes reads fills
              split at reads
              · rename_i letter
                rw [letter]
                exact literal_fills .no reads fills
              split at reads
              · rename_i letter
                rw [letter]
                exact literal_fills .null reads fills
              · cases reads
      | members =>
          rw [read] at reads
          obtain ⟨t₁, opens, reads⟩ := Option.bind_eq_some_iff.mp reads
          obtain ⟨t₂, name, reads⟩ := Option.bind_eq_some_iff.mp reads
          obtain ⟨t₃, colon, reads⟩ := Option.bind_eq_some_iff.mp reads
          obtain ⟨t₄, value, reads⟩ := Option.bind_eq_some_iff.mp reads
          obtain ⟨s₁, rfl, fills₁⟩ := skipByte_fills opens fills
          obtain ⟨k, s₂, rfl, chars, fills₂⟩ := readString_fills name fills₁
          obtain ⟨s₃, rfl, fills₃⟩ := skipByte_fills colon fills₂
          obtain ⟨x, s₄, rfl, inside, fills₄⟩ := ih value fills₃
          cases inside with
          | @value v _ text =>
              have pair : Pair (k, v) ([] ++ 0x22 :: (k ++ 0x22 :: ([] ++ 0x3A :: x))) :=
                .mk nofun chars nofun text.element
              split at reads
              · rename_i comma
                obtain ⟨s₅, rfl, fills₅⟩ := skipByte_fills comma fills₄
                obtain ⟨y, s₆, rfl, more, fills₆⟩ := ih reads fills₅
                cases more with
                | members members =>
                    refine ⟨_, s₆, ?_, .members (.more pair members), fills₆⟩
                    simp
              · obtain ⟨s₅, rfl, fills₅⟩ := skipByte_fills reads fills₄
                refine ⟨_, s₅, ?_, .members (.last pair), fills₅⟩
                simp
      | items =>
          rw [read] at reads
          obtain ⟨t₁, value, reads⟩ := Option.bind_eq_some_iff.mp reads
          obtain ⟨x, s₁, rfl, inside, fills₁⟩ := ih value fills
          cases inside with
          | value text =>
              split at reads
              · rename_i comma
                obtain ⟨s₂, rfl, fills₂⟩ := skipByte_fills comma fills₁
                obtain ⟨y, s₃, rfl, more, fills₃⟩ := ih reads fills₂
                cases more with
                | items items =>
                    refine ⟨_, s₃, ?_, .items (.more text.element items), fills₃⟩
                    simp
              · obtain ⟨s₂, rfl, fills₂⟩ := skipByte_fills reads fills₁
                refine ⟨_, s₂, ?_, .items (.last text.element), fills₂⟩
                simp

inductive Part where
  | text (s : Bytes)
  | chars
  | value

def Part.pieces : Part → List Piece
  | .text s => s.map .byte
  | .chars => [.chars]
  | .value => [.value]

/-- The reader takes the whole template for one value. -/
def checks (ps : List Part) : Bool :=
  match read (ps.flatMap Part.pieces).length .value (ps.flatMap Part.pieces) with
  | some [] => true
  | _ => false

/-- The text with these contents in the holes, in their order. -/
def fill : List Part → List Bytes → Bytes
  | .text s :: ps, cs => s ++ fill ps cs
  | _ :: ps, c :: cs => c ++ fill ps cs
  | _, _ => []

/-- The length of the texts between the holes. -/
def textLength : List Part → Nat
  | [] => 0
  | .text s :: ps => s.length + textLength ps
  | _ :: ps => textLength ps

/-- The contents of the holes have at most these lengths. -/
def Bounded : List Bytes → List Nat → Prop := List.Forall₂ fun c n => c.length ≤ n

theorem fill_length_le (ps : List Part) {cs : List Bytes} {ns : List Nat} (bounded : Bounded cs ns) :
    (fill ps cs).length ≤ textLength ps + ns.sum := by
  fun_induction fill ps cs generalizing ns with
  | case1 cs s ps ih =>
      have rest := ih bounded
      rw [List.length_append, textLength]
      omega
  | case2 part ps c cs hole ih =>
      have same : textLength (part :: ps) = textLength ps := by
        cases part with
        | text s => exact absurd rfl (hole s)
        | chars | value => rfl
      cases bounded with
      | cons here later =>
          have rest := ih later
          rw [List.length_append, same, List.sum_cons]
          omega
  | case3 => exact Nat.zero_le _

def Part.nulFree : Part → Bool
  | .text s => decide (NulFree s)
  | _ => true

theorem fill_nulFree {ps : List Part} {cs : List Bytes} (texts : ps.all Part.nulFree = true)
    (holes : ∀ c ∈ cs, NulFree c) : NulFree (fill ps cs) := by
  fun_induction fill ps cs with
  | case1 cs s ps ih =>
      rw [List.all_cons, Bool.and_eq_true] at texts
      intro b member
      rcases List.mem_append.mp member with here | later
      · exact of_decide_eq_true texts.1 b here
      · exact ih texts.2 holes b later
  | case2 part ps c cs hole ih =>
      rw [List.all_cons, Bool.and_eq_true] at texts
      intro b member
      rcases List.mem_append.mp member with here | later
      · exact holes c (List.mem_cons_self ..) b here
      · exact ih texts.2 (fun c member => holes c (List.mem_cons_of_mem _ member)) b later
  | case3 => exact nofun

/-- Each content fits its hole. -/
inductive Fitting : List Part → List Bytes → Prop where
  | nil : Fitting [] []
  | text {s : Bytes} {ps : List Part} {cs : List Bytes} (rest : Fitting ps cs) : Fitting (.text s :: ps) cs
  | chars {c : Bytes} {ps : List Part} {cs : List Bytes} (chars : Chars c) (rest : Fitting ps cs) :
      Fitting (.chars :: ps) (c :: cs)
  | value {c : Bytes} {v : Value} {ps : List Part} {cs : List Bytes} (text : Text v c) (rest : Fitting ps cs) :
      Fitting (.value :: ps) (c :: cs)

theorem Fitting.fills {ps : List Part} {cs : List Bytes} (fitting : Fitting ps cs) :
    Fills (ps.flatMap Part.pieces) (fill ps cs) := by
  induction fitting with
  | nil => exact .nil
  | @text s ps cs rest ih =>
      rw [List.flatMap_cons, fill, Part.pieces]
      clear rest
      induction s with
      | nil => exact ih
      | cons b s ih' => exact .byte ih'
  | chars chars rest ih => exact .chars chars ih
  | value text rest ih => exact .value text ih

/-- A checked template is well-formed whatever fills it. -/
theorem wellFormed_fill {ps : List Part} {cs : List Bytes} (checked : checks ps = true)
    (fitting : Fitting ps cs) : WellFormed (fill ps cs) := by
  unfold checks at checked
  split at checked
  · rename_i reads
    obtain ⟨x, s', eq, inside, fills⟩ := read_fills reads fitting.fills
    cases fills
    rw [List.append_nil] at eq
    rw [eq]
    cases inside with
    | value text => exact ⟨_, text.element⟩
  · cases checked

/-- A text without holes. -/
theorem wellFormed_text {s : Bytes} (checked : checks [.text s] = true) : WellFormed s := by
  have filled := wellFormed_fill checked (.text .nil)
  rwa [fill, fill, List.append_nil] at filled
  all_goals nofun

end Json
