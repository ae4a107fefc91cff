import Roman.Lib.FlatObject

/-! # The grammar of JSON texts, over bytes

Texts are UTF-8, so what stands between the quotes of a string is a row of
characters, each written in one byte, in an escape or in a well-formed sequence of
several bytes. Strings keep what is written: nothing is unescaped. A scanner that
only knows whether it is inside a string, and where in a character, goes through
every text.
-/

namespace Json

open CMem CStr

def isHex (b : UInt8) : Bool :=
  (0x30 ≤ b && b ≤ 0x39) || (0x41 ≤ b && b ≤ 0x46) || (0x61 ≤ b && b ≤ 0x66)

/-- What may follow a backslash alone. -/
def isEscape (b : UInt8) : Bool :=
  b == 0x22 || b == 0x5C || b == 0x2F || b == 0x62 || b == 0x66 || b == 0x6E || b == 0x72 || b == 0x74

def isTail (b : UInt8) : Bool := 0x80 ≤ b && b ≤ 0xBF

/-- The range of the second byte after this first one, and how many more follow. -/
def leadOf (b : UInt8) : Option (UInt8 × UInt8 × Nat) :=
  if 0xC2 ≤ b ∧ b ≤ 0xDF then some (0x80, 0xBF, 0)
  else if b = 0xE0 then some (0xA0, 0xBF, 1)
  else if b = 0xED then some (0x80, 0x9F, 1)
  else if 0xE1 ≤ b ∧ b ≤ 0xEF then some (0x80, 0xBF, 1)
  else if b = 0xF0 then some (0x90, 0xBF, 2)
  else if 0xF1 ≤ b ∧ b ≤ 0xF3 then some (0x80, 0xBF, 2)
  else if b = 0xF4 then some (0x80, 0x8F, 2)
  else none

/-- A character of a string, as it is written. -/
inductive Glyph : Bytes → Prop where
  | ascii {b : UInt8} (printed : 0x20 ≤ b) (small : b < 0x80) (quote : b ≠ 0x22) (backslash : b ≠ 0x5C) :
      Glyph [b]
  | escape {b : UInt8} (known : isEscape b = true) : Glyph [0x5C, b]
  | unicode {a b c d : UInt8} (hex : isHex a = true ∧ isHex b = true ∧ isHex c = true ∧ isHex d = true) :
      Glyph [0x5C, 0x75, a, b, c, d]
  | multi {a b lo hi : UInt8} {n : Nat} {rest : Bytes} (lead : leadOf a = some (lo, hi, n))
      (second : isTail b = true ∧ lo ≤ b ∧ b ≤ hi) (count : rest.length = n)
      (tail : ∀ c ∈ rest, isTail c = true) : Glyph (a :: b :: rest)

/-- What stands between the quotes of a string. -/
inductive Chars : Bytes → Prop where
  | nil : Chars []
  | cons {x s : Bytes} (glyph : Glyph x) (rest : Chars s) : Chars (x ++ s)

theorem Chars.append {a b : Bytes} (first : Chars a) (second : Chars b) : Chars (a ++ b) := by
  induction first with
  | nil => exact second
  | cons glyph rest ih =>
      rw [List.append_assoc]
      exact .cons glyph ih

/-- A string of one-byte characters that stand for themselves. -/
def Printed (s : Bytes) : Prop := ∀ b ∈ s, 0x20 ≤ b ∧ b < 0x80 ∧ b ≠ 0x22 ∧ b ≠ 0x5C

instance (s : Bytes) : Decidable (Printed s) :=
  List.decidableBAll (fun b => 0x20 ≤ b ∧ b < 0x80 ∧ b ≠ 0x22 ∧ b ≠ 0x5C) s

theorem Printed.plain {s : Bytes} (printed : Printed s) : Plain s := by
  intro b member
  obtain ⟨low, -, quote, backslash⟩ := printed b member
  exact ⟨low, quote, backslash⟩

theorem Printed.append {a b : Bytes} (first : Printed a) (second : Printed b) : Printed (a ++ b) := by
  intro c member
  rcases List.mem_append.mp member with front | back
  · exact first c front
  · exact second c back

theorem Printed.chars {s : Bytes} (printed : Printed s) : Chars s := by
  induction s with
  | nil => exact .nil
  | cons b s ih =>
      obtain ⟨low, small, quote, backslash⟩ := printed b List.mem_cons_self
      have rest := ih fun c member => printed c (List.mem_cons_of_mem b member)
      exact Chars.cons (x := [b]) (.ascii low small quote backslash) rest

/-- At least one digit. -/
def Digits (s : Bytes) : Prop := s ≠ [] ∧ ∀ b ∈ s, isDigit b = true

/-- The parts of a number. -/
structure Number (s : Bytes) : Prop where
  parts : ∃ sign int frac exp, s = sign ++ (int ++ (frac ++ exp)) ∧
    (sign = [] ∨ sign = [0x2D]) ∧
    (int = [0x30] ∨ Digits int ∧ int.head? ≠ some 0x30) ∧
    (frac = [] ∨ ∃ digits, Digits digits ∧ frac = 0x2E :: digits) ∧
    (exp = [] ∨ ∃ e sign digits, (e = 0x65 ∨ e = 0x45) ∧ (sign = [] ∨ sign = [0x2B] ∨ sign = [0x2D]) ∧
      Digits digits ∧ exp = e :: (sign ++ digits))

inductive Value where
  | null
  | bool (b : Bool)
  | num (text : Bytes)
  | str (chars : Bytes)
  | arr (items : List Value)
  | obj (members : List (Bytes × Value))

mutual

/-- The text of a value, from its first byte to its last. -/
inductive Text : Value → Bytes → Prop where
  | null : Text .null (ascii "null")
  | yes : Text (.bool true) (ascii "true")
  | no : Text (.bool false) (ascii "false")
  | num {s : Bytes} (number : Number s) : Text (.num s) s
  | str {s : Bytes} (chars : Chars s) : Text (.str s) (0x22 :: (s ++ [0x22]))
  | emptyArr {a : Bytes} (ws : Ws a) : Text (.arr []) (0x5B :: (a ++ [0x5D]))
  | arr {items : List Value} {s : Bytes} (inside : Items items s) : Text (.arr items) (0x5B :: (s ++ [0x5D]))
  | emptyObj {a : Bytes} (ws : Ws a) : Text (.obj []) (0x7B :: (a ++ [0x7D]))
  | obj {members : List (Bytes × Value)} {s : Bytes} (inside : Members members s) :
      Text (.obj members) (0x7B :: (s ++ [0x7D]))

/-- A value with whitespace around it. -/
inductive Element : Value → Bytes → Prop where
  | mk {v : Value} {a s b : Bytes} (before : Ws a) (text : Text v s) (after : Ws b) : Element v (a ++ (s ++ b))

inductive Items : List Value → Bytes → Prop where
  | last {v : Value} {s : Bytes} (element : Element v s) : Items [v] s
  | more {v : Value} {vs : List Value} {s t : Bytes} (element : Element v s) (rest : Items vs t) :
      Items (v :: vs) (s ++ 0x2C :: t)

/-- A name and a value. -/
inductive Pair : Bytes × Value → Bytes → Prop where
  | mk {k : Bytes} {v : Value} {a b s : Bytes} (before : Ws a) (chars : Chars k) (gap : Ws b)
      (element : Element v s) : Pair (k, v) (a ++ 0x22 :: (k ++ 0x22 :: (b ++ 0x3A :: s)))

inductive Members : List (Bytes × Value) → Bytes → Prop where
  | last {m : Bytes × Value} {s : Bytes} (member : Pair m s) : Members [m] s
  | more {m : Bytes × Value} {ms : List (Bytes × Value)} {s t : Bytes} (member : Pair m s)
      (rest : Members ms t) : Members (m :: ms) (s ++ 0x2C :: t)

end

/-- A JSON text: one value. -/
def WellFormed (s : Bytes) : Prop := ∃ v, Element v s

/-- Where the scanner is. -/
inductive Mode where
  | outside
  | inside
  | escape
  /-- In front of `n + 1` more hex digits. -/
  | hex (n : Nat)
  /-- In front of a byte of this range and `n` more. -/
  | tail (lo hi : UInt8) (n : Nat)
  deriving DecidableEq

/-- What can stand outside a string: the punctuation, and the bytes of numbers and literals. -/
def isOutside (b : UInt8) : Bool :=
  isWs b || isDigit b || b ∈ ascii "\x7b\x7d[]:,-+.Etruefalsn"

def scan : Mode → UInt8 → Option Mode
  | .outside, b => if b = 0x22 then some .inside else if isOutside b then some .outside else none
  | .inside, b =>
      if b = 0x22 then some .outside
      else if b = 0x5C then some .escape
      else if b < 0x20 then none
      else if b < 0x80 then some .inside
      else (leadOf b).map fun range => .tail range.1 range.2.1 range.2.2
  | .escape, b => if isEscape b then some .inside else if b = 0x75 then some (.hex 3) else none
  | .hex 0, b => if isHex b then some .inside else none
  | .hex (n + 1), b => if isHex b then some (.hex n) else none
  | .tail lo hi 0, b => if isTail b ∧ lo ≤ b ∧ b ≤ hi then some .inside else none
  | .tail lo hi (n + 1), b => if isTail b ∧ lo ≤ b ∧ b ≤ hi then some (.tail 0x80 0xBF n) else none

def scanAll (q : Mode) (s : Bytes) : Option Mode := s.foldlM scan q

theorem scanAll_cons (q : Mode) (b : UInt8) (s : Bytes) :
    scanAll q (b :: s) = (scan q b).bind fun q' => scanAll q' s := rfl

theorem scanAll_append (q : Mode) (a b : Bytes) :
    scanAll q (a ++ b) = (scanAll q a).bind fun q' => scanAll q' b := by
  unfold scanAll
  rw [List.foldlM_append]
  rfl

theorem scanAll_outside {s : Bytes} (plain : ∀ b ∈ s, isOutside b = true) :
    scanAll .outside s = some .outside := by
  induction s with
  | nil => rfl
  | cons b s ih =>
      have here := plain b List.mem_cons_self
      have quote : b ≠ 0x22 := by
        rintro rfl
        exact absurd here (by decide)
      rw [scanAll_cons, scan, if_neg quote, if_pos here]
      exact ih fun c member => plain c (List.mem_cons_of_mem b member)

theorem scanAll_tail {s : Bytes} (tail : ∀ c ∈ s, isTail c = true) {b lo hi : UInt8}
    (second : isTail b = true ∧ lo ≤ b ∧ b ≤ hi) :
    scanAll (.tail lo hi s.length) (b :: s) = some .inside := by
  induction s generalizing b lo hi with
  | nil =>
      rw [scanAll_cons, List.length_nil, scan, if_pos second]
      rfl
  | cons c s ih =>
      have here := tail c List.mem_cons_self
      have range : (0x80 : UInt8) ≤ c ∧ c ≤ 0xBF := by simpa [isTail] using here
      rw [scanAll_cons, List.length_cons, scan, if_pos second]
      exact ih (fun d member => tail d (List.mem_cons_of_mem c member)) ⟨here, range⟩

theorem leadOf_large {b : UInt8} {range : UInt8 × UInt8 × Nat} (lead : leadOf b = some range) :
    0x80 ≤ b := by
  unfold leadOf at lead
  repeat' split at lead
  · rename_i two
    exact UInt8.le_trans (by decide) two.1
  · rename_i eq
    rw [eq]
    decide
  · rename_i eq
    rw [eq]
    decide
  · rename_i three
    exact UInt8.le_trans (by decide) three.1
  · rename_i eq
    rw [eq]
    decide
  · rename_i four
    exact UInt8.le_trans (by decide) four.1
  · rename_i eq
    rw [eq]
    decide
  · cases lead

theorem scan_backslash : scan .inside 0x5C = some .escape := by simp [scan]

theorem scan_unicode : scan .escape 0x75 = some (.hex 3) := by simp [scan, isEscape]

/-- Inside a string, a byte of one above the ASCII range. -/
theorem scan_large {b : UInt8} (large : 0x80 ≤ b) :
    scan .inside b = (leadOf b).map fun range => .tail range.1 range.2.1 range.2.2 := by
  have quote : b ≠ 0x22 := by
    rintro rfl
    exact absurd large (by decide)
  have backslash : b ≠ 0x5C := by
    rintro rfl
    exact absurd large (by decide)
  have control : ¬ b < 0x20 := UInt8.not_lt.mpr (UInt8.le_trans (by decide) large)
  rw [scan, if_neg quote, if_neg backslash, if_neg control, if_neg (UInt8.not_lt.mpr large)]

/-- A character is scanned from inside the string to inside the string. -/
theorem Glyph.scan {x : Bytes} (glyph : Glyph x) : scanAll .inside x = some .inside := by
  cases glyph with
  | ascii printed small quote backslash =>
      have control := UInt8.not_lt.mpr printed
      rw [scanAll_cons, Json.scan, if_neg quote, if_neg backslash, if_neg control, if_pos small]
      rfl
  | escape known =>
      rw [scanAll_cons, scan_backslash, Option.bind_some, scanAll_cons, Json.scan, if_pos known]
      rfl
  | unicode hex =>
      obtain ⟨a, b, c, d⟩ := hex
      rw [scanAll_cons, scan_backslash, Option.bind_some, scanAll_cons, scan_unicode, Option.bind_some]
      simp only [scanAll_cons, Json.scan, a, b, c, d, if_true, Option.bind_some]
      rfl
  | multi lead second count tail =>
      rw [scanAll_cons, scan_large (leadOf_large lead), lead, Option.map_some, Option.bind_some, ← count]
      exact scanAll_tail tail second

theorem Chars.scan {s : Bytes} (chars : Chars s) : scanAll .inside s = some .inside := by
  induction chars with
  | nil => rfl
  | cons glyph rest ih =>
      rw [scanAll_append, glyph.scan, Option.bind_some]
      exact ih

theorem Glyph.printed {x : Bytes} (glyph : Glyph x) : ∀ b ∈ x, 0x20 ≤ b := by
  have tails : ∀ b : UInt8, isTail b = true → 0x20 ≤ b := by
    intro b isTail
    simp only [Json.isTail, Bool.and_eq_true, decide_eq_true_eq, UInt8.le_iff_toNat_le,
      UInt8.reduceToNat] at isTail ⊢
    omega
  have hexes : ∀ b : UInt8, isHex b = true → 0x20 ≤ b := by
    intro b isHex
    simp only [Json.isHex, Bool.or_eq_true, Bool.and_eq_true, decide_eq_true_eq, UInt8.le_iff_toNat_le,
      UInt8.reduceToNat] at isHex ⊢
    omega
  have escapes : ∀ b : UInt8, isEscape b = true → 0x20 ≤ b := by
    intro b isEscape
    simp only [Json.isEscape, Bool.or_eq_true, beq_iff_eq, ← UInt8.toNat_inj, UInt8.le_iff_toNat_le,
      UInt8.reduceToNat] at isEscape ⊢
    omega
  intro b member
  cases glyph with
  | ascii printed small quote backslash =>
      rw [List.mem_singleton] at member
      exact member ▸ printed
  | escape known =>
      simp only [List.mem_cons, List.not_mem_nil, or_false] at member
      rcases member with rfl | rfl
      · decide
      · exact escapes b known
  | unicode hex =>
      obtain ⟨h₀, h₁, h₂, h₃⟩ := hex
      simp only [List.mem_cons, List.not_mem_nil, or_false] at member
      rcases member with rfl | rfl | rfl | rfl | rfl | rfl
      · decide
      · decide
      · exact hexes b h₀
      · exact hexes b h₁
      · exact hexes b h₂
      · exact hexes b h₃
  | multi lead second count tail =>
      simp only [List.mem_cons] at member
      rcases member with rfl | rfl | later
      · exact UInt8.le_trans (by decide) (leadOf_large lead)
      · exact tails b second.1
      · exact tails b (tail b later)

/-- No control character stands raw between the quotes. -/
theorem Chars.printed {s : Bytes} (chars : Chars s) : ∀ b ∈ s, 0x20 ≤ b := by
  induction chars with
  | nil => exact nofun
  | cons glyph rest ih =>
      intro b member
      rcases List.mem_append.mp member with here | later
      · exact glyph.printed b here
      · exact ih b later

/-- A quoted string is scanned from outside to outside. -/
theorem Chars.scan_quoted {s : Bytes} (chars : Chars s) (rest : Bytes) :
    scanAll .outside (0x22 :: (s ++ 0x22 :: rest)) = scanAll .outside rest := by
  have opens : Json.scan .outside 0x22 = some .inside := by simp [Json.scan]
  have closes : Json.scan .inside 0x22 = some .outside := by simp [Json.scan]
  rw [scanAll_cons, opens, Option.bind_some, scanAll_append, chars.scan, Option.bind_some, scanAll_cons,
    closes, Option.bind_some]

theorem Digits.outside {s : Bytes} (digits : Digits s) : ∀ b ∈ s, isOutside b = true := by
  intro b member
  simp [isOutside, digits.2 b member]

theorem Number.outside {s : Bytes} (number : Number s) : ∀ b ∈ s, isOutside b = true := by
  obtain ⟨sign, int, frac, exp, rfl, signs, ints, fracs, exps⟩ := number
  have signOutside : ∀ sign : Bytes, sign = [] ∨ sign = [0x2B] ∨ sign = [0x2D] → ∀ b ∈ sign, isOutside b = true := by
    rintro sign (rfl | rfl | rfl) <;> exact List.all_eq_true.mp (by decide)
  intro b member
  simp only [List.mem_append] at member
  rcases member with inSign | inInt | inFrac | inExp
  · exact signOutside sign (signs.imp_right .inr) b inSign
  · rcases ints with rfl | ⟨digits, -⟩
    · exact List.all_eq_true.mp (by decide) b inInt
    · exact digits.outside b inInt
  · rcases fracs with rfl | ⟨digits, isDigits, rfl⟩
    · cases inFrac
    · rcases List.mem_cons.mp inFrac with rfl | inDigits
      · decide
      · exact isDigits.outside b inDigits
  · rcases exps with rfl | ⟨e, sign', digits, mark, signs', isDigits, rfl⟩
    · cases inExp
    · rcases List.mem_cons.mp inExp with rfl | inRest
      · rcases mark with rfl | rfl <;> decide
      · rcases List.mem_append.mp inRest with inSign' | inDigits
        · exact signOutside sign' signs' b inSign'
        · exact isDigits.outside b inDigits

theorem Ws.outside {s : Bytes} (ws : Ws s) : ∀ b ∈ s, isOutside b = true := by
  intro b member
  simp [isOutside, ws b member]

/-- The scanner goes through this text and is outside again. -/
def Scans (s : Bytes) : Prop := scanAll .outside s = some .outside

theorem Scans.append {a b : Bytes} (first : Scans a) (second : Scans b) : Scans (a ++ b) := by
  unfold Scans
  rw [scanAll_append, first, Option.bind_some]
  exact second

theorem scans_of_outside {s : Bytes} (plain : ∀ b ∈ s, isOutside b = true) : Scans s := scanAll_outside plain

theorem Scans.cons {b : UInt8} {s : Bytes} (rest : Scans s) (plain : isOutside b = true) : Scans (b :: s) :=
  (scans_of_outside (s := [b]) (by simpa using plain)).append rest

theorem Scans.quoted {k s : Bytes} (chars : Chars k) (rest : Scans s) : Scans (0x22 :: (k ++ 0x22 :: s)) :=
  (chars.scan_quoted s).trans rest

theorem Scans.enclosed {a b : UInt8} {s : Bytes} (inside : Scans s) (opens : isOutside a = true)
    (closes : isOutside b = true) : Scans (a :: (s ++ [b])) :=
  (inside.append (scans_of_outside (by simpa using closes))).cons opens

mutual

theorem Text.scans {v : Value} {s : Bytes} : Text v s → Scans s
  | .null | .yes | .no => scans_of_outside (List.all_eq_true.mp (by decide))
  | .num number => scans_of_outside number.outside
  | .str chars => Scans.quoted chars rfl
  | .emptyArr ws | .emptyObj ws => (scans_of_outside ws.outside).enclosed (by decide) (by decide)
  | .arr inside => inside.scans.enclosed (by decide) (by decide)
  | .obj inside => inside.scans.enclosed (by decide) (by decide)

theorem Element.scans {v : Value} {s : Bytes} : Element v s → Scans s
  | .mk before text after =>
      (scans_of_outside before.outside).append (text.scans.append (scans_of_outside after.outside))

theorem Items.scans {vs : List Value} {s : Bytes} : Items vs s → Scans s
  | .last element => element.scans
  | .more element rest => element.scans.append (rest.scans.cons (by decide))

theorem Pair.scans {m : Bytes × Value} {s : Bytes} : Pair m s → Scans s
  | .mk before chars gap element =>
      (scans_of_outside before.outside).append
        (.quoted chars ((scans_of_outside gap.outside).append (element.scans.cons (by decide))))

theorem Members.scans {ms : List (Bytes × Value)} {s : Bytes} : Members ms s → Scans s
  | .last member => member.scans
  | .more member rest => member.scans.append (rest.scans.cons (by decide))

end

theorem scan_nul (q : Mode) : scan q 0 = none := by
  have outside : isOutside 0 = false := by decide
  cases q with
  | outside => simp [scan, outside]
  | inside => simp [scan]
  | escape => simp [scan, isEscape]
  | hex n => cases n <;> simp [scan, isHex]
  | tail lo hi n => cases n <;> simp [scan, isTail]

theorem nulFree_of_scanAll {q q' : Mode} {s : Bytes} (scanned : scanAll q s = some q') : NulFree s := by
  induction s generalizing q with
  | nil => nofun
  | cons b s ih =>
      rw [scanAll_cons] at scanned
      obtain ⟨between, step, rest⟩ := Option.bind_eq_some_iff.mp scanned
      intro c member
      rcases List.mem_cons.mp member with rfl | later
      · rintro rfl
        rw [scan_nul] at step
        cases step
      · exact ih rest c later

/-- Only a quote leads out of a string. -/
theorem scan_outside {q : Mode} {b : UInt8} (inString : q ≠ .outside) (noQuote : b ≠ 0x22) :
    scan q b ≠ some .outside := by
  have multi : ∀ o : Option (UInt8 × UInt8 × Nat),
      o.map (fun range => Mode.tail range.1 range.2.1 range.2.2) ≠ some .outside := by
    rintro (_ | range) <;> simp
  cases q with
  | outside => exact absurd rfl inString
  | inside =>
      rw [scan, if_neg noQuote]
      repeat' split
      all_goals first | exact multi _ | exact nofun
  | escape =>
      rw [scan]
      repeat' split
      all_goals exact nofun
  | hex n =>
      cases n <;> rw [scan] <;> split <;> exact nofun
  | tail lo hi n =>
      cases n <;> rw [scan] <;> split <;> exact nofun

theorem scanAll_outside_iff {q : Mode} {s : Bytes} (inString : q ≠ .outside) (noQuote : (0x22 : UInt8) ∉ s) :
    scanAll q s ≠ some .outside := by
  induction s generalizing q with
  | nil =>
      intro scanned
      exact inString (Option.some.inj scanned)
  | cons b s ih =>
      rw [List.mem_cons, not_or] at noQuote
      rw [scanAll_cons]
      intro scanned
      obtain ⟨between, step, rest⟩ := Option.bind_eq_some_iff.mp scanned
      have stays : between ≠ .outside := by
        rintro rfl
        exact scan_outside inString (Ne.symm noQuote.1) step
      exact ih stays noQuote.2 rest

/-- A quote cannot stand inside a character, except behind a backslash. -/
theorem scan_quote {q : Mode} (inString : q ≠ .outside) (plain : q ≠ .inside) (escape : q ≠ .escape) :
    scan q 0x22 = none := by
  cases q with
  | outside => exact absurd rfl inString
  | inside => exact absurd rfl plain
  | escape => exact absurd rfl escape
  | hex n => cases n <;> simp [scan, isHex]
  | tail lo hi n => cases n <;> simp [scan, isTail]

/-- The rest of a character in several bytes. -/
theorem tail_of_scan {n : Nat} {lo hi : UInt8} {s : Bytes}
    (scanned : scanAll (.tail lo hi n) s = some .inside) :
    ∃ b t rest, s = b :: (t ++ rest) ∧ (isTail b = true ∧ lo ≤ b ∧ b ≤ hi) ∧ t.length = n ∧
      (∀ c ∈ t, isTail c = true) ∧ scanAll .inside rest = some .inside := by
  induction n generalizing lo hi s with
  | zero =>
      cases s with
      | nil => cases scanned
      | cons b s =>
          rw [scanAll_cons, scan] at scanned
          split at scanned
          · rename_i second
            exact ⟨b, [], s, rfl, second, rfl, nofun, scanned⟩
          · cases scanned
  | succ n ih =>
      cases s with
      | nil => cases scanned
      | cons b s =>
          rw [scanAll_cons, scan] at scanned
          split at scanned
          · rename_i second
            obtain ⟨c, t, rest, rfl, next, count, tail, after⟩ := ih scanned
            refine ⟨b, c :: t, rest, rfl, second, by rw [List.length_cons, count], ?_, after⟩
            intro d member
            rcases List.mem_cons.mp member with rfl | later
            · exact next.1
            · exact tail d later
          · cases scanned

theorem hex_of_scan {n : Nat} {s : Bytes} (scanned : scanAll (.hex n) s = some .inside) :
    ∃ b t rest, s = b :: (t ++ rest) ∧ isHex b = true ∧ t.length = n ∧ (∀ c ∈ t, isHex c = true) ∧
      scanAll .inside rest = some .inside := by
  induction n generalizing s with
  | zero =>
      cases s with
      | nil => cases scanned
      | cons b s =>
          rw [scanAll_cons, scan] at scanned
          split at scanned
          · rename_i hex
            exact ⟨b, [], s, rfl, hex, rfl, nofun, scanned⟩
          · cases scanned
  | succ n ih =>
      cases s with
      | nil => cases scanned
      | cons b s =>
          rw [scanAll_cons, scan] at scanned
          split at scanned
          · rename_i hex
            obtain ⟨c, t, rest, rfl, next, count, later, after⟩ := ih scanned
            refine ⟨b, c :: t, rest, rfl, hex, by rw [List.length_cons, count], ?_, after⟩
            intro d member
            rcases List.mem_cons.mp member with rfl | inside
            · exact next
            · exact later d inside
          · cases scanned

/-- A text without a quote that the scanner takes inside a string is one of characters. -/
theorem chars_of_scan {s : Bytes} (noQuote : (0x22 : UInt8) ∉ s) (scanned : scanAll .inside s = some .inside) :
    Chars s := by
  induction size : s.length using Nat.strongRecOn generalizing s with
  | ind size' ih =>
      cases s with
      | nil => exact .nil
      | cons b s =>
          rw [List.mem_cons, not_or] at noQuote
          have quote : b ≠ 0x22 := Ne.symm noQuote.1
          have shorter : ∀ {front rest : Bytes}, s = front ++ rest → scanAll .inside rest = some .inside →
              Chars rest := by
            intro front rest eq after
            have less : rest.length < size' := by
              rw [← size, eq, List.length_cons, List.length_append]
              omega
            refine ih rest.length less (fun member => noQuote.2 ?_) after rfl
            rw [eq]
            exact List.mem_append_right front member
          rw [scanAll_cons] at scanned
          obtain ⟨between, step, rest⟩ := Option.bind_eq_some_iff.mp scanned
          by_cases backslash : b = 0x5C
          · rw [backslash, scan_backslash] at step
            cases step
            rw [backslash]
            cases s with
            | nil => cases rest
            | cons c s =>
                rw [scanAll_cons] at rest
                obtain ⟨between, step, rest⟩ := Option.bind_eq_some_iff.mp rest
                rw [scan] at step
                split at step
                · rename_i known
                  cases step
                  exact Chars.cons (.escape known) (@shorter [c] _ rfl rest)
                · split at step
                  · rename_i letter
                    cases step
                    obtain ⟨h₀, t, rest', rfl, hex, count, later, after⟩ := hex_of_scan rest
                    obtain ⟨h₁, h₂, h₃, rfl⟩ := List.length_eq_three.mp count
                    have hexes : isHex h₀ = true ∧ isHex h₁ = true ∧ isHex h₂ = true ∧ isHex h₃ = true :=
                      ⟨hex, later h₁ (by simp), later h₂ (by simp), later h₃ (by simp)⟩
                    rw [letter]
                    exact Chars.cons (.unicode hexes) (@shorter [c, h₀, h₁, h₂, h₃] _ rfl after)
                  · cases step
          by_cases large : 0x80 ≤ b
          · rw [scan_large large] at step
            obtain ⟨⟨lo, hi, n⟩, lead, rfl⟩ := Option.map_eq_some_iff.mp step
            obtain ⟨c, t, rest', rfl, second, count, tail, after⟩ := tail_of_scan rest
            have glyph : Glyph (b :: c :: t) := .multi lead second count tail
            exact Chars.cons glyph (@shorter (c :: t) _ rfl after)
          · have small : b < 0x80 := UInt8.not_le.mp large
            rw [scan, if_neg quote, if_neg backslash] at step
            split at step
            · cases step
            · rename_i printed
              cases step
              have glyph : Glyph [b] := .ascii (UInt8.not_lt.mp printed) small quote backslash
              exact Chars.cons glyph (@shorter [] _ rfl rest)

theorem decimal_digits (n : Nat) : Digits (decimal n) :=
  ⟨decimal_ne_nil n, fun _ member => decimal_isDigit member⟩

theorem decimal_head {n : Nat} (pos : 0 < n) : (decimal n).head? ≠ some 0x30 := by
  have digit : ∀ d < 10, 0 < d → UInt8.ofNat (0x30 + d) ≠ 0x30 := by decide
  induction n using Nat.strongRecOn with
  | ind n ih =>
      by_cases small : n < 10
      · rw [decimal_small small, List.head?_cons, ne_eq, Option.some.injEq]
        exact digit n small pos
      · have nonempty := decimal_ne_nil (n / 10)
        rw [decimal_step (Nat.not_lt.mp small), List.head?_append_of_ne_nil _ nonempty]
        exact ih (n / 10) (Nat.div_lt_self pos (by decide)) (Nat.div_pos (Nat.not_lt.mp small) (by decide))

/-- What is printed for a natural number is a number. -/
theorem decimal_number (n : Nat) : Number (decimal n) := by
  refine ⟨[], decimal n, [], [], by simp, .inl rfl, ?_, .inl rfl, .inl rfl⟩
  rcases Nat.eq_zero_or_pos n with rfl | pos
  · exact .inl (decimal_small (by decide))
  · exact .inr ⟨decimal_digits n, decimal_head pos⟩

end Json
