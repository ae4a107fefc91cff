import Roman.Lib.Region
import Mathlib.Data.List.TakeWhile

/-! # C strings

A C string is the list of bytes before its NUL. A pointer into a string is the
rest of the string from there on, so the difference of two pointers is the
difference of two lengths. Text literals are written as Lean strings and turned
into bytes by `ascii`.
-/

namespace CStr

open CMem

/-- A text literal of the source as bytes. -/
def ascii (text : String) : Bytes :=
  text.toList.map fun c => UInt8.ofNat c.toNat

/-- A literal is the string of its characters, so its bytes need not be decoded to be read. -/
theorem ascii_ofList (l : List Char) : ascii (String.ofList l) = l.map fun c => UInt8.ofNat c.toNat := by
  rw [ascii, String.toList_ofList]

theorem ascii_ofList_length (l : List Char) : (ascii (String.ofList l)).length = l.length := by
  rw [ascii_ofList, List.length_map]

/-- The string a `char *` to this memory points to: everything before the first NUL. -/
def content (memory : Bytes) : Bytes :=
  memory.takeWhile (· ≠ 0)

/-- No byte of the list ends a C string early. -/
def NulFree (s : Bytes) : Prop := ∀ b ∈ s, b ≠ 0

instance (s : Bytes) : Decidable (NulFree s) := List.decidableBAll (fun b => b ≠ 0) s

theorem content_of_nulFree {s : Bytes} (free : NulFree s) : content s = s :=
  List.takeWhile_eq_self_iff.mpr fun b member => by simpa using free b member

theorem content_append_of_mem {a : Bytes} (nul : (0 : UInt8) ∈ a) (b : Bytes) :
    content (a ++ b) = content a := by
  induction a with
  | nil => simp at nul
  | cons c a ih =>
      by_cases zero : c = 0
      · simp [content, zero]
      · have rest : (0 : UInt8) ∈ a := by simpa [Ne.symm zero] using nul
        simp only [content, List.cons_append, List.takeWhile_cons, decide_eq_true_eq] at ih ⊢
        rw [if_pos (by simpa using zero), if_pos (by simpa using zero), ih rest]

/-- A terminated array holds the string its text is, read up to the first NUL. -/
theorem content_append_zero (s rest : Bytes) : content (s ++ 0 :: rest) = content s := by
  rw [List.append_cons, content_append_of_mem (by simp)]
  by_cases nul : (0 : UInt8) ∈ s
  · exact content_append_of_mem nul [0]
  · have kept : ∀ b ∈ s, decide (b ≠ 0) = true := by
      intro b member
      have nonzero : b ≠ 0 := fun zero => nul (zero ▸ member)
      simpa using nonzero
    simp only [content, List.takeWhile_append_of_pos kept, List.takeWhile_eq_self_iff.mpr kept]
    simp

theorem content_append_of_nulFree {s : Bytes} (free : NulFree s) (rest : Bytes) : content (s ++ rest) = s ++ content rest :=
  List.takeWhile_append_of_pos fun b member => by simpa using free b member

theorem content_append_nul {s : Bytes} (free : NulFree s) (rest : Bytes) :
    content (s ++ 0 :: rest) = s := by
  rw [content_append_zero, content_of_nulFree free]

/-- A string that ends inside its memory ends with the NUL there. -/
theorem take_content {memory : Bytes} (short : (content memory).length < memory.length) :
    memory.take ((content memory).length + 1) = content memory ++ [0] := by
  induction memory with
  | nil => simp at short
  | cons b memory ih =>
      by_cases zero : b = 0
      · simp [content, zero]
      · have rest : content (b :: memory) = b :: content memory := by simp [content, zero]
        rw [rest] at short ⊢
        rw [List.length_cons, List.take_succ_cons, List.cons_append,
          ih (by simpa using short)]

theorem content_isPrefix (memory : Bytes) : content memory <+: memory := List.takeWhile_prefix _

theorem content_nulFree (memory : Bytes) : NulFree (content memory) := by
  intro b member
  simpa using List.mem_takeWhile_imp member

theorem NulFree.take {s : Bytes} (free : NulFree s) (n : Nat) : NulFree (s.take n) :=
  fun c member => free c (List.mem_of_mem_take member)

/-- `strchr` for a byte that is not NUL: the rest of the string from its first occurrence on. -/
def strchr : Bytes → UInt8 → Option Bytes
  | [], _ => none
  | b :: rest, c => if b = c then some (b :: rest) else strchr rest c

/-- `strstr`: the rest of the string from the first occurrence of the pattern on. -/
def strstr : Bytes → Bytes → Option Bytes
  | [], pattern => if pattern = [] then some [] else none
  | b :: rest, pattern =>
      if pattern.isPrefixOf (b :: rest) then some (b :: rest) else strstr rest pattern

theorem strchr_append_of_notMem {front : Bytes} {c : UInt8} (absent : c ∉ front) (rest : Bytes) :
    strchr (front ++ c :: rest) c = some (c :: rest) := by
  induction front with
  | nil => simp [strchr]
  | cons b front ih =>
      have ne : b ≠ c := fun eq => absent (by simp [eq])
      simp only [List.cons_append, strchr, if_neg ne]
      exact ih (fun member => absent (List.mem_cons_of_mem b member))

theorem strchr_eq_none {s : Bytes} {c : UInt8} (absent : c ∉ s) : strchr s c = none := by
  induction s with
  | nil => rfl
  | cons b s ih =>
      rw [List.mem_cons, not_or] at absent
      rw [strchr, if_neg (Ne.symm absent.1), ih absent.2]

/-- What `strchr` finds begins behind bytes of another kind. -/
theorem strchr_split {s rest : Bytes} {c : UInt8} (found : strchr s c = some rest) :
    ∃ front, s = front ++ rest ∧ c ∉ front := by
  induction s with
  | nil => cases found
  | cons b s ih =>
      rw [strchr] at found
      split at found
      · cases found
        exact ⟨[], rfl, by simp⟩
      · rename_i other
        obtain ⟨front, rfl, absent⟩ := ih found
        refine ⟨b :: front, rfl, ?_⟩
        rw [List.mem_cons, not_or]
        exact ⟨Ne.symm other, absent⟩

/-- The pattern occurs in the string. -/
def Occurs (pattern s : Bytes) : Prop := ∃ front back, s = front ++ pattern ++ back

theorem strstr_eq_none_iff {s pattern : Bytes} : strstr s pattern = none ↔ ¬ Occurs pattern s := by
  induction s with
  | nil =>
      simp only [strstr, Occurs]
      split
      · rename_i eq
        simp [eq]
      · rename_i ne
        simp only [true_iff]
        rintro ⟨front, back, eq⟩
        simp only [List.nil_eq, List.append_eq_nil_iff] at eq
        exact ne eq.1.2
  | cons b s ih =>
      simp only [strstr]
      split
      · rename_i here
        obtain ⟨back, eq⟩ := List.isPrefixOf_iff_prefix.mp here
        simp only [reduceCtorEq, false_iff, not_not]
        exact ⟨[], back, by simp [eq]⟩
      · rename_i away
        rw [ih]
        constructor
        · rintro absent ⟨front, back, eq⟩
          cases front with
          | nil => exact away (List.isPrefixOf_iff_prefix.mpr ⟨back, by simpa using eq.symm⟩)
          | cons c front =>
              simp only [List.cons_append, List.cons.injEq] at eq
              exact absent ⟨front, back, eq.2⟩
        · rintro absent ⟨front, back, eq⟩
          exact absent ⟨b :: front, back, by simp [eq]⟩

/-- `strstr` finds the first place at which the pattern stands. -/
theorem strstr_eq_some_iff {s rest pattern : Bytes} :
    strstr s pattern = some rest ↔
      ∃ front, s = front ++ rest ∧ pattern <+: rest ∧ ∀ i < front.length, ¬ pattern <+: s.drop i := by
  induction s with
  | nil =>
      simp only [strstr]
      constructor
      · intro found
        split at found
        · rename_i empty
          cases found
          exact ⟨[], rfl, by simp [empty], by simp⟩
        · cases found
      · rintro ⟨front, eq, start, -⟩
        obtain ⟨rfl, rfl⟩ := List.append_eq_nil_iff.mp eq.symm
        rw [if_pos (List.prefix_nil.mp start)]
  | cons b s ih =>
      simp only [strstr]
      constructor
      · intro found
        split at found
        · rename_i here
          cases found
          exact ⟨[], rfl, List.isPrefixOf_iff_prefix.mp here, by simp⟩
        · rename_i away
          obtain ⟨front, rfl, start, first⟩ := ih.mp found
          refine ⟨b :: front, rfl, start, fun i small => ?_⟩
          cases i with
          | zero => exact fun here => away (List.isPrefixOf_iff_prefix.mpr here)
          | succ i => exact first i (by simpa using small)
      · rintro ⟨front, eq, start, first⟩
        cases front with
        | nil =>
            rw [List.nil_append] at eq
            rw [← eq] at start ⊢
            rw [if_pos (List.isPrefixOf_iff_prefix.mpr start)]
        | cons c front =>
            obtain ⟨rfl, tail⟩ : b = c ∧ s = front ++ rest := by simpa using eq
            subst tail
            have away : ¬ pattern.isPrefixOf (b :: (front ++ rest)) = true := fun here =>
              first 0 (by simp) (List.isPrefixOf_iff_prefix.mp here)
            rw [if_neg away]
            exact ih.mpr ⟨front, rfl, start, fun i small => first (i + 1) (by simpa using small)⟩

/-- What `strstr` finds in a string it finds at the same place in a prefix that
    holds the whole pattern, and in no shorter one. -/
theorem strstr_take {s rest pattern : Bytes} (found : strstr s pattern = some rest) (m : Nat) :
    strstr (s.take m) pattern =
      if s.length - rest.length + pattern.length ≤ m then
        some ((s.take m).drop (s.length - rest.length))
      else none := by
  obtain ⟨front, rfl, start, first⟩ := strstr_eq_some_iff.mp found
  have place : (front ++ rest).length - rest.length = front.length := by simp
  rw [place]
  split
  · rename_i long
    have cut : (front ++ rest).take m = front ++ rest.take (m - front.length) := by
      rw [List.take_append, List.take_of_length_le (by omega)]
    refine strstr_eq_some_iff.mpr ⟨front, ?_, ?_, fun i small here => first i small ?_⟩
    · rw [cut, List.drop_left]
    · rw [cut, List.drop_left]
      exact List.prefix_take_iff.mpr ⟨start, by omega⟩
    · rw [List.drop_take] at here
      exact here.trans (List.take_prefix _ _)
  · rename_i short
    refine strstr_eq_none_iff.mpr ?_
    rintro ⟨before, back, eq⟩
    have inside : before.length + pattern.length ≤ m := by
      have size := congrArg List.length eq
      simp only [List.length_take, List.length_append] at size
      omega
    have here : pattern <+: (front ++ rest).drop before.length := by
      have seen : pattern <+: ((front ++ rest).take m).drop before.length := by
        rw [eq, List.append_assoc, List.drop_left]
        exact List.prefix_append _ _
      rw [List.drop_take] at seen
      exact seen.trans (List.take_prefix _ _)
    exact first before.length (by omega) here

theorem strstr_take_none {s pattern : Bytes} (absent : strstr s pattern = none) (m : Nat) :
    strstr (s.take m) pattern = none := by
  rw [strstr_eq_none_iff] at absent ⊢
  rintro ⟨front, back, eq⟩
  exact absent ⟨front, back ++ s.drop m, by rw [← List.append_assoc, ← eq, List.take_append_drop]⟩

/-- The C string in a memory holds a pattern where the memory does, or ends before. -/
theorem strstr_content {memory rest pattern : Bytes} (found : strstr memory pattern = some (pattern ++ rest)) :
    strstr (content memory) pattern = some (pattern ++ content rest) ∨ strstr (content memory) pattern = none := by
  obtain ⟨front, rfl, -⟩ := strstr_eq_some_iff.mp found
  have cut := List.prefix_iff_eq_take.mp (content_isPrefix (front ++ (pattern ++ rest)))
  have seen := strstr_take found (content (front ++ (pattern ++ rest))).length
  have place : (front ++ (pattern ++ rest)).length - (pattern ++ rest).length = front.length := by simp
  rw [← cut, place, ← List.length_append] at seen
  by_cases long : (front ++ pattern).length ≤ (content (front ++ (pattern ++ rest))).length
  · have head : front ++ pattern <+: content (front ++ (pattern ++ rest)) := by
      rw [cut, List.prefix_take_iff]
      exact ⟨⟨rest, List.append_assoc ..⟩, long⟩
    have free : NulFree (front ++ pattern) := fun b member => content_nulFree _ b (head.subset member)
    have whole : content (front ++ (pattern ++ rest)) = front ++ (pattern ++ content rest) := by
      rw [← List.append_assoc, content_append_of_nulFree free, List.append_assoc]
    rw [if_pos long, whole, List.drop_left] at seen
    rw [whole]
    exact .inl seen
  · rw [if_neg long] at seen
    exact .inr seen

/-- `while (*p == ' ' || *p == '\t') p++;` -/
def skipBlanks (s : Bytes) : Bytes :=
  s.dropWhile fun b => b = 0x20 ∨ b = 0x09

/-- `%u` or `%d` of a number that is not negative. -/
def decimal (n : Nat) : Bytes :=
  (Nat.toDigits 10 n).map fun c => UInt8.ofNat c.toNat

def isDigit (b : UInt8) : Bool := 0x30 ≤ b && b ≤ 0x39

def isSpace (b : UInt8) : Bool := b == 0x20 || (0x09 ≤ b && b ≤ 0x0D)

/-- The value of a row of decimal digits. -/
def digitsValue (digits : Bytes) : Nat :=
  digits.foldl (fun acc d => 10 * acc + (d.toNat - 0x30)) 0

theorem decimal_step {n : Nat} (large : 10 ≤ n) :
    decimal n = decimal (n / 10) ++ [UInt8.ofNat (0x30 + n % 10)] := by
  have digit : ∀ d < 10, UInt8.ofNat (Nat.digitChar d).toNat = UInt8.ofNat (0x30 + d) := by decide
  rw [decimal, Nat.toDigits_of_base_le (by decide) large, List.map_append, decimal, List.map_singleton,
    digit _ (Nat.mod_lt _ (by decide))]

theorem decimal_small {n : Nat} (small : n < 10) : decimal n = [UInt8.ofNat (0x30 + n)] := by
  have digit : ∀ d < 10, UInt8.ofNat (Nat.digitChar d).toNat = UInt8.ofNat (0x30 + d) := by decide
  rw [decimal, Nat.toDigits_of_lt_base small, List.map_singleton, digit n small]

theorem digitsValue_append (digits : Bytes) (d : UInt8) :
    digitsValue (digits ++ [d]) = 10 * digitsValue digits + (d.toNat - 0x30) := by
  simp only [digitsValue, List.foldl_append, List.foldl_cons, List.foldl_nil]

theorem digit_toNat {d : Nat} (small : d < 10) : (UInt8.ofNat (0x30 + d)).toNat - 0x30 = d := by
  have all : ∀ d < 10, (UInt8.ofNat (0x30 + d)).toNat - 0x30 = d := by decide
  exact all d small

theorem digitsValue_decimal (n : Nat) : digitsValue (decimal n) = n := by
  induction n using Nat.strongRecOn with
  | ind n ih =>
      by_cases small : n < 10
      · rw [decimal_small small]
        simp only [digitsValue, List.foldl_cons, List.foldl_nil, digit_toNat small]
        omega
      · rw [decimal_step (by omega), digitsValue_append, ih (n / 10) (by omega),
          digit_toNat (Nat.mod_lt _ (by decide))]
        omega

/-- A number that lost digits at its end is at most a tenth of what it was. -/
theorem digitsValue_take {n k : Nat} (short : k < (decimal n).length) :
    digitsValue ((decimal n).take k) ≤ n / 10 := by
  induction n using Nat.strongRecOn with
  | ind n ih =>
      by_cases small : n < 10
      · rw [decimal_small small, List.length_singleton] at short
        obtain rfl : k = 0 := by omega
        simp [digitsValue]
      · have step := decimal_step (Nat.not_lt.mp small)
        rw [step, List.length_append, List.length_singleton] at short
        rw [step, List.take_append_of_le_length (by omega)]
        by_cases last : k = (decimal (n / 10)).length
        · rw [last, List.take_length, digitsValue_decimal]
        · exact Nat.le_trans (ih (n / 10) (by omega) (by omega)) (Nat.div_le_self _ _)

theorem decimal_isDigit {n : Nat} {b : UInt8} (member : b ∈ decimal n) : isDigit b = true := by
  have digit : ∀ d < 10, isDigit (UInt8.ofNat (0x30 + d)) = true := by decide
  induction n using Nat.strongRecOn with
  | ind n ih =>
      by_cases small : n < 10
      · rw [decimal_small small, List.mem_singleton] at member
        rw [member, digit n small]
      · rw [decimal_step (by omega), List.mem_append, List.mem_singleton] at member
        obtain front | rfl := member
        · exact ih (n / 10) (by omega) front
        · exact digit _ (Nat.mod_lt _ (by decide))

/-- `atoi` of newlib on a 32-bit target: `strtol` in base 10, which saturates. -/
def atoi (s : Bytes) : Int :=
  match s.dropWhile isSpace with
  | 0x2D :: rest => -(min (digitsValue (rest.takeWhile isDigit)) (2 ^ 31) : Nat)
  | 0x2B :: rest => (min (digitsValue (rest.takeWhile isDigit)) (2 ^ 31 - 1) : Nat)
  | rest => (min (digitsValue (rest.takeWhile isDigit)) (2 ^ 31 - 1) : Nat)

theorem decimal_ne_nil (n : Nat) : decimal n ≠ [] := by
  by_cases small : n < 10
  · simp [decimal_small small]
  · simp [decimal_step (Nat.not_lt.mp small)]

theorem decimal_length_mono {m n : Nat} (less : m ≤ n) : (decimal m).length ≤ (decimal n).length := by
  induction n using Nat.strongRecOn generalizing m with
  | ind n ih =>
      by_cases small : m < 10
      · rw [decimal_small small, List.length_singleton]
        exact List.length_pos_iff.mpr (decimal_ne_nil n)
      · have large : 10 ≤ n := Nat.le_trans (Nat.not_lt.mp small) less
        have rest := ih (n / 10) (by omega) (Nat.div_le_div_right less)
        rw [decimal_step (Nat.not_lt.mp small), decimal_step large, List.length_append, List.length_append]
        exact Nat.succ_le_succ rest

/-- `atoi` of a row of digits behind one space. -/
theorem atoi_digits {s : Bytes} (start : ∀ b, s.head? = some b → isDigit b = true) :
    atoi (0x20 :: s) = (min (digitsValue (s.takeWhile isDigit)) (2 ^ 31 - 1) : Nat) := by
  have other : ∀ b, isDigit b = true → isSpace b = false ∧ b ≠ 0x2D ∧ b ≠ 0x2B := by
    intro b digit
    simp only [isDigit, isSpace, Bool.and_eq_true, Bool.or_eq_false_iff, Bool.and_eq_false_iff,
      decide_eq_true_eq, decide_eq_false_iff_not, beq_eq_false_iff_ne, ne_eq, ← UInt8.toNat_inj,
      UInt8.le_iff_toNat_le, UInt8.reduceToNat] at digit ⊢
    omega
  have blanks : (0x20 :: s).dropWhile isSpace = s := by
    cases s with
    | nil => rfl
    | cons b s =>
        have digit := other b (start b rfl)
        simp [digit.1, show isSpace 0x20 = true from rfl]
  rw [atoi, blanks]
  split
  · exact absurd rfl (other _ (start _ rfl)).2.1
  · exact absurd rfl (other _ (start _ rfl)).2.2
  · rfl

/-- A number behind one space, of which only the first bytes are there: the digits
    that are there count. -/
theorem atoi_take {n : Nat} (small : n < 2 ^ 31) {rest : Bytes}
    (stop : ∀ b, rest.head? = some b → isDigit b = false) (k : Nat) :
    atoi ((0x20 :: (decimal n ++ rest)).take k) = digitsValue ((decimal n).take (k - 1)) := by
  cases k with
  | zero => rfl
  | succ k =>
      have digits : ∀ b ∈ (decimal n).take k, isDigit b = true := fun b member =>
        decimal_isDigit (List.mem_of_mem_take member)
      have behind : (rest.take (k - (decimal n).length)).takeWhile isDigit = [] := by
        cases rest with
        | nil => simp
        | cons b rest =>
            cases k - (decimal n).length with
            | zero => rfl
            | succ j => simp [stop b rfl]
      have number : ((decimal n ++ rest).take k).takeWhile isDigit = (decimal n).take k := by
        rw [List.take_append, List.takeWhile_append_of_pos digits, behind, List.append_nil]
      have start : ∀ b, ((decimal n ++ rest).take k).head? = some b → isDigit b = true := by
        intro b head
        obtain ⟨d, ds, eq⟩ := List.exists_cons_of_ne_nil (decimal_ne_nil n)
        cases k with
        | zero => cases head
        | succ k =>
            rw [eq] at head
            cases head
            exact decimal_isDigit (n := n) (by simp [eq])
      have value : digitsValue ((decimal n).take k) ≤ n := by
        by_cases short : k < (decimal n).length
        · exact Nat.le_trans (digitsValue_take short) (Nat.div_le_self _ _)
        · rw [List.take_of_length_le (Nat.not_lt.mp short), digitsValue_decimal]
      rw [List.take_succ_cons, atoi_digits start, number, Nat.add_sub_cancel,
        Nat.min_eq_left (by omega)]

end CStr

namespace CMem.Region

variable {n : Nat}

/-- The C string at the start of the region. -/
def cstr (r : Region n) : Bytes := CStr.content r.bytes

/-- `snprintf(r, sizeof(r), ...)` of a text: cut to the region and terminated. -/
def snprintf (r : Region n) (text : Bytes) : Region n :=
  r.store 0 (text.take (n - 1) ++ [0])

theorem cstr_store_content {s : Bytes} (r : Region n) (room : s.length < n) :
    (r.store 0 (s ++ [0])).cstr = CStr.content s := by
  have fits : (s ++ [0]).take n = s ++ [0] := List.take_of_length_le (by simp; omega)
  simp only [cstr, store, List.take_zero, List.nil_append, Nat.sub_zero, fits, List.append_assoc,
    List.singleton_append]
  exact CStr.content_append_zero s _

theorem cstr_store {s : Bytes} (r : Region n) (free : CStr.NulFree s) (room : s.length < n) :
    (r.store 0 (s ++ [0])).cstr = s := by
  rw [cstr_store_content r room, CStr.content_of_nulFree free]

/-- A string shorter than its array ends with a NUL in it. -/
theorem load_cstr {r : Region n} {s : Bytes} (text : r.cstr = s) (short : s.length < n) :
    r.load 0 (s.length + 1) = s ++ [0] := by
  subst text
  exact CStr.take_content (by rw [r.size]; exact short)

/-- What `snprintf` leaves in an array does not depend on what was there. -/
theorem cstr_snprintf (r : Region n) (text : Bytes) (room : 0 < n) :
    (r.snprintf text).cstr = CStr.content (text.take (n - 1)) :=
  cstr_store_content r (by simp only [List.length_take]; omega)

/-- A text that fits is in the array byte for byte. -/
theorem load_snprintf (r : Region n) {text : Bytes} (fits : text.length < n) :
    (r.snprintf text).load 0 text.length = text := by
  have whole : text.take (n - 1) = text := List.take_of_length_le (by omega)
  have seen := load_store_within r 0 (text ++ [0]) 0 text.length
    (by simp only [List.length_append, List.length_singleton]; omega)
    (by simp only [List.length_append, List.length_singleton]; omega)
  rw [snprintf, whole]
  simpa using seen

end CMem.Region
