import Roman.HttpServer.Helpers
import Roman.Lib.FlatObject

/-! # json_get_string against a JSON object

The lookup is a search for the quoted key and then for the next colon. On a flat
object it reads the members in order, and in each the name before the value: the first
quote behind which the key stands decides, which for an ordinary key is the first name
or value that spells it.
-/

namespace Roman

open CMem CStr Json

/-- `json_get_string` finds this value, or nothing. -/
inductive Finds {n : Nat} (json key : Bytes) (buf : Region n) : Option Bytes → Prop where
  | none (missed : jsonGetString json key buf = (false, buf)) : Finds json key buf none
  | some {value : Bytes} {buf' : Region n} (found : jsonGetString json key buf = (true, buf'))
      (text : buf'.cstr = value) : Finds json key buf (some value)

theorem Finds.unique {n : Nat} {json key : Bytes} {buf : Region n} {v v' : Option Bytes}
    (first : Finds json key buf v) (second : Finds json key buf v') : v = v' := by
  cases first with
  | none missed =>
      cases second with
      | none => rfl
      | some found =>
          rw [missed] at found
          cases found
  | some found text =>
      cases second with
      | none missed =>
          rw [found] at missed
          cases missed
      | some found' text' =>
          rw [found] at found'
          cases found'
          rw [← text, ← text']

/-- Only spaces and tabs, which is what `json_get_string` skips behind the colon. -/
def Blanks (s : Bytes) : Prop := ∀ b ∈ s, b = 0x20 ∨ b = 0x09

instance (s : Bytes) : Decidable (Blanks s) :=
  List.decidableBAll (fun b => b = 0x20 ∨ b = 0x09) s

/-- What is searched behind a quote: the key and a quote, cut to the array they are put into. -/
def searched (key : Bytes) : Bytes := (key ++ [0x22]).take 126

theorem needle_eq (key : Bytes) : (0x22 :: key ++ [0x22]).take 127 = 0x22 :: searched key := rfl

/-- A key of up to 125 bytes is searched with both its quotes. -/
theorem searched_short {key : Bytes} (short : key.length ≤ 125) : searched key = key ++ [0x22] :=
  List.take_of_length_le (by simp only [List.length_append, List.length_singleton]; omega)

theorem needle_short {key : Bytes} (short : key.length ≤ 125) :
    (0x22 :: key ++ [0x22]).take 127 = 0x22 :: (key ++ [0x22]) := by
  rw [needle_eq, searched_short short]

theorem skipBlanks_append (s : Bytes) (rest : Bytes) :
    skipBlanks (s ++ 0x22 :: rest) = skipBlanks s ++ 0x22 :: rest := by
  induction s with
  | nil => rfl
  | cons b s ih =>
      unfold skipBlanks at *
      rw [List.cons_append, List.dropWhile_cons, List.dropWhile_cons]
      split
      · exact ih
      · rfl

theorem skipBlanks_eq_nil_iff (s : Bytes) : skipBlanks s = [] ↔ Blanks s := by
  simp [skipBlanks, Blanks, List.dropWhile_eq_nil_iff]

/-- Behind the blanks stands the quote, or what is in front of it. -/
theorem skipBlanks_piece {piece : Bytes} (free : (0x22 : UInt8) ∉ piece) (rest : Bytes) :
    (Blanks piece ∧ skipBlanks (piece ++ 0x22 :: rest) = 0x22 :: rest) ∨
      (¬ Blanks piece ∧ ∃ b more, b ≠ 0x22 ∧ skipBlanks (piece ++ 0x22 :: rest) = b :: more) := by
  rw [skipBlanks_append, ← skipBlanks_eq_nil_iff]
  cases skipped : skipBlanks piece with
  | nil => exact .inl ⟨rfl, rfl⟩
  | cons b more =>
      have member : b ∈ piece := by
        have inside : b ∈ skipBlanks piece := by
          rw [skipped]
          exact List.mem_cons_self ..
        exact (List.dropWhile_suffix _).subset inside
      refine .inr ⟨nofun, b, more ++ 0x22 :: rest, ?_, rfl⟩
      rintro rfl
      exact free member

/-- The lookup from the hit on: a piece behind the next colon, and a string behind the piece. -/
theorem jsonGetString_hit {n : Nat} {json key hit piece value more : Bytes}
    (search : strstr json (0x22 :: searched key) = some hit)
    (colon : strchr hit 0x3A = some (0x3A :: (piece ++ 0x22 :: (value ++ 0x22 :: more))))
    (free : (0x22 : UInt8) ∉ piece) (valueFree : (0x22 : UInt8) ∉ value) (pos : 0 < n) (buf : Region n) :
    jsonGetString json key buf =
      if Blanks piece then (true, buf.store 0 (value.take (n - 1) ++ [0])) else (false, buf) := by
  unfold jsonGetString
  simp only [needle_eq, search, colon, List.drop_succ_cons, List.drop_zero]
  obtain ⟨blanks, skipped⟩ | ⟨blanks, b, rest, other, skipped⟩ := skipBlanks_piece free (value ++ 0x22 :: more)
  · have stop := strchr_append_of_notMem valueFree more
    simp only [skipped, stop, if_pos blanks]
    have len : (value ++ 0x22 :: more).length - (0x22 :: more : Bytes).length = value.length := by
      rw [List.length_append]
      omega
    rw [len]
    split
    · rename_i long
      rw [List.take_append_of_le_length (by omega)]
    · rename_i fits
      rw [List.take_left, List.take_of_length_le (by omega)]
  · rw [if_neg blanks, skipped]
    split
    · rename_i eq
      exact absurd (List.cons.inj eq).1 other
    · rfl

theorem jsonGetString_miss {n : Nat} {json key : Bytes}
    (search : strstr json ((0x22 :: key ++ [0x22]).take 127) = none) (buf : Region n) :
    jsonGetString json key buf = (false, buf) := by
  simp only [jsonGetString, search]

theorem finds_stored {n : Nat} {json key value : Bytes} {buf : Region n} (free : NulFree value)
    (pos : 0 < n) (found : jsonGetString json key buf = (true, buf.store 0 (value.take (n - 1) ++ [0]))) :
    Finds json key buf (some (value.take (n - 1))) := by
  apply Finds.some found
  apply Region.cstr_store buf (free.take _)
  rw [List.length_take]
  omega

theorem finds_cond {n : Nat} {json key value : Bytes} {c : Prop} [Decidable c] (free : NulFree value)
    (pos : 0 < n) (lookup : ∀ buf : Region n, jsonGetString json key buf =
      if c then (true, buf.store 0 (value.take (n - 1) ++ [0])) else (false, buf)) (buf : Region n) :
    Finds json key buf (if c then some (value.take (n - 1)) else none) := by
  have here := lookup buf
  split at here
  · rename_i holds
    rw [if_pos holds]
    exact finds_stored free pos here
  · rename_i fails
    rw [if_neg fails]
    exact .none here

/-- If the lookup finds the same into every buffer, that is what it finds. -/
theorem finds_iff {n : Nat} {json key : Bytes} {v : Option Bytes}
    (finds : ∀ buf : Region n, Finds json key buf v) (v' : Option Bytes) :
    (∀ buf : Region n, Finds json key buf v') ↔ v' = v := by
  constructor
  · intro other
    exact (other (.fill n 0)).unique (finds _)
  · rintro rfl
    exact finds

section
variable {n : Nat} {json key hit : Bytes} (search : strstr json (0x22 :: searched key) = some hit) (buf : Region n)
include search

theorem finds_no_colon (absent : (0x3A : UInt8) ∉ hit) : Finds json key buf none := by
  have none := strchr_eq_none absent
  exact .none (by simp only [jsonGetString, needle_eq, search, none])

/-- A string that is not closed is not found. -/
theorem finds_no_string {piece rest : Bytes} (colon : strchr hit 0x3A = some (0x3A :: (piece ++ 0x22 :: rest)))
    (free : (0x22 : UInt8) ∉ piece) (unclosed : (0x22 : UInt8) ∉ rest) : Finds json key buf none := by
  have none := strchr_eq_none unclosed
  apply Finds.none
  unfold jsonGetString
  simp only [needle_eq, search, colon, List.drop_succ_cons, List.drop_zero]
  obtain ⟨-, skipped⟩ | ⟨-, b, more, other, skipped⟩ := skipBlanks_piece free rest
  · simp only [skipped, none]
  · rw [skipped]
    split
    · rename_i eq
      exact absurd (List.cons.inj eq).1 other
    · rfl

end

section
variable {n : Nat} {json key : Bytes} {m : Member} {rest : Bytes}

theorem strchr_named (searchable : Searchable key) (formed : m.Formed) :
    strchr (0x22 :: (key ++ 0x22 :: m.assigned rest)) 0x3A =
      some (0x3A :: (m.pad ++ 0x22 :: (m.value ++ 0x22 :: (m.trail ++ rest)))) := by
  have absent : (0x3A : UInt8) ∉ 0x22 :: (key ++ 0x22 :: m.gap) := by
    simp [searchable.colon, formed.gap.notMem (c := 0x3A) rfl]
  have found := strchr_append_of_notMem absent
    (m.pad ++ 0x22 :: (m.value ++ 0x22 :: (m.trail ++ rest)))
  rw [← found, Member.assigned]
  simp

/-- At its name a member gives its value, if only blanks stand in front of it. -/
theorem jsonGetString_named (searchable : Searchable key) (short : key.length ≤ 125)
    (formed : m.Formed) (pos : 0 < n) (buf : Region n)
    (search : strstr json (0x22 :: (key ++ [0x22])) = some (0x22 :: (key ++ 0x22 :: m.assigned rest))) :
    jsonGetString json key buf =
      if Blanks m.pad then (true, buf.store 0 (m.value.take (n - 1) ++ [0])) else (false, buf) := by
  rw [← searched_short short] at search
  exact jsonGetString_hit search (strchr_named searchable formed) (formed.pad.notMem rfl) formed.value.quote pos buf

end

/-- No quote stands between two members. -/
theorem between_unquoted {m m' : Member} (formed : m.Formed) (formed' : m'.Formed) :
    (0x22 : UInt8) ∉ m.trail ++ 0x2C :: m'.lead := by
  simp [formed.trail.notMem (c := 0x22) rfl, formed'.lead.notMem (c := 0x22) rfl]

/-- None stands behind the last value. -/
theorem behind_unquoted {m : Member} {after : Bytes} (formed : m.Formed) (wsAfter : Ws after) :
    (0x22 : UInt8) ∉ m.trail ++ membersTail after [] := by
  simp [membersTail, formed.trail.notMem (c := 0x22) rfl, wsAfter.notMem (c := 0x22) rfl]

/-- What stands behind the first colon. -/
def pastColon (s : Bytes) : Bytes := (s.dropWhile (· ≠ 0x3A)).drop 1

theorem pastColon_append {a : Bytes} (absent : (0x3A : UInt8) ∉ a) (b : Bytes) : pastColon (a ++ 0x3A :: b) = b := by
  have tail : (a ++ 0x3A :: b).dropWhile (· ≠ 0x3A) = 0x3A :: b := by
    rw [List.dropWhile_append_of_pos]
    · rfl
    · intro c member
      simpa using fun eq : c = 0x3A => absent (eq ▸ member)
  rw [pastColon, tail]
  rfl

/-- What stands between the next colon and the string behind it, and that string,
    for a search that comes from in front of the member. -/
def behindColon (m : Member) : Bytes × Bytes :=
  if 0x3A ∈ m.name then (pastColon m.name, m.gap ++ 0x3A :: m.pad) else (m.pad, m.value)

/-- The string behind the colon of a member, cut to the buffer, if only blanks stand in between. -/
def memberGives (n : Nat) (m : Member) : Option Bytes :=
  if Blanks m.pad then some (m.value.take (n - 1)) else none

/-- The same behind the next colon, from in front of these members. -/
def aheadGives (n : Nat) : List Member → Option Bytes
  | [] => none
  | m :: _ => if Blanks (behindColon m).1 then some ((behindColon m).2.take (n - 1)) else none

/-- The same from where the value of a member begins. -/
def valueGives (n : Nat) (m : Member) (ms : List Member) : Option Bytes :=
  if 0x3A ∈ m.value then
    match ms with
    | [] => none
    | m' :: _ =>
        if Blanks (pastColon m.value) then some ((m.trail ++ 0x2C :: m'.lead).take (n - 1)) else none
  else aheadGives n ms

section
variable {m : Member} (formed : m.Formed) (plain : Plain m.name)
include formed

theorem strchr_ahead {front : Bytes} (clear : (0x3A : UInt8) ∉ front) (rest : Bytes) :
    ∃ more, strchr (front ++ 0x22 :: (m.name ++ 0x22 :: m.assigned rest)) 0x3A =
      some (0x3A :: ((behindColon m).1 ++ 0x22 :: ((behindColon m).2 ++ 0x22 :: more))) := by
  unfold behindColon
  by_cases colon : (0x3A : UInt8) ∈ m.name
  · obtain ⟨a, b, split, absent⟩ := List.eq_append_cons_of_mem colon
    have free : (0x3A : UInt8) ∉ front ++ 0x22 :: a := by simp [clear, absent]
    have found := strchr_append_of_notMem free (b ++ 0x22 :: m.assigned rest)
    refine ⟨m.value ++ 0x22 :: (m.trail ++ rest), ?_⟩
    rw [if_pos colon, split, pastColon_append absent]
    rw [Member.assigned] at found ⊢
    simpa using found
  · have free : (0x3A : UInt8) ∉ front ++ 0x22 :: (m.name ++ 0x22 :: m.gap) := by
      simp [clear, colon, formed.gap.notMem (c := 0x3A) rfl]
    have found := strchr_append_of_notMem free (m.pad ++ 0x22 :: (m.value ++ 0x22 :: (m.trail ++ rest)))
    refine ⟨m.trail ++ rest, ?_⟩
    rw [if_neg colon, Member.assigned]
    simpa using found

theorem behindColon_nulFree : NulFree (behindColon m).2 := by
  unfold behindColon
  split
  · intro b member
    rw [List.mem_append, List.mem_cons] at member
    rcases member with gap | rfl | pad
    · rintro rfl
      exact absurd (formed.gap 0 gap) (by decide)
    · decide
    · rintro rfl
      exact absurd (formed.pad 0 pad) (by decide)
  · exact formed.value.nulFree

include plain

theorem behindColon_quote : (0x22 : UInt8) ∉ (behindColon m).1 ∧ (0x22 : UInt8) ∉ (behindColon m).2 := by
  have gap : (0x22 : UInt8) ∉ m.gap := formed.gap.notMem rfl
  have pad : (0x22 : UInt8) ∉ m.pad := formed.pad.notMem rfl
  unfold behindColon
  split
  · have inside : ∀ c ∈ pastColon m.name, c ∈ m.name := fun _ member =>
      (List.dropWhile_suffix _).subset (List.mem_of_mem_drop member)
    exact ⟨fun member => plain.quote (inside _ member), by simp [gap, pad]⟩
  · exact ⟨pad, formed.value.quote⟩

theorem finds_ahead {n : Nat} {json key front rest : Bytes} (ms : List Member) (clear : (0x3A : UInt8) ∉ front)
    (search : strstr json (0x22 :: searched key) = some (front ++ 0x22 :: (m.name ++ 0x22 :: m.assigned rest)))
    (pos : 0 < n) (buf : Region n) : Finds json key buf (aheadGives n (m :: ms)) := by
  obtain ⟨more, colon⟩ := strchr_ahead formed clear rest
  obtain ⟨free, valueFree⟩ := behindColon_quote formed plain
  exact finds_cond (behindColon_nulFree formed) pos
    (fun buf => jsonGetString_hit search colon free valueFree pos buf) buf

end

section
variable {n : Nat} {json key after : Bytes} (pos : 0 < n) (wsAfter : Ws after)
include pos

/-- A hit behind the name, which is where the value is. -/
theorem finds_assigned {m : Member} (formed : m.Formed) {rest : Bytes}
    (search : strstr json (0x22 :: searched key) = some (0x22 :: m.assigned rest)) (buf : Region n) :
    Finds json key buf (memberGives n m) := by
  have free : (0x3A : UInt8) ∉ 0x22 :: m.gap := by simp [formed.gap.notMem (c := 0x3A) rfl]
  have colon := strchr_append_of_notMem free (m.pad ++ 0x22 :: (m.value ++ 0x22 :: (m.trail ++ rest)))
  exact finds_cond formed.value.nulFree pos
    (fun buf => jsonGetString_hit search colon (formed.pad.notMem rfl) formed.value.quote pos buf) buf

include wsAfter

/-- A hit between two members. -/
theorem finds_behind {ms : List Member} (formed : ∀ m ∈ ms, m.Formed ∧ Plain m.name) {front trail : Bytes}
    (clear : (0x3A : UInt8) ∉ front) (wsTrail : Ws trail)
    (search : strstr json (0x22 :: searched key) = some (front ++ (trail ++ membersTail after ms))) (buf : Region n) :
    Finds json key buf (aheadGives n ms) := by
  cases ms with
  | nil =>
      refine finds_no_colon search buf ?_
      simp [membersTail, clear, wsTrail.notMem (c := 0x3A) rfl, wsAfter.notMem (c := 0x3A) rfl]
  | cons m ms =>
      obtain ⟨form, plain⟩ := formed m (List.mem_cons_self ..)
      have free : (0x3A : UInt8) ∉ front ++ (trail ++ 0x2C :: m.lead) := by
        simp [clear, wsTrail.notMem (c := 0x3A) rfl, form.lead.notMem (c := 0x3A) rfl]
      have next : strstr json (0x22 :: searched key) = some ((front ++ (trail ++ 0x2C :: m.lead)) ++
          0x22 :: (m.name ++ 0x22 :: m.assigned (membersTail after ms))) := by
        rw [search, membersTail, Member.text]
        simp
      exact finds_ahead form plain ms free next pos buf

/-- A hit at a value, in which the next colon may be. -/
theorem finds_value {m : Member} {ms : List Member} (formed : ∀ m' ∈ m :: ms, m'.Formed ∧ Plain m'.name)
    (search : strstr json (0x22 :: searched key) =
      some (0x22 :: (m.value ++ 0x22 :: (m.trail ++ membersTail after ms)))) (buf : Region n) :
    Finds json key buf (valueGives n m ms) := by
  obtain ⟨form, -⟩ := formed m (List.mem_cons_self ..)
  have later : ∀ m' ∈ ms, m'.Formed ∧ Plain m'.name := fun m' member => formed m' (List.mem_cons_of_mem m member)
  unfold valueGives
  split
  · next inside =>
      obtain ⟨a, b, split, absent⟩ := List.eq_append_cons_of_mem inside
      have clear : (0x3A : UInt8) ∉ 0x22 :: a := by simp [absent]
      have free : (0x22 : UInt8) ∉ b := fun member => form.value.quote (by simp [split, member])
      have colon := strchr_append_of_notMem clear (b ++ 0x22 :: (m.trail ++ membersTail after ms))
      rw [split, List.append_assoc, ← List.cons_append] at search
      rw [split, pastColon_append absent]
      cases ms with
      | nil =>
          exact finds_no_string search buf colon free (behind_unquoted form wsAfter)
      | cons m' ms =>
          obtain ⟨form', -⟩ := later m' (List.mem_cons_self ..)
          have blank : NulFree (m.trail ++ 0x2C :: m'.lead) := by
            intro c member zero
            subst zero
            simp [form.trail.notMem (c := 0) rfl, form'.lead.notMem (c := 0) rfl] at member
          have unquoted := between_unquoted form form'
          have next : m.trail ++ membersTail after (m' :: ms) = m.trail ++ 0x2C :: m'.lead ++
              0x22 :: (m'.name ++ 0x22 :: m'.assigned (membersTail after ms)) := by
            rw [membersTail, Member.text, List.append_assoc, List.cons_append]
          rw [next] at colon search
          exact finds_cond blank pos (fun buf => jsonGetString_hit search colon free unquoted pos buf) buf
  · next outside =>
      have clear : (0x3A : UInt8) ∉ 0x22 :: (m.value ++ [0x22]) := by simp [outside]
      refine finds_behind pos wsAfter later clear form.trail ?_ buf
      rw [search]
      simp

end

theorem valueOf_cons_of_ne {key : Bytes} {m : Member} (other : m.name ≠ key) (ms : List Member) :
    valueOf key (m :: ms) = valueOf key ms := by
  simp [valueOf, other]

theorem valueOf_cons_of_eq {key : Bytes} {m : Member} (same : m.name = key) (ms : List Member) :
    valueOf key (m :: ms) = some m.value := by
  simp [valueOf, same]

/-- The lookup into `n` chars is right about these members. The first quote decides behind
    which the key stands: in front of the name of the member asked for there may only be
    blanks behind its colon; anywhere else what stands behind the next colon has to be the
    right answer by chance. -/
def Right (n : Nat) (key after : Bytes) : List Member → Prop
  | [] => True
  | m :: ms =>
      if searched key <+: m.name ++ 0x22 :: m.assigned (membersTail after ms) then
        if m.name = key ∧ 0x3A ∉ key then Blanks m.pad else valueOf key (m :: ms) = aheadGives n (m :: ms)
      else if searched key <+: m.assigned (membersTail after ms) then valueOf key ms = memberGives n m
      else if searched key <+: m.value ++ 0x22 :: (m.trail ++ membersTail after ms) then
        valueOf key ms = valueGives n m ms
      else if searched key <+: m.trail ++ membersTail after ms then valueOf key ms = aheadGives n ms
      else Right n key after ms

instance decideRight (n : Nat) (key after : Bytes) : (ms : List Member) → Decidable (Right n key after ms)
  | [] => .isTrue trivial
  | m :: ms =>
      have := decideRight n key after ms
      inferInstanceAs (Decidable (if searched key <+: m.name ++ 0x22 :: m.assigned (membersTail after ms) then
          if m.name = key ∧ 0x3A ∉ key then Blanks m.pad else valueOf key (m :: ms) = aheadGives n (m :: ms)
        else if searched key <+: m.assigned (membersTail after ms) then valueOf key ms = memberGives n m
        else if searched key <+: m.value ++ 0x22 :: (m.trail ++ membersTail after ms) then
          valueOf key ms = valueGives n m ms
        else if searched key <+: m.trail ++ membersTail after ms then valueOf key ms = aheadGives n ms
        else Right n key after ms))

/-- The same of a key that cannot be mistaken for what stands between two strings: the
    first name or value that spells it decides. -/
def RightSpelled (n : Nat) (key : Bytes) : List Member → Prop
  | [] => True
  | m :: ms =>
      if m.name = key then Blanks m.pad
      else if m.value = key then valueOf key ms = aheadGives n ms
      else RightSpelled n key ms

instance decideRightSpelled (n : Nat) (key : Bytes) : (ms : List Member) → Decidable (RightSpelled n key ms)
  | [] => .isTrue trivial
  | m :: ms =>
      have := decideRightSpelled n key ms
      inferInstanceAs (Decidable (if m.name = key then Blanks m.pad
        else if m.value = key then valueOf key ms = aheadGives n ms else RightSpelled n key ms))

/-- A member of that name is hit there at the latest. -/
theorem searched_name {key : Bytes} {m : Member} (named : m.name = key) (rest : Bytes) :
    searched key <+: m.name ++ 0x22 :: m.assigned rest := by
  rw [named]
  exact (List.take_prefix _ _).trans ⟨m.assigned rest, by rw [List.append_assoc, List.singleton_append]⟩

/-- Between a name and its value such a key does not stand. -/
theorem not_assigned {key : Bytes} (searchable : Searchable key) (short : key.length ≤ 125) {m : Member}
    (formed : m.Formed) (rest : Bytes) : ¬ searched key <+: m.assigned rest := by
  have free : (0x22 : UInt8) ∉ m.gap ++ 0x3A :: m.pad := by
    simp [formed.gap.notMem (c := 0x22) rfl, formed.pad.notMem (c := 0x22) rfl]
  have start := delimited_prefix_iff searchable.quote free (m.value ++ 0x22 :: (m.trail ++ rest))
  rw [List.append_assoc, List.cons_append] at start
  rw [searched_short short, Member.assigned, start]
  rintro rfl
  exact searchable.colon (by simp)

/-- Nor between two members, or behind the last. -/
theorem not_behind {key after : Bytes} (wsAfter : Ws after) (searchable : Searchable key) (short : key.length ≤ 125)
    {m : Member} {ms : List Member} (formed : ∀ m' ∈ m :: ms, m'.Formed) :
    ¬ searched key <+: m.trail ++ membersTail after ms := by
  have form := formed m (List.mem_cons_self ..)
  rw [searched_short short]
  cases ms with
  | nil =>
      intro start
      exact behind_unquoted form wsAfter (start.subset (by simp))
  | cons m' ms =>
      have form' := formed m' (List.mem_cons_of_mem m (List.mem_cons_self ..))
      have start := delimited_prefix_iff searchable.quote (between_unquoted form form')
        (m'.name ++ 0x22 :: m'.assigned (membersTail after ms))
      rw [List.append_assoc, List.cons_append] at start
      rw [membersTail, Member.text, start]
      exact fun same => searchable.comma _ _ form.trail form'.lead same.symm

section
variable {n : Nat} {json key after : Bytes} (pos : 0 < n) (wsAfter : Ws after)
include pos wsAfter

/-- One member, from each of its quotes in turn. -/
theorem finds_step {m : Member} {ms : List Member} (formed : ∀ m' ∈ m :: ms, m'.Formed ∧ Plain m'.name)
    (room : ∀ v, valueOf key (m :: ms) = some v → v.length < n)
    (search : strstr json (0x22 :: searched key) = strstr (m.text (membersTail after ms)) (0x22 :: searched key))
    (next : m.name ≠ key →
      strstr json (0x22 :: searched key) = strstr (m.trail ++ membersTail after ms) (0x22 :: searched key) →
      ((∀ buf : Region n, Finds json key buf (valueOf key ms)) ↔ Right n key after ms)) :
    (∀ buf : Region n, Finds json key buf (valueOf key (m :: ms))) ↔ Right n key after (m :: ms) := by
  obtain ⟨form, plain⟩ := formed m (List.mem_cons_self ..)
  have later : ∀ m' ∈ ms, m'.Formed ∧ Plain m'.name := fun m' member => formed m' (List.mem_cons_of_mem m member)
  rw [strstr_text form plain.quote] at search
  rw [Right]
  by_cases first : searched key <+: m.name ++ 0x22 :: m.assigned (membersTail after ms)
  · rw [if_pos first] at search ⊢
    rw [finds_iff fun buf : Region n => finds_ahead form plain ms (List.not_mem_nil) search pos buf]
    by_cases named : m.name = key ∧ 0x3A ∉ key
    · have value := valueOf_cons_of_eq named.1 ms
      have fits := room m.value value
      have whole : m.value.take (n - 1) = m.value := List.take_of_length_le (by omega)
      have gives : behindColon m = (m.pad, m.value) := if_neg (named.1 ▸ named.2)
      rw [if_pos named, value, aheadGives, gives, whole]
      split
      · next blanks => exact iff_of_true rfl blanks
      · next other => exact iff_of_false nofun other
    · rw [if_neg named]
  have other : m.name ≠ key := fun named => first (searched_name named _)
  rw [if_neg first] at search ⊢
  rw [valueOf_cons_of_ne other] at room ⊢
  by_cases second : searched key <+: m.assigned (membersTail after ms)
  · rw [if_pos second] at search ⊢
    rw [finds_iff fun buf : Region n => finds_assigned pos form search buf]
  rw [if_neg second] at search ⊢
  by_cases third : searched key <+: m.value ++ 0x22 :: (m.trail ++ membersTail after ms)
  · rw [if_pos third] at search ⊢
    rw [finds_iff fun buf : Region n => finds_value pos wsAfter formed search buf]
  rw [if_neg third] at search ⊢
  by_cases fourth : searched key <+: m.trail ++ membersTail after ms
  · rw [if_pos fourth] at search ⊢
    have clear : (0x3A : UInt8) ∉ [(0x22 : UInt8)] := by decide
    rw [finds_iff fun buf : Region n => finds_behind pos wsAfter later clear form.trail search buf]
  · rw [if_neg fourth] at search ⊢
    exact next other search

theorem finds_members {m : Member} {ms : List Member} (formed : ∀ m' ∈ m :: ms, m'.Formed ∧ Plain m'.name)
    (room : ∀ v, valueOf key (m :: ms) = some v → v.length < n)
    (search : strstr json (0x22 :: searched key) = strstr (m.text (membersTail after ms)) (0x22 :: searched key)) :
    (∀ buf : Region n, Finds json key buf (valueOf key (m :: ms))) ↔ Right n key after (m :: ms) := by
  induction ms generalizing m with
  | nil =>
      refine finds_step pos wsAfter formed room search fun _ search => ?_
      obtain ⟨form, -⟩ := formed m (List.mem_cons_self ..)
      have missed := strstr_skip (behind_unquoted form wsAfter) [] (searched key)
      rw [List.append_nil, strstr, if_neg (List.cons_ne_nil _ _)] at missed
      exact iff_of_true (fun buf => .none (jsonGetString_miss (search.trans missed) buf)) trivial
  | cons m' ms ih =>
      refine finds_step pos wsAfter formed room search fun other search => ?_
      obtain ⟨form, -⟩ := formed m (List.mem_cons_self ..)
      have free : (0x22 : UInt8) ∉ m.trail ++ [0x2C] := by simp [form.trail.notMem (c := 0x22) rfl]
      have comma : m.trail ++ membersTail after (m' :: ms) = m.trail ++ [0x2C] ++ m'.text (membersTail after ms) := by
        rw [membersTail, List.append_assoc, List.singleton_append]
      rw [comma, strstr_skip free] at search
      rw [valueOf_cons_of_ne other] at room
      exact ih (fun m'' member => formed m'' (List.mem_cons_of_mem m member)) room search

omit pos in
/-- So the names and values that spell it decide. -/
theorem right_iff_spelled (searchable : Searchable key) (short : key.length ≤ 125) {ms : List Member}
    (formed : ∀ m ∈ ms, m.Formed ∧ Plain m.name) : Right n key after ms ↔ RightSpelled n key ms := by
  induction ms with
  | nil => exact Iff.rfl
  | cons m ms ih =>
      obtain ⟨form, plain⟩ := formed m (List.mem_cons_self ..)
      have later : ∀ m' ∈ ms, m'.Formed ∧ Plain m'.name := fun m' member => formed m' (List.mem_cons_of_mem m member)
      have assigned := not_assigned searchable short form (membersTail after ms)
      have behind := not_behind wsAfter searchable short fun m' member => (formed m' member).1
      have own : m.value = key → valueGives n m ms = aheadGives n ms := by
        intro same
        have clear : (0x3A : UInt8) ∉ m.value := same ▸ searchable.colon
        unfold valueGives
        rw [if_neg clear]
      rw [Right, RightSpelled, if_neg assigned, if_neg behind, searched_short short]
      simp only [delimited_prefix_iff searchable.quote plain.quote, delimited_prefix_iff searchable.quote form.value.quote]
      by_cases named : m.name = key
      · rw [if_pos named, if_pos named, if_pos ⟨named, searchable.colon⟩]
      rw [if_neg named, if_neg named]
      by_cases valued : m.value = key
      · rw [if_pos valued, if_pos valued, own valued]
      · rw [if_neg valued, if_neg valued]
        exact ih later

end

/-- `json_get_string` against an object of plain strings, for every key: the lookup is right
    if and only if the first quote behind which the key stands is `Right`. For a key of at
    most 125 bytes without quote and colon, and not a bare comma, that is said by the names
    and values that spell it. -/
theorem jsonGetString_flat {o : FlatObject} (formed : o.Formed) (names : ∀ m ∈ o.members, Plain m.name)
    {n : Nat} (pos : 0 < n) (key : Bytes) (room : ∀ v, valueOf key o.members = some v → v.length < n) :
    ((∀ buf : Region n, Finds o.text key buf (valueOf key o.members)) ↔ Right n key o.after o.members) ∧
    (Searchable key → key.length ≤ 125 → (Right n key o.after o.members ↔ RightSpelled n key o.members)) := by
  have all : ∀ m ∈ o.members, m.Formed ∧ Plain m.name := fun m member => ⟨formed.members m member, names m member⟩
  refine ⟨?_, fun searchable short => right_iff_spelled formed.after searchable short all⟩
  cases members : o.members with
  | nil =>
      have search : strstr o.text (0x22 :: searched key) = none := by
        rw [FlatObject.text, members]
        exact strstr_empty formed.before formed.blank formed.after
      exact iff_of_true (fun buf => .none (jsonGetString_miss search buf)) trivial
  | cons m ms =>
      rw [members] at room all
      have free : (0x22 : UInt8) ∉ o.before ++ [0x7B] := by
        simp [formed.before.notMem (c := 0x22) rfl]
      apply finds_members pos formed.after all room
      rw [FlatObject.text, members, List.append_cons, strstr_skip free]
      rfl

/-- An object without whitespace. -/
def tightObject (members : List (Bytes × Bytes)) : FlatObject :=
  ⟨[], [], members.map fun m => ⟨[], m.1, [], [], m.2, []⟩, []⟩

theorem tightObject_formed (members : List (Bytes × Bytes))
    (plain : ∀ m ∈ members, Plain m.1 ∧ Plain m.2) :
    (tightObject members).Formed ∧ ∀ m ∈ (tightObject members).members, Plain m.name := by
  have each : ∀ m ∈ (tightObject members).members, m.Formed ∧ Plain m.name := by
    intro m member
    obtain ⟨pair, inside, rfl⟩ := List.mem_map.mp member
    obtain ⟨name, value⟩ := plain pair inside
    exact ⟨⟨nofun, name.escaped, nofun, nofun, value, nofun⟩, name⟩
  exact ⟨⟨nofun, nofun, fun m member => (each m member).1, nofun⟩, fun m member => (each m member).2⟩

def secondKey : FlatObject := tightObject [(ascii "a", ascii "x"), (ascii "key", ascii "v")]

/-- The key of the second member is found behind that of the first. -/
theorem jsonGetString_flat_second :
    Finds secondKey.text (ascii "key") (Region.fill 8 0) (valueOf (ascii "key") secondKey.members) := by
  obtain ⟨formed, names⟩ := tightObject_formed [(ascii "a", ascii "x"), (ascii "key", ascii "v")]
    (by decide +kernel)
  have searchable : Searchable (ascii "key") :=
    .of_notMem (by decide +kernel) (by decide +kernel) (by decide +kernel)
  have room : ∀ v, valueOf (ascii "key") secondKey.members = some v → v.length < 8 := by
    intro v value
    have eq : valueOf (ascii "key") secondKey.members = some (ascii "v") := by decide +kernel
    rw [eq, Option.some.injEq] at value
    rw [← value]
    decide
  obtain ⟨right, spelled⟩ := jsonGetString_flat formed names (by decide) (ascii "key") room
  exact (right.trans (spelled searchable (by decide +kernel))).mpr (by decide +kernel) _

/-- A key that is cut for the search is still found where it names a member. -/
example : Right 8 (List.replicate 126 0x61) [] (tightObject [(List.replicate 126 0x61, ascii "v")]).members := by
  decide +kernel

/-- A value that spells a key with a colon leads nowhere. -/
example : Right 8 (ascii "a:b") [] (tightObject [(ascii "k", ascii "a:b"), (ascii "z", ascii "v")]).members := by
  decide +kernel

def valueKey : FlatObject := tightObject [(ascii "a", ascii "key"), (ascii "b", ascii "v")]

/-- The value of `a` spells the key, so the value of `b` is taken for it. -/
theorem jsonGetString_flat_value :
    ¬ ∀ buf : Region 8, Finds valueKey.text (ascii "key") buf (valueOf (ascii "key") valueKey.members) := by
  have absent : valueOf (ascii "key") valueKey.members = none := by decide +kernel
  have found : (jsonGetString valueKey.text (ascii "key") (Region.fill 8 0)).1 = true := by decide +kernel
  rw [absent]
  intro missed
  cases missed (.fill 8 0) with
  | none eq =>
      rw [eq] at found
      cases found

end Roman
