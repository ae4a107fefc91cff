import Roman.Lib.Region

/-! # NOR flash and commit markers

A sector reads 0xFF everywhere once erased, and programming can only clear bits.
Both operations take time, so both have a partial form: an interrupted erase may
have reached any set of bytes, an interrupted program has reached a prefix of
the data. The two marker theorems are what a layout with a commit marker rests
on: a marker without 0xFF bytes is never made by an interrupted operation.
-/

namespace NorFlash

open CMem

/-- Memory-mapped flash, addressed from the start of the sector that is used. -/
abbrev Flash := Nat → UInt8

/-- `len` bytes of flash from `off` on. -/
def read (f : Flash) (off len : Nat) : Bytes :=
  (List.range len).map fun i => f (off + i)

/-- The erase of a sector of `size` bytes, as far as the bytes in `done`. -/
def erasePart (size : Nat) (done : Nat → Bool) (f : Flash) : Flash := fun a =>
  if a < size ∧ done a then 0xFF else f a

/-- The whole erase. -/
def erase (size : Nat) (f : Flash) : Flash :=
  erasePart size (fun _ => true) f

/-- Programming walks the data in ascending order; here its first `k` bytes have landed. -/
def programPart (data : Bytes) (k : Nat) (f : Flash) : Flash := fun a =>
  if a < k then f a &&& data.getD a 0xFF else f a

/-- The whole program. -/
def program (data : Bytes) (f : Flash) : Flash :=
  programPart data data.length f

@[simp] theorem read_length (f : Flash) (off len : Nat) : (read f off len).length = len := by
  simp only [read, List.length_map, List.length_range]

theorem getElem?_read (f : Flash) (off len i : Nat) :
    (read f off len)[i]? = if i < len then some (f (off + i)) else none := by
  by_cases small : i < len
  · simp [read, small]
  · simp [read, small]

theorem read_eq_iff {f g : Flash} {off len : Nat} :
    read f off len = read g off len ↔ ∀ i < len, f (off + i) = g (off + i) := by
  simp only [read, List.map_inj_left, List.mem_range]

/-- Erased bytes read as ones. -/
theorem read_blank {f : Flash} {off len : Nat} (blank : ∀ i < len, f (off + i) = 0xFF) :
    read f off len = List.replicate len 0xFF := by
  rw [List.eq_replicate_iff, read_length]
  refine ⟨rfl, fun b member => ?_⟩
  obtain ⟨i, inside, rfl⟩ := List.mem_map.mp member
  exact blank i (List.mem_range.mp inside)

theorem read_add (f : Flash) (off a b : Nat) :
    read f off (a + b) = read f off a ++ read f (off + a) b := by
  simp only [read, List.range_add, List.map_append, List.map_map, List.append_cancel_left_eq]
  apply List.map_congr_left
  intro i _
  simp only [Function.comp_apply, Nat.add_assoc]

theorem erasePart_of_done {size : Nat} {done : Nat → Bool} {f : Flash} {a : Nat}
    (inside : a < size) (reached : done a = true) : erasePart size done f a = 0xFF := by
  simp only [erasePart, inside, reached, and_self, if_true]

theorem erasePart_of_not_done {size : Nat} {done : Nat → Bool} {f : Flash} {a : Nat}
    (kept : done a = false) : erasePart size done f a = f a := by
  simp only [erasePart, kept, Bool.false_eq_true, and_false, if_false]

theorem erase_inside {size : Nat} {f : Flash} {a : Nat} (inside : a < size) :
    erase size f a = 0xFF :=
  erasePart_of_done inside rfl

theorem ones_and (b : UInt8) : 0xFF &&& b = b :=
  UInt8.neg_one_and

/-- On erased bytes a program stores the data, as far as it got. -/
theorem programPart_of_erased {data : Bytes} {k : Nat} {f : Flash} {a : Nat}
    (blank : f a = 0xFF) (inside : a < data.length) :
    programPart data k f a = if a < k then data[a] else 0xFF := by
  simp only [programPart, blank, ones_and, List.getD_eq_getElem?_getD, List.getElem?_eq_getElem inside,
    Option.getD_some]

/-- Everything below the point the program reached reads back as the data. -/
theorem read_programPart {data : Bytes} {k : Nat} {f : Flash} {off len : Nat}
    (blank : ∀ a < data.length, f a = 0xFF) (fits : off + len ≤ data.length)
    (landed : off + len ≤ k) :
    read (programPart data k f) off len = (data.drop off).take len := by
  apply List.ext_getElem?
  intro i
  rw [getElem?_read, List.getElem?_take, List.getElem?_drop]
  by_cases small : i < len
  · have inside : off + i < data.length := by omega
    rw [if_pos small, if_pos small, programPart_of_erased (blank _ inside) inside,
      if_pos (by omega), List.getElem?_eq_getElem inside]
  · rw [if_neg small, if_neg small]

/-- A commit marker at the end of the data reads as set only if everything up to
    its last byte has landed. -/
theorem marker_committed {data marker : Bytes} {k : Nat} {f : Flash} {off : Nat}
    (blank : ∀ a < data.length, f a = 0xFF) (fits : off + marker.length ≤ data.length)
    (solid : ∀ b ∈ marker, b ≠ 0xFF) (nonempty : marker ≠ [])
    (set : read (programPart data k f) off marker.length = marker) :
    off + marker.length ≤ k := by
  by_contra short
  have pos : 0 < marker.length := List.length_pos_iff.mpr nonempty
  have last : (read (programPart data k f) off marker.length)[marker.length - 1]? =
      marker[marker.length - 1]? := congrArg (·[marker.length - 1]?) set
  have inside : off + (marker.length - 1) < data.length := by omega
  rw [getElem?_read, if_pos (by omega), programPart_of_erased (blank _ inside) inside,
    if_neg (by omega), List.getElem?_eq_getElem (by omega), Option.some.injEq] at last
  exact solid _ (List.getElem_mem _) last.symm

/-- An interrupted erase keeps a marker exactly if it reached none of its bytes,
    and never makes one. -/
theorem marker_erasePart (marker : Bytes) {size off : Nat} {done : Nat → Bool} {f : Flash}
    (inside : off + marker.length ≤ size) (solid : ∀ b ∈ marker, b ≠ 0xFF) :
    read (erasePart size done f) off marker.length = marker ↔
      read f off marker.length = marker ∧ ∀ i < marker.length, done (off + i) = false := by
  constructor
  · intro set
    have kept : ∀ i < marker.length, done (off + i) = false := by
      intro i small
      by_contra reached
      have here : (read (erasePart size done f) off marker.length)[i]? = marker[i]? :=
        congrArg (·[i]?) set
      rw [getElem?_read, if_pos small, erasePart_of_done (by omega) (by simpa using reached),
        List.getElem?_eq_getElem small, Option.some.injEq] at here
      exact solid _ (List.getElem_mem _) here.symm
    refine ⟨?_, kept⟩
    rw [← set, read_length]
    exact read_eq_iff.mpr fun i small => (erasePart_of_not_done (kept i small)).symm
  · rintro ⟨set, kept⟩
    rw [← set, read_length]
    exact read_eq_iff.mpr fun i small => erasePart_of_not_done (kept i small)

end NorFlash
