import Mathlib.Data.List.Basic
import Mathlib.Tactic.Common
import Roman.Lib.Region

/-! # Options in memory

An option is a code, the length of its data and the data; a list of options ends at a
code of its own. The search for a code jumps from option to option, and finds the first
one with that code in whatever holds the encoding of a list.
-/

namespace Tlv

open CMem

/-- The bytes are in memory from `off` on. -/
def Stores (m : Nat → UInt8) (off : Nat) (b : Bytes) : Prop := ∀ i, ∀ inside : i < b.length, m (off + i) = b[i]

theorem Stores.append {m : Nat → UInt8} {off : Nat} {a b : Bytes} (stores : Stores m off (a ++ b)) :
    Stores m off a ∧ Stores m (off + a.length) b := by
  constructor
  · intro i inside
    rw [stores i (by rw [List.length_append]; omega), List.getElem_append_left inside]
  · intro i inside
    have later := stores (a.length + i) (by rw [List.length_append]; omega)
    rw [List.getElem_append_right (by omega)] at later
    simp only [Nat.add_sub_cancel_left] at later
    rw [Nat.add_assoc, later]

theorem Stores.cons {m : Nat → UInt8} {off : Nat} {x : UInt8} {b : Bytes} (stores : Stores m off (x :: b)) :
    m off = x ∧ Stores m (off + 1) b := by
  obtain ⟨first, rest⟩ := Stores.append (a := [x]) stores
  exact ⟨first 0 (by simp), rest⟩

/-- The search for a code from index `i` on. -/
def find (stop : UInt8) (limit : Nat) (m : Nat → UInt8) (code : UInt8) (i : Nat) : Option Nat :=
  if i < limit ∧ m i ≠ stop then
    if m i = code then some i else find stop limit m code (i + (2 + (m (i + 1)).toNat))
  else none
termination_by limit - i

/-- The bytes of a list of options. -/
def encode : List (UInt8 × Bytes) → Bytes
  | [] => []
  | (code, data) :: rest => code :: UInt8.ofNat data.length :: (data ++ encode rest)

theorem length_encode {opts : List (UInt8 × Bytes)} {o : UInt8 × Bytes} (member : o ∈ opts) :
    2 + o.2.length ≤ (encode opts).length := by
  induction opts with
  | nil => cases member
  | cons p rest ih =>
      simp only [encode, List.length_cons, List.length_append]
      rcases List.mem_cons.mp member with rfl | later
      · omega
      · have := ih later
        omega

/-- No option has the code of the end, and the lengths fit a byte. -/
def Formed (stop : UInt8) (opts : List (UInt8 × Bytes)) : Prop := ∀ o ∈ opts, o.1 ≠ stop ∧ o.2.length < 256

/-- The first option with a code is found, and nothing else. -/
theorem find_encode {stop : UInt8} {limit : Nat} {m : Nat → UInt8} {opts : List (UInt8 × Bytes)} {i : Nat}
    (formed : Formed stop opts) (stores : Stores m i (encode opts ++ [stop]))
    (fits : i + (encode opts).length < limit) (code : UInt8) :
    match opts.find? fun o => o.1 = code with
    | none => find stop limit m code i = none
    | some o => ∃ j, find stop limit m code i = some j ∧ Stores m j (o.1 :: UInt8.ofNat o.2.length :: o.2) := by
  induction opts generalizing i with
  | nil =>
      rw [List.find?_nil]
      dsimp only
      rw [find, if_neg]
      exact fun here => here.2 stores.cons.1
  | cons o rest ih =>
      obtain ⟨c, data⟩ := o
      obtain ⟨other, small⟩ := formed (c, data) (List.mem_cons_self ..)
      dsimp only at other small
      have size : (encode ((c, data) :: rest)).length = 2 + data.length + (encode rest).length := by
        rw [encode, List.length_cons, List.length_cons, List.length_append]
        omega
      rw [encode, List.cons_append, List.cons_append, List.append_assoc] at stores
      obtain ⟨head, tail⟩ := stores.cons
      obtain ⟨length, tail⟩ := tail.cons
      obtain ⟨body, later⟩ := tail.append
      have whole : (UInt8.ofNat data.length).toNat = data.length := by
        rw [UInt8.toNat_ofNat']
        omega
      have here : i < limit ∧ m i ≠ stop := ⟨by omega, head ▸ other⟩
      rw [List.find?_cons]
      by_cases same : c = code
      · rw [decide_eq_true same]
        refine ⟨i, ?_, ?_⟩
        · rw [find, if_pos here, if_pos (head.trans same)]
        · intro j inside
          rcases j with _ | _ | j
          · exact head
          · exact length
          · exact (congrArg m (by omega)).trans (body j (by simp at inside; omega))
      · rw [decide_eq_false same]
        have next : i + (2 + (m (i + 1)).toNat) = i + 1 + 1 + data.length := by
          rw [length, whole]
          omega
        rw [find, if_pos here, if_neg (head ▸ same), next]
        exact ih (fun o member => formed o (List.mem_cons_of_mem _ member)) later (by omega)

end Tlv
