import Mathlib.Algebra.Group.Nat.Defs
import Mathlib.Data.List.Basic
import Mathlib.Tactic.Common

/-! # Fixed-size byte regions

A C array is a region: a list of bytes that carries its own length, so that no
store can change the size of what it writes to. Stores are clipped at the end of
the region and loads read what is there. The lemmas say what one load sees after
one store, on the region written and beside it.
-/

namespace CMem

abbrev Bytes := List UInt8

/-- The bytes of an array of `n` chars. -/
@[ext] structure Region (n : Nat) where
  bytes : Bytes
  size : bytes.length = n
  deriving DecidableEq

namespace Region

variable {n : Nat}

/-- `memset` over the whole region. -/
def fill (n : Nat) (b : UInt8) : Region n :=
  ⟨List.replicate n b, List.length_replicate⟩

/-- `memcpy` into the region at `off`, clipped at its end. -/
def store (r : Region n) (off : Nat) (src : Bytes) : Region n where
  bytes := r.bytes.take off ++ src.take (n - off) ++ r.bytes.drop (off + src.length)
  size := by
    have := r.size
    simp only [List.length_append, List.length_take, List.length_drop]
    omega

/-- `len` bytes of the region from `off` on. -/
def load (r : Region n) (off len : Nat) : Bytes :=
  (r.bytes.drop off).take len

@[simp] theorem load_all (r : Region n) : r.load 0 n = r.bytes := by
  simp only [load, List.drop_zero]
  exact List.take_of_length_le (Nat.le_of_eq r.size)

theorem load_add (r : Region n) (off a b : Nat) :
    r.load off (a + b) = r.load off a ++ r.load (off + a) b := by
  simp only [load, List.take_add, List.drop_drop]

/-- Byte by byte: a store replaces what it covers and keeps the rest. -/
theorem getElem?_store (r : Region n) (off : Nat) (src : Bytes)
    (inside : off + src.length ≤ n) (i : Nat) :
    (r.store off src).bytes[i]? =
      if off ≤ i ∧ i < off + src.length then src[i - off]? else r.bytes[i]? := by
  have size := r.size
  have clipped : src.take (n - off) = src := List.take_of_length_le (by omega)
  have front : (r.bytes.take off).length = off := by
    simp only [List.length_take]
    omega
  simp only [store, clipped, List.append_assoc]
  by_cases before : i < off
  · rw [if_neg (by omega), List.getElem?_append_left (by omega), List.getElem?_take_of_lt before]
  · rw [List.getElem?_append_right (by omega), front]
    by_cases within : i < off + src.length
    · rw [if_pos ⟨by omega, within⟩, List.getElem?_append_left (by omega)]
    · rw [if_neg (by omega), List.getElem?_append_right (by omega), List.getElem?_drop]
      congr 1
      omega

/-- What was stored is what a load of those bytes sees. -/
theorem load_store_within (r : Region n) (off : Nat) (src : Bytes) (i len : Nat)
    (inside : off + src.length ≤ n) (within : i + len ≤ src.length) :
    (r.store off src).load (off + i) len = (src.drop i).take len := by
  apply List.ext_getElem?
  intro j
  simp only [load, List.getElem?_take, List.getElem?_drop, getElem?_store r off src inside]
  by_cases small : j < len
  · rw [if_pos small, if_pos ⟨by omega, by omega⟩, if_pos small]
    congr 1
    omega
  · rw [if_neg small, if_neg small]

theorem load_store (r : Region n) (off : Nat) (src : Bytes) (inside : off + src.length ≤ n) :
    (r.store off src).load off src.length = src := by
  have whole := load_store_within r off src 0 src.length inside (by omega)
  simpa only [Nat.add_zero, List.drop_zero, List.take_length] using whole

theorem load_store_of_eq (r : Region n) {off len : Nat} {src : Bytes} (eq : src.length = len)
    (inside : off + len ≤ n) : (r.store off src).load off len = src := by
  subst eq
  exact load_store r off src inside

/-- A load beside the bytes stored does not see the store. -/
theorem load_store_apart (r : Region n) (off : Nat) (src : Bytes) {start len : Nat}
    (inside : off + src.length ≤ n) (apart : start + len ≤ off ∨ off + src.length ≤ start) :
    (r.store off src).load start len = r.load start len := by
  apply List.ext_getElem?
  intro j
  simp only [load, List.getElem?_take, List.getElem?_drop, getElem?_store r off src inside]
  by_cases small : j < len
  · rw [if_pos small, if_pos small, if_neg (by omega)]
  · rw [if_neg small, if_neg small]

@[simp] theorem store_nil (r : Region n) (off : Nat) : r.store off [] = r := by
  ext1
  simp [store]

/-- Two adjacent stores are one store. -/
theorem store_store (r : Region n) (off : Nat) (a b : Bytes)
    (inside : off + a.length + b.length ≤ n) :
    (r.store off a).store (off + a.length) b = r.store off (a ++ b) := by
  ext1
  apply List.ext_getElem?
  intro i
  rw [getElem?_store _ _ _ (by omega), getElem?_store _ _ _ (by omega),
    getElem?_store _ _ _ (by simp only [List.length_append]; omega), List.length_append]
  by_cases second : off + a.length ≤ i ∧ i < off + a.length + b.length
  · rw [if_pos second, if_pos ⟨by omega, by omega⟩, List.getElem?_append_right (by omega)]
    congr 1
    omega
  · rw [if_neg second]
    by_cases first : off ≤ i ∧ i < off + a.length
    · rw [if_pos first, if_pos ⟨by omega, by omega⟩, List.getElem?_append_left (by omega)]
    · rw [if_neg first, if_neg (by omega)]

/-- A store over the whole region leaves nothing of what it held. -/
theorem store_whole (r : Region n) (src : Bytes) (eq : src.length = n) :
    (r.store 0 src).bytes = src := by
  have := load_store_of_eq r eq (by omega : 0 + n ≤ n)
  rwa [load_all] at this

theorem getElem?_store_front (r : Region n) (src : Bytes) {i : Nat} (covered : i < src.length)
    (inside : i < n) : (r.store 0 src).bytes[i]? = src[i]? := by
  have front : i < (src.take (n - 0)).length := by
    rw [List.length_take]
    omega
  simp only [store, List.take_zero, List.nil_append]
  rw [List.getElem?_append_left front, List.getElem?_take_of_lt (by omega)]

/-- What is stored over every content can be told from the outcomes. -/
theorem store_inj {a b : Bytes} (short : a.length < n)
    (same : ∀ r : Region n, r.store 0 a = r.store 0 b) : a = b := by
  have byteAt : ∀ (x : UInt8) (i : Nat), ((fill n x).store 0 a).bytes[i]? = ((fill n x).store 0 b).bytes[i]? := by
    intro x i
    rw [same]
  have kept : ∀ (x : UInt8) (src : Bytes) (i : Nat), src.length ≤ i → i < n →
      ((fill n x).store 0 src).bytes[i]? = some x := by
    intro x src i past inside
    rw [getElem?_store _ _ _ (by omega), if_neg (by omega), fill, List.getElem?_replicate,
      if_pos inside]
  have apart : (0 : UInt8) ≠ 1 := by decide
  rcases Nat.lt_trichotomy a.length b.length with less | equal | more
  · have one := byteAt 0 a.length
    have other := byteAt 1 a.length
    rw [kept _ _ _ (Nat.le_refl _) short, getElem?_store_front _ _ less short] at one other
    exact absurd (Option.some.inj (one.trans other.symm)) apart
  · have one := load_store (fill n 0) 0 a (by omega)
    have other := load_store (fill n 0) 0 b (by omega)
    rw [same, equal, other] at one
    exact one.symm
  · have one := byteAt 0 b.length
    have other := byteAt 1 b.length
    rw [kept _ _ _ (Nat.le_refl _) (by omega), getElem?_store_front _ _ more (by omega)] at one other
    exact absurd (Option.some.inj (one.symm.trans other)) apart

/-- Zeros stored behind a prefix of a zeroed region are there already. -/
theorem store_fill_zero (src : Bytes) (inside : src.length + 1 ≤ n) :
    (fill n 0).store 0 (src ++ [0]) = (fill n 0).store 0 src := by
  ext1
  apply List.ext_getElem?
  intro i
  rw [getElem?_store _ _ _ (by simp only [List.length_append, List.length_singleton]; omega),
    getElem?_store _ _ _ (by omega), List.length_append, List.length_singleton]
  by_cases last : i = src.length
  · rw [if_pos (by omega), if_neg (by omega), last]
    simp only [Nat.sub_zero, List.getElem?_concat_length, fill, List.getElem?_replicate]
    rw [if_pos (by omega)]
  · by_cases inside : i < src.length
    · rw [if_pos (by omega), if_pos (by omega), Nat.sub_zero, List.getElem?_append_left inside]
    · rw [if_neg (by omega), if_neg (by omega)]

/-- The pieces of a layout stored one after another. -/
def storeAll (r : Region n) (pieces : List (Nat × Bytes)) : Region n :=
  pieces.foldl (fun r p => r.store p.1 p.2) r

@[simp] theorem storeAll_nil (r : Region n) : r.storeAll [] = r := rfl

@[simp] theorem storeAll_cons (r : Region n) (p : Nat × Bytes) (pieces : List (Nat × Bytes)) :
    r.storeAll (p :: pieces) = (r.store p.1 p.2).storeAll pieces := rfl

/-- The pieces lie inside the region and no two of them overlap. -/
structure Layout (n : Nat) (pieces : List (Nat × Bytes)) : Prop where
  inside : ∀ p ∈ pieces, p.1 + p.2.length ≤ n
  apart : pieces.Pairwise fun p q => p.1 + p.2.length ≤ q.1 ∨ q.1 + q.2.length ≤ p.1

/-- A load beside every piece sees what was there before. -/
theorem load_storeAll_beside (r : Region n) {pieces : List (Nat × Bytes)} {off len : Nat}
    (inside : ∀ p ∈ pieces, p.1 + p.2.length ≤ n)
    (beside : ∀ p ∈ pieces, off + len ≤ p.1 ∨ p.1 + p.2.length ≤ off) :
    (r.storeAll pieces).load off len = r.load off len := by
  induction pieces generalizing r with
  | nil => rfl
  | cons p pieces ih =>
      rw [storeAll_cons, ih _ (fun q member => inside q (List.mem_cons_of_mem _ member))
        (fun q member => beside q (List.mem_cons_of_mem _ member))]
      exact load_store_apart r _ _ (inside p List.mem_cons_self) (beside p List.mem_cons_self)

/-- Every piece of a layout reads back. -/
theorem load_storeAll (r : Region n) {pieces : List (Nat × Bytes)} (layout : Layout n pieces)
    {p : Nat × Bytes} (member : p ∈ pieces) :
    (r.storeAll pieces).load p.1 p.2.length = p.2 := by
  induction pieces generalizing r with
  | nil => cases member
  | cons q pieces ih =>
      obtain ⟨inside, apart⟩ := layout
      have inside' : ∀ p ∈ pieces, p.1 + p.2.length ≤ n :=
        fun p member => inside p (List.mem_cons_of_mem _ member)
      obtain ⟨first, rest⟩ := List.pairwise_cons.mp apart
      rw [storeAll_cons]
      cases member with
      | head =>
          rw [load_storeAll_beside _ inside' first]
          exact load_store r _ _ (inside _ List.mem_cons_self)
      | tail _ member => exact ih _ ⟨inside', rest⟩ member

end Region

end CMem
