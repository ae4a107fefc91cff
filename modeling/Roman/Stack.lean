import Mathlib.Data.Nat.Find
import Mathlib.Logic.Function.Basic
import Mathlib.Order.Bounds.Basic
import Mathlib.Tactic.Common
import Roman.Lib.Runs

/-! # The stack watermark

`stack_init` paints the part of `stack_ram` that is not in use. A scan finds the lowest
byte that is not paint, and the deepest scan so far is what gets reported. As long as
nobody writes the paint value nothing is ever lost between two scans.
-/

namespace Roman

def STACK_RAM_BYTES : Nat := 16 * 1024

def STACK_PAINT : UInt8 := 0xC5

def STACK_PAINT_SLACK : UInt32 := 64

/-- `stack_ram`, by the offset of its bytes, and the two static variables. -/
structure Stack where
  ram : Nat → UInt8
  usedMax : UInt32
  painted : Bool

/-- The loop of `stackWatermark`. -/
def watermarkFrom (bottom : Nat → UInt8) (size : Nat) (paint : UInt8) (offset : Nat) : Nat :=
  if offset < size ∧ bottom offset = paint then watermarkFrom bottom size paint (offset + 1) else offset
termination_by size - offset

def stackWatermark : Option (Nat → UInt8) → Nat → UInt8 → Nat
  | none, _, _ => 0
  | some bottom, size, paint => watermarkFrom bottom size paint 0

def stackCheck (s : Stack) : Stack :=
  if s.painted = false then s
  else
    let untouched := stackWatermark (some s.ram) STACK_RAM_BYTES STACK_PAINT
    let used := UInt32.ofNat (STACK_RAM_BYTES - untouched)
    if used > s.usedMax then { s with usedMax := used } else s

/-- The loop of `stackInit`; it does not run at all where the limit is below the array. -/
def paintFrom (limit : Nat) (ram : Nat → UInt8) (p : Nat) : Nat → UInt8 :=
  if p < limit then paintFrom limit (Function.update ram p STACK_PAINT) (p + 1) else ram
termination_by limit - p

/-- `bottom` is the address of `stack_ram` and `frame` that of the frame of `stack_init`. -/
def stackInit (bottom frame : UInt32) (s : Stack) : Stack :=
  let limit := frame - STACK_PAINT_SLACK
  stackCheck { ram := paintFrom (limit.toNat - bottom.toNat) s.ram 0, usedMax := 0, painted := true }

def stackTotal : UInt32 := UInt32.ofNat STACK_RAM_BYTES

def stackUsedMax (s : Stack) : UInt32 := s.usedMax

def stackFreeMin (s : Stack) : UInt32 :=
  if s.usedMax ≥ stackTotal then 0 else stackTotal - s.usedMax

/-- The first of `size` cells that is not painted, or `size`. -/
structure IsMark (painted : Nat → Prop) (size mark : Nat) : Prop where
  le : mark ≤ size
  below : ∀ o < mark, painted o
  ends : mark < size → ¬ painted mark

section
variable {painted painted' : Nat → Prop} {size mark mark' : Nat}

/-- The fewer cells are painted the lower is the mark. -/
theorem IsMark.antitone (isMark : IsMark painted size mark) (isMark' : IsMark painted' size mark')
    (fewer : ∀ o < size, painted' o → painted o) : mark' ≤ mark := by
  apply Nat.le_of_not_lt
  intro above
  have inside : mark < size := Nat.lt_of_lt_of_le above isMark'.le
  exact isMark.ends inside (fewer mark inside (isMark'.below mark above))

theorem IsMark.of_isLeast (isMark : IsMark painted size mark) {low : Nat}
    (least : IsLeast {o | o < size ∧ ¬ painted o} low) : mark = low := by
  obtain ⟨⟨inside, bare⟩, lowest⟩ := least
  have reached : mark ≤ low := by
    apply Nat.le_of_not_lt
    intro above
    exact bare (isMark.below low above)
  have stops : mark < size := Nat.lt_of_le_of_lt reached inside
  exact Nat.le_antisymm reached (lowest ⟨stops, isMark.ends stops⟩)

end

theorem watermarkFrom_isMark {bottom : Nat → UInt8} {size offset : Nat} {paint : UInt8}
    (inside : offset ≤ size) (before : ∀ o < offset, bottom o = paint) :
    IsMark (fun o => bottom o = paint) size (watermarkFrom bottom size paint offset) := by
  fun_induction watermarkFrom bottom size paint offset with
  | case1 offset more ih =>
      apply ih more.1
      intro o le
      rcases Nat.lt_succ_iff_lt_or_eq.mp le with below | rfl
      · exact before o below
      · exact more.2
  | case2 offset stops => exact ⟨inside, before, fun more same => stops ⟨more, same⟩⟩

theorem stackWatermark_isMark (bottom : Nat → UInt8) (size : Nat) (paint : UInt8) :
    IsMark (fun o => bottom o = paint) size (stackWatermark (some bottom) size paint) :=
  watermarkFrom_isMark (Nat.zero_le size) nofun

/-- How deep the stack is found to have been. -/
def scanned (ram : Nat → UInt8) : Nat := STACK_RAM_BYTES - stackWatermark (some ram) STACK_RAM_BYTES STACK_PAINT

theorem scanned_le (ram : Nat → UInt8) : scanned ram ≤ STACK_RAM_BYTES := Nat.sub_le ..

theorem scanned_mono {ram ram' : Nat → UInt8}
    (fewer : ∀ o < STACK_RAM_BYTES, ram' o = STACK_PAINT → ram o = STACK_PAINT) : scanned ram ≤ scanned ram' := by
  have lower := (stackWatermark_isMark ram STACK_RAM_BYTES STACK_PAINT).antitone
    (stackWatermark_isMark ram' STACK_RAM_BYTES STACK_PAINT) fewer
  exact Nat.sub_le_sub_left lower STACK_RAM_BYTES

theorem used_toNat (ram : Nat → UInt8) : (UInt32.ofNat (scanned ram)).toNat = scanned ram := by
  have small := scanned_le ram
  have word : STACK_RAM_BYTES < 2 ^ 32 := by decide
  rw [UInt32.toNat_ofNat', Nat.mod_eq_of_lt (Nat.lt_of_le_of_lt small word)]

theorem stackCheck_ram (s : Stack) : (stackCheck s).ram = s.ram := by
  unfold stackCheck
  dsimp only
  split
  · rfl
  · split <;> rfl

theorem stackCheck_painted (s : Stack) : (stackCheck s).painted = s.painted := by
  unfold stackCheck
  dsimp only
  split
  · rfl
  · split <;> rfl

theorem stackCheck_usedMax {s : Stack} (painted : s.painted = true) :
    (stackCheck s).usedMax.toNat = max s.usedMax.toNat (scanned s.ram) := by
  have used := used_toNat s.ram
  unfold scanned at used ⊢
  unfold stackCheck
  dsimp only
  rw [if_neg (by rw [painted]; decide)]
  split
  · rename_i deeper
    have deeper := UInt32.lt_iff_toNat_lt.mp deeper
    dsimp only
    omega
  · rename_i deeper
    have deeper := mt UInt32.lt_iff_toNat_lt.mpr deeper
    omega

theorem stackCheck_deepens (s : Stack) : s.usedMax ≤ (stackCheck s).usedMax := by
  rw [UInt32.le_iff_toNat_le]
  cases painted : s.painted with
  | true =>
      rw [stackCheck_usedMax painted]
      exact Nat.le_max_left ..
  | false =>
      rw [stackCheck, if_pos painted]

/-- A byte is written somewhere in `stack_ram`, or the main loop or a request checks it. -/
inductive StackEvent where
  | write (offset : Fin STACK_RAM_BYTES) (byte : UInt8)
  | check

def stackStep (s : Stack) : StackEvent → Stack
  | .write offset byte => { s with ram := Function.update s.ram offset byte }
  | .check => stackCheck s

abbrev stackRun : Stack → List StackEvent → Stack := Runs.run stackStep

theorem stackStep_deepens (s : Stack) (a : StackEvent) : s.usedMax ≤ (stackStep s a).usedMax := by
  cases a with
  | write offset byte => exact UInt32.le_refl _
  | check => exact stackCheck_deepens s

theorem stackRun_deepens (s : Stack) (events : List StackEvent) : s.usedMax ≤ (stackRun s events).usedMax :=
  Runs.run_invariant (fun t => s.usedMax ≤ t.usedMax) (UInt32.le_refl _) events
    fun t a _ deeper => UInt32.le_trans deeper (stackStep_deepens t a)

/-- What is reported fits the array. -/
structure Stack.Bounded (s : Stack) : Prop where
  painted : s.painted = true
  usedMax : s.usedMax.toNat ≤ STACK_RAM_BYTES

theorem stackCheck_bounded {s : Stack} (bounded : s.Bounded) : (stackCheck s).Bounded := by
  constructor
  · exact (stackCheck_painted s).trans bounded.painted
  · rw [stackCheck_usedMax bounded.painted]
    exact Nat.max_le.mpr ⟨bounded.usedMax, scanned_le s.ram⟩

theorem stackInit_bounded (bottom frame : UInt32) (s : Stack) : (stackInit bottom frame s).Bounded :=
  stackCheck_bounded ⟨rfl, Nat.zero_le _⟩

theorem stackStep_bounded {s : Stack} (bounded : s.Bounded) (a : StackEvent) : (stackStep s a).Bounded := by
  cases a with
  | write offset byte => exact ⟨bounded.painted, bounded.usedMax⟩
  | check => exact stackCheck_bounded bounded

theorem stackTotal_toNat : stackTotal.toNat = STACK_RAM_BYTES := by decide

theorem stackFreeMin_sum {s : Stack} (bounded : s.Bounded) :
    (stackUsedMax s).toNat + (stackFreeMin s).toNat = stackTotal.toNat := by
  have small := bounded.usedMax
  have total := stackTotal_toNat
  unfold stackUsedMax stackFreeMin
  split
  · rename_i full
    have full := UInt32.le_iff_toNat_le.mp full
    rw [UInt32.toNat_zero]
    omega
  · rename_i room
    have room := mt UInt32.le_iff_toNat_le.mpr room
    have le : s.usedMax ≤ stackTotal := UInt32.le_iff_toNat_le.mpr (by omega)
    rw [UInt32.toNat_sub_of_le _ _ le]
    omega

/-- The bytes that are not painted are the touched ones, and no scan went deeper than
    the one that would be made now. -/
structure Tracked (touched : Nat → Prop) (s : Stack) : Prop where
  bare : ∀ o < STACK_RAM_BYTES, (s.ram o ≠ STACK_PAINT ↔ touched o)
  usedMax : s.usedMax.toNat ≤ scanned s.ram

theorem stackCheck_tracked {touched : Nat → Prop} {s : Stack} (painted : s.painted = true) (tracked : Tracked touched s) :
    Tracked touched (stackCheck s) := by
  constructor
  · rw [stackCheck_ram]
    exact tracked.bare
  · rw [stackCheck_usedMax painted, stackCheck_ram]
    exact Nat.max_le.mpr ⟨tracked.usedMax, Nat.le_refl _⟩

theorem stackCheck_scans {touched : Nat → Prop} {s : Stack} (painted : s.painted = true) (tracked : Tracked touched s) :
    (stackCheck s).usedMax.toNat = scanned s.ram := by
  rw [stackCheck_usedMax painted, Nat.max_eq_right tracked.usedMax]

/-- Two scans of the same touched bytes find the same. -/
theorem Tracked.scanned_eq {touched : Nat → Prop} {s s' : Stack} (tracked : Tracked touched s)
    (tracked' : Tracked touched s') : scanned s.ram = scanned s'.ram := by
  have same : ∀ o < STACK_RAM_BYTES, s.ram o = STACK_PAINT ↔ s'.ram o = STACK_PAINT := fun o inside =>
    not_iff_not.mp ((tracked.bare o inside).trans (tracked'.bare o inside).symm)
  exact Nat.le_antisymm (scanned_mono fun o inside => (same o inside).mpr)
    (scanned_mono fun o inside => (same o inside).mp)

/-- A check that is made now reports everything that was ever touched. -/
theorem stackCheck_reports {touched : Nat → Prop} {s : Stack} (painted : s.painted = true) (tracked : Tracked touched s)
    {low : Nat} (least : IsLeast {o | o < STACK_RAM_BYTES ∧ touched o} low) :
    (stackCheck s).usedMax.toNat = STACK_RAM_BYTES - low := by
  have isMark := stackWatermark_isMark s.ram STACK_RAM_BYTES STACK_PAINT
  have same : {o | o < STACK_RAM_BYTES ∧ ¬ s.ram o = STACK_PAINT} = {o | o < STACK_RAM_BYTES ∧ touched o} := by
    ext o
    exact and_congr_right fun inside => tracked.bare o inside
  have mark := isMark.of_isLeast (same ▸ least)
  rw [stackCheck_scans painted tracked, scanned, mark]

theorem write_tracked {touched : Nat → Prop} {s : Stack} (tracked : Tracked touched s) (offset : Fin STACK_RAM_BYTES)
    {byte : UInt8} (bare : byte ≠ STACK_PAINT) :
    Tracked (fun o => touched o ∨ o = offset) (stackStep s (.write offset byte)) := by
  have here : ∀ o < STACK_RAM_BYTES,
      (Function.update s.ram offset byte o ≠ STACK_PAINT ↔ touched o ∨ o = offset) := by
    intro o inside
    rcases eq_or_ne o offset with rfl | other
    · rw [Function.update_self]
      exact iff_of_true bare (.inr rfl)
    · rw [Function.update_of_ne other, tracked.bare o inside]
      exact (or_iff_left other).symm
  constructor
  · exact here
  · apply Nat.le_trans tracked.usedMax
    apply scanned_mono
    intro o inside kept
    by_contra gone
    exact (here o inside).mpr (.inl ((tracked.bare o inside).mp gone)) kept

/-- Some event writes the byte. -/
def WrittenAt (events : List StackEvent) (o : Nat) : Prop :=
  ∃ offset byte, StackEvent.write offset byte ∈ events ∧ o = offset

/-- Every byte written differs from the paint. -/
def PaintFree (events : List StackEvent) : Prop :=
  ∀ offset byte, StackEvent.write offset byte ∈ events → byte ≠ STACK_PAINT

theorem writtenAt_write (offset : Fin STACK_RAM_BYTES) (byte : UInt8) (events : List StackEvent) (o : Nat) :
    WrittenAt (.write offset byte :: events) o ↔ o = offset ∨ WrittenAt events o := by
  constructor
  · rintro ⟨offset', byte', member, eq⟩
    rcases List.mem_cons.mp member with same | later
    · cases same
      exact .inl eq
    · exact .inr ⟨offset', byte', later, eq⟩
  · rintro (eq | ⟨offset', byte', later, eq⟩)
    · exact ⟨offset, byte, List.mem_cons_self .., eq⟩
    · exact ⟨offset', byte', List.mem_cons_of_mem _ later, eq⟩

theorem writtenAt_check (events : List StackEvent) (o : Nat) : WrittenAt (.check :: events) o ↔ WrittenAt events o := by
  constructor
  · rintro ⟨offset, byte, member, eq⟩
    rcases List.mem_cons.mp member with same | later
    · cases same
    · exact ⟨offset, byte, later, eq⟩
  · rintro ⟨offset, byte, later, eq⟩
    exact ⟨offset, byte, List.mem_cons_of_mem _ later, eq⟩

theorem stackRun_tracked {touched : Nat → Prop} {s : Stack} (painted : s.painted = true) (tracked : Tracked touched s)
    {events : List StackEvent} (free : PaintFree events) :
    Tracked (fun o => touched o ∨ WrittenAt events o) (stackRun s events) := by
  induction events generalizing touched s with
  | nil =>
      have none : ∀ o, (touched o ∨ WrittenAt [] o) ↔ touched o := fun o =>
        or_iff_left fun ⟨_, _, member, _⟩ => List.not_mem_nil member
      simp only [none]
      exact tracked
  | cons a events ih =>
      have later : PaintFree events := fun offset byte member => free offset byte (List.mem_cons_of_mem a member)
      cases a with
      | write offset byte =>
          have here := write_tracked tracked offset (free offset byte (List.mem_cons_self ..))
          simp only [writtenAt_write, ← or_assoc]
          exact ih painted here later
      | check =>
          simp only [writtenAt_check]
          exact ih ((stackCheck_painted s).trans painted) (stackCheck_tracked painted tracked) later

/-- The bytes of the array that `stack_init` leaves as they are. -/
def Unpainted (bottom frame : UInt32) (o : Nat) : Prop :=
  (frame - STACK_PAINT_SLACK).toNat ≤ bottom.toNat + o

theorem paintFrom_apply (limit : Nat) (ram : Nat → UInt8) (p o : Nat) :
    paintFrom limit ram p o = if p ≤ o ∧ o < limit then STACK_PAINT else ram o := by
  fun_induction paintFrom limit ram p with
  | case1 ram p more ih =>
      rw [ih]
      rcases eq_or_ne o p with rfl | other
      · rw [Function.update_self, if_neg (by omega), if_pos ⟨Nat.le_refl _, more⟩]
      · rw [Function.update_of_ne other]
        have : (p + 1 ≤ o ∧ o < limit) ↔ (p ≤ o ∧ o < limit) := by omega
        simp only [this]
  | case2 ram p stops => rw [if_neg (by omega)]

theorem stackInit_tracked {bottom frame : UInt32} {s : Stack}
    (bare : ∀ o < STACK_RAM_BYTES, Unpainted bottom frame o → s.ram o ≠ STACK_PAINT) :
    Tracked (Unpainted bottom frame) (stackInit bottom frame s) := by
  apply stackCheck_tracked rfl
  constructor
  · intro o inside
    dsimp only
    rw [paintFrom_apply]
    unfold Unpainted at bare ⊢
    split
    · rename_i painted
      exact iff_of_false (fun other => other rfl) (by omega)
    · rename_i left
      have kept : (frame - STACK_PAINT_SLACK).toNat ≤ bottom.toNat + o := by omega
      exact iff_of_true (bare o inside kept) kept
  · exact Nat.zero_le _

/-- How often the stack was scanned does not matter, only what was written. -/
theorem stackRun_schedule {bottom frame : UInt32} {s : Stack} {events events' : List StackEvent}
    (bare : ∀ o < STACK_RAM_BYTES, Unpainted bottom frame o → s.ram o ≠ STACK_PAINT)
    (free : PaintFree events) (free' : PaintFree events') (same : ∀ o, WrittenAt events o ↔ WrittenAt events' o) :
    stackUsedMax (stackRun (stackInit bottom frame s) (events ++ [.check])) =
      stackUsedMax (stackRun (stackInit bottom frame s) (events' ++ [.check])) := by
  have start := stackInit_bounded bottom frame s
  have painted : ∀ events, (stackRun (stackInit bottom frame s) events).painted = true := fun events =>
    (Runs.run_invariant Stack.Bounded start events fun s a _ bounded => stackStep_bounded bounded a).painted
  have tracked := stackRun_tracked start.painted (stackInit_tracked bare) free
  have tracked' := stackRun_tracked start.painted (stackInit_tracked bare) free'
  simp only [← same] at tracked'
  apply UInt32.toNat_inj.mp
  simp only [stackUsedMax, stackRun, Runs.run_append, Runs.run_cons, Runs.run_nil, stackStep]
  rw [stackCheck_scans (painted events) tracked, stackCheck_scans (painted events') tracked']
  exact tracked.scanned_eq tracked'

/-- On the stack it paints, `stack_init` leaves at least its slack as it was. -/
theorem touched_least {bottom frame : UInt32} (inside : (frame - STACK_PAINT_SLACK).toNat < bottom.toNat + STACK_RAM_BYTES)
    (events : List StackEvent) :
    ∃ low, IsLeast {o | o < STACK_RAM_BYTES ∧ (Unpainted bottom frame o ∨ WrittenAt events o)} low := by
  have some : ∃ o, o < STACK_RAM_BYTES ∧ (Unpainted bottom frame o ∨ WrittenAt events o) := by
    have last : STACK_RAM_BYTES - 1 < STACK_RAM_BYTES := by decide
    exact ⟨STACK_RAM_BYTES - 1, last, .inl (by unfold Unpainted; omega)⟩
  classical
  exact ⟨Nat.find some, Nat.find_spec some, fun o member => Nat.find_min' some member⟩

/-- The watermark never sinks, adds up with the room that is left, and ends where the
    lowest touched byte is, whenever the scans were made; on the stack it paints there is one. -/
theorem stackRun_watermark (bottom frame : UInt32) (s : Stack) (events : List StackEvent) :
    (∀ first, first <+: events →
      stackUsedMax (stackRun (stackInit bottom frame s) first) ≤
        stackUsedMax (stackRun (stackInit bottom frame s) events)) ∧
    (stackUsedMax (stackRun (stackInit bottom frame s) events)).toNat +
      (stackFreeMin (stackRun (stackInit bottom frame s) events)).toNat = stackTotal.toNat ∧
    ((∀ o < STACK_RAM_BYTES, Unpainted bottom frame o → s.ram o ≠ STACK_PAINT) → PaintFree events →
      (∀ low, IsLeast {o | o < STACK_RAM_BYTES ∧ (Unpainted bottom frame o ∨ WrittenAt events o)} low →
        (stackUsedMax (stackRun (stackInit bottom frame s) (events ++ [.check]))).toNat = stackTotal.toNat - low) ∧
      ∀ events', PaintFree events' → (∀ o, WrittenAt events o ↔ WrittenAt events' o) →
        stackUsedMax (stackRun (stackInit bottom frame s) (events ++ [.check])) =
          stackUsedMax (stackRun (stackInit bottom frame s) (events' ++ [.check]))) ∧
    ((frame - STACK_PAINT_SLACK).toNat < bottom.toNat + STACK_RAM_BYTES →
      ∃ low, IsLeast {o | o < STACK_RAM_BYTES ∧ (Unpainted bottom frame o ∨ WrittenAt events o)} low) := by
  have bounded : (stackRun (stackInit bottom frame s) events).Bounded :=
    Runs.run_invariant Stack.Bounded (stackInit_bounded bottom frame s) events
      fun s a _ bounded => stackStep_bounded bounded a
  refine ⟨?_, stackFreeMin_sum bounded, ?_, fun inside => touched_least inside events⟩
  · rintro first ⟨rest, rfl⟩
    rw [stackRun, Runs.run_append]
    exact stackRun_deepens _ rest
  · intro bare free
    refine ⟨?_, fun events' free' same => stackRun_schedule bare free free' same⟩
    intro low least
    have painted := (stackInit_bounded bottom frame s).painted
    have tracked := stackRun_tracked painted (stackInit_tracked bare) free
    rw [stackRun, Runs.run_append, stackTotal_toNat]
    exact stackCheck_reports bounded.painted tracked least

/-- A call wrote down to byte 1000 before the check. -/
def deepCall : List StackEvent := [.write ⟨1000, by decide⟩ 1, .check, .write ⟨2000, by decide⟩ 7]

theorem deepCall_paintFree : PaintFree deepCall := by
  intro offset byte member
  simp only [deepCall, List.mem_cons, StackEvent.write.injEq, List.not_mem_nil, reduceCtorEq, or_false, false_or]
    at member
  rcases member with ⟨-, rfl⟩ | ⟨-, rfl⟩ <;> decide

/-- On a zeroed array of which the upper 192 bytes are not painted. -/
theorem stackRun_watermark_deepCall :
    (stackUsedMax (stackRun (stackInit 0x20078000 0x2007BF80 ⟨fun _ => 0, 0, false⟩) (deepCall ++ [.check]))).toNat =
      16384 - 1000 := by
  have least : IsLeast {o | o < STACK_RAM_BYTES ∧ (Unpainted 0x20078000 0x2007BF80 o ∨ WrittenAt deepCall o)} 1000 := by
    constructor
    · exact ⟨by decide, .inr ⟨⟨1000, by decide⟩, 1, List.mem_cons_self, rfl⟩⟩
    · rintro o ⟨-, left | ⟨offset, byte, member, rfl⟩⟩
      · have top : (0x2007BF80 - STACK_PAINT_SLACK : UInt32).toNat = 0x20078000 + 16192 := by decide
        have start : (0x20078000 : UInt32).toNat = 0x20078000 := by decide
        rw [Unpainted, top, start] at left
        omega
      · simp only [deepCall, List.mem_cons, StackEvent.write.injEq, List.not_mem_nil, reduceCtorEq, or_false, false_or]
          at member
        rcases member with ⟨rfl, -⟩ | ⟨rfl, -⟩ <;> decide
  have bare : ∀ o < STACK_RAM_BYTES, Unpainted 0x20078000 0x2007BF80 o → (0 : UInt8) ≠ STACK_PAINT :=
    fun _ _ _ => by decide
  have ends := (stackRun_watermark 0x20078000 0x2007BF80 ⟨fun _ => 0, 0, false⟩ deepCall).2.2.1 bare deepCall_paintFree
  exact ends.1 1000 least

end Roman
