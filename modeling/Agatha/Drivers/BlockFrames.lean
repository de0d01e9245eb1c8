import Mathlib.Algebra.Group.Nat.Defs
import Mathlib.Data.Int.Notation
import Mathlib.Data.Nat.Notation
import Mathlib.Tactic.Common

/-! The part of the client's frame that a block device reads or writes (`lib/block/block.c`). -/

namespace Agatha.Drivers.BlockFrames

structure Dev where
  blockSize : BitVec 32
  mapBuffers : Bool

structure Req where
  blk : BitVec 32
  nBlks : BitVec 32
  off : BitVec 32

structure Calls where
  frameInfo : Option (BitVec 32 × BitVec 32)
  frameMapAnywhere : BitVec 32
  device : ℤ

structure Operation where
  mapped : Bool
  place : BitVec 32
  start : BitVec 32
  n : BitVec 32

def OK : ℤ := 0
def ERR : ℤ := -1

def transfer (dev : Dev) (rq : Req) (pa : BitVec 32) (calls : Calls) : ℤ × Option Operation :=
  if dev.mapBuffers then
    if calls.frameMapAnywhere = 0 then (ERR, none)
    else (calls.device, some ⟨true, calls.frameMapAnywhere + rq.off, rq.blk, rq.nBlks⟩)
  else (calls.device, some ⟨false, pa + rq.off, rq.blk, rq.nBlks⟩)

def handleRead (dev : Dev) (rq : Req) (calls : Calls) : ℤ × Option Operation :=
  match calls.frameInfo with
  | none => (ERR, none)
  | some (pa, len) =>
    if len - rq.off < rq.nBlks * dev.blockSize then (ERR, none)
    else transfer dev rq pa calls

def handleWrite (dev : Dev) (rq : Req) (calls : Calls) : ℤ × Option Operation :=
  match calls.frameInfo with
  | none => (ERR, none)
  | some (pa, len) =>
    if len < rq.off + rq.nBlks * dev.blockSize then (ERR, none)
    else transfer dev rq pa calls

def InFrame (dev : Dev) (rq : Req) (len : BitVec 32) : Prop :=
  rq.off.toNat + rq.nBlks.toNat * dev.blockSize.toNat ≤ len.toNat

structure Guarded (dev : Dev) (rq : Req) (calls : Calls) : Prop where
  read : ∀ pa len, calls.frameInfo = some (pa, len) → (handleRead dev rq calls).2.isSome → InFrame dev rq len
  write : ∀ pa len, calls.frameInfo = some (pa, len) → (handleWrite dev rq calls).2.isSome → InFrame dev rq len
  same : (handleRead dev rq calls).2.isSome ↔ (handleWrite dev rq calls).2.isSome

def blocksEnd (dev : Dev) (rq : Req) : ℕ := rq.off.toNat + rq.nBlks.toNat * dev.blockSize.toNat % 2 ^ 32

def Clear (dev : Dev) (rq : Req) (len : BitVec 32) : Prop :=
  InFrame dev rq len ∨
    rq.off.toNat ≤ len.toNat ∧ len.toNat < blocksEnd dev rq ∧ blocksEnd dev rq < 2 ^ 32 ∨
    len.toNat < rq.off.toNat ∧ len.toNat + 2 ^ 32 < blocksEnd dev rq

section Tests

variable {dev : Dev} {rq : Req} {pa len : BitVec 32} {calls : Calls}

theorem read_test : len - rq.off < rq.nBlks * dev.blockSize ↔
    if rq.off.toNat ≤ len.toNat then len.toNat < blocksEnd dev rq else len.toNat + 2 ^ 32 < blocksEnd dev rq := by
  have hlen := len.isLt
  have hoff := rq.off.isLt
  unfold blocksEnd
  rw [BitVec.lt_def, BitVec.toNat_sub, BitVec.toNat_mul]
  split_ifs <;> omega

theorem write_test : len < rq.off + rq.nBlks * dev.blockSize ↔ len.toNat < blocksEnd dev rq % 2 ^ 32 := by
  unfold blocksEnd
  rw [BitVec.lt_def, BitVec.toNat_add, BitVec.toNat_mul]

theorem transfer_started (h : calls.frameMapAnywhere ≠ 0) : (transfer dev rq pa calls).2.isSome := by
  unfold transfer
  split_ifs <;> rfl

theorem read_started (hinfo : calls.frameInfo = some (pa, len)) : (handleRead dev rq calls).2.isSome ↔
    ¬ len - rq.off < rq.nBlks * dev.blockSize ∧ (transfer dev rq pa calls).2.isSome := by
  unfold handleRead
  rw [hinfo]
  dsimp only
  split_ifs with h
  · simp [h]
  · simp [h]

theorem write_started (hinfo : calls.frameInfo = some (pa, len)) : (handleWrite dev rq calls).2.isSome ↔
    ¬ len < rq.off + rq.nBlks * dev.blockSize ∧ (transfer dev rq pa calls).2.isSome := by
  unfold handleWrite
  rw [hinfo]
  dsimp only
  split_ifs with h
  · simp [h]
  · simp [h]

theorem Clear.tests (h : Clear dev rq len) :
    (len - rq.off < rq.nBlks * dev.blockSize ↔ ¬ InFrame dev rq len) ∧
      (len < rq.off + rq.nBlks * dev.blockSize ↔ ¬ InFrame dev rq len) := by
  have hlen := len.isLt
  rw [read_test, write_test]
  unfold Clear InFrame at *
  unfold blocksEnd at *
  split_ifs <;> omega

theorem clear_of_tests (hr : ¬ len - rq.off < rq.nBlks * dev.blockSize → InFrame dev rq len)
    (hw : ¬ len < rq.off + rq.nBlks * dev.blockSize → InFrame dev rq len) : Clear dev rq len := by
  have hlen := len.isLt
  have hoff := rq.off.isLt
  rw [read_test] at hr
  rw [write_test] at hw
  unfold Clear
  unfold InFrame at *
  unfold blocksEnd at *
  split_ifs at hr <;> omega

theorem guarded_iff (dev : Dev) (rq : Req) (pa len : BitVec 32) :
    (∀ calls : Calls, calls.frameInfo = some (pa, len) → Guarded dev rq calls) ↔ Clear dev rq len := by
  constructor
  · intro h
    have hg := h ⟨some (pa, len), 1, OK⟩ rfl
    have hstarted : (transfer dev rq pa ⟨some (pa, len), 1, OK⟩).2.isSome := 
      transfer_started (show (1 : BitVec 32) ≠ 0 by decide)
    apply clear_of_tests
    · exact fun ht => hg.read pa len rfl ((read_started rfl).mpr ⟨ht, hstarted⟩)
    · exact fun ht => hg.write pa len rfl ((write_started rfl).mpr ⟨ht, hstarted⟩)
  · intro h calls hinfo
    obtain ⟨hr, hw⟩ := h.tests
    refine ⟨?_, ?_, ?_⟩
    · intro pa' len' hinfo' hs
      cases hinfo.symm.trans hinfo'
      exact not_not.mp (mt hr.mpr ((read_started hinfo).mp hs).1)
    · intro pa' len' hinfo' hs
      cases hinfo.symm.trans hinfo'
      exact not_not.mp (mt hw.mpr ((write_started hinfo).mp hs).1)
    · rw [read_started hinfo, write_started hinfo, hr, hw]

theorem not_guarded : ¬ Guarded ⟨512, false⟩ ⟨0, 0x800000, 0⟩ ⟨some (0x10000, 0x1000), 0, OK⟩ := by
  intro h
  have hin := h.read 0x10000 0x1000 rfl (by decide)
  revert hin
  unfold InFrame
  decide

end Tests

end Agatha.Drivers.BlockFrames
