import Agatha.Fs.Checkpoint
import Agatha.Library.TwoSlots

namespace Agatha.Fs

open Library Library.Bytes

variable {env : Env} {fuel : ℕ} {lfs lfs' : Lfs} {w w' : World}

def freshSegments (n : ℕ) (old : ℕ → Segment) (i : ℕ) : Segment :=
  if i < n then { index := i, next := if i + 1 < n then some (i + 1) else none } else old i

theorem freshSegments_succ {n : ℕ} {old : ℕ → Segment} {i : ℕ} : freshSegments (n + 1) old i =
    if i = n then { index := n, next := none }
    else if i + 1 = n then { index := i, next := some n }
    else freshSegments n old i := by
  unfold freshSegments
  split_ifs <;> first | rfl | (congr 2 <;> omega)

theorem initSegs_eq (n : ℕ) : initSegs n lfs =
    ({ lfs with
        segHead := none, segTail := none, segFree := if n = 0 then none else some 0
        segments := freshSegments n lfs.segments },
      if n = 0 then none else some (n - 1)) := by
  induction n with
  | zero => rfl
  | succ n ih =>
    unfold initSegs
    rw [ih]
    cases n with
    | zero =>
      simp only [Lfs.setSegment, if_true, if_neg (Nat.succ_ne_zero 0)]
      congr 2
      funext i
      rw [Function.update_apply, freshSegments_succ, if_neg (Nat.succ_ne_zero i)]
    | succ n =>
      simp only [Lfs.setSegment, if_neg (Nat.succ_ne_zero _)]
      congr 2
      funext i
      have hidx : (freshSegments (n + 1) lfs.segments n).index = n := by
        unfold freshSegments
        rw [if_pos (Nat.lt_succ_self n)]
      rw [Nat.add_sub_cancel, hidx, Function.update_apply, Function.update_apply, freshSegments_succ (n := n + 1)]
      apply if_congr Iff.rfl rfl
      by_cases hi : i = n
      · rw [if_pos hi, if_pos (by omega), hi]
      · rw [if_neg hi, if_neg (by omega)]

theorem lfsFree_eq (h : lfsFree lfs = some lfs') : lfs' = { lfs with mounted := false } := by
  unfold lfsFree at h
  split_ifs at h
  cases h
  rfl

theorem lfsInit_eq (h : lfsInit env lfs w = (OK, lfs', w')) :
    lfs' = initInodes { (initSegs lfs.nSegs lfs).1 with mounted := true } ∧
      w' = w.next.next.next := by
  unfold lfsInit at h
  split_ifs at h
  · cases h
  · cases h
  · cases h
  · cases h
    exact ⟨rfl, rfl⟩

def checkpoint (fuel : ℕ) (lfs : Lfs) : Option Bytes :=
  (lfsCheckpointFillSegs fuel lfs ((zeros.put32 0 lfsCheckpointMagic).put32 4 0)).map fun c =>
    (c.put32 8 lfs.checkpointTimestamp).put32 4
      (crcChecksum (c.put32 8 lfs.checkpointTimestamp) 0 (lfs.checkpointBlks * lfsBlkSize))

def Lfs.tick (lfs : Lfs) : Lfs :=
  { lfs with checkpointTimestamp := (lfs.checkpointTimestamp + 1) % 2 ^ 32 }

theorem tick_nInodes : lfs.tick.nInodes = lfs.nInodes := rfl
theorem tick_inodes : lfs.tick.inodes = lfs.inodes := rfl

def Lfs.slotSector (lfs : Lfs) (idx : Fin 2) : ℕ := lfs.sector (lfs.checkpointBlk idx)

def Lfs.slotSectors (lfs : Lfs) : ℕ := lfs.checkpointBlks * lfs.secPerBlk

attribute [local instance] neZero_two

def Lfs.nextSlot (lfs : Lfs) : Fin 2 := Fin.ofNat 2 lfs.checkpointTimestamp

theorem lfsWriteCheckpoint_ok {r : ℤ} (h : lfsWriteCheckpoint env fuel lfs w = some (r, lfs', w')) :
    r = ERR ∧ lfs' = lfs ∧ w' = w.next ∨
    ∃ c, checkpoint fuel lfs = some c ∧
      blockWrite env (lfs.slotSector lfs.nextSlot) lfs.slotSectors c w.next = (decide (r = OK), w') ∧
      (r = OK ∧ lfs' = lfs.tick ∨ r = ERR ∧ lfs' = lfs) := by
  unfold lfsWriteCheckpoint at h
  split_ifs at h with hok
  · cases h
    exact .inl ⟨rfl, rfl, rfl⟩
  · right
    unfold checkpoint
    cases hc : lfsCheckpointFillSegs fuel lfs ((zeros.put32 0 lfsCheckpointMagic).put32 4 0) with
    | none =>
      simp only [hc] at h
      cases h
    | some c =>
      simp only [hc] at h
      refine ⟨_, rfl, ?_⟩
      split at h
      · rename_i w₁ hw
        cases h
        exact ⟨hw, .inr ⟨rfl, rfl⟩⟩
      · rename_i w₁ hw
        cases h
        exact ⟨hw, .inl ⟨rfl, rfl⟩⟩

def Lfs.mount (lfs : Lfs) : Lfs := initInodes { (initSegs lfs.nSegs lfs).1 with mounted := true }

theorem mount_segs : lfs.mount.segHead = none ∧ lfs.mount.segTail = none ∧
    lfs.mount.segFree = (if 0 < lfs.nSegs then some 0 else none) ∧ lfs.mount.nSegs = lfs.nSegs ∧
    lfs.mount.segments = freshSegments lfs.nSegs lfs.segments ∧ lfs.mount.checkpointBlks = lfs.checkpointBlks := by
  unfold Lfs.mount initInodes
  rw [initSegs_eq]
  refine ⟨rfl, rfl, ?_, rfl, rfl, rfl⟩
  split_ifs <;> first | rfl | omega

theorem formatLaidOut_ok {layout : Lfs} (h : formatLaidOut env fuel layout w = some (OK, lfs', w')) :
    ∃ w₁ w₂, zeroCheckpoints env layout w.next.next = (true, w₁) ∧
      lfsWriteSuperblock env layout.mount w₁.next.next.next = (OK, w₂) ∧
      lfsWriteCheckpoint env fuel layout.mount w₂ = some (OK, lfs', w') := by
  unfold formatLaidOut at h
  split at h
  · cases h
  · split at h
    · cases h
    · split at h
      · cases h
      · rename_i w₁ hzero
        cases hinit : lfsInit env layout w₁ with
        | mk r i =>
          obtain ⟨lfs₂, w₂⟩ := i
          rw [hinit] at h
          dsimp only at h
          split at h
          · cases h
          · rename_i hr
            obtain rfl : r = OK := not_not.mp hr
            obtain ⟨hlfs, rfl⟩ := lfsInit_eq hinit
            cases hsuper : lfsWriteSuperblock env lfs₂ w₁.next.next.next with
            | mk r w₃ =>
              rw [hsuper] at h
              dsimp only at h
              split at h
              · cases h
              · rename_i hr
                obtain rfl : r = OK := not_not.mp hr
                have hmount : layout.mount = lfs₂ := hlfs.symm
                rw [hmount]
                exact ⟨w₁, w₃, hzero, hsuper, h⟩

theorem lfsFormat_ok (h : lfsFormat env fuel lfs w = some (OK, lfs', w')) :
    formatLaidOut env fuel (formatLayout { lfs with mounted := false }) w = some (OK, lfs', w') := by
  unfold lfsFormat at h
  cases hfree : lfsFree lfs with
  | none =>
    rw [hfree] at h
    cases h
  | some lfs₁ =>
    rw [hfree] at h
    rw [← lfsFree_eq hfree]
    exact h

theorem mount_nInodes : lfs.mount.nInodes = lfs.nInodes := by
  unfold Lfs.mount initInodes
  rw [initSegs_eq]

theorem mount_inodes {i : ℕ} (h : i < lfs.nInodes) : lfs.mount.inodes i =
    { lfs.inodes i with
      index := i, free := true, created := false, blkCnt := 0, lenReal := 0
      name := fun _ => 0, blks := .nil } := by
  unfold Lfs.mount initInodes
  rw [initSegs_eq]
  exact if_pos h

end Agatha.Fs
