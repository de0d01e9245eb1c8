import Agatha.Library.TwoSlots
import Agatha.Fs.DirectoryRuns

namespace Agatha.Fs

open Library Library.Bytes

variable {env : Env} {fuel : ℕ} {lfs lfs' : Lfs} {w w' : World} {b c c' : Bytes}

section Frames

variable {magic len : ℕ}

def Valid (magic len : ℕ) (c : Bytes) : Prop :=
  c.get32 0 = magic ∧ c.get32 4 = crcChecksum (c.put32 4 0) 0 len

instance : Decidable (Valid magic len c) := by unfold Valid; infer_instance

theorem checkMagicCrc_eq :
    checkMagicCrc magic len c = if Valid magic len c then some (c.put32 4 0) else none := by
  unfold checkMagicCrc
  by_cases h : Valid magic len c
  · rw [if_pos h, if_neg (not_not.mpr h.1), if_neg (not_not.mpr h.2)]
  · rw [if_neg h]
    by_cases hm : c.get32 0 = magic
    · rw [if_neg (not_not.mpr hm), if_pos fun hc => h ⟨hm, hc⟩]
    · rw [if_pos hm]

theorem Valid.congr (h : Valid magic len b) (hagree : Agree b c 0 len) (hlen : 8 ≤ len) :
    Valid magic len c := by
  have h0 : b.get32 0 = c.get32 0 := get32_congr (hagree.mono (by omega) (by omega))
  have h4 : b.get32 4 = c.get32 4 := get32_congr (hagree.mono (by omega) (by omega))
  have hcrc : crcChecksum (b.put32 4 0) 0 len = crcChecksum (c.put32 4 0) 0 len := by
    apply crcChecksum_congr
    intro i hi
    exact hagree.put32 (0 + i) (by omega) (by omega)
  exact ⟨h0 ▸ h.1, by rw [← h4, h.2, hcrc]⟩

end Frames

theorem fillSegList_front {len : ℕ} {value : Segment → ℕ} {s : Option ℕ}
    (h : fillSegList lfs len value fuel s c = some c') : Agree c' c 0 20 := by
  induction fuel generalizing s c with
  | zero => cases h
  | succ fuel ih =>
    cases s with
    | none =>
      cases h
      exact .refl
    | some s =>
      dsimp only [fillSegList] at h
      split at h
      · cases h
      · apply (ih h).trans
        intro i hi hlt
        exact put32_outside i (by omega)

theorem fillLists_front {d : Bytes} {next : Segment → ℕ} {len : ℕ} {head : Option ℕ} (hd : Agree d c 0 12)
    (h : (match fillSegList lfs len next fuel head d with
      | none => none
      | some d => fillSegList lfs len (fun _ => lfsSegFree) fuel lfs.segFree d) = some c') : Agree c' c 0 12 := by
  split at h
  · cases h
  · rename_i d' hd'
    apply ((fillSegList_front h).mono (by omega) (by omega)).trans
    exact ((fillSegList_front hd').mono (by omega) (by omega)).trans hd

theorem lfsCheckpointFillSegs_front (h : lfsCheckpointFillSegs fuel lfs c = some c') :
    Agree c' c 0 12 := by
  have hput : ∀ a d : ℕ, Agree ((c.put32 12 a).put32 16 d) c 0 12 := by
    intro a d i hi hlt
    rw [put32_outside i (by omega), put32_outside i (by omega)]
  unfold lfsCheckpointFillSegs at h
  cases hh : lfs.segHead with
  | none =>
    rw [hh] at h
    exact fillLists_front (hput _ _) h
  | some s =>
    cases ht : lfs.segTail with
    | none =>
      rw [hh, ht] at h
      cases h
    | some t =>
      rw [hh, ht] at h
      exact fillLists_front (hput _ _) h

def Lfs.slotLen (lfs : Lfs) : ℕ := lfs.checkpointBlks * lfsBlkSize

theorem checkpoint_valid (h : checkpoint fuel lfs = some c) :
    Valid lfsCheckpointMagic lfs.slotLen c ∧ c.get32 8 = lfs.checkpointTimestamp % 2 ^ 32 := by
  unfold checkpoint at h
  obtain ⟨d, hd, rfl⟩ := Option.map_eq_some_iff.mp h
  have hfront := lfsCheckpointFillSegs_front hd
  have hmagic : d.get32 0 = lfsCheckpointMagic := by
    rw [get32_congr (hfront.mono (by omega) (by omega)), get32_put32_ne (by omega), get32_put32_same]
    rfl
  refine ⟨⟨?_, ?_⟩, ?_⟩
  · rw [get32_put32_ne (by omega), get32_put32_ne (by omega), hmagic]
  · -- the field of the checksum was already zero
    have hzero : Agree (d.put32 8 lfs.checkpointTimestamp)
        ((zeros.put32 0 lfsCheckpointMagic).put32 4 0) 4 4 := by
      intro i h1 h2
      rw [put32_outside i (by omega)]
      exact hfront i (by omega) (by omega)
    rw [get32_put32_same, Nat.mod_eq_of_lt crcChecksum_lt, put32_put32_same, hzero.put32_self]
    rfl
  · rw [get32_put32_ne (by omega), get32_put32_same]

section Slots

variable {idx : Fin 2}

def Lfs.slotByte (lfs : Lfs) (w : World) (idx : Fin 2) : ℕ := lfs.slotSector idx * w.blockSize

def slotFrame (lfs : Lfs) (w : World) (idx : Fin 2) : Bytes :=
  zeros.copy 0 w.disk (lfs.slotByte w idx) lfs.slotLen

def SlotValid (lfs : Lfs) (w : World) (idx : Fin 2) : Prop :=
  Valid lfsCheckpointMagic lfs.slotLen (slotFrame lfs w idx)

def slotNumber (lfs : Lfs) (w : World) (idx : Fin 2) : Option ℕ :=
  if Valid lfsCheckpointMagic lfs.slotLen (slotFrame lfs w idx) then
    some ((slotFrame lfs w idx).get32 8)
  else none

structure Slots (lfs : Lfs) (w : World) : Prop where
  blocks : lfs.secPerBlk * w.blockSize = lfsBlkSize
  len : lfsBlkSize ≤ lfs.slotLen
  apart : ∀ i j, i ≠ j → lfs.slotByte w i + lfs.slotLen ≤ lfs.slotByte w j ∨
    lfs.slotByte w j + lfs.slotLen ≤ lfs.slotByte w i

structure SameSlots (lfs lfs' : Lfs) : Prop where
  partOff : lfs'.partOff = lfs.partOff
  secPerBlk : lfs'.secPerBlk = lfs.secPerBlk
  checkpointBlk : lfs'.checkpointBlk = lfs.checkpointBlk
  checkpointBlks : lfs'.checkpointBlks = lfs.checkpointBlks

theorem SameSlots.slotLen (h : SameSlots lfs lfs') : lfs'.slotLen = lfs.slotLen := by
  unfold Lfs.slotLen
  rw [h.checkpointBlks]

theorem SameSlots.slotByte (h : SameSlots lfs lfs') (hw : w'.blockSize = w.blockSize) :
    lfs'.slotByte w' idx = lfs.slotByte w idx := by
  unfold Lfs.slotByte Lfs.slotSector Lfs.sector
  rw [h.checkpointBlk, h.secPerBlk, h.partOff, hw]

theorem Slots.congr (h : Slots lfs w) (hsame : SameSlots lfs lfs') (hw : w'.blockSize = w.blockSize) :
    Slots lfs' w' := by
  refine ⟨?_, ?_, ?_⟩
  · rw [hsame.secPerBlk, hw]
    exact h.blocks
  · rw [hsame.slotLen]
    exact h.len
  · intro i j hne
    rw [hsame.slotByte hw, hsame.slotByte hw, hsame.slotLen]
    exact h.apart i j hne

theorem Slots.sectors (h : Slots lfs w) : lfs.slotSectors * w.blockSize = lfs.slotLen := by
  unfold Lfs.slotSectors Lfs.slotLen
  rw [Nat.mul_assoc, h.blocks]

def SlotKept (lfs : Lfs) (w w' : World) (idx : Fin 2) : Prop :=
  Agree w'.disk w.disk (lfs.slotByte w idx) lfs.slotLen

theorem slotFrame_kept (hsame : SameSlots lfs lfs') (hw : w'.blockSize = w.blockSize)
    (h : SlotKept lfs w w' idx) : slotFrame lfs' w' idx = slotFrame lfs w idx := by
  unfold slotFrame
  rw [hsame.slotByte hw, hsame.slotLen]
  funext i
  by_cases hi : i < 0 + lfs.slotLen
  · rw [copy_inside i (Nat.zero_le i) hi, copy_inside i (Nat.zero_le i) hi]
    exact h _ (by omega) (by omega)
  · rw [copy_outside i (by omega), copy_outside i (by omega)]

theorem slotNumber_congr (hsame : SameSlots lfs lfs') (h : slotFrame lfs' w' idx = slotFrame lfs w idx) :
    slotNumber lfs' w' idx = slotNumber lfs w idx := by
  unfold slotNumber
  rw [h, hsame.slotLen]

theorem SameSlots.refl : SameSlots lfs lfs := ⟨rfl, rfl, rfl, rfl⟩

theorem SameSlots.slotFrame (hsame : SameSlots lfs lfs') : slotFrame lfs' w idx = slotFrame lfs w idx := by
  unfold Fs.slotFrame
  rw [hsame.slotByte rfl, hsame.slotLen]

theorem SameSlots.slotNumber (hsame : SameSlots lfs lfs') : slotNumber lfs' w = slotNumber lfs w :=
  funext fun _ => slotNumber_congr hsame hsame.slotFrame

theorem tick_sameSlots : SameSlots lfs lfs.tick := ⟨rfl, rfl, rfl, rfl⟩

theorem blockWrite_slot (hs : Slots lfs w) {ok : Bool}
    (h : blockWrite env (lfs.slotSector idx) lfs.slotSectors c w.next = (ok, w')) :
    w'.blockSize = w.blockSize ∧ (ok = true → Agree (slotFrame lfs w' idx) c 0 lfs.slotLen) ∧
      ∀ j, j ≠ idx → SlotKept lfs w w' j := by
  unfold blockWrite at h
  injection h with hok hw
  have hsize : w'.blockSize = w.blockSize := by rw [← hw]; rfl
  have hbyte : ∀ j, lfs.slotByte w' j = lfs.slotByte w j := fun j => SameSlots.refl.slotByte hsize
  have hdisk : w'.disk = w.disk.copy (lfs.slotByte w idx)
      (if env.ok w.next.calls = true then c else env.junk w.next.calls) 0 lfs.slotLen := by
    rw [← hw, ← hs.sectors]
    rfl
  refine ⟨hsize, ?_, ?_⟩
  · intro htrue i hi hlt
    unfold slotFrame
    rw [copy_inside i hi hlt, hbyte, hdisk, copy_inside _ (by omega) (by omega), if_pos (hok.trans htrue)]
    congr 1
    omega
  · intro j hne i h1 h2
    rw [hdisk, copy_outside]
    rcases hs.apart j idx hne with hlt | hlt <;> omega

end Slots

section Turns

variable {idx : Fin 2} {last : ℕ}

structure Newest (lfs : Lfs) (w : World) (idx : Fin 2) (c : Bytes) : Prop where
  slots : Slots lfs w
  turns : ∃ last, Alternating (2 ^ 32) (slotNumber lfs w) last ∧ idx = turn last ∧
    lfs.checkpointTimestamp = (last + 1) % 2 ^ 32
  holds : Agree (slotFrame lfs w idx) c 0 lfs.slotLen

theorem nextSlot_eq (h : lfs.checkpointTimestamp = (last + 1) % 2 ^ 32) :
    lfs.nextSlot = turn (last + 1) := by
  unfold Lfs.nextSlot
  rw [h]
  exact turn_mod (dvd_pow_self 2 (by omega))

theorem slotNumber_written (hs : Slots lfs w) (hc : checkpoint fuel lfs = some c)
    (h : Agree (slotFrame lfs w' idx) c 0 lfs.slotLen) :
    slotNumber lfs w' idx = some (lfs.checkpointTimestamp % 2 ^ 32) := by
  have hlen : 12 ≤ lfs.slotLen := le_trans (by decide) hs.len
  obtain ⟨hvalid, hstamp⟩ := checkpoint_valid hc
  have hv := hvalid.congr h.symm (by omega)
  unfold slotNumber
  rw [if_pos hv, get32_congr (h.mono (by omega) (by omega)), hstamp]

theorem Newest.kept (h : Newest lfs w idx c) (hsame : SameSlots lfs lfs')
    (hstamp : lfs'.checkpointTimestamp = lfs.checkpointTimestamp) (hw : w'.blockSize = w.blockSize)
    (hdisk : ∀ j, SlotKept lfs w w' j) : Newest lfs' w' idx c := by
  obtain ⟨last, halt, hidx, htime⟩ := h.turns
  have hframe : ∀ j, slotFrame lfs' w' j = slotFrame lfs w j := fun j => slotFrame_kept hsame hw (hdisk j)
  have hnumber : slotNumber lfs' w' = slotNumber lfs w :=
    funext fun j => slotNumber_congr hsame (hframe j)
  refine ⟨h.slots.congr hsame hw, ⟨last, ?_, hidx, hstamp.trans htime⟩, ?_⟩
  · rw [hnumber]
    exact halt
  · rw [hframe, hsame.slotLen]
    exact h.holds

theorem Newest.write {frame : Bytes} (h : Newest lfs w idx c) (hc : checkpoint fuel lfs = some frame)
    (hsame : SameSlots lfs lfs') (hstamp : lfs'.checkpointTimestamp = (lfs.checkpointTimestamp + 1) % 2 ^ 32)
    (hw : w'.blockSize = w.blockSize) (hnew : Agree (slotFrame lfs w' lfs.nextSlot) frame 0 lfs.slotLen)
    (hother : ∀ j, j ≠ lfs.nextSlot → SlotKept lfs w w' j) : Newest lfs' w' lfs.nextSlot frame := by
  obtain ⟨last, halt, hidx, htime⟩ := h.turns
  have hnext := nextSlot_eq htime
  refine ⟨h.slots.congr hsame hw, ⟨(last + 1) % 2 ^ 32, ?_, ?_, hstamp.trans (by rw [htime])⟩, ?_⟩
  · apply halt.write (dvd_pow_self 2 (by omega))
    · rw [hsame.slotNumber, ← hnext, slotNumber_written h.slots hc hnew, htime, Nat.mod_mod]
    · rw [hsame.slotNumber]
      apply slotNumber_congr .refl
      apply slotFrame_kept .refl hw
      apply hother
      rw [hnext]
      exact turn_ne
  · rw [hnext, turn_mod (dvd_pow_self 2 (by omega))]
  · rw [hsame.slotFrame, hsame.slotLen]
    exact hnew

theorem Newest.cut (h : Newest lfs w idx c) (hw : w'.blockSize = w.blockSize)
    (hcut : SlotKept lfs w w' lfs.nextSlot ∨ ¬ SlotValid lfs w' lfs.nextSlot)
    (hother : ∀ j, j ≠ lfs.nextSlot → SlotKept lfs w w' j) : Newest lfs w' idx c := by
  obtain ⟨last, halt, hidx, htime⟩ := h.turns
  have hnext := nextSlot_eq htime
  have hne : idx ≠ lfs.nextSlot := by
    rw [hidx, hnext]
    exact turn_ne
  have hframe : slotFrame lfs w' idx = slotFrame lfs w idx := slotFrame_kept .refl hw (hother idx hne)
  refine ⟨h.slots.congr .refl hw, ⟨last, ?_, hidx, htime⟩, ?_⟩
  · apply halt.cut
    · rw [← hnext]
      rcases hcut with hkept | htorn
      · exact .inl (slotNumber_congr .refl (slotFrame_kept .refl hw hkept))
      · exact .inr (if_neg htorn)
    · rw [← hidx]
      exact slotNumber_congr .refl hframe
  · rw [hframe]
    exact h.holds

end Turns

section Formatting

variable {n : ℕ}

structure Device (lfs : Lfs) (w : World) : Prop where
  blocks : lfs.secPerBlk * w.blockSize = lfsBlkSize
  partOff : lfs.partOff < 2 ^ 32

theorem lfsSetup_device {partOff partLen : ℕ} (h : lfsSetup env partOff partLen lfs w = (OK, lfs', w'))
    (hdvd : w.blockSize ∣ lfsBlkSize) (hoff : partOff < 2 ^ 32) : Device lfs' w' := by
  unfold lfsSetup at h
  split at h
  · cases h
  · cases h
    exact ⟨Nat.div_mul_cancel hdvd, hoff⟩

theorem Device.secPerBlk_le (h : Device lfs w) : lfs.secPerBlk ≤ lfsBlkSize :=
  Nat.le_of_dvd (by decide) ⟨_, h.blocks.symm⟩

structure LaidOut (lfs layout : Lfs) : Prop where
  partOff : layout.partOff = lfs.partOff
  secPerBlk : layout.secPerBlk = lfs.secPerBlk
  checkpointBlk : ∀ idx : Fin 2, layout.checkpointBlk idx = 1 + idx.val * layout.checkpointBlks
  pos : 1 ≤ layout.checkpointBlks
  le : layout.checkpointBlks ≤ 5
  timestamp : layout.checkpointTimestamp = 0

theorem formatLayout_laidOut : LaidOut lfs (formatLayout lfs) := by
  have hlt : usefulLen lfs lfsSegBlks < 2 ^ 32 := Nat.mod_lt _ (by decide)
  have htent : usefulLen lfs lfsSegBlks / (lfsSegBlks * lfsBlkSize) ≤ 4095 := by
    apply Nat.le_of_lt_succ
    rw [Nat.div_lt_iff_lt_mul (by decide)]
    exact hlt
  have hblks : (formatLayout lfs).checkpointBlks =
      (20 + 4 + 4 * (usefulLen lfs lfsSegBlks / (lfsSegBlks * lfsBlkSize)) + (lfsBlkSize - 1)) / lfsBlkSize :=
    Nat.mul_div_cancel _ (by decide)
  have hrange : 1 ≤ (formatLayout lfs).checkpointBlks ∧ (formatLayout lfs).checkpointBlks ≤ 5 := by
    rw [hblks]
    generalize usefulLen lfs lfsSegBlks / (lfsSegBlks * lfsBlkSize) = tent at htent
    unfold lfsBlkSize
    omega
  have hfields : (formatLayout lfs).partOff = lfs.partOff ∧ (formatLayout lfs).secPerBlk = lfs.secPerBlk := by
    cases lfs
    exact ⟨rfl, rfl⟩
  exact ⟨hfields.1, hfields.2, fun _ => rfl, hrange.1, hrange.2, rfl⟩

section LaidOut

variable {layout : Lfs}

theorem LaidOut.slotSector (h : LaidOut lfs layout) (idx : Fin 2) : layout.slotSector idx =
    (lfs.partOff + (lfs.secPerBlk + idx.val * layout.slotSectors)) % 2 ^ 32 := by
  unfold Lfs.slotSector Lfs.sector Lfs.slotSectors
  rw [h.checkpointBlk, h.secPerBlk, h.partOff, Nat.add_mul, Nat.one_mul, Nat.mul_assoc]

theorem LaidOut.slotSectors_le (h : LaidOut lfs layout) (hdev : Device lfs w) :
    layout.slotSectors ≤ 5 * lfsBlkSize := by
  unfold Lfs.slotSectors
  rw [h.secPerBlk]
  exact Nat.mul_le_mul h.le hdev.secPerBlk_le

theorem sectors_bytes {a b size : ℕ} (h : a + n ≤ b) : a * size + n * size ≤ b * size := by
  rw [← Nat.add_mul]
  exact Nat.mul_le_mul_right size h

theorem LaidOut.slots (h : LaidOut lfs layout) (hdev : Device lfs w) : Slots layout w := by
  have hblocks : layout.secPerBlk * w.blockSize = lfsBlkSize := by
    rw [h.secPerBlk]
    exact hdev.blocks
  have hlen : layout.slotSectors * w.blockSize = layout.slotLen := by
    unfold Lfs.slotSectors Lfs.slotLen
    rw [Nat.mul_assoc, hblocks]
  refine ⟨hblocks, Nat.le_mul_of_pos_left lfsBlkSize h.pos, ?_⟩
  have hn := h.slotSectors_le hdev
  have hn' : 5 * lfsBlkSize = 20480 := rfl
  have hapart : ∀ i j : Fin 2, i ≠ j → layout.slotSector i + layout.slotSectors ≤ layout.slotSector j ∨
      layout.slotSector j + layout.slotSectors ≤ layout.slotSector i := by
    intro i j hne
    rw [h.slotSector, h.slotSector]
    generalize layout.slotSectors = n at hn
    have hi := i.isLt
    have hj := j.isLt
    have hval : i.val ≠ j.val := fun he => hne (Fin.ext he)
    rcases (by omega : i.val = 0 ∧ j.val = 1 ∨ i.val = 1 ∧ j.val = 0) with ⟨h0, h1⟩ | ⟨h0, h1⟩
    all_goals
      rw [h0, h1, Nat.zero_mul, Nat.one_mul]
      omega
  intro i j hne
  unfold Lfs.slotByte
  rw [← hlen]
  exact (hapart i j hne).imp sectors_bytes sectors_bytes

theorem LaidOut.superblock (h : LaidOut lfs layout) (hdev : Device lfs w) :
    lfs.partOff + lfs.secPerBlk ≤ layout.slotSector 1 ∨
      layout.slotSector 1 + lfs.secPerBlk ≤ lfs.partOff := by
  have hn := h.slotSectors_le hdev
  have hspb := hdev.secPerBlk_le
  have hoff := hdev.partOff
  have hn' : 5 * lfsBlkSize = 20480 := rfl
  have hblk : lfsBlkSize = 4096 := rfl
  rw [h.slotSector, Fin.val_one, Nat.one_mul]
  omega

end LaidOut

theorem zeroBlks_disk {first : ℕ} (h : zeroBlks env lfs first n w = (true, w')) :
    w'.blockSize = w.blockSize ∧ (0 < n → ∀ i < lfs.secPerBlk * w.blockSize,
      w'.disk (lfs.sector first * w.blockSize + i) = 0) := by
  induction n generalizing w' with
  | zero =>
    cases h
    exact ⟨rfl, nofun⟩
  | succ n ih =>
    unfold zeroBlks at h
    split at h
    · cases h
    · rename_i w₁ hw₁
      obtain ⟨hsize, hzero⟩ := ih hw₁
      unfold blockWrite at h
      injection h with hok hw
      have hdisk : w'.disk = w₁.disk.copy (lfs.sector (first + n) * w.blockSize) zeros 0
          (lfs.secPerBlk * w.blockSize) := by
        rw [← hw, if_pos hok, hsize]
      refine ⟨by rw [← hw]; exact hsize, ?_⟩
      intro _ i hi
      rw [hdisk]
      unfold Bytes.copy
      split_ifs with hin
      · rfl
      · -- the first block itself was written before
        have hn : 0 < n := by
          apply Nat.pos_of_ne_zero
          rintro rfl
          exact hin ⟨Nat.le_add_right _ _, by rw [Nat.add_zero]; omega⟩
        exact hzero hn i hi

theorem lfsWriteSuperblock_disk (h : lfsWriteSuperblock env lfs w = (OK, w')) :
    w'.blockSize = w.blockSize ∧ ∀ i, i < lfs.partOff * w.blockSize ∨
      lfs.partOff * w.blockSize + lfs.secPerBlk * w.blockSize ≤ i → w'.disk i = w.disk i := by
  unfold lfsWriteSuperblock at h
  split_ifs at h with h1 h2
  · cases h
  · cases h
  · split at h
    · cases h
    · rename_i w₁ hw
      cases h
      unfold blockWrite at hw
      injection hw with _ hw
      rw [← hw]
      refine ⟨rfl, ?_⟩
      intro i hi
      exact copy_outside i hi

theorem mount_sameSlots : SameSlots lfs lfs.mount := by
  unfold Lfs.mount initInodes
  rw [initSegs_eq]
  exact ⟨rfl, rfl, rfl, rfl⟩

theorem mount_timestamp : lfs.mount.checkpointTimestamp = lfs.checkpointTimestamp := by
  unfold Lfs.mount initInodes
  rw [initSegs_eq]

theorem LaidOut.second_zero {layout : Lfs} {w₁ w₂ : World} (h : LaidOut lfs layout) (hdev : Device lfs w)
    (hzero : zeroCheckpoints env layout w.next.next = (true, w₁))
    (hsuper : lfsWriteSuperblock env layout.mount w₁.next.next.next = (OK, w₂)) :
    w₂.blockSize = w.blockSize ∧ ∀ i < lfsBlkSize, w₂.disk (layout.slotByte w 1 + i) = 0 := by
  unfold zeroCheckpoints at hzero
  split at hzero
  · cases hzero
  · rename_i w₀ hw₀
    have hsize₀ : w₀.blockSize = w.blockSize := (zeroBlks_disk hw₀).1
    obtain ⟨hsize₁, hfirst⟩ := zeroBlks_disk hzero
    obtain ⟨hsize₂, hout⟩ := lfsWriteSuperblock_disk hsuper
    have hsize : w₁.blockSize = w.blockSize := hsize₁.trans hsize₀
    refine ⟨hsize₂.trans hsize, ?_⟩
    intro i hi
    have hblocks : layout.secPerBlk * w.blockSize = lfsBlkSize := (h.slots hdev).blocks
    have hmount : SameSlots layout layout.mount := mount_sameSlots
    have hbyte : layout.slotByte w 1 = layout.slotSector 1 * w.blockSize := rfl
    rw [hout, hbyte]
    · rw [hsize₀, hblocks] at hfirst
      exact hfirst h.pos i hi
    · have hnext : w₁.next.next.next.blockSize = w.blockSize := hsize
      rw [hmount.partOff, hmount.secPerBlk, hnext, hblocks, h.partOff, hbyte]
      have hspb : lfs.secPerBlk * w.blockSize = lfsBlkSize := hdev.blocks
      rcases h.superblock hdev with hlt | hlt
      · have := @sectors_bytes _ _ _ w.blockSize hlt
        omega
      · have := @sectors_bytes _ _ _ w.blockSize hlt
        omega

theorem newest_format (hdev : Device lfs w) (h : lfsFormat env fuel lfs w = some (OK, lfs', w')) :
    ∃ c, checkpoint fuel (formatLayout { lfs with mounted := false }).mount = some c ∧
      Newest lfs' w' 0 c := by
  obtain ⟨w₁, w₂, hzero, hsuper, hwrite⟩ := formatLaidOut_ok (lfsFormat_ok h)
  have hlaid : LaidOut { lfs with mounted := false } _ := formatLayout_laidOut
  have hdev' : Device { lfs with mounted := false } w := ⟨hdev.blocks, hdev.partOff⟩
  generalize formatLayout { lfs with mounted := false } = layout at hzero hsuper hwrite hlaid ⊢
  obtain ⟨hsize, hfirst⟩ := hlaid.second_zero hdev' hzero hsuper
  have hmount : SameSlots layout layout.mount := mount_sameSlots
  have hslots : Slots layout.mount w₂ := (hlaid.slots hdev').congr hmount hsize
  have hstamp : layout.mount.checkpointTimestamp = 0 := mount_timestamp.trans hlaid.timestamp
  generalize layout.mount = m at hwrite hmount hslots hstamp ⊢
  have hnext : m.nextSlot = 0 := by
    unfold Lfs.nextSlot
    rw [hstamp]
    rfl
  rcases lfsWriteCheckpoint_ok hwrite with ⟨hr, -, -⟩ | ⟨c, hc, hblock, ⟨-, rfl⟩ | ⟨hr, -⟩⟩
  · cases hr
  · obtain ⟨hsize', hnew, hother⟩ := blockWrite_slot hslots hblock
    rw [hnext] at hnew hother
    have hframe := hnew rfl
    have hsecond : ¬ SlotValid m w' 1 := by
      rintro ⟨hmagic, -⟩
      have hlen := hslots.len
      have hblk : lfsBlkSize = 4096 := rfl
      have hbyte : m.slotByte w' 1 = m.slotByte w₂ 1 := SameSlots.refl.slotByte hsize'
      have hfour : Agree (slotFrame m w' 1) zeros 0 4 := by
        intro i _ hi
        unfold slotFrame
        rw [copy_inside i (Nat.zero_le i) (by omega), hbyte,
          hother 1 (by decide) _ (by omega) (by omega), hmount.slotByte hsize, Nat.sub_zero]
        exact hfirst i (by omega)
      rw [get32_congr hfour] at hmagic
      cases hmagic
    refine ⟨c, hc, hslots.congr tick_sameSlots hsize', ⟨0, ?_, rfl, ?_⟩, ?_⟩
    · rw [tick_sameSlots.slotNumber]
      apply Alternating.first (by decide)
      · have hnumber : slotNumber m w' 0 = _ := slotNumber_written hslots hc hframe
        rw [hstamp] at hnumber
        exact hnumber
      · exact if_neg hsecond
    · have htick : m.tick.checkpointTimestamp = (m.checkpointTimestamp + 1) % 2 ^ 32 := rfl
      rw [htick, hstamp]
    · rw [tick_sameSlots.slotFrame, tick_sameSlots.slotLen]
      exact hframe
  · cases hr

end Formatting

section Runs

variable {lfs₀ : Lfs} {w₀ : World} {idx : Fin 2} {frame : Bytes}

/-- Runs after `lfs_format`: the last checkpoint that was written completely is `c`, in slot `idx`.
Between the writes all else may change, in memory and outside the slots. -/
inductive Written (env : Env) (lfs₀ : Lfs) (w₀ : World) : Lfs → World → Fin 2 → Bytes → Prop
  | format {fuel : ℕ} {lfs : Lfs} {w : World} {c : Bytes}
      (h : lfsFormat env fuel lfs₀ w₀ = some (OK, lfs, w))
      (hc : checkpoint fuel (formatLayout { lfs₀ with mounted := false }).mount = some c) :
      Written env lfs₀ w₀ lfs w 0 c
  | work {lfs lfs' : Lfs} {w w' : World} {idx : Fin 2} {c : Bytes}
      (run : Written env lfs₀ w₀ lfs w idx c) (hsame : SameSlots lfs lfs')
      (hstamp : lfs'.checkpointTimestamp = lfs.checkpointTimestamp)
      (hsize : w'.blockSize = w.blockSize) (hkept : ∀ j, SlotKept lfs w w' j) :
      Written env lfs₀ w₀ lfs' w' idx c
  | succeed {fuel : ℕ} {lfs lfs' : Lfs} {w w' : World} {idx : Fin 2} {c frame : Bytes}
      (run : Written env lfs₀ w₀ lfs w idx c)
      (h : lfsWriteCheckpoint env fuel lfs w = some (OK, lfs', w')) (hc : checkpoint fuel lfs = some frame) :
      Written env lfs₀ w₀ lfs' w' lfs.nextSlot frame
  | fail {fuel : ℕ} {lfs lfs' : Lfs} {w w' : World} {idx : Fin 2} {c : Bytes}
      (run : Written env lfs₀ w₀ lfs w idx c)
      (h : lfsWriteCheckpoint env fuel lfs w = some (ERR, lfs', w'))
      (hleft : SlotKept lfs w w' lfs.nextSlot ∨ ¬ SlotValid lfs w' lfs.nextSlot) :
      Written env lfs₀ w₀ lfs' w' idx c

/-- What a crash leaves on the disk: a write that was going on may be cut short or complete. -/
inductive Crashed (env : Env) (lfs₀ : Lfs) (w₀ : World) : Lfs → World → Fin 2 → Bytes → Prop
  | between {lfs : Lfs} {w : World} {idx : Fin 2} {c : Bytes}
      (run : Written env lfs₀ w₀ lfs w idx c) : Crashed env lfs₀ w₀ lfs w idx c
  | cut {lfs : Lfs} {w w' : World} {idx : Fin 2} {c : Bytes}
      (run : Written env lfs₀ w₀ lfs w idx c) (hsize : w'.blockSize = w.blockSize)
      (hleft : SlotKept lfs w w' lfs.nextSlot ∨ ¬ SlotValid lfs w' lfs.nextSlot)
      (hother : ∀ j, j ≠ lfs.nextSlot → SlotKept lfs w w' j) : Crashed env lfs₀ w₀ lfs w' idx c
  | complete {fuel : ℕ} {lfs : Lfs} {w w' : World} {idx : Fin 2} {c frame : Bytes}
      (run : Written env lfs₀ w₀ lfs w idx c)
      (hc : checkpoint fuel lfs = some frame) (hsize : w'.blockSize = w.blockSize)
      (hnew : Agree (slotFrame lfs w' lfs.nextSlot) frame 0 lfs.slotLen)
      (hother : ∀ j, j ≠ lfs.nextSlot → SlotKept lfs w w' j) :
      Crashed env lfs₀ w₀ lfs w' lfs.nextSlot frame

theorem Newest.succeed (h : Newest lfs w idx c) (hc : checkpoint fuel lfs = some frame)
    (hwrite : lfsWriteCheckpoint env fuel lfs w = some (OK, lfs', w')) :
    Newest lfs' w' lfs.nextSlot frame := by
  rcases lfsWriteCheckpoint_ok hwrite with ⟨hr, -, -⟩ | ⟨c', hc', hblock, ⟨-, rfl⟩ | ⟨hr, -⟩⟩
  · cases hr
  · cases hc.symm.trans hc'
    obtain ⟨hsize, hnew, hother⟩ := blockWrite_slot h.slots hblock
    exact h.write hc tick_sameSlots rfl hsize (hnew rfl) hother
  · cases hr

theorem Newest.fail (h : Newest lfs w idx c)
    (hwrite : lfsWriteCheckpoint env fuel lfs w = some (ERR, lfs', w'))
    (hleft : SlotKept lfs w w' lfs.nextSlot ∨ ¬ SlotValid lfs w' lfs.nextSlot) : Newest lfs' w' idx c := by
  rcases lfsWriteCheckpoint_ok hwrite with ⟨-, rfl, rfl⟩ | ⟨c', hc', hblock, ⟨hr, -⟩ | ⟨-, rfl⟩⟩
  · exact h.kept .refl rfl rfl fun _ => .refl
  · cases hr
  · obtain ⟨hsize, -, hother⟩ := blockWrite_slot h.slots hblock
    exact h.cut hsize hleft hother

theorem Written.newest (hdev : Device lfs₀ w₀) (run : Written env lfs₀ w₀ lfs w idx c) :
    Newest lfs w idx c := by
  induction run with
  | format h hc =>
    obtain ⟨c', hc', hnewest⟩ := newest_format hdev h
    cases hc.symm.trans hc'
    exact hnewest
  | work _ hsame hstamp hsize hkept ih => exact ih.kept hsame hstamp hsize hkept
  | succeed _ h hc ih => exact ih.succeed hc h
  | fail _ h hleft ih => exact ih.fail h hleft

end Runs

section Loading

variable {idx : Fin 2} {d : Bytes}

def readFrame (env : Env) (lfs : Lfs) (w : World) (idx : Fin 2) : Bytes :=
  (env.junk w.calls).copy 0 w.disk (lfs.slotByte w idx) lfs.slotLen

theorem readFrame_agree : Agree (readFrame env lfs w idx) (slotFrame lfs w idx) 0 lfs.slotLen := by
  intro i hi hlt
  unfold readFrame slotFrame
  rw [copy_inside i hi hlt, copy_inside i hi hlt]

theorem lfsLoadCheckpointData_eq (hs : Slots lfs w) : lfsLoadCheckpointData env lfs idx w =
    if env.ok w.calls = true then
      (if env.ok w.next.calls = true then
        checkMagicCrc lfsCheckpointMagic lfs.slotLen (readFrame env lfs w idx) else none, w.next.next)
    else (none, w.next) := by
  have hread : blockRead env (lfs.sector (lfs.checkpointBlk idx)) (lfs.checkpointBlks * lfs.secPerBlk)
      (env.junk w.calls) w =
      if env.ok w.calls = true then (some (readFrame env lfs w idx), w.next) else (none, w.next) := by
    unfold blockRead readFrame Lfs.slotByte
    rw [← hs.sectors]
    rfl
  unfold lfsLoadCheckpointData loadChecked
  rw [hread]
  by_cases h1 : env.ok w.calls = true
  · rw [if_pos h1, if_pos h1]
    dsimp only
    by_cases h2 : env.ok w.next.calls = true
    · rw [if_pos h2, if_pos h2]
      rfl
    · rw [if_neg h2, if_neg h2]
  · rw [if_neg h1, if_neg h1]

theorem lfsLoadCheckpointData_world (hs : Slots lfs w) :
    (lfsLoadCheckpointData env lfs idx w).2.disk = w.disk ∧
      (lfsLoadCheckpointData env lfs idx w).2.blockSize = w.blockSize := by
  rw [lfsLoadCheckpointData_eq hs]
  split_ifs
  · exact ⟨rfl, rfl⟩
  · exact ⟨rfl, rfl⟩
  · exact ⟨rfl, rfl⟩

theorem slotValid_iff (hs : Slots lfs w) : Valid lfsCheckpointMagic lfs.slotLen (readFrame env lfs w idx) ↔
    SlotValid lfs w idx := by
  have hlen : 8 ≤ lfs.slotLen := le_trans (by decide) hs.len
  exact ⟨fun h => h.congr readFrame_agree hlen, fun h => h.congr readFrame_agree.symm hlen⟩

theorem lfsLoadCheckpointData_some (hs : Slots lfs w) (h : (lfsLoadCheckpointData env lfs idx w).1 = some d) :
    slotNumber lfs w idx = some (d.get32 8) ∧ Agree d ((slotFrame lfs w idx).put32 4 0) 0 lfs.slotLen := by
  have hlen : 12 ≤ lfs.slotLen := le_trans (by decide) hs.len
  rw [lfsLoadCheckpointData_eq hs] at h
  split_ifs at h with h1 h2
  · dsimp only at h
    rw [checkMagicCrc_eq] at h
    split_ifs at h with hv
    cases h
    refine ⟨?_, readFrame_agree.put32⟩
    have hvalid : Valid lfsCheckpointMagic lfs.slotLen (slotFrame lfs w idx) := (slotValid_iff hs).mp hv
    unfold slotNumber
    rw [if_pos hvalid, get32_put32_ne (by omega), get32_congr (readFrame_agree.mono (by omega) (by omega))]

theorem lfsLoadCheckpointData_answers (hs : Slots lfs w) (h1 : env.ok w.calls = true)
    (h2 : env.ok w.next.calls = true) : lfsLoadCheckpointData env lfs idx w =
      ((if Valid lfsCheckpointMagic lfs.slotLen (slotFrame lfs w idx) then some ((readFrame env lfs w idx).put32 4 0) else none), w.next.next) := by
  rw [lfsLoadCheckpointData_eq hs, if_pos h1, if_pos h2, checkMagicCrc_eq]
  congr 1
  exact if_congr (slotValid_iff hs) rfl rfl

def loadedNumber (env : Env) (lfs : Lfs) (idx : Fin 2) (w : World) : Option ℕ :=
  (lfsLoadCheckpointData env lfs idx w).1.map fun c => c.get32 8

theorem chooseCheckpoint_newest {i : Fin 2} (h : newest (2 ^ 32) (loadedNumber env lfs 0 w)
      (loadedNumber env lfs 1 (lfsLoadCheckpointData env lfs 0 w).2) = some i) :
    (chooseCheckpoint env lfs w).1 = .slot i := by
  unfold loadedNumber at h
  unfold chooseCheckpoint
  cases h0 : lfsLoadCheckpointData env lfs 0 w with
  | mk c0 w0 =>
    rw [h0] at h
    cases h1 : lfsLoadCheckpointData env lfs 1 w0 with
    | mk c1 w1 =>
      rw [h1] at h
      cases c0 with
      | none =>
        cases c1 with
        | none => cases h
        | some c1 =>
          cases h
          dsimp only
          rw [h1]
      | some c0 =>
        cases c1 with
        | none =>
          cases h
          dsimp only
          rw [h1]
        | some c1 =>
          dsimp only [Option.map_some, newest] at h ⊢
          rw [h1]
          dsimp only
          split_ifs at h ⊢ <;> cases h <;> rfl

theorem chooseCheckpoint_bad (h : (chooseCheckpoint env lfs w).1 = .timestampsBad) : ∃ c0 c1,
    (lfsLoadCheckpointData env lfs 0 w).1 = some c0 ∧
    (lfsLoadCheckpointData env lfs 1 (lfsLoadCheckpointData env lfs 0 w).2).1 = some c1 := by
  unfold chooseCheckpoint at h
  cases h0 : lfsLoadCheckpointData env lfs 0 w with
  | mk c0 w0 =>
    rw [h0] at h
    dsimp only at h
    cases h1 : lfsLoadCheckpointData env lfs 1 w0 with
    | mk c1 w1 =>
      rw [h1] at h
      cases c0 with
      | none => cases c1 <;> cases h
      | some c0 =>
        cases c1 with
        | none => cases h
        | some c1 =>
          exact ⟨c0, c1, rfl, rfl⟩

theorem slotNumber_world (hdisk : w'.disk = w.disk) (hsize : w'.blockSize = w.blockSize) :
    slotNumber lfs w' = slotNumber lfs w := by
  funext j
  apply slotNumber_congr .refl
  apply slotFrame_kept .refl hsize
  intro i _ _
  rw [hdisk]

theorem loadedNumber_answers (hs : Slots lfs w) (h1 : env.ok w.calls = true)
    (h2 : env.ok w.next.calls = true) : loadedNumber env lfs idx w = slotNumber lfs w idx := by
  have hlen : 12 ≤ lfs.slotLen := le_trans (by decide) hs.len
  unfold loadedNumber slotNumber
  rw [lfsLoadCheckpointData_answers hs h1 h2]
  dsimp only
  split_ifs with hv
  · rw [Option.map_some, get32_put32_ne (by omega), get32_congr (readFrame_agree.mono (by omega) (by omega))]
  · rfl

theorem Crashed.read {lfs₀ : Lfs} {w₀ : World} (hdev : Device lfs₀ w₀)
    (h : Crashed env lfs₀ w₀ lfs w idx c) : Slots lfs w ∧
      (∃ last, Alternating (2 ^ 32) (slotNumber lfs w) last ∧ idx = turn last) ∧
      Agree (slotFrame lfs w idx) c 0 lfs.slotLen := by
  have hof : ∀ {w' : World} {idx' : Fin 2} {c' : Bytes}, Newest lfs w' idx' c' → Slots lfs w' ∧
      (∃ last, Alternating (2 ^ 32) (slotNumber lfs w') last ∧ idx' = turn last) ∧
      Agree (slotFrame lfs w' idx') c' 0 lfs.slotLen := by
    intro w' idx' c' hnew
    obtain ⟨last, halt, hidx, -⟩ := hnew.turns
    exact ⟨hnew.slots, ⟨last, halt, hidx⟩, hnew.holds⟩
  cases h with
  | between run => exact hof (run.newest hdev)
  | cut run hsize hleft hother => exact hof ((run.newest hdev).cut hsize hleft hother)
  | complete run hc hsize hnew hother =>
    -- as if the call had returned
    have hticked := (run.newest hdev).write hc tick_sameSlots rfl hsize hnew hother
    obtain ⟨last, halt, hidx, -⟩ := hticked.turns
    rw [tick_sameSlots.slotNumber] at halt
    exact ⟨(run.newest hdev).slots.congr .refl hsize, ⟨last, halt, hidx⟩, hnew⟩

/-- After any writes since `lfs_format`, some of which failed and the last of which may have been cut
short by a crash, the checkpoints never look out of step, and with a device that answers again the
last one that was written completely is loaded. -/
theorem checkpoint_crash_atomic {lfs₀ : Lfs} {w₀ : World} {env' : Env} (hdev : Device lfs₀ w₀)
    (hcrash : Crashed env lfs₀ w₀ lfs w idx c) (hsame : SameSlots lfs lfs') (hdisk : w'.disk = w.disk)
    (hsize : w'.blockSize = w.blockSize) :
    (chooseCheckpoint env' lfs' w').1 ≠ .timestampsBad ∧
    ((∀ n, w'.calls ≤ n → n < w'.calls + 6 → env'.ok n = true) →
      (chooseCheckpoint env' lfs' w').1 = .slot idx ∧
      ∃ d w'', Agree d (c.put32 4 0) 0 lfs.slotLen ∧ ∀ fuel, lfsLoadCheckpoint env' fuel lfs' w' =
        (lfsProcessCheckpoint fuel lfs' d).map fun lfs'' => (OK, lfs'', w'')) := by
  obtain ⟨hs, ⟨last, halt, rfl⟩, hholds⟩ := hcrash.read hdev
  have hs' : Slots lfs' w' := hs.congr hsame hsize
  have hframe : ∀ j, slotFrame lfs' w' j = slotFrame lfs w j := by
    intro j
    apply slotFrame_kept hsame hsize
    intro i _ _
    rw [hdisk]
  have hnumber : slotNumber lfs' w' = slotNumber lfs w :=
    funext fun j => slotNumber_congr hsame (hframe j)
  rw [← hnumber] at halt
  have hnewest := halt.newest_eq (by decide)
  obtain ⟨hdisk₀, hsize₀⟩ := @lfsLoadCheckpointData_world env' lfs' w' 0 hs'
  constructor
  · intro hbad
    obtain ⟨c0, c1, h0, h1⟩ := chooseCheckpoint_bad hbad
    have hn0 := (lfsLoadCheckpointData_some hs' h0).1
    have hn1 := (lfsLoadCheckpointData_some (hs'.congr .refl hsize₀) h1).1
    rw [slotNumber_world hdisk₀ hsize₀] at hn1
    have hslot : (chooseCheckpoint env' lfs' w').1 = .slot (turn last) := by
      apply chooseCheckpoint_newest
      unfold loadedNumber
      rw [h0, h1, Option.map_some, Option.map_some, ← hn0, ← hn1]
      exact hnewest
    rw [hslot] at hbad
    cases hbad
  · intro hok
    have hok₁ : env'.ok w'.next.calls = true := hok (w'.calls + 1) (by omega) (by omega)
    have hok₂ : env'.ok w'.next.next.calls = true := hok (w'.calls + 1 + 1) (by omega) (by omega)
    have hok₃ : env'.ok w'.next.next.next.calls = true := hok (w'.calls + 1 + 1 + 1) (by omega) (by omega)
    have hok₄ : env'.ok w'.next.next.next.next.calls = true :=
      hok (w'.calls + 1 + 1 + 1 + 1) (by omega) (by omega)
    have hok₅ : env'.ok w'.next.next.next.next.next.calls = true :=
      hok (w'.calls + 1 + 1 + 1 + 1 + 1) (by omega) (by omega)
    have hs₂ : Slots lfs' w'.next.next := hs'.congr .refl rfl
    have hs₄ : Slots lfs' w'.next.next.next.next := hs'.congr .refl rfl
    have hfirst := @lfsLoadCheckpointData_answers env' lfs' w' 0 hs' (hok _ (by omega) (by omega)) hok₁
    have hsecond := @lfsLoadCheckpointData_answers env' lfs' w'.next.next 1 hs₂ hok₂ hok₃
    have hslot : (chooseCheckpoint env' lfs' w').1 = .slot (turn last) := by
      apply chooseCheckpoint_newest
      rw [loadedNumber_answers hs' (hok _ (by omega) (by omega)) hok₁, hfirst,
        loadedNumber_answers hs₂ hok₂ hok₃, @slotNumber_world lfs' w' w'.next.next rfl rfl]
      exact hnewest
    have hworld : (chooseCheckpoint env' lfs' w').2 = w'.next.next.next.next := by
      unfold chooseCheckpoint
      rw [hfirst]
      dsimp only
      rw [hsecond]
    -- the slot is read once more
    have hvalid : Valid lfsCheckpointMagic lfs'.slotLen
        (slotFrame lfs' w'.next.next.next.next (turn last)) := by
      by_contra hv
      have hcurrent := halt.current
      rw [← @slotNumber_world lfs' w' w'.next.next.next.next rfl rfl] at hcurrent
      unfold slotNumber at hcurrent
      rw [if_neg hv] at hcurrent
      cases hcurrent
    have hthird := @lfsLoadCheckpointData_answers env' lfs' _ (turn last) hs₄ hok₄ hok₅
    rw [if_pos hvalid] at hthird
    refine ⟨hslot, (readFrame env' lfs' w'.next.next.next.next (turn last)).put32 4 0,
      w'.next.next.next.next.next.next, ?_, ?_⟩
    · have hread : Agree (readFrame env' lfs' w'.next.next.next.next (turn last)) c 0 lfs.slotLen := by
        have hagree := @readFrame_agree env' lfs' w'.next.next.next.next (turn last)
        have hsame' : slotFrame lfs' w'.next.next.next.next (turn last) = slotFrame lfs w (turn last) :=
          hframe (turn last)
        rw [hsame', hsame.slotLen] at hagree
        exact hagree.trans hholds
      exact hread.put32
    · intro fuel
      unfold lfsLoadCheckpoint
      cases hchoose : chooseCheckpoint env' lfs' w' with
      | mk choice w₄ =>
        rw [hchoose] at hslot hworld
        subst hslot hworld
        dsimp only
        rw [hthird]

def secondCheckpoint (f : Option (ℤ × Lfs × World)) : Option (ℤ × ℤ × Fin 2 × Fin 2) :=
  f.bind fun x => (lfsWriteCheckpoint calmEnv 3 x.2.1 x.2.2).map fun y =>
    (x.1, y.1, x.2.1.nextSlot, y.2.1.nextSlot)

theorem secondCheckpoint_eq {f : Option (ℤ × Lfs × World)} {r r' : ℤ} {i j : Fin 2}
    (h : secondCheckpoint f = some (r, r', i, j)) : ∃ start w lfs w', f = some (r, start, w) ∧
      lfsWriteCheckpoint calmEnv 3 start w = some (r', lfs, w') ∧ start.nextSlot = i ∧ lfs.nextSlot = j := by
  obtain ⟨⟨r₁, start, w⟩, hf, h⟩ := Option.bind_eq_some_iff.mp h
  obtain ⟨⟨r₂, lfs, w'⟩, hwrite, he⟩ := Option.map_eq_some_iff.mp h
  injection he with hr he
  injection he with hr' he
  injection he with hi hj
  subst hr hr' hi hj
  exact ⟨start, w, lfs, w', hf, hwrite, rfl, rfl⟩

theorem checkpoint_crash_atomic_torn : ∃ lfs w c, Crashed calmEnv blankLfs blankWorld lfs w 1 c ∧
    ¬ SlotValid lfs w 0 ∧ (chooseCheckpoint calmEnv lfs w).1 = .slot 1 := by
  have heval : secondCheckpoint (lfsFormat calmEnv 3 blankLfs blankWorld) = some (OK, OK, 1, 0) := by
    decide +kernel
  obtain ⟨start, w₁, lfs, w, hformat, hwrite, hfirst, hnext⟩ := secondCheckpoint_eq heval
  have hdev : Device blankLfs blankWorld := ⟨rfl, by decide⟩
  obtain ⟨c₁, hc₁, -⟩ := newest_format hdev hformat
  obtain ⟨c, hc⟩ : ∃ c, checkpoint 3 start = some c := by
    rcases lfsWriteCheckpoint_ok hwrite with ⟨hr, -⟩ | ⟨c, hc, -⟩
    · cases hr
    · exact ⟨c, hc⟩
  have hrun : Written calmEnv blankLfs blankWorld lfs w 1 c :=
    hfirst ▸ (Written.format hformat hc₁).succeed hwrite hc
  have hslots : Slots lfs w := (hrun.newest hdev).slots
  have hlen : 4096 ≤ lfs.slotLen := hslots.len
  set torn : World := { w with disk := w.disk.put32 (lfs.slotByte w 0) 0 } with htorn
  have hlost : ¬ SlotValid lfs torn 0 := by
    intro hvalid
    have hbyte : ∀ i < 4, slotFrame lfs torn 0 (0 + i) = torn.disk (lfs.slotByte w 0 + i) := by
      intro i hi
      rw [Nat.zero_add]
      exact copy_inside i (Nat.zero_le i) (by omega)
    have hread : (slotFrame lfs torn 0).get32 0 = torn.disk.get32 (lfs.slotByte w 0) := by
      simp only [get32]
      rw [hbyte 1 (by decide), hbyte 2 (by decide), hbyte 3 (by decide)]
      rw [show slotFrame lfs torn 0 0 = _ from hbyte 0 (by decide)]
      rfl
    rw [htorn, get32_put32_same] at hread
    rw [hvalid.1] at hread
    exact absurd hread (by decide)
  have hother : ∀ j, j ≠ lfs.nextSlot → SlotKept lfs w torn j := by
    intro j hj i hi hi'
    rw [hnext] at hj
    have hap := hslots.apart j 0 hj
    exact put32_outside _ (by omega)
  have hcrash : Crashed calmEnv blankLfs blankWorld lfs torn 1 c :=
    .cut hrun rfl (.inr (hnext.symm ▸ hlost)) hother
  exact ⟨lfs, torn, c, hcrash, hlost, ((checkpoint_crash_atomic hdev hcrash .refl rfl rfl).2 fun _ _ _ => rfl).1⟩

end Loading

end Agatha.Fs
