import Agatha.Library.Areas
import Agatha.Fs.CheckpointRuns

namespace Agatha.Fs

open Library Library.Bytes Library.Areas

inductive Region where
  | super
  | slot (idx : Fin 2)
  | seg (i : ℕ)
  deriving DecidableEq

namespace Region

variable (l : Lfs)

def start : Region → ℕ
  | super => 0
  | slot idx => l.checkpointBlk idx
  | seg i => l.segStart + i * lfsSegBlks

def blks : Region → ℕ
  | super => 1
  | slot _ => l.checkpointBlks
  | seg _ => lfsSegBlks

def present : Region → Prop
  | seg i => i < l.nSegs
  | _ => True

end Region

structure WellLaidOut (l : Lfs) : Prop where
  apart : ∀ r s : Region, r.present l → s.present l → r ≠ s → Apart (r.start l) (r.blks l) (s.start l) (s.blks l)
  inside : ∀ r : Region, r.present l → (r.start l + r.blks l) * l.secPerBlk ≤ l.partLen
  room : 20 + 4 * l.nSegs ≤ l.checkpointBlks * lfsBlkSize
  segs : 0 < l.nSegs
  inodes : 0 < l.nInodes

variable {env : Env} {fuel n : ℕ} {lfs lfs' l : Lfs} {w w' : World} {c : Bytes}

def Lfs.partBytes (lfs : Lfs) : ℕ := lfs.partLen * lfs.secSize % 2 ^ 32

section Numbers

structure LayoutNumbers (lfs l : Lfs) : Prop extends LaidOut lfs l where
  partLen : l.partLen = lfs.partLen
  segStart : l.segStart = lfsSegBlks
  nSegs : l.nSegs = usefulLen lfs lfsSegBlks / 1048576
  nInodes : l.nInodes = l.nSegs * 255 / 2
  room : 24 + 4 * l.nSegs ≤ l.checkpointBlks * lfsBlkSize

theorem formatLayout_numbers : LayoutNumbers lfs (formatLayout lfs) := by
  have hlaid : LaidOut lfs (formatLayout lfs) := formatLayout_laidOut
  have hseg : lfsSegBlks * lfsBlkSize = 1048576 := rfl
  have hblks : (formatLayout lfs).checkpointBlks =
      alignUp (20 + 4 + 4 * (usefulLen lfs lfsSegBlks / (lfsSegBlks * lfsBlkSize))) lfsBlkSize / lfsBlkSize := rfl
  have hsize : alignUp (20 + 4 + 4 * (usefulLen lfs lfsSegBlks / (lfsSegBlks * lfsBlkSize))) lfsBlkSize =
      (formatLayout lfs).checkpointBlks * lfsBlkSize := by
    rw [hblks]
    exact (Nat.div_mul_cancel ⟨_, Nat.mul_comm ..⟩).symm
  have hstart : (formatLayout lfs).segStart = lfsSegBlks := by
    have hle := hlaid.le
    dsimp only [formatLayout]
    rw [if_neg]
    rw [hsize, hseg]
    unfold lfsBlkSize
    omega
  have hn : (formatLayout lfs).nSegs = usefulLen lfs lfsSegBlks / (lfsSegBlks * lfsBlkSize) := by
    have he : (formatLayout lfs).nSegs =
        alignDown (usefulLen lfs (formatLayout lfs).segStart) (lfsSegBlks * lfsBlkSize) / (lfsSegBlks * lfsBlkSize) := by
      dsimp only [formatLayout]
    rw [he, hstart]
    exact Nat.mul_div_cancel _ (by decide)
  have hroom : 24 + 4 * (formatLayout lfs).nSegs ≤ (formatLayout lfs).checkpointBlks * lfsBlkSize := by
    rw [hn, ← hsize]
    unfold alignUp lfsBlkSize
    omega
  refine ⟨hlaid, ?_, hstart, hn.trans (by rw [hseg]), rfl, hroom⟩
  cases lfs
  rfl

theorem usefulLen_first : usefulLen lfs lfsSegBlks =
    if 1048576 ≤ lfs.partBytes then lfs.partBytes - 1048576 else lfs.partBytes + 4293918720 := by
  have hlt : lfs.partBytes < 2 ^ 32 := Nat.mod_lt _ (by decide)
  have hseg : lfsSegBlks * lfsBlkSize % 2 ^ 32 = 1048576 := rfl
  unfold usefulLen
  rw [hseg]
  change (lfs.partBytes + 2 ^ 32 - 1048576) % 2 ^ 32 = _
  split_ifs <;> omega

/-- The length that makes a layout: two segments' worth at least, as the program counts it, or so little that the
subtraction wraps in a partition that is really longer than the program counts. -/
def GoodLength (size : ℕ) : Prop := 2097152 ≤ size % 2 ^ 32 ∨ size % 2 ^ 32 < 1048576 ∧ 2 ^ 32 ≤ size

theorem LayoutNumbers.slot_le (h : LayoutNumbers lfs l) (idx : Fin 2) :
    Region.start l (.slot idx) + Region.blks l (.slot idx) ≤ lfsSegBlks := by
  have hle := h.le
  have hs : lfsSegBlks = 256 := rfl
  simp only [Region.start, Region.blks, h.checkpointBlk]
  have hmul := Nat.mul_le_mul_right l.checkpointBlks (Nat.le_of_lt_succ idx.isLt)
  omega

theorem LayoutNumbers.super_le (h : LayoutNumbers lfs l) {r : Region} (hr : r ≠ .super) :
    Region.start l .super + Region.blks l .super ≤ r.start l := by
  have hs : lfsSegBlks = 256 := rfl
  cases r with
  | super => exact absurd rfl hr
  | slot idx =>
    simp only [Region.start, Region.blks, h.checkpointBlk]
    omega
  | seg i =>
    simp only [Region.start, Region.blks, h.segStart, hs]
    omega

theorem LayoutNumbers.slot_seg (h : LayoutNumbers lfs l) (idx : Fin 2) (i : ℕ) :
    Region.start l (.slot idx) + Region.blks l (.slot idx) ≤ Region.start l (.seg i) := by
  apply (h.slot_le idx).trans
  simp only [Region.start, h.segStart]
  omega

theorem LayoutNumbers.slots_apart (h : LayoutNumbers lfs l) {idx idx' : Fin 2} (hne : idx ≠ idx') :
    Apart (Region.start l (.slot idx)) (Region.blks l (.slot idx)) (Region.start l (.slot idx'))
      (Region.blks l (.slot idx')) := by
  have hval : idx.val ≠ idx'.val := fun he => hne (Fin.ext he)
  have hidx := idx.isLt
  have hidx' := idx'.isLt
  simp only [Apart, Region.start, Region.blks, h.checkpointBlk]
  rcases (by omega : idx.val = 0 ∧ idx'.val = 1 ∨ idx.val = 1 ∧ idx'.val = 0) with ⟨h0, h1⟩ | ⟨h0, h1⟩
  all_goals
    rw [h0, h1]
    omega

theorem LayoutNumbers.apart (h : LayoutNumbers lfs l) {r s : Region} (hne : r ≠ s) :
    Apart (r.start l) (r.blks l) (s.start l) (s.blks l) := by
  cases r with
  | super => exact .inl (h.super_le hne.symm)
  | slot idx =>
    cases s with
    | super => exact .inr (h.super_le hne)
    | slot idx' => exact h.slots_apart fun he => hne (congrArg _ he)
    | seg i => exact .inl (h.slot_seg idx i)
  | seg i =>
    cases s with
    | super => exact .inr (h.super_le hne)
    | slot idx => exact .inr (h.slot_seg idx i)
    | seg j =>
      have hij : i ≠ j := fun he => hne (congrArg _ he)
      have hs : lfsSegBlks = 256 := rfl
      simp only [Apart, Region.start, Region.blks, h.segStart, hs]
      omega

theorem LayoutNumbers.wellLaidOut_iff (h : LayoutNumbers lfs l) (hsec : lfs.secPerBlk * lfs.secSize = lfsBlkSize) :
    WellLaidOut l ↔ GoodLength (lfs.partLen * lfs.secSize) := by
  have hb : lfsBlkSize = 4096 := rfl
  have hs : lfsSegBlks = 256 := rfl
  have hn := h.nSegs
  rw [usefulLen_first] at hn
  have hbytes : lfs.partBytes = lfs.partLen * lfs.secSize % 2 ^ 32 := rfl
  have hpos : 0 < lfs.secSize := by
    apply Nat.pos_of_ne_zero
    intro h0
    rw [h0, Nat.mul_zero] at hsec
    cases hsec
  -- in bytes
  have hin : ∀ b : ℕ, b * l.secPerBlk ≤ l.partLen ↔ b * 4096 ≤ lfs.partLen * lfs.secSize := by
    intro b
    rw [h.secPerBlk, h.partLen, ← hb, ← hsec, ← Nat.mul_assoc]
    exact (Nat.mul_le_mul_right_iff hpos).symm
  have hend : ∀ r : Region, r.present l → r.start l + r.blks l ≤ 256 + 256 * l.nSegs := by
    intro r hr
    cases r with
    | super =>
      simp only [Region.start, Region.blks]
      omega
    | slot idx =>
      have hslot := h.slot_le idx
      omega
    | seg i =>
      have hi : i < l.nSegs := hr
      simp only [Region.start, Region.blks, h.segStart, hs]
      omega
  unfold GoodLength
  rw [← hbytes]
  generalize lfs.partLen * lfs.secSize = size at hin hbytes
  constructor
  · intro hw
    have hlast : Region.present l (.seg (l.nSegs - 1)) := Nat.sub_lt hw.segs (by decide)
    have hins := (hin _).mp (hw.inside _ hlast)
    have hsegs := hw.segs
    simp only [Region.start, Region.blks, h.segStart, hs] at hins
    split_ifs at hn <;> omega
  · intro hg
    have hcount : 0 < l.nSegs ∧ 1048576 * (l.nSegs + 1) ≤ size := by
      split_ifs at hn <;> omega
    refine ⟨fun _ _ _ _ hne => h.apart hne, fun r hr => ?_, ?_, hcount.1, ?_⟩
    · have := hend r hr
      apply (hin _).mpr
      omega
    · have := h.room
      omega
    · rw [h.nInodes]
      omega

end Numbers

section Runs

theorem mount_tick_wellLaidOut : WellLaidOut l.mount.tick ↔ WellLaidOut l := by
  have hfields : l.mount.tick.checkpointBlk = l.checkpointBlk ∧ l.mount.tick.checkpointBlks = l.checkpointBlks ∧
      l.mount.tick.segStart = l.segStart ∧ l.mount.tick.nSegs = l.nSegs ∧ l.mount.tick.nInodes = l.nInodes ∧
      l.mount.tick.secPerBlk = l.secPerBlk ∧ l.mount.tick.partLen = l.partLen := by
    unfold Lfs.mount initInodes
    rw [initSegs_eq]
    exact ⟨rfl, rfl, rfl, rfl, rfl, rfl, rfl⟩
  obtain ⟨h1, h2, h3, h4, h5, h6, h7⟩ := hfields
  have hstart : ∀ r, Region.start l.mount.tick r = Region.start l r := fun r => by
    cases r <;> simp only [Region.start, h1, h3]
  have hblks : ∀ r, Region.blks l.mount.tick r = Region.blks l r := fun r => by
    cases r <;> simp only [Region.blks, h2]
  have hpresent : ∀ r, Region.present l.mount.tick r ↔ Region.present l r := fun r => by
    cases r <;> simp only [Region.present, h4]
  constructor
  · rintro ⟨ha, hi, hr, hs, hn⟩
    simp only [hstart, hblks, hpresent, h2, h4, h5, h6, h7] at ha hi hr hs hn
    exact ⟨ha, hi, hr, hs, hn⟩
  · rintro ⟨ha, hi, hr, hs, hn⟩
    constructor
    all_goals simpa only [hstart, hblks, hpresent, h2, h4, h5, h6, h7]

theorem fillSegList_fresh {len i : ℕ} {value : Segment → ℕ} (hn : l.nSegs = n)
    (hseg : l.segments = freshSegments n lfs.segments) (hlen : 24 + 4 * n ≤ len) (hfuel : n - i < fuel) :
    ∃ c', fillSegList l len value fuel (if i < n then some i else none) c = some c' := by
  induction fuel generalizing i c with
  | zero => omega
  | succ fuel ih =>
    by_cases hi : i < n
    · have hfields : l.segments i = { index := i, next := if i + 1 < n then some (i + 1) else none } := by
        rw [hseg]
        exact if_pos hi
      rw [if_pos hi, fillSegList, hfields, if_neg (by dsimp only; omega)]
      exact ih (by omega)
    · rw [if_neg hi]
      exact ⟨c, rfl⟩

theorem lfsWriteCheckpoint_mount (env : Env) (w : World) (hlen : 24 + 4 * l.nSegs ≤ l.checkpointBlks * lfsBlkSize)
    (hfuel : l.nSegs < fuel) : ∃ r lfs' w', lfsWriteCheckpoint env fuel l.mount w = some (r, lfs', w') ∧
      (r = ERR ∨ r = OK) ∧ ((∀ n, env.ok n = true) → r = OK) := by
  obtain ⟨h1, -, h2, h3, h4, h5⟩ := @mount_segs l
  have hfill : ∀ c, ∃ c', lfsCheckpointFillSegs fuel l.mount c = some c' := by
    intro c
    obtain ⟨fuel, rfl⟩ : ∃ m, fuel = m + 1 := Nat.exists_eq_add_of_le' (by omega)
    obtain ⟨c', hc'⟩ := @fillSegList_fresh (fuel + 1) l.nSegs l l.mount ((c.put32 12 lfsSegFree).put32 16 lfsSegFree)
      (l.checkpointBlks * lfsBlkSize) 0 (fun _ => lfsSegFree) h3 h4 hlen hfuel
    refine ⟨c', ?_⟩
    unfold lfsCheckpointFillSegs
    rw [h1, h2, h5]
    exact hc'
  unfold lfsWriteCheckpoint
  by_cases hok : env.ok w.calls = false
  · rw [if_pos hok]
    exact ⟨_, _, _, rfl, .inl rfl, fun h => absurd (h _) (by rw [hok]; decide)⟩
  · rw [if_neg hok]
    obtain ⟨c', hc'⟩ := hfill ((zeros.put32 0 lfsCheckpointMagic).put32 4 0)
    simp only [hc', blockWrite]
    by_cases hw : env.ok w.next.calls = true
    · simp only [hw]
      exact ⟨_, _, _, rfl, .inr rfl, fun _ => rfl⟩
    · simp only [Bool.eq_false_of_not_eq_true hw]
      exact ⟨_, _, _, rfl, .inl rfl, fun h => absurd (h _) hw⟩

theorem zeroBlks_calm {first : ℕ} (hok : ∀ n, env.ok n = true) : (zeroBlks env lfs first n w).1 = true := by
  induction n with
  | zero => rfl
  | succ n ih =>
    unfold zeroBlks
    split
    · rename_i w₁ hw₁
      rw [hw₁] at ih
      cases ih
    · exact hok _

theorem zeroCheckpoints_calm (hok : ∀ n, env.ok n = true) : (zeroCheckpoints env l w).1 = true := by
  unfold zeroCheckpoints
  split
  · rename_i w₁ hw₁
    have hz := @zeroBlks_calm env l.checkpointBlks l w (l.checkpointBlk 0) hok
    rw [hw₁] at hz
    cases hz
  · exact zeroBlks_calm hok

theorem lfsInit_cases (env : Env) (l : Lfs) (w : World) :
    (∃ w', lfsInit env l w = (ERR, { l with mounted := false }, w') ∧ ¬ ∀ n, env.ok n = true) ∨
    ∃ w', lfsInit env l w = (OK, l.mount, w') := by
  unfold lfsInit
  by_cases h1 : env.ok w.calls = false
  · exact .inl ⟨_, if_pos h1, fun h => by rw [h] at h1; cases h1⟩
  rw [if_neg h1]
  by_cases h2 : env.ok w.next.calls = false
  · exact .inl ⟨_, if_pos h2, fun h => by rw [h] at h2; cases h2⟩
  rw [if_neg h2]
  by_cases h3 : env.ok w.next.next.calls = false
  · exact .inl ⟨_, if_pos h3, fun h => by rw [h] at h3; cases h3⟩
  exact .inr ⟨_, if_neg h3⟩

theorem lfsWriteSuperblock_cases (env : Env) (l : Lfs) (w : World) :
    (∃ w', lfsWriteSuperblock env l w = (ERR, w') ∧ ¬ ∀ n, env.ok n = true) ∨
    ∃ w', lfsWriteSuperblock env l w = (OK, w') := by
  unfold lfsWriteSuperblock
  by_cases h1 : env.ok w.calls = false
  · exact .inl ⟨_, if_pos h1, fun h => by rw [h] at h1; cases h1⟩
  rw [if_neg h1]
  by_cases h2 : env.ok w.next.calls = false
  · exact .inl ⟨_, if_pos h2, fun h => by rw [h] at h2; cases h2⟩
  rw [if_neg h2]
  by_cases h3 : env.ok w.next.next.calls = true
  · simp only [blockWrite, h3]
    exact .inr ⟨_, rfl⟩
  · simp only [blockWrite, Bool.eq_false_of_not_eq_true h3]
    exact .inl ⟨_, rfl, fun h => h3 (h _)⟩

theorem formatLaidOut_total (env : Env) (w : World) (hlen : 24 + 4 * l.nSegs ≤ l.checkpointBlks * lfsBlkSize)
    (hfuel : l.nSegs < fuel) : ∃ r lfs' w', formatLaidOut env fuel l w = some (r, lfs', w') ∧
      (r = ERR ∨ r = OK) ∧ ((∀ n, env.ok n = true) → r = OK) := by
  unfold formatLaidOut
  by_cases h1 : env.ok w.calls = false
  · rw [if_pos h1]
    exact ⟨_, _, _, rfl, .inl rfl, fun h => by rw [h] at h1; cases h1⟩
  rw [if_neg h1]
  by_cases h2 : env.ok w.next.calls = false
  · rw [if_pos h2]
    exact ⟨_, _, _, rfl, .inl rfl, fun h => by rw [h] at h2; cases h2⟩
  rw [if_neg h2]
  cases hz : zeroCheckpoints env l w.next.next with
  | mk z w₁ =>
    cases z with
    | false =>
      refine ⟨_, _, _, rfl, .inl rfl, fun h => ?_⟩
      have hcalm := @zeroCheckpoints_calm env l w.next.next h
      rw [hz] at hcalm
      cases hcalm
    | true =>
      dsimp only
      rcases lfsInit_cases env l w₁ with ⟨w₂, hi, hbad⟩ | ⟨w₂, hi⟩
      · rw [hi]
        exact ⟨_, _, _, rfl, .inl rfl, fun h => absurd h hbad⟩
      · rw [hi]
        dsimp only
        rw [if_neg (not_not.mpr rfl)]
        rcases lfsWriteSuperblock_cases env l.mount w₂ with ⟨w₃, hs, hbad⟩ | ⟨w₃, hs⟩
        · rw [hs]
          exact ⟨_, _, _, rfl, .inl rfl, fun h => absurd h hbad⟩
        · rw [hs]
          dsimp only
          rw [if_neg (not_not.mpr rfl)]
          exact lfsWriteCheckpoint_mount env w₃ hlen hfuel

theorem lfsFormat_wellLaidOut (h : lfsFormat env fuel lfs w = some (OK, lfs', w')) :
    WellLaidOut lfs' ↔ WellLaidOut (formatLayout { lfs with mounted := false }) := by
  obtain ⟨w₁, w₂, -, -, hwrite⟩ := formatLaidOut_ok (lfsFormat_ok h)
  rcases lfsWriteCheckpoint_ok hwrite with ⟨hr, -, -⟩ | ⟨c, -, -, ⟨-, rfl⟩ | ⟨hr, -⟩⟩
  · cases hr
  · exact mount_tick_wellLaidOut
  · cases hr

/-- On a partition that was set up, `lfs_format` returns; whatever the calls answer, it fails or leaves a good layout
behind, just if the partition has a good length. -/
theorem format_layout {partOff partLen : ℕ} (hs : lfsSetup env partOff partLen lfs w = (OK, l, w'))
    (hdvd : w.blockSize ∣ lfsBlkSize) :
    (∀ (env : Env) (fuel : ℕ) (w : World), 4096 ≤ fuel → ∃ r lfs' w',
      lfsFormat env fuel l w = some (r, lfs', w') ∧ (r = ERR ∨ WellLaidOut lfs')) ↔
    GoodLength (partLen * w.blockSize) := by
  have hl : l = { lfs with
      partOff := partOff, partLen := partLen, mounted := false, secSize := w.blockSize
      secPerBlk := lfsBlkSize / w.blockSize } := by
    unfold lfsSetup at hs
    split_ifs at hs
    · cases hs
    · cases hs
      rfl
  have hsize : l.partLen * l.secSize = partLen * w.blockSize := by rw [hl]
  have hsec : l.secPerBlk * l.secSize = lfsBlkSize := by
    rw [hl]
    exact Nat.div_mul_cancel hdvd
  have hfree : lfsFree l = some { l with mounted := false } := by
    rw [hl]
    exact if_neg fun h => by cases h.1
  have hformat : ∀ env fuel w, lfsFormat env fuel l w =
      formatLaidOut env fuel (formatLayout { l with mounted := false }) w := by
    intro env fuel w
    unfold lfsFormat
    rw [hfree]
  have hnum := @formatLayout_numbers { l with mounted := false }
  have hiff : WellLaidOut (formatLayout { l with mounted := false }) ↔ GoodLength (partLen * w.blockSize) :=
    hsize ▸ hnum.wellLaidOut_iff hsec
  have hcount : (formatLayout { l with mounted := false }).nSegs < 4096 := by
    have hn := hnum.nSegs
    have hlt : usefulLen { l with mounted := false } lfsSegBlks < 2 ^ 32 := Nat.mod_lt _ (by decide)
    omega
  have htotal : ∀ env fuel w, 4096 ≤ fuel → _ := fun env fuel w hfuel =>
    @formatLaidOut_total fuel _ env w hnum.room (hcount.trans_le hfuel)
  rw [← hiff]
  constructor
  · intro h
    obtain ⟨r, lfs', w₁, heq, -, hcalm⟩ := htotal { ok := fun _ => true, junk := fun _ => zeros } 4096 w le_rfl
    obtain rfl := hcalm fun _ => rfl
    obtain ⟨r, lfs₂, w₂, heq₂, hgood⟩ := h { ok := fun _ => true, junk := fun _ => zeros } 4096 w le_rfl
    rw [hformat, heq] at heq₂
    cases heq₂
    have hlaid := hgood.resolve_left (by decide)
    exact (lfsFormat_wellLaidOut ((hformat ..).trans heq)).mp hlaid
  · intro h env fuel w hfuel
    obtain ⟨r, lfs', w₁, heq, hr, -⟩ := htotal env fuel w hfuel
    refine ⟨r, lfs', w₁, (hformat ..).trans heq, ?_⟩
    rcases hr with rfl | rfl
    · exact .inl rfl
    · exact .inr ((lfsFormat_wellLaidOut ((hformat ..).trans heq)).mpr h)

theorem format_layout_two_segments : ∃ r lfs' w',
    lfsFormat calmEnv 4096 (lfsSetup calmEnv 0 4096 blankLfs blankWorld).2.1 blankWorld = some (r, lfs', w') ∧
      (r = ERR ∨ WellLaidOut lfs') :=
  (format_layout (rfl : lfsSetup calmEnv 0 4096 blankLfs blankWorld = (OK, _, _)) ⟨8, by decide⟩).mpr
    (.inl (by decide)) calmEnv 4096 blankWorld le_rfl

theorem format_layout_no_segment : ∃ lfs' w',
    lfsFormat calmEnv 1 (lfsSetup calmEnv 0 2048 blankLfs blankWorld).2.1 blankWorld = some (OK, lfs', w') ∧
      ¬ WellLaidOut lfs' := by
  have heval : (lfsFormat calmEnv 1 (lfsSetup calmEnv 0 2048 blankLfs blankWorld).2.1 blankWorld).map
      (fun x => (x.1, x.2.1.nSegs)) = some (OK, 0) := by
    decide +kernel
  obtain ⟨⟨r, lfs', w'⟩, hformat, he⟩ := Option.map_eq_some_iff.mp heval
  obtain ⟨rfl, hn⟩ := Prod.mk.inj he
  exact ⟨lfs', w', hformat, fun h => absurd h.segs (by rw [hn]; decide)⟩

end Runs

end Agatha.Fs
