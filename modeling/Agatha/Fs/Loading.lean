import Agatha.Fs.CheckpointLists
import Agatha.Fs.Durability
import Agatha.Fs.Layout

namespace Agatha.Fs

open Library Library.Bytes Library.LinkedList

structure Lfs.Words (lfs : Lfs) : Prop where
  nSegs : lfs.nSegs < 2 ^ 32
  nInodes : lfs.nInodes < 2 ^ 32
  checkpointBlks : lfs.checkpointBlks < 2 ^ 32
  checkpointBlk : ∀ idx, lfs.checkpointBlk idx < 2 ^ 32
  segStart : lfs.segStart < 2 ^ 32

structure SameNumbers (lfs lfs' : Lfs) : Prop where
  layout : SameLayout lfs lfs'
  index : ∀ s, (lfs'.segments s).index = (lfs.segments s).index

variable {env : Env} {lfs lfs' lfs₀ lfs₁ : Lfs} {w w' w₀ w₁ : World} {c d : Bytes} {idx : Fin 2} {fuel fuel' i tail : ℕ}
  {l xs ys : List ℕ} {recs : ℕ → List Record} {x : Segment} {r : ℤ}

section Superblock

theorem superblock_words : (superblock lfs).get32 8 = lfs.nSegs % 2 ^ 32 ∧ (superblock lfs).get32 12 = lfs.nInodes % 2 ^ 32 ∧
    (superblock lfs).get32 16 = lfs.checkpointBlks % 2 ^ 32 ∧
    (superblock lfs).get32 20 = lfs.checkpointBlk 0 % 2 ^ 32 ∧ (superblock lfs).get32 24 = lfs.checkpointBlk 1 % 2 ^ 32 ∧
    (superblock lfs).get32 28 = lfs.segStart % 2 ^ 32 := by
  unfold superblock
  dsimp only
  refine ⟨?_, ?_, ?_, ?_, ?_, ?_⟩
  all_goals simp (disch := omega) only [get32_put32_ne, get32_put32_same]

theorem Logged.words (h : Logged lfs w xs ys l recs) (hn : 0 < lfs.nSegs) : lfs.Words := by
  have hsmall := h.segs.small
  have hfew := h.few
  have hsectors := h.reach.sectors
  unfold lfsSegEnd at hsmall
  unfold lfsBlkInode at hfew
  have hstart : lfs.segStart < 2 ^ 32 := by
    have hle : lfs.segStart + lfs.nSegs * lfsSegBlks ≤ (lfs.segStart + lfs.nSegs * lfsSegBlks) * lfs.secPerBlk :=
      Nat.le_mul_of_pos_right _ h.device.secPerBlk_pos
    unfold lfsSegBlks at hle hsectors
    omega
  have hslot := fun idx => (h.reach.slots idx).2
  have hzero := hslot 0
  refine ⟨by omega, by omega, by omega, fun idx => ?_, hstart⟩
  have hidx := hslot idx
  omega

def Lfs.withSuper (lfs₀ lfs : Lfs) : Lfs :=
  { lfs₀ with
    nSegs := lfs.nSegs, nInodes := lfs.nInodes, checkpointBlks := lfs.checkpointBlks, checkpointBlk := lfs.checkpointBlk
    segStart := lfs.segStart }

theorem lfsLoadSuperblock_ok (hok : ∀ n, env.ok n = true) (hd : lfs₀.secPerBlk * w.blockSize = lfsBlkSize)
    (hsuper : Agree (onDisk w lfs₀.partOff) (superblock lfs) 0 lfsBlkSize) (hw : lfs.Words) :
    ∃ w', lfsLoadSuperblock env lfs₀ w = (OK, lfs₀.withSuper lfs, w') ∧ SameDisk w w' := by
  have hvalid : Valid lfsSuperblockMagic lfsBlkSize (onDisk w.next lfs₀.partOff) :=
    superblock_valid.congr (Agree.symm hsuper) (by decide)
  obtain ⟨c, w₁, hload, hs, hagree⟩ := @loadChecked_ok env w.next _ _ lfs₀.secPerBlk _ hok (le_of_eq hd.symm)
    (by decide) hvalid
  have hword : ∀ p, 8 ≤ p → p + 4 ≤ lfsBlkSize → c.get32 p = (superblock lfs).get32 p := by
    intro p h1 h2
    rw [get32_eq hagree h1 (by unfold lfsBlkSize at h2 ⊢; omega)]
    exact get32_eq hsuper (Nat.zero_le p) (by omega)
  obtain ⟨h8, h12, h16, h20, h24, h28⟩ := @superblock_words lfs
  refine ⟨w₁, ?_, SameDisk.next.trans hs⟩
  unfold lfsLoadSuperblock
  rw [if_neg (by rw [hok]; decide), hload]
  dsimp only
  have hslots : (fun i : Fin 2 => c.get32 (20 + 4 * i.val)) = lfs.checkpointBlk := by
    funext i
    rcases Fin.exists_fin_two.mp ⟨i, rfl⟩ with rfl | rfl
    · exact ((hword 20 (by decide) (by decide)).trans h20).trans (Nat.mod_eq_of_lt (hw.checkpointBlk 0))
    · exact ((hword 24 (by decide) (by decide)).trans h24).trans (Nat.mod_eq_of_lt (hw.checkpointBlk 1))
  rw [hslots, hword 8 (by decide) (by decide), hword 12 (by decide) (by decide), hword 16 (by decide) (by decide),
    hword 28 (by decide) (by decide), h8, h12, h16, h28, Nat.mod_eq_of_lt hw.nSegs, Nat.mod_eq_of_lt hw.nInodes,
    Nat.mod_eq_of_lt hw.checkpointBlks, Nat.mod_eq_of_lt hw.segStart]
  rfl

theorem mount_layout : SameLayout lfs lfs.mount := by
  unfold Lfs.mount initInodes
  rw [initSegs_eq]
  exact ⟨rfl, rfl, rfl, rfl, rfl, rfl, rfl⟩

theorem mount_numbers (s : ℕ) (hs : s < lfs.mount.nSegs) : (lfs.mount.segments s).index = s := by
  obtain ⟨-, -, -, hn, hfresh, -⟩ := @mount_segs lfs
  rw [hn] at hs
  rw [hfresh]
  exact congrArg Segment.index (if_pos hs)

theorem lfsInit_ok (hok : ∀ n, env.ok n = true) : lfsInit env lfs w = (OK, lfs.mount, w.next.next.next) := by
  unfold lfsInit
  rw [if_neg (by rw [hok]; decide), if_neg (by rw [hok]; decide), if_neg (by rw [hok]; decide)]
  rfl

end Superblock

section Checkpoints

theorem Newest.load (h : Newest lfs w idx c) (hsame : SameSlots lfs lfs') (hs : SameDisk w w')
    (hok : ∀ n, env.ok n = true) : ∃ d w'', Agree d (c.put32 4 0) 0 lfs.slotLen ∧ SameDisk w' w'' ∧
      ∀ fuel, lfsLoadCheckpoint env fuel lfs' w' = (lfsProcessCheckpoint fuel lfs' d).map fun l => (OK, l, w'') := by
  obtain ⟨last, halt, rfl, -⟩ := h.turns
  have hslots : ∀ {w₁}, w₁.blockSize = w'.blockSize → Slots lfs' w₁ := fun hw =>
    h.slots.congr hsame (hw.trans hs.blockSize)
  have hframe : ∀ j, slotFrame lfs' w' j = slotFrame lfs w j := by
    intro j
    apply slotFrame_kept hsame hs.blockSize
    intro i _ _
    rw [hs.disk]
  have hnumber : slotNumber lfs' w' = slotNumber lfs w :=
    funext fun j => slotNumber_congr hsame (hframe j)
  rw [← hnumber] at halt
  have hfirst := @lfsLoadCheckpointData_answers env lfs' w' 0 (hslots rfl) (hok _) (hok _)
  have hsecond := @lfsLoadCheckpointData_answers env lfs' w'.next.next 1 (hslots rfl) (hok _) (hok _)
  have hchoose : chooseCheckpoint env lfs' w' = (.slot (turn last), w'.next.next.next.next) := by
    apply Prod.ext
    · apply chooseCheckpoint_newest
      rw [hfirst, @loadedNumber_answers env lfs' w' 0 (hslots rfl) (hok _) (hok _),
        @loadedNumber_answers env lfs' w'.next.next 1 (hslots rfl) (hok _) (hok _),
        @slotNumber_world lfs' w' w'.next.next rfl rfl]
      exact halt.newest_eq (by decide)
    · unfold chooseCheckpoint
      rw [hfirst]
      dsimp only
      rw [hsecond]
  -- the slot is read once more
  have hvalid : Valid lfsCheckpointMagic lfs'.slotLen (slotFrame lfs' w'.next.next.next.next (turn last)) := by
    by_contra hv
    have hcurrent := halt.current
    rw [← @slotNumber_world lfs' w' w'.next.next.next.next rfl rfl] at hcurrent
    unfold slotNumber at hcurrent
    rw [if_neg hv] at hcurrent
    cases hcurrent
  have hthird := @lfsLoadCheckpointData_answers env lfs' w'.next.next.next.next (turn last) (hslots rfl) (hok _) (hok _)
  rw [if_pos hvalid] at hthird
  refine ⟨(readFrame env lfs' w'.next.next.next.next (turn last)).put32 4 0, w'.next.next.next.next.next.next, ?_,
    ⟨rfl, rfl⟩, ?_⟩
  · have hread := @readFrame_agree env lfs' w'.next.next.next.next (turn last)
    have hsame' : slotFrame lfs' w'.next.next.next.next (turn last) = slotFrame lfs w (turn last) := hframe _
    rw [hsame', hsame.slotLen] at hread
    exact (hread.trans h.holds).put32
  · intro fuel
    unfold lfsLoadCheckpoint
    rw [hchoose]
    dsimp only
    rw [hthird]

theorem SameNumbers.refl : SameNumbers lfs lfs := ⟨.refl, fun _ => rfl⟩

theorem SameNumbers.trans (h : SameNumbers lfs lfs₁) (h' : SameNumbers lfs₁ lfs') : SameNumbers lfs lfs' :=
  ⟨h.layout.trans h'.layout, fun s => (h'.index s).trans (h.index s)⟩

theorem SameNumbers.link {o : Option ℕ} : SameNumbers lfs (lfs.setSegment i { lfs.segments i with next := o }) := by
  refine ⟨⟨rfl, rfl, rfl, rfl, rfl, rfl, rfl⟩, fun s => ?_⟩
  unfold Lfs.setSegment
  dsimp only
  rw [Function.update_apply]
  split_ifs with hs
  · rw [hs]
  · rfl

theorem linkSegs_numbers (h : linkSegs c tail fuel i lfs = some lfs') : SameNumbers lfs lfs' := by
  induction fuel generalizing lfs with
  | zero => cases h
  | succ fuel ih =>
    rw [linkSegs] at h
    split_ifs at h with hi
    · cases h
      exact .refl
    · exact SameNumbers.link.trans (ih h)

theorem collectFree_numbers : SameNumbers lfs (collectFree c i lfs).1 := by
  induction i with
  | zero => exact ⟨⟨rfl, rfl, rfl, rfl, rfl, rfl, rfl⟩, fun _ => rfl⟩
  | succ i ih =>
    rw [collectFree]
    generalize collectFree c i lfs = res at ih ⊢
    obtain ⟨lfs₁, f⟩ := res
    dsimp only at ih ⊢
    by_cases hfree : checkpointSeg c i ≠ lfsSegFree
    · rw [if_pos hfree]
      exact ih
    · rw [if_neg hfree]
      refine ih.trans ?_
      cases f with
      | none =>
        have hfirst : SameNumbers lfs₁ { lfs₁ with segFree := some i } :=
          ⟨⟨rfl, rfl, rfl, rfl, rfl, rfl, rfl⟩, fun _ => rfl⟩
        exact hfirst.trans .link
      | some f => exact SameNumbers.link.trans .link

theorem lfsProcessCheckpoint_numbers (h : lfsProcessCheckpoint fuel lfs c = some lfs') : SameNumbers lfs lfs' := by
  unfold lfsProcessCheckpoint at h
  obtain ⟨lfs₁, hlist, rfl⟩ := Option.map_eq_some_iff.mp h
  refine SameNumbers.trans ?_ collectFree_numbers
  split_ifs at hlist
  · cases hlist
    exact ⟨⟨rfl, rfl, rfl, rfl, rfl, rfl, rfl⟩, fun _ => rfl⟩
  · obtain ⟨lfs₂, hlink, rfl⟩ := Option.map_eq_some_iff.mp hlist
    have hlinked := linkSegs_numbers hlink
    exact SameNumbers.trans ⟨⟨hlinked.layout.partOff, hlinked.layout.secPerBlk, hlinked.layout.segStart,
      hlinked.layout.checkpointBlk, hlinked.layout.checkpointBlks, hlinked.layout.nSegs, hlinked.layout.nInodes⟩,
      hlinked.index⟩ .link

theorem Logged.listed (h : Logged lfs w xs ys l recs) : Listed lfs xs ys :=
  ⟨h.segs.list, h.segs.tail, h.segs.free, h.anchored.cover ▸ List.Perm.refl _, h.anchored.numbers, h.segs.fits, h.segs.small⟩

theorem Encoded.agree (h : Encoded xs ys c) (hl : Listed lfs xs ys) (ha : Agree c d 8 (lfs.slotLen - 8)) :
    Encoded xs ys d := by
  have hfits := hl.fits
  have hlen : lfs.slotLen = lfs.checkpointBlks * lfsBlkSize := rfl
  have hword : ∀ p, 8 ≤ p → p + 4 ≤ 20 + 4 * lfs.nSegs → d.get32 p = c.get32 p := fun p h1 h2 =>
    (get32_eq ha h1 (by omega)).symm
  have hentry : ∀ s, s ∈ xs ∨ s ∈ ys → checkpointSeg d s = checkpointSeg c s := by
    intro s hs
    have hlt := hl.lt hs
    exact hword _ (by omega) (by omega)
  refine ⟨?_, ?_, fun s hs => ?_, fun s hs => ?_⟩
  · rw [hword 12 (by decide) (by omega)]
    exact h.head
  · rw [hword 16 (by decide) (by omega)]
    exact h.tail
  · rw [hentry s (.inl hs)]
    exact h.listed s hs
  · rw [hentry s (.inr hs)]
    exact h.free s hs

theorem Listed.checkpoint (h : Listed lfs xs ys) (hfuel : lfs.nSegs < fuel) (hc : checkpoint fuel lfs = some c) :
    Encoded xs ys (c.put32 4 0) := by
  obtain ⟨c', hfill, he⟩ := h.encoded ((zeros.put32 0 lfsCheckpointMagic).put32 4 0)
  unfold Fs.checkpoint at hc
  rw [hfill fuel hfuel, Option.map_some] at hc
  cases hc
  rw [put32_put32_same]
  have hne : ∀ p, 12 ≤ p → ((c'.put32 8 lfs.checkpointTimestamp).put32 4 0).get32 p = c'.get32 p := by
    intro p hp
    rw [get32_put32_ne (by omega), get32_put32_ne (by omega)]
  refine ⟨(hne 12 (by decide)).trans he.head, (hne 16 (by decide)).trans he.tail, fun s hs => ?_, fun s hs => ?_⟩
  · unfold checkpointSeg
    rw [hne _ (by omega)]
    exact he.listed s hs
  · unfold checkpointSeg
    rw [hne _ (by omega)]
    exact he.free s hs

end Checkpoints

section Loading

structure Remount (lfs : Lfs) (w : World) (xs ys : List ℕ) (lfs₀ : Lfs) (w₀ : World) : Prop where
  partOff : lfs₀.partOff = lfs.partOff
  secPerBlk : lfs₀.secPerBlk = lfs.secPerBlk
  disk : SameDisk w w₀
  segs : 0 < lfs.nSegs
  newest : ∃ idx c, Newest lfs w idx c ∧ Encoded xs ys (c.put32 4 0)

theorem Logged.load_eq (h : Logged lfs w xs ys l recs) (hm : Remount lfs w xs ys lfs₀ w₀) (hok : ∀ n, env.ok n = true) :
    ∃ d w₁, Encoded xs ys d ∧ SameDisk w w₁ ∧ SameLayout lfs (lfs₀.withSuper lfs).mount ∧ ∀ fuel,
      lfsLoad env fuel lfs₀ w₀ = (lfsProcessCheckpoint fuel (lfs₀.withSuper lfs).mount d).bind fun lfs' =>
        (lfsScan env fuel lfs' w₁).map fun res => (if res.1 = OK then OK else ERR, res.2) := by
  obtain ⟨idx, c, hnew, hencoded⟩ := hm.newest
  have hsuper : Agree (onDisk w₀ lfs₀.partOff) (superblock lfs) 0 lfsBlkSize := by
    have hanchor := h.anchored.super
    unfold onDisk at hanchor ⊢
    rw [hm.partOff, hm.disk.disk, hm.disk.blockSize]
    exact hanchor
  have hblocks : lfs₀.secPerBlk * w₀.blockSize = lfsBlkSize := by
    rw [hm.secPerBlk, hm.disk.blockSize]
    exact h.device.blocks
  obtain ⟨w₂, hload, hs₂⟩ := lfsLoadSuperblock_ok hok hblocks hsuper (h.words hm.segs)
  have hlay₂ : SameLayout lfs (lfs₀.withSuper lfs) := ⟨hm.partOff, hm.secPerBlk, rfl, rfl, rfl, rfl, rfl⟩
  have hlay₃ := hlay₂.trans mount_layout
  have hs₃ : SameDisk w w₂.next.next.next := (hm.disk.trans hs₂).trans ⟨rfl, rfl⟩
  obtain ⟨d, w₄, hagree, hs₄, hcheckpoint⟩ := hnew.load hlay₃.sameSlots hs₃ hok
  have hlen := hnew.slots.len
  unfold lfsBlkSize at hlen
  refine ⟨d, w₄, hencoded.agree h.listed (Agree.symm (hagree.mono (by decide) (by omega))), hs₃.trans hs₄, hlay₃,
    fun fuel => ?_⟩
  unfold lfsLoad
  rw [hload]
  dsimp only
  rw [if_neg (not_not.mpr rfl), lfsInit_ok hok]
  dsimp only
  rw [if_neg (not_not.mpr rfl), hcheckpoint]
  cases lfsProcessCheckpoint fuel (lfs₀.withSuper lfs).mount d with
  | none => rfl
  | some lfs₁ =>
    dsimp only [Option.map_some, Option.bind_some]
    rw [if_neg (not_not.mpr rfl)]

theorem Logged.load (h : Logged lfs w xs ys l recs) (hm : Remount lfs w xs ys lfs₀ w₀) (hok : ∀ n, env.ok n = true)
    (hone : xs.length ≤ 1) (hfuel : 1 < fuel) : ∃ lfs' w', lfsLoad env fuel lfs₀ w₀ = some (OK, lfs', w') ∧
      SameDisk w w' ∧ SameLayout lfs lfs' ∧
        ∀ i < lfs.nInodes, (lfs.inodes i).free = false → i ∉ l → Restored lfs w i lfs' w' := by
  obtain ⟨d, w₁, hencoded, hs, hlay, hload⟩ := h.load_eq hm hok
  obtain ⟨lfs₁, hprocess, hrebuilt⟩ := h.listed.process hencoded hlay.nSegs hone
  have hsome := hprocess fuel (by omega)
  have hnumbers := lfsProcessCheckpoint_numbers hsome
  have hlay₁ := hlay.trans hnumbers.layout
  have horder : xs.map (fun s => (lfs₁.segments s).index) = List.range xs.length := by
    rw [← h.segs.order]
    apply List.map_congr_left
    intro s hs
    have hlt := h.segs.lt s (List.mem_append_left _ hs)
    rw [hnumbers.index, mount_numbers s (hlay.nSegs ▸ hlt), h.anchored.numbers s hlt]
  have hreader : Reader lfs w xs.length lfs₁ w₁ xs :=
    ⟨hlay₁, hs, hrebuilt.list, fun s hs => hlay₁.nSegs ▸ h.segs.lt s (List.mem_append_left _ hs), horder⟩
  obtain ⟨lfs', w', hscan, hs', hlay', hall⟩ := h.scan hok hreader (lt_of_le_of_lt hone hfuel)
  refine ⟨lfs', w', ?_, hs.trans hs', hlay', hall⟩
  rw [hload, hsome, Option.bind_some, hscan]
  rfl

theorem Logged.load_stuck (h : Logged lfs w xs ys l recs) (hm : Remount lfs w xs ys lfs₀ w₀) (hok : ∀ n, env.ok n = true)
    (hlong : 1 < xs.length) : lfsLoad env fuel lfs₀ w₀ = none := by
  obtain ⟨d, w₁, hencoded, -, -, hload⟩ := h.load_eq hm hok
  rw [hload, h.listed.process_stuck hencoded hlong]
  rfl

end Loading

end Agatha.Fs
