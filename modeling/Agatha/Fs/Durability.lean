import Agatha.Fs.BlockLists
import Agatha.Fs.SegmentFrames

namespace Agatha.Fs

open Library Library.Bytes Library.LinkedList

structure Lfs.InReach (lfs : Lfs) : Prop where
  sectors : lfs.partOff + (lfs.segStart + lfs.nSegs * lfsSegBlks) * lfs.secPerBlk ≤ 2 ^ 32
  slots : ∀ idx, 0 < lfs.checkpointBlk idx ∧ lfs.checkpointBlk idx + lfs.checkpointBlks ≤ lfs.segStart

structure SameLayout (lfs lfs' : Lfs) : Prop where
  partOff : lfs'.partOff = lfs.partOff
  secPerBlk : lfs'.secPerBlk = lfs.secPerBlk
  segStart : lfs'.segStart = lfs.segStart
  checkpointBlk : lfs'.checkpointBlk = lfs.checkpointBlk
  checkpointBlks : lfs'.checkpointBlks = lfs.checkpointBlks
  nSegs : lfs'.nSegs = lfs.nSegs
  nInodes : lfs'.nInodes = lfs.nInodes

structure OnDisk (lfs : Lfs) (w : World) (n : ℕ) (b : Blk) : Prop where
  place : ∃ seg < n, ∃ k < lfsSegBlks - 1, b.blk = seg * lfsSegBlks + (1 + k)
  bytes : Agree (blkAt lfs w b.blk) (blkBytes lfs w b) 0 lfsBlkSize
  crc : b.crc = crcChecksum (blkBytes lfs w b) 0 lfsBlkSize

def Blk.Stored (lfs : Lfs) (w : World) (n : ℕ) (b : Blk) : Prop :=
  b.written = true → b.empty = false → OnDisk lfs w n b

structure Blk.Sane (b : Blk) : Prop where
  ready : b.written = false → b.empty = false → b.cached = true
  hollow : b.empty = true → b.cached = true → ∀ j < lfsBlkSize, b.addr j = 0

def logOf (n : ℕ) (recs : ℕ → List Record) : List Record := (List.range n).flatMap recs

def lastRecord (n : ℕ) (recs : ℕ → List Record) (i : ℕ) : Option Record :=
  (Replay.about Record.index i (logOf n recs)).getLast?

structure Anchored (lfs : Lfs) (w : World) (xs ys : List ℕ) : Prop where
  cover : xs ++ ys = List.range lfs.nSegs
  numbers : ∀ s < lfs.nSegs, (lfs.segments s).index = s
  super : Agree (onDisk w lfs.partOff) (superblock lfs) 0 lfsBlkSize
  newest : ∃ idx c, Newest lfs w idx c

structure Logged (lfs : Lfs) (w : World) (xs ys l : List ℕ) (recs : ℕ → List Record) : Prop where
  segs : SegLists lfs xs ys
  anchored : Anchored lfs w xs ys
  device : Device lfs w
  reach : lfs.InReach
  list : Chain lfs.wnext lfs.pending l
  lt : ∀ i ∈ l, i < lfs.nInodes
  few : lfs.nInodes ≤ lfsBlkInode
  index : ∀ i < lfs.nInodes, (lfs.inodes i).index = i
  ranged : ∀ i < lfs.nInodes, (lfs.inodes i).Ranged
  log : ∀ seg < xs.length, SegLog lfs w seg (recs seg)
  sane : ∀ i < lfs.nInodes, (lfs.inodes i).blks.All Blk.Sane
  stored : ∀ i < lfs.nInodes, (lfs.inodes i).blks.All (Blk.Stored lfs w xs.length)
  saved : ∀ i < lfs.nInodes, (lfs.inodes i).free = false → i ∉ l →
    lastRecord xs.length recs i = some (lfs.inodes i).record
  clean : ∀ i < lfs.nInodes, i ∉ l → (lfs.inodes i).blks.todo = 0

variable {env : Env} {lfs lfs' lfs₁ : Lfs} {w w' w₁ : World} {b : Blk} {bs bs' : Blks} {frame s s' : Bytes} {r : ℤ}
  {seg cnt cnt' n m k i blk fuel : ℕ} {l rest xs ys done : List ℕ} {recs : ℕ → List Record} {log : List Record}

section Places

theorem SameLayout.refl : SameLayout lfs lfs := ⟨rfl, rfl, rfl, rfl, rfl, rfl, rfl⟩

theorem SameLayout.trans (h : SameLayout lfs lfs₁) (h' : SameLayout lfs₁ lfs') : SameLayout lfs lfs' :=
  ⟨h'.partOff.trans h.partOff, h'.secPerBlk.trans h.secPerBlk, h'.segStart.trans h.segStart,
    h'.checkpointBlk.trans h.checkpointBlk, h'.checkpointBlks.trans h.checkpointBlks, h'.nSegs.trans h.nSegs,
    h'.nInodes.trans h.nInodes⟩

theorem SameLayout.sector (h : SameLayout lfs lfs') : lfs'.sector (lfs'.segStart + blk) = lfs.sector (lfs.segStart + blk) := by
  unfold Lfs.sector
  rw [h.partOff, h.secPerBlk, h.segStart]

theorem SameLayout.blkAt (h : SameLayout lfs lfs') : Fs.blkAt lfs' w blk = Fs.blkAt lfs w blk := by
  unfold Fs.blkAt
  rw [h.sector]

theorem SameLayout.blkBytes (h : SameLayout lfs lfs') : Fs.blkBytes lfs' w b = Fs.blkBytes lfs w b := by
  unfold Fs.blkBytes
  rw [h.sector]

theorem SameLayout.byte (h : SameLayout lfs lfs') : bs.byte lfs' w i = bs.byte lfs w i := by
  induction bs generalizing i with
  | nil => rfl
  | wild => rfl
  | cons b bnext ih => rw [Blks.byte_cons, Blks.byte_cons, h.blkBytes, ih]

theorem SameLayout.device (h : SameLayout lfs lfs') (hd : Device lfs w) (hw : w'.blockSize = w.blockSize) :
    Device lfs' w' :=
  ⟨by rw [h.secPerBlk, hw]; exact hd.blocks, by rw [h.partOff]; exact hd.partOff⟩

theorem SameLayout.reach (h : SameLayout lfs lfs') (hr : lfs.InReach) : lfs'.InReach := by
  refine ⟨?_, ?_⟩
  · rw [h.partOff, h.secPerBlk, h.segStart, h.nSegs]
    exact hr.sectors
  · rw [h.checkpointBlk, h.checkpointBlks, h.segStart]
    exact hr.slots

theorem SameLayout.superblock (h : SameLayout lfs lfs') : Fs.superblock lfs' = Fs.superblock lfs := by
  unfold Fs.superblock
  rw [h.nSegs, h.nInodes, h.checkpointBlk, h.checkpointBlks, h.segStart]

theorem SameLayout.sameSlots (h : SameLayout lfs lfs') : SameSlots lfs lfs' :=
  ⟨h.partOff, h.secPerBlk, h.checkpointBlk, h.checkpointBlks⟩

theorem Device.secPerBlk_pos (hd : Device lfs w) : 0 < lfs.secPerBlk := by
  apply Nat.pos_of_ne_zero
  intro h0
  have hb := hd.blocks
  rw [h0, Nat.zero_mul] at hb
  cases hb

theorem blkAt_eq (hd : Device lfs w) (hr : lfs.InReach) (hblk : blk < lfs.nSegs * lfsSegBlks) :
    blkAt lfs w blk = w.disk.shift (lfs.partOff * w.blockSize + (lfs.segStart + blk) * lfsBlkSize) := by
  have hpos := hd.secPerBlk_pos
  have hlt : (lfs.segStart + blk) * lfs.secPerBlk < (lfs.segStart + lfs.nSegs * lfsSegBlks) * lfs.secPerBlk :=
    Nat.mul_lt_mul_of_pos_right (by omega) hpos
  have hsectors := hr.sectors
  unfold blkAt onDisk Lfs.sector
  rw [Nat.mod_eq_of_lt (by omega), Nat.add_mul, Nat.mul_assoc, hd.blocks]

theorem blk_lt (hd : Device lfs w) (hr : lfs.InReach) (hblk : blk < lfs.nSegs * lfsSegBlks) : blk < 2 ^ 32 := by
  have hpos := hd.secPerBlk_pos
  have hle : lfs.nSegs * lfsSegBlks ≤ (lfs.segStart + lfs.nSegs * lfsSegBlks) * lfs.secPerBlk :=
    (Nat.le_add_left ..).trans (Nat.le_mul_of_pos_right _ hpos)
  have hsectors := hr.sectors
  omega

theorem place_lt (hseg : seg < n) (hk : k < lfsSegBlks) : seg * lfsSegBlks + k < n * lfsSegBlks := by
  have hle := Nat.mul_le_mul_right lfsSegBlks (Nat.succ_le_of_lt hseg)
  rw [Nat.succ_mul] at hle
  omega

structure SegWritten (lfs : Lfs) (w : World) (seg cnt : ℕ) (frame : Bytes) (w' : World) : Prop where
  disk : w'.disk = w.disk.copy (lfs.sector (lfs.segStart + seg * lfsSegBlks) * w.blockSize) frame 0
    ((1 + cnt) * lfs.secPerBlk * w.blockSize)
  blockSize : w'.blockSize = w.blockSize

theorem SegWritten.disk_eq (h : SegWritten lfs w seg cnt frame w') (hd : Device lfs w) (hr : lfs.InReach)
    (hseg : seg < lfs.nSegs) : w'.disk = w.disk.copy
      (lfs.partOff * w.blockSize + (lfs.segStart + seg * lfsSegBlks) * lfsBlkSize) frame 0 ((1 + cnt) * lfsBlkSize) := by
  have hpos := hd.secPerBlk_pos
  have hlt : (lfs.segStart + seg * lfsSegBlks) * lfs.secPerBlk <
      (lfs.segStart + lfs.nSegs * lfsSegBlks) * lfs.secPerBlk := by
    have hplace := place_lt hseg (k := 0) (by decide)
    exact Nat.mul_lt_mul_of_pos_right (by omega) hpos
  have hsectors := hr.sectors
  rw [h.disk]
  unfold Lfs.sector
  rw [Nat.mod_eq_of_lt (by omega), Nat.add_mul, Nat.mul_assoc, hd.blocks, Nat.mul_assoc, hd.blocks]

theorem SegWritten.inside (h : SegWritten lfs w seg cnt frame w') (hd : Device lfs w) (hr : lfs.InReach)
    (hseg : seg < lfs.nSegs) (hcnt : cnt < lfsSegBlks) (hm : m ≤ cnt) :
    Agree (frame.shift (m * lfsBlkSize)) (blkAt lfs w' (seg * lfsSegBlks + m)) 0 lfsBlkSize := by
  have hd' : Device lfs w' := ⟨by rw [h.blockSize]; exact hd.blocks, hd.partOff⟩
  rw [blkAt_eq hd' hr (place_lt hseg (by omega)), h.disk_eq hd hr hseg, h.blockSize]
  unfold lfsBlkSize
  intro j _ hj
  change frame (m * 4096 + j) = Bytes.copy _ _ _ _ _ (_ + j)
  rw [copy_inside _ (by omega) (by omega)]
  exact congrArg frame (by omega)

theorem SegWritten.outside (h : SegWritten lfs w seg cnt frame w') (hd : Device lfs w) (hr : lfs.InReach)
    (hseg : seg < lfs.nSegs) (hlt : blk < seg * lfsSegBlks) :
    Agree (blkAt lfs w blk) (blkAt lfs w' blk) 0 lfsBlkSize := by
  have hd' : Device lfs w' := ⟨by rw [h.blockSize]; exact hd.blocks, hd.partOff⟩
  have hin : blk < lfs.nSegs * lfsSegBlks := by
    have hplace := place_lt hseg (k := 0) (by decide)
    omega
  rw [blkAt_eq hd' hr hin, blkAt_eq hd hr hin, h.disk_eq hd hr hseg, h.blockSize]
  unfold lfsBlkSize
  intro j _ hj
  exact (copy_outside (lfs.partOff * w.blockSize + (lfs.segStart + blk) * 4096 + j) (by omega)).symm

structure KeepsFront (lfs : Lfs) (w w' : World) : Prop where
  blockSize : w'.blockSize = w.blockSize
  disk : ∀ i < lfs.partOff * w.blockSize + lfs.segStart * lfsBlkSize, w'.disk i = w.disk i

theorem SegWritten.front (h : SegWritten lfs w seg cnt frame w') (hd : Device lfs w) (hr : lfs.InReach)
    (hseg : seg < lfs.nSegs) : KeepsFront lfs w w' := by
  refine ⟨h.blockSize, fun i hi => ?_⟩
  rw [h.disk_eq hd hr hseg]
  have hle := Nat.mul_le_mul_right lfsBlkSize (Nat.le_add_right lfs.segStart (seg * lfsSegBlks))
  exact copy_outside i (by omega)

theorem slotByte_eq (hd : Device lfs w) (hr : lfs.InReach) (hlen : lfsBlkSize ≤ lfs.slotLen) (idx : Fin 2) :
    lfs.slotByte w idx = lfs.partOff * w.blockSize + lfs.checkpointBlk idx * lfsBlkSize := by
  obtain ⟨hfirst, hslots⟩ := hr.slots idx
  have hsectors := hr.sectors
  have hpos : 0 < lfs.checkpointBlks := by
    apply Nat.pos_of_ne_zero
    intro h0
    unfold Lfs.slotLen at hlen
    rw [h0, Nat.zero_mul] at hlen
    exact absurd hlen (by decide)
  have hlt : lfs.checkpointBlk idx * lfs.secPerBlk < (lfs.segStart + lfs.nSegs * lfsSegBlks) * lfs.secPerBlk :=
    Nat.mul_lt_mul_of_pos_right (by omega) hd.secPerBlk_pos
  unfold Lfs.slotByte Lfs.slotSector Lfs.sector
  rw [Nat.mod_eq_of_lt (by omega), Nat.add_mul, Nat.mul_assoc, hd.blocks]

theorem Anchored.move (h : Anchored lfs w xs ys) (hlay : SameLayout lfs lfs') (hk : KeepsFront lfs w w')
    (hd : Device lfs w) (hr : lfs.InReach) (hindex : ∀ s < lfs.nSegs, (lfs'.segments s).index = s)
    (hstamp : lfs'.checkpointTimestamp = lfs.checkpointTimestamp) : Anchored lfs' w' xs ys := by
  obtain ⟨idx, c, hnew⟩ := h.newest
  have hone := hr.slots 0
  refine ⟨hlay.nSegs ▸ h.cover, hlay.nSegs ▸ hindex, ?_, idx, c, ?_⟩
  · rw [hlay.superblock, hlay.partOff]
    intro j hj hlt
    rw [← h.super j hj hlt]
    unfold onDisk
    rw [hk.blockSize]
    have hle := Nat.mul_le_mul_right lfsBlkSize (show 1 ≤ lfs.segStart by omega)
    exact hk.disk (lfs.partOff * w.blockSize + j) (by omega)
  · apply hnew.kept hlay.sameSlots hstamp hk.blockSize
    intro idx' j h1 h2
    rw [slotByte_eq hd hr hnew.slots.len] at h1 h2
    have hend := Nat.mul_le_mul_right lfsBlkSize (hr.slots idx').2
    unfold Lfs.slotLen at h2
    rw [Nat.add_mul] at hend
    exact hk.disk j (by omega)

theorem SameDisk.front (h : SameDisk w w') : KeepsFront lfs w w' := ⟨h.blockSize, fun _ _ => by rw [h.disk]⟩

end Places

section Segments

theorem OnDisk.lt (h : OnDisk lfs w n b) (hn : n ≤ lfs.nSegs) : b.blk < lfs.nSegs * lfsSegBlks := by
  obtain ⟨seg, hseg, k, hk, hblk⟩ := h.place
  rw [hblk]
  exact place_lt (by omega) (by omega)

theorem onDisk_quoted (hd : Device lfs w) (hr : lfs.InReach) (hn : n ≤ lfs.nSegs) : Quoted (OnDisk lfs w n) where
  blk _ h := blk_lt hd hr (h.lt hn)
  crc _ h := h.crc ▸ crcChecksum_lt

structure FrameDone (lfs : Lfs) (seg cnt : ℕ) (frame : Bytes) (recs : List Record) : Prop where
  valid : Valid lfsSegsumMagic lfsBlkSize frame
  count : frame.get32 12 = cnt
  inodes : ∀ k < cnt, inodeAt frame k = true → InodeBlk lfs.nInodes (place frame k)
  records : segRecords frame (place frame) cnt = recs

structure SegFilled (Q : Blk → Prop) (seg : ℕ) (lfs : Lfs) (l : List ℕ) (lfs' : Lfs) (rest done : List ℕ) (cnt : ℕ)
    (frame : Bytes) : Prop where
  list : Chain lfs'.wnext lfs'.pending rest
  split : l = done ++ rest
  settled : ∀ i < lfs.nInodes, (lfs'.inodes i).blks.All (Settled Q seg frame cnt)
  complete : FrameDone lfs seg cnt frame (done.map fun i => (lfs'.inodes i).record)
  le : cnt ≤ lfsSegBlks - 1
  same : ∀ i, ∃ bs, lfs'.inodes i = { lfs.inodes i with blks := bs } ∧ SameBytes (lfs.inodes i).blks bs
  moved : ∀ i, (lfs.inodes i).blks.Moved (· = seg) (lfs'.inodes i).blks
  others : ∀ i, i ∉ l → lfs'.inodes i = lfs.inodes i
  todo : ∀ i ∈ done, (lfs'.inodes i).blks.todo = 0

def summed (s : Bytes) (cnt : ℕ) : Bytes := (s.put32 12 cnt).put32 4 (crcChecksum (s.put32 12 cnt) 0 lfsBlkSize)

theorem summed_place : place (summed s cnt) = place s := by
  funext k
  unfold summed
  rw [place_outside (by decide), place_outside (by decide)]

theorem summed_inodeAt : inodeAt (summed s cnt) = inodeAt s := by
  funext k
  unfold inodeAt summed
  rw [get32_put32_ne (by omega), get32_put32_ne (by omega)]

theorem summed_settled {Q : Blk → Prop} (h : Settled Q seg s cnt b) : Settled Q seg (summed s m) cnt b := by
  intro hw he
  refine (h hw he).imp_right fun hf => ⟨?_, hf.crc, hf.cached⟩
  rw [summed_place]
  exact hf.place

theorem shift_zero : s.shift 0 = s := by
  funext i
  exact congrArg s (Nat.zero_add i)

theorem summed_done {s₀ : Bytes} (hs : Agree (((s₀.put32 0 lfsSegsumMagic).put32 4 0).put32 8 n) s 0 16)
    (hcnt : cnt < 2 ^ 32) (hin : ∀ k < cnt, inodeAt s k = true → InodeBlk lfs.nInodes (place s k))
    (hrecs : segRecords s (place s) cnt = log) : FrameDone lfs seg cnt (summed s cnt) log := by
  have hm : (s.put32 12 cnt).get32 0 = lfsSegsumMagic := by
    rw [get32_put32_ne (by decide), ← get32_eq hs (p := 0) (by decide) (by decide), get32_put32_ne (by decide),
      get32_put32_ne (by decide)]
    exact get32_put32_same
  have h0 : (s.put32 12 cnt).get32 4 = 0 := by
    rw [get32_put32_ne (by decide), ← get32_eq hs (p := 4) (by decide) (by decide), get32_put32_ne (by decide)]
    exact get32_put32_same
  refine ⟨?_, ?_, ?_, ?_⟩
  · have hvalid := @sealed_valid _ 0 _ lfsBlkSize hm h0
    rwa [shift_zero] at hvalid
  · unfold summed
    rw [get32_put32_ne (by decide), get32_put32_same, Nat.mod_eq_of_lt hcnt]
  · rw [summed_inodeAt, summed_place]
    exact hin
  · unfold segRecords at hrecs ⊢
    rw [summed_inodeAt, summed_place]
    exact hrecs

theorem lfsFillSeg_frame {Q : Blk → Prop} (hq : Quoted Q) (hl : Chain lfs.wnext lfs.pending l) (hn : Inodes lfs l)
    (hs : ∀ i < lfs.nInodes, (lfs.inodes i).blks.All fun b => b.written = true → b.empty = false → Q b)
    (h : lfsFillSeg fuel lfs seg (lfsSegBlks - 1) s = some (OK, lfs', cnt, frame)) :
    ∃ rest done, SegFilled Q seg lfs l lfs' rest done cnt frame := by
  unfold lfsFillSeg at h
  obtain ⟨⟨r₁, lfs₁, cnt₁, s₁⟩, hfill, he⟩ := Option.map_eq_some_iff.mp h
  cases he
  obtain ⟨rest, hf⟩ := @fillInodes_frame Q { lfs with segsumTimestamp := (lfs.segsumTimestamp + 1) % 2 ^ 32 } lfs'
    (((s.put32 0 lfsSegsumMagic).put32 4 0).put32 8 lfs.segsumTimestamp) s₁ seg 0 cnt (lfsSegBlks - 1) fuel l le_rfl
    (Nat.zero_le _) hq hl ⟨hn.few, hn.index, hn.lt, hn.ranged⟩ (fun k hk => absurd hk (Nat.not_lt_zero k))
    (fun i hi => (hs i hi).mono fun b hb hw hempty => .inl (hb hw hempty)) hfill
  obtain ⟨rest', hm⟩ := @fillInodes_filled { lfs with segsumTimestamp := (lfs.segsumTimestamp + 1) % 2 ^ 32 } lfs' _ _ _ _
    _ _ _ l le_rfl (Nat.zero_le _) hl hfill
  obtain ⟨done, hsplit, hrecs⟩ := hf.records
  have hle := hm.le
  have hcnt : cnt < 2 ^ 32 := by
    unfold lfsSegBlks at hle
    omega
  refine ⟨rest, done, hf.list, hsplit, fun i hi => (hf.settled i hi).mono fun b => summed_settled,
    summed_done hf.header hcnt hf.inodes hrecs, hle, hf.same, fun i => ?_, hf.others, ?_⟩
  · obtain ⟨bs, hbs, hmoved⟩ := hm.inodes i
    rw [hbs]
    exact hmoved
  · obtain ⟨done', hsplit', htodo⟩ := hm.split
    obtain rfl : rest' = rest := hm.list.unique hf.list
    obtain rfl : done' = done := List.append_cancel_right (hsplit'.symm.trans hsplit)
    exact htodo

end Segments

section Rounds

structure Unchanged (lfs : Lfs) (w : World) (lfs' : Lfs) (w' : World) : Prop where
  layout : SameLayout lfs lfs'
  inodes : ∀ i, ∃ bs, lfs'.inodes i = { lfs.inodes i with blks := bs } ∧ bs.ends = (lfs.inodes i).blks.ends ∧
    bs.offs = (lfs.inodes i).blks.offs ∧ ((lfs.inodes i).blks.All Blk.FieldsSet → bs.All Blk.FieldsSet)
  content : ∀ i < lfs.nInodes, content lfs' w' i = content lfs w i

theorem Unchanged.refl : Unchanged lfs w lfs w := ⟨.refl, fun _ => ⟨_, rfl, rfl, rfl, id⟩, fun _ _ => rfl⟩

theorem Unchanged.trans (h : Unchanged lfs w lfs₁ w₁) (h' : Unchanged lfs₁ w₁ lfs' w') : Unchanged lfs w lfs' w' := by
  refine ⟨h.layout.trans h'.layout, fun i => ?_, fun i hi => (h'.content i (h.layout.nInodes ▸ hi)).trans (h.content i hi)⟩
  obtain ⟨bs₁, hbs₁, hends₁, hoffs₁, hset₁⟩ := h.inodes i
  obtain ⟨bs, hbs, hends, hoffs, hset⟩ := h'.inodes i
  rw [hbs₁] at hbs hends hoffs hset
  exact ⟨bs, hbs, hends.trans hends₁, hoffs.trans hoffs₁, hset ∘ hset₁⟩

theorem blkBytes_agree (h : b.cached = false → b.empty = false → Agree (blkAt lfs w b.blk) (blkAt lfs w' b.blk) 0 lfsBlkSize) :
    Agree (blkBytes lfs w b) (blkBytes lfs w' b) 0 lfsBlkSize := by
  unfold blkBytes
  cases hc : b.cached with
  | true => exact .refl
  | false =>
    cases he : b.empty with
    | true => exact .refl
    | false => exact h hc he

theorem byte_agree (h : bs.All fun b => Agree (blkBytes lfs w b) (blkBytes lfs w' b) 0 lfsBlkSize) :
    bs.byte lfs w' i = bs.byte lfs w i := by
  induction bs generalizing i with
  | nil => rfl
  | wild => rfl
  | cons b bnext ih =>
    rw [Blks.byte_cons, Blks.byte_cons, ih h.2]
    split_ifs with hi
    · exact (h.1 i (Nat.zero_le i) (by omega)).symm
    · rfl

theorem Blks.All.and {P P' : Blk → Prop} (h : bs.All P) (h' : bs.All P') : bs.All fun b => P b ∧ P' b := by
  induction bs with
  | nil => trivial
  | wild => trivial
  | cons b bnext ih => exact ⟨⟨h.1, h'.1⟩, ih h.2 h'.2⟩

theorem Blks.Moved.all {P : ℕ → Prop} {A : Blk → Prop} (h : bs.Moved P bs') (ha : bs.All A)
    (hs : ∀ b seg k, A b → b.empty = false → A (b.stored seg k)) : bs'.All A := by
  fun_induction Blks.Moved P bs bs' with
  | case1 => trivial
  | case2 => trivial
  | case3 b bnext b' bnext' ih =>
    refine ⟨?_, ih h.2 ha.2⟩
    rcases h.1 with rfl | ⟨-, he, seg, k, -, -, rfl⟩
    · exact ha.1
    · exact hs b seg k ha.1 he
  | case4 => exact h.elim

theorem Blk.Sane.move (he : b.empty = false) : (b.stored seg k).Sane where
  ready hw := by cases hw
  hollow he' := by
    change b.empty = true at he'
    rw [he] at he'
    cases he'

theorem Blk.Stored.lt (h : b.Stored lfs w n) (hs : b.Sane) (hc : b.cached = false) (he : b.empty = false) :
    b.blk < n * lfsSegBlks := by
  have hw : b.written = true := by
    cases hw : b.written with
    | true => rfl
    | false =>
      have hready := hs.ready hw he
      rw [hc] at hready
      cases hready
  obtain ⟨seg, hseg, k, hk, hblk⟩ := (h hw he).place
  rw [hblk]
  exact place_lt hseg (by omega)

def KeepsLog (lfs : Lfs) (w w' : World) (n : ℕ) : Prop :=
  ∀ blk < n * lfsSegBlks, Agree (blkAt lfs w blk) (blkAt lfs w' blk) 0 lfsBlkSize

theorem KeepsLog.bytes (hk : KeepsLog lfs w w' n) (h : b.Stored lfs w n) (hs : b.Sane) :
    Agree (blkBytes lfs w b) (blkBytes lfs w' b) 0 lfsBlkSize :=
  blkBytes_agree fun hc he => hk _ (h.lt hs hc he)

theorem OnDisk.kept (h : OnDisk lfs w n b) (hk : KeepsLog lfs w w' n) (hlay : SameLayout lfs lfs') (hle : n ≤ m) :
    OnDisk lfs' w' m b := by
  obtain ⟨seg, hseg, k, hk', hblk⟩ := h.place
  have hlt : b.blk < n * lfsSegBlks := by
    rw [hblk]
    exact place_lt hseg (by omega)
  have hbytes : Agree (blkBytes lfs w b) (blkBytes lfs w' b) 0 lfsBlkSize := blkBytes_agree fun _ _ => hk _ hlt
  refine ⟨⟨seg, by omega, k, hk', hblk⟩, ?_, ?_⟩
  · rw [hlay.blkAt, hlay.blkBytes]
    exact ((hk _ hlt).symm.trans h.bytes).trans hbytes
  · rw [hlay.blkBytes, h.crc]
    exact crcChecksum_congr fun j hj => hbytes (0 + j) (by omega) (by omega)

theorem InFrame.onDisk (h : InFrame seg frame cnt b) (hd : Device lfs w) (hr : lfs.InReach) (hseg : seg < lfs.nSegs)
    (hcnt : cnt ≤ lfsSegBlks - 1) (hw : SegWritten lfs w seg cnt frame w') (hlay : SameLayout lfs lfs') :
    OnDisk lfs' w' (seg + 1) b := by
  obtain ⟨k, hk, hblk, hagree⟩ := h.place
  have hlt : 1 + k < lfsSegBlks := by
    unfold lfsSegBlks at hcnt ⊢
    omega
  rw [Nat.mod_eq_of_lt (blk_lt hd hr (place_lt hseg hlt))] at hblk
  refine ⟨⟨seg, Nat.lt_succ_self seg, k, by omega, hblk⟩, ?_, ?_⟩
  · rw [blkBytes_cached h.cached, hblk, hlay.blkAt]
    exact (hagree.trans (hw.inside hd hr hseg (by omega) (by omega))).symm
  · rw [blkBytes_cached h.cached]
    exact h.crc

theorem FrameDone.segLog (h : FrameDone lfs seg cnt frame log) (hd : Device lfs w) (hr : lfs.InReach)
    (hseg : seg < lfs.nSegs) (hcnt : cnt ≤ lfsSegBlks - 1) (hw : SegWritten lfs w seg cnt frame w')
    (hlay : SameLayout lfs lfs') : SegLog lfs' w' seg log := by
  have hlt : cnt < lfsSegBlks := by
    unfold lfsSegBlks at hcnt ⊢
    omega
  have hsum : Agree frame (blkAt lfs' w' (seg * lfsSegBlks)) 0 lfsBlkSize := by
    have hfirst := hw.inside hd hr hseg hlt (Nat.zero_le cnt)
    rwa [Nat.zero_mul, shift_zero, Nat.add_zero, ← hlay.blkAt] at hfirst
  have hplace : ∀ k < cnt, Agree (place frame k) (blkAt lfs' w' (seg * lfsSegBlks + 1 + k)) 0 lfsBlkSize := by
    intro k hk
    rw [hlay.blkAt, Nat.add_assoc]
    exact hw.inside hd hr hseg hlt (by omega)
  have hcount : (blkAt lfs' w' (seg * lfsSegBlks)).get32 12 = cnt := by
    rw [← get32_eq hsum (p := 12) (by decide) (by decide)]
    exact h.count
  have hinode : ∀ k < cnt, inodeAt (blkAt lfs' w' (seg * lfsSegBlks)) k = inodeAt frame k := by
    intro k hk
    unfold lfsSegBlks at hcnt
    unfold inodeAt
    rw [get32_eq hsum (Nat.zero_le (16 + 4 * k)) (by unfold lfsBlkSize; omega)]
  refine ⟨h.valid.congr hsum (by decide), hcount ▸ hcnt, ?_, ?_⟩
  · intro k hk hi
    rw [hcount] at hk
    rw [hinode k hk] at hi
    rw [hlay.nInodes]
    exact (h.inodes k hk hi).congr (hplace k hk)
  · rw [hcount, segRecords_congr hinode hplace fun k hk hi => (h.inodes k hk hi).blkCnt]
    exact h.records.symm

theorem logOf_succ {rec : List Record} : logOf (n + 1) (Function.update recs n rec) = logOf n recs ++ rec := by
  unfold logOf
  rw [List.range_succ, List.flatMap_append, List.flatMap_singleton, Function.update_self]
  congr 1
  apply List.flatMap_congr
  intro j hj
  have hlt := List.mem_range.mp hj
  rw [Function.update_of_ne (by omega)]

theorem about_done (hnodup : done.Nodup) (hindex : ∀ j ∈ done, (lfs.inodes j).index = j) :
    Replay.about Record.index i (done.map fun j => (lfs.inodes j).record) =
      if i ∈ done then [(lfs.inodes i).record] else [] := by
  induction done with
  | nil => rfl
  | cons j done ih =>
    obtain ⟨hj, hnodup'⟩ := List.nodup_cons.mp hnodup
    have hrec := ih hnodup' fun k hk => hindex k (List.mem_cons_of_mem j hk)
    have hself : (lfs.inodes j).record.index = j := hindex j List.mem_cons_self
    rw [List.map_cons]
    unfold Replay.about at hrec ⊢
    by_cases hji : j = i
    · subst hji
      rw [List.filter_cons_of_pos (by simpa using hself), hrec, if_neg hj, if_pos List.mem_cons_self]
    · rw [List.filter_cons_of_neg (by simpa [hself] using hji), hrec]
      simp only [List.mem_cons, Ne.symm hji, false_or]

theorem lastRecord_succ {rec : List Record} : lastRecord (n + 1) (Function.update recs n rec) i =
    ((Replay.about Record.index i rec).getLast?).or (lastRecord n recs i) := by
  unfold lastRecord
  rw [logOf_succ, Replay.about_append_getLast?]

theorem appendSeg_layout : SameLayout lfs (appendSeg lfs i) := by
  unfold appendSeg
  cases lfs.segTail <;> exact ⟨rfl, rfl, rfl, rfl, rfl, rfl, rfl⟩

theorem appendSeg_timestamp : (appendSeg lfs i).checkpointTimestamp = lfs.checkpointTimestamp := by
  unfold appendSeg
  cases lfs.segTail <;> rfl

theorem flushSeg_ok {t idx : ℕ} (h : flushSeg env fuel lfs t idx w = some (OK, lfs', w')) : ∃ lfs₁ cnt frame,
    lfsFillSeg fuel lfs idx (lfsSegBlks - 1) (env.junk w.calls) = some (OK, lfs₁, cnt, frame) ∧
      SegWritten lfs₁ w idx cnt frame w' ∧ lfs' = appendSeg lfs₁ t := by
  unfold flushSeg at h
  split_ifs at h with hmem hmap
  · cases h
  · cases h
  · split at h
    · cases h
    · rename_i r₁ lfs₁ cnt frame hfill
      split_ifs at h with hr
      · cases h
      · obtain rfl := not_not.mp hr
        split at h
        · cases h
        · rename_i w₂ hwrite
          cases h
          refine ⟨lfs₁, cnt, frame, hfill, ?_, rfl⟩
          unfold blockWrite at hwrite
          obtain ⟨hok, hw⟩ := Prod.mk.inj hwrite
          rw [if_pos hok] at hw
          subst hw
          exact ⟨rfl, rfl⟩

def takeSeg (lfs : Lfs) (t n : ℕ) : Lfs :=
  { lfs with segFree := (lfs.segments t).next }.setSegment t { lfs.segments t with index := n }

/-- What a round of `lfs_flush` with the segment `t` has done, before the segment is appended. -/
structure Round (lfs : Lfs) (w : World) (t n : ℕ) (l : List ℕ) (lfs₁ : Lfs) (w' : World) (rest done : List ℕ) (cnt : ℕ)
    (frame : Bytes) : Prop where
  lt : n < lfs.nSegs
  same : ∃ ts p f, lfs₁ = { takeSeg lfs t n with segsumTimestamp := ts, pending := p, inodes := f }
  written : SegWritten lfs w n cnt frame w'
  filled : SegFilled (OnDisk lfs w n) n (takeSeg lfs t n) l lfs₁ rest done cnt frame

section Round

variable {t : ℕ}

theorem Logged.round_done (h : Logged lfs w xs (t :: ys) l recs)
    (hf : flushSeg env fuel (takeSeg lfs t xs.length) t xs.length w = some (OK, lfs', w')) :
    ∃ lfs₁ rest done cnt frame, Round lfs w t xs.length l lfs₁ w' rest done cnt frame ∧ lfs' = appendSeg lfs₁ t := by
  obtain ⟨lfs₁, cnt, frame, hfill, hwrite, hlfs'⟩ := flushSeg_ok hf
  have hn : xs.length < lfs.nSegs := by
    have hle := h.segs.length_le
    rw [List.length_cons] at hle
    omega
  obtain ⟨hsame, -⟩ := lfsFillSeg_same hfill
  have hlay₁ : SameLayout lfs lfs₁ := by
    obtain ⟨ts, p, f, hsame⟩ := hsame
    rw [hsame]
    exact ⟨rfl, rfl, rfl, rfl, rfl, rfl, rfl⟩
  have hquoted : Quoted (OnDisk lfs w xs.length) := onDisk_quoted h.device h.reach hn.le
  obtain ⟨rest, done, hs⟩ := @lfsFillSeg_frame (takeSeg lfs t xs.length) _ _ _ _ _ _ _ _ hquoted h.list
    ⟨h.few, fun i hi => h.index i (h.lt i hi), h.lt, fun i hi => h.ranged i (h.lt i hi)⟩ h.stored hfill
  have hwritten : SegWritten lfs w xs.length cnt frame w' := by
    obtain ⟨hdisk, hsize⟩ := hwrite
    rw [hlay₁.sector, hlay₁.secPerBlk] at hdisk
    exact ⟨hdisk, hsize⟩
  exact ⟨lfs₁, rest, done, cnt, frame, ⟨hn, hsame, hwritten, hs⟩, hlfs'⟩

variable (hr : Round lfs w t n l lfs₁ w' rest done cnt frame)

include hr

theorem Round.layout : SameLayout lfs (appendSeg lfs₁ t) := by
  obtain ⟨ts, p, f, hsame⟩ := hr.same
  have hlay₁ : SameLayout lfs lfs₁ := by
    rw [hsame]
    exact ⟨rfl, rfl, rfl, rfl, rfl, rfl, rfl⟩
  exact hlay₁.trans appendSeg_layout

theorem Round.timestamp : (appendSeg lfs₁ t).checkpointTimestamp = lfs.checkpointTimestamp := by
  obtain ⟨ts, p, f, hsame⟩ := hr.same
  rw [appendSeg_timestamp, hsame]
  rfl

theorem Round.inodes (i : ℕ) : ∃ bs, (appendSeg lfs₁ t).inodes i = { lfs.inodes i with blks := bs } ∧
    SameBytes (lfs.inodes i).blks bs := by
  rw [appendSeg_inodes]
  exact hr.filled.same i

theorem Round.others (hd : i ∉ done) (hrest : i ∉ rest) : i ∉ l ∧ (appendSeg lfs₁ t).inodes i = lfs.inodes i := by
  have hl : i ∉ l := by
    rw [hr.filled.split]
    exact fun hmem => (List.mem_append.mp hmem).elim hd hrest
  rw [appendSeg_inodes]
  exact ⟨hl, hr.filled.others i hl⟩

theorem Round.keepsLog (hd : Device lfs w) (hreach : lfs.InReach) : KeepsLog lfs w w' n :=
  fun _ hlt => hr.written.outside hd hreach hr.lt hlt

theorem Round.frameDone : FrameDone lfs n cnt frame (done.map fun i => ((appendSeg lfs₁ t).inodes i).record) := by
  rw [appendSeg_inodes]
  have hcomplete := hr.filled.complete
  exact ⟨hcomplete.valid, hcomplete.count, hcomplete.inodes, hcomplete.records⟩

theorem Round.numbers (ha : Anchored lfs w xs (t :: ys)) (hn : n = xs.length) {j : ℕ} (hj : j < lfs.nSegs) :
    ((appendSeg lfs₁ t).segments j).index = j := by
  obtain ⟨ts, p, f, hsame⟩ := hr.same
  have hlt := hr.lt
  rw [appendSeg_index, hsame]
  change ((takeSeg lfs t n).segments j).index = j
  unfold takeSeg
  rw [setIndex_index]
  by_cases hjt : j = t
  · have hcover := congrArg (fun l => l[n]?) ha.cover
    simp only [hn, List.getElem?_append_right le_rfl, Nat.sub_self, List.getElem?_cons_zero,
      List.getElem?_range (hn ▸ hlt)] at hcover
    rw [if_pos hjt, hjt, hn]
    exact (Option.some.inj hcover).symm
  · rw [if_neg hjt]
    exact ha.numbers j hj

theorem Round.segLog (hd : Device lfs w) (hreach : lfs.InReach) (hlog : ∀ seg < n, SegLog lfs w seg (recs seg))
    (hseg : seg < n + 1) : SegLog (appendSeg lfs₁ t) w' seg
      (Function.update recs n (done.map fun i => ((appendSeg lfs₁ t).inodes i).record) seg) := by
  have hlt := hr.lt
  by_cases he : seg = n
  · rw [he, Function.update_self]
    exact hr.frameDone.segLog hd hreach hr.lt hr.filled.le hr.written hr.layout
  · rw [Function.update_of_ne he]
    apply (hlog seg (by omega)).congr hr.layout.nInodes
    intro k hk
    rw [hr.layout.blkAt]
    exact hr.keepsLog hd hreach _ (place_lt (by omega) hk)

theorem Round.stored (hd : Device lfs w) (hreach : lfs.InReach) (hi : i < lfs.nInodes) :
    ((appendSeg lfs₁ t).inodes i).blks.All (Blk.Stored (appendSeg lfs₁ t) w' (n + 1)) := by
  rw [appendSeg_inodes]
  refine (hr.filled.settled i hi).mono fun b hb hw he => ?_
  rcases hb hw he with hold | hnew
  · exact hold.kept (hr.keepsLog hd hreach) hr.layout (Nat.le_succ _)
  · exact hnew.onDisk hd hreach hr.lt hr.filled.le hr.written hr.layout

theorem Logged.saved_round (h : Logged lfs w xs (t :: ys) l recs) (hn : n = xs.length) (hi : i < lfs.nInodes)
    (hfree : ((appendSeg lfs₁ t).inodes i).free = false) (hrest : i ∉ rest) :
    lastRecord (n + 1) (Function.update recs n (done.map fun i => ((appendSeg lfs₁ t).inodes i).record)) i =
      some ((appendSeg lfs₁ t).inodes i).record := by
  have hnodup : done.Nodup := (List.nodup_append.mp (hr.filled.split ▸ h.list.nodup)).1
  have hindex : ∀ j ∈ done, ((appendSeg lfs₁ t).inodes j).index = j := by
    intro j hj
    obtain ⟨bs, hbs, -⟩ := hr.inodes j
    rw [hbs]
    exact h.index j (h.lt j (hr.filled.split ▸ List.mem_append_left _ hj))
  rw [lastRecord_succ, about_done hnodup hindex]
  by_cases hd : i ∈ done
  · rw [if_pos hd]
    rfl
  · obtain ⟨hl, hsame⟩ := hr.others hd hrest
    rw [hsame] at hfree ⊢
    rw [if_neg hd, hn]
    exact h.saved i hi hfree hl

theorem Logged.clean_round (h : Logged lfs w xs (t :: ys) l recs) (hi : i < lfs.nInodes) (hrest : i ∉ rest) :
    ((appendSeg lfs₁ t).inodes i).blks.todo = 0 := by
  by_cases hd : i ∈ done
  · rw [appendSeg_inodes]
    exact hr.filled.todo i hd
  · obtain ⟨hl, hsame⟩ := hr.others hd hrest
    rw [hsame]
    exact h.clean i hi hl

theorem Logged.unchanged_round (h : Logged lfs w xs (t :: ys) l recs) (hn : n = xs.length) :
    Unchanged lfs w (appendSeg lfs₁ t) w' := by
  refine ⟨hr.layout, fun i => ?_, fun i hi => ?_⟩
  · obtain ⟨bs, hbs, hbytes⟩ := hr.inodes i
    have hmoved := hr.filled.moved i
    rw [← @appendSeg_inodes lfs₁ t, hbs] at hmoved
    exact ⟨bs, hbs, hbytes.ends, hbytes.offs, fun hset => hmoved.all hset fun b seg k _ _ => .inr rfl⟩
  · obtain ⟨bs, hbs, hbytes⟩ := hr.inodes i
    funext k
    unfold content
    rw [hbs, hr.layout.byte]
    dsimp only
    rw [hbytes.bytes]
    exact byte_agree ((h.sane i hi).and (h.stored i hi) |>.mono fun b hb =>
      (hn ▸ hr.keepsLog h.device h.reach).bytes hb.2 hb.1)

end Round

theorem Logged.round {t : ℕ} (h : Logged lfs w xs (t :: ys) l recs)
    (hf : flushSeg env fuel (takeSeg lfs t xs.length) t xs.length w = some (OK, lfs', w')) :
    ∃ rest rec, Logged lfs' w' (xs ++ [t]) ys rest (Function.update recs xs.length rec) ∧ Unchanged lfs w lfs' w' := by
  obtain ⟨lfs₁, rest, done, cnt, frame, hr, rfl⟩ := h.round_done hf
  have hlay := hr.layout
  have hlen : (xs ++ [t]).length = xs.length + 1 := List.length_append
  refine ⟨rest, done.map fun i => ((appendSeg lfs₁ t).inodes i).record, ⟨?_, ?_, ?_, ?_, ?_, ?_, ?_, ?_, ?_, ?_, ?_, ?_,
    ?_, ?_⟩, h.unchanged_round hr rfl⟩
  · obtain ⟨ts, p, f, hsame⟩ := hr.same
    have ht : Taken lfs₁ xs t ys := hsame ▸ (h.segs.take).same
    exact ht.append
  · obtain ⟨hcover, hnumbers, hsuper, hnew⟩ := h.anchored.move hlay (hr.written.front h.device h.reach hr.lt) h.device
      h.reach (fun j hj => hr.numbers h.anchored rfl hj) hr.timestamp
    exact ⟨(List.append_assoc ..).trans hcover, hnumbers, hsuper, hnew⟩
  · exact hlay.device h.device hr.written.blockSize
  · exact hlay.reach h.reach
  · rw [appendSeg_wnext, appendSeg_pending]
    exact hr.filled.list
  · intro i hi
    rw [hlay.nInodes]
    exact h.lt i (hr.filled.split ▸ List.mem_append_right _ hi)
  · rw [hlay.nInodes]
    exact h.few
  · intro i hi
    rw [hlay.nInodes] at hi
    obtain ⟨bs, hbs, -⟩ := hr.inodes i
    rw [hbs]
    exact h.index i hi
  · intro i hi
    rw [hlay.nInodes] at hi
    obtain ⟨bs, hbs, hbytes⟩ := hr.inodes i
    rw [hbs]
    exact ⟨(h.ranged i hi).blkCnt.trans (congrArg List.length hbytes.offs).symm, (h.ranged i hi).lenReal⟩
  · intro seg hseg
    exact hr.segLog h.device h.reach h.log (hlen ▸ hseg)
  · intro i hi
    rw [hlay.nInodes] at hi
    rw [appendSeg_inodes]
    exact (hr.filled.moved i).all (h.sane i hi) fun b seg k hb he => Blk.Sane.move he
  · intro i hi
    rw [hlay.nInodes] at hi
    rw [hlen]
    exact hr.stored h.device h.reach hi
  · intro i hi hfree hrest
    rw [hlay.nInodes] at hi
    rw [hlen]
    exact h.saved_round hr rfl hi hfree hrest
  · intro i hi hrest
    rw [hlay.nInodes] at hi
    exact h.clean_round hr hi hrest

theorem Logged.kept (h : Logged lfs w xs ys l recs) (hk : KeepsLog lfs w w' xs.length) (hw : w'.blockSize = w.blockSize)
    (hanchor : Anchored lfs w' xs ys) : Logged lfs w' xs ys l recs ∧ Unchanged lfs w lfs w' := by
  have hstored : ∀ i < lfs.nInodes, (lfs.inodes i).blks.All (Blk.Stored lfs w' xs.length) := fun i hi =>
    (h.stored i hi).mono fun b hb hw he => (hb hw he).kept hk .refl le_rfl
  refine ⟨⟨h.segs, hanchor, ⟨by rw [hw]; exact h.device.blocks, h.device.partOff⟩, h.reach, h.list, h.lt,
    h.few, h.index, h.ranged, fun seg hseg => (h.log seg hseg).congr rfl fun k hlt => hk _ (place_lt hseg hlt), h.sane, hstored, h.saved, h.clean⟩,
    ⟨.refl, fun _ => ⟨_, rfl, rfl, rfl, id⟩, fun i hi => ?_⟩⟩
  funext k
  exact byte_agree ((h.sane i hi).and (h.stored i hi) |>.mono fun b hb => hk.bytes hb.2 hb.1)

def Continues (n : ℕ) (recs : ℕ → List Record) (m : ℕ) (recs' : ℕ → List Record) : Prop :=
  n ≤ m ∧ ∀ seg < n, recs' seg = recs seg

theorem Logged.flushLoop (h : Logged lfs w xs ys l recs) (hf : flushLoop env fuel lfs w = some (OK, lfs', w')) :
    ∃ xs' ys' recs', Logged lfs' w' xs' ys' [] recs' ∧ Unchanged lfs w lfs' w' ∧
      Continues xs.length recs xs'.length recs' := by
  induction fuel generalizing lfs w xs ys l recs with
  | zero => cases hf
  | succ fuel ih =>
    cases l with
    | nil =>
      rw [Fs.flushLoop, chain_nil.mp h.list] at hf
      cases hf
      exact ⟨xs, ys, recs, h, .refl, le_rfl, fun _ _ => rfl⟩
    | cons i l =>
      cases ys with
      | nil =>
        rw [Fs.flushLoop, h.list.1, chain_nil.mp h.segs.free] at hf
        cases hf
      | cons t ys =>
        rw [flushLoop_round h.segs h.list.1] at hf
        split at hf
        · cases hf
        · rename_i r₁ lfs₁ w₁ hseg
          split_ifs at hf with hr
          · cases hf
            exact absurd rfl hr
          · obtain rfl := not_not.mp hr
            obtain ⟨rest, rec, hlog, hsame⟩ := h.round hseg
            obtain ⟨xs', ys', recs', hlog', hsame', hle, hrecs⟩ := ih hlog hf
            rw [List.length_append, List.length_singleton] at hle hrecs
            refine ⟨xs', ys', recs', hlog', hsame.trans hsame', by omega, fun seg hseg => ?_⟩
            rw [hrecs seg (by omega), Function.update_of_ne (by omega)]

def KeepsSuper (lfs : Lfs) (w w' : World) : Prop := Agree (onDisk w lfs.partOff) (onDisk w' lfs.partOff) 0 lfsBlkSize

theorem slot_keeps (hd : Device lfs w) (hr : lfs.InReach) (hlen : lfsBlkSize ≤ lfs.slotLen) (hn : n ≤ lfs.nSegs) {ok : Bool}
    {idx : Fin 2} (hw : blockWrite env (lfs.slotSector idx) lfs.slotSectors frame w = (ok, w')) :
    KeepsLog lfs w w' n ∧ KeepsSuper lfs w w' ∧ w'.blockSize = w.blockSize := by
  obtain ⟨hfirst, hslots⟩ := hr.slots idx
  have hsize : lfs.slotSectors * w.blockSize = lfs.checkpointBlks * lfsBlkSize := by
    unfold Lfs.slotSectors
    rw [Nat.mul_assoc, hd.blocks]
  have hbyte : lfs.slotSector idx * w.blockSize = _ := slotByte_eq hd hr hlen idx
  obtain ⟨src, hdisk, hsame⟩ : ∃ src, w'.disk = w.disk.copy
      (lfs.partOff * w.blockSize + lfs.checkpointBlk idx * lfsBlkSize) src 0 (lfs.checkpointBlks * lfsBlkSize) ∧
      w'.blockSize = w.blockSize := by
    unfold blockWrite at hw
    obtain ⟨-, hw⟩ := Prod.mk.inj hw
    subst hw
    refine ⟨if env.ok w.calls = true then frame else env.junk w.calls, ?_, rfl⟩
    rw [← hbyte, ← hsize]
  refine ⟨fun blk hblk => ?_, fun j _ hj => ?_, hsame⟩
  · have hin : blk < lfs.nSegs * lfsSegBlks := hblk.trans_le (Nat.mul_le_mul_right _ hn)
    have hd' : Device lfs w' := ⟨by rw [hsame]; exact hd.blocks, hd.partOff⟩
    have hend := Nat.mul_le_mul_right lfsBlkSize
      (show lfs.checkpointBlk idx + lfs.checkpointBlks ≤ lfs.segStart + blk by omega)
    rw [Nat.add_mul] at hend
    rw [blkAt_eq hd' hr hin, blkAt_eq hd hr hin, hdisk, hsame]
    intro j _ hj
    exact (copy_outside (lfs.partOff * w.blockSize + (lfs.segStart + blk) * lfsBlkSize + j) (by omega)).symm
  · have hstart := Nat.mul_le_mul_right lfsBlkSize (show 1 ≤ lfs.checkpointBlk idx by omega)
    unfold onDisk
    rw [hdisk, hsame]
    exact (copy_outside (lfs.partOff * w.blockSize + j) (by omega)).symm

theorem Logged.writeCheckpoint (h : Logged lfs w xs ys l recs)
    (hw : lfsWriteCheckpoint env fuel lfs w = some (OK, lfs', w')) :
    (∃ idx c, checkpoint fuel lfs = some c ∧ Newest lfs' w' idx c) ∧ Logged lfs' w' xs ys l recs ∧
      Unchanged lfs w lfs' w' := by
  have hn : xs.length ≤ lfs.nSegs := (Nat.le_add_right ..).trans h.segs.length_le
  obtain ⟨idx, c₀, hnew⟩ := h.anchored.newest
  rcases lfsWriteCheckpoint_ok hw with ⟨hr, -⟩ | ⟨c, hc, hblock, ⟨-, rfl⟩ | ⟨hr, -⟩⟩
  · cases hr
  · have hdev : Device lfs w.next := ⟨h.device.blocks, h.device.partOff⟩
    have hnew' : Newest lfs.tick w' lfs.nextSlot c := hnew.succeed hc hw
    obtain ⟨hkeep, hsuper, hsize⟩ := slot_keeps (n := xs.length) hdev h.reach hnew.slots.len hn hblock
    have hlay : SameLayout lfs lfs.tick := ⟨rfl, rfl, rfl, rfl, rfl, rfl, rfl⟩
    have hsegs : SegLists lfs.tick xs ys :=
      ⟨h.segs.list, h.segs.tail, h.segs.free, h.segs.nodup, h.segs.lt, h.segs.order, h.segs.index, h.segs.fits,
        h.segs.small⟩
    have hanchor : Anchored lfs.tick w' xs ys :=
      ⟨h.anchored.cover, h.anchored.numbers, Agree.trans (Agree.symm hsuper) h.anchored.super, _, _, hnew'⟩
    have hlog : KeepsLog lfs w w' xs.length := hkeep
    refine ⟨⟨_, c, hc, hnew'⟩, ⟨hsegs, hanchor, hlay.device h.device hsize, hlay.reach h.reach, h.list, h.lt, h.few, h.index,
      h.ranged, fun seg hseg => (h.log seg hseg).congr rfl fun k hk => hlog _ (place_lt hseg hk), h.sane, fun i hi => ?_,
      h.saved, h.clean⟩, hlay, fun _ => ⟨_, rfl, rfl, rfl, id⟩, fun i hi => ?_⟩
    · exact (h.stored i hi).mono fun b hb hw he => (hb hw he).kept hlog hlay le_rfl
    · funext k
      unfold content
      rw [hlay.byte]
      exact byte_agree ((h.sane i hi).and (h.stored i hi) |>.mono fun b hb => hlog.bytes hb.2 hb.1)
  · cases hr

theorem Logged.flush (h : Logged lfs w xs ys l recs) (hf : lfsFlush env fuel lfs w = some (OK, lfs', w')) :
    ∃ xs' ys' recs', Logged lfs' w' xs' ys' [] recs' ∧ Unchanged lfs w lfs' w' ∧
      Continues xs.length recs xs'.length recs' ∧
      ∃ lfs₁ w₁ idx c, Logged lfs₁ w₁ xs' ys' [] recs' ∧ SameLayout lfs₁ lfs' ∧ checkpoint fuel lfs₁ = some c ∧
        Newest lfs' w' idx c := by
  unfold lfsFlush at hf
  split at hf
  · cases hf
  · rename_i r₁ lfs₁ w₁ hloop
    split_ifs at hf with hr
    · cases hf
      exact absurd rfl hr
    · obtain rfl := not_not.mp hr
      obtain ⟨xs', ys', recs', hlog, hsame, hcont⟩ := h.flushLoop hloop
      obtain ⟨⟨idx, c, hc, hnew⟩, hlog', hsame'⟩ := hlog.writeCheckpoint hf
      exact ⟨xs', ys', recs', hlog', hsame.trans hsame', hcont, lfs₁, w₁, idx, c, hlog, hsame'.layout, hc, hnew⟩

end Rounds

section Restoring

theorem entryBlks_offs {es : List (ℕ × ℕ)} :
    (entryBlks n es).offs = (List.range' n es.length).map (lfsBlkSize * ·) := by
  induction es generalizing n with
  | nil => rfl
  | cons e es ih =>
    rw [entryBlks, Blks.offs, ih, List.length_cons, List.range'_succ, List.map_cons, Nat.mul_comm]

theorem entryBlks_ends {es : List (ℕ × ℕ)} : (entryBlks n es).ends = true := by
  induction es generalizing n with
  | nil => rfl
  | cons e es ih => exact ih

def entryBlk (n : ℕ) (e : ℕ × ℕ) : Blk :=
  { written := true, blk := e.1, crc := e.2, off := n * lfsBlkSize, empty := e.1 = 0 ∧ e.2 = 0, cached := false
    addr := zeros }

theorem Blk.Sane.entry (h : b.Sane) (hs : b.Stored lfs w n) (hb : ¬ (b.written = false ∧ b.empty = false)) :
    Agree (blkBytes lfs w (entryBlk k b.entry)) (blkBytes lfs w b) 0 lfsBlkSize ∧
      CrcOk lfs w (entryBlk k b.entry) := by
  cases he : b.empty with
  | true =>
    have hentry : b.entry = (0, 0) := if_pos he
    rw [hentry]
    refine ⟨fun j _ hj => ?_, fun _ hempty => by cases hempty⟩
    unfold blkBytes
    rw [if_pos he]
    cases hc : b.cached with
    | true => exact (h.hollow he hc j (by omega)).symm
    | false => rfl
  | false =>
    have hentry : b.entry = (b.blk, b.crc) := if_neg (by rw [he]; decide)
    have hw : b.written = true := Bool.eq_true_of_not_eq_false fun hw => hb ⟨hw, he⟩
    have hd := hs hw he
    obtain ⟨seg, -, j, -, hblk⟩ := hd.place
    have hempty : (entryBlk k (b.blk, b.crc)).empty = false := decide_eq_false fun h0 => by
      have hzero : b.blk = 0 := h0.1
      omega
    have hbytes : blkBytes lfs w (entryBlk k (b.blk, b.crc)) = blkAt lfs w b.blk := by
      unfold blkBytes
      rw [if_neg (show ¬ (entryBlk k (b.blk, b.crc)).cached = true from Bool.false_ne_true),
        if_neg (by rw [hempty]; decide)]
      rfl
    rw [hentry]
    refine ⟨hbytes ▸ hd.bytes, fun _ _ => ?_⟩
    rw [hbytes]
    exact (crcChecksum_congr fun j hj => hd.bytes (0 + j) (by omega) (by omega)).trans hd.crc.symm

theorem entryBlks_bytes (hs : bs.All Blk.Sane) (hst : bs.All (Blk.Stored lfs w n)) (htodo : bs.todo = 0) :
    (∀ i, (entryBlks k bs.entries).byte lfs w i = bs.byte lfs w i) ∧ (entryBlks k bs.entries).All (CrcOk lfs w) := by
  induction bs generalizing k with
  | nil => exact ⟨fun _ => rfl, trivial⟩
  | wild => exact ⟨fun _ => rfl, trivial⟩
  | cons b bnext ih =>
    rw [Blks.todo] at htodo
    have hb : ¬ (b.written = false ∧ b.empty = false) := by
      intro hb
      rw [if_pos hb] at htodo
      omega
    obtain ⟨hbytes, hcrc⟩ := Blk.Sane.entry (k := k) hs.1 hst.1 hb
    obtain ⟨hrest, hall⟩ := @ih (k + 1) hs.2 hst.2 (by omega)
    refine ⟨fun i => ?_, hcrc, hall⟩
    change (Blks.cons (entryBlk k b.entry) (entryBlks (k + 1) bnext.entries)).byte lfs w i = _
    rw [Blks.byte_cons, Blks.byte_cons, hrest]
    split_ifs with hi
    · exact hbytes i (Nat.zero_le i) (by omega)
    · rfl

structure Reader (lfs : Lfs) (w : World) (n : ℕ) (lfs₀ : Lfs) (w₀ : World) (zs : List ℕ) : Prop where
  layout : SameLayout lfs lfs₀
  disk : SameDisk w w₀
  list : Chain (segNext lfs₀) lfs₀.segHead zs
  lt : ∀ s ∈ zs, s < lfs₀.nSegs
  order : zs.map (fun s => (lfs₀.segments s).index) = List.range n

structure Restored (lfs : Lfs) (w : World) (i : ℕ) (lfs' : Lfs) (w' : World) : Prop where
  created : (lfs'.inodes i).created = true
  used : (lfs'.inodes i).free = false
  name : (lfs'.inodes i).name = (lfs.inodes i).name
  blkCnt : (lfs'.inodes i).blkCnt = (lfs.inodes i).blkCnt
  lenReal : (lfs'.inodes i).lenReal = (lfs.inodes i).lenReal
  blks : 0 < (lfs.inodes i).blkCnt → (lfs'.inodes i).Listed ∧ (lfs'.inodes i).blks.All (CrcOk lfs' w') ∧
    content lfs' w' i = content lfs w i

theorem install_blks {x : Inode} {rec : Record} (h : rec.entries ≠ []) : (x.install rec).blks = entryBlks 0 rec.entries := by
  obtain ⟨e, es, he⟩ := List.exists_cons_of_ne_nil h
  unfold Inode.install
  rw [he]
  rfl

theorem Logged.restored {lfs₀ : Lfs} (h : Logged lfs w xs ys l recs) (hlay : SameLayout lfs lfs₀) (hs : SameDisk w w')
    (hi : i < lfs.nInodes) (hc : (lfs.inodes i).free = false) (hl : i ∉ l) :
    Restored lfs w i (lfs₀.replay (logOf xs.length recs)) w' := by
  have hlast := h.saved i hi hc hl
  have hlay' : SameLayout lfs (lfs₀.replay (logOf xs.length recs)) :=
    hlay.trans ⟨rfl, rfl, rfl, rfl, rfl, rfl, rfl⟩
  have hfield : ∀ {β : Type} (f : Inode → β) (v : β), (∀ x : Inode, f (x.install (lfs.inodes i).record) = v) →
      f ((lfs₀.replay (logOf xs.length recs)).inodes i) = v := fun f v hv => Replay.playAll_last hlast hv
  refine ⟨hfield _ _ fun _ => rfl, hfield _ _ fun _ => rfl, hfield _ _ fun _ => rfl, hfield _ _ fun _ => rfl,
    hfield _ _ fun _ => rfl, fun hpos => ?_⟩
  have hlen : (lfs.inodes i).blks.entries.length = (lfs.inodes i).blkCnt :=
    length_entries.trans (h.ranged i hi).blkCnt.symm
  have hblks : ((lfs₀.replay (logOf xs.length recs)).inodes i).blks = entryBlks 0 (lfs.inodes i).blks.entries := by
    apply hfield Inode.blks
    intro x
    apply install_blks
    intro hnil
    change (lfs.inodes i).blks.entries = [] at hnil
    rw [hnil, List.length_nil] at hlen
    omega
  obtain ⟨hbytes, hcrc⟩ := entryBlks_bytes (k := 0) (h.sane i hi) (h.stored i hi) (h.clean i hi hl)
  have hcnt : ((lfs₀.replay (logOf xs.length recs)).inodes i).blkCnt = (lfs.inodes i).blkCnt := hfield _ _ fun _ => rfl
  refine ⟨⟨?_, ?_⟩, ?_, ?_⟩
  · rw [hblks]
    exact entryBlks_ends
  · rw [hblks, hcnt, entryBlks_offs, hlen, List.range_eq_range']
  · rw [hblks]
    have hcrc' := hs.all hcrc
    refine hcrc'.mono fun b hb hc' he => ?_
    rw [hlay'.blkBytes]
    exact hb hc' he
  · funext j
    unfold content
    rw [hblks, hlay'.byte, hs.byte]
    exact hbytes j

theorem Logged.scan {lfs₀ : Lfs} {w₀ : World} {zs : List ℕ} (h : Logged lfs w xs ys l recs) (hok : ∀ n, env.ok n = true)
    (hr : Reader lfs w xs.length lfs₀ w₀ zs) (hfuel : xs.length < fuel) : ∃ lfs' w',
      lfsScan env fuel lfs₀ w₀ = some (OK, lfs', w') ∧ SameDisk w₀ w' ∧ SameLayout lfs lfs' ∧
        ∀ i < lfs.nInodes, (lfs.inodes i).free = false → i ∉ l → Restored lfs w i lfs' w' := by
  have hlen : zs.length = xs.length := by
    have horder := congrArg List.length hr.order
    rwa [List.length_map, List.length_range] at horder
  have hindex : ∀ s ∈ zs, (lfs₀.segments s).index < xs.length := by
    intro s hs
    have hmem : (lfs₀.segments s).index ∈ List.range xs.length := hr.order ▸ List.mem_map_of_mem hs
    exact List.mem_range.mp hmem
  have hdev : Device lfs₀ w₀ := hr.layout.device h.device hr.disk.blockSize
  have hlog : ∀ s ∈ zs, SegLog lfs₀ w₀ (lfs₀.segments s).index (recs (lfs₀.segments s).index) := fun s hs =>
    (h.log _ (hindex s hs)).congr hr.layout.nInodes fun k _ => by
      rw [hr.layout.blkAt, hr.disk.blkAt]
      exact .refl
  obtain ⟨w', hscan, hdisk⟩ := scanFrom_ok hok hdev hr.list hr.lt hlog (by rw [hlen]; exact hfuel)
  have hlist : (zs.flatMap fun s => recs (lfs₀.segments s).index) = logOf xs.length recs := by
    unfold logOf
    rw [← hr.order, List.flatMap_map]
  rw [hlist] at hscan
  exact ⟨_, w', hscan, hdisk, hr.layout.trans ⟨rfl, rfl, rfl, rfl, rfl, rfl, rfl⟩,
    fun i hi hc hl => h.restored hr.layout (hr.disk.trans hdisk) hi hc hl⟩

end Restoring

end Agatha.Fs
