import Agatha.Fs.DurableRuns
import Agatha.Fs.Loading

namespace Agatha.Fs

open Library Library.Bytes Library.LinkedList

/-- Calls, reads and flushes. No write makes another block than the first of a file, and the flushes return `OK`. -/
inductive FsRun (env : Env) (fuel : ℕ) (s : Lfs × World) : Lfs × World → Prop
  | start : FsRun env fuel s s
  | call {lfs lfs' : Lfs} {w w' : World} {r : ℤ} (c : FileCall) : FsRun env fuel s (lfs, w) → c.Fits env lfs w →
    c.run env fuel lfs w = some (r, lfs', w') → FsRun env fuel s (lfs', w')
  | read {lfs lfs' : Lfs} {w w' : World} {r : ℤ} {name : Name} {off len : ℕ} {data : List UInt8} :
    FsRun env fuel s (lfs, w) → lfsRead env lfs name off len w = some (r, data, lfs', w') → FsRun env fuel s (lfs', w')
  | flush {lfs lfs' : Lfs} {w w' : World} : FsRun env fuel s (lfs, w) → lfsFlush env fuel lfs w = some (OK, lfs', w') →
    FsRun env fuel s (lfs', w')

structure NewFs (env : Env) (fuel : ℕ) (lfs : Lfs) (w : World) (start : Lfs) (w' : World) : Prop where
  device : Device lfs w
  pending : lfs.pending = none
  reach : lfs.partOff + lfs.partLen ≤ 2 ^ 32
  format : lfsFormat env fuel lfs w = some (OK, start, w')
  laid : WellLaidOut start

variable {env env' : Env} {lfs lfs' lfs₀ lfs₁ start layout : Lfs} {w w' w₀ w₁ w₂ w₃ : World} {i fuel fuel₁ : ℕ} {r : ℤ}
  {xs ys zs l : List ℕ} {recs : ℕ → List Record} {s t : Lfs × World} {c : FileCall}

section Formatting

theorem lfsWriteSuperblock_holds (hd : Device lfs w) (h : lfsWriteSuperblock env lfs w = (OK, w')) :
    Agree (onDisk w' lfs.partOff) (superblock lfs) 0 lfsBlkSize := by
  unfold lfsWriteSuperblock at h
  split_ifs at h with h1 h2
  · cases h
  · cases h
  · split at h
    · cases h
    · rename_i w₁ hw
      cases h
      unfold blockWrite at hw
      obtain ⟨hok, hw⟩ := Prod.mk.inj hw
      rw [if_pos hok] at hw
      subst hw
      intro j h1 h2
      have hblocks : lfs.secPerBlk * w.next.next.blockSize = lfsBlkSize := hd.blocks
      refine (copy_inside (lfs.partOff * w.next.next.blockSize + j) (Nat.le_add_right _ _) ?_).trans ?_
      · rw [hblocks]
        omega
      · exact congrArg (superblock lfs) (by omega)

theorem LayoutNumbers.reach (h : LayoutNumbers lfs layout) (hlaid : WellLaidOut layout)
    (hlen : lfs.partOff + lfs.partLen ≤ 2 ^ 32) : layout.InReach := by
  refine ⟨?_, fun idx => ⟨?_, ?_⟩⟩
  · have hsegs := hlaid.segs
    have hlast := hlaid.inside (.seg (layout.nSegs - 1)) (Nat.sub_lt hsegs Nat.one_pos)
    simp only [Region.start, Region.blks] at hlast
    have hend : layout.segStart + (layout.nSegs - 1) * lfsSegBlks + lfsSegBlks =
        layout.segStart + layout.nSegs * lfsSegBlks := by
      unfold lfsSegBlks
      omega
    rw [hend, h.partLen] at hlast
    rw [h.partOff]
    omega
  · rw [h.checkpointBlk]
    omega
  · rw [h.segStart]
    exact h.slot_le idx

theorem SegLists.tick (h : SegLists lfs xs ys) : SegLists lfs.tick xs ys :=
  ⟨h.list, h.tail, h.free, h.nodup, h.lt, h.order, h.index, h.fits, h.small⟩

theorem tick_layout : SameLayout lfs lfs.tick := ⟨rfl, rfl, rfl, rfl, rfl, rfl, rfl⟩

structure Inode.Blank (x : Inode) (i : ℕ) : Prop where
  index : x.index = i
  free : x.free = true
  created : x.created = false
  blkCnt : x.blkCnt = 0
  lenReal : x.lenReal = 0
  blks : x.blks = .nil

theorem mount_blank (h : i < lfs.nInodes) : (lfs.mount.inodes i).Blank i := by
  rw [mount_inodes h]
  exact ⟨rfl, rfl, rfl, rfl, rfl, rfl⟩

theorem Durable.blank (hsegs : SegLists lfs [] ys) (ha : Anchored lfs w [] ys) (hd : Device lfs w) (hr : lfs.InReach)
    (hp : lfs.pending = none) (hfew : lfs.nInodes ≤ lfsBlkInode) (hi : ∀ i < lfs.nInodes, (lfs.inodes i).Blank i) :
    Durable lfs w [] ys [] fun _ => [] := by
  refine ⟨⟨hsegs, ha, hd, hr, hp, fun i hi => absurd hi List.not_mem_nil, hfew, fun i h => (hi i h).index, fun i h => ?_,
    fun seg hseg => absurd hseg (Nat.not_lt_zero seg), fun i h => ?_, fun i h => ?_, fun i h hc => ?_, fun i h _ => ?_⟩,
    fun i h hc => ?_, fun i h => ?_, fun i h => ?_, fun i h hc => ?_⟩
  · refine ⟨?_, ?_⟩
    · rw [(hi i h).blkCnt, (hi i h).blks]
      rfl
    · rw [(hi i h).lenReal]
      exact Nat.two_pow_pos 64
  · rw [(hi i h).blks]
    trivial
  · rw [(hi i h).blks]
    trivial
  · rw [(hi i h).free] at hc
    cases hc
  · rw [(hi i h).blks]
    rfl
  · rw [(hi i h).created] at hc
    cases hc
  · rw [(hi i h).blkCnt]
    exact Nat.zero_le _
  · rw [(hi i h).blks]
    rfl
  · rw [(hi i h).created] at hc
    cases hc

theorem formatLayout_pending : (formatLayout lfs).pending = lfs.pending := by
  cases lfs
  rfl

theorem mount_pending : lfs.mount.pending = lfs.pending := by
  unfold Lfs.mount initInodes
  rw [initSegs_eq]

theorem Durable.first (hsegs : SegLists lfs [] (List.range lfs.nSegs)) (hindex : ∀ s < lfs.nSegs, (lfs.segments s).index = s)
    (hd : Device lfs w) (hr : lfs.InReach) (hp : lfs.pending = none) (hfew : lfs.nInodes ≤ lfsBlkInode)
    (hi : ∀ i < lfs.nInodes, (lfs.inodes i).Blank i)
    (hsuper : Agree (onDisk w lfs.partOff) (superblock lfs) 0 lfsBlkSize)
    (hw : lfsWriteCheckpoint env fuel lfs w = some (OK, lfs', w')) (hnew : ∃ idx c, Newest lfs' w' idx c) :
    Durable lfs' w' [] (List.range lfs'.nSegs) [] fun _ => [] := by
  rcases lfsWriteCheckpoint_ok hw with ⟨hr, -, -⟩ | ⟨c, -, hblock, ⟨-, rfl⟩ | ⟨hr, -⟩⟩
  · cases hr
  · have htick : SameLayout lfs lfs.tick := tick_layout
    obtain ⟨idx, d, hnewest⟩ := hnew
    have hlen := hnewest.slots.len
    rw [tick_sameSlots.slotLen] at hlen
    have hdev : Device lfs w.next := ⟨hd.blocks, hd.partOff⟩
    obtain ⟨-, hkeep, hsize⟩ := slot_keeps hdev hr hlen (Nat.zero_le _) hblock
    rw [← htick.superblock] at hsuper
    exact .blank hsegs.tick ⟨rfl, hindex, Agree.trans (Agree.symm hkeep) hsuper, idx, d, hnewest⟩ (htick.device hdev hsize)
      (htick.reach hr) hp hfew hi
  · cases hr

theorem NewFs.durable (h : NewFs env fuel lfs w start w') : Durable start w' [] (List.range start.nSegs) [] fun _ => [] := by
  have hwell := (lfsFormat_wellLaidOut h.format).mp h.laid
  obtain ⟨c, -, hnew⟩ := newest_format h.device h.format
  obtain ⟨w₁, w₂, hzero, hsuper, hwrite⟩ := formatLaidOut_ok (lfsFormat_ok h.format)
  have hnum : LayoutNumbers { lfs with mounted := false } _ := formatLayout_numbers
  have hpending : (formatLayout { lfs with mounted := false }).pending = lfs.pending := formatLayout_pending
  generalize formatLayout { lfs with mounted := false } = layout at hwell hzero hsuper hwrite hnum hpending
  have hdev : Device layout w := ⟨hnum.secPerBlk ▸ h.device.blocks, hnum.partOff ▸ h.device.partOff⟩
  obtain ⟨hsize, -⟩ := hnum.toLaidOut.second_zero ⟨h.device.blocks, h.device.partOff⟩ hzero hsuper
  have hlt : usefulLen { lfs with mounted := false } lfsSegBlks < 2 ^ 32 := Nat.mod_lt _ (by decide)
  have hn := hnum.nSegs
  have hroom := hnum.room
  have hlay : SameLayout layout layout.mount := mount_layout
  have hsegs : SegLists layout.mount [] (List.range layout.mount.nSegs) := by
    rw [hlay.nSegs]
    exact mount_segLists (by omega) (by unfold lfsSegEnd; omega)
  have hfew : layout.mount.nInodes ≤ lfsBlkInode := by
    rw [hlay.nInodes, hnum.nInodes]
    unfold lfsBlkInode
    omega
  have hsize' := (lfsWriteSuperblock_disk hsuper).1.symm.trans hsize
  exact .first hsegs mount_numbers (hlay.device hdev hsize) (hlay.reach (hnum.reach hwell h.reach))
    ((mount_pending.trans hpending).trans h.pending) hfew (fun i hi => mount_blank (mount_nInodes ▸ hi))
    (lfsWriteSuperblock_holds (hlay.device hdev hsize') hsuper) hwrite ⟨0, c, hnew⟩

theorem NewFs.partOff (h : NewFs env fuel lfs w start w') : start.partOff = lfs.partOff := by
  obtain ⟨w₁, w₂, -, -, hwrite⟩ := formatLaidOut_ok (lfsFormat_ok h.format)
  rcases lfsWriteCheckpoint_ok hwrite with ⟨hr, -⟩ | ⟨c, -, -, ⟨-, rfl⟩ | ⟨hr, -⟩⟩
  · cases hr
  · exact (tick_layout.partOff.trans mount_layout.partOff).trans formatLayout_laidOut.partOff
  · cases hr

end Formatting

section Runs

theorem FileCall.run_durable (h : Durable lfs w xs ys l recs) (hok : ∀ n, env.ok n = true) (hfuel : lfs.nInodes < fuel)
    (hfit : c.Fits env lfs w) (hc : c.run env fuel lfs w = some (r, lfs', w')) :
    SameLayout lfs lfs' ∧ ∃ l', Durable lfs' w' xs ys l' recs := by
  cases c with
  | write name buf off => exact h.write hok hfuel hfit hc
  | create name =>
    obtain ⟨⟨r₁, lfs₁⟩, hcall, he⟩ := Option.map_eq_some_iff.mp hc
    cases he
    exact h.create hfuel hcall
  | trunc name len =>
    obtain ⟨⟨r₁, lfs₁⟩, hcall, he⟩ := Option.map_eq_some_iff.mp hc
    cases he
    exact h.trunc hfuel hcall
  | rm name =>
    obtain ⟨⟨r₁, lfs₁⟩, hcall, he⟩ := Option.map_eq_some_iff.mp hc
    cases he
    exact h.rm hfuel hcall

theorem FsRun.durable (h : Durable s.1 s.2 xs ys l recs) (hok : ∀ n, env.ok n = true) (hfuel : s.1.nInodes < fuel)
    (run : FsRun env fuel s t) : SameLayout s.1 t.1 ∧ ∃ xs' ys' l' recs', Durable t.1 t.2 xs' ys' l' recs' := by
  induction run with
  | start => exact ⟨.refl, xs, ys, l, recs, h⟩
  | call c _ hfit hc ih =>
    obtain ⟨hlay, xs, ys, l, recs, hd⟩ := ih
    obtain ⟨hlay', l', hd'⟩ := FileCall.run_durable hd hok (hlay.nInodes ▸ hfuel) hfit hc
    exact ⟨hlay.trans hlay', xs, ys, l', recs, hd'⟩
  | read _ hr ih =>
    obtain ⟨hlay, xs, ys, l, recs, hd⟩ := ih
    obtain ⟨hlay', hd'⟩ := hd.read hr
    exact ⟨hlay.trans hlay', xs, ys, l, recs, hd'⟩
  | flush _ hf ih =>
    obtain ⟨hlay, xs, ys, l, recs, hd⟩ := ih
    obtain ⟨xs', ys', recs', hd', hsame⟩ := hd.flush hf
    exact ⟨hlay.trans hsame.layout, xs', ys', [], recs', hd'⟩

theorem Restored.before (h : Restored lfs₁ w₁ i lfs' w') (hsame : Unchanged lfs w lfs₁ w₁) (hi : i < lfs.nInodes) :
    Restored lfs w i lfs' w' := by
  obtain ⟨bs, hbs, -⟩ := hsame.inodes i
  obtain ⟨hcreated, hused, hname, hcnt, hreal, hblks⟩ := h
  rw [hbs] at hname hcnt hreal hblks
  refine ⟨hcreated, hused, hname, hcnt, hreal, fun hpos => ?_⟩
  obtain ⟨hlisted, hcrc, hcontent⟩ := hblks hpos
  exact ⟨hlisted, hcrc, hcontent.trans (hsame.content i hi)⟩

theorem Blks.All.ready {bs : Blks} (h : bs.All Blk.Sane) (he : bs.ends = true) : bs.Ready := by
  induction bs with
  | nil => trivial
  | wild => cases he
  | cons b bnext ih => exact ⟨h.1.ready, ih h.2 he⟩

theorem lfsWriteCheckpoint_calm (h : SegLists lfs xs ys) (hok : ∀ n, env.ok n = true) (hfuel : lfs.nSegs < fuel) (w : World) :
    ∃ lfs' w', lfsWriteCheckpoint env fuel lfs w = some (OK, lfs', w') := by
  obtain ⟨c, hfill⟩ := h.fill hfuel ((zeros.put32 0 lfsCheckpointMagic).put32 4 0)
  unfold lfsWriteCheckpoint
  rw [if_neg (by rw [hok]; decide)]
  simp only [hfill, blockWrite, hok]
  exact ⟨_, _, rfl⟩

theorem Durable.storable (h : Durable lfs w xs ys l recs) (hi : i < lfs.nInodes) : (lfs.inodes i).Storable := by
  refine ⟨(h.logged.sane i hi).ready (h.ends i hi), ?_⟩
  rw [← (h.logged.ranged i hi).blkCnt]
  exact h.direct i hi

theorem Durable.flush_some (h : Durable lfs w xs ys l recs) (hok : ∀ n, env.ok n = true) (hfree : segsFor lfs l ≤ ys.length)
    (hfuel : segsFor lfs l + l.length + lfs.nSegs < fuel) : ∃ lfs' w', lfsFlush env fuel lfs w = some (OK, lfs', w') := by
  have hfits : FlushFits env lfs l ys.length w :=
    ⟨fun i hi => h.storable (h.logged.lt i hi), hfree, fun n _ => hok _⟩
  obtain ⟨lfs₁, w₁, hloop⟩ := flushLoop_some h.logged.segs h.logged.list h.logged.lt hfits
    (show segsFor lfs l + l.length < fuel by omega)
  obtain ⟨xs', ys', recs', hlog, hsame, -⟩ := h.logged.flushLoop hloop
  have hfuel' : lfs₁.nSegs < fuel := by
    rw [hsame.layout.nSegs]
    omega
  obtain ⟨lfs', w', hwrite⟩ := lfsWriteCheckpoint_calm hlog.segs hok hfuel' w₁
  refine ⟨lfs', w', ?_⟩
  unfold lfsFlush
  rw [hloop]
  exact hwrite

theorem Durable.flushed (h : Durable lfs w xs ys l recs) (hf : lfsFlush env fuel lfs w = some (OK, lfs', w'))
    (hfuel : lfs.nSegs < fuel) : ∃ xs' ys' recs', Durable lfs' w' xs' ys' [] recs' ∧ Unchanged lfs w lfs' w' ∧
      ∃ idx c, Newest lfs' w' idx c ∧ Encoded xs' ys' (c.put32 4 0) := by
  obtain ⟨xs', ys', recs', hlog, hsame, -, lfs₁, w₁, idx, c, hbefore, hlay, hc, hnew⟩ := h.logged.flush hf
  refine ⟨xs', ys', recs', h.unchanged hlog hsame, hsame, idx, c, hnew, hbefore.listed.checkpoint ?_ hc⟩
  rw [← hlay.nSegs, hsame.layout.nSegs]
  exact hfuel

theorem Device.setup {other : Lfs} {partLen : ℕ} (h : Device lfs w)
    (hs : lfsSetup env lfs.partOff partLen other w = (OK, lfs₀, w₀)) :
    lfs₀.partOff = lfs.partOff ∧ lfs₀.secPerBlk = lfs.secPerBlk ∧ SameDisk w w₀ := by
  have hpos : 0 < w.blockSize := by
    apply Nat.pos_of_ne_zero
    intro h0
    have hb := h.blocks
    rw [h0, Nat.mul_zero] at hb
    cases hb
  unfold lfsSetup at hs
  split_ifs at hs
  · cases hs
  · cases hs
    refine ⟨rfl, ?_, rfl, rfl⟩
    change lfsBlkSize / w.blockSize = _
    rw [← h.blocks, Nat.mul_div_cancel _ hpos]

theorem first_written : ∃ start w₁ lfs₁ w₂, NewFs calmEnv 200 blankLfs blankWorld start w₁ ∧
    FsRun calmEnv 200 (start, w₁) (lfs₁, w₂) ∧ start.nSegs = 1 ∧ start.nInodes = 127 ∧
    (lfs₁.inodes 0).created = true ∧ lfs₁.nInodes = 127 ∧
    ∃ lfs' w', lfsFlush calmEnv 200 lfs₁ w₂ = some (OK, lfs', w') := by
  have heval : ((lfsFormat calmEnv 200 blankLfs blankWorld).bind fun a => (lfsCreate 200 (fun _ => 0) a.2.1).bind fun c =>
      (lfsWrite calmEnv 200 c.2 (fun _ => 0) [7] 0 a.2.2).map fun d =>
        decide ((a.1 = OK ∧ a.2.1.nSegs = 1 ∧ a.2.1.nInodes = 127) ∧ (lfsFindInode c.2 (fun _ => 0) false).join = some 0 ∧
          (c.2.inodes 0).blkCnt = 0 ∧ (d.2.1.inodes 0).created = true ∧ d.2.1.nInodes = 127 ∧ d.2.1.nSegs = 1 ∧
          d.2.1.pending = some 0 ∧ d.2.1.wnext 0 = none ∧ d.2.1.segFree = some 0 ∧ (d.2.1.inodes 0).blks.todo = 1)) =
      some true := by
    decide +kernel
  obtain ⟨⟨r₁, start, w⟩, hformat, heval⟩ := Option.bind_eq_some_iff.mp heval
  obtain ⟨⟨r₂, made⟩, hcreate, heval⟩ := Option.bind_eq_some_iff.mp heval
  obtain ⟨⟨r₃, lfs₁, w₂⟩, hwrite, heval⟩ := Option.map_eq_some_iff.mp heval
  obtain ⟨⟨rfl, hn, hi⟩, hfind, hcnt, hcreated, hi₁, hn₁, hp, hnext, hfree, htodo⟩ := of_decide_eq_true heval
  have hnum := @formatLayout_numbers { blankLfs with mounted := false }
  have hnew : NewFs calmEnv 200 blankLfs blankWorld start w :=
    ⟨⟨rfl, by decide⟩, rfl, by decide, hformat,
      (lfsFormat_wellLaidOut hformat).mpr ((hnum.wellLaidOut_iff rfl).mpr (.inl (by decide)))⟩
  have hfits : (FileCall.write (fun _ => 0) [7] 0).Fits calmEnv made w := by
    intro i hi
    rw [hi] at hfind
    cases hfind
    exact .first hcnt (by decide) (by decide) rfl rfl
  have hrun : FsRun calmEnv 200 (start, w) (lfs₁, w₂) := .call (.write (fun _ => 0) [7] 0)
    (.call (.create fun _ => 0) .start trivial (congrArg (Option.map _) hcreate)) hfits hwrite
  refine ⟨start, w, lfs₁, w₂, hnew, hrun, hn, hi, hcreated, hi₁, ?_⟩
  have hlt : start.nInodes < 200 := by
    rw [hi]
    decide
  obtain ⟨-, xs, ys, l, recs, hd⟩ := FsRun.durable hnew.durable (fun _ => rfl) hlt hrun
  obtain rfl : [0] = l := Chain.unique (show Chain lfs₁.wnext lfs₁.pending [0] from ⟨hp, hnext⟩) hd.logged.list
  have hone : segsFor lfs₁ [0] = 1 := by
    unfold segsFor itemsOf
    rw [List.map_singleton, List.sum_singleton, htodo]
    decide
  have hys : 1 ≤ ys.length := by
    cases ys with
    | nil =>
      have hnil := chain_nil.mp hd.logged.segs.free
      rw [hfree] at hnil
      cases hnil
    | cons t ys => exact Nat.succ_le_succ (Nat.zero_le _)
  apply hd.flush_some (fun _ => rfl) (hone.le.trans hys)
  rw [hone, hn₁]
  decide

end Runs

end Agatha.Fs
