import Agatha.Fs.Names

namespace Agatha.Fs

open Library Library.Bytes Library.LinkedList

inductive CallRun (env : Env) (fuel : ℕ) (s : Lfs × World) : Lfs × World → Prop
  | start : CallRun env fuel s s
  | call {lfs lfs' : Lfs} {w w' : World} {r : ℤ} (c : FileCall) : CallRun env fuel s (lfs, w) → c.Fits env lfs w →
    c.run env fuel lfs w = some (r, lfs', w') → CallRun env fuel s (lfs', w')
  | read {lfs lfs' : Lfs} {w w' : World} {r : ℤ} {name : Name} {off len : ℕ} {data : List UInt8} :
    CallRun env fuel s (lfs, w) → lfsRead env lfs name off len w = some (r, data, lfs', w') →
    CallRun env fuel s (lfs', w')

/-- The device once the machine has stopped. A flush fails at any of its calls, with anything where it wrote last; but a
checkpoint that is cut short has not got a good checksum. -/
inductive Stopped (env : Env) (fuel : ℕ) (lfs : Lfs) (w : World) : World → Prop
  | idle : Stopped env fuel lfs w w
  | flushing {lfs' : Lfs} {w' : World} {r : ℤ} : lfsFlush env fuel lfs w = some (r, lfs', w') → r ≠ OK →
    SlotKept lfs w w' lfs.nextSlot ∨ ¬ SlotValid lfs w' lfs.nextSlot → Stopped env fuel lfs w w'

structure Quiet (lfs : Lfs) (w : World) (lfs' : Lfs) (w' : World) : Prop where
  layout : SameLayout lfs lfs'
  stamp : lfs'.checkpointTimestamp = lfs.checkpointTimestamp
  disk : SameDisk w w'

structure KeepsOld (lfs : Lfs) (w w' : World) (n : ℕ) : Prop where
  log : KeepsLog lfs w w' n
  front : KeepsFront lfs w w'

variable {env env' env₂ : Env} {lfs lfs' lfs₀ lfs₁ lfs₂ start kept : Lfs} {w w' w₀ w₁ w₂ w₃ w₄ w₅ : World} {b b' : Blk}
  {bs rest : Blks} {front : List Blk} {i k n m fuel fuel₁ off bOff len made seg : ℕ} {r : ℤ} {name : Name}
  {buf data : List UInt8} {xs ys l : List ℕ} {recs : ℕ → List Record} {s t : Lfs × World} {c : FileCall} {d : Bytes}
  {idx : Fin 2} {y : Inode} {found : Bool}

section Calls

theorem lfsCacheBlk_sameDisk (h : lfsCacheBlk env lfs b w = (r, b', w')) : SameDisk w w' := by
  unfold lfsCacheBlk at h
  by_cases hc : b.cached = true
  · rw [if_pos hc] at h
    cases h
    exact ⟨rfl, rfl⟩
  rw [if_neg hc] at h
  by_cases hok : env.ok w.calls = false
  · rw [if_pos hok] at h
    cases h
    exact ⟨rfl, rfl⟩
  rw [if_neg hok] at h
  dsimp only at h
  have hread : SameDisk w (if b.empty = true then (some (env.junk w.calls), w.next)
      else blockRead env (lfs.sector (lfs.segStart + b.blk)) lfs.secPerBlk (env.junk w.calls) w.next).2 := by
    unfold blockRead
    split_ifs <;> exact ⟨rfl, rfl⟩
  generalize (if b.empty = true then (some (env.junk w.calls), w.next)
    else blockRead env (lfs.sector (lfs.segStart + b.blk)) lfs.secPerBlk (env.junk w.calls) w.next) = p at h hread
  obtain ⟨frame, w₁⟩ := p
  cases frame with
  | none =>
    cases h
    exact hread
  | some frame =>
    dsimp only at h
    split_ifs at h <;>
    · cases h
      exact hread.trans ⟨rfl, rfl⟩

theorem lfsCacheBlk_same (h : lfsCacheBlk env lfs b w = (r, b', w')) : SameBlk b b' := by
  rcases lfsCacheBlk_cases h with rfl | ⟨-, a, rfl⟩
  · exact .refl
  · exact ⟨rfl, rfl, rfl, rfl, rfl⟩

theorem Blks.all_true : bs.All fun _ => True := by
  induction bs with
  | nil => trivial
  | wild => trivial
  | cons b bnext ih => exact ⟨trivial, ih⟩

theorem seekBlk_disk {add : Bool} (h : seekBlk env add k bs w = some (found, front, rest, made, w')) : SameDisk w w' := by
  induction k generalizing bs w found front rest made with
  | zero =>
    cases bs with
    | wild => cases h
    | nil =>
      rw [seekBlk] at h
      split_ifs at h <;>
      · cases h
        exact ⟨rfl, rfl⟩
    | cons b bnext =>
      cases h
      exact ⟨rfl, rfl⟩
  | succ k ih =>
    cases bs with
    | wild => cases h
    | nil =>
      rw [seekBlk] at h
      split_ifs at h
      · cases h
        exact ⟨rfl, rfl⟩
      · cases h
        exact ⟨rfl, rfl⟩
      · obtain ⟨⟨found₁, front₁, rest₁, made₁, w₁⟩, hseek, he⟩ := Option.map_eq_some_iff.mp h
        cases he
        exact SameDisk.next.trans (ih hseek)
    | cons b bnext =>
      rw [seekBlk] at h
      obtain ⟨⟨found₁, front₁, rest₁, made₁, w₁⟩, hseek, he⟩ := Option.map_eq_some_iff.mp h
      cases he
      exact ih hseek

theorem writeLoop_disk (h : writeLoop env lfs fuel bs off bOff buf w = some (r, rest, made, w')) : SameDisk w w' := by
  induction fuel generalizing bs off bOff buf w rest made with
  | zero =>
    cases buf with
    | nil =>
      rw [writeLoop_nil] at h
      cases h
      exact ⟨rfl, rfl⟩
    | cons v buf => cases h
  | succ fuel ih =>
    cases buf with
    | nil =>
      rw [writeLoop_nil] at h
      cases h
      exact ⟨rfl, rfl⟩
    | cons v buf =>
      cases bs with
      | nil =>
        cases h
        exact ⟨rfl, rfl⟩
      | wild => cases h
      | cons b bnext =>
        cases hres : lfsCacheBlk env lfs b w with
        | mk r₁ p =>
          obtain ⟨b₁, w₁⟩ := p
          have hdisk := lfsCacheBlk_sameDisk hres
          by_cases hr : r₁ = OK
          · subst hr
            by_cases hcached : b₁.cached = true
            · rw [writeLoop_next hres hcached rfl] at h
              obtain ⟨⟨r₂, bs₂, made₂, w₂⟩, hrec, he⟩ := Option.map_eq_some_iff.mp h
              cases he
              obtain ⟨-, hdisk₂⟩ := @nextBlk_all env w₁ _ _ _ (fun _ => True) Blks.all_true trivial
              exact (hdisk.trans hdisk₂).trans (ih hrec)
            · rw [writeLoop, hres] at h
              dsimp only at h
              rw [if_neg (not_not.mpr rfl), if_pos (Bool.eq_false_of_not_eq_true hcached)] at h
              cases h
          · rw [writeLoop, hres] at h
            dsimp only at h
            rw [if_pos hr] at h
            cases h
            exact hdisk

theorem Quiet.refl : Quiet lfs w lfs w := ⟨.refl, rfl, rfl, rfl⟩

theorem Quiet.trans (h : Quiet lfs w lfs₁ w₁) (h' : Quiet lfs₁ w₁ lfs' w') : Quiet lfs w lfs' w' :=
  ⟨h.layout.trans h'.layout, h'.stamp.trans h.stamp, h.disk.trans h'.disk⟩

theorem Quiet.set (h : SameDisk w w') : Quiet lfs w (lfs.setInode i y) w' := ⟨⟨rfl, rfl, rfl, rfl, rfl, rfl, rfl⟩, rfl, h⟩

theorem lfsAddPending_quiet (h : lfsAddPending fuel (lfs.setInode i y) i = some lfs') (hs : SameDisk w w') :
    Quiet lfs w lfs' w' := by
  obtain ⟨p, f, rfl⟩ := lfsAddPending_relink h
  exact ⟨⟨rfl, rfl, rfl, rfl, rfl, rfl, rfl⟩, rfl, hs⟩

theorem lfsWrite_quiet (h : lfsWrite env fuel lfs name buf off w = some (r, lfs', w')) : Quiet lfs w lfs' w' := by
  cases hf : lfsFindInode lfs name false with
  | none =>
    rw [lfsWrite, hf] at h
    cases h
  | some o =>
    cases o with
    | none =>
      rw [lfsWrite, hf] at h
      cases h
      exact .refl
    | some i =>
      rw [lfsWrite_found hf] at h
      split at h
      · cases h
      · rename_i found front rest made w₁ hseek
        have hdisk := seekBlk_disk hseek
        by_cases hfound : found = false
        · rw [if_pos hfound] at h
          cases h
          exact .set hdisk
        · rw [if_neg hfound] at h
          split at h
          · cases h
          · rename_i r₁ rest' made' w₂ hloop
            have hdisk' := hdisk.trans (writeLoop_disk hloop)
            by_cases hr : r₁ ≠ OK
            · rw [if_pos hr] at h
              cases h
              exact .set hdisk'
            · rw [if_neg hr] at h
              obtain ⟨lfs₁, hadd, he⟩ := Option.map_eq_some_iff.mp h
              cases he
              exact lfsAddPending_quiet hadd hdisk'

theorem lfsRead_quiet (h : lfsRead env lfs name off len w = some (r, data, lfs', w')) : Quiet lfs w lfs' w' := by
  unfold lfsRead at h
  split at h
  · cases h
  · cases h
    exact .refl
  · rename_i i hf
    simp only [lfsInodeGetBlk_eq] at h
    split_ifs at h
    · cases h
      exact .refl
    · cases h
      exact .refl
    · split at h
      · cases h
      · rename_i found front rest made w₁ hseek
        have hdisk := seekBlk_disk hseek
        split_ifs at h
        · cases h
          exact ⟨.refl, rfl, hdisk⟩
        · obtain ⟨⟨r₁, data₁, rest', w₂⟩, hloop, he⟩ := Option.map_eq_some_iff.mp h
          cases he
          obtain ⟨-, -, -, -, -, hdisk'⟩ := @readLoop_keeps env lfs w₁ _ _ _ _ _ _ _ (fun _ => True) w₁
            (fun _ _ hc => ⟨trivial, lfsCacheBlk_same hc, lfsCacheBlk_sameDisk hc⟩) ⟨rfl, rfl⟩ Blks.all_true hloop
          exact .set (hdisk.trans hdisk')

theorem FileCall.run_quiet (hc : c.run env fuel lfs w = some (r, lfs', w')) : Quiet lfs w lfs' w' := by
  cases c with
  | write name buf off => exact lfsWrite_quiet hc
  | create name =>
    obtain ⟨⟨r₁, lfs₁⟩, hcall, he⟩ := Option.map_eq_some_iff.mp hc
    cases he
    unfold lfsCreate at hcall
    split at hcall
    · cases hcall
    · cases hcall
      exact .refl
    · split at hcall
      · cases hcall
      · cases hcall
        exact .refl
      · obtain ⟨lfs₂, hadd, he⟩ := Option.map_eq_some_iff.mp hcall
        cases he
        exact lfsAddPending_quiet hadd ⟨rfl, rfl⟩
  | trunc name len =>
    obtain ⟨⟨r₁, lfs₁⟩, hcall, he⟩ := Option.map_eq_some_iff.mp hc
    cases he
    unfold lfsTrunc at hcall
    split at hcall
    · cases hcall
    · cases hcall
      exact .refl
    · dsimp only at hcall
      split_ifs at hcall
      · cases hcall
        exact .refl
      · cases hcall
        exact .refl
      · split at hcall
        · cases hcall
        · obtain ⟨lfs₂, hadd, he⟩ := Option.map_eq_some_iff.mp hcall
          cases he
          exact lfsAddPending_quiet hadd ⟨rfl, rfl⟩
  | rm name =>
    obtain ⟨⟨r₁, lfs₁⟩, hcall, he⟩ := Option.map_eq_some_iff.mp hc
    cases he
    unfold lfsRm at hcall
    split at hcall
    · cases hcall
    · cases hcall
      exact .refl
    · split_ifs at hcall
      obtain ⟨lfs₂, hadd, he⟩ := Option.map_eq_some_iff.mp hcall
      cases he
      exact lfsAddPending_quiet hadd ⟨rfl, rfl⟩

theorem CallRun.quiet (run : CallRun env fuel s t) : Quiet s.1 s.2 t.1 t.2 := by
  induction run with
  | start => exact .refl
  | call c _ _ hc ih => exact ih.trans (FileCall.run_quiet hc)
  | read _ hr ih => exact ih.trans (lfsRead_quiet hr)

theorem CallRun.durable (h : Durable s.1 s.2 xs ys l recs) (hok : ∀ n, env.ok n = true) (hfuel : s.1.nInodes < fuel)
    (run : CallRun env fuel s t) : ∃ l', Durable t.1 t.2 xs ys l' recs := by
  induction run with
  | start => exact ⟨l, h⟩
  | call c hrun hfit hc ih =>
    obtain ⟨l', hd⟩ := ih
    obtain ⟨-, hd'⟩ := FileCall.run_durable hd hok (hrun.quiet.layout.nInodes ▸ hfuel) hfit hc
    exact hd'
  | read _ hr ih =>
    obtain ⟨l', hd⟩ := ih
    obtain ⟨-, hd'⟩ := hd.read hr
    exact ⟨l', hd'⟩

end Calls

section Flushing

theorem KeepsOld.same (h : SameDisk w w') : KeepsOld lfs w w' n := ⟨h.log, h.front⟩

theorem KeepsOld.trans (h : KeepsOld lfs w w₁ n) (h' : KeepsOld lfs₁ w₁ w' m) (hlay : SameLayout lfs lfs₁) (hle : n ≤ m) :
    KeepsOld lfs w w' n := by
  refine ⟨fun blk hblk => ?_, h'.front.blockSize.trans h.front.blockSize, fun i hi => ?_⟩
  · have hrest := h'.log blk (hblk.trans_le (Nat.mul_le_mul_right _ hle))
    rw [hlay.blkAt, hlay.blkAt] at hrest
    exact (h.log blk hblk).trans hrest
  · rw [← h.front.disk i hi]
    apply h'.front.disk
    rw [hlay.partOff, hlay.segStart, h.front.blockSize]
    exact hi

theorem KeepsOld.layout (h : KeepsOld lfs₁ w w' n) (hlay : SameLayout lfs lfs₁) : KeepsOld lfs w w' n := by
  refine ⟨fun blk hblk => ?_, h.front.blockSize, fun i hi => h.front.disk i ?_⟩
  · rw [← hlay.blkAt, ← hlay.blkAt]
    exact h.log blk hblk
  · rw [hlay.partOff, hlay.segStart]
    exact hi

theorem flushSeg_old {tail : ℕ} (hd : Device lfs w) (hr : lfs.InReach) (hseg : seg < lfs.nSegs)
    (hf : flushSeg env fuel lfs tail seg w = some (r, lfs', w')) :
    KeepsOld lfs w w' seg ∧ SameLayout lfs lfs' ∧ lfs'.checkpointTimestamp = lfs.checkpointTimestamp := by
  unfold flushSeg at hf
  split_ifs at hf with hmem hmap
  · cases hf
    exact ⟨.same ⟨rfl, rfl⟩, .refl, rfl⟩
  · cases hf
    exact ⟨.same ⟨rfl, rfl⟩, .refl, rfl⟩
  · split at hf
    · cases hf
    · rename_i r₁ lfs₁ cnt frame hfill
      obtain ⟨⟨ts, p, f, hsame⟩, -⟩ := lfsFillSeg_same hfill
      have hlay : SameLayout lfs lfs₁ := hsame ▸ ⟨rfl, rfl, rfl, rfl, rfl, rfl, rfl⟩
      have hstamp : lfs₁.checkpointTimestamp = lfs.checkpointTimestamp := by rw [hsame]
      split_ifs at hf with hr₁
      · cases hf
        exact ⟨.same ⟨rfl, rfl⟩, hlay, hstamp⟩
      · obtain ⟨src, hwritten⟩ : ∃ src, ∀ ok w', blockWrite env (lfs₁.sector (lfs₁.segStart + seg * lfsSegBlks))
            ((1 + cnt) * lfs₁.secPerBlk) frame w.next.next = (ok, w') → SegWritten lfs w seg cnt src w' := by
          refine ⟨if env.ok w.next.next.calls = true then frame else env.junk w.next.next.calls, fun ok w' hw => ?_⟩
          unfold blockWrite at hw
          obtain ⟨-, hw⟩ := Prod.mk.inj hw
          rw [hlay.sector, hlay.secPerBlk] at hw
          subst hw
          exact ⟨rfl, rfl⟩
        split at hf
        · rename_i w₂ hw
          cases hf
          have hseg' := hwritten _ _ hw
          exact ⟨⟨fun blk hblk => hseg'.outside hd hr hseg hblk, hseg'.front hd hr hseg⟩, hlay, hstamp⟩
        · rename_i w₂ hw
          cases hf
          have hseg' := hwritten _ _ hw
          exact ⟨⟨fun blk hblk => hseg'.outside hd hr hseg hblk, hseg'.front hd hr hseg⟩, hlay.trans appendSeg_layout,
            appendSeg_timestamp.trans hstamp⟩

theorem Logged.flushLoop_old (h : Logged lfs w xs ys l recs) (hf : Fs.flushLoop env fuel lfs w = some (r, lfs', w')) :
    KeepsOld lfs w w' xs.length ∧ SameLayout lfs lfs' ∧ lfs'.checkpointTimestamp = lfs.checkpointTimestamp := by
  induction fuel generalizing lfs w xs ys l recs with
  | zero => cases hf
  | succ fuel ih =>
    cases l with
    | nil =>
      rw [Fs.flushLoop, chain_nil.mp h.list] at hf
      cases hf
      exact ⟨.same ⟨rfl, rfl⟩, .refl, rfl⟩
    | cons i l =>
      cases ys with
      | nil =>
        rw [Fs.flushLoop, h.list.1, chain_nil.mp h.segs.free] at hf
        cases hf
      | cons t ys =>
        have hn : xs.length < lfs.nSegs := by
          have hle := h.segs.length_le
          rw [List.length_cons] at hle
          omega
        rw [flushLoop_round h.segs h.list.1] at hf
        split at hf
        · cases hf
        · rename_i r₁ lfs₁ w₁ hseg
          have htake : SameLayout lfs (takeSeg lfs t xs.length) := ⟨rfl, rfl, rfl, rfl, rfl, rfl, rfl⟩
          obtain ⟨htaken, hlay, hstamp⟩ := @flushSeg_old env (takeSeg lfs t xs.length) _ _ _ _ _ _ _
            ⟨h.device.blocks, h.device.partOff⟩ ⟨h.reach.sectors, h.reach.slots⟩ hn hseg
          have hold := htaken.layout htake
          split_ifs at hf with hr
          · cases hf
            exact ⟨hold, htake.trans hlay, hstamp⟩
          · obtain rfl := not_not.mp hr
            obtain ⟨rest, rec, hlog, -⟩ := h.round hseg
            obtain ⟨hold', hlay', hstamp'⟩ := ih hlog hf
            rw [List.length_append, List.length_singleton] at hold'
            exact ⟨hold.trans hold' (htake.trans hlay) (Nat.le_succ _), (htake.trans hlay).trans hlay', hstamp'.trans hstamp⟩

theorem Logged.flush_failed (h : Logged lfs w xs ys l recs) (hnew : Newest lfs w idx d)
    (hf : lfsFlush env fuel lfs w = some (r, lfs', w')) (hr : r ≠ OK)
    (hleft : SlotKept lfs w w' lfs.nextSlot ∨ ¬ SlotValid lfs w' lfs.nextSlot) :
    KeepsLog lfs w w' xs.length ∧ KeepsSuper lfs w w' ∧ w'.blockSize = w.blockSize ∧ Newest lfs w' idx d := by
  have hone := (h.reach.slots 0)
  have hfront : ∀ {lfs₁ w₁}, KeepsFront lfs w w₁ → SameLayout lfs lfs₁ →
      lfs₁.checkpointTimestamp = lfs.checkpointTimestamp → KeepsSuper lfs w w₁ ∧ Newest lfs₁ w₁ idx d := by
    intro lfs₁ w₁ hk hlay hstamp
    constructor
    · intro j _ hj
      unfold onDisk
      rw [hk.blockSize]
      have hle := Nat.mul_le_mul_right lfsBlkSize (show 1 ≤ lfs.segStart by omega)
      exact (hk.disk (lfs.partOff * w.blockSize + j) (by omega)).symm
    · apply hnew.kept hlay.sameSlots hstamp hk.blockSize
      intro idx' j h1 h2
      rw [slotByte_eq h.device h.reach hnew.slots.len] at h1 h2
      have hend := Nat.mul_le_mul_right lfsBlkSize (h.reach.slots idx').2
      unfold Lfs.slotLen at h2
      rw [Nat.add_mul] at hend
      exact hk.disk j (by omega)
  unfold lfsFlush at hf
  split at hf
  · cases hf
  · rename_i r₁ lfs₁ w₁ hloop
    obtain ⟨hold, hlay, hstamp⟩ := h.flushLoop_old hloop
    obtain ⟨hsuper, hnew₁⟩ := hfront hold.front hlay hstamp
    by_cases hr₁ : r₁ ≠ OK
    · rw [if_pos hr₁] at hf
      cases hf
      obtain ⟨-, hnew'⟩ := hfront hold.front .refl rfl
      exact ⟨hold.log, hsuper, hold.front.blockSize, hnew'⟩
    · rw [if_neg hr₁] at hf
      obtain rfl := not_not.mp hr₁
      obtain ⟨xs', ys', recs', hlog, -, hle, -⟩ := h.flushLoop hloop
      rcases lfsWriteCheckpoint_ok hf with ⟨-, rfl, rfl⟩ | ⟨c, -, hblock, ⟨hr', -⟩ | ⟨rfl, rfl⟩⟩
      · have hnext : KeepsFront lfs w w₁.next := ⟨hold.front.blockSize, hold.front.disk⟩
        obtain ⟨hsuper', hnew'⟩ := hfront hnext .refl rfl
        exact ⟨hold.log, hsuper', hnext.blockSize, hnew'⟩
      · exact absurd hr' hr
      · have hn : xs'.length ≤ lfs'.nSegs := (Nat.le_add_right ..).trans hlog.segs.length_le
        have hdev : Device lfs' w₁.next := ⟨hlog.device.blocks, hlog.device.partOff⟩
        obtain ⟨hkeep, hsuper', hsize⟩ := slot_keeps hdev hlog.reach hnew₁.slots.len hn hblock
        have hslots := hlay.sameSlots
        have hnextSlot : lfs'.nextSlot = lfs.nextSlot := by
          unfold Lfs.nextSlot
          rw [hstamp]
        have hleft' : SlotKept lfs' w₁ w' lfs'.nextSlot ∨ ¬ SlotValid lfs' w' lfs'.nextSlot := by
          rw [hnextSlot]
          refine hleft.imp (fun hkept => ?_) fun hbad hgood => hbad ?_
          · unfold SlotKept at hkept ⊢
            rw [hslots.slotByte hold.front.blockSize, hslots.slotLen]
            intro j h1 h2
            rw [hkept j h1 h2]
            rw [slotByte_eq h.device h.reach hnew.slots.len] at h1 h2
            have hend := Nat.mul_le_mul_right lfsBlkSize (h.reach.slots lfs.nextSlot).2
            unfold Lfs.slotLen at h2
            rw [Nat.add_mul] at hend
            exact (hold.front.disk j (by omega)).symm
          · unfold SlotValid at hgood ⊢
            rwa [hslots.slotFrame, hslots.slotLen] at hgood
        have hnew' := hnew₁.fail hf hleft'
        refine ⟨fun blk hblk => ?_, ?_, hsize.trans hold.front.blockSize, ?_⟩
        · have hrest := hkeep blk (hblk.trans_le (Nat.mul_le_mul_right _ hle))
          rw [hlay.blkAt, hlay.blkAt] at hrest
          exact (hold.log blk hblk).trans hrest
        · unfold KeepsSuper at hsuper'
          rw [hlay.partOff] at hsuper'
          exact Agree.trans hsuper hsuper'
        · exact hnew'.kept ⟨hslots.partOff.symm, hslots.secPerBlk.symm, hslots.checkpointBlk.symm,
            hslots.checkpointBlks.symm⟩ hstamp.symm rfl fun _ => .refl

end Flushing

section Recovery

theorem SameLayout.symm (h : SameLayout lfs lfs') : SameLayout lfs' lfs :=
  ⟨h.partOff.symm, h.secPerBlk.symm, h.segStart.symm, h.checkpointBlk.symm, h.checkpointBlks.symm, h.nSegs.symm,
    h.nInodes.symm⟩

theorem Quiet.newest (h : Quiet lfs w lfs' w') (hnew : Newest lfs w idx d) : Newest lfs' w' idx d := by
  apply hnew.kept h.layout.sameSlots h.stamp h.disk.blockSize
  intro j i _ _
  rw [h.disk.disk]

theorem Stopped.keeps (h : Logged lfs w xs ys l recs) (hnew : Newest lfs w idx d) (hstop : Stopped env fuel lfs w w') :
    KeepsLog lfs w w' xs.length ∧ KeepsSuper lfs w w' ∧ w'.blockSize = w.blockSize ∧ Newest lfs w' idx d := by
  cases hstop with
  | idle => exact ⟨fun _ _ => .refl, .refl, rfl, hnew⟩
  | flushing hf hr hleft => exact h.flush_failed hnew hf hr hleft

/-- The machine stops at any time after a flush: if its log has at most one segment, `lfs_load` finds all that there was
right after the flush. -/
theorem crash_recovers {other : Lfs} {partLen : ℕ} (hnew : NewFs env fuel₁ lfs w start w₁) (hok : ∀ n, env.ok n = true)
    (hfuel : start.nSegs + start.nInodes < fuel) (run : FsRun env fuel (start, w₁) (lfs₁, w₂))
    (hflush : lfsFlush env fuel lfs₁ w₂ = some (OK, kept, w₃)) (calls : CallRun env fuel (kept, w₃) (lfs₂, w₄))
    (hstop : Stopped env₂ fuel lfs₂ w₄ w') (hdisk : SameDisk w' w₀)
    (hsetup : lfsSetup env' lfs.partOff partLen other w₀ = (OK, lfs₀, w₅)) (hok' : ∀ n, env'.ok n = true) :
    ∃ xs, Chain (segNext kept) kept.segHead xs ∧ xs.length ≤ start.nSegs ∧
      (xs.length ≤ 1 → ∀ fuel', 1 < fuel' → ∃ found w'', lfsLoad env' fuel' lfs₀ w₅ = some (OK, found, w'') ∧
        Recovered kept w₃ found w'') := by
  have hfuel₀ : start.nInodes < fuel := (Nat.le_add_left ..).trans_lt hfuel
  obtain ⟨hlay, xs, ys, l, recs, hd⟩ := FsRun.durable hnew.durable hok hfuel₀ run
  have hfindable : Findable kept := FsRun.findable hnew.durable hok hfuel₀ hnew.findable (.flush run hflush)
  have hfuel' : lfs₁.nSegs < fuel := by
    rw [hlay.nSegs]
    exact (Nat.le_add_right ..).trans_lt hfuel
  obtain ⟨xs', ys', recs', hd', hsame, idx, d, hnewest, hencoded⟩ := hd.flushed hflush hfuel'
  have hlay' := hlay.trans hsame.layout
  have hquiet : Quiet kept w₃ lfs₂ w₄ := calls.quiet
  obtain ⟨l', hd₂⟩ := calls.durable hd' hok (hlay'.nInodes ▸ hfuel₀)
  obtain ⟨hlog, hsuper, hsize, hnewest₂⟩ := hstop.keeps hd₂.logged (hquiet.newest hnewest)
  -- seen from the state after the flush
  have hlog' : KeepsLog kept w₃ w' xs'.length := by
    intro blk hblk
    have hsame := hlog blk hblk
    rwa [hquiet.layout.blkAt, hquiet.layout.blkAt, hquiet.disk.blkAt] at hsame
  have hsuper' : KeepsSuper kept w₃ w' := by
    unfold KeepsSuper at hsuper ⊢
    rw [hquiet.layout.partOff] at hsuper
    have hdisk₄ : onDisk w₄ kept.partOff = onDisk w₃ kept.partOff := by
      unfold onDisk
      rw [hquiet.disk.disk, hquiet.disk.blockSize]
    rwa [hdisk₄] at hsuper
  have hnewest' : Newest kept w' idx d :=
    hnewest₂.kept hquiet.layout.symm.sameSlots hquiet.stamp.symm rfl fun _ => .refl
  have hanchor : Anchored kept w' xs' ys' :=
    ⟨hd'.logged.anchored.cover, hd'.logged.anchored.numbers, Agree.trans (Agree.symm hsuper') hd'.logged.anchored.super, idx,
      d, hnewest'⟩
  obtain ⟨hkept, hunchanged⟩ := hd'.logged.kept hlog' (hsize.trans hquiet.disk.blockSize) hanchor
  have hoff : kept.partOff = lfs.partOff := hlay'.partOff.trans hnew.partOff
  rw [← hoff] at hsetup
  obtain ⟨hoff', hsec, hdisk'⟩ := (hdisk.device hkept.device).setup hsetup
  have hremount : Remount kept w' xs' ys' lfs₀ w₅ :=
    ⟨hoff', hsec, hdisk.trans hdisk', hlay'.nSegs ▸ hnew.laid.segs, idx, d, hnewest', hencoded⟩
  have hle : xs'.length ≤ start.nSegs := by
    have hlen := hkept.segs.length_le
    rw [hlay'.nSegs] at hlen
    exact (Nat.le_add_right ..).trans hlen
  refine ⟨xs', hkept.segs.list, hle, fun hone fuel' hfuel => ?_⟩
  obtain ⟨found, w'', hload, hs, hlay'', hall⟩ := hkept.load hremount hok' hone hfuel
  have hdev := hlay''.device hkept.device hs.blockSize
  refine ⟨found, w'', hload, hd'.recovered hfindable hdev hlay''.nInodes fun i hi hc => ?_⟩
  exact (hall i hi hc List.not_mem_nil).before hunchanged hi

theorem lfsFlush_refused (hok : ∀ n, env.ok n = false) (h : lfsFlush env fuel lfs w = some (r, lfs', w')) :
    w' = w.next := by
  have hwrite : ∀ lfs₁, lfsWriteCheckpoint env fuel lfs₁ w = some (r, lfs', w') → w' = w.next := by
    intro lfs₁ h
    unfold lfsWriteCheckpoint at h
    rw [if_pos (hok _)] at h
    cases h
    rfl
  unfold lfsFlush at h
  cases fuel with
  | zero => cases h
  | succ fuel =>
    unfold flushLoop at h
    cases hp : lfs.pending with
    | none =>
      rw [hp] at h
      exact hwrite lfs h
    | some p =>
      rw [hp] at h
      cases hs : lfs.segFree with
      | none =>
        rw [hs] at h
        cases h
      | some s =>
        rw [hs] at h
        unfold flushSeg at h
        simp only [hok, if_true] at h
        have hne : ERR ≠ OK := by decide
        split_ifs at h
        cases h
        rfl

def widerLfs : Lfs := { blankLfs with partLen := 6144 }

theorem removed_stopped : ∃ start w₁ lfs₁ w₂ kept w₃ lfs₂ r lfs' w', NewFs calmEnv 400 widerLfs blankWorld start w₁ ∧
    FsRun calmEnv 400 (start, w₁) (lfs₁, w₂) ∧ start.nSegs = 2 ∧ start.nInodes = 255 ∧
    lfsFlush calmEnv 400 lfs₁ w₂ = some (OK, kept, w₃) ∧ (kept.inodes 0).created = true ∧
    kept.segHead = some 0 ∧ (kept.segments 0).next = none ∧ lfsRm 400 (fun _ => 0) kept = some (OK, lfs₂) ∧
    (lfs₂.inodes 0).created = false ∧
    lfsFlush { calmEnv with ok := fun _ => false } 400 lfs₂ w₃ = some (r, lfs', w') ∧ r ≠ OK := by
  have heval : ((lfsFormat calmEnv 400 widerLfs blankWorld).bind fun a => (lfsCreate 400 (fun _ => 0) a.2.1).bind fun c =>
      (lfsWrite calmEnv 400 c.2 (fun _ => 0) [7] 0 a.2.2).bind fun d =>
      (lfsFlush calmEnv 400 d.2.1 d.2.2).bind fun e => (lfsRm 400 (fun _ => 0) e.2.1).bind fun g =>
      (lfsFlush { calmEnv with ok := fun _ => false } 400 g.2 e.2.2).map fun h =>
        decide ((a.1 = OK ∧ a.2.1.nSegs = 2 ∧ a.2.1.nInodes = 255) ∧ (lfsFindInode c.2 (fun _ => 0) false).join = some 0 ∧
          (c.2.inodes 0).blkCnt = 0 ∧ e.1 = OK ∧ (e.2.1.inodes 0).created = true ∧ e.2.1.segHead = some 0 ∧
          (e.2.1.segments 0).next = none ∧ g.1 = OK ∧ (g.2.inodes 0).created = false ∧ h.1 ≠ OK)) = some true := by
    decide +kernel
  obtain ⟨⟨r₁, start, w⟩, hformat, heval⟩ := Option.bind_eq_some_iff.mp heval
  obtain ⟨⟨r₂, made⟩, hcreate, heval⟩ := Option.bind_eq_some_iff.mp heval
  obtain ⟨⟨r₃, lfs₁, w₂⟩, hwrite, heval⟩ := Option.bind_eq_some_iff.mp heval
  obtain ⟨⟨r₄, kept, w₃⟩, hflush, heval⟩ := Option.bind_eq_some_iff.mp heval
  obtain ⟨⟨r₅, lfs₂⟩, hrm, heval⟩ := Option.bind_eq_some_iff.mp heval
  obtain ⟨⟨r₆, lfs', w'⟩, hfailed, heval⟩ := Option.map_eq_some_iff.mp heval
  obtain ⟨⟨rfl, hn, hi⟩, hfind, hcnt, rfl, hcreated, hhead, hnext, rfl, hgone, hne⟩ := of_decide_eq_true heval
  have hnum := @formatLayout_numbers { widerLfs with mounted := false }
  have hnew : NewFs calmEnv 400 widerLfs blankWorld start w :=
    ⟨⟨rfl, by decide⟩, rfl, by decide, hformat,
      (lfsFormat_wellLaidOut hformat).mpr ((hnum.wellLaidOut_iff rfl).mpr (.inl (by decide)))⟩
  have hfits : (FileCall.write (fun _ => 0) [7] 0).Fits calmEnv made w := by
    intro i hi
    rw [hi] at hfind
    cases hfind
    exact .first hcnt (by decide) (by decide) rfl rfl
  have hrun : FsRun calmEnv 400 (start, w) (lfs₁, w₂) := .call (.write (fun _ => 0) [7] 0)
    (.call (.create fun _ => 0) .start trivial (congrArg (Option.map _) hcreate)) hfits hwrite
  exact ⟨start, w, lfs₁, w₂, kept, w₃, lfs₂, r₆, lfs', w', hnew, hrun, hn, hi, hflush, hcreated, hhead, hnext, hrm, hgone,
    hfailed, hne⟩

theorem crash_recovers_removed : ∃ lfs₁ w₂ kept w₃ lfs₂ r lfs' w' lfs₀ w₅ found w'',
    lfsFlush calmEnv 400 lfs₁ w₂ = some (OK, kept, w₃) ∧ (kept.inodes 0).created = true ∧
    (FileCall.rm fun _ => 0).run calmEnv 400 kept w₃ = some (OK, lfs₂, w₃) ∧ (lfs₂.inodes 0).created = false ∧
    lfsFlush { calmEnv with ok := fun _ => false } 400 lfs₂ w₃ = some (r, lfs', w') ∧ r ≠ OK ∧
    Stopped { calmEnv with ok := fun _ => false } 400 lfs₂ w₃ w' ∧
    lfsSetup calmEnv 0 6144 blankLfs w' = (OK, lfs₀, w₅) ∧ lfsLoad calmEnv 2 lfs₀ w₅ = some (OK, found, w'') ∧
    Recovered kept w₃ found w'' := by
  obtain ⟨start, w₁, lfs₁, w₂, kept, w₃, lfs₂, r, lfs', w', hnew, hrun, hn, hi, hflush, hcreated, hhead, hnext, hrm,
    hgone, hfailed, hne⟩ := removed_stopped
  obtain rfl : w' = w₃.next := lfsFlush_refused (fun _ => rfl) hfailed
  have hcall : (FileCall.rm fun _ => 0).run calmEnv 400 kept w₃ = some (OK, lfs₂, w₃) :=
    congrArg (Option.map fun x : ℤ × Lfs => (x.1, x.2, w₃)) hrm
  have hstop : Stopped { calmEnv with ok := fun _ => false } 400 lfs₂ w₃ w₃.next :=
    .flushing hfailed hne (.inl .refl)
  obtain ⟨zs, hchain, -, hload⟩ := crash_recovers hnew (fun _ => rfl) (by rw [hn, hi]; decide) hrun hflush
    (.call (.rm fun _ => 0) .start trivial hcall) hstop ⟨rfl, rfl⟩
    (rfl : lfsSetup calmEnv 0 6144 blankLfs w₃.next = (OK, _, _)) fun _ => rfl
  obtain rfl : [0] = zs := Chain.unique (show Chain (segNext kept) kept.segHead [0] from ⟨hhead, hnext⟩) hchain
  obtain ⟨found, w'', hfound, hrecovered⟩ := hload le_rfl 2 (by decide)
  exact ⟨lfs₁, w₂, kept, w₃, lfs₂, r, lfs', w₃.next, _, _, found, w'', hflush, hcreated, hcall, hgone, hfailed, hne, hstop,
    rfl, hfound, hrecovered⟩

end Recovery

end Agatha.Fs
