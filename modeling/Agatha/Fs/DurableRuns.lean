import Agatha.Fs.Durability
import Agatha.Fs.Layout

namespace Agatha.Fs

open Library Library.Bytes Library.LinkedList

structure Blk.Safe (lfs : Lfs) (w : World) (n : ℕ) (b : Blk) : Prop extends Blk.Sane b where
  stored : b.Stored lfs w n

structure SameBlk (b b' : Blk) : Prop where
  written : b'.written = b.written
  blk : b'.blk = b.blk
  crc : b'.crc = b.crc
  off : b'.off = b.off
  empty : b'.empty = b.empty

structure Durable (lfs : Lfs) (w : World) (xs ys l : List ℕ) (recs : ℕ → List Record) : Prop where
  logged : Logged lfs w xs ys l recs
  lists : ListsOk lfs
  direct : ∀ i < lfs.nInodes, (lfs.inodes i).blkCnt ≤ nDirectBlks
  ends : ∀ i < lfs.nInodes, (lfs.inodes i).blks.ends = true
  used : ∀ i < lfs.nInodes, (lfs.inodes i).created = true → (lfs.inodes i).free = false

structure Replaces (lfs : Lfs) (w : World) (n i : ℕ) (y : Inode) : Prop where
  index : y.index = i
  wnext : y.wnext = (lfs.inodes i).wnext
  ranged : y.Ranged
  safe : y.blks.All (Blk.Safe lfs w n)
  direct : y.blkCnt ≤ nDirectBlks
  gone : y.created = false → y.blks.ends = true
  used : y.created = true → y.free = false

variable {env : Env} {lfs lfs' lfs₁ : Lfs} {w w' w₀ w₁ w₂ : World} {b b' : Blk} {bs bs' rest rest' : Blks} {name : Name}
  {off bOff len i j k n fuel made : ℕ} {buf data : List UInt8} {front : List Blk} {r : ℤ} {x y : Inode}
  {xs xs' ys ys' l l' : List ℕ} {recs recs' : ℕ → List Record}

section Caching

theorem SameBlk.refl : SameBlk b b := ⟨rfl, rfl, rfl, rfl, rfl⟩

theorem SameBlk.entry (h : SameBlk b b') : b'.entry = b.entry := by
  unfold Blk.entry
  rw [h.empty, h.blk, h.crc]

theorem SameDisk.symm (h : SameDisk w w') : SameDisk w' w := ⟨h.disk.symm, h.blockSize.symm⟩

theorem SameDisk.stored (h : SameDisk w w') (hb : b.Stored lfs w n) : b.Stored lfs w' n :=
  fun hw he => (hb hw he).kept (fun blk _ => by rw [h.blkAt]; exact .refl) .refl le_rfl

theorem SameDisk.safe (h : SameDisk w w') (hb : b.Safe lfs w n) : b.Safe lfs w' n := ⟨hb.toSane, h.stored hb.stored⟩

theorem Blk.Safe.crcOk (h : b.Safe lfs w n) : CrcOk lfs w b := fun hc he => by
  have hw : b.written = true := by
    cases hw : b.written with
    | true => rfl
    | false =>
      have hready := h.ready hw he
      rw [hc] at hready
      cases hready
  exact (h.stored hw he).crc.symm

theorem lfsCacheBlk_safe (hd : Device lfs w) (hs : b.Safe lfs w n) (h : lfsCacheBlk env lfs b w = (r, b', w')) :
    b'.Safe lfs w n ∧ SameBlk b b' ∧ SameDisk w w' := by
  unfold lfsCacheBlk at h
  by_cases hc : b.cached = true
  · rw [if_pos hc] at h
    cases h
    exact ⟨hs, .refl, rfl, rfl⟩
  rw [if_neg hc] at h
  by_cases hmem : env.ok w.calls = false
  · rw [if_pos hmem] at h
    cases h
    exact ⟨hs, .refl, rfl, rfl⟩
  rw [if_neg hmem] at h
  cases hempty : b.empty with
  | true =>
    simp only [hempty, if_true] at h
    split_ifs at h with hmap hcrc
    · cases h
      exact ⟨hs, .refl, rfl, rfl⟩
    · exact absurd hcrc.1 (by decide)
    · cases h
      have hzero : ∀ j < lfsBlkSize, (env.junk w.calls).fill 0 lfsBlkSize 0 j = 0 := fun j hj =>
        fill_inside j (Nat.zero_le j) (by omega)
      exact ⟨⟨⟨fun _ _ => rfl, fun _ _ => hzero⟩, fun _ he => by cases he⟩, ⟨rfl, rfl, rfl, rfl, hempty.symm⟩, rfl, rfl⟩
  | false =>
    have hread : blockRead env (lfs.sector (lfs.segStart + b.blk)) lfs.secPerBlk (env.junk w.calls) w.next =
        (if env.ok w.next.calls = true then
          some ((env.junk w.calls).copy 0 w.disk (lfs.sector (lfs.segStart + b.blk) * w.blockSize)
            (lfs.secPerBlk * w.blockSize))
        else none, w.next.next) := by
      unfold blockRead
      split_ifs <;> rfl
    simp only [hempty, Bool.false_eq_true, if_false, hread] at h
    by_cases hdev : env.ok w.next.calls = true
    · rw [if_pos hdev] at h
      dsimp only at h
      split_ifs at h with hmap hcrc
      · cases h
        exact ⟨hs, .refl, rfl, rfl⟩
      · cases h
        exact ⟨hs, .refl, rfl, rfl⟩
      · cases h
        refine ⟨⟨⟨fun _ _ => rfl, fun he => by cases he⟩, fun hw _ => ?_⟩, ⟨rfl, rfl, rfl, rfl, hempty.symm⟩, rfl, rfl⟩
        have hold := hs.stored hw hempty
        have hagree : Agree (blkAt lfs w b.blk) ((env.junk w.calls).copy 0 w.disk
            (lfs.sector (lfs.segStart + b.blk) * w.blockSize) (lfs.secPerBlk * w.blockSize)) 0 lfsBlkSize := by
          intro j h1 h2
          rw [copy_inside j (Nat.zero_le j) (by rw [hd.blocks]; omega), Nat.sub_zero]
          rfl
        have hbytes := hold.bytes.symm.trans hagree
        refine ⟨hold.place, hagree, hold.crc.trans ?_⟩
        exact crcChecksum_congr fun j hj => hbytes (0 + j) (by omega) (by omega)
    · rw [if_neg hdev] at h
      cases h
      exact ⟨hs, .refl, rfl, rfl⟩

theorem readLoop_keeps {A : Blk → Prop} {w₀ : World} (hcache : ∀ {b r b' w w'}, SameDisk w₀ w → A b →
      lfsCacheBlk env lfs b w = (r, b', w') → A b' ∧ SameBlk b b' ∧ SameDisk w w')
    (hw : SameDisk w₀ w) (ha : bs.All A) (h : readLoop env lfs bs bOff len w = some (r, data, bs', w')) :
    bs'.All A ∧ bs'.entries = bs.entries ∧ bs'.todo = bs.todo ∧ bs'.offs = bs.offs ∧ bs'.ends = bs.ends ∧
      SameDisk w₀ w' := by
  induction bs generalizing bOff len w data bs' with
  | nil =>
    cases len <;>
    · cases h
      exact ⟨ha, rfl, rfl, rfl, rfl, hw⟩
  | wild =>
    cases len with
    | zero =>
      cases h
      exact ⟨ha, rfl, rfl, rfl, rfl, hw⟩
    | succ len => cases h
  | cons b bnext ih =>
    cases len with
    | zero =>
      cases h
      exact ⟨ha, rfl, rfl, rfl, rfl, hw⟩
    | succ len =>
      cases hres : lfsCacheBlk env lfs b w with
      | mk r₁ p =>
        obtain ⟨b₁, w₁⟩ := p
        obtain ⟨hb, hsame, hdisk⟩ := hcache hw ha.1 hres
        have hcons : ∀ {bs'' : Blks}, bs''.entries = bnext.entries → bs''.todo = bnext.todo → bs''.offs = bnext.offs →
            bs''.ends = bnext.ends → (Blks.cons b₁ bs'').entries = (Blks.cons b bnext).entries ∧
              (Blks.cons b₁ bs'').todo = (Blks.cons b bnext).todo ∧ (Blks.cons b₁ bs'').offs = (Blks.cons b bnext).offs ∧
                (Blks.cons b₁ bs'').ends = (Blks.cons b bnext).ends := by
          intro bs'' h1 h2 h3 h4
          refine ⟨?_, ?_, ?_, h4⟩
          · rw [Blks.entries, Blks.entries, hsame.entry, h1]
          · rw [Blks.todo, Blks.todo, hsame.written, hsame.empty, h2]
          · rw [Blks.offs, Blks.offs, hsame.off, h3]
        by_cases hr : r₁ = OK
        · subst hr
          by_cases hcached : b₁.cached = true
          · rw [readLoop_cons hres hcached rfl] at h
            obtain ⟨⟨r₂, data₂, bs₂, w₂⟩, hrec, he⟩ := Option.map_eq_some_iff.mp h
            cases he
            obtain ⟨hall, he₂, ht₂, ho₂, hn₂, hd₂⟩ := ih (hw.trans hdisk) ha.2 hrec
            obtain ⟨h1, h2, h3, h4⟩ := hcons he₂ ht₂ ho₂ hn₂
            exact ⟨⟨hb, hall⟩, h1, h2, h3, h4, hd₂⟩
          · rw [readLoop, hres] at h
            dsimp only at h
            rw [if_neg (not_not.mpr rfl), if_pos (Bool.eq_false_of_not_eq_true hcached)] at h
            cases h
        · rw [readLoop, hres] at h
          dsimp only at h
          rw [if_pos hr] at h
          cases h
          obtain ⟨h1, h2, h3, h4⟩ := @hcons bnext rfl rfl rfl rfl
          exact ⟨⟨hb, ha.2⟩, h1, h2, h3, h4, hw.trans hdisk⟩

theorem nextBlk_all {A : Blk → Prop} (ha : bs.All A) (hnew : A (lfsCreateBlk off)) :
    (nextBlk env off bs buf w).1.All A ∧ SameDisk w (nextBlk env off bs buf w).2.2 := by
  unfold nextBlk
  split
  · split_ifs
    · exact ⟨⟨hnew, trivial⟩, rfl, rfl⟩
    · exact ⟨trivial, rfl, rfl⟩
  · exact ⟨ha, rfl, rfl⟩

theorem create_safe : (lfsCreateBlk off).Safe lfs w n where
  ready _ he := by cases he
  hollow _ hc := by cases hc
  stored hw := by cases hw

theorem writeLoop_safe (hd : Device lfs w₀) (hw : SameDisk w₀ w) (ha : bs.All (Blk.Safe lfs w₀ n))
    (h : writeLoop env lfs fuel bs off bOff buf w = some (r, bs', made, w')) :
    bs'.All (Blk.Safe lfs w₀ n) ∧ SameDisk w₀ w' := by
  induction fuel generalizing bs off bOff buf w bs' made with
  | zero =>
    cases buf with
    | nil =>
      rw [writeLoop_nil] at h
      cases h
      exact ⟨ha, hw⟩
    | cons v buf => cases h
  | succ fuel ih =>
    cases buf with
    | nil =>
      rw [writeLoop_nil] at h
      cases h
      exact ⟨ha, hw⟩
    | cons v buf =>
      cases bs with
      | nil =>
        cases h
        exact ⟨ha, hw⟩
      | wild => cases h
      | cons b bnext =>
        cases hres : lfsCacheBlk env lfs b w with
        | mk r₁ p =>
          obtain ⟨b₁, w₁⟩ := p
          obtain ⟨hb, -, hdisk⟩ := lfsCacheBlk_safe (hw.device hd) (hw.safe ha.1) hres
          have hb₀ : b₁.Safe lfs w₀ n := hw.symm.safe hb
          by_cases hr : r₁ = OK
          · subst hr
            by_cases hcached : b₁.cached = true
            · rw [writeLoop_next hres hcached rfl] at h
              obtain ⟨⟨r₂, bs₂, made₂, w₂⟩, hrec, he⟩ := Option.map_eq_some_iff.mp h
              cases he
              obtain ⟨hnext, hdisk₂⟩ := @nextBlk_all env w₁ _ _ _ _ ha.2 create_safe
              obtain ⟨hall, hd₂⟩ := ih ((hw.trans hdisk).trans hdisk₂) hnext hrec
              exact ⟨⟨⟨⟨fun _ _ => hcached, fun he => by cases he⟩, fun hw => by cases hw⟩, hall⟩, hd₂⟩
            · rw [writeLoop, hres] at h
              dsimp only at h
              rw [if_neg (not_not.mpr rfl), if_pos (Bool.eq_false_of_not_eq_true hcached)] at h
              cases h
          · rw [writeLoop, hres] at h
            dsimp only at h
            rw [if_pos hr] at h
            cases h
            exact ⟨⟨hb₀, ha.2⟩, hw.trans hdisk⟩

end Caching

section Steps

theorem SegLists.with {p : Option ℕ} {f : ℕ → Inode} (h : SegLists lfs xs ys) :
    SegLists { lfs with pending := p, inodes := f } xs ys :=
  ⟨h.list, h.tail, h.free, h.nodup, h.lt, h.order, h.index, h.fits, h.small⟩

theorem Logged.safe (h : Logged lfs w xs ys l recs) (hi : i < lfs.nInodes) :
    (lfs.inodes i).blks.All (Blk.Safe lfs w xs.length) :=
  (h.sane i hi).and (h.stored i hi) |>.mono fun _ hb => ⟨hb.1, hb.2⟩

theorem SameDisk.log (h : SameDisk w w') {m : ℕ} : KeepsLog lfs w w' m := fun blk _ => by
  rw [h.blkAt]
  exact .refl

theorem Logged.touch (h : Logged lfs w xs ys l recs) (hw : SameDisk w w') (hs : bs.All (Blk.Safe lfs w xs.length))
    (he : bs.entries = (lfs.inodes i).blks.entries) (ht : bs.todo = (lfs.inodes i).blks.todo)
    (ho : bs.offs = (lfs.inodes i).blks.offs) :
    Logged (lfs.setInode i { lfs.inodes i with blks := bs }) w' xs ys l recs := by
  have hlay : SameLayout lfs (lfs.setInode i { lfs.inodes i with blks := bs }) := ⟨rfl, rfl, rfl, rfl, rfl, rfl, rfl⟩
  have hcases : ∀ {P : Inode → Prop} (j : ℕ), P (lfs.inodes j) → (j = i → P { lfs.inodes i with blks := bs }) →
      P ((lfs.setInode i { lfs.inodes i with blks := bs }).inodes j) := by
    intro P j hold hnew
    by_cases hj : j = i
    · rw [hj, setBlks_self]
      exact hnew hj
    · rw [setBlks_of_ne hj]
      exact hold
  refine ⟨h.segs.with, h.anchored.move hlay hw.front h.device h.reach h.anchored.numbers rfl,
    hlay.device h.device hw.blockSize, hlay.reach h.reach, ?_, h.lt, h.few, fun j hj => ?_, fun j hj => ?_,
    fun seg hseg => ?_, fun j hj => ?_, fun j hj => ?_, fun j hj => ?_, fun j hj hl => ?_⟩
  · rw [setBlks_wnext]
    exact h.list
  · exact hcases (P := fun x => x.index = j) j (h.index j hj) fun he => he ▸ h.index j hj
  · refine hcases j (h.ranged j hj) fun hji => ⟨?_, ?_⟩
    · exact (hji ▸ (h.ranged j hj).blkCnt).trans (congrArg List.length ho.symm)
    · exact hji ▸ (h.ranged j hj).lenReal
  · exact (h.log seg hseg).congr rfl fun k _ => by
      rw [hlay.blkAt, hw.blkAt]
      exact .refl
  · exact hcases (P := fun x => x.blks.All Blk.Sane) j (h.sane j hj) fun _ => hs.mono fun b hb => hb.toSane
  · refine hcases (P := fun x => x.blks.All (Blk.Stored _ w' xs.length)) j ?_ fun _ => ?_
    · exact (h.stored j hj).mono fun b hb hwr he => (hb hwr he).kept hw.log hlay le_rfl
    · exact hs.mono fun b hb hwr he => (hb.stored hwr he).kept hw.log hlay le_rfl
  · have hrecord : ((lfs.setInode i { lfs.inodes i with blks := bs }).inodes j).record = (lfs.inodes j).record ∧
        ((lfs.setInode i { lfs.inodes i with blks := bs }).inodes j).free = (lfs.inodes j).free := by
      refine hcases (P := fun x => x.record = (lfs.inodes j).record ∧ x.free = (lfs.inodes j).free) j ⟨rfl, rfl⟩
        fun hji => ?_
      subst hji
      refine ⟨?_, rfl⟩
      unfold Inode.record
      rw [he]
    rw [hrecord.1, hrecord.2]
    exact h.saved j hj
  · refine hcases (P := fun x => x.blks.todo = 0) j (h.clean j hj hl) fun hji => ?_
    rw [ht, ← hji]
    exact h.clean j hj hl

theorem Logged.queue (h : Logged lfs w xs ys l recs) (hw : SameDisk w w') (hi : i < lfs.nInodes) (hx : y.index = i)
    (hn : y.wnext = (lfs.inodes i).wnext) (hr : y.Ranged) (hs : y.blks.All (Blk.Safe lfs w xs.length))
    (hfuel : lfs.nInodes < fuel) (ha : lfsAddPending fuel (lfs.setInode i y) i = some lfs') :
    Logged lfs' w' xs ys (i :: l.erase i) recs := by
  have hchain : Chain (lfs.setInode i y).wnext (lfs.setInode i y).pending l := by
    rw [setInode_wnext_eq hn]
    exact h.list
  have hlen : l.length ≤ lfs.nInodes := by
    have hsub : l ⊆ List.range lfs.nInodes := fun j hj => List.mem_range.mpr (h.lt j hj)
    have hle := (List.subperm_of_subset h.list.nodup hsub).length_le
    rwa [List.length_range] at hle
  obtain ⟨p, f, hadd, hc⟩ := lfsAddPending_eq (i := i) hchain h.lt (hlen.trans_lt hfuel)
  obtain rfl : (lfs.setInode i y).relink p f = lfs' := Option.some.inj (hadd.symm.trans ha)
  have hlay : SameLayout lfs ((lfs.setInode i y).relink p f) := ⟨rfl, rfl, rfl, rfl, rfl, rfl, rfl⟩
  have hself : ((lfs.setInode i y).relink p f).inodes i = { y with wnext := f i } := by
    rw [setInode_relink_inodes, if_pos rfl]
  have hother : ∀ j, j ≠ i → ((lfs.setInode i y).relink p f).inodes j = { lfs.inodes j with wnext := f j } := by
    intro j hj
    rw [setInode_relink_inodes, if_neg hj]
  have hrest : ∀ j, j ∉ i :: l.erase i → j ≠ i ∧ j ∉ l := by
    intro j hj
    have hji : j ≠ i := fun he => hj (he ▸ List.mem_cons_self)
    exact ⟨hji, fun hl => hj (List.mem_cons_of_mem i ((List.mem_erase_of_ne hji).mpr hl))⟩
  refine ⟨h.segs.with, h.anchored.move hlay hw.front h.device h.reach h.anchored.numbers rfl,
    hlay.device h.device hw.blockSize, hlay.reach h.reach, hc, fun j hj => ?_, h.few, fun j hj => ?_, fun j hj => ?_,
    fun seg hseg => ?_, fun j hj => ?_, fun j hj => ?_, fun j hj hcr hl => ?_, fun j hj hl => ?_⟩
  · rcases List.mem_cons.mp hj with rfl | hj
    · exact hi
    · exact h.lt j (List.mem_of_mem_erase hj)
  · by_cases hji : j = i
    · rw [hji, hself]
      exact hx
    · rw [hother j hji]
      exact h.index j hj
  · by_cases hji : j = i
    · rw [hji, hself]
      exact ⟨hr.blkCnt, hr.lenReal⟩
    · rw [hother j hji]
      exact ⟨(h.ranged j hj).blkCnt, (h.ranged j hj).lenReal⟩
  · exact (h.log seg hseg).congr rfl fun k _ => by
      rw [hlay.blkAt, hw.blkAt]
      exact .refl
  · by_cases hji : j = i
    · rw [hji, hself]
      exact hs.mono fun b hb => hb.toSane
    · rw [hother j hji]
      exact h.sane j hj
  · by_cases hji : j = i
    · rw [hji, hself]
      exact hs.mono fun b hb hwr he => (hb.stored hwr he).kept hw.log hlay le_rfl
    · rw [hother j hji]
      exact (h.stored j hj).mono fun b hb hwr he => (hb hwr he).kept hw.log hlay le_rfl
  · obtain ⟨hji, hjl⟩ := hrest j hl
    rw [hother j hji] at hcr ⊢
    exact h.saved j hj hcr hjl
  · obtain ⟨hji, hjl⟩ := hrest j hl
    rw [hother j hji]
    exact h.clean j hj hjl

theorem Durable.queue (h : Durable lfs w xs ys l recs) (hfuel : lfs.nInodes < fuel) (hl : ListsOk lfs') (hw : SameDisk w w')
    (hi : i < lfs.nInodes) (ha : lfsAddPending fuel (lfs.setInode i y) i = some lfs')
    (hy : Replaces lfs w xs.length i y) : SameLayout lfs lfs' ∧ ∃ l', Durable lfs' w' xs ys l' recs := by
  have hlog := h.logged.queue hw hi hy.index hy.wnext hy.ranged hy.safe hfuel ha
  obtain ⟨p, f, rfl⟩ := lfsAddPending_relink ha
  refine ⟨⟨rfl, rfl, rfl, rfl, rfl, rfl, rfl⟩, _, hlog, hl, fun j hj => ?_, fun j hj => ?_, fun j hj => ?_⟩
  · rw [setInode_relink_inodes]
    by_cases hji : j = i
    · rw [if_pos hji]
      exact hy.direct
    · rw [if_neg hji]
      exact h.direct j hj
  · have hsound := hl j hj
    rw [setInode_relink_inodes] at hsound ⊢
    by_cases hji : j = i
    · rw [if_pos hji] at hsound ⊢
      cases hc : y.created with
      | true => exact (hsound hc).ends
      | false => exact hy.gone hc
    · rw [if_neg hji]
      exact h.ends j hj
  · rw [setInode_relink_inodes]
    by_cases hji : j = i
    · rw [if_pos hji]
      exact hy.used
    · rw [if_neg hji]
      exact h.used j hj

theorem Durable.written (h : Durable lfs w xs ys l recs) (hfuel : lfs.nInodes < fuel) (hl : ListsOk lfs')
    (hw : SameDisk w w₁) (hi : i < lfs.nInodes) (hy : Replaces lfs w xs.length i y)
    (ha : (lfsAddPending fuel (lfs.setInode i y) i).map (fun lfs => (OK, lfs, w₁)) = some (r, lfs', w')) :
    SameLayout lfs lfs' ∧ ∃ l', Durable lfs' w' xs ys l' recs := by
  obtain ⟨lfs₁, hadd, he⟩ := Option.map_eq_some_iff.mp ha
  cases he
  exact h.queue hfuel hl hw hi hadd hy

theorem findFrom_creating {h : ℕ} (hi : i < lfs.nInodes) (hf : findFrom lfs name true h fuel i = some (some j)) :
    j < lfs.nInodes := by
  induction fuel generalizing i with
  | zero => cases hf
  | succ fuel ih =>
    unfold findFrom at hf
    dsimp only at hf
    rw [if_pos rfl] at hf
    split_ifs at hf with hvacant hend
    · cases hf
      exact hi
    · cases hf
    · exact ih (Nat.mod_lt _ (by omega)) hf

theorem lfsFindInode_creating (hn : 0 < lfs.nInodes) (hf : lfsFindInode lfs name true = some (some i)) :
    i < lfs.nInodes := findFrom_creating (lfsHash_lt hn) hf

theorem lfsFindInode_pos {creating : Bool} (hf : lfsFindInode lfs name creating = some (some i)) : 0 < lfs.nInodes := by
  apply Nat.pos_of_ne_zero
  intro h0
  unfold lfsFindInode at hf
  rw [h0] at hf
  cases hf

theorem Durable.create (h : Durable lfs w xs ys l recs) (hfuel : lfs.nInodes < fuel)
    (hc : lfsCreate fuel name lfs = some (r, lfs')) : SameLayout lfs lfs' ∧ ∃ l', Durable lfs' w xs ys l' recs := by
  have hlists := lfsCreate_lists h.lists hc
  unfold lfsCreate at hc
  split at hc
  · cases hc
  · cases hc
    exact ⟨.refl, l, h⟩
  · split at hc
    · cases hc
    · cases hc
      exact ⟨.refl, l, h⟩
    · rename_i i hf
      have hi := lfsFindInode_creating (lfsFindInode_pos hf) hf
      obtain ⟨lfs₁, hadd, he⟩ := Option.map_eq_some_iff.mp hc
      cases he
      apply h.queue hfuel hlists ⟨rfl, rfl⟩ hi hadd
      exact ⟨h.logged.index i hi, rfl, ⟨rfl, Nat.two_pow_pos 64⟩, trivial, Nat.zero_le _, fun _ => rfl, fun _ => rfl⟩

theorem Durable.rm (h : Durable lfs w xs ys l recs) (hfuel : lfs.nInodes < fuel)
    (hc : lfsRm fuel name lfs = some (r, lfs')) : SameLayout lfs lfs' ∧ ∃ l', Durable lfs' w xs ys l' recs := by
  have hlists := lfsRm_lists h.lists hc
  unfold lfsRm at hc
  split at hc
  · cases hc
  · cases hc
    exact ⟨.refl, l, h⟩
  · rename_i i hf
    obtain ⟨hi, -⟩ := lfsFindInode_found hf
    split_ifs at hc with hends
    obtain ⟨lfs₁, hadd, he⟩ := Option.map_eq_some_iff.mp hc
    cases he
    apply h.queue hfuel hlists ⟨rfl, rfl⟩ hi hadd
    exact ⟨h.logged.index i hi, rfl, ⟨rfl, (h.logged.ranged i hi).lenReal⟩, trivial, Nat.zero_le _, fun _ => rfl,
      fun hc => by cases hc⟩

theorem Durable.trunc (h : Durable lfs w xs ys l recs) (hfuel : lfs.nInodes < fuel)
    (hc : lfsTrunc fuel name len lfs = some (r, lfs')) : SameLayout lfs lfs' ∧ ∃ l', Durable lfs' w xs ys l' recs := by
  have hlists := lfsTrunc_lists h.lists hc
  unfold lfsTrunc at hc
  split at hc
  · cases hc
  · cases hc
    exact ⟨.refl, l, h⟩
  · rename_i i hf
    obtain ⟨hi, hcreated⟩ := lfsFindInode_found hf
    dsimp only at hc
    split_ifs at hc with hlt heq
    · cases hc
      exact ⟨.refl, l, h⟩
    · cases hc
      exact ⟨.refl, l, h⟩
    · split at hc
      · cases hc
      · rename_i bs n htrunc
        obtain ⟨lfs₁, hadd, he⟩ := Option.map_eq_some_iff.mp hc
        cases he
        obtain ⟨front, rest, hblks, rfl, rfl, -, -⟩ := truncBlks_spec htrunc
        have hsafe := h.logged.safe hi
        have hcnt := (h.logged.ranged i hi).blkCnt
        have hdirect := h.direct i hi
        have hlen := (h.logged.ranged i hi).lenReal
        rw [hblks, Blks.length_behind] at hcnt
        rw [hblks] at hsafe
        have hlenfront : (Blks.nil.behind front).offs.length = front.length := Blks.length_behind
        apply h.queue hfuel hlists ⟨rfl, rfl⟩ hi hadd
        refine ⟨h.logged.index i hi, rfl, ⟨hlenfront.symm, ?_⟩,
          Blks.all_behind.mpr ⟨(Blks.all_behind.mp hsafe).1, trivial⟩, ?_, fun hno => ?_, fun _ => h.used i hi hcreated⟩
        · change len < 2 ^ 64
          omega
        · change front.length ≤ nDirectBlks
          omega
        · rw [hcreated] at hno
          cases hno

theorem Durable.write (h : Durable lfs w xs ys l recs) (hok : ∀ n, env.ok n = true) (hfuel : lfs.nInodes < fuel)
    (hfit : ∀ i, lfsFindInode lfs name false = some (some i) → WriteFits env w (lfs.inodes i) off buf.length)
    (hw : lfsWrite env fuel lfs name buf off w = some (r, lfs', w')) :
    SameLayout lfs lfs' ∧ ∃ l', Durable lfs' w' xs ys l' recs := by
  have hlists := lfsWrite_lists h.lists hfit hw
  cases hf : lfsFindInode lfs name false with
  | none =>
    rw [lfsWrite, hf] at hw
    cases hw
  | some o =>
    cases o with
    | none =>
      rw [lfsWrite, hf] at hw
      cases hw
      exact ⟨.refl, l, h⟩
    | some i =>
      obtain ⟨hi, hcreated⟩ := lfsFindInode_found hf
      have hx := h.lists i hi hcreated
      have hcount := hx.length
      have hreal := hx.len
      have hdirect := h.direct i hi
      have hsafe := h.logged.safe hi
      have hdev := h.logged.device
      -- what is left to show once the new inode is known
      have hdone : ∀ (bs : Blks) (c m : ℕ), bs.offs.length = c → c ≤ nDirectBlks → m ≤ lfsBlkSize * c →
          bs.All (Blk.Safe lfs w xs.length) →
          Replaces lfs w xs.length i { lfs.inodes i with blks := bs, blkCnt := c, lenReal := m } := by
        intro bs c m h1 h2 h3 h4
        refine ⟨h.logged.index i hi, rfl, ⟨h1.symm, ?_⟩, h4, h2, fun hno => ?_, fun _ => h.used i hi hcreated⟩
        · unfold nDirectBlks at h2
          unfold lfsBlkSize at h3
          change m < 2 ^ 64
          omega
        · rw [hcreated] at hno
          cases hno
      rw [lfsWrite_found hf] at hw
      rcases hfit i hf with ⟨hfirst, hlast⟩ | ⟨-, hno⟩ | ⟨hnone, hpos, hlast, -, -⟩
      · obtain ⟨front, rest, hseek, hblks, hfront⟩ := seekBlk_found env w true (hcount.symm ▸ hfirst)
        have halign : alignDown off lfsBlkSize = lfsBlkSize * front.length := by rw [hfront, align_eq]
        have hdown := align_le off
        rw [hblks, Blks.length_behind] at hcount
        rw [hblks] at hsafe
        obtain ⟨hsf, hsr⟩ := Blks.all_behind.mp hsafe
        have hsize : lfsBlkSize * (lfs.inodes i).blkCnt =
            lfsBlkSize * front.length + lfsBlkSize * rest.offs.length := by
          rw [← hcount, Nat.mul_add]
        obtain ⟨rest', w₁, hloop, hdisk, -, hoffs, -⟩ := @writeLoop_ok env lfs w rest (off - alignDown off lfsBlkSize)
          buf buf.length off hok hdev (hsr.mono fun b hb => hb.crcOk) (align_lt off) (by omega) le_rfl
        obtain ⟨hsr', -⟩ := writeLoop_safe hdev ⟨rfl, rfl⟩ hsr hloop
        have hlen : (Blks.behind front rest').offs.length = (lfs.inodes i).blkCnt := by
          rw [Blks.length_behind, hoffs, hcount]
        have hall : (Blks.behind front rest').All (Blk.Safe lfs w xs.length) := Blks.all_behind.mpr ⟨hsf, hsr'⟩
        rw [hseek] at hw
        simp only [hloop, Bool.true_eq_false, if_false, Nat.add_zero, ne_eq, not_true_eq_false] at hw
        refine h.written hfuel hlists hdisk hi ?_ hw
        split_ifs
        · exact hdone _ _ _ hlen hdirect hlast hall
        · exact hdone _ _ _ hlen hdirect hreal hall
      · rw [hok] at hno
        cases hno
      · have hk : off / lfsBlkSize = 0 := Nat.div_eq_of_lt (by omega)
        have hdown : alignDown off lfsBlkSize = 0 := by
          rw [align_eq, hk, Nat.mul_zero]
        have hnil : (lfs.inodes i).blks = .nil := by
          have hends := hx.ends
          rw [hnone] at hcount
          cases hb : (lfs.inodes i).blks with
          | nil => rfl
          | wild =>
            rw [hb] at hends
            cases hends
          | cons b bnext =>
            rw [hb] at hcount
            cases hcount
        obtain ⟨b, -, -, hloop⟩ := @writeLoop_first env lfs w.next off buf (List.length_pos_iff.mp hpos) hlast (hok _) (hok _)
        have hnew : (Blks.cons (lfsCreateBlk 0) .nil).All (Blk.Safe lfs w xs.length) := ⟨create_safe, trivial⟩
        obtain ⟨hall, hdisk⟩ := writeLoop_safe hdev SameDisk.next hnew hloop
        rw [hnone, Nat.mul_zero] at hreal
        rw [hk, hnil, hdown, Nat.sub_zero, hnone] at hw
        simp only [seekBlk, hok, hloop, Bool.true_eq_false, if_false, Nat.add_zero, Nat.zero_add, ne_eq,
          not_true_eq_false] at hw
        refine h.written hfuel hlists hdisk hi ?_ hw
        split_ifs
        · exact hdone (.cons b .nil) 1 _ rfl (by decide) hlast hall
        · exact hdone (.cons b .nil) 1 _ rfl (by decide) (hreal.trans (Nat.zero_le _)) hall

theorem ListsOk.touch (h : ListsOk lfs) (ho : bs.offs = (lfs.inodes i).blks.offs) (he : bs.ends = (lfs.inodes i).blks.ends)
    (hs : (lfs.inodes i).blks.All Blk.FieldsSet → bs.All Blk.FieldsSet) :
    ListsOk (lfs.setInode i { lfs.inodes i with blks := bs }) := by
  intro j hj hc
  by_cases hji : j = i
  · subst hji
    rw [setBlks_self] at hc ⊢
    have hx := h j hj hc
    exact ⟨⟨he.trans hx.ends, ho.trans hx.offs⟩, hs hx.set, hx.len⟩
  · rw [setBlks_of_ne hji] at hc ⊢
    exact h j hj hc

theorem Durable.touch (h : Durable lfs w xs ys l recs) (hw : SameDisk w w') (hs : bs.All (Blk.Safe lfs w xs.length))
    (he : bs.entries = (lfs.inodes i).blks.entries) (ht : bs.todo = (lfs.inodes i).blks.todo)
    (ho : bs.offs = (lfs.inodes i).blks.offs) (hn : bs.ends = (lfs.inodes i).blks.ends)
    (hf : (lfs.inodes i).blks.All Blk.FieldsSet → bs.All Blk.FieldsSet) :
    Durable (lfs.setInode i { lfs.inodes i with blks := bs }) w' xs ys l recs := by
  refine ⟨h.logged.touch hw hs he ht ho, h.lists.touch ho hn hf, fun j hj => ?_, fun j hj => ?_, fun j hj => ?_⟩
  · by_cases hji : j = i
    · subst hji
      rw [setBlks_self]
      exact h.direct j hj
    · rw [setBlks_of_ne hji]
      exact h.direct j hj
  · by_cases hji : j = i
    · subst hji
      rw [setBlks_self]
      exact hn.trans (h.ends j hj)
    · rw [setBlks_of_ne hji]
      exact h.ends j hj
  · by_cases hji : j = i
    · subst hji
      rw [setBlks_self]
      exact h.used j hj
    · rw [setBlks_of_ne hji]
      exact h.used j hj

theorem todo_behind : (Blks.behind front rest).todo = (Blks.behind front .nil).todo + rest.todo := by
  induction front with
  | nil => exact (Nat.zero_add _).symm
  | cons b front ih =>
    change _ + (Blks.behind front rest).todo = _ + (Blks.behind front .nil).todo + rest.todo
    rw [ih, Nat.add_assoc]

theorem entries_behind : (Blks.behind front rest).entries = front.map Blk.entry ++ rest.entries := by
  induction front with
  | nil => rfl
  | cons b front ih => exact congrArg (b.entry :: ·) ih

theorem Durable.read (h : Durable lfs w xs ys l recs) (hr : lfsRead env lfs name off len w = some (r, data, lfs', w')) :
    SameLayout lfs lfs' ∧ Durable lfs' w' xs ys l recs := by
  unfold lfsRead at hr
  split at hr
  · cases hr
  · cases hr
    exact ⟨.refl, h⟩
  · rename_i i hf
    obtain ⟨hi, hcreated⟩ := lfsFindInode_found hf
    simp only [lfsInodeGetBlk_eq] at hr
    split_ifs at hr with hlen hprod
    · cases hr
      exact ⟨.refl, h⟩
    · cases hr
      exact ⟨.refl, h⟩
    · split at hr
      · cases hr
      · rename_i found front rest made w₁ hseek
        have hsame : w₁ = w := seekBlk_world hseek
        subst hsame
        split_ifs at hr with hfound
        · cases hr
          exact ⟨.refl, h⟩
        · have hfound' : found = true := Bool.eq_true_of_not_eq_false hfound
          subst hfound'
          obtain ⟨hblks, -, -, -⟩ := seekBlk_spec hseek
          obtain ⟨⟨r₁, data₁, rest', w₂⟩, hloop, he⟩ := Option.map_eq_some_iff.mp hr
          cases he
          have hsafe := h.logged.safe hi
          rw [hblks] at hsafe
          obtain ⟨hsf, hsr⟩ := Blks.all_behind.mp hsafe
          have hdev := h.logged.device
          obtain ⟨hsr', hent, htodo, hoffs, hends, hdisk⟩ := @readLoop_keeps env lfs w₁ _ _ _ _ _ _ _
            (Blk.Safe lfs w₁ xs.length) w₁ (fun hw hb hc => by
              obtain ⟨h1, h2, h3⟩ := lfsCacheBlk_safe (hw.device hdev) (hw.safe hb) hc
              exact ⟨hw.symm.safe h1, h2, h3⟩) ⟨rfl, rfl⟩ hsr hloop
          have hset : rest.All Blk.FieldsSet → rest'.All Blk.FieldsSet := fun hset =>
            (@readLoop_keeps env lfs w₁ _ _ _ _ _ _ _ (fun b => b.Safe lfs w₁ xs.length ∧ b.FieldsSet) w₁
              (fun hw hb hc => by
                obtain ⟨h1, h2, h3⟩ := lfsCacheBlk_safe (hw.device hdev) (hw.safe hb.1) hc
                exact ⟨⟨hw.symm.safe h1, (lfsCacheBlk_fields hc).2 hb.2⟩, h2, h3⟩) ⟨rfl, rfl⟩ (hsr.and hset) hloop).1.mono
              fun b hb => hb.2
          refine ⟨⟨rfl, rfl, rfl, rfl, rfl, rfl, rfl⟩, ?_⟩
          apply h.touch hdisk (Blks.all_behind.mpr ⟨hsf, hsr'⟩)
          · rw [hblks, entries_behind, entries_behind, hent]
          · rw [hblks, todo_behind, @todo_behind rest, htodo]
          · rw [hblks, Blks.offs_behind, Blks.offs_behind, hoffs]
          · rw [hblks, Blks.ends_behind, Blks.ends_behind, hends]
          · rw [hblks]
            intro hold
            obtain ⟨h1, h2⟩ := Blks.all_behind.mp hold
            exact Blks.all_behind.mpr ⟨h1, hset h2⟩

theorem Unchanged.lists (h : Unchanged lfs w lfs' w') (hl : ListsOk lfs) : ListsOk lfs' := by
  intro i hi hc
  rw [h.layout.nInodes] at hi
  obtain ⟨bs, hbs, hends, hoffs, hset⟩ := h.inodes i
  rw [hbs] at hc ⊢
  have hx := hl i hi hc
  exact ⟨⟨hends.trans hx.ends, hoffs.trans hx.offs⟩, hset hx.set, hx.len⟩

theorem Durable.unchanged (h : Durable lfs w xs ys l recs) (hlog : Logged lfs' w' xs' ys' l' recs')
    (hsame : Unchanged lfs w lfs' w') : Durable lfs' w' xs' ys' l' recs' := by
  refine ⟨hlog, hsame.lists h.lists, fun i hi => ?_, fun i hi => ?_, fun i hi => ?_⟩
  · rw [hsame.layout.nInodes] at hi
    obtain ⟨bs, hbs, -⟩ := hsame.inodes i
    rw [hbs]
    exact h.direct i hi
  · rw [hsame.layout.nInodes] at hi
    obtain ⟨bs, hbs, hends, -⟩ := hsame.inodes i
    rw [hbs]
    exact hends.trans (h.ends i hi)
  · rw [hsame.layout.nInodes] at hi
    obtain ⟨bs, hbs, -⟩ := hsame.inodes i
    rw [hbs]
    exact h.used i hi

theorem Durable.flush (h : Durable lfs w xs ys l recs) (hf : lfsFlush env fuel lfs w = some (OK, lfs', w')) :
    ∃ xs' ys' recs', Durable lfs' w' xs' ys' [] recs' ∧ Unchanged lfs w lfs' w' := by
  obtain ⟨xs', ys', recs', hlog, hsame, -⟩ := h.logged.flush hf
  exact ⟨xs', ys', recs', h.unchanged hlog hsame, hsame⟩

end Steps

end Agatha.Fs
