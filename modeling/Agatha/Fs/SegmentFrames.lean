import Agatha.Fs.Records

namespace Agatha.Fs

open Library Library.Bytes Library.LinkedList

def place (s : Bytes) (k : ℕ) : Bytes := s.shift ((1 + k) * lfsBlkSize)

structure InFrame (seg : ℕ) (s : Bytes) (cnt : ℕ) (b : Blk) : Prop where
  place : ∃ k < cnt, b.blk = (seg * lfsSegBlks + (1 + k)) % 2 ^ 32 ∧ Agree b.addr (Fs.place s k) 0 lfsBlkSize
  crc : b.crc = crcChecksum b.addr 0 lfsBlkSize
  cached : b.cached = true

def Settled (Q : Blk → Prop) (seg : ℕ) (s : Bytes) (cnt : ℕ) (b : Blk) : Prop :=
  b.written = true → b.empty = false → Q b ∨ InFrame seg s cnt b

structure Extends (s : Bytes) (cnt : ℕ) (s' : Bytes) : Prop where
  header : Agree s s' 0 16
  entries : ∀ k < cnt, s'.get32 (16 + 4 * k) = s.get32 (16 + 4 * k)
  places : ∀ k < cnt, Agree (place s k) (place s' k) 0 lfsBlkSize

structure SameBytes (bs bs' : Blks) : Prop where
  bytes : ∀ lfs w i, bs'.byte lfs w i = bs.byte lfs w i
  ends : bs'.ends = bs.ends
  offs : bs'.offs = bs.offs

structure Inode.Ranged (x : Inode) : Prop where
  blkCnt : x.blkCnt = x.blks.offs.length
  lenReal : x.lenReal < 2 ^ 64

variable {Q : Blk → Prop} {lfs lfs' : Lfs} {bs bs' bs'' : Blks} {b : Blk} {s s' s'' : Bytes} {x : Inode} {full : Bool} {r : ℤ}
  {seg cnt cnt' inode maxBlks n fuel i : ℕ} {l rest : List ℕ}

section Frames

theorem Extends.refl : Extends s cnt s := ⟨.refl, fun _ _ => rfl, fun _ _ => .refl⟩

theorem Extends.trans (h : Extends s cnt s') (h' : Extends s' cnt' s'') (hle : cnt ≤ cnt') : Extends s cnt s'' where
  header := h.header.trans h'.header
  entries k hk := (h'.entries k (by omega)).trans (h.entries k hk)
  places k hk := (h.places k hk).trans (h'.places k (by omega))

theorem InFrame.mono (h : InFrame seg s cnt b) (he : Extends s cnt s') (hle : cnt ≤ cnt') : InFrame seg s' cnt' b := by
  obtain ⟨k, hk, hblk, hagree⟩ := h.place
  exact ⟨⟨k, by omega, hblk, hagree.trans (he.places k hk)⟩, h.crc, h.cached⟩

theorem Settled.mono (h : Settled Q seg s cnt b) (he : Extends s cnt s') (hle : cnt ≤ cnt') : Settled Q seg s' cnt' b :=
  fun hw hempty => (h hw hempty).imp_right fun hf => hf.mono he hle

theorem Blks.All.mono {P P' : Blk → Prop} (h : bs.All P) (hp : ∀ b, P b → P' b) : bs.All P' := by
  induction bs with
  | nil => trivial
  | wild => trivial
  | cons b bnext ih => exact ⟨hp b h.1, ih h.2⟩

theorem SameBytes.refl : SameBytes bs bs := ⟨fun _ _ _ => rfl, rfl, rfl⟩

theorem SameBytes.trans (h : SameBytes bs bs') (h' : SameBytes bs' bs'') : SameBytes bs bs'' :=
  ⟨fun lfs w i => (h'.bytes lfs w i).trans (h.bytes lfs w i), h'.ends.trans h.ends, h'.offs.trans h.offs⟩

theorem SameBytes.cons {b' : Blk} (h : SameBytes bs bs') (hb : ∀ lfs w, blkBytes lfs w b' = blkBytes lfs w b)
    (ho : b'.off = b.off) : SameBytes (.cons b bs) (.cons b' bs') := by
  refine ⟨fun lfs w i => ?_, h.ends, ?_⟩
  · rw [Blks.byte_cons, Blks.byte_cons, hb, h.bytes]
  · rw [Blks.offs, Blks.offs, ho, h.offs]

theorem place_outside {v p : ℕ} (hp : p + 4 ≤ lfsBlkSize) (k : ℕ) : place (s.put32 p v) k = place s k := by
  funext j
  unfold lfsBlkSize at hp
  exact put32_outside _ (.inr (by unfold lfsBlkSize; omega))

theorem copied_extends {c : Bytes} {v : ℕ} (hcnt : cnt < lfsSegBlks - 1) :
    Extends s cnt ((s.copy ((1 + cnt) * lfsBlkSize) c 0 lfsBlkSize).put32 (16 + 4 * cnt) v) := by
  unfold lfsSegBlks at hcnt
  refine ⟨fun j _ hj => ?_, fun k hk => ?_, fun k hk j _ hj => ?_⟩
  · rw [put32_outside j (by omega), copy_outside j (by unfold lfsBlkSize; omega)]
  · rw [get32_put32_ne (by omega)]
    exact get32_congr fun j _ hj => copy_outside j (by unfold lfsBlkSize; omega)
  · rw [place_outside (by unfold lfsBlkSize; omega)]
    unfold lfsBlkSize at hj ⊢
    exact (copy_outside ((1 + k) * 4096 + j) (by omega)).symm

theorem copied_place {c : Bytes} {v : ℕ} (hcnt : cnt < lfsSegBlks - 1) :
    Agree c (place ((s.copy ((1 + cnt) * lfsBlkSize) c 0 lfsBlkSize).put32 (16 + 4 * cnt) v) cnt) 0 lfsBlkSize := by
  unfold lfsSegBlks at hcnt
  intro j _ hj
  rw [place_outside (by unfold lfsBlkSize; omega)]
  change c j = s.copy ((1 + cnt) * lfsBlkSize) c 0 lfsBlkSize ((1 + cnt) * lfsBlkSize + j)
  rw [copy_inside _ (Nat.le_add_right ..) (by omega), Nat.zero_add, Nat.add_sub_cancel_left]

theorem Extends.records (h : Extends s cnt s') (hle : cnt ≤ cnt')
    (hnew : ∀ k, cnt ≤ k → k < cnt' → inodeAt s' k = false)
    (hin : ∀ k < cnt, inodeAt s k = true → InodeBlk n (place s k)) :
    segRecords s' (place s') cnt' = segRecords s (place s) cnt := by
  obtain ⟨d, rfl⟩ := Nat.exists_eq_add_of_le hle
  rw [segRecords_data hnew]
  exact segRecords_congr (fun k hk => by unfold inodeAt; rw [h.entries k hk]) h.places fun k hk hi => (hin k hk hi).blkCnt

theorem Extends.inodes (h : Extends s cnt s') (hnew : ∀ k, cnt ≤ k → k < cnt' → inodeAt s' k = false)
    (hin : ∀ k < cnt, inodeAt s k = true → InodeBlk n (place s k)) (k : ℕ) (hk : k < cnt') (hi : inodeAt s' k = true) :
    InodeBlk n (place s' k) := by
  by_cases hold : k < cnt
  · unfold inodeAt at hi hin
    rw [h.entries k hold] at hi
    exact (hin k hold hi).congr (h.places k hold)
  · rw [hnew k (by omega) hk] at hi
    cases hi

end Frames

section Blocks

structure BlksFilled (Q : Blk → Prop) (seg : ℕ) (bs : Blks) (cnt : ℕ) (s : Bytes) (bs' : Blks) (cnt' : ℕ) (s' : Bytes) :
    Prop where
  le : cnt ≤ cnt'
  extend : Extends s cnt s'
  settled : bs'.All (Settled Q seg s' cnt')
  data : ∀ k, cnt ≤ k → k < cnt' → inodeAt s' k = false
  same : SameBytes bs bs'

theorem BlksFilled.stay (h : bs.All (Settled Q seg s cnt)) : BlksFilled Q seg bs cnt s bs cnt s :=
  ⟨le_rfl, .refl, h, fun k h1 h2 => by omega, .refl⟩

theorem fillBlks_frame (hmax : maxBlks ≤ lfsSegBlks - 1) (hinode : inode < lfsBlkInode) (hcnt : cnt ≤ maxBlks)
    (hs : bs.All (Settled Q seg s cnt)) (h : fillBlks seg maxBlks inode bs cnt s = some (full, bs', cnt', s')) :
    BlksFilled Q seg bs cnt s bs' cnt' s' := by
  induction bs generalizing cnt s bs' with
  | nil =>
    cases h
    exact .stay hs
  | wild => cases h
  | cons b bnext ih =>
    unfold fillBlks at h
    split_ifs at h with hfull hwrite hcached
    · cases h
      exact .stay hs
    · obtain ⟨⟨full₁, bs₁, cnt₁, s₁⟩, hrec, he⟩ := Option.map_eq_some_iff.mp h
      cases he
      have hc : b.cached = true := Bool.eq_true_of_not_eq_false hcached
      have hroom : cnt < lfsSegBlks - 1 := by omega
      have hstep : Extends s cnt ((s.copy ((1 + cnt) * lfsBlkSize) b.addr 0 lfsBlkSize).put32 (16 + 4 * cnt) inode) :=
        copied_extends hroom
      have hf := ih (by omega) (hs.2.mono fun c hc => hc.mono hstep (Nat.le_succ cnt)) hrec
      have hle : cnt + 1 ≤ cnt' := hf.le
      refine ⟨by omega, hstep.trans hf.extend (Nat.le_succ cnt), ⟨fun _ _ => .inr ⟨⟨cnt, hle, rfl, ?_⟩, rfl, hc⟩, hf.settled⟩,
        fun k h1 h2 => ?_, hf.same.cons (fun lfs w => ?_) rfl⟩
      · exact (copied_place hroom).trans (hf.extend.places cnt (Nat.lt_succ_self cnt))
      · by_cases hk : k = cnt
        · have hlt : inode % 2 ^ 32 ≠ lfsBlkInode := by
            unfold lfsBlkInode at hinode ⊢
            omega
          unfold inodeAt
          rw [hk, hf.extend.entries cnt (Nat.lt_succ_self cnt), get32_put32_same]
          exact decide_eq_false hlt
        · exact hf.data k (by omega) h2
      · rw [blkBytes_cached hc, blkBytes_cached (b := b.stored seg cnt) hc]
        rfl
    · obtain ⟨⟨full₁, bs₁, cnt₁, s₁⟩, hrec, he⟩ := Option.map_eq_some_iff.mp h
      cases he
      have hf := ih hcnt hs.2 hrec
      exact ⟨hf.le, hf.extend, ⟨hs.1.mono hf.extend hf.le, hf.settled⟩, hf.data, hf.same.cons (fun _ _ => rfl) rfl⟩

end Blocks

section Inodes

structure Quoted (Q : Blk → Prop) : Prop where
  blk : ∀ b, Q b → b.blk < 2 ^ 32
  crc : ∀ b, Q b → b.crc < 2 ^ 32

theorem Quoted.entry (hq : Quoted Q) (h : Settled Q seg s cnt b) (hb : ¬ (b.written = false ∧ b.empty = false)) :
    b.entry.1 < 2 ^ 32 ∧ b.entry.2 < 2 ^ 32 := by
  unfold Blk.entry
  cases hempty : b.empty with
  | true => exact ⟨Nat.two_pow_pos 32, Nat.two_pow_pos 32⟩
  | false =>
    have hwritten : b.written = true := Bool.eq_true_of_not_eq_false fun hw => hb ⟨hw, hempty⟩
    rcases h hwritten hempty with hold | hnew
    · exact ⟨hq.blk b hold, hq.crc b hold⟩
    · obtain ⟨k, -, hblk, -⟩ := hnew.place
      refine ⟨?_, ?_⟩
      · change b.blk < 2 ^ 32
        rw [hblk]
        exact Nat.mod_lt _ (by decide)
      · change b.crc < 2 ^ 32
        rw [hnew.crc]
        exact crcChecksum_lt

theorem Quoted.entries (hq : Quoted Q) (h : bs.All (Settled Q seg s cnt)) (htodo : bs.todo = 0) :
    ∀ e ∈ bs.entries, e.1 < 2 ^ 32 ∧ e.2 < 2 ^ 32 := by
  induction bs with
  | nil => exact fun e he => absurd he List.not_mem_nil
  | wild => exact fun e he => absurd he List.not_mem_nil
  | cons b bnext ih =>
    rw [Blks.todo] at htodo
    have hb : ¬ (b.written = false ∧ b.empty = false) := by
      intro hb
      rw [if_pos hb] at htodo
      omega
    intro e he
    rcases List.mem_cons.mp he with rfl | he
    · exact hq.entry h.1 hb
    · exact ih h.2 (by omega) e he

theorem length_entries : bs.entries.length = bs.offs.length := by
  induction bs with
  | nil => rfl
  | wild => rfl
  | cons b bnext ih =>
    rw [Blks.entries, Blks.offs, List.length_cons, List.length_cons, ih]

theorem Inode.Ranged.fits (h : x.Ranged) (hi : x.index < 2 ^ 32) (hq : Quoted Q)
    (hs : x.blks.All (Settled Q seg s cnt)) (htodo : x.blks.todo = 0) (hdirect : x.blks.offs.length ≤ nDirectBlks) :
    x.record.Fits where
  index := hi
  blkCnt := by
    have hcnt := h.blkCnt
    unfold nDirectBlks at hdirect
    change x.blkCnt < 2 ^ 32
    omega
  lenReal := h.lenReal
  entries := hq.entries hs htodo
  length := length_entries.trans h.blkCnt.symm

structure FrameFilled (Q : Blk → Prop) (seg : ℕ) (lfs : Lfs) (l : List ℕ) (cnt : ℕ) (s : Bytes) (lfs' : Lfs)
    (rest : List ℕ) (cnt' : ℕ) (s' : Bytes) : Prop where
  list : Chain lfs'.wnext lfs'.pending rest
  records : ∃ done, l = done ++ rest ∧
    segRecords s' (place s') cnt' = segRecords s (place s) cnt ++ done.map fun i => (lfs'.inodes i).record
  header : Agree s s' 0 16
  inodes : ∀ k < cnt', inodeAt s' k = true → InodeBlk lfs.nInodes (place s' k)
  settled : ∀ i < lfs.nInodes, (lfs'.inodes i).blks.All (Settled Q seg s' cnt')
  same : ∀ i, ∃ bs, lfs'.inodes i = { lfs.inodes i with blks := bs } ∧ SameBytes (lfs.inodes i).blks bs
  others : ∀ i, i ∉ l → lfs'.inodes i = lfs.inodes i

theorem FrameFilled.halt (hl : Chain lfs.wnext lfs.pending l)
    (hin : ∀ k < cnt, inodeAt s k = true → InodeBlk lfs.nInodes (place s k))
    (hs : ∀ i < lfs.nInodes, (lfs.inodes i).blks.All (Settled Q seg s cnt)) : FrameFilled Q seg lfs l cnt s lfs l cnt s :=
  ⟨hl, ⟨[], rfl, (List.append_nil _).symm⟩, .refl, hin, hs, fun _ => ⟨_, rfl, .refl⟩, fun _ _ => rfl⟩

theorem setBlks_same (i : ℕ) (h : SameBytes (lfs.inodes i).blks bs) (j : ℕ) : ∃ bs',
    (lfs.setInode i { lfs.inodes i with blks := bs }).inodes j = { lfs.inodes j with blks := bs' } ∧
      SameBytes (lfs.inodes j).blks bs' := by
  by_cases hj : j = i
  · subst hj
    exact ⟨bs, setBlks_self, h⟩
  · exact ⟨_, setBlks_of_ne hj, .refl⟩

theorem BlksFilled.settle (hf : BlksFilled Q seg (lfs.inodes i).blks cnt s bs cnt' s')
    (hs : ∀ j < lfs.nInodes, (lfs.inodes j).blks.All (Settled Q seg s cnt)) (j : ℕ) (hlt : j < lfs.nInodes) :
    ((lfs.setInode i { lfs.inodes i with blks := bs }).inodes j).blks.All (Settled Q seg s' cnt') := by
  by_cases hj : j = i
  · subst hj
    rw [setBlks_self]
    exact hf.settled
  · rw [setBlks_of_ne hj]
    exact (hs j hlt).mono fun b hb => hb.mono hf.extend hf.le

theorem BlksFilled.halt (hf : BlksFilled Q seg (lfs.inodes i).blks cnt s bs cnt' s')
    (hl : Chain lfs.wnext lfs.pending (i :: l))
    (hin : ∀ k < cnt, inodeAt s k = true → InodeBlk lfs.nInodes (place s k))
    (hs : ∀ j < lfs.nInodes, (lfs.inodes j).blks.All (Settled Q seg s cnt)) :
    FrameFilled Q seg lfs (i :: l) cnt s (lfs.setInode i { lfs.inodes i with blks := bs }) (i :: l) cnt' s' := by
  refine ⟨?_, ⟨[], rfl, ?_⟩, hf.extend.header, hf.extend.inodes hf.data hin, hf.settle hs, setBlks_same i hf.same, ?_⟩
  · rw [setBlks_wnext]
    exact hl
  · exact (hf.extend.records hf.le hf.data hin).trans (List.append_nil _).symm
  · intro j hj
    exact setBlks_of_ne fun he => hj (he ▸ List.mem_cons_self)

theorem lfsFillInode_extends (hcnt : cnt < lfsSegBlks - 1)
    (h : lfsFillInode x ((cnt + 1) * lfsBlkSize) s = some (true, s')) {v : ℕ} : Extends s cnt (s'.put32 (16 + 4 * cnt) v) ∧
      place (s'.put32 (16 + 4 * cnt) v) cnt = s'.shift ((cnt + 1) * lfsBlkSize) := by
  unfold lfsSegBlks at hcnt
  have hout := lfsFillInode_outside h
  refine ⟨⟨fun j _ hj => ?_, fun k hk => ?_, fun k hk j _ hj => ?_⟩, ?_⟩
  · rw [put32_outside j (by omega), hout j (by unfold lfsBlkSize; omega)]
  · rw [get32_put32_ne (by omega)]
    exact get32_congr fun j _ hj => hout j (by unfold lfsBlkSize; omega)
  · rw [place_outside (by unfold lfsBlkSize; omega)]
    unfold lfsBlkSize at hj hout
    exact (hout ((1 + k) * 4096 + j) (by omega)).symm
  · rw [place_outside (by unfold lfsBlkSize; omega)]
    unfold place
    rw [Nat.add_comm 1 cnt]

structure InodeFilled (lfs : Lfs) (x : Inode) (cnt : ℕ) (s : Bytes) (cnt' : ℕ) (s' : Bytes) : Prop where
  inodes : ∀ k < cnt', inodeAt s' k = true → InodeBlk lfs.nInodes (place s' k)
  records : segRecords s' (place s') cnt' = segRecords s (place s) cnt ++ [x.record]

theorem lfsFillInode_filled (hcnt : cnt < lfsSegBlks - 1)
    (h : lfsFillInode x ((cnt + 1) * lfsBlkSize) s = some (true, s')) (hfit : x.record.Fits)
    (hx : x.index < lfs.nInodes) (hin : ∀ k < cnt, inodeAt s k = true → InodeBlk lfs.nInodes (place s k)) :
    InodeFilled lfs x cnt s (cnt + 1) (s'.put32 (16 + 4 * cnt) lfsBlkInode) := by
  obtain ⟨hext, hplace⟩ := lfsFillInode_extends hcnt h (v := lfsBlkInode)
  obtain ⟨hvalid, hrecord⟩ := lfsFillInode_record h hfit
  have hlast : inodeAt (s'.put32 (16 + 4 * cnt) lfsBlkInode) cnt = true := by
    unfold inodeAt
    rw [get32_put32_same]
    rfl
  have hblk : InodeBlk lfs.nInodes (place (s'.put32 (16 + 4 * cnt) lfsBlkInode) cnt) := by
    rw [hplace]
    refine ⟨hvalid, ?_, ?_⟩
    · have hi : (readRecord (s'.shift ((cnt + 1) * lfsBlkSize))).index = x.index := congrArg Record.index hrecord
      exact hi.trans_lt hx
    · have hn : (readRecord (s'.shift ((cnt + 1) * lfsBlkSize))).blkCnt = x.blkCnt := congrArg Record.blkCnt hrecord
      have hlen : x.blks.entries.length = x.blkCnt := hfit.length
      have hdirect := lfsFillInode_direct h
      rw [← length_entries] at hdirect
      exact hn.trans_le (hlen ▸ hdirect)
  refine ⟨fun k hk hi => ?_, ?_⟩
  · by_cases hk' : k = cnt
    · rw [hk']
      exact hblk
    · have hlt : k < cnt := by omega
      unfold inodeAt at hi hin
      rw [hext.entries k hlt] at hi
      exact (hin k hlt hi).congr (hext.places k hlt)
  · rw [segRecords_succ, if_pos hlast, hplace, hrecord, hext.records le_rfl (fun k h1 h2 => by omega) hin]

theorem BlksFilled.followed {cnt₁ : ℕ} {s₁ s₂ : Bytes} (hf : BlksFilled Q seg (lfs.inodes i).blks cnt s bs cnt₁ s₁)
    (hin : ∀ k < cnt, inodeAt s k = true → InodeBlk lfs.nInodes (place s k))
    (hl : Chain lfs.wnext lfs.pending (i :: l))
    (hx : InodeFilled lfs { lfs.inodes i with blks := bs } cnt₁ s₁ (cnt₁ + 1) s₂) (hext : Extends s₁ cnt₁ s₂)
    (hrec : FrameFilled Q seg { lfs.setInode i { lfs.inodes i with blks := bs } with pending := (lfs.inodes i).wnext } l
      (cnt₁ + 1) s₂ lfs' rest cnt' s') : FrameFilled Q seg lfs (i :: l) cnt s lfs' rest cnt' s' := by
  have hnot : i ∉ l := (List.nodup_cons.mp hl.nodup).1
  obtain ⟨done, rfl, hrecords⟩ := hrec.records
  have hi : lfs'.inodes i = { lfs.inodes i with blks := bs } := (hrec.others i hnot).trans setBlks_self
  refine ⟨hrec.list, ⟨i :: done, rfl, ?_⟩, ?_, hrec.inodes, hrec.settled, fun j => ?_, fun j hj => ?_⟩
  · rw [hrecords, hx.records, hf.extend.records hf.le hf.data hin, List.append_assoc, List.map_cons, hi]
    rfl
  · exact (hf.extend.header.trans hext.header).trans hrec.header
  · obtain ⟨bs₂, hbs₂, hsame₂⟩ := hrec.same j
    obtain ⟨bs₁, hbs₁, hsame₁⟩ := @setBlks_same lfs bs i hf.same j
    dsimp only at hbs₂ hsame₂
    rw [hbs₁] at hbs₂ hsame₂
    exact ⟨bs₂, hbs₂, hsame₁.trans hsame₂⟩
  · have hjl : j ∉ done ++ rest := fun hmem => hj (List.mem_cons_of_mem i hmem)
    exact (hrec.others j hjl).trans (setBlks_of_ne fun he => hj (he ▸ List.mem_cons_self))

structure Inodes (lfs : Lfs) (l : List ℕ) : Prop where
  few : lfs.nInodes ≤ lfsBlkInode
  index : ∀ i ∈ l, (lfs.inodes i).index = i
  lt : ∀ i ∈ l, i < lfs.nInodes
  ranged : ∀ i ∈ l, (lfs.inodes i).Ranged

theorem Inodes.tail (h : Inodes lfs (i :: l)) (hnot : i ∉ l) {p : Option ℕ} : Inodes
    { lfs.setInode i { lfs.inodes i with blks := bs } with pending := p } l := by
  have hsame : ∀ j ∈ l, (lfs.setInode i { lfs.inodes i with blks := bs }).inodes j = lfs.inodes j := fun j hj =>
    setBlks_of_ne fun he => hnot (he ▸ hj)
  refine ⟨h.few, fun j hj => ?_, fun j hj => h.lt j (List.mem_cons_of_mem i hj), fun j hj => ?_⟩
  · exact (congrArg Inode.index (hsame j hj)).trans (h.index j (List.mem_cons_of_mem i hj))
  · have hr := h.ranged j (List.mem_cons_of_mem i hj)
    rw [← hsame j hj] at hr
    exact hr

theorem fillInodes_frame (hmax : maxBlks ≤ lfsSegBlks - 1) (hcnt : cnt ≤ maxBlks) (hq : Quoted Q)
    (hl : Chain lfs.wnext lfs.pending l) (hn : Inodes lfs l)
    (hin : ∀ k < cnt, inodeAt s k = true → InodeBlk lfs.nInodes (place s k))
    (hs : ∀ i < lfs.nInodes, (lfs.inodes i).blks.All (Settled Q seg s cnt))
    (h : fillInodes seg maxBlks fuel lfs cnt s = some (OK, lfs', cnt', s')) :
    ∃ rest, FrameFilled Q seg lfs l cnt s lfs' rest cnt' s' := by
  induction fuel generalizing lfs l cnt s with
  | zero => cases h
  | succ fuel ih =>
    unfold fillInodes at h
    cases l with
    | nil =>
      rw [chain_nil.mp hl] at h
      cases h
      exact ⟨[], .halt hl hin hs⟩
    | cons i l =>
      have hindex := hn.index i List.mem_cons_self
      have hlt := hn.lt i List.mem_cons_self
      have hfew := hn.few
      rw [hl.1] at h
      dsimp only at h
      split_ifs at h with hfull hwild
      · cases h
        exact ⟨i :: l, .halt hl hin hs⟩
      · split at h
        · cases h
        · rename_i full blks cnt₁ s₁ hblks
          have hf : BlksFilled Q seg (lfs.inodes i).blks cnt s blks cnt₁ s₁ :=
            fillBlks_frame hmax (by omega) hcnt (hs i hlt) hblks
          have hdone := fillBlks_filled hmax hcnt hblks
          split_ifs at h with hstop
          · cases h
            exact ⟨i :: l, hf.halt hl hin hs⟩
          · obtain ⟨hnf, hne⟩ := not_or.mp hstop
            obtain ⟨htodo, -⟩ := hdone.through (Bool.eq_false_of_not_eq_true hnf)
            have hle := hdone.le
            have hroom : cnt₁ < lfsSegBlks - 1 := by omega
            split at h
            · cases h
            · cases h
            · rename_i s₂ hinode
              have hranged : Inode.Ranged { lfs.inodes i with blks := blks } :=
                ⟨(hn.ranged i List.mem_cons_self).blkCnt.trans (congrArg _ hf.same.offs).symm,
                  (hn.ranged i List.mem_cons_self).lenReal⟩
              have hfit := hranged.fits (by unfold lfsBlkInode at hfew; dsimp only; omega) hq hf.settled htodo
                (lfsFillInode_direct hinode)
              have hext := (lfsFillInode_extends hroom hinode (v := lfsBlkInode)).1
              have hx : InodeFilled lfs { lfs.inodes i with blks := blks } cnt₁ s₁ (cnt₁ + 1)
                  (s₂.put32 (16 + 4 * cnt₁) lfsBlkInode) :=
                lfsFillInode_filled hroom hinode hfit (hindex.trans_lt hlt) (hf.extend.inodes hf.data hin)
              have hchain : Chain (lfs.setInode i { lfs.inodes i with blks := blks }).wnext (lfs.inodes i).wnext l := by
                rw [setBlks_wnext]
                exact hl.2
              obtain ⟨rest, hrec⟩ := @ih
                { lfs.setInode i { lfs.inodes i with blks := blks } with pending := (lfs.inodes i).wnext } _ (cnt₁ + 1) l
                (by omega) hchain (hn.tail (List.nodup_cons.mp hl.nodup).1) hx.inodes
                (fun j hj => (hf.settle hs j hj).mono fun b hb => hb.mono hext (Nat.le_succ cnt₁)) h
              exact ⟨rest, hf.followed hin hl hx hext hrec⟩

end Inodes

end Agatha.Fs
