import Agatha.Fs.BlockLists

namespace Agatha.Fs

open Library Library.Bytes

def Blk.loads (b : Blk) : ℕ := if b.cached then 0 else if b.empty then 2 else 3

def loads (bs : List Blk) : ℕ := (bs.map Blk.loads).sum

def Smooth (env : Env) (w : World) (n : ℕ) : Prop := ∀ m < n, env.ok (w.calls + m) = true

structure Bad (lfs : Lfs) (w : World) (b : Blk) : Prop where
  uncached : b.cached = false
  used : b.empty = false
  crc : crcChecksum (blkBytes lfs w b) 0 lfsBlkSize ≠ b.crc

structure FirstBad (lfs : Lfs) (w : World) (x : Inode) (off len : ℕ) (front : List Blk) (b : Blk) (rest : Blks) :
    Prop where
  blks : x.blks = (Blks.cons b rest).behind front
  start : off / lfsBlkSize ≤ front.length
  reach : lfsBlkSize * front.length < off + len
  pos : 0 < len
  good : ∀ c ∈ front.drop (off / lfsBlkSize), CrcOk lfs w c
  bad : Bad lfs w b

variable {env : Env} {lfs lfs' : Lfs} {w w' w₁ : World} {b c : Blk} {bs rest : Blks} {name : Name}
  {off bOff len i k m n fuel made : ℕ} {buf data : List UInt8} {front : List Blk} {r : ℤ} {x : Inode}

section Calls

theorem Smooth.first (h : Smooth env w n) (hn : 0 < n) : env.ok w.calls = true := h 0 hn

theorem smooth_add (w' : World) (hw : w'.calls = w.calls + m) : Smooth env w (m + n) ↔ Smooth env w m ∧ Smooth env w' n := by
  constructor
  · intro h
    refine ⟨fun k hk => h k (by omega), fun k hk => ?_⟩
    have hmk := h (m + k) (by omega)
    rwa [← Nat.add_assoc, ← hw] at hmk
  · rintro ⟨h1, h2⟩ k hk
    by_cases hkm : k < m
    · exact h1 k hkm
    · have hk2 := h2 (k - m) (by omega)
      rwa [hw, Nat.add_assoc, Nat.add_sub_cancel' (by omega)] at hk2

theorem Smooth.le (h : Smooth env w n) (hm : m ≤ n) : Smooth env w m := fun k hk => h k (hk.trans_le hm)

theorem frame_crc (hd : Device lfs w) (hc : b.cached = false) (he : b.empty = false) (frame : Bytes) :
    crcChecksum (frame.copy 0 w.disk (lfs.sector (lfs.segStart + b.blk) * w.blockSize)
      (lfs.secPerBlk * w.blockSize)) 0 lfsBlkSize = crcChecksum (blkBytes lfs w b) 0 lfsBlkSize := by
  apply crcChecksum_congr
  intro i hi
  unfold blkBytes
  rw [hc, he, if_neg Bool.false_ne_true, if_neg Bool.false_ne_true, Nat.zero_add,
    copy_inside i (Nat.zero_le i) (by rw [hd.blocks]; omega), Nat.sub_zero]

theorem lfsCacheBlk_disk (env : Env) (hd : Device lfs w) (hc : b.cached = false) (he : b.empty = false) :
    (¬ Smooth env w 3 ∧ ∃ w', lfsCacheBlk env lfs b w = (ERR, b, w')) ∨
    Smooth env w 3 ∧ lfsCacheBlk env lfs b w =
      if crcChecksum (blkBytes lfs w b) 0 lfsBlkSize ≠ b.crc then (OK, b, w.next.next.next)
      else (OK, { b with
        cached := true
        addr := (env.junk w.calls).copy 0 w.disk (lfs.sector (lfs.segStart + b.blk) * w.blockSize)
          (lfs.secPerBlk * w.blockSize) }, w.next.next.next) := by
  unfold lfsCacheBlk
  simp only [hc, he, Bool.false_eq_true, if_false, blockRead, true_and]
  by_cases h0 : env.ok w.calls = false
  · refine .inl ⟨fun h => ?_, _, if_pos h0⟩
    rw [h.first (by decide)] at h0
    cases h0
  rw [if_neg h0]
  by_cases h1 : env.ok w.next.calls = true
  · rw [if_pos h1]
    dsimp only
    by_cases h2 : env.ok w.next.next.calls = false
    · refine .inl ⟨fun h => ?_, _, if_pos h2⟩
      have h2' : env.ok (w.calls + 2) = false := h2
      rw [h 2 (by decide)] at h2'
      cases h2'
    · rw [if_neg h2]
      refine .inr ⟨fun m hm => ?_, ?_⟩
      · obtain rfl | rfl | rfl : m = 0 ∨ m = 1 ∨ m = 2 := by omega
        · exact Bool.eq_true_of_not_eq_false h0
        · exact h1
        · exact Bool.eq_true_of_not_eq_false h2
      · have hcrc := frame_crc hd hc he (env.junk w.calls)
        exact if_congr (by rw [← hcrc]; rfl) rfl rfl
  · rw [if_neg h1]
    refine .inl ⟨fun h => ?_, _, rfl⟩
    exact h1 (h 1 (by decide))

theorem lfsCacheBlk_good (env : Env) (hd : Device lfs w) (hc : CrcOk lfs w b) :
    (¬ Smooth env w b.loads ∧ ∃ w', lfsCacheBlk env lfs b w = (ERR, b, w')) ∨
    Smooth env w b.loads ∧ ∃ b' w', lfsCacheBlk env lfs b w = (OK, b', w') ∧ b'.cached = true ∧ SameDisk w w' ∧
      w'.calls = w.calls + b.loads := by
  unfold Blk.loads
  cases hcached : b.cached with
  | true =>
    rw [if_pos rfl]
    refine .inr ⟨nofun, b, w, ?_, hcached, ⟨rfl, rfl⟩, rfl⟩
    unfold lfsCacheBlk
    rw [if_pos hcached]
  | false =>
    rw [if_neg Bool.false_ne_true]
    cases hempty : b.empty with
    | false =>
      rw [if_neg Bool.false_ne_true]
      rcases lfsCacheBlk_disk env hd hcached hempty with h | ⟨h, heq⟩
      · exact .inl h
      · rw [if_neg (not_not.mpr (hc hcached hempty))] at heq
        exact .inr ⟨h, _, _, heq, rfl, ⟨rfl, rfl⟩, rfl⟩
    | true =>
      rw [if_pos rfl]
      unfold lfsCacheBlk
      simp only [hcached, hempty, Bool.false_eq_true, Bool.true_eq_false, if_false, if_true, false_and]
      by_cases h0 : env.ok w.calls = false
      · refine .inl ⟨fun h => ?_, _, if_pos h0⟩
        rw [h.first (by decide)] at h0
        cases h0
      rw [if_neg h0]
      by_cases h1 : env.ok w.next.calls = false
      · refine .inl ⟨fun h => ?_, _, if_pos h1⟩
        have h1' : env.ok (w.calls + 1) = false := h1
        rw [h 1 (by decide)] at h1'
        cases h1'
      · rw [if_neg h1]
        refine .inr ⟨fun m hm => ?_, _, _, rfl, rfl, ⟨rfl, rfl⟩, rfl⟩
        obtain rfl | rfl : m = 0 ∨ m = 1 := by omega
        · exact Bool.eq_true_of_not_eq_false h0
        · exact Bool.eq_true_of_not_eq_false h1

theorem SameDisk.bad (h : SameDisk w w') (hb : Bad lfs w b) : Bad lfs w' b :=
  ⟨hb.uncached, hb.used, by rw [h.blkBytes]; exact hb.crc⟩

end Calls

section Loops

theorem loads_cons : loads (c :: front) = c.loads + loads front := List.sum_cons

theorem readLoop_bad (hd : Device lfs w) (hgood : ∀ c ∈ front, CrcOk lfs w c) (hbad : Bad lfs w b)
    (hb : bOff < lfsBlkSize) (hpos : 0 < len) (hreach : lfsBlkSize * front.length < bOff + len) :
    (¬ Smooth env w (loads front + 3) ∧ ∃ data front' w', front'.length = front.length ∧
      readLoop env lfs ((Blks.cons b rest).behind front) bOff len w = some (ERR, data, (Blks.cons b rest).behind front', w')) ∨
    Smooth env w (loads front + 3) ∧ readLoop env lfs ((Blks.cons b rest).behind front) bOff len w = none := by
  induction front generalizing bOff len w with
  | nil =>
    obtain ⟨len, rfl⟩ : ∃ m, len = m + 1 := Nat.exists_eq_add_of_le' hpos
    have hload : loads [] + 3 = 3 := rfl
    have hnil : (Blks.cons b rest).behind [] = .cons b rest := rfl
    rw [hload, hnil, readLoop]
    rcases lfsCacheBlk_disk env hd hbad.uncached hbad.used with ⟨hno, w', h⟩ | ⟨hs, h⟩
    · refine .inl ⟨hno, [], [], w', rfl, ?_⟩
      rw [h]
      rfl
    · rw [if_pos hbad.crc] at h
      refine .inr ⟨hs, ?_⟩
      rw [h]
      simp only [hbad.uncached, ne_eq, not_true_eq_false, if_false, if_true]
  | cons c front ih =>
    obtain ⟨len, rfl⟩ : ∃ m, len = m + 1 := Nat.exists_eq_add_of_le' hpos
    rw [List.length_cons, Nat.mul_succ] at hreach
    have hcons : (Blks.cons b rest).behind (c :: front) = .cons c ((Blks.cons b rest).behind front) := rfl
    rw [hcons, loads_cons, Nat.add_assoc]
    rcases lfsCacheBlk_good env hd (hgood c List.mem_cons_self) with ⟨hno, w', h⟩ | ⟨hs, c', w', h, hcached, hdisk, hcalls⟩
    · refine .inl ⟨fun hs => hno (hs.le (Nat.le_add_right _ _)), [], c :: front, w', rfl, ?_⟩
      rw [readLoop, h]
      rfl
    · have hn : (if bOff + (len + 1) > lfsBlkSize then lfsBlkSize - bOff else len + 1) = lfsBlkSize - bOff :=
        if_pos (by omega)
      rw [readLoop_cons h hcached hn.symm, smooth_add w' hcalls]
      rcases @ih w' 0 (len + 1 - (lfsBlkSize - bOff)) (hdisk.device hd)
        (fun d hd => hdisk.crcOk.mpr (hgood d (List.mem_cons_of_mem _ hd))) (hdisk.bad hbad) (by decide) (by omega)
        (by omega) with ⟨hno, data, front', w₂, hlen, hrec⟩ | ⟨hs', hrec⟩
      · rw [hrec]
        exact .inl ⟨fun hs => hno hs.2, _, c' :: front', w₂, congrArg (· + 1) hlen, rfl⟩
      · rw [hrec]
        exact .inr ⟨⟨hs, hs'⟩, rfl⟩

theorem writeLoop_bad (off : ℕ) (hd : Device lfs w) (hgood : ∀ c ∈ front, CrcOk lfs w c) (hbad : Bad lfs w b)
    (hb : bOff < lfsBlkSize) (hpos : 0 < buf.length) (hreach : lfsBlkSize * front.length < bOff + buf.length)
    (hfuel : buf.length ≤ fuel) :
    (¬ Smooth env w (loads front + 3) ∧ ∃ front' w', front'.length = front.length ∧
      writeLoop env lfs fuel ((Blks.cons b rest).behind front) off bOff buf w =
        some (ERR, (Blks.cons b rest).behind front', 0, w')) ∨
    Smooth env w (loads front + 3) ∧ writeLoop env lfs fuel ((Blks.cons b rest).behind front) off bOff buf w = none := by
  induction front generalizing bOff buf w off fuel with
  | nil =>
    obtain ⟨v, buf, rfl⟩ := List.exists_cons_of_ne_nil (List.length_pos_iff.mp hpos)
    obtain ⟨fuel, rfl⟩ : ∃ m, fuel = m + 1 := Nat.exists_eq_add_of_le' (by rw [List.length_cons] at hfuel; omega)
    have hload : loads [] + 3 = 3 := rfl
    have hnil : (Blks.cons b rest).behind [] = .cons b rest := rfl
    rw [hload, hnil, writeLoop]
    rcases lfsCacheBlk_disk env hd hbad.uncached hbad.used with ⟨hno, w', h⟩ | ⟨hs, h⟩
    · refine .inl ⟨hno, [], w', rfl, ?_⟩
      rw [h]
      rfl
    · rw [if_pos hbad.crc] at h
      refine .inr ⟨hs, ?_⟩
      rw [h]
      simp only [hbad.uncached, ne_eq, not_true_eq_false, if_false, if_true]
  | cons c front ih =>
    obtain ⟨v, buf, rfl⟩ := List.exists_cons_of_ne_nil (List.length_pos_iff.mp hpos)
    obtain ⟨fuel, rfl⟩ : ∃ m, fuel = m + 1 := Nat.exists_eq_add_of_le' (by rw [List.length_cons] at hfuel; omega)
    have hreach' : lfsBlkSize * front.length + lfsBlkSize < bOff + (v :: buf).length := hreach
    have hcons : (Blks.cons b rest).behind (c :: front) = .cons c ((Blks.cons b rest).behind front) := rfl
    rw [hcons, loads_cons, Nat.add_assoc]
    rcases lfsCacheBlk_good env hd (hgood c List.mem_cons_self) with ⟨hno, w', h⟩ | ⟨hs, c', w', h, hcached, hdisk, hcalls⟩
    · refine .inl ⟨fun hs => hno (hs.le (Nat.le_add_right _ _)), c :: front, w', rfl, ?_⟩
      rw [writeLoop, h]
      rfl
    · have hn : lfsBlkSize - bOff =
          if bOff + (v :: buf).length > lfsBlkSize then lfsBlkSize - bOff else (v :: buf).length := (if_pos (by omega)).symm
      have hdrop : ((v :: buf).drop (lfsBlkSize - bOff)).length = (v :: buf).length - (lfsBlkSize - bOff) :=
        List.length_drop ..
      have hnext : (Blks.cons b rest).behind front = .nil → (v :: buf).drop (lfsBlkSize - bOff) = [] := by
        cases front with
        | nil =>
          intro h
          cases h
        | cons c front =>
          intro h
          cases h
      rw [writeLoop_next h hcached hn, nextBlk_there hnext, smooth_add w' hcalls]
      rcases @ih w' 0 fuel ((v :: buf).drop (lfsBlkSize - bOff)) (off + (lfsBlkSize - bOff)) (hdisk.device hd)
        (fun d hd => hdisk.crcOk.mpr (hgood d (List.mem_cons_of_mem _ hd))) (hdisk.bad hbad) (by decide) (by omega)
        (by omega) (by rw [List.length_cons] at hdrop hfuel; omega) with ⟨hno, front', w₂, hlen, hrec⟩ | ⟨hs', hrec⟩
      · rw [hrec]
        exact .inl ⟨fun hs => hno hs.2, _ :: front', w₂, congrArg (· + 1) hlen, rfl⟩
      · rw [hrec]
        exact .inr ⟨⟨hs, hs'⟩, rfl⟩

end Loops

section Calls

theorem seekBlk_front (env : Env) (w : World) (add : Bool) (hk : k ≤ front.length) :
    seekBlk env add k ((Blks.cons b rest).behind front) w =
      some (true, front.take k, (Blks.cons b rest).behind (front.drop k), 0, w) := by
  induction k generalizing front with
  | zero => cases front <;> rfl
  | succ k ih =>
    cases front with
    | nil => cases hk
    | cons c front =>
      change seekBlk env add (k + 1) (.cons c ((Blks.cons b rest).behind front)) w = _
      rw [seekBlk, ih (Nat.le_of_succ_le_succ hk)]
      rfl

theorem behind_append {front' : List Blk} : (rest.behind front').behind front = rest.behind (front ++ front') := by
  unfold Blks.behind
  rw [List.foldr_append]

def Refused (lfs' : Lfs) (i : ℕ) (front : List Blk) (b : Blk) (rest : Blks) : Prop :=
  ∃ front', front'.length = front.length ∧ (lfs'.inodes i).blks = (Blks.cons b rest).behind front'

theorem FirstBad.reach_rest (h : FirstBad lfs w x off len front b rest) :
    lfsBlkSize * (front.drop (off / lfsBlkSize)).length < off - alignDown off lfsBlkSize + len := by
  have hreach := h.reach
  have hdown := align_le off
  have hstart := Nat.mul_le_mul_left lfsBlkSize h.start
  rw [List.length_drop, Nat.mul_sub, ← align_eq]
  rw [← align_eq] at hstart
  omega

theorem refused_set {y : Inode} {front' : List Blk} (hk : k ≤ front.length) (hlen : front'.length = (front.drop k).length)
    (hy : y.blks = ((Blks.cons b rest).behind front').behind (front.take k)) : Refused (lfs.setInode i y) i front b rest := by
  refine ⟨front.take k ++ front', ?_, ?_⟩
  · rw [List.length_append, hlen, List.length_take, List.length_drop, Nat.min_eq_left hk]
    omega
  · rw [Lfs.setInode_inodes, if_pos rfl, hy]
    exact behind_append

theorem lfsRead_from (env : Env) (hf : lfsFindInode lfs name false = some (some i))
    (h : FirstBad lfs w (lfs.inodes i) off len front b rest) (hreal : off + len ≤ (lfs.inodes i).lenReal)
    (hprod : alignDown off lfsBlkSize ≤ (lfs.inodes i).blkCnt * lfsBlkSize % 2 ^ 32) :
    lfsRead env lfs name off len w =
      (readLoop env lfs ((Blks.cons b rest).behind (front.drop (off / lfsBlkSize))) (off - alignDown off lfsBlkSize) len
        w).map fun (r, data, rest, w) => (r, data, lfs.setInode i
          { lfs.inodes i with blks := rest.behind (front.take (off / lfsBlkSize)) }, w) := by
  rw [lfsRead_inside hf hreal, lfsInodeGetBlk_eq, if_neg (by rintro ⟨-, hgt⟩; omega), h.blks,
    seekBlk_front env w false h.start]
  rfl

theorem lfsRead_bad (env : Env) (hd : Device lfs w) (hf : lfsFindInode lfs name false = some (some i))
    (h : FirstBad lfs w (lfs.inodes i) off len front b rest) (hreal : off + len ≤ (lfs.inodes i).lenReal)
    (hprod : alignDown off lfsBlkSize ≤ (lfs.inodes i).blkCnt * lfsBlkSize % 2 ^ 32) :
    (¬ Smooth env w (loads (front.drop (off / lfsBlkSize)) + 3) ∧
      ∃ data lfs' w', lfsRead env lfs name off len w = some (ERR, data, lfs', w') ∧ Refused lfs' i front b rest) ∨
    Smooth env w (loads (front.drop (off / lfsBlkSize)) + 3) ∧ lfsRead env lfs name off len w = none := by
  rw [lfsRead_from env hf h hreal hprod]
  rcases @readLoop_bad env lfs w b rest _ len _ hd h.good h.bad (align_lt off) h.pos h.reach_rest with
    ⟨hno, data, front', w', hlen, hloop⟩ | ⟨hs, hloop⟩
  · rw [hloop]
    exact .inl ⟨hno, _, _, _, rfl, refused_set h.start hlen rfl⟩
  · rw [hloop]
    exact .inr ⟨hs, rfl⟩

theorem lfsWrite_bad (env : Env) (fuel : ℕ) (hd : Device lfs w) (hf : lfsFindInode lfs name false = some (some i))
    (h : FirstBad lfs w (lfs.inodes i) off buf.length front b rest) :
    (¬ Smooth env w (loads (front.drop (off / lfsBlkSize)) + 3) ∧
      ∃ lfs' w', lfsWrite env fuel lfs name buf off w = some (ERR, lfs', w') ∧ Refused lfs' i front b rest) ∨
    Smooth env w (loads (front.drop (off / lfsBlkSize)) + 3) ∧ lfsWrite env fuel lfs name buf off w = none := by
  rw [lfsWrite_found hf, h.blks, seekBlk_front env w true h.start]
  simp only [Bool.true_eq_false, if_false]
  rcases @writeLoop_bad env lfs w b rest _ buf.length buf _ off hd h.good h.bad (align_lt off) h.pos h.reach_rest le_rfl with
    ⟨hno, front', w', hlen, hloop⟩ | ⟨hs, hloop⟩
  · rw [hloop]
    exact .inl ⟨hno, _, _, rfl, refused_set h.start hlen rfl⟩
  · rw [hloop]
    exact .inr ⟨hs, rfl⟩

/-- A read or a write that needs a block with another checksum is refused, with the block as it was, just if some call
fails before the checksum is looked at. -/
theorem corrupted_refused (hd : Device lfs w) (hf : lfsFindInode lfs name false = some (some i))
    (h : FirstBad lfs w (lfs.inodes i) off len front b rest) :
    (off + len ≤ (lfs.inodes i).lenReal →
      alignDown off lfsBlkSize ≤ (lfs.inodes i).blkCnt * lfsBlkSize % 2 ^ 32 →
      ((∃ data lfs' w', lfsRead env lfs name off len w = some (ERR, data, lfs', w') ∧ Refused lfs' i front b rest) ↔
        ¬ Smooth env w (loads (front.drop (off / lfsBlkSize)) + 3))) ∧
    ∀ (fuel : ℕ) (buf : List UInt8), buf.length = len →
      ((∃ lfs' w', lfsWrite env fuel lfs name buf off w = some (ERR, lfs', w') ∧ Refused lfs' i front b rest) ↔
        ¬ Smooth env w (loads (front.drop (off / lfsBlkSize)) + 3)) := by
  refine ⟨fun hreal hprod => ?_, fun fuel buf hbuf => ?_⟩
  · rcases lfsRead_bad env hd hf h hreal hprod with ⟨hno, hread⟩ | ⟨hs, hread⟩
    · exact iff_of_true hread hno
    · rw [hread]
      refine iff_of_false ?_ (not_not.mpr hs)
      rintro ⟨data, lfs', w', hnone, -⟩
      cases hnone
  · subst hbuf
    rcases lfsWrite_bad env fuel hd hf h with ⟨hno, hwrite⟩ | ⟨hs, hwrite⟩
    · exact iff_of_true hwrite hno
    · rw [hwrite]
      refine iff_of_false ?_ (not_not.mpr hs)
      rintro ⟨lfs', w', hnone, -⟩
      cases hnone

def wrongBlk (crc : ℕ) : Blk :=
  { written := true, blk := 1, crc := crc, off := 0, empty := false, cached := false, addr := zeros }

def wrongFile (crc : ℕ) : Lfs :=
  { blankLfs with
    nInodes := 1
    inodes := fun _ =>
      { blankLfs.inodes 0 with created := true, blkCnt := 1, lenReal := lfsBlkSize, blks := .cons (wrongBlk crc) .nil } }

variable {crc : ℕ}

theorem wrongFile_bad (h : crcChecksum zeros 0 lfsBlkSize ≠ crc) :
    FirstBad (wrongFile crc) blankWorld ((wrongFile crc).inodes 0) 0 1 [] (wrongBlk crc) .nil := by
  have hzero : crcChecksum (blkBytes (wrongFile crc) blankWorld (wrongBlk crc)) 0 lfsBlkSize =
      crcChecksum zeros 0 lfsBlkSize := crcChecksum_congr fun _ _ => rfl
  refine ⟨rfl, by decide, by decide, by decide, nofun, rfl, rfl, ?_⟩
  rw [hzero]
  exact h

theorem wrongFile_device : Device (wrongFile crc) blankWorld :=
  ⟨show 8 * 512 = 4096 by decide, show 0 < 2 ^ 32 by decide⟩

theorem wrongFile_find : lfsFindInode (wrongFile crc) (fun _ => 0) false = some (some 0) := rfl

theorem wrongFile_readable : 0 + 1 ≤ ((wrongFile crc).inodes 0).lenReal ∧
    alignDown 0 lfsBlkSize ≤ ((wrongFile crc).inodes 0).blkCnt * lfsBlkSize % 2 ^ 32 :=
  ⟨show 0 + 1 ≤ lfsBlkSize by decide, show alignDown 0 lfsBlkSize ≤ 1 * lfsBlkSize % 2 ^ 32 by decide⟩

theorem other_crc (n : ℕ) : ∃ crc < 2 ^ 32, n ≠ crc := by
  by_cases h : n = 0
  · exact ⟨1, by decide, by omega⟩
  · exact ⟨0, by decide, h⟩

theorem corrupted_refused_wrongFile : ∃ crc < 2 ^ 32, ∃ data lfs' w',
    lfsRead { calmEnv with ok := fun _ => false } (wrongFile crc) (fun _ => 0) 0 1 blankWorld =
        some (ERR, data, lfs', w') ∧
      Refused lfs' 0 [] (wrongBlk crc) .nil := by
  obtain ⟨crc, hlt, hne⟩ := other_crc (crcChecksum zeros 0 lfsBlkSize)
  refine ⟨crc, hlt, ((corrupted_refused wrongFile_device wrongFile_find (wrongFile_bad hne)).1 wrongFile_readable.1
    wrongFile_readable.2).mpr fun h => ?_⟩
  exact absurd (h 0 (by decide)) (by decide)

theorem corrupted_followed : ∃ crc < 2 ^ 32,
    FirstBad (wrongFile crc) blankWorld ((wrongFile crc).inodes 0) 0 1 [] (wrongBlk crc) .nil ∧
    lfsRead calmEnv (wrongFile crc) (fun _ => 0) 0 1 blankWorld = none ∧
    lfsWrite calmEnv 1 (wrongFile crc) (fun _ => 0) [7] 0 blankWorld = none := by
  obtain ⟨crc, hlt, hne⟩ := other_crc (crcChecksum zeros 0 lfsBlkSize)
  have hsmooth : ∀ n, Smooth calmEnv blankWorld n := fun _ _ _ => rfl
  have hbad : FirstBad (wrongFile crc) blankWorld ((wrongFile crc).inodes 0) 0 [(7 : UInt8)].length [] (wrongBlk crc) .nil :=
    wrongFile_bad hne
  refine ⟨crc, hlt, wrongFile_bad hne, ?_, ?_⟩
  · rcases lfsRead_bad calmEnv wrongFile_device wrongFile_find (wrongFile_bad hne) wrongFile_readable.1
      wrongFile_readable.2 with ⟨hno, -⟩ | ⟨-, hread⟩
    · exact absurd (hsmooth _) hno
    · exact hread
  · rcases lfsWrite_bad calmEnv 1 wrongFile_device wrongFile_find hbad with ⟨hno, -⟩ | ⟨-, hwrite⟩
    · exact absurd (hsmooth _) hno
    · exact hwrite

end Calls

end Agatha.Fs
