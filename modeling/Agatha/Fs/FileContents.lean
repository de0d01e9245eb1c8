import Agatha.Fs.DirectoryRuns
import Agatha.Fs.Files

namespace Agatha.Fs

open Library Library.Bytes

structure SameDisk (w w' : World) : Prop where
  disk : w'.disk = w.disk
  blockSize : w'.blockSize = w.blockSize

structure Like (lfs : Lfs) (w w' : World) (bs bs' : Blks) : Prop where
  bytes : ∀ i, bs'.byte lfs w' i = bs.byte lfs w i
  crc : bs.All (CrcOk lfs w) → bs'.All (CrcOk lfs w')
  ends : bs'.ends = bs.ends
  offs : bs'.offs = bs.offs

variable {env : Env} {lfs lfs' lfs₁ lfs₂ : Lfs} {w w' w₁ w₂ : World} {b b' : Blk} {bs bs' rest rest' : Blks} {name : Name}
  {off bOff len i j k n fuel : ℕ} {buf data : List UInt8} {front : List Blk} {r : ℤ} {x y : Inode}

theorem SameDisk.trans (h : SameDisk w w₁) (h' : SameDisk w₁ w₂) : SameDisk w w₂ :=
  ⟨h'.disk.trans h.disk, h'.blockSize.trans h.blockSize⟩

theorem SameDisk.blkBytes (h : SameDisk w w') : Fs.blkBytes lfs w' b = Fs.blkBytes lfs w b := by
  unfold Fs.blkBytes
  rw [h.disk, h.blockSize]

theorem Blks.byte_cons : (Blks.cons b bs).byte lfs w i =
    if i < lfsBlkSize then blkBytes lfs w b i else bs.byte lfs w (i - lfsBlkSize) := rfl

theorem SameDisk.byte (h : SameDisk w w') : bs.byte lfs w' i = bs.byte lfs w i := by
  induction bs generalizing i with
  | nil => rfl
  | wild => rfl
  | cons b bnext ih =>
    rw [Blks.byte_cons, Blks.byte_cons, h.blkBytes, ih]

theorem SameDisk.crcOk (h : SameDisk w w') : CrcOk lfs w' b ↔ CrcOk lfs w b := by
  unfold CrcOk
  rw [h.blkBytes]

theorem SameDisk.all (h : SameDisk w w') (hc : bs.All (CrcOk lfs w)) : bs.All (CrcOk lfs w') := by
  induction bs with
  | nil => trivial
  | wild => trivial
  | cons b bnext ih => exact ⟨h.crcOk.mpr hc.1, ih hc.2⟩

theorem SameDisk.like (h : SameDisk w w') : Like lfs w w' bs bs := ⟨fun _ => h.byte, h.all, rfl, rfl⟩

theorem SameDisk.device (h : SameDisk w w') (hd : Device lfs w) : Device lfs w' :=
  ⟨by rw [h.blockSize]; exact hd.blocks, hd.partOff⟩

theorem SameDisk.next : SameDisk w w.next := ⟨rfl, rfl⟩

theorem lfsCacheBlk_ok (hok : ∀ n, env.ok n = true) (hd : Device lfs w) (hc : CrcOk lfs w b) :
    ∃ b' w', lfsCacheBlk env lfs b w = (OK, b', w') ∧ b'.cached = true ∧ b'.off = b.off ∧ SameDisk w w' ∧
      ∀ i < lfsBlkSize, b'.addr i = blkBytes lfs w b i := by
  unfold lfsCacheBlk blkBytes
  by_cases hcached : b.cached = true
  · rw [if_pos hcached, if_pos hcached]
    exact ⟨b, w, rfl, hcached, rfl, ⟨rfl, rfl⟩, fun _ _ => rfl⟩
  · rw [if_neg hcached, if_neg hcached, if_neg (by simp [hok])]
    by_cases hempty : b.empty = true
    · simp only [hempty, if_true, hok, Bool.true_eq_false, false_and, if_false]
      refine ⟨_, _, rfl, rfl, rfl, ⟨rfl, rfl⟩, fun i hi => ?_⟩
      exact fill_inside i (Nat.zero_le i) (by omega)
    · have hbytes : ∀ i < lfsBlkSize, (env.junk w.calls).copy 0 w.disk
          (lfs.sector (lfs.segStart + b.blk) * w.blockSize) (lfs.secPerBlk * w.blockSize) i =
            w.disk (lfs.sector (lfs.segStart + b.blk) * w.blockSize + i) := by
        intro i hi
        rw [copy_inside i (Nat.zero_le i) (by rw [hd.blocks]; omega), Nat.sub_zero]
      have hcrc : crcChecksum ((env.junk w.calls).copy 0 w.disk
          (lfs.sector (lfs.segStart + b.blk) * w.blockSize) (lfs.secPerBlk * w.blockSize)) 0 lfsBlkSize = b.crc := by
        rw [← hc (by simpa using hcached) (by simpa using hempty)]
        apply crcChecksum_congr
        intro i hi
        rw [blkBytes, if_neg hcached, if_neg hempty, Nat.zero_add]
        exact hbytes i hi
      have hread : blockRead env (lfs.sector (lfs.segStart + b.blk)) lfs.secPerBlk (env.junk w.calls) w.next =
          (some ((env.junk w.calls).copy 0 w.disk (lfs.sector (lfs.segStart + b.blk) * w.blockSize)
            (lfs.secPerBlk * w.blockSize)), w.next.next) := by
        unfold blockRead
        rw [if_pos (hok _)]
        rfl
      simp only [if_neg hempty, hread, hok, Bool.true_eq_false, if_false, hcrc, ne_eq, not_true_eq_false, and_false]
      exact ⟨_, _, rfl, rfl, rfl, ⟨rfl, rfl⟩, hbytes⟩

theorem blkBytes_cached (h : b.cached = true) : blkBytes lfs w b = b.addr := if_pos h

theorem crcOk_cached (h : b.cached = true) : CrcOk lfs w b := fun hc => by
  rw [h] at hc
  cases hc

theorem Blks.byte_behind_lt (rest : Blks) (h : i < lfsBlkSize * front.length) :
    (Blks.behind front rest').byte lfs w i = (Blks.behind front rest).byte lfs w i := by
  induction front generalizing i with
  | nil => exact absurd h (by simp)
  | cons b front ih =>
    rw [List.length_cons, Nat.mul_succ] at h
    change (if i < lfsBlkSize then _ else _) = if i < lfsBlkSize then _ else _
    split_ifs
    · rfl
    · exact ih (by omega)

theorem Blks.byte_behind_ge (h : lfsBlkSize * front.length ≤ i) :
    (Blks.behind front rest).byte lfs w i = rest.byte lfs w (i - lfsBlkSize * front.length) := by
  induction front generalizing i with
  | nil => rfl
  | cons b front ih =>
    rw [List.length_cons, Nat.mul_succ] at h
    change (if i < lfsBlkSize then _ else _) = _
    rw [if_neg (by omega), List.length_cons, Nat.mul_succ]
    exact (ih (by omega)).trans (congrArg _ (by omega))

theorem Blks.ends_behind : (Blks.behind front rest).ends = rest.ends := by
  induction front with
  | nil => rfl
  | cons b front ih => exact ih

theorem Blks.offs_behind : (Blks.behind front rest).offs = front.map Blk.off ++ rest.offs := by
  induction front with
  | nil => rfl
  | cons b front ih => exact congrArg (b.off :: ·) ih

theorem Blks.length_behind : (Blks.behind front rest).offs.length = front.length + rest.offs.length := by
  rw [Blks.offs_behind, List.length_append, List.length_map]

theorem Blks.all_behind {P : Blk → Prop} : (Blks.behind front rest).All P ↔ (∀ b ∈ front, P b) ∧ rest.All P := by
  induction front with
  | nil => exact ⟨fun h => ⟨nofun, h⟩, And.right⟩
  | cons b front ih =>
    change P b ∧ (Blks.behind front rest).All P ↔ _
    rw [ih, List.forall_mem_cons, and_assoc]

theorem Like.trans (h : Like lfs w w₁ bs bs') (h' : Like lfs w₁ w₂ bs' rest) : Like lfs w w₂ bs rest :=
  ⟨fun i => (h'.bytes i).trans (h.bytes i), h'.crc ∘ h.crc, h'.ends.trans h.ends, h'.offs.trans h.offs⟩

theorem Like.behind (front : List Blk) (h : Like lfs w w' rest rest') (hs : SameDisk w w') :
    Like lfs w w' (Blks.behind front rest) (Blks.behind front rest') := by
  refine ⟨fun i => ?_, fun hc => ?_, ?_, ?_⟩
  · refine Eq.trans ?_ hs.byte
    by_cases hi : i < lfsBlkSize * front.length
    · exact Blks.byte_behind_lt rest hi
    · rw [Blks.byte_behind_ge (by omega), Blks.byte_behind_ge (by omega), h.bytes, hs.byte]
  · obtain ⟨hfront, hrest⟩ := Blks.all_behind.mp hc
    exact Blks.all_behind.mpr ⟨fun b hb => hs.crcOk.mpr (hfront b hb), h.crc hrest⟩
  · rw [Blks.ends_behind, Blks.ends_behind, h.ends]
  · rw [Blks.offs_behind, Blks.offs_behind, h.offs]

theorem Like.cons (hc : b'.cached = true) (ho : b'.off = b.off)
    (ha : ∀ i < lfsBlkSize, b'.addr i = blkBytes lfs w b i) (h : Like lfs w w' bs bs') :
    Like lfs w w' (.cons b bs) (.cons b' bs') := by
  refine ⟨fun i => ?_, fun hcrc => ⟨crcOk_cached hc, h.crc hcrc.2⟩, h.ends, ?_⟩
  · rw [Blks.byte_cons, Blks.byte_cons, blkBytes_cached hc, h.bytes]
    split_ifs with hi
    · exact ha i hi
    · rfl
  · change b'.off :: bs'.offs = b.off :: bs.offs
    rw [ho, h.offs]

theorem range_split (len n : ℕ) {f g : ℕ → UInt8} (hn : n ≤ len) (hg : ∀ i, n ≤ i → i < len → g (i - n) = f i) :
    (List.range n).map f ++ (List.range (len - n)).map g = (List.range len).map f := by
  obtain ⟨d, rfl⟩ := Nat.exists_eq_add_of_le hn
  rw [Nat.add_sub_cancel_left, List.range_add, List.map_append, List.map_map]
  congr 1
  apply List.map_congr_left
  intro i hi
  have hid := List.mem_range.mp hi
  have hgi := hg (n + i) (Nat.le_add_right n i) (by omega)
  rwa [Nat.add_sub_cancel_left] at hgi

theorem Blks.size_cons :
    lfsBlkSize * (Blks.cons b bs).offs.length = lfsBlkSize * bs.offs.length + lfsBlkSize := by
  change lfsBlkSize * (bs.offs.length + 1) = _
  rw [Nat.mul_succ]

theorem part_le (hb : bOff < lfsBlkSize)
    (hn : n = if bOff + len > lfsBlkSize then lfsBlkSize - bOff else len) :
    n ≤ len ∧ bOff + n ≤ lfsBlkSize ∧ (0 < len → 0 < n) ∧ (n < len → bOff + n = lfsBlkSize) := by
  rw [hn]
  split_ifs <;> omega

theorem readLoop_zero : readLoop env lfs bs bOff 0 w = some (OK, [], bs, w) := by
  cases bs <;> rfl

theorem readLoop_cons (hcache : lfsCacheBlk env lfs b w = (OK, b', w₁)) (hcached : b'.cached = true)
    (hn : n = if bOff + (len + 1) > lfsBlkSize then lfsBlkSize - bOff else len + 1) :
    readLoop env lfs (.cons b bs) bOff (len + 1) w =
      (readLoop env lfs bs 0 (len + 1 - n) w₁).map fun (r, data, bs, w) =>
        (r, loadBytes b'.addr bOff n ++ data, .cons b' bs, w) := by
  rw [readLoop]
  simp only [hcache, hcached, ne_eq, not_true_eq_false, if_false, Bool.true_eq_false, ← hn]

theorem readLoop_like (hok : ∀ n, env.ok n = true) (hd : Device lfs w) (hc : bs.All (CrcOk lfs w))
    (hb : bOff < lfsBlkSize) (h : readLoop env lfs bs bOff len w = some (r, data, bs', w')) :
    Like lfs w w' bs bs' ∧ SameDisk w w' := by
  induction bs generalizing bOff len w data bs' with
  | nil =>
    cases len with
    | zero =>
      cases h
      exact ⟨SameDisk.like ⟨rfl, rfl⟩, ⟨rfl, rfl⟩⟩
    | succ len =>
      cases h
      exact ⟨SameDisk.like ⟨rfl, rfl⟩, ⟨rfl, rfl⟩⟩
  | wild =>
    cases len with
    | zero =>
      cases h
      exact ⟨SameDisk.like ⟨rfl, rfl⟩, ⟨rfl, rfl⟩⟩
    | succ len => cases h
  | cons b bnext ih =>
    cases len with
    | zero =>
      cases h
      exact ⟨SameDisk.like ⟨rfl, rfl⟩, ⟨rfl, rfl⟩⟩
    | succ len =>
      obtain ⟨b', w₁, hcache, hcached, hoff, hdisk, haddr⟩ := lfsCacheBlk_ok hok hd hc.1
      rw [readLoop_cons hcache hcached rfl] at h
      obtain ⟨⟨r₁, data₁, bs₁, w₂⟩, hrec, he⟩ := Option.map_eq_some_iff.mp h
      cases he
      obtain ⟨hl, hs⟩ := ih (hdisk.device hd) (hdisk.all hc.2) (by decide) hrec
      exact ⟨(hdisk.like.trans hl).cons hcached hoff haddr, hdisk.trans hs⟩

theorem readLoop_fits (hok : ∀ n, env.ok n = true) (hd : Device lfs w) (hc : bs.All (CrcOk lfs w))
    (hb : bOff < lfsBlkSize) (hfit : bOff + len ≤ lfsBlkSize * bs.offs.length) :
    ∃ bs' w', readLoop env lfs bs bOff len w =
      some (OK, (List.range len).map fun i => bs.byte lfs w (bOff + i), bs', w') := by
  induction bs generalizing bOff len w with
  | nil =>
    obtain rfl : len = 0 := by
      simp only [Blks.offs, List.length_nil] at hfit
      omega
    exact ⟨_, _, readLoop_zero⟩
  | wild =>
    obtain rfl : len = 0 := by
      simp only [Blks.offs, List.length_nil] at hfit
      omega
    exact ⟨_, _, readLoop_zero⟩
  | cons b bnext ih =>
    cases len with
    | zero => exact ⟨_, _, readLoop_zero⟩
    | succ len =>
      obtain ⟨b', w₁, hcache, hcached, hoff, hdisk, haddr⟩ := lfsCacheBlk_ok hok hd hc.1
      generalize hn : (if bOff + (len + 1) > lfsBlkSize then lfsBlkSize - bOff else len + 1) = n
      obtain ⟨hle, hin, -, hfull⟩ := part_le hb hn.symm
      rw [Blks.size_cons] at hfit
      obtain ⟨bs', w₂, hrec⟩ := @ih w₁ 0 (len + 1 - n) (hdisk.device hd) (hdisk.all hc.2) (by decide) (by omega)
      rw [readLoop_cons hcache hcached hn.symm, hrec]
      refine ⟨.cons b' bs', w₂, ?_⟩
      simp only [Option.map_some, Option.some.injEq, Prod.mk.injEq, true_and, and_true]
      rw [← range_split (len + 1) n (g := fun i => bnext.byte lfs w₁ (0 + i)) hle]
      · congr 1
        apply List.map_congr_left
        intro i hi
        have hlt := List.mem_range.mp hi
        rw [Blks.byte_cons, if_pos (by omega)]
        exact haddr _ (by omega)
      · intro i hni hi
        have hend := hfull (by omega)
        rw [hdisk.byte, Blks.byte_cons, if_neg (by omega)]
        exact congrArg _ (by omega)

theorem readLoop_short (hok : ∀ n, env.ok n = true) (hd : Device lfs w) (hc : bs.All (CrcOk lfs w))
    (hb : bOff < lfsBlkSize) (hshort : lfsBlkSize * bs.offs.length < bOff + len) (hpos : 0 < len) :
    readLoop env lfs bs bOff len w ≠ some (OK, data, bs', w') := by
  obtain ⟨len, rfl⟩ : ∃ m, len = m + 1 := Nat.exists_eq_add_of_le' hpos
  induction bs generalizing bOff len w data bs' with
  | nil => nofun
  | wild => nofun
  | cons b bnext ih =>
    intro h
    obtain ⟨b', w₁, hcache, hcached, hoff, hdisk, haddr⟩ := lfsCacheBlk_ok hok hd hc.1
    generalize hn : (if bOff + (len + 1) > lfsBlkSize then lfsBlkSize - bOff else len + 1) = n
    obtain ⟨hle, hin, -, hfull⟩ := part_le hb hn.symm
    rw [readLoop_cons hcache hcached hn.symm] at h
    rw [Blks.size_cons] at hshort
    obtain ⟨⟨r₁, data₁, bs₁, w₂⟩, hrec, he⟩ := Option.map_eq_some_iff.mp h
    cases he
    obtain ⟨m, hm⟩ : ∃ m, len + 1 - n = m + 1 := Nat.exists_eq_add_of_le' (by omega)
    rw [hm] at hrec
    exact ih (hdisk.device hd) (hdisk.all hc.2) (by decide) m (by omega) (Nat.succ_pos m) hrec

theorem storeBytes_nil {c : Bytes} : storeBytes c off [] = c := by
  funext i
  exact if_neg (by simp only [List.length_nil]; omega)

theorem writeLoop_nil : writeLoop env lfs fuel bs off bOff [] w = some (OK, bs, 0, w) := by
  cases fuel <;> rfl

theorem store_split {a f g : ℕ → UInt8} (ha : ∀ i < lfsBlkSize, a i = f i) (hn : n ≤ buf.length)
    (hfit : bOff + n ≤ lfsBlkSize) (hfull : n < buf.length → bOff + n = lfsBlkSize) :
    (if i < lfsBlkSize then storeBytes a bOff (buf.take n) i else storeBytes g 0 (buf.drop n) (i - lfsBlkSize)) =
      storeBytes (fun i => if i < lfsBlkSize then f i else g (i - lfsBlkSize)) bOff buf i := by
  unfold storeBytes
  rw [List.length_take_of_le hn, List.length_drop]
  by_cases hi : i < lfsBlkSize
  · rw [if_pos hi]
    by_cases hin : bOff ≤ i ∧ i < bOff + n
    · rw [if_pos hin, if_pos ⟨hin.1, by omega⟩, List.getD_eq_getElem?_getD, List.getD_eq_getElem?_getD,
        List.getElem?_take_of_lt (by omega)]
    · rw [if_neg hin, if_neg (by omega)]
      exact (ha i hi).trans (if_pos hi).symm
  · rw [if_neg hi]
    by_cases hin : i < bOff + buf.length
    · have hfull' := hfull (by omega)
      rw [if_pos ⟨Nat.zero_le _, by omega⟩, if_pos ⟨by omega, hin⟩, List.getD_eq_getElem?_getD,
        List.getD_eq_getElem?_getD, List.getElem?_drop]
      exact congrArg (fun k => (buf[k]?).getD 0) (by omega)
    · rw [if_neg (by omega), if_neg (by omega)]
      exact (if_neg hi).symm

/-- Where `lfs_write` goes on, with `rest` to write: `bnext` of a new block is never set. -/
def nextBlk (env : Env) (off : ℕ) (bnext : Blks) (rest : List UInt8) (w : World) : Blks × ℕ × World :=
  match bnext, rest with
  | .nil, _ :: _ => if env.ok w.calls then (.cons (lfsCreateBlk off) .wild, 1, w.next) else (.nil, 0, w.next)
  | bnext, _ => (bnext, 0, w)

theorem writeLoop_next {v : UInt8} (hcache : lfsCacheBlk env lfs b w = (OK, b', w₁))
    (hcached : b'.cached = true)
    (hn : n = if bOff + (v :: buf).length > lfsBlkSize then lfsBlkSize - bOff else (v :: buf).length) :
    writeLoop env lfs (fuel + 1) (.cons b bs) off bOff (v :: buf) w =
      (writeLoop env lfs fuel (nextBlk env (off + n) bs ((v :: buf).drop n) w₁).1 (off + n) 0 ((v :: buf).drop n)
        (nextBlk env (off + n) bs ((v :: buf).drop n) w₁).2.2).map fun (r, bs', made, w) =>
        (r, .cons { b' with
          empty := false, written := false, addr := storeBytes b'.addr bOff ((v :: buf).take n) } bs',
          (nextBlk env (off + n) bs ((v :: buf).drop n) w₁).2.1 + made, w) := by
  rw [writeLoop]
  simp only [hcache, hcached, ne_eq, not_true_eq_false, if_false, Bool.true_eq_false, ← hn]
  cases bs with
  | nil =>
    cases (v :: buf).drop n with
    | nil => simp only [nextBlk]
    | cons u rest => simp only [nextBlk]
  | wild => simp only [nextBlk]
  | cons c rest => simp only [nextBlk]

theorem nextBlk_there (h : bs = .nil → data = []) : nextBlk env off bs data w = (bs, 0, w) := by
  cases bs with
  | nil =>
    obtain rfl := h rfl
    rfl
  | wild => rfl
  | cons b bnext => rfl

theorem nextBlk_fits (hb : bOff < lfsBlkSize) (hfit : bOff + buf.length ≤ lfsBlkSize * (Blks.cons b bs).offs.length)
    (hn : n = if bOff + buf.length > lfsBlkSize then lfsBlkSize - bOff else buf.length) :
    nextBlk env off bs (buf.drop n) w = (bs, 0, w) := by
  apply nextBlk_there
  rintro rfl
  obtain ⟨-, -, -, hfull⟩ := part_le hb hn
  have hone : lfsBlkSize * (Blks.cons b .nil).offs.length = lfsBlkSize := rfl
  apply List.drop_eq_nil_of_le
  omega

theorem writeLoop_ok (fuel off : ℕ) (hok : ∀ n, env.ok n = true) (hd : Device lfs w) (hc : bs.All (CrcOk lfs w))
    (hb : bOff < lfsBlkSize) (hfit : bOff + buf.length ≤ lfsBlkSize * bs.offs.length) (hfuel : buf.length ≤ fuel) :
    ∃ bs' w', writeLoop env lfs fuel bs off bOff buf w = some (OK, bs', 0, w') ∧ SameDisk w w' ∧
      bs'.ends = bs.ends ∧ bs'.offs = bs.offs ∧ bs'.All (CrcOk lfs w') ∧
      ∀ i, bs'.byte lfs w' i = storeBytes (bs.byte lfs w) bOff buf i := by
  induction bs generalizing fuel off bOff buf w with
  | nil =>
    obtain rfl : buf = [] := by
      simp only [Blks.offs, List.length_nil] at hfit
      exact List.length_eq_zero_iff.mp (by omega)
    exact ⟨.nil, w, writeLoop_nil, ⟨rfl, rfl⟩, rfl, rfl, hc, fun i => by rw [storeBytes_nil]⟩
  | wild =>
    obtain rfl : buf = [] := by
      simp only [Blks.offs, List.length_nil] at hfit
      exact List.length_eq_zero_iff.mp (by omega)
    exact ⟨.wild, w, writeLoop_nil, ⟨rfl, rfl⟩, rfl, rfl, hc, fun i => by rw [storeBytes_nil]⟩
  | cons b bnext ih =>
    cases buf with
    | nil => exact ⟨_, w, writeLoop_nil, ⟨rfl, rfl⟩, rfl, rfl, hc, fun i => by rw [storeBytes_nil]⟩
    | cons v buf =>
      obtain ⟨fuel, rfl⟩ : ∃ m, fuel = m + 1 := Nat.exists_eq_add_of_le' (by simp only [List.length_cons] at hfuel; omega)
      obtain ⟨b', w₁, hcache, hcached, hoff, hdisk, haddr⟩ := lfsCacheBlk_ok hok hd hc.1
      generalize hn : (if bOff + (v :: buf).length > lfsBlkSize then lfsBlkSize - bOff else (v :: buf).length) = n
      obtain ⟨hle, hin, hpos, hfull⟩ := part_le hb hn.symm
      have hpos := hpos (Nat.succ_pos buf.length)
      have hnext := @nextBlk_fits env w₁ b bnext (off + n) bOff n (v :: buf) hb hfit hn.symm
      rw [Blks.size_cons] at hfit
      have hdrop : ((v :: buf).drop n).length = (v :: buf).length - n := List.length_drop ..
      obtain ⟨bs', w₂, hrec, hdisk', hends, hoffs, hcrc, hbyte⟩ := @ih w₁ 0 ((v :: buf).drop n) fuel (off + n)
        (hdisk.device hd) (hdisk.all hc.2) (by decide) (by omega) (by omega)
      rw [writeLoop_next hcache hcached hn.symm, hnext, hrec]
      refine ⟨_, w₂, rfl, hdisk.trans hdisk', hends, ?_, ⟨crcOk_cached hcached, hcrc⟩, fun i => ?_⟩
      · change b'.off :: bs'.offs = b.off :: bnext.offs
        rw [hoff, hoffs]
      · have hblk : blkBytes lfs w₂ { b' with
            empty := false, written := false, addr := storeBytes b'.addr bOff ((v :: buf).take n) } =
              storeBytes b'.addr bOff ((v :: buf).take n) := blkBytes_cached hcached
        rw [Blks.byte_cons, hblk, hbyte, show bnext.byte lfs w₁ = bnext.byte lfs w from funext fun _ => hdisk.byte]
        exact store_split haddr hle hin hfull

theorem seekBlk_found (env : Env) (w : World) (add : Bool) (hk : k < bs.offs.length) : ∃ front rest,
    seekBlk env add k bs w = some (true, front, rest, 0, w) ∧ bs = rest.behind front ∧ front.length = k := by
  induction k generalizing bs with
  | zero =>
    cases bs with
    | nil => cases hk
    | wild => cases hk
    | cons b bnext => exact ⟨[], _, rfl, rfl, rfl⟩
  | succ k ih =>
    cases bs with
    | nil => cases hk
    | wild => cases hk
    | cons b bnext =>
      obtain ⟨front, rest, hseek, rfl, rfl⟩ := ih (Nat.lt_of_succ_lt_succ hk)
      refine ⟨b :: front, rest, ?_, rfl, rfl⟩
      rw [seekBlk, hseek]
      rfl

theorem seekBlk_world {found : Bool} {rest : Blks} {made : ℕ}
    (h : seekBlk env false k bs w = some (found, front, rest, made, w')) : w' = w := by
  induction k generalizing bs front with
  | zero =>
    cases bs with
    | wild => cases h
    | nil | cons =>
      cases h
      rfl
  | succ k ih =>
    cases bs with
    | wild => cases h
    | nil =>
      cases h
      rfl
    | cons b bnext =>
      rw [seekBlk] at h
      obtain ⟨⟨found₁, front₁, rest₁, made₁, w₁⟩, hseek, he⟩ := Option.map_eq_some_iff.mp h
      cases he
      exact ih hseek

theorem seekBlk_spec {rest : Blks} {made : ℕ} (h : seekBlk env false k bs w = some (true, front, rest, made, w')) :
    bs = rest.behind front ∧ front.length = k ∧ w' = w ∧ k < bs.offs.length := by
  induction k generalizing bs front with
  | zero =>
    cases bs with
    | nil => cases h
    | wild => cases h
    | cons b bnext =>
      cases h
      exact ⟨rfl, rfl, rfl, Nat.succ_pos _⟩
  | succ k ih =>
    cases bs with
    | nil => cases h
    | wild => cases h
    | cons b bnext =>
      rw [seekBlk] at h
      obtain ⟨⟨found, front₁, rest₁, made₁, w₁⟩, hseek, he⟩ := Option.map_eq_some_iff.mp h
      cases he
      obtain ⟨rfl, rfl, rfl, hk⟩ := ih hseek
      exact ⟨rfl, rfl, rfl, Nat.succ_lt_succ hk⟩

theorem findFrom_congr {h : ℕ} (hn : lfs'.nInodes = lfs.nInodes) (hs : ∀ j, (lfs'.inodes j).free = (lfs.inodes j).free ∧
    (lfs'.inodes j).created = (lfs.inodes j).created ∧ (lfs'.inodes j).name = (lfs.inodes j).name) :
    findFrom lfs' name false h fuel i = findFrom lfs name false h fuel i := by
  induction fuel generalizing i with
  | zero => rfl
  | succ fuel ih =>
    obtain ⟨hfree, hcreated, hname⟩ := hs i
    unfold findFrom
    simp only [hn, hfree, hcreated, hname, ih]

structure SameShape (lfs : Lfs) (w : World) (lfs' : Lfs) (w' : World) : Prop where
  secPerBlk : lfs'.secPerBlk = lfs.secPerBlk
  partOff : lfs'.partOff = lfs.partOff
  disk : SameDisk w w'
  find : ∀ name, lfsFindInode lfs' name false = lfsFindInode lfs name false
  blkCnt : ∀ j, (lfs'.inodes j).blkCnt = (lfs.inodes j).blkCnt
  ends : ∀ j, (lfs'.inodes j).blks.ends = (lfs.inodes j).blks.ends
  offs : ∀ j, (lfs'.inodes j).blks.offs = (lfs.inodes j).blks.offs
  crc : (∀ j, (lfs.inodes j).blks.All (CrcOk lfs w)) → ∀ j, (lfs'.inodes j).blks.All (CrcOk lfs' w')

structure SameFiles (lfs : Lfs) (w : World) (lfs' : Lfs) (w' : World) : Prop extends SameShape lfs w lfs' w' where
  lenReal : ∀ j, (lfs'.inodes j).lenReal = (lfs.inodes j).lenReal
  content : ∀ j, content lfs' w' j = content lfs w j

theorem SameShape.device (h : SameShape lfs w lfs' w') (hd : Device lfs w) : Device lfs' w' := by
  refine ⟨?_, ?_⟩
  · rw [h.secPerBlk, h.disk.blockSize]
    exact hd.blocks
  · rw [h.partOff]
    exact hd.partOff

theorem SameShape.listed (h : SameShape lfs w lfs' w') (hl : (lfs.inodes i).Listed) : (lfs'.inodes i).Listed := by
  refine ⟨(h.ends i).trans hl.ends, ?_⟩
  rw [h.offs, h.blkCnt]
  exact hl.offs

theorem SameShape.trans (h : SameShape lfs w lfs₁ w₁) (h' : SameShape lfs₁ w₁ lfs₂ w₂) : SameShape lfs w lfs₂ w₂ where
  secPerBlk := h'.secPerBlk.trans h.secPerBlk
  partOff := h'.partOff.trans h.partOff
  disk := h.disk.trans h'.disk
  find name := (h'.find name).trans (h.find name)
  blkCnt j := (h'.blkCnt j).trans (h.blkCnt j)
  ends j := (h'.ends j).trans (h.ends j)
  offs j := (h'.offs j).trans (h.offs j)
  crc := h'.crc ∘ h.crc

theorem SameFiles.trans (h : SameFiles lfs w lfs₁ w₁) (h' : SameFiles lfs₁ w₁ lfs₂ w₂) : SameFiles lfs w lfs₂ w₂ where
  toSameShape := h.toSameShape.trans h'.toSameShape
  lenReal j := (h'.lenReal j).trans (h.lenReal j)
  content j := (h'.content j).trans (h.content j)

theorem SameFiles.refl : SameFiles lfs w lfs w :=
  ⟨⟨rfl, rfl, ⟨rfl, rfl⟩, fun _ => rfl, fun _ => rfl, fun _ => rfl, fun _ => rfl, id⟩, fun _ => rfl, fun _ => rfl⟩

theorem setInode_relink_inodes {p : Option ℕ} {f : ℕ → Option ℕ} :
    ((lfs.setInode i y).relink p f).inodes j = { if j = i then y else lfs.inodes j with wnext := f j } := by
  change { (lfs.setInode i y).inodes j with wnext := f j } = _
  rw [Lfs.setInode_inodes]

theorem SameShape.set {p : Option ℕ} {f : ℕ → Option ℕ} (hs : SameDisk w w')
    (hslot : y.free = (lfs.inodes i).free ∧ y.created = (lfs.inodes i).created ∧ y.name = (lfs.inodes i).name)
    (hcnt : y.blkCnt = (lfs.inodes i).blkCnt) (hends : y.blks.ends = (lfs.inodes i).blks.ends)
    (hoffs : y.blks.offs = (lfs.inodes i).blks.offs)
    (hcrc : (lfs.inodes i).blks.All (CrcOk lfs w) → y.blks.All (CrcOk lfs w')) :
    SameShape lfs w ((lfs.setInode i y).relink p f) w' := by
  have hinode : ∀ j, ((lfs.setInode i y).relink p f).inodes j = { if j = i then y else lfs.inodes j with wnext := f j } :=
    fun j => setInode_relink_inodes
  refine ⟨rfl, rfl, hs, fun name => ?_, fun j => ?_, fun j => ?_, fun j => ?_, fun hall j => ?_⟩
  · refine findFrom_congr (by rfl) fun j => ?_
    rw [hinode]
    by_cases hj : j = i
    · rw [hj, if_pos rfl]
      exact hslot
    · rw [if_neg hj]
      exact ⟨rfl, rfl, rfl⟩
  · rw [hinode]
    split_ifs with hj
    · rw [hj]
      exact hcnt
    · rfl
  · rw [hinode]
    split_ifs with hj
    · rw [hj]
      exact hends
    · rfl
  · rw [hinode]
    split_ifs with hj
    · rw [hj]
      exact hoffs
    · rfl
  · rw [hinode]
    split_ifs with hj
    · exact hcrc (hall i)
    · exact hs.all (hall j)

theorem byte_set {p : Option ℕ} {f : ℕ → Option ℕ} :
    bs.byte ((lfs.setInode i y).relink p f) w k = bs.byte lfs w k := by
  induction bs generalizing k with
  | nil => rfl
  | wild => rfl
  | cons b bnext ih =>
    rw [Blks.byte_cons, Blks.byte_cons, ih]
    rfl

theorem content_set {p : Option ℕ} {f : ℕ → Option ℕ} (hs : SameDisk w w') :
    content ((lfs.setInode i y).relink p f) w' j = if j = i then y.blks.byte lfs w' else content lfs w j := by
  funext k
  unfold content
  rw [setInode_relink_inodes, byte_set]
  split_ifs
  · rfl
  · exact hs.byte

theorem lfsInodeGetBlk_eq {add : Bool} : lfsInodeGetBlk env x (alignDown off lfsBlkSize) add w =
    if add = false ∧ alignDown off lfsBlkSize > x.blkCnt * lfsBlkSize % 2 ^ 32 then some (false, [], x.blks, 0, w)
    else seekBlk env add (off / lfsBlkSize) x.blks w := by
  have hdiv : off / lfsBlkSize * lfsBlkSize / lfsBlkSize = off / lfsBlkSize := Nat.mul_div_cancel _ (by decide)
  unfold lfsInodeGetBlk alignDown
  rw [hdiv, if_neg (not_not.mpr rfl)]

theorem lfsWrite_found (hf : lfsFindInode lfs name false = some (some i)) :
    lfsWrite env fuel lfs name buf off w =
      match seekBlk env true (off / lfsBlkSize) (lfs.inodes i).blks w with
      | none => none
      | some (found, front, rest, made, w) =>
        if found = false then
          some (ERR, lfs.setInode i
            { lfs.inodes i with blks := rest.behind front, blkCnt := (lfs.inodes i).blkCnt + made }, w)
        else
          match writeLoop env lfs buf.length rest off (off - alignDown off lfsBlkSize) buf w with
          | none => none
          | some (r, rest, made', w) =>
            let x := { lfs.inodes i with
              blks := rest.behind front, blkCnt := (lfs.inodes i).blkCnt + made + made' }
            if r ≠ OK then some (ERR, lfs.setInode i x, w)
            else
              let x := if x.lenReal < off + buf.length then { x with lenReal := off + buf.length } else x
              (lfsAddPending fuel (lfs.setInode i x) i).map fun lfs => (OK, lfs, w) := by
  have hseek : lfsInodeGetBlk env (lfs.inodes i) (alignDown off lfsBlkSize) true w =
      seekBlk env true (off / lfsBlkSize) (lfs.inodes i).blks w :=
    lfsInodeGetBlk_eq.trans (if_neg fun h => absurd h.1 (by decide))
  unfold lfsWrite
  rewrite [hf, ← hseek]
  rfl

theorem Inode.Listed.length (h : x.Listed) : x.blks.offs.length = x.blkCnt := by
  rw [h.offs, List.length_map, List.length_range]

theorem align_lt (off : ℕ) : off - alignDown off lfsBlkSize < lfsBlkSize := by
  unfold alignDown lfsBlkSize
  omega

theorem align_eq (off : ℕ) : alignDown off lfsBlkSize = lfsBlkSize * (off / lfsBlkSize) := Nat.mul_comm ..

theorem align_le (off : ℕ) : alignDown off lfsBlkSize ≤ off := Nat.div_mul_le_self ..

theorem lfsRead_same (hok : ∀ n, env.ok n = true) (hd : Device lfs w)
    (hc : ∀ j, (lfs.inodes j).blks.All (CrcOk lfs w))
    (h : lfsRead env lfs name off len w = some (r, data, lfs', w')) : SameFiles lfs w lfs' w' := by
  unfold lfsRead at h
  split at h
  · cases h
  · cases h
    exact .refl
  · rename_i i hf
    simp only [lfsInodeGetBlk_eq] at h
    split_ifs at h with hlen hprod
    · cases h
      exact .refl
    · cases h
      exact .refl
    · split at h
      · cases h
      · rename_i found front rest made w₁ hseek
        cases found with
        | false =>
          obtain rfl := seekBlk_world hseek
          cases h
          exact .refl
        | true =>
          obtain ⟨hblks, hfront, rfl, -⟩ := seekBlk_spec hseek
          simp only [Bool.true_eq_false, if_false] at h
          obtain ⟨⟨r₁, data₁, rest', w₂⟩, hloop, he⟩ := Option.map_eq_some_iff.mp h
          cases he
          have hall := hc i
          rw [hblks] at hall
          obtain ⟨hlike, hdisk⟩ := readLoop_like hok hd (Blks.all_behind.mp hall).2 (align_lt off) hloop
          have hsame := hlike.behind front hdisk
          rw [← hblks] at hsame
          rw [← relink_self (lfs.setInode i _)]
          refine ⟨SameShape.set hdisk ⟨rfl, rfl, rfl⟩ rfl hsame.ends hsame.offs hsame.crc, fun j => ?_, fun j => ?_⟩
          · rw [setInode_relink_inodes]
            split_ifs with hj
            · rw [hj]
            · rfl
          · rw [content_set hdisk]
            split_ifs with hj
            · rw [hj]
              exact funext hsame.bytes
            · rfl

theorem lfsRead_inside (hf : lfsFindInode lfs name false = some (some i)) (hlen : off + len ≤ (lfs.inodes i).lenReal) :
    lfsRead env lfs name off len w =
      match lfsInodeGetBlk env (lfs.inodes i) (alignDown off lfsBlkSize) false w with
      | none => none
      | some (found, front, rest, _, w) =>
        if found = false then some (ERR, [], lfs, w)
        else
          (readLoop env lfs rest (off - alignDown off lfsBlkSize) len w).map fun (r, data, rest, w) =>
            (r, data, lfs.setInode i { lfs.inodes i with blks := rest.behind front }, w) := by
  unfold lfsRead
  rw [hf]
  exact if_neg (by omega)

theorem lfsRead_blocks {m : ℕ} (name : Name) (hok : ∀ n, env.ok n = true) (hd : Device lfs w)
    (hc : (lfs.inodes i).blks.All (CrcOk lfs w)) (hf : lfsFindInode lfs name false = some (some i))
    (hcount : (lfs.inodes i).blks.offs.length = m) (hlen : off + len ≤ (lfs.inodes i).lenReal) :
    (∃ lfs' w', lfsRead env lfs name off len w =
      some (OK, (List.range len).map fun k => content lfs w i (off + k), lfs', w')) ∧
      alignDown off lfsBlkSize < lfsBlkSize * m ∧
      alignDown off lfsBlkSize ≤ (lfs.inodes i).blkCnt * lfsBlkSize % 2 ^ 32 ∧ off + len ≤ lfsBlkSize * m ∨
    (∀ data lfs' w', lfsRead env lfs name off len w ≠ some (OK, data, lfs', w')) ∧
      ¬ (alignDown off lfsBlkSize < lfsBlkSize * m ∧
        alignDown off lfsBlkSize ≤ (lfs.inodes i).blkCnt * lfsBlkSize % 2 ^ 32 ∧ off + len ≤ lfsBlkSize * m) := by
  have hdown := align_le off
  have hin := align_lt off
  rw [lfsRead_inside hf hlen, lfsInodeGetBlk_eq]
  by_cases hprod : alignDown off lfsBlkSize > (lfs.inodes i).blkCnt * lfsBlkSize % 2 ^ 32
  · rw [if_pos ⟨rfl, hprod⟩]
    refine .inr ⟨fun data lfs' w' h => ?_, fun hr => absurd hr.2.1 (by omega)⟩
    cases h
  · rw [if_neg fun h => hprod h.2]
    by_cases hk : off / lfsBlkSize < m
    · obtain ⟨front, rest, hseek, hblks, hfront⟩ := seekBlk_found env w false
        (hcount.symm ▸ hk)
      have halign : alignDown off lfsBlkSize = lfsBlkSize * front.length := by rw [hfront, align_eq]
      rw [hblks] at hc hcount
      rw [Blks.length_behind] at hcount
      have hrest : lfsBlkSize * m = lfsBlkSize * front.length + lfsBlkSize * rest.offs.length := by
        rw [← hcount, Nat.mul_add]
      have hcrest := (Blks.all_behind.mp hc).2
      rw [hseek]
      simp only [Bool.true_eq_false, if_false]
      have hfirst : alignDown off lfsBlkSize < lfsBlkSize * m := by
        rw [align_eq]
        exact Nat.mul_lt_mul_of_pos_left hk (by decide)
      by_cases hfit : off + len ≤ lfsBlkSize * m
      · obtain ⟨bs', w', hloop⟩ := @readLoop_fits env lfs w rest _ len hok hd hcrest hin (by omega)
        rw [hloop]
        refine .inl ⟨⟨lfs.setInode i { lfs.inodes i with blks := bs'.behind front }, w', ?_⟩, hfirst, by omega, hfit⟩
        simp only [Option.map_some, Option.some.injEq, Prod.mk.injEq, true_and, and_true]
        refine List.map_congr_left fun m _ => ?_
        unfold content
        rw [hblks, Blks.byte_behind_ge (by omega)]
        exact congrArg _ (by omega)
      · refine .inr ⟨fun data lfs' w' h => ?_, fun hr => hfit hr.2.2⟩
        obtain ⟨⟨r₁, data₁, rest', w₂⟩, hloop, he⟩ := Option.map_eq_some_iff.mp h
        cases he
        refine readLoop_short hok hd hcrest hin (by omega) ?_ hloop
        have hblk : off / lfsBlkSize + 1 ≤ m := hk
        have hend := Nat.mul_le_mul_left lfsBlkSize hblk
        rw [Nat.mul_add, ← align_eq] at hend
        omega
    · refine .inr ⟨fun data lfs' w' h => ?_, fun hr => ?_⟩
      · split at h
        · cases h
        · rename_i found front rest made w₁ hseek
          cases found with
          | false => cases h
          | true =>
            obtain ⟨-, -, -, hlt⟩ := seekBlk_spec hseek
            omega
      · have hfirst := hr.1
        rw [align_eq] at hfirst
        exact hk (Nat.lt_of_mul_lt_mul_left hfirst)

theorem lfsRead_iff (name : Name) (hok : ∀ n, env.ok n = true) (hd : Device lfs w) (hc : (lfs.inodes i).blks.All (CrcOk lfs w))
    (hf : lfsFindInode lfs name false = some (some i)) (hl : (lfs.inodes i).Listed)
    (hlen : off + len ≤ (lfs.inodes i).lenReal) :
    (∃ lfs' w', lfsRead env lfs name off len w =
      some (OK, (List.range len).map fun k => content lfs w i (off + k), lfs', w')) ↔
      (lfs.inodes i).Readable off len := by
  rcases lfsRead_blocks name hok hd hc hf hl.length hlen with ⟨hread, h1, h2, h3⟩ | ⟨hno, hr⟩
  · exact iff_of_true hread ⟨h1, h2, h3⟩
  · exact iff_of_false (fun ⟨lfs', w', h⟩ => hno _ _ _ h) fun ⟨h1, h2, h3⟩ => hr ⟨h1, h2, h3⟩

theorem lfsWrite_eq (fuel : ℕ) (hok : ∀ n, env.ok n = true) (hd : Device lfs w)
    (hc : (lfs.inodes i).blks.All (CrcOk lfs w)) (hf : lfsFindInode lfs name false = some (some i))
    (hl : (lfs.inodes i).Listed) (hb : buf ≠ []) (hfit : off + buf.length ≤ lfsBlkSize * (lfs.inodes i).blkCnt) :
    ∃ y w', lfsWrite env fuel lfs name buf off w =
        (lfsAddPending fuel (lfs.setInode i y) i).map (fun lfs => (OK, lfs, w')) ∧ SameDisk w w' ∧
      (y.free = (lfs.inodes i).free ∧ y.created = (lfs.inodes i).created ∧ y.name = (lfs.inodes i).name) ∧
      y.blkCnt = (lfs.inodes i).blkCnt ∧ y.blks.ends = (lfs.inodes i).blks.ends ∧
      y.blks.offs = (lfs.inodes i).blks.offs ∧ y.blks.All (CrcOk lfs w') ∧
      y.lenReal = max (lfs.inodes i).lenReal (off + buf.length) ∧
      y.blks.byte lfs w' = overwrite (content lfs w i) off buf := by
  have hcount := hl.length
  have hdown := align_le off
  have hlen : 0 < buf.length := List.length_pos_iff.mpr hb
  have hk : off / lfsBlkSize < (lfs.inodes i).blkCnt := by
    apply Nat.div_lt_of_lt_mul
    omega
  obtain ⟨front, rest, hseek, hblks, hfront⟩ := seekBlk_found env w true (hcount.symm ▸ hk)
  have halign : alignDown off lfsBlkSize = lfsBlkSize * front.length := by rw [hfront, align_eq]
  rw [hblks] at hc hcount
  rw [Blks.length_behind] at hcount
  have hrest : lfsBlkSize * (lfs.inodes i).blkCnt = lfsBlkSize * front.length + lfsBlkSize * rest.offs.length := by
    rw [← hcount, Nat.mul_add]
  obtain ⟨hcfront, hcrest⟩ := Blks.all_behind.mp hc
  obtain ⟨rest', w', hloop, hdisk, hends, hoffs, hcrc, hbyte⟩ := writeLoop_ok buf.length off hok hd
    hcrest (align_lt off) (by omega) le_rfl
  refine ⟨if (lfs.inodes i).lenReal < off + buf.length then
      { lfs.inodes i with blks := rest'.behind front, lenReal := off + buf.length }
    else { lfs.inodes i with blks := rest'.behind front }, w', ?_, hdisk, ?_⟩
  · rw [lfsWrite_found hf, hseek]
    simp only [hloop, Bool.true_eq_false, if_false, Nat.add_zero, ne_eq, not_true_eq_false]
  generalize hy : (if (lfs.inodes i).lenReal < off + buf.length then
      ({ lfs.inodes i with blks := rest'.behind front, lenReal := off + buf.length } : Inode)
    else { lfs.inodes i with blks := rest'.behind front }) = y
  have hyslot : (y.free = (lfs.inodes i).free ∧ y.created = (lfs.inodes i).created ∧ y.name = (lfs.inodes i).name) ∧
      y.blkCnt = (lfs.inodes i).blkCnt ∧ y.blks = rest'.behind front ∧
      y.lenReal = max (lfs.inodes i).lenReal (off + buf.length) := by
    rw [← hy]
    split_ifs
    · exact ⟨⟨rfl, rfl, rfl⟩, rfl, rfl, by simp only; omega⟩
    · exact ⟨⟨rfl, rfl, rfl⟩, rfl, rfl, by simp only; omega⟩
  obtain ⟨hslot, hcnt, hyblks, hreal⟩ := hyslot
  rw [hyblks]
  refine ⟨hslot, hcnt, ?_, ?_, ?_, hreal, ?_⟩
  · rw [hblks, Blks.ends_behind, Blks.ends_behind, hends]
  · rw [hblks, Blks.offs_behind, Blks.offs_behind, hoffs]
  · exact Blks.all_behind.mpr ⟨fun b hb => hdisk.crcOk.mpr (hcfront b hb), hcrc⟩
  · funext k
    unfold overwrite content
    rw [hblks]
    by_cases hk' : k < lfsBlkSize * front.length
    · rw [Blks.byte_behind_lt rest hk', hdisk.byte]
      exact (if_neg (by omega)).symm
    · rw [Blks.byte_behind_ge (by omega), hbyte]
      unfold storeBytes
      by_cases hin : off ≤ k ∧ k < off + buf.length
      · rw [if_pos hin, if_pos (by omega)]
        exact congrArg (buf.getD · 0) (by omega)
      · rw [if_neg hin, if_neg (by omega), Blks.byte_behind_ge (by omega)]

theorem lfsWrite_spec (hok : ∀ n, env.ok n = true) (hd : Device lfs w) (hc : (lfs.inodes i).blks.All (CrcOk lfs w))
    (hf : lfsFindInode lfs name false = some (some i)) (hl : (lfs.inodes i).Listed) (hb : buf ≠ [])
    (hfit : off + buf.length ≤ lfsBlkSize * (lfs.inodes i).blkCnt)
    (h : lfsWrite env fuel lfs name buf off w = some (OK, lfs', w')) :
    SameShape lfs w lfs' w' ∧ (∀ j, content lfs' w' j =
      if j = i then overwrite (content lfs w i) off buf else content lfs w j) ∧
    ∀ j, (lfs'.inodes j).lenReal =
      if j = i then max (lfs.inodes i).lenReal (off + buf.length) else (lfs.inodes j).lenReal := by
  obtain ⟨y, w₁, heq, hdisk, hslot, hcnt, hends, hoffs, hcrc, hreal, hbyte⟩ := lfsWrite_eq fuel hok hd hc hf hl hb hfit
  rw [heq] at h
  obtain ⟨lfs₁, hpend, he⟩ := Option.map_eq_some_iff.mp h
  injection he with _ he
  injection he with hlfs hw
  obtain ⟨p, f, hrel⟩ := lfsAddPending_relink hpend
  rw [← hlfs, ← hw, hrel]
  refine ⟨SameShape.set hdisk hslot hcnt hends hoffs fun _ => hcrc, fun j => ?_, fun j => ?_⟩
  · rw [content_set hdisk, hbyte]
  · rw [setInode_relink_inodes]
    split_ifs
    · exact hreal
    · rfl

theorem lfsWrite_ok (fuel off : ℕ) (hok : ∀ n, env.ok n = true) (hd : Device lfs w)
    (hc : (lfs.inodes i).blks.All (CrcOk lfs w)) (hf : lfsFindInode lfs name false = some (some i)) (hl : (lfs.inodes i).Listed) (hb : buf ≠ [])
    (hfit : off + buf.length ≤ lfsBlkSize * (lfs.inodes i).blkCnt) (hp : lfs.pending = none) :
    ∃ lfs' w', lfsWrite env (fuel + 1) lfs name buf off w = some (OK, lfs', w') := by
  obtain ⟨y, w₁, heq, -⟩ := lfsWrite_eq (fuel + 1) hok hd hc hf hl hb hfit
  have hrm : lfsRemovePending (fuel + 1) (lfs.setInode i y) i = some (lfs.setInode i y) := by
    have hlink : (lfs.setInode i y).link none = none := hp
    rw [lfsRemovePending, removePendingFrom, hlink]
  rw [heq, lfsAddPending, hrm]
  exact ⟨_, _, rfl⟩

def Reads (env : Env) : Lfs × World → Lfs × World → Prop :=
  Relation.ReflTransGen fun s s' => ∃ name off len r data, lfsRead env s.1 name off len s.2 = some (r, data, s'.1, s'.2)

theorem Reads.same (hok : ∀ n, env.ok n = true) (hd : Device lfs w)
    (hc : ∀ j, (lfs.inodes j).blks.All (CrcOk lfs w)) (h : Reads env (lfs, w) (lfs', w')) : SameFiles lfs w lfs' w' := by
  generalize hs : (lfs', w') = s at h
  induction h generalizing lfs' w' with
  | refl =>
    cases hs
    exact .refl
  | @tail s s' _ hstep ih =>
    subst hs
    obtain ⟨name, off, len, r, data, hread⟩ := hstep
    have hsame := ih rfl
    exact hsame.trans (lfsRead_same hok (hsame.device hd) (hsame.crc hc) hread)

def freshFile (n : ℕ) : Lfs :=
  { blankLfs with
    nInodes := 1
    inodes := fun _ =>
      { blankLfs.inodes 0 with
        created := true, blkCnt := n, lenReal := lfsBlkSize * n
        blks := Blks.nil.behind ((List.range n).map fun k => lfsCreateBlk (lfsBlkSize * k)) } }

theorem freshFile_device (n : ℕ) : Device (freshFile n) blankWorld where
  blocks := show 8 * 512 = 4096 by decide
  partOff := show 0 < 2 ^ 32 by decide

theorem freshFile_listed (n i : ℕ) : ((freshFile n).inodes i).Listed := by
  refine ⟨Blks.ends_behind, Blks.offs_behind.trans ?_⟩
  rw [List.map_map]
  exact List.append_nil _

theorem freshFile_crc (n i : ℕ) : ((freshFile n).inodes i).blks.All (CrcOk (freshFile n) blankWorld) := by
  refine Blks.all_behind.mpr ⟨fun b hb _ he => ?_, trivial⟩
  obtain ⟨k, -, rfl⟩ := List.mem_map.mp hb
  cases he

theorem freshFile_find (n : ℕ) : lfsFindInode (freshFile n) (fun _ => 0) false = some (some 0) := by
  rfl

/-- After a write and any reads each file holds what it did, but for the range that was written, and a read within the
file's length comes back with that just if the blocks are there and `lfs_inode_get_blk` looks for them. -/
theorem read_over_write (hok : ∀ n, env.ok n = true) (hd : Device lfs w)
    (hc : ∀ j, (lfs.inodes j).blks.All (CrcOk lfs w)) (hf : lfsFindInode lfs name false = some (some i))
    (hl : (lfs.inodes i).Listed) (hb : buf ≠ []) (hfit : off + buf.length ≤ lfsBlkSize * (lfs.inodes i).blkCnt)
    (hw : lfsWrite env fuel lfs name buf off w = some (OK, lfs₁, w₁)) (hr : Reads env (lfs₁, w₁) (lfs₂, w₂)) :
    (∀ j, content lfs₂ w₂ j = if j = i then overwrite (content lfs w i) off buf else content lfs w j) ∧
    ∀ off' len, off' + len ≤ (lfs₂.inodes i).lenReal →
      ((∃ lfs₃ w₃, lfsRead env lfs₂ name off' len w₂ = some (OK,
        (List.range len).map fun k => overwrite (content lfs w i) off buf (off' + k), lfs₃, w₃)) ↔
        (lfs.inodes i).Readable off' len) := by
  obtain ⟨hshape, hcontent, hreal⟩ := lfsWrite_spec hok hd (hc i) hf hl hb hfit hw
  have hsame := hr.same hok (hshape.device hd) (hshape.crc hc)
  have hcontent' : ∀ j, content lfs₂ w₂ j = if j = i then overwrite (content lfs w i) off buf else content lfs w j :=
    fun j => (hsame.content j).trans (hcontent j)
  refine ⟨hcontent', fun off' len hlen => ?_⟩
  have hshape' := hshape.trans hsame.toSameShape
  have hiff := lfsRead_iff name hok (hshape'.device hd) (hshape'.crc hc i) ((hshape'.find name).trans hf)
    (hshape'.listed hl) hlen
  rw [hcontent' i, if_pos rfl] at hiff
  rw [hiff]
  have hcnt := hshape'.blkCnt i
  constructor
  · rintro ⟨h1, h2, h3⟩
    rw [hcnt] at h1 h2 h3
    exact ⟨h1, h2, h3⟩
  · rintro ⟨h1, h2, h3⟩
    rw [← hcnt] at h1 h2 h3
    exact ⟨h1, h2, h3⟩

theorem read_over_write_freshFile : ∃ lfs₁ w₁ lfs₂ w₂,
    lfsWrite calmEnv 1 (freshFile 1) (fun _ => 0) [7] 4000 blankWorld = some (OK, lfs₁, w₁) ∧
    lfsRead calmEnv lfs₁ (fun _ => 0) 3999 2 w₁ = some (OK, [0, 7], lfs₂, w₂) := by
  have hok : ∀ n, calmEnv.ok n = true := fun _ => rfl
  obtain ⟨lfs₁, w₁, hwrite⟩ := lfsWrite_ok 0 4000 hok (freshFile_device 1) (freshFile_crc 1 0) (freshFile_find 1)
    (freshFile_listed 1 0) (List.cons_ne_nil 7 []) (by decide) rfl
  obtain ⟨-, hread⟩ := read_over_write hok (freshFile_device 1) (freshFile_crc 1) (freshFile_find 1)
    (freshFile_listed 1 0) (List.cons_ne_nil 7 []) (by decide) hwrite .refl
  have hreal : (lfs₁.inodes 0).lenReal = 4096 := by
    obtain ⟨-, -, hreal⟩ := lfsWrite_spec hok (freshFile_device 1) (freshFile_crc 1 0) (freshFile_find 1)
      (freshFile_listed 1 0) (List.cons_ne_nil 7 []) (by decide) hwrite
    rw [hreal 0]
    rfl
  have hrange : (List.range 2).map (fun k => overwrite (content (freshFile 1) blankWorld 0) 4000 [7] (3999 + k)) =
    [0, 7] := rfl
  obtain ⟨lfs₂, w₂, hdata⟩ := (hread 3999 2 (by rw [hreal]; decide)).mpr ⟨by decide, by decide, by decide⟩
  exact ⟨lfs₁, w₁, lfs₂, w₂, hwrite, hrange ▸ hdata⟩

theorem read_over_write_wraps : ∃ lfs₁ w₁,
    lfsWrite calmEnv 1 (freshFile (2 ^ 20)) (fun _ => 0) [7] 0 blankWorld = some (OK, lfs₁, w₁) ∧
    4096 + 1 ≤ (lfs₁.inodes 0).lenReal ∧
    ¬ ∃ lfs₂ w₂, lfsRead calmEnv lfs₁ (fun _ => 0) 4096 1 w₁ = some (OK, (List.range 1).map fun k =>
      overwrite (content (freshFile (2 ^ 20)) blankWorld 0) 0 [7] (4096 + k), lfs₂, w₂) := by
  have hok : ∀ n, calmEnv.ok n = true := fun _ => rfl
  have hfit : 0 + [(7 : UInt8)].length ≤ lfsBlkSize * ((freshFile (2 ^ 20)).inodes 0).blkCnt :=
    show 1 ≤ 4096 * 2 ^ 20 by decide
  obtain ⟨lfs₁, w₁, hwrite⟩ := lfsWrite_ok 0 0 hok (freshFile_device (2 ^ 20)) (freshFile_crc (2 ^ 20) 0) (freshFile_find (2 ^ 20))
    (freshFile_listed (2 ^ 20) 0) (List.cons_ne_nil 7 []) hfit rfl
  obtain ⟨hshape, hcontent, hreal⟩ := lfsWrite_spec hok (freshFile_device (2 ^ 20)) (freshFile_crc (2 ^ 20) 0) (freshFile_find (2 ^ 20))
    (freshFile_listed (2 ^ 20) 0) (List.cons_ne_nil 7 []) hfit hwrite
  have hlen : 4096 + 1 ≤ (lfs₁.inodes 0).lenReal := by
    rw [hreal 0, if_pos rfl]
    exact (show 4096 + 1 ≤ lfsBlkSize * 2 ^ 20 by decide).trans (Nat.le_max_left _ _)
  refine ⟨lfs₁, w₁, hwrite, hlen, fun hread => ?_⟩
  have hcount : (lfs₁.inodes 0).blkCnt = 2 ^ 20 := hshape.blkCnt 0
  have hiff := lfsRead_iff (fun _ => 0) hok (hshape.device (freshFile_device (2 ^ 20)))
    (hshape.crc (freshFile_crc (2 ^ 20)) 0) ((hshape.find _).trans (freshFile_find (2 ^ 20)))
    (hshape.listed (freshFile_listed (2 ^ 20) 0)) hlen
  rw [hcontent 0, if_pos rfl] at hiff
  have hproduct := (hiff.mp hread).product
  rw [hcount] at hproduct
  exact absurd hproduct (by decide)

end Agatha.Fs
