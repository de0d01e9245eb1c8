import Agatha.Library.Replay
import Agatha.Fs.Damage
import Agatha.Fs.FlushRuns
import Agatha.Fs.Scan

namespace Agatha.Fs

open Library Library.Bytes Library.LinkedList

structure Record where
  index : ℕ
  name : Name
  blkCnt : ℕ
  lenReal : ℕ
  entries : List (ℕ × ℕ)

def Blk.entry (b : Blk) : ℕ × ℕ := if b.empty then (0, 0) else (b.blk, b.crc)

def Blks.entries : Blks → List (ℕ × ℕ)
  | .cons b bnext => b.entry :: bnext.entries
  | _ => []

def Inode.record (x : Inode) : Record := ⟨x.index, x.name, x.blkCnt, x.lenReal, x.blks.entries⟩

def entryAt (f : Bytes) (n : ℕ) : ℕ × ℕ := (f.get32 (40 + 8 * n), f.get32 (44 + 8 * n))

def readRecord (f : Bytes) : Record where
  index := f.get32 8
  name := fun j => f (12 + j)
  blkCnt := f.get32 28
  lenReal := f.get64 32
  entries := (List.range (f.get32 28)).map (entryAt f)

structure Record.Fits (r : Record) : Prop where
  index : r.index < 2 ^ 32
  blkCnt : r.blkCnt < 2 ^ 32
  lenReal : r.lenReal < 2 ^ 64
  entries : ∀ e ∈ r.entries, e.1 < 2 ^ 32 ∧ e.2 < 2 ^ 32
  length : r.entries.length = r.blkCnt

def entryBlks : ℕ → List (ℕ × ℕ) → Blks
  | _, [] => .nil
  | n, e :: es =>
    .cons { written := true, blk := e.1, crc := e.2, off := n * lfsBlkSize, empty := e.1 = 0 ∧ e.2 = 0, cached := false
            addr := zeros } (entryBlks (n + 1) es)

def Inode.install (x : Inode) (r : Record) : Inode :=
  { x with
    created := true, free := false, name := r.name, blkCnt := r.blkCnt, lenReal := r.lenReal
    blks := match entryBlks 0 r.entries with
      | .nil => x.blks
      | bs => bs }

def Lfs.replay (lfs : Lfs) (log : List Record) : Lfs :=
  { lfs with inodes := Replay.playAll Record.index Inode.install lfs.inodes log }

def blkAt (lfs : Lfs) (w : World) (blk : ℕ) : Bytes := onDisk w (lfs.sector (lfs.segStart + blk))

structure InodeBlk (nInodes : ℕ) (f : Bytes) : Prop where
  valid : Valid lfsInodeMagic lfsBlkSize f
  index : f.get32 8 < nInodes
  blkCnt : f.get32 28 ≤ nDirectBlks

def inodeAt (s : Bytes) (k : ℕ) : Bool := s.get32 (16 + 4 * k) = lfsBlkInode

def segRecords (s : Bytes) (f : ℕ → Bytes) (cnt : ℕ) : List Record :=
  ((List.range cnt).filter (inodeAt s)).map fun k => readRecord (f k)

structure SegLog (lfs : Lfs) (w : World) (seg : ℕ) (recs : List Record) : Prop where
  valid : Valid lfsSegsumMagic lfsBlkSize (blkAt lfs w (seg * lfsSegBlks))
  count : (blkAt lfs w (seg * lfsSegBlks)).get32 12 ≤ lfsSegBlks - 1
  inodes : ∀ k < (blkAt lfs w (seg * lfsSegBlks)).get32 12, inodeAt (blkAt lfs w (seg * lfsSegBlks)) k = true →
    InodeBlk lfs.nInodes (blkAt lfs w (seg * lfsSegBlks + 1 + k))
  records : recs = segRecords (blkAt lfs w (seg * lfsSegBlks)) (fun k => blkAt lfs w (seg * lfsSegBlks + 1 + k))
    ((blkAt lfs w (seg * lfsSegBlks)).get32 12)

/-- The loop of `lfs_scan` from a pointer to a segment on. -/
def scanFrom (env : Env) : ℕ → Option ℕ → Lfs → World → Option (ℤ × Lfs × World)
  | 0, _, _, _ => none
  | _ + 1, none, lfs, w => some (OK, lfs, w)
  | fuel + 1, some s, lfs, w =>
    if lfs.nSegs ≤ s then none
    else
      match lfsScanSegment env lfs (lfs.segments s).index w with
      | none => none
      | some (r, lfs, w) => if r ≠ OK then some (ERR, lfs, w) else scanFrom env fuel (lfs.segments s).next lfs w

def lfsScan (env : Env) (fuel : ℕ) (lfs : Lfs) (w : World) : Option (ℤ × Lfs × World) :=
  scanFrom env fuel lfs.segHead lfs w

def lfsLoad (env : Env) (fuel : ℕ) (lfs : Lfs) (w : World) : Option (ℤ × Lfs × World) :=
  match lfsLoadSuperblock env lfs w with
  | (r, lfs, w) =>
    if r ≠ OK then some (ERR, lfs, w)
    else
      match lfsInit env lfs w with
      | (r, lfs, w) =>
        if r ≠ OK then some (ERR, lfs, w)
        else
          match lfsLoadCheckpoint env fuel lfs w with
          | none => none
          | some (r, lfs, w) =>
            if r ≠ OK then some (ERR, lfs, w)
            else (lfsScan env fuel lfs w).map fun (r, lfs, w) => (if r = OK then OK else ERR, lfs, w)

variable {env : Env} {lfs lfs' : Lfs} {w w' : World} {bs bs' : Blks} {b : Blk} {x : Inode} {f g s s' buf : Bytes}
  {o n k seg cnt fuel : ℕ} {r : Record} {recs : List Record} {xs ys : List ℕ}

section Words

theorem shift_get32 (p : ℕ) : (f.shift o).get32 p = f.get32 (o + p) := rfl

theorem get32_eq {p : ℕ} (h : Agree f g o n) (h1 : o ≤ p) (h2 : p + 4 ≤ o + n) : f.get32 p = g.get32 p :=
  get32_congr (h.mono h1 h2)

end Words

section Filling

theorem sealed_valid {magic len : ℕ} (hm : f.get32 o = magic) (h0 : f.get32 (o + 4) = 0) :
    Valid magic len ((f.put32 (o + 4) (crcChecksum f o len)).shift o) := by
  constructor
  · rw [shift_get32, Nat.add_zero, get32_put32_ne (by omega)]
    exact hm
  · rw [shift_get32, get32_put32_same, Nat.mod_eq_of_lt crcChecksum_lt]
    apply crcChecksum_congr
    intro i hi
    rw [Nat.zero_add]
    by_cases h : 4 ≤ i ∧ i < 8
    · rw [put32_zero i h.1 (by omega)]
      exact get32_zero h0 (o + i) (by omega) (by omega)
    · rw [put32_outside i (by omega)]
      exact (put32_outside (o + i) (by omega)).symm

theorem fillDirect_cons (h : fillDirect o n (.cons b bs) s = some (true, s')) : n < nDirectBlks ∧
    fillDirect o (n + 1) bs ((s.put32 (o + 40 + 8 * n) b.entry.1).put32 (o + 44 + 8 * n) b.entry.2) = some (true, s') := by
  rw [fillDirect] at h
  by_cases hn : n < nDirectBlks
  · rw [if_pos hn] at h
    refine ⟨hn, ?_⟩
    unfold Blk.entry
    cases hb : b.empty <;>
    · rw [hb] at h
      exact h
  · rw [if_neg hn] at h
    cases h

theorem fillDirect_outside (h : fillDirect o n bs s = some (true, s')) (i : ℕ)
    (hi : i < o + 40 + 8 * n ∨ o + 168 ≤ i) : s' i = s i := by
  induction bs generalizing n s with
  | nil =>
    cases h
    rfl
  | wild => cases h
  | cons b bnext ih =>
    obtain ⟨hn, hrec⟩ := fillDirect_cons h
    unfold nDirectBlks at hn
    rw [ih hrec (by omega), put32_outside i (by omega), put32_outside i (by omega)]

theorem fillDirect_entries (h : fillDirect o n bs s = some (true, s'))
    (hfit : ∀ e ∈ bs.entries, e.1 < 2 ^ 32 ∧ e.2 < 2 ^ 32) :
    (List.range' n bs.entries.length).map (entryAt (s'.shift o)) = bs.entries := by
  induction bs generalizing n s with
  | nil => rfl
  | wild => rfl
  | cons b bnext ih =>
    obtain ⟨-, hrec⟩ := fillDirect_cons h
    have hb := hfit b.entry List.mem_cons_self
    have hword : ∀ p, p + 4 ≤ o + 40 + 8 * (n + 1) → s'.get32 p =
        ((s.put32 (o + 40 + 8 * n) b.entry.1).put32 (o + 44 + 8 * n) b.entry.2).get32 p := fun p hp =>
      get32_congr fun i _ hi => fillDirect_outside hrec i (by omega)
    rw [Blks.entries, List.length_cons, List.range'_succ, List.map_cons,
      ih hrec fun e he => hfit e (List.mem_cons_of_mem _ he)]
    congr 1
    unfold entryAt
    rw [shift_get32, shift_get32, hword _ (by omega), hword _ (by omega), ← Nat.add_assoc, ← Nat.add_assoc,
      get32_put32_ne (by omega), get32_put32_same, get32_put32_same, Nat.mod_eq_of_lt hb.1, Nat.mod_eq_of_lt hb.2]

/-- The bytes in front of the entries, once `lfs_fill_inode` has filled them in. -/
structure Header (x : Inode) (f : Bytes) : Prop where
  magic : f.get32 0 = lfsInodeMagic
  crc : f.get32 4 = 0
  index : f.get32 8 = x.index % 2 ^ 32
  name : ∀ j : Fin 16, f (12 + j) = x.name j
  blkCnt : f.get32 28 = x.blkCnt % 2 ^ 32
  lenReal : f.get64 32 = x.lenReal % 2 ^ 64

theorem Header.congr (h : Header x f) (hs : Agree f g 0 40) : Header x g := by
  have hword : ∀ p, p + 4 ≤ 40 → g.get32 p = f.get32 p := fun p hp =>
    (get32_eq hs (Nat.zero_le p) (by omega)).symm
  have hlong : g.get64 32 = f.get64 32 := by
    unfold get64
    rw [hword 32 (by decide), hword (32 + 4) (by decide)]
  refine ⟨?_, ?_, ?_, fun j => ?_, ?_, ?_⟩
  · rw [hword 0 (by decide), h.magic]
  · rw [hword 4 (by decide), h.crc]
  · rw [hword 8 (by decide), h.index]
  · rw [← h.name j]
    exact (hs _ (Nat.zero_le _) (by omega)).symm
  · rw [hword 28 (by decide), h.blkCnt]
  · rw [hlong, h.lenReal]

/-- `lfs_fill_inode` in front of its loop. -/
def headerFrame (x : Inode) (o : ℕ) (buf : Bytes) : Bytes :=
  ((((((buf.put32 o lfsInodeMagic).put32 (o + 4) 0).put32 (o + 8) x.index).copy (o + 12)
    (fun i => x.name ⟨i % 16, Nat.mod_lt i (Nat.succ_pos 15)⟩) 0 lfsNameLen).put32 (o + 28) x.blkCnt).put64 (o + 32) x.lenReal)

theorem headerFrame_outside (i : ℕ) (hi : i < o ∨ o + 40 ≤ i) : headerFrame x o s i = s i := by
  unfold headerFrame put64 lfsNameLen
  rw [put32_outside i (by omega), put32_outside i (by omega), put32_outside i (by omega), copy_outside i (by omega),
    put32_outside i (by omega), put32_outside i (by omega), put32_outside i (by omega)]

theorem headerFrame_header : Header x ((headerFrame x o s).shift o) := by
  have hcopy : ∀ {c name : Bytes} {p : ℕ}, p + 4 ≤ o + 12 →
      (c.copy (o + 12) name 0 lfsNameLen).get32 p = c.get32 p :=
    fun hp => get32_congr fun i _ hi => copy_outside i (by omega)
  have hfront : ∀ {p : ℕ}, p + 4 ≤ o + 12 → (headerFrame x o s).get32 p =
      (((s.put32 o lfsInodeMagic).put32 (o + 4) 0).put32 (o + 8) x.index).get32 p := by
    intro p hp
    unfold headerFrame put64
    rw [get32_put32_ne (by omega), get32_put32_ne (by omega), get32_put32_ne (by omega), hcopy hp]
  refine ⟨?_, ?_, ?_, fun j => ?_, ?_, ?_⟩
  · rw [shift_get32, hfront (by omega), get32_put32_ne (by omega), get32_put32_ne (by omega)]
    exact get32_put32_same
  · rw [shift_get32, hfront (by omega), get32_put32_ne (by omega)]
    exact get32_put32_same
  · rw [shift_get32, hfront (by omega), get32_put32_same]
  · have hj := j.isLt
    change headerFrame x o s (o + (12 + j)) = x.name j
    unfold headerFrame put64 lfsNameLen
    rw [put32_outside _ (by omega), put32_outside _ (by omega), put32_outside _ (by omega),
      copy_inside _ (by omega) (by omega)]
    apply congrArg x.name
    apply Fin.ext
    change (0 + (o + (12 + j) - (o + 12))) % 16 = j
    omega
  · rw [shift_get32]
    unfold headerFrame put64
    rw [get32_put32_ne (by omega), get32_put32_ne (by omega), get32_put32_same]
  · change get64 (headerFrame x o s) (o + 32) = _
    exact get64_put64_same

theorem lfsFillInode_parts (h : lfsFillInode x o s = some (true, s')) : ∃ d, fillDirect o 0 x.blks (headerFrame x o s) =
    some (true, d) ∧ s' = d.put32 (o + 4) (crcChecksum d o lfsBlkSize) := by
  unfold lfsFillInode at h
  obtain ⟨⟨ok, d⟩, hd, he⟩ := Option.map_eq_some_iff.mp h
  obtain ⟨rfl, hs⟩ := Prod.mk.inj he
  exact ⟨d, hd, hs.symm⟩

theorem lfsFillInode_outside (h : lfsFillInode x o s = some (true, s')) (i : ℕ)
    (hi : i < o ∨ o + lfsBlkSize ≤ i) : s' i = s i := by
  obtain ⟨d, hd, rfl⟩ := lfsFillInode_parts h
  unfold lfsBlkSize at hi
  rw [put32_outside i (by omega), fillDirect_outside hd i (by omega), headerFrame_outside i (by omega)]

theorem lfsFillInode_record (h : lfsFillInode x o s = some (true, s')) (hfit : x.record.Fits) :
    Valid lfsInodeMagic lfsBlkSize (s'.shift o) ∧ readRecord (s'.shift o) = x.record := by
  obtain ⟨d, hd, rfl⟩ := lfsFillInode_parts h
  have hdirect : Agree ((headerFrame x o s).shift o) (d.shift o) 0 40 := fun i _ hi =>
    (fillDirect_outside hd (o + i) (by omega)).symm
  have hhead : Header x (d.shift o) := headerFrame_header.congr hdirect
  have hfinal : ∀ p, p + 4 ≤ 4 ∨ 8 ≤ p →
      ((d.put32 (o + 4) (crcChecksum d o lfsBlkSize)).shift o).get32 p = (d.shift o).get32 p := by
    intro p hp
    rw [shift_get32, shift_get32, get32_put32_ne (by omega)]
  refine ⟨sealed_valid hhead.magic hhead.crc, ?_⟩
  have hcnt := hfit.length
  have hentries := fillDirect_entries hd hfit.entries
  unfold readRecord
  rw [hfinal 8 (by omega), hfinal 28 (by omega), hhead.index, hhead.blkCnt]
  have hlong : ((d.put32 (o + 4) (crcChecksum d o lfsBlkSize)).shift o).get64 32 = x.lenReal := by
    have hlen := hhead.lenReal
    unfold get64 at hlen ⊢
    rw [hfinal 32 (by omega), hfinal (32 + 4) (by omega), hlen]
    exact Nat.mod_eq_of_lt hfit.lenReal
  have hname : (fun j : Fin 16 => (d.put32 (o + 4) (crcChecksum d o lfsBlkSize)).shift o (12 + j)) = x.name := by
    funext j
    rw [← hhead.name j]
    exact put32_outside (o + (12 + j)) (by omega)
  have hlist : (List.range x.blkCnt).map (entryAt ((d.put32 (o + 4) (crcChecksum d o lfsBlkSize)).shift o)) =
      x.blks.entries := by
    have hlen : x.blks.entries.length = x.blkCnt := hcnt
    rw [← hentries, hlen, List.range_eq_range']
    apply List.map_congr_left
    intro k _
    unfold entryAt
    rw [hfinal _ (by omega), hfinal _ (by omega)]
  have hmod : x.blkCnt % 2 ^ 32 = x.blkCnt := Nat.mod_eq_of_lt hfit.blkCnt
  have hindex : x.index % 2 ^ 32 = x.index := Nat.mod_eq_of_lt hfit.index
  rw [hmod, hindex, hlong, hlist, hname]
  rfl

end Filling

section Scanning

theorem readRecord_congr (h : Agree f g 8 160) (hcnt : f.get32 28 ≤ nDirectBlks) : readRecord f = readRecord g := by
  have hword : ∀ p, 8 ≤ p → p + 4 ≤ 168 → f.get32 p = g.get32 p := fun p h1 h2 => get32_eq h h1 (by omega)
  have hlong : f.get64 32 = g.get64 32 := by
    unfold get64
    rw [hword 32 (by decide) (by decide), hword (32 + 4) (by decide) (by decide)]
  have hname : (fun j : Fin 16 => f (12 + j)) = fun j : Fin 16 => g (12 + j) := by
    funext j
    exact h _ (by omega) (by omega)
  have hentries : (List.range (f.get32 28)).map (entryAt f) = (List.range (f.get32 28)).map (entryAt g) := by
    apply List.map_congr_left
    intro k hk
    have hlt := List.mem_range.mp hk
    unfold nDirectBlks at hcnt
    unfold entryAt
    rw [hword _ (by omega) (by omega), hword _ (by omega) (by omega)]
  unfold readRecord
  rw [hlong, hname, hentries, hword 8 (by decide) (by decide), hword 28 (by decide) (by decide)]

theorem loadChecked_ok {magic len secs start : ℕ} (hok : ∀ n, env.ok n = true) (hlen : len ≤ secs * w.blockSize)
    (h8 : 8 ≤ len) (hv : Valid magic len (onDisk w start)) : ∃ c w', loadChecked env start secs magic len w =
      (some c, w') ∧ SameDisk w w' ∧ Agree c (onDisk w start) 8 (len - 8) := by
  have hframe : Agree (onDisk w start)
      ((env.junk w.calls).copy 0 w.disk (start * w.blockSize) (secs * w.blockSize)) 0 len := by
    intro i h1 h2
    rw [copy_inside i (Nat.zero_le i) (by omega), Nat.sub_zero]
    rfl
  unfold loadChecked blockRead
  rw [if_pos (hok _)]
  dsimp only
  rw [if_pos (hok _), checkMagicCrc_eq, if_pos (hv.congr hframe h8)]
  refine ⟨_, _, rfl, ⟨rfl, rfl⟩, fun i h1 h2 => ?_⟩
  rw [put32_outside i (by omega)]
  exact (hframe i (Nat.zero_le i) (by omega)).symm

theorem SameDisk.blkAt (h : SameDisk w w') (blk : ℕ) : Fs.blkAt lfs w' blk = Fs.blkAt lfs w blk := by
  unfold Fs.blkAt onDisk
  rw [h.disk, h.blockSize]

theorem scanBlks_ok (hok : ∀ n, env.ok n = true) (hfit : n + k ≤ nDirectBlks) (w : World) : ∃ w',
    scanBlks env f k n w = some (OK, entryBlks n ((List.range' n k).map (entryAt f)), w') ∧ SameDisk w w' := by
  induction k generalizing n w with
  | zero => exact ⟨w, rfl, rfl, rfl⟩
  | succ k ih =>
    obtain ⟨w', hrec, hs⟩ := @ih (n + 1) (by omega) w.next
    have hin : ¬ lfsBlkSize < 48 + 8 * n := by
      unfold nDirectBlks at hfit
      unfold lfsBlkSize
      omega
    refine ⟨w', ?_, SameDisk.next.trans hs⟩
    rw [scanBlks, if_neg (by rw [hok]; decide), if_neg hin, hrec]
    rfl

theorem lfsScanInode_ok {blk : ℕ} (hok : ∀ n, env.ok n = true) (hd : Device lfs w)
    (hf : InodeBlk lfs.nInodes (blkAt lfs w blk)) : ∃ w',
      lfsScanInode env lfs blk w = some (OK, lfs.replay [readRecord (blkAt lfs w blk)], w') ∧ SameDisk w w' := by
  obtain ⟨c, w₁, hload, hs, hagree⟩ := @loadChecked_ok env w.next _ _ lfs.secPerBlk _ hok
    (hd.blocks ▸ le_rfl) (by decide) hf.valid
  have hword : ∀ p, 8 ≤ p → p + 4 ≤ 168 → c.get32 p = (blkAt lfs w blk).get32 p := fun p h1 h2 =>
    get32_eq hagree h1 (by unfold lfsBlkSize; omega)
  have hcnt : c.get32 28 ≤ nDirectBlks := by
    rw [hword 28 (by decide) (by decide)]
    exact hf.blkCnt
  have hrecord : readRecord c = readRecord (blkAt lfs w blk) :=
    readRecord_congr (hagree.mono le_rfl (by decide)) hcnt
  have hindex : ¬ lfs.nInodes ≤ c.get32 8 := by
    rw [hword 8 (by decide) (by decide)]
    exact Nat.not_le.mpr hf.index
  obtain ⟨w₂, hblks, hs'⟩ := @scanBlks_ok env c 0 (c.get32 28) hok (by omega) w₁
  refine ⟨w₂, ?_, (SameDisk.next.trans hs).trans hs'⟩
  unfold lfsScanInode
  rw [if_neg (by rw [hok]; decide), hload]
  dsimp only
  rw [if_neg hindex]
  unfold lfsScanInodeBlks
  dsimp only
  rw [hblks, ← List.range_eq_range', ← hrecord]
  rfl

theorem replay_replay {log log' : List Record} : (lfs.replay log).replay log' = lfs.replay (log ++ log') := by
  unfold Lfs.replay
  dsimp only
  rw [Replay.playAll_append]

theorem Device.replay {log : List Record} (h : Device lfs w) : Device (lfs.replay log) w := ⟨h.blocks, h.partOff⟩

def placeRecords (s : Bytes) (f : ℕ → Bytes) (l : List ℕ) : List Record :=
  (l.filter (inodeAt s)).map fun k => readRecord (f k)

theorem segRecords_eq {f : ℕ → Bytes} : segRecords s f cnt = placeRecords s f (List.range' 0 cnt) := by
  unfold segRecords placeRecords
  rw [List.range_eq_range']

theorem placeRecords_cons {f : ℕ → Bytes} {l : List ℕ} : placeRecords s f (k :: l) =
    (if inodeAt s k then [readRecord (f k)] else []) ++ placeRecords s f l := by
  unfold placeRecords
  by_cases h : inodeAt s k = true
  · rw [List.filter_cons_of_pos h, if_pos h]
    rfl
  · rw [List.filter_cons_of_neg h, if_neg h]
    rfl

theorem scanSegBlks_ok {i : ℕ} (hok : ∀ n, env.ok n = true) (hd : Device lfs w) (hfit : i + k ≤ lfsSegBlks - 1)
    (hin : ∀ j, i ≤ j → j < i + k → inodeAt s j = true → InodeBlk lfs.nInodes (blkAt lfs w (seg * lfsSegBlks + 1 + j))) :
    ∃ w', scanSegBlks env s seg k i lfs w = some (OK, lfs.replay (placeRecords s
      (fun j => blkAt lfs w (seg * lfsSegBlks + 1 + j)) (List.range' i k)), w') ∧ SameDisk w w' := by
  induction k generalizing i lfs w with
  | zero => exact ⟨w, rfl, rfl, rfl⟩
  | succ k ih =>
    have hroom : ¬ lfsBlkSize < 20 + 4 * i := by
      unfold lfsSegBlks at hfit
      unfold lfsBlkSize
      omega
    rw [scanSegBlks, if_neg hroom, List.range'_succ, placeRecords_cons]
    by_cases hi : inodeAt s i = true
    · have hi' : s.get32 (16 + 4 * i) = lfsBlkInode := of_decide_eq_true hi
      obtain ⟨w₁, hscan, hs₁⟩ := lfsScanInode_ok hok hd (hin i le_rfl (by omega) hi)
      have hblk : ∀ j, blkAt (lfs.replay [readRecord (blkAt lfs w (seg * lfsSegBlks + 1 + i))]) w₁ j = blkAt lfs w j :=
        hs₁.blkAt
      obtain ⟨w₂, hrec, hs₂⟩ := @ih (lfs.replay [readRecord (blkAt lfs w (seg * lfsSegBlks + 1 + i))]) w₁
        (i + 1) (hs₁.device hd).replay (by omega) (fun j h1 h2 hj => by
          rw [hblk]
          exact hin j (by omega) (by omega) hj)
      refine ⟨w₂, ?_, hs₁.trans hs₂⟩
      simp only [hblk] at hrec
      rw [if_neg (not_not.mpr hi'), hscan, if_pos hi, ← replay_replay]
      exact hrec
    · have hi' : s.get32 (16 + 4 * i) ≠ lfsBlkInode := fun he => hi (decide_eq_true he)
      obtain ⟨w₁, hrec, hs₁⟩ := @ih lfs w (i + 1) hd (by omega) fun j h1 h2 hj => hin j (by omega) (by omega) hj
      refine ⟨w₁, ?_, hs₁⟩
      rw [if_pos hi', if_neg hi]
      exact hrec

theorem lfsScanSegment_ok (hok : ∀ n, env.ok n = true) (hd : Device lfs w) (h : SegLog lfs w seg recs) : ∃ w',
    lfsScanSegment env lfs seg w = some (OK, lfs.replay recs, w') ∧ SameDisk w w' := by
  obtain ⟨c, w₁, hload, hs, hagree⟩ := @loadChecked_ok env w.next _ _ lfs.secPerBlk _ hok
    (hd.blocks ▸ le_rfl) (by decide) h.valid
  have hcount : (blkAt lfs w (seg * lfsSegBlks)).get32 12 ≤ 255 := h.count
  have hword : ∀ p, 8 ≤ p → p + 4 ≤ lfsBlkSize → c.get32 p = (blkAt lfs w (seg * lfsSegBlks)).get32 p :=
    fun p h1 h2 => get32_eq hagree h1 (by omega)
  have hcnt : c.get32 12 = (blkAt lfs w (seg * lfsSegBlks)).get32 12 := hword 12 (by decide) (by decide)
  have hplace : ∀ k < c.get32 12, inodeAt c k = inodeAt (blkAt lfs w (seg * lfsSegBlks)) k := by
    intro k hk
    unfold inodeAt
    rw [hword _ (by omega) (by unfold lfsBlkSize; omega)]
  have hsame : ∀ j, blkAt lfs w₁ j = blkAt lfs w j := (SameDisk.next.trans hs).blkAt
  obtain ⟨w₂, hscan, hs₂⟩ := @scanSegBlks_ok env lfs w₁ c (c.get32 12) seg 0 hok ((SameDisk.next.trans hs).device hd)
    (by rw [hcnt]; exact (Nat.zero_add _).le.trans h.count) (fun j _ hj hi => by
      rw [hsame]
      rw [Nat.zero_add] at hj
      rw [hplace j hj] at hi
      exact h.inodes j (hcnt ▸ hj) hi)
  refine ⟨w₂, ?_, (SameDisk.next.trans hs).trans hs₂⟩
  have hrecs : placeRecords c (fun j => blkAt lfs w₁ (seg * lfsSegBlks + 1 + j)) (List.range' 0 (c.get32 12)) = recs := by
    rw [h.records, ← hcnt, segRecords_eq]
    unfold placeRecords
    simp only [hsame]
    rw [List.filter_congr fun k hk => hplace k (by simpa using List.mem_range'.mp hk)]
  rw [hrecs] at hscan
  unfold lfsScanSegment
  rw [if_neg (by rw [hok]; decide), hload]
  exact hscan

theorem InodeBlk.congr {m : ℕ} (h : InodeBlk m f) (hs : Agree f g 0 lfsBlkSize) : InodeBlk m g := by
  refine ⟨h.valid.congr hs (by decide), ?_, ?_⟩
  · rw [← get32_eq hs (p := 8) (by decide) (by decide)]
    exact h.index
  · rw [← get32_eq hs (p := 28) (by decide) (by decide)]
    exact h.blkCnt

theorem segRecords_congr {p q : ℕ → Bytes} (hplace : ∀ k < cnt, inodeAt s' k = inodeAt s k)
    (hsame : ∀ k < cnt, Agree (p k) (q k) 0 lfsBlkSize)
    (hcnt : ∀ k < cnt, inodeAt s k = true → (p k).get32 28 ≤ nDirectBlks) : segRecords s' q cnt = segRecords s p cnt := by
  unfold segRecords
  rw [List.filter_congr fun k hk => hplace k (List.mem_range.mp hk)]
  apply List.map_congr_left
  intro k hk
  obtain ⟨hk, hi⟩ := List.mem_filter.mp hk
  have hlt := List.mem_range.mp hk
  exact (readRecord_congr ((hsame k hlt).mono (by decide) (by decide)) (hcnt k hlt hi)).symm

theorem segRecords_succ {p : ℕ → Bytes} :
    segRecords s p (cnt + 1) = segRecords s p cnt ++ if inodeAt s cnt then [readRecord (p cnt)] else [] := by
  unfold segRecords
  rw [List.range_succ, List.filter_append, List.map_append]
  congr 1
  by_cases h : inodeAt s cnt = true
  · rw [if_pos h, List.filter_cons_of_pos h]
    rfl
  · rw [if_neg h, List.filter_cons_of_neg h]
    rfl

theorem segRecords_data {p : ℕ → Bytes} (h : ∀ k, cnt ≤ k → k < cnt + n → inodeAt s k = false) :
    segRecords s p (cnt + n) = segRecords s p cnt := by
  induction n with
  | zero => rfl
  | succ n ih =>
    rw [← Nat.add_assoc, segRecords_succ, h (cnt + n) (by omega) (by omega), ih fun k h1 h2 => h k h1 (by omega)]
    exact List.append_nil _

theorem SegLog.congr (h : SegLog lfs w seg recs) (hn : lfs'.nInodes = lfs.nInodes)
    (hblk : ∀ k < lfsSegBlks, Agree (blkAt lfs w (seg * lfsSegBlks + k)) (blkAt lfs' w' (seg * lfsSegBlks + k)) 0 lfsBlkSize) :
    SegLog lfs' w' seg recs := by
  have hsum : Agree (blkAt lfs w (seg * lfsSegBlks)) (blkAt lfs' w' (seg * lfsSegBlks)) 0 lfsBlkSize := by
    have hfirst := hblk 0 (by decide)
    rwa [Nat.add_zero] at hfirst
  have hcnt : (blkAt lfs' w' (seg * lfsSegBlks)).get32 12 = (blkAt lfs w (seg * lfsSegBlks)).get32 12 :=
    (get32_eq hsum (by decide) (by decide)).symm
  have hplace : ∀ k < lfsSegBlks - 1,
      inodeAt (blkAt lfs' w' (seg * lfsSegBlks)) k = inodeAt (blkAt lfs w (seg * lfsSegBlks)) k := by
    intro k hk
    unfold lfsSegBlks at hk
    unfold inodeAt
    rw [get32_eq hsum (Nat.zero_le (16 + 4 * k)) (by unfold lfsBlkSize; omega)]
  have hinode : ∀ k < lfsSegBlks - 1, Agree (blkAt lfs w (seg * lfsSegBlks + 1 + k))
      (blkAt lfs' w' (seg * lfsSegBlks + 1 + k)) 0 lfsBlkSize := by
    intro k hk
    unfold lfsSegBlks at hk
    rw [Nat.add_assoc]
    exact hblk (1 + k) (by unfold lfsSegBlks; omega)
  refine ⟨h.valid.congr hsum (by decide), ?_, ?_, ?_⟩
  · rw [hcnt]
    exact h.count
  · intro k hk hi
    rw [hcnt] at hk
    have hk' : k < lfsSegBlks - 1 := hk.trans_le h.count
    rw [hplace k hk'] at hi
    rw [hn]
    exact (h.inodes k hk hi).congr (hinode k hk')
  · rw [h.records, hcnt]
    exact (segRecords_congr (fun k hk => hplace k (hk.trans_le h.count)) (fun k hk => hinode k (hk.trans_le h.count))
      fun k hk hi => (h.inodes k hk hi).blkCnt).symm

theorem scanFrom_ok {o : Option ℕ} {recs : ℕ → List Record} (hok : ∀ n, env.ok n = true) (hd : Device lfs w)
    (hc : Chain (segNext lfs) o xs) (hlt : ∀ s ∈ xs, s < lfs.nSegs)
    (hlog : ∀ s ∈ xs, SegLog lfs w (lfs.segments s).index (recs (lfs.segments s).index)) (hfuel : xs.length < fuel) :
    ∃ w', scanFrom env fuel o lfs w = some (OK, lfs.replay (xs.flatMap fun s => recs (lfs.segments s).index), w') ∧
      SameDisk w w' := by
  induction fuel generalizing o xs lfs w with
  | zero => omega
  | succ fuel ih =>
    cases xs with
    | nil =>
      rw [chain_nil.mp hc]
      exact ⟨w, rfl, rfl, rfl⟩
    | cons s xs =>
      obtain ⟨w₁, hscan, hs₁⟩ := lfsScanSegment_ok hok hd (hlog s List.mem_cons_self)
      obtain ⟨w₂, hrec, hs₂⟩ := @ih (lfs.replay (recs (lfs.segments s).index)) w₁ xs (segNext lfs s)
        (hs₁.device hd).replay hc.2 (fun t ht => hlt t (List.mem_cons_of_mem s ht))
        (fun t ht => (hlog t (List.mem_cons_of_mem s ht)).congr rfl fun k _ => by
          have hblk : ∀ j, blkAt (lfs.replay (recs (lfs.segments s).index)) w₁ j = blkAt lfs w j := hs₁.blkAt
          change Agree _ (blkAt (lfs.replay (recs (lfs.segments s).index)) w₁ _) 0 lfsBlkSize
          rw [hblk]
          exact .refl)
        (Nat.lt_of_succ_lt_succ hfuel)
      refine ⟨w₂, ?_, hs₁.trans hs₂⟩
      rw [hc.1, scanFrom, if_neg (Nat.not_le.mpr (hlt s List.mem_cons_self)), hscan]
      dsimp only
      rw [if_neg (not_not.mpr rfl), List.flatMap_cons, ← replay_replay]
      exact hrec

end Scanning

end Agatha.Fs
