import Agatha.Fs.Checkpoint
import Agatha.Fs.Files

namespace Agatha.Fs

open Library Library.Bytes

def scannedBlk (ib : Bytes) (b : ℕ) : Blk where
  written := true
  blk := ib.get32 (40 + 8 * b)
  crc := ib.get32 (44 + 8 * b)
  off := b * lfsBlkSize
  empty := ib.get32 (40 + 8 * b) = 0 ∧ ib.get32 (44 + 8 * b) = 0
  cached := false
  addr := zeros

/-- The loop of `lfs_scan_inode_blks` with `k` blocks to go, at block `b`: what it returns, and the list that it makes. -/
def scanBlks (env : Env) (ib : Bytes) : ℕ → ℕ → World → Option (ℤ × Blks × World)
  | 0, _, w => some (OK, .nil, w)
  | k + 1, b, w =>
    if env.ok w.calls = false then some (ERR, .nil, w.next)
    -- the entry is outside the frame
    else if lfsBlkSize < 48 + 8 * b then none
    else (scanBlks env ib k (b + 1) w.next).map fun (r, bs, w) => (r, .cons (scannedBlk ib b) bs, w)

def lfsScanInodeBlks (env : Env) (im : Inode) (ib : Bytes) (w : World) : Option (ℤ × Inode × World) :=
  (scanBlks env ib im.blkCnt 0 w).map fun (r, bs, w) =>
    (r, { im with blks := match bs with
                    | .nil => im.blks
                    | bs => bs }, w)

def lfsScanInode (env : Env) (lfs : Lfs) (blk : ℕ) (w : World) : Option (ℤ × Lfs × World) :=
  if env.ok w.calls = false then some (ERR, lfs, w.next)
  else
    match loadChecked env (lfs.sector (lfs.segStart + blk)) lfs.secPerBlk lfsInodeMagic lfsBlkSize w.next with
    | (none, w) => some (ERR, lfs, w)
    | (some ib, w) =>
      let i := ib.get32 8
      if lfs.nInodes ≤ i then none
      else
        let im := { lfs.inodes i with
          created := true, free := false, name := fun j => ib (12 + j)
          blkCnt := ib.get32 28, lenReal := ib.get64 32 }
        (lfsScanInodeBlks env im ib w).map fun (r, im, w) => (if r = OK then OK else ERR, lfs.setInode i im, w)

/-- The loop of `lfs_scan_segment` over the summary `s` of segment `index`, with `k` blocks to go, at block `i`. -/
def scanSegBlks (env : Env) (s : Bytes) (index : ℕ) : ℕ → ℕ → Lfs → World → Option (ℤ × Lfs × World)
  | 0, _, lfs, w => some (OK, lfs, w)
  | k + 1, i, lfs, w =>
    if lfsBlkSize < 20 + 4 * i then none
    else if s.get32 (16 + 4 * i) ≠ lfsBlkInode then scanSegBlks env s index k (i + 1) lfs w
    else
      match lfsScanInode env lfs (index * lfsSegBlks + 1 + i) w with
      | none => none
      | some (r, lfs, w) => if r ≠ OK then some (ERR, lfs, w) else scanSegBlks env s index k (i + 1) lfs w

def lfsScanSegment (env : Env) (lfs : Lfs) (index : ℕ) (w : World) : Option (ℤ × Lfs × World) :=
  if env.ok w.calls = false then some (ERR, lfs, w.next)
  else
    match loadChecked env (lfs.sector (lfs.segStart + index * lfsSegBlks)) lfs.secPerBlk lfsSegsumMagic lfsBlkSize
        w.next with
    | (none, w) => some (ERR, lfs, w)
    | (some s, w) => scanSegBlks env s index (s.get32 12) 0 lfs w

end Agatha.Fs
