import Mathlib.Data.Fintype.Pi
import Agatha.Library.Bytes

namespace Agatha.Fs

open Library

def OK : ℤ := 0
def ERR : ℤ := -1

def lfsBlkSize : ℕ := 4096
def lfsNameLen : ℕ := 16
def nDirectBlks : ℕ := 16
def lfsSegBlks : ℕ := 256
def lfsBlkInode : ℕ := 0xffffffff
def lfsSegFree : ℕ := 0xffffffff
def lfsSegEnd : ℕ := 0xfffffffe
def lfsInodeMagic : ℕ := 0xbf87ca93
def lfsSegsumMagic : ℕ := 0xbf87ca92
def lfsCheckpointMagic : ℕ := 0xbf87ca91
def lfsSuperblockMagic : ℕ := 0xbf87ca90

def zeros : Bytes := fun _ => 0

abbrev Name := Fin 16 → UInt8

structure Blk where
  written : Bool
  blk : ℕ
  crc : ℕ
  off : ℕ
  empty : Bool
  cached : Bool
  addr : Bytes

/-- The list that starts with a `bnext` pointer, which may never have been set. -/
inductive Blks where
  | nil
  | wild
  | cons (b : Blk) (bnext : Blks)

structure Inode where
  index : ℕ
  created : Bool
  free : Bool
  name : Name
  blkCnt : ℕ
  lenReal : ℕ
  blks : Blks
  wnext : Option ℕ

structure Segment where
  index : ℕ
  next : Option ℕ

structure Lfs where
  partOff : ℕ
  partLen : ℕ
  secSize : ℕ
  secPerBlk : ℕ
  checkpointBlk : Fin 2 → ℕ
  checkpointBlks : ℕ
  segStart : ℕ
  checkpointTimestamp : ℕ
  segsumTimestamp : ℕ
  mounted : Bool
  nSegs : ℕ
  segments : ℕ → Segment
  segHead : Option ℕ
  segTail : Option ℕ
  segFree : Option ℕ
  nInodes : ℕ
  inodes : ℕ → Inode
  pending : Option ℕ

/-- What the calls out of this program answer, counted as they are made. A call fails or succeeds,
and `junk` is what fresh memory holds, or what a failed write leaves in the blocks it was to write. -/
structure Env where
  ok : ℕ → Bool
  junk : ℕ → Bytes

structure World where
  disk : Bytes
  blockSize : ℕ
  calls : ℕ

def World.next (w : World) : World := { w with calls := w.calls + 1 }

def blockRead (env : Env) (start len : ℕ) (frame : Bytes) (w : World) : Option Bytes × World :=
  if env.ok w.calls then
    (some (frame.copy 0 w.disk (start * w.blockSize) (len * w.blockSize)), w.next)
  else (none, w.next)

def blockWrite (env : Env) (start len : ℕ) (frame : Bytes) (w : World) : Bool × World :=
  let src := if env.ok w.calls then frame else env.junk w.calls
  (env.ok w.calls,
    { w.next with disk := w.disk.copy (start * w.blockSize) src 0 (len * w.blockSize) })

namespace Lfs

def setInode (lfs : Lfs) (i : ℕ) (x : Inode) : Lfs :=
  { lfs with inodes := Function.update lfs.inodes i x }

def setSegment (lfs : Lfs) (i : ℕ) (x : Segment) : Lfs :=
  { lfs with segments := Function.update lfs.segments i x }

def sector (lfs : Lfs) (blk : ℕ) : ℕ := (lfs.partOff + blk * lfs.secPerBlk) % 2 ^ 32

end Lfs

section Fields

variable (lfs : Lfs) (i j : ℕ) (x : Inode) (y : Segment)

theorem Lfs.setInode_inodes : (lfs.setInode i x).inodes j = if j = i then x else lfs.inodes j :=
  Function.update_apply ..

end Fields

end Agatha.Fs
