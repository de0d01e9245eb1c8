import Agatha.Fs.Crc
import Agatha.Fs.State

namespace Agatha.Fs

open Library Library.Bytes

/-- The loops of `lfs_checkpoint_fill_segs` along a list of segments, in a frame of `len` bytes. -/
def fillSegList (lfs : Lfs) (len : ℕ) (value : Segment → ℕ) : ℕ → Option ℕ → Bytes → Option Bytes
  | 0, _, _ => none
  | _ + 1, none, c => some c
  | fuel + 1, some s, c =>
    let seg := lfs.segments s
    if lfs.nSegs ≤ s ∨ len < 24 + 4 * seg.index then none
    else fillSegList lfs len value fuel seg.next (c.put32 (20 + 4 * seg.index) (value seg))

def lfsCheckpointFillSegs (fuel : ℕ) (lfs : Lfs) (c : Bytes) : Option Bytes :=
  let len := lfs.checkpointBlks * lfsBlkSize
  let c := match lfs.segHead, lfs.segTail with
    | some h, some t => some ((c.put32 12 (lfs.segments h).index).put32 16 (lfs.segments t).index)
    | some _, none => none
    | none, _ => some ((c.put32 12 lfsSegFree).put32 16 lfsSegFree)
  let next := fun seg : Segment => match seg.next with
    | some n => (lfs.segments n).index
    | none => lfsSegEnd
  match c with
  | none => none
  | some c =>
    match fillSegList lfs len next fuel lfs.segHead c with
    | none => none
    | some c => fillSegList lfs len (fun _ => lfsSegFree) fuel lfs.segFree c

def lfsWriteCheckpoint (env : Env) (fuel : ℕ) (lfs : Lfs) (w : World) : Option (ℤ × Lfs × World) :=
  -- the frame is mapped
  if env.ok w.calls = false then some (ERR, lfs, w.next)
  else
    let c : Bytes := (zeros.put32 0 lfsCheckpointMagic).put32 4 0
    match lfsCheckpointFillSegs fuel lfs c with
    | none => none
    | some c =>
      let c := c.put32 8 lfs.checkpointTimestamp
      let c := c.put32 4 (crcChecksum c 0 (lfs.checkpointBlks * lfsBlkSize))
      let blk := lfs.checkpointBlk (Fin.ofNat 2 lfs.checkpointTimestamp)
      match blockWrite env (lfs.sector blk) (lfs.checkpointBlks * lfs.secPerBlk) c w.next with
      | (false, w) => some (ERR, lfs, w)
      | (true, w) =>
        some (OK, { lfs with checkpointTimestamp := (lfs.checkpointTimestamp + 1) % 2 ^ 32 }, w)

def checkMagicCrc (magic len : ℕ) (c : Bytes) : Option Bytes :=
  if c.get32 0 ≠ magic then none
  else if c.get32 4 ≠ crcChecksum (c.put32 4 0) 0 len then none
  else some (c.put32 4 0)

def loadChecked (env : Env) (start secs magic len : ℕ) (w : World) : Option Bytes × World :=
  match blockRead env start secs (env.junk w.calls) w with
  | (none, w) => (none, w)
  | (some c, w) => if env.ok w.calls then (checkMagicCrc magic len c, w.next) else (none, w.next)

def lfsLoadCheckpointData (env : Env) (lfs : Lfs) (idx : Fin 2) (w : World) : Option Bytes × World :=
  loadChecked env (lfs.sector (lfs.checkpointBlk idx)) (lfs.checkpointBlks * lfs.secPerBlk)
    lfsCheckpointMagic (lfs.checkpointBlks * lfsBlkSize) w

def checkpointSeg (c : Bytes) (i : ℕ) : ℕ := c.get32 (20 + 4 * i)

def linkSegs (c : Bytes) (tail : ℕ) : ℕ → ℕ → Lfs → Option Lfs
  | 0, _, _ => none
  | fuel + 1, i, lfs =>
    if i = tail then some lfs
    else linkSegs c tail fuel i
      (lfs.setSegment i { lfs.segments i with next := some (checkpointSeg c i) })

def collectFree (c : Bytes) : ℕ → Lfs → Lfs × Option ℕ
  | 0, lfs => ({ lfs with segFree := none }, none)
  | i + 1, lfs =>
    let (lfs, f) := collectFree c i lfs
    if checkpointSeg c i ≠ lfsSegFree then (lfs, f)
    else
      let lfs := match f with
        | none => { lfs with segFree := some i }
        | some f => lfs.setSegment f { lfs.segments f with next := some i }
      (lfs.setSegment i { lfs.segments i with next := none }, some i)

def lfsProcessCheckpoint (fuel : ℕ) (lfs : Lfs) (c : Bytes) : Option Lfs :=
  let head := c.get32 12
  let tail := c.get32 16
  let lfs :=
    if head = lfsSegFree then some { lfs with segHead := none, segTail := none }
    else if lfs.nSegs ≤ head ∨ lfs.nSegs ≤ tail then none
    else
      (linkSegs c tail fuel head { lfs with segHead := some head, segTail := some tail }).map
        fun lfs => lfs.setSegment tail { lfs.segments tail with next := none }
  lfs.map fun lfs => (collectFree c lfs.nSegs lfs).1

inductive Choice
  | slot (idx : Fin 2)
  | timestampsBad
  | bothInvalid
  deriving DecidableEq

/-- The first half of `lfs_load_checkpoint`. -/
def chooseCheckpoint (env : Env) (lfs : Lfs) (w : World) : Choice × World :=
  let (c0, w) := lfsLoadCheckpointData env lfs 0 w
  let (c1, w) := lfsLoadCheckpointData env lfs 1 w
  (match c0, c1 with
    | some c0, some c1 =>
      if c0.get32 8 = (c1.get32 8 + 1) % 2 ^ 32 then .slot 0
      else if c1.get32 8 = (c0.get32 8 + 1) % 2 ^ 32 then .slot 1
      else .timestampsBad
    | some _, none => .slot 0
    | none, some _ => .slot 1
    | none, none => .bothInvalid, w)

def lfsLoadCheckpoint (env : Env) (fuel : ℕ) (lfs : Lfs) (w : World) : Option (ℤ × Lfs × World) :=
  match chooseCheckpoint env lfs w with
  | (.timestampsBad, w) => some (ERR, lfs, w)
  | (.bothInvalid, w) => some (ERR, lfs, w)
  | (.slot idx, w) =>
    match lfsLoadCheckpointData env lfs idx w with
    | (none, w) => some (ERR, lfs, w)
    | (some c, w) => (lfsProcessCheckpoint fuel lfs c).map fun lfs => (OK, lfs, w)

def superblock (lfs : Lfs) : Bytes :=
  let c : Bytes := (zeros.put32 0 lfsSuperblockMagic).put32 4 0
  let c := ((c.put32 8 lfs.nSegs).put32 12 lfs.nInodes).put32 16 lfs.checkpointBlks
  let c := (c.put32 20 (lfs.checkpointBlk 0)).put32 24 (lfs.checkpointBlk 1)
  let c := c.put32 28 lfs.segStart
  c.put32 4 (crcChecksum c 0 lfsBlkSize)

def lfsWriteSuperblock (env : Env) (lfs : Lfs) (w : World) : ℤ × World :=
  -- memory is requested and mapped
  if env.ok w.calls = false then (ERR, w.next)
  else if env.ok w.next.calls = false then (ERR, w.next.next)
  else
    match blockWrite env lfs.partOff lfs.secPerBlk (superblock lfs) w.next.next with
    | (false, w) => (ERR, w)
    | (true, w) => (OK, w)

def lfsLoadSuperblock (env : Env) (lfs : Lfs) (w : World) : ℤ × Lfs × World :=
  if env.ok w.calls = false then (ERR, lfs, w.next)
  else
    match loadChecked env lfs.partOff lfs.secPerBlk lfsSuperblockMagic lfsBlkSize w.next with
    | (none, w) => (ERR, lfs, w)
    | (some c, w) =>
      (OK, { lfs with
        nSegs := c.get32 8, nInodes := c.get32 12, checkpointBlks := c.get32 16
        checkpointBlk := fun i => c.get32 (20 + 4 * i), segStart := c.get32 28 }, w)

/-- The loop of `lfs_init` over the segments, after `i` of them, with the last one. -/
def initSegs : ℕ → Lfs → Lfs × Option ℕ
  | 0, lfs => ({ lfs with segHead := none, segTail := none, segFree := none }, none)
  | i + 1, lfs =>
    let (lfs, f) := initSegs i lfs
    let lfs := match f with
      | none => { lfs with segFree := some i }
      | some f => lfs.setSegment f { lfs.segments f with next := some i }
    (lfs.setSegment i { index := i, next := none }, some i)

def initInodes (lfs : Lfs) : Lfs :=
  { lfs with inodes := fun i =>
      if i < lfs.nInodes then
        { lfs.inodes i with
          index := i, free := true, created := false, blkCnt := 0, lenReal := 0
          name := fun _ => 0, blks := .nil }
      else lfs.inodes i }

def lfsInit (env : Env) (lfs : Lfs) (w : World) : ℤ × Lfs × World :=
  -- memory for a checkpoint is requested, then both arrays are allocated
  if env.ok w.calls = false then (ERR, { lfs with mounted := false }, w.next)
  else if env.ok w.next.calls = false then (ERR, { lfs with mounted := false }, w.next.next)
  else if env.ok w.next.next.calls = false then
    (ERR, { lfs with mounted := false }, w.next.next.next)
  else (OK, initInodes { (initSegs lfs.nSegs lfs).1 with mounted := true }, w.next.next.next)

def Blks.ends : Blks → Bool
  | .nil => true
  | .wild => false
  | .cons _ b => b.ends

def lfsFree (lfs : Lfs) : Option Lfs :=
  if lfs.mounted ∧ ∃ i < lfs.nInodes, (lfs.inodes i).created ∧ (lfs.inodes i).blks.ends = false then
    none
  else some { lfs with mounted := false }

def lfsSetup (env : Env) (partOff partLen : ℕ) (lfs : Lfs) (w : World) : ℤ × Lfs × World :=
  let lfs := { lfs with partOff := partOff, partLen := partLen, mounted := false }
  -- the block size is asked for
  if env.ok w.calls = false then (ERR, lfs, w.next)
  else (OK, { lfs with secSize := w.blockSize, secPerBlk := lfsBlkSize / w.blockSize }, w.next)

def alignUp (x a : ℕ) : ℕ := (x + (a - 1)) / a * a
def alignDown (x a : ℕ) : ℕ := x / a * a

def usefulLen (lfs : Lfs) (segStart : ℕ) : ℕ :=
  (lfs.partLen * lfs.secSize % 2 ^ 32 + 2 ^ 32 - segStart * lfsBlkSize % 2 ^ 32) % 2 ^ 32

def formatLayout (lfs : Lfs) : Lfs :=
  let segSize := lfsSegBlks * lfsBlkSize
  let tent := usefulLen lfs lfsSegBlks / segSize
  let size := alignUp (20 + 4 + 4 * tent) lfsBlkSize
  let segStart :=
    if size * 2 + lfsBlkSize > segSize then alignUp (size * 2 + lfsBlkSize) segSize / lfsBlkSize
    else lfsSegBlks
  let nSegs := alignDown (usefulLen lfs segStart) segSize / segSize
  { lfs with
    segStart := segStart, checkpointBlks := size / lfsBlkSize, nSegs := nSegs
    nInodes := nSegs * (lfsSegBlks - 1) / 2, checkpointTimestamp := 0, segsumTimestamp := 0
    checkpointBlk := fun i => 1 + i * (size / lfsBlkSize) }

def zeroBlks (env : Env) (lfs : Lfs) (first : ℕ) : ℕ → World → Bool × World
  | 0, w => (true, w)
  | o + 1, w =>
    match zeroBlks env lfs first o w with
    | (false, w) => (false, w)
    | (true, w) => blockWrite env (lfs.sector (first + o)) lfs.secPerBlk zeros w

def zeroCheckpoints (env : Env) (lfs : Lfs) (w : World) : Bool × World :=
  match zeroBlks env lfs (lfs.checkpointBlk 0) lfs.checkpointBlks w with
  | (false, w) => (false, w)
  | (true, w) => zeroBlks env lfs (lfs.checkpointBlk 1) lfs.checkpointBlks w

/-- `lfs_format` once the layout is made. -/
def formatLaidOut (env : Env) (fuel : ℕ) (lfs : Lfs) (w : World) : Option (ℤ × Lfs × World) :=
  -- memory is requested and mapped
  if env.ok w.calls = false then some (ERR, lfs, w.next)
  else if env.ok w.next.calls = false then some (ERR, lfs, w.next.next)
  else
    match zeroCheckpoints env lfs w.next.next with
    | (false, w) => some (ERR, lfs, w)
    | (true, w) =>
      match lfsInit env lfs w with
      | (r, lfs, w) =>
        if r ≠ OK then some (ERR, lfs, w)
        else
          match lfsWriteSuperblock env lfs w with
          | (r, w) => if r ≠ OK then some (ERR, lfs, w) else lfsWriteCheckpoint env fuel lfs w

def lfsFormat (env : Env) (fuel : ℕ) (lfs : Lfs) (w : World) : Option (ℤ × Lfs × World) :=
  match lfsFree lfs with
  | none => none
  | some lfs => formatLaidOut env fuel (formatLayout lfs) w

end Agatha.Fs
