import Agatha.Fs.CheckpointRuns
import Agatha.Fs.Directory

namespace Agatha.Fs

open Library Library.Bytes

def storeBytes (b : Bytes) (o : ℕ) (data : List UInt8) : Bytes := fun i =>
  if o ≤ i ∧ i < o + data.length then data.getD (i - o) 0 else b i

def loadBytes (b : Bytes) (o n : ℕ) : List UInt8 := (List.range n).map fun i => b (o + i)

def lfsCreateBlk (off : ℕ) : Blk where
  written := false
  blk := 0
  crc := 0
  off := off
  empty := true
  cached := false
  addr := zeros

def lfsCacheBlk (env : Env) (lfs : Lfs) (b : Blk) (w : World) : ℤ × Blk × World :=
  if b.cached then (OK, b, w)
  -- the memory is requested
  else if env.ok w.calls = false then (ERR, b, w.next)
  else
    let frame := env.junk w.calls
    let w := w.next
    let (frame, w) := if b.empty then (some frame, w)
      else blockRead env (lfs.sector (lfs.segStart + b.blk)) lfs.secPerBlk frame w
    match frame with
    | none => (ERR, b, w)
    | some frame =>
      if env.ok w.calls = false then (ERR, b, w.next)
      -- a bad checksum returns `nil`, which is `OK`
      else if b.empty = false ∧ crcChecksum frame 0 lfsBlkSize ≠ b.crc then (OK, b, w.next)
      else (OK, { b with cached := true, addr := if b.empty then frame.fill 0 lfsBlkSize 0 else frame }, w.next)

/-- The loop of `lfs_inode_get_blk`, with `k` blocks to go: whether there is the block, the blocks in front of it, the
list from it on, and how many were made. -/
def seekBlk (env : Env) (add : Bool) : ℕ → Blks → World → Option (Bool × List Blk × Blks × ℕ × World)
  | _, .wild, _ => none
  | 0, .cons b bnext, w => some (true, [], .cons b bnext, 0, w)
  | k + 1, .cons b bnext, w =>
    (seekBlk env add k bnext w).map fun (found, front, rest, made, w) => (found, b :: front, rest, made, w)
  | 0, .nil, w =>
    if add = false then some (false, [], .nil, 0, w)
    else if env.ok w.calls = false then some (false, [], .nil, 0, w.next)
    else some (true, [], .cons (lfsCreateBlk 0) .nil, 1, w.next)
  | k + 1, .nil, w =>
    if add = false then some (false, [], .nil, 0, w)
    else if env.ok w.calls = false then some (false, [], .nil, 0, w.next)
    else (seekBlk env add k .nil w.next).map fun (found, front, rest, made, w) =>
      (found, lfsCreateBlk (lfsBlkSize * (k + 1)) :: front, rest, made + 1, w)

def lfsInodeGetBlk (env : Env) (x : Inode) (off : ℕ) (add : Bool) (w : World) :
    Option (Bool × List Blk × Blks × ℕ × World) :=
  if alignDown off lfsBlkSize ≠ off then some (false, [], x.blks, 0, w)
  -- the product is one of 32-bit numbers
  else if add = false ∧ off > x.blkCnt * lfsBlkSize % 2 ^ 32 then some (false, [], x.blks, 0, w)
  else seekBlk env add (off / lfsBlkSize) x.blks w

/-- The loop of `lfs_write`: what it returns, the list from here on, and how many blocks were made. -/
def writeLoop (env : Env) (lfs : Lfs) : ℕ → Blks → ℕ → ℕ → List UInt8 → World → Option (ℤ × Blks × ℕ × World)
  | _, bs, _, _, [], w => some (OK, bs, 0, w)
  | 0, _, _, _, _ :: _, _ => none
  | _ + 1, .nil, _, _, _ :: _, w => some (ERR, .nil, 0, w)
  | _ + 1, .wild, _, _, _ :: _, _ => none
  | fuel + 1, .cons b bnext, off, bOff, x :: buf, w =>
    let (r, b, w) := lfsCacheBlk env lfs b w
    if r ≠ OK then some (ERR, .cons b bnext, 0, w)
    -- there is no `addr`
    else if b.cached = false then none
    else
      let len := (x :: buf).length
      let n := if bOff + len > lfsBlkSize then lfsBlkSize - bOff else len
      let b := { b with empty := false, written := false, addr := storeBytes b.addr bOff ((x :: buf).take n) }
      let rest := (x :: buf).drop n
      let off := off + n
      let (bnext, made, w) := match bnext, rest with
        -- `bnext` of the new block is never set
        | .nil, _ :: _ => if env.ok w.calls then (.cons (lfsCreateBlk off) .wild, 1, w.next) else (.nil, 0, w.next)
        | bnext, _ => (bnext, 0, w)
      (writeLoop env lfs fuel bnext off 0 rest w).map fun (r, bs, made', w) => (r, .cons b bs, made + made', w)

def Blks.behind (front : List Blk) (rest : Blks) : Blks := front.foldr .cons rest

def lfsWrite (env : Env) (fuel : ℕ) (lfs : Lfs) (name : Name) (buf : List UInt8) (off : ℕ) (w : World) :
    Option (ℤ × Lfs × World) :=
  match lfsFindInode lfs name false with
  | none => none
  | some none => some (ERR, lfs, w)
  | some (some i) =>
    let x := lfs.inodes i
    let alignedOff := alignDown off lfsBlkSize
    match lfsInodeGetBlk env x alignedOff true w with
    | none => none
    | some (found, front, rest, made, w) =>
      if found = false then
        some (ERR, lfs.setInode i { x with blks := rest.behind front, blkCnt := x.blkCnt + made }, w)
      else
        match writeLoop env lfs buf.length rest off (off - alignedOff) buf w with
        | none => none
        | some (r, rest, made', w) =>
          let x := { x with blks := rest.behind front, blkCnt := x.blkCnt + made + made' }
          if r ≠ OK then some (ERR, lfs.setInode i x, w)
          else
            let x := if x.lenReal < off + buf.length then { x with lenReal := off + buf.length } else x
            (lfsAddPending fuel (lfs.setInode i x) i).map fun lfs => (OK, lfs, w)

/-- The loop of `lfs_read`: what it returns, the bytes, and the list from here on. -/
def readLoop (env : Env) (lfs : Lfs) : Blks → ℕ → ℕ → World → Option (ℤ × List UInt8 × Blks × World)
  | bs, _, 0, w => some (OK, [], bs, w)
  | .nil, _, _ + 1, w => some (ERR, [], .nil, w)
  | .wild, _, _ + 1, _ => none
  | .cons b bnext, bOff, len + 1, w =>
    let (r, b, w) := lfsCacheBlk env lfs b w
    if r ≠ OK then some (ERR, [], .cons b bnext, w)
    -- there is no `addr`
    else if b.cached = false then none
    else
      let n := if bOff + (len + 1) > lfsBlkSize then lfsBlkSize - bOff else len + 1
      (readLoop env lfs bnext 0 (len + 1 - n) w).map fun (r, data, bs, w) =>
        (r, loadBytes b.addr bOff n ++ data, .cons b bs, w)

def lfsRead (env : Env) (lfs : Lfs) (name : Name) (off len : ℕ) (w : World) :
    Option (ℤ × List UInt8 × Lfs × World) :=
  match lfsFindInode lfs name false with
  | none => none
  | some none => some (ERR, [], lfs, w)
  | some (some i) =>
    let x := lfs.inodes i
    if x.lenReal < off + len then some (ERR, [], lfs, w)
    else
      let alignedOff := alignDown off lfsBlkSize
      match lfsInodeGetBlk env x alignedOff false w with
      | none => none
      | some (found, front, rest, _, w) =>
        if found = false then some (ERR, [], lfs, w)
        else
          (readLoop env lfs rest (off - alignedOff) len w).map fun (r, data, rest, w) =>
            (r, data, lfs.setInode i { x with blks := rest.behind front }, w)

def blkBytes (lfs : Lfs) (w : World) (b : Blk) : Bytes :=
  if b.cached then b.addr
  else if b.empty then zeros
  else fun i => w.disk (lfs.sector (lfs.segStart + b.blk) * w.blockSize + i)

def Blks.byte (lfs : Lfs) (w : World) : Blks → ℕ → UInt8
  | .cons b bnext, i => if i < lfsBlkSize then blkBytes lfs w b i else bnext.byte lfs w (i - lfsBlkSize)
  | _, _ => 0

def Blks.All (P : Blk → Prop) : Blks → Prop
  | .cons b bnext => P b ∧ bnext.All P
  | _ => True

def Blks.offs : Blks → List ℕ
  | .cons b bnext => b.off :: bnext.offs
  | _ => []

def CrcOk (lfs : Lfs) (w : World) (b : Blk) : Prop :=
  b.cached = false → b.empty = false → crcChecksum (blkBytes lfs w b) 0 lfsBlkSize = b.crc

structure Inode.Listed (x : Inode) : Prop where
  ends : x.blks.ends = true
  offs : x.blks.offs = (List.range x.blkCnt).map (lfsBlkSize * ·)

def content (lfs : Lfs) (w : World) (i : ℕ) : ℕ → UInt8 := (lfs.inodes i).blks.byte lfs w

def overwrite (c : ℕ → UInt8) (off : ℕ) (buf : List UInt8) : ℕ → UInt8 := storeBytes c off buf

/-- The blocks of the range are there, and `lfs_inode_get_blk` looks for the first one. -/
structure Inode.Readable (x : Inode) (off len : ℕ) : Prop where
  first : alignDown off lfsBlkSize < lfsBlkSize * x.blkCnt
  product : alignDown off lfsBlkSize ≤ x.blkCnt * lfsBlkSize % 2 ^ 32
  last : off + len ≤ lfsBlkSize * x.blkCnt

end Agatha.Fs
