import Agatha.Library.Bytes
import Agatha.Library.Loops

/-!
The FAT file systems of `lib/fat/fat.c`. The device is the bytes of its blocks, a frame the bytes it holds,
and what the other calls answer are inputs. Pointers to files are their numbers in the table of files.
-/

namespace Agatha.FatFs

open Library Library.Loops

def OK : ℤ := 0
def ERR : ℤ := -1

inductive FatType
  | fat16
  | fat32
  deriving DecidableEq

structure File where
  refs : ℕ
  name : Bytes
  attr : ℕ
  size : ℕ
  dsize : ℕ
  startCluster : ℕ
  parent : Option ℕ

def fidsMax : ℕ := 32

/-- `struct fat`. The sizes of a sector and of a cluster are a field of two bytes and one of one byte in the
boot sector, and are divided by, as that of a block is. -/
structure Fat where
  blockSize : ℕ
  start : ℕ
  type : FatType
  bps : ℕ
  spc : ℕ
  nclusters : ℕ
  reserved : ℕ
  rootdir : ℕ
  dataarea : ℕ
  files : ℕ → File
  blockSize_pos : 0 < blockSize
  bps_pos : 0 < bps
  bps_lt : bps < 2 ^ 16
  spc_pos : 0 < spc
  spc_lt : spc < 2 ^ 8

def Fat.clusterSize (fat : Fat) : ℕ := fat.spc * fat.bps

structure BlockReq where
  blk : ℕ
  nBlks : ℕ
  off : ℕ

def fatReadBlocks (fat : Fat) (off start len : ℕ) : BlockReq :=
  { blk := (fat.start + start / fat.blockSize) % 2 ^ 32, nBlks := len / fat.blockSize, off := off }

def deliver (fat : Fat) (disk : Bytes) (rq : BlockReq) (frame : Bytes) : Bytes :=
  frame.copy rq.off disk (rq.blk * fat.blockSize) (rq.nBlks * fat.blockSize)

/-- The answers to one `request_memory`, the read into its frame and its mapping, and what the frame holds
before. -/
structure Answers where
  mem : Bool
  read : Bool
  map : Bool
  old : Bytes

def Answers.ok (a : Answers) : Bool := a.mem && a.read && a.map

def Answers.granted (a : Answers) : Answers := { a with mem := true, read := true, map := true }

def get16 (b : Bytes) (o : ℕ) : ℕ := (b o).toNat + 256 * (b (o + 1)).toNat

def entrySize : FatType → ℕ
  | .fat16 => 2
  | .fat32 => 4

def fatTableInfo (fat : Fat) (disk : Bytes) (a : Answers) (cluster : ℕ) : ℕ :=
  let off := cluster * entrySize fat.type % 2 ^ 32
  let sec := off / fat.bps
  if a.ok then
    let rq := fatReadBlocks fat 0 ((fat.reserved + sec) % 2 ^ 32 * fat.bps % 2 ^ 32) fat.bps
    let va := deliver fat disk rq a.old
    match fat.type with
    | .fat16 => get16 va (off % fat.bps)
    | .fat32 => va.get32 (off % fat.bps)
  else 0

def fatNextCluster (fat : Fat) (disk : Bytes) (a : Answers) (prev : ℕ) : ℕ :=
  match fat.type with
  | .fat16 =>
    let v := fatTableInfo fat disk a prev % 2 ^ 16
    if v ≥ 0xfff8 then 0 else v
  | .fat32 =>
    let v := fatTableInfo fat disk a prev % 2 ^ 28
    if v ≥ 0x0ffffff8 then 0 else v

def clusterToSector (fat : Fat) (cluster : ℕ) : ℕ :=
  (fat.dataarea + (cluster + (2 ^ 32 - 2)) % 2 ^ 32 * fat.spc) % 2 ^ 32

def clusterAt (fat : Fat) (disk : Bytes) (lookups : ℕ → Answers) (first : ℕ) : ℕ → ℕ :=
  after (fun i => fatNextCluster fat disk (lookups i)) first

/-- The loop of `fat_file_size`, with the cluster and the size so far. -/
def sizeStop (_ : ℕ) (s : ℕ × ℕ) : Option ℕ := if s.1 = 0 then some s.2 else none

def sizeStep (fat : Fat) (disk : Bytes) (lookups : ℕ → Answers) (i : ℕ) (s : ℕ × ℕ) : ℕ × ℕ :=
  (fatNextCluster fat disk (lookups i) s.1, (s.2 + fat.bps * fat.spc) % 2 ^ 32)

def fatFileSize (fat : Fat) (disk : Bytes) (lookups : ℕ → Answers) (fuel : ℕ) (file : File) : Option (ℕ × ℕ) :=
  if file.startCluster = 0 then some (fat.bps * fat.spc, 0)
  else
    (loop sizeStop (sizeStep fat disk lookups) fuel 0 (file.startCluster, 0)).map fun r => (r.1, r.2.1)

/-- The variables of the loop of `fat_file_read`, the requests it made, and the frame. -/
structure ReadState where
  cluster : ℕ
  fileOffset : ℕ
  tlen : ℕ
  reads : List BlockReq
  frame : Bytes

def ReadState.request (fat : Fat) (frameOffset : ℕ) (s : ReadState) : BlockReq :=
  fatReadBlocks fat ((frameOffset + s.tlen) % 2 ^ 32) (clusterToSector fat s.cluster * fat.bps % 2 ^ 32)
    (fat.spc * fat.bps)

def accepts (fat : Fat) (frameLen : ℕ) (answer : Bool) (rq : BlockReq) : Prop :=
  answer = true ∧ rq.off + rq.nBlks * fat.blockSize ≤ frameLen

instance (fat : Fat) (frameLen : ℕ) (answer : Bool) (rq : BlockReq) : Decidable (accepts fat frameLen answer rq) :=
  instDecidableAnd

/-- The test that `handle_read` of `lib/block/block.c` makes, in 32 bits. -/
def frameTooSmall (fat : Fat) (frameLen : ℕ) (rq : BlockReq) : Prop :=
  (frameLen + 2 ^ 32 - rq.off) % 2 ^ 32 < rq.nBlks * fat.blockSize % 2 ^ 32

theorem accepts_iff {fat : Fat} {frameLen : ℕ} {answer : Bool} {rq : BlockReq} (hoff : rq.off ≤ frameLen)
    (hlen : frameLen < 2 ^ 32) (hblks : rq.nBlks * fat.blockSize < 2 ^ 32) :
    accepts fat frameLen answer rq ↔ answer = true ∧ ¬ frameTooSmall fat frameLen rq := by
  unfold accepts frameTooSmall
  rw [Nat.mod_eq_of_lt hblks]
  refine and_congr_right fun _ => ?_
  omega

def readStop (fat : Fat) (data : ℕ → Bool) (frameOffset frameLen len i : ℕ) (s : ReadState) : Option ℤ :=
  if s.cluster = 0 ∨ ¬s.tlen < len then some OK
  else if s.fileOffset > 0 then none
  else if accepts fat frameLen (data i) (s.request fat frameOffset) then none
  else some ERR

def readStep (fat : Fat) (disk : Bytes) (lookups : ℕ → Answers) (frameOffset i : ℕ) (s : ReadState) : ReadState :=
  let next := fatNextCluster fat disk (lookups i) s.cluster
  if s.fileOffset > 0 then { s with cluster := next, fileOffset := s.fileOffset - fat.spc * fat.bps }
  else
    let rq := s.request fat frameOffset
    { s with
      cluster := next, tlen := (s.tlen + fat.spc * fat.bps) % 2 ^ 32, reads := s.reads ++ [rq],
      frame := deliver fat disk rq s.frame }

/-- What `fat_file_read` returns, how many entries it reads, the requests that the device met, and the frame. -/
structure ReadResult where
  ret : ℤ
  entries : ℕ
  reads : List BlockReq
  frame : Bytes

def fatFileRead (fat : Fat) (disk : Bytes) (lookups : ℕ → Answers) (data : ℕ → Bool) (fuel : ℕ) (file : File)
    (frame : Bytes) (frameLen frameOffset fileOffset len : ℕ) : Option ReadResult :=
  if fileOffset % (fat.spc * fat.bps) ≠ 0 then some { ret := ERR, entries := 0, reads := [], frame := frame }
  else
    (loop (readStop fat data frameOffset frameLen len) (readStep fat disk lookups frameOffset) fuel 0
      { cluster := file.startCluster, fileOffset := fileOffset, tlen := 0, reads := [], frame := frame }).map
        fun r => { ret := r.1, entries := r.2.1, reads := r.2.2.reads, frame := r.2.2.frame }

section Directories

def space : UInt8 := ' '.toUInt8

def lower (c : UInt8) : UInt8 := if 'A'.toUInt8 ≤ c ∧ c ≤ 'Z'.toUInt8 then c + 32 else c

def padded (e : Bytes) (o n : ℕ) : List UInt8 := ((List.range n).map fun i => e (o + i)).takeWhile (· ≠ space)

inductive Copied
  | bad
  | skip
  | name (n : Bytes)

def fatAttrReadOnly : UInt8 := 0x01
def fatAttrDirectory : UInt8 := 0x10
def fatAttrLfn : UInt8 := 0x0f

/-- `fat_copy_file_entry_name` of the entry `e`; behind the NUL the name is not looked at. -/
def fatCopyFileEntryName (e : Bytes) : Copied :=
  if e 0 = 0 then .bad
  else if e 0 = 0xe5 then .skip
  else if e 11 &&& fatAttrLfn = fatAttrLfn then .skip
  else
    let ext := if e 8 ≠ space then '.'.toUInt8 :: (padded e 8 3).map lower else []
    .name fun i => ((padded e 0 8).map lower ++ ext).getD i 0

def strncmpFrom (s1 s2 : Bytes) : ℕ → ℕ → Bool
  | _, 0 => true
  | i, len + 1 =>
    if s1 i = 0 ∧ s2 i = 0 then true
    else if s1 i ≠ s2 i then false
    else strncmpFrom s1 s2 (i + 1) len

def strncmp (s1 s2 : Bytes) (len : ℕ) : Bool := strncmpFrom s1 s2 0 len

/-- What a search for a name comes to: -1, 0 or 1 with the entry. -/
inductive Found
  | bad
  | absent
  | found (e : Bytes)

def scanEntries (files name : Bytes) : ℕ → ℕ → Found
  | 0, _ => .absent
  | n + 1, i =>
    let e := files.shift (32 * i)
    match fatCopyFileEntryName e with
    | .bad => .bad
    | .skip => scanEntries files name n (i + 1)
    | .name fname => if strncmp fname name 32 then .found e else scanEntries files name n (i + 1)

def fatFindFileInSectors (fat : Fat) (disk : Bytes) (a : Answers) (sector nsectors : ℕ) (name : Bytes) : Found :=
  let len := nsectors * fat.bps % 2 ^ 32
  if a.ok then
    scanEntries (deliver fat disk (fatReadBlocks fat 0 (sector * fat.bps % 2 ^ 32) len) a.old) name (len / 32) 0
  else .bad

def zeroFile : File :=
  { refs := 0, name := fun _ => 0, attr := 0, size := 0, dsize := 0, startCluster := 0, parent := none }

/-- The loop of `fat_find_free_fid` from the slot `i` on, with the clunked slot `b` that was met, or 0. -/
def freeFidFrom : ℕ → ℕ → ℕ → (ℕ → File) → ℕ × (ℕ → File)
  | 0, _, b, files => (b, files)
  | n + 1, i, b, files =>
    let files := Function.update files i { files i with name := Function.update (files i).name 31 0 }
    if (files i).name 0 = 0 then (i, files)
    else freeFidFrom n (i + 1) (if b = 0 ∧ (files i).refs = 0 then i else b) files

def fatFindFreeFid (fat : Fat) : ℕ × Fat :=
  let r := freeFidFrom (fidsMax - 1) 1 0 fat.files
  (r.1, { fat with files := if r.1 = 0 then r.2 else Function.update r.2 r.1 zeroFile })

def strlcpy32 (name : Bytes) : Bytes := fun i => if i < 31 ∧ ∀ k ≤ i, name k ≠ 0 then name i else 0

def fileAttrRd : ℕ := 1
def fileAttrWr : ℕ := 2
def fileAttrDir : ℕ := 4

def entryFile (e name : Bytes) (parent : ℕ) : File :=
  { refs := 1, name := strlcpy32 name
    attr := if e 11 &&& fatAttrReadOnly ≠ 0 then fileAttrRd else fileAttrRd ||| fileAttrWr
    size := e.get32 28, dsize := 0, startCluster := get16 e 20 * 65536 + get16 e 26, parent := some parent }

def isDirectory (e : Bytes) : Prop := e 11 &&& fatAttrDirectory ≠ 0

instance (e : Bytes) : Decidable (isDirectory e) := instDecidableNot

structure FindResult where
  ret : ℤ
  entries : ℕ
  fat : Fat

def Fat.setFile (fat : Fat) (i : ℕ) (f : File) : Fat := { fat with files := Function.update fat.files i f }

def fatFileFromEntry (fat : Fat) (disk : Bytes) (sizes : ℕ → Answers) (fuel : ℕ) (e name : Bytes) (parent : ℕ) :
    Option FindResult :=
  let (i, fat) := fatFindFreeFid fat
  if i = 0 then some { ret := ERR, entries := 0, fat := fat }
  else
    let f := entryFile e name parent
    if isDirectory e then
      let f := { f with attr := f.attr ||| fileAttrDir, dsize := fat.spc * fat.bps, size := 0 }
      some { ret := i, entries := 0, fat := fat.setFile i f }
    else
      (fatFileSize fat disk sizes fuel f).map fun r =>
        { ret := i, entries := r.2, fat := fat.setFile i { f with dsize := r.1 } }

def cachedSlot (fat : Fat) (parent : ℕ) (name : Bytes) : Option ℕ :=
  (List.range' 1 (fidsMax - 1)).find? fun i =>
    (fat.files i).parent = some parent ∧ (fat.files i).refs = 0 ∧ strncmp (fat.files i).name name 32

def dirStop (fat : Fat) (disk : Bytes) (dirs : ℕ → Answers) (name : Bytes) (i cluster : ℕ) : Option Found :=
  if cluster = 0 then some .absent
  else
    match fatFindFileInSectors fat disk (dirs i) (clusterToSector fat cluster) fat.spc name with
    | .absent => none
    | r => some r

/-- The search of `fat_file_find`, with the number of entries that are read. -/
def searchDir (fat : Fat) (disk : Bytes) (dirs lookups : ℕ → Answers) (fuel parent : ℕ) (name : Bytes) :
    Option (Found × ℕ) :=
  let first := (fat.files parent).startCluster
  if first = 0 then some (fatFindFileInSectors fat disk (dirs 0) fat.rootdir fat.spc name, 0)
  else
    (loop (dirStop fat disk dirs name) (fun i => fatNextCluster fat disk (lookups i)) fuel 0 first).map
      fun r => (r.1, r.2.1)

def fatFileFind (fat : Fat) (disk : Bytes) (dirs lookups sizes : ℕ → Answers) (fuel parent : ℕ) (name : Bytes) :
    Option FindResult :=
  match cachedSlot fat parent name with
  | some i => some { ret := i, entries := 0, fat := fat }
  | none =>
    match searchDir fat disk dirs lookups fuel parent name with
    | none => none
    | some (.found e, n) =>
      (fatFileFromEntry fat disk sizes fuel e name parent).map fun r => { r with entries := n + r.entries }
    | some (_, n) => some { ret := ERR, entries := n, fat := fat }

end Directories

end Agatha.FatFs
