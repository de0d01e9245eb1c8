import Agatha.Sys.Ipc

/-!
Kernel objects and capability lists, from `sys/sys.c` and `arm/kern/sys.c`, at the layout of
`sysobj.h`: an object starts with `refs` and `type`, an untyped object goes on with `len`, and a
capability list with its slots of `perm` and `obj`. A call gives no result where the source has
none, at a nil object or beyond the function tables.
-/

namespace Agatha.Sys

open Kernel Library Library.Bytes

def capWrite : ℕ := 1
def capRead : ℕ := 2
def clistCaps : ℕ := 510

def objUntyped : ℕ := 0
def objEndpoint : ℕ := 1
def objCaplist : ℕ := 2
def objProc : ℕ := 3
def objIntr : ℕ := 4
def objFrame : ℕ := 5
def objTypeN : ℕ := 6

def frameNone : ℕ := 0
def frameMem : ℕ := 1
def frameL1 : ℕ := 3
def frameKobj : ℕ := 5

def objRefs (mem : Bytes) (o : Addr) : ℕ := mem.get32 o
def objType (mem : Bytes) (o : Addr) : ℕ := mem.get32 (o + 4)
def untypedLen (mem : Bytes) (o : Addr) : ℕ := mem.get32 (o + 8)
def framePa (mem : Bytes) (f : Addr) : ℕ := mem.get32 (f + 8)
def frameLen (mem : Bytes) (f : Addr) : ℕ := mem.get32 (f + 12)
def frameType (mem : Bytes) (f : Addr) : ℕ := mem.get32 (f + 16)

def capPerm (mem : Bytes) (c : Addr) : ℕ := mem.get32 c
def capObj (mem : Bytes) (c : Addr) : Addr := mem.get32 (c + 4)

def capSlot (l i : ℕ) : ℕ := l + 8 + 8 * i

def setHead (o type refs : ℕ) (mem : Bytes) : Bytes := (mem.put32 (o + 4) type).put32 o refs

def setCap (c perm obj : ℕ) (mem : Bytes) : Bytes := (mem.put32 c perm).put32 (c + 4) obj

/-- A process without a `cap_root` has no slots; what a call comes to that looks there is said where
calls are made. -/
def procFindCap (u : Addr) (cid : ℤ) (k : Kernel) : Option Addr :=
  match (k.proc u).capRoot with
  | none => none
  | some l =>
    let base := cid / 4096
    let sub := cid % 4096
    if base ≥ clistCaps then none
    else
      let c := ((l + 8 + 8 * base) % 2 ^ 32).toNat
      if sub = 0 then some c
      else if capPerm k.mem c &&& capRead = 0 then none
      else if objType k.mem (capObj k.mem c) ≠ objCaplist then none
      else if sub > clistCaps then none
      else some (capSlot (capObj k.mem c) sub.toNat)

/-- What a call of this module made out of what: the regions that were mapped, and the untyped
objects that were split, merged or retyped, with their lengths before. -/
inductive Making
  | mapped (o len : ℕ)
  | split (o no len : ℕ)
  | merged (ol oh len : ℕ)
  | retyped (o len : ℕ)
  deriving DecidableEq, Repr

abbrev Result := Option (ℤ × List Making × Kernel)

def Result.err (k : Kernel) : Result := some (ERR, [], k)

def objSize (type n : ℕ) : ℕ :=
  match type with
  | 0 => if n < 12 then 0 else n
  | 1 => if n ≠ 1 then 0 else 28
  | 2 => if n ≠ 1 then 0 else 4088
  | 3 => if n ≠ 1 then 0 else 1224
  | 4 => 20
  | _ => 28

def objUntypedInit (o n : ℕ) (mem : Bytes) : Bytes := mem.put32 (o + 8) n

def objCaplistInit (l : Addr) : ℕ → Bytes → Bytes
  | 0, mem => mem
  | i + 1, mem => setCap (capSlot l i) 0 0 (objCaplistInit l i mem)

def objIntrInit (o : Addr) (mem : Bytes) : Bytes :=
  ((mem.put32 (o + 8) 0).put32 (o + 12) 0).put32 (o + 16) 0

def objFrameInit (o : Addr) (mem : Bytes) : Bytes :=
  ((mem.put32 (o + 8) 0).put32 (o + 12) 0).put32 (o + 16) frameNone

def objInit (systick : ℤ) (type o n : ℕ) (k : Kernel) : Kernel :=
  match type with
  | 0 => { k with mem := objUntypedInit o n k.mem }
  | 1 => k.setEndpoint o .init
  | 2 => { k with mem := objCaplistInit o 255 k.mem }
  | 3 => procInit systick o (k.setProc o .zero)
  | 4 => { k with mem := objIntrInit o k.mem }
  | _ => { k with mem := objFrameInit o k.mem }

def sysObjRetype (systick : ℤ) (u : Addr) (cid type : ℤ) (n : ℕ) (k : Kernel) : Result :=
  if type < 0 ∨ objTypeN < type then .err k
  else
    match procFindCap u cid k with
    | none => .err k
    | some c =>
      if capPerm k.mem c = 0 then .err k
      else
        let o := capObj k.mem c
        if objType k.mem o ≠ objUntyped then .err k
        -- one past the tables
        else if type = objTypeN then none
        else if objSize type.toNat n = 0 then .err k
        else if untypedLen k.mem o < objSize type.toNat n then .err k
        else
          some (OK, [.retyped o (untypedLen k.mem o)],
            objInit systick type.toNat o n { k with mem := setHead o type.toNat 1 k.mem })

def sysObjSplit (u : Addr) (cid nid : ℤ) (k : Kernel) : Result :=
  match procFindCap u cid k with
  | none => .err k
  | some c =>
    if capPerm k.mem c &&& capWrite = 0 then .err k
    else
      let o := capObj k.mem c
      if objType k.mem o ≠ objUntyped then .err k
      else
        match procFindCap u nid k with
        | none => .err k
        | some nc =>
          if capPerm k.mem nc ≠ 0 then .err k
          else
            let len := untypedLen k.mem o / 2
            if len < 12 then .err k
            else
              let no := (o + len) % 2 ^ 32
              let mem := (setHead no objUntyped 1 k.mem).put32 (no + 8) len
              let mem := (setHead o objUntyped 1 mem).put32 (o + 8) len
              let mem := (mem.put32 (nc + 4) no).put32 nc (capRead ||| capWrite)
              some (OK, [.split o no (untypedLen k.mem o)], { k with mem := mem })

def sysObjMerge (u : Addr) (cidL cidH : ℤ) (k : Kernel) : Result :=
  match procFindCap u cidL k, procFindCap u cidH k with
  | some cl, some ch =>
    let ol := capObj k.mem cl
    let oh := capObj k.mem ch
    if ol = 0 then none
    else if objType k.mem ol ≠ objUntyped then .err k
    else if oh = 0 then none
    else if objType k.mem oh ≠ objUntyped then .err k
    else if objRefs k.mem ol > 1 then .err k
    else if objRefs k.mem oh > 1 then .err k
    else if untypedLen k.mem ol ≠ untypedLen k.mem oh then .err k
    else if (ol + untypedLen k.mem ol) % 2 ^ 32 ≠ oh then .err k
    else
      let mem := k.mem.put32 (ol + 8) (untypedLen k.mem ol + untypedLen k.mem oh)
      let mem := (mem.put32 (ch + 4) 0).put32 ch 0
      some (OK, [.merged ol oh (untypedLen k.mem ol + untypedLen k.mem oh)], { k with mem := mem })
  | _, _ => .err k

/-- The loop of `sys_obj_create`: whether `len` is a page doubled some number of times. -/
def isPageDoubled (len : ℕ) : ℕ → ℕ → Option Bool
  | 0, _ => none
  | fuel + 1, mlen =>
    if mlen > len then some false
    else if mlen = len then some true
    else isPageDoubled len fuel (2 * mlen % 2 ^ 32)

def sysObjCreate (fuel : ℕ) (o u : Addr) (fid nid : ℤ) (k : Kernel) : Result :=
  match procFindCap u fid k, procFindCap u nid k with
  | some fc, some nc =>
    if capPerm k.mem nc ≠ 0 then .err k
    else if capPerm k.mem fc &&& capWrite = 0 ∨ capPerm k.mem fc &&& capRead = 0 then .err k
    else
      let f := capObj k.mem fc
      if objType k.mem f ≠ objFrame then .err k
      else if frameType k.mem f ≠ frameMem then .err k
      else
        match isPageDoubled (frameLen k.mem f) fuel 4096 with
        | none => none
        | some false => .err k
        | some true =>
          if o = 0 then .err k
          else
            let len := frameLen k.mem f
            let mem := k.mem.fill o len 0
            let mem := objUntypedInit o len ((mem.put32 o 0).put32 (o + 4) objUntyped)
            let mem := setCap nc (capWrite ||| capRead) o mem
            let mem := mem.put32 (f + 16) frameKobj
            let mem := setCap fc 0 0 mem
            some (OK, [.mapped o len], { k with mem := mem })
  | _, _ => .err k

def sysFrameSetup (u : Addr) (cid : ℤ) (type pa len : ℕ) (k : Kernel) : Result :=
  if (k.proc u).pid ≠ rootPid then .err k
  else
    match procFindCap u cid k with
    | none => .err k
    | some c =>
      let f := capObj k.mem c
      if f = 0 then none
      else if objType k.mem f ≠ objFrame then .err k
      else if frameType k.mem f ≠ frameNone then .err k
      else
        let mem := (k.mem.put32 (f + 16) type).put32 (f + 8) pa
        let mem := (mem.put32 (f + 12) len).put32 (f + 24) 0
        some (OK, [], { k with mem := mem })

def passCap (dst src perm : ℕ) (mem : Bytes) : Bytes :=
  (mem.put32 (dst + 4) (capObj mem src)).put32 dst perm

def dropCap (c : ℕ) (mem : Bytes) : Bytes := (mem.put32 (c + 4) 0).put32 c 0

def findTyped (u : Addr) (cid : ℤ) (usable : ℕ → Bool) (type : ℕ) (k : Kernel) : Option Addr :=
  match procFindCap u cid k with
  | none => none
  | some c =>
    if usable (capPerm k.mem c) = false then none
    else if objType k.mem (capObj k.mem c) ≠ type then none
    else some c

def readWrite (perm : ℕ) : Bool := perm &&& capWrite ≠ 0 ∧ perm &&& capRead ≠ 0

/-- The end of `sys_proc_setup`: `o` gets the caplist of the slot `r` as its root, with itself, the
frame of `v` and the endpoint of `e` in it. -/
def procGiveRoot (o v r e : Addr) (k : Kernel) : Kernel :=
  let l := capObj k.mem r
  let k := k.setProc o { k.proc o with capRoot := some l }
  let mem := passCap (capSlot l 0) r (capRead ||| capWrite) k.mem
  let mem := passCap (capSlot l 2) v (capRead ||| capWrite) mem
  let mem := passCap (capSlot l 1) e capWrite mem
  { k with mem := dropCap e (dropCap r (dropCap v mem)) }

def sysProcSetup (u : Addr) (cid vspace clist eid : ℤ) (k : Kernel) : Result :=
  match findTyped u cid (fun perm => perm ≠ 0) objProc k with
  | none => .err k
  | some c =>
    match findTyped u vspace readWrite objFrame k with
    | none => .err k
    | some v =>
      let o := capObj k.mem c
      -- written before the last two checks
      let k := k.setProc o { k.proc o with vspace := framePa k.mem (capObj k.mem v) }
      match findTyped u clist readWrite objCaplist k,
          findTyped u eid (fun perm => perm &&& capWrite ≠ 0) objEndpoint k with
      | some r, some e => some ((k.proc o).pid, [], procGiveRoot o v r e k)
      | _, _ => .err k

def sysEndpointConnect (u : Addr) (cid nid : ℤ) (k : Kernel) : Result :=
  match procFindCap u cid k with
  | none => .err k
  | some c =>
    if capPerm k.mem c &&& capRead = 0 ∧ capPerm k.mem c &&& capWrite = 0 then .err k
    else if objType k.mem (capObj k.mem c) ≠ objEndpoint then .err k
    else
      match procFindCap u nid k with
      | none => .err k
      | some n =>
        if capPerm k.mem n ≠ 0 then .err k
        else some (OK, [], { k with mem := setCap n capWrite (capObj k.mem c) k.mem })

def findEndpoint (u : Addr) (cid : ℤ) (perm : ℕ) (k : Kernel) : Option Addr :=
  match procFindCap u cid k with
  | none => none
  | some c =>
    if capPerm k.mem c &&& perm = 0 then none
    else if objType k.mem (capObj k.mem c) ≠ objEndpoint then none
    else some (capObj k.mem c)

def sysMesg (u : Addr) (dest : ℤ) (rq : Bytes) (cid : ℤ) (k : Kernel) : Outcome :=
  match findEndpoint u dest capWrite k with
  | none => .ret ERR [] k
  | some e =>
    if cid = 0 then mesg u e rq none k
    else
      match procFindCap u cid k with
      | none => .ret ERR [] k
      | some o => mesg u e rq (some o) k

def sysRecv (fuel : ℕ) (u : Addr) (frm cid : ℤ) (k : Kernel) : Outcome :=
  match findEndpoint u frm capRead k with
  | none => .ret ERR [] k
  | some e =>
    if cid = 0 then recv fuel u e none k
    else
      match procFindCap u cid k with
      | none => .ret ERR [] k
      | some o => if capPerm k.mem o ≠ 0 then .ret ERR [] k else recv fuel u e (some o) k

def sysReply (fuel : ℕ) (u : Addr) (dest pid : ℤ) (m : Bytes) (cid : ℤ) (k : Kernel) : Outcome :=
  match findEndpoint u dest capRead k with
  | none => .ret ERR [] k
  | some e =>
    if cid = 0 then reply fuel u e pid m none k
    else
      match procFindCap u cid k with
      | none => .ret ERR [] k
      | some o =>
        if capPerm k.mem o = 0 then reply fuel u e pid m none k
        else reply fuel u e pid m (some o) k

def sysSignal (u : Addr) (dest : ℤ) (s : BitVec 32) (k : Kernel) : Outcome :=
  match findEndpoint u dest capWrite k with
  | none => .ret ERR [] k
  | some e => signal u e s k

structure Root where
  proc : ℕ
  caplist : ℕ
  untyped : ℕ
  l1 : ℕ
  l1Pa : ℕ
  l1Len : ℕ

def initRoot (systick : ℤ) (r : Root) (mem : Bytes) : Kernel :=
  let mem := (mem.fill r.proc 4096 0).fill r.caplist 4096 0
  let mem := (mem.fill r.untyped 4096 0).fill r.l1 28 0
  let mem := setHead r.proc objProc 1 mem
  let mem := objCaplistInit r.caplist 255 (setHead r.caplist objCaplist 1 mem)
  let k := procSetPriority r.proc 1 (procInit systick r.proc (.boot mem))
  let k := k.setProc r.proc
    { k.proc r.proc with vspace := r.l1Pa, capRoot := some r.caplist }
  let mem := (setHead r.l1 objFrame 1 k.mem).put32 (r.l1 + 8) r.l1Pa
  let mem := (mem.put32 (r.l1 + 12) r.l1Len).put32 (r.l1 + 16) frameL1
  let mem := setCap (capSlot r.caplist 0) (capWrite ||| capRead) r.caplist mem
  let mem := setCap (capSlot r.caplist 2) (capWrite ||| capRead) r.l1 mem
  let mem := (setHead r.untyped objUntyped 1 mem).put32 (r.untyped + 8) 4096
  let mem := setCap (capSlot r.caplist 3) (capWrite ||| capRead) r.untyped mem
  procReady r.proc { k with mem := mem }

end Agatha.Sys
