import Agatha.Library.Traced
import Agatha.Sys.Atomic

namespace Agatha.Sys

open Kernel Library Library.Bytes

/-- `caps[i]` of a list, or of what is at address 0; `obj_size_funcs[type]` or `obj_init_funcs[type]`; `procs[pid]`;
`ready[i]`; `user_handler_given[irqn]` and its siblings; `isenable[i]`; and `c->obj` of a slot with the permissions
`perm`. -/
inductive Access
  | caps (list : Option Addr) (i : ℤ)
  | func (type : ℤ)
  | procs (pid : ℕ)
  | ready (i : ℕ)
  | handler (irqn : ℕ)
  | enable (i : ℕ)
  | object (perm : ℕ)
  deriving DecidableEq, Repr

def Access.Ok : Access → Prop
  | .caps list i => list ≠ none ∧ 0 ≤ i ∧ i < clistCaps
  | .func type => 0 ≤ type ∧ type < objTypeN
  | .procs pid => pid < maxProcs
  | .ready i => i < priorityMax
  | .handler irqn => irqn < nirq
  | .enable i => i < 32
  | .object perm => perm ≠ 0

abbrev Index (α : Type) : Type := Traced Access α

def Index.InBounds {α : Type} (x : Index α) : Prop := x.All Access.Ok

namespace Index

def touch (a : Access) : Index Unit := .of () [a]

def object (c : Addr) (k : Kernel) : Index Addr := .of (capObj k.mem c) [.object (capPerm k.mem c)]

def rootCaps (l : Addr) (base : ℤ) : Index Addr := .of ((l + 8 + 8 * base) % 2 ^ 32).toNat [.caps (some l) base]

def caps (l : Addr) (i : ℕ) : Index Addr := .of (capSlot l i) [.caps (some l) i]

def procFindCap (u : Addr) (cid : ℤ) (k : Kernel) : Index (Option Addr) :=
  let base := cid / 4096
  let sub := cid % 4096
  if base ≥ clistCaps then return none
  else
    match (k.proc u).capRoot with
    | none => do
      touch (.caps none base)
      return none
    | some l => do
      let c ← rootCaps l base
      if sub = 0 then return some c
      else if capPerm k.mem c &&& capRead = 0 then return none
      else do
        let o ← object c k
        if objType k.mem o ≠ objCaplist then return none
        else if sub > clistCaps then return none
        else do
          let c ← caps o sub.toNat
          return some c

def findTyped (u : Addr) (cid : ℤ) (usable : ℕ → Bool) (type : ℕ) (k : Kernel) : Index (Option Addr) := do
  match ← procFindCap u cid k with
  | none => return none
  | some c =>
    if usable (capPerm k.mem c) = false then return none
    else do
      let o ← object c k
      if objType k.mem o ≠ type then return none else return some c

def procFindCapType (u : Addr) (cid : ℤ) (perm type : ℕ) (k : Kernel) : Index (Option Addr) := do
  match ← procFindCap u cid k with
  | none => return none
  | some c =>
    if capPerm k.mem c &&& perm ≠ perm then return none
    else if capPerm k.mem c ≠ 0 then do
      let o ← object c k
      if objType k.mem o ≠ type then return none else return some c
    else return some c

def findFrame (u : Addr) (cid : ℤ) (m : Machine) : Index (Option Addr) :=
  procFindCapType u cid (capWrite ||| capRead) objFrame m.kernel

def objInit (systick : ℤ) (type o n : ℕ) (k : Kernel) : Index Kernel := do
  touch (.func type)
  (if type = objProc then touch (.procs k.nextpid) else return ())
  return Sys.objInit systick type o n k

def objSize (type : ℤ) (n : ℕ) : Index ℕ := .of (Sys.objSize type.toNat n) [.func type]

def sysObjRetype (systick : ℤ) (u : Addr) (cid type : ℤ) (n : ℕ) (k : Kernel) : Index Result :=
  if type < 0 ∨ objTypeN < type then return .err k
  else do
    match ← findTyped u cid (fun perm => perm ≠ 0) objUntyped k with
    | none => return .err k
    | some c =>
      let o := capObj k.mem c
      let len ← objSize type n
      if type = objTypeN then return none
      else if len = 0 then return .err k
      else if untypedLen k.mem o < len then return .err k
      else do
        let k' ← objInit systick type.toNat o n { k with mem := setHead o type.toNat 1 k.mem }
        return some (OK, [.retyped o (untypedLen k.mem o)], k')

def sysObjSplit (u : Addr) (cid nid : ℤ) (k : Kernel) : Index Result := do
  match ← findTyped u cid (fun perm => perm &&& capWrite ≠ 0) objUntyped k with
  | none => return .err k
  | some c =>
    let o := capObj k.mem c
    match ← procFindCap u nid k with
    | none => return .err k
    | some nc =>
      if capPerm k.mem nc ≠ 0 then return .err k
      else
        let len := untypedLen k.mem o / 2
        if len < 12 then return .err k
        else
          let no := (o + len) % 2 ^ 32
          let mem := (setHead no objUntyped 1 k.mem).put32 (no + 8) len
          let mem := (setHead o objUntyped 1 mem).put32 (o + 8) len
          let mem := (mem.put32 (nc + 4) no).put32 nc (capRead ||| capWrite)
          return some (OK, [.split o no (untypedLen k.mem o)], { k with mem := mem })

def sysObjMerge (u : Addr) (cidL cidH : ℤ) (k : Kernel) : Index Result := do
  let cl ← procFindCap u cidL k
  let ch ← procFindCap u cidH k
  match cl, ch with
  | some cl, some ch =>
    let ol ← object cl k
    if ol = 0 then return none
    else if objType k.mem ol ≠ objUntyped then return .err k
    else do
      let oh ← object ch k
      if oh = 0 then return none
      else if objType k.mem oh ≠ objUntyped then return .err k
      else if objRefs k.mem ol > 1 then return .err k
      else if objRefs k.mem oh > 1 then return .err k
      else if untypedLen k.mem ol ≠ untypedLen k.mem oh then return .err k
      else if (ol + untypedLen k.mem ol) % 2 ^ 32 ≠ oh then return .err k
      else
        let mem := k.mem.put32 (ol + 8) (untypedLen k.mem ol + untypedLen k.mem oh)
        let mem := (mem.put32 (ch + 4) 0).put32 ch 0
        return some (OK, [.merged ol oh (untypedLen k.mem ol + untypedLen k.mem oh)], { k with mem := mem })
  | _, _ => return .err k

def sysObjCreate (fuel : ℕ) (o u : Addr) (fid nid : ℤ) (k : Kernel) : Index Result := do
  let fc ← procFindCap u fid k
  let nc ← procFindCap u nid k
  match fc, nc with
  | some fc, some nc =>
    if capPerm k.mem nc ≠ 0 then return .err k
    else if capPerm k.mem fc &&& capWrite = 0 ∨ capPerm k.mem fc &&& capRead = 0 then return .err k
    else do
      let f ← object fc k
      if objType k.mem f ≠ objFrame then return .err k
      else if frameType k.mem f ≠ frameMem then return .err k
      else
        match isPageDoubled (frameLen k.mem f) fuel 4096 with
        | none => return none
        | some false => return .err k
        | some true =>
          if o = 0 then return .err k
          else
            let len := frameLen k.mem f
            let mem := k.mem.fill o len 0
            let mem := objUntypedInit o len ((mem.put32 o 0).put32 (o + 4) objUntyped)
            let mem := setCap nc (capWrite ||| capRead) o mem
            let mem := mem.put32 (f + 16) frameKobj
            let mem := setCap fc 0 0 mem
            return some (OK, [.mapped o len], { k with mem := mem })
  | _, _ => return .err k

def objCreate (fuel : ℕ) (u : Addr) (fid nid : ℤ) (m : Machine) : Index Ending := do
  match ← sysObjCreate fuel 1 u fid nid m.kernel with
  | some (_, [.mapped _ len], _) =>
    match ← procFindCap u fid m.kernel with
    | none => return .stuck
    | some fc => do
      let f ← object fc m.kernel
      match kernelMap (framePa m.kernel.mem f) len true m with
      | .here o m => do
        let r ← sysObjCreate fuel o u fid nid m.kernel
        return .ofResult m r
      | .panic => return .panic
      | .astray => return .astray
  | x => return .ofResult m x

def sysFrameSetup (u : Addr) (cid : ℤ) (type pa len : ℕ) (k : Kernel) : Index Result :=
  if (k.proc u).pid ≠ rootPid then return .err k
  else do
    match ← procFindCap u cid k with
    | none => return .err k
    | some c =>
      let f ← object c k
      if f = 0 then return none
      else if objType k.mem f ≠ objFrame then return .err k
      else if frameType k.mem f ≠ frameNone then return .err k
      else
        let mem := (k.mem.put32 (f + 16) type).put32 (f + 8) pa
        let mem := (mem.put32 (f + 12) len).put32 (f + 24) 0
        return some (OK, [], { k with mem := mem })

def procGiveRoot (o v r e : Addr) (k : Kernel) : Index Kernel := do
  let l := capObj k.mem r
  let k := k.setProc o { k.proc o with capRoot := some l }
  let c ← caps l 0
  let mem := passCap c r (capRead ||| capWrite) k.mem
  let c ← caps l 2
  let mem := passCap c v (capRead ||| capWrite) mem
  let c ← caps l 1
  let mem := passCap c e capWrite mem
  return { k with mem := dropCap e (dropCap r (dropCap v mem)) }

def sysProcSetup (u : Addr) (cid vspace clist eid : ℤ) (k : Kernel) : Index Result := do
  match ← findTyped u cid (fun perm => perm ≠ 0) objProc k with
  | none => return .err k
  | some c =>
    match ← findTyped u vspace readWrite objFrame k with
    | none => return .err k
    | some v =>
      let o := capObj k.mem c
      let k := k.setProc o { k.proc o with vspace := framePa k.mem (capObj k.mem v) }
      match ← findTyped u clist readWrite objCaplist k with
      | none => return .err k
      | some r =>
        match ← findTyped u eid (fun perm => perm &&& capWrite ≠ 0) objEndpoint k with
        | none => return .err k
        | some e => do
          let k' ← procGiveRoot o v r e k
          return some ((k.proc o).pid, [], k')

def sysEndpointConnect (u : Addr) (cid nid : ℤ) (k : Kernel) : Index Result := do
  match ← findTyped u cid (fun perm => ¬ (perm &&& capRead = 0 ∧ perm &&& capWrite = 0)) objEndpoint k with
  | none => return .err k
  | some c =>
    match ← procFindCap u nid k with
    | none => return .err k
    | some n =>
      if capPerm k.mem n ≠ 0 then return .err k
      else return some (OK, [], { k with mem := setCap n capWrite (capObj k.mem c) k.mem })

def findEndpoint (u : Addr) (cid : ℤ) (perm : ℕ) (k : Kernel) : Index (Option Addr) := do
  let c ← findTyped u cid (fun p => p &&& perm ≠ 0) objEndpoint k
  return c.map (capObj k.mem)

def findEndpointAny (u : Addr) (cid : ℤ) (k : Kernel) : Index (Option Addr) := do
  let c ← findTyped u cid (fun perm => ¬ (perm &&& capRead = 0 ∧ perm &&& capWrite = 0)) objEndpoint k
  return c.map (capObj k.mem)

def procReady (p : Addr) (k : Kernel) : Index Kernel := do
  let k := k.setProc p { k.proc p with state := .ready }
  if (k.proc p).slist = none then do
    touch (.ready (k.proc p).priority)
    return addToListTail (other k (k.proc p).priority) p k
  else return k

def mesg (u e : Addr) (rq : Bytes) (o : Option Addr) (k : Kernel) : Index Outcome :=
  let k := k.setProc u { k.proc u with m := rq, give := o, state := .blockSend }
  let k := enqueueWaiting u e k
  match (k.endpoint e).rwait with
  | some p => do
    let k ← procReady p k
    return callSchedule u (.mesg e) (some p) k
  | none => return callSchedule u (.mesg e) none k

def reply (fuel : ℕ) (u e : Addr) (pid : ℤ) (m : Bytes) (o : Option Addr) (k : Kernel) : Index Outcome :=
  match findWaiting (fun x => x.state = .blockReply && x.pid = pid) fuel (k.endpoint e).waiting.head k with
  | none => return .stuck
  | some none => return .ret ERR [] k
  | some (some p) => do
    let k := unlinkPrev e p (unlinkNext e p k)
    let k := k.setProc p { k.proc p with m := m }
    let k := match o, (k.proc p).give with
      | some o, some g => { k with mem := moveCap o g k.mem }
      | _, _ => k
    let k ← procReady p k
    return callSchedule u .ret (some p) k

def signal (u e : Addr) (s : BitVec 32) (k : Kernel) : Index Outcome :=
  match (k.endpoint e).bound with
  | some p =>
    let k := k.setProc p { k.proc p with boundSignal := (k.proc p).boundSignal ||| s }
    if (k.proc p).state = .blockRecv then do
      let k ← procReady p k
      return callSchedule u .ret (some p) k
    else return .ret OK [] k
  | none =>
    let k := k.setEndpoint e { k.endpoint e with signal := (k.endpoint e).signal ||| s }
    match (k.endpoint e).rwait with
    | some p => do
      let k ← procReady p k
      return callSchedule u .ret (some p) k
    | none => return .ret OK [] k

def sysMesg (u : Addr) (dest : ℤ) (rq : Bytes) (cid : ℤ) (k : Kernel) : Index Outcome := do
  match ← findEndpoint u dest capWrite k with
  | none => return .ret ERR [] k
  | some e =>
    if cid = 0 then mesg u e rq none k
    else do
      match ← procFindCap u cid k with
      | none => return .ret ERR [] k
      | some o => mesg u e rq (some o) k

def sysRecv (fuel : ℕ) (u : Addr) (frm cid : ℤ) (k : Kernel) : Index Outcome := do
  match ← findEndpoint u frm capRead k with
  | none => return .ret ERR [] k
  | some e =>
    if cid = 0 then return recv fuel u e none k
    else do
      match ← procFindCap u cid k with
      | none => return .ret ERR [] k
      | some o => return if capPerm k.mem o ≠ 0 then .ret ERR [] k else recv fuel u e (some o) k

def sysReply (fuel : ℕ) (u : Addr) (dest pid : ℤ) (m : Bytes) (cid : ℤ) (k : Kernel) : Index Outcome := do
  match ← findEndpoint u dest capRead k with
  | none => return .ret ERR [] k
  | some e =>
    if cid = 0 then reply fuel u e pid m none k
    else do
      match ← procFindCap u cid k with
      | none => return .ret ERR [] k
      | some o =>
        if capPerm k.mem o = 0 then reply fuel u e pid m none k
        else reply fuel u e pid m (some o) k

def sysSignal (u : Addr) (dest : ℤ) (s : BitVec 32) (k : Kernel) : Index Outcome := do
  match ← findEndpoint u dest capWrite k with
  | none => return .ret ERR [] k
  | some e => signal u e s k

def sysEndpointBind (u : Addr) (cid : ℤ) (k : Kernel) : Index Outcome := do
  match ← findEndpointAny u cid k with
  | none => return .ret ERR [] k
  | some l => return endpointBind u l k

def sysEndpointUnbind (u : Addr) (cid : ℤ) (k : Kernel) : Index Outcome := do
  match ← findEndpointAny u cid k with
  | none => return .ret ERR [] k
  | some l => return endpointUnbind u l k

def procSetPriority (p : Addr) (priority : ℕ) (k : Kernel) : Index Kernel :=
  let priority := if priority > priorityMax then priorityMax else priority
  let k := k.setProc p { k.proc p with priority := priority }
  match (k.proc p).slist with
  | some l => do
    touch (.ready priority)
    return addToListTail (other k priority) p (removeFromList l p k)
  | none => return k

def sysProcSetPriority (u : Addr) (cid : ℤ) (priority : ℕ) (k : Kernel) : Index Outcome := do
  match ← findTyped u cid (fun perm => perm ≠ 0) objProc k with
  | none => return .ret ERR [] k
  | some c => do
    let k ← procSetPriority (capObj k.mem c) priority k
    return .ret OK [] k

def findObject (u : Addr) (cid : ℤ) (k : Kernel) : Index (Option Addr) := do
  match ← procFindCap u cid k with
  | none => return none
  | some c => do
    let o ← object c k
    return some o

def sysProcStart (u : Addr) (cid : ℤ) (k : Kernel) : Index Outcome := do
  match ← findObject u cid k with
  | none => return .ret ERR [] k
  | some o =>
    if o = 0 then return .stuck
    else if objType k.mem o ≠ objProc then return .ret ERR [] k
    else do
      let k ← procReady o (k.setProc o { k.proc o with label := .user })
      return .ret OK [] k

def sysIntrInit (u : Addr) (cid : ℤ) (irqn : ℕ) (k : Kernel) : Index Outcome :=
  if (k.proc u).pid ≠ rootPid then return .ret ERR [] k
  else do
    match ← findObject u cid k with
    | none => return .ret ERR [] k
    | some o =>
      if o = 0 then return .stuck
      else if objType k.mem o ≠ objIntr then return .ret ERR [] k
      else do
        touch (.handler irqn)
        return if nirq ≤ irqn then .stuck else
          match intrCapClaim irqn k with
          | none => .ret ERR [] k
          | some k => .ret OK [] { k with mem := k.mem.put32 (o + 8) irqn }

def sysIntrConnect (u : Addr) (iid eid : ℤ) (signal : ℕ) (k : Kernel) : Index Outcome := do
  let i ← procFindCap u iid k
  let e ← procFindCap u eid k
  match i, e with
  | some i, some e =>
    let oi ← object i k
    if oi = 0 then return .stuck
    else if objType k.mem oi ≠ objIntr then return .ret ERR [] k
    else do
      let oe ← object e k
      if oe = 0 then return .stuck
      else if objType k.mem oe ≠ objEndpoint ∨ capPerm k.mem e &&& capRead = 0 then return .ret ERR [] k
      else if intrIrqn k.mem oi = 0 then return .ret ERR [] k
      else do
        touch (.handler (intrIrqn k.mem oi))
        return if nirq ≤ intrIrqn k.mem oi then .stuck else
          .ret OK [] { k with mem := (k.mem.put32 (oi + 12) oe).put32 (oi + 16) signal }
  | _, _ => return .ret ERR [] k

def sysIntrAck (u : Addr) (iid : ℤ) (k : Kernel) : Index Outcome := do
  match ← findObject u iid k with
  | none => return .ret ERR [] k
  | some i =>
    if i = 0 then return .stuck
    else if objType k.mem i ≠ objIntr then return .ret ERR [] k
    else do
      touch (.enable (intrIrqn k.mem i / 32))
      return if 32 ≤ intrIrqn k.mem i / 32 then .stuck else .ret OK [] k

def sysFrameInfo (u : Addr) (cid : ℤ) (k : Kernel) : Index Outcome := do
  match ← procFindCapType u cid (capWrite ||| capRead) objFrame k with
  | none => return .ret ERR [] k
  | some _ => return .ret OK [] k

def sysFrameL1Setup (u : Addr) (cid : ℤ) (m : Machine) : Index Ending := do
  match ← findFrame u cid m with
  | none => return .ret ERR [] m
  | some c => return frameL1SetupAt c m

def sysFrameL2Map (u : Addr) (tid cid : ℤ) (va : ℕ) (m : Machine) : Index Ending := do
  let tc ← findFrame u tid m
  let fc ← findFrame u cid m
  match tc, fc with
  | some tc, some fc => return frameL2MapAt tc fc va m
  | _, _ => return .ret ERR [] m

def sysFrameMap (fuel : ℕ) (u : Addr) (tid cid : ℤ) (va : ℕ) (cache : Bool) (m : Machine) : Index Ending := do
  let tc ← findFrame u tid m
  let fc ← findFrame u cid m
  match tc, fc with
  | some tc, some fc => return frameMapAt fuel tc fc va cache m
  | _, _ => return .ret ERR [] m

def sysFrameUnmap (fuel : ℕ) (u : Addr) (tid nid : ℤ) (va : ℕ) (m : Machine) : Index Ending := do
  let tc ← findFrame u tid m
  let fc ← procFindCapType u nid 0 0 m.kernel
  match tc, fc with
  | some tc, some fc => return frameUnmapAt fuel tc fc va m
  | _, _ => return .ret ERR [] m

def nextProcScan (i : ℕ) : ℕ → Option Addr → Kernel → Index (Option (Kernel × Option Addr))
  | 0, _, _ => return none
  | _ + 1, none, k => return some (k, none)
  | fuel + 1, some p, k => do
    let n := (k.proc p).snext
    if (k.proc p).state = .ready then
      if (k.proc p).ts > minTimeSlice then return some (k, some p)
      else do
        touch (.ready i)
        nextProcScan i fuel n (addToListTail (other k i) p (removeFromList (current k i) p k))
    else do
      touch (.ready i)
      nextProcScan i fuel n (removeFromList (current k i) p k)

def nextProcFrom (systick : ℤ) : ℕ → ℕ → Kernel → Index (Option (Kernel × Option Addr))
  | 0, _, _ => return none
  | _ + 1, 0, k => return some (k, none)
  | fuel + 1, i + 1, k => do
    touch (.ready i)
    match ← nextProcScan i fuel (k.queue (current k i)).head k with
    | none => return none
    | some (k, some p) => return some (k, some p)
    | some (k, none) => do
      let k := { k with q := Function.update k.q i ((k.q i + 1) % 2) }
      match refill systick fuel (k.queue (current k i)).head k with
      | none => return none
      | some k =>
        if (k.queue (current k i)).head = none then nextProcFrom systick fuel i k
        else nextProcFrom systick fuel (i + 1) k

def nextProc (systick : ℤ) (fuel : ℕ) (k : Kernel) : Index (Option (Kernel × Option Addr)) :=
  nextProcFrom systick fuel priorityMax k

def requeue (u : Addr) (k : Kernel) : Index Kernel :=
  if (k.proc u).state ≠ .ready then return k.setProc u { k.proc u with ts := 0 }
  else if (k.proc u).slist = none then do
    touch (.ready (k.proc u).priority)
    return addToListTail (current k (k.proc u).priority) u k
  else return k

def chargeUp (n : Option Addr) (passed : ℕ) (k : Kernel) : Index Kernel :=
  match k.up with
  | none => return k
  | some u => requeue u (donate n u (charge u passed k))

def choose (systick : ℤ) (fuel : ℕ) (n : Option Addr) (k : Kernel) : Index (Option (Kernel × Option Addr)) :=
  match n with
  | none => nextProc systick fuel k
  | some n =>
    if (k.proc n).state = .ready then
      if (k.proc n).ts > minTimeSlice then return some (k, some n)
      else if (k.proc n).slist = none then do
        touch (.ready (k.proc n).priority)
        nextProc systick fuel (addToListTail (other k (k.proc n).priority) n k)
      else nextProc systick fuel k
    else nextProc systick fuel k

def schedule (systick : ℤ) (fuel : ℕ) (n : Option Addr) (passed : ℕ) (k : Kernel) : Index (Option Kernel) := do
  let k ← chargeUp n passed k
  match ← choose systick fuel n k with
  | some (k, some p) => return some { k with up := some p }
  | _ => return none

def ofOutcome (m : Machine) (x : Index Outcome) : Index Ending := do
  let x ← x
  return .ofOutcome m x

def ofResult (m : Machine) (x : Index Result) : Index Ending := do
  let x ← x
  return .ofResult m x

def body (systick : ℤ) (fuel : ℕ) (u : Addr) (m : Machine) : SysCall → Index Ending
  | .yield => return .ofOutcome m (exec fuel u .yield m.kernel)
  | .exit => return .ofOutcome m (exec fuel u .exit m.kernel)
  | .objCreate fid nid => objCreate fuel u fid nid m
  | .objRetype cid type n => ofResult m (sysObjRetype systick u cid type n m.kernel)
  | .objSplit cid nid => ofResult m (sysObjSplit u cid nid m.kernel)
  | .objMerge cidL cidH => ofResult m (sysObjMerge u cidL cidH m.kernel)
  | .mesg dest rq cid => ofOutcome m (sysMesg u dest rq cid m.kernel)
  | .recv dest cid => ofOutcome m (sysRecv fuel u dest cid m.kernel)
  | .reply dest pid b cid => ofOutcome m (sysReply fuel u dest pid b cid m.kernel)
  | .signal dest s => ofOutcome m (sysSignal u dest s m.kernel)
  | .endpointConnect cid nid => ofResult m (sysEndpointConnect u cid nid m.kernel)
  | .endpointBind cid => ofOutcome m (sysEndpointBind u cid m.kernel)
  | .endpointUnbind cid => ofOutcome m (sysEndpointUnbind u cid m.kernel)
  | .procSetup cid vspace clist eid => ofResult m (sysProcSetup u cid vspace clist eid m.kernel)
  | .procSetPriority cid priority => ofOutcome m (sysProcSetPriority u cid priority m.kernel)
  | .procStart cid => ofOutcome m (sysProcStart u cid m.kernel)
  | .intrInit cid irqn => ofOutcome m (sysIntrInit u cid irqn m.kernel)
  | .intrConnect iid eid s => ofOutcome m (sysIntrConnect u iid eid s m.kernel)
  | .intrAck iid => ofOutcome m (sysIntrAck u iid m.kernel)
  | .frameSetup cid type pa len => ofResult m (sysFrameSetup u cid type pa len m.kernel)
  | .frameInfo cid => ofOutcome m (sysFrameInfo u cid m.kernel)
  | .frameL1Setup cid => sysFrameL1Setup u cid m
  | .frameL2Map tid cid va => sysFrameL2Map u tid cid va m
  | .frameMap tid cid va cache => sysFrameMap fuel u tid cid va cache m
  | .frameUnmap tid nid va => sysFrameUnmap fuel u tid nid va m

def call (systick : ℤ) (fuel : ℕ) (u : Addr) (m : Machine) (c : SysCall) : Index Ending := do
  let x ← body systick fuel u m c
  return if (m.kernel.proc u).capRoot = none ∧ ∃ cid ∈ c.lookups u m.kernel, cid / 4096 < clistCaps then .astray else x

def turn (systick : ℤ) (fuel : ℕ) (u : Addr) (m : Machine) : Turn → Index Ending
  | .call c => if (m.kernel.proc u).label = .user then call systick fuel u m c else return .stuck
  | .resume => return .ofOutcome m (Sys.resume fuel u m.kernel)
  | .interrupt e s => ofOutcome m (signal u e s m.kernel)

def switch (systick : ℤ) (fuel passed : ℕ) : Ending → Index (Option Kernel)
  | .sched n m => schedule systick fuel n passed m.kernel
  | _ => return none

section Values

variable {u p e o : Addr} {k : Kernel} {m : Machine} {cid nid dest pid type : ℤ} {n fuel passed i : ℕ} {systick : ℤ}
variable {usable : ℕ → Bool} {rq : Bytes} {s : BitVec 32} {slot next : Option Addr}

@[simp]
theorem val_touch {a : Access} : (touch a).val = () := (rfl)

@[simp]
theorem val_object {c : Addr} : (object c k).val = capObj k.mem c := (rfl)

theorem procFindCap_val : (procFindCap u cid k).val = Sys.procFindCap u cid k := by
  unfold procFindCap Sys.procFindCap
  cases hl : (k.proc u).capRoot with
  | none =>
    simp only [Traced.val_ite]
    split_ifs <;> rfl
  | some l =>
    simp only [Traced.val_ite, Traced.val_bind, Traced.val_pure, rootCaps, caps, Traced.val_of, val_object]

theorem findTyped_val : (findTyped u cid usable n k).val = Sys.findTyped u cid usable n k := by
  unfold findTyped Sys.findTyped
  rw [Traced.val_bind, procFindCap_val]
  cases Sys.procFindCap u cid k with
  | none => rfl
  | some c => simp only [Traced.val_ite, Traced.val_bind, Traced.val_pure, val_object]

theorem procFindCapType_val {perm : ℕ} : (procFindCapType u cid perm n k).val = Sys.procFindCapType u cid perm n k := by
  unfold procFindCapType Sys.procFindCapType
  rw [Traced.val_bind, procFindCap_val]
  cases Sys.procFindCap u cid k with
  | none => rfl
  | some c =>
    simp only [Traced.val_ite, Traced.val_bind, Traced.val_pure, val_object]
    split_ifs <;> first | rfl | tauto

theorem findFrame_val : (findFrame u cid m).val = Sys.findFrame u cid m := procFindCapType_val

theorem findEndpoint_val {perm : ℕ} : (findEndpoint u cid perm k).val = Sys.findEndpoint u cid perm k := by
  unfold findEndpoint Sys.findEndpoint
  rw [Traced.val_bind, findTyped_val, Traced.val_pure]
  unfold Sys.findTyped
  cases Sys.procFindCap u cid k with
  | none => rfl
  | some c =>
    by_cases h : capPerm k.mem c &&& perm = 0
    · simp [h]
    · simp only [h, ne_eq, not_false_eq_true, decide_true, Bool.true_eq_false, if_false]
      split_ifs <;> rfl

theorem findEndpointAny_val : (findEndpointAny u cid k).val = Sys.findEndpointAny u cid k := by
  unfold findEndpointAny Sys.findEndpointAny
  rw [Traced.val_bind, findTyped_val, Traced.val_pure]
  unfold Sys.findTyped
  cases Sys.procFindCap u cid k with
  | none => rfl
  | some c =>
    by_cases h : capPerm k.mem c &&& capRead = 0 ∧ capPerm k.mem c &&& capWrite = 0
    · simp [h]
    · simp only [h, not_false_eq_true, decide_true, Bool.true_eq_false, if_false]
      split_ifs <;> rfl

theorem findObject_val : (findObject u cid k).val = Sys.findObject u cid k := by
  unfold findObject Sys.findObject
  rw [Traced.val_bind, procFindCap_val]
  cases Sys.procFindCap u cid k <;> rfl

theorem objInit_val : (objInit systick n o i k).val = Sys.objInit systick n o i k := (rfl)

theorem sysObjRetype_val : (sysObjRetype systick u cid type n k).val = Sys.sysObjRetype systick u cid type n k := by
  unfold sysObjRetype Sys.sysObjRetype
  rw [Traced.val_ite, Traced.val_bind, findTyped_val]
  unfold Sys.findTyped
  by_cases hrange : type < 0 ∨ objTypeN < type
  · rw [if_pos hrange, if_pos hrange]
    rfl
  · rw [if_neg hrange, if_neg hrange]
    cases Sys.procFindCap u cid k with
    | none => rfl
    | some c =>
      by_cases h : capPerm k.mem c = 0
      · simp [h]
      · by_cases ht : objType k.mem (capObj k.mem c) ≠ objUntyped
        · simp [h, ht]
        · simp only [h, ht, ne_eq, not_false_eq_true, decide_true, Bool.true_eq_false, if_false, objSize,
            Traced.val_bind, Traced.val_of, Traced.val_ite, Traced.val_pure, objInit_val]

theorem sysObjSplit_val {nid : ℤ} : (sysObjSplit u cid nid k).val = Sys.sysObjSplit u cid nid k := by
  unfold sysObjSplit Sys.sysObjSplit
  rw [Traced.val_bind, findTyped_val]
  unfold Sys.findTyped
  cases Sys.procFindCap u cid k with
  | none => rfl
  | some c =>
    by_cases h : capPerm k.mem c &&& capWrite = 0
    · simp [h]
    · by_cases ht : objType k.mem (capObj k.mem c) ≠ objUntyped
      · simp [h, ht]
      · simp only [h, ht, ne_eq, not_false_eq_true, decide_true, Bool.true_eq_false, if_false, Traced.val_bind,
          procFindCap_val]
        cases Sys.procFindCap u nid k with
        | none => rfl
        | some nc => simp only [Traced.val_ite, Traced.val_pure]

theorem sysObjMerge_val {cidL cidH : ℤ} : (sysObjMerge u cidL cidH k).val = Sys.sysObjMerge u cidL cidH k := by
  unfold sysObjMerge Sys.sysObjMerge
  simp only [Traced.val_bind, procFindCap_val]
  cases Sys.procFindCap u cidL k <;> cases Sys.procFindCap u cidH k <;>
    simp only [Traced.val_ite, Traced.val_bind, Traced.val_pure, val_object]

theorem sysObjCreate_val {fid nid : ℤ} : (sysObjCreate fuel o u fid nid k).val = Sys.sysObjCreate fuel o u fid nid k := by
  unfold sysObjCreate Sys.sysObjCreate
  simp only [Traced.val_bind, procFindCap_val]
  cases Sys.procFindCap u fid k with
  | none => cases Sys.procFindCap u nid k <;> rfl
  | some fc =>
    cases Sys.procFindCap u nid k with
    | none => rfl
    | some nc =>
      simp only [Traced.val_ite, Traced.val_bind, Traced.val_pure, val_object]
      cases isPageDoubled (frameLen k.mem (capObj k.mem fc)) fuel 4096 with
      | none => rfl
      | some b => cases b <;> simp only [Traced.val_ite, Traced.val_pure]

theorem objCreate_val {fid nid : ℤ} : (objCreate fuel u fid nid m).val = Sys.objCreate fuel u fid nid m := by
  unfold objCreate Sys.objCreate
  rw [Traced.val_bind, sysObjCreate_val]
  rcases Sys.sysObjCreate fuel 1 u fid nid m.kernel with _ | ⟨r, _ | ⟨_ | _ | _ | _, _ | ⟨_, _⟩⟩, k⟩ <;> try rfl
  simp only [Traced.val_bind, procFindCap_val]
  cases Sys.procFindCap u fid m.kernel with
  | none => rfl
  | some fc =>
    simp only [Traced.val_bind, val_object]
    unfold Mapping.andThen
    cases kernelMap (framePa m.kernel.mem (capObj m.kernel.mem fc)) _ true m with
    | here o m => simp only [Traced.val_bind, Traced.val_pure, sysObjCreate_val]
    | panic => rfl
    | astray => rfl

theorem sysFrameSetup_val {pa len : ℕ} : (sysFrameSetup u cid n pa len k).val = Sys.sysFrameSetup u cid n pa len k := by
  unfold sysFrameSetup Sys.sysFrameSetup
  rw [Traced.val_ite, Traced.val_bind, procFindCap_val]
  cases Sys.procFindCap u cid k with
  | none => rfl
  | some c => simp only [Traced.val_ite, Traced.val_bind, Traced.val_pure, val_object]

theorem procGiveRoot_val {v r : Addr} : (procGiveRoot o v r e k).val = Sys.procGiveRoot o v r e k := (rfl)

theorem sysProcSetup_val {vspace clist eid : ℤ} :
    (sysProcSetup u cid vspace clist eid k).val = Sys.sysProcSetup u cid vspace clist eid k := by
  unfold sysProcSetup Sys.sysProcSetup
  rw [Traced.val_bind, findTyped_val]
  cases Sys.findTyped u cid (fun perm => perm ≠ 0) objProc k with
  | none => rfl
  | some c =>
    simp only [Traced.val_bind, findTyped_val]
    cases Sys.findTyped u vspace readWrite objFrame k with
    | none => rfl
    | some v =>
      simp only [Traced.val_bind, findTyped_val]
      cases Sys.findTyped u clist readWrite objCaplist _ with
      | none => rfl
      | some r =>
        simp only [Traced.val_bind, findTyped_val]
        cases Sys.findTyped u eid (fun perm => perm &&& capWrite ≠ 0) objEndpoint _ with
        | none => rfl
        | some e => simp only [Traced.val_bind, Traced.val_pure, procGiveRoot_val]

theorem sysEndpointConnect_val {nid : ℤ} : (sysEndpointConnect u cid nid k).val = Sys.sysEndpointConnect u cid nid k := by
  unfold sysEndpointConnect Sys.sysEndpointConnect
  rw [Traced.val_bind, findTyped_val]
  unfold Sys.findTyped
  cases Sys.procFindCap u cid k with
  | none => rfl
  | some c =>
    by_cases h : capPerm k.mem c &&& capRead = 0 ∧ capPerm k.mem c &&& capWrite = 0
    · simp [h]
    · by_cases ht : objType k.mem (capObj k.mem c) ≠ objEndpoint
      · simp [h, ht]
      · simp only [h, ht, not_false_eq_true, decide_true, Bool.true_eq_false, if_false, Traced.val_bind,
          procFindCap_val]
        cases Sys.procFindCap u nid k with
        | none => rfl
        | some nc => simp only [Traced.val_ite, Traced.val_pure]

theorem procReady_val : (procReady p k).val = Sys.procReady p k := by
  unfold procReady Sys.procReady
  simp only [Traced.val_ite, Traced.val_bind, Traced.val_pure]

theorem mesg_val : (mesg u e rq slot k).val = Sys.mesg u e rq slot k := by
  unfold mesg Sys.mesg
  simp only
  generalize enqueueWaiting u e _ = k
  cases (k.endpoint e).rwait <;> simp only [Traced.val_bind, Traced.val_pure, procReady_val]

theorem reply_val : (reply fuel u e pid rq slot k).val = Sys.reply fuel u e pid rq slot k := by
  unfold reply Sys.reply
  rcases findWaiting (fun x => x.state = .blockReply && x.pid = pid) fuel (k.endpoint e).waiting.head k with
    _ | _ | p
  · rfl
  · rfl
  · simp only [Traced.val_bind, Traced.val_pure, procReady_val] <;> rfl

theorem signal_val : (signal u e s k).val = Sys.signal u e s k := by
  unfold signal Sys.signal
  cases (k.endpoint e).bound with
  | none =>
    simp only
    generalize k.setEndpoint e _ = k
    cases (k.endpoint e).rwait <;> simp only [Traced.val_bind, Traced.val_pure, procReady_val]
  | some p => simp only [Traced.val_ite, Traced.val_bind, Traced.val_pure, procReady_val]

theorem sysMesg_val : (sysMesg u dest rq cid k).val = Sys.sysMesg u dest rq cid k := by
  unfold sysMesg Sys.sysMesg
  rw [Traced.val_bind, findEndpoint_val]
  cases Sys.findEndpoint u dest capWrite k with
  | none => rfl
  | some e =>
    simp only [Traced.val_ite, Traced.val_bind, mesg_val, procFindCap_val]
    cases Sys.procFindCap u cid k <;> simp only [mesg_val, Traced.val_pure]

theorem sysRecv_val : (sysRecv fuel u dest cid k).val = Sys.sysRecv fuel u dest cid k := by
  unfold sysRecv Sys.sysRecv
  rw [Traced.val_bind, findEndpoint_val]
  cases Sys.findEndpoint u dest capRead k with
  | none => rfl
  | some e =>
    simp only [Traced.val_ite, Traced.val_bind, Traced.val_pure, procFindCap_val]
    cases Sys.procFindCap u cid k <;> rfl

theorem sysReply_val : (sysReply fuel u dest pid rq cid k).val = Sys.sysReply fuel u dest pid rq cid k := by
  unfold sysReply Sys.sysReply
  rw [Traced.val_bind, findEndpoint_val]
  cases Sys.findEndpoint u dest capRead k with
  | none => rfl
  | some e =>
    simp only [Traced.val_ite, Traced.val_bind, reply_val, procFindCap_val]
    cases Sys.procFindCap u cid k <;> simp only [Traced.val_ite, reply_val, Traced.val_pure]

theorem sysSignal_val : (sysSignal u dest s k).val = Sys.sysSignal u dest s k := by
  unfold sysSignal Sys.sysSignal
  rw [Traced.val_bind, findEndpoint_val]
  cases Sys.findEndpoint u dest capWrite k with
  | none => rfl
  | some e => exact signal_val

theorem sysEndpointBind_val : (sysEndpointBind u cid k).val = Sys.sysEndpointBind u cid k := by
  unfold sysEndpointBind Sys.sysEndpointBind
  rw [Traced.val_bind, findEndpointAny_val]
  cases Sys.findEndpointAny u cid k <;> rfl

theorem sysEndpointUnbind_val : (sysEndpointUnbind u cid k).val = Sys.sysEndpointUnbind u cid k := by
  unfold sysEndpointUnbind Sys.sysEndpointUnbind
  rw [Traced.val_bind, findEndpointAny_val]
  cases Sys.findEndpointAny u cid k <;> rfl

theorem procSetPriority_val : (procSetPriority p n k).val = Sys.procSetPriority p n k := by
  unfold procSetPriority Sys.procSetPriority
  simp only
  generalize k.setProc p _ = k
  cases (k.proc p).slist <;> rfl

theorem sysProcSetPriority_val : (sysProcSetPriority u cid n k).val = Sys.sysProcSetPriority u cid n k := by
  unfold sysProcSetPriority Sys.sysProcSetPriority
  rw [Traced.val_bind, findTyped_val]
  cases Sys.findTyped u cid (fun perm => perm ≠ 0) objProc k with
  | none => rfl
  | some c =>
    simp only [Traced.val_bind, procSetPriority_val]
    rfl

theorem sysProcStart_val : (sysProcStart u cid k).val = Sys.sysProcStart u cid k := by
  unfold sysProcStart Sys.sysProcStart
  rw [Traced.val_bind, findObject_val]
  cases Sys.findObject u cid k with
  | none => rfl
  | some o => simp only [Traced.val_ite, Traced.val_bind, Traced.val_pure, procReady_val]

theorem sysIntrInit_val : (sysIntrInit u cid n k).val = Sys.sysIntrInit u cid n k := by
  unfold sysIntrInit Sys.sysIntrInit
  rw [Traced.val_ite, Traced.val_bind, findObject_val]
  cases Sys.findObject u cid k with
  | none => rfl
  | some o =>
    simp only [Traced.val_ite, Traced.val_bind, Traced.val_pure] <;> rfl

theorem sysIntrConnect_val {iid eid : ℤ} : (sysIntrConnect u iid eid n k).val = Sys.sysIntrConnect u iid eid n k := by
  unfold sysIntrConnect Sys.sysIntrConnect
  simp only [Traced.val_bind, procFindCap_val]
  cases Sys.procFindCap u iid k <;> cases Sys.procFindCap u eid k <;>
    simp only [Traced.val_ite, Traced.val_bind, Traced.val_pure, val_object]

theorem sysIntrAck_val : (sysIntrAck u cid k).val = Sys.sysIntrAck u cid k := by
  unfold sysIntrAck Sys.sysIntrAck
  rw [Traced.val_bind, findObject_val]
  cases Sys.findObject u cid k with
  | none => rfl
  | some o => simp only [Traced.val_ite, Traced.val_bind, Traced.val_pure]

theorem sysFrameInfo_val : (sysFrameInfo u cid k).val = Sys.sysFrameInfo u cid k := by
  unfold sysFrameInfo Sys.sysFrameInfo
  rw [Traced.val_bind, procFindCapType_val]
  cases Sys.procFindCapType u cid (capWrite ||| capRead) objFrame k <;> rfl

theorem sysFrameL1Setup_val : (sysFrameL1Setup u cid m).val = Sys.sysFrameL1Setup u cid m := by
  unfold sysFrameL1Setup Sys.sysFrameL1Setup
  rw [Traced.val_bind, findFrame_val]
  cases Sys.findFrame u cid m <;> rfl

theorem sysFrameL2Map_val {tid : ℤ} : (sysFrameL2Map u tid cid n m).val = Sys.sysFrameL2Map u tid cid n m := by
  unfold sysFrameL2Map Sys.sysFrameL2Map
  simp only [Traced.val_bind, findFrame_val]
  cases Sys.findFrame u tid m <;> cases Sys.findFrame u cid m <;> rfl

theorem sysFrameMap_val {tid : ℤ} {cache : Bool} :
    (sysFrameMap fuel u tid cid n cache m).val = Sys.sysFrameMap fuel u tid cid n cache m := by
  unfold sysFrameMap Sys.sysFrameMap
  simp only [Traced.val_bind, findFrame_val]
  cases Sys.findFrame u tid m <;> cases Sys.findFrame u cid m <;> rfl

theorem sysFrameUnmap_val {tid : ℤ} : (sysFrameUnmap fuel u tid cid n m).val = Sys.sysFrameUnmap fuel u tid cid n m := by
  unfold sysFrameUnmap Sys.sysFrameUnmap
  simp only [Traced.val_bind, findFrame_val, procFindCapType_val]
  cases Sys.findFrame u tid m <;> cases Sys.procFindCapType u cid 0 0 m.kernel <;> rfl

theorem ofOutcome_val {x : Index Outcome} : (ofOutcome m x).val = .ofOutcome m x.val := (rfl)

theorem ofResult_val {x : Index Result} : (ofResult m x).val = .ofResult m x.val := (rfl)

theorem body_val {c : SysCall} : (body systick fuel u m c).val = c.body systick fuel u m := by
  cases c with
  | yield | exit => rfl
  | objCreate fid nid => exact objCreate_val
  | objRetype cid type n => exact ofResult_val.trans (congrArg _ sysObjRetype_val)
  | objSplit cid nid => exact ofResult_val.trans (congrArg _ sysObjSplit_val)
  | objMerge cidL cidH => exact ofResult_val.trans (congrArg _ sysObjMerge_val)
  | mesg dest rq cid => exact ofOutcome_val.trans (congrArg _ sysMesg_val)
  | recv dest cid => exact ofOutcome_val.trans (congrArg _ sysRecv_val)
  | reply dest pid b cid => exact ofOutcome_val.trans (congrArg _ sysReply_val)
  | signal dest s => exact ofOutcome_val.trans (congrArg _ sysSignal_val)
  | endpointConnect cid nid => exact ofResult_val.trans (congrArg _ sysEndpointConnect_val)
  | endpointBind cid => exact ofOutcome_val.trans (congrArg _ sysEndpointBind_val)
  | endpointUnbind cid => exact ofOutcome_val.trans (congrArg _ sysEndpointUnbind_val)
  | procSetup cid vspace clist eid => exact ofResult_val.trans (congrArg _ sysProcSetup_val)
  | procSetPriority cid priority => exact ofOutcome_val.trans (congrArg _ sysProcSetPriority_val)
  | procStart cid => exact ofOutcome_val.trans (congrArg _ sysProcStart_val)
  | intrInit cid irqn => exact ofOutcome_val.trans (congrArg _ sysIntrInit_val)
  | intrConnect iid eid s => exact ofOutcome_val.trans (congrArg _ sysIntrConnect_val)
  | intrAck iid => exact ofOutcome_val.trans (congrArg _ sysIntrAck_val)
  | frameSetup cid type pa len => exact ofResult_val.trans (congrArg _ sysFrameSetup_val)
  | frameInfo cid => exact ofOutcome_val.trans (congrArg _ sysFrameInfo_val)
  | frameL1Setup cid => exact sysFrameL1Setup_val
  | frameL2Map tid cid va => exact sysFrameL2Map_val
  | frameMap tid cid va cache => exact sysFrameMap_val
  | frameUnmap tid nid va => exact sysFrameUnmap_val

theorem turn_val {t : Turn} : (turn systick fuel u m t).val = t.run systick fuel u m := by
  cases t with
  | call c =>
    unfold turn Turn.run SysCall.run
    rw [Traced.val_ite]
    unfold call
    rw [Traced.val_bind, body_val]
    rfl
  | resume => rfl
  | interrupt e s => exact ofOutcome_val.trans (congrArg _ signal_val)

end Values

end Index

end Agatha.Sys
