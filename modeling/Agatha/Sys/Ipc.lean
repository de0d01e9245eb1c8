import Agatha.Sys.Scheduler

/-!
Messages and signals between processes, from `sys/sys.c`. A kernel path runs until it returns to
its caller, with what it hands over, or calls `schedule`.
-/

namespace Agatha.Sys

open Kernel Library

inductive Event
  | call (p e : Addr) (pid : ℤ) (rq : Bytes)
  | request (r e : Addr) (pid : ℤ) (m : Bytes)
  | reply (r e : Addr) (pid : ℤ) (m : Bytes)
  | answer (p : Addr) (pid : ℤ) (rp : Bytes)
  | returned (p : Addr) (pid : ℤ)
  | signal (e : Addr) (bound : Option Addr) (s : BitVec 32)
  | boundSignal (r e : Addr) (s : BitVec 32)
  | endpointSignal (r e : Addr) (s : BitVec 32)

/-- `ev` is what the caller finds in its buffers when it is back. -/
inductive Outcome
  | ret (r : ℤ) (ev : List Event) (k : Kernel)
  | sched (n : Option Addr) (k : Kernel)
  | panic
  | stuck

def moveCap (src dst : Addr) (mem : Bytes) : Bytes :=
  let mem := mem.put32 dst (mem.get32 src)
  let mem := mem.put32 (dst + 4) (mem.get32 (src + 4))
  let mem := mem.put32 src 0
  mem.put32 (src + 4) 0

/-- The walk along `wnext` that `endpoint_get_pending` and `reply` make, standing at `p`. -/
def findWaiting (test : Proc → Bool) : ℕ → Option Addr → Kernel → Option (Option Addr)
  | 0, _, _ => none
  | _ + 1, none, _ => some none
  | fuel + 1, some p, k =>
    if test (k.proc p) then some (some p) else findWaiting test fuel (k.proc p).wnext k

inductive Pending
  | found (ev : Event) (k : Kernel)
  | nothing
  | panic
  | stuck

def endpointGetPending (fuel : ℕ) (u e : Addr) (o : Option Addr) (k : Kernel) : Pending :=
  if (k.endpoint e).signal ≠ 0 then
    .found (.endpointSignal u e (k.endpoint e).signal)
      (k.setEndpoint e { k.endpoint e with signal := 0 })
  else
    match findWaiting (fun x => x.state = .blockSend) fuel (k.endpoint e).waiting.head k with
    | none => .stuck
    | some none => .nothing
    | some (some p) =>
      let k := k.setProc p { k.proc p with state := .blockReply }
      let ev := Event.request u e (k.proc p).pid (k.proc p).m
      match (k.proc p).give with
      | none => .found ev k
      | some g =>
        if k.mem.get32 g = 0 then .found ev k
        else
          match o with
          | none => .panic
          | some o => .found ev { k with mem := moveCap g o k.mem }

def callSchedule (u : Addr) (l : Context) (n : Option Addr) (k : Kernel) : Outcome :=
  .sched n (k.setProc u { k.proc u with label := l })

def recvLoop (fuel : ℕ) (u e : Addr) (o : Option Addr) (k : Kernel) : Outcome :=
  if (k.proc u).boundSignal ≠ 0 then
    .ret OK [.boundSignal u e (k.proc u).boundSignal]
      (k.setProc u { k.proc u with boundSignal := 0 })
  else
    match endpointGetPending fuel u e o k with
    | .panic => .panic
    | .stuck => .stuck
    | .found ev k => .ret OK [ev] (k.setEndpoint e { k.endpoint e with rwait := none })
    | .nothing =>
      if (k.endpoint e).rwait ≠ none then .panic
      else
        let k := k.setEndpoint e { k.endpoint e with rwait := some u }
        let k := k.setProc u { k.proc u with state := .blockRecv }
        callSchedule u (.recv e o) none k

def recv (fuel : ℕ) (u e : Addr) (o : Option Addr) (k : Kernel) : Outcome :=
  if (k.endpoint e).bound ≠ none ∧ (k.endpoint e).bound ≠ some u then .ret ERR [] k
  else recvLoop fuel u e o k

def unlinkNext (e p : Addr) (k : Kernel) : Kernel :=
  match (k.proc p).wprev with
  | some s => k.setProc s { k.proc s with wnext := (k.proc p).wnext }
  | none => k.setEndpoint e { k.endpoint e with
      waiting := { (k.endpoint e).waiting with head := (k.proc p).wnext } }

def unlinkPrev (e p : Addr) (k : Kernel) : Kernel :=
  match (k.proc p).wnext with
  | some s => k.setProc s { k.proc s with wprev := (k.proc p).wprev }
  | none => k.setEndpoint e { k.endpoint e with
      waiting := { (k.endpoint e).waiting with tail := (k.proc p).wprev } }

def reply (fuel : ℕ) (u e : Addr) (pid : ℤ) (m : Bytes) (o : Option Addr) (k : Kernel) : Outcome :=
  match findWaiting (fun x => x.state = .blockReply && x.pid = pid) fuel
      (k.endpoint e).waiting.head k with
  | none => .stuck
  | some none => .ret ERR [] k
  | some (some p) =>
    let k := unlinkPrev e p (unlinkNext e p k)
    let k := k.setProc p { k.proc p with m := m }
    let k := match o, (k.proc p).give with
      | some o, some g => { k with mem := moveCap o g k.mem }
      | _, _ => k
    callSchedule u .ret (some p) (procReady p k)

def enqueueWaiting (u e : Addr) (k : Kernel) : Kernel :=
  let t := (k.endpoint e).waiting.tail
  let k := k.setProc u { k.proc u with wprev := t }
  let k := match t with
    | some s => k.setProc s { k.proc s with wnext := some u }
    | none => k.setEndpoint e { k.endpoint e with
        waiting := { (k.endpoint e).waiting with head := some u } }
  let k := k.setProc u { k.proc u with wnext := none }
  k.setEndpoint e { k.endpoint e with
    waiting := { (k.endpoint e).waiting with tail := some u } }

def mesg (u e : Addr) (rq : Bytes) (o : Option Addr) (k : Kernel) : Outcome :=
  let k := k.setProc u { k.proc u with m := rq, give := o, state := .blockSend }
  let k := enqueueWaiting u e k
  match (k.endpoint e).rwait with
  | some p => callSchedule u (.mesg e) (some p) (procReady p k)
  | none => callSchedule u (.mesg e) none k

def signal (u e : Addr) (s : BitVec 32) (k : Kernel) : Outcome :=
  match (k.endpoint e).bound with
  | some p =>
    let k := k.setProc p { k.proc p with boundSignal := (k.proc p).boundSignal ||| s }
    if (k.proc p).state = .blockRecv then callSchedule u .ret (some p) (procReady p k)
    else .ret OK [] k
  | none =>
    let k := k.setEndpoint e { k.endpoint e with signal := (k.endpoint e).signal ||| s }
    match (k.endpoint e).rwait with
    | some p => callSchedule u .ret (some p) (procReady p k)
    | none => .ret OK [] k

def endpointBind (u e : Addr) (k : Kernel) : Outcome :=
  if (k.endpoint e).bound ≠ none then .ret ERR [] k
  else .ret OK [] (k.setEndpoint e { k.endpoint e with bound := some u })

def endpointUnbind (u e : Addr) (k : Kernel) : Outcome :=
  if (k.endpoint e).bound ≠ some u then .ret ERR [] k
  else .ret OK [] (k.setEndpoint e { k.endpoint e with bound := none })

/-- What a process in user mode does next. `yield` is also the timer interrupt, and `exit` any
fault of the process. -/
inductive Op
  | mesg (e : Addr) (rq : Bytes) (o : Option Addr)
  | recv (e : Addr) (o : Option Addr)
  | reply (e : Addr) (pid : ℤ) (m : Bytes) (o : Option Addr)
  | signal (e : Addr) (s : BitVec 32)
  | bind (e : Addr)
  | unbind (e : Addr)
  | yield
  | exit

def exec (fuel : ℕ) (u : Addr) (op : Op) (k : Kernel) : Outcome :=
  match op with
  | .mesg e rq o => mesg u e rq o k
  | .recv e o => recv fuel u e o k
  | .reply e pid m o => reply fuel u e pid m o k
  | .signal e s => signal u e s k
  | .bind e => endpointBind u e k
  | .unbind e => endpointUnbind u e k
  | .yield => callSchedule u .ret none k
  | .exit => callSchedule u .user none (procFault u k)

def resume (fuel : ℕ) (u : Addr) (k : Kernel) : Outcome :=
  let k' := k.setProc u { k.proc u with label := .user }
  match (k.proc u).label with
  | .recv e o => recvLoop fuel u e o (k'.setEndpoint e { k'.endpoint e with rwait := none })
  | .mesg _ => .ret OK [.answer u (k.proc u).pid (k.proc u).m] k'
  | .ret => .ret OK [] k'
  | .user => .ret OK [] k

def run (fuel : ℕ) (u : Addr) (op : Op) (k : Kernel) : Outcome :=
  if (k.proc u).label = .user then exec fuel u op k else resume fuel u k

def Outcome.refused : Outcome → Bool
  | .ret r _ _ => r = ERR
  | _ => false

def Op.asks (u : Addr) (k : Kernel) (refused : Bool) : Op → List Event
  | .mesg e rq _ => [.call u e (k.proc u).pid rq]
  | .reply e pid m _ => if refused then [] else [.reply u e pid m]
  | .signal e s => [.signal e (k.endpoint e).bound s]
  | _ => []

def asked (u : Addr) (op : Op) (k : Kernel) (refused : Bool) : List Event :=
  if (k.proc u).label = .user then op.asks u k refused else []

def mesgReturned (u : Addr) (op : Op) (k : Kernel) : List Event :=
  match (k.proc u).label, op with
  | .mesg _, _ => [.returned u (k.proc u).pid]
  | .user, .mesg _ _ _ => [.returned u (k.proc u).pid]
  | _, _ => []

end Agatha.Sys
