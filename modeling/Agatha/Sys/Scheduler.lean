import Agatha.Sys.State

/-!
The scheduler of `sys/proc.c`. Loops over links and levels count down a `fuel` argument and give
no result when it runs out.
-/

namespace Agatha.Sys

open Kernel

def addToListTail (l : QueueRef) (p : Addr) (k : Kernel) : Kernel :=
  let t := (k.queue l).tail
  let k := k.setProc p { k.proc p with slist := some l, snext := none, sprev := t }
  let k := match t with
    | none => k.setQueue l { k.queue l with head := some p }
    | some t => k.setProc t { k.proc t with snext := some p }
  k.setQueue l { k.queue l with tail := some p }

def joinNext (l : QueueRef) (p : Addr) (k : Kernel) : Kernel :=
  match (k.proc p).sprev with
  | some s => k.setProc s { k.proc s with snext := (k.proc p).snext }
  | none => k.setQueue l { k.queue l with head := (k.proc p).snext }

def joinPrev (l : QueueRef) (p : Addr) (k : Kernel) : Kernel :=
  match (k.proc p).snext with
  | some s => k.setProc s { k.proc s with sprev := (k.proc p).sprev }
  | none => k.setQueue l { k.queue l with tail := (k.proc p).sprev }

def removeFromList (l : QueueRef) (p : Addr) (k : Kernel) : Kernel :=
  joinPrev l p (joinNext l p (k.setProc p { k.proc p with slist := none }))

def current (k : Kernel) (i : ℕ) : QueueRef := (i, k.q i)
def other (k : Kernel) (i : ℕ) : QueueRef := (i, (k.q i + 1) % 2)

/-- The walk of `next_proc` over the current queue of priority `i`, standing at `p`. -/
def nextProcScan (i : ℕ) : ℕ → Option Addr → Kernel → Option (Kernel × Option Addr)
  | 0, _, _ => none
  | _ + 1, none, k => some (k, none)
  | fuel + 1, some p, k =>
    let n := (k.proc p).snext
    if (k.proc p).state = .ready then
      if (k.proc p).ts > minTimeSlice then some (k, some p)
      else nextProcScan i fuel n
        (addToListTail (other k i) p (removeFromList (current k i) p k))
    else nextProcScan i fuel n (removeFromList (current k i) p k)

def refill (systick : ℤ) : ℕ → Option Addr → Kernel → Option Kernel
  | 0, _, _ => none
  | _ + 1, none, k => some k
  | fuel + 1, some p, k =>
    refill systick fuel (k.proc p).snext (k.setProc p { k.proc p with ts := systick })

def nextProcFrom (systick : ℤ) : ℕ → ℕ → Kernel → Option (Kernel × Option Addr)
  | 0, _, _ => none
  | _ + 1, 0, k => some (k, none)
  | fuel + 1, i + 1, k =>
    match nextProcScan i fuel (k.queue (current k i)).head k with
    | none => none
    | some (k, some p) => some (k, some p)
    | some (k, none) =>
      let k := { k with q := Function.update k.q i ((k.q i + 1) % 2) }
      match refill systick fuel (k.queue (current k i)).head k with
      | none => none
      | some k =>
        if (k.queue (current k i)).head = none then nextProcFrom systick fuel i k
        else nextProcFrom systick fuel (i + 1) k

def nextProc (systick : ℤ) (fuel : ℕ) (k : Kernel) : Option (Kernel × Option Addr) :=
  nextProcFrom systick fuel priorityMax k

def int32 (x : ℤ) : ℤ := x.bmod (2 ^ 32)

def charge (u : Addr) (passed : ℕ) (k : Kernel) : Kernel :=
  let t := int32 ((k.proc u).ts - passed)
  k.setProc u { k.proc u with ts := if t < 0 then 0 else t }

def donate (n : Option Addr) (u : Addr) (k : Kernel) : Kernel :=
  match n with
  | some n => k.setProc n { k.proc n with ts := int32 ((k.proc n).ts + (k.proc u).ts) }
  | none => k

def requeue (u : Addr) (k : Kernel) : Kernel :=
  if (k.proc u).state ≠ .ready then k.setProc u { k.proc u with ts := 0 }
  else if (k.proc u).slist = none then addToListTail (current k (k.proc u).priority) u k
  else k

def chargeUp (n : Option Addr) (passed : ℕ) (k : Kernel) : Kernel :=
  match k.up with
  | none => k
  | some u => requeue u (donate n u (charge u passed k))

def choose (systick : ℤ) (fuel : ℕ) (n : Option Addr) (k : Kernel) :
    Option (Kernel × Option Addr) :=
  match n with
  | none => nextProc systick fuel k
  | some n =>
    if (k.proc n).state = .ready then
      if (k.proc n).ts > minTimeSlice then some (k, some n)
      else if (k.proc n).slist = none then
        nextProc systick fuel (addToListTail (other k (k.proc n).priority) n k)
      else nextProc systick fuel k
    else nextProc systick fuel k

def schedule (systick : ℤ) (fuel : ℕ) (n : Option Addr) (passed : ℕ) (k : Kernel) :
    Option Kernel :=
  match choose systick fuel n (chargeUp n passed k) with
  | some (k, some p) => some { k with up := some p }
  -- "no procs to run!"
  | _ => none

def procInit (systick : ℤ) (p : Addr) (k : Kernel) : Kernel :=
  let pid := k.nextpid
  let k := { k with nextpid := k.nextpid + 1, procs := Function.update k.procs pid (some p) }
  k.setProc p { k.proc p with
    label := .user, pid := pid, priority := 0, ts := systick,
    slist := none, sprev := none, snext := none, wprev := none, wnext := none, state := .fault }

def procFault (p : Addr) (k : Kernel) : Kernel :=
  let k := k.setProc p { k.proc p with state := .fault }
  match (k.proc p).slist with
  | some l => removeFromList l p k
  | none => k

def procReady (p : Addr) (k : Kernel) : Kernel :=
  let k := k.setProc p { k.proc p with state := .ready }
  if (k.proc p).slist = none then addToListTail (other k (k.proc p).priority) p k else k

def procSetPriority (p : Addr) (priority : ℕ) (k : Kernel) : Kernel :=
  let priority := if priority > priorityMax then priorityMax else priority
  let k := k.setProc p { k.proc p with priority := priority }
  match (k.proc p).slist with
  | some l => addToListTail (other k priority) p (removeFromList l p k)
  | none => k

end Agatha.Sys
