import Agatha.Library.Bytes
import Agatha.Library.LinkedList

namespace Agatha.Sys

open Library

abbrev Addr := ℕ

def priorityMax : ℕ := 16
def maxProcs : ℕ := 16
def minTimeSlice : ℤ := 10
def rootPid : ℤ := 1
def messageLen : ℕ := 64
def OK : ℤ := 0
def ERR : ℤ := -1

inductive ProcState
  | fault
  | ready
  | blockRecv
  | blockSend
  | blockReply
  deriving DecidableEq, Repr

inductive Context
  | user
  -- inside the loop of `recv`, with the slot that accepts a capability
  | recv (e : Addr) (o : Option Addr)
  | mesg (e : Addr)
  -- in a call that has nothing left to do but return
  | ret
  deriving DecidableEq, Repr

structure ProcList where
  head : Option Addr
  tail : Option Addr
  deriving DecidableEq, Repr

abbrev QueueRef := ℕ × ℕ

structure Proc where
  label : Context
  state : ProcState
  pid : ℤ
  priority : ℕ
  ts : ℤ
  slist : Option QueueRef
  sprev : Option Addr
  snext : Option Addr
  vspace : ℕ
  boundSignal : BitVec 32
  m : Bytes
  give : Option Addr
  wprev : Option Addr
  wnext : Option Addr
  capRoot : Option Addr

structure Endpoint where
  signal : BitVec 32
  bound : Option Addr
  rwait : Option Addr
  waiting : ProcList

/-- The kernel's memory. `proc` and `endpoint` hold the fields of process and endpoint objects;
object headers and all other objects, capability lists included, are bytes of `mem`. -/
structure Kernel where
  mem : Bytes
  proc : Addr → Proc
  endpoint : Addr → Endpoint
  queue : QueueRef → ProcList
  q : ℕ → ℕ
  procs : ℕ → Option Addr
  nextpid : ℕ
  up : Option Addr
  userHandlerGiven : ℕ → Bool

def Proc.zero : Proc where
  label := .user
  state := .fault
  pid := 0
  priority := 0
  ts := 0
  slist := none
  sprev := none
  snext := none
  vspace := 0
  boundSignal := 0
  m := fun _ => 0
  give := none
  wprev := none
  wnext := none
  capRoot := none

def Endpoint.init : Endpoint where
  signal := 0
  bound := none
  rwait := none
  waiting := ⟨none, none⟩

def Kernel.boot (mem : Bytes) : Kernel where
  mem := mem
  proc := fun _ => .zero
  endpoint := fun _ => .init
  queue := fun _ => ⟨none, none⟩
  q := fun _ => 0
  procs := fun _ => none
  nextpid := 1
  up := none
  userHandlerGiven := fun _ => false

namespace Kernel

def setProc (k : Kernel) (p : Addr) (x : Proc) : Kernel :=
  { k with proc := Function.update k.proc p x }

def setEndpoint (k : Kernel) (e : Addr) (x : Endpoint) : Kernel :=
  { k with endpoint := Function.update k.endpoint e x }

def setQueue (k : Kernel) (l : QueueRef) (x : ProcList) : Kernel :=
  { k with queue := Function.update k.queue l x }

variable (k : Kernel) (p r e : Addr) (x : Proc) (y : Endpoint) (l : QueueRef) (z : ProcList)

theorem setProc_proc : (k.setProc p x).proc r = if r = p then x else k.proc r :=
  Function.update_apply ..

@[simp] theorem setProc_proc_same : (k.setProc p x).proc p = x := by simp [setProc]

@[simp] theorem setProc_mem : (k.setProc p x).mem = k.mem := rfl
@[simp] theorem setProc_endpoint : (k.setProc p x).endpoint = k.endpoint := rfl
@[simp] theorem setProc_queue : (k.setProc p x).queue = k.queue := rfl
@[simp] theorem setProc_q : (k.setProc p x).q = k.q := rfl
@[simp] theorem setProc_procs : (k.setProc p x).procs = k.procs := rfl
@[simp] theorem setProc_nextpid : (k.setProc p x).nextpid = k.nextpid := rfl
@[simp] theorem setProc_up : (k.setProc p x).up = k.up := rfl

variable {k p x} in
theorem setProc_keeps {β : Type*} (f : Proc → β) (hx : f x = f (k.proc p)) (r : Addr) :
    f ((k.setProc p x).proc r) = f (k.proc r) := by
  rw [setProc_proc]
  split_ifs with hr
  · rw [hx, hr]
  · rfl

theorem setEndpoint_endpoint :
    (k.setEndpoint e y).endpoint r = if r = e then y else k.endpoint r :=
  Function.update_apply ..

@[simp] theorem setEndpoint_endpoint_same : (k.setEndpoint e y).endpoint e = y := by
  simp [setEndpoint]

@[simp] theorem setEndpoint_mem : (k.setEndpoint e y).mem = k.mem := rfl
@[simp] theorem setEndpoint_proc : (k.setEndpoint e y).proc = k.proc := rfl
@[simp] theorem setEndpoint_queue : (k.setEndpoint e y).queue = k.queue := rfl
@[simp] theorem setEndpoint_q : (k.setEndpoint e y).q = k.q := rfl
@[simp] theorem setEndpoint_procs : (k.setEndpoint e y).procs = k.procs := rfl
@[simp] theorem setEndpoint_nextpid : (k.setEndpoint e y).nextpid = k.nextpid := rfl
@[simp] theorem setEndpoint_up : (k.setEndpoint e y).up = k.up := rfl

variable {k e y} in
theorem setEndpoint_keeps {β : Type*} (f : Endpoint → β) (hy : f y = f (k.endpoint e)) (r : Addr) :
    f ((k.setEndpoint e y).endpoint r) = f (k.endpoint r) := by
  rw [setEndpoint_endpoint]
  split_ifs with hr
  · rw [hy, hr]
  · rfl

theorem setQueue_queue {l' : QueueRef} :
    (k.setQueue l z).queue l' = if l' = l then z else k.queue l' :=
  Function.update_apply ..

@[simp] theorem setQueue_queue_same : (k.setQueue l z).queue l = z := by simp [setQueue]

@[simp] theorem setQueue_mem : (k.setQueue l z).mem = k.mem := rfl
@[simp] theorem setQueue_proc : (k.setQueue l z).proc = k.proc := rfl
@[simp] theorem setQueue_endpoint : (k.setQueue l z).endpoint = k.endpoint := rfl
@[simp] theorem setQueue_q : (k.setQueue l z).q = k.q := rfl
@[simp] theorem setQueue_procs : (k.setQueue l z).procs = k.procs := rfl
@[simp] theorem setQueue_nextpid : (k.setQueue l z).nextpid = k.nextpid := rfl
@[simp] theorem setQueue_up : (k.setQueue l z).up = k.up := rfl

end Kernel

end Agatha.Sys
