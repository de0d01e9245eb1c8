import Agatha.Sys.Paging
import Agatha.Sys.IpcSteps

namespace Agatha.Sys

open Kernel Library Library.Bytes

def Ending.ofOutcome (m : Machine) : Outcome → Ending
  | .ret r _ k => .ret r [] { m with kernel := k }
  | .sched n k => .sched n { m with kernel := k }
  | .panic => .panic
  | .stuck => .stuck

def Ending.ofResult (m : Machine) : Result → Ending
  | some (r, _, k) => .ret r [] { m with kernel := k }
  | none => .stuck

/-- `sys_obj_create`, whose checks all come before `kernel_map`, whatever it returns. -/
def objCreate (fuel : ℕ) (u : Addr) (fid nid : ℤ) (m : Machine) : Ending :=
  match sysObjCreate fuel 1 u fid nid m.kernel with
  | some (_, [.mapped _ len], _) =>
    match procFindCap u fid m.kernel with
    | none => .stuck
    | some fc =>
      (kernelMap (framePa m.kernel.mem (capObj m.kernel.mem fc)) len true m).andThen fun o m =>
        .ofResult m (sysObjCreate fuel o u fid nid m.kernel)
  | x => .ofResult m x

def findObject (u : Addr) (cid : ℤ) (k : Kernel) : Option Addr :=
  (procFindCap u cid k).map (capObj k.mem)

def findEndpointAny (u : Addr) (cid : ℤ) (k : Kernel) : Option Addr :=
  match procFindCap u cid k with
  | none => none
  | some c =>
    if capPerm k.mem c &&& capRead = 0 ∧ capPerm k.mem c &&& capWrite = 0 then none
    else if objType k.mem (capObj k.mem c) ≠ objEndpoint then none
    else some (capObj k.mem c)

def sysEndpointBind (u : Addr) (cid : ℤ) (k : Kernel) : Outcome :=
  match findEndpointAny u cid k with
  | none => .ret ERR [] k
  | some l => endpointBind u l k

def sysEndpointUnbind (u : Addr) (cid : ℤ) (k : Kernel) : Outcome :=
  match findEndpointAny u cid k with
  | none => .ret ERR [] k
  | some l => endpointUnbind u l k

def sysProcSetPriority (u : Addr) (cid : ℤ) (priority : ℕ) (k : Kernel) : Outcome :=
  match findTyped u cid (fun perm => perm ≠ 0) objProc k with
  | none => .ret ERR [] k
  | some c => .ret OK [] (procSetPriority (capObj k.mem c) priority k)

def sysProcStart (u : Addr) (cid : ℤ) (k : Kernel) : Outcome :=
  match findObject u cid k with
  | none => .ret ERR [] k
  | some o =>
    if o = 0 then .stuck
    else if objType k.mem o ≠ objProc then .ret ERR [] k
    else .ret OK [] (procReady o (k.setProc o { k.proc o with label := .user }))

def intrIrqn (mem : Bytes) (i : Addr) : ℕ := mem.get32 (i + 8)

def nirq : ℕ := 128

def intrCapClaim (i : ℕ) (k : Kernel) : Option Kernel :=
  if k.userHandlerGiven i then none
  else some { k with userHandlerGiven := Function.update k.userHandlerGiven i true }

def sysIntrInit (u : Addr) (cid : ℤ) (irqn : ℕ) (k : Kernel) : Outcome :=
  if (k.proc u).pid ≠ rootPid then .ret ERR [] k
  else
    match findObject u cid k with
    | none => .ret ERR [] k
    | some o =>
      if o = 0 then .stuck
      else if objType k.mem o ≠ objIntr then .ret ERR [] k
      -- past the table
      else if nirq ≤ irqn then .stuck
      else
        match intrCapClaim irqn k with
        | none => .ret ERR [] k
        | some k => .ret OK [] { k with mem := k.mem.put32 (o + 8) irqn }

def sysIntrConnect (u : Addr) (iid eid : ℤ) (signal : ℕ) (k : Kernel) : Outcome :=
  match procFindCap u iid k, procFindCap u eid k with
  | some i, some e =>
    let oi := capObj k.mem i
    let oe := capObj k.mem e
    if oi = 0 then .stuck
    else if objType k.mem oi ≠ objIntr then .ret ERR [] k
    else if oe = 0 then .stuck
    else if objType k.mem oe ≠ objEndpoint ∨ capPerm k.mem e &&& capRead = 0 then .ret ERR [] k
    else if intrIrqn k.mem oi = 0 then .ret ERR [] k
    else if nirq ≤ intrIrqn k.mem oi then .stuck
    else .ret OK [] { k with mem := (k.mem.put32 (oi + 12) oe).put32 (oi + 16) signal }
  | _, _ => .ret ERR [] k

def sysIntrAck (u : Addr) (iid : ℤ) (k : Kernel) : Outcome :=
  match findObject u iid k with
  | none => .ret ERR [] k
  | some i =>
    if i = 0 then .stuck
    else if objType k.mem i ≠ objIntr then .ret ERR [] k
    -- `irq_enable` has a word for 32 of them
    else if 32 ≤ intrIrqn k.mem i / 32 then .stuck
    else .ret OK [] k

def sysFrameInfo (u : Addr) (cid : ℤ) (k : Kernel) : Outcome :=
  match procFindCapType u cid (capWrite ||| capRead) objFrame k with
  | none => .ret ERR [] k
  | some _ => .ret OK [] k

/-- The calls of `systab` but `sys_pid` and `sys_debug`, which look nothing up and change nothing. The
pointers that a process hands over are left out. -/
inductive SysCall
  | yield
  | exit
  | objCreate (fid nid : ℤ)
  | objRetype (cid type : ℤ) (n : ℕ)
  | objSplit (cid nid : ℤ)
  | objMerge (cidL cidH : ℤ)
  | mesg (dest : ℤ) (rq : Bytes) (cid : ℤ)
  | recv (dest cid : ℤ)
  | reply (dest pid : ℤ) (m : Bytes) (cid : ℤ)
  | signal (dest : ℤ) (s : BitVec 32)
  | endpointConnect (cid nid : ℤ)
  | endpointBind (cid : ℤ)
  | endpointUnbind (cid : ℤ)
  | procSetup (cid vspace clist eid : ℤ)
  | procSetPriority (cid : ℤ) (priority : ℕ)
  | procStart (cid : ℤ)
  | intrInit (cid : ℤ) (irqn : ℕ)
  | intrConnect (iid eid : ℤ) (signal : ℕ)
  | intrAck (iid : ℤ)
  | frameSetup (cid : ℤ) (type pa len : ℕ)
  | frameInfo (cid : ℤ)
  | frameL1Setup (cid : ℤ)
  | frameL2Map (tid cid : ℤ) (va : ℕ)
  | frameMap (tid cid : ℤ) (va : ℕ) (cache : Bool)
  | frameUnmap (tid nid : ℤ) (va : ℕ)

def SysCall.body (systick : ℤ) (fuel : ℕ) (u : Addr) (m : Machine) : SysCall → Ending
  | .yield => .ofOutcome m (exec fuel u .yield m.kernel)
  | .exit => .ofOutcome m (exec fuel u .exit m.kernel)
  | .objCreate fid nid => Sys.objCreate fuel u fid nid m
  | .objRetype cid type n => .ofResult m (sysObjRetype systick u cid type n m.kernel)
  | .objSplit cid nid => .ofResult m (sysObjSplit u cid nid m.kernel)
  | .objMerge cidL cidH => .ofResult m (sysObjMerge u cidL cidH m.kernel)
  | .mesg dest rq cid => .ofOutcome m (sysMesg u dest rq cid m.kernel)
  | .recv dest cid => .ofOutcome m (sysRecv fuel u dest cid m.kernel)
  | .reply dest pid b cid => .ofOutcome m (sysReply fuel u dest pid b cid m.kernel)
  | .signal dest s => .ofOutcome m (sysSignal u dest s m.kernel)
  | .endpointConnect cid nid => .ofResult m (sysEndpointConnect u cid nid m.kernel)
  | .endpointBind cid => .ofOutcome m (sysEndpointBind u cid m.kernel)
  | .endpointUnbind cid => .ofOutcome m (sysEndpointUnbind u cid m.kernel)
  | .procSetup cid vspace clist eid =>
    .ofResult m (sysProcSetup u cid vspace clist eid m.kernel)
  | .procSetPriority cid priority => .ofOutcome m (sysProcSetPriority u cid priority m.kernel)
  | .procStart cid => .ofOutcome m (sysProcStart u cid m.kernel)
  | .intrInit cid irqn => .ofOutcome m (sysIntrInit u cid irqn m.kernel)
  | .intrConnect iid eid s => .ofOutcome m (sysIntrConnect u iid eid s m.kernel)
  | .intrAck iid => .ofOutcome m (sysIntrAck u iid m.kernel)
  | .frameSetup cid type pa len => .ofResult m (sysFrameSetup u cid type pa len m.kernel)
  | .frameInfo cid => .ofOutcome m (sysFrameInfo u cid m.kernel)
  | .frameL1Setup cid => sysFrameL1Setup u cid m
  | .frameL2Map tid cid va => sysFrameL2Map u tid cid va m
  | .frameMap tid cid va cache => sysFrameMap fuel u tid cid va cache m
  | .frameUnmap tid nid va => sysFrameUnmap fuel u tid nid va m

def SysCall.lookups (u : Addr) (k : Kernel) : SysCall → List ℤ
  | .yield | .exit => []
  | .objRetype cid type _ => if type < 0 ∨ objTypeN < type then [] else [cid]
  | .intrInit cid _ => if (k.proc u).pid ≠ rootPid then [] else [cid]
  | .frameSetup cid _ _ _ => if (k.proc u).pid ≠ rootPid then [] else [cid]
  | .objCreate cid cid' | .objMerge cid cid' | .intrConnect cid cid' _ => [cid, cid']
  | .frameL2Map cid cid' _ | .frameMap cid cid' _ _ | .frameUnmap cid cid' _ => [cid, cid']
  | .objSplit cid _ | .endpointConnect cid _ | .mesg cid _ _ | .recv cid _ | .reply cid _ _ _ => [cid]
  | .signal cid _ | .endpointBind cid | .endpointUnbind cid | .procSetup cid _ _ _ => [cid]
  | .procSetPriority cid _ | .procStart cid | .intrAck cid | .frameInfo cid | .frameL1Setup cid => [cid]

/-- A process without a `cap_root` that looks a number up is astray: `proc_find_cap` takes `caps` of
what is at address 0. -/
def SysCall.run (systick : ℤ) (fuel : ℕ) (u : Addr) (m : Machine) (c : SysCall) : Ending :=
  if (m.kernel.proc u).capRoot = none ∧ ∃ cid ∈ c.lookups u m.kernel, cid / 4096 < clistCaps then .astray
  else c.body systick fuel u m

theorem SysCall.run_of {E : Ending → Prop} {systick : ℤ} {fuel : ℕ} {u : Addr} {m : Machine}
    {c : SysCall} (ha : E .astray) (h : E (c.body systick fuel u m)) : E (c.run systick fuel u m) := by
  unfold SysCall.run
  split
  · exact ha
  · exact h

theorem SysCall.run_body {systick : ℤ} {fuel : ℕ} {u : Addr} {m : Machine} {c : SysCall}
    (h : c.run systick fuel u m ≠ .astray) : c.run systick fuel u m = c.body systick fuel u m := by
  unfold SysCall.run at h ⊢
  split
  · rename_i hnone
    rw [if_pos hnone] at h
    exact absurd rfl h
  · rfl

/-- What happens next: the running process makes a call or goes on with the one it slept in, or a
device interrupts and signals an endpoint. -/
inductive Turn
  | call (c : SysCall)
  | resume
  | interrupt (e : Addr) (s : BitVec 32)

def Turn.run (systick : ℤ) (fuel : ℕ) (u : Addr) (m : Machine) : Turn → Ending
  | .call c =>
    if (m.kernel.proc u).label = .user then c.run systick fuel u m else .stuck
  | .resume => .ofOutcome m (Sys.resume fuel u m.kernel)
  | .interrupt e s => .ofOutcome m (Sys.signal u e s m.kernel)

theorem Turn.run_still {Q : Machine → Prop} {systick : ℤ} {fuel : ℕ} {u : Addr} {m : Machine}
    {t : Turn} (hQ : Windowed Q) (hK : ∀ m k, Q m → Q { m with kernel := k }) (h : Q m) :
    (t.run systick fuel u m).All Q := by
  have houtcome : ∀ x, (Ending.ofOutcome m x).All Q := by
    intro x
    cases x <;> first | exact hK m _ h | trivial
  have hresult : ∀ m y, Q m → (Ending.ofResult m y).All Q := by
    intro m y h
    cases y <;> first | exact hK m _ h | trivial
  have hW : Written Q := fun m mem h => hK m _ h
  cases t with
  | resume => exact houtcome _
  | interrupt e s => exact houtcome _
  | call c =>
    unfold Turn.run
    simp only
    split
    · apply SysCall.run_of trivial
      cases c with
      | objCreate fid nid =>
        change (objCreate fuel u fid nid m).All _
        unfold objCreate
        split
        · split
          · trivial
          · exact kernelMap_all Ending.all_tolerant hQ h fun _ _ h => hresult _ _ h
        · exact hresult _ _ h
      | frameL1Setup cid => exact sysFrameL1Setup_all hQ hW h
      | frameL2Map tid cid va => exact sysFrameL2Map_all hQ hW h
      | frameMap tid cid va cache => exact sysFrameMap_all hQ hW h
      | frameUnmap tid nid va => exact sysFrameUnmap_all hQ hW h
      | yield => exact houtcome (callSchedule u .ret none m.kernel)
      | exit => exact houtcome (callSchedule u .user none (procFault u m.kernel))
      | _ => first | exact houtcome _ | exact hresult _ _ h
    · trivial

/-- The processor goes to a process that can run, or the scheduler only reorders its queues. -/
inductive TurnStep (P : Addr → Machine → Turn → Prop) (systick : ℤ) : Machine → Machine → Prop
  | ret {m m' : Machine} {u : Addr} {t : Turn} {fuel : ℕ} {r : ℤ} {wrote : List (ℕ × ℕ)}
      (running : m.kernel.up = some u) (meets : P u m t)
      (runs : t.run systick fuel u m = .ret r wrote m') : TurnStep P systick m m'
  | sched {m m' : Machine} {k : Kernel} {u : Addr} {t : Turn} {fuel : ℕ} {n : Option Addr}
      (running : m.kernel.up = some u) (meets : P u m t)
      (runs : t.run systick fuel u m = .sched n m') (switch : SchedOnly m'.kernel k) :
      TurnStep P systick m { m' with kernel := k }

def TurnReach (P : Addr → Machine → Turn → Prop) (systick : ℤ) : Machine → Machine → Prop :=
  Relation.ReflTransGen (TurnStep P systick)

theorem TurnReach.all {P : Addr → Machine → Turn → Prop} {Q : Machine → Prop} {systick : ℤ}
    {m₀ m : Machine} (h : Q m₀)
    (hturn : ∀ u m t fuel, P u m t → Q m → (t.run systick fuel u m).All Q)
    (hsched : ∀ m k, Q m → SchedOnly m.kernel k → Q { m with kernel := k })
    (hs : TurnReach P systick m₀ m) : Q m := by
  induction hs with
  | refl => exact h
  | @tail m _ _ hstep ih =>
    cases hstep with
    | @ret _ u t fuel _ _ _ meets runs =>
      have hrun := hturn u m t fuel meets ih
      rw [runs] at hrun
      exact hrun
    | @sched m' k u t fuel _ _ meets runs switch =>
      have hrun := hturn u m t fuel meets ih
      rw [runs] at hrun
      exact hsched m' k hrun switch

end Agatha.Sys
