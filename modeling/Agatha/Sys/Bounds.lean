import Agatha.Sys.Indexing

namespace Agatha.Sys

open Kernel Library Library.Bytes

def CidBounded (u : Addr) (cid : ℤ) (k : Kernel) : Prop :=
  cid / 4096 < clistCaps → (k.proc u).capRoot ≠ none ∧ 0 ≤ cid / 4096 ∧
    (cid % 4096 = clistCaps → procFindCap u cid k = none)

def inUse (perm : ℕ) : Bool := perm ≠ 0
def canWrite (perm : ℕ) : Bool := perm &&& capWrite ≠ 0
def canEither (perm : ℕ) : Bool := ¬ (perm &&& capRead = 0 ∧ perm &&& capWrite = 0)

def RetypeBounded (type : ℤ) (n : ℕ) (o : Addr) (k : Kernel) : Prop :=
  type ≠ objTypeN ∧ (type = objProc → n = 1 → 1224 ≤ untypedLen k.mem o → k.nextpid < maxProcs)

def MergeBounded (cl ch : Addr) (k : Kernel) : Prop :=
  capPerm k.mem cl ≠ 0 ∧ (objType k.mem (capObj k.mem cl) = objUntyped → capPerm k.mem ch ≠ 0)

def ConnectBounded (i e : Addr) (k : Kernel) : Prop :=
  capPerm k.mem i ≠ 0 ∧ (objType k.mem (capObj k.mem i) = objIntr → capPerm k.mem e ≠ 0 ∧
    (objType k.mem (capObj k.mem e) = objEndpoint → capPerm k.mem e &&& capRead ≠ 0 →
      intrIrqn k.mem (capObj k.mem i) < nirq))

/-- Capability numbers are in range, the calls that read the object of a slot without a look at its permissions find it
in use, a type is one of the tables, there is a number left for a process, a priority is a level and an interrupt has a
handler. -/
def SysCall.Bounded (u : Addr) (k : Kernel) : SysCall → Prop
  | .yield | .exit => True
  | .objCreate fid nid => CidBounded u fid k ∧ CidBounded u nid k
  | .objRetype cid type n => ¬ (type < 0 ∨ objTypeN < type) → CidBounded u cid k ∧
      ∀ c, findTyped u cid inUse objUntyped k = some c → RetypeBounded type n (capObj k.mem c) k
  | .objSplit cid nid => CidBounded u cid k ∧
      ∀ c, findTyped u cid canWrite objUntyped k = some c → CidBounded u nid k
  | .objMerge cidL cidH => CidBounded u cidL k ∧ CidBounded u cidH k ∧
      ∀ cl ch, procFindCap u cidL k = some cl → procFindCap u cidH k = some ch → MergeBounded cl ch k
  | .mesg dest _ cid => CidBounded u dest k ∧
      ∀ e, findEndpoint u dest capWrite k = some e → cid ≠ 0 → CidBounded u cid k
  | .recv dest cid => CidBounded u dest k ∧
      ∀ e, findEndpoint u dest capRead k = some e → cid ≠ 0 → CidBounded u cid k
  | .reply dest _ _ cid => CidBounded u dest k ∧
      ∀ e, findEndpoint u dest capRead k = some e → cid ≠ 0 → CidBounded u cid k
  | .signal dest _ => CidBounded u dest k
  | .endpointConnect cid nid => CidBounded u cid k ∧
      ∀ c, findTyped u cid canEither objEndpoint k = some c → CidBounded u nid k
  | .endpointBind cid => CidBounded u cid k
  | .endpointUnbind cid => CidBounded u cid k
  | .procSetup cid vspace clist eid => CidBounded u cid k ∧
      ∀ c, findTyped u cid inUse objProc k = some c → CidBounded u vspace k ∧
      ∀ v, findTyped u vspace readWrite objFrame k = some v → CidBounded u clist k ∧
      ∀ r, findTyped u clist readWrite objCaplist k = some r → CidBounded u eid k
  | .procSetPriority cid priority => CidBounded u cid k ∧
      ∀ c, findTyped u cid inUse objProc k = some c → priority < priorityMax
  | .procStart cid => CidBounded u cid k ∧ NonEmpty u cid k
  | .intrInit cid irqn => (k.proc u).pid = rootPid → CidBounded u cid k ∧ NonEmpty u cid k ∧
      ∀ o, findObject u cid k = some o → objType k.mem o = objIntr → irqn < nirq
  | .intrConnect iid eid _ => CidBounded u iid k ∧ CidBounded u eid k ∧
      ∀ i e, procFindCap u iid k = some i → procFindCap u eid k = some e → ConnectBounded i e k
  | .intrAck iid => CidBounded u iid k ∧ NonEmpty u iid k ∧
      ∀ o, findObject u iid k = some o → objType k.mem o = objIntr → intrIrqn k.mem o / 32 < 32
  | .frameSetup cid _ _ _ => (k.proc u).pid = rootPid → CidBounded u cid k ∧ NonEmpty u cid k
  | .frameInfo cid => CidBounded u cid k
  | .frameL1Setup cid => CidBounded u cid k
  | .frameL2Map tid cid _ => CidBounded u tid k ∧ CidBounded u cid k
  | .frameMap tid cid _ _ => CidBounded u tid k ∧ CidBounded u cid k
  | .frameUnmap tid nid _ => CidBounded u tid k ∧ CidBounded u nid k

def Turn.Bounded (u : Addr) (m : Machine) : Turn → Prop
  | .call c => c.Bounded u m.kernel
  | _ => True

def Levels (k : Kernel) : Prop := EachProc (fun _ priority => priority < priorityMax) k

section Lookups

variable {u p c : Addr} {k : Kernel} {m : Machine} {cid : ℤ} {type perm : ℕ} {usable : ℕ → Bool}

end Lookups

section Objects

variable {u o v r e : Addr} {k : Kernel} {m : Machine} {cid nid cidL cidH vspace clist eid type : ℤ} {n fuel t : ℕ}
variable {systick : ℤ}

end Objects

section Processes

variable {u p e : Addr} {k : Kernel} {m : Machine} {cid pid dest iid eid : ℤ} {n fuel : ℕ} {rq : Bytes}
variable {o : Option Addr} {s : BitVec 32}

theorem Levels.setProc {x : Proc} (h : Levels k) (hx : x.priority < priorityMax) : Levels (k.setProc p x) :=
  EachProc.setProc h hx

end Processes

section Turns

variable {u : Addr} {k k' : Kernel} {m m₀ : Machine} {c : SysCall} {t : Turn} {n : Option Addr}
variable {fuel passed i : ℕ} {systick : ℤ}

end Turns

end Agatha.Sys
