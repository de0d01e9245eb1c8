import Agatha.Sys.Calls

namespace Agatha.Sys

open Kernel Library Library.Bytes

def EachProc (P : ℤ → ℕ → Prop) (k : Kernel) : Prop := ∀ p, P (k.proc p).pid (k.proc p).priority

def Outcome.Each (P : ℤ → ℕ → Prop) : Outcome → Prop
  | .ret _ _ k => EachProc P k
  | .sched _ k => EachProc P k
  | .panic => True
  | .stuck => True

section Messages

variable {P : ℤ → ℕ → Prop} {k k' : Kernel} {u p e : Addr} {x : Proc} {fuel : ℕ}
variable {o n : Option Addr} {rq m : Bytes} {pid cid dest : ℤ} {s : BitVec 32}

theorem EachProc.setProc (h : EachProc P k) (hx : P x.pid x.priority) : EachProc P (k.setProc p x) := by
  intro r
  rw [setProc_proc]
  split_ifs
  · exact hx
  · exact h r

theorem EachProc.sched (h : EachProc P k) (hk : SchedOnly k k') : EachProc P k' := by
  intro p
  rw [hk.proc p]
  exact h p

theorem EachProc.procReady (h : EachProc P k) : EachProc P (procReady p k) := by
  have h₁ : EachProc P (k.setProc p { k.proc p with state := .ready }) := h.setProc (h p)
  exact h₁.sched SchedOnly.procReady

theorem EachProc.procFault (h : EachProc P k) : EachProc P (procFault p k) := by
  have h₁ : EachProc P (k.setProc p { k.proc p with state := .fault }) := h.setProc (h p)
  exact h₁.sched SchedOnly.procFault

theorem EachProc.setEndpoint {y : Endpoint} (h : EachProc P k) : EachProc P (k.setEndpoint e y) := h

theorem callSchedule_each {l : Context} (h : EachProc P k) :
    (callSchedule u l n k).Each P := h.setProc (h u)

theorem endpointGetPending_each {y : Event} (h : EachProc P k)
    (hr : endpointGetPending fuel u e o k = .found y k') : EachProc P k' := by
  unfold endpointGetPending at hr
  by_cases hs : (k.endpoint e).signal ≠ 0
  · rw [if_pos hs] at hr
    cases hr
    exact h
  · rw [if_neg hs] at hr
    split at hr
    · cases hr
    · cases hr
    · rename_i p _
      have h₁ : EachProc P (k.setProc p { k.proc p with state := .blockReply }) := h.setProc (h p)
      simp only at hr
      split at hr
      · cases hr
        exact h₁
      · split_ifs at hr
        · cases hr
          exact h₁
        · cases o with
          | none => cases hr
          | some b =>
            cases hr
            exact h₁

theorem recvLoop_each (h : EachProc P k) : (recvLoop fuel u e o k).Each P := by
  unfold recvLoop
  by_cases hb : (k.proc u).boundSignal ≠ 0
  · rw [if_pos hb]
    exact h.setProc (h u)
  · rw [if_neg hb]
    split
    · trivial
    · trivial
    · rename_i hr
      have h₁ := endpointGetPending_each h hr
      exact h₁.setEndpoint
    · by_cases hw : (k.endpoint e).rwait ≠ none
      · rw [if_pos hw]
        trivial
      · rw [if_neg hw]
        have h₁ : EachProc P (k.setEndpoint e { k.endpoint e with rwait := some u }) := h
        have h₂ : EachProc P ((k.setEndpoint e { k.endpoint e with rwait := some u }).setProc u
            { k.proc u with state := .blockRecv }) := h₁.setProc (h u)
        exact callSchedule_each h₂

theorem recv_each (h : EachProc P k) : (recv fuel u e o k).Each P := by
  unfold recv
  split_ifs
  · exact h
  · exact recvLoop_each h

theorem enqueueWaiting_each (h : EachProc P k) : EachProc P (enqueueWaiting u e k) := by
  have h₁ : ∀ t, EachProc P (k.setProc u { k.proc u with wprev := t }) := fun t => h.setProc (h u)
  unfold enqueueWaiting
  cases ht : (k.endpoint e).waiting.tail with
  | some s =>
    have h₂ : EachProc P ((k.setProc u { k.proc u with wprev := some s }).setProc s
        { (k.setProc u { k.proc u with wprev := some s }).proc s with wnext := some u }) :=
      (h₁ _).setProc (h₁ (some s) s)
    exact h₂.setProc (h₂ u)
  | none =>
    have h₂ : EachProc P ((k.setProc u { k.proc u with wprev := none }).setEndpoint e
        { k.endpoint e with waiting := { (k.endpoint e).waiting with head := some u } }) := h₁ _
    exact h₂.setProc (h₂ u)

theorem mesg_each (h : EachProc P k) : (mesg u e rq o k).Each P := by
  have h₁ : EachProc P (enqueueWaiting u e
      (k.setProc u { k.proc u with m := rq, give := o, state := .blockSend })) :=
    enqueueWaiting_each (h.setProc (h u))
  unfold mesg
  simp only
  split
  · exact callSchedule_each h₁.procReady
  · exact callSchedule_each h₁

theorem unlink_each (h : EachProc P k) : EachProc P (unlinkPrev e p (unlinkNext e p k)) := by
  have h₁ : EachProc P (unlinkNext e p k) := by
    unfold unlinkNext
    split
    · exact h.setProc (h _)
    · exact h
  unfold unlinkPrev
  split
  · exact h₁.setProc (h₁ _)
  · exact h₁

theorem reply_each (h : EachProc P k) : (reply fuel u e pid m o k).Each P := by
  unfold reply
  split
  · trivial
  · exact h
  · rename_i p _
    have h₁ : EachProc P (unlinkPrev e p (unlinkNext e p k)) := unlink_each h
    generalize unlinkPrev e p (unlinkNext e p k) = k₁ at h₁
    have h₂ : EachProc P (k₁.setProc p { k₁.proc p with m := m }) := h₁.setProc (h₁ p)
    apply callSchedule_each
    apply EachProc.procReady
    split
    · exact h₂
    · exact h₂

theorem signal_each (h : EachProc P k) : (signal u e s k).Each P := by
  unfold signal
  split
  · rename_i p _
    have h₁ : EachProc P
        (k.setProc p { k.proc p with boundSignal := (k.proc p).boundSignal ||| s }) :=
      h.setProc (h p)
    simp only
    split_ifs
    · exact callSchedule_each h₁.procReady
    · exact h₁
  · have h₁ : EachProc P (k.setEndpoint e { k.endpoint e with
        signal := (k.endpoint e).signal ||| s }) := h
    simp only
    split
    · exact callSchedule_each h₁.procReady
    · exact h₁

theorem resume_each (h : EachProc P k) : (resume fuel u k).Each P := by
  have h₁ : EachProc P (k.setProc u { k.proc u with label := .user }) := h.setProc (h u)
  unfold resume
  simp only
  split
  · exact recvLoop_each h₁.setEndpoint
  · exact h₁
  · exact h₁
  · exact h

theorem sysMesg_each (h : EachProc P k) : (sysMesg u dest rq cid k).Each P := by
  unfold sysMesg
  split
  · exact h
  · split_ifs
    · exact mesg_each h
    · split
      · exact h
      · exact mesg_each h

theorem sysRecv_each (h : EachProc P k) : (sysRecv fuel u dest cid k).Each P := by
  unfold sysRecv
  split
  · exact h
  · split_ifs
    · exact recv_each h
    · split
      · exact h
      · split_ifs
        · exact h
        · exact recv_each h

theorem sysReply_each (h : EachProc P k) : (sysReply fuel u dest pid m cid k).Each P := by
  unfold sysReply
  split
  · exact h
  · split_ifs
    · exact reply_each h
    · split
      · exact h
      · split_ifs
        · exact reply_each h
        · exact reply_each h

theorem sysSignal_each (h : EachProc P k) : (sysSignal u dest s k).Each P := by
  unfold sysSignal
  split
  · exact h
  · exact signal_each h

end Messages

def Result.Each (P : ℤ → ℕ → Prop) : Result → Prop
  | some (_, _, k) => EachProc P k
  | none => True

section Turns

variable {P : ℤ → ℕ → Prop} {k : Kernel} {m m' : Machine} {u : Addr} {x : Outcome} {y : Result}
variable {systick cid nid type : ℤ} {n fuel : ℕ} {mem : Bytes} {t : Turn} {c : SysCall}

theorem EachProc.setMem (h : EachProc P k) : EachProc P { k with mem := mem } := h

theorem Ending.each_outcome (h : x.Each P) : (Ending.ofOutcome m x).All fun m => EachProc P m.kernel := by
  cases x <;> exact h

theorem Ending.each_result (h : y.Each P) : (Ending.ofResult m y).All fun m => EachProc P m.kernel := by
  cases y <;> exact h

theorem objInit_each {o len : ℕ} (h : EachProc P k) (hnew : P k.nextpid 0) :
    EachProc P (objInit systick n o len k) := by
  unfold objInit
  split
  · exact h
  · exact h
  · exact h
  · intro r
    unfold procInit
    rw [setProc_proc]
    split_ifs with hr
    · exact hnew
    · change P ((k.setProc o .zero).proc r).pid ((k.setProc o .zero).proc r).priority
      rw [setProc_proc, if_neg hr]
      exact h r
  · exact h
  · exact h

theorem sysObjRetype_each {len : ℕ} (h : EachProc P k) (hnew : P k.nextpid 0) :
    Result.Each P (sysObjRetype systick u cid type len k) := by
  unfold sysObjRetype
  split
  · exact h
  · split
    · exact h
    · simp only
      repeat' first | exact h | trivial | split
      exact objInit_each h hnew

theorem sysObjSplit_each (h : EachProc P k) : Result.Each P (sysObjSplit u cid nid k) := by
  unfold sysObjSplit
  repeat' first | exact h | split | simp only

theorem sysObjMerge_each (h : EachProc P k) : Result.Each P (sysObjMerge u cid nid k) := by
  unfold sysObjMerge
  repeat' first | exact h | trivial | split | simp only

theorem sysObjCreate_each {o : ℕ} (h : EachProc P k) :
    Result.Each P (sysObjCreate fuel o u cid nid k) := by
  unfold sysObjCreate
  repeat' first | exact h | trivial | split | simp only

theorem sysEndpointConnect_each (h : EachProc P k) :
    Result.Each P (sysEndpointConnect u cid nid k) := by
  unfold sysEndpointConnect
  repeat' first | exact h | split

theorem sysFrameSetup_each {ty pa len : ℕ} (h : EachProc P k) :
    Result.Each P (sysFrameSetup u cid ty pa len k) := by
  unfold sysFrameSetup
  repeat' first | exact h | trivial | split | simp only

theorem procGiveRoot_each {o v r e : ℕ} (h : EachProc P k) : EachProc P (procGiveRoot o v r e k) := by
  have h₁ : EachProc P (k.setProc o { k.proc o with capRoot := some (capObj k.mem r) }) :=
    h.setProc (h o)
  exact h₁.setMem

theorem sysProcSetup_each {vspace clist eid : ℤ} (h : EachProc P k) :
    Result.Each P (sysProcSetup u cid vspace clist eid k) := by
  unfold sysProcSetup
  split
  · exact h
  · split
    · exact h
    · rename_i c _ _ v _
      have h₁ : EachProc P (k.setProc (capObj k.mem c)
          { k.proc (capObj k.mem c) with vspace := framePa k.mem (capObj k.mem v) }) :=
        h.setProc (h _)
      simp only
      split
      · exact procGiveRoot_each h₁
      · exact h₁

theorem procSetPriority_each {p priority : ℕ} (h : EachProc P k)
    (hp : ∀ i x, P i x → P i (if priority > priorityMax then priorityMax else priority)) :
    EachProc P (procSetPriority p priority k) := by
  have h₁ : EachProc P (k.setProc p { k.proc p with
      priority := if priority > priorityMax then priorityMax else priority }) :=
    h.setProc (hp _ _ (h p))
  unfold procSetPriority
  simp only
  split
  · exact h₁.sched (SchedOnly.removeFromList.trans SchedOnly.addToListTail)
  · exact h₁

theorem windowed_each : Windowed fun m => EachProc P m.kernel := fun _ _ _ _ h => h

theorem written_each : Written fun m => EachProc P m.kernel := fun _ _ h => h

theorem objCreate_each (h : EachProc P m.kernel) :
    (objCreate fuel u cid nid m).All fun m => EachProc P m.kernel := by
  unfold objCreate
  split
  · split
    · trivial
    · apply kernelMap_all Ending.all_tolerant windowed_each h
      intro _ _ h
      exact Ending.each_result (sysObjCreate_each h)
  · exact Ending.each_result (sysObjCreate_each h)

theorem SysCall.run_each (h : EachProc P m.kernel) (hnew : P m.kernel.nextpid 0)
    (hp : ∀ cid priority, c = .procSetPriority cid priority →
      ∀ i x, P i x → P i (if priority > priorityMax then priorityMax else priority)) :
    (c.run systick fuel u m).All fun m => EachProc P m.kernel := by
  apply SysCall.run_of trivial
  cases c with
  | yield =>
    exact Ending.each_outcome (x := callSchedule u .ret none m.kernel) (callSchedule_each h)
  | exit =>
    exact Ending.each_outcome (x := callSchedule u .user none (procFault u m.kernel))
      (callSchedule_each h.procFault)
  | objCreate fid nid => exact objCreate_each h
  | objRetype cid type n => exact Ending.each_result (sysObjRetype_each h hnew)
  | objSplit cid nid => exact Ending.each_result (sysObjSplit_each h)
  | objMerge cidL cidH => exact Ending.each_result (sysObjMerge_each h)
  | mesg dest rq cid => exact Ending.each_outcome (sysMesg_each h)
  | recv dest cid => exact Ending.each_outcome (sysRecv_each h)
  | reply dest pid b cid => exact Ending.each_outcome (sysReply_each h)
  | signal dest s => exact Ending.each_outcome (sysSignal_each h)
  | endpointConnect cid nid => exact Ending.each_result (sysEndpointConnect_each h)
  | endpointBind cid =>
    apply Ending.each_outcome
    unfold sysEndpointBind Sys.endpointBind
    repeat' first | exact h | split
  | endpointUnbind cid =>
    apply Ending.each_outcome
    unfold sysEndpointUnbind Sys.endpointUnbind
    repeat' first | exact h | split
  | procSetup cid vspace clist eid => exact Ending.each_result (sysProcSetup_each h)
  | procSetPriority cid priority =>
    apply Ending.each_outcome
    unfold sysProcSetPriority
    split
    · exact h
    · exact procSetPriority_each h (hp cid priority rfl)
  | procStart cid =>
    apply Ending.each_outcome
    unfold sysProcStart
    split
    · exact h
    · split_ifs
      · trivial
      · exact h
      · rename_i o _ _ _
        have h₁ : EachProc P (m.kernel.setProc o { m.kernel.proc o with label := .user }) :=
          h.setProc (h o)
        exact h₁.procReady
  | intrInit cid irqn =>
    apply Ending.each_outcome
    unfold sysIntrInit intrCapClaim
    split
    · exact h
    · split
      · exact h
      · split_ifs <;> first | exact h | trivial
  | intrConnect iid eid s =>
    apply Ending.each_outcome
    unfold sysIntrConnect
    repeat' first | exact h | trivial | split | simp only
  | intrAck iid =>
    apply Ending.each_outcome
    unfold sysIntrAck
    repeat' first | exact h | trivial | split
  | frameSetup cid type pa len => exact Ending.each_result (sysFrameSetup_each h)
  | frameInfo cid =>
    apply Ending.each_outcome
    unfold sysFrameInfo
    split <;> exact h
  | frameL1Setup cid => exact sysFrameL1Setup_all windowed_each written_each h
  | frameL2Map tid cid va => exact sysFrameL2Map_all windowed_each written_each h
  | frameMap tid cid va cache => exact sysFrameMap_all windowed_each written_each h
  | frameUnmap tid nid va => exact sysFrameUnmap_all windowed_each written_each h

theorem Turn.run_each (h : EachProc P m.kernel) (hnew : P m.kernel.nextpid 0)
    (hp : ∀ cid priority, t = .call (.procSetPriority cid priority) →
      ∀ i x, P i x → P i (if priority > priorityMax then priorityMax else priority)) :
    (t.run systick fuel u m).All fun m => EachProc P m.kernel := by
  cases t with
  | call c =>
    unfold Turn.run
    simp only
    split_ifs
    · exact SysCall.run_each h hnew fun cid priority hc => hp cid priority (congrArg _ hc)
    · trivial
  | resume => exact Ending.each_outcome (resume_each h)
  | interrupt e s => exact Ending.each_outcome (signal_each h)

end Turns

end Agatha.Sys
