import Agatha.Sys.IpcRuns

namespace Agatha.Sys

open Kernel Library

def Schedules (systick : ℤ) (n : Option Addr) (k k' : Kernel) : Prop :=
  ∃ fuel passed, schedule systick fuel n passed k = some k'

def Outcome.Scheduling : Outcome → Prop
  | .ret _ _ k => Sys.Scheduling k
  | .sched _ k => Sys.Scheduling k
  | _ => True

section Calls

variable {receiver : Addr → Addr} {k k' : Kernel} {h : List Event} {W : Addr → List Addr}
variable {u p e : Addr} {rq m : Bytes} {o n : Option Addr} {s : BitVec 32} {fuel : ℕ} {pid : ℤ}
variable {systick : ℤ}

theorem Scheduling.setProc (hk : Scheduling k) (x : Proc) (hs : x.slist = (k.proc p).slist)
    (hn : x.snext = (k.proc p).snext) (hv : x.sprev = (k.proc p).sprev)
    (hpr : x.priority = (k.proc p).priority)
    (hr : x.state = .ready → (k.proc p).state = .ready) : Scheduling (k.setProc p x) := by
  have hslist : ∀ r, ((k.setProc p x).proc r).slist = (k.proc r).slist := by
    intro r
    apply setProc_keeps
    exact hs
  have hready : ∀ r, ((k.setProc p x).proc r).state = .ready → (k.proc r).state = .ready := by
    intro r hrr
    rw [setProc_proc] at hrr
    split_ifs at hrr with hrp
    · rw [hrp]
      exact hr hrr
    · exact hrr
  refine ⟨hk.queues.setProc x hs hn hv hpr, ?_, hk.registered.above, ?_, hk.registered.running⟩
  · intro r hrr hup
    rw [hslist]
    exact hk.lost r (hready r hrr) hup
  · intro r hrr
    rw [hslist] at hrr
    exact hk.registered.queued r (hrr.imp id (hready r))

theorem Scheduling.setEndpoint (hk : Scheduling k) (y : Endpoint) :
    Scheduling (k.setEndpoint e y) := by
  obtain ⟨⟨⟨L, hL⟩, hown, hside, hprio⟩, hlost, habove, hqueued, hrunning⟩ := hk
  exact ⟨⟨⟨L, hL.dll, hL.mem_iff⟩, hown, hside, hprio⟩, hlost, habove, hqueued, hrunning⟩

theorem Scheduling.setMem (hk : Scheduling k) (mem : Bytes) : Scheduling { k with mem := mem } := by
  obtain ⟨⟨⟨L, hL⟩, hown, hside, hprio⟩, hlost, habove, hqueued, hrunning⟩ := hk
  exact ⟨⟨⟨L, hL.dll, hL.mem_iff⟩, hown, hside, hprio⟩, hlost, habove, hqueued, hrunning⟩

theorem callSchedule_scheduling (hk : Scheduling k) (l : Context) :
    (callSchedule u l n k).Scheduling :=
  hk.setProc _ rfl rfl rfl rfl id

theorem enqueueWaiting_scheduling (hk : Scheduling k) : Scheduling (enqueueWaiting u e k) := by
  have hu : Scheduling (k.setProc u { k.proc u with wprev := (k.endpoint e).waiting.tail }) :=
    hk.setProc _ rfl rfl rfl rfl id
  unfold enqueueWaiting
  simp only
  apply Scheduling.setEndpoint
  refine Scheduling.setProc ?_ _ rfl rfl rfl rfl id
  split
  · exact hu.setProc _ rfl rfl rfl rfl id
  · exact hu.setEndpoint _

theorem unlink_scheduling (hk : Scheduling k) :
    Scheduling (unlinkPrev e p (unlinkNext e p k)) := by
  have hnext : ∀ {k}, Scheduling k → Scheduling (unlinkNext e p k) := by
    intro k hk
    unfold unlinkNext
    split
    · exact hk.setProc _ rfl rfl rfl rfl id
    · exact hk.setEndpoint _
  have hprev : ∀ {k}, Scheduling k → Scheduling (unlinkPrev e p k) := by
    intro k hk
    unfold unlinkPrev
    split
    · exact hk.setProc _ rfl rfl rfl rfl id
    · exact hk.setEndpoint _
  exact hprev (hnext hk)

theorem mesg_scheduling (hk : Scheduling k) (hi : Ipc receiver k h W) :
    (mesg u e rq o k).Scheduling := by
  have hblock : Scheduling (k.setProc u
      { k.proc u with m := rq, give := o, state := .blockSend }) :=
    hk.setProc _ rfl rfl rfl rfl fun hf => by cases hf
  have hq := enqueueWaiting_scheduling (u := u) (e := e) hblock
  unfold mesg
  simp only
  split
  · rename_i p hp
    apply callSchedule_scheduling
    apply procReady_scheduling hq
    rw [(enqueueWaiting_keeps e).2] at hp
    have hre := (hi.receiving.rwait e p).mp hp
    rw [enqueueWaiting_frame.1]
    exact hi.made.started p fun hf => by rw [(hi.made.idle p hf).1] at hre; cases hre
  · exact callSchedule_scheduling hq _

theorem endpointGetPending_scheduling {x : Event} (hk : Scheduling k)
    (hf : endpointGetPending fuel u e o k = .found x k') : Scheduling k' := by
  unfold endpointGetPending at hf
  split_ifs at hf
  · cases hf
    exact hk.setEndpoint _
  · split at hf
    · cases hf
    · cases hf
    · rename_i q hq
      have hblock : Scheduling (k.setProc q { k.proc q with state := .blockReply }) :=
        hk.setProc _ rfl rfl rfl rfl fun hf => by cases hf
      simp only at hf
      split at hf
      · cases hf
        exact hblock
      · split_ifs at hf
        · cases hf
          exact hblock
        · split at hf
          · cases hf
          · cases hf
            exact hblock.setMem _

theorem recvLoop_scheduling (hk : Scheduling k) : (recvLoop fuel u e o k).Scheduling := by
  unfold recvLoop
  by_cases hb : (k.proc u).boundSignal ≠ 0
  · rw [if_pos hb]
    exact hk.setProc _ rfl rfl rfl rfl id
  · rw [if_neg hb]
    cases hg : endpointGetPending fuel u e o k with
    | panic => trivial
    | stuck => trivial
    | found x k' => exact (endpointGetPending_scheduling hk hg).setEndpoint _
    | nothing =>
      simp only
      split_ifs
      · trivial
      · apply callSchedule_scheduling
        exact (hk.setEndpoint _).setProc _ rfl rfl rfl rfl fun hf => by cases hf

theorem reply_scheduling (hk : Scheduling k) (hi : Ipc receiver k h W) :
    (reply fuel u e pid m o k).Scheduling := by
  unfold reply
  split
  · trivial
  · exact hk
  · rename_i q hw
    obtain ⟨ys, zs, hW, hq, -⟩ := findWaiting_spec (hi.waiting.lists.dll e).chain hw
    have hqs : (k.proc q).state = .blockReply := by simpa using (Bool.and_eq_true_iff.mp hq).1
    have hmade := hi.made.started q fun hf => by rw [hf] at hqs; cases hqs
    have hframe : (unlinkPrev e q (unlinkNext e q k)).procs = k.procs := by
      unfold unlinkPrev unlinkNext
      cases (k.proc q).wprev <;> simp only <;> split <;> rfl
    have hset : Scheduling ((unlinkPrev e q (unlinkNext e q k)).setProc q
        { (unlinkPrev e q (unlinkNext e q k)).proc q with m := m }) :=
      (unlink_scheduling hk).setProc _ rfl rfl rfl rfl id
    rw [← hframe] at hmade
    simp only
    apply callSchedule_scheduling
    split
    · exact procReady_scheduling (hset.setMem _) hmade
    · exact procReady_scheduling hset hmade

theorem signal_scheduling (hk : Scheduling k) (hi : Ipc receiver k h W) :
    (signal u e s k).Scheduling := by
  unfold signal
  simp only
  split
  · rename_i p hp
    have hset : Scheduling (k.setProc p
        { k.proc p with boundSignal := (k.proc p).boundSignal ||| s }) :=
      hk.setProc _ rfl rfl rfl rfl id
    split_ifs with hb
    · apply callSchedule_scheduling
      apply procReady_scheduling hset
      rw [setProc_proc_same] at hb
      exact hi.made.started p fun hf => by
        have hb' : (k.proc p).state = .blockRecv := hb
        rw [hf] at hb'
        cases hb'
    · exact hset
  · split
    · rename_i p hp
      apply callSchedule_scheduling
      apply procReady_scheduling (hk.setEndpoint _)
      rw [setEndpoint_endpoint_same] at hp
      have hre := (hi.receiving.rwait e p).mp hp
      exact hi.made.started p fun hf => by rw [(hi.made.idle p hf).1] at hre; cases hre
    · exact hk.setEndpoint _

theorem exec_scheduling {op : Op} (hk : Scheduling k) (hi : Ipc receiver k h W) :
    (exec fuel u op k).Scheduling := by
  cases op with
  | mesg e rq o => exact mesg_scheduling hk hi
  | recv e o =>
    change (recv fuel u e o k).Scheduling
    unfold recv
    split_ifs
    · exact hk
    · exact recvLoop_scheduling hk
  | reply e pid m o => exact reply_scheduling hk hi
  | signal e s => exact signal_scheduling hk hi
  | bind e =>
    change (endpointBind u e k).Scheduling
    unfold endpointBind
    split_ifs
    · exact hk
    · exact hk.setEndpoint _
  | unbind e =>
    change (endpointUnbind u e k).Scheduling
    unfold endpointUnbind
    split_ifs
    · exact hk
    · exact hk.setEndpoint _
  | yield => exact callSchedule_scheduling hk _
  | exit => exact callSchedule_scheduling (procFault_scheduling hk) _

theorem run_scheduling {op : Op} (hk : Scheduling k) (hi : Ipc receiver k h W) :
    (run fuel u op k).Scheduling := by
  have huser : Scheduling (k.setProc u { k.proc u with label := .user }) :=
    hk.setProc _ rfl rfl rfl rfl id
  unfold run
  split_ifs
  · exact exec_scheduling hk hi
  · unfold resume
    cases (k.proc u).label with
    | recv e o => exact recvLoop_scheduling (huser.setEndpoint _)
    | mesg e => exact huser
    | ret => exact huser
    | user => exact hk

end Calls

section Refinement

variable {receiver : Addr → Addr} {systick : ℤ} {mem : Bytes} {s s' : Kernel × List Event}

theorem Schedules.switches {n : Option Addr} {k k' : Kernel} (hk : Scheduling k)
    (hsched : Schedules systick n k k') : Switches n k k' ∧ Scheduling k' := by
  obtain ⟨fuel, passed, hsched⟩ := hsched
  obtain ⟨honly, p, hup, hready⟩ := schedule_switches hk.queues hsched
  exact ⟨⟨honly, p, hup, (honly.state p).trans hready⟩, schedule_scheduling hk hsched⟩

theorem IpcStep.switches (hs : IpcState receiver s) (hk : Scheduling s.1)
    (hstep : IpcStep (Schedules systick) systick receiver s s') :
    IpcStep Switches systick receiver s s' ∧ Scheduling s'.1 := by
  obtain ⟨⟨W, hi⟩, -⟩ := hs
  cases hstep with
  | make fresh => exact ⟨.make fresh, procInit_scheduling hk fresh⟩
  | start made unstarted => exact ⟨.start made unstarted, procReady_scheduling hk made⟩
  | first idle switch =>
    obtain ⟨hswitch, hk'⟩ := switch.switches hk
    exact ⟨.first idle hswitch, hk'⟩
  | @ret k k' h ev u op fuel r running own runs =>
    have hk' : (run fuel u op k).Scheduling := run_scheduling hk hi
    rw [runs] at hk'
    exact ⟨.ret running own runs, hk'⟩
  | @sched k k' k'' h u op fuel n running own runs switch =>
    have hk' : (run fuel u op k).Scheduling := run_scheduling hk hi
    rw [runs] at hk'
    obtain ⟨hswitch, hk''⟩ := switch.switches hk'
    exact ⟨.sched running own runs hswitch, hk''⟩

theorem IpcReach.switches (hs : IpcReach (Schedules systick) systick receiver mem s) :
    IpcReach Switches systick receiver mem s ∧ Scheduling s.1 := by
  induction hs with
  | refl => exact ⟨.refl, boot_scheduling mem⟩
  | tail _ hstep ih =>
    obtain ⟨hstep', hk'⟩ := hstep.switches ih.1.state ih.2
    exact ⟨ih.1.tail hstep', hk'⟩

end Refinement

end Agatha.Sys
