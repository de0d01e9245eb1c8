import Agatha.Sys.IpcSteps

namespace Agatha.Sys

open Kernel Library Library.LinkedList Library.SignalWord

def Outcome.Keeps (receiver : Addr → Addr) (u : Addr) (h : List Event) : Outcome → Prop
  | .ret _ ev k => (∃ W, Ipc receiver k (h ++ ev) W) ∧ k.up = some u ∧ (k.proc u).state = .ready
  | .sched _ k => ∃ W, Ipc receiver k h W
  | _ => True

section Paths

variable {receiver : Addr → Addr} {k k' : Kernel} {h : List Event} {W : Addr → List Addr}
variable {u p e : Addr} {rq m : Bytes} {o : Option Addr} {s : BitVec 32} {fuel : ℕ} {pid : ℤ}

theorem Active.idle (hu : Active k u) (hup : k.up = some u) (hi : Ipc receiver k h W) :
    (∃ W, Ipc receiver k (h ++ []) W) ∧ k.up = some u ∧ (k.proc u).state = .ready :=
  ⟨⟨W, by rw [List.append_nil]; exact hi⟩, hup, hu.ready⟩

theorem callSchedule_ret {n : Option Addr} {k₀ : Kernel} (hi : Ipc receiver k₀ h W) (hk : SchedOnly k₀ k)
    (hr : (k₀.proc u).recvOn = none) (hm : (k₀.proc u).mesgOn = none) {l : Context}
    (hlr : l.recvOn = none) (hlm : l.mesgOn = none) :
    (callSchedule u l n k).Keeps receiver u h := by
  have hi' := hi.alike hk.alike
  refine ⟨W, hi'.alike ?_⟩
  have hrecv : ∀ p, ((k.setProc u { k.proc u with label := l }).proc p).recvOn =
      (k.proc p).recvOn := by
    intro p
    apply setProc_keeps Proc.recvOn
    exact hlr.trans (hr.symm.trans (hk.alike.recvOn u).symm)
  have hmesg : ∀ p, ((k.setProc u { k.proc u with label := l }).proc p).mesgOn =
      (k.proc p).mesgOn := by
    intro p
    apply setProc_keeps Proc.mesgOn
    exact hlm.trans (hm.symm.trans (hk.alike.mesgOn u).symm)
  constructor
  case toSamePlaces =>
    constructor
    case recvOn => exact hrecv
    case mesgOn => exact hmesg
    case procs | nextpid | rwait | waiting => simp
    all_goals
      intro r
      apply setProc_keeps
      rfl
  case signal => simp
  all_goals
    intro r
    apply setProc_keeps
    rfl

theorem endpointGetPending_found {ev : Event} (hi : Ipc receiver k h W) (hu : Active k u)
    (hr : receiver e = u) (hf : endpointGetPending fuel u e o k = .found ev k') :
    Ipc receiver k' (h ++ [ev]) W ∧ k'.up = k.up ∧ k'.proc u = k.proc u ∧
      (k'.endpoint e).rwait = (k.endpoint e).rwait := by
  unfold endpointGetPending at hf
  split_ifs at hf with hs
  · cases hf
    refine ⟨hi.takeEndpoint hr, rfl, rfl, ?_⟩
    rw [setEndpoint_endpoint_same]
  · cases hw : findWaiting (fun x => x.state = .blockSend) fuel (k.endpoint e).waiting.head k with
    | none => rw [hw] at hf; cases hf
    | some r =>
      have hspec := findWaiting_spec (hi.waiting.lists.dll e).chain hw
      cases r with
      | none => rw [hw] at hf; cases hf
      | some q =>
        obtain ⟨ys, zs, hW, hq, hys⟩ := hspec
        have hqs : (k.proc q).state = .blockSend := by simpa using hq
        have hi' := hi.request hr hW hqs fun p hp => by simpa using hys p hp
        set k₁ := k.setProc q { k.proc q with state := .blockReply } with hk₁
        have hqu : u ≠ q := by
          rintro rfl
          rw [hu.ready] at hqs
          cases hqs
        have hu₁ : k₁.proc u = k.proc u := by rw [hk₁, setProc_proc, if_neg hqu]
        have hpid : (k₁.proc q).pid = (k.proc q).pid := by rw [hk₁, setProc_proc_same]
        have hm : (k₁.proc q).m = (k.proc q).m := by rw [hk₁, setProc_proc_same]
        have hmem : ∀ mem, Ipc receiver { k₁ with mem := mem }
            (h ++ [.request u e (k₁.proc q).pid (k₁.proc q).m]) W := by
          intro mem
          rw [hpid, hm]
          apply hi'.alike
          exact ⟨⟨fun _ => rfl, fun _ => rfl, fun _ => rfl, fun _ => rfl, fun _ => rfl, fun _ => rfl,
            fun _ => rfl, fun _ => rfl, rfl, rfl⟩, fun _ => rfl, fun _ => rfl, fun _ => rfl⟩
        rw [hw] at hf
        simp only at hf
        split at hf
        · cases hf
          exact ⟨hmem k₁.mem, rfl, hu₁, rfl⟩
        · split_ifs at hf
          · cases hf
            exact ⟨hmem k₁.mem, rfl, hu₁, rfl⟩
          · split at hf
            · cases hf
            · cases hf
              exact ⟨hmem _, rfl, hu₁, rfl⟩

theorem endpointGetPending_nothing (hi : Ipc receiver k h W)
    (hf : endpointGetPending fuel u e o k = .nothing) :
    (k.endpoint e).signal = 0 ∧ ∀ q ∈ W e, (k.proc q).state ≠ .blockSend := by
  unfold endpointGetPending at hf
  split_ifs at hf with hs
  refine ⟨not_not.mp hs, ?_⟩
  cases hw : findWaiting (fun x => x.state = .blockSend) fuel (k.endpoint e).waiting.head k with
  | none => rw [hw] at hf; cases hf
  | some r =>
    have hspec := findWaiting_spec (hi.waiting.lists.dll e).chain hw
    cases r with
    | none => exact fun q hq => by simpa using hspec q hq
    | some q =>
      rw [hw] at hf
      simp only at hf
      split at hf
      · cases hf
      · split_ifs at hf
        split at hf <;> cases hf

theorem recvLoop_keeps (hi : Ipc receiver k h W) (hu : Active k u) (hup : k.up = some u)
    (hr : receiver e = u) : (recvLoop fuel u e o k).Keeps receiver u h := by
  unfold recvLoop
  by_cases hb : (k.proc u).boundSignal = 0
  · rw [if_neg (not_not.mpr hb)]
    cases hg : endpointGetPending fuel u e o k with
    | panic => trivial
    | stuck => trivial
    | found ev k' =>
      obtain ⟨hi', hup', hu', hrw⟩ := endpointGetPending_found hi hu hr hg
      refine ⟨⟨W, hi'.alike (Alike.setEndpoint rfl ?_ rfl)⟩, hup'.trans hup, ?_⟩
      · -- nobody else receives here, so there was nothing to clear
        cases hw : (k'.endpoint e).rwait with
        | none => rfl
        | some q =>
          have hq := (hi.receiving.rwait e q).mp (hrw ▸ hw)
          have hqu : u = q := hr.symm.trans (hi.receiving.receives e q hq)
          rw [← hqu, hu.recvOn] at hq
          cases hq
      · rw [setEndpoint_proc, hu']
        exact hu.ready
    | nothing =>
      obtain ⟨hs, hq⟩ := endpointGetPending_nothing hi hg
      simp only
      split_ifs
      · trivial
      · have hi' := hi.sleep (o := o) hu hr ⟨hb, hs, hq⟩
        refine ⟨W, ?_⟩
        convert hi' using 1
        simp [setProc, Function.update_idem]
  · rw [if_pos hb]
    refine ⟨⟨W, hi.takeBound hr⟩, hup, ?_⟩
    rw [setProc_proc_same]
    exact hu.ready

theorem recv_keeps (hi : Ipc receiver k h W) (hu : Active k u) (hup : k.up = some u)
    (hr : receiver e = u) : (recv fuel u e o k).Keeps receiver u h := by
  unfold recv
  split_ifs
  · exact hu.idle hup hi
  · exact recvLoop_keeps hi hu hup hr

theorem Ipc.reply {q : Addr} (hi : Ipc receiver k h W) (hqW : q ∈ W e)
    (hq : (k.proc q).state = .blockReply) : ∃ W', Ipc receiver
      ((unlinkPrev e q (unlinkNext e q k)).setProc q
        { (unlinkPrev e q (unlinkNext e q k)).proc q with m := m, state := .ready })
      (h ++ [.reply u e (k.proc q).pid m]) W' := by
  obtain ⟨hv, hn⟩ := hi.waiting.lists.neighbours_ne hqW
  have hqm : (k.proc q).mesgOn = some e := ((hi.waiting.mem_iff e q).mp hqW).2
  set k₁ := unlinkPrev e q (unlinkNext e q k) with hk₁
  have hproc : ∀ r, k₁.proc r = { k.proc r with
      wnext := if (k.proc q).wprev = some r then (k.proc q).wnext else (k.proc r).wnext
      wprev := if (k.proc q).wnext = some r then (k.proc q).wprev else (k.proc r).wprev } :=
    fun r => unlink_proc hv
  have hframe : k₁.procs = k.procs ∧ k₁.nextpid = k.nextpid := by
    rw [hk₁]
    unfold unlinkPrev unlinkNext
    cases (k.proc q).wprev <;> simp only <;> split <;> exact ⟨rfl, rfl⟩
  have hend : ∀ e', (k₁.endpoint e').signal = (k.endpoint e').signal ∧
      (k₁.endpoint e').rwait = (k.endpoint e').rwait := by
    intro e'
    rw [hk₁, unlink_endpoint hv]
    by_cases he : e' = e
    · rw [if_pos he, he]
      exact ⟨rfl, rfl⟩
    · rw [if_neg he]
      exact ⟨rfl, rfl⟩
  set k₂ := k₁.setProc q { k₁.proc q with m := m, state := .ready } with hk₂
  have hself : k₂.proc q = { k₁.proc q with m := m, state := .ready } := by
    rw [hk₂, setProc_proc_same]
  have hne : ∀ r, r ≠ q → k₂.proc r = k₁.proc r := fun r hr => by rw [hk₂, setProc_proc, if_neg hr]
  have hkeep : ∀ {β : Type} (f : Proc → β), (∀ x m s wn wp,
      f { x with m := m, state := s, wnext := wn, wprev := wp } = f x) →
      ∀ r, f (k₂.proc r) = f (k.proc r) := by
    intro β f hf r
    by_cases hr : r = q
    · rw [hr, hself, hproc q]
      exact hf (k.proc q) m .ready _ _
    · rw [hne r hr, hproc r]
      exact hf (k.proc r) (k.proc r).m (k.proc r).state _ _
  have hstate : ∀ r, r ≠ q → (k₂.proc r).state = (k.proc r).state := fun r hr => by
    rw [hne r hr, hproc r]
  have hmesgOn := hkeep Proc.mesgOn fun _ _ _ _ _ => rfl
  have hrecvOn := hkeep Proc.recvOn fun _ _ _ _ _ => rfl
  have hpid := hkeep Proc.pid fun _ _ _ _ _ => rfl
  have hbound := hkeep Proc.boundSignal fun _ _ _ _ _ => rfl
  have hselfState : (k₂.proc q).state = .ready := by rw [hself]
  refine ⟨Function.update W e ((W e).erase q), ?_, ?_, ?_, ?_, ?_⟩
  · refine hi.waiting.unlink hqW ?_ ?_ hmesgOn ?_ ?_ ?_
    · exact fun r hr => by rw [hstate r hr]
    · rw [hselfState]
      exact ready_not_waits
    · intro r
      by_cases hr : r = q
      · rw [hr, hself]
      · rw [hne r hr]
    · intro r
      by_cases hr : r = q
      · rw [hr, hself]
      · rw [hne r hr]
    · exact fun _ => rfl
  · refine hi.receiving.keep (fun e' => (hend e').2) hrecvOn fun r hr => ?_
    have hrq : r ≠ q := fun he => by rw [he, hselfState] at hr; cases hr
    rw [hstate r hrq] at hr
    refine ⟨hr, fun e' _ hqe => ⟨(hbound r).trans hqe.bound, (hend e').1.trans hqe.signal, ?_⟩⟩
    intro p hp
    obtain ⟨hpW, hpq⟩ := (hi.waiting.lists.mem_remove hqW).mp hp
    rw [hstate p hpq]
    exact hqe.sent p hpW
  · refine hi.made.keep hpid hframe.1 hframe.2 ?_ ?_
    · intro r hr
      left
      rw [hstate r fun he => by rw [he, hq] at hr; cases hr]
      exact hr
    · intro r hr
      have hrq : r ≠ q := fun he => by rw [he, hselfState] at hr; cases hr
      rw [hrecvOn, hmesgOn]
      exact hi.made.idle r ((hstate r hrq).symm.trans hr)
  · refine hi.exchanges.reply hi.waiting hi.made hqW hq hframe.1 hpid hmesgOn ?_ hselfState ?_
    · intro r hr _
      rw [hne r hr, hproc r]
      exact ⟨rfl, rfl⟩
    · rw [hself]
  · exact hi.signals.message nofun nofun (fun e' => (hend e').1) hbound

theorem reply_keeps (hi : Ipc receiver k h W) (hu : Active k u) (hup : k.up = some u) :
    (reply fuel u e pid m o k).Keeps receiver u
      (h ++ (Op.reply e pid m o).asks u k (reply fuel u e pid m o k).refused) := by
  unfold Sys.reply
  cases hw : findWaiting (fun x => x.state = .blockReply && x.pid = pid) fuel
      (k.endpoint e).waiting.head k with
  | none => trivial
  | some r =>
    have hspec := findWaiting_spec (hi.waiting.lists.dll e).chain hw
    cases r with
    | none =>
      rw [show (Op.reply e pid m o).asks u k (Outcome.ret ERR [] k).refused = [] from rfl,
        List.append_nil]
      exact hu.idle hup hi
    | some q =>
      obtain ⟨ys, zs, hW, hq, -⟩ := hspec
      have hqs : (k.proc q).state = .blockReply := by simpa using (Bool.and_eq_true_iff.mp hq).1
      have hqp : (k.proc q).pid = pid := by simpa using (Bool.and_eq_true_iff.mp hq).2
      obtain ⟨W', hi'⟩ := hi.reply (e := e) (u := u) (m := m) (by simp [hW]) hqs
      rw [hqp] at hi'
      have hqu : u ≠ q := fun he => by rw [← he, hu.ready] at hqs; cases hqs
      set k₁ := unlinkPrev e q (unlinkNext e q k) with hk₁
      have hu₁ : (k₁.proc u).recvOn = none ∧ (k₁.proc u).mesgOn = none := by
        have hqW : q ∈ W e := by simp [hW]
        rw [hk₁, unlink_proc (hi.waiting.lists.neighbours_ne hqW).1]
        exact ⟨hu.recvOn, hu.mesgOn⟩
      have hsched : ∀ mem k₃, k₃ = { k₁.setProc q { k₁.proc q with m := m } with mem := mem } →
          (callSchedule u .ret (some q) (procReady q k₃)).Keeps receiver u
            (h ++ [.reply u e pid m]) := by
        intro mem k₃ hk₃
        have hsame : k₃.setProc q { k₃.proc q with state := .ready } =
            { k₁.setProc q { k₁.proc q with m := m, state := .ready } with mem := mem } := by
          simp [hk₃, setProc, Function.update_idem]
        apply callSchedule_ret _ SchedOnly.procReady _ _ rfl rfl
        · exact W'
        · rw [hsame]
          apply hi'.alike
          exact ⟨⟨fun _ => rfl, fun _ => rfl, fun _ => rfl, fun _ => rfl, fun _ => rfl, fun _ => rfl,
            fun _ => rfl, fun _ => rfl, rfl, rfl⟩, fun _ => rfl, fun _ => rfl, fun _ => rfl⟩
        · rw [setProc_proc, if_neg hqu, hk₃]
          change (((k₁.setProc q { k₁.proc q with m := m }).proc u)).recvOn = none
          rw [setProc_proc, if_neg hqu]
          exact hu₁.1
        · rw [setProc_proc, if_neg hqu, hk₃]
          change (((k₁.setProc q { k₁.proc q with m := m }).proc u)).mesgOn = none
          rw [setProc_proc, if_neg hqu]
          exact hu₁.2
      simp only
      split
      · exact hsched _ _ rfl
      · exact hsched (k₁.setProc q { k₁.proc q with m := m }).mem _ rfl

theorem signal_keeps (hi : Ipc receiver k h W) (hu : Active k u) (hup : k.up = some u) :
    (signal u e s k).Keeps receiver u (h ++ [.signal e (k.endpoint e).bound s]) := by
  unfold Sys.signal
  cases hb : (k.endpoint e).bound with
  | some p =>
    simp only [setProc_proc_same]
    by_cases hp : (k.proc p).state = .blockRecv
    · rw [if_pos hp]
      obtain ⟨e', he', -⟩ := hi.receiving.blocked p hp
      have hpm := Proc.mesgOn_of_recvOn he'
      have hmade := hi.made.started p fun hf => by rw [hp] at hf; cases hf
      have hpu : u ≠ p := fun he => by rw [← he, hu.ready] at hp; cases hp
      -- the process is woken before its word changes, so that it never sleeps over a signal
      have hi₁ := hi.setState hpm (.inl ⟨rfl, hmade⟩)
      have hi₂ := hi₁.raiseBound (e := e) (p := p) (by rw [setProc_proc_same]; exact fun hf => by cases hf) s
      apply callSchedule_ret _ SchedOnly.procReady _ _ rfl rfl
      · exact W
      · convert hi₂ using 1
        simp [setProc, Function.update_idem]
      · rw [setProc_proc, if_neg hpu, setProc_proc, if_neg hpu]
        exact hu.recvOn
      · rw [setProc_proc, if_neg hpu, setProc_proc, if_neg hpu]
        exact hu.mesgOn
    · rw [if_neg hp]
      refine ⟨⟨W, by rw [List.append_nil]; exact hi.raiseBound hp s⟩, hup, ?_⟩
      rw [← hu.ready]
      apply setProc_keeps
      rfl
  | none =>
    simp only [setEndpoint_endpoint_same]
    split
    · rename_i p hw
      have hpe := (hi.receiving.rwait e p).mp hw
      have hpm := Proc.mesgOn_of_recvOn hpe
      have hmade := hi.made.started p fun hf => by
        rw [(hi.made.idle p hf).1] at hpe
        cases hpe
      have hpu : u ≠ p := fun he => hu.not_rwait hi (he ▸ hw)
      have hi₁ := hi.setState hpm (.inl ⟨rfl, hmade⟩)
      have hi₂ := hi₁.raiseEndpoint (e := e) (fun q hq hqe => by
        have hqp : q ≠ p := by
          intro he
          rw [he, setProc_proc_same] at hq
          cases hq
        rw [setProc_proc, if_neg hqp] at hqe
        exact hqp ((hi.receiving.receives e q hqe).symm.trans (hi.receiving.receives e p hpe))) s
      apply callSchedule_ret _ SchedOnly.procReady _ _ rfl rfl
      · exact W
      · exact hi₂
      · rw [setProc_proc, if_neg hpu]
        exact hu.recvOn
      · rw [setProc_proc, if_neg hpu]
        exact hu.mesgOn
    · rename_i hw
      refine ⟨⟨W, ?_⟩, hup, hu.ready⟩
      rw [List.append_nil]
      refine hi.raiseEndpoint (fun q hq hqe => ?_) s
      rw [(hi.receiving.rwait e q).mpr hqe] at hw
      cases hw

theorem endpointBind_keeps (hi : Ipc receiver k h W) (hu : Active k u) (hup : k.up = some u) :
    (endpointBind u e k).Keeps receiver u h := by
  unfold endpointBind
  split_ifs
  · exact hu.idle hup hi
  · exact Active.idle ⟨hu.ready, hu.recvOn, hu.mesgOn⟩ hup (hi.alike (Alike.setEndpoint rfl rfl rfl))

theorem endpointUnbind_keeps (hi : Ipc receiver k h W) (hu : Active k u) (hup : k.up = some u) :
    (endpointUnbind u e k).Keeps receiver u h := by
  unfold endpointUnbind
  split_ifs
  · exact hu.idle hup hi
  · exact Active.idle ⟨hu.ready, hu.recvOn, hu.mesgOn⟩ hup (hi.alike (Alike.setEndpoint rfl rfl rfl))

theorem mesg_keeps (hi : Ipc receiver k h W) (hu : Active k u) :
    (mesg u e rq o k).Keeps receiver u (h ++ [.call u e (k.proc u).pid rq]) := by
  obtain ⟨n, k', W', hm, hi'⟩ := mesg_ipc rq o hi hu
  rw [hm]
  exact ⟨W', hi'⟩

theorem exec_keeps {op : Op} (hi : Ipc receiver k h W) (hu : Active k u) (hup : k.up = some u)
    (hr : ∀ e o, op = .recv e o → receiver e = u) : (exec fuel u op k).Keeps receiver u
      (h ++ op.asks u k (exec fuel u op k).refused) := by
  have hnone : h ++ [] = h := List.append_nil h
  cases op with
  | mesg e rq o => exact mesg_keeps hi hu
  | recv e o => exact hnone.symm ▸ recv_keeps hi hu hup (hr e o rfl)
  | reply e pid m o => exact reply_keeps hi hu hup
  | signal e s => exact signal_keeps hi hu hup
  | bind e => exact hnone.symm ▸ endpointBind_keeps hi hu hup
  | unbind e => exact hnone.symm ▸ endpointUnbind_keeps hi hu hup
  | yield => exact hnone.symm ▸ callSchedule_ret hi SchedOnly.refl hu.recvOn hu.mesgOn rfl rfl
  | exit =>
    have hi' := hi.setState hu.mesgOn (.inr ⟨rfl, hu.recvOn⟩)
    refine hnone.symm ▸ callSchedule_ret hi' SchedOnly.procFault ?_ ?_ rfl rfl <;>
      rw [setProc_proc_same]
    · exact hu.recvOn
    · exact hu.mesgOn

theorem resume_keeps (hi : Ipc receiver k h W) (hu : (k.proc u).state = .ready)
    (hup : k.up = some u) (hm : (k.proc u).mesgOn = none) :
    (resume fuel u k).Keeps receiver u h := by
  unfold resume
  cases hl : (k.proc u).label with
  | user => exact ⟨⟨W, by rw [List.append_nil]; exact hi⟩, hup, hu⟩
  | ret =>
    have ha : Active k u := by
      refine ⟨hu, ?_, ?_⟩ <;> simp [Proc.recvOn, Proc.mesgOn, Context.recvOn, Context.mesgOn, hl]
    refine Active.idle ⟨?_, ?_, ?_⟩ hup (hi.alike (ha.setLabel rfl rfl)) <;> rw [setProc_proc_same]
    · exact hu
    · rfl
    · rfl
  | mesg e =>
    rw [Proc.mesgOn_eq_some.mpr hl] at hm
    cases hm
  | recv e o =>
    have hre := Proc.recvOn_eq_some.mpr ⟨o, hl⟩
    apply recvLoop_keeps (hi.unsleep hu hre) _ hup (hi.receiving.receives e u hre)
    refine ⟨?_, ?_, ?_⟩ <;> rw [setEndpoint_proc, setProc_proc_same]
    · exact hu
    · rfl
    · rfl

def Outcome.Steps (receiver : Addr → Addr) (u : Addr) (op : Op) (h : List Event) (k : Kernel) :
    Outcome → Prop
  | .ret r ev k' => (∃ W, Ipc receiver k'
      (h ++ (asked u op k (r = ERR) ++ ev ++ mesgReturned u op k)) W) ∧
      k'.up = some u ∧ (k'.proc u).state = .ready
  | .sched _ k' => ∃ W, Ipc receiver k' (h ++ asked u op k false) W
  | _ => True

theorem Outcome.Keeps.steps {out : Outcome} {op : Op}
    (hk : out.Keeps receiver u (h ++ asked u op k out.refused)) (hm : mesgReturned u op k = []) :
    out.Steps receiver u op h k := by
  cases out with
  | ret r ev k' =>
    obtain ⟨⟨W, hi⟩, hup⟩ := hk
    refine ⟨⟨W, ?_⟩, hup⟩
    rw [hm, List.append_nil, ← List.append_assoc]
    exact hi
  | sched n k' => exact hk
  | panic => trivial
  | stuck => trivial

theorem run_keeps {op : Op} (hi : Ipc receiver k h W) (hu : (k.proc u).state = .ready)
    (hup : k.up = some u) (hr : ∀ e o, op = .recv e o → receiver e = u) :
    (run fuel u op k).Steps receiver u op h k := by
  unfold run
  split_ifs with hl
  · have ha : Active k u := by
      refine ⟨hu, ?_, ?_⟩ <;> simp [Proc.recvOn, Proc.mesgOn, Context.recvOn, Context.mesgOn, hl]
    have hasked : ∀ refused, asked u op k refused = op.asks u k refused := fun _ => if_pos hl
    cases op with
    | mesg e rq o =>
      obtain ⟨n, k', W', hm, hi'⟩ := mesg_ipc rq o hi ha
      rw [show exec fuel u (.mesg e rq o) k = .sched n k' from hm]
      refine ⟨W', ?_⟩
      rw [hasked]
      exact hi'
    | _ =>
      apply Outcome.Keeps.steps _ (by simp [mesgReturned, hl])
      rw [hasked]
      exact exec_keeps hi ha hup hr
  · have hasked : ∀ refused, asked u op k refused = [] := fun _ => if_neg hl
    cases hm : (k.proc u).mesgOn with
    | none =>
      apply Outcome.Keeps.steps
      · rw [hasked, List.append_nil]
        exact resume_keeps hi hu hup hm
      · cases hc : (k.proc u).label <;>
          simp_all [mesgReturned, Proc.mesgOn, Context.mesgOn]
    | some e =>
      have hi' := hi.answer hu hm
      have hlabel := Proc.mesgOn_eq_some.mp hm
      simp only [resume, hlabel, Outcome.Steps, hasked, mesgReturned]
      refine ⟨⟨W, hi'⟩, hup, ?_⟩
      rw [setProc_proc_same]
      exact hu

end Paths

end Agatha.Sys
