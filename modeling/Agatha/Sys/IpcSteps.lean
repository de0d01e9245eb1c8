import Agatha.Sys.Exchanges

namespace Agatha.Sys

open Kernel Library Library.LinkedList Library.SignalWord

structure SamePlaces (k k' : Kernel) : Prop where
  recvOn : ∀ p, (k'.proc p).recvOn = (k.proc p).recvOn
  mesgOn : ∀ p, (k'.proc p).mesgOn = (k.proc p).mesgOn
  pid : ∀ p, (k'.proc p).pid = (k.proc p).pid
  m : ∀ p, (k'.proc p).m = (k.proc p).m
  wnext : ∀ p, (k'.proc p).wnext = (k.proc p).wnext
  wprev : ∀ p, (k'.proc p).wprev = (k.proc p).wprev
  rwait : ∀ e, (k'.endpoint e).rwait = (k.endpoint e).rwait
  waiting : ∀ e, (k'.endpoint e).waiting = (k.endpoint e).waiting
  procs : k'.procs = k.procs
  nextpid : k'.nextpid = k.nextpid

structure Alike (k k' : Kernel) : Prop extends SamePlaces k k' where
  state : ∀ p, (k'.proc p).state = (k.proc p).state
  boundSignal : ∀ p, (k'.proc p).boundSignal = (k.proc p).boundSignal
  signal : ∀ e, (k'.endpoint e).signal = (k.endpoint e).signal

structure Ipc (receiver : Addr → Addr) (k : Kernel) (h : List Event) (W : Addr → List Addr) :
    Prop where
  waiting : Waiting k W
  receiving : Receiving receiver k W
  made : Made k
  exchanges : Exchanges k W h
  signals : Signals receiver k h

section Alike

variable {receiver : Addr → Addr} {k k' : Kernel} {h : List Event} {W : Addr → List Addr}
variable {u p e : Addr} {x : Proc} {y : Endpoint}

theorem SchedOnly.alike (hk : SchedOnly k k') : Alike k k' := by
  have hp : ∀ {β : Type} (f : Proc → β), (∀ x ts sl sp sn,
      f { x with ts := ts, slist := sl, sprev := sp, snext := sn } = f x) →
      ∀ p, f (k'.proc p) = f (k.proc p) := by
    intro β f hf p
    rw [hk.proc p, hf]
  constructor
  case toSamePlaces =>
    constructor
    case procs => exact hk.procs
    case nextpid => exact hk.nextpid
    case rwait | waiting => simp [hk.endpoint]
    all_goals
      apply hp
      intro x ts sl sp sn
      rfl
  case signal => simp [hk.endpoint]
  all_goals
    apply hp
    intro x ts sl sp sn
    rfl

theorem SchedOnly.setLabel (hk : SchedOnly k k') (l : Context) :
    SchedOnly (k.setProc u { k.proc u with label := l })
      (k'.setProc u { k'.proc u with label := l }) := by
  refine ⟨fun p => ?_, hk.mem, hk.endpoint, hk.procs, hk.nextpid, hk.given⟩
  rw [setProc_proc, setProc_proc]
  split_ifs with hp
  · rw [hk.proc u]
  · exact hk.proc p

theorem SchedOnly.procReady : SchedOnly (k.setProc p { k.proc p with state := .ready })
    (procReady p k) := by
  unfold Sys.procReady
  simp only
  split_ifs
  · exact SchedOnly.addToListTail
  · exact SchedOnly.refl

theorem SchedOnly.procFault : SchedOnly (k.setProc p { k.proc p with state := .fault })
    (procFault p k) := by
  unfold Sys.procFault
  simp only
  split
  · exact SchedOnly.removeFromList
  · exact SchedOnly.refl

theorem Ipc.adjust {ev : List Event} (hi : Ipc receiver k h W) (hk : SamePlaces k k')
    (hev : ∀ x ∈ ev, x.pid = none)
    (hs : ∀ p, (k.proc p).mesgOn ≠ none → (k'.proc p).state = (k.proc p).state)
    (hn : ∀ p, (k.proc p).mesgOn = none → ¬ (k'.proc p).state.Waits)
    (hb : ∀ p, (k'.proc p).state = .blockRecv → (k.proc p).state = .blockRecv ∧
      ∀ e, (k.proc p).recvOn = some e → Quiet k W p e → Quiet k' W p e)
    (hf : ∀ p, (k.proc p).state = .fault → (k'.proc p).state = .fault ∨ ∃ i, k.procs i = some p)
    (hf' : ∀ p, (k'.proc p).state = .fault →
      (k.proc p).recvOn = none ∧ (k.proc p).mesgOn = none)
    (hsig : Signals receiver k' (h ++ ev)) : Ipc receiver k' (h ++ ev) W := by
  refine ⟨?_, hi.receiving.keep hk.rwait hk.recvOn hb, ?_, ?_, hsig⟩
  · apply hi.waiting.keep
    · intro p
      by_cases hm : (k.proc p).mesgOn = none
      · exact iff_of_false (hn p hm) fun hw => hi.waiting.calling p hw hm
      · rw [hs p hm]
    · exact fun p _ => ⟨hk.mesgOn p, hk.wnext p, hk.wprev p⟩
    · exact hk.waiting
  · apply hi.made.keep hk.pid hk.procs hk.nextpid hf
    intro p hp
    rw [hk.recvOn, hk.mesgOn]
    exact hf' p hp
  · apply hi.exchanges.keep hi.waiting hev
    · exact fun i p hp => hk.procs ▸ hp
    · exact fun i p hp => hk.procs.symm ▸ hp
    · exact fun p _ => hk.pid p
    · exact hk.mesgOn
    · exact fun p hp => ⟨hs p hp, hk.m p⟩

theorem Ipc.alike (hi : Ipc receiver k h W) (hk : Alike k k') : Ipc receiver k' h W := by
  have hnil : h = h ++ [] := (List.append_nil h).symm
  rw [hnil]
  apply hi.adjust hk.toSamePlaces
  · exact fun x hx => by cases hx
  · exact fun p _ => hk.state p
  · intro p hm hw
    rw [hk.state] at hw
    exact hi.waiting.calling p hw hm
  · intro p hp
    refine ⟨(hk.state p).symm.trans hp, fun e _ hq => ⟨?_, ?_, fun q hqe => ?_⟩⟩
    · rw [hk.boundSignal]
      exact hq.bound
    · rw [hk.signal]
      exact hq.signal
    · rw [hk.state]
      exact hq.sent q hqe
  · exact fun p hp => .inl ((hk.state p).trans hp)
  · exact fun p hp => hi.made.idle p ((hk.state p).symm.trans hp)
  · apply hi.signals.keep
    · exact fun x hx => by cases hx
    · exact fun x hx => by cases hx
    · exact hk.signal
    · exact hk.boundSignal

theorem Ipc.setState {s : ProcState} (hi : Ipc receiver k h W) (hp : (k.proc p).mesgOn = none)
    (hs : s = .ready ∧ (∃ i, k.procs i = some p) ∨ s = .fault ∧ (k.proc p).recvOn = none) :
    Ipc receiver (k.setProc p { k.proc p with state := s }) h W := by
  have hnil : h = h ++ [] := (List.append_nil h).symm
  have hstate : ∀ r, r ≠ p →
      ((k.setProc p { k.proc p with state := s }).proc r).state = (k.proc r).state := by
    intro r hr
    rw [setProc_proc, if_neg hr]
  have hself : ((k.setProc p { k.proc p with state := s }).proc p).state = s := by
    rw [setProc_proc_same]
  have hnb : s ≠ .blockRecv ∧ s ≠ .blockSend ∧ s ≠ .blockReply := by
    rcases hs with ⟨rfl, -⟩ | ⟨rfl, -⟩ <;> decide
  rw [hnil]
  apply hi.adjust
  · constructor
    case procs | nextpid | rwait | waiting => simp
    all_goals
      intro r
      apply setProc_keeps
      rfl
  · exact fun x hx => by cases hx
  · exact fun r hr => hstate r fun he => hr (he ▸ hp)
  · intro r hr hw
    by_cases hrp : r = p
    · rw [hrp, hself] at hw
      rcases hw with hw | hw
      · exact hnb.2.1 hw
      · exact hnb.2.2 hw
    · rw [hstate r hrp] at hw
      exact hi.waiting.calling r hw hr
  · intro r hr
    have hrp : r ≠ p := by
      intro he
      rw [he, hself] at hr
      exact hnb.1 hr
    rw [hstate r hrp] at hr
    refine ⟨hr, fun e _ hq => ⟨?_, hq.signal, fun q hqe => ?_⟩⟩
    · rw [setProc_proc, if_neg hrp]
      exact hq.bound
    · have hqp : q ≠ p := by
        rintro rfl
        exact hi.waiting.calling q ((hi.waiting.mem_iff e q).mp hqe).1 hp
      rw [hstate q hqp]
      exact hq.sent q hqe
  · intro r hr
    by_cases hrp : r = p
    · rw [hrp, hself]
      rcases hs with ⟨-, hs⟩ | ⟨hs, -⟩
      · exact .inr hs
      · exact .inl hs
    · rw [hstate r hrp]
      exact .inl hr
  · intro r hr
    by_cases hrp : r = p
    · rw [hrp] at hr ⊢
      rcases hs with ⟨hs, -⟩ | ⟨-, hs⟩
      · rw [hself, hs] at hr
        cases hr
      · exact ⟨hs, hp⟩
    · rw [hstate r hrp] at hr
      exact hi.made.idle r hr
  · apply hi.signals.keep
    · exact fun x hx => by cases hx
    · exact fun x hx => by cases hx
    · exact fun e => rfl
    · intro r
      apply setProc_keeps
      rfl

end Alike

structure Active (k : Kernel) (u : Addr) : Prop where
  ready : (k.proc u).state = .ready
  recvOn : (k.proc u).recvOn = none
  mesgOn : (k.proc u).mesgOn = none

section Calls

variable {receiver : Addr → Addr} {k k' : Kernel} {h : List Event} {W : Addr → List Addr}
variable {u p e : Addr} {rq m : Bytes} {o : Option Addr} {s : BitVec 32}

theorem ready_not_waits : ¬ ProcState.ready.Waits := by
  rintro (hf | hf) <;> cases hf

theorem Active.not_mem (hu : Active k u) (hi : Ipc receiver k h W) : u ∉ W e := by
  rw [hi.waiting.mem_iff, hu.mesgOn]
  exact fun hf => by cases hf.2

theorem Active.not_rwait (hu : Active k u) (hi : Ipc receiver k h W) :
    (k.endpoint e).rwait ≠ some u := by
  rw [Ne, hi.receiving.rwait, hu.recvOn]
  exact fun hf => by cases hf

theorem enqueueWaiting_frame : (enqueueWaiting u e k).procs = k.procs ∧
    (enqueueWaiting u e k).nextpid = k.nextpid := by
  unfold enqueueWaiting
  cases (k.endpoint e).waiting.tail <;> exact ⟨rfl, rfl⟩

theorem enqueueWaiting_keeps (e' : Addr) :
    ((enqueueWaiting u e k).endpoint e').signal = (k.endpoint e').signal ∧
      ((enqueueWaiting u e k).endpoint e').rwait = (k.endpoint e').rwait := by
  rw [enqueueWaiting_endpoint]
  by_cases he : e' = e
  · rw [if_pos he, he]
    exact ⟨rfl, rfl⟩
  · rw [if_neg he]
    exact ⟨rfl, rfl⟩

theorem mesg_waits (k' : Kernel)
    (hk : k' = enqueueWaiting u e (k.setProc u { k.proc u with m := rq, give := o, state := .blockSend })) :
    mesg u e rq o k = match (k'.endpoint e).rwait with
      | some p => callSchedule u (.mesg e) (some p) (procReady p k')
      | none => callSchedule u (.mesg e) none k' := by
  subst hk
  rfl

/-- What `mesg` leaves in the kernel before it calls the scheduler. -/
structure Queued (k : Kernel) (u e : Addr) (rq : Bytes) (o : Option Addr) (k₀ : Kernel) : Prop where
  proc : ∀ r, k₀.proc r = if r = u then
      { k.proc u with
        m := rq, give := o, state := .blockSend, label := .mesg e,
        wprev := (k.endpoint e).waiting.tail, wnext := none }
    else { k.proc r with
      state := if (k.endpoint e).rwait = some r then .ready else (k.proc r).state
      wnext := if (k.endpoint e).waiting.tail = some r then some u else (k.proc r).wnext }
  endpoint : ∀ e', k₀.endpoint e' = (enqueueWaiting u e k).endpoint e'
  procs : k₀.procs = k.procs
  nextpid : k₀.nextpid = k.nextpid

variable (rq o) in
theorem mesg_eq (ht : (k.endpoint e).waiting.tail ≠ some u) (hr : (k.endpoint e).rwait ≠ some u) :
    ∃ n k₀ k', mesg u e rq o k = .sched n k' ∧ SchedOnly k₀ k' ∧ Queued k u e rq o k₀ := by
  let k₁ := k.setProc u { k.proc u with m := rq, give := o, state := .blockSend }
  let k₂ := enqueueWaiting u e k₁
  have hproc : ∀ r, k₂.proc r = if r = u then
      { k.proc u with
        m := rq, give := o, state := .blockSend,
        wprev := (k.endpoint e).waiting.tail, wnext := none }
      else { k.proc r with
        wnext := if (k.endpoint e).waiting.tail = some r then some u else (k.proc r).wnext } := by
    intro r
    have ht' : (k₁.endpoint e).waiting.tail ≠ some u := ht
    change (enqueueWaiting u e k₁).proc r = _
    rw [enqueueWaiting_proc ht']
    by_cases hru : r = u
    · simp [hru, k₁]
    · simp only [k₁, setProc_proc, if_neg hru, setProc_endpoint]
      split_ifs <;> rfl
  have hend : ∀ e', k₂.endpoint e' = (enqueueWaiting u e k).endpoint e' := by
    intro e'
    change (enqueueWaiting u e k₁).endpoint e' = _
    rw [enqueueWaiting_endpoint, enqueueWaiting_endpoint]
    rfl
  have hrwait : (k₂.endpoint e).rwait = (k.endpoint e).rwait := by
    rw [hend, enqueueWaiting_endpoint, if_pos rfl]
  rw [mesg_waits k₂ rfl, hrwait]
  obtain ⟨hprocs, hnext⟩ := enqueueWaiting_frame (k := k₁) (u := u) (e := e)
  cases hw : (k.endpoint e).rwait with
  | none =>
    refine ⟨_, k₂.setProc u { k₂.proc u with label := .mesg e }, _, rfl, SchedOnly.refl, ?_, hend, hprocs, hnext⟩
    intro r
    rw [setProc_proc, hproc u, hproc r, hw]
    split_ifs <;> first | rfl | contradiction
  | some p =>
    have hpu : p ≠ u := fun he => hr (by rw [hw, he])
    let k₃ := k₂.setProc p { k₂.proc p with state := .ready }
    refine ⟨_, k₃.setProc u { k₃.proc u with label := .mesg e }, _, rfl, SchedOnly.procReady.setLabel _, ?_, hend,
      hprocs, hnext⟩
    intro r
    rw [setProc_proc, hw]
    by_cases hru : r = u
    · rw [if_pos hru, if_pos hru, setProc_proc, if_neg (Ne.symm hpu), hproc u, if_pos rfl]
    · rw [if_neg hru, if_neg hru, setProc_proc]
      by_cases hrp : r = p
      · rw [if_pos hrp, hproc p, if_neg hpu, hrp]
        simp
      · have hpr : ¬ p = r := fun he => hrp he.symm
        rw [if_neg hrp, hproc r, if_neg hru]
        simp [hpr]

section Queued

variable {k₀ : Kernel} {r : Addr} (hq : Queued k u e rq o k₀)

include hq

theorem Queued.self : k₀.proc u = { k.proc u with
    m := rq, give := o, state := .blockSend, label := .mesg e,
    wprev := (k.endpoint e).waiting.tail, wnext := none } := by
  rw [hq.proc, if_pos rfl]

theorem Queued.other (hr : r ≠ u) : k₀.proc r = { k.proc r with
    state := if (k.endpoint e).rwait = some r then .ready else (k.proc r).state
    wnext := if (k.endpoint e).waiting.tail = some r then some u else (k.proc r).wnext } := by
  rw [hq.proc, if_neg hr]

theorem Queued.pid (r : Addr) : (k₀.proc r).pid = (k.proc r).pid := by
  by_cases hr : r = u
  · rw [hr, hq.self]
  · rw [hq.other hr]

theorem Queued.bound (r : Addr) : (k₀.proc r).boundSignal = (k.proc r).boundSignal := by
  by_cases hr : r = u
  · rw [hr, hq.self]
  · rw [hq.other hr]

theorem Queued.signal (e' : Addr) : (k₀.endpoint e').signal = (k.endpoint e').signal := by
  rw [hq.endpoint, (enqueueWaiting_keeps e').1]

theorem Queued.rwait (e' : Addr) : (k₀.endpoint e').rwait = (k.endpoint e').rwait := by
  rw [hq.endpoint, (enqueueWaiting_keeps e').2]

theorem Queued.mesgOn (hr : r ≠ u) : (k₀.proc r).mesgOn = (k.proc r).mesgOn := by
  rw [hq.other hr]
  rfl

/-- Only the receiver of the endpoint is woken, and it is in no message. -/
theorem Queued.state (hi : Ipc receiver k h W) (hr : r ≠ u) (hcalling : (k.proc r).mesgOn ≠ none) :
    (k₀.proc r).state = (k.proc r).state := by
  rw [hq.other hr]
  exact if_neg fun hw => hcalling (Proc.mesgOn_of_recvOn ((hi.receiving.rwait e r).mp hw))

theorem Queued.fault (hr : (k₀.proc r).state = .fault) : (k.proc r).state = .fault ∧ r ≠ u := by
  have hru : r ≠ u := by
    rintro rfl
    rw [hq.self] at hr
    cases hr
  rw [hq.other hru] at hr
  refine ⟨?_, hru⟩
  by_cases hw : (k.endpoint e).rwait = some r
  · simp [hw] at hr
  · simpa [hw] using hr

theorem Queued.waiting (h : Waiting k W) (hu : ¬(k.proc u).state.Waits)
    (hwoken : ∀ r, (k.endpoint e).rwait = some r → ¬(k.proc r).state.Waits) :
    Waiting k₀ (Function.update W e (W e ++ [u])) := by
  refine h.enqueue (e := e) (u := u) hu ?_ (fun r hr => hq.mesgOn hr) ?_ ?_ ?_ ?_ ?_ ?_ ?_
  · intro r hr
    by_cases hw : (k.endpoint e).rwait = some r
    · simp [hq.other hr, hw, hwoken r hw, ready_not_waits]
    · simp [hq.other hr, hw]
  · exact fun r hr => by rw [hq.other hr]
  · exact fun r hr => by rw [hq.other hr]
  · rw [hq.self]
    exact .inl rfl
  · rw [hq.self]
    rfl
  · rw [hq.self]
  · rw [hq.self]
  · exact fun e' => by rw [hq.endpoint]

theorem Queued.receiving (hi : Ipc receiver k h W) (hu : Active k u) :
    Receiving receiver k₀ (Function.update W e (W e ++ [u])) := by
  refine hi.receiving.keep hq.rwait ?_ ?_
  · intro r
    by_cases hr : r = u
    · rw [hr, hq.self, hu.recvOn]
      rfl
    · rw [hq.other hr]
      rfl
  · intro r hr
    have hru : r ≠ u := by
      rintro rfl
      rw [hq.self] at hr
      cases hr
    have hrw : (k.endpoint e).rwait ≠ some r := fun hw => by
      rw [hq.other hru, hw] at hr
      simp at hr
    rw [hq.other hru, if_neg hrw] at hr
    refine ⟨hr, fun e' he' hquiet => ⟨(hq.bound r).trans hquiet.bound, (hq.signal e').trans hquiet.signal, ?_⟩⟩
    -- the endpoint this receiver sleeps on is another one
    have hee : e' ≠ e := fun he => hrw ((hi.receiving.rwait e r).mpr (he ▸ he'))
    intro q hqW
    rw [Function.update_of_ne hee] at hqW
    rw [hq.state hi (fun he => hu.not_mem hi (he ▸ hqW))
      (hi.waiting.calling q ((hi.waiting.mem_iff e' q).mp hqW).1)]
    exact hquiet.sent q hqW

theorem Queued.made (hi : Ipc receiver k h W) (hu : Active k u) : Made k₀ := by
  refine hi.made.keep hq.pid hq.procs hq.nextpid ?_ ?_
  · intro r hr
    have hru : r ≠ u := by
      rintro rfl
      rw [hu.ready] at hr
      cases hr
    have hrw : (k.endpoint e).rwait ≠ some r := fun hw => by
      have hon := (hi.receiving.rwait e r).mp hw
      rw [(hi.made.idle r hr).1] at hon
      cases hon
    left
    rw [hq.other hru, if_neg hrw]
    exact hr
  · intro r hr
    obtain ⟨hr', hru⟩ := hq.fault hr
    rw [hq.other hru]
    exact hi.made.idle r hr'

end Queued

variable (rq o) in
theorem mesg_ipc (hi : Ipc receiver k h W) (hu : Active k u) :
    ∃ n k' W', mesg u e rq o k = .sched n k' ∧
      Ipc receiver k' (h ++ [.call u e (k.proc u).pid rq]) W' := by
  obtain ⟨n, k₀, k', hm, hk, hq⟩ := mesg_eq rq o (hi.waiting.lists.tail_ne (hu.not_mem hi)) (hu.not_rwait hi)
  have hwaits : ¬(k.proc u).state.Waits := by
    rw [hu.ready]
    exact ready_not_waits
  have hwoken : ∀ r, (k.endpoint e).rwait = some r → ¬(k.proc r).state.Waits := fun r hw hw' =>
    hi.waiting.calling r hw' (Proc.mesgOn_of_recvOn ((hi.receiving.rwait e r).mp hw))
  refine ⟨n, k', Function.update W e (W e ++ [u]), hm, Ipc.alike ?_ hk.alike⟩
  refine ⟨hq.waiting hi.waiting hwaits hwoken, hq.receiving hi hu, hq.made hi hu, ?_,
    hi.signals.message nofun nofun hq.signal hq.bound⟩
  refine hi.exchanges.call hi.waiting hi.made hu.ready hu.mesgOn hq.procs hq.pid (fun r hr => hq.mesgOn hr) ?_ ?_ ?_ ?_
  · exact fun r hr hcalling => ⟨hq.state hi hr hcalling, by rw [hq.other hr]⟩
  · rw [hq.self]
    rfl
  · rw [hq.self]
  · rw [hq.self]

theorem Active.setLabel (hu : Active k u) {l : Context} (hr : l.recvOn = none)
    (hm : l.mesgOn = none) : Alike k (k.setProc u { k.proc u with label := l }) := by
  have hrecv : ∀ p, ((k.setProc u { k.proc u with label := l }).proc p).recvOn =
      (k.proc p).recvOn := by
    intro p
    apply setProc_keeps Proc.recvOn
    exact hr.trans hu.recvOn.symm
  have hmesg : ∀ p, ((k.setProc u { k.proc u with label := l }).proc p).mesgOn =
      (k.proc p).mesgOn := by
    intro p
    apply setProc_keeps Proc.mesgOn
    exact hm.trans hu.mesgOn.symm
  constructor
  case toSamePlaces =>
    constructor
    case recvOn => exact hrecv
    case mesgOn => exact hmesg
    case procs | nextpid | rwait | waiting => simp
    all_goals
      intro r
      apply setProc_keeps
      rfl
  case signal => simp
  all_goals
    intro r
    apply setProc_keeps
    rfl

theorem Alike.setEndpoint {y : Endpoint} (hs : y.signal = (k.endpoint e).signal)
    (hr : y.rwait = (k.endpoint e).rwait) (hw : y.waiting = (k.endpoint e).waiting) :
    Alike k (k.setEndpoint e y) := by
  constructor
  case toSamePlaces =>
    constructor
    case rwait => exact setEndpoint_keeps Endpoint.rwait hr
    case waiting => exact setEndpoint_keeps Endpoint.waiting hw
    all_goals
      intros
      rfl
  case signal => exact setEndpoint_keeps Endpoint.signal hs
  all_goals
    intros
    rfl

theorem Ipc.move {x : Event} (hi : Ipc receiver k h W) (hk : SamePlaces k k')
    (hx : x.pid = none) (hs : ∀ p, (k'.proc p).state = (k.proc p).state)
    (hq : ∀ p e, (k.proc p).state = .blockRecv → (k.proc p).recvOn = some e → Quiet k W p e →
      (k'.proc p).boundSignal = 0 ∧ (k'.endpoint e).signal = 0)
    (hsig : Signals receiver k' (h ++ [x])) : Ipc receiver k' (h ++ [x]) W := by
  apply hi.adjust hk
  · intro y hy
    rw [List.mem_singleton.mp hy]
    exact hx
  · exact fun p _ => hs p
  · intro p hm hw
    rw [hs] at hw
    exact hi.waiting.calling p hw hm
  · intro p hp
    rw [hs] at hp
    refine ⟨hp, fun e he hqe => ?_⟩
    obtain ⟨hb, hes⟩ := hq p e hp he hqe
    refine ⟨hb, hes, fun q hqW => ?_⟩
    rw [hs]
    exact hqe.sent q hqW
  · exact fun p hp => .inl ((hs p).trans hp)
  · exact fun p hp => hi.made.idle p ((hs p).symm.trans hp)
  · exact hsig

theorem SamePlaces.setBound (b : BitVec 32) :
    SamePlaces k (k.setProc p { k.proc p with boundSignal := b }) := by
  constructor
  case procs | nextpid | rwait | waiting => simp
  all_goals
    intro r
    apply setProc_keeps
    rfl

theorem SamePlaces.setSignal (b : BitVec 32) :
    SamePlaces k (k.setEndpoint e { k.endpoint e with signal := b }) := by
  constructor
  case rwait | waiting =>
    intro r
    apply setEndpoint_keeps
    rfl
  all_goals
    intros
    rfl

theorem Ipc.raiseBound (hi : Ipc receiver k h W) (hp : (k.proc p).state ≠ .blockRecv)
    (s : BitVec 32) : Ipc receiver
      (k.setProc p { k.proc p with boundSignal := (k.proc p).boundSignal ||| s })
      (h ++ [.signal e (some p) s]) W := by
  apply hi.move (SamePlaces.setBound _) rfl
  · intro r
    apply setProc_keeps
    rfl
  · intro r e' hr he' hq
    have hrp : r ≠ p := fun he => hp (he ▸ hr)
    rw [setProc_proc, if_neg hrp]
    exact ⟨hq.bound, hq.signal⟩
  · apply hi.signals.move
    · exact fun r e' hf => by cases hf
    · exact fun e' => rfl
    · intro r
      rw [setProc_proc]
      by_cases hr : r = p
      · simp [hr, boundMove, moved, Move.apply]
      · simp [hr, Ne.symm hr, boundMove, moved]
    · exact fun e' s hf => by cases hf
    · intro r t hf
      simp [boundMove] at hf

theorem Ipc.raiseEndpoint (hi : Ipc receiver k h W)
    (he : ∀ p, (k.proc p).state = .blockRecv → (k.proc p).recvOn ≠ some e) (s : BitVec 32) :
    Ipc receiver (k.setEndpoint e { k.endpoint e with signal := (k.endpoint e).signal ||| s })
      (h ++ [.signal e none s]) W := by
  apply hi.move (SamePlaces.setSignal _) rfl
  · exact fun r => rfl
  · intro r e' hr hre hq
    have hee : e' ≠ e := fun hee => he r hr (hee ▸ hre)
    rw [setEndpoint_endpoint, if_neg hee]
    exact ⟨hq.bound, hq.signal⟩
  · apply hi.signals.move
    · exact fun r e' hf => by cases hf
    · intro r
      rw [setEndpoint_endpoint]
      by_cases hr : r = e
      · simp [hr, endpointMove, moved, Move.apply]
      · simp [hr, Ne.symm hr, endpointMove, moved]
    · exact fun r => rfl
    · intro r t hf
      simp [endpointMove] at hf
    · exact fun p t hf => by cases hf

theorem Ipc.takeBound (hi : Ipc receiver k h W) (hr : receiver e = u) : Ipc receiver
    (k.setProc u { k.proc u with boundSignal := 0 })
    (h ++ [.boundSignal u e (k.proc u).boundSignal]) W := by
  apply hi.move (SamePlaces.setBound _) rfl
  · intro r
    apply setProc_keeps
    rfl
  · intro r e' _ _ hq
    refine ⟨?_, hq.signal⟩
    rw [setProc_proc]
    split_ifs
    · rfl
    · exact hq.bound
  · apply hi.signals.move
    · rintro r e' ⟨⟩
      exact hr
    · exact fun e' => rfl
    · intro r
      rw [setProc_proc]
      by_cases hr : r = u
      · simp [hr, boundMove, moved, Move.apply]
      · simp [hr, Ne.symm hr, boundMove, moved]
    · exact fun e' s hf => by cases hf
    · intro r t hf
      simp only [boundMove] at hf
      split_ifs at hf with hu
      cases hf
      rw [hu]

theorem Ipc.takeEndpoint (hi : Ipc receiver k h W) (hr : receiver e = u) : Ipc receiver
    (k.setEndpoint e { k.endpoint e with signal := 0 })
    (h ++ [.endpointSignal u e (k.endpoint e).signal]) W := by
  apply hi.move (SamePlaces.setSignal _) rfl
  · exact fun r => rfl
  · intro r e' _ _ hq
    refine ⟨hq.bound, ?_⟩
    rw [setEndpoint_endpoint]
    split_ifs
    · rfl
    · exact hq.signal
  · apply hi.signals.move
    · rintro r e' ⟨⟩
      exact hr
    · intro r
      rw [setEndpoint_endpoint]
      by_cases hr : r = e
      · simp [hr, endpointMove, moved, Move.apply]
      · simp [hr, Ne.symm hr, endpointMove, moved]
    · exact fun r => rfl
    · intro r t hf
      simp only [endpointMove] at hf
      split_ifs at hf with hu
      cases hf
      rw [hu]
    · exact fun p t hf => by cases hf

theorem Ipc.request {q : Addr} {ys zs : List Addr} (hi : Ipc receiver k h W)
    (hr : receiver e = u) (hW : W e = ys ++ q :: zs) (hq : (k.proc q).state = .blockSend)
    (hys : ∀ p ∈ ys, (k.proc p).state ≠ .blockSend) : Ipc receiver
    (k.setProc q { k.proc q with state := .blockReply })
    (h ++ [.request u e (k.proc q).pid (k.proc q).m]) W := by
  set k' := k.setProc q { k.proc q with state := .blockReply } with hk'
  have hprocs : k'.procs = k.procs := rfl
  have hrwait : ∀ e', (k'.endpoint e').rwait = (k.endpoint e').rwait := fun _ => rfl
  have hstate : ∀ r, r ≠ q → (k'.proc r).state = (k.proc r).state := fun r hr => by
    rw [hk', setProc_proc, if_neg hr]
  have hself : (k'.proc q).state = .blockReply := by rw [hk', setProc_proc_same]
  have hmesgOn : ∀ r, (k'.proc r).mesgOn = (k.proc r).mesgOn := fun r => by
    apply setProc_keeps
    rfl
  have hrecvOn : ∀ r, (k'.proc r).recvOn = (k.proc r).recvOn := fun r => by
    apply setProc_keeps
    rfl
  have hbound : ∀ r, (k'.proc r).boundSignal = (k.proc r).boundSignal := fun r => by
    apply setProc_keeps
    rfl
  have hpid : ∀ r, (k'.proc r).pid = (k.proc r).pid := fun r => by
    apply setProc_keeps
    rfl
  refine ⟨?_, ?_, ?_, ?_, ?_⟩
  · apply hi.waiting.keep
    · intro r
      by_cases hr : r = q
      · rw [hr, hself, hq]
        exact iff_of_true (.inr rfl) (.inl rfl)
      · rw [hstate r hr]
    · intro r _
      refine ⟨hmesgOn r, ?_, ?_⟩ <;> apply setProc_keeps <;> rfl
    · exact fun _ => rfl
  · apply hi.receiving.keep hrwait hrecvOn
    intro r hr
    have hrq : r ≠ q := by
      intro he
      rw [he, hself] at hr
      cases hr
    refine ⟨(hstate r hrq).symm.trans hr, fun e' _ hqe => ⟨(hbound r).trans hqe.bound, hqe.signal, ?_⟩⟩
    intro p hp
    by_cases hpq : p = q
    · rw [hpq, hself]
      exact fun hf => by cases hf
    · rw [hstate p hpq]
      exact hqe.sent p hp
  · apply hi.made.keep hpid rfl rfl
    · intro r hr
      left
      rw [hstate r fun he => by rw [he, hq] at hr; cases hr]
      exact hr
    · intro r hr
      have hrq : r ≠ q := by
        intro he
        rw [he, hself] at hr
        cases hr
      rw [hrecvOn, hmesgOn]
      exact hi.made.idle r ((hstate r hrq).symm.trans hr)
  · apply hi.exchanges.request hi.waiting hi.made hW hq hys hprocs hpid hmesgOn
    · intro r
      apply setProc_keeps
      rfl
    · exact fun r hr _ => hstate r hr
    · exact hself
  · apply hi.signals.message
    · exact nofun
    · intro r e' hre
      cases hre
      exact hr
    · exact fun _ => rfl
    · exact hbound

theorem Ipc.sleep (hi : Ipc receiver k h W) (hu : Active k u) (hr : receiver e = u)
    (hq : Quiet k W u e) : Ipc receiver
    ((k.setEndpoint e { k.endpoint e with rwait := some u }).setProc u
      { k.proc u with state := .blockRecv, label := .recv e o }) h W := by
  set k' := (k.setEndpoint e { k.endpoint e with rwait := some u }).setProc u
    { k.proc u with state := .blockRecv, label := .recv e o } with hk'
  have hne : ∀ r, r ≠ u → k'.proc r = k.proc r := fun r hr => by
    rw [hk', setProc_proc, if_neg hr]
    rfl
  have hself : k'.proc u = { k.proc u with state := .blockRecv, label := .recv e o } := by
    rw [hk', setProc_proc_same]
  have hsignal : ∀ e', (k'.endpoint e').signal = (k.endpoint e').signal := fun e' => by
    apply setEndpoint_keeps
    rfl
  have hbound : ∀ r, (k'.proc r).boundSignal = (k.proc r).boundSignal := by
    apply setProc_keeps
    rfl
  have hmesgOn : ∀ r, (k'.proc r).mesgOn = (k.proc r).mesgOn := by
    apply setProc_keeps
    exact hu.mesgOn.symm
  have hstate : ∀ r, (k.proc r).mesgOn ≠ none → k'.proc r = k.proc r := fun r hr =>
    hne r fun he => hr (he ▸ hu.mesgOn)
  refine ⟨?_, ⟨?_, ?_, ?_⟩, ?_, ?_, ?_⟩
  · apply hi.waiting.keep
    · intro r
      by_cases hr : r = u
      · rw [hr, hself, hu.ready]
        refine iff_of_false ?_ ready_not_waits
        rintro (hf | hf) <;> cases hf
      · rw [hne r hr]
    · intro r hr
      rw [hstate r (hi.waiting.calling r hr)]
      exact ⟨rfl, rfl, rfl⟩
    · intro e'
      apply setEndpoint_keeps
      rfl
  · intro e' r
    have hrw : (k'.endpoint e').rwait = if e' = e then some u else (k.endpoint e').rwait := by
      change ((k.setEndpoint e _).endpoint e').rwait = _
      rw [setEndpoint_endpoint]
      split_ifs <;> rfl
    rw [hrw]
    by_cases hru : r = u
    · rw [hru, hself]
      by_cases he : e' = e
      · simp [he, Proc.recvOn, Context.recvOn]
      · simp [he, Ne.symm he, Proc.recvOn, Context.recvOn, hu.not_rwait hi]
    · rw [hne r hru]
      by_cases he : e' = e
      · rw [if_pos he, he]
        refine iff_of_false (fun hf => hru (Option.some.inj hf).symm) fun hf => hru ?_
        exact (hi.receiving.receives e r hf).symm.trans hr
      · rw [if_neg he]
        exact hi.receiving.rwait e' r
  · intro e' r hre
    by_cases hru : r = u
    · rw [hru, hself] at hre
      cases hre
      rw [hru, hr]
    · rw [hne r hru] at hre
      exact hi.receiving.receives e' r hre
  · have hquiet : ∀ r e', Quiet k W r e' → Quiet k' W r e' := by
      intro r e' hqe
      refine ⟨(hbound r).trans hqe.bound, (hsignal e').trans hqe.signal, fun p hp => ?_⟩
      rw [hstate p (hi.waiting.calling p ((hi.waiting.mem_iff e' p).mp hp).1)]
      exact hqe.sent p hp
    intro r hrb
    by_cases hru : r = u
    · refine ⟨e, ?_, hru ▸ hquiet u e hq⟩
      rw [hru, hself]
      rfl
    · rw [hne r hru] at hrb ⊢
      obtain ⟨e', he', hqe⟩ := hi.receiving.blocked r hrb
      exact ⟨e', he', hquiet r e' hqe⟩
  · apply hi.made.keep
    · apply setProc_keeps
      rfl
    · rfl
    · rfl
    · intro r hr
      left
      rw [hne r fun he => by rw [he, hu.ready] at hr; cases hr]
      exact hr
    · intro r hr
      have hru : r ≠ u := by
        intro he
        rw [he, hself] at hr
        cases hr
      rw [hne r hru] at hr ⊢
      exact hi.made.idle r hr
  · apply hi.exchanges.same hi.waiting
    · rfl
    · exact fun p hp => by rw [hstate p hp]
    · exact hmesgOn
    · intro p hp
      rw [hstate p hp]
      exact ⟨rfl, rfl⟩
  · exact hi.signals.same hsignal hbound

theorem Ipc.unsleep (hi : Ipc receiver k h W) (hu : (k.proc u).state = .ready)
    (hre : (k.proc u).recvOn = some e) : Ipc receiver
    ((k.setProc u { k.proc u with label := .user }).setEndpoint e
      { k.endpoint e with rwait := none }) h W := by
  set k' := (k.setProc u { k.proc u with label := .user }).setEndpoint e
    { k.endpoint e with rwait := none } with hk'
  have hum : (k.proc u).mesgOn = none := Proc.mesgOn_of_recvOn hre
  have hne : ∀ r, r ≠ u → k'.proc r = k.proc r := fun r hr => by
    rw [hk', setEndpoint_proc, setProc_proc, if_neg hr]
  have hself : k'.proc u = { k.proc u with label := .user } := by
    rw [hk', setEndpoint_proc, setProc_proc_same]
  have hsignal : ∀ e', (k'.endpoint e').signal = (k.endpoint e').signal := fun e' => by
    apply setEndpoint_keeps
    rfl
  have hkeep : ∀ {β : Type} (f : Proc → β), f { k.proc u with label := .user } = f (k.proc u) →
      ∀ r, f (k'.proc r) = f (k.proc r) := by
    intro β f hf r
    by_cases hr : r = u
    · rw [hr, hself, hf]
    · rw [hne r hr]
  have hmesgOn : ∀ r, (k'.proc r).mesgOn = (k.proc r).mesgOn := hkeep Proc.mesgOn hum.symm
  have hstate : ∀ r, (k'.proc r).state = (k.proc r).state := hkeep Proc.state rfl
  have hbound : ∀ r, (k'.proc r).boundSignal = (k.proc r).boundSignal := hkeep Proc.boundSignal rfl
  refine ⟨?_, ⟨?_, ?_, ?_⟩, ?_, ?_, ?_⟩
  · apply hi.waiting.keep
    · exact fun r => by rw [hstate]
    · intro r _
      exact ⟨hmesgOn r, hkeep Proc.wnext rfl r, hkeep Proc.wprev rfl r⟩
    · intro e'
      apply setEndpoint_keeps
      rfl
  · intro e' r
    have hrw : (k'.endpoint e').rwait = if e' = e then none else (k.endpoint e').rwait := by
      rw [hk', setEndpoint_endpoint]
      split_ifs <;> rfl
    rw [hrw]
    by_cases hru : r = u
    · rw [hru, hself]
      refine iff_of_false ?_ fun hf => by cases hf
      split_ifs with he
      · exact fun hf => by cases hf
      · rw [hi.receiving.rwait, hre]
        exact fun hf => he (Option.some.inj hf).symm
    · rw [hne r hru]
      by_cases he : e' = e
      · rw [if_pos he, he]
        refine iff_of_false (fun hf => by cases hf) fun hf => hru ?_
        exact (hi.receiving.receives e r hf).symm.trans (hi.receiving.receives e u hre)
      · rw [if_neg he]
        exact hi.receiving.rwait e' r
  · intro e' r hr
    by_cases hru : r = u
    · rw [hru, hself] at hr
      cases hr
    · rw [hne r hru] at hr
      exact hi.receiving.receives e' r hr
  · intro r hr
    have hru : r ≠ u := by
      intro he
      rw [he, hself] at hr
      have hr' : (k.proc u).state = .blockRecv := hr
      rw [hu] at hr'
      cases hr'
    rw [hstate] at hr
    obtain ⟨e', he', hq⟩ := hi.receiving.blocked r hr
    refine ⟨e', by rw [hne r hru]; exact he', (hbound r).trans hq.bound,
      (hsignal e').trans hq.signal, fun q hqW => ?_⟩
    rw [hstate]
    exact hq.sent q hqW
  · apply hi.made.keep (hkeep Proc.pid rfl)
    · rfl
    · rfl
    · exact fun r hr => .inl ((hstate r).trans hr)
    · intro r hr
      rw [hstate] at hr
      have hru : r ≠ u := fun he => by rw [he, hu] at hr; cases hr
      rw [hne r hru]
      exact hi.made.idle r hr
  · apply hi.exchanges.same hi.waiting
    · rfl
    · exact fun r _ => hkeep Proc.pid rfl r
    · exact hmesgOn
    · exact fun r _ => ⟨hstate r, hkeep Proc.m rfl r⟩
  · exact hi.signals.same hsignal hbound

theorem Ipc.answer (hi : Ipc receiver k h W) (hu : (k.proc u).state = .ready)
    (hue : (k.proc u).mesgOn = some e) : Ipc receiver (k.setProc u { k.proc u with label := .user })
    (h ++ [.answer u (k.proc u).pid (k.proc u).m, .returned u (k.proc u).pid]) W := by
  set k' := k.setProc u { k.proc u with label := .user } with hk'
  have hprocs : k'.procs = k.procs := rfl
  have hrwait : ∀ e', (k'.endpoint e').rwait = (k.endpoint e').rwait := fun _ => rfl
  have hur : (k.proc u).recvOn = none := by
    cases hr : (k.proc u).recvOn with
    | none => rfl
    | some e' => rw [Proc.mesgOn_of_recvOn hr] at hue; cases hue
  have hne : ∀ r, r ≠ u → k'.proc r = k.proc r := fun r hr => by
    rw [hk', setProc_proc, if_neg hr]
  have hself : k'.proc u = { k.proc u with label := .user } := by
    rw [hk', setProc_proc_same]
  have hstate : ∀ r, (k'.proc r).state = (k.proc r).state := fun r => by
    apply setProc_keeps
    rfl
  have hbound : ∀ r, (k'.proc r).boundSignal = (k.proc r).boundSignal := fun r => by
    apply setProc_keeps
    rfl
  have hrecvOn : ∀ r, (k'.proc r).recvOn = (k.proc r).recvOn := by
    intro r
    apply setProc_keeps Proc.recvOn
    exact hur.symm
  refine ⟨?_, ?_, ?_, ?_, ?_⟩
  · apply hi.waiting.keep
    · exact fun r => by rw [hstate]
    · intro r hr
      have hru : r ≠ u := by
        rintro rfl
        rw [hu] at hr
        exact ready_not_waits hr
      rw [hne r hru]
      exact ⟨rfl, rfl, rfl⟩
    · exact fun _ => rfl
  · apply hi.receiving.keep hrwait hrecvOn
    intro r hr
    rw [hstate] at hr
    refine ⟨hr, fun e' _ hq => ⟨(hbound r).trans hq.bound, hq.signal, fun q hqW => ?_⟩⟩
    rw [hstate]
    exact hq.sent q hqW
  · apply hi.made.keep
    · intro r
      apply setProc_keeps
      rfl
    · rfl
    · rfl
    · exact fun r hr => .inl ((hstate r).trans hr)
    · intro r hr
      rw [hstate] at hr
      have hru : r ≠ u := fun he => by rw [he, hu] at hr; cases hr
      rw [hne r hru]
      exact hi.made.idle r hr
  · apply hi.exchanges.answer hi.waiting hi.made hu hue hprocs
    · intro r
      apply setProc_keeps
      rfl
    · exact fun r hr => by rw [hne r hr]
    · exact fun r hr _ => by rw [hne r hr]; exact ⟨rfl, rfl⟩
    · rw [hself]
      rfl
  · exact hi.signals.keep (by simp [Event.pid]) (by simp [Event.received]) (fun _ => rfl) hbound

end Calls

end Agatha.Sys
