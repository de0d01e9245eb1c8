import Agatha.Sys.IpcRuns
import Agatha.Sys.Calls

namespace Agatha.Sys

open Kernel Library Library.LinkedList

def Law (k : Kernel) : Prop :=
  ∃ W : Addr → List Addr, ∀ e,
    Dll (fun p => (k.proc p).wnext) (fun p => (k.proc p).wprev)
      (k.endpoint e).waiting.head (k.endpoint e).waiting.tail (W e) ∧
    (∀ p, p ∈ W e ↔ ((k.proc p).state = .blockSend ∨ (k.proc p).state = .blockReply) ∧
      (k.proc p).label = .mesg e) ∧
    ∀ p, (k.endpoint e).rwait = some p → (∃ o, (k.proc p).label = .recv e o) ∧
      ((k.proc p).state = .blockRecv ∨ (k.proc p).state = .ready)

structure Lawful (k : Kernel) (W : Addr → List Addr) : Prop where
  waiting : Waiting k W
  rwait : ∀ e p, (k.endpoint e).rwait = some p → (k.proc p).recvOn = some e ∧
    ((k.proc p).state = .blockRecv ∨ (k.proc p).state = .ready)
  made : ∀ p, (k.proc p).state ≠ .fault → ∃ i, k.procs i = some p
  above : ∀ i, k.nextpid ≤ i → k.procs i = none

def Outcome.Obeys (u : Addr) : Outcome → Prop
  | .ret _ _ k => (∃ W, Lawful k W) ∧ k.up = some u ∧ (k.proc u).state = .ready
  | .sched _ k => ∃ W, Lawful k W
  | .panic => True
  | .stuck => True

section Calls

variable {k k' : Kernel} {W : Addr → List Addr} {p q u e : Addr} {x : Proc} {y : Endpoint} {fuel : ℕ} {mem m rq : Bytes}
  {o : Option Addr} {s : BitVec 32} {pid : ℤ} {n : Option Addr} {l : Context}

theorem Lawful.law (h : Lawful k W) : Law k := by
  refine ⟨W, fun e => ⟨h.waiting.lists.dll e, fun p => ?_, fun p hp => ?_⟩⟩
  · rw [h.waiting.mem_iff, Proc.mesgOn_eq_some]
    rfl
  · rw [← Proc.recvOn_eq_some]
    exact h.rwait e p hp

theorem Lawful.setProc (h : Lawful k W) (hw : x.state.Waits ↔ (k.proc p).state.Waits)
    (hsame : (k.proc p).state.Waits → x.mesgOn = (k.proc p).mesgOn ∧ x.wnext = (k.proc p).wnext ∧
      x.wprev = (k.proc p).wprev)
    (hr : ∀ e, (k.endpoint e).rwait = some p → x.recvOn = some e ∧ (x.state = .blockRecv ∨ x.state = .ready))
    (hm : x.state ≠ .fault → ∃ i, k.procs i = some p) : Lawful (k.setProc p x) W := by
  refine ⟨h.waiting.keep ?_ ?_ fun _ => rfl, fun e q hq => ?_, fun q hq => ?_, h.above⟩
  · intro q
    rw [setProc_proc]
    split_ifs with hqp
    · rw [hqp, hw]
    · rfl
  · intro q hq
    rw [setProc_proc]
    split_ifs with hqp
    · rw [hqp] at hq ⊢
      exact hsame hq
    · exact ⟨rfl, rfl, rfl⟩
  · rw [setProc_proc]
    split_ifs with hqp
    · exact hr e (hqp ▸ hq)
    · exact h.rwait e q hq
  · rw [setProc_proc] at hq
    split_ifs at hq with hqp
    · rw [hqp]
      exact hm hq
    · exact h.made q hq

theorem Lawful.setEndpoint (h : Lawful k W) (hw : y.waiting = (k.endpoint e).waiting)
    (hr : ∀ p, y.rwait = some p → (k.proc p).recvOn = some e ∧
      ((k.proc p).state = .blockRecv ∨ (k.proc p).state = .ready)) : Lawful (k.setEndpoint e y) W := by
  refine ⟨h.waiting.keep (fun _ => Iff.rfl) (fun _ _ => ⟨rfl, rfl, rfl⟩) ?_, fun e' p hp => ?_, h.made, h.above⟩
  · exact setEndpoint_keeps Endpoint.waiting hw
  · rw [setEndpoint_endpoint] at hp
    split_ifs at hp with he
    · rw [he]
      exact hr p hp
    · exact h.rwait e' p hp

theorem Lawful.sameEndpoint (h : Lawful k W) (hw : y.waiting = (k.endpoint e).waiting)
    (hr : y.rwait = (k.endpoint e).rwait) : Lawful (k.setEndpoint e y) W :=
  h.setEndpoint hw fun p hp => h.rwait e p (hr ▸ hp)

theorem Lawful.clear (h : Lawful k W) : Lawful (k.setEndpoint e { k.endpoint e with rwait := none }) W :=
  h.setEndpoint rfl fun p hp => by cases hp

theorem Lawful.setMem (h : Lawful k W) (mem : Bytes) : Lawful { k with mem := mem } W :=
  ⟨h.waiting.keep (fun _ => Iff.rfl) (fun _ _ => ⟨rfl, rfl, rfl⟩) fun _ => rfl, h.rwait, h.made, h.above⟩

theorem Lawful.sched (h : Lawful k W) (hk : SchedOnly k k') : Lawful k' W := by
  have ha := hk.alike
  refine ⟨h.waiting.keep ?_ ?_ ha.waiting, fun e p hp => ?_, fun p hp => ?_, fun i hn => ?_⟩
  · intro p
    rw [ha.state]
  · exact fun p _ => ⟨ha.mesgOn p, ha.wnext p, ha.wprev p⟩
  · rw [ha.rwait] at hp
    rw [ha.recvOn, ha.state]
    exact h.rwait e p hp
  · rw [ha.state] at hp
    rw [hk.procs]
    exact h.made p hp
  · rw [hk.procs]
    exact h.above i (hk.nextpid ▸ hn)

structure Unlinked (k : Kernel) (u : Addr) : Prop where
  waits : ¬ (k.proc u).state.Waits
  rwait : ∀ e, (k.endpoint e).rwait ≠ some u
  made : ∃ i, k.procs i = some u

theorem Lawful.apart (h : Lawful k W) (hs : (k.proc u).state = .ready) (hr : (k.proc u).recvOn = none) :
    Unlinked k u := by
  refine ⟨hs ▸ ready_not_waits, fun e he => ?_, h.made u (hs ▸ by decide)⟩
  have hon := (h.rwait e u he).1
  rw [hr] at hon
  cases hon

theorem Unlinked.setProc (hu : Unlinked k u) (h : Lawful k W) (hx : ¬ x.state.Waits) : Lawful (k.setProc u x) W :=
  h.setProc (iff_of_false hx hu.waits) (fun hw => absurd hw hu.waits) (fun e he => absurd he (hu.rwait e))
    fun _ => hu.made

theorem Lawful.wake (h : Lawful k W) (hp : ¬ (k.proc p).state.Waits) (hm : ∃ i, k.procs i = some p) :
    Lawful (procReady p k) W := by
  have hset : Lawful (k.setProc p { k.proc p with state := .ready }) W :=
    h.setProc (iff_of_false ready_not_waits hp) (fun hw => absurd hw hp)
      (fun e he => ⟨(h.rwait e p he).1, .inr rfl⟩) fun _ => hm
  exact hset.sched SchedOnly.procReady

theorem Lawful.rwait_waits (h : Lawful k W) (he : (k.endpoint e).rwait = some p) :
    ¬ (k.proc p).state.Waits ∧ ∃ i, k.procs i = some p := by
  obtain ⟨-, hs⟩ := h.rwait e p he
  rcases hs with hs | hs <;> exact ⟨by rw [hs]; decide, h.made p (by rw [hs]; decide)⟩

theorem Unlinked.sched (hu : Unlinked k u) (hk : SchedOnly k k') : Unlinked k' u := by
  refine ⟨?_, fun e he => ?_, ?_⟩
  · rw [hk.state]
    exact hu.waits
  · rw [hk.endpoint] at he
    exact hu.rwait e he
  · rw [hk.procs]
    exact hu.made

theorem Unlinked.setProc_ne (hu : Unlinked k u) (hp : p ≠ u) : Unlinked (k.setProc p x) u := by
  refine ⟨?_, hu.rwait, hu.made⟩
  rw [setProc_proc, if_neg (Ne.symm hp)]
  exact hu.waits

theorem Unlinked.wake (hu : Unlinked k u) (hp : p ≠ u) : Unlinked (procReady p k) u :=
  (hu.setProc_ne hp).sched SchedOnly.procReady

theorem callSchedule_obeys (h : Lawful k W) (hu : Unlinked k u) : (callSchedule u l n k).Obeys u :=
  ⟨W, hu.setProc h hu.waits⟩

theorem endpointGetPending_lawful {x : Event} (h : Lawful k W) (hs : (k.proc u).state = .ready)
    (hf : endpointGetPending fuel u e o k = .found x k') :
    Lawful k' W ∧ k'.up = k.up ∧ (k'.proc u).state = .ready := by
  unfold endpointGetPending at hf
  split_ifs at hf with hsig
  · cases hf
    exact ⟨h.sameEndpoint rfl rfl, rfl, hs⟩
  · cases hw : findWaiting (fun x => x.state = .blockSend) fuel (k.endpoint e).waiting.head k with
    | none => rw [hw] at hf; cases hf
    | some r =>
      have hspec := findWaiting_spec (h.waiting.lists.dll e).chain hw
      cases r with
      | none => rw [hw] at hf; cases hf
      | some q =>
        obtain ⟨-, -, -, hq, -⟩ := hspec
        have hqs : (k.proc q).state = .blockSend := by simpa using hq
        have hqu : u ≠ q := by
          rintro rfl
          rw [hs] at hqs
          cases hqs
        -- the sender only goes from one waiting state to the other
        have hset : Lawful (k.setProc q { k.proc q with state := .blockReply }) W := by
          apply h.setProc
          · exact iff_of_true (.inr rfl) (.inl hqs)
          · exact fun _ => ⟨rfl, rfl, rfl⟩
          · intro e' he'
            exact absurd (.inl hqs) (h.rwait_waits he').1
          · exact fun _ => h.made q (by rw [hqs]; decide)
        have hready : ((k.setProc q { k.proc q with state := .blockReply }).proc u).state = .ready := by
          rw [setProc_proc, if_neg hqu]
          exact hs
        rw [hw] at hf
        simp only at hf
        split at hf
        · cases hf
          exact ⟨hset, rfl, hready⟩
        · split_ifs at hf
          · cases hf
            exact ⟨hset, rfl, hready⟩
          · split at hf
            · cases hf
            · cases hf
              exact ⟨hset.setMem _, rfl, hready⟩

theorem recvLoop_obeys (h : Lawful k W) (hu : Unlinked k u) (hs : (k.proc u).state = .ready)
    (hup : k.up = some u) : (recvLoop fuel u e o k).Obeys u := by
  unfold recvLoop
  by_cases hb : (k.proc u).boundSignal = 0
  · rw [if_neg (not_not.mpr hb)]
    cases hg : endpointGetPending fuel u e o k with
    | panic => trivial
    | stuck => trivial
    | found x k' =>
      obtain ⟨h', hup', hs'⟩ := endpointGetPending_lawful h hs hg
      exact ⟨⟨W, h'.clear⟩, hup'.trans hup, hs'⟩
    | nothing =>
      simp only
      split_ifs
      · trivial
      · have hset : Lawful (k.setProc u { k.proc u with state := .blockRecv, label := .recv e o }) W :=
          hu.setProc h (show ¬ ProcState.blockRecv.Waits by decide)
        have hend : Lawful ((k.setProc u { k.proc u with state := .blockRecv, label := .recv e o }).setEndpoint e
            { k.endpoint e with rwait := some u }) W := by
          refine hset.setEndpoint (e := e) (y := { k.endpoint e with rwait := some u }) rfl fun p hp => ?_
          obtain rfl := Option.some.inj hp
          rw [setProc_proc_same]
          exact ⟨rfl, .inl rfl⟩
        refine ⟨W, ?_⟩
        convert hend using 1
        simp [setProc, setEndpoint, Function.update_idem]
  · rw [if_pos hb]
    refine ⟨⟨W, hu.setProc h hu.waits⟩, hup, ?_⟩
    rw [setProc_proc_same]
    exact hs

theorem recv_obeys (h : Lawful k W) (hu : Unlinked k u) (hs : (k.proc u).state = .ready)
    (hup : k.up = some u) : (recv fuel u e o k).Obeys u := by
  unfold recv
  split_ifs
  · exact ⟨⟨W, h⟩, hup, hs⟩
  · exact recvLoop_obeys h hu hs hup

theorem mesg_obeys (h : Lawful k W) (hu : Unlinked k u) : (mesg u e rq o k).Obeys u := by
  have hout : ∀ e', u ∉ W e' := fun e' hm => hu.waits ((h.waiting.mem_iff e' u).mp hm).1
  obtain ⟨n, k₀, k', hm, hk, hq⟩ := mesg_eq rq o (h.waiting.lists.tail_ne (hout e)) (hu.rwait e)
  rw [hm]
  refine ⟨Function.update W e (W e ++ [u]), Lawful.sched ⟨?_, fun e' p hp => ?_, fun p hp => ?_, ?_⟩ hk⟩
  · exact hq.waiting h.waiting hu.waits fun r hw => (h.rwait_waits hw).1
  · rw [hq.rwait] at hp
    have hpu : p ≠ u := fun he => hu.rwait e' (he ▸ hp)
    obtain ⟨hon, hst⟩ := h.rwait e' p hp
    rw [hq.other hpu]
    refine ⟨hon, ?_⟩
    simp only
    split_ifs
    · exact .inr rfl
    · exact hst
  · rw [hq.procs]
    by_cases hpu : p = u
    · rw [hpu]
      exact hu.made
    · rw [hq.other hpu] at hp
      simp only at hp
      split_ifs at hp with hw
      · exact (h.rwait_waits hw).2
      · exact h.made p hp
  · rw [hq.procs, hq.nextpid]
    exact h.above

theorem unlink_frame (hv : (k.proc q).wprev ≠ some q) :
    (unlinkPrev e q (unlinkNext e q k)).procs = k.procs ∧
      (unlinkPrev e q (unlinkNext e q k)).nextpid = k.nextpid ∧
      ∀ e', ((unlinkPrev e q (unlinkNext e q k)).endpoint e').rwait = (k.endpoint e').rwait := by
  refine ⟨?_, ?_, fun e' => ?_⟩
  · unfold unlinkPrev unlinkNext
    cases (k.proc q).wprev <;> simp only <;> split <;> rfl
  · unfold unlinkPrev unlinkNext
    cases (k.proc q).wprev <;> simp only <;> split <;> rfl
  · rw [unlink_endpoint hv]
    by_cases he : e' = e
    · rw [if_pos he, he]
    · rw [if_neg he]

theorem Lawful.reply (h : Lawful k W) (hqW : q ∈ W e) (hq : (k.proc q).state = .blockReply) :
    ∃ W', Lawful ((unlinkPrev e q (unlinkNext e q k)).setProc q
      { (unlinkPrev e q (unlinkNext e q k)).proc q with m := m, state := .ready }) W' := by
  have hv := (h.waiting.lists.neighbours_ne hqW).1
  set k₁ := unlinkPrev e q (unlinkNext e q k) with hk₁
  have hproc : ∀ r, k₁.proc r = { k.proc r with
      wnext := if (k.proc q).wprev = some r then (k.proc q).wnext else (k.proc r).wnext
      wprev := if (k.proc q).wnext = some r then (k.proc q).wprev else (k.proc r).wprev } :=
    fun r => unlink_proc hv
  obtain ⟨hprocs, hnext, hend⟩ := unlink_frame (e := e) hv
  set k₂ := k₁.setProc q { k₁.proc q with m := m, state := .ready } with hk₂
  have hself : k₂.proc q = { k₁.proc q with m := m, state := .ready } := by
    rw [hk₂, setProc_proc_same]
  have hne : ∀ r, r ≠ q → k₂.proc r = k₁.proc r := fun r hr => by rw [hk₂, setProc_proc, if_neg hr]
  have hstate : ∀ r, r ≠ q → (k₂.proc r).state = (k.proc r).state := fun r hr => by
    rw [hne r hr, hproc r]
  have hlabel : ∀ r, (k₂.proc r).label = (k.proc r).label := by
    intro r
    by_cases hr : r = q
    · rw [hr, hself, hproc q]
    · rw [hne r hr, hproc r]
  have hlinks : ∀ r, (k₂.proc r).wnext = (k₁.proc r).wnext ∧ (k₂.proc r).wprev = (k₁.proc r).wprev := by
    intro r
    by_cases hr : r = q
    · rw [hr, hself]
      exact ⟨rfl, rfl⟩
    · rw [hne r hr]
      exact ⟨rfl, rfl⟩
  refine ⟨Function.update W e ((W e).erase q), ?_, fun e' p hp => ?_, fun p hp => ?_, ?_⟩
  · refine h.waiting.unlink hqW ?_ ?_ ?_ (fun r => (hlinks r).1) (fun r => (hlinks r).2) fun _ => rfl
    · exact fun r hr => by rw [hstate r hr]
    · rw [hself]
      exact ready_not_waits
    · exact fun r => congrArg Context.mesgOn (hlabel r)
  · have hp' := (hend e').symm.trans hp
    obtain ⟨hon, hst⟩ := h.rwait e' p hp'
    have hpq : p ≠ q := fun he => (h.rwait_waits hp').1 (he ▸ .inr hq)
    rw [hstate p hpq]
    exact ⟨(congrArg Context.recvOn (hlabel p)).trans hon, hst⟩
  · rw [hk₂, setProc_procs, hprocs]
    by_cases hpq : p = q
    · rw [hpq]
      exact h.made q (by rw [hq]; decide)
    · rw [hstate p hpq] at hp
      exact h.made p hp
  · rw [hk₂, setProc_procs, setProc_nextpid, hprocs, hnext]
    exact h.above

theorem reply_obeys (h : Lawful k W) (hu : Unlinked k u) (hs : (k.proc u).state = .ready)
    (hup : k.up = some u) : (reply fuel u e pid m o k).Obeys u := by
  unfold Sys.reply
  cases hw : findWaiting (fun x => x.state = .blockReply && x.pid = pid) fuel
      (k.endpoint e).waiting.head k with
  | none => trivial
  | some r =>
    have hspec := findWaiting_spec (h.waiting.lists.dll e).chain hw
    cases r with
    | none => exact ⟨⟨W, h⟩, hup, hs⟩
    | some q =>
      obtain ⟨ys, zs, hW, hq, -⟩ := hspec
      have hqs : (k.proc q).state = .blockReply := by simpa using (Bool.and_eq_true_iff.mp hq).1
      have hqW : q ∈ W e := by simp [hW]
      have hv := (h.waiting.lists.neighbours_ne hqW).1
      obtain ⟨W', h'⟩ := h.reply (m := m) hqW hqs
      have hqu : q ≠ u := fun he => by rw [he, hs] at hqs; cases hqs
      set k₁ := unlinkPrev e q (unlinkNext e q k) with hk₁
      have hu₁ : Unlinked k₁ u := by
        refine ⟨?_, fun e' he' => ?_, ?_⟩
        · rw [hk₁, unlink_proc hv, hs]
          exact ready_not_waits
        · exact hu.rwait e' (((unlink_frame (e := e) hv).2.2 e').symm.trans he')
        · rw [hk₁, (unlink_frame hv).1]
          exact hu.made
      have hsched : ∀ mem k₃, k₃ = { k₁.setProc q { k₁.proc q with m := m } with mem := mem } →
          (callSchedule u .ret (some q) (procReady q k₃)).Obeys u := by
        intro mem k₃ hk₃
        have hsame : k₃.setProc q { k₃.proc q with state := .ready } =
            { k₁.setProc q { k₁.proc q with m := m, state := .ready } with mem := mem } := by
          simp [hk₃, setProc, Function.update_idem]
        have hset : Lawful (k₃.setProc q { k₃.proc q with state := .ready }) W' := by
          rw [hsame]
          exact h'.setMem mem
        have hu₃ : Unlinked k₃ u := by
          rw [hk₃]
          have hu₂ : Unlinked (k₁.setProc q { k₁.proc q with m := m }) u := hu₁.setProc_ne hqu
          exact ⟨hu₂.waits, hu₂.rwait, hu₂.made⟩
        exact callSchedule_obeys (hset.sched SchedOnly.procReady) (hu₃.wake hqu)
      simp only
      split
      · exact hsched _ _ rfl
      · exact hsched (k₁.setProc q { k₁.proc q with m := m }).mem _ rfl

theorem signal_obeys (h : Lawful k W) (hu : Unlinked k u) (hs : (k.proc u).state = .ready)
    (hup : k.up = some u) : (signal u e s k).Obeys u := by
  unfold Sys.signal
  cases hb : (k.endpoint e).bound with
  | some p =>
    simp only
    set k' := k.setProc p { k.proc p with boundSignal := (k.proc p).boundSignal ||| s } with hk'
    have hset : Lawful k' W :=
      h.setProc Iff.rfl (fun _ => ⟨rfl, rfl, rfl⟩) (fun e' he' => h.rwait e' p he') (h.made p)
    split_ifs with hr
    · have hpu : p ≠ u := by
        rintro rfl
        rw [hk', setProc_proc_same] at hr
        change (k.proc p).state = _ at hr
        rw [hs] at hr
        cases hr
      have hmade := hset.made p (by rw [hr]; decide)
      have hwake : Lawful (procReady p k') W := hset.wake (by rw [hr]; decide) hmade
      exact callSchedule_obeys hwake ((hu.setProc_ne hpu).wake hpu)
    · refine ⟨⟨W, hset⟩, hup, ?_⟩
      rw [hk', setProc_proc]
      split_ifs with hup'
      · rw [← hup']
        exact hs
      · exact hs
  | none =>
    simp only
    set k' := k.setEndpoint e { k.endpoint e with signal := (k.endpoint e).signal ||| s } with hk'
    have hset : Lawful k' W := h.sameEndpoint rfl rfl
    have hu' : Unlinked k' u := by
      refine ⟨hu.waits, fun e' he' => ?_, hu.made⟩
      rw [hk', setEndpoint_endpoint] at he'
      split_ifs at he' with hee
      · exact hu.rwait e he'
      · exact hu.rwait e' he'
    split
    · rename_i p hr
      have hpu : p ≠ u := fun he => hu'.rwait e (he ▸ hr)
      obtain ⟨hwaits, hmade⟩ := hset.rwait_waits hr
      exact callSchedule_obeys (hset.wake hwaits hmade) (hu'.wake hpu)
    · exact ⟨⟨W, hset⟩, hup, hs⟩

theorem exec_obeys {op : Op} (h : Lawful k W) (hu : Unlinked k u) (hs : (k.proc u).state = .ready)
    (hup : k.up = some u) : (exec fuel u op k).Obeys u := by
  cases op with
  | mesg e rq o => exact mesg_obeys h hu
  | recv e o => exact recv_obeys h hu hs hup
  | reply e pid m o => exact reply_obeys h hu hs hup
  | signal e s => exact signal_obeys h hu hs hup
  | bind e =>
    change (endpointBind u e k).Obeys u
    unfold endpointBind
    split_ifs
    · exact ⟨⟨W, h⟩, hup, hs⟩
    · exact ⟨⟨W, h.sameEndpoint rfl rfl⟩, hup, hs⟩
  | unbind e =>
    change (endpointUnbind u e k).Obeys u
    unfold endpointUnbind
    split_ifs
    · exact ⟨⟨W, h⟩, hup, hs⟩
    · exact ⟨⟨W, h.sameEndpoint rfl rfl⟩, hup, hs⟩
  | yield => exact callSchedule_obeys h hu
  | exit =>
    have hx : ¬ ProcState.fault.Waits := by decide
    have hset : Lawful (k.setProc u { k.proc u with state := .fault }) W := hu.setProc h hx
    have hu' : Unlinked (k.setProc u { k.proc u with state := .fault }) u := by
      refine ⟨?_, hu.rwait, hu.made⟩
      rw [setProc_proc_same]
      exact hx
    exact callSchedule_obeys (hset.sched SchedOnly.procFault) (hu'.sched SchedOnly.procFault)

theorem resume_obeys (h : Lawful k W) (hs : (k.proc u).state = .ready) (hup : k.up = some u) :
    (resume fuel u k).Obeys u := by
  have hready : ∀ l, ((k.setProc u { k.proc u with label := l }).proc u).state = .ready := by
    intro l
    rw [setProc_proc_same]
    exact hs
  unfold resume
  cases hl : (k.proc u).label with
  | recv e o =>
    -- the loop first takes the process out of `rwait`
    have hclear : Lawful (k.setEndpoint e { k.endpoint e with rwait := none }) W := h.clear
    have hu : Unlinked (k.setEndpoint e { k.endpoint e with rwait := none }) u := by
      refine ⟨hs ▸ ready_not_waits, fun e' he' => ?_, h.made u (by rw [hs]; decide)⟩
      have hon := (hclear.rwait e' u he').1
      obtain rfl : e = e' := by simpa [Proc.recvOn, hl, Context.recvOn] using hon
      rw [setEndpoint_endpoint_same] at he'
      cases he'
    have hset : Lawful ((k.setEndpoint e { k.endpoint e with rwait := none }).setProc u
        { k.proc u with label := .user }) W := hu.setProc hclear hu.waits
    have hu' : Unlinked ((k.setEndpoint e { k.endpoint e with rwait := none }).setProc u
        { k.proc u with label := .user }) u := by
      refine ⟨?_, hu.rwait, hu.made⟩
      rw [setProc_proc_same]
      exact hu.waits
    exact recvLoop_obeys hset hu' (hready .user) hup
  | mesg e =>
    have hu := h.apart hs (by simp [Proc.recvOn, hl, Context.recvOn])
    exact ⟨⟨W, hu.setProc h hu.waits⟩, hup, hready .user⟩
  | ret =>
    have hu := h.apart hs (by simp [Proc.recvOn, hl, Context.recvOn])
    exact ⟨⟨W, hu.setProc h hu.waits⟩, hup, hready .user⟩
  | user => exact ⟨⟨W, h⟩, hup, hs⟩

theorem run_obeys {op : Op} (h : Lawful k W) (hs : (k.proc u).state = .ready) (hup : k.up = some u) :
    (run fuel u op k).Obeys u := by
  unfold run
  split_ifs with hl
  · exact exec_obeys h (h.apart hs (by simp [Proc.recvOn, hl, Context.recvOn])) hs hup
  · exact resume_obeys h hs hup

end Calls

/-- What `sys_proc_start` should have of its target: it is not in the middle of a call that others know of, and
runs already or has been set up. -/
structure Startable (k : Kernel) (o : Addr) : Prop where
  waits : ¬ (k.proc o).state.Waits
  rwait : ∀ e, (k.endpoint e).rwait ≠ some o
  whole : (k.proc o).state ≠ .ready → (k.proc o).capRoot ≠ none ∧ (k.proc o).vspace ≠ 0

/-- One step of the system: processes are made, set up and started, and the one that runs goes on with its kernel
path or makes a call. The calls that act on frames and capabilities alone are the step `mem`. -/
inductive KernelStep (systick : ℤ) : Kernel → Kernel → Prop
  | make {k : Kernel} {p : Addr} (fresh : ∀ i, k.procs i ≠ some p) :
      KernelStep systick k (procInit systick p (k.setProc p .zero))
  | root {k : Kernel} (p vspace c : Addr) (made : ∃ i, k.procs i = some p)
      (unstarted : (k.proc p).state = .fault) :
      KernelStep systick k (procReady p (k.setProc p { k.proc p with vspace := vspace, capRoot := some c }))
  | first {k k' : Kernel} (idle : k.up = none) (switch : Switches none k k') : KernelStep systick k k'
  | ret {k k' : Kernel} {u : Addr} {op : Op} {fuel : ℕ} {r : ℤ} {ev : List Event} (running : k.up = some u)
      (runs : run fuel u op k = .ret r ev k') : KernelStep systick k k'
  | sched {k k' k'' : Kernel} {u : Addr} {op : Op} {fuel : ℕ} {n : Option Addr}
      (running : k.up = some u) (runs : run fuel u op k = .sched n k') (switch : Switches n k' k'') :
      KernelStep systick k k''
  | mem {k : Kernel} (mem : Bytes) : KernelStep systick k { k with mem := mem }
  | priority {k : Kernel} {p n : ℕ} : KernelStep systick k (procSetPriority p n k)
  | setup {k k' : Kernel} {u : Addr} {cid vspace clist eid r : ℤ} {ev : List Making} (running : k.up = some u)
      (user : (k.proc u).label = .user) (runs : sysProcSetup u cid vspace clist eid k = some (r, ev, k')) :
      KernelStep systick k k'
  | start {k k' : Kernel} {u : Addr} {cid r : ℤ} {ev : List Event} (running : k.up = some u)
      (user : (k.proc u).label = .user)
      (target : ∀ o, findObject u cid k = some o → objType k.mem o = objProc →
        (∃ i, k.procs i = some o) ∧ Startable k o)
      (runs : sysProcStart u cid k = .ret r ev k') : KernelStep systick k k'

def KernelRun (systick : ℤ) (mem : Bytes) : Kernel → Prop :=
  Relation.ReflTransGen (KernelStep systick) (.boot mem)

structure KernelState (k : Kernel) : Prop where
  lawful : ∃ W, Lawful k W
  running : ∀ u, k.up = some u → (k.proc u).state = .ready

section Runs

variable {k k' : Kernel} {W : Addr → List Addr} {p u o : Addr} {systick : ℤ} {mem : Bytes}
  {cid vspace clist eid r : ℤ} {ev : List Event}

theorem Lawful.fresh (h : Lawful k W) (hp : ∀ i, k.procs i ≠ some p) : (k.proc p).state = .fault := by
  by_contra hs
  obtain ⟨i, hi⟩ := h.made p hs
  exact hp i hi

theorem Lawful.idle (h : Lawful k W) {x : Proc} (hp : (k.proc p).state = .fault) (hx : ¬ x.state.Waits)
    (hm : x.state ≠ .fault → ∃ i, k.procs i = some p) : Lawful (k.setProc p x) W := by
  have hw : ¬ (k.proc p).state.Waits := by
    rw [hp]
    decide
  refine h.setProc (iff_of_false hx hw) (fun hw' => absurd hw' hw) (fun e he => ?_) hm
  obtain ⟨-, hs⟩ := h.rwait e p he
  rw [hp] at hs
  rcases hs with hs | hs <;> cases hs

theorem Lawful.make (h : Lawful k W) (hp : ∀ i, k.procs i ≠ some p) :
    Lawful (procInit systick p (k.setProc p .zero)) W := by
  have hfault := h.fresh hp
  have hzero : Lawful (k.setProc p .zero) W := h.idle hfault (by decide) fun hs => absurd rfl hs
  let k₁ : Kernel := { k.setProc p .zero with
    nextpid := k.nextpid + 1, procs := Function.update k.procs k.nextpid (some p) }
  have h₁ : Lawful k₁ W := by
    refine ⟨hzero.waiting.keep (fun _ => Iff.rfl) (fun _ _ => ⟨rfl, rfl, rfl⟩) fun _ => rfl, hzero.rwait,
      fun q hq => ?_, fun i hi => ?_⟩
    · obtain ⟨i, hi⟩ := hzero.made q hq
      refine ⟨i, ?_⟩
      have hne : i ≠ k.nextpid := by
        rintro rfl
        rw [setProc_procs, h.above _ le_rfl] at hi
        cases hi
      exact (Function.update_of_ne hne ..).trans hi
    · change k.nextpid + 1 ≤ i at hi
      exact (Function.update_of_ne (by omega) ..).trans (h.above i (by omega))
  refine h₁.idle ?_ ?_ fun hs => absurd rfl hs
  · change ((k.setProc p .zero).proc p).state = .fault
    rw [setProc_proc_same]
    rfl
  · change ¬ ProcState.fault.Waits
    decide

theorem procReady_up : (procReady p k).up = k.up := by
  unfold procReady
  simp only
  split_ifs
  · exact addToListTail_up
  · rfl

theorem procReady_state (q : Addr) :
    ((procReady p k).proc q).state = if q = p then .ready else (k.proc q).state := by
  have hk : SchedOnly (k.setProc p { k.proc p with state := .ready }) (procReady p k) := SchedOnly.procReady
  rw [hk.state, setProc_proc]
  split_ifs <;> rfl

theorem procSetPriority_frame (n : ℕ) : ∃ n', SchedOnly (k.setProc p { k.proc p with priority := n' })
    (procSetPriority p n k) ∧ (procSetPriority p n k).up = k.up := by
  unfold procSetPriority
  simp only
  generalize (if n > priorityMax then priorityMax else n) = n'
  refine ⟨n', ?_, ?_⟩
  · split
    · exact SchedOnly.removeFromList.trans SchedOnly.addToListTail
    · exact SchedOnly.refl
  · split
    · rw [addToListTail_up, removeFromList_up]
      rfl
    · rfl

theorem sysProcSetup_frame {x : List Making} (hr : sysProcSetup u cid vspace clist eid k = some (r, x, k')) :
    ∃ o v c m, k' = { k.setProc o { k.proc o with vspace := v, capRoot := c } with mem := m } := by
  have hrefl : ∃ o v c m, k = { k.setProc o { k.proc o with vspace := v, capRoot := c } with mem := m } :=
    ⟨0, (k.proc 0).vspace, (k.proc 0).capRoot, k.mem, by simp [setProc]⟩
  unfold sysProcSetup at hr
  split at hr
  · cases hr
    exact hrefl
  · rename_i c hc
    split at hr
    · cases hr
      exact hrefl
    · rename_i v hv
      simp only at hr
      split at hr
      · rename_i l e hl he
        cases hr
        refine ⟨capObj k.mem c, framePa k.mem (capObj k.mem v), some (capObj k.mem l), (procGiveRoot (capObj k.mem c)
          v l e k).mem, ?_⟩
        simp only [procGiveRoot, setProc, Function.update_idem, Function.update_self]
      · cases hr
        exact ⟨capObj k.mem c, _, (k.proc (capObj k.mem c)).capRoot, k.mem, rfl⟩

theorem Lawful.setup {x : List Making} (h : Lawful k W)
    (hr : sysProcSetup u cid vspace clist eid k = some (r, x, k')) :
    Lawful k' W ∧ k'.up = k.up ∧ ∀ p, (k'.proc p).state = (k.proc p).state := by
  obtain ⟨o, v, c, m, rfl⟩ := sysProcSetup_frame hr
  refine ⟨?_, rfl, fun p => ?_⟩
  · have hset : Lawful (k.setProc o { k.proc o with vspace := v, capRoot := c }) W :=
      h.setProc Iff.rfl (fun _ => ⟨rfl, rfl, rfl⟩) (h.rwait · o) (h.made o)
    exact hset.setMem m
  · change ((k.setProc o _).proc p).state = _
    rw [setProc_proc]
    split_ifs with hp
    · rw [hp]
    · rfl

theorem sysProcStart_cases (hr : sysProcStart u cid k = .ret r ev k') :
    k' = k ∨ ∃ o, findObject u cid k = some o ∧ objType k.mem o = objProc ∧
      k' = procReady o (k.setProc o { k.proc o with label := .user }) := by
  unfold sysProcStart at hr
  split at hr
  · cases hr
    exact .inl rfl
  · rename_i o ho
    split_ifs at hr with hz ht
    · cases hr
      exact .inl rfl
    · cases hr
      exact .inr ⟨o, ho, not_not.mp ht, rfl⟩

theorem Lawful.start (h : Lawful k W) (hu : Unlinked k o) :
    Lawful (procReady o (k.setProc o { k.proc o with label := .user })) W := by
  have hset : Lawful (k.setProc o { k.proc o with label := .user }) W := hu.setProc h hu.waits
  apply hset.wake
  · rw [setProc_proc_same]
    exact hu.waits
  · exact hu.made

theorem Lawful.start_apart (h : Lawful k W) (hm : ∃ i, k.procs i = some o)
    (hlaw : Law (procReady o (k.setProc o { k.proc o with label := .user }))) : Unlinked k o := by
  set k₁ := k.setProc o { k.proc o with label := .user } with hk₁
  have hk : SchedOnly (k₁.setProc o { k₁.proc o with state := .ready }) (procReady o k₁) := SchedOnly.procReady
  have hnext : ∀ p, ((procReady o k₁).proc p).wnext = (k.proc p).wnext := by
    intro p
    rw [hk.alike.wnext, setProc_proc]
    split_ifs with hp
    · rw [hk₁, setProc_proc_same, hp]
    · rw [hk₁, setProc_proc, if_neg hp]
  have hend : ∀ e, (procReady o k₁).endpoint e = k.endpoint e := by
    intro e
    rw [hk.endpoint]
    rfl
  have hlabel : ((procReady o k₁).proc o).label = .user := by
    have hsame := hk.proc o
    rw [setProc_proc_same, hk₁, setProc_proc_same] at hsame
    rw [hsame]
  have hstate : ((procReady o k₁).proc o).state = .ready := by
    rw [procReady_state, if_pos rfl]
  obtain ⟨W', hW'⟩ := hlaw
  refine ⟨fun hw => ?_, fun e he => ?_, hm⟩
  · obtain ⟨e, he⟩ := Option.ne_none_iff_exists'.mp (h.waiting.calling o hw)
    have hmem : o ∈ W e := (h.waiting.mem_iff e o).mpr ⟨hw, he⟩
    obtain ⟨hdll, hiff, -⟩ := hW' e
    have hchain := hdll.chain
    rw [hend e, funext hnext] at hchain
    -- the links are the same, so the list is
    rw [(h.waiting.lists.dll e).chain.unique hchain, hiff, hstate] at hmem
    exact ready_not_waits hmem.1
  · obtain ⟨-, -, hr⟩ := hW' e
    obtain ⟨⟨o', ho'⟩, -⟩ := hr o (by rw [hend e]; exact he)
    rw [hlabel] at ho'
    cases ho'

theorem boot_lawful : Lawful (.boot mem) fun _ => [] where
  waiting :=
    have h : Ipc (fun _ => 0) (.boot mem) [] fun _ => [] := boot_ipc
    h.waiting
  rwait := fun _ _ hp => by cases hp
  made := fun _ hp => absurd rfl hp
  above := fun _ _ => rfl

theorem KernelStep.state (h : KernelState k) (hstep : KernelStep systick k k') : KernelState k' := by
  obtain ⟨⟨W, h⟩, hup⟩ := h
  cases hstep with
  | @make p fresh =>
    refine ⟨⟨W, h.make fresh⟩, fun u hu => ?_⟩
    have hne : u ≠ p := by
      rintro rfl
      have hready := hup u hu
      rw [h.fresh fresh] at hready
      cases hready
    unfold procInit
    rw [setProc_proc, if_neg hne]
    change ((k.setProc p .zero).proc u).state = _
    rw [setProc_proc, if_neg hne]
    exact hup u hu
  | root p vspace c made unstarted =>
    set k₁ := k.setProc p { k.proc p with vspace := vspace, capRoot := some c } with hk₁
    have hfault : (k₁.proc p).state = .fault := by
      rw [hk₁, setProc_proc_same]
      exact unstarted
    have hset : Lawful k₁ W := h.idle unstarted (by rw [unstarted]; decide) fun hs => absurd unstarted hs
    refine ⟨⟨W, hset.wake (by rw [hfault]; decide) made⟩, fun u hu => ?_⟩
    rw [procReady_up] at hu
    rw [procReady_state]
    split_ifs with hup'
    · rfl
    · rw [hk₁, setProc_proc, if_neg hup']
      exact hup u hu
  | first idle switch =>
    obtain ⟨hk, p, hp, hready⟩ := switch
    exact ⟨⟨W, h.sched hk⟩, fun u hu => Option.some.inj (hp.symm.trans hu) ▸ hready⟩
  | @ret _ u op fuel r ev running runs =>
    have hobeys : (run fuel u op k).Obeys u := run_obeys h (hup _ running) running
    rw [runs] at hobeys
    obtain ⟨h', hup', hready⟩ := hobeys
    exact ⟨h', fun u hu => Option.some.inj (hup'.symm.trans hu) ▸ hready⟩
  | @sched k₁ _ u op fuel n running runs switch =>
    have hobeys : (run fuel u op k).Obeys u := run_obeys h (hup _ running) running
    rw [runs] at hobeys
    obtain ⟨W', h'⟩ := hobeys
    obtain ⟨hk, p, hp, hready⟩ := switch
    exact ⟨⟨W', h'.sched hk⟩, fun u hu => Option.some.inj (hp.symm.trans hu) ▸ hready⟩
  | mem m => exact ⟨⟨W, h.setMem m⟩, hup⟩
  | @priority p n =>
    obtain ⟨n', hk, hupk⟩ := procSetPriority_frame (k := k) (p := p) n
    have hset : Lawful (k.setProc p { k.proc p with priority := n' }) W :=
      h.setProc Iff.rfl (fun _ => ⟨rfl, rfl, rfl⟩) (h.rwait · p) (h.made p)
    refine ⟨⟨W, hset.sched hk⟩, fun u hu => ?_⟩
    rw [hk.state, setProc_proc]
    have hready := hup u (hupk ▸ hu)
    split_ifs with hup'
    · rw [← hup']
      exact hready
    · exact hready
  | setup running user runs =>
    obtain ⟨h', hup', hstate⟩ := h.setup runs
    refine ⟨⟨W, h'⟩, fun u hu => ?_⟩
    rw [hstate]
    exact hup u (hup' ▸ hu)
  | @start _ u cid r ev running user target runs =>
    rcases sysProcStart_cases runs with rfl | ⟨o, ho, ht, rfl⟩
    · exact ⟨⟨W, h⟩, hup⟩
    · obtain ⟨hm, hs⟩ := target o ho ht
      refine ⟨⟨W, h.start ⟨hs.waits, hs.rwait, hm⟩⟩, fun u hu => ?_⟩
      rw [procReady_up] at hu
      rw [procReady_state]
      split_ifs with hup'
      · rfl
      · rw [setProc_proc, if_neg hup']
        exact hup u hu

theorem KernelRun.state (hk : KernelRun systick mem k) : KernelState k := by
  induction hk with
  | refl => exact ⟨⟨_, boot_lawful⟩, fun u hu => by cases hu⟩
  | tail _ hstep ih => exact hstep.state ih

def WakesWhole (k k' : Kernel) : Prop :=
  ∀ p, (k'.proc p).state = .ready → (k.proc p).state ≠ .ready →
    (k'.proc p).capRoot ≠ none ∧ (k'.proc p).vspace ≠ 0

theorem procReady_whole (k : Kernel) (o : Addr) :
    WakesWhole k (procReady o (k.setProc o { k.proc o with label := .user })) ↔
      ((k.proc o).state ≠ .ready → (k.proc o).capRoot ≠ none ∧ (k.proc o).vspace ≠ 0) := by
  set k₁ := k.setProc o { k.proc o with label := .user } with hk₁
  have hk : SchedOnly (k₁.setProc o { k₁.proc o with state := .ready }) (procReady o k₁) := SchedOnly.procReady
  have hself : ((procReady o k₁).proc o).capRoot = (k.proc o).capRoot ∧
      ((procReady o k₁).proc o).vspace = (k.proc o).vspace := by
    rw [hk.proc o, setProc_proc_same, hk₁, setProc_proc_same]
    exact ⟨rfl, rfl⟩
  constructor
  · intro h hs
    rw [← hself.1, ← hself.2]
    apply h o _ hs
    rw [procReady_state, if_pos rfl]
  · intro h p hp hs
    by_cases hpo : p = o
    · rw [hpo, hself.1, hself.2]
      exact h (hpo ▸ hs)
    · rw [procReady_state, if_neg hpo, hk₁, setProc_proc, if_neg hpo] at hp
      exact absurd hp hs

/-- In every run in which `sys_proc_start` is given only processes that can be started, the law holds in every
state; the setup of a process keeps it and makes no process ready, and the start keeps it, and makes ready a whole
process, just if the process can be started. -/
theorem proc_start_lawful (hk : KernelRun systick mem k) : Law k ∧
    (∀ u cid vspace clist eid r ev k', sysProcSetup u cid vspace clist eid k = some (r, ev, k') →
      Law k' ∧ ∀ p, (k'.proc p).state = (k.proc p).state) ∧
    ∀ u cid o r ev k', findObject u cid k = some o → objType k.mem o = objProc →
      (∃ i, k.procs i = some o) → sysProcStart u cid k = .ret r ev k' →
      (Law k' ∧ WakesWhole k k' ↔ Startable k o) := by
  obtain ⟨⟨W, h⟩, -⟩ := hk.state
  refine ⟨h.law, fun u cid vspace clist eid r ev k' hr => ?_, fun u cid o r ev k' ho ht hm hr => ?_⟩
  · obtain ⟨h', -, hstate⟩ := h.setup hr
    exact ⟨h'.law, hstate⟩
  · have hk' : k' = procReady o (k.setProc o { k.proc o with label := .user }) := by
      unfold sysProcStart at hr
      rw [ho] at hr
      simp only at hr
      split_ifs at hr with hz ht'
      · exact absurd ht ht'
      · cases hr
        rfl
    rw [hk', procReady_whole]
    constructor
    · rintro ⟨hlaw, hwhole⟩
      have hu := h.start_apart hm hlaw
      exact ⟨hu.waits, hu.rwait, hwhole⟩
    · exact fun hs => ⟨(h.start ⟨hs.waits, hs.rwait, hm⟩).law, hs.whole⟩

end Runs

/-- The caplist at 65536 that process 4096 has for its root, with capabilities to process 8192, the frame at 12288,
the caplist at 16384 and the endpoint at 64. -/
def caplists : Bytes :=
  let cap := fun (i o : ℕ) => setCap (capSlot 65536 i) (capRead ||| capWrite) o
  let mem := setHead 8192 objProc 1 (setHead 12288 objFrame 1 fun _ => 0)
  let mem := setHead 16384 objCaplist 1 (setHead 64 objEndpoint 1 (mem.put32 (12288 + 8) 20480))
  cap 4 8192 (cap 5 12288 (cap 6 16384 (cap 7 64 mem)))

def setUp (u : Addr) (cid vspace clist eid : ℤ) (k : Kernel) : Kernel :=
  ((sysProcSetup u cid vspace clist eid k).map fun x => x.2.2).getD k

def startUp (u : Addr) (cid : ℤ) (k : Kernel) : Kernel :=
  match sysProcStart u cid k with
  | .ret _ _ k' => k'
  | _ => k

def takeTurn (u : Addr) (op : Op) (p : Addr) (k : Kernel) : Kernel := (turn 4 u op p (k, [])).1

def oneMade : Kernel :=
  let k := procReady 4096 ((procInit 500 4096 ((Kernel.boot fun _ => 0).setProc 4096 .zero)).setProc 4096
    { (procInit 500 4096 ((Kernel.boot fun _ => 0).setProc 4096 .zero)).proc 4096 with
      vspace := 32768, capRoot := some 65536 })
  let k := procInit 500 8192 (k.setProc 8192 .zero)
  { k with mem := caplists, up := some 4096 }

def oneCalling : Kernel :=
  let k := startUp 4096 (4 * 4096) (setUp 4096 (4 * 4096) (5 * 4096) (6 * 4096) (7 * 4096) oneMade)
  takeTurn 4096 .yield 4096 (takeTurn 8192 (.mesg 64 (fun _ => 7) none) 4096 (takeTurn 4096 .yield 8192 k))

section Calling

variable {k : Kernel} {systick : ℤ} {mem : Bytes} {u o : Addr} {cid vspace clist eid : ℤ}

theorem setUp_run (hk : KernelRun systick mem k) (running : k.up = some u) (user : (k.proc u).label = .user) :
    KernelRun systick mem (setUp u cid vspace clist eid k) := by
  unfold setUp
  cases hr : sysProcSetup u cid vspace clist eid k with
  | none => exact hk
  | some x => exact hk.tail (.setup running user hr)

theorem startUp_run (cid : ℤ) (hk : KernelRun systick mem k) (running : k.up = some u) (user : (k.proc u).label = .user)
    (ho : findObject u cid k = some o) (hm : ∃ i, k.procs i = some o) (hs : (k.proc o).state = .fault)
    (hw : (k.proc o).capRoot ≠ none ∧ (k.proc o).vspace ≠ 0) : KernelRun systick mem (startUp u cid k) := by
  obtain ⟨⟨W, h⟩, -⟩ := hk.state
  have hstart : Startable k o := by
    refine ⟨?_, fun e he => ?_, fun _ => hw⟩
    · rw [hs]
      decide
    · obtain ⟨-, hs'⟩ := h.rwait e o he
      rw [hs] at hs'
      rcases hs' with hs' | hs' <;> cases hs'
  unfold startUp
  split
  · rename_i r ev k' hr
    refine hk.tail (.start running user (fun o' ho' _ => ?_) hr)
    obtain rfl := Option.some.inj (ho.symm.trans ho')
    exact ⟨hm, hstart⟩
  · exact hk

theorem takeTurn_run (op : Op) (p : Addr) (hk : KernelRun systick mem k) (running : k.up = some u)
    (hp : ((takeTurn u op p k).proc p).state = .ready) : KernelRun systick mem (takeTurn u op p k) := by
  unfold takeTurn turn at hp ⊢
  split
  · rename_i r ev k' hr
    exact hk.tail (.ret running hr)
  · rename_i n k' hr
    rw [hr] at hp
    exact hk.tail (.sched running hr ⟨⟨fun _ => rfl, rfl, rfl, rfl, rfl, rfl⟩, p, rfl, hp⟩)
  · exact hk

end Calling

theorem oneMade_run : KernelRun 500 (fun _ => 0) oneMade := by
  have h₁ : KernelRun 500 (fun _ => 0) (procInit 500 4096 ((Kernel.boot fun _ => 0).setProc 4096 .zero)) :=
    .single (.make fun i hi => by cases hi)
  have h₂ := h₁.tail (.root 4096 32768 65536 ⟨1, rfl⟩ rfl)
  have h₃ := h₂.tail (.make (p := 8192) fun i hi => by
    rw [(SchedOnly.procReady (p := 4096)).procs] at hi
    by_cases h1 : i = 1 <;> simp [procInit, Kernel.boot, h1] at hi)
  have h₄ := h₃.tail (.mem caplists)
  exact h₄.tail (.first rfl ⟨⟨fun _ => rfl, rfl, rfl, rfl, rfl, rfl⟩, 4096, rfl, by decide +kernel⟩)

theorem oneCalling_run : KernelRun 500 (fun _ => 0) oneCalling := by
  have h₁ : KernelRun 500 (fun _ => 0) (setUp 4096 (4 * 4096) (5 * 4096) (6 * 4096) (7 * 4096) oneMade) :=
    setUp_run oneMade_run rfl (by decide +kernel)
  have h₂ := startUp_run (u := 4096) (o := 8192) (4 * 4096) h₁ (by decide +kernel) (by decide +kernel)
    (by decide +kernel) ⟨2, by decide +kernel⟩ (by decide +kernel) (by decide +kernel)
  have h₃ := takeTurn_run (u := 4096) .yield 8192 h₂ (by decide +kernel) (by decide +kernel)
  have h₄ := takeTurn_run (u := 8192) (.mesg 64 (fun _ => 7) none) 4096 h₃ (by decide +kernel)
    (by decide +kernel)
  exact takeTurn_run (u := 4096) .yield 4096 h₄ (by decide +kernel) (by decide +kernel)

theorem proc_start_lawful_oneCalling : Law oneCalling :=
  (proc_start_lawful oneCalling_run).1

theorem sysProcStart_eq {k : Kernel} {u o : Addr} {cid : ℤ} (ho : findObject u cid k = some o) (hz : o ≠ 0)
    (ht : objType k.mem o = objProc) :
    sysProcStart u cid k = .ret OK [] (procReady o (k.setProc o { k.proc o with label := .user })) := by
  unfold sysProcStart
  rw [ho]
  simp only
  rw [if_neg hz, if_neg (not_not.mpr ht)]

theorem proc_start_unlawful :
    (∃ k k', KernelRun 500 (fun _ => 0) k ∧ k.up = some 4096 ∧ objType k.mem 8192 = objProc ∧
      k.procs 2 = some 8192 ∧ findObject 4096 (4 * 4096) k = some 8192 ∧
      sysProcStart 4096 (4 * 4096) k = .ret OK [] k' ∧ ¬ Law k') ∧
    ∃ k k', KernelRun 500 (fun _ => 0) k ∧ k.up = some 4096 ∧ objType k.mem 8192 = objProc ∧
      k.procs 2 = some 8192 ∧ findObject 4096 (4 * 4096) k = some 8192 ∧
      sysProcStart 4096 (4 * 4096) k = .ret OK [] k' ∧ ¬ WakesWhole k k' := by
  have hcall : findObject 4096 (4 * 4096) oneCalling = some 8192 := by decide +kernel
  have hmade : findObject 4096 (4 * 4096) oneMade = some 8192 := by decide +kernel
  have htype : objType oneCalling.mem 8192 = objProc := by decide +kernel
  have htype' : objType oneMade.mem 8192 = objProc := by decide +kernel
  have hprocs : oneCalling.procs 2 = some 8192 := by decide +kernel
  refine ⟨⟨oneCalling, _, oneCalling_run, by decide +kernel, htype, hprocs, hcall,
    sysProcStart_eq hcall (by decide) htype, fun hlaw => ?_⟩, ⟨oneMade, _, oneMade_run, rfl, htype',
    by decide +kernel, hmade, sysProcStart_eq hmade (by decide) htype', fun hwhole => ?_⟩⟩
  · obtain ⟨⟨W, h⟩, -⟩ := oneCalling_run.state
    have hwaits : (oneCalling.proc 8192).state.Waits := by decide +kernel
    exact (h.start_apart ⟨2, hprocs⟩ hlaw).waits hwaits
  · have hroot : (oneMade.proc 8192).capRoot = none := by decide +kernel
    have hfault : (oneMade.proc 8192).state ≠ .ready := by decide +kernel
    exact ((procReady_whole _ _).mp hwhole hfault).1 hroot

end Agatha.Sys
