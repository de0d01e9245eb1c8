import Agatha.Sys.IpcPaths

namespace Agatha.Sys

open Kernel Library Library.LinkedList Library.SignalWord

def Switches (_ : Option Addr) (k k' : Kernel) : Prop :=
  SchedOnly k k' ∧ ∃ p, k'.up = some p ∧ (k'.proc p).state = .ready

/-- One step of the system, whose scheduler is `Sched`, together with the events so far. A process
is made and started once, receives only from endpoints that are its own, and runs either until it
comes back to user mode or until it sleeps. What it asks for, and that it came back from a `mesg`,
is told here and not by the call. -/
inductive IpcStep (Sched : Option Addr → Kernel → Kernel → Prop) (systick : ℤ)
    (receiver : Addr → Addr) : Kernel × List Event → Kernel × List Event → Prop
  | make {k : Kernel} {h : List Event} {p : Addr} (fresh : ∀ i, k.procs i ≠ some p) :
      IpcStep Sched systick receiver (k, h) (procInit systick p k, h)
  | start {k : Kernel} {h : List Event} {p : Addr} (made : ∃ i, k.procs i = some p)
      (unstarted : (k.proc p).state = .fault) :
      IpcStep Sched systick receiver (k, h) (procReady p k, h)
  | first {k k' : Kernel} {h : List Event} (idle : k.up = none) (switch : Sched none k k') :
      IpcStep Sched systick receiver (k, h) (k', h)
  | ret {k k' : Kernel} {h ev : List Event} {u : Addr} {op : Op} {fuel : ℕ} {r : ℤ}
      (running : k.up = some u) (own : ∀ e o, op = .recv e o → receiver e = u)
      (runs : run fuel u op k = .ret r ev k') :
      IpcStep Sched systick receiver (k, h)
        (k', h ++ (asked u op k (r = ERR) ++ ev ++ mesgReturned u op k))
  | sched {k k' k'' : Kernel} {h : List Event} {u : Addr} {op : Op} {fuel : ℕ} {n : Option Addr}
      (running : k.up = some u) (own : ∀ e o, op = .recv e o → receiver e = u)
      (runs : run fuel u op k = .sched n k') (switch : Sched n k' k'') :
      IpcStep Sched systick receiver (k, h) (k'', h ++ asked u op k false)

def IpcReach (Sched : Option Addr → Kernel → Kernel → Prop) (systick : ℤ) (receiver : Addr → Addr)
    (mem : Bytes) : Kernel × List Event → Prop :=
  Relation.ReflTransGen (IpcStep Sched systick receiver) (.boot mem, [])

section Runs

variable {receiver : Addr → Addr} {k k' : Kernel} {h : List Event} {W : Addr → List Addr}
variable {p : Addr} {systick : ℤ}

theorem procInit_proc_ne {r : Addr} (hr : r ≠ p) : (procInit systick p k).proc r = k.proc r := by
  unfold procInit
  rw [setProc_proc, if_neg hr]

theorem procInit_proc_same : (procInit systick p k).proc p = { k.proc p with
    label := .user, pid := k.nextpid, priority := 0, ts := systick, slist := none, sprev := none,
    snext := none, wprev := none, wnext := none, state := .fault } := by
  unfold procInit
  rw [setProc_proc_same]

theorem procInit_procs {i : ℕ} {r : Addr} (hmade : Made k) :
    (procInit systick p k).procs i = some r ↔ (i = k.nextpid ∧ r = p) ∨ k.procs i = some r := by
  change Function.update k.procs k.nextpid (some p) i = some r ↔ _
  by_cases hi : i = k.nextpid
  · subst hi
    rw [Function.update_self, hmade.above _ le_rfl]
    simp [eq_comm]
  · rw [Function.update_of_ne hi]
    simp [hi]

structure Unmade (k : Kernel) (p : Addr) : Prop where
  fresh : ∀ i, k.procs i ≠ some p
  fault : (k.proc p).state = .fault
  recvOn : (k.proc p).recvOn = none
  mesgOn : (k.proc p).mesgOn = none

theorem Made.unmade (hmade : Made k) (hp : ∀ i, k.procs i ≠ some p) : Unmade k p := by
  have hfault : (k.proc p).state = .fault := by
    by_contra hs
    obtain ⟨i, hi⟩ := hmade.started p hs
    exact hp i hi
  obtain ⟨hr, hm⟩ := hmade.idle p hfault
  exact ⟨hp, hfault, hr, hm⟩

theorem procInit_keeps {β : Type} (f : Proc → β)
    (hf : f ((procInit systick p k).proc p) = f (k.proc p)) (r : Addr) :
    f ((procInit systick p k).proc r) = f (k.proc r) := by
  by_cases hr : r = p
  · rw [hr, hf]
  · rw [procInit_proc_ne hr]

theorem Unmade.state (hu : Unmade k p) (r : Addr) :
    ((procInit systick p k).proc r).state = (k.proc r).state :=
  procInit_keeps Proc.state (by rw [procInit_proc_same, hu.fault]) r

theorem Unmade.recvs (hu : Unmade k p) (r : Addr) :
    ((procInit systick p k).proc r).recvOn = (k.proc r).recvOn :=
  procInit_keeps Proc.recvOn (by rw [procInit_proc_same, hu.recvOn]; rfl) r

theorem Unmade.mesgs (hu : Unmade k p) (r : Addr) :
    ((procInit systick p k).proc r).mesgOn = (k.proc r).mesgOn :=
  procInit_keeps Proc.mesgOn (by rw [procInit_proc_same, hu.mesgOn]; rfl) r

theorem procInit_bound (r : Addr) :
    ((procInit systick p k).proc r).boundSignal = (k.proc r).boundSignal :=
  procInit_keeps Proc.boundSignal (by rw [procInit_proc_same]) r

theorem Unmade.calling (hu : Unmade k p) {r : Addr} (hr : (k.proc r).mesgOn ≠ none) :
    (procInit systick p k).proc r = k.proc r := by
  apply procInit_proc_ne
  rintro rfl
  exact hr hu.mesgOn

theorem Made.make (hmade : Made k) (hu : Unmade k p) : Made (procInit systick p k) := by
  constructor
  · intro i r hr
    rcases (procInit_procs hmade).mp hr with ⟨rfl, rfl⟩ | hr
    · rw [procInit_proc_same]
    · have hrp : r ≠ p := fun he => hu.fresh i (he ▸ hr)
      rw [procInit_proc_ne hrp]
      exact hmade.pid i r hr
  · intro i hin
    have hin' : k.nextpid + 1 ≤ i := hin
    change Function.update k.procs k.nextpid (some p) i = none
    rw [Function.update_of_ne (by omega)]
    exact hmade.above i (by omega)
  · intro r hr
    rw [hu.state] at hr
    obtain ⟨i, hri⟩ := hmade.started r hr
    exact ⟨i, (procInit_procs hmade).mpr (.inr hri)⟩
  · intro r hr
    rw [hu.recvs, hu.mesgs]
    exact hmade.idle r ((hu.state r).symm.trans hr)

theorem Exchanges.make (hx : Exchanges k W h) (hw : Waiting k W) (hmade : Made k)
    (hu : Unmade k p) : Exchanges (procInit systick p k) W h := by
  have hmem : ∀ e, ∀ r ∈ W e, (procInit systick p k).proc r = k.proc r := fun e r hr =>
    hu.calling (hw.calling r ((hw.mem_iff e r).mp hr).1)
  constructor
  · intro e
    rw [← hx.unanswered e]
    exact List.map_congr_left fun r hr => by rw [hmem e r hr]
  · intro e
    rw [hx.calls e]
    congr 1
    symm
    exact sent_congr (fun r hr => by rw [hmem e r hr]) (fun r _ => hu.state r)
      (fun r hr => by rw [hmem e r hr])
  · intro i r hr
    rcases (procInit_procs hmade).mp hr with ⟨rfl, rfl⟩ | hr
    · have hlog : log (k.nextpid : ℤ) h = [] := by
        apply hx.unmade
        rintro j r hj he
        obtain rfl : k.nextpid = j := by exact_mod_cast he
        rw [hmade.above _ (Nat.le_refl _)] at hj
        cases hj
      have hm : ((procInit systick r k).proc r).mesgOn = none := (hu.mesgs r).trans hu.mesgOn
      refine ⟨[], ⟨0, 0, 0, fun _ => 0, fun _ => 0⟩, ?_, fun e he => ?_⟩
      · have h0 : ((procInit systick r k).proc r).progress = 0 := by simp [Proc.progress, hm]
        rw [hlog, h0]
        rfl
      · rw [hm] at he
        cases he
    · have hrp : r ≠ p := fun he => hu.fresh i (he ▸ hr)
      obtain ⟨done, x, hl, hx⟩ := hx.logged i r hr
      refine ⟨done, x, ?_, ?_⟩ <;> rw [procInit_proc_ne hrp]
      · exact hl
      · exact hx
  · exact fun i hin => hx.unmade i fun j r hj => hin j r ((procInit_procs hmade).mpr (.inr hj))

theorem Ipc.make (hi : Ipc receiver k h W) (hp : ∀ i, k.procs i ≠ some p) :
    Ipc receiver (procInit systick p k) h W := by
  have hu := hi.made.unmade hp
  refine ⟨?_, ?_, hi.made.make hu, hi.exchanges.make hi.waiting hi.made hu, ?_⟩
  · apply hi.waiting.keep
    · exact fun r => by rw [hu.state]
    · intro r hr
      rw [hu.calling (hi.waiting.calling r hr)]
      exact ⟨rfl, rfl, rfl⟩
    · exact fun _ => rfl
  · have hrwait : ∀ e, ((procInit systick p k).endpoint e).rwait = (k.endpoint e).rwait :=
      fun _ => rfl
    apply hi.receiving.keep hrwait hu.recvs
    intro r hr
    rw [hu.state] at hr
    refine ⟨hr, fun e _ hq => ⟨(procInit_bound r).trans hq.bound, hq.signal, fun q hqW => ?_⟩⟩
    rw [hu.state]
    exact hq.sent q hqW
  · have hsig := hi.signals
    exact ⟨hsig.endpoint, hsig.endpointExact, fun r => (procInit_bound r).trans (hsig.bound r),
      hsig.boundExact, hsig.receives⟩

theorem boot_ipc {mem : Bytes} : Ipc receiver (.boot mem) [] fun _ => [] := by
  refine ⟨⟨⟨fun _ => Dll.empty, fun _ _ _ hx => by cases hx⟩, ?_, ?_⟩, ⟨?_, ?_, ?_⟩, ⟨?_, ?_, ?_, ?_⟩,
    ⟨?_, ?_, ?_, ?_⟩, ⟨?_, ?_, ?_, ?_, ?_⟩⟩
  · intro e p
    refine iff_of_false (fun hp => by cases hp) ?_
    rintro ⟨hw | hw, -⟩ <;> cases hw
  · rintro p (hw | hw) <;> cases hw
  · exact fun e p => iff_of_false (fun hp => by cases hp) fun hp => by cases hp
  · exact fun e p hp => by cases hp
  · exact fun p hp => by cases hp
  · exact fun i p hp => by cases hp
  · exact fun i _ => rfl
  · exact fun p hp => absurd rfl hp
  · exact fun p _ => ⟨rfl, rfl⟩
  · exact fun e => rfl
  · exact fun e => rfl
  · exact fun i p hp => by cases hp
  · exact fun i _ => rfl
  · exact fun e => rfl
  · exact fun e => Exact.nil
  · exact fun p => rfl
  · exact fun p => Exact.nil
  · exact fun x hx => by cases hx

structure IpcState (receiver : Addr → Addr) (s : Kernel × List Event) : Prop where
  ipc : ∃ W, Ipc receiver s.1 s.2 W
  running : ∀ u, s.1.up = some u → (s.1.proc u).state = .ready

theorem IpcStep.state {s s' : Kernel × List Event} (hs : IpcState receiver s)
    (hstep : IpcStep Switches systick receiver s s') : IpcState receiver s' := by
  obtain ⟨⟨W, hi⟩, hup⟩ := hs
  cases hstep with
  | @make k h p fresh =>
    refine ⟨⟨W, hi.make fresh⟩, fun u hu => ?_⟩
    have hready : (k.proc u).state = .ready := hup u hu
    have hne : u ≠ p := by
      rintro rfl
      obtain ⟨i, hi'⟩ := hi.made.started u fun hf => by rw [hready] at hf; cases hf
      exact fresh i hi'
    change ((procInit systick p k).proc u).state = .ready
    unfold procInit
    rw [setProc_proc, if_neg hne]
    exact hready
  | @start k h p made unstarted =>
    have hm := (hi.made.idle p unstarted).2
    have hk : SchedOnly (k.setProc p { k.proc p with state := .ready }) (procReady p k) :=
      SchedOnly.procReady
    refine ⟨⟨W, (hi.setState hm (.inl ⟨rfl, made⟩)).alike hk.alike⟩, fun u hu => ?_⟩
    have hupk : (procReady p k).up = k.up := by
      unfold procReady
      simp only
      split_ifs
      · exact addToListTail_up
      · rfl
    have hready := hup u (hupk ▸ hu)
    rw [hk.state, setProc_proc]
    split_ifs
    · rfl
    · exact hready
  | first idle switch =>
    obtain ⟨hk, p, hp, hready⟩ := switch
    exact ⟨⟨W, hi.alike hk.alike⟩, fun u hu => Option.some.inj (hp.symm.trans hu) ▸ hready⟩
  | @ret k k' h ev u op fuel r running own runs =>
    have hkeeps : (run fuel u op k).Steps receiver u op h k :=
      run_keeps hi (hup _ running) running own
    rw [runs] at hkeeps
    obtain ⟨hi', hup', hready⟩ := hkeeps
    exact ⟨hi', fun u hu => Option.some.inj (hup'.symm.trans hu) ▸ hready⟩
  | @sched k k' k'' h u op fuel n running own runs switch =>
    have hkeeps : (run fuel u op k).Steps receiver u op h k :=
      run_keeps hi (hup _ running) running own
    rw [runs] at hkeeps
    obtain ⟨W', hi'⟩ := hkeeps
    obtain ⟨hk, p, hp, hready⟩ := switch
    exact ⟨⟨W', hi'.alike hk.alike⟩, fun u hu => Option.some.inj (hp.symm.trans hu) ▸ hready⟩

theorem IpcReach.state {mem : Bytes} {s : Kernel × List Event}
    (hs : IpcReach Switches systick receiver mem s) : IpcState receiver s := by
  induction hs with
  | refl => exact ⟨⟨_, boot_ipc⟩, fun u hu => by cases hu⟩
  | tail _ hstep ih => exact hstep.state ih

theorem ipc_exactly_once_fifo {mem : Bytes} (hs : IpcReach Switches systick receiver mem (k, h)) :
    (∃ W : Addr → List Addr, ∀ e,
      Dll (fun p => (k.proc p).wnext) (fun p => (k.proc p).wprev)
        (k.endpoint e).waiting.head (k.endpoint e).waiting.tail (W e) ∧
      (∀ p, p ∈ W e ↔ ((k.proc p).state = .blockSend ∨ (k.proc p).state = .blockReply) ∧
        (k.proc p).label = .mesg e) ∧
      (W e).map (fun p => (k.proc p).pid) = unanswered e h) ∧
    (∀ e, requests e h <+: calls e h) ∧
    ∀ i, ∃ p done x n, log i h =
      List.flatMap (Exchange.events p i) done ++ (Exchange.events p i x).take n := by
  obtain ⟨W, hi⟩ := hs.state.ipc
  refine ⟨⟨W, fun e => ⟨hi.waiting.lists.dll e, fun p => ?_, hi.exchanges.unanswered e⟩⟩, ?_, ?_⟩
  · rw [hi.waiting.mem_iff, Proc.mesgOn_eq_some]
    rfl
  · intro e
    rw [hi.exchanges.calls e]
    exact List.prefix_append _ _
  · intro i
    by_cases hm : ∃ j p, k.procs j = some p ∧ i = j
    · obtain ⟨j, p, hp, rfl⟩ := hm
      obtain ⟨done, x, hl, -⟩ := hi.exchanges.logged j p hp
      exact ⟨p, done, x, _, hl⟩
    · refine ⟨0, [], ⟨0, 0, 0, fun _ => 0, fun _ => 0⟩, 0, ?_⟩
      rw [hi.exchanges.unmade i fun j p hp he => hm ⟨j, p, hp, he⟩]
      rfl

theorem endpointMove_take {e : Addr} {x : Event} {s : BitVec 32}
    (hx : endpointMove e x = some (.take s)) : ∃ r, x = .endpointSignal r e s := by
  unfold endpointMove at hx
  split at hx
  · split_ifs at hx
    simp at hx
  · split_ifs at hx with he
    simp only [Option.some.injEq, Move.take.injEq] at hx
    exact ⟨_, by rw [he, hx]⟩
  · simp at hx

theorem boundMove_take {p : Addr} {x : Event} {s : BitVec 32}
    (hx : boundMove p x = some (.take s)) : ∃ e, x = .boundSignal p e s := by
  unfold boundMove at hx
  split at hx
  · split_ifs at hx
    simp at hx
  · split_ifs at hx with he
    simp only [Option.some.injEq, Move.take.injEq] at hx
    exact ⟨_, by rw [he, hx]⟩
  · simp at hx

theorem endpointMove_raise {e : Addr} {x : Event} {s : BitVec 32}
    (hx : endpointMove e x = some (.raise s)) : x = .signal e none s := by
  unfold endpointMove at hx
  split at hx
  · split_ifs at hx with he
    simp only [Option.some.injEq, Move.raise.injEq] at hx
    rw [he, hx]
  · split_ifs at hx
    simp at hx
  · simp at hx

theorem boundMove_raise {p : Addr} {x : Event} {s : BitVec 32}
    (hx : boundMove p x = some (.raise s)) : ∃ e, x = .signal e (some p) s := by
  unfold boundMove at hx
  split at hx
  · split_ifs at hx with he
    simp only [Option.some.injEq, Move.raise.injEq] at hx
    exact ⟨_, by rw [he, hx]⟩
  · split_ifs at hx
    simp at hx
  · simp at hx

theorem sent_bit {f : Event → Option (Move 32)} {h₁ h₂ : List Event} {x : Event} {s : BitVec 32}
    {i : ℕ} (hx : f x = some (.raise s)) (hex : Exact ((h₁ ++ x :: h₂).filterMap f))
    (hs : s.getLsbD i = true) : (pending ((h₁ ++ x :: h₂).filterMap f)).getLsbD i = true ∨
      ∃ y ∈ h₂, ∃ t, f y = some (.take t) ∧ t.getLsbD i = true := by
  rw [List.filterMap_append, List.filterMap_cons_some hx] at hex ⊢
  rcases raised_bit hex hs with hp | ⟨t, ht, hti⟩
  · exact .inl hp
  · obtain ⟨y, hy, hft⟩ := List.mem_filterMap.mp ht
    exact .inr ⟨y, hy, t, hft, hti⟩

theorem taken_bit {f : Event → Option (Move 32)} {h₁ h₂ : List Event} {x : Event} {t : BitVec 32}
    {i : ℕ} (hx : f x = some (.take t)) (hex : Exact ((h₁ ++ x :: h₂).filterMap f))
    (ht : t.getLsbD i = true) : ∃ a y b, h₁ = a ++ y :: b ∧
      (∃ s, f y = some (.raise s) ∧ s.getLsbD i = true) ∧
      ∀ z ∈ b, ∀ s, f z ≠ some (.take s) := by
  rw [List.filterMap_append, List.filterMap_cons_some hx] at hex
  rw [hex _ t _ rfl] at ht
  obtain ⟨l₁, s, l₂, hl, hs, hno⟩ := pending_bit ht
  obtain ⟨a, b, rfl, -, hb⟩ := List.filterMap_eq_append_iff.mp hl
  obtain ⟨c, y, d, rfl, hc, hy, hd⟩ := List.filterMap_eq_cons_iff.mp hb
  refine ⟨a ++ c, y, d, by simp, ⟨s, hy, hs⟩, fun z hz s' hfz => hno s' ?_⟩
  rw [← hd]
  exact List.mem_filterMap.mpr ⟨z, hz, hfz⟩

theorem no_lost_wakeup_no_lost_signal {mem : Bytes}
    (hs : IpcReach Switches systick receiver mem (k, h)) :
    (∀ p, (k.proc p).state = .blockRecv → ∃ e o, (k.proc p).label = .recv e o ∧
      (k.endpoint e).rwait = some p ∧ (k.proc p).boundSignal = 0 ∧ (k.endpoint e).signal = 0 ∧
      ∃ xs, Chain (fun q => (k.proc q).wnext) (k.endpoint e).waiting.head xs ∧
        ∀ q ∈ xs, (k.proc q).state ≠ .blockSend) ∧
    (∀ h₁ e s h₂ i, h = h₁ ++ .signal e none s :: h₂ → s.getLsbD i = true →
      (k.endpoint e).signal.getLsbD i = true ∨
        ∃ t, .endpointSignal (receiver e) e t ∈ h₂ ∧ t.getLsbD i = true) ∧
    (∀ h₁ e p s h₂ i, h = h₁ ++ .signal e (some p) s :: h₂ → s.getLsbD i = true →
      (k.proc p).boundSignal.getLsbD i = true ∨
        ∃ e' t, .boundSignal p e' t ∈ h₂ ∧ t.getLsbD i = true) ∧
    (∀ h₁ r e t h₂ i, h = h₁ ++ .endpointSignal r e t :: h₂ → t.getLsbD i = true →
      receiver e = r ∧ ∃ a s b, h₁ = a ++ .signal e none s :: b ∧ s.getLsbD i = true ∧
        ∀ r' t', .endpointSignal r' e t' ∉ b) ∧
    ∀ h₁ p e t h₂ i, h = h₁ ++ .boundSignal p e t :: h₂ → t.getLsbD i = true →
      receiver e = p ∧ ∃ a e' s b, h₁ = a ++ .signal e' (some p) s :: b ∧ s.getLsbD i = true ∧
        ∀ e'' t', .boundSignal p e'' t' ∉ b := by
  obtain ⟨W, hi⟩ := hs.state.ipc
  have hsig := hi.signals
  simp only at hsig
  refine ⟨?_, ?_, ?_, ?_, ?_⟩
  · intro p hp
    obtain ⟨e, hre, hq⟩ := hi.receiving.blocked p hp
    obtain ⟨o, ho⟩ := Proc.recvOn_eq_some.mp hre
    exact ⟨e, o, ho, (hi.receiving.rwait e p).mpr hre, hq.bound, hq.signal, W e,
      (hi.waiting.lists.dll e).chain, hq.sent⟩
  · rintro h₁ e s h₂ i rfl hbit
    have hx : endpointMove e (.signal e none s) = some (.raise s) := by simp [endpointMove]
    rw [hsig.endpoint e]
    rcases sent_bit hx (hsig.endpointExact e) hbit with hp | ⟨y, hy, t, hyt, hti⟩
    · exact .inl hp
    · obtain ⟨r, rfl⟩ := endpointMove_take hyt
      have hr : receiver e = r := hsig.receives (.endpointSignal r e t) (by simp [hy]) r e rfl
      rw [hr]
      exact .inr ⟨t, hy, hti⟩
  · rintro h₁ e p s h₂ i rfl hbit
    have hx : boundMove p (.signal e (some p) s) = some (.raise s) := by simp [boundMove]
    rw [hsig.bound p]
    rcases sent_bit hx (hsig.boundExact p) hbit with hp | ⟨y, hy, t, hyt, hti⟩
    · exact .inl hp
    · obtain ⟨e', rfl⟩ := boundMove_take hyt
      exact .inr ⟨e', t, hy, hti⟩
  · rintro h₁ r e t h₂ i rfl hbit
    have hx : endpointMove e (.endpointSignal r e t) = some (.take t) := by simp [endpointMove]
    obtain ⟨a, y, b, rfl, ⟨s, hys, hsi⟩, hno⟩ := taken_bit hx (hsig.endpointExact e) hbit
    obtain rfl := endpointMove_raise hys
    refine ⟨hsig.receives (.endpointSignal r e t) (by simp) r e rfl, a, s, b, rfl, hsi, fun r' t' ht => ?_⟩
    exact hno _ ht t' (by simp [endpointMove])
  · rintro h₁ p e t h₂ i rfl hbit
    have hx : boundMove p (.boundSignal p e t) = some (.take t) := by simp [boundMove]
    obtain ⟨a, y, b, rfl, ⟨s, hys, hsi⟩, hno⟩ := taken_bit hx (hsig.boundExact p) hbit
    obtain ⟨e', rfl⟩ := boundMove_raise hys
    refine ⟨hsig.receives (.boundSignal p e t) (by simp) p e rfl, a, e', s, b, rfl, hsi, fun e'' t' ht => ?_⟩
    exact hno _ ht t' (by simp [boundMove])

def turn (fuel : ℕ) (u : Addr) (op : Op) (p : Addr) (s : Kernel × List Event) :
    Kernel × List Event :=
  match run fuel u op s.1 with
  | .ret r ev k => (k, s.2 ++ (asked u op s.1 (r = ERR) ++ ev ++ mesgReturned u op s.1))
  | .sched _ k => ({ k with up := some p }, s.2 ++ asked u op s.1 false)
  | _ => s

theorem turn_reach {mem : Bytes} {s : Kernel × List Event} (fuel : ℕ) {u : Addr} (op : Op) (p : Addr)
    (hs : IpcReach Switches systick receiver mem s) (running : s.1.up = some u)
    (own : ∀ e o, op = .recv e o → receiver e = u)
    (hp : ((turn fuel u op p s).1.proc p).state = .ready) :
    IpcReach Switches systick receiver mem (turn fuel u op p s) := by
  unfold turn at hp ⊢
  split
  · rename_i r ev k hr
    exact hs.tail (.ret running own hr)
  · rename_i n k hr
    rw [hr] at hp
    exact hs.tail (.sched running own hr ⟨⟨fun _ => rfl, rfl, rfl, rfl, rfl, rfl⟩, p, rfl, hp⟩)
  · exact hs

def twoStarted : Kernel × List Event :=
  ({ procReady 8192 (procReady 4096 (procInit 500 8192 (procInit 500 4096 (.boot fun _ => 0))))
      with up := some 8192 }, [])

theorem twoStarted_reach :
    IpcReach Switches 500 (fun _ => 8192) (fun _ => 0) twoStarted := by
  have h₁ : IpcReach Switches 500 (fun _ => 8192) (fun _ => 0)
      (procInit 500 4096 (.boot fun _ => 0), []) :=
    .single (.make fun i hi => by cases hi)
  have h₂ := h₁.tail (.make (p := 8192) fun i hi => by
    by_cases h1 : i = 1 <;> simp [procInit, Kernel.boot, h1] at hi)
  have h₃ := (h₂.tail (.start (p := 4096) ⟨1, rfl⟩ rfl)).tail (.start (p := 8192) ⟨2, rfl⟩ rfl)
  exact h₃.tail (.first rfl ⟨⟨fun _ => rfl, rfl, rfl, rfl, rfl, rfl⟩, 8192, rfl, rfl⟩)

def pingPong : Kernel × List Event :=
  turn 4 4096 .yield 4096 <|
  turn 4 8192 (.reply 64 1 (fun _ => 8) none) 4096 <|
  turn 4 8192 .yield 8192 <|
  turn 4 4096 (.mesg 64 (fun _ => 7) none) 8192 <|
  turn 4 8192 (.recv 64 none) 4096 twoStarted

theorem pingPong_reach : IpcReach Switches 500 (fun _ => 8192) (fun _ => 0) pingPong := by
  have h₁ := turn_reach 4 (.recv 64 none) 4096 twoStarted_reach rfl
    (fun _ _ _ => rfl) rfl
  have h₂ := turn_reach 4 (.mesg 64 (fun _ => 7) none) 8192 h₁ rfl
    (fun _ _ hf => by cases hf) rfl
  have h₃ := turn_reach 4 .yield 8192 h₂ rfl
    (fun _ _ hf => by cases hf) rfl
  have h₄ := turn_reach 4 (.reply 64 1 (fun _ => 8) none) 4096 h₃ rfl
    (fun _ _ hf => by cases hf) rfl
  exact turn_reach 4 .yield 4096 h₄ rfl (fun _ _ hf => by cases hf) rfl

theorem pingPong_events : pingPong.2 = [.call 4096 64 1 fun _ => 7, .request 8192 64 1 fun _ => 7,
    .reply 8192 64 1 fun _ => 8, .answer 4096 1 fun _ => 8, .returned 4096 1] := rfl

theorem ipc_exactly_once_fifo_pingPong :
    log 1 pingPong.2 = pingPong.2 ∧ requests 64 pingPong.2 <+: calls 64 pingPong.2 :=
  ⟨by rw [pingPong_events]; rfl, (ipc_exactly_once_fifo pingPong_reach).2.1 64⟩

def signalled : Kernel × List Event :=
  turn 4 4096 (.signal 64 5) 8192 (turn 4 8192 (.recv 64 none) 4096 twoStarted)

theorem signalled_reach : IpcReach Switches 500 (fun _ => 8192) (fun _ => 0) signalled := by
  have h₁ := turn_reach 4 (.recv 64 none) 4096 twoStarted_reach rfl
    (fun _ _ _ => rfl) rfl
  exact turn_reach 4 (.signal 64 5) 8192 h₁ rfl (fun _ _ hf => by cases hf) rfl

theorem no_lost_wakeup_no_lost_signal_signalled :
    (signalled.1.endpoint 64).signal.getLsbD 2 = true ∨
      ∃ t, Event.endpointSignal 8192 64 t ∈ ([] : List Event) ∧ t.getLsbD 2 = true :=
  (no_lost_wakeup_no_lost_signal signalled_reach).2.1 [] 64 5 [] 2 rfl (by decide)

end Runs

end Agatha.Sys
