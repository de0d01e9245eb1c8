import Agatha.Sys.QueueCalls
import Agatha.Sys.Ipc

/-!
Who waits where: the lists of waiting senders and the receivers that sleep, as an invariant of
what the kernel paths of `sys/sys.c` do to them.
-/

namespace Agatha.Sys

open Kernel Library Library.LinkedList

def Context.recvOn : Context → Option Addr
  | .recv e _ => some e
  | _ => none

def Context.mesgOn : Context → Option Addr
  | .mesg e => some e
  | _ => none

def Proc.recvOn (x : Proc) : Option Addr := x.label.recvOn
def Proc.mesgOn (x : Proc) : Option Addr := x.label.mesgOn

def ProcState.Waits (s : ProcState) : Prop := s = .blockSend ∨ s = .blockReply

instance (s : ProcState) : Decidable s.Waits := inferInstanceAs (Decidable (_ ∨ _))

theorem Proc.mesgOn_eq_some {x : Proc} {e : Addr} : x.mesgOn = some e ↔ x.label = .mesg e := by
  unfold Proc.mesgOn Context.mesgOn
  split <;> simp_all

theorem Proc.recvOn_eq_some {x : Proc} {e : Addr} :
    x.recvOn = some e ↔ ∃ o, x.label = .recv e o := by
  unfold Proc.recvOn Context.recvOn
  split <;> simp_all

theorem Proc.mesgOn_of_recvOn {x : Proc} {e : Addr} (h : x.recvOn = some e) : x.mesgOn = none := by
  obtain ⟨o, ho⟩ := Proc.recvOn_eq_some.mp h
  simp [Proc.mesgOn, ho, Context.mesgOn]

structure Waiting (k : Kernel) (W : Addr → List Addr) : Prop where
  lists : Dlls (fun p => (k.proc p).wnext) (fun p => (k.proc p).wprev)
    (fun e => (k.endpoint e).waiting.head) (fun e => (k.endpoint e).waiting.tail) W
  mem_iff : ∀ e p, p ∈ W e ↔ (k.proc p).state.Waits ∧ (k.proc p).mesgOn = some e
  calling : ∀ p, (k.proc p).state.Waits → (k.proc p).mesgOn ≠ none

structure Quiet (k : Kernel) (W : Addr → List Addr) (p e : Addr) : Prop where
  bound : (k.proc p).boundSignal = 0
  signal : (k.endpoint e).signal = 0
  sent : ∀ q ∈ W e, (k.proc q).state ≠ .blockSend

structure Receiving (receiver : Addr → Addr) (k : Kernel) (W : Addr → List Addr) : Prop where
  rwait : ∀ e p, (k.endpoint e).rwait = some p ↔ (k.proc p).recvOn = some e
  receives : ∀ e p, (k.proc p).recvOn = some e → receiver e = p
  blocked : ∀ p, (k.proc p).state = .blockRecv → ∃ e, (k.proc p).recvOn = some e ∧ Quiet k W p e

structure Made (k : Kernel) : Prop where
  pid : ∀ i p, k.procs i = some p → (k.proc p).pid = i
  above : ∀ i, k.nextpid ≤ i → k.procs i = none
  started : ∀ p, (k.proc p).state ≠ .fault → ∃ i, k.procs i = some p
  idle : ∀ p, (k.proc p).state = .fault → (k.proc p).recvOn = none ∧ (k.proc p).mesgOn = none

section Frames

variable {k k' : Kernel} {W W' : Addr → List Addr} {receiver : Addr → Addr} {p u e : Addr}

theorem Waiting.keep (h : Waiting k W)
    (hs : ∀ p, (k'.proc p).state.Waits ↔ (k.proc p).state.Waits)
    (hw : ∀ p, (k.proc p).state.Waits → (k'.proc p).mesgOn = (k.proc p).mesgOn ∧
      (k'.proc p).wnext = (k.proc p).wnext ∧ (k'.proc p).wprev = (k.proc p).wprev)
    (he : ∀ e, (k'.endpoint e).waiting = (k.endpoint e).waiting) : Waiting k' W := by
  have hmem : ∀ e, ∀ p ∈ W e, (k.proc p).state.Waits := fun e p hp => ((h.mem_iff e p).mp hp).1
  refine ⟨⟨fun e => ?_, h.lists.disjoint⟩, fun e p => ?_, fun p hp => ?_⟩
  · simp only [he]
    exact (h.lists.dll e).congr (fun p hp => (hw p (hmem e p hp)).2.1)
      (fun p hp => (hw p (hmem e p hp)).2.2)
  · rw [h.mem_iff, hs]
    refine and_congr_right fun hp => ?_
    rw [(hw p hp).1]
  · have hp' := (hs p).mp hp
    rw [(hw p hp').1]
    exact h.calling p hp'

theorem Receiving.keep (h : Receiving receiver k W)
    (he : ∀ e, (k'.endpoint e).rwait = (k.endpoint e).rwait)
    (hr : ∀ p, (k'.proc p).recvOn = (k.proc p).recvOn)
    (hb : ∀ p, (k'.proc p).state = .blockRecv → (k.proc p).state = .blockRecv ∧
      ∀ e, (k.proc p).recvOn = some e → Quiet k W p e → Quiet k' W' p e) :
    Receiving receiver k' W' := by
  refine ⟨fun e p => ?_, fun e p hp => ?_, fun p hp => ?_⟩
  · rw [he, hr]
    exact h.rwait e p
  · rw [hr] at hp
    exact h.receives e p hp
  · obtain ⟨hp', hq⟩ := hb p hp
    obtain ⟨e, hre, hqe⟩ := h.blocked p hp'
    exact ⟨e, (hr p).trans hre, hq e hre hqe⟩

theorem Made.keep (h : Made k) (hpid : ∀ p, (k'.proc p).pid = (k.proc p).pid)
    (hprocs : k'.procs = k.procs) (hnext : k'.nextpid = k.nextpid)
    (hs : ∀ p, (k.proc p).state = .fault → (k'.proc p).state = .fault ∨ ∃ i, k.procs i = some p)
    (hi : ∀ p, (k'.proc p).state = .fault →
      (k'.proc p).recvOn = none ∧ (k'.proc p).mesgOn = none) : Made k' := by
  refine ⟨fun i p hp => ?_, fun i hn => ?_, fun p hp => ?_, hi⟩
  · rw [hpid]
    exact h.pid i p (hprocs ▸ hp)
  · rw [hprocs]
    exact h.above i (hnext ▸ hn)
  · rw [hprocs]
    by_cases hf : (k.proc p).state = .fault
    · exact (hs p hf).resolve_left hp
    · exact h.started p hf

end Frames

section Lists

variable {k k' : Kernel} {W : Addr → List Addr} {p u e e' r : Addr}

theorem enqueueWaiting_proc (h : (k.endpoint e).waiting.tail ≠ some u) :
    (enqueueWaiting u e k).proc r =
      if r = u then { k.proc u with wprev := (k.endpoint e).waiting.tail, wnext := none }
      else if (k.endpoint e).waiting.tail = some r then { k.proc r with wnext := some u }
      else k.proc r := by
  unfold enqueueWaiting
  cases ht : (k.endpoint e).waiting.tail with
  | none => by_cases hr : r = u <;> simp [setProc_proc, hr]
  | some t =>
    have htu : t ≠ u := fun he => h (by rw [ht, he])
    by_cases hr : r = u
    · simp [setProc_proc, hr, Ne.symm htu]
    · by_cases hrt : r = t
      · simp [setProc_proc, hrt, htu]
      · simp [setProc_proc, hr, hrt, Ne.symm hrt]

theorem enqueueWaiting_endpoint :
    (enqueueWaiting u e k).endpoint e' =
      if e' = e then { k.endpoint e with waiting :=
        ⟨if (k.endpoint e).waiting.tail = none then some u else (k.endpoint e).waiting.head, some u⟩ }
      else k.endpoint e' := by
  unfold enqueueWaiting
  cases ht : (k.endpoint e).waiting.tail <;> by_cases he : e' = e <;>
    simp [setEndpoint_endpoint, he, ht]

theorem unlink_proc (hs : (k.proc p).wprev ≠ some p) :
    (unlinkPrev e p (unlinkNext e p k)).proc r = { k.proc r with
      wnext := if (k.proc p).wprev = some r then (k.proc p).wnext else (k.proc r).wnext
      wprev := if (k.proc p).wnext = some r then (k.proc p).wprev else (k.proc r).wprev } := by
  have hnext : ∀ r, (unlinkNext e p k).proc r = { k.proc r with
      wnext := if (k.proc p).wprev = some r then (k.proc p).wnext else (k.proc r).wnext } := by
    intro r
    unfold unlinkNext
    cases hw : (k.proc p).wprev with
    | none => simp
    | some s =>
      by_cases hr : r = s
      · simp [hr]
      · simp [setProc_proc, hr, Ne.symm hr]
  have hp : (unlinkNext e p k).proc p = k.proc p := by
    rw [hnext, if_neg hs]
  unfold unlinkPrev
  rw [hp]
  cases hw : (k.proc p).wnext with
  | none => simp [hnext, hw]
  | some s =>
    by_cases hr : r = s
    · simp [hr, hnext, hw]
    · simp [setProc_proc, hr, Ne.symm hr, hnext, hw]

theorem unlink_endpoint (hs : (k.proc p).wprev ≠ some p) :
    (unlinkPrev e p (unlinkNext e p k)).endpoint e' =
      if e' = e then { k.endpoint e with waiting :=
        ⟨if (k.proc p).wprev = none then (k.proc p).wnext else (k.endpoint e).waiting.head,
          if (k.proc p).wnext = none then (k.proc p).wprev else (k.endpoint e).waiting.tail⟩ }
      else k.endpoint e' := by
  have hp : (unlinkNext e p k).proc p = k.proc p := by
    unfold unlinkNext
    cases hw : (k.proc p).wprev with
    | none => rfl
    | some s => rw [setProc_proc, if_neg fun he => hs (by rw [hw, he])]
  unfold unlinkPrev
  rw [hp]
  unfold unlinkNext
  cases hw : (k.proc p).wprev <;> cases hn : (k.proc p).wnext <;> by_cases he : e' = e <;>
    simp [setEndpoint_endpoint, he]

theorem Waiting.enqueue (h : Waiting k W) (hu : ¬ (k.proc u).state.Waits)
    (hs : ∀ r, r ≠ u → ((k'.proc r).state.Waits ↔ (k.proc r).state.Waits))
    (hm : ∀ r, r ≠ u → (k'.proc r).mesgOn = (k.proc r).mesgOn)
    (hn : ∀ r, r ≠ u → (k'.proc r).wnext =
      if (k.endpoint e).waiting.tail = some r then some u else (k.proc r).wnext)
    (hp : ∀ r, r ≠ u → (k'.proc r).wprev = (k.proc r).wprev)
    (hus : (k'.proc u).state.Waits) (hum : (k'.proc u).mesgOn = some e)
    (hun : (k'.proc u).wnext = none) (hup : (k'.proc u).wprev = (k.endpoint e).waiting.tail)
    (he : ∀ e', (k'.endpoint e').waiting = ((enqueueWaiting u e k).endpoint e').waiting) :
    Waiting k' (Function.update W e (W e ++ [u])) := by
  have hout : ∀ e', u ∉ W e' := fun e' hm => hu ((h.mem_iff e' u).mp hm).1
  refine ⟨h.lists.append hout hn hp hun hup ?_ ?_, fun e' r => ?_, fun r hr => ?_⟩
  · intro e'
    rw [he, enqueueWaiting_endpoint]
    split_ifs <;> rfl
  · intro e'
    rw [he, enqueueWaiting_endpoint]
    split_ifs <;> rfl
  · rw [mem_append_iff, h.mem_iff]
    by_cases hr : r = u
    · subst hr
      simp [hu, hus, hum, eq_comm]
    · simp [hr, hs r hr, hm r hr]
  · by_cases hru : r = u
    · rw [hru, hum]
      exact fun he => by cases he
    · rw [hm r hru]
      exact h.calling r ((hs r hru).mp hr)

theorem Waiting.unlink (h : Waiting k W) (hp : p ∈ W e)
    (hs : ∀ r, r ≠ p → ((k'.proc r).state.Waits ↔ (k.proc r).state.Waits))
    (hps : ¬ (k'.proc p).state.Waits) (hm : ∀ r, (k'.proc r).mesgOn = (k.proc r).mesgOn)
    (hn : ∀ r, (k'.proc r).wnext = ((unlinkPrev e p (unlinkNext e p k)).proc r).wnext)
    (hv : ∀ r, (k'.proc r).wprev = ((unlinkPrev e p (unlinkNext e p k)).proc r).wprev)
    (he : ∀ e', (k'.endpoint e').waiting =
      ((unlinkPrev e p (unlinkNext e p k)).endpoint e').waiting) :
    Waiting k' (Function.update W e ((W e).erase p)) := by
  have hvp := (h.lists.neighbours_ne hp).1
  refine ⟨h.lists.remove hp ?_ ?_ ?_ ?_, fun e' r => ?_, fun r hr => ?_⟩
  · intro r _
    rw [hn, unlink_proc hvp]
  · intro r _
    rw [hv, unlink_proc hvp]
  · intro e'
    rw [he, unlink_endpoint hvp]
    split_ifs <;> rfl
  · intro e'
    rw [he, unlink_endpoint hvp]
    split_ifs <;> rfl
  · rw [h.lists.mem_remove hp, h.mem_iff, hm]
    by_cases hr : r = p
    · subst hr
      simp [hps]
    · simp [hr, hs r hr]
  · rw [hm]
    by_cases hrp : r = p
    · rw [hrp] at hr
      exact absurd hr hps
    · exact h.calling r ((hs r hrp).mp hr)

theorem findWaiting_spec {test : Proc → Bool} {fuel : ℕ} {head : Option Addr} {xs : List Addr}
    {o : Option Addr} (hc : Chain (fun p => (k.proc p).wnext) head xs)
    (hf : findWaiting test fuel head k = some o) :
    match o with
    | none => ∀ p ∈ xs, test (k.proc p) = false
    | some p => ∃ ys zs, xs = ys ++ p :: zs ∧ test (k.proc p) = true ∧
        ∀ q ∈ ys, test (k.proc q) = false := by
  induction xs generalizing fuel head with
  | nil =>
    obtain rfl : head = none := hc
    cases fuel with
    | zero => cases hf
    | succ fuel =>
      obtain rfl := Option.some.inj hf
      simp
  | cons x xs ih =>
    obtain ⟨rfl, hc⟩ := hc
    cases fuel with
    | zero => cases hf
    | succ fuel =>
      unfold findWaiting at hf
      by_cases ht : test (k.proc x) = true
      · rw [if_pos ht] at hf
        obtain rfl := Option.some.inj hf
        exact ⟨[], xs, rfl, ht, fun q hq => by cases hq⟩
      · rw [if_neg ht] at hf
        have hx : test (k.proc x) = false := Bool.eq_false_iff.mpr ht
        have hrec := ih hc hf
        cases o with
        | none => exact List.forall_mem_cons.mpr ⟨hx, hrec⟩
        | some p =>
          obtain ⟨ys, zs, rfl, hp, hys⟩ := hrec
          exact ⟨x :: ys, zs, rfl, hp, List.forall_mem_cons.mpr ⟨hx, hys⟩⟩

end Lists

end Agatha.Sys
