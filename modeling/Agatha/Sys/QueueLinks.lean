import Agatha.Sys.Scheduler

namespace Agatha.Sys

open Kernel Library.LinkedList

section Links

variable {k : Kernel} {l l' : QueueRef} {p r : Addr}

theorem addToListTail_proc (h : (k.queue l).tail ≠ some p) :
    (addToListTail l p k).proc r =
      if r = p then { k.proc p with slist := some l, snext := none, sprev := (k.queue l).tail }
      else if (k.queue l).tail = some r then { k.proc r with snext := some p }
      else k.proc r := by
  unfold addToListTail
  cases ht : (k.queue l).tail with
  | none => simp [setProc_proc]
  | some t =>
    have htp : t ≠ p := fun he => h (by rw [ht, he])
    by_cases hr : r = t
    · subst hr
      simp [setProc_proc, htp]
    · simp [setProc_proc, hr, Ne.symm hr]

theorem addToListTail_queue :
    (addToListTail l p k).queue l' =
      if l' = l then ⟨if (k.queue l).tail = none then some p else (k.queue l).head, some p⟩
      else k.queue l' := by
  unfold addToListTail
  cases ht : (k.queue l).tail <;> by_cases hl : l' = l <;> simp [setQueue_queue, hl, ht]

theorem joinNext_proc : (joinNext l p k).proc r = { k.proc r with
    snext := if (k.proc p).sprev = some r then (k.proc p).snext else (k.proc r).snext } := by
  unfold joinNext
  cases hs : (k.proc p).sprev with
  | none => simp
  | some s =>
    by_cases hr : r = s
    · subst hr
      simp
    · simp [setProc_proc, hr, Ne.symm hr]

theorem joinPrev_proc : (joinPrev l p k).proc r = { k.proc r with
    sprev := if (k.proc p).snext = some r then (k.proc p).sprev else (k.proc r).sprev } := by
  unfold joinPrev
  cases hs : (k.proc p).snext with
  | none => simp
  | some s =>
    by_cases hr : r = s
    · subst hr
      simp
    · simp [setProc_proc, hr, Ne.symm hr]

theorem joinNext_queue : (joinNext l p k).queue l' = if l' = l then { k.queue l with
    head := if (k.proc p).sprev = none then (k.proc p).snext else (k.queue l).head }
    else k.queue l' := by
  unfold joinNext
  cases hs : (k.proc p).sprev <;> by_cases hl : l' = l <;> simp [setQueue_queue, hl]

theorem joinPrev_queue : (joinPrev l p k).queue l' = if l' = l then { k.queue l with
    tail := if (k.proc p).snext = none then (k.proc p).sprev else (k.queue l).tail }
    else k.queue l' := by
  unfold joinPrev
  cases hs : (k.proc p).snext <;> by_cases hl : l' = l <;> simp [setQueue_queue, hl]

theorem removeFromList_proc (hs : (k.proc p).sprev ≠ some p) (hr : r ≠ p) :
    (removeFromList l p k).proc r = { k.proc r with
      snext := if (k.proc p).sprev = some r then (k.proc p).snext else (k.proc r).snext
      sprev := if (k.proc p).snext = some r then (k.proc p).sprev else (k.proc r).sprev } := by
  unfold removeFromList
  simp [joinPrev_proc, joinNext_proc, setProc_proc, hs, hr]

theorem removeFromList_proc_self (hs : (k.proc p).sprev ≠ some p)
    (hn : (k.proc p).snext ≠ some p) :
    (removeFromList l p k).proc p = { k.proc p with slist := none } := by
  unfold removeFromList
  simp [joinPrev_proc, joinNext_proc, hs, hn]

theorem removeFromList_queue (hs : (k.proc p).sprev ≠ some p) :
    (removeFromList l p k).queue l' =
      if l' = l then ⟨if (k.proc p).sprev = none then (k.proc p).snext else (k.queue l).head,
        if (k.proc p).snext = none then (k.proc p).sprev else (k.queue l).tail⟩
      else k.queue l' := by
  unfold removeFromList
  by_cases hl : l' = l <;> simp [joinPrev_queue, joinNext_queue, joinNext_proc, hs, hl]

theorem addToListTail_slist (h : (k.queue l).tail ≠ some p) :
    ((addToListTail l p k).proc r).slist = if r = p then some l else (k.proc r).slist := by
  rw [addToListTail_proc h]
  split_ifs <;> rfl

theorem removeFromList_slist (hs : (k.proc p).sprev ≠ some p) (hn : (k.proc p).snext ≠ some p) :
    ((removeFromList l p k).proc r).slist = if r = p then none else (k.proc r).slist := by
  by_cases hr : r = p
  · subst hr
    rw [removeFromList_proc_self hs hn, if_pos rfl]
  · rw [removeFromList_proc hs hr, if_neg hr]

end Links

structure SchedOnly (k k' : Kernel) : Prop where
  proc : ∀ p, k'.proc p = { k.proc p with
    ts := (k'.proc p).ts, slist := (k'.proc p).slist
    sprev := (k'.proc p).sprev, snext := (k'.proc p).snext }
  mem : k'.mem = k.mem
  endpoint : k'.endpoint = k.endpoint
  procs : k'.procs = k.procs
  nextpid : k'.nextpid = k.nextpid
  given : k'.userHandlerGiven = k.userHandlerGiven

namespace SchedOnly

variable {k k' k'' : Kernel} {l : QueueRef} {p : Addr}

theorem refl : SchedOnly k k := ⟨fun _ => rfl, rfl, rfl, rfl, rfl, rfl⟩

theorem trans (h : SchedOnly k k') (h' : SchedOnly k' k'') : SchedOnly k k'' := by
  refine ⟨fun p => ?_, h'.mem.trans h.mem, h'.endpoint.trans h.endpoint,
    h'.procs.trans h.procs, h'.nextpid.trans h.nextpid, h'.given.trans h.given⟩
  rw [h'.proc p, h.proc p]

theorem state (h : SchedOnly k k') (p : Addr) : (k'.proc p).state = (k.proc p).state := by
  rw [h.proc p]

theorem priority (h : SchedOnly k k') (p : Addr) : (k'.proc p).priority = (k.proc p).priority := by
  rw [h.proc p]

theorem setProc (x : Proc) (hx : x = { k.proc p with
    ts := x.ts, slist := x.slist, sprev := x.sprev, snext := x.snext }) :
    SchedOnly k (k.setProc p x) := by
  refine ⟨fun r => ?_, rfl, rfl, rfl, rfl, rfl⟩
  by_cases hr : r = p
  · subst hr
    rw [setProc_proc_same]
    exact hx
  · rw [setProc_proc, if_neg hr]

theorem setQueue (z : ProcList) : SchedOnly k (k.setQueue l z) := ⟨fun _ => rfl, rfl, rfl, rfl, rfl, rfl⟩

theorem addToListTail : SchedOnly k (addToListTail l p k) := by
  unfold Sys.addToListTail
  refine trans ?_ (setQueue _)
  have h : SchedOnly k (k.setProc p
      { k.proc p with slist := some l, snext := none, sprev := (k.queue l).tail }) := setProc _ rfl
  cases ht : (k.queue l).tail with
  | none =>
    rw [ht] at h
    exact h.trans (setQueue _)
  | some t =>
    rw [ht] at h
    exact h.trans (setProc _ rfl)

theorem joinNext : SchedOnly k (joinNext l p k) := by
  unfold Sys.joinNext
  split
  · exact setProc _ rfl
  · exact setQueue _

theorem joinPrev : SchedOnly k (joinPrev l p k) := by
  unfold Sys.joinPrev
  split
  · exact setProc _ rfl
  · exact setQueue _

theorem removeFromList : SchedOnly k (removeFromList l p k) :=
  ((setProc { k.proc p with slist := none } rfl).trans joinNext).trans joinPrev

end SchedOnly

structure Queues (k : Kernel) (L : QueueRef → List Addr) : Prop where
  dll : ∀ l, Dll (fun p => (k.proc p).snext) (fun p => (k.proc p).sprev)
    (k.queue l).head (k.queue l).tail (L l)
  mem_iff : ∀ l p, p ∈ L l ↔ (k.proc p).slist = some l

namespace Queues

variable {k : Kernel} {L : QueueRef → List Addr} {l : QueueRef} {p r : Addr}

theorem dlls (h : Queues k L) : Dlls (fun p => (k.proc p).snext) (fun p => (k.proc p).sprev)
    (fun l => (k.queue l).head) (fun l => (k.queue l).tail) L := by
  refine ⟨h.dll, fun l l' p hp hp' => ?_⟩
  rw [h.mem_iff] at hp hp'
  exact Option.some.inj (hp.symm.trans hp')

theorem tail_ne (h : Queues k L) (hp : (k.proc p).slist = none) : (k.queue l).tail ≠ some p := by
  apply h.dlls.tail_ne
  rw [h.mem_iff, hp]
  exact fun he => by cases he

theorem prev_ne (h : Queues k L) (hp : (k.proc p).slist = some l) :
    (k.proc p).sprev ≠ some p ∧ (k.proc p).snext ≠ some p :=
  h.dlls.neighbours_ne ((h.mem_iff l p).mpr hp)

theorem add (h : Queues k L) (hp : (k.proc p).slist = none) :
    Queues (addToListTail l p k) (Function.update L l (L l ++ [p])) := by
  have ht : (k.queue l).tail ≠ some p := h.tail_ne hp
  have hpn : ∀ l', p ∉ L l' := by
    intro l'
    rw [h.mem_iff, hp]
    exact fun he => by cases he
  refine ⟨(h.dlls.append hpn ?_ ?_ ?_ ?_ ?_ ?_).dll, fun l' r => ?_⟩
  · intro y hy
    rw [addToListTail_proc ht, if_neg hy]
    split_ifs <;> rfl
  · intro y hy
    rw [addToListTail_proc ht, if_neg hy]
    split_ifs <;> rfl
  · rw [addToListTail_proc ht, if_pos rfl]
  · rw [addToListTail_proc ht, if_pos rfl]
  · intro l'
    rw [addToListTail_queue]
    split_ifs <;> rfl
  · intro l'
    rw [addToListTail_queue]
    split_ifs <;> rfl
  · rw [addToListTail_slist ht, mem_append_iff, h.mem_iff]
    by_cases hr : r = p
    · simp [hr, hp, eq_comm]
    · simp [hr]

theorem remove (h : Queues k L) (hp : (k.proc p).slist = some l) :
    Queues (removeFromList l p k) (Function.update L l ((L l).erase p)) := by
  obtain ⟨hs, hn⟩ := h.prev_ne hp
  have hpl : p ∈ L l := (h.mem_iff l p).mpr hp
  refine ⟨(h.dlls.remove hpl ?_ ?_ ?_ ?_).dll, fun l' r => ?_⟩
  · intro y hy
    rw [removeFromList_proc hs hy]
  · intro y hy
    rw [removeFromList_proc hs hy]
  · intro l'
    rw [removeFromList_queue hs]
    split_ifs <;> rfl
  · intro l'
    rw [removeFromList_queue hs]
    split_ifs <;> rfl
  · rw [removeFromList_slist hs hn, h.dlls.mem_remove hpl, h.mem_iff]
    by_cases hr : r = p <;> simp [hr]

theorem head_remove (h : Queues k L) {rest : List Addr} (hL : L l = p :: rest) :
    ((removeFromList l p k).queue l).head = rest.head? := by
  have hp : (k.proc p).slist = some l := (h.mem_iff l p).mp (by rw [hL]; exact List.mem_cons_self)
  have hd := ((h.remove hp).dll l).head_eq
  rwa [Function.update_self, hL, List.erase_cons_head] at hd

end Queues

end Agatha.Sys
