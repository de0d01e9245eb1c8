import Agatha.Sys.ReadyQueues
import Mathlib.Logic.Relation

namespace Agatha.Sys

open Kernel Library Library.LinkedList

variable {k k' : Kernel} {p : Addr} {fuel passed : ℕ} {systick : ℤ} {n r : Option Addr}

def NoneLost (k : Kernel) : Prop :=
  ∀ p, (k.proc p).state = .ready → k.up ≠ some p → (k.proc p).slist ≠ none

structure Registered (k : Kernel) : Prop where
  above : ∀ i, k.nextpid ≤ i → k.procs i = none
  queued : ∀ p, (k.proc p).slist ≠ none ∨ (k.proc p).state = .ready → ∃ i, k.procs i = some p
  running : ∀ p, k.up = some p → ∃ i, k.procs i = some p

structure Scheduling (k : Kernel) : Prop where
  queues : ReadyQueues k
  lost : NoneLost k
  registered : Registered k

theorem ReadyQueues.withUp (h : ReadyQueues k) (u : Option Addr) :
    ReadyQueues { k with up := u } := by
  obtain ⟨L, hL⟩ := h.lists
  exact ⟨⟨L, hL.dll, hL.mem_iff⟩, h.own, h.side, h.priority⟩

theorem Registered.shuffles (h : Registered k) (hs : Shuffles k k') : Registered k' := by
  refine ⟨?_, ?_, ?_⟩
  · rw [hs.sched.nextpid, hs.sched.procs]
    exact h.above
  · intro p hp
    rw [hs.sched.procs]
    apply h.queued
    rcases hp with hp | hp
    · exact hs.only p hp
    · exact .inr ((hs.sched.state p).symm.trans hp)
  · rw [hs.up, hs.sched.procs]
    exact h.running

theorem Scheduling.shuffles (h : Scheduling k) (hq : ReadyQueues k') (hs : Shuffles k k') :
    Scheduling k' := by
  refine ⟨hq, fun p hp hu => ?_, h.registered.shuffles hs⟩
  rw [hs.sched.state] at hp
  rw [hs.up] at hu
  exact hs.keeps p hp (h.lost p hp hu)

theorem donate_queues {u : Addr} (h : ReadyQueues k) : ReadyQueues (donate n u k) ∧
    Shuffles k (donate n u k) := by
  unfold donate
  cases n with
  | none => exact ⟨h, Shuffles.refl k⟩
  | some n => exact ⟨h.ts _, Shuffles.ts _⟩

theorem requeue_queues {u : Addr} (h : ReadyQueues k) : ReadyQueues (requeue u k) ∧
    Shuffles k (requeue u k) ∧
    ((k.proc u).state = .ready → ((requeue u k).proc u).slist ≠ none) := by
  unfold requeue
  by_cases hr : (k.proc u).state = .ready
  · rw [if_neg (not_not.mpr hr)]
    by_cases hsl : (k.proc u).slist = none
    · rw [if_pos hsl]
      refine ⟨h.add hsl rfl (h.side _), Shuffles.add h hsl hr, fun _ => ?_⟩
      rw [h.slist_add hsl, if_pos rfl]
      exact fun he => by cases he
    · rw [if_neg hsl]
      exact ⟨h, Shuffles.refl k, fun _ => hsl⟩
  · rw [if_pos hr]
    exact ⟨h.ts 0, Shuffles.ts 0, fun hr' => absurd hr' hr⟩

theorem chargeUp_queues (h : ReadyQueues k) (n : Option Addr) (passed : ℕ) :
    ReadyQueues (chargeUp n passed k) ∧ Shuffles k (chargeUp n passed k) ∧
      ∀ u, k.up = some u → (k.proc u).state = .ready →
        ((chargeUp n passed k).proc u).slist ≠ none := by
  unfold chargeUp
  cases hu : k.up with
  | none => exact ⟨h, Shuffles.refl k, fun u hu' => by cases hu'⟩
  | some u =>
    have hq₁ : ReadyQueues (charge u passed k) := h.ts _
    have hs₁ : Shuffles k (charge u passed k) := Shuffles.ts _
    obtain ⟨hq₂, hs₂⟩ := donate_queues (n := n) (u := u) hq₁
    obtain ⟨hq₃, hs₃, hu₃⟩ := requeue_queues (u := u) hq₂
    refine ⟨hq₃, (hs₁.trans hs₂).trans hs₃, ?_⟩
    rintro u' ⟨⟩ hr
    exact hu₃ (((hs₁.trans hs₂).sched.state u).trans hr)

theorem choose_shuffles (h : ReadyQueues k) (hk : choose systick fuel n k = some (k', r)) :
    ReadyQueues k' ∧ Shuffles k k' ∧ ∀ p, r = some p → (k'.proc p).state = .ready := by
  unfold choose nextProc at hk
  cases n with
  | none => exact nextProcFrom_shuffles h hk
  | some n =>
    simp only at hk
    split_ifs at hk with hr hts hsl
    · cases hk
      exact ⟨h, Shuffles.refl _, fun p hp => Option.some.inj hp ▸ hr⟩
    · have hq := h.add (l := other k (k.proc n).priority) hsl rfl (Nat.mod_lt _ (by omega))
      obtain ⟨hq', hs', hr'⟩ := nextProcFrom_shuffles hq hk
      exact ⟨hq', (Shuffles.add h hsl hr).trans hs', hr'⟩
    · exact nextProcFrom_shuffles h hk
    · exact nextProcFrom_shuffles h hk

theorem schedule_switches (h : ReadyQueues k) (hk : schedule systick fuel n passed k = some k') :
    SchedOnly k k' ∧ ∃ p, k'.up = some p ∧ (k.proc p).state = .ready := by
  obtain ⟨hq₁, hs₁, -⟩ := chargeUp_queues h n passed
  unfold schedule at hk
  cases hc : choose systick fuel n (chargeUp n passed k) with
  | none => rw [hc] at hk; cases hk
  | some res =>
    obtain ⟨k₂, r⟩ := res
    obtain ⟨-, hs₂, hr⟩ := choose_shuffles hq₁ hc
    rw [hc] at hk
    cases r with
    | none => cases hk
    | some p =>
      cases hk
      have hs := hs₁.sched.trans hs₂.sched
      exact ⟨⟨hs.proc, hs.mem, hs.endpoint, hs.procs, hs.nextpid, hs.given⟩, p, rfl,
        (hs.state p).symm.trans (hr p rfl)⟩

theorem schedule_scheduling (h : Scheduling k)
    (hk : schedule systick fuel n passed k = some k') : Scheduling k' := by
  obtain ⟨hq₁, hs₁, hu₁⟩ := chargeUp_queues h.queues n passed
  unfold schedule at hk
  cases hc : choose systick fuel n (chargeUp n passed k) with
  | none => rw [hc] at hk; cases hk
  | some res =>
    obtain ⟨k₂, r⟩ := res
    obtain ⟨hq₂, hs₂, hr⟩ := choose_shuffles hq₁ hc
    rw [hc] at hk
    cases r with
    | none => cases hk
    | some p =>
      cases hk
      have hreg := h.registered.shuffles (hs₁.trans hs₂)
      refine ⟨hq₂.withUp _, ?_, hreg.above, hreg.queued, ?_⟩
      · intro u hu _
        have hu' : ((chargeUp n passed k).proc u).state = .ready := (hs₂.sched.state u).symm.trans hu
        have hu'' : (k.proc u).state = .ready := (hs₁.sched.state u).symm.trans hu'
        apply hs₂.keeps u hu'
        by_cases hup : k.up = some u
        · exact hu₁ u hup hu''
        · exact hs₁.keeps u hu'' (h.lost u hu'' hup)
      · intro u hu
        exact hreg.queued u (.inr (Option.some.inj hu ▸ hr p rfl))

theorem nextProc_scheduling (h : Scheduling k) (hk : nextProc systick fuel k = some (k', r)) :
    Scheduling k' := by
  obtain ⟨hq, hs, -⟩ := nextProcFrom_shuffles h.queues hk
  exact h.shuffles hq hs

theorem Scheduling.setState (h : Scheduling k) (s : ProcState)
    (hs : s = .ready → (∃ i, k.procs i = some p) ∧
      (k.up ≠ some p → (k.proc p).slist ≠ none)) :
    Scheduling (k.setProc p { k.proc p with state := s }) := by
  have hslist : ∀ u, ((k.setProc p { k.proc p with state := s }).proc u).slist =
      (k.proc u).slist := by
    intro u
    rw [setProc_proc]
    split_ifs with hu
    · rw [hu]
    · rfl
  have hready : ∀ u, ((k.setProc p { k.proc p with state := s }).proc u).state = .ready →
      (u = p ∧ s = .ready) ∨ (k.proc u).state = .ready := by
    intro u hu
    rw [setProc_proc] at hu
    split_ifs at hu with he
    · exact .inl ⟨he, hu⟩
    · exact .inr hu
  refine ⟨h.queues.setProc _ rfl rfl rfl rfl, ?_, h.registered.above, ?_, h.registered.running⟩
  · intro u hu hup
    rw [hslist]
    rcases hready u hu with ⟨rfl, hr⟩ | hr
    · exact (hs hr).2 hup
    · exact h.lost u hr hup
  · intro u hu
    rw [hslist] at hu
    rcases hu with hu | hu
    · exact h.registered.queued u (.inl hu)
    · rcases hready u hu with ⟨rfl, hr⟩ | hr
      · exact (hs hr).1
      · exact h.registered.queued u (.inr hr)

theorem procReady_scheduling (h : Scheduling k) (hp : ∃ i, k.procs i = some p) :
    Scheduling (procReady p k) := by
  unfold procReady
  simp only [setProc_proc_same]
  by_cases hsl : (k.proc p).slist = none
  · -- queued first and made ready then, the process is never ready and off the queues
    rw [if_pos hsl]
    set k₁ := k.setProc p { k.proc p with state := .ready } with hk₁
    have hq₁ : ReadyQueues k₁ := h.queues.setProc _ rfl rfl rfl rfl
    have hsl₁ : (k₁.proc p).slist = none := by rw [hk₁, setProc_proc_same]; exact hsl
    have hst : ∀ u, u ≠ p → k₁.proc u = k.proc u := fun u hu => by rw [hk₁, setProc_proc, if_neg hu]
    have hl : (other k₁ (k.proc p).priority).1 = (k₁.proc p).priority := by
      rw [hk₁, setProc_proc_same]
      rfl
    have hq₂ := hq₁.add hsl₁ hl (Nat.mod_lt _ (by omega))
    refine ⟨hq₂, ?_, ?_, ?_, ?_⟩
    · intro u hu hup
      rw [hq₁.slist_add hsl₁]
      split_ifs with he
      · exact fun he => by cases he
      · rw [SchedOnly.addToListTail.state, hst u he] at hu
        rw [addToListTail_up] at hup
        rw [hst u he]
        exact h.lost u hu hup
    · rw [SchedOnly.addToListTail.nextpid, SchedOnly.addToListTail.procs]
      exact h.registered.above
    · intro u hu
      rw [SchedOnly.addToListTail.procs]
      by_cases he : u = p
      · exact he ▸ hp
      · rw [hq₁.slist_add hsl₁, if_neg he, SchedOnly.addToListTail.state, hst u he] at hu
        exact h.registered.queued u hu
    · rw [addToListTail_up, SchedOnly.addToListTail.procs]
      exact h.registered.running
  · rw [if_neg hsl]
    exact h.setState _ fun _ => ⟨hp, fun _ => hsl⟩

theorem procFault_scheduling (h : Scheduling k) : Scheduling (procFault p k) := by
  have h₁ := h.setState (p := p) .fault fun he => by cases he
  unfold procFault
  simp only
  split
  · rename_i l hl
    have hr : ((k.setProc p { k.proc p with state := .fault }).proc p).state ≠ .ready := by
      rw [setProc_proc_same]
      exact fun he => by cases he
    exact h₁.shuffles (h₁.queues.remove hl) (Shuffles.remove h₁.queues hl hr)
  · exact h₁

theorem procSetPriority_scheduling (h : Scheduling k) {priority : ℕ}
    (hpr : priority < priorityMax) : Scheduling (procSetPriority p priority k) := by
  unfold procSetPriority
  rw [if_neg (by omega)]
  simp only [setProc_proc_same]
  set k₁ := k.setProc p { k.proc p with priority := priority } with hk₁
  have hother : ∀ r, r ≠ p → k₁.proc r = k.proc r := fun r hr => by
    rw [hk₁, setProc_proc, if_neg hr]
  have hslist : ∀ r, (k₁.proc r).slist = (k.proc r).slist := by
    apply setProc_keeps
    rfl
  have hstate : ∀ r, (k₁.proc r).state = (k.proc r).state := by
    apply setProc_keeps
    rfl
  have hprio : ∀ r, (k₁.proc r).priority < priorityMax := by
    intro r
    by_cases hr : r = p
    · rw [hr, hk₁, setProc_proc_same]
      exact hpr
    · rw [hother r hr]
      exact h.queues.priority r
  cases hsl : (k.proc p).slist with
  | none =>
    have hq : ReadyQueues k₁ := h.queues.setUnqueued hsl _ hsl hpr
    refine ⟨hq, fun u hu hup => ?_, h.registered.above, fun u hu => ?_, h.registered.running⟩
    · rw [hslist]
      exact h.lost u ((hstate u).symm.trans hu) hup
    · rw [hslist, hstate] at hu
      exact h.registered.queued u hu
  | some l =>
    obtain ⟨L, hL⟩ := h.queues.lists
    -- the priority is changed while the process is still on a queue of the old one
    have hsnext : ∀ r, (k₁.proc r).snext = (k.proc r).snext := by
      apply setProc_keeps
      rfl
    have hsprev : ∀ r, (k₁.proc r).sprev = (k.proc r).sprev := by
      apply setProc_keeps
      rfl
    have hL₁ : Queues k₁ L := ⟨fun l => (hL.dll l).congr (fun r _ => hsnext r) (fun r _ => hsprev r),
      fun l r => by rw [hslist]; exact hL.mem_iff l r⟩
    have hp₁ : (k₁.proc p).slist = some l := (hslist p).trans hsl
    have hL₂ := hL₁.remove hp₁
    have hslist₂ : ∀ r, ((removeFromList l p k₁).proc r).slist =
        if r = p then none else (k.proc r).slist := by
      intro r
      rw [removeFromList_slist (hL₁.prev_ne hp₁).1 (hL₁.prev_ne hp₁).2, hslist]
    have hp₂ : ((removeFromList l p k₁).proc p).slist = none := by rw [hslist₂, if_pos rfl]
    set k₃ := addToListTail (other k₁ priority) p (removeFromList l p k₁) with hk₃
    have hslist₃ : ∀ r, (k₃.proc r).slist =
        if r = p then some (other k₁ priority) else (k.proc r).slist := by
      intro r
      rw [hk₃, addToListTail_slist (hL₂.tail_ne hp₂), hslist₂]
      split_ifs <;> rfl
    have hsched : SchedOnly k₁ k₃ := SchedOnly.removeFromList.trans SchedOnly.addToListTail
    have hup : k₃.up = k.up := by rw [hk₃, addToListTail_up, removeFromList_up]; rfl
    have hqueued : ∀ r, (k₃.proc r).slist ≠ none ↔ (k.proc r).slist ≠ none := by
      intro r
      rw [hslist₃]
      split_ifs with hr
      · simp [hr, hsl]
      · rfl
    have hq₃ : k₃.q = k.q := by rw [hk₃, addToListTail_q, removeFromList_q]; rfl
    refine ⟨⟨⟨_, hL₂.add hp₂⟩, ?_, ?_, ?_⟩, ?_, ?_, ?_, ?_⟩
    · intro r l' hr
      rw [hsched.priority]
      rw [hslist₃] at hr
      split_ifs at hr with hrp
      · obtain rfl := Option.some.inj hr
        rw [hrp, hk₁, setProc_proc_same]
        exact ⟨rfl, Nat.mod_lt _ (by omega)⟩
      · rw [hother r hrp]
        exact h.queues.own r l' hr
    · rw [hq₃]
      exact h.queues.side
    · intro r
      rw [hsched.priority]
      exact hprio r
    · intro u hu hu'
      rw [hsched.state, hstate] at hu
      exact (hqueued u).mpr (h.lost u hu (hup ▸ hu'))
    · rw [hsched.nextpid, hsched.procs]
      exact h.registered.above
    · intro u hu
      rw [hsched.procs]
      rw [hsched.state, hstate, hqueued] at hu
      exact h.registered.queued u hu
    · rw [hup, hsched.procs]
      exact h.registered.running

theorem procInit_scheduling (h : Scheduling k) (hp : ∀ i, k.procs i ≠ some p) :
    Scheduling (procInit systick p k) := by
  have hnot : ¬ ((k.proc p).slist ≠ none ∨ (k.proc p).state = .ready) := by
    intro hq
    obtain ⟨i, hi⟩ := h.registered.queued p hq
    exact hp i hi
  have hsl : (k.proc p).slist = none := by
    by_contra hs
    exact hnot (.inl hs)
  have hold : ∀ u, (∃ i, k.procs i = some u) →
      ∃ i, Function.update k.procs k.nextpid (some p) i = some u := by
    rintro u ⟨i, hi⟩
    refine ⟨i, ?_⟩
    rw [Function.update_of_ne, hi]
    rintro rfl
    rw [h.registered.above _ (Nat.le_refl _)] at hi
    cases hi
  unfold procInit
  set k₁ : Kernel := { k with
    nextpid := k.nextpid + 1, procs := Function.update k.procs k.nextpid (some p) } with hk₁
  have hq₁ : ReadyQueues k₁ := by
    obtain ⟨L, hL⟩ := h.queues.lists
    exact ⟨⟨L, hL.dll, hL.mem_iff⟩, h.queues.own, h.queues.side, h.queues.priority⟩
  refine ⟨hq₁.setUnqueued hsl _ rfl (Nat.zero_lt_succ _), ?_, ?_, ?_, ?_⟩
  · intro u hu hup
    rw [setProc_proc] at hu ⊢
    by_cases he : u = p
    · rw [if_pos he] at hu
      cases hu
    · rw [if_neg he] at hu ⊢
      exact h.lost u hu hup
  · intro i hi
    change Function.update k.procs k.nextpid (some p) i = none
    have hi' : k.nextpid + 1 ≤ i := hi
    rw [Function.update_of_ne (by omega)]
    exact h.registered.above i (by omega)
  · intro u hu
    by_cases hup : u = p
    · exact ⟨k.nextpid, by rw [hup]; exact Function.update_self ..⟩
    · rw [setProc_proc, if_neg hup] at hu
      exact hold u (h.registered.queued u hu)
  · intro u hu
    exact hold u (h.registered.running u hu)

theorem boot_scheduling (mem : Bytes) : Scheduling (Kernel.boot mem) := by
  refine ⟨⟨⟨fun _ => [], fun l => Dll.empty, fun l p => ?_⟩, ?_, ?_, ?_⟩, ?_, ?_, ?_, ?_⟩
  · simp [Kernel.boot, Proc.zero]
  · intro p l hl
    cases hl
  · intro i
    exact Nat.zero_lt_two
  · intro p
    exact Nat.zero_lt_succ _
  · intro p hp
    cases hp
  · intro i _
    rfl
  · intro p hp
    rcases hp with hp | hp
    · exact absurd rfl hp
    · cases hp
  · intro p hp
    cases hp

/-- One call of the scheduler, with any tick count. A process object is initialised once, only
initialised ones are passed to the other calls, and only the running process blocks. -/
inductive SchedulerCall (systick : ℤ) : Kernel → Kernel → Prop
  | procInit {k : Kernel} {p : Addr} (fresh : ∀ i, k.procs i ≠ some p) (room : k.nextpid < maxProcs) :
      SchedulerCall systick k (procInit systick p k)
  | procReady {k : Kernel} {p : Addr} (made : ∃ i, k.procs i = some p) :
      SchedulerCall systick k (procReady p k)
  | procFault {k : Kernel} {p : Addr} (made : ∃ i, k.procs i = some p) :
      SchedulerCall systick k (procFault p k)
  | procSetPriority {k : Kernel} {p : Addr} {priority : ℕ} (made : ∃ i, k.procs i = some p)
      (bound : priority < priorityMax) : SchedulerCall systick k (procSetPriority p priority k)
  | block {k : Kernel} {p : Addr} {s : ProcState} (running : k.up = some p)
      (blocked : s = .blockRecv ∨ s = .blockSend ∨ s = .blockReply) :
      SchedulerCall systick k (k.setProc p { k.proc p with state := s })
  | schedule {k k' : Kernel} {n : Option Addr} {fuel passed : ℕ} (made : ∀ p, n = some p → ∃ i, k.procs i = some p)
      (returns : schedule systick fuel n passed k = some k') : SchedulerCall systick k k'
  | nextProc {k k' : Kernel} {r : Option Addr} {fuel : ℕ} (returns : nextProc systick fuel k = some (k', r)) :
      SchedulerCall systick k k'

theorem SchedulerCall.scheduling (h : Scheduling k) (hk : SchedulerCall systick k k') :
    Scheduling k' := by
  cases hk with
  | procInit fresh room => exact procInit_scheduling h fresh
  | procReady made => exact procReady_scheduling h made
  | procFault made => exact procFault_scheduling h
  | procSetPriority made bound => exact procSetPriority_scheduling h bound
  | block running blocked =>
    apply h.setState
    rintro rfl
    rcases blocked with hb | hb | hb <;> cases hb
  | schedule made returns => exact schedule_scheduling h returns
  | nextProc returns => exact nextProc_scheduling h returns

theorem reachable_scheduling {mem : Bytes}
    (h : Relation.ReflTransGen (SchedulerCall systick) (Kernel.boot mem) k) : Scheduling k := by
  induction h with
  | refl => exact boot_scheduling mem
  | tail _ hk ih => exact hk.scheduling ih

theorem ready_queue_integrity {mem : Bytes}
    (h : Relation.ReflTransGen (SchedulerCall systick) (Kernel.boot mem) k) :
    ∃ L : QueueRef → List Addr,
      (∀ i < priorityMax, ∀ j < 2, Dll (fun p => (k.proc p).snext) (fun p => (k.proc p).sprev)
        (k.queue (i, j)).head (k.queue (i, j)).tail (L (i, j))) ∧
      (∀ p l, (k.proc p).slist = some l ↔ (L l).count p = 1) ∧
      (∀ p l, (k.proc p).slist = some l → (k.proc p).priority < priorityMax ∧
        (l = ((k.proc p).priority, 0) ∨ l = ((k.proc p).priority, 1))) ∧
      ∀ p, (k.proc p).state = .ready → k.up ≠ some p → ∃ l, p ∈ L l := by
  have hk := reachable_scheduling h
  obtain ⟨L, hL⟩ := hk.queues.lists
  refine ⟨L, fun i _ j _ => hL.dll (i, j), fun p l => ?_, fun p l hl => ?_, fun p hp hup => ?_⟩
  · rw [← hL.mem_iff, (hL.dll l).nodup.count]
    by_cases hm : p ∈ L l <;> simp [hm]
  · obtain ⟨h1, h2⟩ := hk.queues.own p l hl
    refine ⟨hk.queues.priority p, ?_⟩
    obtain ⟨i, j⟩ := l
    simp only at h1 h2
    obtain rfl | rfl : j = 0 ∨ j = 1 := by omega
    · exact .inl (by rw [h1])
    · exact .inr (by rw [h1])
  · obtain ⟨l, hl⟩ := Option.ne_none_iff_exists'.mp (hk.lost p hp hup)
    exact ⟨l, (hL.mem_iff l p).mpr hl⟩

def twoProcesses : Kernel :=
  procReady 8192 (procReady 4096 (procInit 500 8192 (procInit 500 4096 (.boot fun _ => 0))))

theorem twoProcesses_reachable :
    Relation.ReflTransGen (SchedulerCall 500) (.boot fun _ => 0) twoProcesses := by
  have h₁ : SchedulerCall 500 (.boot fun _ => 0) (procInit 500 4096 (.boot fun _ => 0)) :=
    .procInit (fun i hi => by cases hi) (by decide)
  have h₂ : SchedulerCall 500 (procInit 500 4096 (.boot fun _ => 0))
      (procInit 500 8192 (procInit 500 4096 (.boot fun _ => 0))) := by
    refine .procInit (fun i hi => ?_) (by decide)
    by_cases h1 : i = 1 <;> simp [procInit, Kernel.boot, h1] at hi
  exact (((Relation.ReflTransGen.refl.tail h₁).tail h₂).tail (.procReady ⟨1, rfl⟩)).tail
    (.procReady ⟨2, rfl⟩)

theorem ready_queue_integrity_twoProcesses :
    (twoProcesses.proc 8192).slist = some (0, 1) ∧
      ∃ L : QueueRef → List Addr, (L (0, 1)).count 8192 = 1 := by
  obtain ⟨L, -, hL, -⟩ := ready_queue_integrity twoProcesses_reachable
  have hs : (twoProcesses.proc 8192).slist = some (0, 1) := rfl
  exact ⟨hs, L, (hL 8192 (0, 1)).mp hs⟩

end Agatha.Sys
