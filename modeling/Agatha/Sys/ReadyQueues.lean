import Agatha.Sys.QueueLinks

namespace Agatha.Sys

open Kernel Library.LinkedList

structure ReadyQueues (k : Kernel) : Prop where
  lists : ∃ L, Queues k L
  own : ∀ p l, (k.proc p).slist = some l → l.1 = (k.proc p).priority ∧ l.2 < 2
  side : ∀ i, k.q i < 2
  priority : ∀ p, (k.proc p).priority < priorityMax

/-- What the walks of the scheduler do: the only processes they drop from the queues are not ready,
and they queue nothing that is neither queued nor ready. -/
structure Shuffles (k k' : Kernel) : Prop where
  sched : SchedOnly k k'
  up : k'.up = k.up
  keeps : ∀ p, (k.proc p).state = .ready → (k.proc p).slist ≠ none → (k'.proc p).slist ≠ none
  only : ∀ p, (k'.proc p).slist ≠ none → (k.proc p).slist ≠ none ∨ (k.proc p).state = .ready

theorem Shuffles.refl (k : Kernel) : Shuffles k k :=
  ⟨SchedOnly.refl, rfl, fun _ _ h => h, fun _ h => .inl h⟩

theorem Shuffles.trans {k k' k'' : Kernel} (h : Shuffles k k') (h' : Shuffles k' k'') :
    Shuffles k k'' := by
  refine ⟨h.sched.trans h'.sched, h'.up.trans h.up, ?_, ?_⟩
  · intro p hr hs
    exact h'.keeps p ((h.sched.state p).trans hr) (h.keeps p hr hs)
  · intro p hs
    rcases h'.only p hs with hs | hr
    · exact h.only p hs
    · exact .inr ((h.sched.state p).symm.trans hr)

section Calls

variable {k k' : Kernel} {l : QueueRef} {p u : Addr} {i fuel : ℕ} {systick : ℤ} {n r : Option Addr}

@[simp] theorem addToListTail_q : (addToListTail l p k).q = k.q := by
  unfold addToListTail
  cases (k.queue l).tail <;> rfl

@[simp] theorem addToListTail_up : (addToListTail l p k).up = k.up := by
  unfold addToListTail
  cases (k.queue l).tail <;> rfl

@[simp] theorem removeFromList_q : (removeFromList l p k).q = k.q := by
  unfold removeFromList joinPrev joinNext
  split <;> split <;> rfl

@[simp] theorem removeFromList_up : (removeFromList l p k).up = k.up := by
  unfold removeFromList joinPrev joinNext
  split <;> split <;> rfl

namespace ReadyQueues

theorem add (h : ReadyQueues k) (hp : (k.proc p).slist = none)
    (hl : l.1 = (k.proc p).priority) (h2 : l.2 < 2) : ReadyQueues (addToListTail l p k) := by
  obtain ⟨L, hL⟩ := h.lists
  refine ⟨⟨_, hL.add hp⟩, ?_, ?_, ?_⟩
  · intro r l' hr
    rw [addToListTail_slist (hL.tail_ne hp)] at hr
    rw [SchedOnly.addToListTail.priority]
    by_cases hrp : r = p
    · rw [if_pos hrp] at hr
      obtain rfl := Option.some.inj hr
      exact ⟨hrp ▸ hl, h2⟩
    · rw [if_neg hrp] at hr
      exact h.own r l' hr
  · rw [addToListTail_q]
    exact h.side
  · intro r
    rw [SchedOnly.addToListTail.priority]
    exact h.priority r

theorem remove (h : ReadyQueues k) (hp : (k.proc p).slist = some l) :
    ReadyQueues (removeFromList l p k) := by
  obtain ⟨L, hL⟩ := h.lists
  obtain ⟨hs, hn⟩ := hL.prev_ne hp
  refine ⟨⟨_, hL.remove hp⟩, ?_, ?_, ?_⟩
  · intro r l' hr
    rw [removeFromList_slist hs hn] at hr
    rw [SchedOnly.removeFromList.priority]
    by_cases hrp : r = p
    · rw [if_pos hrp] at hr
      cases hr
    · rw [if_neg hrp] at hr
      exact h.own r l' hr
  · rw [removeFromList_q]
    exact h.side
  · intro r
    rw [SchedOnly.removeFromList.priority]
    exact h.priority r

theorem slist_add (h : ReadyQueues k) (hp : (k.proc p).slist = none) (r : Addr) :
    ((addToListTail l p k).proc r).slist = if r = p then some l else (k.proc r).slist := by
  obtain ⟨L, hL⟩ := h.lists
  exact addToListTail_slist (hL.tail_ne hp)

theorem slist_remove (h : ReadyQueues k) (hp : (k.proc p).slist = some l) (r : Addr) :
    ((removeFromList l p k).proc r).slist = if r = p then none else (k.proc r).slist := by
  obtain ⟨L, hL⟩ := h.lists
  exact removeFromList_slist (hL.prev_ne hp).1 (hL.prev_ne hp).2

theorem setProc (h : ReadyQueues k) (x : Proc) (hs : x.slist = (k.proc p).slist)
    (hn : x.snext = (k.proc p).snext) (hv : x.sprev = (k.proc p).sprev)
    (hpr : x.priority = (k.proc p).priority) : ReadyQueues (k.setProc p x) := by
  obtain ⟨L, hL⟩ := h.lists
  have hfield : ∀ {α : Type} (f : Proc → α), f x = f (k.proc p) →
      ∀ r, f ((k.setProc p x).proc r) = f (k.proc r) := by
    intro α f hf r
    rw [setProc_proc]
    split_ifs with hr
    · rw [hr, hf]
    · rfl
  refine ⟨⟨L, fun l => ?_, fun l r => ?_⟩, fun r l hr => ?_, h.side, fun r => ?_⟩
  · exact (hL.dll l).congr (fun r _ => hfield Proc.snext hn r) (fun r _ => hfield Proc.sprev hv r)
  · rw [hfield Proc.slist hs r]
    exact hL.mem_iff l r
  · rw [hfield Proc.slist hs r] at hr
    rw [hfield Proc.priority hpr r]
    exact h.own r l hr
  · rw [hfield Proc.priority hpr r]
    exact h.priority r

theorem setUnqueued (h : ReadyQueues k) (hp : (k.proc p).slist = none) (x : Proc)
    (hx : x.slist = none) (hpr : x.priority < priorityMax) : ReadyQueues (k.setProc p x) := by
  obtain ⟨L, hL⟩ := h.lists
  have hother : ∀ r, (k.proc r).slist ≠ none → (k.setProc p x).proc r = k.proc r := by
    intro r hr
    rw [setProc_proc, if_neg]
    rintro rfl
    exact hr hp
  have hqueued : ∀ l, ∀ r ∈ L l, (k.setProc p x).proc r = k.proc r := by
    intro l r hr
    apply hother
    rw [(hL.mem_iff l r).mp hr]
    exact fun he => by cases he
  have hslist : ∀ r, ((k.setProc p x).proc r).slist = (k.proc r).slist := by
    intro r
    rw [setProc_proc]
    split_ifs with hr
    · rw [hr, hp, hx]
    · rfl
  refine ⟨⟨L, fun l => ?_, fun l r => ?_⟩, fun r l hr => ?_, h.side, fun r => ?_⟩
  · exact (hL.dll l).congr (fun r hr => by rw [hqueued l r hr]) (fun r hr => by rw [hqueued l r hr])
  · rw [hslist]
    exact hL.mem_iff l r
  · rw [hslist] at hr
    rw [hother r (by rw [hr]; exact fun he => by cases he)]
    exact h.own r l hr
  · rw [setProc_proc]
    split_ifs
    · exact hpr
    · exact h.priority r

theorem ts (h : ReadyQueues k) (t : ℤ) : ReadyQueues (k.setProc p { k.proc p with ts := t }) :=
  h.setProc _ rfl rfl rfl rfl

end ReadyQueues

theorem Shuffles.ts (t : ℤ) : Shuffles k (k.setProc p { k.proc p with ts := t }) := by
  have hs : ∀ r, ((k.setProc p { k.proc p with ts := t }).proc r).slist = (k.proc r).slist := by
    intro r
    rw [setProc_proc]
    split_ifs with hr
    · rw [hr]
    · rfl
  refine ⟨SchedOnly.setProc _ rfl, rfl, fun r _ h => ?_, fun r h => .inl ?_⟩
  · rwa [hs]
  · rwa [hs] at h

theorem Shuffles.add (h : ReadyQueues k) (hp : (k.proc p).slist = none)
    (hr : (k.proc p).state = .ready) : Shuffles k (addToListTail l p k) := by
  refine ⟨SchedOnly.addToListTail, addToListTail_up, ?_, ?_⟩
  · intro r _ hs
    rw [h.slist_add hp]
    split_ifs
    · exact fun he => by cases he
    · exact hs
  · intro r hs
    rw [h.slist_add hp] at hs
    by_cases hrp : r = p
    · exact .inr (hrp ▸ hr)
    · rw [if_neg hrp] at hs
      exact .inl hs

theorem Shuffles.remove (h : ReadyQueues k) (hp : (k.proc p).slist = some l)
    (hr : (k.proc p).state ≠ .ready) : Shuffles k (removeFromList l p k) := by
  refine ⟨SchedOnly.removeFromList, removeFromList_up, ?_, ?_⟩
  · intro r hrr hs
    rw [h.slist_remove hp, if_neg (fun he : r = p => hr (he ▸ hrr))]
    exact hs
  · intro r hs
    rw [h.slist_remove hp] at hs
    by_cases hrp : r = p
    · exact absurd (if_pos hrp) hs
    · rw [if_neg hrp] at hs
      exact .inl hs

theorem ReadyQueues.move (h : ReadyQueues k) (l' : QueueRef) (hp : (k.proc p).slist = some l)
    (hl : l'.1 = l.1) (h2 : l'.2 < 2) : ReadyQueues (addToListTail l' p (removeFromList l p k)) ∧
      Shuffles k (addToListTail l' p (removeFromList l p k)) := by
  have hrm := h.remove hp
  have hnone : ((removeFromList l p k).proc p).slist = none := by
    rw [h.slist_remove hp, if_pos rfl]
  have hslist : ∀ r, ((addToListTail l' p (removeFromList l p k)).proc r).slist =
      if r = p then some l' else (k.proc r).slist := by
    intro r
    rw [hrm.slist_add hnone, h.slist_remove hp]
    split_ifs <;> rfl
  refine ⟨hrm.add hnone ?_ h2, ?_⟩
  · rw [SchedOnly.removeFromList.priority, hl]
    exact (h.own p l hp).1
  · refine ⟨SchedOnly.removeFromList.trans SchedOnly.addToListTail, by simp, ?_, ?_⟩
    · intro r _ hs
      rw [hslist]
      split_ifs
      · exact fun he => by cases he
      · exact hs
    · intro r hs
      left
      rw [hslist] at hs
      split_ifs at hs with hr
      · rw [hr, hp]
        exact fun he => by cases he
      · exact hs

theorem nextProcScan_shuffles (h : ReadyQueues k) {c : Option Addr}
    (hc : c = (k.queue (current k i)).head) (hk : nextProcScan i fuel c k = some (k', r)) :
    ReadyQueues k' ∧ Shuffles k k' ∧ ∀ p, r = some p → (k'.proc p).state = .ready := by
  induction fuel generalizing k c with
  | zero => cases hk
  | succ fuel ih =>
    obtain ⟨L, hL⟩ := h.lists
    have hd := hL.dll (current k i)
    cases c with
    | none =>
      cases hk
      exact ⟨h, Shuffles.refl _, fun p hp => by cases hp⟩
    | some p =>
      -- the walk always stands at the head, since it has moved or dropped all it has passed
      obtain ⟨rest, hrest⟩ : ∃ rest, L (current k i) = p :: rest := by
        rw [hd.head_eq] at hc
        cases hLc : L (current k i) with
        | nil => rw [hLc] at hc; cases hc
        | cons a as =>
          rw [hLc] at hc
          obtain rfl := Option.some.inj hc
          exact ⟨as, rfl⟩
      have hp : (k.proc p).slist = some (current k i) :=
        (hL.mem_iff _ p).mp (by rw [hrest]; exact List.mem_cons_self)
      have hnext : (k.proc p).snext = rest.head? := by
        rw [hrest, ← List.nil_append (p :: rest)] at hd
        exact hd.neighbours.2
      have hhead := hL.head_remove hrest
      simp only [nextProcScan] at hk
      by_cases hr : (k.proc p).state = .ready
      · rw [if_pos hr] at hk
        by_cases hts : (k.proc p).ts > minTimeSlice
        · rw [if_pos hts] at hk
          cases hk
          exact ⟨h, Shuffles.refl _, fun p' hp' => Option.some.inj hp' ▸ hr⟩
        · rw [if_neg hts] at hk
          obtain ⟨hq, hsh⟩ := h.move (other k i) hp rfl (Nat.mod_lt _ (by omega))
          have hne : current k i ≠ other k i := by
            intro he
            have := congrArg Prod.snd he
            simp only [current, other] at this
            omega
          have hcur : (k.proc p).snext = ((addToListTail (other k i) p
              (removeFromList (current k i) p k)).queue (current (addToListTail (other k i) p
                (removeFromList (current k i) p k)) i)).head := by
            have he : current (addToListTail (other k i) p
                (removeFromList (current k i) p k)) i = current k i := by
              simp [current]
            rw [he, addToListTail_queue, if_neg hne, hhead, hnext]
          obtain ⟨hq', hsh', hr'⟩ := ih hq hcur hk
          exact ⟨hq', hsh.trans hsh', hr'⟩
      · rw [if_neg hr] at hk
        have hcur : (k.proc p).snext = ((removeFromList (current k i) p k).queue
            (current (removeFromList (current k i) p k) i)).head := by
          have he : current (removeFromList (current k i) p k) i = current k i := by
            simp [current]
          rw [he, hhead, hnext]
        obtain ⟨hq', hsh', hr'⟩ := ih (h.remove hp) hcur hk
        exact ⟨hq', (Shuffles.remove h hp hr).trans hsh', hr'⟩

theorem refill_shuffles (h : ReadyQueues k) (hk : refill systick fuel n k = some k') :
    ReadyQueues k' ∧ Shuffles k k' := by
  induction fuel generalizing k n with
  | zero => cases hk
  | succ fuel ih =>
    cases n with
    | none =>
      cases hk
      exact ⟨h, Shuffles.refl _⟩
    | some p =>
      obtain ⟨hq, hsh⟩ := ih (h.ts systick) hk
      exact ⟨hq, (Shuffles.ts systick).trans hsh⟩

theorem nextProcFrom_shuffles (h : ReadyQueues k)
    (hk : nextProcFrom systick fuel i k = some (k', r)) :
    ReadyQueues k' ∧ Shuffles k k' ∧ ∀ p, r = some p → (k'.proc p).state = .ready := by
  induction fuel generalizing k i with
  | zero => cases hk
  | succ fuel ih =>
    cases i with
    | zero =>
      cases hk
      exact ⟨h, Shuffles.refl _, fun p hp => by cases hp⟩
    | succ i =>
      simp only [nextProcFrom] at hk
      cases hscan : nextProcScan i fuel (k.queue (current k i)).head k with
      | none => rw [hscan] at hk; cases hk
      | some res =>
        obtain ⟨k₁, r₁⟩ := res
        obtain ⟨hq₁, hsh₁, hr₁⟩ := nextProcScan_shuffles h rfl hscan
        rw [hscan] at hk
        cases r₁ with
        | some p =>
          cases hk
          exact ⟨hq₁, hsh₁, hr₁⟩
        | none =>
          simp only at hk
          let k₂ : Kernel := { k₁ with q := Function.update k₁.q i ((k₁.q i + 1) % 2) }
          have hq₂ : ReadyQueues k₂ := by
            obtain ⟨L, hL⟩ := hq₁.lists
            refine ⟨⟨L, hL.dll, hL.mem_iff⟩, hq₁.own, fun j => ?_, hq₁.priority⟩
            simp only [k₂, Function.update_apply]
            split_ifs
            · exact Nat.mod_lt _ (by omega)
            · exact hq₁.side j
          have hsh₂ : Shuffles k₁ k₂ :=
            ⟨⟨fun _ => rfl, rfl, rfl, rfl, rfl, rfl⟩, rfl, fun _ _ h => h, fun _ h => .inl h⟩
          cases hre : refill systick fuel (k₂.queue (current k₂ i)).head k₂ with
          | none => simp only [k₂] at hre; rw [hre] at hk; cases hk
          | some k₃ =>
            obtain ⟨hq₃, hsh₃⟩ := refill_shuffles hq₂ hre
            simp only [k₂] at hre
            rw [hre] at hk
            simp only at hk
            have hsh := (hsh₁.trans hsh₂).trans hsh₃
            split_ifs at hk
            all_goals
              obtain ⟨hq', hsh', hr'⟩ := ih hq₃ hk
              exact ⟨hq', hsh.trans hsh', hr'⟩

end Calls

end Agatha.Sys
