import Agatha.Sys.QueueCalls
import Mathlib.Order.Interval.Finset.Nat

namespace Agatha.Sys

open Kernel Library.LinkedList

def isReady (k : Kernel) (p : Addr) : Bool := decide ((k.proc p).state = .ready)

section Walks

variable {k k' : Kernel} {L L' : QueueRef → List Addr} {l : QueueRef} {p r : Addr} {i fuel B : ℕ} {systick : ℤ}
  {xs ys : List Addr} {head : Option Addr}

theorem isReady_congr (h : SchedOnly k k') : isReady k' = isReady k := by
  funext p
  unfold isReady
  rw [h.state p]

theorem addToListTail_ts (h : (k.queue l).tail ≠ some p) : ((addToListTail l p k).proc r).ts = (k.proc r).ts := by
  rw [addToListTail_proc h]
  split_ifs with hr
  · rw [hr]
  · rfl
  · rfl

theorem removeFromList_ts (hs : (k.proc p).sprev ≠ some p) (hn : (k.proc p).snext ≠ some p) :
    ((removeFromList l p k).proc r).ts = (k.proc r).ts := by
  by_cases hr : r = p
  · subst hr
    rw [removeFromList_proc_self hs hn]
  · rw [removeFromList_proc hs hr]

theorem current_ne_other : current k i ≠ other k i := by
  intro he
  have hside := congrArg Prod.snd he
  simp only [current, other] at hside
  omega

structure Scanned (k k' : Kernel) (L L' : QueueRef → List Addr) (i : ℕ) (r : Option Addr) : Prop where
  lists : Queues k' L'
  sched : SchedOnly k k'
  side : k'.q = k.q
  ts : ∀ p, (k'.proc p).ts = (k.proc p).ts
  rest : ∀ l, l ≠ current k i → l ≠ other k i → L' l = L l
  walked : ∃ pre, L (current k i) = pre ++ L' (current k i) ∧
    L' (other k i) = L (other k i) ++ pre.filter (isReady k) ∧
    ∀ p ∈ pre, isReady k p = true → (k.proc p).ts ≤ minTimeSlice
  found : r = (L' (current k i)).head?
  good : ∀ p, r = some p → isReady k p = true ∧ (k.proc p).ts > minTimeSlice

theorem Scanned.step {k₁ : Kernel} {L₁ : QueueRef → List Addr} {o : Option Addr} (hL : L (current k i) = p :: xs)
    (hsched : SchedOnly k k₁) (hside : k₁.q = k.q)
    (hts : ∀ r, (k₁.proc r).ts = (k.proc r).ts) (hrest : ∀ l, l ≠ current k i → l ≠ other k i → L₁ l = L l)
    (hcur : L₁ (current k i) = xs)
    (hoth : L₁ (other k i) = L (other k i) ++ [p].filter (isReady k))
    (hlow : isReady k p = true → (k.proc p).ts ≤ minTimeSlice) (h : Scanned k₁ k' L₁ L' i o) :
    Scanned k k' L L' i o := by
  have hc : current k₁ i = current k i := by
    unfold current
    rw [hside]
  have ho : other k₁ i = other k i := by
    unfold other
    rw [hside]
  obtain ⟨lists, sched, side, ts, rest, ⟨pre, hpre, hmoved, hlate⟩, found, good⟩ := h
  rw [hc] at rest hpre found
  rw [ho] at rest hmoved
  rw [isReady_congr hsched] at hmoved hlate good
  refine ⟨lists, hsched.trans sched, side.trans hside, fun r => (ts r).trans (hts r), ?_, ⟨p :: pre, ?_, ?_, ?_⟩,
    found, ?_⟩
  · intro l h1 h2
    exact (rest l h1 h2).trans (hrest l h1 h2)
  · rw [hL, List.cons_append, ← hpre, hcur]
  · rw [hmoved, hoth, List.append_assoc, ← List.filter_append]
    rfl
  · intro q hq hr
    rcases List.mem_cons.mp hq with rfl | hq
    · exact hlow hr
    · rw [← hts q]
      exact hlate q hq hr
  · intro q hq
    rw [← hts q]
    exact good q hq

theorem nextProcScan_spec (hL : Queues k L) : ∃ k' r L', Scanned k k' L L' i r ∧
    ∀ fuel, (L (current k i)).length < fuel →
      nextProcScan i fuel (L (current k i)).head? k = some (k', r) := by
  generalize hxs : L (current k i) = xs
  induction xs generalizing k L with
  | nil =>
    refine ⟨k, none, L, ⟨hL, .refl, rfl, fun _ => rfl, fun _ _ _ => rfl, ⟨[], ?_, ?_, ?_⟩, ?_, nofun⟩, ?_⟩
    · rfl
    · rw [List.filter_nil, List.append_nil]
    · exact fun p hp => absurd hp List.not_mem_nil
    · rw [hxs]
      rfl
    · intro fuel hfuel
      rw [← Nat.succ_pred_eq_of_pos hfuel]
      rfl
  | cons p xs ih =>
    have hp : (k.proc p).slist = some (current k i) := (hL.mem_iff _ p).mp (by rw [hxs]; exact List.mem_cons_self)
    obtain ⟨hsp, hsn⟩ := hL.prev_ne hp
    have hnext : (k.proc p).snext = xs.head? := by
      have hd := hL.dll (current k i)
      rw [hxs, ← List.nil_append (p :: xs)] at hd
      exact hd.neighbours.2
    have hrm := hL.remove hp
    rw [hxs, List.erase_cons_head] at hrm
    have hnone : ((removeFromList (current k i) p k).proc p).slist = none := by
      rw [removeFromList_slist hsp hsn, if_pos rfl]
    have hrun : ∀ (k' : Kernel) (r : Option Addr),
        (∀ fuel, xs.length < fuel → nextProcScan i (fuel + 1) (some p) k = some (k', r)) →
        ∀ fuel, (p :: xs).length < fuel → nextProcScan i fuel (p :: xs).head? k = some (k', r) := by
      intro k' r h fuel hfuel
      obtain ⟨fuel, rfl⟩ : ∃ n, fuel = n + 1 := ⟨fuel - 1, by omega⟩
      exact h fuel (Nat.lt_of_succ_lt_succ hfuel)
    have hunfold : ∀ fuel, nextProcScan i (fuel + 1) (some p) k = if (k.proc p).state = .ready then
        if (k.proc p).ts > minTimeSlice then some (k, some p) else nextProcScan i fuel xs.head?
          (addToListTail (other k i) p (removeFromList (current k i) p k))
        else nextProcScan i fuel xs.head? (removeFromList (current k i) p k) := by
      intro fuel
      rw [← hnext]
      rfl
    by_cases hr : (k.proc p).state = .ready
    · by_cases hts : (k.proc p).ts > minTimeSlice
      · refine ⟨k, some p, L, ⟨hL, .refl, rfl, fun _ => rfl, fun _ _ _ => rfl, ⟨[], ?_, ?_, ?_⟩, ?_, ?_⟩, ?_⟩
        · rfl
        · rw [List.filter_nil, List.append_nil]
        · exact fun p hp => absurd hp List.not_mem_nil
        · rw [hxs]
          rfl
        · rintro _ ⟨⟩
          exact ⟨decide_eq_true hr, hts⟩
        · apply hrun
          intro fuel _
          rw [hunfold, if_pos hr, if_pos hts]
      · have hadd := hrm.add (l := other k i) hnone
        have hcur : current (addToListTail (other k i) p (removeFromList (current k i) p k)) i = current k i := by
          unfold current
          rw [addToListTail_q, removeFromList_q]
        obtain ⟨k', o, L', hs, hscan⟩ := ih hadd
          (by rw [hcur, Function.update_of_ne current_ne_other, Function.update_self])
        refine ⟨k', o, L', Scanned.step hxs ?_ ?_ ?_ ?_ ?_ ?_ ?_ hs, ?_⟩
        · exact SchedOnly.removeFromList.trans SchedOnly.addToListTail
        · rw [addToListTail_q, removeFromList_q]
        · intro r
          rw [addToListTail_ts (hrm.tail_ne hnone), removeFromList_ts hsp hsn]
        · intro l h1 h2
          rw [Function.update_of_ne h2, Function.update_of_ne h1]
        · rw [Function.update_of_ne current_ne_other, Function.update_self]
        · rw [Function.update_self, Function.update_of_ne current_ne_other.symm]
          unfold isReady
          simp [hr]
        · exact fun _ => not_lt.mp hts
        · apply hrun
          intro fuel hfuel
          rw [hunfold, if_pos hr, if_neg hts]
          exact hscan fuel hfuel
    · have hcur : current (removeFromList (current k i) p k) i = current k i := by
        unfold current
        rw [removeFromList_q]
      obtain ⟨k', o, L', hs, hscan⟩ := ih hrm (by rw [hcur, Function.update_self])
      refine ⟨k', o, L', Scanned.step hxs ?_ ?_ ?_ ?_ ?_ ?_ ?_ hs, ?_⟩
      · exact SchedOnly.removeFromList
      · rw [removeFromList_q]
      · exact fun r => removeFromList_ts hsp hsn
      · exact fun l h1 _ => Function.update_of_ne h1 _ _
      · rw [Function.update_self]
      · rw [Function.update_of_ne current_ne_other.symm]
        unfold isReady
        simp [hr]
      · intro h
        exact absurd (of_decide_eq_true h) hr
      · apply hrun
        intro fuel hfuel
        rw [hunfold, if_neg hr]
        exact hscan fuel hfuel

theorem refill_spec (systick : ℤ) (hc : Chain (fun p => (k.proc p).snext) head xs) :
    ∃ k', k'.queue = k.queue ∧ k'.q = k.q ∧ SchedOnly k k' ∧
      (∀ p, k'.proc p = { k.proc p with ts := if p ∈ xs then systick else (k.proc p).ts }) ∧
      ∀ fuel, xs.length < fuel → refill systick fuel head k = some k' := by
  induction xs generalizing k head with
  | nil =>
    obtain rfl : head = none := hc
    refine ⟨k, rfl, rfl, .refl, fun p => by simp, fun fuel hfuel => ?_⟩
    rw [← Nat.succ_pred_eq_of_pos hfuel]
    rfl
  | cons x xs ih =>
    obtain ⟨rfl, hc⟩ := hc
    have hproc : ∀ p, (k.setProc x { k.proc x with ts := systick }).proc p =
        { k.proc p with ts := if p = x then systick else (k.proc p).ts } := by
      intro p
      rw [setProc_proc]
      split_ifs with hp
      · rw [hp]
      · rfl
    have hc' : Chain (fun p => ((k.setProc x { k.proc x with ts := systick }).proc p).snext) (k.proc x).snext xs := by
      apply hc.congr
      intro p _
      rw [hproc]
    obtain ⟨k', hqueue, hq, hsched, hts, hrun⟩ := ih hc'
    refine ⟨k', hqueue, hq, (SchedOnly.setProc _ rfl).trans hsched, fun p => ?_, fun fuel hfuel => ?_⟩
    · rw [hts p, hproc p]
      by_cases hp : p ∈ xs <;> by_cases hpx : p = x <;> simp [hp, hpx]
    · obtain ⟨fuel, rfl⟩ : ∃ n, fuel = n + 1 := ⟨fuel - 1, by omega⟩
      exact hrun fuel (Nat.lt_of_succ_lt_succ hfuel)

/-- What one pass of the loop of `next_proc` over level `i` leaves when it finds no process. -/
structure Turned (systick : ℤ) (k k' : Kernel) (L L' : QueueRef → List Addr) (i : ℕ) : Prop where
  lists : Queues k' L'
  sched : SchedOnly k k'
  turned : current k' i = other k i
  turned' : other k' i = current k i
  sides : ∀ j, j ≠ i → k'.q j = k.q j
  rest : ∀ l, l.1 ≠ i → L' l = L l
  spent : L' (current k i) = []
  moved : L' (other k i) = L (other k i) ++ (L (current k i)).filter (isReady k)
  late : ∀ p ∈ L (current k i), isReady k p = true → (k.proc p).ts ≤ minTimeSlice
  full : ∀ p ∈ L' (other k i), (k'.proc p).ts = systick

theorem nextProcFrom_pass (systick : ℤ) (hL : Queues k L) (hq : k.q i < 2) :
    (∃ k' p, p ∈ L (current k i) ∧ isReady k p = true ∧ (k'.proc p).ts > minTimeSlice ∧
      ∀ fuel, (L (current k i)).length < fuel →
        nextProcFrom systick (fuel + 1) (i + 1) k = some (k', some p)) ∨
    ∃ k' L', Turned systick k k' L L' i ∧
      ∀ fuel, (L (current k i)).length + (L (other k i)).length < fuel →
        nextProcFrom systick (fuel + 1) (i + 1) k =
          if L' (current k' i) = [] then nextProcFrom systick fuel i k'
          else nextProcFrom systick fuel (i + 1) k' := by
  obtain ⟨k₁, r, L₁, hs, hscan⟩ := nextProcScan_spec (i := i) hL
  rw [← (hL.dll (current k i)).head_eq] at hscan
  obtain ⟨pre, hpre, hmoved, hlate⟩ := hs.walked
  cases r with
  | some p =>
    left
    obtain ⟨hready, hts⟩ := hs.good p rfl
    refine ⟨k₁, p, ?_, hready, by rwa [hs.ts], fun fuel hfuel => ?_⟩
    · rw [hpre]
      apply List.mem_append_right
      exact List.mem_of_head? hs.found.symm
    · unfold nextProcFrom
      rw [hscan fuel hfuel]
  | none =>
    right
    have hempty : L₁ (current k i) = [] := List.head?_eq_none_iff.mp hs.found.symm
    rw [hempty, List.append_nil] at hpre
    rw [← hpre] at hmoved hlate
    let k₂ : Kernel := { k₁ with q := Function.update k₁.q i ((k₁.q i + 1) % 2) }
    have hc₂ : current k₂ i = other k i := by
      simp only [k₂, current, other, Function.update_self, hs.side]
    have hL₂ : Queues k₂ L₁ := ⟨hs.lists.dll, hs.lists.mem_iff⟩
    have hd₂ := hL₂.dll (other k i)
    obtain ⟨k₃, hqueue, hside, hsched, hproc, hrefill⟩ := refill_spec systick hd₂.chain
    have hq₃ : k₃.q = Function.update k.q i ((k.q i + 1) % 2) := by
      rw [hside, ← hs.side]
    have hc₃ : current k₃ i = other k i := by
      simp only [current, other, hq₃, Function.update_self]
    have hL₃ : Queues k₃ L₁ := by
      refine ⟨fun l => ?_, fun l p => ?_⟩
      · rw [hqueue]
        exact (hL₂.dll l).congr (fun p _ => by rw [hproc]) (fun p _ => by rw [hproc])
      · rw [hproc]
        exact hL₂.mem_iff l p
    have hhead : (k₃.queue (current k₃ i)).head = (L₁ (other k i)).head? := by
      rw [hc₃]
      exact (hL₃.dll _).head_eq
    refine ⟨k₃, L₁, ⟨hL₃, ?_, hc₃, ?_, ?_, ?_, hempty, hmoved, hlate, ?_⟩, fun fuel hfuel => ?_⟩
    · have hsched₂ : SchedOnly k₁ k₂ := ⟨fun _ => rfl, rfl, rfl, rfl, rfl, rfl⟩
      exact (hs.sched.trans hsched₂).trans hsched
    · simp only [current, other, hq₃, Function.update_self, Prod.mk.injEq, true_and]
      omega
    · intro j hj
      rw [hq₃, Function.update_of_ne hj]
    · intro l hl
      apply hs.rest
      · exact fun he => hl (congrArg Prod.fst he)
      · exact fun he => hl (congrArg Prod.fst he)
    · intro p hp
      rw [hproc, if_pos hp]
    · have hlen : (L₁ (other k i)).length ≤ (L (current k i)).length + (L (other k i)).length := by
        rw [hmoved, List.length_append, Nat.add_comm]
        exact Nat.add_le_add_right (List.length_filter_le _ _) _
      have hr₂ := hrefill fuel (Nat.lt_of_le_of_lt hlen hfuel)
      conv_lhs => unfold nextProcFrom
      rw [hscan fuel (by omega)]
      simp only
      rw [← hc₂] at hr₂
      simp only [k₂] at hr₂
      rw [hr₂]
      simp only
      rw [hhead, hc₃]
      simp only [List.head?_eq_none_iff]

theorem Turned.both {s : ℕ} (hq : k.q i < 2) (hs : s < 2) :
    ((i, s) : QueueRef) = current k i ∨ ((i, s) : QueueRef) = other k i := by
  simp only [current, other, Prod.mk.injEq, true_and]
  omega

structure Passed (k k' : Kernel) (L L' : QueueRef → List Addr) (i : ℕ) : Prop where
  lists : Queues k' L'
  sched : SchedOnly k k'
  sides : ∀ j, j < i → k'.q j = k.q j
  rest : ∀ l, l.1 < i → L' l = L l
  none : ∀ s p, s < 2 → p ∈ L (i, s) → isReady k p = false

theorem nextProcFrom_level (hs : minTimeSlice < systick) (hL : Queues k L) (hq : k.q i < 2)
    (hB : ∀ s, s < 2 → (L (i, s)).length ≤ B) :
    (∃ k' p s, s < 2 ∧ p ∈ L (i, s) ∧ isReady k p = true ∧ (k'.proc p).ts > minTimeSlice ∧
      ∀ fuel, 2 * B < fuel → nextProcFrom systick (fuel + 2) (i + 1) k = some (k', some p)) ∨
    ∃ k' L' n, Passed k k' L L' i ∧ n ≤ 2 ∧ ∀ fuel, 2 * B < fuel →
      nextProcFrom systick (fuel + n) (i + 1) k = nextProcFrom systick fuel i k' := by
  have hc : (L (current k i)).length ≤ B := hB _ hq
  have ho : (L (other k i)).length ≤ B := hB _ (Nat.mod_lt _ Nat.two_pos)
  rcases nextProcFrom_pass systick hL hq with ⟨k', p, hp, hr, hts, hrun⟩ | ⟨k₁, L₁, h₁, hrun₁⟩
  · left
    exact ⟨k', p, k.q i, hq, hp, hr, hts, fun fuel hfuel => hrun (fuel + 1) (by omega)⟩
  by_cases hempty : L₁ (current k₁ i) = []
  · right
    refine ⟨k₁, L₁, 1, ⟨h₁.lists, h₁.sched, ?_, ?_, ?_⟩, by omega, fun fuel hfuel => ?_⟩
    · exact fun j hj => h₁.sides j (Nat.ne_of_lt hj)
    · exact fun l hl => h₁.rest l (Nat.ne_of_lt hl)
    · intro s p hs hp
      rw [h₁.turned, h₁.moved, List.append_eq_nil_iff, List.filter_eq_nil_iff] at hempty
      rcases Turned.both hq hs with he | he
      · rw [he] at hp
        exact Bool.eq_false_of_not_eq_true (hempty.2 p hp)
      · rw [he, hempty.1] at hp
        cases hp
    · rw [hrun₁ fuel (by omega), if_pos hempty]
  · have hlen : (L₁ (current k₁ i)).length ≤ 2 * B := by
      rw [h₁.turned, h₁.moved, List.length_append]
      have := List.length_filter_le (isReady k) (L (current k i))
      omega
    have hlen' : L₁ (other k₁ i) = [] := by
      rw [h₁.turned', h₁.spent]
    have hq₁ : k₁.q i < 2 := by
      have := congrArg Prod.snd h₁.turned
      simp only [current, other] at this
      omega
    have hfrom : ∀ p, p ∈ L₁ (current k₁ i) → ∃ s, s < 2 ∧ p ∈ L (i, s) := by
      intro p hp
      rw [h₁.turned, h₁.moved, List.mem_append] at hp
      rcases hp with hp | hp
      · exact ⟨_, Nat.mod_lt _ Nat.two_pos, hp⟩
      · exact ⟨_, hq, (List.mem_filter.mp hp).1⟩
    rcases nextProcFrom_pass systick h₁.lists hq₁ with
      ⟨k', p, hp, hr, hts, hrun⟩ | ⟨k₂, L₂, h₂, hrun₂⟩
    · left
      obtain ⟨s, hs, hps⟩ := hfrom p hp
      rw [isReady_congr h₁.sched] at hr
      refine ⟨k', p, s, hs, hps, hr, hts, fun fuel hfuel => ?_⟩
      rw [hrun₁ (fuel + 1) (by omega), if_neg hempty]
      exact hrun fuel (by omega)
    · right
      -- the refilled processes can only be passed over when none is ready
      have hnone : ∀ p ∈ L₁ (current k₁ i), isReady k p = false := by
        intro p hp
        apply Bool.eq_false_of_not_eq_true
        intro hr
        rw [← isReady_congr h₁.sched] at hr
        have hlate := h₂.late p hp hr
        rw [h₁.turned] at hp
        rw [h₁.full p hp] at hlate
        omega
      have hempty₂ : L₂ (current k₂ i) = [] := by
        rw [h₂.turned, h₂.moved, hlen', List.nil_append, List.filter_eq_nil_iff]
        intro p hp
        rw [isReady_congr h₁.sched, hnone p hp]
        exact Bool.false_ne_true
      refine ⟨k₂, L₂, 2, ⟨h₂.lists, h₁.sched.trans h₂.sched, ?_, ?_, ?_⟩, le_rfl, fun fuel hfuel => ?_⟩
      · exact fun j hj => (h₂.sides j (Nat.ne_of_lt hj)).trans (h₁.sides j (Nat.ne_of_lt hj))
      · exact fun l hl => (h₂.rest l (Nat.ne_of_lt hl)).trans (h₁.rest l (Nat.ne_of_lt hl))
      · intro s p hs hp
        by_contra hr
        have hr' := Bool.eq_true_of_not_eq_false hr
        apply hr
        apply hnone
        rw [h₁.turned, h₁.moved, List.mem_append, List.mem_filter]
        rcases Turned.both hq hs with he | he
        · exact .inr ⟨he ▸ hp, hr'⟩
        · exact .inl (he ▸ hp)
      · rw [hrun₁ (fuel + 1) (by omega), if_neg hempty, hrun₂ fuel (by rw [hlen']; simp; omega), if_pos hempty₂]

theorem nextProcFrom_spec (hs : minTimeSlice < systick) (hL : Queues k L) (hq : ∀ j, j < i → k.q j < 2)
    (hB : ∀ j s, j < i → s < 2 → (L (j, s)).length ≤ B) :
    ∃ k' r, (∀ fuel, 2 * B + 2 * i < fuel → nextProcFrom systick fuel i k = some (k', r)) ∧
      (r = none → ∀ j s p, j < i → s < 2 → p ∈ L (j, s) → isReady k p = false) ∧
      ∀ p, r = some p → ∃ j s, j < i ∧ s < 2 ∧ p ∈ L (j, s) ∧ isReady k p = true ∧
        (k'.proc p).ts > minTimeSlice ∧
        ∀ j' s' p', j < j' → j' < i → s' < 2 → p' ∈ L (j', s') → isReady k p' = false := by
  induction i generalizing k L with
  | zero =>
    refine ⟨k, none, fun fuel hfuel => ?_, fun _ j s p hj => absurd hj (Nat.not_lt_zero j), nofun⟩
    rw [← Nat.succ_pred_eq_of_pos (Nat.zero_lt_of_lt hfuel)]
    rfl
  | succ i ih =>
    rcases nextProcFrom_level hs hL (hq i (Nat.lt_succ_self i)) (fun s => hB i s (Nat.lt_succ_self i)) with
      ⟨k', p, s, h2, hp, hr, hts, hrun⟩ | ⟨k₁, L₁, n, h₁, hn, hrun⟩
    · refine ⟨k', some p, fun fuel hfuel => ?_, nofun, ?_⟩
      · obtain ⟨fuel, rfl⟩ : ∃ n, fuel = n + 2 := ⟨fuel - 2, by omega⟩
        exact hrun fuel (by omega)
      · rintro _ ⟨⟩
        exact ⟨i, s, Nat.lt_succ_self i, h2, hp, hr, hts, fun j' s' p' hlt hle => by omega⟩
    · obtain ⟨k', r, hrun', hnone, hsome⟩ := ih h₁.lists
        (fun j hj => by rw [h₁.sides j hj]; exact hq j (Nat.lt_succ_of_lt hj))
        (fun j s hj h2 => by rw [h₁.rest _ hj]; exact hB j s (Nat.lt_succ_of_lt hj) h2)
      rw [isReady_congr h₁.sched] at hnone hsome
      refine ⟨k', r, fun fuel hfuel => ?_, fun hr j s p hj h2 hp => ?_, fun p hp => ?_⟩
      · obtain ⟨fuel, rfl⟩ : ∃ m, fuel = m + n := ⟨fuel - n, by omega⟩
        rw [hrun fuel (by omega)]
        exact hrun' fuel (by omega)
      · rcases Nat.lt_succ_iff_lt_or_eq.mp hj with hj | rfl
        · exact hnone hr j s p hj h2 (by rwa [h₁.rest _ hj])
        · exact h₁.none s p h2 hp
      · obtain ⟨j, s, hj, h2, hps, hr, hts, hhigh⟩ := hsome p hp
        refine ⟨j, s, Nat.lt_succ_of_lt hj, h2, by rwa [← h₁.rest _ hj], hr, hts, fun j' s' p' hlt hle h2' hp' => ?_⟩
        rcases Nat.lt_succ_iff_lt_or_eq.mp hle with hle | rfl
        · exact hhigh j' s' p' hlt hle h2' (by rwa [h₁.rest _ hle])
        · exact h₁.none s' p' h2' hp'

theorem queues_bounded (L : QueueRef → List Addr) (i : ℕ) :
    ∃ B, ∀ j s, j < i → s < 2 → (L (j, s)).length ≤ B := by
  refine ⟨(Finset.range i ×ˢ Finset.range 2).sup fun l => (L l).length, fun j s hj hs => ?_⟩
  apply Finset.le_sup (f := fun l => (L l).length)
  exact Finset.mem_product.mpr ⟨Finset.mem_range.mpr hj, Finset.mem_range.mpr hs⟩

theorem next_proc_right (h : ReadyQueues k) (hs : minTimeSlice < systick) :
    ∃ k' r, (∃ N, ∀ fuel, N ≤ fuel → nextProc systick fuel k = some (k', r)) ∧
      (r = none ↔ ∀ p, (k.proc p).slist ≠ none → (k.proc p).state ≠ .ready) ∧
      (∀ p, r = some p → (k.proc p).slist ≠ none ∧ (k'.proc p).state = .ready ∧
        minTimeSlice < (k'.proc p).ts ∧ ∀ p', (k.proc p').slist ≠ none → (k.proc p').state = .ready →
          (k.proc p').priority ≤ (k.proc p).priority) ∧
      ReadyQueues k' ∧ SchedOnly k k' ∧
      ∀ p, (k.proc p).slist ≠ none → (k'.proc p).slist = none → (k.proc p).state ≠ .ready := by
  obtain ⟨L, hL⟩ := h.lists
  obtain ⟨B, hB⟩ := queues_bounded L priorityMax
  have hqueued : ∀ p, (k.proc p).slist ≠ none → ∃ s, s < 2 ∧ p ∈ L ((k.proc p).priority, s) := by
    intro p hp
    obtain ⟨l, hl⟩ := Option.ne_none_iff_exists'.mp hp
    obtain ⟨h1, h2⟩ := h.own p l hl
    refine ⟨l.2, h2, ?_⟩
    rw [hL.mem_iff, hl, ← h1]
  have hpriority : ∀ p j s, p ∈ L (j, s) → (k.proc p).slist ≠ none ∧ (k.proc p).priority = j := by
    intro p j s hp
    have hl := (hL.mem_iff _ p).mp hp
    exact ⟨by rw [hl]; exact Option.some_ne_none _, (h.own p _ hl).1.symm⟩
  obtain ⟨k', r, hrun, hnone, hsome⟩ := nextProcFrom_spec hs hL (fun j _ => h.side j) hB
  obtain ⟨hq, hsh, hr⟩ := nextProcFrom_shuffles h (hrun _ (Nat.lt_succ_self _))
  refine ⟨k', r, ⟨_, hrun⟩, ⟨fun he p hp hready => ?_, fun hall => ?_⟩, fun p hp => ?_, hq, hsh.sched, ?_⟩
  · obtain ⟨s, h2, hps⟩ := hqueued p hp
    have hno := hnone he _ s p (h.priority p) h2 hps
    exact of_decide_eq_false hno hready
  · by_contra he
    obtain ⟨p, hp⟩ := Option.ne_none_iff_exists'.mp he
    obtain ⟨j, s, _, _, hps, hready, _⟩ := hsome p hp
    exact hall p (hpriority p j s hps).1 (of_decide_eq_true hready)
  · obtain ⟨j, s, _, _, hps, _, hts, hhigh⟩ := hsome p hp
    obtain ⟨hslist, rfl⟩ := hpriority p j s hps
    refine ⟨hslist, hr p hp, hts, fun p' hp' hready => ?_⟩
    by_contra hlt
    obtain ⟨s', h2', hps'⟩ := hqueued p' hp'
    exact of_decide_eq_false (hhigh _ s' p' (not_le.mp hlt) (h.priority p') h2' hps') hready
  · exact fun p hp hp' hready => hsh.keeps p hready hp hp'

end Walks

theorem next_proc_right_twoProcesses : ∃ k' p, (∃ N, ∀ fuel, N ≤ fuel →
    nextProc 500 fuel twoProcesses = some (k', some p)) ∧ minTimeSlice < (k'.proc p).ts := by
  have hqueued : (twoProcesses.proc 4096).slist = some (0, 1) := rfl
  have hready : (twoProcesses.proc 4096).state = .ready := rfl
  obtain ⟨k', r, hrun, hnone, hsome, -⟩ := next_proc_right
    (reachable_scheduling twoProcesses_reachable).queues (show minTimeSlice < 500 by decide)
  cases r with
  | none => exact absurd hready (hnone.mp rfl 4096 (by rw [hqueued]; exact Option.some_ne_none _))
  | some p => exact ⟨k', p, hrun, (hsome p rfl).2.2.1⟩

end Agatha.Sys
