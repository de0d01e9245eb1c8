import Mathlib.Algebra.BigOperators.Group.Finset.Piecewise
import Mathlib.Algebra.Order.BigOperators.Group.Finset
import Agatha.Sys.IpcScheduler
import Agatha.Sys.ReadyQueues

namespace Agatha.Sys

open Kernel Library

def total (S : Finset Addr) (k : Kernel) : ℤ := ∑ p ∈ S, (k.proc p).ts

def InRange (k : Kernel) : Prop := ∀ p, 0 ≤ (k.proc p).ts ∧ (k.proc p).ts < 2 ^ 31

def SameSlices (k k' : Kernel) : Prop := ∀ p, (k'.proc p).ts = (k.proc p).ts

def Outcome.SameSlices (k : Kernel) : Outcome → Prop
  | .ret _ _ k' => Sys.SameSlices k k'
  | .sched _ k' => Sys.SameSlices k k'
  | .panic => True
  | .stuck => True

section Paths

variable {k k' k₀ : Kernel} {u p e : Addr} {x : Proc} {fuel : ℕ} {o n : Option Addr}
variable {rq m : Bytes} {pid : ℤ} {s : BitVec 32} {l : QueueRef}

theorem SameSlices.refl : SameSlices k k := fun _ => rfl

theorem SameSlices.setProc (h : SameSlices k₀ k) (hx : x.ts = (k.proc p).ts) :
    SameSlices k₀ (k.setProc p x) := by
  intro r
  rw [setProc_proc]
  split_ifs with hr
  · rw [hx, hr]
    exact h p
  · exact h r

theorem SameSlices.addToListTail (h : SameSlices k₀ k) : SameSlices k₀ (addToListTail l p k) := by
  have h₁ : SameSlices k₀ (k.setProc p
      { k.proc p with slist := some l, snext := none, sprev := (k.queue l).tail }) := h.setProc rfl
  unfold Sys.addToListTail
  dsimp only
  split
  · exact h₁
  · rename_i t _
    have h₂ := h₁.setProc (p := t) (x := { (k.setProc p { k.proc p with
      slist := some l, snext := none, sprev := (k.queue l).tail }).proc t with snext := some p }) rfl
    exact h₂

theorem SameSlices.removeFromList (h : SameSlices k₀ k) : SameSlices k₀ (removeFromList l p k) := by
  have h₁ : SameSlices k₀ (k.setProc p { k.proc p with slist := none }) := h.setProc rfl
  have h₂ : SameSlices k₀ (joinNext l p (k.setProc p { k.proc p with slist := none })) := by
    unfold joinNext
    split
    · exact h₁.setProc rfl
    · exact h₁
  unfold Sys.removeFromList joinPrev
  split
  · exact h₂.setProc rfl
  · exact h₂

theorem SameSlices.procReady (h : SameSlices k₀ k) : SameSlices k₀ (procReady p k) := by
  have h₁ : SameSlices k₀ (k.setProc p { k.proc p with state := .ready }) := h.setProc rfl
  unfold Sys.procReady
  dsimp only
  split_ifs
  · exact h₁.addToListTail
  · exact h₁

theorem SameSlices.procFault (h : SameSlices k₀ k) : SameSlices k₀ (procFault p k) := by
  have h₁ : SameSlices k₀ (k.setProc p { k.proc p with state := .fault }) := h.setProc rfl
  unfold Sys.procFault
  dsimp only
  split
  · exact h₁.removeFromList
  · exact h₁

theorem callSchedule_slices {c : Context} (h : SameSlices k₀ k) :
    (callSchedule u c n k).SameSlices k₀ :=
  h.setProc (p := u) (x := { k.proc u with label := c }) rfl

theorem endpointGetPending_slices {y : Event} (h : SameSlices k₀ k)
    (hr : endpointGetPending fuel u e o k = .found y k') : SameSlices k₀ k' := by
  unfold endpointGetPending at hr
  by_cases hs : (k.endpoint e).signal ≠ 0
  · rw [if_pos hs] at hr
    cases hr
    exact h
  · rw [if_neg hs] at hr
    split at hr
    · cases hr
    · cases hr
    · rename_i p _
      have h₁ : SameSlices k₀ (k.setProc p { k.proc p with state := .blockReply }) := h.setProc rfl
      simp only at hr
      split at hr
      · cases hr
        exact h₁
      · split_ifs at hr
        · cases hr
          exact h₁
        · cases o with
          | none => cases hr
          | some b =>
            cases hr
            exact h₁

theorem recvLoop_slices (h : SameSlices k₀ k) : (recvLoop fuel u e o k).SameSlices k₀ := by
  unfold recvLoop
  by_cases hb : (k.proc u).boundSignal ≠ 0
  · rw [if_pos hb]
    exact h.setProc (p := u) (x := { k.proc u with boundSignal := 0 }) rfl
  · rw [if_neg hb]
    split
    · trivial
    · trivial
    · rename_i hr
      have h₁ := endpointGetPending_slices h hr
      exact h₁
    · by_cases hw : (k.endpoint e).rwait ≠ none
      · rw [if_pos hw]
        trivial
      · rw [if_neg hw]
        have h₁ : SameSlices k₀ (k.setEndpoint e { k.endpoint e with rwait := some u }) := h
        exact callSchedule_slices (h₁.setProc rfl)

theorem enqueueWaiting_slices (h : SameSlices k₀ k) : SameSlices k₀ (enqueueWaiting u e k) := by
  have h₁ : ∀ t, SameSlices k₀ (k.setProc u { k.proc u with wprev := t }) := fun t => h.setProc rfl
  unfold enqueueWaiting
  cases ht : (k.endpoint e).waiting.tail with
  | some s =>
    have h₂ : SameSlices k₀ ((k.setProc u { k.proc u with wprev := some s }).setProc s
        { (k.setProc u { k.proc u with wprev := some s }).proc s with wnext := some u }) := (h₁ _).setProc rfl
    exact h₂.setProc rfl
  | none =>
    have h₂ : SameSlices k₀ ((k.setProc u { k.proc u with wprev := none }).setEndpoint e
        { k.endpoint e with waiting := { (k.endpoint e).waiting with head := some u } }) := h₁ _
    exact h₂.setProc rfl

theorem mesg_slices (h : SameSlices k₀ k) : (mesg u e rq o k).SameSlices k₀ := by
  have h₁ : SameSlices k₀ (enqueueWaiting u e
      (k.setProc u { k.proc u with m := rq, give := o, state := .blockSend })) :=
    enqueueWaiting_slices (h.setProc rfl)
  unfold mesg
  simp only
  split
  · exact callSchedule_slices h₁.procReady
  · exact callSchedule_slices h₁

theorem reply_slices (h : SameSlices k₀ k) : (reply fuel u e pid m o k).SameSlices k₀ := by
  unfold reply
  split
  · trivial
  · exact h
  · rename_i p _
    have h₁ : SameSlices k₀ (unlinkNext e p k) := by
      unfold unlinkNext
      split
      · exact h.setProc rfl
      · exact h
    have h₂ : SameSlices k₀ (unlinkPrev e p (unlinkNext e p k)) := by
      unfold unlinkPrev
      split
      · exact h₁.setProc rfl
      · exact h₁
    generalize unlinkPrev e p (unlinkNext e p k) = k₁ at h₂
    have h₃ : SameSlices k₀ (k₁.setProc p { k₁.proc p with m := m }) := h₂.setProc rfl
    apply callSchedule_slices
    apply SameSlices.procReady
    split
    · exact h₃
    · exact h₃

theorem signal_slices (h : SameSlices k₀ k) : (signal u e s k).SameSlices k₀ := by
  unfold signal
  split
  · rename_i p _
    have h₁ : SameSlices k₀
        (k.setProc p { k.proc p with boundSignal := (k.proc p).boundSignal ||| s }) := h.setProc rfl
    simp only
    split_ifs
    · exact callSchedule_slices h₁.procReady
    · exact h₁
  · have h₁ : SameSlices k₀ (k.setEndpoint e { k.endpoint e with
        signal := (k.endpoint e).signal ||| s }) := h
    simp only
    split
    · exact callSchedule_slices h₁.procReady
    · exact h₁

theorem run_slices {op : Op} : (run fuel u op k).SameSlices k := by
  have h : SameSlices k k := .refl
  unfold run
  split_ifs
  · cases op with
    | mesg e rq o => exact mesg_slices h
    | recv e o =>
      change (recv fuel u e o k).SameSlices k
      unfold recv
      split_ifs
      · exact h
      · exact recvLoop_slices h
    | reply e pid m o => exact reply_slices h
    | signal e s => exact signal_slices h
    | bind e =>
      change (endpointBind u e k).SameSlices k
      unfold endpointBind
      split_ifs <;> exact h
    | unbind e =>
      change (endpointUnbind u e k).SameSlices k
      unfold endpointUnbind
      split_ifs <;> exact h
    | yield => exact callSchedule_slices h
    | exit => exact callSchedule_slices h.procFault
  · have h₁ : SameSlices k (k.setProc u { k.proc u with label := .user }) := h.setProc rfl
    unfold resume
    simp only
    split
    · exact recvLoop_slices h₁
    · exact h₁
    · exact h₁
    · exact h

end Paths

def Refills (systick : ℤ) (R : Finset Addr) (k k' : Kernel) : Prop :=
  ∀ p, (k'.proc p).ts = if p ∈ R then systick else (k.proc p).ts

def gain (systick : ℤ) (S R : Finset Addr) (k : Kernel) : ℤ :=
  ∑ p ∈ S, if p ∈ R then systick - (k.proc p).ts else 0

section Choosing

variable {k k' k'' : Kernel} {i fuel : ℕ} {o r n : Option Addr} {systick : ℤ} {R R' S : Finset Addr}

theorem SameSlices.refills (h : SameSlices k k') : Refills systick ∅ k k' := by
  intro p
  rw [if_neg (Finset.notMem_empty p)]
  exact h p

theorem Refills.trans (h : Refills systick R k k') (h' : Refills systick R' k' k'') :
    Refills systick (R ∪ R') k k'' := by
  intro p
  rw [h' p, h p]
  by_cases hR : p ∈ R <;> by_cases hR' : p ∈ R' <;> simp [hR, hR']

theorem Refills.total (h : Refills systick R k k') : total S k' = total S k + gain systick S R k := by
  unfold Sys.total gain
  rw [← Finset.sum_add_distrib]
  apply Finset.sum_congr rfl
  intro p _
  rw [h p]
  split_ifs
  · omega
  · omega

theorem Refills.inRange (h : Refills systick R k k') (hk : InRange k) (hs : 0 ≤ systick)
    (hs' : systick < 2 ^ 31) : InRange k' := by
  intro p
  rw [h p]
  split_ifs
  · exact ⟨hs, hs'⟩
  · exact hk p

theorem nextProcScan_slices (h : nextProcScan i fuel o k = some (k', r)) : SameSlices k k' := by
  induction fuel generalizing o k with
  | zero => cases h
  | succ fuel ih =>
    cases o with
    | none =>
      cases h
      exact .refl
    | some p =>
      unfold nextProcScan at h
      simp only at h
      have hout : SameSlices k (removeFromList (current k i) p k) := SameSlices.refl.removeFromList
      split_ifs at h
      · cases h
        exact .refl
      · have hback : SameSlices k
            (addToListTail (other k i) p (removeFromList (current k i) p k)) := hout.addToListTail
        intro q
        rw [ih h q]
        exact hback q
      · intro q
        rw [ih h q]
        exact hout q

def refilled (systick : ℤ) (ps : List Addr) (k : Kernel) : Kernel :=
  { k with proc := fun p => if p ∈ ps then { k.proc p with ts := systick } else k.proc p }

def QueueSwitch (systick : ℤ) (i : ℕ) (ps : List Addr) (k k' : Kernel) : Prop :=
  ∃ fuel k₁, nextProcScan i fuel (k.queue (current k i)).head k = some (k₁, none) ∧
    LinkedList.Chain (fun p => (k₁.proc p).snext) (k₁.queue (other k i)).head ps ∧
    k' = refilled systick ps { k₁ with q := Function.update k.q i ((k.q i + 1) % 2) }

/-- Queue switches one after the other, with their levels and whom they refill. -/
inductive QueueSwitches (systick : ℤ) : List (ℕ × List Addr) → Kernel → Kernel → Prop
  | nil {k : Kernel} : QueueSwitches systick [] k k
  | cons {k k₁ k' : Kernel} {i : ℕ} {ps : List Addr} {ss : List (ℕ × List Addr)} (head : QueueSwitch systick i ps k k₁)
      (tail : QueueSwitches systick ss k₁ k') : QueueSwitches systick ((i, ps) :: ss) k k'

def members (ss : List (ℕ × List Addr)) : Finset Addr := (ss.flatMap Prod.snd).toFinset

def lined (n : Option Addr) (k : Kernel) : Kernel :=
  match n with
  | none => k
  | some n =>
    if (k.proc n).state = .ready ∧ ¬(k.proc n).ts > minTimeSlice ∧ (k.proc n).slist = none
    then addToListTail (other k (k.proc n).priority) n k else k

def Switched (systick : ℤ) (n : Option Addr) (passed : ℕ) (k : Kernel) (ss : List (ℕ × List Addr)) (k' : Kernel) :
    Prop :=
  ∃ k₁, QueueSwitches systick ss (lined n (chargeUp n passed k)) k₁ ∧ SameSlices k₁ k' ∧ k'.q = k₁.q

theorem refill_refilled (h : refill systick fuel o k = some k') :
    ∃ ps, LinkedList.Chain (fun p => (k.proc p).snext) o ps ∧ k' = refilled systick ps k := by
  induction fuel generalizing o k with
  | zero => cases h
  | succ fuel ih =>
    cases o with
    | none =>
      cases h
      refine ⟨[], rfl, ?_⟩
      unfold refilled
      simp only [List.not_mem_nil, if_false]
    | some p =>
      unfold refill at h
      obtain ⟨ps, hps, rfl⟩ := ih h
      refine ⟨p :: ps, ⟨rfl, hps.congr fun q _ => ?_⟩, ?_⟩
      · exact (@setProc_keeps k p { k.proc p with ts := systick } _ Proc.snext rfl q).symm
      · have hproc : (refilled systick ps (k.setProc p { k.proc p with ts := systick })).proc =
            (refilled systick (p :: ps) k).proc := by
          funext q
          unfold refilled
          dsimp only
          rw [setProc_proc]
          by_cases hq : q = p
          · subst hq
            rw [if_pos rfl, if_pos List.mem_cons_self]
            split_ifs <;> rfl
          · rw [if_neg hq]
            simp only [List.mem_cons, hq, false_or]
        exact congrArg (fun f => { k with proc := f }) hproc

theorem refilled_refills {ps : List Addr} : Refills systick ps.toFinset k (refilled systick ps k) := by
  intro p
  unfold refilled
  dsimp only
  by_cases hp : p ∈ ps
  · rw [if_pos hp, if_pos (List.mem_toFinset.mpr hp)]
  · rw [if_neg hp, if_neg fun h => hp (List.mem_toFinset.mp h)]

theorem nextProcScan_q (h : nextProcScan i fuel o k = some (k', r)) : k'.q = k.q := by
  induction fuel generalizing o k with
  | zero => cases h
  | succ fuel ih =>
    cases o with
    | none =>
      cases h
      rfl
    | some p =>
      unfold nextProcScan at h
      simp only at h
      split_ifs at h
      · cases h
        rfl
      · rw [ih h, addToListTail_q, removeFromList_q]
      · rw [ih h, removeFromList_q]

theorem QueueSwitch.refills {ps : List Addr} (h : QueueSwitch systick i ps k k') : Refills systick ps.toFinset k k' := by
  obtain ⟨fuel, k₁, hscan, -, rfl⟩ := h
  have hscanned := nextProcScan_slices hscan
  have hsame : SameSlices k { k₁ with q := Function.update k.q i ((k.q i + 1) % 2) } := hscanned
  have hrefills := (@SameSlices.refills k _ systick hsame).trans (@refilled_refills _ systick ps)
  rwa [Finset.empty_union] at hrefills

theorem QueueSwitches.refills {ss : List (ℕ × List Addr)} (h : QueueSwitches systick ss k k') :
    Refills systick (members ss) k k' := by
  induction h with
  | nil => exact SameSlices.refl.refills
  | @cons k k₁ k' i ps ss head _ ih =>
    have hunion : members ((i, ps) :: ss) = ps.toFinset ∪ members ss := List.toFinset_append
    rw [hunion]
    exact head.refills.trans ih

theorem nextProcFrom_switches (h : nextProcFrom systick fuel i k = some (k', r)) :
    ∃ ss k₁, QueueSwitches systick ss k k₁ ∧ SameSlices k₁ k' ∧ k'.q = k₁.q := by
  induction fuel generalizing i k with
  | zero => cases h
  | succ fuel ih =>
    cases i with
    | zero =>
      cases h
      exact ⟨[], _, .nil, .refl, rfl⟩
    | succ i =>
      unfold nextProcFrom at h
      split at h
      · cases h
      · rename_i hscan
        cases h
        exact ⟨[], _, .nil, nextProcScan_slices hscan, nextProcScan_q hscan⟩
      · rename_i k₁ hscan
        have hq := nextProcScan_q hscan
        dsimp only at h
        split at h
        · cases h
        · rename_i k₂ hrefill
          obtain ⟨ps, hps, rfl⟩ := refill_refilled hrefill
          have hcurrent : current { k₁ with q := Function.update k₁.q i ((k₁.q i + 1) % 2) } i = other k i := by
            unfold current other
            dsimp only
            rw [Function.update_self, hq]
          rw [hcurrent] at hps
          have hswitch : QueueSwitch systick i ps k
              (refilled systick ps { k₁ with q := Function.update k₁.q i ((k₁.q i + 1) % 2) }) :=
            ⟨fuel, k₁, hscan, hps, by rw [hq]⟩
          split_ifs at h
          · obtain ⟨ss, k₃, hss, hrest⟩ := ih h
            exact ⟨_, k₃, .cons hswitch hss, hrest⟩
          · obtain ⟨ss, k₃, hss, hrest⟩ := ih h
            exact ⟨_, k₃, .cons hswitch hss, hrest⟩

theorem lined_slices : SameSlices k (lined n k) := by
  unfold lined
  split
  · exact .refl
  · split_ifs
    · exact SameSlices.refl.addToListTail
    · exact .refl

theorem choose_cases (h : choose systick fuel n k = some (k', r)) :
    k' = lined n k ∨ nextProc systick fuel (lined n k) = some (k', r) := by
  unfold choose at h
  unfold lined
  cases n with
  | none => exact .inr h
  | some n =>
    dsimp only at h ⊢
    split_ifs at h with hready hts hlist
    · cases h
      rw [if_neg fun hl => hl.2.1 hts]
      exact .inl rfl
    · rw [if_pos ⟨hready, hts, hlist⟩]
      exact .inr h
    · rw [if_neg fun hl => hlist hl.2.2]
      exact .inr h
    · rw [if_neg fun hl => hready hl.1]
      exact .inr h

theorem schedule_switched {passed : ℕ} (h : schedule systick fuel n passed k = some k') :
    ∃ ss, Switched systick n passed k ss k' := by
  unfold schedule at h
  split at h
  · rename_i k₁ p hchoose
    cases h
    obtain rfl | hnext := choose_cases hchoose
    · exact ⟨[], _, .nil, .refl, rfl⟩
    · obtain ⟨ss, k₂, hss, hsame, hq⟩ := nextProcFrom_switches hnext
      exact ⟨ss, k₂, hss, hsame, hq⟩
  · cases h

theorem Switched.refills {passed : ℕ} {ss : List (ℕ × List Addr)} (h : Switched systick n passed k ss k') :
    Refills systick (members ss) (chargeUp n passed k) k' := by
  obtain ⟨k₁, hss, hsame, -⟩ := h
  have hlined := (@SameSlices.refills _ _ systick (@lined_slices (chargeUp n passed k) n)).trans hss.refills
  have hrefills := hlined.trans (@SameSlices.refills _ _ systick hsame)
  rwa [Finset.empty_union, Finset.union_empty] at hrefills

end Choosing

def left (u : Addr) (passed : ℕ) (k : Kernel) : ℤ := ((charge u passed k).proc u).ts

def spent (passed : ℕ) (k : Kernel) : ℤ :=
  match k.up with
  | none => 0
  | some u => (k.proc u).ts - left u passed k

/-- A call of `schedule` conserves time: `n` is given what the running process had left only when that
one is blocked or has nothing left, and all sums fit an integer. -/
structure Conserves (n : Option Addr) (passed : ℕ) (k : Kernel) : Prop where
  ticks : ∀ u, k.up = some u → passed ≤ 2 ^ 31 + (k.proc u).ts
  given : ∀ u p, k.up = some u → n = some p → (k.proc u).state = .ready → left u passed k = 0
  fits : ∀ u p, k.up = some u → n = some p →
    ((charge u passed k).proc p).ts + left u passed k < 2 ^ 31

section Giving

variable {k k' : Kernel} {u p : Addr} {n : Option Addr} {passed fuel : ℕ} {systick : ℤ} {S : Finset Addr}

theorem int32_eq {x : ℤ} (h : -2 ^ 31 ≤ x) (h' : x < 2 ^ 31) : int32 x = x := by
  unfold int32
  rw [Int.bmod_eq_of_le] <;> omega

theorem left_eq (hk : InRange k) (ht : passed ≤ 2 ^ 31 + (k.proc u).ts) :
    left u passed k = if (k.proc u).ts < passed then 0 else (k.proc u).ts - passed := by
  obtain ⟨h0, h1⟩ := hk u
  unfold left charge
  rw [setProc_proc_same]
  dsimp only
  rw [int32_eq (by omega) (by omega)]
  split_ifs <;> omega

theorem charge_ts : ((charge u passed k).proc p).ts = if p = u then left u passed k else (k.proc p).ts := by
  unfold left charge
  rw [setProc_proc_same, setProc_proc]
  split_ifs <;> rfl

theorem charge_state : ((charge u passed k).proc p).state = (k.proc p).state := by
  unfold charge
  dsimp only
  rw [setProc_proc]
  by_cases h : p = u
  · rw [if_pos h, h]
  · rw [if_neg h]

theorem donate_state {k : Kernel} : ((donate n u k).proc p).state = (k.proc p).state := by
  unfold donate
  split
  · rw [setProc_proc]
    split_ifs with h
    · rw [h]
    · rfl
  · rfl

theorem chargeUp_ts (hup : k.up = some u) : ((chargeUp n passed k).proc p).ts =
    if p = u ∧ (k.proc u).state ≠ .ready then 0
    else if n = some p then int32 (((charge u passed k).proc p).ts + left u passed k)
    else ((charge u passed k).proc p).ts := by
  have hdonate : ((donate n u (charge u passed k)).proc p).ts =
      if n = some p then int32 (((charge u passed k).proc p).ts + left u passed k)
      else ((charge u passed k).proc p).ts := by
    unfold donate left
    cases n with
    | none => rfl
    | some q =>
      dsimp only
      rw [setProc_proc]
      by_cases hq : p = q
      · subst hq
        rw [if_pos rfl, if_pos rfl]
      · rw [if_neg hq, if_neg fun h => hq (Option.some.inj h).symm]
  have hstate : ((donate n u (charge u passed k)).proc u).state = (k.proc u).state :=
    donate_state.trans charge_state
  unfold chargeUp
  rw [hup]
  dsimp only
  unfold requeue
  rw [hstate]
  by_cases hs : (k.proc u).state = .ready
  · have hnot : ¬ (p = u ∧ (k.proc u).state ≠ .ready) := fun h => h.2 hs
    rw [if_neg (not_not.mpr hs), if_neg hnot, ← hdonate]
    by_cases hl : ((donate n u (charge u passed k)).proc u).slist = none
    · rw [if_pos hl]
      exact SameSlices.refl.addToListTail p
    · rw [if_neg hl]
  · rw [if_pos hs, setProc_proc]
    by_cases hp : p = u
    · rw [if_pos hp, if_pos ⟨hp, hs⟩]
    · rw [if_neg hp, if_neg fun h => hp h.1]
      exact hdonate

theorem left_range (hk : InRange k) (ht : passed ≤ 2 ^ 31 + (k.proc u).ts) :
    0 ≤ left u passed k ∧ left u passed k ≤ (k.proc u).ts := by
  obtain ⟨h0, -⟩ := hk u
  rw [left_eq hk ht]
  split_ifs <;> omega

theorem charge_range (hk : InRange k) (ht : passed ≤ 2 ^ 31 + (k.proc u).ts) :
    InRange (charge u passed k) := by
  intro p
  rw [charge_ts]
  obtain ⟨h0, h1⟩ := left_range hk ht
  split_ifs
  · exact ⟨h0, lt_of_le_of_lt h1 (hk u).2⟩
  · exact hk p

theorem chargeUp_range (hk : InRange k) (hc : Conserves n passed k) : InRange (chargeUp n passed k) := by
  intro p
  cases hup : k.up with
  | none =>
    unfold chargeUp
    rw [hup]
    exact hk p
  | some u =>
    have hcharged := charge_range hk (hc.ticks u hup) p
    have hleft := left_range hk (hc.ticks u hup)
    rw [chargeUp_ts hup]
    split_ifs with h0 hn
    · omega
    · have hfits := hc.fits u p hup hn
      rw [int32_eq (by omega) hfits]
      omega
    · exact hcharged

theorem chargeUp_ts_le {u : Addr} (hk : InRange k) (hc : Conserves n passed k) (hup : k.up = some u) :
    ((chargeUp n passed k).proc p).ts ≤ (k.proc p).ts +
      (if p = u then (if (k.proc u).state = .ready then left u passed k else 0) - (k.proc u).ts else 0) +
      (if n = some p then left u passed k else 0) := by
  have hleft := left_range hk (hc.ticks u hup)
  have hcharged := charge_range hk (hc.ticks u hup) p
  rw [chargeUp_ts hup]
  by_cases hp : p = u
  · subst hp
    by_cases hs : (k.proc p).state = .ready
    · rw [if_neg fun h => h.2 hs, if_pos rfl, if_pos hs]
      split_ifs with hn
      · have hfits := hc.fits p p hup hn
        rw [int32_eq (by omega) hfits, charge_ts, if_pos rfl]
        omega
      · rw [charge_ts, if_pos rfl]
        omega
    · rw [if_pos ⟨rfl, hs⟩, if_pos rfl, if_neg hs]
      split_ifs <;> omega
  · rw [if_neg fun h => hp h.1, if_neg hp]
    split_ifs with hn
    · have hfits := hc.fits u p hup hn
      rw [int32_eq (by omega) hfits, charge_ts, if_neg hp]
      omega
    · rw [charge_ts, if_neg hp]
      omega

theorem chargeUp_total (hk : InRange k) (hc : Conserves n passed k) (hu : ∀ u, k.up = some u → u ∈ S)
    (hn : ∀ p, n = some p → p ∈ S) : total S (chargeUp n passed k) + spent passed k ≤ total S k := by
  cases hup : k.up with
  | none =>
    have hsame : chargeUp n passed k = k := by
      unfold chargeUp
      rw [hup]
    have hspent : spent passed k = 0 := by
      unfold spent
      rw [hup]
    rw [hsame, hspent, add_zero]
  | some u =>
    have hleft := left_range hk (hc.ticks u hup)
    have hspent : spent passed k = (k.proc u).ts - left u passed k := by
      unfold spent
      rw [hup]
    have hsum : total S (chargeUp n passed k) ≤ total S k +
        ((if (k.proc u).state = .ready then left u passed k else 0) - (k.proc u).ts) +
        ∑ p ∈ S, if n = some p then left u passed k else 0 := by
      have hle := Finset.sum_le_sum fun p (_ : p ∈ S) => @chargeUp_ts_le k p n passed u hk hc hup
      rw [Finset.sum_add_distrib, Finset.sum_add_distrib, Finset.sum_ite_eq', if_pos (hu u hup)] at hle
      exact hle
    rw [hspent]
    cases n with
    | none =>
      have hzero : (∑ p ∈ S, if (none : Option Addr) = some p then left u passed k else 0) = 0 :=
        Finset.sum_eq_zero fun p _ => if_neg (Option.some_ne_none p).symm
      rw [hzero] at hsum
      split_ifs at hsum <;> omega
    | some q =>
      have hgiven : (∑ p ∈ S, if some q = some p then left u passed k else 0) = left u passed k := by
        simp only [Option.some.injEq]
        rw [Finset.sum_ite_eq, if_pos (hn q rfl)]
      rw [hgiven] at hsum
      have hready := hc.given u q hup rfl
      split_ifs at hsum with hs
      · have h0 := hready hs
        omega
      · omega

end Giving

section Runs

variable {k k₀ k' : Kernel} {S : Finset Addr} {systick a b : ℤ}

/-- Any order of messages, signals and calls of the scheduler among the processes in `S`, each call of
`schedule` with any number of ticks: `a` ticks were paid for by slices, and `b` came from refills at queue
switches. -/
inductive SliceRun (systick : ℤ) (S : Finset Addr) (k₀ : Kernel) : Kernel → ℤ → ℤ → Prop
  | start : SliceRun systick S k₀ k₀ 0 0
  | ready {k : Kernel} {a b : ℤ} (sofar : SliceRun systick S k₀ k a b) (p : Addr) :
      SliceRun systick S k₀ (procReady p k) a b
  | ret {k k' : Kernel} {a b r : ℤ} {u : Addr} {op : Op} {fuel : ℕ} {ev : List Event}
      (sofar : SliceRun systick S k₀ k a b) (runs : run fuel u op k = .ret r ev k') :
      SliceRun systick S k₀ k' a b
  | call {k k' : Kernel} {a b : ℤ} {u : Addr} {op : Op} {fuel : ℕ} {n : Option Addr}
      (sofar : SliceRun systick S k₀ k a b) (runs : run fuel u op k = .sched n k') :
      SliceRun systick S k₀ k' a b
  | schedule {k k' : Kernel} {a b : ℤ} {n : Option Addr} {passed fuel : ℕ} {ss : List (ℕ × List Addr)}
      (sofar : SliceRun systick S k₀ k a b) (running : ∀ u, k.up = some u → u ∈ S)
      (dest : ∀ p, n = some p → p ∈ S) (conserves : Conserves n passed k)
      (returns : schedule systick fuel n passed k = some k') (switched : Switched systick n passed k ss k') :
      SliceRun systick S k₀ k' (a + spent passed k) (b + gain systick S (members ss) (chargeUp n passed k))

theorem SameSlices.inRange (h : SameSlices k k') (hk : InRange k) : InRange k' := by
  intro p
  rw [h p]
  exact hk p

theorem SameSlices.total (h : SameSlices k k') : total S k' = total S k :=
  Finset.sum_congr rfl fun p _ => h p

theorem SliceRun.conserved (hs : 0 ≤ systick) (hs' : systick < 2 ^ 31) (hk₀ : InRange k₀)
    (h : SliceRun systick S k₀ k a b) : InRange k ∧ total S k + a ≤ total S k₀ + b := by
  induction h with
  | start => exact ⟨hk₀, le_refl _⟩
  | @ready k a b _ p ih =>
    have hsame : SameSlices k (procReady p k) := SameSlices.refl.procReady
    exact ⟨hsame.inRange ih.1, by rw [hsame.total]; exact ih.2⟩
  | @ret k k' a b r u op fuel ev _ runs ih =>
    have hsame := @run_slices k u fuel op
    rw [runs] at hsame
    exact ⟨SameSlices.inRange hsame ih.1, by rw [SameSlices.total hsame]; exact ih.2⟩
  | @call k k' a b u op fuel n _ runs ih =>
    have hsame := @run_slices k u fuel op
    rw [runs] at hsame
    exact ⟨SameSlices.inRange hsame ih.1, by rw [SameSlices.total hsame]; exact ih.2⟩
  | schedule _ running dest conserves _ switched ih =>
    have hR := switched.refills
    have hcharged := chargeUp_total ih.1 conserves running dest
    have hsofar := ih.2
    refine ⟨hR.inRange (chargeUp_range ih.1 conserves) hs hs', ?_⟩
    rw [hR.total]
    omega

theorem total_nonneg (hk : InRange k) : 0 ≤ total S k :=
  Finset.sum_nonneg fun p _ => (hk p).1

/-- In every run whose calls of `schedule` all conserve time, slices stay integers that are not
negative, the processes together run no longer than their slices and what was refilled, and the next
call that conserves time adds nothing to the slices but by the refills of its queue switches. -/
theorem slices_conserved (hs : 0 ≤ systick) (hs' : systick < 2 ^ 31) (hk₀ : InRange k₀)
    (h : SliceRun systick S k₀ k a b) :
    InRange k ∧ total S k + a ≤ total S k₀ + b ∧ a ≤ total S k₀ + b ∧
    ∀ n passed fuel k', (∀ u, k.up = some u → u ∈ S) → (∀ p, n = some p → p ∈ S) →
      Conserves n passed k → schedule systick fuel n passed k = some k' →
      ∃ ss, Switched systick n passed k ss k' ∧ Refills systick (members ss) (chargeUp n passed k) k' ∧
        total S k' + spent passed k ≤ total S k + gain systick S (members ss) (chargeUp n passed k) := by
  obtain ⟨hk, hle⟩ := h.conserved hs hs' hk₀
  have hpos : 0 ≤ total S k := total_nonneg hk
  refine ⟨hk, hle, by omega, ?_⟩
  intro n passed fuel k' hup hn hc hsched
  obtain ⟨ss, hss⟩ := schedule_switched hsched
  refine ⟨ss, hss, hss.refills, ?_⟩
  have hcharged := chargeUp_total hk hc hup hn
  rw [hss.refills.total]
  omega

def play (u : Addr) (op : Op) (s : Kernel × List Event) : Option (Kernel × List Event) :=
  match run 4 u op s.1 with
  | .ret r ev k => some (k, s.2 ++ (asked u op s.1 (r = ERR) ++ ev ++ mesgReturned u op s.1))
  | .sched n k => (schedule 500 40 n 0 k).map fun k' => (k', s.2 ++ asked u op s.1 false)
  | _ => none

def played (u : Addr) (op : Op) (s : Kernel × List Event) : Kernel × List Event := (play u op s).getD s

theorem eq_some_getD {α : Type} {x : Option α} {d : α} (h : x.isSome = true) : x = some (x.getD d) := by
  cases x with
  | none => cases h
  | some y => rfl

theorem played_reach {receiver : Addr → Addr} {mem : Bytes} {s : Kernel × List Event} {u : Addr} {op : Op}
    (hs : IpcReach (Schedules 500) 500 receiver mem s) (running : s.1.up = some u)
    (own : ∀ e o, op = .recv e o → receiver e = u) (h : (play u op s).isSome = true) :
    IpcReach (Schedules 500) 500 receiver mem (played u op s) := by
  have heq : play u op s = some (played u op s) := eq_some_getD h
  generalize played u op s = s' at heq
  unfold play at heq
  split at heq
  · rename_i r ev k hr
    cases heq
    exact hs.tail (.ret running own hr)
  · rename_i n k hr
    obtain ⟨k', hsched, rfl⟩ := Option.map_eq_some_iff.mp heq
    exact hs.tail (.sched running own hr ⟨40, 0, hsched⟩)
  · cases heq

def twoMade : Kernel :=
  procReady 8192 (procReady 4096 (procInit 500 8192 (procInit 500 4096 (.boot fun _ => 0))))

theorem twoMade_reach : IpcReach (Schedules 500) 500 (fun _ => 4096) (fun _ => 0) (twoMade, []) := by
  have h₁ : IpcReach (Schedules 500) 500 (fun _ => 4096) (fun _ => 0)
      (procInit 500 4096 (.boot fun _ => 0), []) :=
    .single (.make fun i hi => by cases hi)
  have h₂ := h₁.tail (.make (p := 8192) fun i hi => by
    by_cases h1 : i = 1 <;> simp [procInit, Kernel.boot, h1] at hi)
  exact (h₂.tail (.start (p := 4096) ⟨1, rfl⟩ rfl)).tail (.start (p := 8192) ⟨2, rfl⟩ rfl)

def firstRuns : Kernel × List Event := ((schedule 500 40 none 0 twoMade).getD twoMade, [])

def messageTaken : Kernel × List Event :=
  played 4096 .yield (played 8192 (.mesg 64 (fun _ => 7) none) (played 4096 (.recv 64 none) firstRuns))

theorem messageTaken_reach : IpcReach (Schedules 500) 500 (fun _ => 4096) (fun _ => 0) messageTaken := by
  have hfirst : schedule 500 40 none 0 twoMade = some firstRuns.1 :=
    @eq_some_getD _ _ twoMade (by decide +kernel)
  have h₁ : IpcReach (Schedules 500) 500 (fun _ => 4096) (fun _ => 0) firstRuns :=
    twoMade_reach.tail (.first rfl ⟨40, 0, hfirst⟩)
  have h₂ := @played_reach _ _ _ 4096 (.recv 64 none) h₁ (by decide +kernel) (fun _ _ _ => rfl) (by decide +kernel)
  have h₃ := @played_reach _ _ _ 8192 (.mesg 64 (fun _ => 7) none) h₂ (by decide +kernel)
    (fun _ _ hf => by cases hf) (by decide +kernel)
  exact played_reach h₃ (by decide +kernel) (fun _ _ hf => by cases hf) (by decide +kernel)

def Outcome.multiplies : Outcome → Bool
  | .sched n k =>
    match schedule 500 40 n 0 k with
    | some k' => decide ((k.proc 4096).ts + (k.proc 8192).ts < (k'.proc 4096).ts + (k'.proc 8192).ts) &&
        decide (∀ i < priorityMax, k'.q i = k.q i)
    | none => false
  | _ => false

theorem slices_multiplied : ∃ s n fuel k k',
    IpcReach (Schedules 500) 500 (fun _ => 4096) (fun _ => 0) s ∧ s.1.up = some 4096 ∧
    run 4 4096 (.reply 64 2 (fun _ => 8) none) s.1 = .sched n k ∧
    schedule 500 fuel n 0 k = some k' ∧ (∀ i < priorityMax, k'.q i = k.q i) ∧
    total {4096, 8192} k < total {4096, 8192} k' := by
  have hmult : (run 4 4096 (.reply 64 2 (fun _ => 8) none) messageTaken.1).multiplies = true := by
    decide +kernel
  generalize hrun : run 4 4096 (.reply 64 2 (fun _ => 8) none) messageTaken.1 = x at hmult
  unfold Outcome.multiplies at hmult
  split at hmult
  · rename_i n k
    split at hmult
    · rename_i k' hsched
      rw [Bool.and_eq_true, decide_eq_true_iff, decide_eq_true_iff] at hmult
      have htotal : ∀ k : Kernel, total {4096, 8192} k = (k.proc 4096).ts + (k.proc 8192).ts := fun k =>
        Finset.sum_pair (by decide)
      refine ⟨messageTaken, n, 40, k, k', messageTaken_reach, by decide +kernel, hrun, hsched, hmult.2, ?_⟩
      rw [htotal, htotal]
      exact hmult.1
    · cases hmult
  · cases hmult

theorem SliceRun.next {n : Option Addr} {passed fuel : ℕ} (h : SliceRun systick S k₀ k a b)
    (running : ∀ u, k.up = some u → u ∈ S) (dest : ∀ p, n = some p → p ∈ S) (conserves : Conserves n passed k)
    (returns : Sys.schedule systick fuel n passed k = some k') :
    ∃ b', SliceRun systick S k₀ k' (a + spent passed k) b' := by
  obtain ⟨ss, hss⟩ := schedule_switched returns
  exact ⟨_, h.schedule running dest conserves returns hss⟩

theorem twoMade_inRange : InRange twoMade := by
  have hsame : SameSlices (procInit 500 8192 (procInit 500 4096 (.boot fun _ => 0))) twoMade :=
    SameSlices.refl.procReady.procReady
  apply hsame.inRange
  intro p
  unfold procInit
  rw [setProc_proc]
  split_ifs
  · exact ⟨by decide, by decide⟩
  · dsimp only
    rw [setProc_proc]
    split_ifs
    · exact ⟨by decide, by decide⟩
    · exact ⟨le_refl (0 : ℤ), (by decide : (0 : ℤ) < 2 ^ 31)⟩

theorem conserves_up {u : Addr} {n : Option Addr} {passed : ℕ} (hup : k.up = some u)
    (hticks : passed ≤ 2 ^ 31 + (k.proc u).ts) (hblocked : n = none ∨ (k.proc u).state ≠ .ready)
    (hfits : ∀ p, n = some p → ((charge u passed k).proc p).ts + left u passed k < 2 ^ 31) : Conserves n passed k := by
  refine ⟨fun v hv => ?_, fun v p hv hp hready => ?_, fun v p hv hp => ?_⟩
  · obtain rfl := Option.some.inj (hup.symm.trans hv)
    exact hticks
  · obtain rfl := Option.some.inj (hup.symm.trans hv)
    obtain rfl | hnot := hblocked
    · cases hp
    · exact absurd hready hnot
  · obtain rfl := Option.some.inj (hup.symm.trans hv)
    exact hfits p hp

theorem up_mem {u : Addr} (hup : k.up = some u) (hu : u ∈ S) : ∀ v, k.up = some v → v ∈ S := by
  intro v hv
  obtain rfl := Option.some.inj (hup.symm.trans hv)
  exact hu

def Outcome.leaves (k : Kernel) : Outcome → Kernel
  | .sched _ k' => k'
  | _ => k

def scheduled (n : Option Addr) (passed : ℕ) (k : Kernel) : Kernel := (schedule 500 40 n passed k).getD k

def receiverSleeps : Kernel := (run 4 4096 (.recv 64 none) firstRuns.1).leaves firstRuns.1

def messageSent : Kernel :=
  (run 4 8192 (.mesg 64 (fun _ => 7) none) (scheduled none 100 receiverSleeps)).leaves receiverSleeps

theorem slices_conserved_message : ∃ ss, Switched 500 (some 4096) 50 messageSent ss (scheduled (some 4096) 50 messageSent) ∧
    Refills 500 (members ss) (chargeUp (some 4096) 50 messageSent) (scheduled (some 4096) 50 messageSent) ∧
    total {4096, 8192} (scheduled (some 4096) 50 messageSent) + spent 50 messageSent ≤
      total {4096, 8192} messageSent + gain 500 {4096, 8192} (members ss) (chargeUp (some 4096) 50 messageSent) := by
  have hfirst : schedule 500 40 none 0 twoMade = some firstRuns.1 :=
    @eq_some_getD _ _ twoMade (by decide +kernel)
  have hsleeps : schedule 500 40 none 100 receiverSleeps = some (scheduled none 100 receiverSleeps) :=
    eq_some_getD (by decide +kernel)
  have hsent : schedule 500 40 (some 4096) 50 messageSent = some (scheduled (some 4096) 50 messageSent) :=
    eq_some_getD (by decide +kernel)
  have hrecv : ∃ n, run 4 4096 (.recv 64 none) firstRuns.1 = .sched n receiverSleeps := ⟨_, rfl⟩
  have hmesg : ∃ n, run 4 8192 (.mesg 64 (fun _ => 7) none) (scheduled none 100 receiverSleeps) =
      .sched n messageSent := ⟨_, rfl⟩
  have hup₁ : receiverSleeps.up = some 4096 := by decide +kernel
  have hup₂ : messageSent.up = some 8192 := by decide +kernel
  have hrun : SliceRun 500 {4096, 8192} twoMade twoMade 0 0 := .start
  obtain ⟨b₁, hrun₁⟩ := hrun.next (n := none) nofun nofun ⟨nofun, nofun, nofun⟩ hfirst
  obtain ⟨_, hrecv⟩ := hrecv
  obtain ⟨b₂, hrun₂⟩ := (hrun₁.call hrecv).next (n := none) (up_mem hup₁ (by decide)) nofun
    (conserves_up hup₁ (by decide +kernel) (.inl rfl) nofun) hsleeps
  obtain ⟨_, hmesg⟩ := hmesg
  refine (slices_conserved (by decide) (by decide) twoMade_inRange (hrun₂.call hmesg)).2.2.2 _ 50 40 _
    (up_mem hup₂ (by decide)) (by rintro _ ⟨⟩; decide) (conserves_up hup₂ (by decide +kernel) (.inr (by decide +kernel)) ?_) hsent
  rintro _ ⟨⟩
  decide +kernel

end Runs

end Agatha.Sys
