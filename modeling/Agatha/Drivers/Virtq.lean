import Mathlib.Algebra.Group.Nat.Defs
import Mathlib.Data.List.TakeDrop
import Mathlib.Logic.Function.Basic

/-!
The queues of `drivers/virtio/virtq.c` that a device hands its completions back on. The counters are
those of the code, 32 bits wide in the driver and 16 bits wide in the memory shared with the device.
-/

namespace Agatha.Drivers

structure VirtqUsedItem where
  index : ℕ
  len : ℕ
  deriving DecidableEq

structure VirtqUsed where
  index : ℕ
  rings : ℕ → VirtqUsedItem

structure Virtq where
  size : ℕ
  lastSeenUsed : ℕ
  used : VirtqUsed
  interruptAck : ℕ

def virtqInit (num : ℕ) : Virtq where
  size := num
  lastSeenUsed := 0
  used := { index := 0, rings := fun _ => { index := 0, len := 0 } }
  interruptAck := 0

def virtqPop (q : Virtq) : Option VirtqUsedItem × Virtq :=
  if q.lastSeenUsed = q.used.index then (none, q)
  else
    (some (q.used.rings (q.lastSeenUsed % q.size)),
      { q with lastSeenUsed := (q.lastSeenUsed + 1) % 2 ^ 32, interruptAck := 1 })

def Virtq.post (q : Virtq) (e : VirtqUsedItem) : Virtq :=
  { q with used :=
      { index := (q.used.index + 1) % 2 ^ 16
        rings := Function.update q.used.rings (q.used.index % q.size) e } }

/-- Any order of completions and calls of `virtq_pop` on a queue of `size` places: what was posted,
what was popped, and how many were posted and popped at each call. -/
inductive UsedRun (size : ℕ) :
    Virtq → List VirtqUsedItem → List VirtqUsedItem → List (ℕ × ℕ) → Prop
  | init : UsedRun size (virtqInit size) [] [] []
  | post {q : Virtq} {posted popped : List VirtqUsedItem} {calls : List (ℕ × ℕ)} (e : VirtqUsedItem)
      (run : UsedRun size q posted popped calls) (h : posted.length < popped.length + size) :
      UsedRun size (q.post e) (posted ++ [e]) popped calls
  | pop {q q' : Virtq} {posted popped : List VirtqUsedItem} {calls : List (ℕ × ℕ)} {o : Option VirtqUsedItem}
      (run : UsedRun size q posted popped calls) (h : virtqPop q = (o, q')) :
      UsedRun size q' posted (popped ++ o.toList) (calls ++ [(posted.length, popped.length)])

def place (size k : ℕ) : ℕ := k % 2 ^ 16 % size

/-- When a call of `virtq_pop` does what it is for, by how many were posted and popped before: the
counters agree on an empty ring, and both on the place of the oldest completion, which no later one
took. -/
structure PopFits (size posted popped : ℕ) : Prop where
  empty : popped = posted → posted % 2 ^ 32 < 2 ^ 16
  place : popped < posted → popped % 2 ^ 32 % size = place size popped
  alone : ∀ j, popped < j → j < posted → Drivers.place size j ≠ Drivers.place size popped

theorem popFits_of_dvd {size posted popped : ℕ} (hsize : size ∣ 2 ^ 16)
    (hout : posted ≤ popped + size) (h : popped = posted → posted % 2 ^ 32 < 2 ^ 16) :
    PopFits size posted popped := by
  have hplace : ∀ k, place size k = k % size := fun k => Nat.mod_mod_of_dvd k hsize
  refine ⟨h, ?_, ?_⟩
  · intro _
    rw [hplace]
    exact Nat.mod_mod_of_dvd popped (Nat.dvd_trans hsize (Nat.pow_dvd_pow 2 (by omega)))
  · intro j hj hlt heq
    rw [hplace, hplace] at heq
    have hdvd : size ∣ j - popped := Nat.dvd_of_mod_eq_zero (Nat.sub_mod_eq_zero_of_mod_eq heq)
    have hle := Nat.le_of_dvd (by omega) hdvd
    omega

structure Tracked (size : ℕ) (q : Virtq) (posted popped : List VirtqUsedItem) : Prop where
  sizeEq : q.size = size
  index : q.used.index = posted.length % 2 ^ 16
  seen : q.lastSeenUsed = popped.length % 2 ^ 32
  le : popped.length ≤ posted.length
  out : posted.length ≤ popped.length + size
  front : popped = posted.take popped.length
  held : ∀ k, popped.length ≤ k → ∀ hk : k < posted.length,
    (∀ j, k < j → j < posted.length → place size j ≠ place size k) →
    q.used.rings (place size k) = posted[k]

section Steps

variable {size : ℕ} {q q' : Virtq} {posted popped : List VirtqUsedItem} {calls : List (ℕ × ℕ)}
  {e : VirtqUsedItem}

theorem Tracked.init : Tracked size (virtqInit size) [] [] :=
  ⟨rfl, rfl, rfl, Nat.le_refl _, Nat.zero_le _, rfl, fun _ _ hk => absurd hk (Nat.not_lt_zero _)⟩

theorem Tracked.post (h : Tracked size q posted popped) (hout : posted.length < popped.length + size) :
    Tracked size (q.post e) (posted ++ [e]) popped := by
  have hle := h.le
  have hlen : (posted ++ [e]).length = posted.length + 1 := List.length_append
  have hplace : q.used.index % q.size = place size posted.length := by
    rw [h.index, h.sizeEq]
    rfl
  refine ⟨h.sizeEq, ?_, h.seen, by omega, by omega, ?_, ?_⟩
  · show (q.used.index + 1) % 2 ^ 16 = _
    rw [h.index, Nat.mod_add_mod, hlen]
  · rw [List.take_append_of_le_length hle]
    exact h.front
  · intro k hpk hk halone
    show Function.update q.used.rings (q.used.index % q.size) e (place size k) = _
    rw [hplace]
    rcases Nat.lt_or_ge k posted.length with hold | hnew
    · -- the new completion went elsewhere
      have hne := halone posted.length hold (by omega)
      rw [Function.update_of_ne hne.symm, List.getElem_append_left hold]
      apply h.held k hpk hold
      intro j hkj hj
      exact halone j hkj (by omega)
    · have heq : k = posted.length := by omega
      subst heq
      rw [Function.update_self, List.getElem_append_right (Nat.le_refl _)]
      simp

theorem Tracked.seen_iff (h : Tracked size q posted popped) (hsize : size < 2 ^ 16) :
    q.lastSeenUsed = q.used.index ↔
      popped.length = posted.length ∧ posted.length % 2 ^ 32 < 2 ^ 16 := by
  have hle := h.le
  have hout := h.out
  rw [h.seen, h.index]
  omega

theorem Tracked.pop_none (h : Tracked size q posted popped) (hpop : virtqPop q = (none, q')) :
    Tracked size q' posted popped := by
  unfold virtqPop at hpop
  split_ifs at hpop
  · cases hpop
    exact h
  · cases hpop

theorem Tracked.pop_some (h : Tracked size q posted popped) (hsize : size < 2 ^ 16)
    (hfits : PopFits size posted.length popped.length) (hpop : virtqPop q = (some e, q')) :
    ∃ hlt : popped.length < posted.length, e = posted[popped.length] ∧
      Tracked size q' posted (popped ++ [e]) := by
  have hle := h.le
  unfold virtqPop at hpop
  split_ifs at hpop with hseen
  · cases hpop
  injection hpop with he hq
  injection he with he
  have hlt : popped.length < posted.length := by
    apply Nat.lt_of_le_of_ne hle
    intro heq
    exact hseen ((h.seen_iff hsize).mpr ⟨heq, hfits.empty heq⟩)
  have heq : e = posted[popped.length] := by
    rw [← he, h.seen, h.sizeEq, hfits.place hlt]
    exact h.held _ (Nat.le_refl _) hlt hfits.alone
  refine ⟨hlt, heq, ?_⟩
  have hlen : (popped ++ [e]).length = popped.length + 1 := List.length_append
  have hout := h.out
  rw [← hq]
  refine ⟨h.sizeEq, h.index, ?_, by omega, by omega, ?_, ?_⟩
  · show (q.lastSeenUsed + 1) % 2 ^ 32 = _
    rw [h.seen, Nat.mod_add_mod, hlen]
  · rw [hlen, List.take_add_one, ← h.front, List.getElem?_eq_getElem hlt, heq]
    rfl
  · intro k hpk hk halone
    exact h.held k (by omega) hk halone

theorem UsedRun.tracked (run : UsedRun size q posted popped calls) (hsize : size < 2 ^ 16)
    (hfits : ∀ at_ ∈ calls, PopFits size at_.1 at_.2) : Tracked size q posted popped := by
  induction run with
  | init => exact .init
  | post e _ hout ih => exact (ih hfits).post hout
  | @pop q q' posted popped calls o _ hpop ih =>
    have hbefore := ih fun x hx => hfits x (List.mem_append_left _ hx)
    have hthis := hfits (posted.length, popped.length) (by simp)
    cases o with
    | none =>
      rw [Option.toList_none, List.append_nil]
      exact hbefore.pop_none hpop
    | some e =>
      obtain ⟨-, -, hafter⟩ := hbefore.pop_some hsize hthis hpop
      exact hafter

/-- In every run whose calls all fit, what was popped is what was posted first, in order, and the next
call gives nothing exactly when all was popped, as long as the device's counter has not wrapped then;
what it gives, when it fits, is the oldest completion. -/
theorem used_ring_consumed (run : UsedRun size q posted popped calls) (hsize : size < 2 ^ 16)
    (hfits : ∀ at_ ∈ calls, PopFits size at_.1 at_.2) :
    popped = posted.take popped.length ∧
    (((virtqPop q).1 = none ↔ popped.length = posted.length) ↔
      (popped.length = posted.length → posted.length % 2 ^ 32 < 2 ^ 16)) ∧
    (PopFits size posted.length popped.length → ∀ e, (virtqPop q).1 = some e →
      posted[popped.length]? = some e) := by
  have h := run.tracked hsize hfits
  have hnone : (virtqPop q).1 = none ↔ q.lastSeenUsed = q.used.index := by
    unfold virtqPop
    split_ifs with hseen
    · exact ⟨fun _ => hseen, fun _ => rfl⟩
    · exact ⟨nofun, fun heq => absurd heq hseen⟩
  refine ⟨h.front, ?_, ?_⟩
  · rw [hnone, h.seen_iff hsize]
    tauto
  · intro hthis e he
    obtain ⟨hlt, heq, -⟩ := h.pop_some hsize hthis (Prod.ext he rfl)
    rw [List.getElem?_eq_getElem hlt, heq]

theorem used_ring_consumed_two : ∃ q,
    UsedRun 16 q [⟨1, 2⟩, ⟨3, 4⟩] [⟨1, 2⟩] [(2, 0)] ∧ (virtqPop q).1 = some ⟨3, 4⟩ := by
  have hrun : UsedRun 16 (virtqPop (((virtqInit 16).post ⟨1, 2⟩).post ⟨3, 4⟩)).2 [⟨1, 2⟩, ⟨3, 4⟩] [⟨1, 2⟩] [(2, 0)] :=
    .pop (.post ⟨3, 4⟩ (.post ⟨1, 2⟩ .init (by decide)) (by decide)) rfl
  have hfits : ∀ at_ ∈ [(2, 0)], PopFits 16 at_.1 at_.2 := by
    intro x hx
    rw [List.mem_singleton.mp hx]
    exact popFits_of_dvd (by decide) (by decide) (by decide)
  obtain ⟨-, hnone, hnext⟩ := used_ring_consumed hrun (by decide) hfits
  have hsome : (virtqPop (virtqPop (((virtqInit 16).post ⟨1, 2⟩).post ⟨3, 4⟩)).2).1 ≠ none := fun h =>
    absurd ((hnone.mpr fun h => absurd h (by decide)).mp h) (by decide)
  obtain ⟨e, he⟩ := Option.ne_none_iff_exists'.mp hsome
  refine ⟨_, hrun, he.trans ?_⟩
  exact (hnext (popFits_of_dvd (by decide) (by decide) (by decide)) e he).symm

theorem usedRun_alternating (e : VirtqUsedItem) {n : ℕ} (hn : n ≤ 2 ^ 16) : ∃ q calls,
    UsedRun 16 q (List.replicate n e) (List.replicate n e) calls ∧
      q.size = 16 ∧ q.lastSeenUsed = n ∧ q.used.index = n % 2 ^ 16 := by
  induction n with
  | zero => exact ⟨_, _, .init, rfl, rfl, rfl⟩
  | succ n ih =>
    obtain ⟨q, calls, run, hsize, hseen, hindex⟩ := ih (by omega)
    have hne : (q.post e).lastSeenUsed ≠ (q.post e).used.index := by
      show q.lastSeenUsed ≠ (q.used.index + 1) % 2 ^ 16
      omega
    have hpop : virtqPop (q.post e) = (some e, { q.post e with
        lastSeenUsed := (q.lastSeenUsed + 1) % 2 ^ 32, interruptAck := 1 }) := by
      unfold virtqPop
      rw [if_neg hne]
      congr 2
      show Function.update q.used.rings (q.used.index % q.size) e (q.lastSeenUsed % q.size) = e
      rw [hseen, hindex, Nat.mod_eq_of_lt (a := n) (b := 2 ^ 16) (by omega), Function.update_self]
    have hrun := (run.post e (by omega)).pop hpop
    rw [Option.toList_some, ← List.replicate_succ'] at hrun
    refine ⟨_, _, hrun, hsize, ?_, ?_⟩
    · show (q.lastSeenUsed + 1) % 2 ^ 32 = n + 1
      omega
    · show (q.used.index + 1) % 2 ^ 16 = (n + 1) % 2 ^ 16
      omega

theorem used_ring_overrun : ∃ q posted calls,
    UsedRun 16 q posted posted calls ∧ (virtqPop q).1 ≠ none := by
  obtain ⟨q, calls, run, -, hseen, hindex⟩ := usedRun_alternating ⟨0, 0⟩ (Nat.le_refl (2 ^ 16))
  refine ⟨q, _, calls, run, ?_⟩
  unfold virtqPop
  rw [hseen, hindex, if_neg (by decide)]
  exact Option.some_ne_none _

end Steps

end Agatha.Drivers
