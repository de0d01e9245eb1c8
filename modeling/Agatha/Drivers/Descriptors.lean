import Agatha.Drivers.Virtq
import Agatha.Library.LinkedList
import Mathlib.Data.List.Flatten
import Mathlib.Data.List.Range
import Mathlib.Data.List.Perm.Basic

/-!
The descriptors of `drivers/virtio/virtq.c`, and how `send_pkt` and `process_tx` of `virtio/net` take
them and give them back. What is written to the packet buffers themselves is left out.
-/

namespace Agatha.Drivers

open Library.LinkedList

structure VirtqDesc where
  addr : ℕ
  len : ℕ
  flags : ℕ
  next : ℕ

structure VirtqAvail where
  idx : ℕ
  rings : ℕ → ℕ

structure TxQueue where
  size : ℕ
  desc : ℕ → VirtqDesc
  descFreeIndex : ℕ
  avail : VirtqAvail

def noDesc : ℕ := 0xffff

def TxQueue.setDesc (q : TxQueue) (i : ℕ) (d : VirtqDesc) : TxQueue :=
  { q with desc := Function.update q.desc i d }

def virtqInitDescs (num : ℕ) : TxQueue where
  size := num
  desc i := { addr := 0, len := 0, flags := 0, next := if i = num - 1 then noDesc else (i + 1) % 2 ^ 16 }
  descFreeIndex := 0
  avail := { idx := 0, rings := fun _ => 0 }

def virtqGetDesc (q : TxQueue) : Option ℕ × TxQueue :=
  if q.descFreeIndex = noDesc then (none, q)
  else (some q.descFreeIndex, { q with descFreeIndex := (q.desc q.descFreeIndex).next })

def virtqFreeDesc (q : TxQueue) (index : ℕ) : TxQueue :=
  { q.setDesc index { q.desc index with next := q.descFreeIndex % 2 ^ 16 } with descFreeIndex := index }

def virtqPush (q : TxQueue) (index : ℕ) : TxQueue :=
  { q with avail :=
      { idx := (q.avail.idx + 1) % 2 ^ 16
        rings := Function.update q.avail.rings (q.avail.idx % q.size) (index % 2 ^ 16) } }

def mtu : ℕ := 1200
def netHdrLen : ℕ := 10
def descFNext : ℕ := 1

structure TxBuffers where
  hPa : ℕ
  bPa : ℕ

def sendPkt (b : TxBuffers) (len : ℕ) (q : TxQueue) : Option ℕ × TxQueue :=
  match virtqGetDesc q with
  | (none, q) => (none, q)
  | (some h, q) =>
    match virtqGetDesc q with
    | (none, q) => (none, q)
    | (some i, q) =>
      let q := q.setDesc h { addr := b.hPa + h * netHdrLen, len := netHdrLen, flags := descFNext, next := i % 2 ^ 16 }
      let q := q.setDesc i { q.desc i with addr := b.bPa + i * mtu, len := len, flags := 0 }
      (some h, virtqPush q h)

def processTx (e : VirtqUsedItem) (q : TxQueue) : TxQueue :=
  virtqFreeDesc (virtqFreeDesc q (q.desc e.index).next) e.index

/-- Any order of packets that are sent and of heads that the device returns, with the heads that it
still has. -/
inductive TxRun (b : TxBuffers) (size : ℕ) : TxQueue → List ℕ → Prop
  | init : TxRun b size (virtqInitDescs size) []
  | send {q q' : TxQueue} {heads : List ℕ} {o : Option ℕ} (len : ℕ) (run : TxRun b size q heads)
      (sent : sendPkt b len q = (o, q')) : TxRun b size q' (heads ++ o.toList)
  | done {q : TxQueue} {heads : List ℕ} (e : VirtqUsedItem) (run : TxRun b size q heads)
      (pushed : e.index ∈ heads) : TxRun b size (processTx e q) (heads.erase e.index)

def TxQueue.inFlight (q : TxQueue) (heads : List ℕ) : List ℕ := heads.flatMap fun h => [h, (q.desc h).next]

def linkOf (i : ℕ) : Option ℕ := if i = noDesc then none else some i

def TxQueue.FreeChain (q : TxQueue) (free : List ℕ) : Prop :=
  Chain (fun i => linkOf (q.desc i).next) (linkOf q.descFreeIndex) free

def TxQueue.Conserved (q : TxQueue) (size : ℕ) (heads : List ℕ) : Prop :=
  ∃ free, q.FreeChain free ∧ (free ++ q.inFlight heads).Perm (List.range size)

section Descriptors

variable {b : TxBuffers} {size len i h : ℕ} {q q' : TxQueue} {heads free : List ℕ} {e : VirtqUsedItem} {o : Option ℕ}

theorem linkOf_eq_some : linkOf i = some h ↔ i = h ∧ h ≠ noDesc := by
  unfold linkOf
  split_ifs with hi
  · simp only [false_iff, not_and, not_not]
    rintro rfl
    exact hi
  · constructor
    · intro he
      cases he
      exact ⟨rfl, hi⟩
    · rintro ⟨rfl, -⟩
      rfl

theorem inFlight_congr (hn : ∀ p ∈ heads, (q'.desc p).next = (q.desc p).next) : q'.inFlight heads = q.inFlight heads := by
  unfold TxQueue.inFlight
  apply List.flatMap_congr
  intro p hp
  rw [hn p hp]

theorem length_inFlight : (q.inFlight heads).length = 2 * heads.length := by
  unfold TxQueue.inFlight
  induction heads with
  | nil => rfl
  | cons p heads ih =>
    rw [List.flatMap_cons, List.length_append, ih, List.length_cons]
    simp only [List.length_cons, List.length_nil]
    omega

theorem mem_inFlight (hp : h ∈ heads) : h ∈ q.inFlight heads ∧ (q.desc h).next ∈ q.inFlight heads := by
  unfold TxQueue.inFlight
  exact ⟨List.mem_flatMap.mpr ⟨h, hp, by simp⟩, List.mem_flatMap.mpr ⟨h, hp, by simp⟩⟩

theorem init_chain {n : ℕ} (hsize : size ≤ noDesc) (hn : i + n = size) (hpos : 0 < n) :
    Chain (fun i => linkOf ((virtqInitDescs size).desc i).next) (some i) (List.range' i n) := by
  induction n generalizing i with
  | zero => omega
  | succ n ih =>
    rw [List.range'_succ]
    refine ⟨rfl, ?_⟩
    show Chain _ (linkOf (if i = size - 1 then noDesc else (i + 1) % 2 ^ 16)) _
    unfold noDesc at hsize
    rcases Nat.eq_zero_or_pos n with rfl | hn0
    · rw [if_pos (by omega)]
      rfl
    · have hlink : linkOf (if i = size - 1 then noDesc else (i + 1) % 2 ^ 16) = some (i + 1) := by
        rw [if_neg (by omega), Nat.mod_eq_of_lt (by omega)]
        exact linkOf_eq_some.mpr ⟨rfl, by unfold noDesc; omega⟩
      rw [hlink]
      exact ih (by omega) hn0

theorem conserved_init (hpos : 0 < size) (hsize : size ≤ noDesc) : (virtqInitDescs size).Conserved size [] := by
  refine ⟨List.range' 0 size, init_chain hsize (Nat.zero_add size) hpos, ?_⟩
  rw [List.range_eq_range']
  show (List.range' 0 size ++ []).Perm _
  rw [List.append_nil]

theorem getDesc_cons (hc : q.FreeChain (i :: free)) :
    virtqGetDesc q = (some i, { q with descFreeIndex := (q.desc i).next }) := by
  obtain ⟨rfl, hne⟩ := linkOf_eq_some.mp hc.1
  unfold virtqGetDesc
  rw [if_neg hne]

theorem getDesc_nil (hc : q.FreeChain []) : virtqGetDesc q = (none, q) := by
  have hnone : linkOf q.descFreeIndex = none := hc
  unfold linkOf at hnone
  split_ifs at hnone with h
  unfold virtqGetDesc
  rw [if_pos h]

theorem sendPkt_cons (hc : q.FreeChain (h :: i :: free)) (hhi : h ≠ i) : ∃ q', sendPkt b len q = (some h, q') ∧
    q'.descFreeIndex = (q.desc i).next ∧ (q'.desc h).next = i % 2 ^ 16 ∧
    ∀ p, p ≠ h → (q'.desc p).next = (q.desc p).next := by
  have hi : virtqGetDesc { q with descFreeIndex := (q.desc h).next } =
      (some i, { q with descFreeIndex := (q.desc i).next }) := getDesc_cons hc.2
  unfold sendPkt
  rw [getDesc_cons hc]
  dsimp only
  rw [hi]
  refine ⟨_, rfl, rfl, ?_, fun p hp => ?_⟩
  · unfold virtqPush TxQueue.setDesc
    dsimp only
    rw [Function.update_of_ne hhi, Function.update_self]
  · unfold virtqPush TxQueue.setDesc
    dsimp only
    by_cases hpi : p = i
    · subst hpi
      rw [Function.update_self, Function.update_of_ne hp]
    · rw [Function.update_of_ne hpi, Function.update_of_ne hp]

theorem processTx_next {p : ℕ} : ((processTx e q).desc p).next =
    if p = e.index then (q.desc e.index).next % 2 ^ 16
    else if p = (q.desc e.index).next then q.descFreeIndex % 2 ^ 16 else (q.desc p).next := by
  unfold processTx virtqFreeDesc TxQueue.setDesc
  dsimp only
  split_ifs with h1 h2
  · rw [h1, Function.update_self]
  · rw [Function.update_of_ne h1, h2, Function.update_self]
  · rw [Function.update_of_ne h1, Function.update_of_ne h2]

theorem free_even (heven : 2 ∣ size) (hp : (free ++ q.inFlight heads).Perm (List.range size)) :
    free = [] ∨ ∃ h i rest, free = h :: i :: rest := by
  have hlen := hp.length_eq
  rw [List.length_append, length_inFlight, List.length_range] at hlen
  match free with
  | [] => exact .inl rfl
  | [h] =>
    rw [List.length_singleton] at hlen
    omega
  | h :: i :: rest => exact .inr ⟨h, i, rest, rfl⟩

theorem TxQueue.Conserved.send (h : q.Conserved size heads) (heven : 2 ∣ size) (hsize : size ≤ noDesc)
    (hs : sendPkt b len q = (o, q')) : q'.Conserved size (heads ++ o.toList) ∧
      (o = none → (q.inFlight heads).Perm (List.range size)) ∧
      ∀ h, o = some h → h ∉ q.inFlight heads ∧ (q'.desc h).next ∉ q.inFlight heads ∧
        q'.inFlight heads = q.inFlight heads := by
  obtain ⟨free, hc, hp⟩ := h
  rcases free_even heven hp with rfl | ⟨h, i, rest, rfl⟩
  · have hnone : sendPkt b len q = (none, q) := by
      unfold sendPkt
      rw [getDesc_nil hc]
    cases hnone.symm.trans hs
    rw [Option.toList_none, List.append_nil]
    exact ⟨⟨[], hc, hp⟩, fun _ => hp, nofun⟩
  · have hnd := hp.nodup_iff.mpr List.nodup_range
    simp only [List.cons_append, List.nodup_cons, List.mem_cons, List.mem_append, not_or] at hnd
    obtain ⟨⟨hhi, hhr, hhf⟩, ⟨hir, hif⟩, -⟩ := hnd
    have hlt : ∀ x ∈ h :: i :: rest, x < 2 ^ 16 := by
      intro x hx
      have hmem := List.mem_range.mp (hp.subset (List.mem_append_left _ hx))
      unfold noDesc at hsize
      omega
    obtain ⟨q₁, hq, hfree, hlink, hother⟩ := @sendPkt_cons b len i h q rest hc hhi
    cases hq.symm.trans hs
    rw [Nat.mod_eq_of_lt (hlt i (by simp))] at hlink
    have hsame : q'.inFlight heads = q.inFlight heads := by
      apply inFlight_congr
      intro p hmem
      apply hother
      rintro rfl
      exact hhf (mem_inFlight hmem).1
    refine ⟨⟨rest, ?_, ?_⟩, nofun, ?_⟩
    · unfold TxQueue.FreeChain
      rw [hfree]
      apply Chain.congr hc.2.2
      intro x hx
      rw [hother x (by rintro rfl; exact hhr hx)]
    · have hnew : q'.inFlight (heads ++ [h]) = q.inFlight heads ++ [h, i] := by
        unfold TxQueue.inFlight at hsame ⊢
        rw [List.flatMap_append, hsame, List.flatMap_singleton, hlink]
      rw [Option.toList_some, hnew, ← List.append_assoc]
      refine List.Perm.trans ?_ hp
      exact List.perm_append_comm
    · rintro _ ⟨⟩
      rw [hlink]
      exact ⟨hhf, hif, hsame⟩

theorem TxQueue.Conserved.done (h : q.Conserved size heads) (hsize : size ≤ noDesc) (he : e.index ∈ heads) :
    (processTx e q).Conserved size (heads.erase e.index) := by
  obtain ⟨free, hc, hp⟩ := h
  have hperm : (q.inFlight heads).Perm
      (e.index :: (q.desc e.index).next :: q.inFlight (heads.erase e.index)) := by
    unfold TxQueue.inFlight
    exact (List.perm_cons_erase he).flatMap_right _
  have hp' := (hperm.append_left free).symm.trans hp
  have hnd := (List.perm_append_comm.trans hp').nodup_iff.mpr List.nodup_range
  simp only [List.cons_append, List.nodup_cons, List.mem_cons, List.mem_append, not_or] at hnd
  obtain ⟨⟨hhi, hhr, hhf⟩, ⟨hir, hif⟩, -⟩ := hnd
  have hne : (q.desc e.index).next ≠ e.index := fun h => hhi h.symm
  have hlt : ∀ x ∈ free ++ e.index :: (q.desc e.index).next :: q.inFlight (heads.erase e.index), x < noDesc := by
    intro x hx
    have hmem := List.mem_range.mp (hp'.subset hx)
    omega
  have hi := hlt (q.desc e.index).next (by simp)
  have hh := hlt e.index (by simp)
  unfold noDesc at hi hh
  have hlast : linkOf (q.descFreeIndex % 2 ^ 16) = linkOf q.descFreeIndex := by
    have hle : q.descFreeIndex ≤ noDesc := by
      match free, hc with
      | [], hnone =>
        unfold TxQueue.FreeChain Chain linkOf at hnone
        split_ifs at hnone with heq
        exact heq.le
      | x :: xs, hsome =>
        obtain ⟨heq, -⟩ := linkOf_eq_some.mp hsome.1
        rw [heq]
        exact (hlt x (by simp)).le
    unfold noDesc at hle
    rw [Nat.mod_eq_of_lt (by omega)]
  have hsame : ∀ p, p ≠ e.index → p ≠ (q.desc e.index).next → ((processTx e q).desc p).next = (q.desc p).next := by
    intro p h1 h2
    rw [processTx_next, if_neg h1, if_neg h2]
  refine ⟨e.index :: (q.desc e.index).next :: free, ⟨?_, ?_, ?_⟩, ?_⟩
  · exact linkOf_eq_some.mpr ⟨rfl, by unfold noDesc; omega⟩
  · dsimp only
    rw [processTx_next, if_pos rfl, Nat.mod_eq_of_lt (by omega)]
    exact linkOf_eq_some.mpr ⟨rfl, by unfold noDesc; omega⟩
  · dsimp only
    rw [processTx_next, if_neg hne, if_pos rfl, hlast]
    apply Chain.congr hc
    intro x hx
    rw [hsame x]
    · rintro rfl
      exact hhf hx
    · rintro rfl
      exact hif hx
  · have hrest : (processTx e q).inFlight (heads.erase e.index) = q.inFlight (heads.erase e.index) := by
      apply inFlight_congr
      intro p hp
      apply hsame
      · rintro rfl
        exact hhr (mem_inFlight hp).1
      · rintro rfl
        exact hir (mem_inFlight hp).1
    rw [hrest]
    refine List.Perm.trans ?_ hp'
    exact (List.perm_append_comm_assoc free [e.index, (q.desc e.index).next] _).symm

theorem TxRun.conserved (run : TxRun b size q heads) (heven : 2 ∣ size) (hpos : 0 < size) (hsize : size ≤ noDesc) :
    q.Conserved size heads := by
  induction run with
  | init => exact conserved_init hpos hsize
  | send len _ sent ih => exact (ih.send heven hsize sent).1
  | done e _ pushed ih => exact ih.done hsize pushed

/-- In every run each descriptor is in the free chain or in one packet, once; a packet takes two that
no other has, whose descriptors stay as they are, and is refused only when all are in flight. -/
theorem tx_descriptors_conserved (run : TxRun b size q heads) (heven : 2 ∣ size) (hpos : 0 < size)
    (hsize : size ≤ noDesc) : q.Conserved size heads ∧ ∀ len o q', sendPkt b len q = (o, q') →
      (o = none → (q.inFlight heads).Perm (List.range size)) ∧
      ∀ h, o = some h → h ∉ q.inFlight heads ∧ (q'.desc h).next ∉ q.inFlight heads ∧
        q'.inFlight heads = q.inFlight heads := by
  have h := run.conserved heven hpos hsize
  exact ⟨h, fun len o q' hs => (h.send heven hsize hs).2⟩

theorem tx_descriptors_conserved_two : ∃ q, TxRun ⟨0, 0⟩ 2 q [0] ∧ q.Conserved 2 [0] ∧
    (sendPkt ⟨0, 0⟩ 64 q).1 = none := by
  have hrun : TxRun ⟨0, 0⟩ 2 (sendPkt ⟨0, 0⟩ 64 (virtqInitDescs 2)).2 [0] := .send 64 .init rfl
  exact ⟨_, hrun, (tx_descriptors_conserved hrun (by decide) (by decide) (by decide)).1, rfl⟩

theorem tx_descriptors_lost : ¬ ∀ (b : TxBuffers) (size : ℕ) (q : TxQueue) (heads : List ℕ),
    2 ∣ size → 0 < size → TxRun b size q heads → q.Conserved size heads := by
  intro h
  obtain ⟨free, hc, hp⟩ := h ⟨0, 0⟩ (2 ^ 16) _ [] (by decide) (by decide) .init
  have hmem : noDesc ∈ free ++ (virtqInitDescs (2 ^ 16)).inFlight [] :=
    hp.mem_iff.mpr (List.mem_range.mpr (by decide))
  rw [TxQueue.inFlight, List.flatMap_nil, List.append_nil] at hmem
  have hall : ∀ (next : ℕ → ℕ) (start : ℕ) (xs : List ℕ),
      Chain (fun i => linkOf (next i)) (linkOf start) xs → noDesc ∉ xs := by
    intro next start xs hxs hx
    induction xs generalizing start with
    | nil => cases hx
    | cons x xs ih =>
      rcases List.mem_cons.mp hx with rfl | hx
      · exact (linkOf_eq_some.mp hxs.1).2 rfl
      · exact ih _ hxs.2 hx
  exact hall _ _ free hc hmem

end Descriptors

end Agatha.Drivers
