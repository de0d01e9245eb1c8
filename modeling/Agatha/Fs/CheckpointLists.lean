import Agatha.Fs.Checkpoint
import Agatha.Library.LinkedList
import Mathlib.Data.List.Perm.Basic

namespace Agatha.Fs

open Library Library.Bytes Library.LinkedList

def segNext (lfs : Lfs) (s : ℕ) : Option ℕ := (lfs.segments s).next

structure Listed (lfs : Lfs) (xs ys : List ℕ) : Prop where
  list : Chain (segNext lfs) lfs.segHead xs
  tail : lfs.segTail = xs.getLast?
  free : Chain (segNext lfs) lfs.segFree ys
  cover : (xs ++ ys).Perm (List.range lfs.nSegs)
  index : ∀ s < lfs.nSegs, (lfs.segments s).index = s
  fits : 20 + 4 * lfs.nSegs ≤ lfs.checkpointBlks * lfsBlkSize
  small : lfs.nSegs ≤ lfsSegEnd

structure Rebuilt (lfs : Lfs) (xs ys : List ℕ) : Prop where
  list : Chain (segNext lfs) lfs.segHead xs
  tail : lfs.segTail = xs.getLast?
  free : ∃ zs, Chain (segNext lfs) lfs.segFree zs ∧ zs.Perm ys

section Lists

variable {lfs target lfs' : Lfs} {c c' : Bytes} {xs ys zs : List ℕ} {len fuel i s tail : ℕ} {head : Option ℕ}
  {value : Segment → ℕ}

theorem checkpointSeg_put (h : i ≠ s) (v : ℕ) : checkpointSeg (c.put32 (20 + 4 * s) v) i = checkpointSeg c i :=
  get32_put32_ne (by omega)

theorem fillSegList_spec (lfs : Lfs) (value : Segment → ℕ) (hc : Chain (segNext lfs) head zs) (hz : ∀ z ∈ zs, z < lfs.nSegs)
    (hidx : ∀ z ∈ zs, (lfs.segments z).index = z) (hlen : ∀ z ∈ zs, 24 + 4 * z ≤ len) (c : Bytes) :
    ∃ c', (∀ fuel, zs.length < fuel → fillSegList lfs len value fuel head c = some c') ∧
      (∀ i, checkpointSeg c' i = if i ∈ zs then value (lfs.segments i) % 2 ^ 32 else checkpointSeg c i) ∧
      c'.get32 12 = c.get32 12 ∧ c'.get32 16 = c.get32 16 := by
  induction zs generalizing head c with
  | nil =>
    obtain rfl : head = none := hc
    refine ⟨c, fun fuel hfuel => ?_, fun i => (if_neg List.not_mem_nil).symm, rfl, rfl⟩
    rw [← Nat.succ_pred_eq_of_pos hfuel]
    rfl
  | cons z zs ih =>
    obtain ⟨rfl, hc'⟩ := hc
    rw [List.forall_mem_cons] at hz hidx hlen
    have hnodup : (z :: zs).Nodup := Chain.nodup ⟨rfl, hc'⟩
    obtain ⟨c', hrun, hseg, h12, h16⟩ := ih hc' hz.2 hidx.2 hlen.2
      (c.put32 (20 + 4 * z) (value (lfs.segments z)))
    refine ⟨c', fun fuel hfuel => ?_, fun i => ?_, ?_, ?_⟩
    · obtain ⟨fuel, rfl⟩ : ∃ n, fuel = n + 1 := ⟨fuel - 1, by omega⟩
      have hin : ¬ (lfs.nSegs ≤ z ∨ len < 24 + 4 * z) := by
        have := hz.1
        have := hlen.1
        omega
      simp only [fillSegList, hidx.1]
      rw [if_neg hin]
      exact hrun fuel (Nat.lt_of_succ_lt_succ hfuel)
    · rw [hseg]
      by_cases hi : i = z
      · subst hi
        rw [if_neg (List.nodup_cons.mp hnodup).1, if_pos List.mem_cons_self]
        exact get32_put32_same
      · rw [checkpointSeg_put hi]
        by_cases hm : i ∈ zs
        · rw [if_pos hm, if_pos (List.mem_cons_of_mem z hm)]
        · rw [if_neg hm, if_neg (by simp [hi, hm])]
    · rw [h12, get32_put32_ne (by omega)]
    · rw [h16, get32_put32_ne (by omega)]

def listEntry (lfs : Lfs) (s : ℕ) : ℕ :=
  match segNext lfs s with
  | some n => (lfs.segments n).index
  | none => lfsSegEnd

structure Encoded (xs ys : List ℕ) (c : Bytes) : Prop where
  head : c.get32 12 = xs.head?.getD lfsSegFree
  tail : c.get32 16 = xs.getLast?.getD lfsSegFree
  listed : ∀ s ∈ xs, checkpointSeg c s ≠ lfsSegFree
  free : ∀ s ∈ ys, checkpointSeg c s = lfsSegFree

theorem Listed.lt (h : Listed lfs xs ys) (hs : s ∈ xs ∨ s ∈ ys) : s < lfs.nSegs :=
  List.mem_range.mp (h.cover.mem_iff.mp (List.mem_append.mpr hs))

theorem Listed.length (h : Listed lfs xs ys) : xs.length + ys.length = lfs.nSegs := by
  rw [← List.length_append, h.cover.length_eq, List.length_range]

theorem Listed.disjoint (h : Listed lfs xs ys) (hx : s ∈ xs) (hy : s ∈ ys) : False := by
  have hnodup := h.cover.nodup_iff.mpr List.nodup_range
  exact (List.nodup_append.mp hnodup).2.2 s hx s hy rfl

theorem Listed.listEntry_ne (h : Listed lfs xs ys) (hs : s ∈ xs) : listEntry lfs s % 2 ^ 32 ≠ lfsSegFree := by
  have hsmall := h.small
  unfold listEntry
  unfold lfsSegEnd at hsmall ⊢
  unfold lfsSegFree
  cases hn : segNext lfs s with
  | none => exact show 0xfffffffe % 2 ^ 32 ≠ 0xffffffff by decide
  | some n =>
    have hlt := h.lt (.inl (h.list.next_mem hs hn))
    simp only [h.index n hlt]
    omega

theorem Listed.front (h : Listed lfs xs ys) (c : Bytes) : ∃ c₁ : Bytes, (match lfs.segHead, lfs.segTail with
      | some h, some t => some ((c.put32 12 (lfs.segments h).index).put32 16 (lfs.segments t).index)
      | some _, none => none
      | none, _ => some ((c.put32 12 lfsSegFree).put32 16 lfsSegFree)) = some c₁ ∧
    c₁.get32 12 = xs.head?.getD lfsSegFree ∧ c₁.get32 16 = xs.getLast?.getD lfsSegFree := by
  rw [h.list.head_eq, h.tail]
  have hlt : ∀ {s}, s ∈ xs → s < 2 ^ 32 := by
    intro s hs
    have := h.lt (.inl hs)
    have := h.small
    unfold lfsSegEnd at this
    omega
  cases hxs : xs.head? with
  | none =>
    obtain rfl := List.head?_eq_none_iff.mp hxs
    refine ⟨_, rfl, ?_, ?_⟩
    · rw [get32_put32_ne (by omega), get32_put32_same]
      rfl
    · rw [get32_put32_same]
      rfl
  | some x =>
    have hx := List.mem_of_head? hxs
    obtain ⟨t, ht⟩ : ∃ t, xs.getLast? = some t := by
      cases hl : xs.getLast? with
      | none => rw [List.getLast?_eq_none_iff.mp hl] at hx; cases hx
      | some t => exact ⟨t, rfl⟩
    have htm := List.mem_of_getLast? ht
    rw [ht]
    refine ⟨_, rfl, ?_, ?_⟩
    · rw [get32_put32_ne (by omega), get32_put32_same, h.index x (h.lt (.inl hx)), Nat.mod_eq_of_lt (hlt hx)]
      rfl
    · rw [get32_put32_same, h.index t (h.lt (.inl htm)), Nat.mod_eq_of_lt (hlt htm)]
      rfl

theorem match_some {x : Option Bytes} {f g : Bytes → Option Bytes} {c₁ c₂ c₃ : Bytes} :
    x = some c₁ → f c₁ = some c₂ → g c₂ = some c₃ →
      (match x with
        | none => none
        | some c => match f c with
          | none => none
          | some c => g c) = some c₃ := by
  rintro rfl hf hg
  simp only [hf, hg]

theorem Listed.encoded (h : Listed lfs xs ys) (c : Bytes) :
    ∃ c', (∀ fuel, lfs.nSegs < fuel → lfsCheckpointFillSegs fuel lfs c = some c') ∧ Encoded xs ys c' := by
  obtain ⟨c₁, hfront, h12, h16⟩ := h.front c
  have hlen : ∀ z, z < lfs.nSegs → 24 + 4 * z ≤ lfs.checkpointBlks * lfsBlkSize := by
    intro z hz
    have := h.fits
    omega
  obtain ⟨c₂, hrun₂, hseg₂, h12₂, h16₂⟩ := fillSegList_spec lfs
    (fun seg : Segment => match seg.next with
      | some n => (lfs.segments n).index
      | none => lfsSegEnd) h.list (fun z hz => h.lt (.inl hz)) (fun z hz => h.index z (h.lt (.inl hz)))
    (fun z hz => hlen z (h.lt (.inl hz))) c₁
  obtain ⟨c₃, hrun₃, hseg₃, h12₃, h16₃⟩ := fillSegList_spec lfs (fun _ => lfsSegFree) h.free
    (fun z hz => h.lt (.inr hz)) (fun z hz => h.index z (h.lt (.inr hz))) (fun z hz => hlen z (h.lt (.inr hz))) c₂
  have hlength := h.length
  refine ⟨c₃, fun fuel hfuel => ?_, ⟨?_, ?_, fun s hs => ?_, fun s hs => ?_⟩⟩
  · exact match_some hfront (hrun₂ fuel (by omega)) (hrun₃ fuel (by omega))
  · rw [h12₃, h12₂, h12]
  · rw [h16₃, h16₂, h16]
  · rw [hseg₃, if_neg (fun hy => h.disjoint hs hy), hseg₂, if_pos hs]
    exact h.listEntry_ne hs
  · rw [hseg₃, if_pos hs]
    rfl

theorem linkSegs_stuck (hi : i ≠ tail) : linkSegs c tail fuel i lfs = none := by
  induction fuel generalizing lfs with
  | zero => rfl
  | succ fuel ih =>
    rw [linkSegs, if_neg hi]
    exact ih

theorem segNext_setSegment (x : Segment) :
    segNext (lfs.setSegment i x) = Function.update (segNext lfs) i x.next := by
  funext s
  simp only [segNext, Lfs.setSegment, Function.update_apply]
  split_ifs <;> rfl

def freeBelow (c : Bytes) (i : ℕ) : List ℕ := (List.range i).filter fun s => checkpointSeg c s = lfsSegFree

structure Collected (c : Bytes) (i : ℕ) (lfs lfs' : Lfs) (f : Option ℕ) : Prop where
  free : Chain (segNext lfs') lfs'.segFree (freeBelow c i)
  last : f = (freeBelow c i).getLast?
  head : lfs'.segHead = lfs.segHead
  tail : lfs'.segTail = lfs.segTail
  rest : ∀ s ∉ freeBelow c i, segNext lfs' s = segNext lfs s

theorem collectFree_collected (c : Bytes) (i : ℕ) (lfs : Lfs) :
    Collected c i lfs (collectFree c i lfs).1 (collectFree c i lfs).2 := by
  induction i with
  | zero => exact ⟨rfl, rfl, rfl, rfl, fun _ _ => rfl⟩
  | succ i ih =>
    rw [collectFree]
    generalize collectFree c i lfs = res at ih
    obtain ⟨lfs', f⟩ := res
    obtain ⟨free, last, head, tail, rest⟩ := ih
    simp only
    by_cases hfree : checkpointSeg c i ≠ lfsSegFree
    · have hsame : freeBelow c (i + 1) = freeBelow c i := by
        unfold freeBelow
        rw [List.range_succ, List.filter_append, List.filter_singleton, decide_eq_false hfree]
        exact List.append_nil _
      rw [if_pos hfree]
      exact ⟨hsame ▸ free, hsame ▸ last, head, tail, hsame ▸ rest⟩
    · rw [if_neg hfree]
      have hmore : freeBelow c (i + 1) = freeBelow c i ++ [i] := by
        unfold freeBelow
        rw [List.range_succ, List.filter_append, List.filter_singleton, decide_eq_true (not_not.mp hfree)]
        rfl
      have hnew : i ∉ freeBelow c i := fun hm => lt_irrefl i (List.mem_range.mp (List.mem_filter.mp hm).1)
      cases f with
      | none =>
        have hnil : freeBelow c i = [] := List.getLast?_eq_none_iff.mp last.symm
        rw [hnil, List.nil_append] at hmore
        refine ⟨?_, ?_, head, tail, fun s hs => ?_⟩
        · rw [hmore]
          refine ⟨rfl, ?_⟩
          rw [segNext_setSegment, Function.update_self]
          rfl
        · rw [hmore]
          rfl
        · rw [hmore] at hs
          rw [segNext_setSegment, Function.update_of_ne (fun he => hs (List.mem_singleton.mpr he))]
          exact rest s (by rw [hnil]; exact List.not_mem_nil)
      | some f =>
        obtain ⟨zs, hzs⟩ : ∃ zs, freeBelow c i = zs ++ [f] := by
          obtain ⟨zs, hzs⟩ := List.getLast?_eq_some_iff.mp last.symm
          exact ⟨zs, hzs⟩
        rw [hzs] at free hnew hmore
        have hsnoc := free.snoc hnew
        refine ⟨?_, ?_, head, tail, fun s hs => ?_⟩
        · rw [hmore, segNext_setSegment, segNext_setSegment]
          exact hsnoc
        · rw [hmore, List.getLast?_append, List.getLast?_singleton]
          rfl
        · rw [hmore] at hs
          have hsi : s ≠ i := fun he => hs (he ▸ List.mem_append_right _ List.mem_cons_self)
          have hsf : s ≠ f := fun he => hs (he ▸ List.mem_append_left _ (List.mem_append_right _ List.mem_cons_self))
          rw [segNext_setSegment, segNext_setSegment, Function.update_of_ne hsi, Function.update_of_ne hsf]
          exact rest s (by rw [hzs]; exact fun hm => hs (List.mem_append_left _ hm))

theorem Listed.freeBelow_perm (h : Listed lfs xs ys) (he : Encoded xs ys c) :
    (freeBelow c lfs.nSegs).Perm ys := by
  have hnodup := h.cover.nodup_iff.mpr List.nodup_range
  refine (List.perm_ext_iff_of_nodup (List.nodup_range.filter _) (List.nodup_append.mp hnodup).2.1).mpr fun s => ?_
  rw [List.mem_filter, decide_eq_true_eq, ← h.cover.mem_iff, List.mem_append]
  refine ⟨fun ⟨hs, hf⟩ => hs.resolve_left fun hx => he.listed s hx hf, fun hs => ⟨.inr hs, he.free s hs⟩⟩

theorem Listed.freeBelow_not (he : Encoded xs ys c) (hs : s ∈ xs) : s ∉ freeBelow c i := by
  intro hm
  exact he.listed s hs (of_decide_eq_true (List.mem_filter.mp hm).2)

theorem Listed.process (h : Listed lfs xs ys) (he : Encoded xs ys c) (hn : target.nSegs = lfs.nSegs)
    (hx : xs.length ≤ 1) :
    ∃ lfs', (∀ fuel, 0 < fuel → lfsProcessCheckpoint fuel target c = some lfs') ∧ Rebuilt lfs' xs ys := by
  have hperm := h.freeBelow_perm he
  cases xs with
  | nil =>
    have hc := collectFree_collected c lfs.nSegs { target with segHead := none, segTail := none }
    refine ⟨_, fun fuel _ => ?_, hc.head, hc.tail, _, hc.free, hperm⟩
    have hhead : c.get32 12 = lfsSegFree := he.head
    rw [← hn]
    simp only [lfsProcessCheckpoint, hhead, if_true, Option.map_some]
  | cons x xs =>
    obtain rfl : xs = [] := List.length_eq_zero_iff.mp (by rw [List.length_cons] at hx; omega)
    have hlt := h.lt (.inl List.mem_cons_self)
    have hhead : c.get32 12 = x := he.head
    have htail : c.get32 16 = x := he.tail
    have hfree : x ≠ lfsSegFree := by
      have := h.small
      unfold lfsSegEnd at this
      unfold lfsSegFree
      omega
    let one : Lfs := { target with segHead := some x, segTail := some x }
    have hc := collectFree_collected c lfs.nSegs (one.setSegment x { one.segments x with next := none })
    refine ⟨_, fun fuel hfuel => ?_, ?_, hc.tail, _, hc.free, hperm⟩
    · have hlink : linkSegs c x fuel x one = some one := by
        rw [← Nat.succ_pred_eq_of_pos hfuel, linkSegs, if_pos rfl]
      rw [← hn] at hlt ⊢
      simp only [lfsProcessCheckpoint, hhead, htail]
      rw [if_neg hfree, if_neg (by omega)]
      simp only [one] at hlink ⊢
      rw [hlink]
      rfl
    · refine ⟨hc.head, ?_⟩
      show segNext _ x = none
      rw [hc.rest x (Listed.freeBelow_not he List.mem_cons_self), segNext_setSegment, Function.update_self]

theorem Listed.process_stuck (h : Listed lfs xs ys) (he : Encoded xs ys c) (hx : 1 < xs.length) :
    lfsProcessCheckpoint fuel target c = none := by
  obtain ⟨x, y, zs, rfl⟩ : ∃ x y zs, xs = x :: y :: zs := by
    match xs, hx with
    | x :: y :: zs, _ => exact ⟨x, y, zs, rfl⟩
  have hlast : (x :: y :: zs).getLast? = some ((y :: zs).getLast (List.cons_ne_nil y zs)) := by
    rw [List.getLast?_cons_cons, List.getLast?_eq_getLast_of_ne_nil (List.cons_ne_nil y zs)]
  have hne : x ≠ (y :: zs).getLast (List.cons_ne_nil y zs) := by
    have hnodup := h.list.nodup
    rw [List.nodup_cons] at hnodup
    exact fun hx => hnodup.1 (hx ▸ List.getLast_mem _)
  have hhead : c.get32 12 = x := he.head
  have htail := he.tail
  rw [hlast, Option.getD_some] at htail
  have hfree : x ≠ lfsSegFree := by
    have := h.lt (.inl List.mem_cons_self)
    have := h.small
    unfold lfsSegEnd at this
    unfold lfsSegFree
    omega
  simp only [lfsProcessCheckpoint, hhead, htail]
  rw [if_neg hfree]
  split_ifs
  · rfl
  · rw [linkSegs_stuck hne]
    rfl

theorem checkpoint_lists_rebuilt (h : Listed lfs xs ys) (target : Lfs) (hn : target.nSegs = lfs.nSegs)
    (c : Bytes) :
    ∃ c', (∀ fuel, lfs.nSegs < fuel → lfsCheckpointFillSegs fuel lfs c = some c') ∧
      ((∃ fuel lfs', lfsProcessCheckpoint fuel target c' = some lfs' ∧ Rebuilt lfs' xs ys) ↔ xs.length ≤ 1) := by
  obtain ⟨c', hfill, he⟩ := h.encoded c
  refine ⟨c', hfill, fun hrun => ?_, fun hx => ?_⟩
  · by_contra hx
    obtain ⟨fuel, lfs', hrun, -⟩ := hrun
    rw [h.process_stuck he (not_le.mp hx)] at hrun
    cases hrun
  · obtain ⟨lfs', hrun, hrebuilt⟩ := h.process he hn hx
    exact ⟨1, lfs', hrun 1 Nat.one_pos, hrebuilt⟩

end Lists

def freshSegs (n : ℕ) (next : ℕ → Option ℕ) (head tail : Option ℕ) : Lfs where
  partOff := 0
  partLen := 0
  secSize := 512
  secPerBlk := 8
  checkpointBlk _ := 1
  checkpointBlks := 1
  segStart := 3
  checkpointTimestamp := 0
  segsumTimestamp := 0
  mounted := true
  nSegs := n
  segments i := { index := i, next := next i }
  segHead := head
  segTail := tail
  segFree := none
  nInodes := 0
  inodes i :=
    { index := i, created := false, free := true, name := fun _ => 0, blkCnt := 0, lenReal := 0, blks := .nil, wnext := none }
  pending := none

theorem oneSeg_listed : Listed (freshSegs 1 (fun _ => none) (some 0) (some 0)) [0] [] :=
  ⟨⟨rfl, rfl⟩, rfl, rfl, by decide, fun _ _ => rfl, by decide, by decide⟩

theorem checkpoint_lists_rebuilt_one : ∃ c fuel lfs',
    lfsProcessCheckpoint fuel (freshSegs 1 (fun _ => none) none none) c = some lfs' ∧ Rebuilt lfs' [0] [] := by
  obtain ⟨c, -, hiff⟩ := checkpoint_lists_rebuilt oneSeg_listed
    (freshSegs 1 (fun _ => none) none none) rfl zeros
  exact ⟨c, hiff.mpr le_rfl⟩

def twoSegs : Lfs := freshSegs 2 (fun i => if i = 0 then some 1 else none) (some 0) (some 1)

theorem twoSegs_listed : Listed twoSegs [0, 1] [] :=
  ⟨⟨rfl, rfl, rfl⟩, rfl, rfl, by decide, fun _ _ => rfl, by decide, by decide⟩

theorem checkpoint_lists_stuck : Listed twoSegs [0, 1] [] ∧ ∃ c, lfsCheckpointFillSegs 3 twoSegs zeros = some c ∧
    ∀ fuel, lfsProcessCheckpoint fuel twoSegs c = none := by
  obtain ⟨c, hfill, he⟩ := twoSegs_listed.encoded zeros
  exact ⟨twoSegs_listed, c, hfill 3 (by decide), fun fuel => twoSegs_listed.process_stuck he (by decide)⟩

end Agatha.Fs
