import Agatha.Fs.Flush

namespace Agatha.Fs

open Library Library.Bytes Library.LinkedList

structure SegLists (lfs : Lfs) (xs ys : List ℕ) : Prop where
  list : Chain (segNext lfs) lfs.segHead xs
  tail : lfs.segTail = xs.getLast?
  free : Chain (segNext lfs) lfs.segFree ys
  nodup : (xs ++ ys).Nodup
  lt : ∀ s ∈ xs ++ ys, s < lfs.nSegs
  order : xs.map (fun s => (lfs.segments s).index) = List.range xs.length
  index : ∀ s ∈ ys, (lfs.segments s).index < lfs.nSegs
  fits : 20 + 4 * lfs.nSegs ≤ lfs.checkpointBlks * lfsBlkSize
  small : lfs.nSegs ≤ lfsSegEnd

structure Taken (lfs : Lfs) (xs : List ℕ) (s : ℕ) (ys : List ℕ) : Prop where
  list : Chain (segNext lfs) lfs.segHead xs
  tail : lfs.segTail = xs.getLast?
  free : Chain (segNext lfs) lfs.segFree ys
  nodup : (xs ++ s :: ys).Nodup
  lt : ∀ t ∈ xs ++ s :: ys, t < lfs.nSegs
  order : xs.map (fun s => (lfs.segments s).index) = List.range xs.length
  number : (lfs.segments s).index = xs.length
  index : ∀ t ∈ ys, (lfs.segments t).index < lfs.nSegs
  fits : 20 + 4 * lfs.nSegs ≤ lfs.checkpointBlks * lfsBlkSize
  small : lfs.nSegs ≤ lfsSegEnd

def segsFor (lfs : Lfs) (l : List ℕ) : ℕ := (itemsOf lfs l + (lfsSegBlks - 2)) / (lfsSegBlks - 1)

structure FlushFits (env : Env) (lfs : Lfs) (l : List ℕ) (free : ℕ) (w : World) : Prop where
  blks : ∀ i ∈ l, (lfs.inodes i).Storable
  segs : segsFor lfs l ≤ free
  calls : ∀ n < 3 * segsFor lfs l, env.ok (w.calls + n) = true

/-- The first `k` free segments are in the log now, which the device has taken, and the others are free. What is not in
these `k` is as it was: the blocks, and the pending inodes but those of which every block is written. -/
structure NothingLost (env : Env) (lfs : Lfs) (l xs ys : List ℕ) (w : World) (lfs' : Lfs) (k : ℕ) : Prop where
  le : k ≤ ys.length
  segs : SegLists lfs' (xs ++ ys.take k) (ys.drop k)
  taken : ∀ j < k, env.ok (w.calls + 3 * j + 2) = true
  inodes : ∀ i, ∃ blks, lfs'.inodes i = { lfs.inodes i with blks := blks } ∧
    (lfs.inodes i).blks.Moved (fun seg => xs.length ≤ seg ∧ seg < xs.length + k) blks
  pending : ∃ done rest, l = done ++ rest ∧ Chain lfs'.wnext lfs'.pending rest ∧
    ∀ i ∈ done, (lfs'.inodes i).blks.todo = 0

def FlushKeeps (env : Env) (lfs : Lfs) (l xs ys : List ℕ) (w : World) (res : Option (ℤ × Lfs × World)) : Prop :=
  ∃ r lfs' w' k, res = some (r, lfs', w') ∧ (r = OK ∧ lfs'.pending = none ∨ r = ERR) ∧
    NothingLost env lfs l xs ys w lfs' k

variable {env : Env} {lfs lfs' : Lfs} {w w' : World} {l rest xs ys : List ℕ} {m s fuel cnt cnt' seg : ℕ} {r : ℤ}
  {frame frame' : Bytes}

section Segments

theorem SegLists.length_le (h : SegLists lfs xs ys) : xs.length + ys.length ≤ lfs.nSegs := by
  have hsub : xs ++ ys ⊆ List.range lfs.nSegs := fun s hs => List.mem_range.mpr (h.lt s hs)
  have hlen := (h.nodup.subperm hsub).length_le
  rwa [List.length_append, List.length_range] at hlen

theorem SegLists.nextIndex (h : SegLists lfs xs ys) : nextIndex lfs = xs.length := by
  have hle := h.length_le
  have hsmall := h.small
  have horder := h.order
  unfold lfsSegEnd at hsmall
  unfold Agatha.Fs.nextIndex
  rw [h.tail]
  rcases List.eq_nil_or_concat' xs with rfl | ⟨front, t, rfl⟩
  · rfl
  · rw [List.length_append, List.length_singleton] at hle horder ⊢
    rw [List.map_append, List.range_succ] at horder
    have hlast := (List.append_inj' horder rfl).2
    have hindex : (lfs.segments t).index = front.length := List.head_eq_of_cons_eq hlast
    rw [List.getLast?_concat]
    dsimp only
    rw [hindex, Nat.mod_eq_of_lt (by omega)]

theorem segNext_setIndex (i : ℕ) {o : Option ℕ} :
    segNext ({ lfs with segFree := o }.setSegment s { lfs.segments s with index := i }) = segNext lfs :=
  (segNext_setSegment _).trans (Function.update_eq_self ..)

theorem setIndex_index (i t : ℕ) {o : Option ℕ} :
    (({ lfs with segFree := o }.setSegment s { lfs.segments s with index := i }).segments t).index =
      if t = s then i else (lfs.segments t).index := by
  unfold Lfs.setSegment
  dsimp only
  rw [Function.update_apply]
  split_ifs <;> rfl

theorem SegLists.take (h : SegLists lfs xs (s :: ys)) :
    Taken ({ lfs with segFree := (lfs.segments s).next }.setSegment s { lfs.segments s with index := xs.length }) xs s
      ys := by
  have hnot : ∀ t ∈ xs, t ≠ s := fun t ht he => (List.nodup_append.mp h.nodup).2.2 t ht s List.mem_cons_self he
  have hnot' : ∀ t ∈ ys, t ≠ s := by
    rintro t ht rfl
    exact (List.nodup_cons.mp (List.nodup_append.mp h.nodup).2.1).1 ht
  refine ⟨?_, h.tail, ?_, h.nodup, h.lt, ?_, ?_, ?_, h.fits, h.small⟩
  · rw [segNext_setIndex]
    exact h.list
  · rw [segNext_setIndex]
    exact h.free.2
  · rw [← h.order]
    apply List.map_congr_left
    intro t ht
    rw [setIndex_index, if_neg (hnot t ht)]
  · rw [setIndex_index, if_pos rfl]
  · intro t ht
    rw [setIndex_index, if_neg (hnot' t ht)]
    exact h.index t (List.mem_cons_of_mem s ht)

theorem Taken.lost {xs' ys' : List ℕ} (h : Taken lfs xs s ys) (h' : SegLists lfs xs' ys') :
    xs'.length + ys'.length < xs.length + (ys.length + 1) := by
  rw [h'.list.unique h.list, h'.free.unique h.free]
  omega

@[simp] theorem appendSeg_inodes : (appendSeg lfs s).inodes = lfs.inodes := by
  unfold appendSeg
  cases lfs.segTail <;> rfl

@[simp] theorem appendSeg_pending : (appendSeg lfs s).pending = lfs.pending := by
  unfold appendSeg
  cases lfs.segTail <;> rfl

@[simp] theorem appendSeg_nSegs : (appendSeg lfs s).nSegs = lfs.nSegs := by
  unfold appendSeg
  cases lfs.segTail <;> rfl

@[simp] theorem appendSeg_nInodes : (appendSeg lfs s).nInodes = lfs.nInodes := by
  unfold appendSeg
  cases lfs.segTail <;> rfl

@[simp] theorem appendSeg_segFree : (appendSeg lfs s).segFree = lfs.segFree := by
  unfold appendSeg
  cases lfs.segTail <;> rfl

@[simp] theorem appendSeg_checkpointBlks : (appendSeg lfs s).checkpointBlks = lfs.checkpointBlks := by
  unfold appendSeg
  cases lfs.segTail <;> rfl

theorem appendSeg_index (i : ℕ) : ((appendSeg lfs s).segments i).index = (lfs.segments i).index := by
  have hset : ∀ (lfs : Lfs) (j : ℕ) (o : Option ℕ),
      ((lfs.setSegment j { lfs.segments j with next := o }).segments i).index = (lfs.segments i).index := by
    intro lfs j o
    unfold Lfs.setSegment
    dsimp only
    rw [Function.update_apply]
    split_ifs with hij
    · rw [hij]
    · rfl
  unfold appendSeg
  cases lfs.segTail with
  | none => exact hset _ s none
  | some t => exact (hset _ s none).trans (hset lfs t (some s))

theorem appendSeg_wnext : (appendSeg lfs s).wnext = lfs.wnext := by
  unfold Lfs.wnext
  rw [appendSeg_inodes]

theorem appendSeg_none (h : lfs.segTail = none) : (appendSeg lfs s).segHead = some s ∧
    (appendSeg lfs s).segTail = some s ∧ segNext (appendSeg lfs s) = Function.update (segNext lfs) s none := by
  unfold appendSeg
  rw [h]
  exact ⟨rfl, rfl, segNext_setSegment _⟩

theorem appendSeg_some {t : ℕ} (h : lfs.segTail = some t) : (appendSeg lfs s).segHead = lfs.segHead ∧
    (appendSeg lfs s).segTail = some s ∧
    segNext (appendSeg lfs s) = Function.update (Function.update (segNext lfs) t (some s)) s none := by
  unfold appendSeg
  rw [h]
  refine ⟨rfl, rfl, (segNext_setSegment _).trans ?_⟩
  have hinner : segNext { lfs.setSegment t { lfs.segments t with next := some s } with segTail := some s } =
      Function.update (segNext lfs) t (some s) := segNext_setSegment _
  rw [hinner]

theorem Taken.append (h : Taken lfs xs s ys) : SegLists (appendSeg lfs s) (xs ++ [s]) ys := by
  obtain ⟨hxs, hcons, hdisj⟩ := List.nodup_append.mp h.nodup
  have hsx : s ∉ xs := fun hs => hdisj s hs s List.mem_cons_self rfl
  have hsy : ∀ t ∈ ys, t ≠ s := by
    rintro t ht rfl
    exact (List.nodup_cons.mp hcons).1 ht
  have hlists : Chain (segNext (appendSeg lfs s)) (appendSeg lfs s).segHead (xs ++ [s]) ∧
      (appendSeg lfs s).segTail = some s ∧
      ∀ t ∈ ys, segNext (appendSeg lfs s) t = segNext lfs t := by
    rcases List.eq_nil_or_concat' xs with rfl | ⟨front, last, rfl⟩
    · obtain ⟨hhead, htail, hnext⟩ := @appendSeg_none lfs s h.tail
      refine ⟨?_, htail, ?_⟩
      · rw [hhead, hnext]
        exact ⟨rfl, Function.update_self ..⟩
      · intro t ht
        rw [hnext, Function.update_of_ne (hsy t ht)]
    · have htail := h.tail
      rw [List.getLast?_concat] at htail
      obtain ⟨hhead, hlast, hnext⟩ := @appendSeg_some lfs s last htail
      refine ⟨?_, hlast, ?_⟩
      · rw [hhead, hnext]
        exact h.list.snoc hsx
      · intro t ht
        have hne : t ≠ last := by
          rintro rfl
          exact hdisj t (List.mem_append_right _ (List.mem_singleton_self t)) t (List.mem_cons_of_mem s ht) rfl
        rw [hnext, Function.update_of_ne (hsy t ht), Function.update_of_ne hne]
  obtain ⟨hlist, htail, hnext⟩ := hlists
  have hsplit : xs ++ [s] ++ ys = xs ++ s :: ys := List.append_assoc ..
  refine ⟨hlist, ?_, ?_, ?_, ?_, ?_, ?_, ?_, ?_⟩
  · rw [htail, List.getLast?_concat]
  · rw [appendSeg_segFree]
    exact h.free.congr hnext
  · rw [hsplit]
    exact h.nodup
  · rw [hsplit, appendSeg_nSegs]
    exact h.lt
  · simp only [appendSeg_index]
    rw [List.map_append, h.order, List.length_append, List.length_singleton, List.range_succ, List.map_singleton,
      h.number]
  · intro t ht
    rw [appendSeg_index, appendSeg_nSegs]
    exact h.index t ht
  · rw [appendSeg_nSegs, appendSeg_checkpointBlks]
    exact h.fits
  · rw [appendSeg_nSegs]
    exact h.small

theorem freshSegments_chain {n k i : ℕ} {next : ℕ → Option ℕ} {old : ℕ → Segment}
    (hnext : ∀ s, next s = (freshSegments n old s).next) (hk : i + k = n) :
    Chain next (if i < n then some i else none) (List.range' i k) := by
  induction k generalizing i with
  | zero => exact if_neg (by omega)
  | succ k ih =>
    have hi : i < n := by omega
    have hlink : next i = if i + 1 < n then some (i + 1) else none := by
      rw [hnext, freshSegments, if_pos hi]
    rw [if_pos hi, List.range'_succ]
    refine ⟨rfl, ?_⟩
    rw [hlink]
    exact ih (by omega)

theorem mount_segLists (hfits : 20 + 4 * lfs.nSegs ≤ lfs.checkpointBlks * lfsBlkSize) (hsmall : lfs.nSegs ≤ lfsSegEnd) :
    SegLists lfs.mount [] (List.range lfs.nSegs) := by
  obtain ⟨hhead, htail, hfree, hn, hsegs, hblks⟩ := @mount_segs lfs
  refine ⟨hhead, htail, ?_, List.nodup_range, ?_, rfl, ?_, ?_, ?_⟩
  · rw [hfree, List.range_eq_range']
    apply freshSegments_chain _ (Nat.zero_add _)
    · exact lfs.segments
    · intro s
      unfold segNext
      rw [hsegs]
  · intro s hs
    rw [hn]
    exact List.mem_range.mp hs
  · intro s hs
    have hlt := List.mem_range.mp hs
    rw [hsegs, hn, freshSegments, if_pos hlt]
    exact hlt
  · rw [hn, hblks]
    exact hfits
  · rw [hn]
    exact hsmall

end Segments

section Rounds

theorem lfsFillSeg_same (h : lfsFillSeg fuel lfs seg cnt frame = some (r, lfs', cnt', frame')) :
    (∃ t p f, lfs' = { lfs with segsumTimestamp := t, pending := p, inodes := f }) ∧ (r = OK ∨ r = ERR) := by
  unfold lfsFillSeg at h
  obtain ⟨⟨r₁, lfs₁, cnt₁, s₁⟩, hfill, he⟩ := Option.map_eq_some_iff.mp h
  cases he
  obtain ⟨hsame, hr⟩ := fillInodes_same hfill
  exact ⟨⟨_, _, _, hsame⟩, hr⟩

theorem lfsFillSeg_filled (hl : Chain lfs.wnext lfs.pending l)
    (h : lfsFillSeg fuel lfs seg (lfsSegBlks - 1) frame = some (OK, lfs', cnt', frame')) :
    ∃ rest, InodesFilled seg (lfsSegBlks - 1) lfs l 0 lfs' rest cnt' := by
  unfold lfsFillSeg at h
  obtain ⟨⟨r₁, lfs₁, cnt₁, s₁⟩, hfill, he⟩ := Option.map_eq_some_iff.mp h
  cases he
  have hl' : Chain (Lfs.wnext { lfs with segsumTimestamp := (lfs.segsumTimestamp + 1) % 2 ^ 32 }) lfs.pending l := hl
  obtain ⟨rest, hrest⟩ := fillInodes_filled le_rfl (Nat.zero_le _) hl' hfill
  exact ⟨rest, hrest.list, hrest.split, hrest.inodes, hrest.items, hrest.le, hrest.stop, hrest.back⟩

theorem Taken.same (h : Taken lfs xs s ys) {t : ℕ} {p : Option ℕ} {f : ℕ → Inode} :
    Taken { lfs with segsumTimestamp := t, pending := p, inodes := f } xs s ys :=
  ⟨h.list, h.tail, h.free, h.nodup, h.lt, h.order, h.number, h.index, h.fits, h.small⟩

theorem InodesFilled.append (h : InodesFilled seg cnt lfs l 0 lfs' rest cnt') :
    InodesFilled seg cnt lfs l 0 (appendSeg lfs' s) rest cnt' := by
  have hitems : itemsOf (appendSeg lfs' s) rest = itemsOf lfs' rest := itemsOf_congr fun i _ => by rw [appendSeg_inodes]
  refine ⟨?_, ?_, ?_, ?_, h.le, h.stop, ?_⟩
  · rw [appendSeg_wnext, appendSeg_pending]
    exact h.list
  · rw [appendSeg_inodes]
    exact h.split
  · rw [appendSeg_inodes]
    exact h.inodes
  · rw [hitems]
    exact h.items
  · rw [appendSeg_inodes]
    exact h.back

structure SegFlushed (env : Env) (lfs : Lfs) (l xs ys : List ℕ) (s : ℕ) (w : World) (lfs' : Lfs) (rest : List ℕ)
    (w' : World) : Prop where
  lists : SegLists lfs' (xs ++ [s]) ys
  nSegs : lfs'.nSegs = lfs.nSegs
  nInodes : lfs'.nInodes = lfs.nInodes
  filled : ∃ cnt, InodesFilled xs.length (lfsSegBlks - 1) lfs l 0 lfs' rest cnt
  ok : ∀ n < 3, env.ok (w.calls + n) = true
  calls : w'.calls = w.calls + 3

theorem flushSeg_cases (ht : Taken lfs xs s ys) (hl : Chain lfs.wnext lfs.pending l)
    (h : flushSeg env fuel lfs s xs.length w = some (r, lfs', w')) :
    r = ERR ∧ (∀ xs' ys', SegLists lfs' xs' ys' → xs'.length + ys'.length < xs.length + (ys.length + 1)) ∨
      r = OK ∧ ∃ rest, SegFlushed env lfs l xs ys s w lfs' rest w' := by
  unfold flushSeg at h
  split_ifs at h with hmem hmap
  · cases h
    exact .inl ⟨rfl, fun _ _ => ht.lost⟩
  · cases h
    exact .inl ⟨rfl, fun _ _ => ht.lost⟩
  · split at h
    · cases h
    · rename_i r₁ lfs₁ cnt frame hfill
      obtain ⟨⟨t, p, f, he⟩, -⟩ := lfsFillSeg_same hfill
      have ht₁ : Taken lfs₁ xs s ys := he ▸ ht.same
      split_ifs at h with hr
      · cases h
        exact .inl ⟨rfl, fun _ _ => ht₁.lost⟩
      · obtain rfl := not_not.mp hr
        split at h
        · cases h
          exact .inl ⟨rfl, fun _ _ => ht₁.lost⟩
        · rename_i w₂ hwrite
          cases h
          obtain ⟨rest, hfilled⟩ := lfsFillSeg_filled hl hfill
          have hdev := congrArg Prod.fst hwrite
          have hw := congrArg (fun x => x.2.calls) hwrite
          refine .inr ⟨rfl, rest, ht₁.append, ?_, ?_, ⟨cnt, hfilled.append⟩, ?_, hw.symm⟩
          · rw [appendSeg_nSegs, he]
          · rw [appendSeg_nInodes, he]
          · intro n hn
            obtain rfl | rfl | rfl : n = 0 ∨ n = 1 ∨ n = 2 := by omega
            · exact Bool.eq_true_of_not_eq_false hmem
            · exact Bool.eq_true_of_not_eq_false hmap
            · exact hdev

theorem segsFor_nil : segsFor lfs [] = 0 := by
  have hitems : itemsOf lfs [] = 0 := rfl
  unfold segsFor
  rw [hitems]
  decide

theorem SegFlushed.segsFor (h : SegFlushed env lfs l xs ys s w lfs' rest w') (hl : l ≠ []) :
    segsFor lfs l = segsFor lfs' rest + 1 := by
  obtain ⟨cnt, hf⟩ := h.filled
  have hitems := hf.items
  have hle := hf.le
  have hpos : ∀ {lfs : Lfs} {l : List ℕ}, l ≠ [] → 0 < itemsOf lfs l := by
    intro lfs l hne
    obtain ⟨i, l, rfl⟩ := List.exists_cons_of_ne_nil hne
    rw [itemsOf_cons]
    omega
  have hl' := @hpos lfs l hl
  unfold Agatha.Fs.segsFor
  unfold lfsSegBlks at hle ⊢
  rcases eq_or_ne rest [] with rfl | hne
  · have hnil : itemsOf lfs' [] = 0 := rfl
    rw [hnil] at hitems ⊢
    omega
  · have hrest := @hpos lfs' rest hne
    have hstop := hf.stop hne
    unfold lfsSegBlks at hstop
    omega

theorem flushSeg_some (hl : Chain lfs.wnext lfs.pending l) (hin : ∀ i ∈ l, i < lfs.nInodes)
    (hst : ∀ i ∈ l, (lfs.inodes i).Storable) (hok : ∀ n < 3, env.ok (w.calls + n) = true) (hfuel : l.length < fuel) :
    ∃ lfs' w', flushSeg env fuel lfs s m w = some (OK, lfs', w') := by
  have h0 : env.ok w.calls = true := hok 0 (by decide)
  have h1 : env.ok w.next.calls = true := hok 1 (by decide)
  have h2 : env.ok w.next.next.calls = true := hok 2 (by decide)
  have hfill : ∃ lfs' cnt' frame', lfsFillSeg fuel lfs m (lfsSegBlks - 1) (env.junk w.calls) =
      some (OK, lfs', cnt', frame') := by
    obtain ⟨lfs', cnt', s', hf⟩ := @fillInodes_some
      { lfs with segsumTimestamp := (lfs.segsumTimestamp + 1) % 2 ^ 32 } m (lfsSegBlks - 1) 0 fuel l le_rfl (Nat.zero_le _) hl hin hst hfuel
      ((((env.junk w.calls).put32 0 lfsSegsumMagic).put32 4 0).put32 8 lfs.segsumTimestamp)
    unfold lfsFillSeg
    dsimp only
    rw [hf]
    exact ⟨_, _, _, rfl⟩
  obtain ⟨lfs', cnt', frame', hfill⟩ := hfill
  unfold flushSeg
  rw [if_neg (by rw [h0]; decide), if_neg (by rw [h1]; decide), hfill]
  dsimp only
  rw [if_neg (not_not.mpr rfl)]
  unfold blockWrite
  rw [h2]
  exact ⟨_, _, rfl⟩

end Rounds

section Runs

theorem flushLoop_round (hs : SegLists lfs xs (s :: ys)) {i : ℕ} (hp : lfs.pending = some i) :
    flushLoop env (fuel + 1) lfs w =
      match flushSeg env fuel
        ({ lfs with segFree := (lfs.segments s).next }.setSegment s { lfs.segments s with index := xs.length }) s
        xs.length w with
      | none => none
      | some (r, lfs, w) => if r ≠ OK then some (r, lfs, w) else flushLoop env fuel lfs w := by
  have hlt := hs.lt s (List.mem_append_right _ List.mem_cons_self)
  rw [flushLoop, ← hs.nextIndex]
  split
  · rename_i hnone
    rw [hp] at hnone
    cases hnone
  · rw [hs.free.1]
    exact if_neg (Nat.not_le.mpr hlt)

structure Flushed (env : Env) (lfs : Lfs) (l xs ys : List ℕ) (w : World) (lfs' : Lfs) : Prop where
  fits : FlushFits env lfs l ys.length w
  lists : SegLists lfs' (xs ++ ys.take (segsFor lfs l)) (ys.drop (segsFor lfs l))
  nSegs : lfs'.nSegs = lfs.nSegs
  pending : lfs'.pending = none
  inodes : ∀ i, ∃ blks, lfs'.inodes i = { lfs.inodes i with blks := blks } ∧
    (lfs.inodes i).blks.Moved (fun seg => xs.length ≤ seg ∧ seg < xs.length + segsFor lfs l) blks
  todo : ∀ i ∈ l, (lfs'.inodes i).blks.todo = 0

theorem Flushed.nil (hs : SegLists lfs xs ys) (hp : lfs.pending = none) : Flushed env lfs [] xs ys w lfs := by
  refine ⟨⟨fun i hi => absurd hi List.not_mem_nil, ?_, ?_⟩, ?_, rfl, hp, fun i => ⟨_, rfl, .refl⟩,
    fun i hi => absurd hi List.not_mem_nil⟩
  · rw [segsFor_nil]
    exact Nat.zero_le _
  · rw [segsFor_nil]
    exact fun n hn => absurd hn (Nat.not_lt_zero n)
  · rw [segsFor_nil, List.take_zero, List.append_nil]
    exact hs

theorem SegFlushed.followed {lfs₁ : Lfs} {w₁ : World} (hf : SegFlushed env lfs l xs ys s w lfs₁ rest w₁) (hne : l ≠ [])
    (hrec : Flushed env lfs₁ rest (xs ++ [s]) ys w₁ lfs') : Flushed env lfs l xs (s :: ys) w lfs' := by
  obtain ⟨cnt, hfill⟩ := hf.filled
  have hcount := hf.segsFor hne
  have hlen : (xs ++ [s]).length = xs.length + 1 := List.length_append
  have hlists := hrec.lists
  have hinodes := hrec.inodes
  rw [List.append_assoc] at hlists
  rw [hlen] at hinodes
  refine ⟨⟨hfill.back hrec.fits.blks, ?_, ?_⟩, ?_, hrec.nSegs.trans hf.nSegs, hrec.pending, ?_, ?_⟩
  · rw [hcount]
    exact Nat.succ_le_succ hrec.fits.segs
  · intro n hn
    by_cases hn3 : n < 3
    · exact hf.ok n hn3
    · have hok := hrec.fits.calls (n - 3) (by omega)
      rw [hf.calls, Nat.add_assoc, Nat.add_sub_cancel' (by omega)] at hok
      exact hok
  · rw [hcount, List.take_succ_cons, List.drop_succ_cons]
    exact hlists
  · intro j
    obtain ⟨bs₁, hbs₁, hmoved₁⟩ := hfill.inodes j
    obtain ⟨bs, hbs, hmoved⟩ := hinodes j
    rw [hbs₁] at hbs hmoved
    refine ⟨bs, hbs, (hmoved₁.mono ?_).trans (hmoved.mono ?_)⟩
    · rintro seg rfl
      omega
    · exact fun seg hseg => ⟨by omega, by omega⟩
  · obtain ⟨done, hsplit, hdone⟩ := hfill.split
    intro j hj
    rw [hsplit] at hj
    rcases List.mem_append.mp hj with hj | hj
    · obtain ⟨bs, hbs, hmoved⟩ := hinodes j
      have hle := hmoved.todo_le
      rw [hdone j hj] at hle
      rw [hbs]
      exact Nat.le_zero.mp hle
    · exact hrec.todo j hj

theorem flushLoop_cases (hs : SegLists lfs xs ys) (hl : Chain lfs.wnext lfs.pending l)
    (h : flushLoop env fuel lfs w = some (r, lfs', w')) :
    r = ERR ∧ (∀ xs' ys', SegLists lfs' xs' ys' → xs'.length + ys'.length < xs.length + ys.length) ∨
      r = OK ∧ Flushed env lfs l xs ys w lfs' := by
  induction fuel generalizing lfs l xs ys w with
  | zero => cases h
  | succ fuel ih =>
    cases l with
    | nil =>
      rw [flushLoop, chain_nil.mp hl] at h
      cases h
      exact .inr ⟨rfl, .nil hs (chain_nil.mp hl)⟩
    | cons i l =>
      cases ys with
      | nil =>
        rw [flushLoop, hl.1, chain_nil.mp hs.free] at h
        cases h
      | cons s ys =>
        rw [flushLoop_round hs hl.1] at h
        split at h
        · cases h
        · rename_i r₁ lfs₁ w₁ hseg
          rcases flushSeg_cases hs.take hl hseg with ⟨rfl, hlost⟩ | ⟨rfl, rest, hf⟩
          · rw [if_pos (by decide)] at h
            cases h
            exact .inl ⟨rfl, hlost⟩
          · rw [if_neg (not_not.mpr rfl)] at h
            obtain ⟨cnt, hfill⟩ := hf.filled
            rcases ih hf.lists hfill.list h with ⟨hr, hlost⟩ | ⟨hr, hrec⟩
            · refine .inl ⟨hr, fun xs' ys' hlists => ?_⟩
              have hlt := hlost xs' ys' hlists
              rw [List.length_append, List.length_singleton] at hlt
              rw [List.length_cons]
              omega
            · have hf' : SegFlushed env lfs (i :: l) xs ys s w lfs₁ rest w₁ :=
                ⟨hf.lists, hf.nSegs, hf.nInodes, ⟨cnt, hfill.list, hfill.split, hfill.inodes, hfill.items, hfill.le, hfill.stop,
                  hfill.back⟩, hf.ok, hf.calls⟩
              exact .inr ⟨hr, hf'.followed (List.cons_ne_nil i l) hrec⟩

theorem flushLoop_some (hs : SegLists lfs xs ys) (hl : Chain lfs.wnext lfs.pending l) (hin : ∀ i ∈ l, i < lfs.nInodes)
    (hfits : FlushFits env lfs l ys.length w) (hfuel : segsFor lfs l + l.length < fuel) :
    ∃ lfs' w', flushLoop env fuel lfs w = some (OK, lfs', w') := by
  induction fuel generalizing lfs l xs ys w with
  | zero => omega
  | succ fuel ih =>
    cases l with
    | nil =>
      rw [flushLoop, chain_nil.mp hl]
      exact ⟨_, _, rfl⟩
    | cons i l =>
      have hpos : 0 < segsFor lfs (i :: l) := by
        have hitems := @itemsOf_cons lfs l i
        unfold segsFor
        unfold lfsSegBlks
        omega
      have hsegs := hfits.segs
      cases ys with
      | nil => exact absurd hsegs (Nat.not_le.mpr hpos)
      | cons s ys =>
        rw [List.length_cons] at hsegs
        obtain ⟨lfs₁, w₁, hseg⟩ := @flushSeg_some env
          ({ lfs with segFree := (lfs.segments s).next }.setSegment s { lfs.segments s with index := xs.length }) w
          (i :: l) xs.length s fuel hl hin hfits.blks (fun k hk => hfits.calls k (by omega)) (by omega)
        rw [flushLoop_round hs hl.1, hseg]
        dsimp only
        rw [if_neg (not_not.mpr rfl)]
        obtain ⟨hr, -⟩ | ⟨-, rest, hf⟩ := flushSeg_cases hs.take hl hseg
        · cases hr
        · obtain ⟨cnt, hfill⟩ := hf.filled
          have hcount : segsFor lfs (i :: l) = segsFor lfs₁ rest + 1 := hf.segsFor (List.cons_ne_nil i l)
          obtain ⟨done, hsplit, -⟩ := hfill.split
          have hmem : ∀ {j}, j ∈ rest → j ∈ i :: l := fun hj => hsplit ▸ List.mem_append_right _ hj
          have hlen := congrArg List.length hsplit
          rw [List.length_append] at hlen
          have hi₁ : lfs₁.nInodes = lfs.nInodes := hf.nInodes
          apply ih hf.lists hfill.list
          · intro j hj
            rw [hi₁]
            exact hin j (hmem hj)
          · refine ⟨?_, by omega, ?_⟩
            · intro j hj
              obtain ⟨bs, hbs, hmoved⟩ := hfill.inodes j
              have hst := hfits.blks j (hmem hj)
              rw [hbs]
              exact ⟨hmoved.ready hst.ready, hmoved.offs ▸ hst.direct⟩
            · intro k hk
              rw [hf.calls, Nat.add_assoc]
              exact hfits.calls (3 + k) (by omega)
          · omega

theorem fillSegList_some {head : Option ℕ} {len : ℕ} {value : Segment → ℕ} (hc : Chain (segNext lfs) head xs)
    (hlt : ∀ s ∈ xs, s < lfs.nSegs) (hlen : ∀ s ∈ xs, 24 + 4 * (lfs.segments s).index ≤ len) (hfuel : xs.length < fuel)
    (c : Bytes) : ∃ c', fillSegList lfs len value fuel head c = some c' := by
  induction fuel generalizing xs head c with
  | zero => omega
  | succ fuel ih =>
    cases xs with
    | nil =>
      rw [chain_nil.mp hc]
      exact ⟨c, rfl⟩
    | cons s xs =>
      have hs := hlt s List.mem_cons_self
      have hl := hlen s List.mem_cons_self
      rw [hc.1, fillSegList, if_neg (by omega)]
      exact ih hc.2 (fun t ht => hlt t (List.mem_cons_of_mem s ht)) (fun t ht => hlen t (List.mem_cons_of_mem s ht))
        (Nat.lt_of_succ_lt_succ hfuel) _

theorem SegLists.ends (h : SegLists lfs xs ys) (c : Bytes) : ∃ c₀ : Bytes, (match lfs.segHead, lfs.segTail with
    | some h, some t => some ((c.put32 12 (lfs.segments h).index).put32 16 (lfs.segments t).index)
    | some _, none => none
    | none, _ => some ((c.put32 12 lfsSegFree).put32 16 lfsSegFree)) = some c₀ := by
  rw [h.tail]
  rcases List.eq_nil_or_concat' xs with rfl | ⟨front, t, rfl⟩
  · rw [chain_nil.mp h.list]
    exact ⟨_, rfl⟩
  · rw [List.getLast?_concat]
    cases hh : lfs.segHead with
    | none => exact ⟨_, rfl⟩
    | some t => exact ⟨_, rfl⟩

theorem SegLists.fill (h : SegLists lfs xs ys) (hfuel : lfs.nSegs < fuel) (c : Bytes) :
    ∃ c', lfsCheckpointFillSegs fuel lfs c = some c' := by
  have hle := h.length_le
  have hfits := h.fits
  have hlog : ∀ s ∈ xs, 24 + 4 * (lfs.segments s).index ≤ lfs.checkpointBlks * lfsBlkSize := by
    intro s hs
    have hmem : (lfs.segments s).index ∈ List.range xs.length := by
      rw [← h.order]
      exact List.mem_map_of_mem hs
    have hlt := List.mem_range.mp hmem
    omega
  have hfree : ∀ s ∈ ys, 24 + 4 * (lfs.segments s).index ≤ lfs.checkpointBlks * lfsBlkSize := by
    intro s hs
    have hlt := h.index s hs
    omega
  have hlists : ∀ c value, ∃ c₁ c₂, fillSegList lfs (lfs.checkpointBlks * lfsBlkSize) value fuel lfs.segHead c = some c₁ ∧
      fillSegList lfs (lfs.checkpointBlks * lfsBlkSize) (fun _ => lfsSegFree) fuel lfs.segFree c₁ = some c₂ := by
    intro c value
    obtain ⟨c₁, h₁⟩ := @fillSegList_some lfs xs fuel _ (lfs.checkpointBlks * lfsBlkSize) value h.list
      (fun s hs => h.lt s (List.mem_append_left _ hs)) hlog (by omega) c
    obtain ⟨c₂, h₂⟩ := @fillSegList_some lfs ys fuel _ (lfs.checkpointBlks * lfsBlkSize) (fun _ => lfsSegFree) h.free
      (fun s hs => h.lt s (List.mem_append_right _ hs)) hfree (by omega) c₁
    exact ⟨c₁, c₂, h₁, h₂⟩
  obtain ⟨c₀, hc₀⟩ := h.ends c
  obtain ⟨c₁, c₂, h₁, h₂⟩ := hlists c₀ _
  exact ⟨c₂, match_some hc₀ h₁ h₂⟩

theorem lfsWriteCheckpoint_some (h : SegLists lfs xs ys) (hfuel : lfs.nSegs < fuel) (env : Env) (w : World) :
    ∃ r lfs' w', lfsWriteCheckpoint env fuel lfs w = some (r, lfs', w') ∧
      (r = OK ∧ lfs' = lfs.tick ∨ r = ERR ∧ lfs' = lfs) := by
  obtain ⟨c, hfill⟩ := h.fill hfuel ((zeros.put32 0 lfsCheckpointMagic).put32 4 0)
  have hsome : ∃ res, lfsWriteCheckpoint env fuel lfs w = some res := by
    unfold lfsWriteCheckpoint
    split_ifs
    · exact ⟨_, rfl⟩
    · dsimp only
      rw [hfill]
      dsimp only
      split <;> exact ⟨_, rfl⟩
  obtain ⟨⟨r, lfs', w'⟩, hres⟩ := hsome
  refine ⟨r, lfs', w', hres, ?_⟩
  rcases lfsWriteCheckpoint_ok hres with ⟨hr, he, -⟩ | ⟨-, -, -, h⟩
  · exact .inr ⟨hr, he⟩
  · exact h

theorem Flushed.kept (h : Flushed env lfs l xs ys w lfs') : NothingLost env lfs l xs ys w lfs' (segsFor lfs l) := by
  refine ⟨h.fits.segs, h.lists, ?_, h.inodes, l, [], (List.append_nil l).symm, h.pending, h.todo⟩
  intro k hk
  rw [Nat.add_assoc]
  exact h.fits.calls _ (by omega)

theorem NothingLost.tick {k : ℕ} (h : NothingLost env lfs l xs ys w lfs' k) :
    NothingLost env lfs l xs ys w lfs'.tick k :=
  ⟨h.le, ⟨h.segs.list, h.segs.tail, h.segs.free, h.segs.nodup, h.segs.lt, h.segs.order, h.segs.index, h.segs.fits,
    h.segs.small⟩, h.taken, h.inodes, h.pending⟩

/-- `lfs_flush` completes, or fails without a loss, just if every pending inode can be stored, there are free segments
for all of them, and no call fails before they are written. -/
theorem flush_keeps_iff (hs : SegLists lfs xs ys) (hl : Chain lfs.wnext lfs.pending l) (hin : ∀ i ∈ l, i < lfs.nInodes)
    (hfuel : segsFor lfs l + l.length + lfs.nSegs < fuel) :
    FlushKeeps env lfs l xs ys w (lfsFlush env fuel lfs w) ↔ FlushFits env lfs l ys.length w := by
  constructor
  · rintro ⟨r, lfs', w', k, hflush, -, hkept⟩
    unfold lfsFlush at hflush
    split at hflush
    · cases hflush
    · rename_i r₁ lfs₁ w₁ hloop
      rcases flushLoop_cases hs hl hloop with ⟨rfl, hlost⟩ | ⟨-, hf⟩
      · rw [if_pos (by decide)] at hflush
        cases hflush
        have hlt := hlost _ _ hkept.segs
        have hle := hkept.le
        rw [List.length_append, List.length_take, List.length_drop] at hlt
        omega
      · exact hf.fits
  · intro hfits
    obtain ⟨lfs₁, w₁, hloop⟩ := @flushLoop_some env lfs w l xs ys fuel hs hl hin hfits (by omega)
    obtain ⟨hr, -⟩ | ⟨-, hf⟩ := flushLoop_cases hs hl hloop
    · cases hr
    · have hn := hf.nSegs
      obtain ⟨r, lfs', w', hwrite, h⟩ := @lfsWriteCheckpoint_some lfs₁ _ _ fuel hf.lists (by omega) env w₁
      refine ⟨r, lfs', w', segsFor lfs l, ?_, ?_⟩
      · unfold lfsFlush
        rw [hloop]
        exact hwrite
      · rcases h with ⟨rfl, rfl⟩ | ⟨rfl, rfl⟩
        · exact ⟨.inl ⟨rfl, hf.pending⟩, hf.kept.tick⟩
        · exact ⟨.inr rfl, hf.kept⟩

def unsavedInode : Inode :=
  { index := 0, created := true, free := false, name := fun _ => 0, blkCnt := 1, lenReal := 4, wnext := none
    blks := .cons { written := false, blk := 0, crc := 0, off := 0, empty := false, cached := true, addr := zeros } .nil }

def roomyLfs : Lfs :=
  { freshSegs 1 (fun _ => none) none none with
    segFree := some 0, nInodes := 1, inodes := fun _ => unsavedInode, pending := some 0 }

def fullLfs : Lfs :=
  { freshSegs 1 (fun _ => none) (some 0) (some 0) with
    nInodes := 1, inodes := fun _ => unsavedInode, pending := some 0 }

theorem flush_keeps_roomy : FlushKeeps ⟨fun _ => true, fun _ => zeros⟩ roomyLfs [0] [] [0] ⟨zeros, 512, 0⟩
    (lfsFlush ⟨fun _ => true, fun _ => zeros⟩ 4 roomyLfs ⟨zeros, 512, 0⟩) := by
  have hfits : FlushFits ⟨fun _ => true, fun _ => zeros⟩ roomyLfs [0] [0].length ⟨zeros, 512, 0⟩ :=
    ⟨fun _ _ => ⟨⟨fun _ _ => rfl, trivial⟩, (by decide : 1 ≤ nDirectBlks)⟩, by decide, fun _ _ => rfl⟩
  have hlists : SegLists roomyLfs [] [0] :=
    ⟨rfl, rfl, ⟨rfl, rfl⟩, by decide, by decide, rfl, by decide, by decide, by decide⟩
  have hpending : Chain roomyLfs.wnext roomyLfs.pending [0] := ⟨rfl, rfl⟩
  exact (flush_keeps_iff hlists hpending (by decide) (by decide)).mpr hfits

theorem flush_full : SegLists fullLfs [0] [] ∧ Chain fullLfs.wnext fullLfs.pending [0] ∧
    lfsFlush ⟨fun _ => true, fun _ => zeros⟩ 4 fullLfs ⟨zeros, 512, 0⟩ = none ∧
    ¬ FlushKeeps ⟨fun _ => true, fun _ => zeros⟩ fullLfs [0] [0] [] ⟨zeros, 512, 0⟩
      (lfsFlush ⟨fun _ => true, fun _ => zeros⟩ 4 fullLfs ⟨zeros, 512, 0⟩) := by
  have hnone : lfsFlush ⟨fun _ => true, fun _ => zeros⟩ 4 fullLfs ⟨zeros, 512, 0⟩ = none := rfl
  refine ⟨⟨⟨rfl, rfl⟩, rfl, rfl, by decide, by decide, rfl, by decide, by decide, by decide⟩, ⟨rfl, rfl⟩, hnone, ?_⟩
  rintro ⟨r, lfs', w', k, hflush, -⟩
  rw [hnone] at hflush
  cases hflush

end Runs

end Agatha.Fs
