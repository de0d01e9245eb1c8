import Agatha.User.Malloc

namespace Agatha.User

open Library.Areas Library.Cutting

structure Live where
  ptr : ℕ
  len : ℕ
  deriving DecidableEq

def isSmall (len : ℕ) : Prop := binN ((len + wordSize) % 2 ^ 32) ≤ binMax

instance (len : ℕ) : Decidable (isSmall len) := Nat.decLe _ _

def frameLen (len : ℕ) : ℕ :=
  if isSmall len then pageSize else pageAlign ((len + wordSize) % 2 ^ 32)

def Fresh (page len : ℕ) (frames : List Area) : Prop :=
  page = 0 ∨ pageSize ∣ page ∧ page + frameLen len ≤ 2 ^ 32 ∧
    ∀ f ∈ frames, Area.Disjoint ⟨page, frameLen len⟩ f

/-- Runs from the empty heap, with the live blocks, and the frames obtained for small blocks and for
others. -/
inductive HeapRun : List Live → List Area → List Area → Heap → Prop
  | start {size : ℕ → ℕ} : HeapRun [] [] [] { bins := fun _ => [], size := size }
  | malloc {live : List Live} {pages bigs got : List Area} {heap heap' : Heap} {page len p : ℕ}
      (run : HeapRun live pages bigs heap) (hlen : len < 2 ^ 31) (hfresh : Fresh page len (pages ++ bigs))
      (h : malloc page len heap = some (p, got, heap')) :
      HeapRun (if p = 0 then live else { ptr := p, len := len } :: live)
        (if isSmall len then got ++ pages else pages) (if isSmall len then bigs else got ++ bigs) heap'
  | free {live : List Live} {pages bigs : List Area} {heap heap' : Heap} {b : Live}
      (run : HeapRun live pages bigs heap) (hb : b ∈ live) (h : free b.ptr heap = some heap') :
      HeapRun (live.erase b) pages bigs heap'

def Heap.block (heap : Heap) (p : ℕ) : Area := ⟨p - wordSize, heap.size (p - wordSize)⟩

def Heap.small (heap : Heap) (b : Live) : Bool := binN (heap.size (b.ptr - wordSize)) ≤ binMax

def Heap.blocks (heap : Heap) (live : List Live) : List Area := live.map fun b => heap.block b.ptr

structure HeapIntegrity (live : List Live) (pages : List Area) (heap : Heap) : Prop where
  disjoint : (heap.blocks live ++ heap.chunks).Pairwise Area.Disjoint
  usable : ∀ b ∈ live, b.ptr + b.len ≤ (heap.block b.ptr).start + (heap.block b.ptr).len ∧
    (heap.block b.ptr).start + wordSize = b.ptr
  bins : ∀ bin ≤ binMax, (heap.bins bin).Pairwise (· < ·) ∧ ∀ c ∈ heap.bins bin, chunkSize bin ∣ c
  cover : ∀ x, Covers pages x ↔ Covers (heap.blocks (live.filter heap.small) ++ heap.chunks) x

structure BlockOk (bigs : List Area) (heap : Heap) (b : Live) : Prop where
  base : wordSize < b.ptr
  usable : b.ptr + b.len ≤ (heap.block b.ptr).start + (heap.block b.ptr).len
  kind : (∃ bin ≤ binMax, heap.size (b.ptr - wordSize) = chunkSize bin ∧
      chunkSize bin ∣ b.ptr - wordSize ∧ b.ptr - wordSize + chunkSize bin ≤ 2 ^ 32) ∨
    heap.block b.ptr ∈ bigs ∧ binMax < binN (heap.size (b.ptr - wordSize))

structure HeapOk (live : List Live) (pages bigs : List Area) (heap : Heap) : Prop where
  bins : BinsOk heap
  pieces : Tidy (heap.blocks live ++ heap.chunks)
  block : ∀ b ∈ live, BlockOk bigs heap b
  cover : ∀ x, Covers pages x ↔ Covers (heap.blocks (live.filter heap.small) ++ heap.chunks) x

variable {live : List Live} {pages bigs got : List Area} {heap heap' : Heap} {page len p : ℕ} {b : Live}

theorem HeapOk.integrity (h : HeapOk live pages bigs heap) : HeapIntegrity live pages heap := by
  refine ⟨h.pieces.disjoint, fun b hb => ⟨(h.block b hb).usable, ?_⟩,
    fun bin _ => ⟨h.bins.sorted bin, h.bins.aligned bin⟩, h.cover⟩
  have hbase := (h.block b hb).base
  unfold Heap.block
  dsimp only
  omega

theorem binN_le (h : binN len ≤ binMax) : len ≤ chunkSize (binN len) := by
  unfold binN at h ⊢
  cases hf : (List.range (binMax + 1)).find? fun bin => ¬chunkSize bin < len with
  | none =>
    rw [hf] at h
    exact absurd h (by decide)
  | some bin =>
    have htest := List.find?_some hf
    rw [decide_eq_true_iff, Nat.not_lt] at htest
    exact htest

theorem binN_gt (h : ¬binN len ≤ binMax) : chunkSize binMax < len := by
  by_contra hle
  have hfound : ((List.range (binMax + 1)).find? fun bin => ¬chunkSize bin < len).isSome := by
    rw [List.find?_isSome]
    exact ⟨binMax, by decide, by simpa using hle⟩
  obtain ⟨bin, hf⟩ := Option.isSome_iff_exists.mp hfound
  have hmem := List.mem_of_find?_eq_some hf
  unfold binN at h
  rw [hf] at h
  exact h (Nat.le_of_lt_succ (List.mem_range.mp hmem))

theorem binN_chunkSize {bin : ℕ} (h : bin ≤ binMax) : binN (chunkSize bin) = bin := by
  have hall : ∀ bin < binMax + 1, binN (chunkSize bin) = bin := by decide
  exact hall bin (by omega)

theorem binN_big (h : pageSize < len) : binMax < binN len := by
  by_contra hle
  have h1 := binN_le (Nat.le_of_not_lt hle)
  have h2 := chunkSize_le (Nat.le_of_not_lt hle)
  omega

theorem BlockOk.congr {bigs' : List Area} (h : BlockOk bigs heap b)
    (hs : heap'.size (b.ptr - wordSize) = heap.size (b.ptr - wordSize)) (hbigs : bigs ⊆ bigs') :
    BlockOk bigs' heap' b := by
  have hblock : heap'.block b.ptr = heap.block b.ptr := by
    unfold Heap.block
    rw [hs]
  refine ⟨h.base, hblock ▸ h.usable, ?_⟩
  rw [hs, hblock]
  exact h.kind.imp_right fun ⟨hm, hb⟩ => ⟨hbigs hm, hb⟩

theorem blocks_congr {l : List Live}
    (hs : ∀ b ∈ l, heap'.size (b.ptr - wordSize) = heap.size (b.ptr - wordSize)) :
    heap'.blocks l = heap.blocks l ∧ l.filter heap'.small = l.filter heap.small := by
  constructor
  · unfold Heap.blocks
    apply List.map_congr_left
    intro b hb
    unfold Heap.block
    rw [hs b hb]
  · apply List.filter_congr
    intro b hb
    unfold Heap.small
    rw [hs b hb]

theorem HeapOk.fresh {f : Area} (h : HeapOk live pages bigs heap) (hpos : 0 < f.len)
    (hf : ∀ a ∈ pages ++ bigs, f.Disjoint a) : Tidy (f :: (heap.blocks live ++ heap.chunks)) := by
  refine tidy_cons.mpr ⟨hpos, fun y hy => ?_, h.pieces⟩
  have hcovered : (∀ x, y.Has x → Covers pages x) → f.Disjoint y := by
    intro hcov
    refine disjoint_of_has hpos (h.pieces.pos y hy) fun x hx hyx => ?_
    obtain ⟨a, ha, hax⟩ := hcov x hyx
    exact (hf a (List.mem_append_left _ ha)).not_has hx hax
  rcases List.mem_append.mp hy with hm | hm
  · obtain ⟨b, hb, rfl⟩ := List.mem_map.mp hm
    rcases (h.block b hb).kind with ⟨bin, hbin, hsize, -⟩ | ⟨hbig, -⟩
    · apply hcovered
      intro x hx
      refine (h.cover x).mpr ⟨_, List.mem_append_left _ (List.mem_map.mpr ⟨b, ?_, rfl⟩), hx⟩
      refine List.mem_filter.mpr ⟨hb, decide_eq_true ?_⟩
      rw [hsize, binN_chunkSize hbin]
      exact hbin
    · exact hf _ (List.mem_append_right _ hbig)
  · exact hcovered fun x hx => (h.cover x).mpr ⟨y, List.mem_append_right _ hm, hx⟩

theorem not_covers_of_tidy {l r : List Area} {a : Area} {x : ℕ} (h : Tidy (l ++ r)) (ha : a ∈ r)
    (hx : a.Has x) : ¬Covers l x := by
  rintro ⟨y, hy, hyx⟩
  exact ((List.pairwise_append.mp h.disjoint).2.2 y hy a ha).not_has hyx hx

theorem HeapOk.block_has (h : HeapOk live pages bigs heap) (hb : b ∈ live) :
    (heap.block b.ptr).Has (b.ptr - wordSize) := by
  refine ⟨Nat.le_refl _, Nat.lt_add_of_pos_right ?_⟩
  exact h.pieces.pos _ (List.mem_append_left _ (List.mem_map.mpr ⟨b, hb, rfl⟩))

theorem HeapOk.take {bin c : ℕ} (h : HeapOk live pages bigs heap) (hbin : bin ≤ binMax)
    (htaken : Taken bin c got heap heap') (hlen : len + wordSize ≤ chunkSize bin)
    (hgot : Tidy (got ++ (heap.blocks live ++ heap.chunks))) :
    HeapOk ({ ptr := c + wordSize, len := len } :: live) (got ++ pages) bigs heap' := by
  have hsum : c + wordSize - wordSize = c := Nat.add_sub_cancel ..
  have hgot' : Tidy ((got ++ heap.chunks) ++ heap.blocks live) :=
    hgot.perm (by rw [List.append_assoc]; exact List.perm_append_comm.append_left got)
  have hsame : ∀ b ∈ live, heap'.size (b.ptr - wordSize) = heap.size (b.ptr - wordSize) :=
    fun b hb => htaken.frame _ (not_covers_of_tidy hgot' (List.mem_map.mpr ⟨b, hb, rfl⟩) (h.block_has hb))
  obtain ⟨hblocks, hfilter⟩ := blocks_congr hsame
  have hblock : heap'.block (c + wordSize) = ⟨c, chunkSize bin⟩ := by
    unfold Heap.block
    rw [hsum, htaken.size]
  have hsmall : heap'.small { ptr := c + wordSize, len := len } = true := by
    apply decide_eq_true
    dsimp only
    rw [hsum, htaken.size, binN_chunkSize hbin]
    exact hbin
  refine ⟨htaken.ok, ?_, ?_, ?_⟩
  · have ht := htaken.recut.tidy _ hgot'
    refine ht.perm ?_
    unfold Heap.blocks at hblocks ⊢
    rw [List.map_cons, hblock, hblocks]
    exact List.perm_append_comm.cons _
  · intro b hb
    rcases List.mem_cons.mp hb with rfl | hb
    · refine ⟨?_, ?_, .inl ⟨bin, hbin, ?_⟩⟩
      · have hpos := htaken.pos
        dsimp only
        omega
      · rw [hblock]
        dsimp only
        omega
      · dsimp only
        rw [hsum]
        exact ⟨htaken.size, htaken.aligned, htaken.fits⟩
    · exact (h.block b hb).congr (hsame b hb) (List.Subset.refl _)
  · intro x
    rw [List.filter_cons_of_pos hsmall, hfilter]
    have hkeep : heap'.blocks (live.filter heap.small) = heap.blocks (live.filter heap.small) :=
      (blocks_congr fun b hb => hsame b (List.mem_of_mem_filter hb)).1
    have hcons : heap'.blocks ({ ptr := c + wordSize, len := len } :: live.filter heap.small) =
        ⟨c, chunkSize bin⟩ :: heap.blocks (live.filter heap.small) := by
      rw [← hkeep]
      unfold Heap.blocks
      rw [List.map_cons, hblock]
    have hrecut := htaken.recut.covers x
    rw [covers_cons, covers_append] at hrecut
    rw [hcons, List.cons_append, covers_cons, covers_append, covers_append, h.cover x, covers_append]
    rw [or_left_comm, or_left_comm (a := Area.Has _ x), hrecut]

theorem HeapOk.takeFrame {n : ℕ} (h : HeapOk live pages bigs heap) (hpage : page ≠ 0)
    (ht : Tidy (⟨page, n⟩ :: (heap.blocks live ++ heap.chunks))) (hlen : len + wordSize ≤ n)
    (hn : pageSize < n) :
    HeapOk ({ ptr := page + wordSize, len := len } :: live) pages (⟨page, n⟩ :: bigs)
      (heap.setSize page n) := by
  have hsum : page + wordSize - wordSize = page := Nat.add_sub_cancel ..
  have hself : (heap.setSize page n).size page = n := setSize_size.trans (if_pos rfl)
  have hblock : (heap.setSize page n).block (page + wordSize) = ⟨page, n⟩ := by
    unfold Heap.block
    rw [hsum, hself]
  have hsame : ∀ b ∈ live, (heap.setSize page n).size (b.ptr - wordSize) =
      heap.size (b.ptr - wordSize) := by
    intro b hb
    rw [setSize_size, if_neg]
    intro he
    have hd := (tidy_cons.mp ht).2.1 _ (List.mem_append_left _ (List.mem_map.mpr ⟨b, hb, rfl⟩))
    refine hd.not_has ⟨Nat.le_refl _, Nat.lt_add_of_pos_right (tidy_cons.mp ht).1⟩ ?_
    have hhas := h.block_has hb
    rw [he] at hhas
    exact hhas
  have hbig : (heap.setSize page n).small { ptr := page + wordSize, len := len } = false := by
    apply decide_eq_false
    dsimp only
    rw [hsum, hself]
    exact Nat.not_le_of_lt (binN_big hn)
  obtain ⟨hblocks, hfilter⟩ := blocks_congr hsame
  refine ⟨h.bins.setSize, ?_, ?_, ?_⟩
  · rw [setSize_chunks]
    unfold Heap.blocks at hblocks ht ⊢
    rw [List.map_cons, hblock, hblocks]
    exact ht
  · intro b hb
    rcases List.mem_cons.mp hb with rfl | hb
    · refine ⟨?_, ?_, .inr ⟨?_, ?_⟩⟩
      · dsimp only
        omega
      · rw [hblock]
        dsimp only
        omega
      · rw [hblock]
        exact List.mem_cons_self
      · dsimp only
        rw [hsum, hself]
        exact binN_big hn
    · exact (h.block b hb).congr (hsame b hb) (List.subset_cons_self _ _)
  · intro x
    have hkeep : (heap.setSize page n).blocks (live.filter heap.small) =
        heap.blocks (live.filter heap.small) :=
      (blocks_congr fun b hb => hsame b (List.mem_of_mem_filter hb)).1
    rw [List.filter_cons_of_neg (by rw [hbig]; decide), hfilter, hkeep, setSize_chunks]
    exact h.cover x

theorem pageAlign_ge (h : len + pageSize ≤ 2 ^ 32) : len ≤ pageAlign len := by
  unfold pageAlign alignUp pageSize at *
  rw [Nat.mod_eq_of_lt (by omega)]
  omega

theorem HeapOk.getChunk_ok {bin : ℕ} (h : HeapOk live pages bigs heap) (hbin : bin ≤ binMax)
    (hfresh : page = 0 ∨ pageSize ∣ page ∧ page + pageSize ≤ 2 ^ 32 ∧
      ∀ f ∈ pages ++ bigs, Area.Disjoint ⟨page, pageSize⟩ f) :
    getChunk page bin heap = some (0, [], heap) ∨
    ∃ c got heap', getChunk page bin heap = some (c, got, heap') ∧ Taken bin c got heap heap' ∧
      Tidy (got ++ (heap.blocks live ++ heap.chunks)) := by
  have hpage : page ≠ 0 → Tidy (⟨page, pageSize⟩ :: (heap.blocks live ++ heap.chunks)) :=
    fun hpz => h.fresh (show 0 < pageSize by decide) (hfresh.resolve_left hpz).2.2
  have hchunks : Tidy heap.chunks := by
    have ht := h.pieces
    exact ⟨(List.pairwise_append.mp ht.disjoint).2.1, fun a ha => ht.pos a (List.mem_append_right _ ha)⟩
  have hpok : PageOk page heap.chunks := by
    by_cases hpz : page = 0
    · exact .inl hpz
    · obtain ⟨hal, hfit, -⟩ := hfresh.resolve_left hpz
      obtain ⟨hpos, hd, -⟩ := tidy_cons.mp (hpage hpz)
      exact .inr ⟨hal, hfit, tidy_cons.mpr ⟨hpos, fun y hy => hd y (List.mem_append_right _ hy), hchunks⟩⟩
  have hfuel : binMax + 1 - bin + bin = binMax + 1 := Nat.sub_add_cancel (Nat.le_succ_of_le hbin)
  rcases getFrom_ok hfuel hbin h.bins hchunks hpok with hnone | ⟨c, got, heap', hget, htaken, hgot⟩
  · exact .inl hnone
  · refine .inr ⟨c, got, heap', hget, htaken, ?_⟩
    rcases hgot with rfl | ⟨hpz, rfl⟩
    · exact h.pieces
    · exact hpage hpz

theorem HeapOk.malloc (h : HeapOk live pages bigs heap) (hlen : len + wordSize + pageSize ≤ 2 ^ 32)
    (hfresh : Fresh page len (pages ++ bigs)) :
    ∃ p got heap', Agatha.User.malloc page len heap = some (p, got, heap') ∧
      HeapOk (if p = 0 then live else { ptr := p, len := len } :: live)
        (if isSmall len then got ++ pages else pages) (if isSmall len then bigs else got ++ bigs) heap' := by
  have hmod : (len + wordSize) % 2 ^ 32 = len + wordSize :=
    Nat.mod_eq_of_lt (by unfold wordSize pageSize at *; omega)
  have hiff : isSmall len ↔ binN (len + wordSize) ≤ binMax := by
    unfold isSmall
    rw [hmod]
  unfold Agatha.User.malloc
  rw [hmod]
  by_cases hsmall : isSmall len
  · have hs := hiff.mp hsmall
    have hframe : frameLen len = pageSize := if_pos hsmall
    simp only [if_pos hs, if_pos hsmall]
    unfold Fresh at hfresh
    rw [hframe] at hfresh
    rcases h.getChunk_ok hs hfresh with hnone | ⟨c, got, heap', hget, htaken, hgot⟩
    · rw [hnone]
      exact ⟨0, [], heap, rfl, h⟩
    · rw [hget]
      have hfit := htaken.fits
      have hsize : wordSize < chunkSize (binN (len + wordSize)) := by
        have hle : 2 ^ 5 ≤ chunkSize (binN (len + wordSize)) := Nat.pow_le_pow_right (by decide) (by omega)
        unfold wordSize at *
        omega
      have hptr : (c + wordSize) % 2 ^ 32 = c + wordSize := Nat.mod_eq_of_lt (by omega)
      refine ⟨c + wordSize, got, heap', ?_, ?_⟩
      · rw [Option.map_some, if_neg htaken.pos.ne', hptr]
      · rw [if_neg (by have := htaken.pos; omega)]
        exact h.take hs htaken (binN_le hs) hgot
  · have hs : ¬binN (len + wordSize) ≤ binMax := fun h => hsmall (hiff.mpr h)
    simp only [if_neg hs, if_neg hsmall]
    by_cases hpz : page = 0
    · rw [if_pos hpz]
      exact ⟨0, [], heap, rfl, h⟩
    · rw [if_neg hpz]
      have hframe : frameLen len = pageAlign (len + wordSize) := by
        unfold frameLen
        rw [if_neg hsmall, hmod]
      obtain ⟨hal, hfit, hdisj⟩ := hfresh.resolve_left hpz
      rw [hframe] at hfit hdisj
      have hbig := binN_gt hs
      have hge : len + wordSize ≤ pageAlign (len + wordSize) :=
        pageAlign_ge hlen
      have hpos : 0 < pageAlign (len + wordSize) := by
        unfold wordSize at *
        omega
      have hptr : (page + wordSize) % 2 ^ 32 = page + wordSize := by
        apply Nat.mod_eq_of_lt
        have hmax : wordSize < chunkSize binMax := by decide
        omega
      rw [hptr]
      refine ⟨page + wordSize, _, _, rfl, ?_⟩
      rw [if_neg (by unfold wordSize; omega)]
      have hlast : chunkSize binMax = pageSize := rfl
      exact h.takeFrame hpz (h.fresh hpos hdisj) hge (by omega)

theorem HeapOk.free (h : HeapOk live pages bigs heap) (hb : b ∈ live) :
    ∃ heap', Agatha.User.free b.ptr heap = some heap' ∧ HeapOk (live.erase b) pages bigs heap' := by
  obtain ⟨hbase, hus, hkind⟩ := h.block b hb
  have hperm : live.Perm (b :: live.erase b) := List.perm_cons_erase hb
  have hpieces : Tidy (heap.block b.ptr :: (heap.blocks (live.erase b) ++ heap.chunks)) :=
    h.pieces.perm ((hperm.map _).append_right _)
  have hptr : b.ptr ≠ 0 := by omega
  unfold Agatha.User.free
  rw [if_neg hptr]
  dsimp only
  rcases hkind with ⟨bin, hbin, hsize, hdvd, hfit⟩ | ⟨hbig, hbin⟩
  · have hsmall : heap.small b = true := by
      apply decide_eq_true
      rw [hsize, binN_chunkSize hbin]
      exact hbin
    have hblock : heap.block b.ptr = ⟨b.ptr - wordSize, chunkSize bin⟩ := by
      unfold Heap.block
      rw [hsize]
    rw [hblock] at hpieces
    have hchunks : Tidy (⟨b.ptr - wordSize, chunkSize bin⟩ :: heap.chunks) := by
      obtain ⟨hpos, hd, ht⟩ := tidy_cons.mp hpieces
      exact tidy_cons.mpr ⟨hpos, fun y hy => hd y (List.mem_append_right _ hy),
        (List.pairwise_append.mp ht.disjoint).2.1, fun a ha => ht.pos a (List.mem_append_right _ ha)⟩
    obtain ⟨heap', hins, hok, hsize', hrecut⟩ := insertChunk_ok hbin
      (h.bins.setSize (c := b.ptr - wordSize) (n := 0)) hdvd (by omega) hfit hchunks
    rw [hsize, binN_chunkSize hbin, if_pos hbin]
    refine ⟨heap', hins, ?_⟩
    have hsame : ∀ b' ∈ live.erase b, heap'.size (b'.ptr - wordSize) = heap.size (b'.ptr - wordSize) := by
      intro b' hb'
      rw [hsize', setSize_size, if_neg]
      intro he
      have hd := (tidy_cons.mp hpieces).2.1 _ (List.mem_append_left _ (List.mem_map.mpr ⟨b', hb', rfl⟩))
      refine hd.not_has ⟨Nat.le_refl _, Nat.lt_add_of_pos_right chunkSize_pos⟩ ?_
      have hhas := h.block_has (List.mem_of_mem_erase hb')
      rw [he] at hhas
      exact hhas
    obtain ⟨hblocks, hfilter⟩ := blocks_congr hsame
    refine ⟨hok, ?_, ?_, ?_⟩
    · rw [hblocks]
      have hside : Tidy ((⟨b.ptr - wordSize, chunkSize bin⟩ :: heap.chunks) ++ heap.blocks (live.erase b)) :=
        hpieces.perm (List.perm_append_comm.cons _)
      exact (hrecut.tidy _ hside).perm List.perm_append_comm
    · exact fun b' hb' =>
        (h.block b' (List.mem_of_mem_erase hb')).congr (hsame b' hb') (List.Subset.refl _)
    · intro x
      have hkeep : heap'.blocks ((live.erase b).filter heap.small) =
          heap.blocks ((live.erase b).filter heap.small) :=
        (blocks_congr fun b' hb' => hsame b' (List.mem_of_mem_filter hb')).1
      have hfilt : (live.filter heap.small).Perm (b :: (live.erase b).filter heap.small) := by
        have hp := hperm.filter heap.small
        rwa [List.filter_cons_of_pos hsmall] at hp
      have hcov := (Recut.of_perm (hfilt.map fun b => heap.block b.ptr)).covers x
      rw [List.map_cons, covers_cons, hblock] at hcov
      have hrec := hrecut.covers x
      rw [covers_cons, setSize_chunks] at hrec
      rw [hfilter, hkeep, h.cover x, covers_append, covers_append, hrec]
      unfold Heap.blocks
      rw [← hcov, or_assoc]
      exact or_left_comm
  · rw [if_neg (Nat.not_le_of_lt hbin)]
    refine ⟨heap, rfl, h.bins, (tidy_cons.mp hpieces).2.2,
      fun b' hb' => h.block b' (List.mem_of_mem_erase hb'), fun x => ?_⟩
    have hsmall : ¬heap.small b = true := by
      unfold Heap.small
      rw [decide_eq_true_iff]
      omega
    have hfilt : (live.filter heap.small).Perm ((live.erase b).filter heap.small) := by
      have hp := hperm.filter heap.small
      rwa [List.filter_cons_of_neg hsmall] at hp
    have hcov := (Recut.of_perm (hfilt.map fun b => heap.block b.ptr)).covers x
    rw [h.cover x, covers_append, covers_append]
    unfold Heap.blocks
    rw [hcov]

theorem fits_of_half (hlen : len < 2 ^ 31) : len + wordSize + pageSize ≤ 2 ^ 32 := by
  unfold wordSize pageSize
  omega

theorem HeapRun.ok (run : HeapRun live pages bigs heap) : HeapOk live pages bigs heap := by
  induction run with
  | start =>
    have hchunks : ∀ size : ℕ → ℕ, Heap.chunks { bins := fun _ => [], size := size } = [] := fun _ => rfl
    refine ⟨⟨fun _ => List.Pairwise.nil, fun _ _ hc => (by cases hc), fun _ _ hc => (by cases hc),
      fun _ _ hc => (by cases hc)⟩, ?_, fun _ hb => (by cases hb), fun x => ?_⟩
    · rw [hchunks]
      exact ⟨List.Pairwise.nil, fun _ ha => by cases ha⟩
    · rw [hchunks]
      exact Iff.rfl
  | malloc _ hlen hfresh h ih =>
    obtain ⟨p, got, heap', hmalloc, hok⟩ := ih.malloc (fits_of_half hlen) hfresh
    rw [h] at hmalloc
    cases hmalloc
    exact hok
  | free _ hb h ih =>
    obtain ⟨heap', hfree, hok⟩ := ih.free hb
    rw [h] at hfree
    cases hfree
    exact hok

/-- In every run the live blocks and the chunks are disjoint, blocks are long enough, bins are in order,
the small blocks and the chunks make up their pages, and both calls return. -/
theorem heap_integrity (run : HeapRun live pages bigs heap) :
    HeapIntegrity live pages heap ∧
    (∀ page len, len < 2 ^ 31 → Fresh page len (pages ++ bigs) → (malloc page len heap).isSome) ∧
    ∀ b ∈ live, (free b.ptr heap).isSome := by
  refine ⟨run.ok.integrity, fun page len hlen hfresh => ?_, fun b hb => ?_⟩
  · obtain ⟨p, got, heap', h, -⟩ := run.ok.malloc (fits_of_half hlen) hfresh
    exact h ▸ rfl
  · obtain ⟨heap', h, -⟩ := run.ok.free hb
    exact h ▸ rfl

def emptyHeap : Heap := { bins := fun _ => [], size := fun _ => 0 }

def lowerHalf : Heap :=
  (((emptyHeap.setSize 0x1000 0x1000).setSize 0x1800 0).setBin 6 [0x1800]).setSize 0x1000 0x800

def bothHalves : Heap := (lowerHalf.setBin 6 []).setSize 0x1800 0x800

def upperHalf : Heap := (bothHalves.setSize 0x1000 0).setBin 6 [0x1000]

theorem halves_malloc : malloc 0x1000 2000 emptyHeap = some (0x1004, [⟨0x1000, 0x1000⟩], lowerHalf) ∧
    malloc 0 2000 lowerHalf = some (0x1804, [], bothHalves) := ⟨rfl, rfl⟩

theorem halves_free : free 0x1004 bothHalves = some upperHalf := rfl

theorem heap_integrity_halves : HeapRun [⟨0x1804, 2000⟩] [⟨0x1000, 0x1000⟩] [] upperHalf ∧
    HeapIntegrity [⟨0x1804, 2000⟩] [⟨0x1000, 0x1000⟩] upperHalf ∧
    (malloc 0 2000 upperHalf).isSome ∧ (free 0x1804 upperHalf).isSome := by
  have hfresh : Fresh 0x1000 2000 ([] ++ []) := .inr ⟨by decide, by decide, fun f hf => by cases hf⟩
  have hlower : HeapRun [⟨0x1004, 2000⟩] [⟨0x1000, 0x1000⟩] [] lowerHalf :=
    HeapRun.start.malloc (by decide) hfresh halves_malloc.1
  have hboth : HeapRun [⟨0x1804, 2000⟩, ⟨0x1004, 2000⟩] [⟨0x1000, 0x1000⟩] [] bothHalves :=
    hlower.malloc (by decide) (.inl rfl) halves_malloc.2
  have hrun : HeapRun [⟨0x1804, 2000⟩] [⟨0x1000, 0x1000⟩] [] upperHalf :=
    hboth.free (b := ⟨0x1004, 2000⟩) (by decide) halves_free
  obtain ⟨hok, hmalloc, hfree⟩ := heap_integrity hrun
  exact ⟨hrun, hok, hmalloc 0 2000 (by decide) (.inl rfl), hfree ⟨0x1804, 2000⟩ (by decide)⟩

end Agatha.User
