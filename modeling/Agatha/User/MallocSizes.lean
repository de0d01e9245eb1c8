import Agatha.User.MallocRuns

namespace Agatha.User

open Library.Areas Library.Cutting

def LenFits (len : ℕ) : Prop := len + wordSize + pageSize ≤ 2 ^ 32

inductive SizedRun : List Live → List Area → List Area → Heap → Prop
  | start {size : ℕ → ℕ} : SizedRun [] [] [] { bins := fun _ => [], size := size }
  | malloc {live : List Live} {pages bigs got : List Area} {heap heap' : Heap} {page len p : ℕ}
      (run : SizedRun live pages bigs heap) (hlen : LenFits len) (hfresh : Fresh page len (pages ++ bigs))
      (h : malloc page len heap = some (p, got, heap')) :
      SizedRun (if p = 0 then live else { ptr := p, len := len } :: live)
        (if isSmall len then got ++ pages else pages) (if isSmall len then bigs else got ++ bigs) heap'
  | free {live : List Live} {pages bigs : List Area} {heap heap' : Heap} {b : Live}
      (run : SizedRun live pages bigs heap) (hb : b ∈ live) (h : free b.ptr heap = some heap') :
      SizedRun (live.erase b) pages bigs heap'

def Usable (live : List Live) (frames : List Area) (heap : Heap) (p len : ℕ) : Prop :=
  ∀ x, p ≤ x → x < p + len → Covers frames x ∧ ¬Covers (heap.blocks live ++ heap.chunks) x

structure Sized (live : List Live) (frames : List Area) (heap : Heap) (page len : ℕ) : Prop where
  header : len + wordSize < 2 ^ 32
  round : ¬isSmall len → len + wordSize + (pageSize - 1) < 2 ^ 32
  block : ∃ p got heap', malloc page len heap = some (p, got, heap') ∧
    (p = 0 ∨ Usable live (got ++ frames) heap' p len)

variable {live : List Live} {pages bigs got : List Area} {heap heap' : Heap} {page len p : ℕ}

theorem SizedRun.ok (run : SizedRun live pages bigs heap) : HeapOk live pages bigs heap := by
  induction run with
  | start => exact HeapRun.start.ok
  | malloc _ hlen hfresh h ih =>
    obtain ⟨p, got, heap', hmalloc, hok⟩ := ih.malloc hlen hfresh
    rw [h] at hmalloc
    cases hmalloc
    exact hok
  | free _ hb h ih =>
    obtain ⟨heap', hfree, hok⟩ := ih.free hb
    rw [h] at hfree
    cases hfree
    exact hok

theorem HeapOk.usable (h : HeapOk ({ ptr := p, len := len } :: live) pages bigs heap) :
    Usable live (pages ++ bigs) heap p len := by
  intro x hle hlt
  obtain ⟨hbase, hus, hkind⟩ := h.block _ List.mem_cons_self
  have hpieces : Tidy (heap.block p :: (heap.blocks live ++ heap.chunks)) := h.pieces
  have hhas : (heap.block p).Has x := by
    unfold Area.Has
    unfold Heap.block at hus ⊢
    dsimp only at hbase hus ⊢
    omega
  refine ⟨covers_append.mpr ?_, fun ⟨a, ha, hax⟩ => ((tidy_cons.mp hpieces).2.1 a ha).not_has hhas hax⟩
  rcases hkind with ⟨bin, hbin, hsize, -, -⟩ | ⟨hbig, -⟩
  · have hsmall : heap.small { ptr := p, len := len } = true := by
      apply decide_eq_true
      rw [hsize, binN_chunkSize hbin]
      exact hbin
    refine .inl ((h.cover x).mpr (covers_append.mpr (.inl ⟨heap.block p, ?_, hhas⟩)))
    rw [List.filter_cons_of_pos hsmall]
    exact List.mem_cons_self
  · exact .inr ⟨_, hbig, hhas⟩

theorem LenFits.of_small (hheader : len + wordSize < 2 ^ 32) (hsmall : isSmall len) : LenFits len := by
  unfold isSmall at hsmall
  rw [Nat.mod_eq_of_lt hheader] at hsmall
  have hle := (binN_le hsmall).trans (chunkSize_le hsmall)
  unfold LenFits pageSize at *
  omega

theorem malloc_sized_iff (run : SizedRun live pages bigs heap) (hfresh : Fresh page len (pages ++ bigs)) :
    Sized live (pages ++ bigs) heap page len ↔ LenFits len := by
  constructor
  · intro h
    by_cases hsmall : isSmall len
    · exact .of_small h.header hsmall
    · have hround := h.round hsmall
      unfold LenFits pageSize at *
      omega
  · intro hlen
    obtain ⟨p, got, heap', hmalloc, hok⟩ := run.ok.malloc hlen hfresh
    have hadd : len + wordSize + pageSize ≤ 2 ^ 32 := hlen
    unfold pageSize at hadd
    refine ⟨by omega, fun _ => by unfold pageSize; omega, p, got, heap', hmalloc, ?_⟩
    by_cases hp : p = 0
    · exact .inl hp
    · rw [if_neg hp] at hok
      refine .inr fun x hle hlt => ?_
      obtain ⟨hcov, hfree⟩ := hok.usable x hle hlt
      refine ⟨?_, hfree⟩
      simp only [covers_append] at hcov ⊢
      split_ifs at hcov with hsmall
      · rwa [covers_append, or_assoc] at hcov
      · rwa [covers_append, or_left_comm] at hcov

theorem malloc_sized_ten : Sized [] ([] ++ []) emptyHeap 0x1000 10 := by
  have hfresh : Fresh 0x1000 10 ([] ++ []) := .inr ⟨by decide, by decide, fun f hf => by cases hf⟩
  exact (malloc_sized_iff .start hfresh).mpr (show 10 + wordSize + pageSize ≤ 2 ^ 32 by decide)

theorem wrapped_len_short :
    ((malloc 0x1000 0xffffffff emptyHeap).map fun x => (x.1, x.2.2.block x.1)) = some (0x1004, ⟨0x1000, 32⟩) ∧
    ¬ ∀ live pages bigs heap page len, SizedRun live pages bigs heap → len < 2 ^ 32 →
      Fresh page len (pages ++ bigs) → Sized live (pages ++ bigs) heap page len := by
  refine ⟨by decide, fun h => ?_⟩
  have hfresh : Fresh 0x1000 0xffffffff ([] ++ []) := .inr ⟨by decide, by decide, fun f hf => by cases hf⟩
  have hheader := (h [] [] [] emptyHeap 0x1000 0xffffffff .start (by decide) hfresh).header
  exact absurd hheader (by decide)

theorem short_of_wrap (run : SizedRun live pages bigs heap) (hlen : len < 2 ^ 32) (hpage : page < 2 ^ 32)
    (hwrap : ¬LenFits len) (hfresh : Fresh page len (pages ++ bigs)) (h : malloc page len heap = some (p, got, heap')) :
    p = 0 ∨ (heap'.block p).len < len := by
  unfold LenFits pageSize wordSize at hwrap
  unfold malloc at h
  by_cases hsmall : isSmall len
  · have hheader : 2 ^ 32 ≤ len + wordSize := by
      by_contra hlt
      have hfits := LenFits.of_small (Nat.lt_of_not_le hlt) hsmall
      unfold LenFits pageSize wordSize at hfits
      omega
    have hn : (len + wordSize) % 2 ^ 32 < 4 := by
      unfold wordSize at *
      omega
    have hbin : binN ((len + wordSize) % 2 ^ 32) = 0 := by
      have hall : ∀ n < 4, binN n = 0 := by decide
      exact hall _ hn
    unfold Fresh frameLen at hfresh
    rw [if_pos hsmall] at hfresh
    simp only [hbin, if_pos (Nat.zero_le binMax)] at h
    rcases run.ok.getChunk_ok (Nat.zero_le binMax) hfresh with hnone | ⟨c, got', heap₁, hget, htaken, -⟩
    · rw [hnone] at h
      cases h
      exact .inl rfl
    · rw [hget, Option.map_some, if_neg htaken.pos.ne'] at h
      cases h
      have hfit := htaken.fits
      have hsize := htaken.size
      unfold chunkSize at hfit hsize
      have hptr : (c + wordSize) % 2 ^ 32 - wordSize = c := by
        unfold wordSize
        omega
      unfold Heap.block
      dsimp only
      rw [hptr, hsize]
      unfold wordSize at hheader
      exact .inr (by omega)
  · have hs : ¬binN ((len + wordSize) % 2 ^ 32) ≤ binMax := hsmall
    rw [if_neg hs] at h
    by_cases hpz : page = 0
    · rw [if_pos hpz] at h
      cases h
      exact .inl rfl
    · rw [if_neg hpz] at h
      cases h
      have hbig := binN_gt hs
      have hmod : (len + wordSize) % 2 ^ 32 = len + wordSize := by
        have hmax : wordSize < chunkSize binMax := by decide
        unfold wordSize at *
        omega
      have hround : pageAlign (len + wordSize) = 0 := by
        unfold pageAlign alignUp pageSize wordSize at *
        omega
      obtain ⟨hal, hfit, -⟩ := hfresh.resolve_left hpz
      have hptr : (page + wordSize) % 2 ^ 32 - wordSize = page := by
        unfold pageSize wordSize at *
        omega
      unfold Heap.block
      dsimp only
      rw [hptr, hmod, hround, setSize_size, if_pos rfl]
      exact .inr (by omega)

end Agatha.User
