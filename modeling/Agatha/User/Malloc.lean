import Mathlib.Data.List.Basic
import Mathlib.Data.List.Perm.Lattice
import Mathlib.Logic.Function.Basic
import Mathlib.Tactic.Ring
import Agatha.Library.Cutting

/-!
The heap of `lib/mem/alloc.c`: bins of free chunks whose sizes are powers of two. A bin is the list of
the addresses of its chunks, and `size` the first word at an address. Functions give no result where a
nil pointer is followed.
-/

namespace Agatha.User

open Library.Areas Library.Cutting

def chunkSize (bin : ℕ) : ℕ := 2 ^ (bin + 5)
def binMax : ℕ := 7
def pageSize : ℕ := 0x1000

structure Heap where
  bins : ℕ → List ℕ
  size : ℕ → ℕ

def alignUp (x a : ℕ) : ℕ := (x + (a - 1)) % 2 ^ 32 / a * a

def pageAlign (x : ℕ) : ℕ := alignUp x pageSize

/-- How the walk of `insert_chunk` along a bin ends. -/
inductive Walk
  | put (l : List ℕ)
  | merge (l : List ℕ) (c : ℕ)
  | fault

def walk (bin c : ℕ) : List ℕ → Walk
  | [] => .put [c]
  | p :: next =>
    if bin < binMax ∧ c = alignUp c (chunkSize (bin + 1)) ∧
        (c + chunkSize bin) % 2 ^ 32 = next.headD 0 then
      match next with
      | [] => .fault
      | _ :: next => .merge (p :: next) c
    else if bin < binMax ∧ c ≠ alignUp c (chunkSize (bin + 1)) ∧ (p + chunkSize bin) % 2 ^ 32 = c then
      .merge next p
    else if c < p then .put (c :: p :: next)
    else
      match walk bin c next with
      | .put l => .put (p :: l)
      | .merge l c => .merge (p :: l) c
      | .fault => .fault

def Heap.setBin (heap : Heap) (bin : ℕ) (l : List ℕ) : Heap :=
  { heap with bins := Function.update heap.bins bin l }

def Heap.setSize (heap : Heap) (c size : ℕ) : Heap :=
  { heap with size := Function.update heap.size c size }

/-- `insert_chunk`, which calls itself for the next bin; `fuel` counts the bins up to the last. -/
def insertFrom : ℕ → ℕ → ℕ → Heap → Option Heap
  | 0, _, _, _ => none
  | fuel + 1, bin, c, heap =>
    match walk bin c (heap.bins bin) with
    | .put l => some (heap.setBin bin l)
    | .merge l c => insertFrom fuel (bin + 1) c (heap.setBin bin l)
    | .fault => none

def insertChunk (bin c : ℕ) (heap : Heap) : Option Heap := insertFrom (binMax + 1 - bin) bin c heap

/-- `get_chunk`; `page` is where the frame that it asks for is mapped, which is returned if it is. -/
def getFrom (page : ℕ) : ℕ → ℕ → Heap → Option (ℕ × List Area × Heap)
  | 0, _, _ => none
  | fuel + 1, bin, heap =>
    match heap.bins bin with
    | c :: next => some (c, [], (heap.setBin bin next).setSize c (chunkSize bin))
    | [] =>
      if bin < binMax then
        match getFrom page fuel (bin + 1) heap with
        | none => none
        | some (c, got, heap) =>
          if c = 0 then some (0, got, heap)
          else
            let o := (c + chunkSize bin) % 2 ^ 32
            (insertChunk bin o (heap.setSize o 0)).map fun heap =>
              (c, got, heap.setSize c (chunkSize bin))
      else if page = 0 then some (0, [], heap)
      -- a chunk of the last bin takes the whole page
      else some (page, [⟨page, pageAlign (chunkSize bin)⟩], heap.setSize page (chunkSize bin))

def getChunk (page bin : ℕ) (heap : Heap) : Option (ℕ × List Area × Heap) :=
  getFrom page (binMax + 1 - bin) bin heap

def freeChunk (bin c : ℕ) (heap : Heap) : Option Heap := insertChunk bin c (heap.setSize c 0)

def binN (len : ℕ) : ℕ := ((List.range (binMax + 1)).find? fun bin => ¬chunkSize bin < len).getD (binMax + 1)

def wordSize : ℕ := 4

def malloc (page len : ℕ) (heap : Heap) : Option (ℕ × List Area × Heap) :=
  let bin := binN ((len + wordSize) % 2 ^ 32)
  if bin ≤ binMax then
    (getChunk page bin heap).map fun x => (if x.1 = 0 then 0 else (x.1 + wordSize) % 2 ^ 32, x.2)
  else
    let len := pageAlign ((len + wordSize) % 2 ^ 32)
    if page = 0 then some (0, [], heap)
    else some ((page + wordSize) % 2 ^ 32, [⟨page, len⟩], heap.setSize page len)

def free (p : ℕ) (heap : Heap) : Option Heap :=
  if p = 0 then some heap
  else
    let c := p - wordSize
    let bin := binN (heap.size c)
    if bin ≤ binMax then freeChunk bin c heap else some heap

def binAreas (bin : ℕ) (l : List ℕ) : List Area := l.map fun c => ⟨c, chunkSize bin⟩

def Heap.chunks (heap : Heap) : List Area :=
  (List.range (binMax + 1)).flatMap fun bin => binAreas bin (heap.bins bin)

section Chunks

variable {heap heap' : Heap} {bin c a x : ℕ} {l : List ℕ}

theorem chunkSize_pos : 0 < chunkSize bin := Nat.two_pow_pos _

theorem chunkSize_succ : chunkSize (bin + 1) = chunkSize bin + chunkSize bin := by
  unfold chunkSize
  rw [show bin + 1 + 5 = bin + 5 + 1 by omega, Nat.pow_succ]
  omega

theorem chunkSize_dvd_of_le {bin bin' : ℕ} (h : bin ≤ bin') : chunkSize bin ∣ chunkSize bin' :=
  Nat.pow_dvd_pow 2 (by omega)

theorem chunkSize_dvd (h : bin ≤ binMax) : chunkSize bin ∣ 2 ^ 32 :=
  Nat.pow_dvd_pow 2 (by unfold binMax at h; omega)

theorem chunkSize_le (h : bin ≤ binMax) : chunkSize bin ≤ pageSize :=
  Nat.pow_le_pow_right (by decide) (by unfold binMax at h; omega : bin + 5 ≤ 12)

theorem add_le_of_dvd {m : ℕ} (hx : a ∣ x) (hm : a ∣ m) (h : x < m) : x + a ≤ m := by
  obtain ⟨k, rfl⟩ := hx
  obtain ⟨j, rfl⟩ := hm
  have hkj : k < j := Nat.lt_of_mul_lt_mul_left h
  calc a * k + a = a * (k + 1) := by ring
    _ ≤ a * j := Nat.mul_le_mul_left a hkj

theorem alignUp_eq_self (ha : a ∣ 2 ^ 32) (h0 : 0 < a) (hx : x < 2 ^ 32) : x = alignUp x a ↔ a ∣ x := by
  unfold alignUp
  constructor
  · intro h
    rw [h]
    exact Nat.dvd_mul_left ..
  · intro h
    have hle := add_le_of_dvd h ha hx
    rw [Nat.mod_eq_of_lt (by omega)]
    obtain ⟨k, rfl⟩ := h
    rw [Nat.mul_add_div h0, Nat.div_eq_of_lt (by omega), Nat.add_zero, Nat.mul_comm]

theorem align_next (hb : bin < binMax) (hc : c < 2 ^ 32) :
    c = alignUp c (chunkSize (bin + 1)) ↔ chunkSize (bin + 1) ∣ c :=
  alignUp_eq_self (chunkSize_dvd hb) chunkSize_pos hc

theorem buddy_below (hb : bin < binMax) (hc : chunkSize (bin + 1) ∣ c) (hfit : c < 2 ^ 32) :
    c + chunkSize bin < 2 ^ 32 := by
  have hle := add_le_of_dvd hc (chunkSize_dvd hb) hfit
  have hpos : 0 < chunkSize bin := chunkSize_pos
  rw [chunkSize_succ] at hle
  omega

theorem dvd_of_upper (hd : chunkSize bin ∣ a) (hc : ¬chunkSize (bin + 1) ∣ a + chunkSize bin) :
    chunkSize (bin + 1) ∣ a := by
  obtain ⟨k, rfl⟩ := hd
  rw [chunkSize_succ, ← Nat.mul_two] at hc ⊢
  rcases Nat.even_or_odd' k with ⟨j, rfl | rfl⟩
  · exact ⟨j, by ring⟩
  · exact absurd ⟨j + 1, by ring⟩ hc

theorem walk_cases (hs : l.Pairwise (· < ·)) (hal : ∀ p ∈ l, chunkSize bin ∣ p)
    (hfit : ∀ p ∈ l, p + chunkSize bin ≤ 2 ^ 32) (hcf : c + chunkSize bin ≤ 2 ^ 32)
    (hnew : c ∉ l) :
    (∃ l', walk bin c l = .put l' ∧ l'.Pairwise (· < ·) ∧ (c :: l).Perm l') ∨
    bin < binMax ∧ ∃ l' c', walk bin c l = .merge l' c' ∧ chunkSize (bin + 1) ∣ c' ∧ l'.Sublist l ∧
      (c :: l).Perm (c' :: (c' + chunkSize bin) :: l') := by
  have hpos : 0 < chunkSize bin := chunkSize_pos
  induction l with
  | nil => exact .inl ⟨[c], rfl, List.pairwise_singleton .., List.Perm.refl _⟩
  | cons p next ih =>
    obtain ⟨hp, hnext⟩ := List.pairwise_cons.mp hs
    have hpfit := hfit p List.mem_cons_self
    unfold walk
    split_ifs with hlow hup hlt
    · right
      obtain ⟨hbin, halign, hend⟩ := hlow
      have hdvd := (align_next hbin (by omega)).mp halign
      have hbelow := buddy_below hbin hdvd (by omega)
      rw [Nat.mod_eq_of_lt hbelow] at hend
      cases next with
      | nil =>
        rw [List.headD_nil] at hend
        omega
      | cons n next =>
        rw [List.headD_cons] at hend
        subst hend
        refine ⟨hbin, p :: next, c, rfl, hdvd, (List.sublist_cons_self _ _).cons_cons _, ?_⟩
        exact (List.Perm.swap _ _ _).cons _
    · right
      obtain ⟨hbin, halign, hend⟩ := hup
      have hdvd : ¬chunkSize (bin + 1) ∣ c := fun h => halign ((align_next hbin (by omega)).mpr h)
      have hne : c ≠ 0 := by
        rintro rfl
        exact hdvd (Nat.dvd_zero _)
      have hend' : p + chunkSize bin = c := by
        by_cases htop : p + chunkSize bin < 2 ^ 32
        · rwa [Nat.mod_eq_of_lt htop] at hend
        · rw [show p + chunkSize bin = 2 ^ 32 by omega, Nat.mod_self] at hend
          exact absurd hend.symm hne
      subst hend'
      refine ⟨hbin, next, p, rfl, dvd_of_upper (hal p List.mem_cons_self) hdvd,
        List.sublist_cons_self _ _, List.Perm.swap _ _ _⟩
    · left
      refine ⟨_, rfl, List.pairwise_cons.mpr ⟨fun q hq => ?_, hs⟩, List.Perm.refl _⟩
      rcases List.mem_cons.mp hq with rfl | hq
      · exact hlt
      · exact Nat.lt_trans hlt (hp q hq)
    · have hpc : p < c := by
        have hne : c ≠ p := fun he => hnew (he ▸ List.mem_cons_self)
        omega
      rcases ih hnext (fun q hq => hal q (List.mem_cons_of_mem _ hq))
        (fun q hq => hfit q (List.mem_cons_of_mem _ hq)) (fun h => hnew (List.mem_cons_of_mem _ h)) with
        ⟨l', hw, hsort, hperm⟩ | ⟨hbin, l', c', hw, hdvd, hsub, hperm⟩
      · left
        rw [hw]
        refine ⟨_, rfl, List.pairwise_cons.mpr ⟨fun q hq => ?_, hsort⟩,
          (List.Perm.swap _ _ _).trans (hperm.cons p)⟩
        rcases List.mem_cons.mp (hperm.mem_iff.mpr hq) with rfl | hq
        · exact hpc
        · exact hp q hq
      · right
        rw [hw]
        refine ⟨hbin, _, _, rfl, hdvd, hsub.cons_cons p, ?_⟩
        calc (c :: p :: next).Perm (p :: c :: next) := List.Perm.swap _ _ _
          _ |>.Perm (p :: c' :: (c' + chunkSize bin) :: l') := hperm.cons p
          _ |>.Perm (c' :: p :: (c' + chunkSize bin) :: l') := List.Perm.swap _ _ _
          _ |>.Perm (c' :: (c' + chunkSize bin) :: p :: l') := (List.Perm.swap _ _ _).cons c'

theorem setBin_bins {b : ℕ} : (heap.setBin bin l).bins b = if b = bin then l else heap.bins b :=
  Function.update_apply ..

theorem setSize_size {n : ℕ} : (heap.setSize c n).size a = if a = c then n else heap.size a :=
  Function.update_apply ..

theorem chunks_setBin (heap : Heap) (hb : bin ≤ binMax) :
    ∃ rest, ∀ l, (heap.setBin bin l).chunks.Perm (binAreas bin l ++ rest) := by
  have hmem : bin ∈ List.range (binMax + 1) := List.mem_range.mpr (by omega)
  have hnd : (List.range (binMax + 1)).Nodup := List.nodup_range
  refine ⟨((List.range (binMax + 1)).erase bin).flatMap fun b => binAreas b (heap.bins b), fun l => ?_⟩
  unfold Heap.chunks
  refine ((List.perm_cons_erase hmem).flatMap_right _).trans ?_
  rw [List.flatMap_cons]
  have hself : (heap.setBin bin l).bins bin = l := setBin_bins.trans (if_pos rfl)
  rw [hself]
  apply List.Perm.append_left
  rw [List.flatMap_congr fun b hbm => ?_]
  have hne : b ≠ bin := fun he => hnd.not_mem_erase (he ▸ hbm)
  rw [setBin_bins, if_neg hne]

theorem setBin_self : heap.setBin bin (heap.bins bin) = heap := by
  unfold Heap.setBin
  rw [Function.update_eq_self]

structure BinsOk (heap : Heap) : Prop where
  sorted : ∀ bin, (heap.bins bin).Pairwise (· < ·)
  aligned : ∀ bin, ∀ c ∈ heap.bins bin, chunkSize bin ∣ c
  pos : ∀ bin, ∀ c ∈ heap.bins bin, 0 < c
  fits : ∀ bin, ∀ c ∈ heap.bins bin, c + chunkSize bin ≤ 2 ^ 32

theorem BinsOk.setBin (h : BinsOk heap) (hs : l.Pairwise (· < ·))
    (hl : ∀ c ∈ l, chunkSize bin ∣ c ∧ 0 < c ∧ c + chunkSize bin ≤ 2 ^ 32) :
    BinsOk (heap.setBin bin l) := by
  have hbins : ∀ b, (heap.setBin bin l).bins b = l ∧ b = bin ∨ (heap.setBin bin l).bins b = heap.bins b := by
    intro b
    rw [setBin_bins]
    split_ifs with he
    · exact .inl ⟨rfl, he⟩
    · exact .inr rfl
  refine ⟨fun b => ?_, fun b => ?_, fun b => ?_, fun b => ?_⟩ <;>
    rcases hbins b with ⟨he, rfl⟩ | he <;> rw [he]
  · exact hs
  · exact h.sorted b
  · exact fun c hc => (hl c hc).1
  · exact h.aligned b
  · exact fun c hc => (hl c hc).2.1
  · exact h.pos b
  · exact fun c hc => (hl c hc).2.2
  · exact h.fits b

theorem not_mem_of_tidy {bs : List ℕ} (h : Tidy (⟨c, chunkSize bin⟩ :: (binAreas bin bs ++ l'))) :
    c ∉ bs := by
  intro hc
  have hd := (tidy_cons.mp h).2.1 ⟨c, chunkSize bin⟩
    (List.mem_append_left _ (List.mem_map.mpr ⟨c, hc, rfl⟩))
  have hpos : 0 < chunkSize bin := chunkSize_pos
  unfold Area.Disjoint Apart at hd
  dsimp only at hd
  omega

theorem insertFrom_ok {fuel : ℕ} (hfuel : fuel + bin = binMax + 1) (hb : bin ≤ binMax) (h : BinsOk heap)
    (hc : chunkSize bin ∣ c) (hpos : 0 < c) (hfit : c + chunkSize bin ≤ 2 ^ 32)
    (ht : Tidy (⟨c, chunkSize bin⟩ :: heap.chunks)) :
    ∃ heap', insertFrom fuel bin c heap = some heap' ∧ BinsOk heap' ∧ heap'.size = heap.size ∧
      Recut (⟨c, chunkSize bin⟩ :: heap.chunks) heap'.chunks := by
  induction fuel generalizing bin c heap with
  | zero => omega
  | succ fuel ih =>
    obtain ⟨rest, hrest⟩ := chunks_setBin heap hb
    have hself := hrest (heap.bins bin)
    rw [setBin_self] at hself
    have hnew : c ∉ heap.bins bin := not_mem_of_tidy (ht.perm (hself.cons _))
    have hwalk := walk_cases (h.sorted bin) (h.aligned bin) (h.fits bin) hfit hnew
    unfold insertFrom
    rcases hwalk with ⟨l', hw, hsort, hperm⟩ | ⟨hbin, l', c', hw, hdvd, hsub, hperm⟩
    · rw [hw]
      have hl : ∀ x ∈ l', chunkSize bin ∣ x ∧ 0 < x ∧ x + chunkSize bin ≤ 2 ^ 32 := by
        intro x hx
        rcases List.mem_cons.mp (hperm.mem_iff.mpr hx) with rfl | hx
        · exact ⟨hc, hpos, hfit⟩
        · exact ⟨h.aligned bin x hx, h.pos bin x hx, h.fits bin x hx⟩
      refine ⟨_, rfl, h.setBin hsort hl, rfl, Recut.of_perm ?_⟩
      calc (⟨c, chunkSize bin⟩ :: heap.chunks).Perm (binAreas bin (c :: heap.bins bin) ++ rest) :=
          hself.cons _
        _ |>.Perm (binAreas bin l' ++ rest) := (hperm.map _).append_right rest
        _ |>.Perm (heap.setBin bin l').chunks := (hrest l').symm
    · rw [hw]
      have hmem : ∀ x, x = c' ∨ x = c' + chunkSize bin ∨ x ∈ l' →
          0 < x ∧ x + chunkSize bin ≤ 2 ^ 32 := by
        intro x hx
        have hx' : x ∈ c' :: (c' + chunkSize bin) :: l' := by simpa using hx
        rcases List.mem_cons.mp (hperm.mem_iff.mpr hx') with rfl | hx
        · exact ⟨hpos, hfit⟩
        · exact ⟨h.pos bin x hx, h.fits bin x hx⟩
      have hl : ∀ x ∈ l', chunkSize bin ∣ x ∧ 0 < x ∧ x + chunkSize bin ≤ 2 ^ 32 :=
        fun x hx => ⟨h.aligned bin x (hsub.subset hx), hmem x (.inr (.inr hx))⟩
      have hok := h.setBin ((h.sorted bin).sublist hsub) hl
      have hfit' : c' + chunkSize (bin + 1) ≤ 2 ^ 32 := by
        rw [chunkSize_succ, ← Nat.add_assoc]
        exact (hmem _ (.inr (.inl rfl))).2
      have hrecut : Recut (⟨c, chunkSize bin⟩ :: heap.chunks)
          (⟨c', chunkSize (bin + 1)⟩ :: (heap.setBin bin l').chunks) := by
        rw [chunkSize_succ]
        refine (Recut.of_perm ?_).trans Recut.join
        calc (⟨c, chunkSize bin⟩ :: heap.chunks).Perm (binAreas bin (c :: heap.bins bin) ++ rest) :=
            hself.cons _
          _ |>.Perm (binAreas bin (c' :: (c' + chunkSize bin) :: l') ++ rest) :=
            (hperm.map _).append_right rest
          _ |>.Perm (⟨c', chunkSize bin⟩ :: ⟨c' + chunkSize bin, chunkSize bin⟩ ::
              (heap.setBin bin l').chunks) := ((hrest l').symm.cons _).cons _
      have ht' := hrecut.tidy [] (by rwa [List.append_nil])
      rw [List.append_nil] at ht'
      obtain ⟨heap', hins, hok', hsize, hrecut'⟩ := ih (by omega) (by omega) hok hdvd
        (hmem c' (.inl rfl)).1 hfit' ht'
      exact ⟨heap', hins, hok', hsize.trans rfl, hrecut.trans hrecut'⟩

theorem insertChunk_ok (hb : bin ≤ binMax) (h : BinsOk heap) (hc : chunkSize bin ∣ c) (hpos : 0 < c)
    (hfit : c + chunkSize bin ≤ 2 ^ 32) (ht : Tidy (⟨c, chunkSize bin⟩ :: heap.chunks)) :
    ∃ heap', insertChunk bin c heap = some heap' ∧ BinsOk heap' ∧ heap'.size = heap.size ∧
      Recut (⟨c, chunkSize bin⟩ :: heap.chunks) heap'.chunks :=
  insertFrom_ok (by omega) hb h hc hpos hfit ht

theorem setSize_chunks {n : ℕ} : (heap.setSize c n).chunks = heap.chunks := rfl

theorem BinsOk.setSize {n : ℕ} (h : BinsOk heap) : BinsOk (heap.setSize c n) :=
  ⟨h.sorted, h.aligned, h.pos, h.fits⟩

structure Taken (bin c : ℕ) (got : List Area) (heap heap' : Heap) : Prop where
  ok : BinsOk heap'
  aligned : chunkSize bin ∣ c
  pos : 0 < c
  fits : c + chunkSize bin ≤ 2 ^ 32
  recut : Recut (got ++ heap.chunks) (⟨c, chunkSize bin⟩ :: heap'.chunks)
  size : heap'.size c = chunkSize bin
  frame : ∀ x, ¬Covers (got ++ heap.chunks) x → heap'.size x = heap.size x

def PageOk (page : ℕ) (l : List Area) : Prop :=
  page = 0 ∨ pageSize ∣ page ∧ page + pageSize ≤ 2 ^ 32 ∧ Tidy (⟨page, pageSize⟩ :: l)

theorem Taken.first {next : List ℕ} (h : BinsOk heap) (hb : bin ≤ binMax) (hbins : heap.bins bin = c :: next) :
    Taken bin c [] heap ((heap.setBin bin next).setSize c (chunkSize bin)) := by
  have hmem : ∀ x, x ∈ c :: next → x ∈ heap.bins bin := fun x hx => hbins ▸ hx
  have hcm := hmem c List.mem_cons_self
  have hsort := h.sorted bin
  rw [hbins] at hsort
  obtain ⟨rest, hrest⟩ := chunks_setBin heap hb
  have hself := hrest (heap.bins bin)
  rw [setBin_self, hbins] at hself
  have hperm : heap.chunks.Perm (⟨c, chunkSize bin⟩ :: (heap.setBin bin next).chunks) :=
    hself.trans ((hrest next).symm.cons _)
  refine ⟨?_, h.aligned bin c hcm, h.pos bin c hcm, h.fits bin c hcm, Recut.of_perm hperm, ?_, ?_⟩
  · apply BinsOk.setSize
    apply h.setBin hsort.of_cons
    intro x hx
    have hx' := hmem x (List.mem_cons_of_mem _ hx)
    exact ⟨h.aligned bin x hx', h.pos bin x hx', h.fits bin x hx'⟩
  · rw [setSize_size, if_pos rfl]
  · intro x hx
    rw [setSize_size, if_neg]
    · rfl
    · rintro rfl
      refine hx ⟨⟨x, chunkSize bin⟩, hperm.mem_iff.mpr List.mem_cons_self, Nat.le_refl _, ?_⟩
      exact Nat.lt_add_of_pos_right chunkSize_pos

theorem Taken.split {got : List Area} (h : Taken (bin + 1) c got heap heap') (hb : bin ≤ binMax)
    (ht : Tidy (got ++ heap.chunks)) : c + chunkSize bin < 2 ^ 32 ∧ ∃ heap'',
    insertChunk bin (c + chunkSize bin) (heap'.setSize (c + chunkSize bin) 0) = some heap'' ∧
      Taken bin c got heap (heap''.setSize c (chunkSize bin)) := by
  have hpos : 0 < chunkSize bin := chunkSize_pos
  have hfit := h.fits
  have hdvd := h.aligned
  have hrecut := h.recut
  rw [chunkSize_succ] at hfit hdvd hrecut
  have hdvd' : chunkSize bin ∣ c := (Nat.dvd_add_self_left.mpr dvd_rfl).trans hdvd
  have hsplit := hrecut.trans (Recut.split hpos hpos)
  have ht₁ := hsplit.tidy [] (by rwa [List.append_nil])
  rw [List.append_nil] at ht₁
  obtain ⟨heap₂, hins, hok₂, hsize₂, hrecut₂⟩ := insertChunk_ok hb
    (h.ok.setSize (c := c + chunkSize bin) (n := 0)) (Nat.dvd_add hdvd' dvd_rfl) (by omega)
    (by omega) (tidy_cons.mp ht₁).2.2
  have hcover : ∀ x, c ≤ x → x < c + (chunkSize bin + chunkSize bin) →
      Covers (got ++ heap.chunks) x := fun x h1 h2 =>
    (hrecut.covers x).mp ⟨_, List.mem_cons_self, h1, h2⟩
  refine ⟨by omega, heap₂, hins, hok₂.setSize, hdvd', h.pos, by omega, hsplit.trans hrecut₂.cons, ?_, ?_⟩
  · rw [setSize_size, if_pos rfl]
  · intro x hx
    have hxc : x ≠ c := by
      rintro rfl
      exact hx (hcover x (Nat.le_refl _) (by omega))
    have hxo : x ≠ c + chunkSize bin := by
      rintro rfl
      exact hx (hcover _ (by omega) (by omega))
    rw [setSize_size, if_neg hxc, hsize₂, setSize_size, if_neg hxo]
    exact h.frame x hx

theorem Taken.page {page : ℕ} (h : BinsOk heap) (hal : pageSize ∣ page) (hpos : 0 < page)
    (hfit : page + pageSize ≤ 2 ^ 32) (hsize : chunkSize bin = pageSize) :
    Taken bin page [⟨page, pageSize⟩] heap (heap.setSize page pageSize) := by
  refine ⟨h.setSize, by rwa [hsize], hpos, by rwa [hsize], ?_, ?_, ?_⟩
  · rw [hsize]
    exact Recut.refl
  · rw [setSize_size, if_pos rfl, hsize]
  · intro x hx
    rw [setSize_size, if_neg]
    rintro rfl
    exact hx ⟨⟨x, pageSize⟩, List.mem_cons_self, Nat.le_refl _,
      Nat.lt_add_of_pos_right (show 0 < pageSize by decide)⟩

theorem getFrom_ok {fuel page : ℕ} (hfuel : fuel + bin = binMax + 1) (hb : bin ≤ binMax) (h : BinsOk heap)
    (ht : Tidy heap.chunks) (hpage : PageOk page heap.chunks) :
    getFrom page fuel bin heap = some (0, [], heap) ∨
    ∃ c got heap', getFrom page fuel bin heap = some (c, got, heap') ∧ Taken bin c got heap heap' ∧
      (got = [] ∨ page ≠ 0 ∧ got = [⟨page, pageSize⟩]) := by
  induction fuel generalizing bin with
  | zero => omega
  | succ fuel ih =>
    unfold getFrom
    split
    · rename_i c next hbins
      exact .inr ⟨c, [], _, rfl, .first h hb hbins, .inl rfl⟩
    · split_ifs with hbin hpz
      · rcases ih (show fuel + (bin + 1) = binMax + 1 by omega) (by omega) with
          hnone | ⟨c, got, heap₁, hget, htaken, hgot⟩
        · left
          rw [hnone]
          rfl
        · right
          have htgot : Tidy (got ++ heap.chunks) := by
            rcases hgot with rfl | ⟨hpz, rfl⟩
            · exact ht
            · exact (hpage.resolve_left hpz).2.2
          obtain ⟨hlow, heap₂, hins, hsplit⟩ := htaken.split hb htgot
          rw [hget]
          dsimp only
          rw [if_neg htaken.pos.ne', Nat.mod_eq_of_lt hlow, hins]
          exact ⟨c, got, _, rfl, hsplit, hgot⟩
      · exact .inl rfl
      · right
        obtain ⟨hal, hfit, htp⟩ := hpage.resolve_left hpz
        have hlast : bin = binMax := by omega
        have hsize : chunkSize bin = pageSize := by
          rw [hlast]
          rfl
        have hlen : pageAlign (chunkSize bin) = pageSize := by
          rw [hsize]
          rfl
        rw [hlen, hsize]
        exact ⟨page, _, _, rfl, .page h hal (by omega) hfit hsize, .inr ⟨hpz, rfl⟩⟩

end Chunks

end Agatha.User
