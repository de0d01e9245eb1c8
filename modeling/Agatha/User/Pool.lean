import Mathlib.Data.List.Range
import Mathlib.Order.Interval.Finset.Nat
import Agatha.Library.Bytes
import Agatha.Library.Cutting
import Agatha.Library.LinkedList

/-!
The object pool of `lib/pool/pool.c`: objects of one size are cut out of frames, and those that are free
are linked through their headers.
-/

namespace Agatha.User.ObjectPool

open Library Library.Areas Library.Cutting Library.LinkedList

/-- `sizeof(struct pool_obj)`: a pointer and a flag, before a body that is aligned to 4. -/
def objHead : ℕ := 8
def frameHead : ℕ := 12

structure Pool where
  frames : ℕ
  objs : ℕ
  nFree : ℕ
  objSize : ℕ

def poolInit (objSize : ℕ) : Pool :=
  { frames := 0, objs := 0, nFree := 0, objSize := (objHead + (objSize + 3) % 2 ^ 32 / 4 * 4) % 2 ^ 32 }

def setInUse (mem : Bytes) (o : ℕ) (inUse : Bool) : Bytes :=
  Function.update mem (o + 4) (if inUse then 1 else 0)

/-- The loop of `pool_load`, for the first objects of a frame's body. -/
def loadObjs (body : ℕ) : ℕ → Pool → Bytes → Pool × Bytes
  | 0, p, mem => (p, mem)
  | i + 1, p, mem =>
    let s := loadObjs body i p mem
    let o := (body + p.objSize * i) % 2 ^ 32
    ({ s.1 with objs := o }, (setInUse s.2 o false).put32 o s.1.objs)

def poolLoad (p : Pool) (a len : ℕ) (mem : Bytes) : Bool × Pool × Bytes :=
  if len < (p.objSize + frameHead) % 2 ^ 32 then (false, p, mem)
  else
    let nobj := (len + (2 ^ 32 - frameHead)) % 2 ^ 32 / p.objSize
    let s := loadObjs (a + frameHead) nobj p ((mem.put32 (a + 4) len).put32 (a + 8) nobj)
    (true, { s.1 with nFree := (p.nFree + nobj) % 2 ^ 32, frames := a }, s.2.put32 a p.frames)

def poolAlloc (p : Pool) (mem : Bytes) : ℕ × Pool × Bytes :=
  if p.objs = 0 then (0, p, mem)
  else
    (p.objs + objHead, { p with objs := mem.get32 p.objs, nFree := (p.nFree + (2 ^ 32 - 1)) % 2 ^ 32 },
      setInUse mem p.objs true)

def poolFree (p : Pool) (v : ℕ) (mem : Bytes) : Pool × Bytes :=
  let o := v - objHead
  ({ p with objs := o, nFree := (p.nFree + 1) % 2 ^ 32 }, (setInUse mem o false).put32 o p.objs)

def ptr (v : ℕ) : Option ℕ := if v = 0 then none else some v

def link (mem : Bytes) (o : ℕ) : Option ℕ := ptr (mem.get32 o)

/-- Runs of the calls on one pool of objects of the size `size`, with the bodies that are allocated and
the frames that are loaded. Between the calls the bodies and what is outside of the frames may change. -/
inductive PoolRun (size : ℕ) : List ℕ → List Area → Pool → Bytes → Prop
  | init (mem : Bytes) : PoolRun size [] [] (poolInit size) mem
  | load {live : List ℕ} {frames : List Area} {p p' : Pool} {mem mem' : Bytes} {a len : ℕ} {ok : Bool}
      (run : PoolRun size live frames p mem) (hfit : a + len ≤ 2 ^ 32)
      (hnew : ∀ f ∈ frames, Area.Disjoint ⟨a, len⟩ f) (h : poolLoad p a len mem = (ok, p', mem')) :
      PoolRun size live (if ok then ⟨a, len⟩ :: frames else frames) p' mem'
  | alloc {live : List ℕ} {frames : List Area} {p p' : Pool} {mem mem' : Bytes} {v : ℕ}
      (run : PoolRun size live frames p mem) (h : poolAlloc p mem = (v, p', mem')) :
      PoolRun size (if v = 0 then live else v :: live) frames p' mem'
  | free {live : List ℕ} {frames : List Area} {p p' : Pool} {mem mem' : Bytes} {v : ℕ}
      (run : PoolRun size live frames p mem) (hv : v ∈ live) (h : poolFree p v mem = (p', mem')) :
      PoolRun size (live.erase v) frames p' mem'
  | write {live : List ℕ} {frames : List Area} {p : Pool} {mem mem' : Bytes}
      (run : PoolRun size live frames p mem)
      (h : ∀ x, Covers frames x → (∀ v ∈ live, ¬Area.Has ⟨v, size⟩ x) → mem' x = mem x) :
      PoolRun size live frames p mem'

structure PoolIntegrity (size : ℕ) (live : List ℕ) (frames : List Area) (p : Pool) (mem : Bytes) : Prop where
  distinct : live.Nodup
  disjoint : live.Pairwise fun v w => Apart v size w size
  inside : ∀ v ∈ live, ∃ f ∈ frames, f.start ≤ v ∧ v + size ≤ f.start + f.len
  count : ∃ free, Chain (link mem) (ptr p.objs) free ∧ p.nFree = free.length
  nil : (poolAlloc p mem).1 = 0 ↔ p.nFree = 0

structure Slots (n : ℕ) (frames : List Area) (l : List ℕ) : Prop where
  tidy : Tidy (l.map fun o => ⟨o, n⟩)
  inside : ∀ o ∈ l, ∃ f ∈ frames, f.start + frameHead ≤ o ∧ o + n ≤ f.start + f.len

structure PoolOk (size : ℕ) (free used : List ℕ) (frames : List Area) (p : Pool) (mem : Bytes) : Prop where
  size : p.objSize = objHead + (size + 3) / 4 * 4
  fits : ∀ f ∈ frames, f.start + f.len ≤ 2 ^ 32
  slots : Slots p.objSize frames (free ++ used)
  chain : Chain (link mem) (ptr p.objs) free
  count : p.nFree = free.length

def frameObjs (body n : ℕ) : ℕ → List ℕ
  | 0 => []
  | i + 1 => (body + n * i) :: frameObjs body n i

section Slots

variable {n : ℕ} {frames : List Area} {l l' : List ℕ} {o x : ℕ}

theorem Slots.perm (h : Slots n frames l) (hp : l.Perm l') : Slots n frames l' :=
  ⟨h.tidy.perm (hp.map _), fun o ho => h.inside o (hp.mem_iff.mpr ho)⟩

theorem Slots.nodup (h : Slots n frames l) : l.Nodup := by
  have hd := List.pairwise_map.mp h.tidy.disjoint
  refine List.Pairwise.imp_of_mem (fun {a b} ha _ hab he => ?_) hd
  have hpos := h.tidy.pos _ (List.mem_map_of_mem ha)
  unfold Area.Disjoint Apart at hab
  dsimp only at hab hpos
  omega

theorem Slots.length_lt (h : Slots n frames l) (hf : ∀ f ∈ frames, f.start + f.len ≤ 2 ^ 32) :
    l.length < 2 ^ 32 := by
  have hsub : l.toFinset ⊆ Finset.Ico frameHead (2 ^ 32) := by
    intro o ho
    have hmem := List.mem_toFinset.mp ho
    obtain ⟨f, hfm, h1, h2⟩ := h.inside o hmem
    have hpos := h.tidy.pos _ (List.mem_map_of_mem hmem)
    have hfit := hf f hfm
    dsimp only at hpos
    exact Finset.mem_Ico.mpr ⟨by omega, by omega⟩
  have hcard := Finset.card_le_card hsub
  rw [List.toFinset_card_of_nodup h.nodup, Nat.card_Ico] at hcard
  unfold frameHead at hcard
  omega

theorem mem_frameObjs {body i : ℕ} : o ∈ frameObjs body n i ↔ ∃ j < i, o = body + n * j := by
  induction i with
  | zero => simp [frameObjs]
  | succ i ih =>
    unfold frameObjs
    rw [List.mem_cons, ih]
    constructor
    · rintro (rfl | ⟨j, hj, rfl⟩)
      · exact ⟨i, Nat.lt_succ_self i, rfl⟩
      · exact ⟨j, Nat.lt_succ_of_lt hj, rfl⟩
    · rintro ⟨j, hj, rfl⟩
      rcases Nat.lt_succ_iff_lt_or_eq.mp hj with hj | rfl
      · exact .inr ⟨j, hj, rfl⟩
      · exact .inl rfl

@[simp] theorem length_frameObjs {body i : ℕ} : (frameObjs body n i).length = i := by
  induction i with
  | zero => rfl
  | succ i ih => simp [frameObjs, ih]

theorem frameObjs_tidy {body i : ℕ} (hn : 0 < n) : Tidy ((frameObjs body n i).map fun o => ⟨o, n⟩) := by
  induction i with
  | zero => exact ⟨List.Pairwise.nil, fun _ ha => by cases ha⟩
  | succ i ih =>
    unfold frameObjs
    rw [List.map_cons, tidy_cons]
    refine ⟨hn, fun y hy => ?_, ih⟩
    obtain ⟨o, ho, rfl⟩ := List.mem_map.mp hy
    obtain ⟨j, hj, rfl⟩ := mem_frameObjs.mp ho
    have hle : n * (j + 1) ≤ n * i := Nat.mul_le_mul_left n hj
    rw [Nat.mul_succ] at hle
    unfold Area.Disjoint Apart
    dsimp only
    omega

theorem Slots.load {a len i : ℕ} (h : Slots n frames l) (hn : 0 < n)
    (hnew : ∀ f ∈ frames, Area.Disjoint ⟨a, len⟩ f) (hfit : frameHead + n * i ≤ len) :
    Slots n (⟨a, len⟩ :: frames) (frameObjs (a + frameHead) n i ++ l) := by
  have hin : ∀ o ∈ frameObjs (a + frameHead) n i, a + frameHead ≤ o ∧ o + n ≤ a + len := by
    intro o ho
    obtain ⟨j, hj, rfl⟩ := mem_frameObjs.mp ho
    have hle : n * (j + 1) ≤ n * i := Nat.mul_le_mul_left n hj
    rw [Nat.mul_succ] at hle
    omega
  refine ⟨?_, fun o ho => ?_⟩
  · rw [List.map_append]
    have hnewTidy : Tidy ((frameObjs (a + frameHead) n i).map fun o => ⟨o, n⟩) := frameObjs_tidy hn
    refine ⟨List.pairwise_append.mpr ⟨hnewTidy.disjoint, h.tidy.disjoint, ?_⟩, fun x hx => ?_⟩
    · intro x hx y hy
      obtain ⟨o, ho, rfl⟩ := List.mem_map.mp hx
      obtain ⟨o', ho', rfl⟩ := List.mem_map.mp hy
      obtain ⟨f, hf, h1, h2⟩ := h.inside o' ho'
      obtain ⟨h3, h4⟩ := hin o ho
      have hd := hnew f hf
      unfold Area.Disjoint Apart at hd ⊢
      dsimp only at hd ⊢
      omega
    · obtain hx | hx := List.mem_append.mp hx
      · exact hnewTidy.pos x hx
      · exact h.tidy.pos x hx
  · obtain ho | ho := List.mem_append.mp ho
    · exact ⟨_, List.mem_cons_self, hin o ho⟩
    · obtain ⟨f, hf, hof⟩ := h.inside o ho
      exact ⟨f, List.mem_cons_of_mem _ hf, hof⟩

end Slots

section Memory

variable {mem mem' : Bytes} {o o' v x body i : ℕ} {inUse : Bool} {p : Pool} {free : List ℕ}

theorem ptr_pos (h : v ≠ 0) : ptr v = some v := if_neg h

theorem link_congr (h : Bytes.Agree mem mem' o 4) : link mem' o = link mem o := by
  unfold link
  rw [Bytes.get32_congr h]

theorem setInUse_ne (h : x ≠ o + 4) : setInUse mem o inUse x = mem x := Function.update_of_ne h ..

theorem setInUse_agree (h : o' + 4 ≤ o + 4 ∨ o + 5 ≤ o') : Bytes.Agree mem (setInUse mem o inUse) o' 4 := by
  intro x h1 h2
  exact (setInUse_ne (by omega)).symm

theorem header_agree (h : o' + 4 ≤ o ∨ o + 5 ≤ o') :
    Bytes.Agree mem ((setInUse mem o inUse).put32 o v) o' 4 := by
  intro x h1 h2
  rw [Bytes.put32_outside x (by omega), setInUse_ne (by omega)]

theorem link_header (hv : v < 2 ^ 32) : link ((setInUse mem o inUse).put32 o v) o = ptr v := by
  unfold link
  rw [Bytes.get32_put32_same, Nat.mod_eq_of_lt hv]

theorem push_chain (h : Chain (link mem) (ptr v) free) (ho : o ≠ 0) (hv : v < 2 ^ 32)
    (hfree : ∀ o' ∈ free, o' + 4 ≤ o ∨ o + 5 ≤ o') :
    Chain (link ((setInUse mem o inUse).put32 o v)) (ptr o) (o :: free) := by
  refine ⟨ptr_pos ho, ?_⟩
  rw [link_header hv]
  exact h.congr fun o' ho' => link_congr (header_agree (hfree o' ho'))

theorem loadObjs_fields (body i : ℕ) (p : Pool) (mem : Bytes) : (loadObjs body i p mem).1.objSize = p.objSize ∧
    (loadObjs body i p mem).1.nFree = p.nFree ∧ (loadObjs body i p mem).1.frames = p.frames := by
  induction i with
  | zero => exact ⟨rfl, rfl, rfl⟩
  | succ i ih => exact ih

theorem loadObjs_chain (body i : ℕ) (hn : objHead ≤ p.objSize) (hbody : 0 < body)
    (hfit : body + p.objSize * i ≤ 2 ^ 32) (hobjs : p.objs < 2 ^ 32)
    (hfree : ∀ o ∈ free, o + 4 ≤ body ∨ body + p.objSize * i ≤ o) (h : Chain (link mem) (ptr p.objs) free) :
    (loadObjs body i p mem).1.objs < 2 ^ 32 ∧
      Chain (link (loadObjs body i p mem).2) (ptr (loadObjs body i p mem).1.objs)
        (frameObjs body p.objSize i ++ free) := by
  induction i with
  | zero => exact ⟨hobjs, h⟩
  | succ i ih =>
    rw [Nat.mul_succ] at hfit hfree
    unfold objHead at hn
    have ho : (body + p.objSize * i) % 2 ^ 32 = body + p.objSize * i := Nat.mod_eq_of_lt (by omega)
    obtain ⟨hlt, hchain⟩ := ih (by omega) fun o hm => (hfree o hm).imp id (by omega)
    unfold loadObjs frameObjs
    rw [ho]
    refine ⟨by dsimp only; omega, push_chain hchain (by omega) hlt fun o hm => ?_⟩
    obtain hm | hm := List.mem_append.mp hm
    · obtain ⟨j, hj, rfl⟩ := mem_frameObjs.mp hm
      have hle : p.objSize * (j + 1) ≤ p.objSize * i := Nat.mul_le_mul_left _ hj
      rw [Nat.mul_succ] at hle
      omega
    · obtain h1 | h2 := hfree o hm
      · exact .inl (by omega)
      · exact .inr (by omega)

end Memory

section Steps

variable {size a len v : ℕ} {free used live : List ℕ} {frames : List Area} {p p' : Pool} {mem mem' : Bytes}
  {answer : Bool}

theorem PoolOk.start (hsize : size + 24 ≤ 2 ^ 32) : PoolOk size [] [] [] (poolInit size) mem := by
  have hround : (size + 3) % 2 ^ 32 = size + 3 := Nat.mod_eq_of_lt (by omega)
  have hslots : Slots (poolInit size).objSize [] [] :=
    ⟨⟨List.Pairwise.nil, fun _ ha => by cases ha⟩, fun _ ho => by cases ho⟩
  refine ⟨?_, fun _ hf => (by cases hf), hslots, rfl, rfl⟩
  unfold poolInit objHead
  dsimp only
  rw [hround, Nat.mod_eq_of_lt (by omega)]

theorem PoolOk.objs_lt (h : PoolOk size free used frames p mem) : p.objs < 2 ^ 32 := by
  cases free with
  | nil =>
    have hz : p.objs = 0 := by
      have hnone := h.chain
      unfold ptr at hnone
      by_contra hne
      rw [if_neg hne] at hnone
      cases hnone
    omega
  | cons o free =>
    obtain ⟨ho, -⟩ := h.chain
    obtain ⟨f, hf, h1, h2⟩ := h.slots.inside o List.mem_cons_self
    have hfit := h.fits f hf
    have hsize := h.size
    unfold ptr at ho
    unfold objHead at hsize
    split_ifs at ho
    cases ho
    omega

theorem PoolOk.loaded (hsize : size + 24 ≤ 2 ^ 32) (h : PoolOk size free used frames p mem)
    (hfit : a + len ≤ 2 ^ 32) (hnew : ∀ f ∈ frames, Area.Disjoint ⟨a, len⟩ f)
    (hload : poolLoad p a len mem = (answer, p', mem')) :
    ∃ free', PoolOk size free' used (if answer then ⟨a, len⟩ :: frames else frames) p' mem' := by
  have hobj := h.size
  have hn : objHead ≤ p.objSize := by omega
  unfold poolLoad at hload
  split_ifs at hload with hlen
  · cases hload
    exact ⟨free, h⟩
  · rw [Nat.mod_eq_of_lt (by unfold objHead frameHead at *; omega)] at hlen
    have hbody : (len + (2 ^ 32 - frameHead)) % 2 ^ 32 = len - frameHead := by
      unfold frameHead at *
      omega
    rw [hbody] at hload
    generalize hi : (len - frameHead) / p.objSize = i at hload
    have hle : p.objSize * i ≤ len - frameHead := hi ▸ Nat.mul_div_le _ _
    cases hload
    have hpos : 0 < p.objSize := Nat.lt_of_lt_of_le (by decide) hn
    have hin : frameHead + p.objSize * i ≤ len := by omega
    have hslots := h.slots.load hpos hnew hin
    have hold : ∀ o ∈ free, o + 4 ≤ a ∨ a + len ≤ o := by
      intro o ho
      obtain ⟨f, hf, h1, h2⟩ := h.slots.inside o (List.mem_append_left _ ho)
      have hd := hnew f hf
      unfold Area.Disjoint Apart at hd
      unfold objHead at hn
      dsimp only at hd
      omega
    have hstart : Chain (link ((mem.put32 (a + 4) len).put32 (a + 8) i)) (ptr p.objs) free := by
      refine h.chain.congr fun o ho => link_congr fun x h1 h2 => ?_
      have hox := hold o ho
      unfold frameHead at *
      rw [Bytes.put32_outside x (by omega), Bytes.put32_outside x (by omega)]
    have hbelow : 0 < a + frameHead := Nat.add_pos_right a (by decide)
    obtain ⟨-, hchain⟩ := loadObjs_chain (a + frameHead) i hn hbelow (by omega) h.objs_lt
      (fun o ho => (hold o ho).imp (by omega) (by omega)) hstart
    obtain ⟨hsize', -, -⟩ := loadObjs_fields (a + frameHead) i p ((mem.put32 (a + 4) len).put32 (a + 8) i)
    generalize loadObjs (a + frameHead) i p ((mem.put32 (a + 4) len).put32 (a + 8) i) = s at hchain hsize' ⊢
    rw [← List.append_assoc] at hslots
    have hfits : ∀ f ∈ (⟨a, len⟩ : Area) :: frames, f.start + f.len ≤ 2 ^ 32 := by
      intro f hf
      obtain rfl | hf := List.mem_cons.mp hf
      · exact hfit
      · exact h.fits f hf
    refine ⟨frameObjs (a + frameHead) p.objSize i ++ free, hsize'.trans hobj, hfits, ?_, ?_, ?_⟩
    · dsimp only
      rw [hsize']
      exact hslots
    · refine hchain.congr fun o ho => link_congr fun x h1 h2 => ?_
      have hout : x < a ∨ a + 4 ≤ x := by
        obtain ho | ho := List.mem_append.mp ho
        · obtain ⟨j, -, rfl⟩ := mem_frameObjs.mp ho
          unfold frameHead at h1
          omega
        · unfold frameHead at hin
          exact (hold o ho).imp (by omega) (by omega)
      rw [Bytes.put32_outside x hout]
    · have hlt := hslots.length_lt hfits
      rw [List.length_append, List.length_append, length_frameObjs] at hlt
      rw [List.length_append, length_frameObjs]
      dsimp only
      rw [h.count, Nat.mod_eq_of_lt (by omega), Nat.add_comm]

theorem PoolOk.alloced (h : PoolOk size free used frames p mem) (halloc : poolAlloc p mem = (v, p', mem')) :
    v = 0 ∧ free = [] ∧ p' = p ∧ mem' = mem ∨
      ∃ o free', v = o + objHead ∧ free = o :: free' ∧ PoolOk size free' (o :: used) frames p' mem' := by
  unfold poolAlloc at halloc
  cases free with
  | nil =>
    have hz : p.objs = 0 := by
      by_contra hne
      have hnone := h.chain
      rw [chain_nil, ptr_pos hne] at hnone
      cases hnone
    rw [if_pos hz] at halloc
    cases halloc
    exact .inl ⟨rfl, rfl, rfl, rfl⟩
  | cons o free =>
    obtain ⟨hhead, hchain⟩ := h.chain
    have ho : p.objs = o := by
      unfold ptr at hhead
      split_ifs at hhead
      exact Option.some.inj hhead
    have hne : o ≠ 0 := by
      obtain ⟨f, -, h1, -⟩ := h.slots.inside o List.mem_cons_self
      unfold frameHead at h1
      omega
    rw [ho, if_neg hne] at halloc
    cases halloc
    have hperm : (o :: free ++ used).Perm (free ++ o :: used) := List.perm_middle.symm
    have hlt := h.slots.length_lt h.fits
    refine .inr ⟨o, free, rfl, rfl, h.size, h.fits, h.slots.perm hperm, ?_, ?_⟩
    · refine hchain.congr fun o' ho' => link_congr (setInUse_agree ?_)
      have hd := List.pairwise_map.mp h.slots.tidy.disjoint
      have hapart := (List.pairwise_cons.mp hd).1 o' (List.mem_append_left _ ho')
      have hsize := h.size
      unfold Area.Disjoint Apart at hapart
      unfold objHead at hsize
      dsimp only at hapart
      omega
    · have hcount := h.count
      rw [List.length_append, List.length_cons] at hlt
      rw [List.length_cons] at hcount
      dsimp only
      rw [hcount]
      omega

theorem PoolOk.freed {o : ℕ} (h : PoolOk size free used frames p mem) (ho : o ∈ used)
    (hfree : poolFree p (o + objHead) mem = (p', mem')) : PoolOk size (o :: free) (used.erase o) frames p' mem' := by
  have hsub : o + objHead - objHead = o := Nat.add_sub_cancel ..
  unfold poolFree at hfree
  rw [hsub] at hfree
  cases hfree
  have hperm : (free ++ used).Perm (o :: free ++ used.erase o) :=
    ((List.perm_cons_erase ho).append_left free).trans List.perm_middle
  have hslots := h.slots.perm hperm
  refine ⟨h.size, h.fits, hslots, ?_, ?_⟩
  · obtain ⟨f, -, h1, -⟩ := hslots.inside o List.mem_cons_self
    unfold frameHead at h1
    refine push_chain h.chain (by omega) h.objs_lt fun o' ho' => ?_
    have hd := List.pairwise_map.mp hslots.tidy.disjoint
    have hapart := (List.pairwise_cons.mp hd).1 o' (List.mem_append_left _ ho')
    have hsize := h.size
    unfold Area.Disjoint Apart at hapart
    unfold objHead at hsize
    dsimp only at hapart
    omega
  · have hlt := hslots.length_lt h.fits
    have hcount := h.count
    rw [List.length_append, List.length_cons] at hlt
    rw [List.length_cons]
    dsimp only
    rw [hcount, Nat.mod_eq_of_lt (by omega)]

theorem PoolOk.written (h : PoolOk size free used frames p mem)
    (hwrite : ∀ x, Covers frames x → (∀ o ∈ used, ¬Area.Has ⟨o + objHead, size⟩ x) → mem' x = mem x) :
    PoolOk size free used frames p mem' := by
  have hsize := h.size
  refine ⟨h.size, h.fits, h.slots, h.chain.congr fun o ho => link_congr fun x h1 h2 => ?_, h.count⟩
  unfold objHead at hsize
  obtain ⟨f, hf, h3, h4⟩ := h.slots.inside o (List.mem_append_left _ ho)
  refine (hwrite x ⟨f, hf, by omega, by omega⟩ fun o' ho' hx => ?_).symm
  have hd := List.pairwise_append.mp (List.pairwise_map.mp h.slots.tidy.disjoint)
  have hapart := hd.2.2 o ho o' ho'
  unfold Area.Disjoint Apart at hapart
  unfold Area.Has objHead at hx
  dsimp only at hapart hx
  omega

theorem map_body_erase (o : ℕ) : (used.map (· + objHead)).erase (o + objHead) = (used.erase o).map (· + objHead) :=
  (List.map_erase (add_left_injective objHead) used).symm

theorem PoolRun.ok (hsize : size + 24 ≤ 2 ^ 32) (run : PoolRun size live frames p mem) :
    ∃ free used, live = used.map (· + objHead) ∧ PoolOk size free used frames p mem := by
  induction run with
  | init mem => exact ⟨[], [], rfl, .start hsize⟩
  | load _ hfit hnew h ih =>
    obtain ⟨free, used, rfl, hok⟩ := ih
    obtain ⟨free', hok'⟩ := hok.loaded hsize hfit hnew h
    exact ⟨free', used, rfl, hok'⟩
  | alloc _ h ih =>
    obtain ⟨free, used, rfl, hok⟩ := ih
    obtain ⟨rfl, -, rfl, rfl⟩ | ⟨o, free', rfl, -, hok'⟩ := hok.alloced h
    · exact ⟨free, used, if_pos rfl, hok⟩
    · exact ⟨free', o :: used, if_neg (by unfold objHead; omega), hok'⟩
  | free _ hv h ih =>
    obtain ⟨free, used, rfl, hok⟩ := ih
    obtain ⟨o, ho, rfl⟩ := List.mem_map.mp hv
    exact ⟨o :: free, used.erase o, map_body_erase o, hok.freed ho h⟩
  | write _ h ih =>
    obtain ⟨free, used, rfl, hok⟩ := ih
    refine ⟨free, used, rfl, hok.written fun x hx hbody => h x hx fun v hv => ?_⟩
    obtain ⟨o, ho, rfl⟩ := List.mem_map.mp hv
    exact hbody o ho

theorem PoolOk.integrity (h : PoolOk size free used frames p mem) :
    PoolIntegrity size (used.map (· + objHead)) frames p mem := by
  have hsize := h.size
  unfold objHead at hsize
  have hused : Slots p.objSize frames used :=
    ⟨⟨(List.pairwise_append.mp (List.map_append ▸ h.slots.tidy.disjoint)).2.1, fun a ha => h.slots.tidy.pos a
      (List.map_subset _ (List.subset_append_right free used) ha)⟩,
      fun o ho => h.slots.inside o (List.mem_append_right _ ho)⟩
  refine ⟨hused.nodup.map (add_left_injective objHead), ?_, fun v hv => ?_, ⟨free, h.chain, h.count⟩, ?_⟩
  · refine List.pairwise_map.mpr ((List.pairwise_map.mp hused.tidy.disjoint).imp fun {a b} hab => ?_)
    unfold Area.Disjoint at hab
    exact hab.mono (Nat.le_add_right _ _) (by unfold objHead; dsimp only; omega) (Nat.le_add_right _ _)
      (by unfold objHead; dsimp only; omega)
  · obtain ⟨o, ho, rfl⟩ := List.mem_map.mp hv
    obtain ⟨f, hf, h1, h2⟩ := hused.inside o ho
    exact ⟨f, hf, by omega, by unfold objHead; omega⟩
  · rw [h.count, List.length_eq_zero_iff]
    have halloc : poolAlloc p mem = ((poolAlloc p mem).1, (poolAlloc p mem).2.1, (poolAlloc p mem).2.2) := rfl
    obtain ⟨hv, hnil, -, -⟩ | ⟨o, free', hv, hcons, -⟩ := h.alloced halloc
    · exact ⟨fun _ => hnil, fun _ => hv⟩
    · rw [hv, hcons]
      unfold objHead
      exact ⟨fun h0 => by omega, fun h0 => by cases h0⟩

theorem pool_integrity (hsize : size + 24 ≤ 2 ^ 32) (run : PoolRun size live frames p mem) :
    PoolIntegrity size live frames p mem := by
  obtain ⟨free, used, rfl, hok⟩ := run.ok hsize
  exact hok.integrity

end Steps

theorem poolInit_fits_iff {size : ℕ} (hsize : size < 2 ^ 32) :
    (poolInit size).objSize = objHead + (size + 3) / 4 * 4 ∧ (poolInit size).objSize + frameHead < 2 ^ 32 ↔
      size + 24 ≤ 2 ^ 32 := by
  unfold poolInit objHead frameHead
  dsimp only
  omega

theorem wrapped_pool_leaves_frame {size : ℕ} (hlow : 2 ^ 32 - 7 ≤ size) (hsize : size < 2 ^ 32) :
    ∃ live frames p mem, PoolRun size live frames p mem ∧ ¬PoolIntegrity size live frames p mem := by
  have hobj : (poolInit size).objSize = 4 ∨ (poolInit size).objSize = 8 := by
    unfold poolInit objHead
    dsimp only
    omega
  obtain ⟨p, mem, hload, hobjs⟩ : ∃ p mem, poolLoad (poolInit size) 0x1000 20 (fun _ => 0) = (true, p, mem) ∧
      p.objs ≠ 0 := by
    refine ⟨_, _, if_neg ?_, ?_⟩
    · unfold frameHead
      omega
    · obtain h | h := hobj
      · simp [loadObjs, frameHead, h]
      · simp [loadObjs, frameHead, h]
  have halloc : poolAlloc p mem = (p.objs + objHead, { p with
      objs := mem.get32 p.objs
      nFree := (p.nFree + (2 ^ 32 - 1)) % 2 ^ 32 }, setInUse mem p.objs true) := if_neg hobjs
  have hrun := (PoolRun.load (.init fun _ => 0) (by decide) (fun _ hf => by cases hf) hload).alloc halloc
  rw [if_neg (Nat.add_pos_left (Nat.pos_of_ne_zero hobjs) _).ne', if_pos rfl] at hrun
  refine ⟨_, _, _, _, hrun, fun h => ?_⟩
  obtain ⟨f, hf, hstart, hend⟩ := h.inside _ (List.mem_singleton_self _)
  obtain rfl := List.mem_singleton.mp hf
  dsimp only at hstart hend
  unfold objHead at hend
  omega

def threeObjects : Pool × Bytes := (poolLoad (poolInit 8) 0x1000 0x40 fun _ => 0).2

theorem pool_integrity_three : PoolIntegrity 8 [0x1034] [⟨0x1000, 0x40⟩]
    (poolAlloc threeObjects.1 threeObjects.2).2.1 (poolAlloc threeObjects.1 threeObjects.2).2.2 ∧
      (poolAlloc threeObjects.1 threeObjects.2).2.1.nFree = 2 := by
  have hrun : PoolRun 8 [] [⟨0x1000, 0x40⟩] threeObjects.1 threeObjects.2 :=
    PoolRun.load (.init fun _ => 0) (by decide) (fun _ hf => by cases hf)
      (show poolLoad (poolInit 8) 0x1000 0x40 (fun _ => 0) = (true, threeObjects.1, threeObjects.2) from rfl)
  have halloc : PoolRun 8 [0x1034] [⟨0x1000, 0x40⟩] (poolAlloc threeObjects.1 threeObjects.2).2.1
      (poolAlloc threeObjects.1 threeObjects.2).2.2 :=
    hrun.alloc (show _ = (0x1034, _, _) from rfl)
  exact ⟨pool_integrity (by decide) halloc, rfl⟩

end Agatha.User.ObjectPool
