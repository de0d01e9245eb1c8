import Agatha.Root.FixedRange
import Mathlib.Algebra.GroupWithZero.Nat

/-! Requests for memory that cannot be satisfied (`arm/root/main.c`, `arm/root/mem.c`). -/

namespace Agatha.Root.FailedRequests

open FixedRange (Has Covers Taken remains)

def OK : ℤ := 0
def PROC0_ERR_ALIGNMENT : ℤ := -5

def pageAlign (x : ℕ) : ℕ := alignTo x 0x1000

structure MemReq where
  request : Request
  refill : Fin 3 → Refill

structure MemRsp where
  ret : ℤ
  cap : ℤ

def MemReq.Aligned (rq : MemReq) : Prop :=
  rq.request.len = pageAlign rq.request.len ∧ rq.request.align = pageAlign rq.request.align

instance (rq : MemReq) : Decidable rq.Aligned := instDecidableAnd

def handleMemReq (rq : MemReq) (mem : Mem) : Option (MemRsp × Mem) :=
  if rq.Aligned then
    match requestMemory rq.request rq.refill mem with
    | none => none
    | some (cid, _, mem) =>
      if cid < 0 then some (⟨PROC0_ERR_ALIGNMENT, 0⟩, mem) else some (⟨OK, cid⟩, mem)
  else some (⟨PROC0_ERR_ALIGNMENT, 0⟩, mem)

section Calls

variable (P : Request → Mem → Prop) (Q : Refill → Prop)

def NestedAll : List Request → Mem → Prop
  | [], _ => True
  | r :: rs, mem => P r mem ∧ ∀ cid given mem', requestFrame r mem = some (cid, given, mem') → NestedAll rs mem'

/-- `P` holds of all of them while the spare frames are filled up, and `Q` of how each `kobj_alloc` went. -/
def ReplenishAll (refill : Fin 3 → Refill) : List (Fin 3) → Mem → Prop
  | [], _ => True
  | i :: is, mem =>
    if mem.spareFrames i < 0 then
      NestedAll P (refill i).requests mem ∧ Q (refill i) ∧
        ∀ given mem', requestNested (refill i).requests mem = some (given, mem') →
          ReplenishAll refill is (mem'.setSpare i (refill i).cid)
    else ReplenishAll refill is mem

theorem neZero_three : NeZero 3 := ⟨by decide⟩

attribute [local instance] neZero_three

def CallsAll (rq : MemReq) (mem : Mem) : Prop :=
  rq.Aligned → P rq.request mem ∧ ∀ cid given mem', requestFrame rq.request mem = some (cid, some given, mem') →
    ReplenishAll P Q rq.refill [0, 1, 2] mem'

end Calls

def AlignedTo (align x : ℕ) : Prop := align = 0 ∨ align ∣ x

structure Met (r : Request) (mem : Mem) (m : AddrRange) (mem' : Mem) : Prop where
  len : m.len = r.len
  aligned : AlignedTo r.align m.start
  free : ∀ x, Has m x → Covers mem.ramFree x
  rest : Taken mem.ramFree mem'.ramFree m.start m.len

def Clean (r : Request) (mem : Mem) : Prop := ∃ cid given mem', requestFrame r mem = some (cid, given, mem') ∧
  ((∃ g, given = some g ∧ Met r mem g.range mem') ∨
    given = none ∧ cid < 0 ∧ mem'.spareFrames = mem.spareFrames ∧ mem'.ramFree = mem.ramFree)

def place (f : AddrRange) (align : ℕ) : ℕ := max f.start (alignTo f.start align)

/-- There is a spare frame, its setup succeeds, and the first range that passes the test of the search holds an
aligned block of the length, with a record for each part that is left of the range. -/
def Suits (r : Request) (mem : Mem) : Prop :=
  (∃ i, 0 < mem.spareFrames i) ∧ r.setup = true ∧
    ∃ f, mem.ramFree.find? (fun f => f.passes r.len r.align) = some f ∧
      AlignedTo r.align (place f r.align) ∧ place f r.align + r.len ≤ f.start + f.len ∧
      (remains (place f r.align) r.len f).length ≤ mem.addrPool

structure Harmless (rq : MemReq) (mem : Mem) : Prop where
  clean : CallsAll Clean (fun _ => True) rq mem
  runs : handleMemReq rq mem ≠ none
  ok : ∀ rsp mem', handleMemReq rq mem = some (rsp, mem') → rsp.ret = OK →
    ∃ given mem₁, requestFrame rq.request mem = some (rsp.cap, some given, mem₁) ∧ Met rq.request mem given.range mem₁

/-- All calls for memory can be satisfied, those of `kobj_alloc` too, which returns a capability. -/
def Clear (rq : MemReq) (mem : Mem) : Prop := CallsAll Suits (fun x => 0 ≤ x.cid) rq mem

def AllHarmless : List MemReq → Mem → Prop
  | [], _ => True
  | rq :: rqs, mem => Harmless rq mem ∧ ∀ rsp mem', handleMemReq rq mem = some (rsp, mem') → AllHarmless rqs mem'

def AllClear : List MemReq → Mem → Prop
  | [], _ => True
  | rq :: rqs, mem => Clear rq mem ∧ ∀ rsp mem', handleMemReq rq mem = some (rsp, mem') → AllClear rqs mem'

structure FreeOk (mem : Mem) : Prop where
  apart : mem.ramFree.Pairwise FixedRange.Disjoint
  ends : ∀ f ∈ mem.ramFree, f.start + f.len < 2 ^ 32

section Requests

variable {r : Request} {rs : List Request} {mem mem' : Mem} {cid : ℤ} {given : Option Given} {rq : MemReq}
  {refill : Fin 3 → Refill} {is : List (Fin 3)} {f m : AddrRange} {a len align pool pool' : ℕ}
  {next before list l : List AddrRange} {o : Option AddrRange}

theorem addrRangeCut_place : addrRangeCut (alignTo f.start align) len f next pool =
    addrRangeCut (place f align) len f next pool := by
  unfold place
  obtain h | h := Nat.lt_or_ge f.start (alignTo f.start align)
  · rw [Nat.max_eq_right h.le]
  · rw [Nat.max_eq_left h]
    unfold addrRangeCut
    rw [if_neg (Nat.not_lt.mpr h), if_neg (Nat.lt_irrefl _)]

theorem addrRangeGetAny_append (h : ∀ g ∈ before, ¬ g.passes len align) :
    addrRangeGetAny len align pool (before ++ l) =
      (addrRangeGetAny len align pool l).map fun x => (x.1, before ++ x.2.1, x.2.2) := by
  induction before with
  | nil => simp
  | cons g before ih =>
    rw [List.cons_append, addrRangeGetAny, if_neg (h g List.mem_cons_self),
      ih fun x hx => h x (List.mem_cons_of_mem g hx), Option.map_map]
    rfl

theorem addrRangeFront_some (h : addrRangeFront len f next pool = some (some m, l, pool')) :
    m.start = f.start ∧ (len < f.len ∧ 0 < pool ∧ m.len = len ∧
        l = { start := add32 f.start len, len := sub32 f.len len } :: next ∨
      f.len ≤ len ∧ m.len = f.len ∧ l = next) := by
  unfold addrRangeFront addrRangeSplit at h
  split_ifs at h with hlen hpool
  · cases h
    exact ⟨rfl, .inl ⟨hlen, Nat.pos_of_ne_zero hpool, rfl, rfl⟩⟩
  · cases h
    exact ⟨rfl, .inr ⟨Nat.not_lt.mp hlen, rfl, rfl⟩⟩

theorem addrRangeCut_past (ha : f.start + f.len < a) (hsize : a < 2 ^ 32)
    (h : addrRangeCut a len f next pool = some (some m, l, pool')) :
    m.start = a ∧ (∀ x ∈ next, x ∈ l) ∧ (m.len = len → 2 ^ 32 ≤ a + len ∨
      { start := add32 a len, len := sub32 (2 ^ 32 + f.len - (a - f.start)) len } ∈ l) := by
  have hoff : sub32 a f.start = a - f.start := sub32_eq (by omega) (by omega)
  have hstart : add32 f.start (a - f.start) = a := by
    rw [add32_eq (by omega)]
    omega
  have hrest : sub32 f.len (a - f.start) = 2 ^ 32 + f.len - (a - f.start) := by
    unfold sub32
    rw [Nat.add_comm f.len, Nat.mod_eq_of_lt (by omega)]
  unfold addrRangeCut at h
  rw [if_pos (by omega)] at h
  by_cases hpool : pool = 0
  · rw [if_pos hpool] at h
    cases h
  rw [if_neg hpool] at h
  simp only [addrRangeSplit, hoff, hstart, hrest] at h
  obtain ⟨⟨o, l', p⟩, hfront, he⟩ := Option.map_eq_some_iff.mp h
  cases he
  obtain ⟨hm, ⟨-, -, -, rfl⟩ | ⟨hle, hlen, rfl⟩⟩ := addrRangeFront_some hfront
  · exact ⟨hm, fun x hx => by simp [hx], fun _ => .inr (by simp)⟩
  · refine ⟨hm, fun x hx => by simp [hx], fun _ => .inl ?_⟩
    dsimp only at hle
    omega

theorem addrRangeCut_within (hstart : f.start ≤ a) (ha : a ≤ f.start + f.len) (hf : f.start + f.len < 2 ^ 32)
    (hlen : m.len = len) (h : addrRangeCut a len f next pool = some (some m, l, pool')) :
    m.start = a ∧ a + len ≤ f.start + f.len ∧ (remains a len f).length ≤ pool := by
  unfold addrRangeCut at h
  by_cases hlt : f.start < a
  · rw [if_pos hlt] at h
    by_cases hpool : pool = 0
    · rw [if_pos hpool] at h
      cases h
    rw [if_neg hpool] at h
    have hoff : sub32 a f.start = a - f.start := sub32_eq hstart (by omega)
    have hnext : add32 f.start (a - f.start) = a := by
      rw [add32_eq (by omega)]
      omega
    have hrest : sub32 f.len (a - f.start) = f.len - (a - f.start) := sub32_eq (by omega) (by omega)
    simp only [addrRangeSplit, hoff, hnext, hrest] at h
    obtain ⟨⟨o, l', p⟩, hfront, he⟩ := Option.map_eq_some_iff.mp h
    cases he
    unfold remains
    rw [if_pos hlt, List.length_append, List.length_singleton]
    obtain ⟨hm, ⟨hgt, hp, -, -⟩ | ⟨hle, hlen', -⟩⟩ := addrRangeFront_some hfront
    · dsimp only at hgt hm
      refine ⟨hm, by omega, ?_⟩
      rw [if_pos (by omega), List.length_singleton]
      omega
    · dsimp only at hle hlen' hm
      refine ⟨hm, by omega, ?_⟩
      rw [if_neg (by omega), List.length_nil]
      omega
  · rw [if_neg hlt] at h
    obtain rfl : f.start = a := Nat.le_antisymm hstart (Nat.not_lt.mp hlt)
    unfold remains
    rw [if_neg hlt, List.nil_append]
    obtain ⟨hm, ⟨hgt, hp, -, -⟩ | ⟨hle, hlen', -⟩⟩ := addrRangeFront_some h
    · refine ⟨hm, by omega, ?_⟩
      rw [if_pos (by omega)]
      exact hp
    · refine ⟨hm, by omega, ?_⟩
      rw [if_neg (by omega)]
      exact Nat.zero_le _

theorem remains_ends {g : AddrRange} (hfit : a + len ≤ f.start + f.len)
    (hg : g ∈ remains a len f) : g.start + g.len ≤ f.start + f.len := by
  unfold remains at hg
  rcases List.mem_append.mp hg with hg | hg <;> split_ifs at hg <;> cases hg
  · dsimp only
    omega
  · contradiction
  · dsimp only
    omega
  · contradiction

theorem Suits.get (hok : FreeOk mem) (hf : mem.ramFree.find? (fun f => f.passes r.len r.align) = some f)
    (hfit : place f r.align + r.len ≤ f.start + f.len)
    (hpool : (remains (place f r.align) r.len f).length ≤ mem.addrPool) :
    ∃ ramFree pool, addrRangeGetAny r.len r.align mem.addrPool mem.ramFree =
        some (some { start := place f r.align, len := r.len }, ramFree, pool) ∧
      Taken mem.ramFree ramFree (place f r.align) r.len ∧
      (∀ g ∈ ramFree, g.start + g.len < 2 ^ 32) := by
  obtain ⟨hpass, before, next, hlist, hbefore⟩ := List.find?_eq_some_iff_append.mp hf
  simp only [decide_eq_true_eq, Bool.not_eq_true', decide_eq_false_iff_not] at hpass hbefore
  have hplace : f.start ≤ place f r.align := Nat.le_max_left _ _
  have hfend := hok.ends f (List.mem_of_find?_eq_some hf)
  obtain ⟨pool', hcut⟩ := @FixedRange.addrRangeCut_eq _ _ _ _ next hplace hfit hfend hpool
  rw [hlist, addrRangeGetAny_append hbefore, addrRangeGetAny, if_pos hpass, addrRangeCut_place, hcut]
  refine ⟨_, _, rfl, FixedRange.taken_remains (hlist ▸ hok.apart) hfit hplace, fun g hg => ?_⟩
  rcases List.mem_append.mp hg with hg | hg
  · exact hok.ends g (hlist ▸ List.mem_append_left _ hg)
  rcases List.mem_append.mp hg with hg | hg
  · exact Nat.lt_of_le_of_lt (remains_ends hfit hg) hfend
  · exact hok.ends g (hlist ▸ List.mem_append_right _ (List.mem_cons_of_mem f hg))

theorem spare_some (h : ∃ i, 0 < mem.spareFrames i) : ∃ i, mem.spare = some i ∧ 0 < mem.spareFrames i := by
  obtain ⟨i, hi⟩ := h
  cases hs : mem.spare with
  | none =>
    have hall : ∀ i : Fin 3, i ∈ [0, 1, 2] := by decide
    have hnone := List.find?_eq_none.mp hs i (hall i)
    simp [hi] at hnone
  | some j =>
    have hj := List.find?_some hs
    exact ⟨j, rfl, by simpa using hj⟩

theorem Suits.run (hok : FreeOk mem) (h : Suits r mem) : ∃ cid g mem', requestFrame r mem = some (cid, some g, mem') ∧
    0 < cid ∧ Met r mem g.range mem' ∧ FreeOk mem' := by
  obtain ⟨hspare, hsetup, f, hf, halign, hfit, hpool⟩ := h
  obtain ⟨i, hi, hpos⟩ := spare_some hspare
  obtain ⟨ramFree, pool, hget, htaken, hends⟩ := Suits.get hok hf hfit hpool
  unfold requestFrame
  simp only [hi, hget, hsetup, if_true]
  refine ⟨_, _, _, rfl, hpos, ⟨rfl, halign, fun x hx => ?_, htaken⟩, htaken.disjoint, hends⟩
  have hplace : f.start ≤ place f r.align := Nat.le_max_left _ _
  unfold Has at hx
  dsimp only at hx
  exact ⟨f, List.mem_of_find?_eq_some hf, by unfold Has; omega⟩

theorem requestFrame_failed (h : requestFrame r mem = some (cid, none, mem')) : cid = 0 := by
  unfold requestFrame at h
  split at h
  · cases h
  · dsimp only at h
    split at h
    · cases h
    · cases h
      rfl
    · split_ifs at h
      cases h

theorem Met.not_past (hok : FreeOk mem) (hmem : mem.ramFree = before ++ f :: next) (hsize : a < 2 ^ 32)
    (hcut : addrRangeCut a r.len f next pool = some (some m, l, pool')) (hmem' : mem'.ramFree = before ++ l)
    (h : Met r mem m mem') : a ≤ f.start + f.len := by
  by_contra hpast
  obtain ⟨hstart, hnext, hrest⟩ := addrRangeCut_past (Nat.not_le.mp hpast) hsize hcut
  have hlen := h.len
  have hends (x : ℕ) (hx : Covers mem.ramFree x) : x + 1 < 2 ^ 32 := by
    obtain ⟨g, hg, hgx⟩ := hx
    have := hok.ends g hg
    unfold Has at hgx
    omega
  obtain hzero | hpos := Nat.eq_zero_or_pos r.len
  · -- the empty block leaves a range behind that goes on up to 2^32
    rcases hrest hlen with hwrap | hbehind
    · omega
    have hrestlen : sub32 (2 ^ 32 + f.len - (a - f.start)) r.len = 2 ^ 32 + f.len - (a - f.start) := by
      rw [hzero]
      exact sub32_eq (Nat.zero_le _) (by omega)
    rw [hrestlen, hzero, add32_eq (by omega), Nat.add_zero] at hbehind
    have hcover : Covers mem'.ramFree (2 ^ 32 - 1) := by
      refine ⟨_, hmem' ▸ List.mem_append_right _ hbehind, ?_⟩
      unfold Has
      dsimp only
      have := hok.ends f (by simp [hmem])
      omega
    have := hends _ ((h.rest.covers _).mp hcover).1
    omega
  · -- the range that has the block is still in the list
    obtain ⟨g, hg, hgx⟩ := h.free a (by unfold Has; omega)
    have hkept : g ∈ mem'.ramFree := by
      rw [hmem'] at *
      rw [hmem] at hg
      rcases List.mem_append.mp hg with hg | hg
      · exact List.mem_append_left _ hg
      · rcases List.mem_cons.mp hg with rfl | hg
        · unfold Has at hgx
          omega
        · exact List.mem_append_right _ (hnext g hg)
    exact ((h.rest.covers a).mp ⟨g, hkept, hgx⟩).2 ⟨by omega, by omega⟩

theorem Met.suits (hok : FreeOk mem) {g : Given} (hrun : requestFrame r mem = some (cid, some g, mem'))
    (h : Met r mem g.range mem') : Suits r mem := by
  unfold requestFrame at hrun
  split at hrun
  · cases hrun
  rename_i i hspare
  dsimp only at hrun
  split at hrun
  · cases hrun
  · cases hrun
  rename_i m ramFree pool hget
  split_ifs at hrun with hsetup
  cases hrun
  have hpos : 0 < mem.spareFrames i := by simpa using List.find?_some hspare
  refine ⟨⟨i, hpos⟩, hsetup, ?_⟩
  rcases addrRangeGetAny_cases hget with ⟨ho, -⟩ | ⟨before, f, next, l', hmem, hl, hfind, hcut⟩
  · cases ho
  rw [addrRangeCut_place] at hcut
  have hfend := hok.ends f (List.mem_of_find?_eq_some hfind)
  have hsize : place f r.align < 2 ^ 32 :=
    Nat.max_lt.mpr ⟨Nat.lt_of_le_of_lt (Nat.le_add_right _ _) hfend, alignTo_lt⟩
  have hle := Met.not_past hok hmem hsize hcut hl h
  obtain ⟨hstart, hfit, hpool⟩ := addrRangeCut_within (Nat.le_max_left _ _) hle hfend h.len hcut
  have haligned := h.aligned
  rw [hstart] at haligned
  exact ⟨f, hfind, haligned, hfit, hpool⟩

theorem clean_iff (hok : FreeOk mem) : Clean r mem ↔ Suits r mem := by
  constructor
  · rintro ⟨cid, given, mem', hrun, ⟨g, rfl, hmet⟩ | ⟨rfl, hneg, -, -⟩⟩
    · exact hmet.suits hok hrun
    · rw [requestFrame_failed hrun] at hneg
      exact absurd hneg (Int.lt_irrefl 0)
  · intro h
    obtain ⟨cid, g, mem', hrun, -, hmet, -⟩ := h.run hok
    exact ⟨cid, some g, mem', hrun, .inl ⟨g, rfl, hmet⟩⟩

theorem requestNested_cons (h : requestFrame r mem = some (cid, given, mem')) :
    requestNested (r :: rs) mem = (requestNested rs mem').map fun x => (given.toList ++ x.1, x.2) := by
  rw [requestNested, h]

theorem nested_iff (hok : FreeOk mem) : NestedAll Clean rs mem ↔ NestedAll Suits rs mem := by
  induction rs generalizing mem with
  | nil => exact Iff.rfl
  | cons r rs ih =>
    unfold NestedAll
    rw [clean_iff hok]
    refine and_congr_right fun hsuits => ?_
    obtain ⟨cid, g, mem', hrun, -, -, hok'⟩ := hsuits.run hok
    refine forall_congr' fun cid' => forall_congr' fun given' => forall_congr' fun mem'' => imp_congr_right fun h => ?_
    cases hrun.symm.trans h
    exact ih hok'

theorem nested_runs (hok : FreeOk mem) (h : NestedAll Suits rs mem) :
    ∃ given mem', requestNested rs mem = some (given, mem') ∧ FreeOk mem' := by
  induction rs generalizing mem with
  | nil => exact ⟨[], mem, rfl, hok⟩
  | cons r rs ih =>
    obtain ⟨hsuits, hrest⟩ := h
    obtain ⟨cid, g, mem₁, hrun, -, -, hok₁⟩ := hsuits.run hok
    obtain ⟨given, mem', hnext, hok'⟩ := ih hok₁ (hrest _ _ _ hrun)
    exact ⟨_, mem', by rw [requestNested_cons hrun, hnext]; rfl, hok'⟩

theorem FreeOk.setSpare (h : FreeOk mem) (i : Fin 3) (cid : ℤ) : FreeOk (mem.setSpare i cid) := ⟨h.apart, h.ends⟩

theorem replenish_iff (hok : FreeOk mem) : ReplenishAll Suits (fun x => 0 ≤ x.cid) refill is mem ↔
    ReplenishAll Clean (fun _ => True) refill is mem ∧ replenish refill is mem ≠ none := by
  induction is generalizing mem with
  | nil => simp [ReplenishAll, replenish]
  | cons i is ih =>
    by_cases hspare : mem.spareFrames i < 0
    · rw [ReplenishAll, ReplenishAll, replenish, if_pos hspare, if_pos hspare, if_pos hspare, nested_iff hok]
      by_cases hnested : NestedAll Suits (refill i).requests mem
      · obtain ⟨given, mem', hn, hok'⟩ := nested_runs hok hnested
        have hall (R : Mem → Prop) : (∀ g m, some (given, mem') = some (g, m) → R m) ↔ R mem' := by simp
        simp only [hn]
        rw [hall fun m => ReplenishAll Suits _ refill is (m.setSpare i (refill i).cid),
          hall fun m => ReplenishAll Clean _ refill is (m.setSpare i (refill i).cid)]
        by_cases hcid : (refill i).cid < 0
        · simp [hcid, Int.not_le.mpr hcid]
        · simp [hcid, Int.not_lt.mp hcid, ih (hok'.setSpare i _), and_assoc]
      · simp [hnested]
    · rw [ReplenishAll, ReplenishAll, replenish, if_neg hspare, if_neg hspare, if_neg hspare]
      exact ih hok

theorem replenish_ok (hok : FreeOk mem) (h : ReplenishAll Suits (fun x => 0 ≤ x.cid) refill is mem)
    {given : List Given} (hrun : replenish refill is mem = some (given, mem')) : FreeOk mem' := by
  induction is generalizing mem given with
  | nil =>
    cases hrun
    exact hok
  | cons i is ih =>
    by_cases hspare : mem.spareFrames i < 0
    · rw [ReplenishAll, if_pos hspare] at h
      rw [replenish, if_pos hspare] at hrun
      obtain ⟨hnested, hcid, hrest⟩ := h
      obtain ⟨g, mem₁, hn, hok₁⟩ := nested_runs hok hnested
      simp only [hn, if_neg (Int.not_lt.mpr hcid)] at hrun
      obtain ⟨⟨g', mem₂⟩, hnext, he⟩ := Option.map_eq_some_iff.mp hrun
      cases he
      exact ih (hok₁.setSpare i _) (hrest _ _ hn) hnext
    · rw [ReplenishAll, if_neg hspare] at h
      rw [replenish, if_neg hspare] at hrun
      exact ih hok h hrun

theorem requestMemory_eq {g : Given} (h : requestFrame r mem = some (cid, some g, mem')) :
    requestMemory r refill mem = (replenish refill [0, 1, 2] mem').map fun x => (cid, g :: x.1, x.2) := by
  unfold requestMemory
  rw [h]

theorem handleMemReq_eq {g : Given} (ha : rq.Aligned) (hcid : 0 < cid)
    (h : requestFrame rq.request mem = some (cid, some g, mem')) :
    handleMemReq rq mem = (replenish rq.refill [0, 1, 2] mem').map fun x => (⟨OK, cid⟩, x.2) := by
  unfold handleMemReq
  rw [if_pos ha, requestMemory_eq h]
  cases replenish rq.refill [0, 1, 2] mem' with
  | none => rfl
  | some x => simp [Int.not_lt.mpr hcid.le]

theorem handleMemReq_unaligned (h : ¬ rq.Aligned) :
    handleMemReq rq mem = some (⟨PROC0_ERR_ALIGNMENT, 0⟩, mem) := if_neg h

theorem harmless_iff_clear (hok : FreeOk mem) : Harmless rq mem ↔ Clear rq mem := by
  by_cases ha : rq.Aligned
  · by_cases hsuits : Suits rq.request mem
    · obtain ⟨cid, g, mem₁, hrun, hcid, hmet, hok₁⟩ := hsuits.run hok
      have heq := handleMemReq_eq ha hcid hrun
      have hruns : handleMemReq rq mem ≠ none ↔ replenish rq.refill [0, 1, 2] mem₁ ≠ none := by simp [heq]
      constructor
      · rintro ⟨hclean, hgoes, -⟩ -
        refine ⟨hsuits, fun cid' g' mem' h => ?_⟩
        cases hrun.symm.trans h
        exact (replenish_iff hok₁).mpr ⟨(hclean ha).2 _ _ _ hrun, hruns.mp hgoes⟩
      · intro hclear
        have hrep := (replenish_iff hok₁).mp ((hclear ha).2 _ _ _ hrun)
        refine ⟨fun _ => ⟨(clean_iff hok).mpr hsuits, fun cid' g' mem' h => ?_⟩, hruns.mpr hrep.2,
          fun rsp mem' h _ => ?_⟩
        · cases hrun.symm.trans h
          exact hrep.1
        · rw [heq] at h
          obtain ⟨x, -, he⟩ := Option.map_eq_some_iff.mp h
          cases he
          exact ⟨g, mem₁, hrun, hmet⟩
    · exact iff_of_false (fun h => hsuits ((clean_iff hok).mp (h.clean ha).1)) fun h => hsuits (h ha).1
  · refine iff_of_true ⟨fun h => absurd h ha, by simp [handleMemReq_unaligned ha], ?_⟩ fun h => absurd h ha
    intro rsp mem' h hret
    rw [handleMemReq_unaligned ha] at h
    cases h
    exact absurd hret (by decide)

theorem Clear.ok (hok : FreeOk mem) (h : Clear rq mem) {rsp : MemRsp} (hrun : handleMemReq rq mem = some (rsp, mem')) :
    FreeOk mem' := by
  by_cases ha : rq.Aligned
  · obtain ⟨cid, g, mem₁, hframe, hcid, -, hok₁⟩ := (h ha).1.run hok
    rw [handleMemReq_eq ha hcid hframe] at hrun
    obtain ⟨x, hrep, he⟩ := Option.map_eq_some_iff.mp hrun
    cases he
    exact replenish_ok hok₁ ((h ha).2 _ _ _ hframe) hrep
  · rw [handleMemReq_unaligned ha] at hrun
    cases hrun
    exact hok

theorem requests_harmless_iff (rqs : List MemReq) (hok : FreeOk mem) : AllHarmless rqs mem ↔ AllClear rqs mem := by
  induction rqs generalizing mem with
  | nil => exact Iff.rfl
  | cons rq rqs ih =>
    unfold AllHarmless AllClear
    rw [harmless_iff_clear hok]
    refine and_congr_right fun hclear => ?_
    exact forall_congr' fun rsp => forall_congr' fun mem' => imp_congr_right fun h => ih (hclear.ok hok h)

def pageRequest (len align : ℕ) : MemReq where
  request := { len := len, align := align, setup := true }
  refill := fun _ => { requests := [], cid := 9 }

def freeMem (ramFree : List AddrRange) : Mem where
  addrPool := 2048
  ramFree := ramFree
  spareFrames := fun _ => 5

theorem requests_harmless_two :
    AllHarmless [pageRequest 0x2000 0x1000, pageRequest 0x1000 0x8000] (freeMem [⟨0x41000, 0x100000⟩]) := by
  have hok : FreeOk (freeMem [⟨0x41000, 0x100000⟩]) := ⟨List.pairwise_singleton .., by decide⟩
  refine (requests_harmless_iff _ hok).mpr ⟨fun _ => ⟨?_, ?_⟩, ?_⟩
  · exact ⟨⟨0, by decide⟩, rfl, ⟨0x41000, 0x100000⟩, by decide, .inr (by decide), by decide, by decide⟩
  · rintro _ _ _ ⟨⟩
    exact ⟨trivial, by decide, by rintro _ _ ⟨⟩; trivial⟩
  rintro _ _ ⟨⟩
  refine ⟨fun _ => ⟨?_, ?_⟩, fun _ _ _ => trivial⟩
  · exact ⟨⟨0, by decide⟩, rfl, ⟨0x43000, 0xfe000⟩, by decide, .inr (by decide), by decide, by decide⟩
  · rintro _ _ _ ⟨⟩
    exact ⟨trivial, by decide, by rintro _ _ ⟨⟩; trivial⟩

theorem failed_request_ok : ¬ AllHarmless [pageRequest 0x40000000 0x1000] (freeMem [⟨0x40000000, 0x100000⟩]) := by
  rintro ⟨h, -⟩
  obtain ⟨given, mem', hrun, -⟩ := h.ok _ _ rfl rfl
  cases hrun

end Requests

end Agatha.Root.FailedRequests
