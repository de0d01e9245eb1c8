import Agatha.Root.Ram

/-! Taking a range at a fixed place out of the free list (`addr_range_get` of `arm/root/mem.c`). -/

namespace Agatha.Root.FixedRange

variable {a len pool start : ℕ} {f : AddrRange} {next list before l : List AddrRange} {x : ℕ}

def Has (f : AddrRange) (x : ℕ) : Prop := f.start ≤ x ∧ x < f.start + f.len

def Disjoint (f g : AddrRange) : Prop := ∀ x, ¬ (Has f x ∧ Has g x)

def Covers (list : List AddrRange) (x : ℕ) : Prop := ∃ f ∈ list, Has f x

def Contains (list : List AddrRange) (start len : ℕ) : Prop :=
  ∃ f ∈ list, Has f start ∧ start + len ≤ f.start + f.len

structure Taken (list list' : List AddrRange) (start len : ℕ) : Prop where
  covers : ∀ x, Covers list' x ↔ Covers list x ∧ ¬ (start ≤ x ∧ x < start + len)
  disjoint : list'.Pairwise Disjoint

def remains (a len : ℕ) (f : AddrRange) : List AddrRange :=
  (if f.start < a then [{ start := f.start, len := a - f.start }] else []) ++
    if a + len < f.start + f.len then [{ start := a + len, len := f.start + f.len - (a + len) }] else []

theorem addrRangeFront_eq (hlen : len ≤ f.len) (hf : f.start + f.len < 2 ^ 32)
    (hpool : f.start + len < f.start + f.len → 0 < pool) :
    ∃ pool', addrRangeFront len f next pool = some (some { start := f.start, len := len },
      (if f.start + len < f.start + f.len
        then [{ start := f.start + len, len := f.start + f.len - (f.start + len) }] else []) ++ next, pool') := by
  unfold addrRangeFront addrRangeSplit
  obtain heq | hlt := Nat.eq_or_lt_of_le hlen
  · refine ⟨pool, ?_⟩
    rw [if_neg (by omega), if_neg (by omega), heq]
    rfl
  · refine ⟨pool - 1, ?_⟩
    rw [if_pos hlt, if_neg (by omega), if_pos (by omega), add32_eq (by omega), sub32_eq hlen (by omega),
      Nat.add_sub_add_left]
    rfl

theorem addrRangeCut_eq (ha : f.start ≤ a) (hfit : a + len ≤ f.start + f.len) (hf : f.start + f.len < 2 ^ 32)
    (hpool : (remains a len f).length ≤ pool) :
    ∃ pool', addrRangeCut a len f next pool = some (some { start := a, len := len }, remains a len f ++ next, pool') := by
  unfold addrRangeCut
  unfold remains at hpool ⊢
  obtain heq | hlt := Nat.eq_or_lt_of_le ha
  · subst heq
    rw [if_neg (Nat.lt_irrefl _), List.nil_append] at hpool
    rw [if_neg (Nat.lt_irrefl _), if_neg (Nat.lt_irrefl _), List.nil_append]
    refine addrRangeFront_eq (by omega) hf fun hrest => ?_
    rw [if_pos hrest] at hpool
    exact hpool
  · have hoff : sub32 a f.start = a - f.start := sub32_eq ha (by omega)
    have hstart : add32 f.start (a - f.start) = a := by
      rw [add32_eq (by omega)]
      omega
    have hrest : sub32 f.len (a - f.start) = f.len - (a - f.start) := sub32_eq (by omega) (by omega)
    have hend : a + (f.len - (a - f.start)) = f.start + f.len := by omega
    rw [if_pos hlt, List.length_append, List.length_singleton] at hpool
    rw [if_pos hlt, if_neg (by omega), if_pos hlt]
    simp only [addrRangeSplit, hoff, hstart, hrest]
    obtain ⟨pool', hfront⟩ := @addrRangeFront_eq len (pool - 1) { start := a, len := f.len - (a - f.start) }
      next (by dsimp only; omega) (by dsimp only; omega) (by
        dsimp only
        rw [hend]
        intro hgo
        rw [if_pos hgo, List.length_singleton] at hpool
        omega)
    dsimp only at hfront
    rw [hend] at hfront
    refine ⟨pool', ?_⟩
    rw [hfront]
    rfl

theorem length_remains : (remains a len f).length ≤ 2 := by
  unfold remains
  split_ifs <;> simp

theorem has_remains (hfit : a + len ≤ f.start + f.len) (ha : f.start ≤ a) :
    Covers (remains a len f) x ↔ Has f x ∧ ¬ (a ≤ x ∧ x < a + len) := by
  unfold Covers Has remains
  split_ifs <;> simp <;> omega

theorem has_of_mem_remains {g : AddrRange} (hfit : a + len ≤ f.start + f.len) (ha : f.start ≤ a)
    (hg : g ∈ remains a len f) (hx : Has g x) : Has f x :=
  ((has_remains hfit ha).mp ⟨g, hg, hx⟩).1

theorem remains_disjoint : (remains a len f).Pairwise Disjoint := by
  unfold remains
  split_ifs
  · refine List.pairwise_pair.mpr fun x hx => ?_
    unfold Has at hx
    dsimp only at hx
    omega
  · exact List.pairwise_singleton ..
  · exact List.pairwise_singleton ..
  · exact List.Pairwise.nil

theorem covers_append {l l' : List AddrRange} : Covers (l ++ l') x ↔ Covers l x ∨ Covers l' x := by
  simp only [Covers, List.mem_append, or_and_right, exists_or]

theorem Disjoint.symm {f g : AddrRange} (h : Disjoint f g) : Disjoint g f := fun x hx => h x hx.symm

theorem not_before (hd : (before ++ f :: next).Pairwise Disjoint) (hf : Has f x) : ∀ g ∈ before, ¬ Has g x :=
  fun g hg hx => (List.pairwise_append.mp hd).2.2 g hg f List.mem_cons_self x ⟨hx, hf⟩

theorem taken_remains (hd : (before ++ f :: next).Pairwise Disjoint) (hfit : a + len ≤ f.start + f.len)
    (ha : f.start ≤ a) : Taken (before ++ f :: next) (before ++ (remains a len f ++ next)) a len := by
  obtain ⟨hbefore, hcons, hcross⟩ := List.pairwise_append.mp hd
  obtain ⟨hf, hnext⟩ := List.pairwise_cons.mp hcons
  constructor
  · intro x
    have hcover : Covers (f :: next) x ↔ Has f x ∨ Covers next x := by simp [Covers]
    have hout (l : List AddrRange) (hl : ∀ g ∈ l, Disjoint g f) (hx : Covers l x) : ¬ (a ≤ x ∧ x < a + len) := by
      obtain ⟨g, hg, hgx⟩ := hx
      rintro ⟨hle, hlt⟩
      exact hl g hg x ⟨hgx, ha.trans hle, by omega⟩
    have hb := hout before fun g hg => hcross g hg f List.mem_cons_self
    have hn := hout next fun g hg => (hf g hg).symm
    rw [covers_append, covers_append, covers_append, hcover, has_remains hfit ha]
    constructor
    · rintro (hx | ⟨hx, hr⟩ | hx)
      · exact ⟨.inl hx, hb hx⟩
      · exact ⟨.inr (.inl hx), hr⟩
      · exact ⟨.inr (.inr hx), hn hx⟩
    · rintro ⟨hx | hx | hx, hr⟩
      · exact .inl hx
      · exact .inr (.inl ⟨hx, hr⟩)
      · exact .inr (.inr hx)
  · rw [List.pairwise_append, List.pairwise_append]
    refine ⟨hbefore, ⟨remains_disjoint, hnext, ?_⟩, ?_⟩
    · exact fun g hg h hh x hx => hf h hh x ⟨has_of_mem_remains hfit ha hg hx.1, hx.2⟩
    · intro g hg h hh
      obtain hh | hh := List.mem_append.mp hh
      · exact fun x hx => hcross g hg f List.mem_cons_self x ⟨hx.1, has_of_mem_remains hfit ha hh hx.2⟩
      · exact hcross g hg h (List.mem_cons_of_mem f hh)

theorem addrRangeGet_append (hend : ∀ g ∈ before, g.start + g.len < 2 ^ 32) (h : ∀ g ∈ before, ¬ Has g start) :
    addrRangeGet start len pool (before ++ l) =
      (addrRangeGet start len pool l).map fun x => (x.1, before ++ x.2.1, x.2.2) := by
  induction before with
  | nil => simp
  | cons g before ih =>
    have hg : ¬ (g.start ≤ start ∧ start < add32 g.start g.len) := by
      rw [add32_eq (hend g List.mem_cons_self)]
      exact h g List.mem_cons_self
    rw [List.cons_append, addrRangeGet, if_neg hg, ih (fun x hx => hend x (List.mem_cons_of_mem g hx))
      fun x hx => h x (List.mem_cons_of_mem g hx), Option.map_map]
    rfl

theorem addrRangeGet_found (hf : Has f start) (hend : f.start + f.len < 2 ^ 32) (hs : start + len < 2 ^ 32) :
    addrRangeGet start len pool (f :: next) =
      if f.start + f.len < start + len then some (none, f :: next, pool)
      else addrRangeCut start len f next pool := by
  unfold Has at hf
  rw [addrRangeGet, add32_eq hend, add32_eq hs, if_pos hf]

theorem fixed_range_taken (hd : list.Pairwise Disjoint) (hend : ∀ f ∈ list, f.start + f.len < 2 ^ 32)
    (hs : start + len < 2 ^ 32) (hpool : 2 ≤ pool) :
    ∃ o list' pool', addrRangeGet start len pool list = some (o, list', pool') ∧
      (Contains list start len ∧ o = some { start := start, len := len } ∧ Taken list list' start len ∨
        ¬ Contains list start len ∧ o = none ∧ list' = list) := by
  by_cases hcov : Covers list start
  · obtain ⟨f, hf, hfs⟩ := hcov
    obtain ⟨before, next, rfl⟩ := List.append_of_mem hf
    have hbefore := not_before hd hfs
    have hfend := hend f hf
    rw [addrRangeGet_append (fun g hg => hend g (List.mem_append_left _ hg)) hbefore,
      addrRangeGet_found hfs hfend hs]
    by_cases hfit : f.start + f.len < start + len
    · refine ⟨none, _, pool, by rw [if_pos hfit]; rfl, .inr ⟨?_, rfl, rfl⟩⟩
      rintro ⟨g, hg, hgs, hgfit⟩
      obtain hg | hg := List.mem_append.mp hg
      · exact hbefore g hg hgs
      · obtain rfl | hg := List.mem_cons.mp hg
        · omega
        · exact (List.pairwise_cons.mp (List.pairwise_append.mp hd).2.1).1 g hg start ⟨hfs, hgs⟩
    · have hle : start + len ≤ f.start + f.len := Nat.not_lt.mp hfit
      obtain ⟨pool', hcut⟩ := @addrRangeCut_eq _ _ _ _ next hfs.1 hle hfend (length_remains.trans hpool)
      refine ⟨_, _, pool', by rw [if_neg hfit, hcut]; rfl, .inl ⟨⟨f, hf, hfs, hle⟩, rfl, ?_⟩⟩
      exact taken_remains hd hle hfs.1
  · have hnone : addrRangeGet start len pool (list ++ []) =
        (addrRangeGet start len pool []).map fun x => (x.1, list ++ x.2.1, x.2.2) :=
      addrRangeGet_append hend fun g hg hx => hcov ⟨g, hg, hx⟩
    rw [List.append_nil] at hnone
    refine ⟨none, list, pool, ?_, .inr ⟨fun ⟨g, hg, hgs, _⟩ => hcov ⟨g, hg, hgs⟩, rfl, rfl⟩⟩
    simpa [addrRangeGet] using hnone

theorem fixed_range_taken_middle :
    ∃ o list' pool', addrRangeGet 0x1400 0x400 2 [{ start := 0x1000, len := 0x1000 }] = some (o, list', pool') ∧
      (Contains [{ start := 0x1000, len := 0x1000 }] 0x1400 0x400 ∧ o = some { start := 0x1400, len := 0x400 } ∧
          Taken [{ start := 0x1000, len := 0x1000 }] list' 0x1400 0x400 ∨
        ¬ Contains [{ start := 0x1000, len := 0x1000 }] 0x1400 0x400 ∧ o = none ∧
          list' = [{ start := 0x1000, len := 0x1000 }]) :=
  fixed_range_taken (List.pairwise_singleton ..) (by decide) (by decide) (by decide)

theorem empty_range_missed : ¬ ∀ (list : List AddrRange) (start len pool : ℕ), list.Pairwise Disjoint →
    (∀ f ∈ list, f.start + f.len < 2 ^ 32) → start + len < 2 ^ 32 → 2 ≤ pool →
    (∃ f ∈ list, f.start ≤ start ∧ start + len ≤ f.start + f.len) →
    ∃ list' pool', addrRangeGet start len pool list = some (some { start := start, len := len }, list', pool') := by
  intro h
  obtain ⟨list', pool', hget⟩ := h [{ start := 0x1000, len := 0x1000 }] 0x2000 0 2 (List.pairwise_singleton ..)
    (by decide) (by decide) (by decide) (by decide)
  have hnone : addrRangeGet 0x2000 0 2 [{ start := 0x1000, len := 0x1000 }] =
      some (none, [{ start := 0x1000, len := 0x1000 }], 2) := by decide
  cases hnone.symm.trans hget

end Agatha.Root.FixedRange
