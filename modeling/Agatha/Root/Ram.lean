import Mathlib.Algebra.Group.Nat.Defs
import Mathlib.Data.List.Pairwise
import Mathlib.Data.List.Perm.Basic
import Mathlib.Logic.Function.Basic
import Agatha.Library.Areas

/-!
How the root process hands out physical memory (`arm/root/mem.c`). Functions give no result where the
process exits or follows a nil pointer.
-/

namespace Agatha.Root

open Library.Areas

structure AddrRange where
  start : ℕ
  len : ℕ
  deriving DecidableEq

structure Mem where
  addrPool : ℕ
  ramFree : List AddrRange
  spareFrames : Fin 3 → ℤ

def add32 (x y : ℕ) : ℕ := (x + y) % 2 ^ 32
def sub32 (x y : ℕ) : ℕ := (x + 2 ^ 32 - y) % 2 ^ 32

def alignTo (x align : ℕ) : ℕ := add32 x (sub32 align 1) &&& (2 ^ 32 - 1 - sub32 align 1)

def addrRangeSplit (f : AddrRange) (off : ℕ) : AddrRange × AddrRange :=
  ({ f with len := off }, { start := add32 f.start off, len := sub32 f.len off })

def addrRangeFront (len : ℕ) (m : AddrRange) (next : List AddrRange) (pool : ℕ) :
    Option (Option AddrRange × List AddrRange × ℕ) :=
  if m.len > len then
    -- the new range is not compared with nil
    if pool = 0 then none
    else
      let (m, n) := addrRangeSplit m len
      some (some m, n :: next, pool - 1)
  else some (some m, next, pool)

def addrRangeCut (a len : ℕ) (f : AddrRange) (next : List AddrRange) (pool : ℕ) :
    Option (Option AddrRange × List AddrRange × ℕ) :=
  if f.start < a then
    if pool = 0 then some (none, f :: next, pool)
    else
      let (f, m) := addrRangeSplit f (sub32 a f.start)
      (addrRangeFront len m next (pool - 1)).map fun x => (x.1, f :: x.2.1, x.2.2)
  else addrRangeFront len f next pool

def addrRangeGet (start len pool : ℕ) :
    List AddrRange → Option (Option AddrRange × List AddrRange × ℕ)
  | [] => some (none, [], pool)
  | f :: next =>
    if f.start ≤ start ∧ start < add32 f.start f.len then
      if add32 f.start f.len < add32 start len then some (none, f :: next, pool)
      else addrRangeCut start len f next pool
    else (addrRangeGet start len pool next).map fun x => (x.1, f :: x.2.1, x.2.2)

/-- The test of `addr_range_get_any` on a range. -/
def AddrRange.passes (f : AddrRange) (len align : ℕ) : Prop :=
  len < add32 (sub32 (alignTo f.start align) f.start) f.len

instance (f : AddrRange) (len align : ℕ) : Decidable (f.passes len align) := Nat.decLt _ _

def addrRangeGetAny (len align pool : ℕ) :
    List AddrRange → Option (Option AddrRange × List AddrRange × ℕ)
  | [] => some (none, [], pool)
  | f :: next =>
    if f.passes len align then addrRangeCut (alignTo f.start align) len f next pool
    else (addrRangeGetAny len align pool next).map fun x => (x.1, f :: x.2.1, x.2.2)

structure Request where
  len : ℕ
  align : ℕ
  setup : Bool

structure Given where
  start : Option ℕ
  len : ℕ
  align : ℕ
  range : AddrRange

def Mem.spare (mem : Mem) : Option (Fin 3) := [0, 1, 2].find? fun i => mem.spareFrames i > 0

/-- `request_memory` up to where it fills up the spare frames. -/
def requestFrame (r : Request) (mem : Mem) : Option (ℤ × Option Given × Mem) :=
  match mem.spare with
  | none => none
  | some i =>
    let cid := mem.spareFrames i
    let spareFrames := Function.update mem.spareFrames i (-1)
    match addrRangeGetAny r.len r.align mem.addrPool mem.ramFree with
    | none => none
    | some (none, ramFree, pool) =>
      some (0, none, { addrPool := pool, ramFree := ramFree, spareFrames := spareFrames })
    | some (some m, ramFree, pool) =>
      if r.setup then
        some (cid, some { start := none, len := r.len, align := r.align, range := m },
          { addrPool := pool + 1, ramFree := ramFree, spareFrames := spareFrames })
      else none

structure Refill where
  requests : List Request
  cid : ℤ

def Mem.setSpare (mem : Mem) (i : Fin 3) (cid : ℤ) : Mem :=
  { mem with spareFrames := Function.update mem.spareFrames i cid }

def requestNested : List Request → Mem → Option (List Given × Mem)
  | [], mem => some ([], mem)
  | r :: rs, mem =>
    match requestFrame r mem with
    | none => none
    | some (_, given, mem) => (requestNested rs mem).map fun x => (given.toList ++ x.1, x.2)

def replenish (refill : Fin 3 → Refill) : List (Fin 3) → Mem → Option (List Given × Mem)
  | [], mem => some ([], mem)
  | i :: is, mem =>
    if mem.spareFrames i < 0 then
      match requestNested (refill i).requests mem with
      | none => none
      | some (given, mem) =>
        if (refill i).cid < 0 then none
        else (replenish refill is (mem.setSpare i (refill i).cid)).map fun x => (given ++ x.1, x.2)
    else replenish refill is mem

def requestMemory (r : Request) (refill : Fin 3 → Refill) (mem : Mem) :
    Option (ℤ × List Given × Mem) :=
  match requestFrame r mem with
  | none => none
  | some (cid, none, mem) => some (cid, [], mem)
  | some (cid, some given, mem) =>
    (replenish refill [0, 1, 2] mem).map fun x => (cid, given :: x.1, x.2)

def addRam (start len : ℕ) (mem : Mem) : Option Mem :=
  if mem.addrPool = 0 then none
  else some { mem with
    addrPool := mem.addrPool - 1, ramFree := { start := start, len := len } :: mem.ramFree }

section Cutting

variable {a len pool pool' : ℕ} {f m : AddrRange} {next l : List AddrRange} {o : Option AddrRange}

def AddrRange.Inside (x f : AddrRange) : Prop := f.start ≤ x.start ∧ x.start + x.len ≤ f.start + f.len

def AddrRange.Disjoint (x y : AddrRange) : Prop := Apart x.start x.len y.start y.len

theorem AddrRange.Disjoint.symm {x y : AddrRange} (h : x.Disjoint y) : y.Disjoint x := Apart.symm h

theorem AddrRange.Disjoint.inside {x y : AddrRange} (h : f.Disjoint y) (hx : x.Inside f) :
    x.Disjoint y := by
  unfold AddrRange.Disjoint Apart at *
  unfold AddrRange.Inside at hx
  omega

def AddrRange.Fits (x : AddrRange) : Prop := x.len < 2 ^ 32 ∧ x.start + x.len ≤ 2 ^ 32

theorem AddrRange.Inside.fits {x : AddrRange} (h : x.Inside f) (hf : f.Fits) : x.Fits := by
  unfold AddrRange.Inside at h
  unfold AddrRange.Fits at *
  omega

theorem sub32_eq {x y : ℕ} (h : y ≤ x) (hx : x < 2 ^ 32 + y) : sub32 x y = x - y := by
  unfold sub32
  rw [show x + 2 ^ 32 - y = x - y + 2 ^ 32 by omega, Nat.add_mod_right, Nat.mod_eq_of_lt (by omega)]

theorem add32_eq {x y : ℕ} (h : x + y < 2 ^ 32) : add32 x y = x + y := Nat.mod_eq_of_lt h

theorem addrRangeFront_cases (hlen : len ≤ m.len) (hm : m.Fits)
    (h : addrRangeFront len m next pool = some (o, l, pool')) :
    ∃ parts, o = some { start := m.start, len := len } ∧ l = parts ++ next ∧
      (({ start := m.start, len := len } : AddrRange) :: parts).Pairwise AddrRange.Disjoint ∧
      ∀ x ∈ parts, x.Inside m ∧ m.start + len ≤ x.start := by
  obtain ⟨hlt, hend⟩ := hm
  unfold addrRangeFront at h
  split_ifs at h with hgt hpool
  · cases h
    have hstart : add32 m.start len = m.start + len := add32_eq (by omega)
    have hrest : sub32 m.len len = m.len - len := sub32_eq (by omega) (by omega)
    refine ⟨[_], rfl, rfl, ?_, fun x hx => ?_⟩
    · rw [List.pairwise_pair]
      unfold AddrRange.Disjoint Apart
      dsimp only
      omega
    · rw [List.mem_singleton.mp hx]
      unfold AddrRange.Inside
      dsimp only
      omega
  · cases h
    have he : len = m.len := by omega
    exact ⟨[], by rw [he], rfl, List.pairwise_singleton .., fun x hx => by cases hx⟩

theorem addrRangeCut_cases (ha : f.start ≤ a) (hsize : a < 2 ^ 32) (hfit : a + len ≤ f.start + f.len) (hf : f.Fits)
    (h : addrRangeCut a len f next pool = some (o, l, pool')) :
    o = none ∧ l = f :: next ∨
    ∃ parts, o = some { start := a, len := len } ∧ l = parts ++ next ∧
      (({ start := a, len := len } : AddrRange) :: parts).Pairwise AddrRange.Disjoint ∧
      ∀ x ∈ parts, x.Inside f := by
  have hend := hf.2
  have hlt := hf.1
  unfold addrRangeCut at h
  split_ifs at h with hbefore hpool
  · cases h
    exact .inl ⟨rfl, rfl⟩
  · right
    rw [Option.map_eq_some_iff] at h
    obtain ⟨⟨o', l', p'⟩, hfront, he⟩ := h
    cases he
    have hoff : sub32 a f.start = a - f.start := sub32_eq (by omega) (by omega)
    have hstart : add32 f.start (a - f.start) = a := by
      rw [add32_eq (by omega)]
      omega
    have hrest : sub32 f.len (a - f.start) = f.len - (a - f.start) := sub32_eq (by omega) (by omega)
    unfold addrRangeSplit at hfront ⊢
    rw [hoff, hstart, hrest] at hfront
    rw [hoff]
    obtain ⟨parts, ho, hl, hpair, hin⟩ := addrRangeFront_cases (by dsimp only; omega)
      (by unfold AddrRange.Fits; dsimp only; omega) hfront
    refine ⟨{ f with len := a - f.start } :: parts, ho, by rw [hl]; rfl, ?_, ?_⟩
    · have hfirst : ∀ x ∈ parts, AddrRange.Disjoint { f with len := a - f.start } x := by
        intro x hx
        have hx' := (hin x hx).2
        unfold AddrRange.Disjoint Apart
        dsimp only at hx' ⊢
        omega
      rw [List.pairwise_cons] at hpair ⊢
      refine ⟨fun x hx => ?_, List.pairwise_cons.mpr ⟨hfirst, hpair.2⟩⟩
      rcases List.mem_cons.mp hx with rfl | hx
      · unfold AddrRange.Disjoint Apart
        dsimp only
        omega
      · exact hpair.1 x hx
    · intro x hx
      rcases List.mem_cons.mp hx with rfl | hx
      · unfold AddrRange.Inside
        dsimp only
        omega
      · have hx' := (hin x hx).1
        unfold AddrRange.Inside at hx' ⊢
        dsimp only at hx'
        omega
  · right
    have he : f.start = a := by omega
    obtain ⟨parts, ho, hl, hpair, hin⟩ := addrRangeFront_cases (by omega) hf h
    rw [he] at ho hpair
    exact ⟨parts, ho, hl, hpair, fun x hx => (hin x hx).1⟩

theorem addrRangeGet_cases {start : ℕ} {list : List AddrRange}
    (h : addrRangeGet start len pool list = some (o, l, pool')) :
    o = none ∧ l = list ∨ ∃ before f next l', list = before ++ f :: next ∧ l = before ++ l' ∧
      f.start ≤ start ∧ start < add32 f.start f.len ∧ add32 start len ≤ add32 f.start f.len ∧
      addrRangeCut start len f next pool = some (o, l', pool') := by
  induction list generalizing o l with
  | nil =>
    cases h
    exact .inl ⟨rfl, rfl⟩
  | cons f next ih =>
    unfold addrRangeGet at h
    split_ifs at h with hfound hsmall
    · cases h
      exact .inl ⟨rfl, rfl⟩
    · exact .inr ⟨[], f, next, l, rfl, rfl, hfound.1, hfound.2, by omega, h⟩
    · rw [Option.map_eq_some_iff] at h
      obtain ⟨⟨o', l₁, p'⟩, hrec, he⟩ := h
      cases he
      rcases ih hrec with ⟨ho, hl⟩ | ⟨before, f', next', l', rfl, hl, hcut⟩
      · exact .inl ⟨ho, by rw [hl]⟩
      · exact .inr ⟨f :: before, f', next', l', rfl, by rw [hl]; rfl, hcut⟩

theorem addrRangeGetAny_cases {align : ℕ} {list : List AddrRange}
    (h : addrRangeGetAny len align pool list = some (o, l, pool')) :
    o = none ∧ l = list ∨ ∃ before f next l', list = before ++ f :: next ∧ l = before ++ l' ∧
      list.find? (fun f => f.passes len align) = some f ∧
      addrRangeCut (alignTo f.start align) len f next pool = some (o, l', pool') := by
  induction list generalizing o l with
  | nil =>
    cases h
    exact .inl ⟨rfl, rfl⟩
  | cons f next ih =>
    unfold addrRangeGetAny at h
    split_ifs at h with hpass
    · refine .inr ⟨[], f, next, l, rfl, rfl, ?_, h⟩
      rw [List.find?_cons_of_pos (by simpa using hpass)]
    · rw [Option.map_eq_some_iff] at h
      obtain ⟨⟨o', l₁, p'⟩, hrec, he⟩ := h
      cases he
      rcases ih hrec with ⟨ho, hl⟩ | ⟨before, f', next', l', rfl, hl, hfind, hcut⟩
      · exact .inl ⟨ho, by rw [hl]⟩
      · refine .inr ⟨f :: before, f', next', l', rfl, by rw [hl]; rfl, ?_, hcut⟩
        rw [List.find?_cons_of_neg (by simpa using hpass)]
        exact hfind

end Cutting

/-- The calls as they follow each other, those made inside of calls included: `request` is a call of
`request_memory` up to where it fills up the spare frames, and `spare` puts one of them back. -/
inductive MemStep
  | addRam (start len : ℕ)
  | get (start len : ℕ)
  | request (r : Request)
  | spare (i : Fin 3) (cid : ℤ)

def MemStep.run : MemStep → Mem → Option (List Given × Mem)
  | .addRam start len, mem => (Agatha.Root.addRam start len mem).map fun mem => ([], mem)
  | .get start len, mem =>
    (addrRangeGet start len mem.addrPool mem.ramFree).map fun x =>
      ((x.1.map fun m => { start := some start, len := len, align := 1, range := m : Given }).toList,
        { mem with addrPool := x.2.2, ramFree := x.2.1 })
  | .request r, mem => (requestFrame r mem).map fun x => (x.2.1.toList, x.2.2)
  | .spare i cid, mem => some ([], mem.setSpare i cid)

def MemStep.ram (ram : List AddrRange) : MemStep → List AddrRange
  | .addRam start len => { start := start, len := len } :: ram
  | _ => ram

/-- Runs from the empty free list, with all RAM that was added and all that was handed out. Each step
meets `cond`. -/
inductive MemRun (cond : List AddrRange → Mem → MemStep → Prop) :
    List AddrRange → List Given → Mem → Prop
  | start {mem : Mem} (h : mem.ramFree = []) : MemRun cond [] [] mem
  | step {ram : List AddrRange} {given more : List Given} {mem mem' : Mem} {s : MemStep}
      (run : MemRun cond ram given mem) (hcond : cond ram mem s) (h : s.run mem = some (more, mem')) :
      MemRun cond (s.ram ram) (more ++ given) mem'

def MemStep.Safe (ram : List AddrRange) (mem : Mem) : MemStep → Prop
  | .addRam start len =>
    AddrRange.Fits { start := start, len := len } ∧ ∀ r ∈ ram, r.Disjoint { start := start, len := len }
  | .get start len =>
    start + len < 2 ^ 32 ∨ ∀ f ∈ mem.ramFree, ¬(f.start ≤ start ∧ start < add32 f.start f.len)
  | .request r =>
    ∀ f, mem.ramFree.find? (fun f => f.passes r.len r.align) = some f →
      r.align ∣ alignTo f.start r.align ∧ f.start ≤ alignTo f.start r.align ∧
        alignTo f.start r.align + r.len ≤ f.start + f.len
  | .spare _ _ => True

structure HandedOut (ram : List AddrRange) (given : List Given) (mem : Mem) : Prop where
  asked : ∀ g ∈ given, g.range.len = g.len ∧ g.align ∣ g.range.start ∧
    ∀ s, g.start = some s → g.range.start = s
  inside : ∀ g ∈ given, ∃ r ∈ ram, g.range.Inside r
  disjoint : (given.map Given.range).Pairwise AddrRange.Disjoint
  free : ∀ g ∈ given, ∀ f ∈ mem.ramFree, g.range.Disjoint f

section Runs

variable {ram : List AddrRange} {given more : List Given} {mem mem' : Mem}

structure Sound (ram : List AddrRange) (given : List Given) (mem : Mem) : Prop where
  fits : ∀ r ∈ ram, r.Fits
  asked : ∀ g ∈ given, g.range.len = g.len ∧ g.align ∣ g.range.start ∧
    ∀ s, g.start = some s → g.range.start = s
  inside : ∀ x ∈ given.map Given.range ++ mem.ramFree, ∃ r ∈ ram, x.Inside r
  disjoint : (given.map Given.range ++ mem.ramFree).Pairwise AddrRange.Disjoint

theorem Sound.handedOut (h : Sound ram given mem) : HandedOut ram given mem := by
  have hparts := List.pairwise_append.mp h.disjoint
  exact
    { asked := h.asked
      inside := fun g hg => h.inside _ (List.mem_append_left _ (List.mem_map_of_mem hg))
      disjoint := hparts.1
      free := fun g hg f hf => hparts.2.2 _ (List.mem_map_of_mem hg) f hf }

theorem pairwise_replace {f : AddrRange} {parts rest : List AddrRange}
    (h : (f :: rest).Pairwise AddrRange.Disjoint) (hp : parts.Pairwise AddrRange.Disjoint)
    (hin : ∀ x ∈ parts, x.Inside f) : (parts ++ rest).Pairwise AddrRange.Disjoint := by
  obtain ⟨hf, hrest⟩ := List.pairwise_cons.mp h
  exact List.pairwise_append.mpr ⟨hp, hrest, fun x hx y hy => (hf y hy).inside (hin x hx)⟩

theorem Sound.same {mem' : Mem} (h : Sound ram given mem) (hf : mem'.ramFree = mem.ramFree) :
    Sound ram given mem' :=
  ⟨h.fits, h.asked, hf ▸ h.inside, hf ▸ h.disjoint⟩

theorem Sound.cut {f : AddrRange} {before next l : List AddrRange} {o : Option AddrRange}
    {a len pool pool' : ℕ} {s : Option ℕ} {align : ℕ} (h : Sound ram given mem)
    (hfree : mem.ramFree = before ++ f :: next) (ha : f.start ≤ a) (hsize : a < 2 ^ 32)
    (hfit : a + len ≤ f.start + f.len) (halign : align ∣ a) (hs : ∀ x, s = some x → a = x)
    (hcut : addrRangeCut a len f next pool = some (o, l, pool'))
    (hmem : mem'.ramFree = before ++ l) :
    Sound ram ((o.map fun m => { start := s, len := len, align := align, range := m : Given }).toList ++
      given) mem' := by
  have hmid : f ∈ given.map Given.range ++ mem.ramFree := by simp [hfree]
  obtain ⟨r, hr, hfr⟩ := h.inside f hmid
  rcases addrRangeCut_cases ha hsize hfit (hfr.fits (h.fits r hr)) hcut with
    ⟨rfl, rfl⟩ | ⟨parts, rfl, rfl, hpair, hin⟩
  · exact h.same (hmem.trans hfree.symm)
  · have hinside : ∀ x ∈ ({ start := a, len := len } : AddrRange) :: parts, x.Inside f := by
      intro x hx
      rcases List.mem_cons.mp hx with rfl | hx
      · exact ⟨ha, hfit⟩
      · exact hin x hx
    have hold : (f :: (given.map Given.range ++ before ++ next)).Pairwise AddrRange.Disjoint := by
      refine (List.Perm.pairwise_iff AddrRange.Disjoint.symm ?_).mp h.disjoint
      rw [hfree]
      refine List.perm_iff_count.mpr fun x => ?_
      simp only [List.count_append, List.count_cons]
      omega
    have hnew := pairwise_replace hold hpair hinside
    refine ⟨h.fits, ?_, ?_, ?_⟩
    · intro g hg
      rcases List.mem_append.mp hg with hg | hg
      · obtain rfl := List.mem_singleton.mp hg
        exact ⟨rfl, halign, hs⟩
      · exact h.asked g hg
    · intro x hx
      rw [hmem] at hx
      by_cases hxp : x ∈ ({ start := a, len := len } : AddrRange) :: parts
      · obtain ⟨h1, h2⟩ := hinside x hxp
        obtain ⟨h3, h4⟩ := hfr
        exact ⟨r, hr, by omega, by omega⟩
      · apply h.inside x
        rw [hfree]
        simp only [Option.map_some, Option.toList_some, List.map_cons, List.map_append, List.mem_append,
          List.mem_cons, List.map_nil, List.not_mem_nil, or_false] at hx hxp ⊢
        tauto
    · refine (List.Perm.pairwise_iff AddrRange.Disjoint.symm ?_).mp hnew
      rw [hmem]
      refine List.perm_iff_count.mpr fun x => ?_
      simp only [Option.map_some, Option.toList_some, List.map_cons, List.map_append, List.map_nil,
        List.count_append, List.count_cons, List.count_nil]
      omega

theorem alignTo_lt {x align : ℕ} : alignTo x align < 2 ^ 32 :=
  Nat.lt_of_le_of_lt Nat.and_le_left (Nat.mod_lt _ (by decide))

theorem Sound.request {r : Request} {cid : ℤ} {g : Option Given} (h : Sound ram given mem)
    (hsafe : (MemStep.request r).Safe ram mem) (hrun : requestFrame r mem = some (cid, g, mem')) :
    Sound ram (g.toList ++ given) mem' := by
  unfold requestFrame at hrun
  split at hrun
  · cases hrun
  · dsimp only at hrun
    split at hrun
    · cases hrun
    · rename_i l pool hget
      cases hrun
      rcases addrRangeGetAny_cases hget with ⟨-, hl⟩ | ⟨before, f, next, l', hfree, hl, hfind, hcut⟩
      · exact h.same hl
      · obtain ⟨halign, ha, hfit⟩ := hsafe f hfind
        exact h.cut (s := none) hfree ha alignTo_lt hfit halign (fun x hx => by cases hx) hcut hl
    · rename_i m l pool hget
      split_ifs at hrun
      cases hrun
      rcases addrRangeGetAny_cases hget with ⟨ho, -⟩ | ⟨before, f, next, l', hfree, hl, hfind, hcut⟩
      · cases ho
      · obtain ⟨halign, ha, hfit⟩ := hsafe f hfind
        exact h.cut (s := none) hfree ha alignTo_lt hfit halign (fun x hx => by cases hx) hcut hl

theorem Sound.get {start len : ℕ} (h : Sound ram given mem) (hsafe : (MemStep.get start len).Safe ram mem)
    (hrun : (MemStep.get start len).run mem = some (more, mem')) : Sound ram (more ++ given) mem' := by
  obtain ⟨⟨o, l, pool⟩, hget, he⟩ := Option.map_eq_some_iff.mp hrun
  cases he
  rcases addrRangeGet_cases hget with ⟨rfl, hl⟩ | ⟨before, f, next, l', hfree, hl, hle, hlt, hsize, hcut⟩
  · exact h.same hl
  · have hmem : f ∈ mem.ramFree := by simp [hfree]
    have hwrap : start + len < 2 ^ 32 := hsafe.resolve_right fun hnone => hnone f hmem ⟨hle, hlt⟩
    have hend : add32 f.start f.len ≤ f.start + f.len := Nat.mod_le _ _
    have hfit : start + len ≤ f.start + f.len := by
      rw [add32_eq hwrap] at hsize
      omega
    exact h.cut hfree hle (by omega) hfit (Nat.one_dvd _) (fun x hx => Option.some.inj hx) hcut hl

theorem Sound.addRam {start len : ℕ} (h : Sound ram given mem)
    (hsafe : (MemStep.addRam start len).Safe ram mem)
    (hrun : Agatha.Root.addRam start len mem = some mem') :
    Sound ({ start := start, len := len } :: ram) given mem' := by
  obtain ⟨hfits, hnew⟩ := hsafe
  unfold Agatha.Root.addRam at hrun
  split_ifs at hrun
  cases hrun
  have hold : ∀ x ∈ given.map Given.range ++ mem.ramFree,
      x.Disjoint { start := start, len := len } := by
    intro x hx
    obtain ⟨r, hr, hxr⟩ := h.inside x hx
    exact (hnew r hr).inside hxr
  refine ⟨?_, h.asked, ?_, ?_⟩
  · intro r hr
    rcases List.mem_cons.mp hr with rfl | hr
    · exact hfits
    · exact h.fits r hr
  · intro x hx
    by_cases he : x = { start := start, len := len }
    · exact ⟨_, List.mem_cons_self, he ▸ ⟨Nat.le_refl _, Nat.le_refl _⟩⟩
    · have hx' : x ∈ given.map Given.range ++ mem.ramFree := by
        simp only [List.mem_append, List.mem_cons, he, false_or] at hx ⊢
        exact hx
      obtain ⟨r, hr, hxr⟩ := h.inside x hx'
      exact ⟨r, List.mem_cons_of_mem _ hr, hxr⟩
  · have hcons : (({ start := start, len := len } : AddrRange) ::
        (given.map Given.range ++ mem.ramFree)).Pairwise AddrRange.Disjoint :=
      List.pairwise_cons.mpr ⟨fun x hx => (hold x hx).symm, h.disjoint⟩
    exact (List.Perm.pairwise_iff AddrRange.Disjoint.symm List.perm_middle.symm).mp hcons

theorem ram_handed_out (run : MemRun MemStep.Safe ram given mem) : HandedOut ram given mem := by
  have hsound : Sound ram given mem := by
    induction run with
    | start h =>
      refine ⟨fun r hr => (by cases hr), fun g hg => (by cases hg), ?_, ?_⟩
      · intro x hx
        rw [h] at hx
        cases hx
      · rw [h]
        exact List.Pairwise.nil
    | @step ram given more mem mem' s _ hsafe hrun ih =>
      cases s with
      | addRam start len =>
        obtain ⟨mem₁, hadd, he⟩ := Option.map_eq_some_iff.mp hrun
        cases he
        exact ih.addRam hsafe hadd
      | get start len => exact ih.get hsafe hrun
      | request r =>
        obtain ⟨x, hreq, he⟩ := Option.map_eq_some_iff.mp hrun
        cases he
        exact ih.request hsafe hreq
      | spare i cid =>
        cases hrun
        exact ih.same rfl
  exact hsound.handedOut

theorem option_reverse {α : Type} (o : Option α) : o.toList.reverse = o.toList := by
  cases o with
  | none => rfl
  | some a => rfl

section Whole

variable {cond : List AddrRange → Mem → MemStep → Prop} {r : Request} {refill : Fin 3 → Refill}

theorem MemStep.request_run {cid : ℤ} {g : Option Given} (h : requestFrame r mem = some (cid, g, mem')) :
    (MemStep.request r).run mem = some (g.toList, mem') :=
  congrArg (Option.map fun x : ℤ × Option Given × Mem => (x.2.1.toList, x.2.2)) h

theorem MemRun.nested {rs : List Request} (hcond : ∀ ram mem s, cond ram mem s)
    (run : MemRun cond ram given mem) (h : requestNested rs mem = some (more, mem')) :
    MemRun cond ram (more.reverse ++ given) mem' := by
  induction rs generalizing given mem more with
  | nil =>
    cases h
    exact run
  | cons r rs ih =>
    unfold requestNested at h
    split at h
    · cases h
    · rename_i cid g mem₁ hreq
      obtain ⟨x, hrest, he⟩ := Option.map_eq_some_iff.mp h
      cases he
      rw [List.reverse_append, option_reverse, List.append_assoc]
      exact ih (run.step (hcond _ _ _) (MemStep.request_run hreq)) hrest

theorem MemRun.replenish {is : List (Fin 3)} (hcond : ∀ ram mem s, cond ram mem s)
    (run : MemRun cond ram given mem)
    (h : Agatha.Root.replenish refill is mem = some (more, mem')) :
    MemRun cond ram (more.reverse ++ given) mem' := by
  induction is generalizing given mem more with
  | nil =>
    cases h
    exact run
  | cons i is ih =>
    unfold Agatha.Root.replenish at h
    split at h
    · split at h
      · cases h
      · rename_i g mem₁ hnested
        split at h
        · cases h
        obtain ⟨x, hrest, he⟩ := Option.map_eq_some_iff.mp h
        cases he
        have hstep : (MemStep.spare i (refill i).cid).run mem₁ =
            some ([], mem₁.setSpare i (refill i).cid) := rfl
        rw [List.reverse_append, List.append_assoc]
        exact ih ((run.nested hcond hnested).step (hcond _ _ _) hstep) hrest
    · exact ih run h

theorem MemRun.requestMemory {cid : ℤ} (hcond : ∀ ram mem s, cond ram mem s)
    (run : MemRun cond ram given mem)
    (h : Agatha.Root.requestMemory r refill mem = some (cid, more, mem')) :
    MemRun cond ram (more.reverse ++ given) mem' := by
  unfold Agatha.Root.requestMemory at h
  split at h
  · cases h
  · rename_i cid' mem₁ hreq
    cases h
    exact run.step (hcond _ _ _) (MemStep.request_run hreq)
  · rename_i cid' g mem₁ hreq
    obtain ⟨x, hrest, he⟩ := Option.map_eq_some_iff.mp h
    cases he
    rw [List.reverse_cons, List.append_assoc]
    exact (run.step (hcond _ _ _) (MemStep.request_run hreq)).replenish hcond hrest

end Whole

def MemStep.Plain (ram : List AddrRange) (_ : Mem) : MemStep → Prop
  | .addRam start len =>
    AddrRange.Fits { start := start, len := len } ∧ ∀ r ∈ ram, r.Disjoint { start := start, len := len }
  | .request r => 0 < r.align ∧ 0x1000 ∣ r.align
  | _ => True

def smallMem : Mem := { addrPool := 2048, ramFree := [], spareFrames := fun _ => 5 }

theorem ram_handed_out_small : ∃ given mem,
    MemRun MemStep.Safe [{ start := 0x101000, len := 0xff000 }] given mem ∧
      given.map Given.range = [{ start := 0x101000, len := 0x1000 }, { start := 0x108000, len := 0x2000 }] ∧
      HandedOut [{ start := 0x101000, len := 0xff000 }] given mem := by
  have hadd : (MemStep.addRam 0x101000 0xff000).run smallMem = some ([], _) := rfl
  have hrun : MemRun MemStep.Safe _ _ _ :=
    (@MemRun.start MemStep.Safe smallMem rfl).step (s := .addRam 0x101000 0xff000)
      ⟨⟨by decide, by decide⟩, fun r hr => by cases hr⟩ hadd
  have hskips : (MemStep.request { len := 0x2000, align := 0x8000, setup := true }).run
      { addrPool := 2047, ramFree := [{ start := 0x101000, len := 0xff000 }], spareFrames := fun _ => 5 } =
      some ([{ start := none, len := 0x2000, align := 0x8000
               range := { start := 0x108000, len := 0x2000 } }], _) := rfl
  have hfirst := hrun.step (s := .request _)
    (fun f hf => by cases hf; exact ⟨by decide, by decide, by decide⟩) hskips
  have hnext : (MemStep.request { len := 0x1000, align := 0x1000, setup := true }).run
      { addrPool := 2046, ramFree := [{ start := 0x101000, len := 0x7000 }, { start := 0x10a000, len := 0xf6000 }]
        spareFrames := Function.update (fun _ => 5) 0 (-1) } =
      some ([{ start := none, len := 0x1000, align := 0x1000
               range := { start := 0x101000, len := 0x1000 } }], _) := rfl
  have hsecond := hfirst.step (s := .request _)
    (fun f hf => by cases hf; exact ⟨by decide, by decide, by decide⟩) hnext
  exact ⟨_, _, hsecond, rfl, ram_handed_out hsecond⟩

theorem ram_handed_out_past_end : ¬∀ ram given mem, MemRun MemStep.Plain ram given mem →
    HandedOut ram given mem := by
  intro hall
  have hadd : (MemStep.addRam 0x1000 0x1000).run smallMem = some ([], _) := rfl
  have hrun : MemRun MemStep.Plain _ _ _ :=
    (@MemRun.start MemStep.Plain smallMem rfl).step (s := .addRam 0x1000 0x1000)
      ⟨⟨by decide, by decide⟩, fun r hr => by cases hr⟩ hadd
  have hreq : (MemStep.request { len := 0x1000, align := 0x4000, setup := true }).run
      { addrPool := 2047, ramFree := [{ start := 0x1000, len := 0x1000 }], spareFrames := fun _ => 5 } =
      some ([{ start := none, len := 0x1000, align := 0x4000
               range := { start := 0x4000, len := 0x1000 } }], _) := rfl
  obtain ⟨r, hr, hin⟩ := (hall _ _ _ (hrun.step (s := .request _) ⟨by decide, by decide⟩ hreq)).inside _ List.mem_cons_self
  obtain rfl := List.mem_singleton.mp hr
  exact absurd hin.2 (by decide)

end Runs

end Agatha.Root
