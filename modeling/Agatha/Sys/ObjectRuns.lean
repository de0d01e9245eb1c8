import Agatha.Sys.ObjectGrants

namespace Agatha.Sys

open Kernel Library Library.Bytes Library.Areas

def Root.objects (r : Root) : List (ℕ × ℕ) :=
  [(r.proc, 4096), (r.caplist, 4096), (r.untyped, 4096), (r.l1, 28)]

structure Root.Placed (r : Root) : Prop where
  fits : ∀ x ∈ r.objects, 0 < x.1 ∧ x.1 + x.2 ≤ 2 ^ 32
  apart : r.objects.Pairwise fun x y => Apart x.1 x.2 y.1 y.2

section Start

variable {r : Root} {mem : Bytes} {systick : ℤ} {a x i : ℕ}

def Root.heads (r : Root) (mem : Bytes) : Bytes :=
  let mem := (mem.fill r.proc 4096 0).fill r.caplist 4096 0
  let mem := (mem.fill r.untyped 4096 0).fill r.l1 28 0
  let mem := setHead r.proc objProc 1 mem
  let mem := objCaplistInit r.caplist 255 (setHead r.caplist objCaplist 1 mem)
  let mem := (setHead r.l1 objFrame 1 mem).put32 (r.l1 + 8) r.l1Pa
  let mem := (mem.put32 (r.l1 + 12) r.l1Len).put32 (r.l1 + 16) frameL1
  objUntypedInit r.untyped 4096 (setHead r.untyped objUntyped 1 mem)

theorem Root.Placed.pairs (h : r.Placed) : Apart r.proc 4096 r.caplist 4096 ∧
    Apart r.proc 4096 r.untyped 4096 ∧ Apart r.proc 4096 r.l1 28 ∧
    Apart r.caplist 4096 r.untyped 4096 ∧ Apart r.caplist 4096 r.l1 28 ∧
    Apart r.untyped 4096 r.l1 28 := by
  have hp := h.apart
  simp only [objects, List.pairwise_cons, List.mem_cons, List.not_mem_nil, or_false] at hp
  obtain ⟨h1, h2, h3, -⟩ := hp
  exact ⟨h1 _ (.inl rfl), h1 _ (.inr (.inl rfl)), h1 _ (.inr (.inr rfl)), h2 _ (.inl rfl),
    h2 _ (.inr rfl), h3 _ rfl⟩

theorem Root.mem_live : a ∈ live r.objects [] ↔
    a = r.proc ∨ a = r.caplist ∨ a = r.untyped ∨ a = r.l1 := by
  simp only [live, objects, List.foldl_nil, Set.mem_ofPred_eq, List.mem_cons, Prod.mk.injEq,
    List.not_mem_nil, or_false]
  constructor
  · rintro ⟨len, h | h | h | h⟩
    · exact .inl h.1
    · exact .inr (.inl h.1)
    · exact .inr (.inr (.inl h.1))
    · exact .inr (.inr (.inr h.1))
  · rintro (h | h | h | h)
    · exact ⟨4096, .inl ⟨h, rfl⟩⟩
    · exact ⟨4096, .inr (.inl ⟨h, rfl⟩)⟩
    · exact ⟨4096, .inr (.inr (.inl ⟨h, rfl⟩))⟩
    · exact ⟨28, .inr (.inr (.inr ⟨h, rfl⟩))⟩

theorem Root.heads_type (h : r.Placed) : objType (r.heads mem) r.proc = objProc ∧
    objType (r.heads mem) r.caplist = objCaplist ∧ objType (r.heads mem) r.untyped = objUntyped ∧
    objType (r.heads mem) r.l1 = objFrame := by
  obtain ⟨h1, h2, h3, h4, h5, h6⟩ := h.pairs
  unfold Apart at *
  refine ⟨?_, ?_, untyped_type, ?_⟩
  · rw [← setHead_type (o := r.proc) (t := objProc) (by decide)]
    apply get32_congr
    intro x hx1 hx2
    unfold heads
    rw [untyped_outside (by omega), put32_outside x (by omega), put32_outside x (by omega),
      put32_outside x (by omega), setHead_outside (by omega), objCaplistInit_outside (by omega),
      setHead_outside (by omega)]
  · rw [← setHead_type (o := r.caplist) (t := objCaplist) (by decide)]
    apply get32_congr
    intro x hx1 hx2
    unfold heads
    rw [untyped_outside (by omega), put32_outside x (by omega), put32_outside x (by omega),
      put32_outside x (by omega), setHead_outside (by omega), objCaplistInit_outside (by omega)]
  · rw [← setHead_type (o := r.l1) (t := objFrame) (by decide)]
    apply get32_congr
    intro x hx1 hx2
    unfold heads
    rw [untyped_outside (by omega), put32_outside x (by omega), put32_outside x (by omega),
      put32_outside x (by omega)]

theorem Root.heads_empty (h : r.Placed) (hi : i < clistCaps) :
    capPerm (r.heads mem) (capSlot r.caplist i) = 0 := by
  obtain ⟨h1, h2, h3, h4, h5, h6⟩ := h.pairs
  unfold clistCaps at hi
  unfold Apart at *
  have hout : ∀ m : Bytes, Agree (objUntypedInit r.untyped 4096 (setHead r.untyped objUntyped 1
      ((((setHead r.l1 objFrame 1 m).put32 (r.l1 + 8) r.l1Pa).put32 (r.l1 + 12) r.l1Len).put32
        (r.l1 + 16) frameL1))) m (capSlot r.caplist i) 4 := by
    intro m x hx1 hx2
    unfold capSlot at hx1 hx2
    rw [untyped_outside (by omega), put32_outside x (by omega), put32_outside x (by omega),
      put32_outside x (by omega), setHead_outside (by omega)]
  have hperm : capPerm (r.heads mem) (capSlot r.caplist i) =
      capPerm (objCaplistInit r.caplist 255 (setHead r.caplist objCaplist 1 (setHead r.proc objProc 1
        ((((mem.fill r.proc 4096 0).fill r.caplist 4096 0).fill r.untyped 4096 0).fill r.l1 28 0))))
        (capSlot r.caplist i) := get32_congr (hout _)
  rw [hperm]
  by_cases hi' : i < 255
  · exact objCaplistInit_slot hi'
  · have hzero : ((mem.fill r.proc 4096 0).fill r.caplist 4096 0).get32 (capSlot r.caplist i) = 0 :=
      get32_fill_zero (by unfold capSlot; omega) (by unfold capSlot; omega)
    rw [objCaplistInit_stale (by omega), ← hzero]
    apply get32_congr
    intro x hx1 hx2
    unfold capSlot at hx1 hx2
    rw [setHead_outside (by omega), fill_outside x (by omega), fill_outside x (by omega)]

theorem Root.Placed.ne (h : r.Placed) : r.caplist ≠ r.proc ∧ r.untyped ≠ r.proc ∧ r.l1 ≠ r.proc ∧
    r.untyped ≠ r.caplist ∧ r.l1 ≠ r.caplist ∧ r.l1 ≠ r.untyped := by
  have := h.pairs
  unfold Apart at this
  omega

theorem Root.origin_le (h : r.Placed) : origin r.objects [] r.proc = 4096 ∧
    origin r.objects [] r.caplist = 4096 ∧ origin r.objects [] r.untyped = 4096 ∧
    origin r.objects [] r.l1 = 28 := by
  obtain ⟨h1, h2, h3, h4, h5, h6⟩ := h.ne
  simp [origin, objects, List.lookup_cons, beq_eq_false_iff_ne.mpr, *]

theorem Root.mem_objects : (r.proc, 4096) ∈ r.objects ∧ (r.caplist, 4096) ∈ r.objects ∧
    (r.untyped, 4096) ∈ r.objects ∧ (r.l1, 28) ∈ r.objects := by
  simp [objects]

theorem Root.objects_cover {o len : ℕ} (ho : (o, len) ∈ r.objects) (h1 : o ≤ x) (h2 : x < o + len) :
    x ∈ cover r.objects [] := .inl ⟨(o, len), ho, h1, h2⟩

theorem Root.heads_part (h : r.Placed) :
    Partition (r.heads mem) (live r.objects []) (cover r.objects []) (origin r.objects []) := by
  obtain ⟨h1, h2, h3, h4, h5, h6⟩ := h.pairs
  obtain ⟨tp, tc, tu, tl⟩ := heads_type h
  obtain ⟨op, oc, ou, ol⟩ := origin_le h
  have lp : objLen (r.heads mem) r.proc = 1224 := by
    unfold objLen
    rw [tp]
    rfl
  have lc : objLen (r.heads mem) r.caplist = 4088 := objLen_caplist tc
  have lu : objLen (r.heads mem) r.untyped = 4096 := untyped_len (by decide)
  have ll : objLen (r.heads mem) r.l1 = 28 := by
    unfold objLen
    rw [tl]
    rfl
  obtain ⟨mp, mc, mu, ml⟩ := mem_objects (r := r)
  have fp : 0 < r.proc ∧ r.proc + 4096 ≤ 2 ^ 32 := h.fits _ mp
  have fc : 0 < r.caplist ∧ r.caplist + 4096 ≤ 2 ^ 32 := h.fits _ mc
  have fu : 0 < r.untyped ∧ r.untyped + 4096 ≤ 2 ^ 32 := h.fits _ mu
  have fl : 0 < r.l1 ∧ r.l1 + 28 ≤ 2 ^ 32 := h.fits _ ml
  have hempty : ∀ a, IsSlot (r.heads mem) (live r.objects []) a → capPerm (r.heads mem) a = 0 := by
    rintro _ ⟨c, hc, ht, i, hi, rfl⟩
    rcases mem_live.mp hc with rfl | rfl | rfl | rfl
    · rw [tp] at ht
      cases ht
    · exact heads_empty h hi
    · rw [tu] at ht
      cases ht
    · rw [tl] at ht
      cases ht
  refine ⟨⟨?_, ?_⟩, ?_, ?_, ?_, ?_, ?_, ?_⟩
  · intro a ha b hb hab
    unfold Apart at *
    rcases mem_live.mp ha with rfl | rfl | rfl | rfl <;>
      rcases mem_live.mp hb with rfl | rfl | rfl | rfl <;> omega
  · intro a ha x hx1 hx2
    rcases mem_live.mp ha with rfl | rfl | rfl | rfl
    · exact objects_cover mp hx1 (by omega)
    · exact objects_cover mc hx1 (by omega)
    · exact objects_cover mu hx1 (by omega)
    · exact objects_cover ml hx1 (by omega)
  · intro a ha
    rcases mem_live.mp ha with rfl | rfl | rfl | rfl <;> omega
  · intro a ha
    rcases mem_live.mp ha with rfl | rfl | rfl | rfl <;> omega
  · intro a ha
    rcases mem_live.mp ha with rfl | rfl | rfl | rfl
    · rw [tp]
      decide
    · rw [tc]
      decide
    · rw [tu]
      decide
    · rw [tl]
      decide
  · intro a ha
    rcases mem_live.mp ha with rfl | rfl | rfl | rfl <;> omega
  · exact fun a ha hp => absurd (hempty a ha) hp
  · exact fun a b ha _ hp => absurd (hempty a ha) hp

theorem initRoot_mem (h : r.Placed) : (initRoot systick r mem).mem =
    setCap (capSlot r.caplist 3) (capWrite ||| capRead) r.untyped
      (setCap (capSlot r.caplist 2) (capWrite ||| capRead) r.l1
        (setCap (capSlot r.caplist 0) (capWrite ||| capRead) r.caplist (r.heads mem))) := by
  obtain ⟨-, -, -, h4, -, -⟩ := h.pairs
  have hput : ∀ (i o v : ℕ) (q : ℕ) (mem : Bytes), i < 4 → r.untyped ≤ o → o + 4 ≤ r.untyped + 12 →
      (setCap (capSlot r.caplist i) (capWrite ||| capRead) q mem).put32 o v =
        setCap (capSlot r.caplist i) (capWrite ||| capRead) q (mem.put32 o v) := by
    intro i o v q mem hi h1 h2
    unfold Apart at h4
    rw [setCap_put32]
    unfold capSlot
    omega
  have hready : ∀ k : Kernel, (procReady r.proc k).mem = k.mem := fun k => SchedOnly.procReady.mem
  have hprio : ∀ (n : ℕ) (k : Kernel), (procSetPriority r.proc n k).mem = k.mem := by
    intro n k
    unfold procSetPriority
    simp only
    split
    · exact (SchedOnly.removeFromList.trans SchedOnly.addToListTail).mem
    · rfl
  unfold initRoot
  simp only [hready, hprio, setProc_mem]
  have hhead : ∀ (m : Bytes), ((setHead r.untyped objUntyped 1
      (setCap (capSlot r.caplist 2) (capWrite ||| capRead) r.l1
        (setCap (capSlot r.caplist 0) (capWrite ||| capRead) r.caplist m))).put32 (r.untyped + 8) 4096) =
      setCap (capSlot r.caplist 2) (capWrite ||| capRead) r.l1
        (setCap (capSlot r.caplist 0) (capWrite ||| capRead) r.caplist
          ((setHead r.untyped objUntyped 1 m).put32 (r.untyped + 8) 4096)) := by
    intro m
    unfold setHead
    rw [hput 2 _ _ _ _ (by omega) (by omega) (by omega),
      hput 2 r.untyped _ _ _ (by omega) (by omega) (by omega),
      hput 2 _ _ _ _ (by omega) (by omega) (by omega),
      hput 0 (r.untyped + 4) _ _ _ (by omega) (by omega) (by omega),
      hput 0 r.untyped _ _ _ (by omega) (by omega) (by omega),
      hput 0 _ _ _ _ (by omega) (by omega) (by omega)]
  rw [hhead]
  rfl

theorem initRoot_part (h : r.Placed) : Partition (initRoot systick r mem).mem (live r.objects [])
    (cover r.objects []) (origin r.objects []) ∧
      objType (initRoot systick r mem).mem r.caplist = objCaplist := by
  have hpart : Partition (r.heads mem) (live r.objects []) (cover r.objects [])
      (origin r.objects []) := Root.heads_part h
  obtain ⟨h1, h2, h3, h4, h5, h6⟩ := h.ne
  have hslot : ∀ i < clistCaps, IsSlot (r.heads mem) (live r.objects []) (capSlot r.caplist i) :=
    fun i hi => ⟨r.caplist, Root.mem_live.mpr (.inr (.inl rfl)), (Root.heads_type h).2.1, i, hi, rfl⟩
  have s0 := hslot 0 (by decide)
  have s2 := hslot 2 (by decide)
  have s3 := hslot 3 (by decide)
  have hlive : ∀ {o}, o = r.proc ∨ o = r.caplist ∨ o = r.untyped ∨ o = r.l1 →
      o ∈ live r.objects [] := fun ho => Root.mem_live.mpr ho
  have hlt : ∀ {o}, o ∈ live r.objects [] → o % 2 ^ 32 = o := fun ho =>
    Nat.mod_eq_of_lt (hpart.addr_lt ho)
  rw [initRoot_mem h]
  set mem₁ := setCap (capSlot r.caplist 0) (capWrite ||| capRead) r.caplist (r.heads mem) with hm₁
  set mem₂ := setCap (capSlot r.caplist 2) (capWrite ||| capRead) r.l1 mem₁ with hm₂
  -- the three slots in use and what they name
  have hused : ∀ a, IsSlot (r.heads mem) (live r.objects []) a →
      capPerm (setCap (capSlot r.caplist 3) (capWrite ||| capRead) r.untyped mem₂) a ≠ 0 →
      ∃ o : ℕ, capObj (setCap (capSlot r.caplist 3) (capWrite ||| capRead) r.untyped mem₂) a = o ∧
        (a = capSlot r.caplist 3 ∧ o = r.untyped ∨ a = capSlot r.caplist 2 ∧ o = r.l1 ∨
          a = capSlot r.caplist 0 ∧ o = r.caplist) := by
    intro a ha hp
    by_cases ha3 : a = capSlot r.caplist 3
    · refine ⟨r.untyped, ?_, .inl ⟨ha3, rfl⟩⟩
      rw [ha3, setCap_obj, hlt (hlive (.inr (.inr (.inl rfl))))]
    · obtain ⟨hp3, ho3⟩ := @setCap_apart mem₂ a _ (capWrite ||| capRead) r.untyped
        (hpart.slot_apart ha s3 ha3)
      by_cases ha2 : a = capSlot r.caplist 2
      · refine ⟨r.l1, ?_, .inr (.inl ⟨ha2, rfl⟩)⟩
        rw [ho3, ha2, hm₂, setCap_obj, hlt (hlive (.inr (.inr (.inr rfl))))]
      · obtain ⟨hp2, ho2⟩ := @setCap_apart mem₁ a _ (capWrite ||| capRead) r.l1
          (hpart.slot_apart ha s2 ha2)
        by_cases ha0 : a = capSlot r.caplist 0
        · refine ⟨r.caplist, ?_, .inr (.inr ⟨ha0, rfl⟩)⟩
          rw [ho3, ho2, ha0, hm₁, setCap_obj, hlt (hlive (.inr (.inl rfl)))]
        · exfalso
          have hp0 : capPerm mem₁ a = capPerm (r.heads mem) a :=
            (hpart.setCap_other ha s0 ha0).1
          rw [hp3, hp2, hp0] at hp
          obtain ⟨c, hc, ht, i, hi, rfl⟩ := ha
          obtain ⟨tp, tc, tu, tl⟩ := Root.heads_type h
          rcases Root.mem_live.mp hc with rfl | rfl | rfl | rfl
          · rw [tp] at ht
            cases ht
          · exact hp (Root.heads_empty h hi)
          · rw [tu] at ht
            cases ht
          · rw [tl] at ht
            cases ht
  have hmem : ∀ x, (∀ a, IsSlot (r.heads mem) (live r.objects []) a → x < a ∨ a + 8 ≤ x) →
      setCap (capSlot r.caplist 3) (capWrite ||| capRead) r.untyped mem₂ x = r.heads mem x := by
    intro x hx
    rw [setCap_outside (hx _ s3), hm₂, setCap_outside (hx _ s2), hm₁, setCap_outside (hx _ s0)]
  refine ⟨?_, (hpart.same_objects hmem (hlive (.inr (.inl rfl)))).1.trans (Root.heads_type h).2.1⟩
  apply hpart.slots hmem
  · intro a ha hp
    obtain ⟨o, ho, hc⟩ := hused a ha hp
    rw [ho]
    apply hlive
    omega
  · intro a b ha hb hpa hpb hab _
    obtain ⟨o, ho, hc⟩ := hused a ha hpa
    obtain ⟨o', ho', hc'⟩ := hused b hb hpb
    have hoo : o = o' := ho.symm.trans (hab.trans ho')
    omega

theorem initRoot_owned (h : r.Placed) : Owned r.objects (initRoot systick r mem) [] := by
  have hmem : ∀ k : Kernel, (procReady r.proc k).mem = k.mem := fun k => SchedOnly.procReady.mem
  have hproc : ∀ (m : Bytes) (u : Addr),
      ((procSetPriority r.proc 1 (procInit systick r.proc (.boot m))).proc u).capRoot = none ∧
      ((procSetPriority r.proc 1 (procInit systick r.proc (.boot m))).proc u).give = none ∧
      ((procSetPriority r.proc 1 (procInit systick r.proc (.boot m))).proc u).label = .user := by
    intro m u
    have hs : ((procInit systick r.proc (.boot m)).proc r.proc).slist = none := by simp [procInit]
    simp only [procSetPriority, setProc_proc_same, hs]
    by_cases hu : u = r.proc
    · simp [procInit, hu, boot, Proc.zero]
    · simp [procInit, setProc_proc, hu, boot, Proc.zero]
  obtain ⟨hpart, htype⟩ : Partition (initRoot systick r mem).mem (live r.objects [])
    (cover r.objects []) (origin r.objects []) ∧
      objType (initRoot systick r mem).mem r.caplist = objCaplist := initRoot_part h
  have hlive : r.caplist ∈ live r.objects [] := Root.mem_live.mpr (.inr (.inl rfl))
  unfold initRoot at hpart htype ⊢
  simp only [hmem] at hpart htype
  apply Owned.procReady
  refine ⟨hpart, ?_, ?_, ?_⟩
  · intro u l hl
    simp only [setProc_proc] at hl
    split_ifs at hl
    · cases hl
      exact ⟨hlive, htype⟩
    · rw [(hproc _ u).1] at hl
      cases hl
  · intro u a ha
    simp only [setProc_proc] at ha
    split_ifs at ha
    · simp only [(hproc _ r.proc).2.1] at ha
      cases ha
    · rw [(hproc _ u).2.1] at ha
      cases ha
  · intro u e a ha
    simp only [setProc_proc] at ha
    split_ifs at ha
    · simp only [(hproc _ r.proc).2.2] at ha
      cases ha
    · rw [(hproc _ u).2.2] at ha
      cases ha

end Start

inductive ObjCall
  | create (fid nid : ℤ) (o : Addr)
  | split (cid nid : ℤ)
  | merge (cidL cidH : ℤ)
  | retype (cid type : ℤ) (n : ℕ)
  | connect (cid nid : ℤ)
  | frameSetup (cid : ℤ) (type pa len : ℕ)
  | procSetup (cid vspace clist eid : ℤ)

def ObjCall.run (systick : ℤ) (fuel : ℕ) (u : Addr) (k : Kernel) : ObjCall → Result
  | .create fid nid o => sysObjCreate fuel o u fid nid k
  | .split cid nid => sysObjSplit u cid nid k
  | .merge cidL cidH => sysObjMerge u cidL cidH k
  | .retype cid type n => sysObjRetype systick u cid type n k
  | .connect cid nid => sysEndpointConnect u cid nid k
  | .frameSetup cid type pa len => sysFrameSetup u cid type pa len k
  | .procSetup cid vspace clist eid => sysProcSetup u cid vspace clist eid k

inductive MesgCall
  | mesg (dest : ℤ) (rq : Bytes) (cid : ℤ)
  | recv (dest cid : ℤ)
  | reply (dest pid : ℤ) (m : Bytes) (cid : ℤ)
  | signal (dest : ℤ) (s : BitVec 32)

def MesgCall.run (fuel : ℕ) (u : Addr) (k : Kernel) : MesgCall → Outcome
  | .mesg dest rq cid => sysMesg u dest rq cid k
  | .recv dest cid => sysRecv fuel u dest cid k
  | .reply dest pid m cid => sysReply fuel u dest pid m cid k
  | .signal dest s => sysSignal u dest s k

def Outcome.kernel : Outcome → Option Kernel
  | .ret _ _ k => some k
  | .sched _ k => some k
  | .panic => none
  | .stuck => none

def NonEmpty (u : Addr) (cid : ℤ) (k : Kernel) : Prop :=
  ∀ c, procFindCap u cid k = some c → capPerm k.mem c ≠ 0

/-- The new caplist of `sys_proc_setup` does not hold the three capabilities where it gets them. -/
def SetupApart (u : Addr) (vspace clist eid : ℤ) (k : Kernel) : Prop :=
  ∀ r x, procFindCap u clist k = some r → procFindCap u vspace k = some x ∨
    procFindCap u clist k = some x ∨ procFindCap u eid k = some x →
    ∀ i < 3, x ≠ capSlot (capObj k.mem r) i

def ObjCall.Valid (u : Addr) (k : Kernel) : ObjCall → Prop
  | .create fid nid _ => CidOk fid ∧ CidOk nid
  | .split cid nid => CidOk cid ∧ CidOk nid
  | .merge cidL cidH => (CidOk cidL ∧ NonEmpty u cidL k) ∧ CidOk cidH ∧ NonEmpty u cidH k
  | .retype cid type _ => CidOk cid ∧ (0 ≤ type ∧ type < objTypeN) ∧
      (type = objProc → k.nextpid < maxProcs)
  | .connect cid nid => CidOk cid ∧ CidOk nid
  | .frameSetup cid _ _ _ => CidOk cid ∧ NonEmpty u cid k
  | .procSetup cid vspace clist eid => CidOk cid ∧ (CidOk vspace ∧ CidOk clist ∧ CidOk eid) ∧
      SetupApart u vspace clist eid k

/-- No permissions lie where a new caplist gets the slots that `obj_caplist_init` passes over. -/
def ObjCall.Clean (u : Addr) (k : Kernel) : ObjCall → Prop
  | .retype cid type _ => type = objCaplist → ∀ c, procFindCap u cid k = some c →
      ∀ i, 255 ≤ i → i < clistCaps → capPerm k.mem (capSlot (capObj k.mem c) i) = 0
  | _ => True

def MesgCall.Valid : MesgCall → Prop
  | .mesg _ _ cid => CidOk cid
  | .recv _ cid => CidOk cid
  | .reply _ _ _ cid => CidOk cid
  | .signal _ _ => True

/-- One step of the processes, whose object calls all meet `P`, with the ledger of what was made. -/
inductive ObjStep (P : Addr → Kernel → ObjCall → Prop) (systick : ℤ) (boot : List (ℕ × ℕ)) :
    Kernel × List Making → Kernel × List Making → Prop
  | object {k k' : Kernel} {g ev : List Making} {u : Addr} {c : ObjCall} {fuel : ℕ} {r : ℤ}
      (running : k.up = some u) (user : (k.proc u).label = .user) (valid : P u k c)
      (fresh : ∀ o len, .mapped o len ∈ ev → Fresh boot g o len)
      (runs : c.run systick fuel u k = some (r, ev, k')) :
      ObjStep P systick boot (k, g) (k', g ++ ev)
  | message {k k' : Kernel} {g : List Making} {u : Addr} {c : MesgCall} {fuel : ℕ}
      (running : k.up = some u) (user : (k.proc u).label = .user) (valid : c.Valid)
      (runs : (c.run fuel u k).kernel = some k') : ObjStep P systick boot (k, g) (k', g)
  | resume {k k' : Kernel} {g : List Making} {u : Addr} {fuel : ℕ} (running : k.up = some u)
      (runs : (resume fuel u k).kernel = some k') : ObjStep P systick boot (k, g) (k', g)
  | start {k : Kernel} {g : List Making} (p : Addr) : ObjStep P systick boot (k, g) (procReady p k, g)
  | switch {k k' : Kernel} {g : List Making} (only : SchedOnly k k') :
      ObjStep P systick boot (k, g) (k', g)

def ObjReach (P : Addr → Kernel → ObjCall → Prop) (systick : ℤ) (r : Root) (mem : Bytes) :
    Kernel × List Making → Prop :=
  Relation.ReflTransGen (ObjStep P systick r.objects) (initRoot systick r mem, [])

def ValidClean (u : Addr) (k : Kernel) (c : ObjCall) : Prop := c.Valid u k ∧ c.Clean u k

section Runs

variable {P : Addr → Kernel → ObjCall → Prop} {systick : ℤ} {boot : List (ℕ × ℕ)} {r : Root}
variable {mem : Bytes} {k k' : Kernel} {g ev : List Making} {s s' : Kernel × List Making} {u : Addr}

theorem ObjCall.run_owned {c : ObjCall} {fuel : ℕ} {res : ℤ} (h : Owned boot k g)
    (hv : c.Valid u k) (hc : c.Clean u k)
    (hfresh : ∀ o len, .mapped o len ∈ ev → Fresh boot g o len)
    (hr : c.run systick fuel u k = some (res, ev, k')) : Owned boot k' (g ++ ev) := by
  cases c with
  | create fid nid o => exact sysObjCreate_owned h hv.1 hv.2 (fun len hl => hfresh o len hl) hr
  | split cid nid => exact sysObjSplit_owned h hv.1 hv.2 hr
  | merge cidL cidH => exact sysObjMerge_owned h hv.1.1 hv.2.1 hv.1.2 hv.2.2 hr
  | retype cid type n => exact sysObjRetype_owned h hv.1 hv.2.1 hc hr
  | connect cid nid => exact sysEndpointConnect_owned h hv.1 hv.2 hr
  | frameSetup cid type pa len => exact sysFrameSetup_owned h hv.1 hv.2 hr
  | procSetup cid vspace clist eid =>
    obtain ⟨-, ⟨hv, hl, he⟩, hapart⟩ := hv
    exact sysProcSetup_owned h hv hl he hapart hr

theorem Outcome.Owned.kernel {x : Outcome} (h : x.Owned boot g) (hk : x.kernel = some k') :
    Sys.Owned boot k' g := by
  cases x with
  | ret r ev k =>
    cases hk
    exact h
  | sched n k =>
    cases hk
    exact h
  | panic => cases hk
  | stuck => cases hk

theorem ObjStep.owned (h : Owned boot s.1 s.2) (hs : ObjStep ValidClean systick boot s s') :
    Owned boot s'.1 s'.2 := by
  cases hs with
  | object running user valid fresh runs => exact ObjCall.run_owned h valid.1 valid.2 fresh runs
  | @message k k' g u c fuel running user valid runs =>
    cases c with
    | mesg dest rq cid => exact (sysMesg_owned h valid).kernel runs
    | recv dest cid => exact (sysRecv_owned h valid).kernel runs
    | reply dest pid m cid => exact (sysReply_owned h valid).kernel runs
    | signal dest s => exact (sysSignal_owned h).kernel runs
  | resume running runs => exact (resume_owned h).kernel runs
  | start p => exact h.procReady
  | switch only => exact h.sched only

theorem ObjReach.owned (hr : r.Placed) (hs : ObjReach ValidClean systick r mem s) :
    Owned r.objects s.1 s.2 := by
  induction hs with
  | refl => exact initRoot_owned hr
  | tail _ hstep ih => exact hstep.owned ih

/-- Every slot of a live capability list is empty or names a live object that was initialised, and
a new capability list has empty slots only. -/
theorem capability_slots_valid (hr : r.Placed) (hs : ObjReach ValidClean systick r mem s) :
    (∀ l ∈ live r.objects s.2, objType s.1.mem l = objCaplist → ∀ i < clistCaps,
      capPerm s.1.mem (capSlot l i) = 0 ∨ capObj s.1.mem (capSlot l i) ∈ live r.objects s.2 ∧
        objType s.1.mem (capObj s.1.mem (capSlot l i)) < objTypeN) ∧
    ∀ u cid n ev k', ValidClean u s.1 (.retype cid objCaplist n) →
      sysObjRetype systick u cid objCaplist n s.1 = some (OK, ev, k') →
        ∀ c, procFindCap u cid s.1 = some c → ∀ i < clistCaps,
          capPerm k'.mem (capSlot (capObj s.1.mem c) i) = 0 := by
  have hown := hs.owned hr
  constructor
  · intro l hl ht i hi
    by_cases hp : capPerm s.1.mem (capSlot l i) = 0
    · exact .inl hp
    · have hlive := hown.part.named _ ⟨l, hl, ht, i, hi, rfl⟩ hp
      exact .inr ⟨hlive, hown.part.typed _ hlive⟩
  · intro u cid n ev k' hv hrun c hf i hi
    have hclean := hv.2 rfl c hf
    unfold sysObjRetype at hrun
    rw [if_neg (by decide), hf] at hrun
    simp only at hrun
    split_ifs at hrun
    · cases hrun
    · cases hrun
    · cases hrun
    · cases hrun
    · cases hrun
      change capPerm (objCaplistInit (capObj s.1.mem c) 255
        (setHead (capObj s.1.mem c) objCaplist 1 s.1.mem)) (capSlot (capObj s.1.mem c) i) = 0
      by_cases hi' : i < 255
      · exact objCaplistInit_slot hi'
      · rw [objCaplistInit_stale (by omega)]
        exact hclean i (by omega) hi

def named (boot : List (ℕ × ℕ)) (s : Kernel × List Making) : Set ℕ :=
  {o | ∃ a, IsSlot s.1.mem (live boot s.2) a ∧ capPerm s.1.mem a ≠ 0 ∧ capObj s.1.mem a = o}

/-- Named objects have memory of their own, within what the root process started with and what was
mapped since, and no more of it than they were made of. -/
theorem object_memory_owned (hr : r.Placed) (hs : ObjReach ValidClean systick r mem s) :
    (∀ o ∈ named r.objects s, ∀ o' ∈ named r.objects s, o ≠ o' →
      Apart o (objLen s.1.mem o) o' (objLen s.1.mem o')) ∧
    (∀ o ∈ named r.objects s, ∀ x, o ≤ x → x < o + objLen s.1.mem o → x ∈ cover r.objects s.2) ∧
    (∀ o ∈ named r.objects s, objLen s.1.mem o ≤ origin r.objects s.2 o) ∧
    ∀ a b, IsSlot s.1.mem (live r.objects s.2) a → IsSlot s.1.mem (live r.objects s.2) b →
      capPerm s.1.mem a ≠ 0 → capPerm s.1.mem b ≠ 0 → capObj s.1.mem a = capObj s.1.mem b →
      objType s.1.mem (capObj s.1.mem a) ≠ objEndpoint → a = b := by
  have hown := hs.owned hr
  have hlive : ∀ o ∈ named r.objects s, o ∈ live r.objects s.2 := by
    rintro _ ⟨a, ha, hp, rfl⟩
    exact hown.part.named a ha hp
  refine ⟨?_, ?_, ?_, hown.part.unique⟩
  · exact fun o ho o' ho' hne => hown.part.packed.apart o (hlive o ho) o' (hlive o' ho') hne
  · exact fun o ho => hown.part.packed.inside o (hlive o ho)
  · exact fun o ho => hown.part.origin o (hlive o ho)

def lowRoot : Root := ⟨4096, 8192, 12288, 16384, 65536, 16384⟩

theorem lowRoot_placed : lowRoot.Placed := ⟨by decide, by unfold Apart; decide⟩

def objTurn (u : Addr) (c : ObjCall) (s : Kernel × List Making) : Kernel × List Making :=
  match c.run 500 0 u s.1 with
  | some (_, ev, k) => (k, s.2 ++ ev)
  | none => s

theorem objTurn_reach {c : ObjCall} (hs : ObjReach P 500 r mem s) (running : s.1.up = some u)
    (user : (s.1.proc u).label = .user) (valid : P u s.1 c)
    (fresh : ∀ o len, Making.mapped o len ∉ (objTurn u c s).2) :
    ObjReach P 500 r mem (objTurn u c s) := by
  unfold objTurn at fresh ⊢
  cases hc : c.run 500 0 u s.1 with
  | none => exact hs
  | some x =>
    obtain ⟨res, ev, k⟩ := x
    rw [hc] at fresh
    refine hs.tail (.object running user valid (fun o len ho => ?_) hc)
    exact absurd (List.mem_append_right _ ho) (fresh o len)

def rootRuns : Kernel × List Making :=
  ({ initRoot 500 lowRoot (fun _ => 0) with up := some 4096 }, [])

theorem rootRuns_reach : ObjReach P 500 lowRoot (fun _ => 0) rootRuns :=
  .tail .refl (.switch ⟨fun _ => rfl, rfl, rfl, rfl, rfl, rfl⟩)

@[irreducible] def rootSplit : Kernel × List Making := objTurn 4096 (.split 12288 16384) rootRuns

theorem rootSplit_made : rootSplit.2 = [.split 12288 14336 4096] := by decide +kernel

theorem rootSplit_reach (hP : P 4096 rootRuns.1 (.split 12288 16384)) :
    ObjReach P 500 lowRoot (fun _ => 0) rootSplit := by
  have hmade := rootSplit_made
  unfold rootSplit at hmade ⊢
  apply objTurn_reach rootRuns_reach
  · rfl
  · decide +kernel
  · exact hP
  · rw [hmade]
    simp

-- the lower half keeps its place, and the header of the upper one stands behind it
example : objLen rootSplit.1.mem 12288 = 2048 ∧ objLen rootSplit.1.mem 14336 = 2048 := by decide +kernel

def rootForged : Kernel × List Making :=
  objTurn 4096 (.retype 12288 2 1) (objTurn 4096 (.merge 12288 16384) rootSplit)

theorem rootForged_made : rootForged.2 =
    [.split 12288 14336 4096, .merged 12288 14336 4096, .retyped 12288 4096] := by decide +kernel

example : objType rootForged.1.mem 12288 = objCaplist := by decide +kernel

theorem rootSplit_valid : ObjReach ValidClean 500 lowRoot (fun _ => 0) rootSplit :=
  rootSplit_reach ⟨⟨⟨by decide, by decide⟩, ⟨by decide, by decide⟩⟩, trivial⟩

theorem rootSplit_live {o : ℕ} : o ∈ live lowRoot.objects rootSplit.2 ↔
    o = 14336 ∨ o ∈ live lowRoot.objects [] := by
  rw [rootSplit_made]
  exact Iff.rfl

theorem rootSplit_list : 8192 ∈ live lowRoot.objects rootSplit.2 ∧
    objType rootSplit.1.mem 8192 = objCaplist := by
  constructor
  · rw [rootSplit_live]
    right
    exact Root.mem_live.mpr (.inr (.inl rfl))
  · decide +kernel

theorem rootSplit_slot {i : ℕ} (hi : i < clistCaps) :
    IsSlot rootSplit.1.mem (live lowRoot.objects rootSplit.2) (capSlot 8192 i) := by
  obtain ⟨hlive, htype⟩ := rootSplit_list
  exact ⟨_, hlive, htype, i, hi, rfl⟩

theorem capability_slots_valid_lowRoot :
    capPerm rootSplit.1.mem (capSlot 8192 4) = 0 ∨
      capObj rootSplit.1.mem (capSlot 8192 4) ∈ live lowRoot.objects rootSplit.2 ∧
        objType rootSplit.1.mem (capObj rootSplit.1.mem (capSlot 8192 4)) < objTypeN := by
  obtain ⟨hlive, htype⟩ := rootSplit_list
  exact (capability_slots_valid lowRoot_placed rootSplit_valid).1 _ hlive htype 4 (by decide)

theorem capability_slots_forged : ∃ s,
    ObjReach (fun u k c => c.Valid u k) 500 lowRoot (fun _ => 0) s ∧
      12288 ∈ live lowRoot.objects s.2 ∧ objType s.1.mem 12288 = objCaplist ∧
      capPerm s.1.mem (capSlot 12288 255) ≠ 0 ∧
      capObj s.1.mem (capSlot 12288 255) ∉ live lowRoot.objects s.2 := by
  have hsplit : ObjReach (fun u k c => c.Valid u k) 500 lowRoot (fun _ => 0) rootSplit :=
    rootSplit_reach ⟨⟨by decide, by decide⟩, ⟨by decide, by decide⟩⟩
  have hlow : procFindCap 4096 12288 rootSplit.1 = some 8224 := by decide +kernel
  have hhigh : procFindCap 4096 16384 rootSplit.1 = some 8232 := by decide +kernel
  have hmerge : ObjReach (fun u k c => c.Valid u k) 500 lowRoot (fun _ => 0)
      (objTurn 4096 (.merge 12288 16384) rootSplit) := by
    apply objTurn_reach hsplit
    · decide +kernel
    · decide +kernel
    · refine ⟨⟨⟨by decide, by decide⟩, fun c hc => ?_⟩, ⟨by decide, by decide⟩, fun c hc => ?_⟩
      · cases hlow.symm.trans hc
        decide +kernel
      · cases hhigh.symm.trans hc
        decide +kernel
    · have hmade : (objTurn 4096 (.merge 12288 16384) rootSplit).2 =
          [.split 12288 14336 4096, .merged 12288 14336 4096] := by decide +kernel
      rw [hmade]
      simp
  refine ⟨rootForged, ?_, ?_, by decide +kernel, by decide +kernel, ?_⟩
  · apply objTurn_reach hmerge
    · decide +kernel
    · decide +kernel
    · exact ⟨⟨by decide, by decide⟩, by decide, fun h => absurd h (by decide)⟩
    · change ∀ o len, Making.mapped o len ∉ rootForged.2
      rw [rootForged_made]
      simp
  · rw [rootForged_made]
    exact ⟨.inr (Root.mem_live.mpr (.inr (.inr (.inl rfl)))), by decide⟩
  · have hobj : capObj rootForged.1.mem (capSlot 12288 255) = 0 := by decide +kernel
    rw [hobj, rootForged_made]
    rintro ⟨h | h, -⟩
    · cases h
    · rcases Root.mem_live.mp h with h | h | h | h <;> cases h

theorem object_memory_owned_lowRoot :
    Apart 12288 (objLen rootSplit.1.mem 12288) 14336 (objLen rootSplit.1.mem 14336) :=
  (object_memory_owned lowRoot_placed rootSplit_valid).1
    12288 ⟨capSlot 8192 3, rootSplit_slot (by decide), by decide +kernel, by decide +kernel⟩
    14336 ⟨capSlot 8192 4, rootSplit_slot (by decide), by decide +kernel, by decide +kernel⟩ (by decide)

theorem object_memory_not_mapped : ∃ s, ObjReach ValidClean 500 lowRoot (fun _ => 0) s ∧
    ∃ o ∈ named lowRoot.objects s, ∃ x, o ≤ x ∧ x < o + objLen s.1.mem o ∧
      ¬ ∃ m len, Making.mapped m len ∈ s.2 ∧ m ≤ x ∧ x < m + len := by
  refine ⟨rootSplit, rootSplit_valid, 12288, ⟨capSlot 8192 3, rootSplit_slot (by decide),
    by decide +kernel, by decide +kernel⟩, 12288, by decide, by decide +kernel, ?_⟩
  rw [rootSplit_made]
  rintro ⟨m, len, h, -⟩
  simp at h

end Runs

end Agatha.Sys
