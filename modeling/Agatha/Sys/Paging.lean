import Agatha.Sys.Objects

/-!
Page tables, from `arm/kern/main.c`, `arm/kern/sys.c` and `arm/lib/c/mmu.c`. A table is read and
written at its physical address for as long as `kernel_map` holds it in the kernel's window. A call
goes astray where the source indexes past what it has mapped.
-/

namespace Agatha.Sys

open Kernel Library Library.Bytes

def frameDev : ℕ := 2
def frameL2 : ℕ := 4

def frameVa (mem : Bytes) (f : Addr) : ℕ := mem.get32 (f + 20)
def frameNext (mem : Bytes) (f : Addr) : Addr := mem.get32 (f + 24)

def l1x (va : ℕ) : ℕ := va % 2 ^ 32 / 2 ^ 20
def l2x (va : ℕ) : ℕ := va % 2 ^ 32 / 2 ^ 12 % 2 ^ 8
def l1pa (r : ℕ) : ℕ := r - r % 4
def l2pa (r : ℕ) : ℕ := r - r % 512

def l1Coarse : ℕ := 1
def l2Small : ℕ := 2
def apRwNo : ℕ := 1
def apRwRw : ℕ := 3

def pageAlign (x : ℕ) : ℕ := (x + 4095) % 2 ^ 32 / 4096 * 4096

def pageCount (len : ℕ) : ℕ := (len + 4095) / 4096

def pageBits (ap : ℕ) (cache : Bool) : ℕ :=
  if cache then l2Small ||| 7 <<< 6 ||| ap <<< 4 ||| 1 <<< 3 else l2Small ||| ap <<< 4 ||| 1 <<< 2

structure Machine where
  kernel : Kernel
  phys : Bytes
  vaNext : ℕ
  vaMin : ℕ
  vaMax : ℕ
  kernelL1 : ℕ
  kernelL2 : ℕ

def mapPages (l2 pa va ap : ℕ) (cache : Bool) : ℕ → Bytes → Bytes
  | 0, phys => phys
  | i + 1, phys => (mapPages l2 pa va ap cache i phys).put32 (l2 + 4 * (l2x va + i))
      ((pa + 4096 * i) ||| pageBits ap cache)

def unmapPages (l2 va : ℕ) : ℕ → Bytes → Bytes
  | 0, phys => phys
  | i + 1, phys => (unmapPages l2 va i phys).put32 (l2 + 4 * (l2x va + i)) 0

def mapL2 (l1 pa va : ℕ) : ℕ → Bytes → Bytes
  | 0, phys => phys
  | i + 1, phys => (mapL2 l1 pa va i phys).put32 (l1 + 4 * (l1x va + i))
      ((pa + 4096 * i) ||| l1Coarse)

namespace Machine

def tableCount (m : Machine) : ℕ := (m.vaMax - m.vaMin) / 2 ^ 20

def windowTable (m : Machine) (va : ℕ) : ℕ := m.kernelL2 + 4096 * (l1x va - l1x m.vaMin)

end Machine

/-- Where `kernel_map` puts `len` bytes, a multiple of the page size, with `va_next` at `va`; it
panics when there is no such place. -/
def windowPlace (vaMax len va : ℕ) : Option ℕ :=
  if (va + len) % 2 ^ 32 > vaMax then none
  else if l1x va ≠ l1x (va + len) then
    let va' := l1x (va + len) * 2 ^ 20
    if l1x va' ≠ l1x (va' + len) then none else some va'
  else some va

inductive Mapping
  | here (va : ℕ) (m : Machine)
  | panic
  | astray

def kernelMap (pa len : ℕ) (cache : Bool) (m : Machine) : Mapping :=
  let off := pa % 4096
  let len := pageAlign len
  match windowPlace m.vaMax len m.vaNext with
  | none => .panic
  | some va =>
    if l1x va < l1x m.vaMin ∨ m.tableCount ≤ l1x va - l1x m.vaMin ∨
        1024 < l2x va + pageCount len then .astray
    else .here (va + off)
      { m with
        vaNext := (va + len) % 2 ^ 32
        phys := mapPages (m.windowTable va) (pa - off) va apRwNo cache (pageCount len) m.phys }

def kernelUnmap (va len : ℕ) (m : Machine) : Machine :=
  { m with phys := unmapPages (m.windowTable va) va (pageCount len) m.phys }

/-- How a call ends: it returns, with the bytes of physical memory that it wrote itself, or gives
the processor away. -/
inductive Ending
  | ret (r : ℤ) (wrote : List (ℕ × ℕ)) (m : Machine)
  | sched (n : Option Addr) (m : Machine)
  | panic
  | astray
  | stuck

def Mapping.andThen (x : Mapping) (f : ℕ → Machine → Ending) : Ending :=
  match x with
  | .here va m => f va m
  | .panic => .panic
  | .astray => .astray

def Machine.setMem (m : Machine) (mem : Bytes) : Machine :=
  { m with kernel := { m.kernel with mem := mem } }

def procFindCapType (u : Addr) (cid : ℤ) (perm type : ℕ) (k : Kernel) : Option Addr :=
  match procFindCap u cid k with
  | none => none
  | some c =>
    if capPerm k.mem c &&& perm ≠ perm then none
    else if capPerm k.mem c ≠ 0 ∧ objType k.mem (capObj k.mem c) ≠ type then none
    else some c

def findFrame (u : Addr) (cid : ℤ) (m : Machine) : Option Addr :=
  procFindCapType u cid (capWrite ||| capRead) objFrame m.kernel

/-- `sys_frame_l1_setup` for the frame of the slot `c`. -/
def frameL1SetupAt (c : Addr) (m : Machine) : Ending :=
  let f := capObj m.kernel.mem c
  let pa := framePa m.kernel.mem f
  if frameType m.kernel.mem f ≠ frameMem then .ret ERR [] m
  else if pa % 0x4000 ≠ 0 then .ret ERR [] m
  else if frameLen m.kernel.mem f ≠ 0x4000 then .ret ERR [] m
  else
    (kernelMap pa 0x4000 true m).andThen fun va m =>
      let m := { m with phys := m.phys.copy pa m.phys m.kernelL1 0x4000 }
      let m := kernelUnmap va 0x4000 m
      let mem := m.kernel.mem.put32 (f + 16) frameL1
      .ret OK [(pa, 0x4000)] (m.setMem ((mem.put32 (f + 20) 0).put32 (f + 24) 0))

def sysFrameL1Setup (u : Addr) (cid : ℤ) (m : Machine) : Ending :=
  match findFrame u cid m with
  | none => .ret ERR [] m
  | some c => frameL1SetupAt c m

def pushFrame (tf ff va : ℕ) (mem : Bytes) : Bytes :=
  let mem := mem.put32 (ff + 20) va
  let mem := mem.put32 (ff + 24) (frameNext mem tf)
  mem.put32 (tf + 24) ff

/-- `sys_frame_l2_map` for the frames of the slots `tc` and `fc`. -/
def frameL2MapAt (tc fc : Addr) (va : ℕ) (m : Machine) : Ending :=
  let tf := capObj m.kernel.mem tc
  let ff := capObj m.kernel.mem fc
  if frameType m.kernel.mem tf ≠ frameL1 then .ret ERR [] m
  else if frameType m.kernel.mem ff ≠ frameMem then .ret ERR [] m
  else
    let tpa := framePa m.kernel.mem tf
    let pa := framePa m.kernel.mem ff
    let len := frameLen m.kernel.mem ff
    (kernelMap tpa 0x4000 true m).andThen fun l1 m =>
    (kernelMap pa len true m).andThen fun l2 m =>
      if 0x1000 < l1x va + pageCount len then .astray
      else
        let m := { m with phys := mapL2 tpa pa va (pageCount len) (m.phys.fill pa len 0) }
        let m := kernelUnmap l1 0x4000 (kernelUnmap l2 len m)
        let mem := pushFrame tf ff va (m.kernel.mem.put32 (ff + 16) frameL2)
        .ret OK [(pa, len), (tpa + 4 * l1x va, 4 * pageCount len)] (m.setMem (setCap fc 0 0 mem))

def sysFrameL2Map (u : Addr) (tid cid : ℤ) (va : ℕ) (m : Machine) : Ending :=
  match findFrame u tid m, findFrame u cid m with
  | some tc, some fc => frameL2MapAt tc fc va m
  | _, _ => .ret ERR [] m

/-- The L2 table that the loops of `sys_frame_map` and `sys_frame_unmap` hold: where it is mapped,
the entry of the L1 table it was read from, and its address. -/
structure OpenTable where
  va : ℕ
  x : ℕ
  pa : ℕ

def letGo (l2 : Option OpenTable) (m : Machine) : Machine :=
  match l2 with
  | some t => kernelUnmap t.va 4096 m
  | none => m

def nextTable (tpa va : ℕ) (f : OpenTable → Machine → Ending) (m : Machine) : Ending :=
  let entry := m.phys.get32 (tpa + 4 * l1x va)
  if entry = 0 then .panic
  else (kernelMap (l1pa entry) 4096 true m).andThen fun l2 m => f ⟨l2, l1x va, l1pa entry⟩ m

def openTable (tpa va : ℕ) (f : OpenTable → Machine → Ending) (l2 : Option OpenTable)
    (m : Machine) : Ending :=
  match l2 with
  | none => nextTable tpa va f m
  | some t => if t.x = l1x va then f t m else nextTable tpa va f (letGo l2 m)

def closeTables (l1 : ℕ) (l2 : Option OpenTable) (m : Machine) : Machine :=
  kernelUnmap l1 0x4000 (letGo l2 m)

/-- The loop of `sys_frame_map`, standing at `o`. -/
def frameMapLoop (tpa va pa len bits l1 : ℕ) (done : List (ℕ × ℕ) → Machine → Ending) :
    ℕ → ℕ → Option OpenTable → List (ℕ × ℕ) → Machine → Ending
  | 0, _, _, _, _ => .stuck
  | fuel + 1, o, l2, wrote, m =>
    if len ≤ o then done wrote (closeTables l1 l2 m)
    else
      openTable tpa (va + o) (fun t m =>
        let a := t.pa + 4 * l2x (va + o)
        if 4096 < t.pa % 4096 + 4 * l2x (va + o) + 4 then .astray
        else if m.phys.get32 a ≠ 0 then .panic
        else
          frameMapLoop tpa va pa len bits l1 done fuel ((o + 4096) % 2 ^ 32) (some t)
            (wrote ++ [(a, 4)]) { m with phys := m.phys.put32 a ((pa + o) ||| bits) }) l2 m

/-- `sys_frame_map` for the frames of the slots `tc` and `fc`. -/
def frameMapAt (fuel : ℕ) (tc fc : Addr) (va : ℕ) (cache : Bool) (m : Machine) : Ending :=
  let tf := capObj m.kernel.mem tc
  let ff := capObj m.kernel.mem fc
  let type := frameType m.kernel.mem ff
  if frameType m.kernel.mem tf ≠ frameL1 then .ret ERR [] m
  else if type ≠ frameMem ∧ type ≠ frameDev then .ret ERR [] m
  else
    let cache := if type = frameDev then false else cache
    let tpa := framePa m.kernel.mem tf
    (kernelMap tpa 0x4000 true m).andThen fun l1 m =>
      frameMapLoop tpa va (framePa m.kernel.mem ff) (frameLen m.kernel.mem ff)
        (pageBits apRwRw cache) l1
        (fun wrote m =>
          .ret OK wrote (m.setMem (setCap fc 0 0 (pushFrame tf ff va m.kernel.mem))))
        fuel 0 none [] m

def sysFrameMap (fuel : ℕ) (u : Addr) (tid cid : ℤ) (va : ℕ) (cache : Bool) (m : Machine) :
    Ending :=
  match findFrame u tid m, findFrame u cid m with
  | some tc, some fc => frameMapAt fuel tc fc va cache m
  | _, _ => .ret ERR [] m

/-- The search of `sys_frame_unmap` along the list of mapped frames, standing at the link `f`. -/
def findMapped (va : ℕ) (mem : Bytes) : ℕ → Addr → Option (Option Addr)
  | 0, _ => none
  | fuel + 1, f =>
    let ff := mem.get32 f
    if ff = 0 then some none
    else if frameType mem ff ≠ frameL2 ∧ frameVa mem ff = va then some (some f)
    else findMapped va mem fuel (ff + 24)

/-- The loop of `sys_frame_unmap`, standing at `o`, with the `pa` of the first entry in `first`. -/
def frameUnmapLoop (tpa va len l1 : ℕ) (done : List (ℕ × ℕ) → Machine → Ending) :
    ℕ → ℕ → ℕ → Option OpenTable → List (ℕ × ℕ) → Machine → Ending
  | 0, _, _, _, _, _ => .stuck
  | fuel + 1, o, first, l2, wrote, m =>
    if len ≤ o then done wrote (closeTables l1 l2 m)
    else
      openTable tpa (va + o) (fun t m =>
        let a := t.pa + 4 * l2x (va + o)
        if 4096 < t.pa % 4096 + 4 * l2x (va + o) + 4 then .astray
        else
          let entry := m.phys.get32 a
          if entry = 0 then .panic
          -- not continuous
          else if first ≠ 0 ∧ l2pa entry ≠ (first + o) % 2 ^ 32 then
            done wrote (closeTables l1 (some t) m)
          else
            frameUnmapLoop tpa va len l1 done fuel ((o + 4096) % 2 ^ 32)
              (if first = 0 then l2pa entry else first) (some t) (wrote ++ [(a, 4)])
              { m with phys := m.phys.put32 a 0 }) l2 m

/-- `sys_frame_unmap` for the frame of the slot `tc` and the empty slot `fc`. -/
def frameUnmapAt (fuel : ℕ) (tc fc : Addr) (va : ℕ) (m : Machine) : Ending :=
  let tf := capObj m.kernel.mem tc
  if frameType m.kernel.mem tf ≠ frameL1 then .ret ERR [] m
  else
    match findMapped va m.kernel.mem fuel (tf + 24) with
    | none => .stuck
    | some none => .ret ERR [] m
    | some (some f) =>
      let mem := m.kernel.mem
      let ff := mem.get32 f
      let mem := mem.put32 f (frameNext mem ff)
      let m := m.setMem ((mem.put32 (ff + 24) 0).put32 (ff + 20) 0)
      let tpa := framePa m.kernel.mem tf
      (kernelMap tpa 0x4000 true m).andThen fun l1 m =>
        frameUnmapLoop tpa va (frameLen m.kernel.mem ff) l1
          (fun wrote m =>
            .ret OK wrote (m.setMem (setCap fc (capRead ||| capWrite) ff m.kernel.mem)))
          fuel 0 0 none [] m

def sysFrameUnmap (fuel : ℕ) (u : Addr) (tid nid : ℤ) (va : ℕ) (m : Machine) : Ending :=
  match findFrame u tid m, procFindCapType u nid 0 0 m.kernel with
  | some tc, some fc => frameUnmapAt fuel tc fc va m
  | _, _ => .ret ERR [] m

def Windowed (Q : Machine → Prop) : Prop :=
  ∀ m phys va, (m.vaNext % 4096 = 0 → va % 4096 = 0) → Q m → Q { m with phys := phys, vaNext := va }

structure Tolerant (E : Ending → Prop) : Prop where
  panic : E .panic
  astray : E .astray
  stuck : E .stuck

def Written (Q : Machine → Prop) : Prop := ∀ m mem, Q m → Q (m.setMem mem)

def Ending.All (Q : Machine → Prop) : Ending → Prop
  | .ret _ _ m => Q m
  | .sched _ m => Q m
  | .panic => True
  | .astray => True
  | .stuck => True

section Loops

variable {Q : Machine → Prop} {E : Ending → Prop} {m : Machine} {pa len va tpa bits l1 : ℕ}
variable {cache : Bool} {l2 : Option OpenTable}

theorem letGo_all (hQ : Windowed Q) (h : Q m) : Q (letGo l2 m) := by
  cases l2 with
  | none => exact h
  | some t => exact hQ m _ m.vaNext id h

theorem closeTables_all (hQ : Windowed Q) (h : Q m) : Q (closeTables l1 l2 m) :=
  hQ _ _ _ id (letGo_all hQ h)

theorem pageAlign_dvd : pageAlign len % 4096 = 0 := by
  unfold pageAlign
  omega

theorem windowPlace_aligned {vaMax x y : ℕ} (h : windowPlace vaMax len x = some y)
    (hx : x % 4096 = 0) : y % 4096 = 0 := by
  unfold windowPlace at h
  simp only at h
  split_ifs at h <;> cases h <;> omega

theorem kernelMap_all {f : ℕ → Machine → Ending} (hE : Tolerant E) (hQ : Windowed Q) (h : Q m)
    (hf : ∀ va m, Q m → E (f va m)) : E ((kernelMap pa len cache m).andThen f) := by
  unfold kernelMap
  simp only
  cases hp : windowPlace m.vaMax (pageAlign len) m.vaNext with
  | none => exact hE.panic
  | some va =>
    simp only
    split_ifs
    · exact hE.astray
    · apply hf
      apply hQ m _ _ _ h
      intro hm
      have hva := windowPlace_aligned hp hm
      have hlen : pageAlign len % 4096 = 0 := pageAlign_dvd
      omega

theorem openTable_all {f : OpenTable → Machine → Ending} (hE : Tolerant E) (hQ : Windowed Q)
    (h : Q m) (hf : ∀ t m, Q m → E (f t m)) : E (openTable tpa va f l2 m) := by
  have hnext : ∀ m, Q m → E (nextTable tpa va f m) := by
    intro m h
    unfold nextTable
    simp only
    split_ifs
    · exact hE.panic
    · exact kernelMap_all hE hQ h fun _ _ h => hf _ _ h
  unfold openTable
  cases l2 with
  | none => exact hnext m h
  | some t =>
    simp only
    split_ifs
    · exact hf t m h
    · exact hnext _ (letGo_all hQ h)

theorem frameMapLoop_all {done : List (ℕ × ℕ) → Machine → Ending} (hE : Tolerant E)
    (hQ : Windowed Q) (hd : ∀ wrote m, Q m → E (done wrote m)) {fuel o : ℕ}
    {wrote : List (ℕ × ℕ)} (h : Q m) :
    E (frameMapLoop tpa va pa len bits l1 done fuel o l2 wrote m) := by
  induction fuel generalizing o l2 wrote m with
  | zero => exact hE.stuck
  | succ fuel ih =>
    unfold frameMapLoop
    split_ifs
    · exact hd _ _ (closeTables_all hQ h)
    · apply openTable_all hE hQ h
      intro t m h
      simp only
      split_ifs
      · exact hE.astray
      · exact hE.panic
      · exact ih (hQ m _ m.vaNext id h)

theorem frameUnmapLoop_all {done : List (ℕ × ℕ) → Machine → Ending} (hE : Tolerant E)
    (hQ : Windowed Q) (hd : ∀ wrote m, Q m → E (done wrote m)) {fuel o first : ℕ}
    {wrote : List (ℕ × ℕ)} (h : Q m) :
    E (frameUnmapLoop tpa va len l1 done fuel o first l2 wrote m) := by
  induction fuel generalizing o first l2 wrote m with
  | zero => exact hE.stuck
  | succ fuel ih =>
    unfold frameUnmapLoop
    by_cases hlen : len ≤ o
    · rw [if_pos hlen]
      exact hd _ _ (closeTables_all hQ h)
    · rw [if_neg hlen]
      apply openTable_all hE hQ h
      intro t m h
      simp only
      split
      · exact hE.astray
      · split
        · exact hE.panic
        · split
          · exact hd _ _ (closeTables_all hQ h)
          · exact ih (hQ m _ m.vaNext id h)

end Loops

-- a goal about a call would otherwise be evaluated through the mapping of a table
attribute [irreducible] kernelMap

section Frames

variable {Q : Machine → Prop} {m : Machine} {u : Addr} {tid cid nid : ℤ} {va fuel : ℕ} {cache : Bool}

theorem Ending.all_tolerant : Tolerant (Ending.All Q) := ⟨trivial, trivial, trivial⟩

theorem sysFrameL1Setup_all (hQ : Windowed Q) (hW : Written Q) (h : Q m) :
    (sysFrameL1Setup u cid m).All Q := by
  unfold sysFrameL1Setup frameL1SetupAt
  split
  · exact h
  · simp only
    split
    · exact h
    · split
      · exact h
      · split
        · exact h
        · apply kernelMap_all Ending.all_tolerant hQ h
          intro va m h
          exact hW _ _ (hQ m _ m.vaNext id h)

theorem sysFrameL2Map_all (hQ : Windowed Q) (hW : Written Q) (h : Q m) :
    (sysFrameL2Map u tid cid va m).All Q := by
  unfold sysFrameL2Map frameL2MapAt
  split
  · simp only
    split
    · exact h
    · split
      · exact h
      · apply kernelMap_all Ending.all_tolerant hQ h
        intro l1 m h
        apply kernelMap_all Ending.all_tolerant hQ h
        intro l2 m h
        split
        · trivial
        · exact hW _ _ (hQ m _ m.vaNext id h)
  · exact h

theorem sysFrameMap_all (hQ : Windowed Q) (hW : Written Q) (h : Q m) :
    (sysFrameMap fuel u tid cid va cache m).All Q := by
  unfold sysFrameMap frameMapAt
  split
  · simp only
    split
    · exact h
    · split
      · exact h
      · apply kernelMap_all Ending.all_tolerant hQ h
        intro l1 m h
        apply frameMapLoop_all Ending.all_tolerant hQ _ h
        intro wrote m h
        exact hW _ _ h
  · exact h

theorem sysFrameUnmap_all (hQ : Windowed Q) (hW : Written Q) (h : Q m) :
    (sysFrameUnmap fuel u tid nid va m).All Q := by
  unfold sysFrameUnmap frameUnmapAt
  split
  · simp only
    split
    · exact h
    · split
      · trivial
      · exact h
      · apply kernelMap_all Ending.all_tolerant hQ (hW _ _ h)
        intro l1 m h
        apply frameUnmapLoop_all Ending.all_tolerant hQ _ h
        intro wrote m h
        exact hW _ _ h
  · exact h

theorem windowed_kernel {k : Kernel} : Windowed fun m => m.kernel = k := fun _ _ _ _ h => h

theorem kernelMap_kernel {pa len : ℕ} {m' : Machine} (h : kernelMap pa len cache m = .here va m') : m'.kernel = m.kernel := by
  have hall : ((kernelMap pa len cache m).andThen fun _ m => .ret OK [] m).All fun m' => m'.kernel = m.kernel :=
    kernelMap_all Ending.all_tolerant windowed_kernel rfl fun _ _ hm => hm
  rw [h] at hall
  exact hall

end Frames

end Agatha.Sys
