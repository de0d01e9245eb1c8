import Agatha.Sys.ObjectEffects

/-!
Kernel objects as a process makes them (`arm/lib/c/sys.c`), against the kernel. A process other than root
asks its parent for memory, so none of these calls runs within another.
-/

namespace Agatha.User.KernelObjects

open Sys Kernel Library.Areas

structure Kobj where
  cid : ℕ
  claimed : Bool
  type : ℕ
  len : ℕ

abbrev State := Kernel × List Making

/-- What a call meets: memory that it asked for and got, in the slots `cids`, or not; the region that
`kernel_map` returned; and what the kernel answered. -/
inductive Event
  | memory (cids : List ℕ) (s s' : State)
  | frame (cid len : ℕ) (s s' : State)
  | refused
  | mapped (o len : ℕ) (s : State)
  | call (r : Option ℤ)

/-- `caps` are the bits of `kcap_list_initial`, `nFree` the free records of `kobj_pool`. -/
structure World where
  kobjs : List Kobj
  caps : ℕ → Bool
  nFree : ℕ
  kernel : State
  log : List Event

/-- What comes from outside, by the events so far: the kernel after a request, the slots that the mapping
of memory takes besides, the region of `kernel_map`, and `claimed` in a record that was never used. -/
structure Env where
  systick : ℤ
  request : ℕ → List ℕ → State → Option State
  more : ℕ → ℕ
  kernelMap : ℕ → ℕ
  claimed : ℕ → Bool

def World.say (x : Event) (w : World) : World := { w with log := w.log ++ [x] }

abbrev Call (α : Type) : Type := Except World (α × World)

def kcapAlloc (w : World) : Call ℕ :=
  match (List.range 480).find? fun o => !w.caps o with
  | none => .error w
  | some o => .ok (o * 4096, { w with caps := Function.update w.caps o true })

def kcapAllocs : ℕ → World → Call (List ℕ)
  | 0, w => .ok ([], w)
  | n + 1, w =>
    match kcapAlloc w with
    | .error w => .error w
    | .ok (cid, w) => (kcapAllocs n w).map fun (cids, w) => (cid :: cids, w)

def growPool (e : Env) (w : World) : Except World World :=
  (kcapAllocs (e.more w.log.length + 1) w).map fun (cids, w) =>
    match e.request w.log.length cids w.kernel with
    | none => w.say .refused
    | some s => { w.say (.memory cids w.kernel s) with kernel := s, nFree := w.nFree + 127 }

def kobjPoolAlloc (e : Env) (w : World) : Call (Option Bool) :=
  (if w.nFree < 5 then growPool e w else .ok w).map fun w =>
    if w.nFree = 0 then (none, w) else (some (e.claimed w.log.length), { w with nFree := w.nFree - 1 })

def requestMemory (e : Env) (len : ℕ) (w : World) : Call (Option ℕ) :=
  (kcapAlloc w).map fun (cid, w) =>
    match e.request w.log.length [cid] w.kernel with
    | none => (none, w.say .refused)
    | some s => (some cid, { w.say (.frame cid len w.kernel s) with kernel := s })

def World.call (r : Result) (w : World) : Bool × World :=
  match r with
  | none => (false, w.say (.call none))
  | some (v, ev, k) => (v = OK, { w.say (.call (some v)) with kernel := (k, w.kernel.2 ++ ev) })

def kobjAllocNew (e : Env) (u len : ℕ) (w : World) : Call Bool :=
  let len := if len < 0x1000 then 0x1000 else len
  match requestMemory e len w with
  | .error w => .error w
  | .ok (none, w) => .ok (false, w)
  | .ok (some fid, w) =>
    match kcapAlloc w with
    | .error w => .error w
    | .ok (cid, w) =>
      let o := e.kernelMap w.log.length
      match (w.say (.mapped o len w.kernel)).call (sysObjCreate 21 o u fid cid w.kernel.1) with
      | (false, w) => .ok (false, w)
      | (true, w) =>
        (kobjPoolAlloc e w).map fun
          | (none, w) => (false, w)
          | (some _, w) => (true, { w with kobjs := ⟨cid, false, objUntyped, len⟩ :: w.kobjs })

def kobjSplit (e : Env) (u i : ℕ) (w : World) : Call Bool :=
  match w.kobjs[i]? with
  | none => .ok (false, w)
  | some o =>
    if o.type ≠ objUntyped ∨ o.len < 4 then .ok (false, w)
    else
      match kcapAlloc w with
      | .error w => .error w
      | .ok (nid, w) =>
        match kobjPoolAlloc e w with
        | .error w => .error w
        | .ok (none, w) => .ok (false, w)
        | .ok (some claimed, w) =>
          match w.call (sysObjSplit u o.cid nid w.kernel.1) with
          | (false, w) => .ok (false, w)
          | (true, w) =>
            .ok (true, { w with
              kobjs := (w.kobjs.modify i fun o => { o with len := o.len / 2 }).insertIdx (i + 1)
                ⟨nid, claimed, objUntyped, o.len / 2⟩ })

def kobjTypeSize : ℤ → ℕ
  | 1 => 28
  | 2 => 4088
  | 3 => 1224
  | 4 => 20
  | 5 => 28
  | _ => 0

/-- The first loop of `kobj_alloc`; a length has 32 bits. -/
def roundUp (l : ℕ) : ℕ → ℕ → ℕ
  | 0, len => len
  | fuel + 1, len => if len < l then roundUp l fuel (2 * len) else len

def betterKobj (len : ℕ) (best : Option (Kobj × ℕ)) (o : Kobj × ℕ) : Option (Kobj × ℕ) :=
  if o.1.type = objUntyped ∧ o.1.claimed = false ∧ len ≤ o.1.len ∧ best.all (fun f => o.1.len < f.1.len) then some o
  else best

def findKobj (len : ℕ) (kobjs : List Kobj) : Option ℕ :=
  (kobjs.zipIdx.foldl (betterKobj len) none).map Prod.snd

def splits (e : Env) (u len i : ℕ) : ℕ → World → Call Bool
  | 0, w => .ok (true, w)
  | fuel + 1, w =>
    if w.kobjs[i]?.any (fun f => len < f.len) then
      match kobjSplit e u i w with
      | .error w => .error w
      | .ok (false, w) => .ok (false, w)
      | .ok (true, w) => splits e u len i fuel w
    else .ok (true, w)

def claim (i : ℕ) (w : World) : World :=
  { w with kobjs := w.kobjs.modify i fun f => { f with claimed := true } }

/-- The rest of `kobj_alloc` for record `i`. -/
def kobjTake (e : Env) (u : ℕ) (type : ℤ) (n len i : ℕ) (w : World) : Call ℤ :=
  match splits e u len i 32 (claim i w) with
  | .error w => .error w
  | .ok (false, w) => .ok (ERR, w)
  | .ok (true, w) =>
    match w.kobjs[i]? with
    | none => .ok (ERR, w)
    | some f =>
      match w.call (sysObjRetype e.systick u f.cid type n w.kernel.1) with
      | (false, w) => .ok (ERR, w)
      | (true, w) => .ok (f.cid, { w with kobjs := w.kobjs.modify i fun f => { f with type := type.toNat } })

def kobjAlloc (e : Env) (u : ℕ) (type : ℤ) (n : ℕ) (w : World) : Call ℤ :=
  let l := kobjTypeSize type
  if l = 0 then .ok (ERR, w)
  else
    let len := roundUp l 32 1
    match findKobj len w.kobjs with
    | some i => kobjTake e u type n len i w
    | none =>
      match kobjAllocNew e u len w with
      | .error w => .error w
      | .ok (false, w) => .ok (ERR, w)
      | .ok (true, w) => kobjTake e u type n len 0 w

def kobjAllocs (e : Env) (u : ℕ) : List ℤ → World → Call (List (ℤ × ℤ))
  | [], w => .ok ([], w)
  | type :: types, w =>
    match kobjAlloc e u type 1 w with
    | .error w => .error w
    | .ok (r, w) => (kobjAllocs e u types w).map fun (rs, w) => ((type, r) :: rs, w)

def Kobj.slot (r : Kobj) : ℕ := r.cid / 4096

def objAt (l : ℕ) (s : State) (i : ℕ) : ℕ := capObj s.1.mem (capSlot l i)

structure Leaves (boot : List (ℕ × ℕ)) (u l : ℕ) (cids : List ℕ) (s s' : State) : Prop where
  process : Process boot u l s → Process boot u l s'
  keeps : ∀ i < clistCaps, i * 4096 ∉ cids → Keeps boot l i s s'

/-- What a call relies on: requests are served, and `kernel_map` returns memory of its own. -/
def Event.Served (boot : List (ℕ × ℕ)) (u l : ℕ) : Event → Prop
  | .memory cids s s' => Leaves boot u l cids s s'
  | .frame cid len s s' => Leaves boot u l [cid] s s' ∧ NamesFrame l (cid / 4096) s' len
  | .refused => False
  | .mapped o len s => Fresh boot s.2 o len
  | .call _ => True

def Event.Succeeds : Event → Prop
  | .call r => r = some OK
  | _ => True

structure Mirrors (boot : List (ℕ × ℕ)) (l : ℕ) (caps : ℕ → Bool) (s : State) (r : Kobj) : Prop where
  cid : r.cid = r.slot * 4096
  small : r.slot < 480
  used : caps r.slot = true
  names : Names boot l r.slot s r.type r.len
  size : r.type = objUntyped → ∃ e ≤ 12, r.len = 2 ^ e

structure Inv (boot : List (ℕ × ℕ)) (u l : ℕ) (w : World) : Prop where
  process : Process boot u l w.kernel
  free : ∀ i < 480, w.caps i = false → capPerm w.kernel.1.mem (capSlot l i) = 0
  mirror : ∀ r ∈ w.kobjs, Mirrors boot l w.caps w.kernel r
  objs : (w.kobjs.map fun r => objAt l w.kernel r.slot).Nodup

def Runs (boot : List (ℕ × ℕ)) (u l : ℕ) (w w' : World) (P Q : Prop) : Prop :=
  ∃ ev, w'.log = w.log ++ ev ∧ ((∀ x ∈ ev, x.Served boot u l) → P → (∀ x ∈ ev, x.Succeeds) ∧ Q)

end Agatha.User.KernelObjects
