import Mathlib.Data.Fintype.Basic
import Mathlib.Data.Int.Notation
import Mathlib.Data.List.FinRange
import Mathlib.Logic.Function.Basic

/-!
How the root process gives the services their endpoints, interrupts and registers (`arm/root/main.c` and
`arm/root/proc.c`).
-/

namespace Agatha.Root

def resourceLog : ℤ := 1
def resourceRegs : ℤ := 2
def resourceInt : ℤ := 3
def resourceTimer : ℤ := 4
def resourceSerial : ℤ := 5
def resourceBlock : ℤ := 6
def resourceNet : ℤ := 7
def resourceMount : ℤ := 8

def OK : ℤ := 0
def ERR : ℤ := -1

inductive ServiceCap (n : ℕ)
  | mount (i : Fin n)
  | connect (i : Fin n)
  | intr (i : Fin n)
  | regs (i : Fin n)
  deriving DecidableEq

structure Service where
  name : String
  isDevice : Bool
  reg : ℕ
  len : ℕ
  irqn : ℕ
  hasRegs : Bool
  hasIrq : Bool
  regCid : ℤ
  irqCid : ℤ
  resources : List (ℤ × String)
  pid : ℤ
  listenEid : ℤ
  connectEid : ℤ
  ends : resources.length < 16

def Service.withCids (listen connect reg irq : ℤ) (s : Service) : Service :=
  { s with listenEid := listen, connectEid := connect, regCid := reg, irqCid := irq }

/-- The services, the capabilities the root process holds of them, and the bits of `kcap_list_initial`. -/
structure Services (n : ℕ) where
  service : Fin n → Service
  caps : ℤ → Option (ServiceCap n)
  used : ℕ → Bool

def clistCaps : ℕ := 510

section Calls

variable {n : ℕ}

def findCap (cid : ℤ) (k : Services n) : Option (Option (ServiceCap n)) :=
  if 0 ≤ cid ∧ cid / 4096 < clistCaps then some (k.caps cid) else none

/-- The loop of `kcap_alloc`, at `o` with `left` bits to go. -/
def freeCap (used : ℕ → Bool) : ℕ → ℕ → Option ℕ
  | 0, _ => none
  | left + 1, o => if used o then freeCap used left (o + 1) else some o

def kcapAlloc (k : Services n) : ℤ × Services n :=
  match freeCap k.used clistCaps 0 with
  | some o => (o * 4096, { k with used := Function.update k.used o true })
  | none => (ERR, k)

def setService (i : Fin n) (s : Service) (k : Services n) : Services n :=
  { k with service := Function.update k.service i s }

def setCap (cid : ℤ) (c : Option (ServiceCap n)) (k : Services n) : Services n :=
  { k with caps := Function.update k.caps cid c }

def endpointConnect (cid nid : ℤ) (k : Services n) : ℤ × Services n :=
  match findCap cid k with
  | some (some (.mount i)) | some (some (.connect i)) =>
    match findCap nid k with
    | some none => (OK, setCap nid (some (.connect i)) k)
    | _ => (ERR, k)
  | _ => (ERR, k)

def strncmp : List Char → List Char → ℕ → Bool
  | _, _, 0 => true
  | [], [], _ + 1 => true
  | a :: s1, b :: s2, len + 1 => if a ≠ b then false else strncmp s1 s2 len
  | _, _, _ + 1 => false

def findServicePid (pid : ℤ) (k : Services n) : Option (Fin n) :=
  (List.finRange n).find? fun i => (k.service i).pid = pid

def findServiceResource (s : Service) (type : ℤ) (k : Services n) : Option (Fin n) :=
  match s.resources.find? fun r => r.1 = type with
  | none => none
  | some (_, name) =>
    (List.finRange n).find? fun i => strncmp (k.service i).name.toList name.toList 32

structure ResourceReq where
  pid : ℤ
  type : ℤ
  accepts : Bool

inductive ResourceResult
  | none
  | irqn (irqn : ℕ)
  | regs (pa len : ℕ)

structure ResourceRsp (n : ℕ) where
  ret : ℤ
  result : ResourceResult
  cap : Option (ServiceCap n)

/-- `reply_cap`, which sends nothing when the kernel finds no slot at `giveCap`. -/
def replyCap (rq : ResourceReq) (ret : ℤ) (result : ResourceResult) (giveCap : ℤ) (k : Services n) :
    Services n × Option (ResourceRsp n) :=
  if giveCap = 0 then (k, some { ret := ret, result := result, cap := none })
  else match findCap giveCap k with
    | none => (k, none)
    | some cap =>
      if rq.accepts then (setCap giveCap none k, some { ret := ret, result := result, cap := cap })
      -- the kernel's `reply` finds `p->give` nil and leaves the capability where it is
      else (k, some { ret := ret, result := result, cap := none })

def isShared (type : ℤ) : Bool :=
  type ∈ [resourceLog, resourceTimer, resourceBlock, resourceNet, resourceSerial]

def getMount (rq : ResourceReq) (i : Fin n) (k : Services n) : Services n × Option (ResourceRsp n) :=
  let s := k.service i
  if s.listenEid ≥ 0 then
    replyCap rq OK .none s.listenEid (setService i { s with listenEid := 0 } k)
  else replyCap rq ERR .none 0 k

def getShared (rq : ResourceReq) (i : Fin n) (k : Services n) : Services n × Option (ResourceRsp n) :=
  match findServiceResource (k.service i) rq.type k with
  | some r =>
    let (giveCap, k) := kcapAlloc k
    let (ret, k) := endpointConnect (k.service r).connectEid giveCap k
    replyCap rq ret .none giveCap k
  | none => replyCap rq ERR .none 0 k

def getInt (rq : ResourceReq) (i : Fin n) (k : Services n) : Services n × Option (ResourceRsp n) :=
  let s := k.service i
  if s.isDevice && !s.hasIrq then
    replyCap rq OK (.irqn s.irqn) s.irqCid (setService i { s with hasIrq := true } k)
  else replyCap rq ERR .none 0 k

def getRegs (rq : ResourceReq) (i : Fin n) (k : Services n) : Services n × Option (ResourceRsp n) :=
  let s := k.service i
  if s.isDevice && !s.hasRegs then
    replyCap rq OK (.regs s.reg s.len) s.regCid (setService i { s with hasRegs := true } k)
  else replyCap rq ERR .none 0 k

def getResource (rq : ResourceReq) (k : Services n) : Services n × Option (ResourceRsp n) :=
  match findServicePid rq.pid k with
  | none => (k, some { ret := ERR, result := .none, cap := none })
  | some i =>
    if rq.type = resourceMount then getMount rq i k
    else if isShared rq.type then getShared rq i k
    else if rq.type = resourceInt then getInt rq i k
    else if rq.type = resourceRegs then getRegs rq i k
    else replyCap rq ERR .none 0 k

/-- What `kobj_alloc`, and `create_frame` over it, leave when they succeed: `cid` was allocated and held
nothing of the services. -/
structure KobjAlloc (c : ServiceCap n) (cid : ℤ) (k k' : Services n) : Prop where
  slot : ∃ o : ℕ, 4 ≤ o ∧ o < clistCaps ∧ cid = o * 4096 ∧ k'.used o = true
  empty : k.caps cid = none
  caps : k'.caps = Function.update k.caps cid (some c)
  service : k'.service = k.service
  used : ∀ o, k.used o = true → k'.used o = true

def Connected (listen connect : ℤ) (k k' : Services n) : Prop :=
  connect = (kcapAlloc k).1 ∧ endpointConnect listen connect (kcapAlloc k).2 = (OK, k')

structure InitService (i : Fin n) (k k' : Services n) : Prop where
  run : ∃ listen connect reg irq k₁ k₂ k₃ k₄, KobjAlloc (.mount i) listen k k₁ ∧
    Connected listen connect k₁ k₂ ∧
    (if (k.service i).isDevice = true ∧ (k.service i).reg ≠ 0 then KobjAlloc (.regs i) reg k₂ k₃ else
      k₃ = k₂ ∧ reg = if (k.service i).isDevice then -1 else (k.service i).regCid) ∧
    (if (k.service i).isDevice = true ∧ 0 < (k.service i).irqn then KobjAlloc (.intr i) irq k₃ k₄ else
      k₄ = k₃ ∧ irq = if (k.service i).isDevice then -1 else (k.service i).irqCid) ∧
    k' = setService i ((k.service i).withCids listen connect reg irq) k₄

inductive InitServices : List (Fin n) → Services n → Services n → Prop
  | nil (k : Services n) : InitServices [] k k
  | cons {i : Fin n} {is : List (Fin n)} {k k' k'' : Services n} (first : InitService i k k')
      (rest : InitServices is k' k'') : InitServices (i :: is) k k''

def setPids (pids : Fin n → ℤ) (k : Services n) : Services n :=
  { k with service := fun i => { k.service i with pid := pids i } }

namespace ServiceCap

def exclusive : ServiceCap n → Bool
  | connect _ => false
  | _ => true

def owner : ServiceCap n → Fin n
  | mount i | connect i | intr i | regs i => i

end ServiceCap

def ResourceReq.Asks (rq : ResourceReq) (k : Services n) (c : ServiceCap n) : Prop :=
  ∃ i, findServicePid rq.pid k = some i ∧
    ((rq.type = resourceMount ∧ c = .mount i) ∨
    (rq.type = resourceInt ∧ (k.service i).isDevice = true ∧ 0 < (k.service i).irqn ∧ c = .intr i) ∨
    (rq.type = resourceRegs ∧ (k.service i).isDevice = true ∧ (k.service i).reg ≠ 0 ∧ c = .regs i) ∨
    (isShared rq.type = true ∧ ∃ name j, (rq.type, name) ∈ (k.service i).resources ∧
      strncmp (k.service j).name.toList name.toList 32 = true ∧ c = .connect j))

/-- The service asks for its mount endpoint while `listen_eid` is not yet cleared, and a device for its
interrupt or its registers only if it has them; where a capability is there to be given, the message
comes with a slot for it. -/
def ResourceReq.Orderly (rq : ResourceReq) (k : Services n) : Prop :=
  ∀ i, findServicePid rq.pid k = some i →
    (rq.type = resourceMount → (k.service i).listenEid ≠ 0 ∧ (0 ≤ (k.service i).listenEid → rq.accepts = true)) ∧
    (isShared rq.type = true → (∃ o < clistCaps, k.used o = false) →
      ∀ r, findServiceResource (k.service i) rq.type k = some r → rq.accepts = true) ∧
    (rq.type = resourceInt → (k.service i).isDevice = true → (k.service i).hasIrq = false →
      0 < (k.service i).irqn ∧ rq.accepts = true) ∧
    (rq.type = resourceRegs → (k.service i).isDevice = true → (k.service i).hasRegs = false →
      (k.service i).reg ≠ 0 ∧ rq.accepts = true)

def handedOver (rsp : Option (ResourceRsp n)) : List (ServiceCap n) := (rsp.bind ResourceRsp.cap).toList

/-- The states between requests, with all that has been handed over. -/
inductive ResourceRun : Services n → List (ServiceCap n) → Prop
  | init {k₀ k : Services n} (bits : ∀ o < 4, k₀.used o = true) (empty : ∀ cid, k₀.caps cid = none)
      (init : InitServices (List.finRange n) k₀ k) (pids : Fin n → ℤ) : ResourceRun (setPids pids k) []
  | request {k : Services n} {given : List (ServiceCap n)} {rq : ResourceReq} (h : ResourceRun k given)
      (orderly : rq.Orderly k) : ResourceRun (getResource rq k).1 (handedOver (getResource rq k).2 ++ given)
  -- other requests take slots as well
  | elsewhere {k k' : Services n} {given : List (ServiceCap n)} (h : ResourceRun k given)
      (service : k'.service = k.service) (caps : k'.caps = k.caps)
      (used : ∀ o, k.used o = true → k'.used o = true) : ResourceRun k' given

def Claims (k : Services n) (cid : ℤ) : ServiceCap n → Prop
  | .mount i => (k.service i).listenEid ≠ 0 ∧ cid = (k.service i).listenEid
  | .connect i => cid = (k.service i).connectEid
  | .intr i => (k.service i).isDevice = true ∧ 0 < (k.service i).irqn ∧ (k.service i).hasIrq = false ∧
    cid = (k.service i).irqCid
  | .regs i => (k.service i).isDevice = true ∧ (k.service i).reg ≠ 0 ∧ (k.service i).hasRegs = false ∧
    cid = (k.service i).regCid

structure Spare (k : Services n) : Prop where
  zero : k.used 0 = true
  empty : ∀ o : ℕ, k.used o = false → k.caps (o * 4096) = none

structure Kept (k : Services n) (given : List (ServiceCap n)) : Prop where
  spare : Spare k
  claims : ∀ c cid, Claims k cid c → cid ≠ 0 ∧ findCap cid k = some (some c) ∧ (c.exclusive = true → c ∉ given)
  nodup : (given.filter ServiceCap.exclusive).Nodup

structure Extends (k k' : Services n) : Prop where
  caps : ∀ cid c, k.caps cid = some c → k'.caps cid = some c
  service : k'.service = k.service
  spare : Spare k → Spare k'

variable {k k' k'' : Services n} {c : ServiceCap n} {cid ret : ℤ} {rq : ResourceReq} {i : Fin n}
  {given : List (ServiceCap n)} {o : ℕ} {result : ResourceResult} {D : List (Fin n)}

theorem findCap_iff : findCap cid k = some (some c) ↔ (0 ≤ cid ∧ cid / 4096 < clistCaps) ∧ k.caps cid = some c := by
  unfold findCap
  split_ifs with h
  · simp [h]
  · simp [h]

theorem Extends.refl (k : Services n) : Extends k k := ⟨fun _ _ h => h, rfl, fun h => h⟩

theorem Extends.trans (h : Extends k k') (h' : Extends k' k'') : Extends k k'' :=
  ⟨fun cid c hc => h'.caps cid c (h.caps cid c hc), h'.service.trans h.service, fun hs => h'.spare (h.spare hs)⟩

theorem Extends.findCap (h : Extends k k') (hc : findCap cid k = some (some c)) :
    findCap cid k' = some (some c) := by
  rw [findCap_iff] at hc ⊢
  exact ⟨hc.1, h.caps cid c hc.2⟩

theorem slot_valid (ho : o < clistCaps) : (0 : ℤ) ≤ o * 4096 ∧ (o * 4096 : ℤ) / 4096 < clistCaps := by
  unfold clistCaps at ho ⊢
  omega

theorem KobjAlloc.extends (h : KobjAlloc c cid k k') : Extends k k' := by
  obtain ⟨o, ho4, ho, hcid, hused⟩ := h.slot
  refine ⟨fun cid' c' hc => ?_, h.service, fun hs => ⟨h.used 0 hs.zero, fun o' ho' => ?_⟩⟩
  · rw [h.caps, Function.update_of_ne]
    · exact hc
    · rintro rfl
      rw [h.empty] at hc
      cases hc
  · rw [h.caps, Function.update_of_ne]
    · apply hs.empty
      by_contra hu
      rw [h.used o' (Bool.eq_true_of_not_eq_false hu)] at ho'
      cases ho'
    · rw [hcid]
      intro he
      obtain rfl : o' = o := by omega
      rw [hused] at ho'
      cases ho'

theorem KobjAlloc.found (h : KobjAlloc c cid k k') : cid ≠ 0 ∧ findCap cid k' = some (some c) := by
  obtain ⟨o, ho4, ho, rfl, hused⟩ := h.slot
  refine ⟨by omega, findCap_iff.mpr ⟨slot_valid ho, ?_⟩⟩
  rw [h.caps, Function.update_self]

theorem freeCap_some {used : ℕ → Bool} {left o' : ℕ} (h : freeCap used left o' = some o) :
    o < o' + left ∧ used o = false := by
  induction left generalizing o' with
  | zero => cases h
  | succ left ih =>
    rw [freeCap] at h
    split_ifs at h with hused
    · obtain ⟨hlt, ho⟩ := ih h
      exact ⟨by omega, ho⟩
    · obtain rfl := Option.some.inj h
      exact ⟨by omega, Bool.eq_false_of_not_eq_true hused⟩

theorem kcapAlloc_cases (k : Services n) : (∃ o, o < clistCaps ∧ k.used o = false ∧
    kcapAlloc k = ((o : ℤ) * 4096, { k with used := Function.update k.used o true })) ∨ kcapAlloc k = (ERR, k) := by
  unfold kcapAlloc
  cases ho : freeCap k.used clistCaps 0 with
  | none => exact .inr rfl
  | some o =>
    obtain ⟨hlt, hused⟩ := freeCap_some ho
    exact .inl ⟨o, by rwa [Nat.zero_add] at hlt, hused, rfl⟩

theorem findCap_err : findCap ERR k = none := by
  simp [findCap, ERR]

theorem findCap_empty (ho : o < clistCaps) (hc : k.caps (o * 4096) = none) : findCap (o * 4096) k = some none := by
  rw [findCap, if_pos (slot_valid ho), hc]

theorem endpointConnect_some {nid : ℤ} (hc : findCap cid k = some (some c)) (hi : c = .mount i ∨ c = .connect i) :
    endpointConnect cid nid k =
      if findCap nid k = some none then (OK, setCap nid (some (.connect i)) k) else (ERR, k) := by
  unfold endpointConnect
  rw [hc]
  rcases hi with rfl | rfl
  all_goals
    simp only
    split
    · rename_i h
      rw [if_pos h]
    · rename_i h
      rw [if_neg h]

theorem extends_alloc {used : ℕ → Bool} (hu : ∀ o, k.used o = true → used o = true) (hc : k.caps (o * 4096) = none)
    (ho : used o = true) (c : Option (ServiceCap n)) : Extends k (setCap (o * 4096) c { k with used := used }) := by
  refine ⟨fun cid c' h => ?_, rfl, fun hs => ⟨hu 0 hs.zero, fun o' ho' => ?_⟩⟩
  · refine (Function.update_of_ne ?_ _ _).trans h
    rintro rfl
    rw [hc] at h
    cases h
  · simp only [setCap] at ho' ⊢
    rw [Function.update_of_ne]
    · apply hs.empty
      by_contra h
      rw [hu o' (Bool.eq_true_of_not_eq_false h)] at ho'
      cases ho'
    · intro he
      obtain rfl : o' = o := by omega
      rw [ho] at ho'
      cases ho'

theorem used_update (o' : ℕ) (h : k.used o' = true) : Function.update k.used o true o' = true := by
  by_cases ho : o' = o
  · rw [ho, Function.update_self]
  · rw [Function.update_of_ne ho, h]

theorem Connected.extends {listen connect : ℤ} (h : Connected listen connect k k')
    (hl : findCap listen k = some (some (.mount i))) :
    Extends k k' ∧ (Spare k → connect ≠ 0) ∧ findCap connect k' = some (some (.connect i)) := by
  obtain ⟨hconnect, h⟩ := h
  rcases kcapAlloc_cases k with ⟨o, ho, hused, ha⟩ | ha
  · simp only [ha] at h hconnect
    subst hconnect
    have hl' : findCap listen { k with used := Function.update k.used o true } = some (some (.mount i)) := hl
    rw [endpointConnect_some hl' (.inl rfl)] at h
    split_ifs at h with hempty
    · cases h
      have hnone : k.caps (o * 4096) = none := by
        rw [findCap, if_pos (slot_valid ho)] at hempty
        exact Option.some.inj hempty
      have hself : Function.update k.used o true o = true := Function.update_self _ _ _
      refine ⟨extends_alloc used_update hnone hself _, fun hs h0 => ?_, findCap_iff.mpr ⟨slot_valid ho, ?_⟩⟩
      · obtain rfl : o = 0 := by omega
        rw [hs.zero] at hused
        cases hused
      · simp only [setCap, Function.update_self]
    · cases h
  · simp only [ha] at h hconnect
    subst hconnect
    rw [endpointConnect_some hl (.inl rfl), findCap_err, if_neg nofun] at h
    cases h

structure Initialised (k : Services n) (D : List (Fin n)) : Prop where
  spare : Spare k
  claims : ∀ c cid, c.owner ∈ D → Claims k cid c → cid ≠ 0 ∧ findCap cid k = some (some c)

theorem Claims.congr (h : k'.service c.owner = k.service c.owner) : Claims k' cid c ↔ Claims k cid c := by
  cases c <;> rw [ServiceCap.owner] at h <;> rw [Claims, Claims, h]

theorem InitService.initialised (hi : InitService i k k') (h : Initialised k D) : Initialised k' (i :: D) := by
  obtain ⟨listen, connect, reg, irq, k₁, k₂, k₃, k₄, hlisten, hconnect, hreg, hirq, rfl⟩ := hi.run
  obtain ⟨hl0, hlfound⟩ := hlisten.found
  obtain ⟨he₂, hcz, hcfound⟩ := hconnect.extends hlfound
  have hregs : Extends k₂ k₃ ∧ ((k.service i).isDevice = true ∧ (k.service i).reg ≠ 0 →
      reg ≠ 0 ∧ findCap reg k₃ = some (some (.regs i))) := by
    by_cases hd : (k.service i).isDevice = true ∧ (k.service i).reg ≠ 0
    · rw [if_pos hd] at hreg
      exact ⟨hreg.extends, fun _ => hreg.found⟩
    · rw [if_neg hd] at hreg
      rw [hreg.1]
      exact ⟨.refl _, fun h => absurd h hd⟩
  have hintr : Extends k₃ k₄ ∧ ((k.service i).isDevice = true ∧ 0 < (k.service i).irqn →
      irq ≠ 0 ∧ findCap irq k₄ = some (some (.intr i))) := by
    by_cases hd : (k.service i).isDevice = true ∧ 0 < (k.service i).irqn
    · rw [if_pos hd] at hirq
      exact ⟨hirq.extends, fun _ => hirq.found⟩
    · rw [if_neg hd] at hirq
      rw [hirq.1]
      exact ⟨.refl _, fun h => absurd h hd⟩
  obtain ⟨he₃, hregs⟩ := hregs
  obtain ⟨he₄, hintr⟩ := hintr
  have he := hlisten.extends.trans (he₂.trans (he₃.trans he₄))
  refine ⟨⟨(he.spare h.spare).zero, (he.spare h.spare).empty⟩, fun c cid hD hc => ?_⟩
  by_cases hown : c.owner = i
  · have hself : (setService i ((k.service i).withCids listen connect reg irq) k₄).service i =
        (k.service i).withCids listen connect reg irq := Function.update_self _ _ _
    cases c with
    | mount j =>
      obtain rfl : j = i := hown
      rw [Claims, hself] at hc
      obtain rfl : cid = listen := hc.2
      exact ⟨hl0, (he₂.trans (he₃.trans he₄)).findCap hlfound⟩
    | connect j =>
      obtain rfl : j = i := hown
      rw [Claims, hself] at hc
      obtain rfl : cid = connect := hc
      exact ⟨hcz (hlisten.extends.spare h.spare), (he₃.trans he₄).findCap hcfound⟩
    | intr j =>
      obtain rfl : j = i := hown
      rw [Claims, hself] at hc
      obtain rfl : cid = irq := hc.2.2.2
      exact hintr ⟨hc.1, hc.2.1⟩
    | regs j =>
      obtain rfl : j = i := hown
      rw [Claims, hself] at hc
      obtain rfl : cid = reg := hc.2.2.2
      obtain ⟨h0, hfound⟩ := hregs ⟨hc.1, hc.2.1⟩
      exact ⟨h0, he₄.findCap hfound⟩
  · have hother : ∀ x, (setService i x k₄).service c.owner = k.service c.owner := by
      intro x
      simp only [setService, Function.update_of_ne hown, he.service]
    rw [Claims.congr (hother _)] at hc
    obtain ⟨h0, hfound⟩ := h.claims c cid ((List.mem_cons.mp hD).resolve_left hown) hc
    exact ⟨h0, he.findCap hfound⟩

theorem InitServices.initialised {is : List (Fin n)} (hi : InitServices is k k') (h : Initialised k D) :
    Initialised k' (is.reverse ++ D) := by
  induction hi generalizing D with
  | nil k => exact h
  | cons first rest ih =>
    rw [List.reverse_cons, List.append_assoc]
    exact ih (first.initialised h)

theorem kept_start {k₀ : Services n} (bits : ∀ o < 4, k₀.used o = true) (empty : ∀ cid, k₀.caps cid = none)
    (hi : InitServices (List.finRange n) k₀ k) (pids : Fin n → ℤ) : Kept (setPids pids k) [] := by
  have hstart : Initialised k₀ [] := ⟨⟨bits 0 (by decide), fun o _ => empty _⟩,
    fun c _ hc => absurd hc List.not_mem_nil⟩
  obtain ⟨hspare, hclaims⟩ := hi.initialised hstart
  refine ⟨⟨hspare.zero, hspare.empty⟩, fun c cid hc => ?_, List.nodup_nil⟩
  obtain ⟨h0, hfound⟩ := hclaims c cid (by simp) (by cases c <;> exact hc)
  exact ⟨h0, hfound, fun _ => List.not_mem_nil⟩

theorem replyCap_zero : replyCap rq ret result 0 k = (k, some { ret := ret, result := result, cap := none }) :=
  if_pos rfl

theorem replyCap_some (h0 : cid ≠ 0) (hc : findCap cid k = some (some c)) (ha : rq.accepts = true) :
    replyCap rq ret result cid k =
      (setCap cid none k, some { ret := ret, result := result, cap := some c }) := by
  rw [replyCap, if_neg h0, hc]
  simp only [ha, if_true]

theorem Kept.mono (h : Kept k given) (hs : Spare k') (hservice : k'.service = k.service) (hcaps : ∀ cid c,
    k.caps cid = some c → k'.caps cid = some c) : Kept k' given := by
  refine ⟨hs, fun c cid hc => ?_, h.nodup⟩
  rw [Claims.congr (congrFun hservice _)] at hc
  obtain ⟨h0, hfound, hnew⟩ := h.claims c cid hc
  rw [findCap_iff] at hfound ⊢
  exact ⟨h0, ⟨hfound.1, hcaps cid c hfound.2⟩, hnew⟩

theorem Kept.give (h : Kept k given) (ha : rq.accepts = true) (hc : Claims k cid c)
    (hex : c.exclusive = true) (hcaps : k'.caps = k.caps) (hused : k'.used = k.used)
    (hleft : ∀ c' cid', Claims k' cid' c' → Claims k cid' c' ∧ c' ≠ c) :
    (replyCap rq ret result cid k').2 = some { ret := ret, result := result, cap := some c } ∧
      Kept (replyCap rq ret result cid k').1 (c :: given) := by
  obtain ⟨h0, hfound, hnew⟩ := h.claims c cid hc
  have hfound' : findCap cid k' = some (some c) := by
    rw [findCap_iff] at hfound ⊢
    exact ⟨hfound.1, hcaps ▸ hfound.2⟩
  rw [replyCap_some h0 hfound' ha]
  have hnodup : ((c :: given).filter ServiceCap.exclusive).Nodup := by
    rw [List.filter_cons_of_pos hex, List.nodup_cons]
    exact ⟨fun hm => hnew hex (List.mem_filter.mp hm).1, h.nodup⟩
  have hspare : Spare k' := ⟨hused ▸ h.spare.zero, fun o ho => hcaps ▸ h.spare.empty o (hused ▸ ho)⟩
  have hkeeps : ∀ c' cid', Claims k' cid' c' → cid' ≠ 0 ∧ (0 ≤ cid' ∧ cid' / 4096 < clistCaps) ∧
      k'.caps cid' = some c' ∧ cid' ≠ cid ∧ (c'.exclusive = true → c' ∉ c :: given) := by
    intro c' cid' hc'
    obtain ⟨hc', hne⟩ := hleft c' cid' hc'
    obtain ⟨h0', hfound₂, hnew'⟩ := h.claims c' cid' hc'
    rw [findCap_iff] at hfound₂ hfound
    refine ⟨h0', hfound₂.1, hcaps ▸ hfound₂.2, ?_, fun hx => ?_⟩
    · rintro rfl
      rw [hfound.2] at hfound₂
      exact hne (Option.some.inj hfound₂.2).symm
    · exact List.not_mem_cons_of_ne_of_not_mem hne (hnew' hx)
  refine ⟨rfl, ⟨hspare.zero, fun o ho => ?_⟩, fun c' cid' hc' => ?_, hnodup⟩
  · have hempty := hspare.empty o ho
    simp only [setCap, Function.update_apply]
    split_ifs
    · rfl
    · exact hempty
  · obtain ⟨h0', hvalid, hcap, hne, hnew'⟩ := hkeeps c' cid' ((Claims.congr rfl).mp hc')
    refine ⟨h0', findCap_iff.mpr ⟨hvalid, ?_⟩, hnew'⟩
    simp only [setCap, Function.update_of_ne hne]
    exact hcap

structure Answered (rq : ResourceReq) (k : Services n) (given : List (ServiceCap n))
    (res : Services n × Option (ResourceRsp n)) : Prop where
  kept : Kept res.1 (handedOver res.2 ++ given)
  ok : ∀ r, res.2 = some r → r.ret = OK → ∃ c, r.cap = some c ∧ rq.Asks k c
  refused : (∀ c, rq.Asks k c → c.exclusive = true ∧ c ∈ given) →
    ∃ r, res.2 = some r ∧ r.ret = ERR ∧ r.cap = none

theorem Kept.err (h : Kept k given) : Answered rq k given (replyCap rq ERR .none 0 k) := by
  rw [replyCap_zero]
  refine ⟨h, ?_, fun _ => ⟨_, rfl, rfl, rfl⟩⟩
  rintro _ ⟨⟩ hok
  exact absurd (show ERR = OK from hok) (by decide)

theorem Kept.answers (h : Kept k given) (ha : rq.accepts = true) (hc : Claims k cid c)
    (hex : c.exclusive = true) (hcaps : k'.caps = k.caps) (hused : k'.used = k.used)
    (hleft : ∀ c' cid', Claims k' cid' c' → Claims k cid' c' ∧ c' ≠ c) (hasks : rq.Asks k c) :
    Answered rq k given (replyCap rq OK result cid k') := by
  obtain ⟨hrsp, hkept⟩ := h.give ha hc hex hcaps hused hleft
  refine ⟨?_, ?_, fun hall => ?_⟩
  · rw [hrsp]
    exact hkept
  · rw [hrsp]
    rintro _ ⟨⟩ -
    exact ⟨c, rfl, hasks⟩
  · exact absurd (hall c hasks).2 ((h.claims c cid hc).2.2 hex)

theorem claims_setService {s : Service} (hs : ∀ c', c'.owner = i → ∀ cid', Claims (setService i s k) cid' c' →
    Claims k cid' c' ∧ c' ≠ c) (hown : c.owner = i) (c' : ServiceCap n) (cid' : ℤ)
    (hc : Claims (setService i s k) cid' c') : Claims k cid' c' ∧ c' ≠ c := by
  by_cases ho : c'.owner = i
  · exact hs c' ho cid' hc
  · refine ⟨(Claims.congr ?_).mp hc, ?_⟩
    · exact Function.update_of_ne ho _ _
    · rintro rfl
      exact ho hown

theorem getMount_answered (h : Kept k given) (hi : findServicePid rq.pid k = some i) (hr : rq.Orderly k)
    (ht : rq.type = resourceMount) : Answered rq k given (getMount rq i k) := by
  unfold getMount
  simp only
  split_ifs with hge
  · obtain ⟨h0, ha⟩ := (hr i hi).1 ht
    refine h.answers (c := .mount i) (ha hge) ⟨h0, rfl⟩ rfl rfl rfl ?_ ⟨i, hi, .inl ⟨ht, rfl⟩⟩
    refine claims_setService (fun c' ho cid' hc => ?_) rfl
    subst ho
    cases c' <;> simp_all [Claims, setService, ServiceCap.owner]
  · exact h.err

theorem getInt_answered (h : Kept k given) (hi : findServicePid rq.pid k = some i) (hr : rq.Orderly k)
    (ht : rq.type = resourceInt) : Answered rq k given (getInt rq i k) := by
  unfold getInt
  simp only [Bool.and_eq_true, Bool.not_eq_true']
  split_ifs with hd
  · obtain ⟨hirq, ha⟩ := (hr i hi).2.2.1 ht hd.1 hd.2
    refine h.answers (c := .intr i) ha ⟨hd.1, hirq, hd.2, rfl⟩ rfl rfl rfl ?_
      ⟨i, hi, .inr (.inl ⟨ht, hd.1, hirq, rfl⟩)⟩
    refine claims_setService (fun c' ho cid' hc => ?_) rfl
    subst ho
    cases c' <;> simp_all [Claims, setService, ServiceCap.owner]
  · exact h.err

theorem getRegs_answered (h : Kept k given) (hi : findServicePid rq.pid k = some i) (hr : rq.Orderly k)
    (ht : rq.type = resourceRegs) : Answered rq k given (getRegs rq i k) := by
  unfold getRegs
  simp only [Bool.and_eq_true, Bool.not_eq_true']
  split_ifs with hd
  · obtain ⟨hreg, ha⟩ := (hr i hi).2.2.2 ht hd.1 hd.2
    refine h.answers (c := .regs i) ha ⟨hd.1, hreg, hd.2, rfl⟩ rfl rfl rfl ?_
      ⟨i, hi, .inr (.inr (.inl ⟨ht, hd.1, hreg, rfl⟩))⟩
    refine claims_setService (fun c' ho cid' hc => ?_) rfl
    subst ho
    cases c' <;> simp_all [Claims, setService, ServiceCap.owner]
  · exact h.err

theorem findServiceResource_asks {r : Fin n} (hi : findServicePid rq.pid k = some i) (ht : isShared rq.type = true)
    (hr : findServiceResource (k.service i) rq.type k = some r) : rq.Asks k (.connect r) := by
  refine ⟨i, hi, .inr (.inr (.inr ⟨ht, ?_⟩))⟩
  unfold findServiceResource at hr
  split at hr
  · cases hr
  · rename_i type name hfind
    obtain rfl : type = rq.type := by simpa using List.find?_some hfind
    exact ⟨name, r, List.mem_of_find?_eq_some hfind, by simpa using List.find?_some hr, rfl⟩

theorem Kept.shared (h : Kept k given) (he : Extends k k') (hc : c.exclusive = false) : Kept k' (c :: given) := by
  obtain ⟨hs, hclaims, hnodup⟩ := h.mono (he.spare h.spare) he.service he.caps
  refine ⟨hs, fun c' cid' hc' => ?_, ?_⟩
  · obtain ⟨h0, hfound, hnew⟩ := hclaims c' cid' hc'
    refine ⟨h0, hfound, fun hx => List.not_mem_cons_of_ne_of_not_mem ?_ (hnew hx)⟩
    rintro rfl
    rw [hc] at hx
    cases hx
  · rw [List.filter_cons_of_neg (by rw [hc]; exact Bool.false_ne_true)]
    exact hnodup

theorem getShared_answered (h : Kept k given) (hi : findServicePid rq.pid k = some i) (hr : rq.Orderly k)
    (ht : isShared rq.type = true) : Answered rq k given (getShared rq i k) := by
  unfold getShared
  cases hfind : findServiceResource (k.service i) rq.type k with
  | none => exact h.err
  | some r =>
    have hasks := findServiceResource_asks hi ht hfind
    obtain ⟨_, hfound, -⟩ := h.claims (.connect r) _ rfl
    rcases kcapAlloc_cases k with ⟨o, ho, hused, ha⟩ | ha
    · have haccepts := (hr i hi).2.1 ht ⟨o, ho, hused⟩ r hfind
      have hempty := h.spare.empty o hused
      have hself : Function.update k.used o true o = true := Function.update_self _ _ _
      have h0 : (o : ℤ) * 4096 ≠ 0 := by
        intro h0
        obtain rfl : o = 0 := by omega
        rw [h.spare.zero] at hused
        cases hused
      have hfound₁ : findCap (k.service r).connectEid { k with used := Function.update k.used o true } =
        some (some (.connect r)) := hfound
      have hgive : findCap ((o : ℤ) * 4096) (setCap (o * 4096) (some (.connect r))
          { k with used := Function.update k.used o true }) = some (some (.connect r)) :=
        findCap_iff.mpr ⟨slot_valid ho, by simp only [setCap, Function.update_self]⟩
      simp only [ha]
      have hslot : findCap ((o : ℤ) * 4096) { k with used := Function.update k.used o true } = some none :=
        findCap_empty ho hempty
      rw [endpointConnect_some hfound₁ (.inr rfl), if_pos hslot]
      simp only
      rw [replyCap_some h0 hgive haccepts]
      refine ⟨?_, ?_, fun hall => ?_⟩
      · apply h.shared _ rfl
        have hnone := extends_alloc used_update hempty hself none
        simpa only [setCap, Function.update_idem] using hnone
      · rintro _ ⟨⟩ -
        exact ⟨_, rfl, hasks⟩
      · exact absurd (hall _ hasks).1 Bool.false_ne_true
    · simp only [ha]
      rw [endpointConnect_some hfound (.inr rfl), findCap_err, if_neg nofun]
      simp only
      rw [replyCap, if_neg (by decide), findCap_err]
      refine ⟨h, nofun, fun hall => ?_⟩
      exact absurd (hall _ hasks).1 Bool.false_ne_true

theorem getResource_answered (h : Kept k given) (hr : rq.Orderly k) : Answered rq k given (getResource rq k) := by
  unfold getResource
  cases hi : findServicePid rq.pid k with
  | none =>
    have herr : Answered rq k given _ := h.err
    rw [replyCap_zero] at herr
    exact herr
  | some i =>
    simp only
    split_ifs with hmount hshared hint hregs
    · exact getMount_answered h hi hr hmount
    · exact getShared_answered h hi hr hshared
    · exact getInt_answered h hi hr hint
    · exact getRegs_answered h hi hr hregs
    · exact h.err

theorem ResourceRun.kept (h : ResourceRun k given) : Kept k given := by
  induction h with
  | init bits empty init pids => exact kept_start bits empty init pids
  | request _ orderly ih => exact (getResource_answered ih orderly).kept
  | elsewhere _ service caps used ih =>
    refine ih.mono ⟨used 0 ih.spare.zero, fun o ho => ?_⟩ service (fun cid c hc => by rw [caps, hc])
    rw [caps]
    apply ih.spare.empty
    by_contra hu
    rw [used o (Bool.eq_true_of_not_eq_false hu)] at ho
    cases ho

/-- In every state that orderly requests lead to: nothing exclusive has been handed over twice, an answer with `OK`
hands over what was asked for, and what is given away or not there is answered with `ERR`. -/
theorem resources_exclusive (h : ResourceRun k given) : (given.filter ServiceCap.exclusive).Nodup ∧
    ∀ rq : ResourceReq, rq.Orderly k →
      (∀ r, (getResource rq k).2 = some r → r.ret = OK → ∃ c, r.cap = some c ∧ rq.Asks k c) ∧
      ((∀ c, rq.Asks k c → c.exclusive = true ∧ c ∈ given) →
        ∃ r, (getResource rq k).2 = some r ∧ r.ret = ERR ∧ r.cap = none) :=
  ⟨h.kept.nodup, fun _ hr => ⟨(getResource_answered h.kept hr).ok, (getResource_answered h.kept hr).refused⟩⟩

end Calls

def logService : Service where
  name := "log"
  isDevice := false
  reg := 0
  len := 0
  irqn := 0
  hasRegs := false
  hasIrq := false
  regCid := 0
  irqCid := 0
  resources := []
  pid := 0
  listenEid := 0
  connectEid := 0
  ends := by decide

def oneService : Services 1 where
  service _ := logService
  caps _ := none
  used o := o < 4

/-- What `init_services` makes of it, with the endpoint at the slot 4 and the other end at 5. -/
def oneServiceConnected : Services 1 where
  service _ := logService
  caps := Function.update (Function.update (fun _ => none) 16384 (some (.mount 0))) 20480 (some (.connect 0))
  used := Function.update (fun o => o < 5) 5 true

def oneServiceReady : Services 1 :=
  setService 0 (logService.withCids 16384 20480 0 0) oneServiceConnected

theorem oneService_init : InitServices (List.finRange 1) oneService oneServiceReady := by
  let k₁ : Services 1 :=
    { oneService with caps := Function.update (fun _ => none) 16384 (some (.mount 0)), used := fun o => o < 5 }
  have hmount : KobjAlloc (.mount 0) 16384 oneService k₁ := by
    refine ⟨⟨4, by decide, by decide, rfl, rfl⟩, rfl, rfl, rfl, fun o ho => ?_⟩
    simp only [oneService, k₁, decide_eq_true_eq] at ho ⊢
    omega
  have hconnect : Connected 16384 20480 k₁ oneServiceConnected := ⟨rfl, rfl⟩
  refine .cons (i := 0) ⟨16384, 20480, 0, 0, k₁, oneServiceConnected, oneServiceConnected, oneServiceConnected,
    hmount, hconnect, ?_, ?_, rfl⟩ (.nil _)
  · exact ⟨rfl, rfl⟩
  · exact ⟨rfl, rfl⟩

theorem oneService_run : ResourceRun (setPids (fun _ => 2) oneServiceReady) [] := by
  have hbits : ∀ o < 4, oneService.used o = true := fun o ho => decide_eq_true ho
  exact .init hbits (fun _ => rfl) oneService_init fun _ => 2

theorem resources_exclusive_one : ∃ r, (getResource ⟨2, resourceMount, true⟩
    (setPids (fun _ => 2) oneServiceReady)).2 = some r ∧ r.ret = OK ∧ r.cap.isSome = true := by
  obtain ⟨-, hrq⟩ := resources_exclusive oneService_run
  have horderly : (⟨2, resourceMount, true⟩ : ResourceReq).Orderly (setPids (fun _ => 2) oneServiceReady) := by
    intro i _
    obtain rfl : i = 0 := Subsingleton.elim _ _
    exact ⟨fun _ => ⟨by decide, fun _ => rfl⟩, nofun, nofun, nofun⟩
  obtain ⟨c, hc, -⟩ := (hrq _ horderly).1 _ rfl rfl
  exact ⟨_, rfl, rfl, by rw [hc]; rfl⟩

theorem mount_granted_again : ResourceRun (setPids (fun _ => 2) oneServiceReady) [] ∧
    ∃ r, (getResource ⟨2, resourceMount, true⟩
      (getResource ⟨2, resourceMount, true⟩ (setPids (fun _ => 2) oneServiceReady)).1).2 = some r ∧
        r.ret = OK ∧ r.cap = none :=
  ⟨oneService_run, _, rfl, rfl, rfl⟩

end Agatha.Root
