import Mathlib.Data.Int.Notation
import Mathlib.Data.List.Perm.Basic
import Mathlib.Tactic.Common

/-!
Binding and unbinding (`lib/net/net.c`, `ip.c`, `tcp.c`, `udp.c`), with the blocks of memory that are freed
and read. Connections can be of any type.
-/

namespace Agatha.Net.Bindings

def OK : ℤ := 0
def ERR : ℤ := -1

theorem ok_ne_err : OK ≠ ERR := by decide

def protoUdp : ℕ := 0
def protoTcp : ℕ := 1

structure Pkt where
  mem : ℕ
  frags : List (ℕ × ℕ)
  data : Option ℕ

inductive Proto (κ : Type)
  | udp (offsetIntoWaiting : ℕ) (recvWait : List Pkt)
  | tcp (listenCon : Option κ) (nextConId : ℕ) (cons : List κ)

structure BindingIp (κ : Type) where
  mem : ℕ
  addrLoc : List UInt8
  portLoc : ℕ
  state : Proto κ

def ipPktFree (p : Pkt) : List ℕ := (p.frags.flatMap fun a => [a.2, a.1]) ++ p.data.toList ++ [p.mem]

def BindingIp.pkts {κ : Type} (ip : BindingIp κ) : List Pkt :=
  match ip.state with
  | .udp _ recvWait => recvWait
  | .tcp .. => []

structure Binding (κ : Type) where
  mem : ℕ
  procId : ℤ
  id : ℕ
  ip : BindingIp κ
  nodup : (mem :: ip.mem :: ip.pkts.flatMap ipPktFree).Nodup

structure Server (κ : Type) where
  nBindingId : ℕ
  bindings : List (Binding κ)

inductive Request
  | bind (proto : ℕ) (addrLoc : List UInt8) (portLoc : ℕ)
  | unbind (chanId : ℕ)

structure Malloc where
  binding : Option ℕ
  ip : Option ℕ
  fresh : ∀ b, binding = some b → ip ≠ some b

inductive Event
  | read (mem : ℕ)
  | free (mem : ℕ)

structure Outcome (κ : Type) where
  server : Server κ
  events : List Event
  ret : Option ℤ

variable {κ : Type}

def Proto.number : Proto κ → ℕ
  | .udp .. => protoUdp
  | .tcp .. => protoTcp

def Server.findBindingIp (proto portLoc : ℕ) (s : Server κ) : Option (Binding κ) :=
  s.bindings.find? fun b => decide (proto = b.ip.state.number ∧ portLoc = b.ip.portLoc)

def protoInit (proto : ℕ) : Option (Proto κ) :=
  if proto = protoUdp then some (.udp 0 [])
  else if proto = protoTcp then some (.tcp none 0 [])
  else none

theorem pkts_init {ip : BindingIp κ} {proto : ℕ} (h : protoInit proto = some ip.state) : ip.pkts = [] := by
  unfold BindingIp.pkts
  unfold protoInit at h
  split_ifs at h <;> rw [← Option.some.inj h]

def ipBind (malloc : Malloc) (proto : ℕ) (addrLoc : List UInt8) (portLoc : ℕ) (s : Server κ) :
    Option (BindingIp κ) :=
  if (s.findBindingIp proto portLoc).isSome then none
  else malloc.ip.bind fun ip => (protoInit proto).map fun state => ⟨ip, addrLoc, portLoc, state⟩

theorem ipBind_eq_some {malloc : Malloc} {proto portLoc : ℕ} {addrLoc : List UInt8} {s : Server κ}
    {ip : BindingIp κ} : ipBind malloc proto addrLoc portLoc s = some ip ↔
      s.findBindingIp proto portLoc = none ∧ malloc.ip = some ip.mem ∧ ip.addrLoc = addrLoc ∧
        ip.portLoc = portLoc ∧ protoInit proto = some ip.state := by
  unfold ipBind
  cases s.findBindingIp proto portLoc with
  | none =>
    simp only [Option.isSome_none, Bool.false_eq_true, if_false, Option.bind_eq_some_iff, Option.map_eq_some_iff,
      true_and]
    constructor
    · rintro ⟨mem, hm, state, hstate, rfl⟩
      exact ⟨hm, rfl, rfl, hstate⟩
    · rintro ⟨hm, rfl, rfl, hstate⟩
      exact ⟨ip.mem, hm, ip.state, hstate, rfl⟩
  | some b => simp

def handleBind (malloc : Malloc) (pid : ℤ) (proto : ℕ) (addrLoc : List UInt8) (portLoc : ℕ) (s : Server κ) :
    Outcome κ :=
  match hb : malloc.binding with
  | none => ⟨s, [], some ERR⟩
  | some b =>
    match hip : ipBind malloc proto addrLoc portLoc s with
    | some ip =>
      let new : Binding κ :=
        { mem := b, procId := pid, id := s.nBindingId, ip := ip
          nodup := by
            obtain ⟨-, hm, -, -, hstate⟩ := ipBind_eq_some.mp hip
            have hne : b ≠ ip.mem := fun he => malloc.fresh b hb (he ▸ hm)
            simp [pkts_init hstate, hne] }
      ⟨⟨s.nBindingId + 1, new :: s.bindings⟩, [.read b], some OK⟩
    -- the reply has `b->id`, after `free(b)`
    | none => ⟨{ s with nBindingId := s.nBindingId + 1 }, [.free b, .read b], some ERR⟩

def findBinding (pid : ℤ) (id : ℕ) : List (Binding κ) → Option (List (Binding κ) × Binding κ × List (Binding κ))
  | [] => none
  | b :: next =>
    if b.procId = pid ∧ b.id = id then some ([], b, next)
    else (findBinding pid id next).map fun x => (b :: x.1, x.2)

def ipUnbind (b : Binding κ) : List Event × ℤ :=
  match b.ip.state with
  -- `ip_unbind_udp` leaves `b->proto_arg` as it is
  | .udp _ recvWait => (.read b.ip.mem :: (recvWait.flatMap ipPktFree).map .free, OK)
  | .tcp listenCon _ cons =>
    if cons.isEmpty ∧ listenCon.isNone then ([.read b.ip.mem, .free b.ip.mem], OK) else ([.read b.ip.mem], ERR)

def handleUnbind (pid : ℤ) (chanId : ℕ) (s : Server κ) : Outcome κ :=
  match findBinding pid chanId s.bindings with
  | none => ⟨s, [], none⟩
  | some (before, b, after) =>
    let (events, ret) := ipUnbind b
    ⟨{ s with bindings := before ++ after }, events ++ [.read b.mem, .free b.mem], some ret⟩

def handle (malloc : Malloc) (pid : ℤ) (rq : Request) (s : Server κ) : Outcome κ :=
  match rq with
  | .bind proto addrLoc portLoc => handleBind malloc pid proto addrLoc portLoc s
  | .unbind chanId => handleUnbind pid chanId s

def NoFreedRead (events : List Event) : Prop :=
  ∀ before mem after, events = before ++ .read mem :: after → .free mem ∉ before

def frees (events : List Event) : List ℕ :=
  events.filterMap fun e => match e with
    | .free mem => some mem
    | .read _ => none

def Binding.own (b : Binding κ) : List ℕ := b.mem :: b.ip.mem :: b.ip.pkts.flatMap ipPktFree

def Added (pid : ℤ) (proto : ℕ) (addrLoc : List UInt8) (portLoc : ℕ) (s : Server κ) (o : Outcome κ) : Prop :=
  frees o.events = [] ∧ ∃ b : Binding κ, o.server.bindings = b :: s.bindings ∧ b.procId = pid ∧
    b.ip.addrLoc = addrLoc ∧ b.ip.portLoc = portLoc ∧ protoInit proto = some b.ip.state

def Removed (pid : ℤ) (chanId : ℕ) (s : Server κ) (o : Outcome κ) : Prop :=
  ∃ before b after, findBinding pid chanId s.bindings = some (before, b, after) ∧
    o.server.bindings = before ++ after ∧ (frees o.events).Perm b.own

structure Clean (pid : ℤ) (rq : Request) (s : Server κ) (o : Outcome κ) : Prop where
  memory : o.ret ≠ none → NoFreedRead o.events
  err : o.ret = some ERR → o.server.bindings = s.bindings
  ok : o.ret = some OK → match rq with
    | .bind proto addrLoc portLoc => Added pid proto addrLoc portLoc s o
    | .unbind chanId => Removed pid chanId s o

def Safe (malloc : Malloc) (pid : ℤ) (rq : Request) (s : Server κ) : Prop :=
  match rq with
  | .bind proto _ portLoc => malloc.binding = none ∨
      s.findBindingIp proto portLoc = none ∧ malloc.ip ≠ none ∧ (proto = protoUdp ∨ proto = protoTcp)
  | .unbind chanId => ∀ before b after, findBinding pid chanId s.bindings = some (before, b, after) →
      ∃ n, b.ip.state = .tcp none n []

section Handlers

variable {malloc : Malloc} {pid : ℤ} {proto portLoc chanId : ℕ} {addrLoc : List UInt8} {s : Server κ}
  {before after bindings : List (Binding κ)} {b : Binding κ}

theorem findBinding_eq_some (h : findBinding pid chanId bindings = some (before, b, after)) :
    bindings = before ++ b :: after ∧ b.procId = pid ∧ b.id = chanId := by
  induction bindings generalizing before with
  | nil => cases h
  | cons c next ih =>
    unfold findBinding at h
    split_ifs at h with hc
    · cases h
      exact ⟨rfl, hc⟩
    · obtain ⟨⟨front, b', rest⟩, hrec, he⟩ := Option.map_eq_some_iff.mp h
      cases he
      obtain ⟨hl, hb⟩ := ih hrec
      exact ⟨congrArg (c :: ·) hl, hb⟩

theorem frees_append (l l' : List Event) : frees (l ++ l') = frees l ++ frees l' := List.filterMap_append

theorem frees_map (l : List ℕ) : frees (l.map .free) = l := by
  induction l with
  | nil => rfl
  | cons mem l ih => exact congrArg (mem :: ·) ih

theorem protoInit_isSome : (protoInit proto : Option (Proto κ)).isSome ↔ proto = protoUdp ∨ proto = protoTcp := by
  unfold protoInit
  split_ifs with h1 h2
  · simp [h1]
  · simp [h2]
  · simp [h1, h2]

theorem noFreedRead_nil : NoFreedRead [] := fun before _ _ h => by simp at h

theorem noFreedRead_read (mem : ℕ) : NoFreedRead [.read mem] := by
  intro before mem' after h
  cases before with
  | nil => exact List.not_mem_nil
  | cons e before => simp at h

theorem freed_read (mem : ℕ) : ¬ NoFreedRead [.free mem, .read mem] :=
  fun h => h [.free mem] mem [] rfl List.mem_cons_self

theorem clean_bind : Clean pid (.bind proto addrLoc portLoc) s (handleBind malloc pid proto addrLoc portLoc s) ↔
    Safe malloc pid (.bind proto addrLoc portLoc) s := by
  unfold handleBind
  split
  · rename_i hb
    refine iff_of_true ⟨fun _ => noFreedRead_nil, fun _ => rfl, fun h => ?_⟩ (.inl hb)
    exact absurd (Option.some.inj h).symm ok_ne_err
  · rename_i b hb
    split
    · rename_i ip hip
      obtain ⟨hfind, hm, haddr, hport, hstate⟩ := ipBind_eq_some.mp hip
      refine iff_of_true ⟨fun _ => noFreedRead_read b, fun h => ?_, fun _ => ?_⟩ (.inr ⟨hfind, ?_, ?_⟩)
      · exact absurd (Option.some.inj h) ok_ne_err
      · exact ⟨rfl, _, rfl, rfl, haddr, hport, hstate⟩
      · simp [hm]
      · exact protoInit_isSome.mp (Option.isSome_iff_exists.mpr ⟨_, hstate⟩)
    · rename_i hip
      refine iff_of_false (fun h => freed_read b (h.memory (by simp))) ?_
      rintro (hn | ⟨hfind, hm, hproto⟩)
      · cases hb.symm.trans hn
      · obtain ⟨mem, hmem⟩ := Option.ne_none_iff_exists'.mp hm
        obtain ⟨state, hstate⟩ := Option.isSome_iff_exists.mp (protoInit_isSome.mpr hproto)
        have hsome := (@ipBind_eq_some κ _ _ _ addrLoc _ ⟨mem, addrLoc, portLoc, state⟩).mpr
          ⟨hfind, hmem, rfl, rfl, hstate⟩
        cases hip.symm.trans hsome

theorem noFreedRead_tcp {ip mem : ℕ} (h : mem ≠ ip) :
    NoFreedRead [.read ip, .free ip, .read mem, .free mem] := by
  intro before x after hl
  match before with
  | [] => simp
  | [a] => simp at hl
  | [a, c] =>
    simp only [List.cons_append, List.nil_append, List.cons.injEq, Event.read.injEq] at hl
    obtain ⟨rfl, rfl, rfl, -⟩ := hl
    simp [h]
  | [a, c, d] => simp at hl
  | a :: c :: d :: e :: before => simp at hl

theorem clean_unbind : Clean pid (.unbind chanId) s (handleUnbind pid chanId s) ↔
    Safe malloc pid (.unbind chanId) s := by
  unfold handleUnbind
  cases hfind : findBinding pid chanId s.bindings with
  | none =>
    refine iff_of_true ⟨fun h => absurd rfl h, (fun h => by cases h), (fun h => by cases h)⟩ ?_
    intro before b after h
    cases hfind.symm.trans h
  | some x =>
    obtain ⟨before, b, after⟩ := x
    have hsafe : Safe malloc pid (.unbind chanId) s ↔ ∃ n, b.ip.state = .tcp none n [] := by
      refine ⟨fun h => h before b after hfind, fun h before' b' after' h' => ?_⟩
      cases hfind.symm.trans h'
      exact h
    rw [hsafe]
    dsimp only
    cases hstate : b.ip.state with
    | udp offset recvWait =>
      -- the `struct binding_ip` is not freed
      refine iff_of_false (fun h => ?_) (by simp)
      have hret : (ipUnbind b).2 = OK := by simp [ipUnbind, hstate]
      obtain ⟨before', b', after', hfind', -, hperm⟩ := h.ok (congrArg some hret)
      cases hfind.symm.trans hfind'
      have hlen := hperm.length_eq
      have hpkts : b.ip.pkts = recvWait := by simp [BindingIp.pkts, hstate]
      have hfrees : frees ((ipUnbind b).1 ++ [.read b.mem, .free b.mem]) = recvWait.flatMap ipPktFree ++ [b.mem] := by
        simp only [ipUnbind, hstate, List.cons_append]
        exact (frees_append _ _).trans (congrArg (· ++ [b.mem]) (frees_map _))
      rw [hfrees, Binding.own, hpkts] at hlen
      simp at hlen
    | tcp listenCon n cons =>
      by_cases hnone : cons.isEmpty ∧ listenCon.isNone
      · have hcons : cons = [] := List.isEmpty_iff.mp hnone.1
        have hlisten : listenCon = none := Option.isNone_iff_eq_none.mp hnone.2
        subst hcons hlisten
        have hpkts : b.ip.pkts = [] := by simp [BindingIp.pkts, hstate]
        have hne : b.mem ≠ b.ip.mem := by
          have hn := b.nodup
          rw [hpkts] at hn
          simpa using hn
        have hunbind : ipUnbind b = ([.read b.ip.mem, .free b.ip.mem], OK) := by simp [ipUnbind, hstate]
        rw [hunbind]
        refine iff_of_true ⟨fun _ => noFreedRead_tcp hne, fun h => ?_, fun _ => ?_⟩ ⟨n, rfl⟩
        · exact absurd (Option.some.inj h) ok_ne_err
        refine ⟨before, b, after, hfind, rfl, ?_⟩
        rw [Binding.own, hpkts]
        exact List.Perm.swap ..
      · have hunbind : ipUnbind b = ([.read b.ip.mem], ERR) := by simp only [ipUnbind, hstate, if_neg hnone]
        rw [hunbind]
        refine iff_of_false (fun h => ?_) ?_
        · have hsame : before ++ after = s.bindings := h.err rfl
          have hlen := congrArg List.length (hsame.trans (findBinding_eq_some hfind).1)
          simp at hlen
        · rintro ⟨m, hm⟩
          cases hm
          exact hnone ⟨rfl, rfl⟩

theorem handle_clean_iff (malloc : Malloc) (pid : ℤ) (rq : Request) (s : Server κ) :
    Clean pid rq s (handle malloc pid rq s) ↔ Safe malloc pid rq s := by
  cases rq with
  | bind proto addrLoc portLoc => exact clean_bind
  | unbind chanId => exact clean_unbind

end Handlers

def listening : Server ℕ where
  nBindingId := 1
  bindings := [{ mem := 10, procId := 7, id := 0, ip := ⟨11, [10, 0, 0, 1], 80, .tcp (some 0) 1 []⟩, nodup := by decide }]

theorem unbind_not_clean : ¬ Clean 7 (.unbind 0) listening (handle ⟨none, none, by simp⟩ 7 (.unbind 0) listening) :=
  fun h => absurd (congrArg List.length (h.err rfl)) (by decide)

end Agatha.Net.Bindings
