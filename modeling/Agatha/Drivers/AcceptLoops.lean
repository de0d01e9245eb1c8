import Agatha.Net.AcceptSlot

/-!
The loops that take capabilities with their requests: the one of the network driver, and the one of
block devices (`lib/block/block.c`).
-/

namespace Agatha.Drivers

open Agatha.Net

def blockInfo : ℕ := 7
def blockRead : ℕ := 8
def blockWrite : ℕ := 9

structure BlockReq where
  type : ℕ
  nBlks : ℕ
  off : ℕ

structure BlockDev where
  blockSize : ℕ
  mapBuffers : Bool

def transfer (w : World) (dev : BlockDev) (pid : ℤ) (fits : ℕ → Bool) (io : Io) : Io :=
  match io.frameInfo with
  | none => io.replyCap pid
  | some (_, len) =>
    if fits len = false then io.replyCap pid
    else if dev.mapBuffers then
      match io.frameMapAnywhere w with
      | (none, io) => io.replyCap pid
      | (some cap, io) => (io.unmapAddr w cap).replyCap pid
    else io.replyCap pid

def handleInfo (pid : ℤ) (io : Io) : Io := io.replyCap pid

def handleRead (w : World) (dev : BlockDev) (pid : ℤ) (rq : BlockReq) (io : Io) : Io :=
  transfer w dev pid (fun len => !decide (lenSub len rq.off < rq.nBlks * dev.blockSize % 2 ^ 32)) io

def handleWrite (w : World) (dev : BlockDev) (pid : ℤ) (rq : BlockReq) (io : Io) : Io :=
  transfer w dev pid (fun len => !decide (len < (rq.off + rq.nBlks * dev.blockSize) % 2 ^ 32)) io

/-- One turn of `block_dev_register` with a message; other types are not answered. -/
def blockTurn (w : World) (dev : BlockDev) (pid : ℤ) (give : Option (Option Cap)) (rq : BlockReq) (io : Io) : Io :=
  match io.recvCap pid give with
  | none => io
  | some io =>
    if rq.type = blockInfo then handleInfo pid io
    else if rq.type = blockRead then handleRead w dev pid rq io
    else if rq.type = blockWrite then handleWrite w dev pid rq io
    else io

/-- Runs of the block device loop in which each message meets `cond`. -/
inductive BlockRun (dev : BlockDev) (cond : Option (Option Cap) → BlockReq → Prop) : Io → Prop
  | start {io : Io} (slot : io.slot = none) (waiting : io.waiting = []) : BlockRun dev cond io
  | turn {io : Io} {w : World} {pid : ℤ} {give : Option (Option Cap)} {rq : BlockReq} (run : BlockRun dev cond io)
      (free : ∀ p ∈ io.waiting, p.pid ≠ pid) (hcond : cond give rq) :
      BlockRun dev cond (blockTurn w dev pid give rq io)

def BlockReq.Answered (give : Option (Option Cap)) (rq : BlockReq) : Prop :=
  give.join = none ∨ rq.type = blockInfo ∨ rq.type = blockRead ∨ rq.type = blockWrite

section Loops

variable {w : World} {dev : BlockDev} {pid : ℤ} {give : Option (Option Cap)} {rq : BlockReq} {io io' : Io}
  {fits : ℕ → Bool}

def Once (io : Io) : Prop := ∀ pid, waitsOf pid io.waiting ≤ 1

structure Attending (pid : ℤ) (io : Io) : Prop where
  once : Once io
  accepts : io.slot = none ∨ Accepts pid io.waiting

theorem replyCap_once (h : Once io) : Once (io.replyCap pid) := by
  intro pid'
  rw [replyCap_waiting]
  exact le_trans (List.Sublist.countP_le List.eraseP_sublist) (h pid')

theorem Attending.answer (h : Attending pid io) (hw : io'.waiting = io.waiting)
    (hs : io'.slot = none ∨ io.slot ≠ none) : Once (io'.replyCap pid) ∧ (io'.replyCap pid).slot = none := by
  have honce : Once io' := by
    intro pid'
    rw [hw]
    exact h.once pid'
  refine ⟨replyCap_once honce, ?_⟩
  rcases hs with hs | hs
  · exact replyCap_slot_of_none hs
  · apply replyCap_slot
    · rw [hw]
      exact h.accepts.resolve_left hs
    · exact honce pid

theorem transfer_spec (h : Attending pid io) :
    Once (transfer w dev pid fits io) ∧ (transfer w dev pid fits io).slot = none := by
  have hsame : io.slot = none ∨ io.slot ≠ none := Decidable.em _
  unfold transfer
  split
  · exact h.answer rfl hsame
  · split_ifs
    · exact h.answer rfl hsame
    · split
      · rename_i io' hm
        obtain ⟨hs, hw⟩ := frameMapAnywhere_none hm
        apply h.answer hw
        rw [hs]
        exact hsame
      · rename_i cap io' hm
        obtain ⟨hne, -, hw⟩ := frameMapAnywhere_some hm
        exact h.answer (unmapAddr_waiting.trans hw) (.inr hne)
    · exact h.answer rfl hsame

theorem attending_recv (h : Once io) (hfree : ∀ p ∈ io.waiting, p.pid ≠ pid) :
    Attending pid { io with slot := give.join, waiting := io.waiting ++ [⟨pid, give.isSome⟩] } := by
  have hsettled : Settled [] [] io.waiting := by
    refine ⟨?_, h, fun pid => Nat.zero_le _, ?_⟩
    · intro b hb
      cases hb
    · intro r hr
      cases hr
  obtain ⟨h1, -, -⟩ := @Settled.recv _ _ _ pid hsettled give.isSome hfree
  refine ⟨h1.once, ?_⟩
  cases give with
  | none => exact .inl rfl
  | some g => exact .inr ⟨⟨pid, true⟩, List.mem_append_right _ (List.mem_singleton_self _), rfl, rfl⟩

theorem blockTurn_spec (h : Once io) (hslot : io.slot = none) (hfree : ∀ p ∈ io.waiting, p.pid ≠ pid) :
    Once (blockTurn w dev pid give rq io) ∧ ((blockTurn w dev pid give rq io).slot = none ↔ rq.Answered give) := by
  have hatt := @attending_recv pid give io h hfree
  unfold blockTurn Io.recvCap
  rw [hslot]
  dsimp only
  generalize hio : ({ io with slot := give.join, waiting := io.waiting ++ [⟨pid, give.isSome⟩] } : Io) = io' at hatt
  have hgive : io'.slot = give.join := by
    rw [← hio]
  unfold BlockReq.Answered
  split_ifs with h1 h2 h3
  · obtain ⟨ho, hn⟩ := hatt.answer rfl (Decidable.em _)
    exact ⟨ho, fun _ => .inr (.inl h1), fun _ => hn⟩
  · obtain ⟨ho, hn⟩ := @transfer_spec w dev pid io' _ hatt
    exact ⟨ho, fun _ => .inr (.inr (.inl h2)), fun _ => hn⟩
  · obtain ⟨ho, hn⟩ := @transfer_spec w dev pid io' _ hatt
    exact ⟨ho, fun _ => .inr (.inr (.inr h3)), fun _ => hn⟩
  · refine ⟨hatt.once, ?_⟩
    rw [hgive]
    tauto

theorem BlockRun.slot (run : BlockRun dev (fun give rq => rq.Answered give) io) : Once io ∧ io.slot = none := by
  induction run with
  | start slot waiting =>
    refine ⟨?_, slot⟩
    intro pid
    rw [waiting]
    exact Nat.zero_le _
  | turn run free hcond ih =>
    obtain ⟨h1, h2⟩ := blockTurn_spec ih.1 ih.2 free
    exact ⟨h1, h2.mpr hcond⟩

/-- In runs whose messages come without a capability, or are of a kind that gives it back, the slot is
empty before each receive; a message of another kind leaves it taken. -/
theorem accept_slot_empty (s : Server) (dev : BlockDev) (io : Io) :
    (NetRun (fun w s e => e.ReturnsCap w s) s → s.io.slot = none ∧
      ∀ (w : World) (e : NetEvent), e.Possible s → ((e.run w s).io.slot = none ↔ e.ReturnsCap w s)) ∧
    (BlockRun dev (fun give rq => rq.Answered give) io → io.slot = none ∧
      ∀ w pid give rq, (∀ p ∈ io.waiting, p.pid ≠ pid) →
        ((blockTurn w dev pid give rq io).slot = none ↔ rq.Answered give)) := by
  constructor
  · intro run
    obtain ⟨h, hslot⟩ := run.slot
    exact ⟨hslot, fun w e hposs => (NetEvent.run_spec h hslot hposs).2⟩
  · intro run
    obtain ⟨h, hslot⟩ := run.slot
    exact ⟨hslot, fun w pid give rq hfree => (blockTurn_spec h hslot hfree).2⟩

def freshServer : Server :=
  { net := { mac := [], ipv4 := [], bindings := [], pkts := [], calls := 0 }
    arpEntries := [], arpRequests := [], nBindingId := 321
    io := { slot := none, waiting := [], replied := [], sent := [], segments := [], calls := 0 } }

def working : World := ⟨fun _ => true, fun _ => true, fun _ => true⟩

def bindReq : NetReq :=
  { type := netBind, chanId := 0, proto := protoUdp, portLoc := 80, addrRem := [], portRem := 0, conId := 0
    len := 0 }

def boundServer : Server := (NetEvent.message 7 none bindReq).run working freshServer

def readIo : Io :=
  blockTurn working { blockSize := 512, mapBuffers := true } 7 (some (some (.frame 0 4096))) ⟨blockRead, 1, 0⟩ freshServer.io

theorem accept_slot_empty_turn :
    (boundServer.net.bindings.length = 1 ∧ boundServer.io.slot = none ∧ ∀ (w : World) (e : NetEvent),
      e.Possible boundServer → ((e.run w boundServer).io.slot = none ↔ e.ReturnsCap w boundServer)) ∧
    readIo.replied = [7] ∧ readIo.slot = none ∧ ∀ w give rq,
      (blockTurn w { blockSize := 512, mapBuffers := true } 7 give rq readIo).slot = none ↔ rq.Answered give := by
  have hboth := accept_slot_empty boundServer { blockSize := 512, mapBuffers := true } readIo
  have hnone : ∀ p ∈ freshServer.io.waiting, p.pid ≠ 7 := nofun
  have hbound := hboth.1 (.turn (.start ⟨rfl, rfl, rfl, rfl, rfl⟩) hnone (.inl rfl))
  have hread := hboth.2 (.turn (.start rfl rfl) hnone (.inr (.inr (.inl rfl))))
  refine ⟨⟨rfl, hbound.1, hbound.2⟩, rfl, hread.1, fun w give rq => hread.2 w 7 give rq ?_⟩
  intro p hp
  cases hp

theorem accept_slot_taken : freshServer.Initial ∧
    (NetEvent.message 7 (some (some (.frame 0 4096))) bindReq).Possible freshServer ∧
    ((NetEvent.message 7 (some (some (.frame 0 4096))) bindReq).run working freshServer).io.replied = [7] ∧
    ((NetEvent.message 7 (some (some (.frame 0 4096))) bindReq).run working freshServer).io.slot =
      some (.frame 0 4096) ∧
    ∀ w e, NetEvent.run w ((NetEvent.message 7 (some (some (.frame 0 4096))) bindReq).run working freshServer) e =
      (NetEvent.message 7 (some (some (.frame 0 4096))) bindReq).run working freshServer := by
  have htaken : ((NetEvent.message 7 (some (some (.frame 0 4096))) bindReq).run working freshServer).io.slot =
      some (.frame 0 4096) := rfl
  refine ⟨⟨rfl, rfl, rfl, rfl, rfl⟩, ?_, rfl, htaken, ?_⟩
  · intro p hp
    cases hp
  · intro w e
    apply NetEvent.run_stuck
    rw [htaken]
    exact Option.some_ne_none _

end Loops

end Agatha.Drivers
