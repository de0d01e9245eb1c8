import Agatha.Net.ServerSteps

/-!
The end of the peer's stream (`handle_tcp_fin` and `ip_read_tcp` of `lib/net/tcp.c`), on one connection of the
server from where it is established.
-/

namespace Agatha.Net.PeerFin

structure Stream where
  isn : ℕ
  bytes : List UInt8

def Stream.finAck (peer : Stream) : ℕ := (peer.isn + peer.bytes.length + 1) % 2 ^ 32

/-- What comes to the connection. A request comes with anything in the slot. -/
inductive Step
  | segment (mac : Option (List UInt8)) (q : IpPkt)
  | read (slot : Option Cap) (rq : NetReq)
  | write (slot : Option Cap) (rq : NetReq)
  | disconnect (slot : Option Cap)

structure Reading where
  con : Con
  io : Io
  data : List UInt8
  failed : Bool

def Reading.rsp (r : Reading) (c : Con) (io : Io) : Option ReadRsp → Reading
  | none => { r with con := c, io := io }
  | some x => { con := c, io := io, data := r.data ++ x.data, failed := r.failed || !x.ok }

def Step.run (w : World) (pid : ℤ) (r : Reading) : Step → Reading
  | .segment mac q =>
    let (_, c, io) := conInput w pid false mac q r.con r.io
    { r with con := c, io := io }
  | .read slot rq =>
    let (x, c, io) := ipReadTcpReq w pid rq r.con { r.io with slot := slot }
    r.rsp c io x
  | .write slot rq =>
    let (c, io) := ipWriteTcp w pid rq r.con { r.io with slot := slot }
    { r with con := c, io := io }
  | .disconnect slot =>
    let (c, io) := ipTcpDisconnect w r.con { r.io with slot := slot }
    { r with con := c, io := io }

def run (w : World) (pid : ℤ) : Reading → List Step → Reading := List.foldl (Step.run w pid)

structure Reading.Start (peer : Stream) (r : Reading) : Prop where
  state : r.con.state = .established
  rcv : r.con.rcv = { ack := peer.isn, closing := false, offsetIntoWaiting := 0, recvWait := [] }
  data : r.data = []
  failed : r.failed = false
  segments : r.io.segments = []

def acked (peer : Stream) (r : Reading) : ℕ := r.io.segments.countP fun f => decide (f.ack = peer.finAck)

structure Delivered (peer : Stream) (r : Reading) : Prop where
  all : r.failed = true → r.data = peer.bytes
  acked : acked peer r = if r.data = peer.bytes then 1 else 0

def reads (rqs : List (Option Cap × NetReq)) : List Step := rqs.map fun rq => .read rq.1 rq.2

def countsFin (c : Con) : Bool :=
  match c.state with
  | .established => c.rcv.recvWait.isEmpty
  | .finWait1 | .finWait2 => true
  | _ => false

def queued (q : IpPkt) (c : Con) : List TcpSeg :=
  if hasFlag (tcpFlags q) tcpFlagAck then dropAcked (tcpAck q) c.sending else c.sending

/-- How many frames there is memory for when the FIN comes: `handle_tcp_fin` makes one when it acknowledges, and the
end of `handle_tcp` makes another. -/
def finFrames (w : World) (q : IpPkt) (r : Reading) : ℕ :=
  if countsFin r.con ∨ r.con.state = .timeWait then
    if w.alloc r.io.calls ∨ queued q r.con ≠ [] then
      (w.alloc (r.io.calls + 1)).toNat + (w.alloc (r.io.calls + 2)).toNat
    else 0
  else if queued q r.con ≠ [] then (w.alloc r.io.calls).toNat else 0

def finAcks (w : World) (peer : Stream) (q : IpPkt) (r : Reading) : ℕ :=
  if (if countsFin r.con then (r.con.rcv.ack + 1) % 2 ^ 32 else r.con.rcv.ack) = peer.finAck then finFrames w q r
  else 0

section Frames

variable {w : World} {c : Con} {io : Io} {flags len : ℕ} {x : Con × Io}

def frameOf (c : Con) (t : TcpSeg) : TcpFrame :=
  { binding := c.binding, con := c.id, addrRem := c.addrRem, portRem := c.portRem, seq := t.seq, ack := c.rcv.ack
    flags := t.flags, len := t.len }

theorem trimSending_ne_nil {l : List TcpSeg} : trimSending l ≠ [] ↔ l ≠ [] := by
  induction l with
  | nil => exact Iff.rfl
  | cons p next ih =>
    cases next with
    | nil => exact Iff.rfl
    | cons o next =>
      unfold trimSending
      split_ifs
      · exact Iff.rfl
      · exact ih.trans (iff_of_true (List.cons_ne_nil o next) (List.cons_ne_nil p _))

/-- `send_tcp_pkt` leaves the receiving side, and sends one frame if it has a packet and memory. -/
structure Sends (w : World) (x y : Con × Io) : Prop where
  rcv : y.1.rcv = x.1.rcv
  queue : y.1.sending ≠ [] ↔ x.1.sending ≠ []
  calls : y.2.calls = x.2.calls + if x.1.sending ≠ [] then 1 else 0
  segments : ∃ fs, y.2.segments = x.2.segments ++ fs ∧ (∀ f ∈ fs, f.ack = x.1.rcv.ack) ∧
    fs.length = if x.1.sending ≠ [] then (w.alloc x.2.calls).toNat else 0

theorem sendSegment_calls {f : TcpFrame} : (io.sendSegment w f).calls = io.calls + 1 := by
  unfold Io.sendSegment Io.sendIpv4Pkt
  split_ifs <;> rfl

theorem sendTcpPkt_sends (x : Con × Io) : Sends w x (sendTcpPkt w x) := by
  obtain ⟨c, io⟩ := x
  have hne := @trimSending_ne_nil c.sending
  unfold sendTcpPkt
  dsimp only
  generalize trimSending c.sending = l at hne
  cases l with
  | nil =>
    have hnil : c.sending = [] := by simpa using hne
    constructor
    · rfl
    · rw [hnil]
    · simp [hnil]
    · exact ⟨[], by simp, by simp, by simp [hnil]⟩
  | cons p next =>
    have hsome : c.sending ≠ [] := hne.mp (List.cons_ne_nil p next)
    constructor
    · rfl
    · exact iff_of_true (List.cons_ne_nil p next) hsome
    · rw [if_pos hsome]
      exact sendSegment_calls
    · refine ⟨if w.alloc io.calls then [frameOf c p] else [], sendSegment_segments, ?_, ?_⟩
      · intro f hf
        split_ifs at hf
        · rw [List.mem_singleton.mp hf]
          rfl
        · cases hf
      · rw [if_pos hsome]
        cases w.alloc io.calls <;> rfl

theorem addPkt_frame (w : World) (flags len : ℕ) (x : Con × Io) : (addPkt w flags len x).1.rcv = x.1.rcv ∧
    (addPkt w flags len x).1.state = x.1.state ∧ (addPkt w flags len x).2.segments = x.2.segments ∧
    (addPkt w flags len x).2.calls = x.2.calls + 1 ∧
    ((addPkt w flags len x).1.sending ≠ [] ↔ w.alloc x.2.calls = true ∨ x.1.sending ≠ []) := by
  unfold addPkt
  by_cases ha : w.alloc x.2.calls = true
  · simp [ha, Io.next]
  · simp [ha, Io.next]

structure Acks (n : ℕ) (x y : Con × Io) : Prop where
  segments : ∃ fs, y.2.segments = x.2.segments ++ fs ∧ (∀ f ∈ fs, f.ack = y.1.rcv.ack) ∧ fs.length = n

theorem Acks.countP {n : ℕ} {y : Con × Io} (h : Acks n x y) (a : ℕ) :
    y.2.segments.countP (fun f => decide (f.ack = a)) =
      x.2.segments.countP (fun f => decide (f.ack = a)) + if y.1.rcv.ack = a then n else 0 := by
  obtain ⟨fs, hsegs, hack, rfl⟩ := h.segments
  rw [hsegs, List.countP_append]
  congr 1
  split_ifs with ha
  · exact List.countP_eq_length.mpr fun f hf => decide_eq_true ((hack f hf).trans ha)
  · exact List.countP_eq_zero.mpr fun f hf => by simpa [hack f hf] using ha

theorem send_acks (x : Con × Io) :
    Acks (if x.1.sending ≠ [] then (w.alloc x.2.calls).toNat else 0) x (sendTcpPkt w x) := by
  obtain ⟨hrcv, -, -, fs, hsegs, hack, hlen⟩ := @sendTcpPkt_sends w x
  exact ⟨fs, hsegs, fun f hf => (hack f hf).trans (by rw [hrcv]), hlen⟩

theorem ackAndSend_send_acks (x : Con × Io) : Acks
    (if w.alloc x.2.calls = true ∨ x.1.sending ≠ [] then
      (w.alloc (x.2.calls + 1)).toNat + (w.alloc (x.2.calls + 2)).toNat else 0)
    x (sendTcpPkt w (ackAndSend w x)) ∧ (sendTcpPkt w (ackAndSend w x)).1.rcv = x.1.rcv := by
  obtain ⟨hrcv, -, hsegs, hcalls, hne⟩ := addPkt_frame w tcpFlagAck 0 x
  have h₁ := @sendTcpPkt_sends w (addPkt w tcpFlagAck 0 x)
  have h₂ := @sendTcpPkt_sends w (ackAndSend w x)
  have hrcv₁ : (ackAndSend w x).1.rcv = x.1.rcv := h₁.rcv.trans hrcv
  have hrcv₂ : (sendTcpPkt w (ackAndSend w x)).1.rcv = x.1.rcv := h₂.rcv.trans hrcv₁
  have hne₁ : (ackAndSend w x).1.sending ≠ [] ↔ w.alloc x.2.calls = true ∨ x.1.sending ≠ [] := h₁.queue.trans hne
  obtain ⟨fs, hfs, hack, hlen⟩ := h₁.segments
  obtain ⟨gs, hgs, hack', hlen'⟩ := h₂.segments
  have hcalls₁ : (ackAndSend w x).2.calls = (addPkt w tcpFlagAck 0 x).2.calls +
    if (addPkt w tcpFlagAck 0 x).1.sending ≠ [] then 1 else 0 := h₁.calls
  refine ⟨⟨fs ++ gs, ?_, ?_, ?_⟩, hrcv₂⟩
  · have hfs' : (ackAndSend w x).2.segments = x.2.segments ++ fs := hfs.trans (by rw [hsegs])
    rw [hgs, hfs', List.append_assoc]
  · intro f hf
    rw [hrcv₂]
    rcases List.mem_append.mp hf with hf | hf
    · rw [hack f hf, hrcv]
    · rw [hack' f hf, hrcv₁]
  · rw [List.length_append, hlen, hlen']
    by_cases hsome : w.alloc x.2.calls = true ∨ x.1.sending ≠ []
    · rw [if_pos (hne.mpr hsome)] at hcalls₁
      rw [if_pos (hne.mpr hsome), if_pos (hne₁.mpr hsome), if_pos hsome, hcalls₁, hcalls]
    · rw [if_neg (mt hne.mp hsome), if_neg (mt hne₁.mp hsome), if_neg hsome]

end Frames

def Late (c : Con) : Prop := c.state.early = false

def Over (c : Con) : Prop := c.state = .closeWait ∨ c.state = .lastAck ∨ c.state = .timeWait

structure Moves (x y : Con × Io) : Prop where
  late : Late x.1 → Late y.1
  past : Over x.1 → Over y.1
  segments : x.2.segments <+: y.2.segments

section Moves

variable {w : World} {pid : ℤ} {c c' : Con} {io io' : Io} {x y z : Con × Io} {n : ℕ} {rq : NetReq}

theorem Moves.refl (x : Con × Io) : Moves x x := ⟨id, id, List.prefix_refl _⟩

theorem Moves.trans (h : Moves x y) (h' : Moves y z) : Moves x z :=
  ⟨h'.late ∘ h.late, h'.past ∘ h.past, h.segments.trans h'.segments⟩

theorem Moves.same (hs : c'.state = c.state) (hio : io'.segments = io.segments) : Moves (c, io) (c', io') := by
  constructor
  · intro h
    unfold Late at h ⊢
    rwa [hs]
  · intro h
    unfold Over at h ⊢
    rwa [hs]
  · rw [hio]

theorem sendTcpPkt_moves (x : Con × Io) : Moves x (sendTcpPkt w x) := by
  obtain ⟨fs, hsegs, -, -⟩ := (@sendTcpPkt_sends w x).segments
  have hstate : (sendTcpPkt w x).1.state = x.1.state ∨
      x.1.state = .established ∧ (sendTcpPkt w x).1.state = .finWait1 ∨
      x.1.state = .closeWait ∧ (sendTcpPkt w x).1.state = .lastAck := by
    obtain ⟨c, io⟩ := x
    unfold sendTcpPkt
    dsimp only
    split
    · exact .inl rfl
    · dsimp only
      split_ifs
      · cases c.state <;> simp
      · exact .inl rfl
  constructor
  · intro h
    unfold Late at h ⊢
    rcases hstate with hs | ⟨-, hs⟩ | ⟨-, hs⟩ <;> rw [hs]
    · exact h
    · rfl
    · rfl
  · intro h
    unfold Over at h ⊢
    rcases hstate with hs | ⟨he, -⟩ | ⟨-, hs⟩
    · rwa [hs]
    · rw [he] at h
      simp at h
    · exact .inr (.inl hs)
  · exact ⟨fs, hsegs.symm⟩

theorem addPkt_moves (flags len : ℕ) (x : Con × Io) : Moves x (addPkt w flags len x) := by
  obtain ⟨-, hstate, hsegs, -, -⟩ := addPkt_frame w flags len x
  exact Moves.same hstate hsegs

theorem ackAndSend_moves (x : Con × Io) : Moves x (ackAndSend w x) :=
  (addPkt_moves _ _ x).trans (sendTcpPkt_moves _)

theorem Moves.ends (h : Over c') (hio : io'.segments = io.segments) : Moves (c, io) (c', io') := by
  refine ⟨fun _ => ?_, fun _ => h, by rw [hio]⟩
  unfold Late
  rcases h with h | h | h <;> rw [h] <;> rfl

@[simp] theorem reply_segments : (io.reply pid).segments = io.segments := by
  unfold Io.reply
  split_ifs <;> rfl

@[simp] theorem replyCap_segments : (io.replyCap pid).segments = io.segments := by
  unfold Io.replyCap
  split
  · rfl
  · split_ifs <;> simp

@[simp] theorem unmapAddr_segments {cap : Cap} : (io.unmapAddr w cap).segments = io.segments := by
  unfold Io.unmapAddr
  split
  · split_ifs <;> rfl
  · split_ifs <;> rfl
  · rfl

@[simp] theorem frameMapAnywhere_segments : (io.frameMapAnywhere w).2.segments = io.segments := by
  unfold Io.frameMapAnywhere
  split
  · rfl
  · split_ifs <;> rfl

theorem handleTcpFin_moves : Moves (c, io) (handleTcpFin w pid c io) := by
  unfold handleTcpFin
  split
  · dsimp only
    split_ifs
    · exact (Moves.ends (.inl rfl) rfl).trans (ackAndSend_moves _)
    · exact Moves.ends (.inl rfl) rfl
  · exact (Moves.ends (.inr (.inr rfl)) reply_segments).trans (ackAndSend_moves _)
  · exact (Moves.ends (.inr (.inr rfl)) reply_segments).trans (ackAndSend_moves _)
  · exact ackAndSend_moves _
  · exact .refl _

theorem Moves.early (hc : c.state.early = true) (h : io.segments <+: y.2.segments) : Moves (c, io) y := by
  refine ⟨fun hl => ?_, fun ho => ?_, h⟩
  · unfold Late at hl
    rw [hc] at hl
    cases hl
  · have hs : c.state = .closeWait ∨ c.state = .lastAck ∨ c.state = .timeWait := ho
    rcases hs with hs | hs | hs <;> rw [hs] at hc <;> cases hc

theorem handleTcpSyn_moves {p : IpPkt} {seq portSrc : ℕ} {mac : Option (List UInt8)} :
    Moves (c, io) (handleTcpSyn w pid p seq portSrc mac c io) := by
  unfold handleTcpSyn
  split
  · rename_i hs
    apply Moves.early (by rw [hs]; rfl)
    dsimp only
    rw [reply_segments]
    exact (ackAndSend_moves (_, io)).segments
  · rename_i hs
    apply Moves.early (by rw [hs]; rfl)
    dsimp only
    split
    · exact List.prefix_refl _
    · exact ((addPkt_moves _ _ (_, io)).trans (sendTcpPkt_moves _)).segments
  · exact .refl _

theorem handleTcpAckFor_moves {isListenCon : Bool} {seq ack : ℕ} {data : List UInt8} :
    Moves (c, io) (handleTcpAckFor w pid isListenCon seq ack data c io).2 := by
  unfold handleTcpAckFor
  split
  · split_ifs
    · exact .same rfl rfl
    · exact .refl _
  · rename_i hs
    split_ifs
    · refine ⟨fun _ => rfl, fun ho => ?_, List.prefix_refl _⟩
      unfold Over at ho
      rw [hs] at ho
      simp at ho
    · exact sendTcpPkt_moves _
  · rename_i hs
    apply Moves.early (by rw [hs]; rfl)
    split_ifs
    · rw [reply_segments]
    · exact List.prefix_refl _
  · split_ifs
    · unfold insertReceivedFor
      split_ifs <;> exact .same rfl rfl
    · exact ackAndSend_moves _
    · exact .refl _
  · exact .refl _

theorem conInput_moves {mac : Option (List UInt8)} {q : IpPkt} :
    Moves (c, io) (conInput w pid false mac q c io).2 := by
  have hqueue : Moves (c, io)
      (if hasFlag (tcpFlags q) tcpFlagAck then { c with sending := dropAcked (tcpAck q) c.sending } else c, io) := by
    split_ifs
    · exact .same rfl rfl
    · exact .refl _
  unfold conInput
  dsimp only
  generalize (if hasFlag (tcpFlags q) tcpFlagAck then { c with sending := dropAcked (tcpAck q) c.sending } else c) = c'
    at hqueue ⊢
  refine Moves.trans (hqueue.trans ?_) (sendTcpPkt_moves _)
  split_ifs
  · exact .refl _
  · exact handleTcpFin_moves
  · exact handleTcpSyn_moves
  · exact handleTcpAckFor_moves
  · exact .refl _

theorem readMapped_moves : Moves (c, io) (readMapped w n c io).2 := by
  unfold readMapped
  generalize readLoop c.rcv.recvWait c.rcv.offsetIntoWaiting c.rcv.ack n = l
  obtain ⟨data, recvWait, o, contAck⟩ := l
  have hset : ∀ rcv, Moves (c, io) ({ c with rcv := rcv }, io) := fun rcv => .same rfl rfl
  have hfirst : Moves (c, io) (if c.rcv.ack < contAck then
      ackAndSend w ({ c with rcv := { c.rcv with recvWait := recvWait, offsetIntoWaiting := o, ack := contAck } }, io)
    else ({ c with rcv := { c.rcv with recvWait := recvWait, offsetIntoWaiting := o } }, io)) := by
    split_ifs
    · exact (hset _).trans (ackAndSend_moves _)
    · exact hset _
  dsimp only at hfirst ⊢
  generalize (if c.rcv.ack < contAck then
      ackAndSend w ({ c with rcv := { c.rcv with recvWait := recvWait, offsetIntoWaiting := o, ack := contAck } }, io)
    else ({ c with rcv := { c.rcv with recvWait := recvWait, offsetIntoWaiting := o } }, io)) = x at hfirst
  obtain ⟨c1, io1⟩ := x
  dsimp only
  split_ifs
  · have hclose : Moves (c1, io1) ({ c1.bumpAck with state := .closeWait }, io1) := .ends (.inl rfl) rfl
    exact (hfirst.trans hclose).trans (ackAndSend_moves _)
  · exact hfirst

theorem ipReadTcpReq_moves : Moves (c, io) (ipReadTcpReq w pid rq c io).2 := by
  have hmap := @frameMapAnywhere_segments w io
  unfold ipReadTcpReq
  split_ifs
  · exact .same rfl replyCap_segments
  · generalize io.frameMapAnywhere w = x at hmap
    obtain ⟨_ | cap, io1⟩ := x
    · exact .same rfl hmap
    · have hread := @readMapped_moves w c io1 rq.len
      dsimp only
      generalize readMapped w rq.len c io1 = y at hread
      obtain ⟨data, c', io'⟩ := y
      have hstart : Moves (c, io) (c, io1) := .same rfl hmap
      have hend : Moves (c', io') (c', (io'.unmapAddr w cap).replyCap pid) := .same rfl (by simp)
      exact (hstart.trans hread).trans hend

theorem ipWriteTcp_moves : Moves (c, io) (ipWriteTcp w pid rq c io) := by
  have hmap := @frameMapAnywhere_segments w io.next
  unfold ipWriteTcp
  split_ifs
  · exact .same rfl replyCap_segments
  · exact .same rfl rfl
  · generalize io.next.frameMapAnywhere w = x at hmap
    obtain ⟨_ | cap, io1⟩ := x
    · exact .same rfl hmap
    · dsimp only
      have hstart : Moves (c, io) (c, io1.unmapAddr w cap) := .same rfl (unmapAddr_segments.trans hmap)
      have hadd := hstart.trans (@addPkt_moves w (tcpFlagAck + tcpFlagPsh) rq.len (c, io1.unmapAddr w cap))
      generalize addPkt w (tcpFlagAck + tcpFlagPsh) rq.len (c, io1.unmapAddr w cap) = y at hadd
      obtain ⟨c', io'⟩ := y
      dsimp only
      have hnext : Moves (c', io') ({ c' with nextSeq := (c'.nextSeq + rq.len) % 2 ^ 32 }, io') := .same rfl rfl
      have hsend := (hadd.trans hnext).trans
        (@sendTcpPkt_moves w ({ c' with nextSeq := (c'.nextSeq + rq.len) % 2 ^ 32 }, io'))
      exact hsend.trans (.same rfl replyCap_segments)

theorem ipTcpDisconnect_moves : Moves (c, io) (ipTcpDisconnect w c io) := by
  unfold ipTcpDisconnect
  dsimp only
  have hclosing : Moves (c, io) ({ c with rcv := { c.rcv with closing := true } }, io) := .same rfl rfl
  split_ifs
  · exact .refl _
  · exact (hclosing.trans (addPkt_moves _ _ _)).trans (sendTcpPkt_moves _)
  · exact hclosing.trans (sendTcpPkt_moves _)

end Moves

section Runs

variable {w : World} {pid : ℤ} {peer : Stream} {r r' : Reading} {steps before after : List Step} {s : Step}
variable {mac : Option (List UInt8)} {q : IpPkt} {rqs : List (Option Cap × NetReq)}

theorem Step.run_moves (s : Step) : Moves (r.con, r.io) ((s.run w pid r).con, (s.run w pid r).io) := by
  have hslot : ∀ slot, Moves (r.con, r.io) (r.con, { r.io with slot := slot }) := fun slot => .same rfl rfl
  cases s with
  | segment mac q => exact conInput_moves
  | read slot rq =>
    have hread := (hslot slot).trans (@ipReadTcpReq_moves w pid r.con { r.io with slot := slot } rq)
    unfold Step.run
    dsimp only
    generalize ipReadTcpReq w pid rq r.con { r.io with slot := slot } = x at hread
    obtain ⟨_ | rsp, c, io⟩ := x <;> exact hread
  | write slot rq => exact (hslot slot).trans ipWriteTcp_moves
  | disconnect slot => exact (hslot slot).trans ipTcpDisconnect_moves

theorem run_moves (steps : List Step) :
    Moves (r.con, r.io) ((run w pid r steps).con, (run w pid r steps).io) := by
  induction steps generalizing r with
  | nil => exact .refl _
  | cons s steps ih => exact s.run_moves.trans ih

theorem Step.run_data (ho : Over r.con) (s : Step) : (s.run w pid r).data = r.data := by
  cases s with
  | read slot rq =>
    have hne : r.con.state ≠ .established := by
      rcases ho with h | h | h <;> rw [h] <;> decide
    simp [Step.run, ipReadTcpReq, hne, Reading.rsp]
  | _ => rfl

theorem run_data (ho : Over r.con) (steps : List Step) : (run w pid r steps).data = r.data := by
  induction steps generalizing r with
  | nil => rfl
  | cons s steps ih =>
    have hover : Over (s.run w pid r).con := s.run_moves.past ho
    exact (ih hover).trans (s.run_data ho)

theorem read_over {slot : Option Cap} {rq : NetReq} (ho : Over r.con) :
    ((Step.read slot rq).run w pid r).failed = true ∧
      acked peer ((Step.read slot rq).run w pid r) = acked peer r := by
  have hne : r.con.state ≠ .established := by
    rcases ho with h | h | h <;> rw [h] <;> decide
  simp [Step.run, ipReadTcpReq, hne, Reading.rsp, acked]

theorem reads_acked (ho : Over r.con) : acked peer (run w pid r (reads rqs)) = acked peer r := by
  induction rqs generalizing r with
  | nil => rfl
  | cons rq rqs ih =>
    have hover : Over ((Step.read rq.1 rq.2).run w pid r).con := (Step.read rq.1 rq.2).run_moves.past ho
    exact (ih hover).trans (read_over ho).2

@[simp] theorem reply_calls {io : Io} : (io.reply pid).calls = io.calls := by
  unfold Io.reply
  split_ifs <;> rfl

theorem handleTcpFin_cases {c : Con} {io : Io} (hl : Late c) : ∃ c' io', Over c' ∧ c'.sending = c.sending ∧
    c'.rcv.ack = (if countsFin c then (c.rcv.ack + 1) % 2 ^ 32 else c.rcv.ack) ∧ io'.calls = io.calls ∧
    io'.segments = io.segments ∧ handleTcpFin w pid c io =
      if countsFin c ∨ c.state = .timeWait then ackAndSend w (c', io') else (c', io') := by
  unfold Late at hl
  unfold handleTcpFin countsFin
  cases hs : c.state with
  | listen => rw [hs] at hl; cases hl
  | synSent => rw [hs] at hl; cases hl
  | synReceived => rw [hs] at hl; cases hl
  | established =>
    by_cases hempty : c.rcv.recvWait = []
    · refine ⟨{ c with state := .closeWait, rcv := { c.rcv with closing := true } : Con }.bumpAck, io, .inl rfl, rfl,
        ?_, rfl, rfl, ?_⟩
      · simp [Con.bumpAck, hempty]
      · simp [hempty]
    · refine ⟨{ c with state := .closeWait, rcv := { c.rcv with closing := true } }, io, .inl rfl, rfl, ?_, rfl, rfl, ?_⟩
      · simp [hempty]
      · simp [hempty]
  | finWait1 => exact ⟨{ c.bumpAck with state := .timeWait }, io.reply pid, .inr (.inr rfl), rfl, rfl,
      reply_calls, reply_segments, by simp⟩
  | finWait2 => exact ⟨{ c.bumpAck with state := .timeWait }, io.reply pid, .inr (.inr rfl), rfl, rfl,
      reply_calls, reply_segments, by simp⟩
  | closeWait => exact ⟨c, io, .inl hs, rfl, rfl, rfl, rfl, by simp⟩
  | lastAck => exact ⟨c, io, .inr (.inl hs), rfl, rfl, rfl, rfl, by simp⟩
  | timeWait => exact ⟨c, io, .inr (.inr hs), rfl, rfl, rfl, rfl, by simp⟩

theorem conInput_fin {c : Con} {io : Io} (hfin : hasFlag (tcpFlags q) tcpFlagFin = true)
    (hrst : hasFlag (tcpFlags q) tcpFlagRst = false) :
    (conInput w pid false mac q c io).2 =
      sendTcpPkt w (handleTcpFin w pid { c with sending := queued q c } io) := by
  unfold conInput queued
  by_cases hack : hasFlag (tcpFlags q) tcpFlagAck = true <;> simp [hfin, hrst, hack]

theorem fin_spec (hl : Late r.con) (hfin : hasFlag (tcpFlags q) tcpFlagFin = true)
    (hrst : hasFlag (tcpFlags q) tcpFlagRst = false) :
    Over ((Step.segment mac q).run w pid r).con ∧
      acked peer ((Step.segment mac q).run w pid r) = acked peer r + finAcks w peer q r := by
  obtain ⟨c', io', hover, hsending, hack, hcalls, hsegs, heq⟩ :=
    @handleTcpFin_cases w pid { r.con with sending := queued q r.con } r.io hl
  have hcount : countsFin { r.con with sending := queued q r.con } = countsFin r.con := rfl
  rw [hcount] at hack heq
  have hstep : (((Step.segment mac q).run w pid r).con, ((Step.segment mac q).run w pid r).io) =
      sendTcpPkt w (handleTcpFin w pid { r.con with sending := queued q r.con } r.io) := conInput_fin hfin hrst
  have hacks : ∃ y, (((Step.segment mac q).run w pid r).con, ((Step.segment mac q).run w pid r).io) = y ∧
      Acks (finFrames w q r) (c', io') y ∧ y.1.rcv = c'.rcv ∧ Over y.1 := by
    refine ⟨_, hstep, ?_⟩
    have hqueue : c'.sending = queued q r.con := hsending
    rw [heq]
    unfold finFrames
    rw [← hqueue, ← hcalls]
    by_cases htwice : countsFin r.con = true ∨ r.con.state = .timeWait
    · rw [if_pos htwice, if_pos htwice]
      obtain ⟨hacks, hrcv⟩ := @ackAndSend_send_acks w (c', io')
      refine ⟨hacks, hrcv, ?_⟩
      exact (sendTcpPkt_moves _).past ((ackAndSend_moves (c', io')).past hover)
    · rw [if_neg htwice, if_neg htwice]
      exact ⟨send_acks (c', io'), (sendTcpPkt_sends (c', io')).rcv, (sendTcpPkt_moves (c', io')).past hover⟩
  obtain ⟨⟨c, io⟩, hy, hacks, hrcv, ho⟩ := hacks
  obtain ⟨hcon, hio⟩ := Prod.mk.inj hy
  rw [hcon]
  refine ⟨ho, ?_⟩
  unfold acked finAcks
  rw [hio, hacks.countP, hrcv, hack, hsegs]

theorem run_append : run w pid r (before ++ after) = run w pid (run w pid r before) after :=
  List.foldl_append

theorem acked_le (h : r.io.segments <+: r'.io.segments) : acked peer r ≤ acked peer r' :=
  h.sublist.countP_le

theorem over_delivered (ho : Over r.con) : (∀ rqs, Delivered peer (run w pid r (reads rqs))) ↔
    r.data = peer.bytes ∧ acked peer r = 1 := by
  have hdata (rqs) : (run w pid r (reads rqs)).data = r.data := run_data ho _
  constructor
  · intro h
    let rq : NetReq := { type := netRead, chanId := 0, proto := protoTcp, portLoc := 0, addrRem := [], portRem := 0
                         conId := 0, len := 1 }
    have hfailed : (run w pid r (reads [(none, rq)])).failed = true := (@read_over w pid peer r none rq ho).1
    have hd := h [(none, rq)]
    have hall := hd.all hfailed
    have hacked := hd.acked
    rw [if_pos hall, reads_acked ho] at hacked
    rw [hdata] at hall
    exact ⟨hall, hacked⟩
  · rintro ⟨hall, hacked⟩ rqs
    have hbytes := (hdata rqs).trans hall
    refine ⟨fun _ => hbytes, ?_⟩
    rw [if_pos hbytes, reads_acked ho, hacked]

/-- The bytes before the FIN are delivered and it is acknowledged once just if all of them were returned when it came,
and one frame in all acknowledges it by then. Whatever comes after it, this is needed up to frames that are sent
later. -/
theorem fin_delivered_iff (w : World) (pid : ℤ) (peer : Stream) {r₀ : Reading} (h₀ : r₀.Start peer)
    (before : List Step) (mac : Option (List UInt8)) (q : IpPkt) (hfin : hasFlag (tcpFlags q) tcpFlagFin = true)
    (hrst : hasFlag (tcpFlags q) tcpFlagRst = false) :
    ((∀ rqs, Delivered peer (run w pid r₀ (before ++ .segment mac q :: reads rqs))) ↔
      (run w pid r₀ before).data = peer.bytes ∧
        acked peer (run w pid r₀ before) + finAcks w peer q (run w pid r₀ before) = 1) ∧
    ∀ after, (∀ rqs, Delivered peer (run w pid r₀ (before ++ .segment mac q :: after ++ reads rqs))) →
      (run w pid r₀ before).data = peer.bytes ∧
        acked peer (run w pid r₀ before) + finAcks w peer q (run w pid r₀ before) ≤ 1 := by
  have hlate : Late (run w pid r₀ before).con := by
    apply (run_moves before).late
    unfold Late
    rw [h₀.state]
    rfl
  have hsplit (more : List Step) : run w pid r₀ (before ++ .segment mac q :: more) =
      run w pid ((Step.segment mac q).run w pid (run w pid r₀ before)) more := run_append
  obtain ⟨hover, hacked⟩ := @fin_spec w pid peer _ mac q hlate hfin hrst
  have hdata : ((Step.segment mac q).run w pid (run w pid r₀ before)).data = (run w pid r₀ before).data := rfl
  rw [← hdata, ← hacked]
  generalize (Step.segment mac q).run w pid (run w pid r₀ before) = r at *
  constructor
  · simp only [hsplit]
    exact over_delivered hover
  · intro after h
    have hmoves := @run_moves w pid r after
    have hrest : ∀ rqs, run w pid r₀ (before ++ .segment mac q :: after ++ reads rqs) =
        run w pid (run w pid r after) (reads rqs) := by
      intro rqs
      rw [List.append_assoc, List.cons_append, hsplit, run_append]
    obtain ⟨hall, hone⟩ := (over_delivered (hmoves.past hover)).mp fun rqs => hrest rqs ▸ h rqs
    rw [run_data hover] at hall
    have hle : acked peer r ≤ acked peer (run w pid r after) := acked_le hmoves.segments
    exact ⟨hall, hle.trans hone.le⟩

def opened : Reading where
  con := { binding := 0, id := 0, portRem := 80, addrRem := [10, 0, 0, 2], macRem := List.replicate 6 2, state := .established
           nextSeq := 0x1001, sending := []
           rcv := { ack := 100, closing := false, offsetIntoWaiting := 0, recvWait := [] } }
  io := { slot := none, waiting := [], replied := [], sent := [], segments := [], calls := 0 }
  data := []
  failed := false

theorem opened_start (bytes : List UInt8) : opened.Start ⟨100, bytes⟩ := ⟨rfl, rfl, rfl, rfl, rfl⟩

def peerSegment (seq flags : ℕ) (data : List UInt8) : IpPkt :=
  { srcIpv4 := [10, 0, 0, 2], dstIpv4 := [10, 0, 0, 1], protocol := ipTcp, id := 0, srcPort := 0, haveLast := true
    frags := [], len := 20 + data.length
    data := putWord 80 ++ putWord 5000 ++ [0, 0, 0, UInt8.ofNat seq] ++ [0, 0, 0x10, 0x01] ++
      putWord (5 * 2 ^ 12 + flags) ++ putWord 1024 ++ [0, 0, 0, 0] ++ data }

def twoBytes : Step := .segment none (peerSegment 100 tcpFlagAck [1, 2])

def finSegment : IpPkt := peerSegment 102 (tcpFlagFin + tcpFlagAck) []

def readTwo : Step := .read (some (.frame 0x8000 0x1000))
  { type := netRead, chanId := 0, proto := protoTcp, portLoc := 0, addrRem := [], portRem := 0, conId := 0, len := 2 }

def without (n : ℕ) : World := ⟨fun k => decide (k ≠ n), fun _ => true, fun _ => true⟩

theorem fin_delivered_once : (∀ rqs, Delivered ⟨100, [1, 2]⟩
      (run (without 8) 7 opened ([twoBytes, readTwo] ++ .segment none finSegment :: reads rqs))) ∧
    (run (without 8) 7 opened [twoBytes, readTwo]).data = [1, 2] := by
  refine ⟨?_, by decide +kernel⟩
  apply (fin_delivered_iff (without 8) 7 ⟨100, [1, 2]⟩ (opened_start _) [twoBytes, readTwo] none finSegment (by decide)
    (by decide)).1.mpr
  decide +kernel

theorem unread_lost : ¬ Delivered ⟨100, [1, 2]⟩
      (run (without 99) 7 opened [twoBytes, .segment none finSegment, readTwo]) ∧
    acked ⟨100, [1, 2]⟩ (run (without 99) 7 opened [twoBytes, readTwo, .segment none finSegment]) = 2 := by
  refine ⟨fun h => ?_, by decide +kernel⟩
  have hall := h.all (by decide +kernel)
  revert hall
  decide +kernel

end Runs

end Agatha.Net.PeerFin
