import Agatha.Net.Requests
import Mathlib.Data.List.TakeWhile

/-!
What an established TCP connection has written and not yet seen acknowledged (`lib/net/tcp.c`). Packets carry their
bytes here, and memory is always there.
-/

namespace Agatha.Net

structure SentPkt where
  seq : ℕ
  flags : ℕ
  data : List UInt8

def SentPkt.len (t : SentPkt) : ℕ := t.data.length

def SentPkt.fin (t : SentPkt) : ℕ := (t.seq + t.len) % 2 ^ 32

def SentPkt.isData (t : SentPkt) : Bool := decide (t.len > 0)

structure SendCon where
  state : TcpState
  nextSeq : ℕ
  sending : List SentPkt
  rcv : TcpCon

/-- The loop of `send_tcp_pkt` that drops empty packets in front of others. -/
def trimPkts : List SentPkt → List SentPkt
  | [] => []
  | [p] => [p]
  | p :: o :: next =>
    if p.len > 0 ∨ hasFlag p.flags tcpFlagFin ∨ hasFlag p.flags tcpFlagSyn then p :: o :: next
    else trimPkts (o :: next)

def SendCon.send (c : SendCon) : SendCon :=
  match trimPkts c.sending with
  | [] => { c with sending := [] }
  | p :: next =>
    let state := if hasFlag p.flags tcpFlagFin then
        match c.state with
        | .established => .finWait1
        | .closeWait => .lastAck
        | state => state
      else c.state
    { c with sending := p :: next, state := state }

def SendCon.addPkt (flags : ℕ) (data : List UInt8) (c : SendCon) : SendCon :=
  { c with sending := c.sending ++ [{ seq := c.nextSeq, flags := flags, data := data }] }

/-- Whether the test of `handle_tcp` leaves the packet, and what is behind it, on the queue. -/
def SentPkt.stays (ack : ℕ) (t : SentPkt) : Bool := decide (ack < t.fin) || hasFlag t.flags tcpFlagFin

/-- The loop of `handle_tcp` that takes packets off the queue. -/
def ackPkts (ack : ℕ) : List SentPkt → List SentPkt
  | [] => []
  | t :: next => if t.stays ack then t :: next else ackPkts ack next

def SendCon.write (data : List UInt8) (c : SendCon) : SendCon :=
  if c.state ≠ .established ∨ c.rcv.closing = true then c
  else
    let c := c.addPkt (tcpFlagAck + tcpFlagPsh) data
    { c with nextSeq := (c.nextSeq + data.length) % 2 ^ 32 }.send

/-- `handle_tcp` from where it has an established connection. -/
def SendCon.input (flags seq ack : ℕ) (data : List UInt8) (c : SendCon) : SendCon :=
  let c := if hasFlag flags tcpFlagAck then { c with sending := ackPkts ack c.sending } else c
  let c :=
    if hasFlag flags tcpFlagRst then c
    else if hasFlag flags tcpFlagFin then
      let c := { c with state := .closeWait, rcv := { c.rcv with closing := true } }
      if c.rcv.recvWait = [] then
        ({ c with rcv := { c.rcv with ack := (c.rcv.ack + 1) % 2 ^ 32 } }.addPkt tcpFlagAck []).send
      else c
    else if hasFlag flags tcpFlagSyn then c
    else if hasFlag flags tcpFlagAck then
      if c.rcv.ack < (seq + data.length) % 2 ^ 32 then
        { c with rcv := insertReceived { seq := seq, data := data } c.rcv }
      else if data ≠ [] then (c.addPkt tcpFlagAck []).send
      else c
    else c
  c.send

/-- The end of `ip_read_tcp`, which acknowledges what was read to `contAck`. -/
def SendCon.ackRead (contAck : ℕ) (c : SendCon) : SendCon :=
  if c.rcv.ack < contAck then ({ c with rcv := { c.rcv with ack := contAck } }.addPkt tcpFlagAck []).send else c

def SendCon.ackFin (c : SendCon) : SendCon :=
  if c.rcv.closing = true ∧ c.rcv.recvWait = [] then
    ({ c with
      state := .closeWait
      rcv := { c.rcv with ack := (c.rcv.ack + 1) % 2 ^ 32 } }.addPkt tcpFlagAck []).send
  else c

def SendCon.read (len : ℕ) (c : SendCon) : SendCon :=
  if c.state ≠ .established then c
  else
    let (_, recvWait, o, contAck) := readLoop c.rcv.recvWait c.rcv.offsetIntoWaiting c.rcv.ack len
    ({ c with rcv := { c.rcv with recvWait := recvWait, offsetIntoWaiting := o } }.ackRead contAck).ackFin

def SendCon.disconnect (c : SendCon) : SendCon :=
  if c.rcv.recvWait ≠ [] then c
  else
    let c := { c with rcv := { c.rcv with closing := true } }
    let c := match c.state with
      | .established | .closeWait => c.addPkt (tcpFlagAck + tcpFlagFin) []
      | _ => c
    c.send

inductive SendStep
  | write (data : List UInt8)
  | segment (flags seq ack : ℕ) (data : List UInt8)
  | read (len : ℕ)
  | disconnect

def SendStep.con (c : SendCon) : SendStep → SendCon
  | .write data => c.write data
  | .segment flags seq ack data => c.input flags seq ack data
  | .read len => c.read len
  | .disconnect => c.disconnect

def PastEnd (ack : ℕ) (t : SentPkt) : Bool := decide ((ack + 2 ^ 32 - t.fin) % 2 ^ 32 < 2 ^ 31)

structure Sending where
  first : ℕ
  written : List UInt8
  unacked : List SentPkt
  con : SendCon

def SendStep.unacked (h : Sending) : SendStep → List SentPkt
  | .write data =>
    if h.con.rcv.closing = true ∨ data = [] then h.unacked
    else h.unacked ++ [⟨(h.first + h.written.length) % 2 ^ 32, tcpFlagAck + tcpFlagPsh, data⟩]
  | .segment flags _ ack _ => if hasFlag flags tcpFlagAck then h.unacked.dropWhile (PastEnd ack) else h.unacked
  | _ => h.unacked

def SendStep.written (h : Sending) : SendStep → List UInt8
  | .write data => if h.con.rcv.closing = true then h.written else h.written ++ data
  | _ => h.written

def SendStep.run (h : Sending) (s : SendStep) : Sending :=
  { h with written := s.written h, unacked := s.unacked h, con := s.con h.con }

/-- At each packet with bytes that all those before it have their acknowledgement, the packet has its own just if the
test of `handle_tcp` lets it and all before it go. -/
def AckAgrees (ack : ℕ) : Bool → List SentPkt → Prop
  | _, [] => True
  | stopped, t :: next =>
    let stopped := stopped || t.stays ack
    if t.isData then (PastEnd ack t = !stopped) ∧ (PastEnd ack t = true → AckAgrees ack stopped next)
    else AckAgrees ack stopped next

def SendStep.Agrees (c : SendCon) : SendStep → Prop
  | .segment flags _ ack _ => hasFlag flags tcpFlagAck = true → AckAgrees ack false c.sending
  | _ => True

/-- Runs of a connection from where it is established, with nothing written yet, for as long as it is. -/
inductive SendRun (cond : SendCon → SendStep → Prop) : Sending → Prop
  | start {c : SendCon} (empty : ∀ t ∈ c.sending, t.data = []) (seq : c.nextSeq < 2 ^ 32) :
      SendRun cond { first := c.nextSeq, written := [], unacked := [], con := c }
  | step {h : Sending} {s : SendStep} (run : SendRun cond h) (established : h.con.state = .established)
      (hcond : cond h.con s) : SendRun cond (s.run h)

def Follows : ℕ → List SentPkt → ℕ → Prop
  | s, [], e => s = e
  | s, t :: next, e => t.seq = s ∧ Follows ((s + t.len) % 2 ^ 32) next e

structure Covers (h : Sending) : Prop where
  queue : h.con.sending.filter SentPkt.isData = h.unacked
  nextSeq : h.con.nextSeq = (h.first + h.written.length) % 2 ^ 32
  bytes : ∃ acked, h.written = acked ++ (h.unacked.map SentPkt.data).flatten ∧
    Follows ((h.first + acked.length) % 2 ^ 32) h.unacked h.con.nextSeq

variable {c c' : SendCon} {h : Sending} {s : SendStep} {t : SentPkt} {l : List SentPkt} {ack a b e : ℕ}

def SentPkt.seg (t : SentPkt) : TcpSeg := { seq := t.seq, flags := t.flags, len := t.len }

theorem trimPkts_seg : (trimPkts l).map SentPkt.seg = trimSending (l.map SentPkt.seg) := by
  induction l with
  | nil => rfl
  | cons p next ih =>
    cases next with
    | nil => rfl
    | cons o next =>
      unfold trimPkts
      rw [List.map_cons, List.map_cons, trimSending]
      split_ifs <;> first | rfl | exact ih | contradiction

theorem ackPkts_seg : (ackPkts ack l).map SentPkt.seg = dropAcked ack (l.map SentPkt.seg) := by
  induction l with
  | nil => rfl
  | cons t next ih =>
    have hstays : t.stays ack = true ↔ ack < (t.seg.seq + t.seg.len) % 2 ^ 32 ∨ hasFlag t.seg.flags tcpFlagFin := by
      unfold SentPkt.stays
      rw [Bool.or_eq_true, decide_eq_true_eq]
      rfl
    unfold ackPkts
    rw [List.map_cons, dropAcked]
    by_cases hs : t.stays ack = true
    · rw [if_pos hs, if_pos (hstays.mp hs), List.map_cons]
    · rw [if_neg hs, if_neg (hs ∘ hstays.mpr), ih]

structure SendCon.Shown (c : SendCon) (c' : Con) : Prop where
  state : c'.state = c.state
  nextSeq : c'.nextSeq = c.nextSeq
  sending : c'.sending = c.sending.map SentPkt.seg
  rcv : c'.rcv = c.rcv

section Server

variable {w : World} {x : SendCon} {y : Con} {io : Io} {pid : ℤ} {mac : Option (List UInt8)} {p : IpPkt} {rq : NetReq}
  {data : List UInt8} {flags len contAck : ℕ}

theorem SendCon.Shown.send (h : x.Shown y) : x.send.Shown (sendTcpPkt w (y, io)).1 := by
  have htrim := @trimPkts_seg x.sending
  rw [← h.sending] at htrim
  unfold SendCon.send sendTcpPkt
  dsimp only
  cases hx : trimPkts x.sending with
  | nil =>
    rw [hx] at htrim
    rw [← htrim]
    exact ⟨h.state, h.nextSeq, rfl, h.rcv⟩
  | cons t next =>
    rw [hx] at htrim
    rw [← htrim]
    refine ⟨?_, h.nextSeq, rfl, h.rcv⟩
    change (if hasFlag t.flags tcpFlagFin then _ else y.state) = _
    exact h.state ▸ rfl

theorem SendCon.Shown.addPkt (h : x.Shown y) (hw : ∀ n, w.alloc n = true) (hlen : data.length = len) :
    (x.addPkt flags data).Shown (Net.addPkt w flags len (y, io)).1 := by
  subst hlen
  unfold Net.addPkt
  simp only [hw, if_true]
  refine ⟨h.state, h.nextSeq, ?_, h.rcv⟩
  unfold SendCon.addPkt
  rw [List.map_append, ← h.sending, h.nextSeq]
  rfl

theorem SendCon.Shown.ackAndSend (h : x.Shown y) (hw : ∀ n, w.alloc n = true) :
    (x.addPkt tcpFlagAck []).send.Shown (Net.ackAndSend w (y, io)).1 := (h.addPkt hw rfl).send

theorem SendCon.Shown.input (h : x.Shown y) (hs : x.state = .established) (hw : ∀ n, w.alloc n = true) :
    (x.input (tcpFlags p) (tcpSeq p) (tcpAck p) (tcpData p)).Shown (conInput w pid false mac p y io).2.1 := by
  unfold SendCon.input conInput
  dsimp only
  have hdrop : (if hasFlag (tcpFlags p) tcpFlagAck then { x with sending := ackPkts (tcpAck p) x.sending } else x).Shown
      (if hasFlag (tcpFlags p) tcpFlagAck then { y with sending := dropAcked (tcpAck p) y.sending } else y) := by
    split_ifs
    · refine ⟨h.state, h.nextSeq, ?_, h.rcv⟩
      rw [h.sending]
      exact ackPkts_seg.symm
    · exact h
  have hstate : (if hasFlag (tcpFlags p) tcpFlagAck then { x with sending := ackPkts (tcpAck p) x.sending }
      else x).state = .established := by split_ifs <;> exact hs
  generalize (if hasFlag (tcpFlags p) tcpFlagAck then { x with sending := ackPkts (tcpAck p) x.sending } else x) = x at *
  generalize (if hasFlag (tcpFlags p) tcpFlagAck then { y with sending := dropAcked (tcpAck p) y.sending } else y) = y
    at *
  have hy : y.state = .established := hdrop.state.trans hstate
  refine SendCon.Shown.send ?_
  by_cases hrst : hasFlag (tcpFlags p) tcpFlagRst = true
  · simp only [hrst, if_true]
    exact hdrop
  rw [if_neg hrst, if_neg hrst]
  by_cases hfin : hasFlag (tcpFlags p) tcpFlagFin = true
  · rw [if_pos hfin, if_pos hfin]
    unfold handleTcpFin
    rw [hy, hdrop.rcv]
    dsimp only
    have hclose : SendCon.Shown { x with state := .closeWait, rcv := { x.rcv with closing := true } }
        { y with state := .closeWait, rcv := { x.rcv with closing := true } } := ⟨rfl, hdrop.nextSeq, hdrop.sending, rfl⟩
    by_cases hempty : x.rcv.recvWait = []
    · rw [if_pos hempty, if_pos hempty]
      refine SendCon.Shown.ackAndSend ?_ hw
      exact ⟨rfl, hdrop.nextSeq, hdrop.sending, rfl⟩
    · rw [if_neg hempty, if_neg hempty]
      exact hclose
  rw [if_neg hfin, if_neg hfin]
  by_cases hsyn : hasFlag (tcpFlags p) tcpFlagSyn = true
  · rw [if_pos hsyn, if_pos hsyn]
    unfold handleTcpSyn
    rw [hy]
    exact hdrop
  rw [if_neg hsyn, if_neg hsyn]
  by_cases hack : hasFlag (tcpFlags p) tcpFlagAck = true
  · rw [if_pos hack, if_pos hack]
    unfold handleTcpAckFor
    rw [hy, hdrop.rcv]
    dsimp only
    split_ifs
    · have hinsert : ∀ t : TcpPkt, (insertReceivedFor w t y io).1.rcv = insertReceived t x.rcv ∧
          (insertReceivedFor w t y io).1.state = y.state ∧ (insertReceivedFor w t y io).1.nextSeq = y.nextSeq ∧
          (insertReceivedFor w t y io).1.sending = y.sending := by
        intro t
        unfold insertReceivedFor insertReceived
        simp only [hw]
        rw [hdrop.rcv]
        cases insertWalk t false x.rcv.ack x.rcv.recvWait with
        | none => exact ⟨hdrop.rcv, rfl, rfl, rfl⟩
        | some l => simp
      obtain ⟨h1, h2, h3, h4⟩ := hinsert { seq := tcpSeq p, data := tcpData p }
      exact ⟨h2.trans hdrop.state, h3.trans hdrop.nextSeq, h4.trans hdrop.sending, h1⟩
    · exact hdrop.ackAndSend hw
    · exact hdrop
  · rw [if_neg hack, if_neg hack]
    exact hdrop

theorem SendCon.Shown.write (h : x.Shown y) (hw : ∀ n, w.alloc n = true) (hlen : data.length = rq.len) :
    (ipWriteTcp w pid rq y io).1 = y ∨ (x.write data).Shown (ipWriteTcp w pid rq y io).1 := by
  unfold SendCon.write ipWriteTcp
  rw [h.state, h.rcv]
  split_ifs with hshut halloc
  · exact .inl rfl
  · exact .inl rfl
  · cases hmap : io.next.frameMapAnywhere w with
    | mk cap io' =>
      cases cap with
      | none => exact .inl rfl
      | some cap =>
        right
        have hadd : (x.addPkt (tcpFlagAck + tcpFlagPsh) data).Shown
            (Net.addPkt w (tcpFlagAck + tcpFlagPsh) rq.len (y, io'.unmapAddr w cap)).1 := h.addPkt hw hlen
        refine SendCon.Shown.send ⟨hadd.state, ?_, hadd.sending, hadd.rcv⟩
        rw [hadd.nextSeq, hlen]

theorem SendCon.Shown.ackRead (h : x.Shown y) (hw : ∀ n, w.alloc n = true) : (x.ackRead contAck).Shown
    (if y.rcv.ack < contAck then Net.ackAndSend w ({ y with rcv := { y.rcv with ack := contAck } }, io)
      else (y, io)).1 := by
  unfold SendCon.ackRead
  rw [h.rcv]
  split_ifs
  · refine SendCon.Shown.ackAndSend ?_ hw
    exact ⟨h.state, h.nextSeq, h.sending, rfl⟩
  · exact h

theorem SendCon.Shown.ackFin (h : x.Shown y) (hw : ∀ n, w.alloc n = true) : x.ackFin.Shown
    (if y.rcv.closing = true ∧ y.rcv.recvWait = [] then
      Net.ackAndSend w ({ y.bumpAck with state := .closeWait }, io) else (y, io)).1 := by
  unfold SendCon.ackFin Con.bumpAck
  rw [h.rcv]
  split_ifs
  · refine SendCon.Shown.ackAndSend ?_ hw
    exact ⟨rfl, h.nextSeq, h.sending, rfl⟩
  · exact h

theorem SendCon.Shown.read (h : x.Shown y) (hw : ∀ n, w.alloc n = true) :
    (ipReadTcpReq w pid rq y io).2.1 = y ∨ (x.read rq.len).Shown (ipReadTcpReq w pid rq y io).2.1 := by
  unfold SendCon.read ipReadTcpReq
  rw [h.state]
  split_ifs
  · exact .inl rfl
  · cases hmap : io.frameMapAnywhere w with
    | mk cap io' =>
      cases cap with
      | none => exact .inl rfl
      | some cap =>
        right
        dsimp only
        unfold readMapped
        rw [h.rcv]
        obtain ⟨got, recvWait, o, contAck⟩ := readLoop x.rcv.recvWait x.rcv.offsetIntoWaiting x.rcv.ack rq.len
        have hread : SendCon.Shown { x with rcv := { x.rcv with recvWait := recvWait, offsetIntoWaiting := o } }
            { y with rcv := { x.rcv with recvWait := recvWait, offsetIntoWaiting := o } } :=
          ⟨h.state, h.nextSeq, h.sending, rfl⟩
        have hack := @SendCon.Shown.ackRead w _ _ io' contAck hread hw
        dsimp only at hack ⊢
        generalize (if x.rcv.ack < contAck then _ else (({ y with rcv := _ } : Con), io')) = z at hack ⊢
        obtain ⟨y', io''⟩ := z
        have hfin := @SendCon.Shown.ackFin w _ _ io'' hack hw
        dsimp only at hfin ⊢
        split_ifs at hfin ⊢ <;> exact hfin

theorem SendCon.Shown.close (h : x.Shown y) (hw : ∀ n, w.alloc n = true) :
    (match x.state with
      | .established | .closeWait => x.addPkt (tcpFlagAck + tcpFlagFin) []
      | _ => x).send.Shown
    (if y.state = TcpState.established ∨ y.state = TcpState.closeWait then
      sendTcpPkt w (Net.addPkt w (tcpFlagAck + tcpFlagFin) 0 (y, io)) else sendTcpPkt w (y, io)).1 := by
  rw [h.state]
  cases x.state with
  | established => exact (h.addPkt hw rfl).send
  | closeWait => exact (h.addPkt hw rfl).send
  | _ => exact h.send

theorem SendCon.Shown.disconnect (h : x.Shown y) (hw : ∀ n, w.alloc n = true) :
    x.disconnect.Shown (ipTcpDisconnect w y io).1 := by
  unfold SendCon.disconnect ipTcpDisconnect
  rw [h.rcv]
  split_ifs
  · exact h
  · have hclose : SendCon.Shown { x with rcv := { x.rcv with closing := true } }
        { y with rcv := { x.rcv with closing := true } } := ⟨h.state, h.nextSeq, h.sending, rfl⟩
    exact hclose.close hw

end Server

theorem isData_of_nil (ht : t.data = []) : t.isData = false := by
  simp [SentPkt.isData, SentPkt.len, ht]

theorem trimPkts_data : (trimPkts l).filter SentPkt.isData = l.filter SentPkt.isData := by
  induction l with
  | nil => rfl
  | cons p next ih =>
    cases next with
    | nil => rfl
    | cons o next =>
      unfold trimPkts
      split_ifs with hstop
      · rfl
      · rw [ih, List.filter_cons (x := p), if_neg]
        simp only [SentPkt.isData, decide_eq_true_eq]
        exact fun hp => hstop (.inl hp)

structure SameData (c c' : SendCon) : Prop where
  sending : c'.sending.filter SentPkt.isData = c.sending.filter SentPkt.isData
  nextSeq : c'.nextSeq = c.nextSeq

theorem SameData.trans {c'' : SendCon} (h : SameData c c') (h' : SameData c' c'') : SameData c c'' :=
  ⟨h'.sending.trans h.sending, h'.nextSeq.trans h.nextSeq⟩

theorem SendCon.send_same (c : SendCon) : SameData c c.send := by
  have htrim := trimPkts_data (l := c.sending)
  unfold SendCon.send
  split
  · rename_i hl
    rw [hl] at htrim
    exact ⟨htrim, rfl⟩
  · rename_i p next hl
    rw [hl] at htrim
    exact ⟨htrim, rfl⟩

theorem SendCon.addPkt_same (flags : ℕ) (c : SendCon) : SameData c (c.addPkt flags []) := by
  refine ⟨?_, rfl⟩
  unfold SendCon.addPkt
  rw [List.filter_append, List.filter_cons, if_neg (by simp [SentPkt.isData, SentPkt.len]), List.filter_nil,
    List.append_nil]

theorem SendCon.ack_same (flags : ℕ) (hs : c'.sending = c.sending) (hn : c'.nextSeq = c.nextSeq) :
    SameData c (c'.addPkt flags []).send := by
  have hsame : SameData c c' := ⟨congrArg _ hs, hn⟩
  exact hsame.trans ((c'.addPkt_same flags).trans (SendCon.send_same _))

theorem SendCon.input_same (flags seq ack : ℕ) (data : List UInt8) (c : SendCon) :
    SameData (if hasFlag flags tcpFlagAck then { c with sending := ackPkts ack c.sending } else c)
      (c.input flags seq ack data) := by
  unfold SendCon.input
  simp only
  generalize (if hasFlag flags tcpFlagAck then { c with sending := ackPkts ack c.sending } else c) = c
  refine SameData.trans ?_ (SendCon.send_same _)
  split_ifs
  all_goals first
    | exact ⟨rfl, rfl⟩
    | exact SendCon.ack_same _ rfl rfl

theorem SendCon.ackRead_same (contAck : ℕ) (c : SendCon) : SameData c (c.ackRead contAck) := by
  unfold SendCon.ackRead
  split_ifs
  · exact SendCon.ack_same _ rfl rfl
  · exact ⟨rfl, rfl⟩

theorem SendCon.ackFin_same (c : SendCon) : SameData c c.ackFin := by
  unfold SendCon.ackFin
  split_ifs
  · exact SendCon.ack_same _ rfl rfl
  · exact ⟨rfl, rfl⟩

theorem SendCon.read_same (len : ℕ) (c : SendCon) : SameData c (c.read len) := by
  unfold SendCon.read
  split_ifs
  · exact ⟨rfl, rfl⟩
  · simp only
    generalize readLoop c.rcv.recvWait c.rcv.offsetIntoWaiting c.rcv.ack len = r
    have hset : SameData c { c with rcv := { c.rcv with recvWait := r.2.1, offsetIntoWaiting := r.2.2.1 } } :=
      ⟨rfl, rfl⟩
    exact hset.trans ((SendCon.ackRead_same _ _).trans (SendCon.ackFin_same _))

theorem SendCon.disconnect_same (c : SendCon) : SameData c c.disconnect := by
  unfold SendCon.disconnect
  split_ifs
  · exact ⟨rfl, rfl⟩
  · simp only
    have hset : SameData c { c with rcv := { c.rcv with closing := true } } := ⟨rfl, rfl⟩
    split
    · exact SendCon.ack_same _ rfl rfl
    · exact SendCon.ack_same _ rfl rfl
    · exact hset.trans (SendCon.send_same _)

theorem SendCon.write_adds (data : List UInt8) (hs : c.state = .established) :
    (c.rcv.closing = true → c.write data = c) ∧
    (c.rcv.closing = false → (c.write data).nextSeq = (c.nextSeq + data.length) % 2 ^ 32 ∧
      (c.write data).sending.filter SentPkt.isData = c.sending.filter SentPkt.isData ++
        if data = [] then [] else [⟨c.nextSeq, tcpFlagAck + tcpFlagPsh, data⟩]) := by
  refine ⟨fun hc => ?_, fun hc => ?_⟩
  · unfold SendCon.write
    rw [if_pos (.inr hc)]
  · unfold SendCon.write
    rw [if_neg (by simp [hs, hc])]
    have hsend := SendCon.send_same { c.addPkt (tcpFlagAck + tcpFlagPsh) data with
      nextSeq := (c.nextSeq + data.length) % 2 ^ 32 }
    refine ⟨hsend.nextSeq, hsend.sending.trans ?_⟩
    unfold SendCon.addPkt
    rw [List.filter_append, List.filter_cons]
    by_cases hd : data = []
    · simp [hd, SentPkt.isData, SentPkt.len]
    · simp [hd, SentPkt.isData, SentPkt.len, List.length_pos_iff]

theorem length_dropWhile_lt {p : SentPkt → Bool} : (l.dropWhile p).length < (t :: l).length :=
  Nat.lt_succ_of_le (List.dropWhile_suffix p).length_le

theorem filter_cons_data (ht : t.isData = true) :
    (t :: l).filter SentPkt.isData = t :: l.filter SentPkt.isData := List.filter_cons_of_pos ht

theorem filter_cons_empty (ht : ¬ t.isData = true) :
    (t :: l).filter SentPkt.isData = l.filter SentPkt.isData := List.filter_cons_of_neg ht

theorem agrees_stopped : AckAgrees ack true l ↔
    (l.filter SentPkt.isData).dropWhile (PastEnd ack) = l.filter SentPkt.isData := by
  induction l with
  | nil => exact iff_of_true trivial rfl
  | cons t next ih =>
    unfold AckAgrees
    simp only [Bool.true_or]
    split_ifs with ht
    · rw [filter_cons_data ht]
      by_cases hp : PastEnd ack t = true
      · rw [List.dropWhile_cons_of_pos hp]
        refine iff_of_false (fun h => ?_) fun h => ?_
        · simp [hp] at h
        · have hlt := congrArg List.length h
          have hle := length_dropWhile_lt (t := t) (l := next.filter SentPkt.isData) (p := PastEnd ack)
          omega
      · rw [List.dropWhile_cons_of_neg hp]
        exact iff_of_true ⟨by simpa using hp, fun h => absurd h hp⟩ rfl
    · rw [filter_cons_empty ht]
      exact ih

theorem ackPkts_suffix (ack : ℕ) (l : List SentPkt) : ackPkts ack l <:+ l := by
  induction l with
  | nil => exact List.suffix_refl _
  | cons t next ih =>
    unfold ackPkts
    split_ifs
    · exact List.suffix_refl _
    · exact ih.trans (List.suffix_cons t next)

theorem ackPkts_data : (ackPkts ack l).filter SentPkt.isData =
    (l.filter SentPkt.isData).dropWhile (PastEnd ack) ↔ AckAgrees ack false l := by
  induction l with
  | nil => exact iff_of_true rfl trivial
  | cons t next ih =>
    unfold ackPkts AckAgrees
    simp only [Bool.false_or]
    by_cases hstay : t.stays ack = true
    · rw [if_pos hstay, hstay]
      split_ifs with ht
      · rw [filter_cons_data ht]
        by_cases hp : PastEnd ack t = true
        · rw [List.dropWhile_cons_of_pos hp]
          refine iff_of_false (fun h => ?_) fun h => ?_
          · have hlt := congrArg List.length h
            have hle := length_dropWhile_lt (t := t) (l := next.filter SentPkt.isData) (p := PastEnd ack)
            omega
          · simp [hp] at h
        · rw [List.dropWhile_cons_of_neg hp]
          exact iff_of_true rfl ⟨by simpa using hp, fun h => absurd h hp⟩
      · rw [filter_cons_empty ht, agrees_stopped]
        exact eq_comm
    · rw [if_neg hstay, Bool.eq_false_iff.mpr hstay]
      split_ifs with ht
      · rw [filter_cons_data ht]
        by_cases hp : PastEnd ack t = true
        · rw [List.dropWhile_cons_of_pos hp, ih]
          exact ⟨fun h => ⟨by simpa using hp, fun _ => h⟩, fun h => h.2 hp⟩
        · rw [List.dropWhile_cons_of_neg hp]
          refine iff_of_false (fun h => ?_) fun h => ?_
          · have hlen := congrArg List.length h
            have hsub := (ackPkts_suffix ack next).sublist.filter SentPkt.isData
            have hle := hsub.length_le
            simp only [List.length_cons] at hlen
            omega
          · exact hp (by simpa using h.1)
      · rw [filter_cons_empty ht]
        exact ih

theorem Follows.append (h : Follows a l b) (ht : t.seq = b) : Follows a (l ++ [t]) ((b + t.len) % 2 ^ 32) := by
  induction l generalizing a with
  | nil =>
    obtain rfl : a = b := h
    exact ⟨ht, rfl⟩
  | cons x next ih => exact ⟨h.1, ih h.2⟩

theorem Follows.drop {front : List SentPkt} (h : Follows (a % 2 ^ 32) (front ++ l) b) :
    Follows ((a + (front.map SentPkt.data).flatten.length) % 2 ^ 32) l b := by
  induction front generalizing a with
  | nil => exact h
  | cons x next ih =>
    have hnext := h.2
    rw [Nat.mod_add_mod] at hnext
    have hrec := ih hnext
    rwa [Nat.add_assoc, SentPkt.len, ← List.length_append] at hrec

theorem Covers.same (h' : Covers h) (hc : SameData h.con c) : Covers { h with con := c } where
  queue := hc.sending.trans h'.queue
  nextSeq := hc.nextSeq.trans h'.nextSeq
  bytes := by
    obtain ⟨acked, hbytes, hfollows⟩ := h'.bytes
    refine ⟨acked, hbytes, ?_⟩
    rw [hc.nextSeq]
    exact hfollows

theorem Covers.write (h' : Covers h) {data : List UInt8} (hs : h.con.state = .established) :
    Covers ((SendStep.write data).run h) := by
  obtain ⟨hshut, hopen⟩ := SendCon.write_adds data hs
  by_cases hc : h.con.rcv.closing = true
  · have hrun : (SendStep.write data).run h = h := by
      simp [SendStep.run, SendStep.written, SendStep.unacked, SendStep.con, hc, hshut hc]
    rw [hrun]
    exact h'
  · obtain ⟨hnext, hsending⟩ := hopen (by simpa using hc)
    have hwritten : (SendStep.write data).written h = h.written ++ data := if_neg hc
    have hnext' : (h.con.write data).nextSeq = (h.first + (h.written ++ data).length) % 2 ^ 32 := by
      rw [hnext, h'.nextSeq, Nat.mod_add_mod, List.length_append, Nat.add_assoc]
    obtain ⟨acked, hbytes, hfollows⟩ := h'.bytes
    by_cases hd : data = []
    · have hunacked : (SendStep.write data).unacked h = h.unacked := if_pos (.inr hd)
      rw [if_pos hd, List.append_nil] at hsending
      refine ⟨?_, ?_, acked, ?_, ?_⟩
      · exact hsending.trans (h'.queue.trans hunacked.symm)
      · exact hnext'.trans (by rw [← hwritten]; rfl)
      · change (SendStep.write data).written h = acked ++ (((SendStep.write data).unacked h).map _).flatten
        rw [hwritten, hunacked, hd, List.append_nil]
        exact hbytes
      · change Follows _ ((SendStep.write data).unacked h) (h.con.write data).nextSeq
        have hsame : (h.con.write data).nextSeq = h.con.nextSeq := by
          rw [hnext', hd, List.append_nil, h'.nextSeq]
        rw [hunacked, hsame]
        exact hfollows
    · have hunacked : (SendStep.write data).unacked h = h.unacked ++
          [⟨(h.first + h.written.length) % 2 ^ 32, tcpFlagAck + tcpFlagPsh, data⟩] :=
        if_neg (not_or.mpr ⟨hc, hd⟩)
      rw [if_neg hd] at hsending
      refine ⟨?_, ?_, acked, ?_, ?_⟩
      · refine hsending.trans (Eq.trans ?_ hunacked.symm)
        rw [h'.queue, h'.nextSeq]
      · exact hnext'.trans (by rw [← hwritten]; rfl)
      · change (SendStep.write data).written h = acked ++ (((SendStep.write data).unacked h).map _).flatten
        rw [hwritten, hunacked, List.map_append, List.flatten_append, ← List.append_assoc, ← hbytes]
        simp
      · change Follows _ ((SendStep.write data).unacked h) (h.con.write data).nextSeq
        rw [hunacked, hnext]
        exact hfollows.append h'.nextSeq.symm

theorem Covers.segment (h' : Covers h) {flags seq : ℕ} {data : List UInt8} :
    Covers ((SendStep.segment flags seq ack data).run h) ↔ (SendStep.segment flags seq ack data).Agrees h.con := by
  have hsame := SendCon.input_same flags seq ack data h.con
  by_cases hf : hasFlag flags tcpFlagAck = true
  · rw [if_pos hf] at hsame
    have hunacked : (SendStep.segment flags seq ack data).unacked h = h.unacked.dropWhile (PastEnd ack) := if_pos hf
    have hqueue : (h.con.input flags seq ack data).sending.filter SentPkt.isData =
        (SendStep.segment flags seq ack data).unacked h ↔ AckAgrees ack false h.con.sending := by
      rw [hsame.sending, hunacked, ← h'.queue]
      exact ackPkts_data
    constructor
    · exact fun h'' _ => hqueue.mp h''.queue
    · intro hagrees
      obtain ⟨acked, hbytes, hfollows⟩ := h'.bytes
      have hsplit := List.takeWhile_append_dropWhile (p := PastEnd ack) (l := h.unacked)
      rw [← hsplit] at hbytes hfollows
      refine ⟨hqueue.mpr (hagrees hf), hsame.nextSeq.trans h'.nextSeq,
        acked ++ ((h.unacked.takeWhile (PastEnd ack)).map SentPkt.data).flatten, ?_, ?_⟩
      · change h.written = _ ++ (((SendStep.segment flags seq ack data).unacked h).map _).flatten
        rw [hunacked, List.append_assoc, ← List.flatten_append, ← List.map_append]
        exact hbytes
      · change Follows _ ((SendStep.segment flags seq ack data).unacked h) (h.con.input flags seq ack data).nextSeq
        rw [hunacked, hsame.nextSeq, List.length_append, ← Nat.add_assoc]
        exact hfollows.drop
  · rw [if_neg hf] at hsame
    have hunacked : (SendStep.segment flags seq ack data).unacked h = h.unacked := if_neg hf
    refine iff_of_true ?_ fun hf' => absurd hf' hf
    have hcovers := h'.same hsame
    rwa [← hunacked] at hcovers

theorem Covers.step (h' : Covers h) (hs : h.con.state = .established) :
    Covers (s.run h) ↔ s.Agrees h.con := by
  cases s with
  | write data => exact iff_of_true (h'.write hs) trivial
  | segment flags seq ack data => exact h'.segment
  | read len => exact iff_of_true (h'.same (SendCon.read_same len h.con)) trivial
  | disconnect => exact iff_of_true (h'.same (SendCon.disconnect_same h.con)) trivial

theorem SendRun.covers (run : SendRun (fun c s => s.Agrees c) h) : Covers h := by
  induction run with
  | @start c empty seq =>
    have hq : c.sending.filter SentPkt.isData = [] :=
      List.filter_eq_nil_iff.mpr fun t ht => by simp [isData_of_nil (empty t ht)]
    have hseq : (c.nextSeq + 0) % 2 ^ 32 = c.nextSeq := Nat.mod_eq_of_lt seq
    exact ⟨hq, hseq.symm, [], rfl, hseq⟩
  | step run established hcond ih => exact (ih.step established).mpr hcond

/-- The queue covers what is written and not acknowledged, in each state of a run whose acknowledgements agree with
the order of the numbers, and after one more step just if that one does; and then a packet with bytes leaves the queue
only for an acknowledgement at or past its end. -/
theorem send_queue_covers (run : SendRun (fun c s => s.Agrees c) h) : Covers h ∧
    ∀ s : SendStep, h.con.state = .established → (Covers (s.run h) ↔ s.Agrees h.con) ∧
      (s.Agrees h.con → ∀ t ∈ h.con.sending, t.data ≠ [] → t ∉ (s.run h).con.sending →
        ∃ flags seq ack data, s = .segment flags seq ack data ∧ hasFlag flags tcpFlagAck = true ∧
          PastEnd ack t = true) := by
  have hcovers := run.covers
  refine ⟨hcovers, fun s hs => ⟨hcovers.step hs, fun hagrees t ht hd hgone => ?_⟩⟩
  have hdata : t.isData = true := by simpa [SentPkt.isData, SentPkt.len, List.length_pos_iff] using hd
  have hmem : t ∈ h.unacked := by
    rw [← hcovers.queue]
    exact List.mem_filter.mpr ⟨ht, hdata⟩
  have hout : t ∉ s.unacked h := by
    have hqueue : (s.run h).con.sending.filter SentPkt.isData = s.unacked h := ((hcovers.step hs).mpr hagrees).queue
    rw [← hqueue]
    exact fun hin => hgone (List.mem_filter.mp hin).1
  cases s with
  | write data =>
    unfold SendStep.unacked at hout
    simp only at hout
    split_ifs at hout
    · exact absurd hmem hout
    · exact absurd (List.mem_append_left _ hmem) hout
  | segment flags seq ack data =>
    unfold SendStep.unacked at hout
    simp only at hout
    split_ifs at hout with hf
    · refine ⟨flags, seq, ack, data, rfl, hf, ?_⟩
      have hsplit := List.takeWhile_append_dropWhile (p := PastEnd ack) (l := h.unacked)
      rw [← hsplit] at hmem
      exact List.mem_takeWhile_imp ((List.mem_append.mp hmem).resolve_right hout)
    · exact absurd hmem hout
  | read len => exact absurd hmem hout
  | disconnect => exact absurd hmem hout

def accepted : Sending where
  first := 0x1001
  written := []
  unacked := []
  con := { state := .established, nextSeq := 0x1001, sending := []
           rcv := { ack := 1, closing := false, offsetIntoWaiting := 0, recvWait := [] } }

theorem accepted_run {cond : SendCon → SendStep → Prop} : SendRun cond accepted :=
  .start (c := accepted.con) (fun _ ht => by cases ht) (by decide)

def wrote : Sending := (SendStep.write [1, 2, 3, 4]).run accepted

theorem wrote_run : SendRun (fun c s => s.Agrees c) wrote := accepted_run.step rfl trivial

def ackedFirst : Sending := (SendStep.segment tcpFlagAck 1 0x1005 []).run ((SendStep.write [5, 6]).run wrote)

theorem ackedFirst_run : SendRun (fun c s => s.Agrees c) ackedFirst := by
  have hwrote : SendRun (fun c s => s.Agrees c) ((SendStep.write [5, 6]).run wrote) := wrote_run.step rfl trivial
  refine hwrote.step rfl fun _ => ?_
  change AckAgrees 0x1005 false
    [⟨0x1001, tcpFlagAck + tcpFlagPsh, [1, 2, 3, 4]⟩, ⟨0x1005, tcpFlagAck + tcpFlagPsh, [5, 6]⟩]
  have hfirst : PastEnd 0x1005 ⟨0x1001, tcpFlagAck + tcpFlagPsh, [1, 2, 3, 4]⟩ = true := by decide
  have hsecond : PastEnd 0x1005 ⟨0x1005, tcpFlagAck + tcpFlagPsh, [5, 6]⟩ = false := by decide
  exact ⟨hfirst, fun _ => ⟨hsecond, fun h => absurd (hsecond.symm.trans h) (by decide)⟩⟩

theorem send_queue_covers_acked : Covers ackedFirst ∧ ackedFirst.written = [1, 2, 3, 4, 5, 6] ∧
    ackedFirst.unacked = [⟨0x1005, tcpFlagAck + tcpFlagPsh, [5, 6]⟩] ∧
    ⟨0x1001, tcpFlagAck + tcpFlagPsh, [1, 2, 3, 4]⟩ ∉ ackedFirst.con.sending := by
  refine ⟨(send_queue_covers ackedFirst_run).1, rfl, rfl, ?_⟩
  have hqueue : ackedFirst.con.sending = [⟨0x1005, tcpFlagAck + tcpFlagPsh, [5, 6]⟩] := rfl
  rw [hqueue]
  simp

theorem send_queue_forgets : SendRun (fun c s => s.Agrees c) wrote ∧ wrote.con.state = .established ∧
    wrote.con.sending = [⟨0x1001, tcpFlagAck + tcpFlagPsh, [1, 2, 3, 4]⟩] ∧
    PastEnd 0xf0000000 ⟨0x1001, tcpFlagAck + tcpFlagPsh, [1, 2, 3, 4]⟩ = false ∧
    ((SendStep.segment tcpFlagAck 1 0xf0000000 []).run wrote).con.sending = [] ∧
    ¬ Covers ((SendStep.segment tcpFlagAck 1 0xf0000000 []).run wrote) := by
  refine ⟨wrote_run, rfl, rfl, by decide, rfl, fun h => ?_⟩
  have hqueue : [] = ((SendStep.segment tcpFlagAck 1 0xf0000000 []).run wrote).unacked := h.queue
  have hunacked : ((SendStep.segment tcpFlagAck 1 0xf0000000 []).run wrote).unacked =
      [⟨0x1001, tcpFlagAck + tcpFlagPsh, [1, 2, 3, 4]⟩] := rfl
  rw [hunacked] at hqueue
  cases hqueue

end Agatha.Net
