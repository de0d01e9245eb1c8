import Agatha.Net.ReceivePath

namespace Agatha.Net

def TcpSeg.full (t : TcpSeg) : Bool :=
  decide (t.len > 0 ∨ hasFlag t.flags tcpFlagFin = true ∨ hasFlag t.flags tcpFlagSyn = true)

def SendFits (l : List TcpSeg) : Prop := ∀ t, l.find? TcpSeg.full = some t → t.len + 68 < 2 ^ 32

def Server.conOf (binding : ℤ) (con : ℕ) (s : Server) : Option Con :=
  (s.net.bindings.find? fun b => decide (b.id = binding)).bind fun b =>
    b.tcp.cons.find? fun c => decide (c.id = con)

/-- What was to be done when an address is known can be done: a segment or a datagram goes out, and the datagram
is inside the frame that was mapped for it. -/
def ArpFunc.Fits (s : Server) : ArpFunc → Prop
  | .connect binding con => ∀ c, s.conOf binding con = some c → SendFits c.sending
  | .udpWrite r => r.len ≤ r.cap.mapped ∧ r.len + 56 < 2 ^ 32

def RequestsFit (ip : List UInt8) (s : Server) : Prop := ∀ r ∈ s.arpRequests, r.ip = ip → r.func.Fits s

def ArpFits (pkt : List UInt8) (s : Server) : Prop :=
  8 + byteAt pkt 18 * 2 + byteAt pkt 19 * 2 ≤ lenSub pkt.length 14 → word pkt 14 = 1 → word pkt 16 = 0x800 →
    if copyOut pkt 0 6 = List.replicate 6 0xff then
      Inside pkt.length 38 (compared (copyOut pkt 38 4) s.net.ipv4) ∧
        (copyOut pkt 38 4 = s.net.ipv4 → RequestsFit (copyOut pkt 28 4) s)
    else copyOut pkt 0 6 = s.net.mac → word pkt 20 = 2 →
      32 ≤ pkt.length ∧ RequestsFit (copyOut pkt 28 4) s

def IpPkt.FragsFit (p : IpPkt) : Prop := ∀ a ∈ p.frags, Inside p.len a.offset a.len

def IcmpFits (p : IpPkt) (s : Server) : Prop :=
  1 ≤ p.len ∧ p.FragsFit ∧ (byteAt p.data 0 = 8 → 8 ≤ p.len ∧
    (s.arpMatchIp p.srcIpv4 ≠ none → lenSub p.len 8 + 56 < 2 ^ 32))

def UdpFits (p : IpPkt) (s : Server) : Prop :=
  8 ≤ p.len ∧ (word p.data 4 ≤ p.len → 8 ≤ word p.data 4 ∧
    (findBindingIp protoUdp (word p.data 2) s.net.bindings = none → p.FragsFit))

def AckOnly (flags : ℕ) : Prop :=
  hasFlag flags tcpFlagAck = true ∧ hasFlag flags tcpFlagRst = false ∧ hasFlag flags tcpFlagFin = false ∧
    hasFlag flags tcpFlagSyn = false

instance {flags : ℕ} : Decidable (AckOnly flags) :=
  inferInstanceAs (Decidable (_ ∧ _ ∧ _ ∧ _))

def Con.left (ack : ℕ) (c : Con) : List TcpSeg :=
  if (c.state = .lastAck ∨ c.state = .finWait1) ∧ ack = (c.nextSeq + 1) % 2 ^ 32 then c.sending.tail else c.sending

def Con.afterAck (p : IpPkt) (c : Con) : Con :=
  if hasFlag (tcpFlags p) tcpFlagAck then { c with sending := dropAcked (tcpAck p) c.sending } else c

def Con.awaited (p : IpPkt) (c : Con) : List TcpSeg :=
  if AckOnly (tcpFlags p) then (c.afterAck p).left (tcpAck p) else (c.afterAck p).sending

def TcpBinding.conFor (p : IpPkt) (t : TcpBinding) : Option Con :=
  match t.cons.find? (Con.isFrom p) with
  | some c => some c
  | none => t.listenCon.filter fun c => decide (c.state = .listen) || c.isFrom p

def conFor (p : IpPkt) (s : Server) : Option Con :=
  (findBindingIp protoTcp (word p.data 2) s.net.bindings).bind fun i => s.net.bindings[i]?.bind fun b =>
    b.tcp.conFor p

def ConFits (p : IpPkt) (c : Con) : Prop :=
  16 ≤ p.len ∧ (AckOnly (tcpFlags p) → tcpHdrLen p ≤ p.len) ∧ SendFits (c.awaited p)

def TcpFits (p : IpPkt) (s : Server) : Prop :=
  14 ≤ p.len ∧ p.FragsFit ∧ ∀ c, conFor p s = some c → ConFits p c

def IpPkt.Fits (p : IpPkt) (s : Server) : Prop :=
  (p.protocol = ipIcmp → IcmpFits p s) ∧ (p.protocol = ipTcp → TcpFits p s) ∧ (p.protocol = ipUdp → UdpFits p s)

def wholePkt (pkt : List UInt8) : IpPkt :=
  { ipPktNew (ipSrc pkt) (ipDst pkt) (ipProtocol pkt) (ipIdent pkt) with
    data := ipBody pkt, len := word pkt 16 - ipHdrLen pkt }

def Completes (heap : Heap) (pkt : List UInt8) (s : Server) (p : IpPkt) : Prop :=
  (receiveIpv4 heap pkt s.net).1 = some p

def Ipv4Fits (heap : Heap) (pkt : List UInt8) (s : Server) : Prop :=
  copyOut pkt 0 6 = s.net.mac → Inside pkt.length 30 (compared (ipDst pkt) s.net.ipv4) ∧
    (ipDst pkt = s.net.ipv4 → byteAt pkt 14 / 16 = 4 → ipHdrLen pkt ≤ word pkt 16 ∧
      (heap.ok s.net.calls → heap.ok s.net.next.calls → Inside pkt.length (14 + ipHdrLen pkt) (ipLen pkt) ∧
        if ipOffset pkt > 0 ∨ ipMore pkt = true then ∀ p, Completes heap pkt s p → p.Fits s
        else (wholePkt pkt).Fits s))

def FrameFits (heap : Heap) (pkt : List UInt8) (s : Server) : Prop :=
  14 ≤ pkt.length ∧ (word pkt 12 = 0x0806 → ArpFits pkt s) ∧ (word pkt 12 = 0x0800 → Ipv4Fits heap pkt s)

section Bounds

theorem word_lt {pkt : List UInt8} {i : ℕ} : word pkt i < 2 ^ 16 := by
  unfold word byteAt
  have h := (pkt.getD i 0).toNat_lt
  have h' := (pkt.getD (i + 1) 0).toNat_lt
  omega

theorem lenSub_eq {a b : ℕ} (h : b ≤ a) (ha : a < 2 ^ 32) : lenSub a b = a - b := by
  unfold lenSub
  omega

variable {α β : Type} {x : Parse α} {f : α → Parse β} {size off n a b i : ℕ} {buf : Buf} {ptr : Ptr} {l : List UInt8}

@[simp]
theorem inBounds_pure {a : α} : Parse.InBounds (pure a : Parse α) := Traced.all_pure

@[simp]
theorem inBounds_bind : Parse.InBounds (x >>= f) ↔ Parse.InBounds x ∧ Parse.InBounds (f x.val) := Traced.all_bind

@[simp]
theorem inBounds_ite {c : Prop} [Decidable c] {y : Parse α} :
    Parse.InBounds (if c then x else y) ↔ if c then Parse.InBounds x else Parse.InBounds y := Traced.all_ite

theorem inside_iff : Inside size off n ↔ n = 0 ∨ off + n ≤ size := by
  constructor
  · intro h
    by_contra hout
    have hlast := h (n - 1) (by omega)
    omega
  · intro h i hi
    omega

theorem inside_of_le (h : off + n ≤ size) : Inside size off n := inside_iff.mpr (Or.inr h)

@[simp]
theorem touch_inBounds : (Parse.touch size off n).InBounds ↔ Inside size off n := List.forall_mem_singleton

@[simp]
theorem lenMinus_inBounds : (Parse.lenMinus a b).InBounds ↔ b ≤ a := List.forall_mem_singleton

@[simp]
theorem byte_inBounds : (Parse.byte buf i).InBounds ↔ i + 1 ≤ buf.size :=
  List.forall_mem_singleton.trans (inside_iff.trans (or_iff_right one_ne_zero))

@[simp]
theorem word_inBounds : (Parse.word buf i).InBounds ↔ i + 2 ≤ buf.size :=
  List.forall_mem_singleton.trans (inside_iff.trans (or_iff_right two_ne_zero))

@[simp]
theorem copy_inBounds : (Parse.copy ptr n).InBounds ↔ Inside ptr.buf.size ptr.off n := List.forall_mem_singleton

@[simp]
theorem memcmp_inBounds : (Parse.memcmp ptr l n).InBounds ↔
    Inside ptr.buf.size ptr.off (compared (copyOut ptr.buf.data ptr.off n) l) := List.forall_mem_singleton

end Bounds

section Sending

variable {w : World} {l r : List TcpSeg} {t : TcpSeg} {c : Con} {io : Io} {x : Con × Io} {pid : ℤ} {p : IpPkt}
  {mac : Option (List UInt8)} {flags len : ℕ} {body : ℕ → Parse Unit}

theorem trimSending_find : (trimSending l).find? TcpSeg.full = l.find? TcpSeg.full := by
  fun_induction trimSending l with
  | case1 | case2 | case3 => rfl
  | case4 p o next h ih =>
    have hp : p.full = false := decide_eq_false h
    have hneg : ¬p.full = true := by simp [hp]
    rw [ih, List.find?_cons_of_neg hneg]

theorem trimSending_head {p : TcpSeg} {next : List TcpSeg} (h : trimSending l = p :: next) :
    l.find? TcpSeg.full = some p ∨ p.len = 0 ∧ l.find? TcpSeg.full = none := by
  fun_induction trimSending l with
  | case1 => cases h
  | case2 q =>
    cases h
    by_cases hq : p.full = true
    · exact Or.inl (List.find?_cons_of_pos hq)
    · have hlen : ¬(p.len > 0 ∨ hasFlag p.flags tcpFlagFin = true ∨ hasFlag p.flags tcpFlagSyn = true) := by
        simpa [TcpSeg.full] using hq
      exact Or.inr ⟨by omega, List.find?_cons_of_neg hq⟩
  | case3 q o rest hq =>
    cases h
    exact Or.inl (List.find?_cons_of_pos (decide_eq_true hq))
  | case4 q o rest hq ih =>
    have hneg : ¬q.full = true := by simpa [TcpSeg.full] using hq
    rw [List.find?_cons_of_neg hneg]
    exact ih h

theorem sendIpv4Pkt_inBounds : (Parse.sendIpv4Pkt w len body io).InBounds ↔
    (w.alloc io.calls = true → Inside (ethPktSize (20 + len)) 0 34 ∧ (body (ethPktSize (20 + len))).InBounds ∧
      Inside (ethPktSize (20 + len)) 0 ((14 + (20 + len)) % 2 ^ 32)) := by
  unfold Parse.sendIpv4Pkt
  rw [inBounds_ite]
  split_ifs with h
  · simp only [inBounds_bind, inBounds_pure, touch_inBounds, and_true, h, true_implies]
  · simp [h]

theorem tcpBody_inBounds {n size : ℕ} : (Parse.tcpBody n size).InBounds ↔
    54 ≤ size ∧ (n > 0 → 54 + n ≤ size) ∧ 34 + (20 + n) % 2 ^ 32 ≤ size := by
  unfold Parse.tcpBody
  by_cases hn : n > 0
  · simp [hn, inside_iff]
    omega
  · simp [hn, inside_iff]
    omega

theorem segment_inBounds {n : ℕ} : (Parse.sendIpv4Pkt w (20 + n) (Parse.tcpBody n) io).InBounds ↔
    (w.alloc io.calls = true → n + 68 < 2 ^ 32) := by
  have hsize : (Inside (ethPktSize (20 + (20 + n))) 0 34 ∧ (Parse.tcpBody n (ethPktSize (20 + (20 + n)))).InBounds ∧
      Inside (ethPktSize (20 + (20 + n))) 0 ((14 + (20 + (20 + n))) % 2 ^ 32)) ↔ n + 68 < 2 ^ 32 := by
    simp only [tcpBody_inBounds, inside_iff]
    unfold ethPktSize
    omega
  rw [sendIpv4Pkt_inBounds, hsize]

theorem sendTcpPkt_inBounds_iff : (Parse.sendTcpPkt w (c, io)).InBounds ↔
    ∀ p, (trimSending c.sending).head? = some p → w.alloc io.calls = true → p.len + 68 < 2 ^ 32 := by
  unfold Parse.sendTcpPkt
  dsimp only
  cases trimSending c.sending with
  | nil => simp
  | cons p next => simp [segment_inBounds]

theorem sendTcpPkt_inBounds (h : SendFits c.sending) : (Parse.sendTcpPkt w (c, io)).InBounds := by
  apply sendTcpPkt_inBounds_iff.mpr
  intro p hp _
  obtain ⟨next, htrim⟩ := List.head?_eq_some_iff.mp hp
  rcases trimSending_head htrim with hfind | ⟨hlen, _⟩
  · exact h p hfind
  · omega

theorem sendFits_of_inBounds (halloc : w.alloc io.calls = true) (h : (Parse.sendTcpPkt w (c, io)).InBounds) :
    SendFits c.sending := by
  intro t ht
  have h := sendTcpPkt_inBounds_iff.mp h
  have hfind := trimSending_find (l := c.sending)
  cases htrim : trimSending c.sending with
  | nil =>
    rw [htrim, ht] at hfind
    cases hfind
  | cons p next =>
    rcases trimSending_head htrim with hp | ⟨_, hnone⟩
    · rw [ht] at hp
      cases hp
      exact h t (by rw [htrim]; rfl) halloc
    · rw [ht] at hnone
      cases hnone

theorem sendTcpPkt_keeps : SendFits (sendTcpPkt w x).1.sending ↔ SendFits x.1.sending := by
  obtain ⟨c, io⟩ := x
  have hsending : (sendTcpPkt w (c, io)).1.sending = trimSending c.sending := by
    unfold sendTcpPkt
    dsimp only
    cases trimSending c.sending <;> rfl
  rw [hsending]
  unfold SendFits
  rw [trimSending_find]

theorem sendFits_append (h : t.len = 0) : SendFits (l ++ [t]) ↔ SendFits l := by
  unfold SendFits
  rw [List.find?_append]
  cases l.find? TcpSeg.full with
  | some p => rfl
  | none =>
    refine iff_of_true ?_ (by simp)
    intro p hp
    have hmem : p ∈ [t] := List.mem_of_find?_eq_some hp
    rw [List.mem_singleton.mp hmem, h]
    decide

theorem addPkt_keeps : SendFits (addPkt w flags 0 x).1.sending ↔ SendFits x.1.sending := by
  obtain ⟨c, io⟩ := x
  unfold addPkt
  dsimp only
  split_ifs
  · exact sendFits_append rfl
  · rfl

theorem ackAndSend_inBounds (h : SendFits c.sending) : (Parse.ackAndSend w (c, io)).InBounds := by
  have hadd : SendFits (addPkt w tcpFlagAck 0 (c, io)).1.sending := addPkt_keeps.mpr h
  exact sendTcpPkt_inBounds hadd

theorem ackAndSend_keeps : SendFits (ackAndSend w x).1.sending ↔ SendFits x.1.sending :=
  sendTcpPkt_keeps.trans addPkt_keeps

theorem handleTcpFin_inBounds (h : SendFits c.sending) : (Parse.handleTcpFin w pid c io).InBounds := by
  unfold Parse.handleTcpFin
  cases c.state with
  | established =>
    rw [inBounds_ite]
    split_ifs
    · exact ackAndSend_inBounds h
    · exact inBounds_pure
  | finWait1 | finWait2 | timeWait => exact ackAndSend_inBounds h
  | _ => exact inBounds_pure

theorem handleTcpFin_keeps : SendFits (handleTcpFin w pid c io).1.sending ↔ SendFits c.sending := by
  unfold handleTcpFin
  cases c.state with
  | established =>
    dsimp only
    split_ifs
    · exact ackAndSend_keeps
    · rfl
  | finWait1 | finWait2 | timeWait => exact ackAndSend_keeps
  | _ => rfl

theorem ipPktFree_inBounds : (Parse.ipPktFree p).InBounds ↔ p.FragsFit := by
  unfold Parse.ipPktFree IpPkt.FragsFit
  generalize p.frags = frags
  induction frags with
  | nil => simp [Traced.fold]
  | cons a frags ih =>
    have hself : Inside a.len 0 a.len := inside_of_le (by omega)
    rw [Traced.fold, inBounds_bind, List.forall_mem_cons]
    simp [ih, hself]

theorem handleTcpSyn_inBounds (hsend : SendFits c.sending) (hfrags : p.FragsFit) :
    (Parse.handleTcpSyn w pid p p.tcpHdr mac c io).InBounds := by
  unfold Parse.handleTcpSyn
  cases c.state with
  | synSent =>
    rw [inBounds_bind]
    exact ⟨ackAndSend_inBounds hsend, inBounds_pure⟩
  | listen =>
    cases mac with
    | none =>
      rw [inBounds_bind, ipPktFree_inBounds]
      exact ⟨hfrags, inBounds_pure⟩
    | some mac =>
      have hadd : ∀ d : Con, d.sending = c.sending →
          SendFits (addPkt w (tcpFlagSyn + tcpFlagAck) 0 (d, io)).1.sending := by
        intro d hd
        rw [addPkt_keeps, hd]
        exact hsend
      exact sendTcpPkt_inBounds (hadd _ rfl)
  | _ => exact inBounds_pure

theorem handleTcpSyn_keeps {seq port : ℕ} :
    SendFits (handleTcpSyn w pid p seq port mac c io).1.sending ↔ SendFits c.sending := by
  unfold handleTcpSyn
  cases c.state with
  | synSent => exact ackAndSend_keeps
  | listen =>
    cases mac with
    | none => rfl
    | some mac => exact sendTcpPkt_keeps.trans addPkt_keeps
  | _ => rfl

theorem insertReceivedFor_inBounds {seq : ℕ} {data : Ptr} (h : Inside data.buf.size data.off len) :
    (Parse.insertReceivedFor w seq data len c io).InBounds := by
  unfold Parse.insertReceivedFor
  simp only [inBounds_ite, inBounds_bind, inBounds_pure, copy_inBounds, touch_inBounds]
  split_ifs
  exact ⟨h, inside_of_le (by omega), trivial⟩

theorem insertReceivedFor_keeps {t : TcpPkt} : (insertReceivedFor w t c io).1.sending = c.sending := by
  unfold insertReceivedFor
  split_ifs <;> rfl

theorem handleTcpAckFor_inBounds {b : Bool} {data : Ptr} (h : Inside data.buf.size data.off len)
    (hsend : SendFits (c.left (tcpAck p))) : (Parse.handleTcpAckFor w pid b p.tcpHdr data len c io).InBounds := by
  unfold Con.left at hsend
  unfold Parse.handleTcpAckFor
  cases hstate : c.state with
  | established =>
    have hsend : SendFits c.sending := by simpa [hstate] using hsend
    simp only [inBounds_ite, inBounds_bind, inBounds_pure, and_true]
    split_ifs
    · exact insertReceivedFor_inBounds h
    · exact ackAndSend_inBounds hsend
  | finWait1 =>
    simp only [inBounds_ite, inBounds_bind, inBounds_pure, and_true]
    split_ifs with hack
    have hack : tcpAck p ≠ (c.nextSeq + 1) % 2 ^ 32 := hack
    rw [if_neg (fun h => hack h.2)] at hsend
    exact sendTcpPkt_inBounds hsend
  | lastAck | synReceived =>
    simp only [inBounds_ite, inBounds_pure, ite_self]
  | _ => exact inBounds_pure

theorem handleTcpAckFor_keeps {b : Bool} {seq ack : ℕ} {data : List UInt8} :
    SendFits (handleTcpAckFor w pid b seq ack data c io).2.1.sending ↔ SendFits (c.left ack) := by
  unfold handleTcpAckFor Con.left
  cases hstate : c.state with
  | established =>
    simp only [reduceCtorEq, or_self, false_and, if_false]
    split_ifs
    · rw [insertReceivedFor_keeps]
    · exact ackAndSend_keeps
    · rfl
  | finWait1 =>
    simp only [or_true, true_and]
    split_ifs
    · rfl
    · exact sendTcpPkt_keeps
  | lastAck =>
    simp only [true_or, true_and]
    split_ifs <;> rfl
  | synReceived =>
    simp only [reduceCtorEq, or_self, false_and, if_false]
    split_ifs <;> rfl
  | _ => simp

theorem tcpHdrLen_lt : tcpHdrLen p < 2 ^ 32 := by
  have hbyte := (p.data.getD 12 0).toNat_lt
  unfold tcpHdrLen byteAt
  omega

theorem handleFlags_keeps {b : Bool} :
    SendFits (Parse.handleFlags w pid b mac p p.tcpHdr (c.afterAck p) io).val.2.1.sending ↔ SendFits (c.awaited p) := by
  rw [Parse.handleFlags_val]
  unfold Con.awaited AckOnly
  split_ifs <;> simp_all [handleTcpFin_keeps, handleTcpSyn_keeps, handleTcpAckFor_keeps]

theorem handleFlags_inBounds {b : Bool} (hfrags : p.FragsFit) (hhdr : AckOnly (tcpFlags p) → tcpHdrLen p ≤ p.len)
    (hsend : SendFits (c.awaited p)) : (Parse.handleFlags w pid b mac p p.tcpHdr (c.afterAck p) io).InBounds := by
  unfold Con.awaited at hsend
  unfold Parse.handleFlags
  have hflags : p.tcpHdr.flags = tcpFlags p := rfl
  simp only [inBounds_ite, inBounds_bind, inBounds_pure, and_true, hflags]
  split_ifs with hrst hfin hsyn hack
  · rw [if_neg (fun h => by simp [h.2.2.1] at hfin)] at hsend
    exact handleTcpFin_inBounds hsend
  · rw [if_neg (fun h => by simp [h.2.2.2] at hsyn)] at hsend
    exact handleTcpSyn_inBounds hsend hfrags
  · have honly : AckOnly (tcpFlags p) := ⟨hack, by simpa using hrst, by simpa using hfin, by simpa using hsyn⟩
    rw [if_pos honly] at hsend
    have hle : tcpHdrLen p ≤ p.len := hhdr honly
    have hn : tcpHdrLen p + lenSub p.len (tcpHdrLen p) ≤ p.len := by
      have hlt : tcpHdrLen p < 2 ^ 32 := tcpHdrLen_lt
      unfold lenSub
      omega
    rw [lenMinus_inBounds, Parse.lenMinus_val]
    exact ⟨hle, handleTcpAckFor_inBounds (inside_of_le hn) hsend⟩

theorem conInput_inBounds {b : Bool} (hfrags : p.FragsFit) (h : ConFits p c) :
    (Parse.conInput w pid b mac p p.tcpHdr c io).InBounds := by
  obtain ⟨hwin, hhdr, hsend⟩ := h
  unfold Parse.conInput
  rw [inBounds_bind, word_inBounds, inBounds_bind]
  refine ⟨hwin, handleFlags_inBounds hfrags hhdr hsend, ?_⟩
  rw [inBounds_bind, ipPktFree_inBounds, inBounds_bind]
  exact ⟨hfrags, sendTcpPkt_inBounds (handleFlags_keeps.mpr hsend), inBounds_pure⟩

theorem conFits_of_inBounds {b : Bool} (halloc : ∀ n, w.alloc n = true)
    (h : (Parse.conInput w pid b mac p p.tcpHdr c io).InBounds) : p.FragsFit ∧ ConFits p c := by
  unfold Parse.conInput at h
  rw [inBounds_bind, word_inBounds, inBounds_bind] at h
  obtain ⟨hwin, hflags, h⟩ := h
  rw [inBounds_bind, ipPktFree_inBounds, inBounds_bind] at h
  obtain ⟨hfrags, hsent, _⟩ := h
  have hsend := sendFits_of_inBounds (halloc _) hsent
  refine ⟨hfrags, hwin, ?_, handleFlags_keeps.mp hsend⟩
  rintro ⟨hack, hrst, hfin, hsyn⟩
  unfold Parse.handleFlags at hflags
  have hf : p.tcpHdr.flags = tcpFlags p := rfl
  simp only [hf, hack, hrst, hfin, hsyn, if_true, Bool.false_eq_true, if_false, inBounds_bind,
    lenMinus_inBounds] at hflags
  exact hflags.1

end Sending

section Receiving

variable {heap : Heap} {w : World} {pkt : List UInt8} {p : IpPkt} {s : Server} {io : Io} {c : Con} {t : TcpBinding}
  {net : NetDev TcpBinding} {mac : Option (List UInt8)} {pid : ℤ} {i : ℕ}

theorem tcpInput_fits (h : (Parse.tcpInput w mac p p.tcpHdr pid t io).InBounds) (halloc : ∀ n, w.alloc n = true) :
    p.FragsFit ∧ ∀ c, t.conFor p = some c → ConFits p c := by
  unfold Parse.tcpInput at h
  unfold TcpBinding.conFor
  have hfrom : Parse.isFrom p p.tcpHdr = Con.isFrom p := rfl
  rw [hfrom] at h
  rw [List.find?_eq_bind_findIdx?_getElem?]
  cases hj : t.cons.findIdx? (Con.isFrom p) with
  | some j =>
    rw [hj] at h
    obtain ⟨hlt, _, _⟩ := List.findIdx?_eq_some_iff_getElem.mp hj
    have hget : t.cons[j]? = some t.cons[j] := List.getElem?_eq_getElem hlt
    simp only [hget, inBounds_bind] at h
    obtain ⟨hfrags, hfits⟩ := conFits_of_inBounds halloc h.1
    simpa [hget] using ⟨hfrags, hfits⟩
  | none =>
    rw [hj] at h
    dsimp only [Option.bind_none]
    cases hl : t.listenCon with
    | none =>
      simp only [hl, inBounds_bind, ipPktFree_inBounds] at h
      simpa using h.1
    | some c =>
      simp only [hl, inBounds_ite, inBounds_bind, ipPktFree_inBounds] at h
      by_cases hother : c.state ≠ .listen ∧ c.isFrom p = false
      · rw [if_pos hother] at h
        simpa [hother] using h.1
      · rw [if_neg hother] at h
        obtain ⟨hfrags, hfits⟩ := conFits_of_inBounds halloc h.1
        refine ⟨hfrags, fun d hd => ?_⟩
        have hd : some c = some d := (Option.filter_eq_some_iff.mp hd).1
        rw [← Option.some.inj hd]
        exact hfits

theorem tcpInput_inBounds (hfrags : p.FragsFit) (h : ∀ c, t.conFor p = some c → ConFits p c) :
    (Parse.tcpInput w mac p p.tcpHdr pid t io).InBounds := by
  unfold TcpBinding.conFor at h
  unfold Parse.tcpInput
  have hfrom : Parse.isFrom p p.tcpHdr = Con.isFrom p := rfl
  rw [hfrom]
  rw [List.find?_eq_bind_findIdx?_getElem?] at h
  cases hj : t.cons.findIdx? (Con.isFrom p) with
  | some j =>
    rw [hj] at h
    obtain ⟨hlt, _, _⟩ := List.findIdx?_eq_some_iff_getElem.mp hj
    have hget : t.cons[j]? = some t.cons[j] := List.getElem?_eq_getElem hlt
    simp only [hget, inBounds_bind]
    exact ⟨conInput_inBounds hfrags (h _ (by simp [hget])), inBounds_pure⟩
  | none =>
    rw [hj] at h
    dsimp only [Option.bind_none] at h
    cases hl : t.listenCon with
    | none =>
      simp only [inBounds_bind, ipPktFree_inBounds]
      exact ⟨hfrags, inBounds_pure⟩
    | some c =>
      simp only [inBounds_ite, inBounds_bind, ipPktFree_inBounds]
      split_ifs with hother
      · exact ⟨hfrags, inBounds_pure⟩
      all_goals
        have hfor : t.listenCon.filter (fun c => decide (c.state = .listen) || c.isFrom p) = some c := by
          rw [hl]
          apply Option.filter_eq_some_iff.mpr
          refine ⟨rfl, ?_⟩
          by_cases hstate : c.state = .listen
          · simp [hstate]
          · simpa [hstate] using hother
        exact ⟨conInput_inBounds hfrags (h c hfor), inBounds_pure⟩

theorem tcpHdr_inBounds : (Parse.tcpHdr p).InBounds ↔ 14 ≤ p.len := by
  have hsize : p.buf.size = p.len := rfl
  unfold Parse.tcpHdr
  simp only [inBounds_bind, inBounds_pure, word_inBounds, byte_inBounds, hsize, and_true]
  omega

theorem binding_of_port {proto port : ℕ} (h : findBindingIp proto port s.net.bindings = some i) :
    ∃ b, s.net.bindings[i]? = some b := by
  obtain ⟨hlt, _, _⟩ := List.findIdx?_eq_some_iff_getElem.mp h
  exact ⟨_, List.getElem?_eq_getElem hlt⟩

theorem tcpFits_of_inBounds (h : (Parse.handleTcp w p s).InBounds) (halloc : ∀ n, w.alloc n = true) : TcpFits p s := by
  unfold Parse.handleTcp at h
  rw [inBounds_bind, tcpHdr_inBounds, Parse.tcpHdr_val] at h
  obtain ⟨hhdr, h⟩ := h
  have hdst : p.tcpHdr.portDst = word p.data 2 := rfl
  rw [hdst] at h
  unfold TcpFits conFor
  cases hi : findBindingIp protoTcp (word p.data 2) s.net.bindings with
  | none =>
    rw [hi] at h
    simp only [inBounds_bind, ipPktFree_inBounds] at h
    simpa [hhdr] using h.1
  | some i =>
    obtain ⟨b, hb⟩ := binding_of_port hi
    rw [hi] at h
    simp only [hb, inBounds_bind] at h
    obtain ⟨hfrags, hfits⟩ := tcpInput_fits h.1 halloc
    simpa [hhdr, hb] using ⟨hfrags, hfits⟩

theorem handleTcp_inBounds (h : TcpFits p s) : (Parse.handleTcp w p s).InBounds := by
  obtain ⟨hhdr, hfrags, hcon⟩ := h
  unfold conFor at hcon
  unfold Parse.handleTcp
  rw [inBounds_bind, tcpHdr_inBounds, Parse.tcpHdr_val]
  refine ⟨hhdr, ?_⟩
  have hdst : p.tcpHdr.portDst = word p.data 2 := rfl
  rw [hdst]
  cases hi : findBindingIp protoTcp (word p.data 2) s.net.bindings with
  | none =>
    simp only [inBounds_bind, ipPktFree_inBounds]
    exact ⟨hfrags, inBounds_pure⟩
  | some i =>
    obtain ⟨b, hb⟩ := binding_of_port hi
    simp only [hi, hb, Option.bind_some] at hcon
    simp only [hb, inBounds_bind]
    exact ⟨tcpInput_inBounds hfrags hcon, inBounds_pure⟩

theorem echo_inBounds (h : 8 ≤ p.len) :
    (Parse.sendIpv4Pkt w (8 + lenSub p.len 8) (Parse.echoBody p (lenSub p.len 8)) io).InBounds ↔
      (w.alloc io.calls = true → lenSub p.len 8 + 56 < 2 ^ 32) := by
  have hn : 8 + lenSub p.len 8 ≤ p.len ∧ lenSub p.len 8 < 2 ^ 32 := by
    unfold lenSub
    omega
  generalize lenSub p.len 8 = n at *
  have hsize : (Inside (ethPktSize (20 + (8 + n))) 0 34 ∧ (Parse.echoBody p n (ethPktSize (20 + (8 + n)))).InBounds ∧
      Inside (ethPktSize (20 + (8 + n))) 0 ((14 + (20 + (8 + n))) % 2 ^ 32)) ↔ n + 56 < 2 ^ 32 := by
    unfold Parse.echoBody ethPktSize
    simp only [inBounds_bind, touch_inBounds, inside_iff]
    omega
  rw [sendIpv4Pkt_inBounds, hsize]

theorem handleEchoRequest_inBounds (hlen : 8 ≤ p.len) (h : s.arpMatchIp p.srcIpv4 ≠ none → lenSub p.len 8 + 56 < 2 ^ 32) :
    (Parse.handleEchoRequest w p s).InBounds := by
  unfold Parse.handleEchoRequest
  rw [inBounds_bind, lenMinus_inBounds, Parse.lenMinus_val]
  refine ⟨hlen, ?_⟩
  cases harp : s.arpMatchIp p.srcIpv4 with
  | none => exact inBounds_pure
  | some mac =>
    rw [inBounds_bind, echo_inBounds hlen]
    exact ⟨fun _ => h (by simp [harp]), inBounds_pure⟩

theorem echoFits_of_inBounds (h : (Parse.handleEchoRequest w p s).InBounds) (halloc : ∀ n, w.alloc n = true) :
    8 ≤ p.len ∧ (s.arpMatchIp p.srcIpv4 ≠ none → lenSub p.len 8 + 56 < 2 ^ 32) := by
  unfold Parse.handleEchoRequest at h
  rw [inBounds_bind, lenMinus_inBounds, Parse.lenMinus_val] at h
  obtain ⟨hlen, h⟩ := h
  refine ⟨hlen, fun hmac => ?_⟩
  obtain ⟨mac, hmac⟩ := Option.ne_none_iff_exists'.mp hmac
  rw [hmac] at h
  simp only [inBounds_bind, echo_inBounds hlen] at h
  exact h.1 (halloc _)

theorem handleIcmp_inBounds_iff : (Parse.handleIcmp w p s).InBounds ↔
    1 ≤ p.len ∧ (byteAt p.data 0 = 8 → (Parse.handleEchoRequest w p s).InBounds) ∧ p.FragsFit := by
  have htype : (Parse.byte p.buf 0).val = byteAt p.data 0 := Parse.byte_val
  have hsize : p.buf.size = p.len := rfl
  unfold Parse.handleIcmp
  simp only [inBounds_bind, byte_inBounds, hsize, htype, inBounds_ite, ipPktFree_inBounds, inBounds_pure, and_true]
  split_ifs with h8 <;> simp [h8]

theorem handleIcmp_inBounds (h : IcmpFits p s) : (Parse.handleIcmp w p s).InBounds := by
  obtain ⟨hlen, hfrags, hecho⟩ := h
  apply handleIcmp_inBounds_iff.mpr
  refine ⟨hlen, fun h8 => ?_, hfrags⟩
  obtain ⟨hhdr, hmac⟩ := hecho h8
  exact handleEchoRequest_inBounds hhdr hmac

theorem icmpFits_of_inBounds (h : (Parse.handleIcmp w p s).InBounds) (halloc : ∀ n, w.alloc n = true) :
    IcmpFits p s := by
  obtain ⟨hlen, hecho, hfrags⟩ := handleIcmp_inBounds_iff.mp h
  exact ⟨hlen, hfrags, fun h8 => echoFits_of_inBounds (hecho h8) halloc⟩

theorem handleUdp_inBounds : (Parse.handleUdp p s.net).InBounds ↔ UdpFits p s := by
  have hdst : (Parse.word p.buf 2).val = word p.data 2 := Parse.word_val
  have hlen : (Parse.word p.buf 4).val = word p.data 4 := Parse.word_val
  have hsize : p.buf.size = p.len := rfl
  unfold Parse.handleUdp UdpFits
  simp only [inBounds_bind, inBounds_ite, word_inBounds, hdst, hlen, hsize]
  by_cases hlong : word p.data 4 > p.len
  · rw [if_pos hlong]
    simp
    omega
  have hword : 8 ≤ word p.data 4 → Inside p.len 8 (lenSub (word p.data 4) 8) := by
    intro h
    apply inside_of_le
    unfold lenSub
    omega
  rw [if_neg hlong]
  simp only [lenMinus_inBounds, touch_inBounds, Parse.lenMinus_val]
  cases findBindingIp protoUdp (word p.data 2) s.net.bindings with
  | none =>
    simp only [inBounds_bind, ipPktFree_inBounds, inBounds_pure, and_true, true_implies]
    constructor
    · rintro ⟨_, _, _, hhdr, hlength, _, hfrags⟩
      exact ⟨by omega, fun _ => ⟨hlength, hfrags⟩⟩
    · rintro ⟨hhdr, hrest⟩
      obtain ⟨hlength, hfrags⟩ := hrest (by omega)
      exact ⟨by omega, by omega, by omega, by omega, hlength, hword hlength, hfrags⟩
  | some i =>
    simp only [inBounds_pure, and_true, reduceCtorEq, false_implies]
    constructor
    · rintro ⟨_, _, _, hhdr, hlength, _⟩
      exact ⟨by omega, fun _ => hlength⟩
    · rintro ⟨hhdr, hrest⟩
      have hlength := hrest (by omega)
      exact ⟨by omega, by omega, by omega, by omega, hlength, hword hlength⟩

end Receiving

section Addresses

variable {α : Type} {l : List α} {q : α → Bool} {a b : α} {i : ℕ} {w : World} {s : Server} {mac ip : Ptr} {f g : ArpFunc}
  {hw : List UInt8} {pkt : List UInt8} {binding : ℤ} {con : ℕ} {rs : List ArpRequest} {net : NetDev TcpBinding}

theorem find?_set_first (h : l.findIdx? q = some i) (ha : q a = true) : (l.set i a).find? q = some a := by
  induction l generalizing i with
  | nil => cases h
  | cons b l ih =>
    rw [List.findIdx?_cons] at h
    split_ifs at h with hb
    · cases h
      exact List.find?_cons_of_pos ha
    · obtain ⟨j, hj, rfl⟩ := Option.map_eq_some_iff.mp h
      rw [List.set_cons_succ, List.find?_cons_of_neg hb]
      exact ih hj

theorem find?_set_other (hi : l[i]? = some b) (hb : q b = false) (ha : q a = false) :
    (l.set i a).find? q = l.find? q := by
  induction l generalizing i with
  | nil => rfl
  | cons c l ih =>
    cases i with
    | zero =>
      cases hi
      rw [List.set_cons_zero, List.find?_cons_of_neg (by simp [ha]), List.find?_cons_of_neg (by simp [hb])]
    | succ i =>
      rw [List.set_cons_succ, List.find?_cons, List.find?_cons, ih hi]

theorem find?_of_findIdx? (h : l.findIdx? q = some i) (hi : l[i]? = some a) : l.find? q = some a := by
  rw [List.find?_eq_bind_findIdx?_getElem?, h]
  exact hi

theorem connectTcpArp_fits : g.Fits (connectTcpArp w binding con hw s) ↔ g.Fits s := by
  cases g with
  | udpWrite r => rfl
  | connect binding' con' =>
    unfold connectTcpArp
    cases hi : s.net.bindings.findIdx? fun b => decide (b.id = binding) with
    | none => rfl
    | some i =>
      dsimp only
      cases hb : s.net.bindings[i]? with
      | none => rfl
      | some b =>
        dsimp only
        cases hj : b.tcp.cons.findIdx? fun c => decide (c.id = con) with
        | none => rfl
        | some j =>
          dsimp only
          cases hc : b.tcp.cons[j]? with
          | none => rfl
          | some c =>
            dsimp only
            have hsent := sendTcpPkt_keeps (w := w) (x := ({ c with macRem := hw }, s.io))
            have hquiet : Quiet 0 ({ c with macRem := hw }, s.io) (sendTcpPkt w ({ c with macRem := hw }, s.io)) :=
              sendTcpPkt_quiet _
            have hid : (sendTcpPkt w ({ c with macRem := hw }, s.io)).1.id = c.id := hquiet.same.2
            generalize sendTcpPkt w ({ c with macRem := hw }, s.io) = x at hsent hid ⊢
            obtain ⟨d, io⟩ := x
            have hfound : s.net.bindings.find? (fun b => decide (b.id = binding)) = some b := find?_of_findIdx? hi hb
            have hbid : b.id = binding := by simpa using List.find?_some hfound
            have hcfound : b.tcp.cons.find? (fun c => decide (c.id = con)) = some c := find?_of_findIdx? hj hc
            have hcid : c.id = con := by simpa using List.find?_some hcfound
            unfold ArpFunc.Fits Server.conOf Server.setTcp
            dsimp only
            by_cases hbinding : binding' = binding
            · subst hbinding
              rw [find?_set_first hi (by simpa using hbid), hfound]
              dsimp only [Option.bind_some, TcpBinding.setCon]
              by_cases hcon : con' = con
              · subst hcon
                rw [find?_set_first hj (by simpa using hid.trans hcid), hcfound]
                simpa using hsent
              · rw [find?_set_other hc (by simpa using fun h => hcon (h.symm.trans hcid))
                  (by simpa using fun h => hcon (h.symm.trans (hid.trans hcid)))]
            · have hother : ¬b.id = binding' := fun h => hbinding (h.symm.trans hbid)
              rw [find?_set_other hb (by simpa using hother) (by simpa using hother)]

theorem run_fits : g.Fits (f.run w hw s) ↔ g.Fits s := by
  cases f with
  | connect binding con => exact connectTcpArp_fits
  | udpWrite r => cases g <;> rfl

theorem connectTcpArp_inBounds (hmac : Inside mac.buf.size mac.off 6) (h : (ArpFunc.connect binding con).Fits s) :
    (Parse.connectTcpArp w binding con mac s).InBounds := by
  unfold ArpFunc.Fits Server.conOf at h
  unfold Parse.connectTcpArp
  cases hi : s.net.bindings.findIdx? fun b => decide (b.id = binding) with
  | none => exact inBounds_pure
  | some i =>
    dsimp only
    cases hb : s.net.bindings[i]? with
    | none => exact inBounds_pure
    | some b =>
      dsimp only
      cases hj : b.tcp.cons.findIdx? fun c => decide (c.id = con) with
      | none => exact inBounds_pure
      | some j =>
        dsimp only
        cases hc : b.tcp.cons[j]? with
        | none => exact inBounds_pure
        | some c =>
          have hsend : SendFits c.sending := by
            apply h c
            rw [find?_of_findIdx? hi hb]
            exact find?_of_findIdx? hj hc
          rw [inBounds_bind, copy_inBounds, inBounds_bind]
          exact ⟨hmac, sendTcpPkt_inBounds hsend, inBounds_pure⟩

theorem connect_fits_of_inBounds (halloc : ∀ n, w.alloc n = true)
    (h : (Parse.connectTcpArp w binding con mac s).InBounds) : (ArpFunc.connect binding con).Fits s := by
  intro c hc
  obtain ⟨b, hb, hc⟩ := Option.bind_eq_some_iff.mp hc
  obtain ⟨i, hi, hbi⟩ := Option.bind_eq_some_iff.mp (List.find?_eq_bind_findIdx?_getElem?.symm.trans hb)
  obtain ⟨j, hj, hcj⟩ := Option.bind_eq_some_iff.mp (List.find?_eq_bind_findIdx?_getElem?.symm.trans hc)
  unfold Parse.connectTcpArp at h
  simp only [hi, hbi, hj, hcj] at h
  rw [inBounds_bind, inBounds_bind] at h
  have hsend : SendFits ({ c with macRem := (Parse.copy mac 6).val } : Con).sending :=
    sendFits_of_inBounds (halloc _) h.2.1
  exact hsend

theorem udpWriteFinish_inBounds {r : UdpWriteReq} {io : Io} (hmac : Inside mac.buf.size mac.off 6) :
    (Parse.udpWriteFinish w r mac io).InBounds ↔
      (w.alloc io.calls = true → r.len ≤ r.cap.mapped ∧ r.len + 56 < 2 ^ 32) := by
  generalize hn : r.len = n
  have hsize : (Inside (ethPktSize (20 + (8 + n))) 0 34 ∧
      (Parse.udpBody r mac (ethPktSize (20 + (8 + n)))).InBounds ∧
      Inside (ethPktSize (20 + (8 + n))) 0 ((14 + (20 + (8 + n))) % 2 ^ 32)) ↔ n ≤ r.cap.mapped ∧ n + 56 < 2 ^ 32 := by
    have hmac := inside_iff.mp hmac
    unfold Parse.udpBody ethPktSize
    simp only [inBounds_bind, touch_inBounds, copy_inBounds, hn, inside_iff]
    omega
  unfold Parse.udpWriteFinish
  rw [inBounds_bind, sendIpv4Pkt_inBounds, hn, hsize]
  simp

theorem run_inBounds (hmac : Inside mac.buf.size mac.off 6) (h : f.Fits s) : (Parse.run w mac s f).InBounds := by
  cases f with
  | connect binding con => exact connectTcpArp_inBounds hmac h
  | udpWrite r =>
    unfold Parse.run
    rw [inBounds_bind, udpWriteFinish_inBounds hmac]
    exact ⟨fun _ => h, inBounds_pure⟩

theorem fits_of_inBounds (hmac : Inside mac.buf.size mac.off 6) (halloc : ∀ n, w.alloc n = true)
    (h : (Parse.run w mac s f).InBounds) : f.Fits s := by
  cases f with
  | connect binding con => exact connect_fits_of_inBounds halloc h
  | udpWrite r =>
    unfold Parse.run at h
    rw [inBounds_bind, udpWriteFinish_inBounds hmac] at h
    exact h.1 (halloc _)

theorem runRequests_inBounds (hmac : Inside mac.buf.size mac.off 6) (h : ∀ r ∈ rs, r.func.Fits s) :
    (Parse.runRequests w mac rs s).InBounds := by
  induction rs generalizing s with
  | nil => exact inBounds_pure
  | cons r rs ih =>
    have hstep : (Parse.run w mac s r.func >>= Parse.runRequests w mac rs).InBounds := by
      rw [inBounds_bind, Parse.run_val]
      refine ⟨run_inBounds hmac (h r List.mem_cons_self), ih fun q hq => ?_⟩
      exact run_fits.mpr (h q (List.mem_cons_of_mem _ hq))
    exact hstep

theorem requests_fit_of_inBounds (hmac : Inside mac.buf.size mac.off 6) (halloc : ∀ n, w.alloc n = true)
    (h : (Parse.runRequests w mac rs s).InBounds) : ∀ r ∈ rs, r.func.Fits s := by
  induction rs generalizing s with
  | nil => simp
  | cons r rs ih =>
    have hstep : (Parse.run w mac s r.func >>= Parse.runRequests w mac rs).InBounds := h
    rw [inBounds_bind, Parse.run_val] at hstep
    intro q hq
    rcases List.mem_cons.mp hq with rfl | hq
    · exact fits_of_inBounds hmac halloc hstep.1
    · exact run_fits.mp (ih hstep.2 q hq)

theorem ArpFunc.fits_congr {s' : Server} (h : s'.net = s.net) : f.Fits s' ↔ f.Fits s := by
  cases f with
  | connect binding con =>
    unfold ArpFunc.Fits Server.conOf
    rw [h]
  | udpWrite r => rfl

theorem settle_inBounds {s' : Server} {addr : List UInt8} (h : s'.net = s.net) (hmac : Inside mac.buf.size mac.off 6)
    (hfits : RequestsFit addr s) :
    (Parse.runRequests w mac (s.arpRequests.filter fun r => decide (r.ip = addr)) s').InBounds := by
  apply runRequests_inBounds hmac
  intro r hr
  obtain ⟨hmem, hip⟩ := List.mem_filter.mp hr
  exact (ArpFunc.fits_congr h).mpr (hfits r hmem (of_decide_eq_true hip))

theorem requestsFit_of_settle {s' : Server} {addr : List UInt8} (h : s'.net = s.net)
    (hmac : Inside mac.buf.size mac.off 6) (halloc : ∀ n, w.alloc n = true)
    (hb : (Parse.runRequests w mac (s.arpRequests.filter fun r => decide (r.ip = addr)) s').InBounds) :
    RequestsFit addr s := by
  intro r hr hip
  have hmem : r ∈ s.arpRequests.filter fun r => decide (r.ip = addr) := List.mem_filter.mpr ⟨hr, decide_eq_true hip⟩
  exact (ArpFunc.fits_congr h).mp (requests_fit_of_inBounds hmac halloc hb r hmem)

theorem arpAddEntry_inBounds (hip : Inside ip.buf.size ip.off 4) (hmac : Inside mac.buf.size mac.off 6)
    (h : RequestsFit (copyOut ip.buf.data ip.off 4) s) : (Parse.arpAddEntry w ip mac s).InBounds := by
  unfold Parse.arpAddEntry
  rw [inBounds_bind, copy_inBounds, Parse.copy_val]
  refine ⟨hip, ?_⟩
  dsimp only
  cases s.arpEntries.findIdx? fun e => decide (e.ip = copyOut ip.buf.data ip.off 4) with
  | some i =>
    rw [inBounds_bind, copy_inBounds]
    exact ⟨hmac, settle_inBounds rfl hmac h⟩
  | none =>
    rw [inBounds_ite]
    split_ifs
    · rw [inBounds_bind, copy_inBounds]
      exact ⟨hmac, settle_inBounds rfl hmac h⟩
    · exact inBounds_pure

theorem entry_fits_of_inBounds (hmac : Inside ip.buf.size ip.off 4 → Inside mac.buf.size mac.off 6)
    (halloc : ∀ n, w.alloc n = true) (h : (Parse.arpAddEntry w ip mac s).InBounds) :
    Inside ip.buf.size ip.off 4 ∧ RequestsFit (copyOut ip.buf.data ip.off 4) s := by
  unfold Parse.arpAddEntry at h
  rw [inBounds_bind, copy_inBounds, Parse.copy_val] at h
  obtain ⟨hip, h⟩ := h
  refine ⟨hip, ?_⟩
  dsimp only at h
  cases hentry : s.arpEntries.findIdx? fun e => decide (e.ip = copyOut ip.buf.data ip.off 4) with
  | some i =>
    simp only [hentry, inBounds_bind] at h
    exact requestsFit_of_settle (by rfl) (hmac hip) halloc h.2
  | none =>
    simp only [hentry, inBounds_bind, halloc, if_true] at h
    exact requestsFit_of_settle (by rfl) (hmac hip) halloc h.2

theorem compared_le {a b : List UInt8} : compared a b ≤ a.length := by
  fun_induction compared a b with
  | case1 a b x ih => simpa using ih
  | case2 => simp
  | case3 => simp

theorem compared_self {a : List UInt8} : compared a a = a.length := by
  induction a with
  | nil => rfl
  | cons x a ih => simp [compared, ih]

theorem length_copyOut {b : List UInt8} {o n : ℕ} : (copyOut b o n).length = n := by
  simp [copyOut]

end Addresses

section Frames

variable {heap : Heap} {w : World} {pkt : List UInt8} {p : IpPkt} {s : Server} {net : NetDev TcpBinding}

theorem handleArpRequest_inBounds (h : 42 ≤ pkt.length) (hfits : RequestsFit (copyOut pkt 28 4) s) :
    (Parse.handleArpRequest w ⟨⟨pkt.length, pkt⟩, 6⟩ ⟨⟨pkt.length, pkt⟩, 28⟩ s).InBounds := by
  have hsize : 0 + 42 ≤ ethPktSize 28 := by decide
  unfold Parse.handleArpRequest
  rw [inBounds_ite]
  split_ifs
  · simp only [inBounds_bind, copy_inBounds, touch_inBounds]
    have hmac : Inside pkt.length 6 6 := inside_of_le (by omega)
    have hip : Inside pkt.length 28 4 := inside_of_le (by omega)
    exact ⟨hmac, hip, inside_of_le hsize, arpAddEntry_inBounds hip hmac hfits⟩
  · exact inBounds_pure

theorem requestFits_of_inBounds (halloc : ∀ n, w.alloc n = true)
    (h : (Parse.handleArpRequest w ⟨⟨pkt.length, pkt⟩, 6⟩ ⟨⟨pkt.length, pkt⟩, 28⟩ s).InBounds) :
    RequestsFit (copyOut pkt 28 4) s := by
  unfold Parse.handleArpRequest at h
  rw [inBounds_ite, if_pos (halloc _)] at h
  simp only [inBounds_bind, copy_inBounds, touch_inBounds] at h
  obtain ⟨hmac, _, _, h⟩ := h
  exact (entry_fits_of_inBounds (fun _ => hmac) halloc h).2

theorem handleArp_inBounds_iff (h : 14 ≤ pkt.length) :
    (Parse.handleArp w ⟨pkt.length, pkt⟩ (lenSub pkt.length 14) s).InBounds ↔
      (8 + byteAt pkt 18 * 2 + byteAt pkt 19 * 2 ≤ lenSub pkt.length 14 → word pkt 14 = 1 → word pkt 16 = 0x800 →
        if copyOut pkt 0 6 = List.replicate 6 0xff then
          Inside pkt.length 38 (compared (copyOut pkt 38 4) s.net.ipv4) ∧ (copyOut pkt 38 4 = s.net.ipv4 →
            (Parse.handleArpRequest w ⟨⟨pkt.length, pkt⟩, 6⟩ ⟨⟨pkt.length, pkt⟩, 28⟩ s).InBounds)
        else copyOut pkt 0 6 = s.net.mac → word pkt 20 = 2 →
          (Parse.arpAddEntry w ⟨⟨pkt.length, pkt⟩, 28⟩ ⟨⟨pkt.length, pkt⟩, 22⟩ s).InBounds) := by
  have hlen : 8 ≤ lenSub pkt.length 14 → 22 ≤ pkt.length := by
    unfold lenSub
    omega
  have hdst {l : List UInt8} : Inside pkt.length 0 (compared (copyOut pkt 0 6) l) := by
    have hle : compared (copyOut pkt 0 6) l ≤ (copyOut pkt 0 6).length := compared_le
    rw [length_copyOut] at hle
    exact inside_of_le (by omega)
  generalize lenSub pkt.length 14 = len at *
  unfold Parse.handleArp
  by_cases h8 : len < 8
  · rw [if_pos h8]
    refine iff_of_true inBounds_pure ?_
    intro hfits
    omega
  have hlong := hlen (by omega)
  rw [if_neg h8]
  simp only [inBounds_bind, inBounds_ite, inBounds_pure, word_inBounds, byte_inBounds, memcmp_inBounds, Parse.word_val,
    Parse.byte_val, Parse.memcmp_val, decide_eq_true_eq]
  by_cases hshort : len < 8 + byteAt pkt 18 * 2 + byteAt pkt 19 * 2
  · rw [if_pos hshort]
    refine iff_of_true ⟨by omega, by omega, by omega, by omega, by omega, trivial⟩ ?_
    intro hfits
    omega
  rw [if_neg hshort]
  by_cases htype : word pkt 14 ≠ 1 ∨ word pkt 16 ≠ 0x800
  · rw [if_pos htype]
    refine iff_of_true ⟨by omega, by omega, by omega, by omega, by omega, trivial⟩ ?_
    intro _ hh hp
    exact absurd htype (by simp [hh, hp])
  rw [if_neg htype]
  obtain ⟨hh, hp⟩ := not_or.mp htype
  have hread {P Q : Prop} (hpq : P ↔ Q) : (14 + 2 ≤ pkt.length ∧ 16 + 2 ≤ pkt.length ∧ 18 + 1 ≤ pkt.length ∧
      19 + 1 ≤ pkt.length ∧ 20 + 2 ≤ pkt.length ∧ P) ↔
      (8 + byteAt pkt 18 * 2 + byteAt pkt 19 * 2 ≤ len → word pkt 14 = 1 → word pkt 16 = 0x800 → Q) := by
    constructor
    · rintro ⟨_, _, _, _, _, hP⟩ _ _ _
      exact hpq.mp hP
    · intro hQ
      refine ⟨by omega, by omega, by omega, by omega, by omega, hpq.mpr ?_⟩
      exact hQ (by omega) (not_not.mp hh) (not_not.mp hp)
  apply hread
  by_cases hall : copyOut pkt 0 6 = List.replicate 6 0xff
  · rw [if_pos hall, if_pos hall, and_iff_right hdst]
    split_ifs with hours <;> simp [hours]
  · rw [if_neg hall, if_neg hall, and_iff_right hdst, and_iff_right hdst]
    split_ifs with hours hoper <;> simp [*]

theorem handleArp_inBounds (h : 14 ≤ pkt.length) (hfits : ArpFits pkt s) :
    (Parse.handleArp w ⟨pkt.length, pkt⟩ (lenSub pkt.length 14) s).InBounds := by
  apply (handleArp_inBounds_iff h).mpr
  intro hlen hh hp
  have hfits := hfits hlen hh hp
  split_ifs at hfits ⊢ with hall
  · obtain ⟨htarget, hrequests⟩ := hfits
    refine ⟨htarget, fun hours => ?_⟩
    have hall : compared (copyOut pkt 38 4) s.net.ipv4 = 4 := by
      rw [hours, compared_self, ← hours, length_copyOut]
    have hlong := inside_iff.mp htarget
    exact handleArpRequest_inBounds (by omega) (hrequests hours)
  · intro hmac hoper
    obtain ⟨hlong, hrequests⟩ := hfits hmac hoper
    exact arpAddEntry_inBounds (inside_of_le hlong) (inside_of_le (by dsimp only; omega)) hrequests

theorem arpFits_of_inBounds (h : 14 ≤ pkt.length) (halloc : ∀ n, w.alloc n = true)
    (hb : (Parse.handleArp w ⟨pkt.length, pkt⟩ (lenSub pkt.length 14) s).InBounds) : ArpFits pkt s := by
  intro hlen hh hp
  have hb := (handleArp_inBounds_iff h).mp hb hlen hh hp
  split_ifs at hb ⊢ with hall
  · exact ⟨hb.1, fun hours => requestFits_of_inBounds halloc (hb.2 hours)⟩
  · intro hmac hoper
    have hsub : Inside pkt.length 28 4 → Inside pkt.length 22 6 := by
      simp only [inside_iff]
      omega
    obtain ⟨hip, hrequests⟩ := entry_fits_of_inBounds hsub halloc (hb hmac hoper)
    exact ⟨by simpa [inside_iff] using hip, hrequests⟩

theorem handOver_inBounds (h : p.Fits s) : (Parse.handOver w p s).InBounds := by
  obtain ⟨hicmp, htcp, hudp⟩ := h
  unfold Parse.handOver
  rw [inBounds_ite, inBounds_ite, inBounds_ite]
  split_ifs with h1 h2 h3
  · exact handleIcmp_inBounds (hicmp h1)
  · exact handleTcp_inBounds (htcp h2)
  · rw [inBounds_bind, handleUdp_inBounds]
    exact ⟨hudp h3, inBounds_pure⟩
  · exact inBounds_pure

theorem fits_of_handOver (halloc : ∀ n, w.alloc n = true) (h : (Parse.handOver w p s).InBounds) : p.Fits s := by
  have htcp : ipTcp ≠ ipIcmp := by decide
  have hudp : ipUdp ≠ ipIcmp ∧ ipUdp ≠ ipTcp := by decide
  unfold Parse.handOver at h
  refine ⟨fun h1 => ?_, fun h2 => ?_, fun h3 => ?_⟩
  · rw [if_pos h1] at h
    exact icmpFits_of_inBounds h halloc
  · rw [if_neg (by rw [h2]; exact htcp), if_pos h2] at h
    exact tcpFits_of_inBounds h halloc
  · rw [if_neg (by rw [h3]; exact hudp.1), if_neg (by rw [h3]; exact hudp.2), if_pos h3, inBounds_bind,
      handleUdp_inBounds] at h
    exact h.1

theorem IpPkt.fits_congr (h : net.bindings = s.net.bindings) : p.Fits { s with net := net } ↔ p.Fits s := by
  unfold IpPkt.Fits UdpFits TcpFits conFor IcmpFits Server.arpMatchIp
  dsimp only
  rw [h]

theorem wholePkt_completes (hmac : copyOut pkt 0 6 = s.net.mac) (hdst : ipDst pkt = s.net.ipv4)
    (hver : byteAt pkt 14 / 16 = 4) (hwhole : ¬(ipOffset pkt > 0 ∨ ipMore pkt = true))
    (halloc : heap.ok s.net.calls = true) (hdata : heap.ok s.net.next.calls = true)
    (hlen : ipHdrLen pkt ≤ word pkt 16) : Completes heap pkt s p ↔ p = wholePkt pkt := by
  have hword : word pkt 16 < 2 ^ 16 := word_lt
  have hlen : ipLen pkt = word pkt 16 - ipHdrLen pkt := lenSub_eq hlen (by omega)
  unfold Completes receiveIpv4
  rw [if_neg (not_not.mpr hmac), if_neg (not_not.mpr hdst), if_neg (not_not.mpr hver), if_neg hwhole,
    if_neg (by simp [halloc]), if_neg (by simp [hdata]), hlen]
  constructor
  · intro h
    exact (Option.some.inj h).symm
  · intro h
    rw [h]
    rfl

theorem body_inBounds {hdrLen len : ℕ} :
    (Parse.body ⟨pkt.length, pkt⟩ hdrLen len).InBounds ↔ Inside pkt.length (14 + hdrLen) len := by
  have hself : Inside len 0 len := inside_of_le (by omega)
  unfold Parse.body
  simp only [inBounds_bind, inBounds_pure, copy_inBounds, touch_inBounds, and_true, hself]

def HeaderFits (heap : Heap) (pkt : List UInt8) (s : Server) : Prop :=
  copyOut pkt 0 6 = s.net.mac → Inside pkt.length 30 (compared (ipDst pkt) s.net.ipv4) ∧
    (ipDst pkt = s.net.ipv4 → byteAt pkt 14 / 16 = 4 → ipHdrLen pkt ≤ word pkt 16 ∧
      (heap.ok s.net.calls → heap.ok s.net.next.calls → Inside pkt.length (14 + ipHdrLen pkt) (ipLen pkt)))

theorem receiveIpv4_inBounds (h : 14 ≤ pkt.length) :
    (Parse.receiveIpv4 heap ⟨pkt.length, pkt⟩ s.net).InBounds ↔ HeaderFits heap pkt s := by
  have hmac : Inside pkt.length 0 (compared (copyOut pkt 0 6) s.net.mac) := by
    have hle : compared (copyOut pkt 0 6) s.net.mac ≤ (copyOut pkt 0 6).length := compared_le
    rw [length_copyOut] at hle
    exact inside_of_le (by omega)
  have hhdr : byteAt pkt 14 % 16 * 4 = ipHdrLen pkt := rfl
  have hlen : lenSub (word pkt 16) (ipHdrLen pkt) = ipLen pkt := by unfold ipLen; rfl
  have hfrag : (byteAt pkt 20 % 32 * 32 ||| byteAt pkt 21) > 0 ∨ decide (byteAt pkt 20 / 32 % 2 = 1) = true ↔
      ipOffset pkt > 0 ∨ ipMore pkt = true := Iff.rfl
  unfold Parse.receiveIpv4 HeaderFits
  simp only [inBounds_bind, inBounds_ite, inBounds_pure, memcmp_inBounds, byte_inBounds, word_inBounds,
    lenMinus_inBounds, copy_inBounds, Parse.memcmp_val, Parse.byte_val, Parse.word_val, Parse.lenMinus_val,
    decide_eq_false_iff_not, and_true, hhdr, hlen, hfrag]
  have hsrc : copyOut pkt 30 4 = ipDst pkt := rfl
  rw [and_iff_right hmac, hsrc]
  by_cases hours : copyOut pkt 0 6 = s.net.mac
  case neg => simp [hours]
  by_cases hdst : ipDst pkt = s.net.ipv4
  case neg => simp [hours, hdst]
  -- when it is our address all of it was read, and with it the header
  have hread : Inside pkt.length 30 (compared (ipDst pkt) s.net.ipv4) ↔ 34 ≤ pkt.length := by
    rw [← hdst, compared_self, ← hsrc, length_copyOut]
    simp [inside_iff]
  rw [hread]
  by_cases hlong : 34 ≤ pkt.length
  case neg => simp [hours, hlong]
  have haddr : Inside pkt.length 26 4 ∧ Inside pkt.length 30 4 := by
    simp only [inside_iff]
    omega
  have hfields : 14 + 1 ≤ pkt.length ∧ 16 + 2 ≤ pkt.length ∧ 18 + 2 ≤ pkt.length ∧ 20 + 1 ≤ pkt.length ∧
      21 + 1 ≤ pkt.length ∧ 23 + 1 ≤ pkt.length := by omega
  simp only [hfields, haddr, body_inBounds, hours, hdst, hlong, not_true, if_false, true_and, true_implies, ne_eq]
  by_cases hver : byteAt pkt 14 / 16 = 4
  case neg => simp [hver]
  simp only [hver, not_true, if_false, true_implies]
  apply and_congr_right
  intro _
  cases heap.ok s.net.calls <;> cases heap.ok s.net.next.calls <;> simp

theorem handleIpv4_inBounds_iff :
    (Parse.handleIpv4 heap w ⟨pkt.length, pkt⟩ s).InBounds ↔
      (Parse.receiveIpv4 heap ⟨pkt.length, pkt⟩ s.net).InBounds ∧ ∀ p net, receiveIpv4 heap pkt s.net = (some p, net) →
        (Parse.handOver w p { s with net := net }).InBounds := by
  unfold Parse.handleIpv4
  rw [inBounds_bind, Parse.receiveIpv4_val]
  apply and_congr_right
  intro _
  obtain ⟨o, net⟩ := receiveIpv4 heap pkt s.net
  cases o with
  | none => simp
  | some p =>
    constructor
    · intro h q net' heq
      cases heq
      exact h
    · intro h
      exact h p net rfl

theorem Completes.header (h : Completes heap pkt s p) : copyOut pkt 0 6 = s.net.mac ∧ ipDst pkt = s.net.ipv4 ∧
    byteAt pkt 14 / 16 = 4 ∧ heap.ok s.net.calls = true ∧ heap.ok s.net.next.calls = true := by
  unfold Completes receiveIpv4 at h
  by_cases hmac : copyOut pkt 0 6 = s.net.mac
  case neg => simp [hmac] at h
  by_cases hdst : ipDst pkt = s.net.ipv4
  case neg => simp [hmac, hdst] at h
  by_cases hver : byteAt pkt 14 / 16 = 4
  case neg => simp [hmac, hdst, hver] at h
  cases hok : heap.ok s.net.calls with
  | false => simp [hmac, hdst, hver, hok] at h
  | true =>
    cases hok' : heap.ok s.net.next.calls with
    | false => simp [hmac, hdst, hver, hok, hok'] at h
    | true => exact ⟨hmac, hdst, hver, rfl, rfl⟩

theorem ipv4Fits_iff : Ipv4Fits heap pkt s ↔
    HeaderFits heap pkt s ∧ ∀ p, Completes heap pkt s p → p.Fits s := by
  constructor
  · intro hfits
    refine ⟨fun hmac => ?_, fun p hp => ?_⟩
    · obtain ⟨hread, hrest⟩ := hfits hmac
      refine ⟨hread, fun hdst hver => ?_⟩
      obtain ⟨hlen, hbody⟩ := hrest hdst hver
      exact ⟨hlen, fun hok hok' => (hbody hok hok').1⟩
    · obtain ⟨hmac, hdst, hver, hok, hok'⟩ := hp.header
      obtain ⟨hlen, hbody⟩ := (hfits hmac).2 hdst hver
      have hdeliver := (hbody hok hok').2
      split_ifs at hdeliver with hfrag
      · exact hdeliver p hp
      · rw [(wholePkt_completes hmac hdst hver hfrag hok hok' hlen).mp hp]
        exact hdeliver
  · rintro ⟨hheader, hdeliver⟩ hmac
    obtain ⟨hread, hrest⟩ := hheader hmac
    refine ⟨hread, fun hdst hver => ?_⟩
    obtain ⟨hlen, hbody⟩ := hrest hdst hver
    refine ⟨hlen, fun hok hok' => ⟨hbody hok hok', ?_⟩⟩
    split_ifs with hfrag
    · exact hdeliver
    · exact hdeliver _ ((wholePkt_completes hmac hdst hver hfrag hok hok' hlen).mpr rfl)

theorem handleIpv4_inBounds (h : 14 ≤ pkt.length) (hfits : Ipv4Fits heap pkt s) :
    (Parse.handleIpv4 heap w ⟨pkt.length, pkt⟩ s).InBounds := by
  obtain ⟨hheader, hdeliver⟩ := ipv4Fits_iff.mp hfits
  apply handleIpv4_inBounds_iff.mpr
  refine ⟨(receiveIpv4_inBounds h).mpr hheader, fun p net hr => handOver_inBounds ?_⟩
  apply (IpPkt.fits_congr (receiveIpv4_bindings hr)).mpr
  exact hdeliver p (by rw [Completes, hr])

theorem ipv4Fits_of_inBounds (h : 14 ≤ pkt.length) (halloc : ∀ n, w.alloc n = true)
    (hb : (Parse.handleIpv4 heap w ⟨pkt.length, pkt⟩ s).InBounds) : Ipv4Fits heap pkt s := by
  obtain ⟨hheader, hdeliver⟩ := handleIpv4_inBounds_iff.mp hb
  apply ipv4Fits_iff.mpr
  refine ⟨(receiveIpv4_inBounds h).mp hheader, fun p hp => ?_⟩
  have hr : receiveIpv4 heap pkt s.net = (some p, (receiveIpv4 heap pkt s.net).2) := Prod.ext hp rfl
  have hfits := fits_of_handOver halloc (hdeliver p _ hr)
  exact (IpPkt.fits_congr (receiveIpv4_bindings hr)).mp hfits

theorem netProcessPkt_inBounds_iff : (Parse.netProcessPkt heap w pkt s).InBounds ↔ 14 ≤ pkt.length ∧
    (word pkt 12 = 0x0806 → (Parse.handleArp w ⟨pkt.length, pkt⟩ (lenSub pkt.length 14) s).InBounds) ∧
    (word pkt 12 = 0x0800 → (Parse.handleIpv4 heap w ⟨pkt.length, pkt⟩ s).InBounds) := by
  have hip : (0x0800 : ℕ) ≠ 0x0806 := by decide
  unfold Parse.netProcessPkt
  simp only [inBounds_bind, inBounds_ite, inBounds_pure, lenMinus_inBounds, word_inBounds, Parse.word_val,
    Parse.lenMinus_val]
  apply and_congr_right
  intro h
  rw [and_iff_right (by omega)]
  split_ifs with harp hipv4
  · simp [harp, hip.symm]
  · simp [hipv4]
  · simp [harp, hipv4]

/-- The accesses of a frame are those of the server's own handling of it. For every frame and every state all of
them are inside their buffers and no length gets negative, whatever can be allocated for what is sent, if and only
if the frame and the packet in it are as long as their headers need and announce and what the frame releases fits. -/
theorem frame_in_bounds (heap : Heap) (pkt : List UInt8) (s : Server) :
    (∀ w, (Parse.netProcessPkt heap w pkt s).val = s.netProcessPkt heap w pkt) ∧
    ((∀ w, (Parse.netProcessPkt heap w pkt s).InBounds) ↔ FrameFits heap pkt s) := by
  refine ⟨fun w => Parse.netProcessPkt_val, fun h => ?_, fun hfits w => ?_⟩
  · obtain ⟨hlen, harp, hipv4⟩ := netProcessPkt_inBounds_iff.mp (h allWork)
    have halloc : ∀ n, allWork.alloc n = true := fun _ => rfl
    exact ⟨hlen, fun ht => arpFits_of_inBounds hlen halloc (harp ht),
      fun ht => ipv4Fits_of_inBounds hlen halloc (hipv4 ht)⟩
  · obtain ⟨hlen, harp, hipv4⟩ := hfits
    exact netProcessPkt_inBounds_iff.mpr ⟨hlen, fun ht => handleArp_inBounds hlen (harp ht),
      fun ht => handleIpv4_inBounds hlen (hipv4 ht)⟩

def overlongFrame : List UInt8 :=
  [82, 84, 0, 18, 52, 86, 2, 0, 0, 0, 0, 1, 8, 0] ++
    [69, 0, 3, 232, 0, 7, 0, 0, 64, 17, 0, 0, 192, 168, 10, 1, 192, 168, 10, 34] ++ [0, 7, 0, 80, 0, 8, 0, 0]

theorem frame_overread : ∃ e ∈ (Parse.netProcessPkt ⟨fun _ => true, fun _ => []⟩ allWork overlongFrame deviceServer).log,
    e = .bytes 42 34 980 ∧ ¬ e.Ok := by
  refine ⟨.bytes 42 34 980, by decide +kernel, rfl, fun h => ?_⟩
  have hlast : 34 + 979 < 42 := h 979 (by decide)
  omega

end Frames

end Agatha.Net
