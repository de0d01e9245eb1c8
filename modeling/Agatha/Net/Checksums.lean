import Agatha.Library.OnesComplement
import Agatha.Net.Segments
import Mathlib.Algebra.Order.Ring.Nat
import Mathlib.Logic.Function.Iterate

/-! The checksums of the packets that the server sends (`lib/net/ip.c`, `tcp.c`, `icmp.c`). -/

namespace Agatha.Net

open Agatha.Library

def ipv4Hdr (s : Host) (dstIp : List UInt8) (proto dataLen csum : ℕ) : List UInt8 :=
  [0x45, s.junk] ++ putWord (20 + dataLen) ++ putWord s.ident ++ [0, 0, 0xff, UInt8.ofNat proto] ++
    putWord csum ++ s.ipv4 ++ dstIp

def icmpMsg (type code : UInt8) (rst data : List UInt8) (csum : ℕ) : List UInt8 :=
  [type, code] ++ putWord csum ++ rst ++ data

def icmpBody (type code : UInt8) (rst data : List UInt8) : List UInt8 :=
  icmpMsg type code rst data (csumIpFinish (csumIpContinue (icmpMsg type code rst data 0) 0))

def icmpFrame (s : Host) (dstMac dstIp : List UInt8) (type code : UInt8) (rst data : List UInt8) : List UInt8 :=
  createIpv4Pkt s dstMac dstIp ipIcmp (8 + data.length) ++ icmpBody type code rst data

def words : List UInt8 → List ℕ
  | [] => []
  | [x] => [x.toNat * 256]
  | x :: y :: h => (x.toNat * 256 + y.toNat) :: words h

def ChecksumOk (h : List UInt8) : Prop := OnesComplement.sum 0xffff (words h) = 0xffff

/-- A round of the loop in `csum_ip_finish`. -/
def csumFold (sum : ℕ) : ℕ := sum % 2 ^ 16 + sum / 2 ^ 16

/-- The sum over `h` stays within 32 bits at each step, and the loop of `csum_ip_finish` ends for it. -/
structure SumsUp (h : List UInt8) (sum : ℕ) : Prop where
  running : ∀ n, csumIpContinue (h.take n) sum < 2 ^ 32
  folds : ∃ n ≤ 2, csumFold^[n] (csumIpContinue h sum) ≤ 0xffff

variable {a b h data rst : List UInt8} {sum x : ℕ} {s : Host} {e : TcpEnds} {p : SentPkt}

section Words

theorem words_le : ∀ w ∈ words h, w ≤ 0xffff := by
  fun_induction words h with
  | case1 => exact fun w hw => absurd hw List.not_mem_nil
  | case2 x =>
    intro w hw
    have hx := x.toNat_lt
    rw [List.mem_singleton.mp hw]
    omega
  | case3 x y h ih =>
    intro w hw
    have hx := x.toNat_lt
    have hy := y.toNat_lt
    rcases List.mem_cons.mp hw with rfl | hw
    · omega
    · exact ih w hw

theorem words_append (ha : a.length % 2 = 0) : words (a ++ b) = words a ++ words b := by
  fun_induction words a with
  | case1 => rfl
  | case2 x => simp at ha
  | case3 x y h ih =>
    have hh : h.length % 2 = 0 := by
      rw [List.length_cons, List.length_cons] at ha
      omega
    rw [List.cons_append, List.cons_append, words, ih hh, List.cons_append]

theorem words_length : (words h).length = (h.length + 1) / 2 := by
  fun_induction words h with
  | case1 => rfl
  | case2 x => rw [List.length_singleton, List.length_singleton]
  | case3 x y h ih =>
    rw [List.length_cons, List.length_cons, List.length_cons, ih]
    omega

theorem even_putWord : (putWord x).length % 2 = 0 := by
  have hlen : (putWord x).length = 2 := rfl
  rw [hlen]

theorem words_putWord (hx : x < 2 ^ 16) : words (putWord x) = [x] := by
  unfold putWord
  rw [words, words, word_putWord hx]

theorem csumIpContinue_eq : csumIpContinue h sum = sum + (words h).sum := by
  fun_induction csumIpContinue h sum with
  | case1 => rfl
  | case2 sum x => rw [words, List.sum_singleton]
  | case3 sum x y h ih =>
    rw [ih, words, List.sum_cons]
    omega

theorem csumIpContinue_append (ha : a.length % 2 = 0) :
    csumIpContinue b (csumIpContinue a sum) = csumIpContinue (a ++ b) sum := by
  rw [csumIpContinue_eq, csumIpContinue_eq, csumIpContinue_eq, words_append ha, List.sum_append, Nat.add_assoc]

theorem words_sum_le : (words h).sum ≤ (h.length + 1) / 2 * 0xffff := by
  rw [← words_length]
  exact List.sum_le_card_nsmul _ _ words_le

end Words

section Folding

theorem csumFold_modEq : csumFold sum ≡ sum [MOD 0xffff] := by
  unfold Nat.ModEq csumFold
  omega

theorem csumIpFinish_le : csumIpFinish sum ≤ 0xffff := by
  fun_induction csumIpFinish sum with
  | case1 sum h ih => exact ih
  | case2 sum h => exact Nat.sub_le _ _

theorem csumIpFinish_spec : 0xffff ∣ sum + csumIpFinish sum ∧ 0 < sum + csumIpFinish sum := by
  fun_induction csumIpFinish sum with
  | case1 sum h ih =>
    have hmod : sum % 2 ^ 16 + sum / 2 ^ 16 + csumIpFinish (sum % 2 ^ 16 + sum / 2 ^ 16) ≡
      sum + csumIpFinish (sum % 2 ^ 16 + sum / 2 ^ 16) [MOD 0xffff] := csumFold_modEq.add_right _
    exact ⟨(hmod.dvd_iff dvd_rfl).mp ih.1, by omega⟩
  | case2 sum h =>
    have hsum : sum + (0xffff - sum) = 0xffff := by omega
    rw [hsum]
    exact ⟨dvd_rfl, by decide⟩

theorem checksum_verifies (ha : a.length % 2 = 0) :
    ChecksumOk (a ++ putWord (csumIpFinish (csumIpContinue (a ++ putWord 0 ++ b) 0)) ++ b) := by
  set csum := csumIpFinish (csumIpContinue (a ++ putWord 0 ++ b) 0) with hcsum
  have hlt : csum < 2 ^ 16 := Nat.lt_succ_of_le csumIpFinish_le
  have hwords : ∀ {y : ℕ}, y < 2 ^ 16 → (words (a ++ putWord y ++ b)).sum = (words a).sum + (y + (words b).sum) := by
    intro y hy
    rw [List.append_assoc, words_append ha, words_append even_putWord, words_putWord hy, List.sum_append, List.sum_append,
      List.sum_singleton]
  have hzero : csumIpContinue (a ++ putWord 0 ++ b) 0 = (words a).sum + (words b).sum := by
    rw [csumIpContinue_eq, hwords (by decide)]
    omega
  have hspec := @csumIpFinish_spec ((words a).sum + (words b).sum)
  rw [← hzero, ← hcsum, hzero] at hspec
  have htotal : (words a).sum + (csum + (words b).sum) = (words a).sum + (words b).sum + csum := by omega
  unfold ChecksumOk
  rw [OnesComplement.sum_eq_ones (by decide) words_le, hwords hlt, htotal]
  exact hspec

theorem sumsUp (hlen : h.length ≤ 65535) (hsum : sum ≤ 6 * 0xffff) : SumsUp h sum := by
  have hle : ∀ {l : List UInt8}, l.length ≤ 65535 → csumIpContinue l sum ≤ 32774 * 0xffff := by
    intro l hl
    have hwords := @words_sum_le l
    have hhalf : (l.length + 1) / 2 * 0xffff ≤ 32768 * 0xffff := Nat.mul_le_mul_right _ (by omega)
    rw [csumIpContinue_eq]
    omega
  constructor
  · intro n
    exact (hle ((List.length_take_le' n h).trans hlen)).trans_lt (by decide)
  · have hmax := hle hlen
    refine ⟨2, le_rfl, ?_⟩
    change csumFold (csumFold _) ≤ 0xffff
    unfold csumFold
    omega

end Folding

section Packets

variable {macRem addrRem body : List UInt8} {proto n : ℕ}

theorem createIpv4Pkt_hdr (hs : s.Proper) (hmac : macRem.length = 6) (haddr : addrRem.length = 4) :
    copyOut (createIpv4Pkt s macRem addrRem proto n ++ body) 14 20 =
      ipv4Hdr s addrRem proto n (csumIpFinish (csumIpContinue (ipv4Hdr s addrRem proto n 0) 0)) := by
  obtain ⟨m0, m1, m2, m3, m4, m5, hm⟩ := eq_six hs.mac
  obtain ⟨i0, i1, i2, i3, hi⟩ := eq_four hs.ipv4
  obtain ⟨r0, r1, r2, r3, r4, r5, rfl⟩ := eq_six hmac
  obtain ⟨d0, d1, d2, d3, rfl⟩ := eq_four haddr
  unfold createIpv4Pkt ipv4Hdr
  dsimp only
  rw [hm, hi]
  generalize csumIpFinish _ = csum
  rfl

theorem ipv4Hdr_verifies (hs : s.Proper) (hmac : macRem.length = 6) (haddr : addrRem.length = 4) :
    ChecksumOk (copyOut (createIpv4Pkt s macRem addrRem proto n ++ body) 14 20) := by
  have hpart : ∀ csum, ipv4Hdr s addrRem proto n csum = [0x45, s.junk] ++ putWord (20 + n) ++ putWord s.ident ++
      [0, 0, 0xff, UInt8.ofNat proto] ++ putWord csum ++ (s.ipv4 ++ addrRem) := fun csum => List.append_assoc ..
  have hlen : ([0x45, s.junk] ++ putWord (20 + n) ++ putWord s.ident ++ [0, 0, 0xff, UInt8.ofNat proto]).length = 10 :=
    rfl
  rw [createIpv4Pkt_hdr hs hmac haddr, hpart, hpart]
  exact checksum_verifies (by rw [hlen])

theorem ipv4Hdr_sumsUp (hs : s.Proper) (haddr : addrRem.length = 4) : SumsUp (ipv4Hdr s addrRem proto n 0) 0 := by
  have hlen : (ipv4Hdr s addrRem proto n 0).length = 20 := by
    unfold ipv4Hdr
    rw [List.length_append, List.length_append, hs.ipv4, haddr]
    rfl
  exact sumsUp (by omega) (Nat.zero_le _)

theorem pseudoHdr_length {src dst : List UInt8} (hsrc : src.length = 4) (hdst : dst.length = 4) :
    (pseudoHdr src dst n).length = 12 := by
  unfold pseudoHdr
  rw [List.length_append, List.length_append, List.length_append, hsrc, hdst]
  rfl

theorem pseudoHdr_sum_le {src dst : List UInt8} (hsrc : src.length = 4) (hdst : dst.length = 4) :
    csumIpContinue (pseudoHdr src dst n) 0 ≤ 6 * 0xffff := by
  have hle := @words_sum_le (pseudoHdr src dst n)
  rw [pseudoHdr_length hsrc hdst] at hle
  rw [csumIpContinue_eq, Nat.zero_add]
  exact hle

theorem tcpBody_verifies {ack : ℕ} (hloc : e.addrLoc.length = 4) (haddr : e.addrRem.length = 4) :
    ChecksumOk (pseudoHdr e.addrLoc e.addrRem (20 + p.len) ++ tcpBody s e ack p) := by
  have hpseudo := @pseudoHdr_length (20 + p.len) _ _ hloc haddr
  unfold tcpBody
  dsimp only
  rw [csumIpContinue_append (by rw [hpseudo])]
  generalize pseudoHdr e.addrLoc e.addrRem (20 + p.len) = pseudo at hpseudo ⊢
  have hpart : ∀ csum, pseudo ++ (tcpHdr s.portLoc e ack p csum ++ p.data) =
      pseudo ++ (putWord s.portLoc ++ putWord e.portRem ++ putLong p.seq ++ putLong ack ++
        putWord (5 <<< 12 ||| p.flags) ++ putWord e.windowSizeLoc) ++ putWord csum ++ ([0, 0] ++ p.data) := by
    intro csum
    unfold tcpHdr
    simp only [List.append_assoc]
  rw [hpart, hpart]
  have hlen : (putWord s.portLoc ++ putWord e.portRem ++ putLong p.seq ++ putLong ack ++
      putWord (5 <<< 12 ||| p.flags) ++ putWord e.windowSizeLoc).length = 16 := rfl
  apply checksum_verifies
  rw [List.length_append, hpseudo, hlen]

theorem icmpBody_verifies {type code : UInt8} : ChecksumOk (icmpBody type code rst data) := by
  have hpart : ∀ csum, icmpMsg type code rst data csum = [type, code] ++ putWord csum ++ (rst ++ data) :=
    fun csum => List.append_assoc ..
  have hlen : [type, code].length = 2 := rfl
  unfold icmpBody
  rw [hpart, hpart]
  exact checksum_verifies (by rw [hlen])

/-- The IP header of every packet, the pseudo header and segment of every TCP packet and every ICMP message verify, and
the sums for their checksums stay within 32 bits. -/
theorem checksums_verify (hs : s.Proper) :
    (∀ macRem addrRem proto body, macRem.length = 6 → addrRem.length = 4 → 20 + body.length ≤ 65535 →
      ChecksumOk (copyOut (createIpv4Pkt s macRem addrRem proto body.length ++ body) 14 20) ∧
      SumsUp (ipv4Hdr s addrRem proto body.length 0) 0) ∧
    (∀ e ack p, e.macRem.length = 6 → e.addrRem.length = 4 → e.addrLoc = s.ipv4 →
      20 + (20 + p.len) ≤ 65535 →
      ChecksumOk (copyOut (tcpFrame s e ack p) 14 20) ∧
      ChecksumOk (pseudoHdr (ipSrc (tcpFrame s e ack p)) (ipDst (tcpFrame s e ack p)) (ipLen (tcpFrame s e ack p)) ++
        ipBody (tcpFrame s e ack p)) ∧
      SumsUp (ipv4Hdr s e.addrRem ipTcp (20 + p.len) 0) 0 ∧
      SumsUp (pseudoHdr e.addrLoc e.addrRem (20 + p.len)) 0 ∧
      SumsUp (tcpHdr s.portLoc e ack p 0 ++ p.data) (csumIpContinue (pseudoHdr e.addrLoc e.addrRem (20 + p.len)) 0)) ∧
    (∀ macRem addrRem type code rst data, macRem.length = 6 → addrRem.length = 4 → rst.length = 4 →
      20 + (8 + data.length) ≤ 65535 →
      ChecksumOk (copyOut (icmpFrame s macRem addrRem type code rst data) 14 20) ∧
      ChecksumOk (ipBody (icmpFrame s macRem addrRem type code rst data)) ∧
      SumsUp (ipv4Hdr s addrRem ipIcmp (8 + data.length) 0) 0 ∧
      SumsUp (icmpMsg type code rst data 0) 0) := by
  refine ⟨?_, ?_, ?_⟩
  · intro macRem addrRem proto body hmac haddr hlen
    exact ⟨ipv4Hdr_verifies hs hmac haddr, ipv4Hdr_sumsUp hs haddr⟩
  · intro e ack p hmac haddr hloc hlen
    have hl : e.addrLoc.length = 4 := by rw [hloc, hs.ipv4]
    have henc := createIpv4Pkt_encloses hs hmac haddr (by decide : ipTcp < 256) (@tcpBody_length s e p ack) hlen
    have hpseudo := @pseudoHdr_length (20 + p.len) _ _ hl haddr
    refine ⟨ipv4Hdr_verifies hs hmac haddr, ?_, ipv4Hdr_sumsUp hs haddr, sumsUp (by omega) (Nat.zero_le _),
      sumsUp ?_ (pseudoHdr_sum_le hl haddr)⟩
    · unfold tcpFrame
      rw [henc.src, henc.dst, henc.len, henc.body, tcpBody_length, ← hloc]
      exact tcpBody_verifies hl haddr
    · rw [List.length_append, tcpHdr_length]
      change 20 + p.len ≤ 65535
      omega
  · intro macRem addrRem type code rst data hmac haddr hrst hlen
    have hmsg : ∀ csum, (icmpMsg type code rst data csum).length = 8 + data.length := by
      intro csum
      unfold icmpMsg
      rw [List.length_append, List.length_append, List.length_append, hrst]
      rfl
    have henc := createIpv4Pkt_encloses hs hmac haddr (by decide : ipIcmp < 256)
      (hmsg (csumIpFinish (csumIpContinue (icmpMsg type code rst data 0) 0))) hlen
    refine ⟨ipv4Hdr_verifies hs hmac haddr, ?_, ipv4Hdr_sumsUp hs haddr, sumsUp ?_ (Nat.zero_le _)⟩
    · have hbody : ipBody (icmpFrame s macRem addrRem type code rst data) = icmpBody type code rst data := henc.body
      rw [hbody]
      exact icmpBody_verifies
    · rw [hmsg]
      omega

theorem checksums_verify_odd :
    ChecksumOk (copyOut (tcpFrame oddHost oddEnds 0x80000001 oddPkt) 14 20) ∧
    ChecksumOk (pseudoHdr (ipSrc (tcpFrame oddHost oddEnds 0x80000001 oddPkt))
      (ipDst (tcpFrame oddHost oddEnds 0x80000001 oddPkt)) (ipLen (tcpFrame oddHost oddEnds 0x80000001 oddPkt)) ++
        ipBody (tcpFrame oddHost oddEnds 0x80000001 oddPkt)) := by
  obtain ⟨-, htcp, -⟩ := @checksums_verify oddHost ⟨rfl, rfl, by decide⟩
  obtain ⟨hip, hseg, -⟩ := htcp oddEnds 0x80000001 oddPkt rfl rfl rfl (by decide)
  exact ⟨hip, hseg⟩

end Packets

end Agatha.Net
