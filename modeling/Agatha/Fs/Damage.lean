import Agatha.Fs.CrcRegister
import Agatha.Fs.Scan

namespace Agatha.Fs

open Library Library.Bytes Library.ShiftRegister

variable {env : Env} {lfs : Lfs} {w : World} {b c : Bytes} {p q l k magic len : ℕ}

theorem byteBits_injective : Function.Injective byteBits := by
  intro u v h
  have hword : u.toBitVec.setWidth 32 = v.toBitVec.setWidth 32 := by
    rw [← word_byteBits, ← word_byteBits, h]
  apply UInt8.toBitVec_inj.mp
  apply BitVec.eq_of_getLsbD_eq
  intro i hi
  have hbit := congrArg (fun z => z.getLsbD i) hword
  simpa only [BitVec.getLsbD_setWidth, show i < 32 by omega, decide_true, Bool.true_and] using hbit

theorem length_bits {s : List UInt8} : (s.flatMap byteBits).length = 8 * s.length := by
  induction s with
  | nil => rfl
  | cons u s ih =>
    rw [List.flatMap_cons, List.length_append, length_byteBits, ih, List.length_cons]
    omega

theorem bits_injective {s t : List UInt8} (h : s.flatMap byteBits = t.flatMap byteBits) : s = t := by
  induction s generalizing t with
  | nil =>
    have hlen := congrArg List.length h
    rw [length_bits, length_bits] at hlen
    exact (List.length_eq_zero_iff.mp (by rw [List.length_nil] at hlen; omega)).symm
  | cons u s ih =>
    cases t with
    | nil =>
      have hlen := congrArg List.length h
      rw [length_bits, length_bits, List.length_cons, List.length_nil] at hlen
      omega
    | cons v t =>
      rw [List.flatMap_cons, List.flatMap_cons] at h
      obtain ⟨huv, hst⟩ := List.append_inj h (by rw [length_byteBits, length_byteBits])
      rw [byteBits_injective huv, ih hst]

structure Damaged (b : Bytes) (p : ℕ) (c : Bytes) (q l k : ℕ) : Prop where
  differ : ∃ i < l, b (p + i) ≠ c (q + i)
  same : ∀ i < l, i < k ∨ k + 4 ≤ i → b (p + i) = c (q + i)

theorem bytesAt_ne (h : ∃ i < l, b (p + i) ≠ c (q + i)) : bytesAt b p l ≠ bytesAt c q l := by
  obtain ⟨i, hi, hne⟩ := h
  intro he
  have hget := List.map_inj_left.mp he i (List.mem_range.mpr hi)
  exact hne hget

theorem length_bytesAt : (bytesAt b p l).length = l := by
  unfold bytesAt
  rw [List.length_map, List.length_range]

theorem Damaged.crc_ne (h : Damaged b p c q l k) : crcChecksum b p l ≠ crcChecksum c q l := by
  intro he
  rw [crcChecksum_bits, crcChecksum_bits] at he
  have hreg : register crcPoly 0xffffffff ((bytesAt b p l).flatMap byteBits) =
      register crcPoly 0xffffffff ((bytesAt c q l).flatMap byteBits) := by
    have hbits := congrArg UInt32.toBitVec (UInt32.toNat_inj.mp he)
    exact (BitVec.xor_left_inj _).mp hbits
  obtain ⟨m, n, r, hl, hm, hn⟩ : ∃ m n r, l = m + n + r ∧ n ≤ 4 ∧ (m = k ∧ (n = 4 ∨ r = 0) ∨ n = 0 ∧ r = 0 ∧ m ≤ k) := by
    by_cases hk : l < k
    · exact ⟨l, 0, 0, rfl, by omega, .inr ⟨rfl, rfl, by omega⟩⟩
    · exact ⟨k, min 4 (l - k), l - k - 4, by omega, by omega, .inl ⟨rfl, by omega⟩⟩
  subst hl
  have hfront : bytesAt b p m = bytesAt c q m := bytesAt_congr fun i hi => h.same i (by omega) (by omega)
  have hback : bytesAt b (p + (m + n)) r = bytesAt c (q + (m + n)) r := by
    apply bytesAt_congr
    intro i hi
    have hsame := h.same (m + n + i) (by omega) (by omega)
    rwa [← Nat.add_assoc p, ← Nat.add_assoc q] at hsame
  have hsplit : ∀ (d : Bytes) (o : ℕ),
      bytesAt d o (m + n + r) = bytesAt d o m ++ bytesAt d (o + m) n ++ bytesAt d (o + (m + n)) r := by
    intro d o
    rw [bytesAt_add, bytesAt_add]
  rw [hsplit, hsplit, hfront, hback] at hreg
  simp only [List.flatMap_append] at hreg
  have hmid := register_burst crcPoly_msb (by rw [length_bits, length_bits, length_bytesAt, length_bytesAt])
    (by rw [length_bits, length_bytesAt]; omega) hreg
  refine bytesAt_ne h.differ ?_
  rw [hsplit, hsplit, hfront, hback, bits_injective hmid]

section Frames

theorem Damaged.clear (h : Damaged b 0 c 0 len k) (hcrc : Agree b c 4 4) :
    Damaged (b.put32 4 0) 0 (c.put32 4 0) 0 len k := by
  refine ⟨?_, fun i hi ho => ?_⟩
  · obtain ⟨i, hi, hne⟩ := h.differ
    rw [Nat.zero_add] at hne
    have hout : i < 4 ∨ 4 + 4 ≤ i := by
      by_contra hin
      exact hne (hcrc i (by omega) (by omega))
    refine ⟨i, hi, ?_⟩
    rw [Nat.zero_add, put32_outside i hout, put32_outside i hout]
    exact hne
  · rw [Nat.zero_add]
    by_cases hin : i < 4 ∨ 4 + 4 ≤ i
    · rw [put32_outside i hin, put32_outside i hin]
      have hsame := h.same i hi ho
      rwa [Nat.zero_add] at hsame
    · exact put32_inside i (by omega) (by omega)

theorem Damaged.refused (h : Damaged b 0 c 0 len k) (hcrc : Agree b c 4 4) (hv : Valid magic len b) :
    ¬ Valid magic len c := by
  intro hc
  have hfield : b.get32 4 = c.get32 4 := get32_congr hcrc
  rw [hv.2, hc.2] at hfield
  exact (h.clear hcrc).crc_ne hfield

def onDisk (w : World) (start : ℕ) : Bytes := w.disk.shift (start * w.blockSize)

structure Spoiled (magic len start : ℕ) (w : World) (b : Bytes) (k : ℕ) : Prop where
  valid : Valid magic len b
  damaged : Damaged b 0 (onDisk w start) 0 len k
  field : Agree b (onDisk w start) 4 4

theorem Spoiled.next {start : ℕ} (h : Spoiled magic len start w b k) : Spoiled magic len start w.next b k :=
  ⟨h.valid, h.damaged, h.field⟩

end Frames

theorem superblock_valid : Valid lfsSuperblockMagic lfsBlkSize (superblock lfs) := by
  unfold superblock
  constructor
  · rw [get32_put32_ne (by omega), get32_put32_ne (by omega), get32_put32_ne (by omega), get32_put32_ne (by omega),
      get32_put32_ne (by omega), get32_put32_ne (by omega), get32_put32_ne (by omega), get32_put32_ne (by omega),
      get32_put32_same]
    rfl
  · -- the field of the checksum was already zero
    have hcomm : ∀ (d : Bytes) (o v : ℕ), 8 ≤ o → (d.put32 4 0).put32 o v = (d.put32 o v).put32 4 0 :=
      fun d o v h => (put32_comm (by omega))
    rw [get32_put32_same, Nat.mod_eq_of_lt crcChecksum_lt, put32_put32_same]
    congr 1
    simp only [hcomm _ _ _ (show 8 ≤ 8 by omega), hcomm _ _ _ (show 8 ≤ 12 by omega),
      hcomm _ _ _ (show 8 ≤ 16 by omega), hcomm _ _ _ (show 8 ≤ 20 by omega), hcomm _ _ _ (show 8 ≤ 24 by omega),
      hcomm _ _ _ (show 8 ≤ 28 by omega), put32_put32_same]

end Agatha.Fs
