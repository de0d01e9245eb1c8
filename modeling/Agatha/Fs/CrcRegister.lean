import Agatha.Library.ShiftRegister
import Agatha.Fs.CheckpointRuns
import Agatha.Fs.FileContents

namespace Agatha.Fs

open Library Library.Bytes Library.ShiftRegister

def crcPoly : BitVec 32 := 0xEDB88320

def byteBits (u : UInt8) : List Bool := (List.range 8).map u.toBitVec.getLsbD

def bitwiseCrc (s : List UInt8) : UInt32 :=
  ⟨register crcPoly 0xffffffff (s.flatMap byteBits) ^^^ 0xffffffff⟩

def bytesAt (b : Bytes) (p l : ℕ) : List UInt8 := (List.range l).map fun i => b (p + i)

structure Chunk where
  mem : Bytes
  p : ℕ
  l : ℕ

def Chunk.bytes (c : Chunk) : List UInt8 := bytesAt c.mem c.p c.l

def crcChunks (chunks : List Chunk) (crc : UInt32) : UInt32 :=
  chunks.foldl (fun crc c => crcContinue c.mem c.l c.p crc) crc

section Table

theorem poly8Lookup_eq : ∀ n : Fin 256,
    (poly8Lookup.getD n 0).toBitVec = bitSteps crcPoly 8 (BitVec.ofNat 32 n) := by
  decide +kernel

theorem crcPoly_msb : crcPoly.msb = true := by decide

variable {u : UInt8} {crc : UInt32}

theorem length_byteBits : (byteBits u).length = 8 := by
  unfold byteBits
  rw [List.length_map, List.length_range]

theorem word_byteBits : word 32 (byteBits u) = u.toBitVec.setWidth 32 := by
  apply BitVec.eq_of_getLsbD_eq
  intro i hi
  rw [getLsbD_word hi, BitVec.getLsbD_setWidth, decide_eq_true hi, Bool.true_and]
  by_cases h : i < 8
  · rw [List.getD_eq_getElem _ _ (length_byteBits.symm ▸ h)]
    unfold byteBits
    rw [List.getElem_map, List.getElem_range]
  · rw [List.getD_eq_default _ _ (by rw [length_byteBits]; omega), BitVec.getLsbD_of_ge _ _ (by omega)]

theorem crc_step :
    (poly8Lookup.getD (crc.toUInt8 ^^^ u).toNat 0 ^^^ (crc >>> 8)).toBitVec =
      register crcPoly crc.toBitVec (byteBits u) := by
  have hlt : (crc.toUInt8 ^^^ u).toNat < 256 := UInt8.toNat_lt _
  have htable := poly8Lookup_eq ⟨_, hlt⟩
  have hlow : BitVec.ofNat 32 (crc.toUInt8 ^^^ u).toNat = (crc.toUInt8 ^^^ u).toBitVec.setWidth 32 :=
    BitVec.ofNat_toNat ..
  have hbits : ∀ i < 8, ((crc.toUInt8 ^^^ u).toBitVec.setWidth 32).getLsbD i =
      (crc.toBitVec ^^^ u.toBitVec.setWidth 32).getLsbD i := by
    intro i hi
    have hi' : i < 32 := by omega
    rw [BitVec.getLsbD_setWidth, UInt8.toBitVec_xor, BitVec.getLsbD_xor, BitVec.getLsbD_xor,
      BitVec.getLsbD_setWidth, UInt32.toBitVec_toUInt8, BitVec.getLsbD_setWidth]
    simp only [hi, hi', decide_true, Bool.true_and]
  have hclear : ∀ v : BitVec 8, v.setWidth 32 >>> 8 = 0#32 := by
    intro v
    apply BitVec.eq_of_toNat_eq
    rw [BitVec.toNat_ushiftRight, BitVec.toNat_setWidth, BitVec.toNat_ofNat, Nat.zero_mod,
      Nat.shiftRight_eq_div_pow]
    have := v.isLt
    omega
  have hregister : register crcPoly crc.toBitVec (byteBits u) =
      bitSteps crcPoly 8 (crc.toBitVec ^^^ u.toBitVec.setWidth 32) := by
    rw [register_eq_bitSteps (by rw [length_byteBits]; omega), length_byteBits, word_byteBits]
  have hshift : (crc >>> 8).toBitVec = crc.toBitVec >>> 8 := rfl
  rw [hregister, bitSteps_table hbits (hclear _), BitVec.ushiftRight_xor_distrib, hclear, BitVec.xor_zero,
    UInt32.toBitVec_xor, htable, hlow, hshift]

end Table

section Strings

variable {b c : Bytes} {p q l m : ℕ} {crc : UInt32}

theorem bytesAt_succ : bytesAt b p (l + 1) = b p :: bytesAt b (p + 1) l := by
  unfold bytesAt
  rw [List.range_succ_eq_map, List.map_cons, List.map_map]
  congr 1
  apply List.map_congr_left
  intro i _
  rw [Function.comp_apply, Nat.succ_eq_add_one, Nat.add_assoc, Nat.add_comm 1 i]

theorem bytesAt_add : bytesAt b p (l + m) = bytesAt b p l ++ bytesAt b (p + l) m := by
  induction l generalizing p with
  | zero => rw [Nat.zero_add]; rfl
  | succ l ih => rw [Nat.succ_add, bytesAt_succ, bytesAt_succ, ih, List.cons_append, Nat.add_right_comm]; rfl

theorem bytesAt_congr (h : ∀ i < l, b (p + i) = c (q + i)) : bytesAt b p l = bytesAt c q l :=
  List.map_congr_left fun i hi => h i (List.mem_range.mp hi)

theorem crcContinue_eq :
    (crcContinue b l p crc).toBitVec = register crcPoly crc.toBitVec ((bytesAt b p l).flatMap byteBits) := by
  induction l generalizing p crc with
  | zero => rfl
  | succ l ih => rw [bytesAt_succ, List.flatMap_cons, register_append, ← crc_step, crcContinue, ih]

theorem crcChunks_eq {chunks : List Chunk} : (crcChunks chunks crc).toBitVec =
    register crcPoly crc.toBitVec ((chunks.flatMap Chunk.bytes).flatMap byteBits) := by
  induction chunks generalizing crc with
  | nil => rfl
  | cons c chunks ih =>
    rw [List.flatMap_cons, List.flatMap_append, register_append, Chunk.bytes, ← crcContinue_eq, ← ih]
    rfl

theorem crcChecksum_bits : crcChecksum b p l = (bitwiseCrc (bytesAt b p l)).toNat := by
  unfold crcChecksum bitwiseCrc
  congr 1
  apply UInt32.toBitVec_inj.mp
  rw [UInt32.toBitVec_xor, crcContinue_eq]
  rfl

theorem crc_is_bitwise :
    (∀ chunks : List Chunk,
      crcFinish (crcChunks chunks crcStart) = bitwiseCrc (chunks.flatMap Chunk.bytes)) ∧
    ∀ (b : Bytes) (p l : ℕ), crcChecksum b p l = (bitwiseCrc (bytesAt b p l)).toNat := by
  refine ⟨fun chunks => ?_, fun b p l => crcChecksum_bits⟩
  unfold crcFinish bitwiseCrc
  apply UInt32.toBitVec_inj.mp
  rw [UInt32.toBitVec_xor, crcChunks_eq]
  rfl

end Strings

end Agatha.Fs
