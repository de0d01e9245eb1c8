import Mathlib.Data.BitVec
import Mathlib.Data.List.GetD

namespace Agatha.Library.ShiftRegister

variable {w : ℕ}

def bitStep (p x : BitVec w) : BitVec w := if x.getLsbD 0 then x >>> 1 ^^^ p else x >>> 1

def bitSteps (p : BitVec w) : ℕ → BitVec w → BitVec w
  | 0, x => x
  | n + 1, x => bitSteps p n (bitStep p x)

def shiftIn (p x : BitVec w) (b : Bool) : BitVec w :=
  if x.getLsbD 0 ^^ b then x >>> 1 ^^^ p else x >>> 1

def register (p x : BitVec w) (bits : List Bool) : BitVec w := bits.foldl (shiftIn p) x

def word (w : ℕ) (bits : List Bool) : BitVec w := (BitVec.ofBoolListLE bits).setWidth w

variable {p x y : BitVec w} {bits as bs : List Bool} {n : ℕ}

theorem getLsbD_word {i : ℕ} (h : i < w) : (word w bits).getLsbD i = bits.getD i false := by
  unfold word
  rw [BitVec.getLsbD_setWidth, decide_eq_true h, Bool.true_and, BitVec.getLsbD_ofBoolListLE]

theorem register_append : register p x (as ++ bs) = register p (register p x as) bs :=
  List.foldl_append

section Linear

theorem xor_xor_xor_cancel (a b c : BitVec w) : a ^^^ c ^^^ (b ^^^ c) = a ^^^ b := by
  rw [BitVec.xor_assoc, BitVec.xor_comm b c, ← BitVec.xor_assoc c c b, BitVec.xor_self, BitVec.zero_xor]

theorem bitStep_xor : bitStep p (x ^^^ y) = bitStep p x ^^^ bitStep p y := by
  unfold bitStep
  rw [BitVec.getLsbD_xor, BitVec.ushiftRight_xor_distrib]
  cases x.getLsbD 0 <;> cases y.getLsbD 0
  · rfl
  · exact BitVec.xor_assoc ..
  · simp only [Bool.xor_false, if_true, Bool.false_eq_true, if_false]
    rw [BitVec.xor_assoc, BitVec.xor_assoc, BitVec.xor_comm p]
  · exact (xor_xor_xor_cancel ..).symm

theorem bitSteps_xor : bitSteps p n (x ^^^ y) = bitSteps p n x ^^^ bitSteps p n y := by
  induction n generalizing x y with
  | zero => rfl
  | succ n ih =>
    unfold bitSteps
    rw [bitStep_xor, ih]

theorem bitSteps_clear (h : ∀ i < n, x.getLsbD i = false) : bitSteps p n x = x >>> n := by
  induction n generalizing x with
  | zero => rw [BitVec.ushiftRight_zero]; rfl
  | succ n ih =>
    have h0 : bitStep p x = x >>> 1 := by
      unfold bitStep
      rw [h 0 (Nat.succ_pos n)]
      rfl
    unfold bitSteps
    rw [h0, ih]
    · rw [← BitVec.shiftRight_add, Nat.add_comm]
    · intro i hi
      rw [BitVec.getLsbD_ushiftRight]
      exact h (1 + i) (by omega)

theorem bitSteps_table {low : BitVec w} (h : ∀ i < n, low.getLsbD i = x.getLsbD i)
    (hlow : low >>> n = 0#w) : bitSteps p n x = bitSteps p n low ^^^ x >>> n := by
  have hsplit : x = low ^^^ (x ^^^ low) := by
    rw [BitVec.xor_comm x, ← BitVec.xor_assoc, BitVec.xor_self, BitVec.zero_xor]
  have hclear : bitSteps p n (x ^^^ low) = (x ^^^ low) >>> n := by
    apply bitSteps_clear
    intro i hi
    rw [BitVec.getLsbD_xor, h i hi, Bool.xor_self]
  calc bitSteps p n x = bitSteps p n (low ^^^ (x ^^^ low)) := by rw [← hsplit]
    _ = bitSteps p n low ^^^ x >>> n := by
      rw [bitSteps_xor, hclear, BitVec.ushiftRight_xor_distrib, hlow, BitVec.xor_zero]

theorem register_eq_bitSteps (h : bits.length ≤ w) :
    register p x bits = bitSteps p bits.length (x ^^^ word w bits) := by
  induction bits generalizing x with
  | nil =>
    have hzero : word w [] = 0#w := by
      apply BitVec.eq_of_getLsbD_eq
      intro i hi
      rw [getLsbD_word hi, BitVec.getLsbD_zero, List.getD_nil]
    rw [hzero, BitVec.xor_zero]
    rfl
  | cons b bits ih =>
    have hpos : 0 < w := by
      rw [List.length_cons] at h
      omega
    have hshift : word w (b :: bits) >>> 1 = word w bits := by
      apply BitVec.eq_of_getLsbD_eq
      intro i hi
      rw [BitVec.getLsbD_ushiftRight, getLsbD_word hi]
      by_cases hlt : 1 + i < w
      · rw [getLsbD_word hlt, Nat.add_comm, List.getD_cons_succ]
      · rw [BitVec.getLsbD_of_ge _ _ (by omega), List.getD_eq_default]
        rw [List.length_cons] at h
        omega
    have hstep : bitStep p (x ^^^ word w (b :: bits)) = shiftIn p x b ^^^ word w bits := by
      unfold bitStep shiftIn
      rw [BitVec.getLsbD_xor, getLsbD_word hpos, List.getD_cons_zero, BitVec.ushiftRight_xor_distrib,
        hshift]
      cases x.getLsbD 0 ^^ b
      · rfl
      · simp only [if_true]
        rw [BitVec.xor_assoc, BitVec.xor_assoc, BitVec.xor_comm p]
    rw [List.length_cons]
    unfold bitSteps
    rw [hstep, ← ih (by rw [List.length_cons] at h; omega)]
    rfl

end Linear

section Injective

theorem bitStep_injective (hp : p.msb = true) : Function.Injective (bitStep p) := by
  intro x y h
  have hlow : x.getLsbD 0 = y.getLsbD 0 := by
    have hmsb : ∀ z : BitVec w, (bitStep p z).msb = z.getLsbD 0 := by
      intro z
      have hz : (z >>> 1).msb = false := by
        rw [BitVec.msb_ushiftRight]
        rfl
      unfold bitStep
      cases z.getLsbD 0
      · exact hz
      · simp only [if_true]
        rw [BitVec.msb_xor, hz, hp]
        rfl
    rw [← hmsb, ← hmsb, h]
  have hhigh : x >>> 1 = y >>> 1 := by
    unfold bitStep at h
    rw [hlow] at h
    split at h
    · exact (BitVec.xor_left_inj p).mp h
    · exact h
  apply BitVec.eq_of_getLsbD_eq
  intro i hi
  cases i with
  | zero => exact hlow
  | succ i =>
    have := congrArg (fun z => z.getLsbD i) hhigh
    simpa only [BitVec.getLsbD_ushiftRight, Nat.add_comm 1 i] using this

theorem bitSteps_injective (hp : p.msb = true) : Function.Injective (bitSteps p n) := by
  induction n with
  | zero => exact fun _ _ h => h
  | succ n ih => exact fun _ _ h => bitStep_injective hp (ih h)

theorem shiftIn_eq {b : Bool} (h : 0 < w) : shiftIn p x b = bitStep p (x ^^^ word w [b]) :=
  @register_eq_bitSteps _ _ _ [b] h

theorem pos_of_msb (hp : p.msb = true) : 0 < w := by
  apply Nat.pos_of_ne_zero
  rintro rfl
  rw [BitVec.eq_nil p] at hp
  cases hp

theorem register_injective (hp : p.msb = true) (h : register p x bits = register p y bits) : x = y := by
  induction bits generalizing x y with
  | nil => exact h
  | cons b bits ih =>
    have hstep : shiftIn p x b = shiftIn p y b := ih h
    rw [shiftIn_eq (pos_of_msb hp), shiftIn_eq (pos_of_msb hp)] at hstep
    exact (BitVec.xor_left_inj _).mp (bitStep_injective hp hstep)

theorem register_bits_injective (hp : p.msb = true) (hlen : as.length = bs.length) (hw : as.length ≤ w)
    (h : register p x as = register p x bs) : as = bs := by
  rw [register_eq_bitSteps hw, register_eq_bitSteps (hlen ▸ hw), hlen] at h
  have hword : word w as = word w bs := (BitVec.xor_right_inj x).mp (bitSteps_injective hp h)
  apply List.ext_getElem hlen
  intro i h1 h2
  have := congrArg (fun z => z.getLsbD i) hword
  simpa only [getLsbD_word (h1.trans_le hw), List.getD_eq_getElem _ _ h1,
    List.getD_eq_getElem _ _ h2] using this

theorem register_burst (hp : p.msb = true) {front back : List Bool} (hlen : as.length = bs.length)
    (hw : as.length ≤ w)
    (h : register p x (front ++ as ++ back) = register p x (front ++ bs ++ back)) : as = bs := by
  simp only [register_append] at h
  exact register_bits_injective hp hlen hw (register_injective hp h)

end Injective

end Agatha.Library.ShiftRegister
