import Mathlib.Data.UInt
import Mathlib.Logic.Function.Basic

namespace Agatha.Library

abbrev Bytes := ℕ → UInt8

namespace Bytes

def get32 (b : Bytes) (o : ℕ) : ℕ :=
  (b o).toNat + 256 * (b (o + 1)).toNat + 65536 * (b (o + 2)).toNat + 16777216 * (b (o + 3)).toNat

def put32 (b : Bytes) (o v : ℕ) : Bytes := fun i =>
  if i = o then UInt8.ofNat v
  else if i = o + 1 then UInt8.ofNat (v / 256)
  else if i = o + 2 then UInt8.ofNat (v / 65536)
  else if i = o + 3 then UInt8.ofNat (v / 16777216)
  else b i

def get64 (b : Bytes) (o : ℕ) : ℕ := get32 b o + 4294967296 * get32 b (o + 4)

def put64 (b : Bytes) (o v : ℕ) : Bytes := put32 (put32 b o v) (o + 4) (v / 4294967296)

def fill (b : Bytes) (o len : ℕ) (v : UInt8) : Bytes := fun i =>
  if o ≤ i ∧ i < o + len then v else b i

def copy (b : Bytes) (o : ℕ) (src : Bytes) (s len : ℕ) : Bytes := fun i =>
  if o ≤ i ∧ i < o + len then src (s + (i - o)) else b i

def shift (b : Bytes) (o : ℕ) : Bytes := fun i => b (o + i)

def Agree (b c : Bytes) (o len : ℕ) : Prop := ∀ i, o ≤ i → i < o + len → b i = c i

section Words

variable {b c : Bytes} {o p v w len : ℕ}

theorem get32_lt : get32 b o < 2 ^ 32 := by
  have h0 := (b o).toNat_lt
  have h1 := (b (o + 1)).toNat_lt
  have h2 := (b (o + 2)).toNat_lt
  have h3 := (b (o + 3)).toNat_lt
  simp only [get32]
  omega

theorem put32_outside (i : ℕ) (h : i < o ∨ o + 4 ≤ i) : put32 b o v i = b i := by
  unfold put32
  rw [if_neg (by omega), if_neg (by omega), if_neg (by omega), if_neg (by omega)]

@[simp] theorem get32_put32_same : get32 (put32 b o v) o = v % 2 ^ 32 := by
  have h1 : o + 1 ≠ o := by omega
  have h2 : o + 2 ≠ o := by omega
  have h3 : o + 3 ≠ o := by omega
  simp only [get32, put32, if_true, if_neg h1, if_neg h2, if_neg h3,
    show o + 2 ≠ o + 1 by omega, show o + 3 ≠ o + 1 by omega, show o + 3 ≠ o + 2 by omega,
    if_false, UInt8.toNat_ofNat']
  omega

theorem get32_congr (h : Agree b c o 4) : get32 b o = get32 c o := by
  simp only [get32]
  rw [h o (by omega) (by omega), h (o + 1) (by omega) (by omega),
    h (o + 2) (by omega) (by omega), h (o + 3) (by omega) (by omega)]

theorem get32_put32_ne (h : p + 4 ≤ o ∨ o + 4 ≤ p) : get32 (put32 b o v) p = get32 b p :=
  get32_congr fun i h1 h2 => put32_outside i (by omega)

theorem put32_put32_same : put32 (put32 b o v) o w = put32 b o w := by
  funext i
  by_cases h : i < o ∨ o + 4 ≤ i
  · rw [put32_outside i h, put32_outside i h, put32_outside i h]
  · simp only [put32]
    split_ifs <;> rfl

theorem put32_comm (h : o + 4 ≤ p ∨ p + 4 ≤ o) :
    put32 (put32 b o v) p w = put32 (put32 b p w) o v := by
  funext i
  by_cases hp : i < p ∨ p + 4 ≤ i
  · rw [put32_outside i hp]
    by_cases ho : i < o ∨ o + 4 ≤ i
    · rw [put32_outside i ho, put32_outside i ho, put32_outside i hp]
    · simp only [put32]
      split_ifs <;> first | rfl | omega
  · have ho : i < o ∨ o + 4 ≤ i := by omega
    rw [put32_outside (b := put32 b p w) i ho]
    simp only [put32]
    split_ifs <;> first | rfl | omega

theorem put32_inside (i : ℕ) (h1 : o ≤ i) (h2 : i < o + 4) : put32 b o v i = put32 c o v i := by
  simp only [put32]
  split_ifs <;> first | rfl | omega

theorem put32_zero (i : ℕ) (h1 : o ≤ i) (h2 : i < o + 4) : put32 b o 0 i = 0 := by
  simp only [put32]
  split_ifs <;> first | rfl | omega

theorem get32_zero (h : get32 b o = 0) (i : ℕ) (h1 : o ≤ i) (h2 : i < o + 4) : b i = 0 := by
  have hbyte : (b i).toNat = 0 := by
    simp only [get32] at h
    obtain rfl | rfl | rfl | rfl : i = o ∨ i = o + 1 ∨ i = o + 2 ∨ i = o + 3 := by omega
    all_goals omega
  exact UInt8.toNat_inj.mp hbyte

theorem put32_get32 : put32 b o (get32 b o) = b := by
  funext i
  have h0 := (b o).toNat_lt
  have h1 := (b (o + 1)).toNat_lt
  have h2 := (b (o + 2)).toNat_lt
  have h3 := (b (o + 3)).toNat_lt
  simp only [put32, get32]
  split_ifs with hi hi hi hi
  all_goals
    first
    | rfl
    | rw [hi]
      apply UInt8.toNat_inj.mp
      rw [UInt8.toNat_ofNat']
      omega

@[simp] theorem get64_put64_same : get64 (put64 b o v) o = v % 2 ^ 64 := by
  simp only [get64, put64]
  rw [get32_put32_ne (by omega), get32_put32_same, get32_put32_same]
  omega

theorem fill_inside (i : ℕ) {x : UInt8} (h1 : o ≤ i) (h2 : i < o + len) : fill b o len x i = x :=
  if_pos ⟨h1, h2⟩

theorem fill_outside (i : ℕ) {x : UInt8} (h : i < o ∨ o + len ≤ i) : fill b o len x i = b i :=
  if_neg (by omega)

theorem get32_fill_zero (h1 : o ≤ p) (h2 : p + 4 ≤ o + len) : get32 (fill b o len 0) p = 0 := by
  simp only [get32]
  rw [fill_inside p h1 (by omega), fill_inside (p + 1) (by omega) (by omega),
    fill_inside (p + 2) (by omega) (by omega), fill_inside (p + 3) (by omega) (by omega)]
  rfl

theorem copy_inside (i : ℕ) {src : Bytes} {s : ℕ} (h1 : o ≤ i) (h2 : i < o + len) :
    copy b o src s len i = src (s + (i - o)) :=
  if_pos ⟨h1, h2⟩

theorem copy_outside (i : ℕ) {src : Bytes} {s : ℕ} (h : i < o ∨ o + len ≤ i) :
    copy b o src s len i = b i :=
  if_neg (by omega)

end Words

section Agreement

variable {b c d : Bytes} {o p len n : ℕ}

theorem Agree.refl : Agree b b o len := fun _ _ _ => rfl

theorem Agree.symm (h : Agree b c o len) : Agree c b o len := fun i h1 h2 => (h i h1 h2).symm

theorem Agree.trans (h : Agree b c o len) (h' : Agree c d o len) : Agree b d o len :=
  fun i h1 h2 => (h i h1 h2).trans (h' i h1 h2)

theorem Agree.put32 {v : ℕ} (h : Agree b c o len) : Agree (b.put32 p v) (c.put32 p v) o len := by
  intro i hi hlt
  unfold Bytes.put32
  rw [h i hi hlt]

theorem Agree.put32_self {v : ℕ} (h : Agree b (c.put32 o v) o 4) : b.put32 o v = b := by
  funext i
  by_cases hi : i < o ∨ o + 4 ≤ i
  · exact put32_outside i hi
  · rw [h i (by omega) (by omega)]
    unfold Bytes.put32
    split_ifs <;> first | rfl | omega

theorem Agree.mono (h : Agree b c o len) (h1 : o ≤ p) (h2 : p + n ≤ o + len) : Agree b c p n :=
  fun i hi1 hi2 => h i (by omega) (by omega)

end Agreement

end Bytes

end Agatha.Library
