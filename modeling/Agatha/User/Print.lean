import Mathlib.Data.List.Basic
import Mathlib.Data.Nat.Digits.Defs
import Agatha.Library.Bytes

/-!
`vsnprintf` of `lib/string/string.c`. A format is the list of its bytes before the NUL, and what is written
to `str` is a list of positions with their bytes, the last one written first. The arguments are what the memory
holds from `ap` on: `va_arg` of `include/stdarg.h` steps by the size of the type that it reads.
-/

namespace Agatha.User.Print

open Library (Bytes)
open Library.Bytes (get32)

structure CStr where
  bytes : List UInt8
  noNul : 0 ∉ bytes

def nullText : List UInt8 := ['('.toUInt8, 'n'.toUInt8, 'u'.toUInt8, 'l'.toUInt8, 'l'.toUInt8, ')'.toUInt8]

def bytesTill (mem : Bytes) : ℕ → ℕ → List UInt8
  | 0, _ => []
  | room + 1, s => if mem s = 0 then [] else mem s :: bytesTill mem room ((s + 1) % 2 ^ 32)

inductive Kind
  | int | uint | char | str
  deriving DecidableEq

def Kind.size : Kind → ℕ
  | .char => 1
  | _ => 4

def percent : UInt8 := '%'.toUInt8

def kind (k : UInt8) : Option Kind :=
  if k = 'i'.toUInt8 then some .int
  else if k = 'u'.toUInt8 ∨ k = 'x'.toUInt8 ∨ k = 'b'.toUInt8 then some .uint
  else if k = 'c'.toUInt8 then some .char
  else if k = 's'.toUInt8 then some .str
  else none

def digit (n : ℕ) : UInt8 :=
  if n > 9 then UInt8.ofNat ('a'.toNat + (n - 10)) else UInt8.ofNat ('0'.toNat + n)

def intDigits (base : ℕ) : ℕ → ℕ → List UInt8
  | 0, _ => []
  | room + 1, i => digit (i % base) :: if 0 < i / base then intDigits base room (i / base) else []

def printint (max i base : ℕ) : List UInt8 := (intDigits base 64 i).reverse.take max

def magnitude (i : BitVec 32) : ℕ := ((if i.slt 0 then -i else i).signExtend 64).toNat

def base (k : UInt8) : ℕ := if k = 'u'.toUInt8 then 10 else if k = 'x'.toUInt8 then 16 else 2

def int32At (mem : Bytes) (ap : ℕ) : BitVec 32 := BitVec.ofNat 32 (get32 mem ap)

def conversion (mem : Bytes) (room : ℕ) (k : UInt8) (ap : ℕ) : List UInt8 × ℕ :=
  if k = percent then ([percent], ap)
  else
    match kind k with
    | none => ([], ap)
    | some .int =>
      let i := int32At mem ap
      if i.slt 0 then ('-'.toUInt8 :: if room ≤ 1 then [] else printint (room - 1) (magnitude i) 10, ap + 4)
      else (printint room (magnitude i) 10, ap + 4)
    | some .uint => (printint room (get32 mem ap) (base k), ap + 4)
    | some .char => ([mem ap], ap + 1)
    | some .str =>
      let s := get32 mem ap
      (if s = 0 then nullText.take room else bytesTill mem room s, ap + 4)

abbrev Out := List (ℕ × UInt8)

def write : ℕ → List UInt8 → Out → Out
  | _, [], out => out
  | ind, c :: bytes, out => write (ind + 1) bytes ((ind, c) :: out)

inductive Outcome
  | done (out : Out) (ret : ℕ)
  | overread

def vsnprintfFrom (mem : Bytes) (max : ℕ) : List UInt8 → ℕ → ℕ → Out → Outcome
  | [], _, ind, out => .done ((ind, 0) :: out) ind
  | c :: fmt, ap, ind, out =>
    if ¬ind < max then .done ((ind, 0) :: out) ind
    else if c ≠ percent then vsnprintfFrom mem max fmt ap (ind + 1) ((ind, c) :: out)
    else
      match fmt with
      -- the step after the switch goes past the NUL
      | [] => .overread
      | k :: fmt =>
        let (bytes, ap) := conversion mem (max - ind) k ap
        vsnprintfFrom mem max fmt ap (ind + bytes.length) (write ind bytes out)

def vsnprintf (mem : Bytes) (max : ℕ) (fmt : CStr) (ap : ℕ) : Outcome := vsnprintfFrom mem max fmt.bytes ap 0 []

def endsOpen : List UInt8 → Bool
  | [] => false
  | c :: fmt =>
    if c ≠ percent then endsOpen fmt
    else
      match fmt with
      | [] => true
      | _ :: fmt => endsOpen fmt

def numeral (base n : ℕ) : List UInt8 :=
  if n = 0 then [digit 0] else ((Nat.digits base n).map digit).reverse

def intText (i : BitVec 32) : List UInt8 := (if i.slt 0 then ['-'.toUInt8] else []) ++ numeral 10 (magnitude i)

def strText (mem : Bytes) (s : ℕ) : List UInt8 := if s = 0 then nullText else bytesTill mem (2 ^ 32) s

def turn (mem : Bytes) (k : UInt8) (ap : ℕ) : List UInt8 × ℕ :=
  if k = percent then ([percent], ap)
  else
    match kind k with
    | none => ([], ap)
    | some κ =>
      (match κ with
        | .int => intText (int32At mem ap)
        | .uint => numeral (base k) (get32 mem ap)
        | .char => [mem ap]
        | .str => strText mem (get32 mem ap), ap + κ.size)

def text (mem : Bytes) : List UInt8 → ℕ → List UInt8
  | [], _ => []
  | c :: fmt, ap =>
    if c ≠ percent then c :: text mem fmt ap
    else
      match fmt with
      | [] => []
      | k :: fmt => (turn mem k ap).1 ++ text mem fmt (turn mem k ap).2

def stored (out : Out) (i : ℕ) : Option UInt8 := (out.find? fun w => w.1 = i).map Prod.snd

def Stays (max : ℕ) (o : Outcome) : Prop :=
  ∃ out ret, o = .done out ret ∧ (∀ w ∈ out, w.1 < max) ∧ (∃ i < max, stored out i = some 0) ∧ ret < max

section Numerals

variable {base n room : ℕ}

theorem intDigits_eq (hb : 1 < base) (hn : 0 < n) (hlt : n < base ^ room) :
    intDigits base room n = (Nat.digits base n).map digit := by
  induction room generalizing n with
  | zero => exact absurd hlt (Nat.not_lt_of_le hn)
  | succ room ih =>
    rw [Nat.digits_def' hb hn, List.map_cons]
    unfold intDigits
    congr 1
    split_ifs with hq
    · refine ih hq (Nat.div_lt_of_lt_mul ?_)
      rwa [← Nat.pow_succ']
    · rw [Nat.eq_zero_of_not_pos hq, Nat.digits_zero, List.map_nil]

theorem printint_eq {max : ℕ} (hb : 1 < base) (hn : n < 2 ^ 64) : printint max n base = (numeral base n).take max := by
  unfold printint numeral
  split_ifs with hz
  · rw [hz]
    unfold intDigits
    rw [Nat.zero_mod, Nat.zero_div, if_neg (Nat.lt_irrefl 0), List.reverse_singleton]
  · rw [intDigits_eq hb (Nat.pos_of_ne_zero hz) (Nat.lt_of_lt_of_le hn (Nat.pow_le_pow_left hb 64))]

theorem one_lt_base (k : UInt8) : 1 < Print.base k := by
  unfold Print.base
  split_ifs <;> decide

end Numerals

section Scan

variable {mem : Bytes} {max room ind ap s : ℕ} {k : UInt8} {fmt bytes : List UInt8} {out : Out}

theorem bytesTill_take {n : ℕ} (h : room ≤ n) : (bytesTill mem n s).take room = bytesTill mem room s := by
  induction room generalizing n s with
  | zero => rw [List.take_zero, bytesTill]
  | succ room ih =>
    obtain ⟨n, rfl⟩ : ∃ m, n = m + 1 := ⟨n - 1, by omega⟩
    unfold bytesTill
    split_ifs
    · rw [List.take_nil]
    · rw [List.take_succ_cons, ih (Nat.le_of_succ_le_succ h)]

theorem intText_take (i : BitVec 32) : (intText i).take (room + 1) =
    if i.slt 0 then '-'.toUInt8 :: if room + 1 ≤ 1 then [] else printint (room + 1 - 1) (magnitude i) 10
    else printint (room + 1) (magnitude i) 10 := by
  have hmag : magnitude i < 2 ^ 64 := BitVec.isLt _
  unfold intText
  rw [printint_eq (by decide) hmag, printint_eq (by decide) hmag]
  split_ifs with hneg hle
  · obtain rfl : room = 0 := by omega
    rfl
  · rfl
  · rfl

theorem conversion_eq (hroom : 1 ≤ room) (hmax : room ≤ 2 ^ 32) :
    conversion mem room k ap = ((turn mem k ap).1.take room, (turn mem k ap).2) := by
  obtain ⟨room, rfl⟩ : ∃ r, room = r + 1 := ⟨room - 1, by omega⟩
  have hword : get32 mem ap < 2 ^ 64 := Nat.lt_trans Library.Bytes.get32_lt (by decide)
  unfold conversion turn
  by_cases hk : k = percent
  · rw [if_pos hk, if_pos hk, List.take_succ_cons, List.take_nil]
  · rw [if_neg hk, if_neg hk]
    cases kind k with
    | none => rw [List.take_nil]
    | some κ =>
      cases κ with
      | int =>
        dsimp only [Kind.size]
        rw [intText_take]
        split_ifs <;> rfl
      | uint => rw [printint_eq (one_lt_base k) hword]; rfl
      | char => rw [List.take_succ_cons, List.take_nil]; rfl
      | str =>
        dsimp only [Kind.size, strText]
        split_ifs
        · rfl
        · rw [bytesTill_take hmax]

theorem write_append (bytes' : List UInt8) : write ind (bytes ++ bytes') out =
    write (ind + bytes.length) bytes' (write ind bytes out) := by
  induction bytes generalizing ind out with
  | nil => rfl
  | cons c bytes ih =>
    rw [List.cons_append, write, ih, write, List.length_cons, Nat.add_right_comm, Nat.add_assoc]

theorem mem_write {w : ℕ × UInt8} (h : w ∈ write ind bytes out) : w ∈ out ∨ w.1 < ind + bytes.length := by
  induction bytes generalizing ind out with
  | nil => exact .inl h
  | cons c bytes ih =>
    obtain hw | hw := ih h
    · obtain rfl | hw := List.mem_cons.mp hw
      · exact .inr (Nat.lt_add_of_pos_right (Nat.succ_pos _))
      · exact .inl hw
    · rw [List.length_cons]
      exact .inr (by omega)

def outcome (mem : Bytes) (max : ℕ) (fmt : List UInt8) (ap ind : ℕ) (out : Out) : Outcome :=
  let t := text mem fmt ap
  if max ≤ ind + t.length then .done ((max, 0) :: write ind (t.take (max - ind)) out) max
  else if endsOpen fmt then .overread
  else .done ((ind + t.length, 0) :: write ind t out) (ind + t.length)

theorem outcome_step {fmt' : List UInt8} {ap' : ℕ} (htext : text mem fmt ap = bytes ++ text mem fmt' ap')
    (hopen : endsOpen fmt = endsOpen fmt') (hind : ind < max) :
    outcome mem max fmt' ap' (ind + (bytes.take (max - ind)).length) (write ind (bytes.take (max - ind)) out) =
      outcome mem max fmt ap ind out := by
  unfold outcome
  rw [htext, hopen]
  generalize text mem fmt' ap' = t
  dsimp only
  rw [List.length_append]
  by_cases hroom : bytes.length ≤ max - ind
  · rw [List.take_of_length_le hroom, Nat.add_assoc, List.take_append, List.take_of_length_le hroom,
      write_append, write_append, Nat.sub_sub]
  · have hlen : (bytes.take (max - ind)).length = max - ind := List.length_take_of_le (by omega)
    rw [hlen, Nat.add_sub_cancel' (Nat.le_of_lt hind), if_pos (Nat.le_add_right max _), if_pos (by omega),
      Nat.sub_self, List.take_zero, List.take_append_of_le_length (by omega)]
    rfl

theorem text_lit {c : UInt8} (hc : c ≠ percent) : text mem (c :: fmt) ap = c :: text mem fmt ap := by
  conv_lhs => unfold text
  exact if_pos hc

theorem text_conv : text mem (percent :: k :: fmt) ap = (turn mem k ap).1 ++ text mem fmt (turn mem k ap).2 := by
  conv_lhs => unfold text
  exact if_neg (not_not.mpr rfl)

theorem endsOpen_lit {c : UInt8} (hc : c ≠ percent) : endsOpen (c :: fmt) = endsOpen fmt := by
  conv_lhs => unfold endsOpen
  exact if_pos hc

theorem endsOpen_conv : endsOpen (percent :: k :: fmt) = endsOpen fmt := by
  conv_lhs => unfold endsOpen
  exact if_neg (not_not.mpr rfl)

theorem vsnprintfFrom_eq (hmax : max ≤ 2 ^ 32) (hind : ind ≤ max) :
    vsnprintfFrom mem max fmt ap ind out = outcome mem max fmt ap ind out := by
  fun_induction vsnprintfFrom mem max fmt ap ind out with
  | case1 ap ind out =>
    unfold outcome text
    dsimp only
    split_ifs with hfull
    · obtain rfl : ind = max := Nat.le_antisymm hind hfull
      rw [List.take_nil]
      rfl
    · contradiction
    · rfl
  | case2 c fmt ap ind out hfull =>
    obtain rfl : ind = max := Nat.le_antisymm hind (Nat.le_of_not_lt hfull)
    unfold outcome
    dsimp only
    rw [if_pos (Nat.le_add_right ind _), Nat.sub_self, List.take_zero]
    rfl
  | case3 c fmt ap ind out hlt hc ih =>
    have hroom : [c].take (max - ind) = [c] := List.take_of_length_le (by rw [List.length_singleton]; omega)
    have htext : text mem (c :: fmt) ap = [c] ++ text mem fmt ap := text_lit hc
    rw [ih (by omega), ← outcome_step htext (endsOpen_lit hc) (not_not.mp hlt), hroom]
    rfl
  | case4 c ap ind out hlt hc =>
    obtain rfl : c = percent := not_not.mp hc
    have hshort : ¬max ≤ ind + (text mem [percent] ap).length := by
      rw [show text mem [percent] ap = [] from rfl, List.length_nil]
      omega
    unfold outcome
    dsimp only
    rw [if_neg hshort]
    rfl
  | case5 c ap ind out hlt hc k fmt bytes ap' hconv ih =>
    obtain rfl : c = percent := not_not.mp hc
    rw [conversion_eq (by omega) (by omega)] at hconv
    cases hconv
    have hlen : ((turn mem k ap).1.take (max - ind)).length ≤ max - ind := List.length_take_le _ _
    rw [ih (by omega)]
    exact outcome_step text_conv endsOpen_conv (not_not.mp hlt)

theorem outcome_stays : Stays max (outcome mem max fmt ap 0 []) ↔
    (text mem fmt ap).length < max ∧ endsOpen fmt = false := by
  unfold outcome
  dsimp only
  rw [Nat.zero_add]
  split_ifs with hfull hopen
  · constructor
    · rintro ⟨out, ret, he, -, -, hret⟩
      cases he
      exact absurd hret (Nat.lt_irrefl max)
    · exact fun ⟨hlt, _⟩ => absurd hlt (Nat.not_lt_of_le hfull)
  · constructor
    · rintro ⟨out, ret, he, -⟩
      cases he
    · exact fun ⟨_, hclosed⟩ => absurd (hopen.symm.trans hclosed) (by decide)
  · have hlt : (text mem fmt ap).length < max := Nat.lt_of_not_le hfull
    refine ⟨fun _ => ⟨hlt, Bool.eq_false_of_not_eq_true hopen⟩, fun _ => ⟨_, _, rfl, fun w hw => ?_, ?_, hlt⟩⟩
    · obtain rfl | hw := List.mem_cons.mp hw
      · exact hlt
      · obtain hw | hw := mem_write hw
        · cases hw
        · omega
    · refine ⟨_, hlt, ?_⟩
      unfold stored
      rw [List.find?_cons_of_pos (by simp), Option.map_some]

/-- The call stays in its buffer and its format exactly when the whole text fits with its NUL and no
conversion is cut off by the end of the format. -/
theorem vsnprintf_stays_iff (mem : Bytes) (fmt : CStr) (ap : ℕ) (hmax : max < 2 ^ 32) :
    Stays max (vsnprintf mem max fmt ap) ↔ (text mem fmt.bytes ap).length < max ∧ endsOpen fmt.bytes = false := by
  unfold vsnprintf
  rw [vsnprintfFrom_eq hmax.le (Nat.zero_le max)]
  exact outcome_stays

end Scan

/-- An argument as the caller passes it, a string by its address. -/
inductive Arg
  | int (i : BitVec 32)
  | uint (u : BitVec 32)
  | char (c : UInt8)
  | str (s : BitVec 32)

def Arg.kind : Arg → Kind
  | .int _ => .int
  | .uint _ => .uint
  | .char _ => .char
  | .str _ => .str

def Arg.word : Arg → ℕ
  | .int i => i.toNat
  | .uint u => u.toNat
  | .char c => c.toNat
  | .str s => s.toNat

def Laid (mem : Bytes) (ap : ℕ) (args : List Arg) : Prop :=
  ∀ (i : ℕ) (a : Arg), args[i]? = some a → get32 mem (ap + 4 * i) = a.word

def kinds : List UInt8 → List Kind
  | [] => []
  | c :: fmt =>
    if c ≠ percent then kinds fmt
    else
      match fmt with
      | [] => []
      | k :: fmt => (if k = percent then [] else (kind k).toList) ++ kinds fmt

def Arg.text (mem : Bytes) (k : UInt8) : Arg → List UInt8
  | .int i => intText i
  | .uint u => numeral (base k) u.toNat
  | .char c => [c]
  | .str s => strText mem s.toNat

def meant (mem : Bytes) : List UInt8 → List Arg → List UInt8
  | [], _ => []
  | c :: fmt, args =>
    if c ≠ percent then c :: meant mem fmt args
    else
      match fmt with
      | [] => []
      | k :: fmt =>
        if k = percent then percent :: meant mem fmt args
        else
          match kind k, args with
          | some _, a :: args => a.text mem k ++ meant mem fmt args
          | _, args => meant mem fmt args

section Arguments

variable {mem : Bytes} {ap : ℕ} {k : UInt8} {fmt : List UInt8} {a : Arg} {args : List Arg}

theorem kinds_lit {c : UInt8} (hc : c ≠ percent) : kinds (c :: fmt) = kinds fmt := by
  conv_lhs => unfold kinds
  exact if_pos hc

theorem kinds_conv : kinds (percent :: k :: fmt) = (if k = percent then [] else (kind k).toList) ++ kinds fmt := by
  conv_lhs => unfold kinds
  exact if_neg (not_not.mpr rfl)

theorem Laid.head (h : Laid mem ap (a :: args)) : get32 mem ap = a.word := h 0 a rfl

theorem Laid.tail (h : Laid mem ap (a :: args)) : Laid mem (ap + 4) args := by
  intro i b hb
  rw [Nat.add_assoc, show 4 + 4 * i = 4 * (i + 1) by omega]
  exact h (i + 1) b hb

theorem laid_nil : Laid mem ap [] := fun _ _ h => by simp at h

theorem turn_laid (hk : k ≠ percent) (hkind : kind k = some a.kind) (h : get32 mem ap = a.word) :
    turn mem k ap = (a.text mem k, ap + a.kind.size) := by
  unfold turn
  rw [if_neg hk, hkind]
  cases a with
  | int i =>
    have hi : int32At mem ap = i := by
      unfold int32At
      rw [h, Arg.word, BitVec.ofNat_toNat, BitVec.setWidth_eq]
    dsimp only [Arg.kind, Arg.text]
    rw [hi]
  | uint u =>
    dsimp only [Arg.kind, Arg.text]
    rw [h]
    rfl
  | char c =>
    have hc : mem ap = c := by
      have hlt := c.toNat_lt
      apply UInt8.toNat_inj.mp
      unfold get32 Arg.word at h
      dsimp only at h
      omega
    dsimp only [Arg.kind, Arg.text]
    rw [hc]
  | str s =>
    dsimp only [Arg.kind, Arg.text]
    rw [h]
    rfl

theorem text_meant (h : Laid mem ap args) (hmatch : args.map Arg.kind = kinds fmt)
    (hlast : Kind.char ∉ (kinds fmt).dropLast) : text mem fmt ap = meant mem fmt args := by
  fun_induction meant mem fmt args generalizing ap with
  | case1 args => rfl
  | case2 c fmt args hc ih =>
    rw [kinds_lit hc] at hmatch hlast
    rw [text_lit hc, ih h hmatch hlast]
  | case3 c args hc =>
    obtain rfl : c = percent := not_not.mp hc
    rfl
  | case4 c args hc fmt ih =>
    obtain rfl : c = percent := not_not.mp hc
    rw [kinds_conv, if_pos rfl] at hmatch hlast
    rw [text_conv, show turn mem percent ap = ([percent], ap) from rfl, ih h hmatch hlast]
    rfl
  | case5 c hc k fmt hk κ a args hkind ih =>
    obtain rfl : c = percent := not_not.mp hc
    rw [kinds_conv, if_neg hk, hkind, Option.toList_some, List.singleton_append] at hmatch hlast
    obtain ⟨rfl, hrest⟩ := List.cons_eq_cons.mp hmatch
    rw [text_conv, turn_laid hk hkind h.head]
    dsimp only
    rw [← hrest] at hlast
    cases args with
    | nil => rw [ih laid_nil hrest (by rw [← hrest]; simp)]
    | cons b args =>
      rw [List.map_cons, List.dropLast_cons_cons, List.mem_cons, not_or] at hlast
      have hsize : a.kind.size = 4 := by
        cases a with
        | char c => exact absurd rfl hlast.1
        | int i => rfl
        | uint u => rfl
        | str s => rfl
      rw [hsize, ih h.tail hrest (by rw [← hrest]; exact hlast.2)]
  | case6 c hc k fmt hk args hnot ih =>
    obtain rfl : c = percent := not_not.mp hc
    rw [kinds_conv, if_neg hk] at hmatch hlast
    cases hkind : kind k with
    | none =>
      rw [hkind, Option.toList_none, List.nil_append] at hmatch hlast
      have hturn : turn mem k ap = ([], ap) := by
        unfold turn
        rw [if_neg hk, hkind]
      rw [text_conv, hturn, ih h hmatch hlast, List.nil_append]
    | some κ =>
      rw [hkind, Option.toList_some] at hmatch
      obtain ⟨a, args', rfl, -, -⟩ := List.map_eq_cons_iff.mp hmatch
      exact absurd rfl (hnot κ a args' hkind)

end Arguments

def oneLetter : CStr := ⟨['a'.toUInt8], by decide⟩

def onePercent : CStr := ⟨[percent], by decide⟩

def letterNumber : CStr := ⟨[percent, 'c'.toUInt8, percent, 'i'.toUInt8], by decide⟩

def numberLetter : CStr := ⟨[percent, 'i'.toUInt8, percent, 'c'.toUInt8], by decide⟩

def letterFive : Bytes := fun a => if a = 0 then 'x'.toUInt8 else if a = 4 then 5 else 0

def sevenLetter : Bytes := fun a => if a = 0 then 0xf9 else if a < 4 then 0xff else if a = 4 then 'x'.toUInt8 else 0

theorem vsnprintf_stays_number : Stays 4 (vsnprintf sevenLetter 4 numberLetter 0) :=
  (vsnprintf_stays_iff sevenLetter numberLetter 0 (by decide)).mpr ⟨by decide, rfl⟩

theorem full_buffer_overrun : vsnprintf letterFive 1 oneLetter 0 = .done [(1, 0), (0, 'a'.toUInt8)] 1 ∧
    vsnprintf letterFive 8 onePercent 0 = .overread ∧
    (Laid letterFive 0 [.char 'x'.toUInt8, .int 5] ∧ ∃ out, vsnprintf letterFive 4 letterNumber 0 = .done ((4, 0) :: out) 4) ∧
    ¬ ∀ mem max (fmt : CStr) ap args, 1 ≤ max → max < 2 ^ 32 → Laid mem ap args →
      args.map Arg.kind = kinds fmt.bytes → Stays max (vsnprintf mem max fmt ap) := by
  refine ⟨rfl, rfl, ⟨?_, _, rfl⟩, fun h => ?_⟩
  · intro i a ha
    match i with
    | 0 | 1 =>
      cases ha
      rfl
    | i + 2 => simp at ha
  · obtain ⟨out, ret, he, -⟩ := h letterFive 8 onePercent 0 [] (by decide) (by decide) laid_nil rfl
    cases he

end Agatha.User.Print
