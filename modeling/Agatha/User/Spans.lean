import Mathlib.Algebra.GroupWithZero.Nat
import Mathlib.Algebra.Order.Group.Nat
import Mathlib.Algebra.BigOperators.Group.List.Basic
import Mathlib.Tactic.Common

/-!
Where a process maps its frames (`arm/lib/c/addr.c`): spans of addresses, in lists of free and of mapped
ones. Pools are the numbers of their free records. Everything is initialised.
-/

namespace Agatha.User.Spans

structure Span where
  va : ℕ
  len : ℕ

structure L1Span where
  va : ℕ
  len : ℕ
  free : List Span
  mapped : List Span

structure Addrs where
  l1Free : List L1Span
  l1Mapped : List L1Span
  l1SpanPool : ℕ
  spanPool : ℕ

def tableArea : ℕ := 0x100000

def tableAlign (x : ℕ) : ℕ := (x + (tableArea - 1)) % 2 ^ 32 / tableArea * tableArea

/-- The walk of `take_add_span` along the list. -/
def insertSpan (s : Span) : List Span → List Span
  | [] => [s]
  | n :: next => if s.va < n.va then s :: n :: next else n :: insertSpan s next

/-- ... and of `take_add_l1_span`. -/
def insertL1 (s : L1Span) : List L1Span → List L1Span
  | [] => [s]
  | n :: next => if s.va < n.va then s :: n :: next else n :: insertL1 s next

def freeSpans (l1s : List L1Span) : List (ℕ × ℕ × Span) :=
  l1s.zipIdx.flatMap fun l => l.1.free.zipIdx.map fun s => (l.2, s.2, s.1)

def betterSpan (len : ℕ) (best : Option (ℕ × ℕ × Span)) (c : ℕ × ℕ × Span) : Option (ℕ × ℕ × Span) :=
  if len ≤ c.2.2.len ∧ best.all (fun b => c.2.2.len < b.2.2.len) then some c else best

/-- The first loop of `get_free_span_slot`: the first of the shortest free spans that are long enough. -/
def findSpan (len : ℕ) (l1s : List L1Span) : Option (ℕ × ℕ × Span) :=
  (freeSpans l1s).foldl (betterSpan len) none

def betterL1 (len : ℕ) (best : Option (L1Span × ℕ)) (c : L1Span × ℕ) : Option (L1Span × ℕ) :=
  if c.1.len > len ∧ best.all (fun b => c.1.len < b.1.len) then some c else best

def findL1 (len : ℕ) (l1s : List L1Span) : Option (L1Span × ℕ) := l1s.zipIdx.foldl (betterL1 len) none

def L1Span.take (len j : ℕ) (s : Span) (l : L1Span) : L1Span :=
  { l with
    free := if len < s.len then l.free.set j ⟨(s.va + len) % 2 ^ 32, s.len - len⟩ else l.free.eraseIdx j
    mapped := insertSpan ⟨s.va, len⟩ l.mapped }

structure Answers where
  frameInfo : Option ℕ
  requestMemory : Bool
  frameL2Map : Bool
  frameMap : Bool

/-- The rest of `get_free_span_slot` for a new L1 span, once it is in the list. -/
def takeL1 (len : ℕ) (fl : L1Span) (rest : List L1Span) (a : Addrs) : Option ℕ × Addrs :=
  if a.spanPool = 0 then (none, { a with l1Mapped := insertL1 fl rest })
  else if len < fl.len then
    if a.spanPool = 1 then (none, { a with l1Mapped := insertL1 { fl with free := [] } rest, spanPool := 0 })
    else
      let fl := { fl with
        free := [⟨(fl.va + len) % 2 ^ 32, fl.len - len⟩], mapped := insertSpan ⟨fl.va, len⟩ fl.mapped }
      (some fl.va, { a with l1Mapped := insertL1 fl rest, spanPool := a.spanPool - 2 })
  else
    let fl := { fl with free := [], mapped := insertSpan ⟨fl.va, fl.len⟩ fl.mapped }
    (some fl.va, { a with l1Mapped := insertL1 fl rest, spanPool := a.spanPool - 1 })

def getFreeSpanSlot (len : ℕ) (w : Answers) (a : Addrs) : Option ℕ × Addrs :=
  match findSpan len a.l1Mapped with
  | some (i, j, s) =>
    if len < s.len then
      if a.spanPool = 0 then (none, a)
      else (some s.va, { a with l1Mapped := a.l1Mapped.modify i (L1Span.take len j s), spanPool := a.spanPool - 1 })
    else (some s.va, { a with l1Mapped := a.l1Mapped.modify i (L1Span.take len j s) })
  | none =>
    match findL1 len a.l1Free with
    | none => (none, a)
    | some (fl, k) =>
      if w.requestMemory = false ∨ w.frameL2Map = false then (none, a)
      else if tableAlign len < fl.len then
        if a.l1SpanPool = 0 then (none, a)
        else
          takeL1 len { fl with len := tableAlign len } a.l1Mapped
            { a with
              l1Free := a.l1Free.set k ⟨(fl.va + tableAlign len) % 2 ^ 32, fl.len - tableAlign len, [], []⟩
              l1SpanPool := a.l1SpanPool - 1 }
      else takeL1 len fl a.l1Mapped { a with l1Free := a.l1Free.eraseIdx k }

/-- `frame_map_anywhere` behind `check_pools`. -/
def mapFrame (w : Answers) (a : Addrs) : Option ℕ × Addrs :=
  match w.frameInfo with
  | none => (none, a)
  | some len =>
    let (va, a) := getFreeSpanSlot len w a
    (if w.frameMap then va else none, a)

/-- `grow_pool`: the memory, its mapping, and how many records `pool_load` gets out of it if it does. -/
structure Grow where
  requestMemory : Bool
  map : Answers
  poolLoad : Option ℕ

def growPool (g : Grow) (a : Addrs) : Option ℕ × Addrs :=
  if g.requestMemory then
    let (va, a) := mapFrame g.map a
    (va.bind fun _ => g.poolLoad, a)
  else (none, a)

structure Calls where
  l1Grow : Grow
  spanGrow : Grow
  map : Answers

/-- One half of `check_pools`, which does nothing in the calls that it makes itself. -/
def checkPool (low : Bool) (load : ℕ → Addrs → Addrs) (g : Grow) (a : Addrs) : Bool × Addrs :=
  if low then
    match growPool g a with
    | (some n, a) => (true, load n a)
    | (none, a) => (false, a)
  else (true, a)

def checkL1Pool (g : Grow) (a : Addrs) : Bool × Addrs :=
  checkPool (a.l1SpanPool < 3) (fun n a => { a with l1SpanPool := a.l1SpanPool + n }) g a

def checkSpanPool (g : Grow) (a : Addrs) : Bool × Addrs :=
  checkPool (a.spanPool < 4) (fun n a => { a with spanPool := a.spanPool + n }) g a

def frameMapAnywhere (w : Calls) (a : Addrs) : Option ℕ × Addrs :=
  match checkL1Pool w.l1Grow a with
  | (false, a) => (none, a)
  | (true, a) =>
    match checkSpanPool w.spanGrow a with
    | (false, a) => (none, a)
    | (true, a) => mapFrame w.map a

def findMapped (va : ℕ) (a : Addrs) : Option (ℕ × ℕ × Span) :=
  match a.l1Mapped.zipIdx.find? fun l => decide (l.1.va ≤ va ∧ va < (l.1.va + l.1.len) % 2 ^ 32) with
  | none => none
  | some (l, i) => (l.mapped.zipIdx.find? fun s => decide (s.1.va = va)).map fun s => (i, s.2, s.1)

def unmapAddr (va : ℕ) (unmap : Bool) (a : Addrs) : Bool × Addrs :=
  match findMapped va a with
  | none => (false, a)
  | some (i, j, s) =>
    (unmap, { a with l1Mapped := a.l1Mapped.modify i fun l =>
      { l with free := insertSpan s l.free, mapped := l.mapped.eraseIdx j } })

def Same (a a' : Addrs) : Prop := a'.l1Free = a.l1Free ∧ a'.l1Mapped = a.l1Mapped

inductive Op
  | map (w : Calls)
  | unmap (va : ℕ) (frameUnmap : Bool)

def Clean (a : Addrs) : Op → Prop
  | .map w => (frameMapAnywhere w a).1 = none → Same a (frameMapAnywhere w a).2
  | .unmap va frameUnmap => (unmapAddr va frameUnmap a).1 = false → Same a (unmapAddr va frameUnmap a).2

def TakesSpan (len : ℕ) (w : Answers) (a : Addrs) : Prop :=
  match findSpan len a.l1Mapped with
  | some (_, _, s) => len < s.len → a.spanPool ≠ 0
  | none =>
    match findL1 len a.l1Free with
    | some (fl, _) => w.requestMemory ∧ w.frameL2Map ∧ (tableAlign len < fl.len → a.l1SpanPool ≠ 0)
    | none => False

def HasRecords (len : ℕ) (a : Addrs) : Prop :=
  match findSpan len a.l1Mapped with
  | some _ => True
  | none =>
    match findL1 len a.l1Free with
    | some (fl, _) => a.spanPool ≠ 0 ∧ (len < min (tableAlign len) fl.len → a.spanPool ≠ 1)
    | none => True

def Starts (w : Answers) (a : Addrs) : Prop := ∃ len, w.frameInfo = some len ∧ TakesSpan len w a

def Completes (w : Answers) (a : Addrs) : Prop :=
  ∃ len, w.frameInfo = some len ∧ TakesSpan len w a ∧ HasRecords len a ∧ w.frameMap

def Grow.Starts (g : Grow) (a : Addrs) : Prop := g.requestMemory ∧ Spans.Starts g.map a

def Grow.Completes (g : Grow) (a : Addrs) : Prop := g.requestMemory ∧ Spans.Completes g.map a ∧ g.poolLoad.isSome

def Nothing (w : Calls) (a : Addrs) : Prop :=
  if a.l1SpanPool < 3 then ¬ w.l1Grow.Starts a
  else if a.spanPool < 4 then ¬ w.spanGrow.Starts a
  else ¬ Starts w.map a

def Everything (w : Calls) (a : Addrs) : Prop :=
  (a.l1SpanPool < 3 → w.l1Grow.Completes a) ∧
    ((checkL1Pool w.l1Grow a).2.spanPool < 4 → w.spanGrow.Completes (checkL1Pool w.l1Grow a).2) ∧
    Completes w.map (checkSpanPool w.spanGrow (checkL1Pool w.l1Grow a).2).2

def Clear (a : Addrs) : Op → Prop
  | .map w => Nothing w a ∨ Everything w a
  | .unmap va frameUnmap => findMapped va a = none ∨ frameUnmap = true

def Addrs.mappings (a : Addrs) : ℕ := (a.l1Mapped.map fun l => l.mapped.length + 1).sum

section Counts

variable {len : ℕ} {w : Answers} {a : Addrs} {l1s : List L1Span}

theorem length_insertSpan (s : Span) (l : List Span) : (insertSpan s l).length = l.length + 1 := by
  induction l with
  | nil => rfl
  | cons n next ih =>
    unfold insertSpan
    split_ifs <;> simp [ih]

theorem sum_insertL1 (s : L1Span) (l : List L1Span) :
    ((insertL1 s l).map fun l => l.mapped.length + 1).sum =
      s.mapped.length + 1 + (l.map fun l => l.mapped.length + 1).sum := by
  induction l with
  | nil => rfl
  | cons n next ih =>
    unfold insertL1
    split_ifs
    · simp
    · simp only [List.map_cons, List.sum_cons, ih]
      omega

theorem sum_modify {f : L1Span → L1Span} {l : L1Span} {i n m : ℕ} (hl : l1s[i]? = some l)
    (hf : (f l).mapped.length + m = l.mapped.length + n) :
    ((l1s.modify i f).map fun l => l.mapped.length + 1).sum + m =
      (l1s.map fun l => l.mapped.length + 1).sum + n := by
  induction l1s generalizing i with
  | nil => simp at hl
  | cons l' next ih =>
    cases i with
    | zero =>
      cases hl
      simp only [List.modify_zero_cons, List.map_cons, List.sum_cons]
      omega
    | succ i =>
      have hrec := ih (by simpa using hl)
      simp only [List.modify_succ_cons, List.map_cons, List.sum_cons]
      omega

theorem foldl_mem {α : Type} {f : Option α → α → Option α} (hf : ∀ best c, f best c = some c ∨ f best c = best)
    {l : List α} {best : Option α} {x : α} (h : l.foldl f best = some x) : x ∈ l ∨ best = some x := by
  induction l generalizing best with
  | nil => exact .inr h
  | cons c l ih =>
    obtain hm | hbest := ih h
    · exact .inl (List.mem_cons_of_mem c hm)
    · obtain hc | hc := hf best c
      · rw [hc] at hbest
        cases hbest
        exact .inl List.mem_cons_self
      · exact .inr (hc ▸ hbest)

theorem findSpan_mem {i j : ℕ} {s : Span} (h : findSpan len l1s = some (i, j, s)) : ∃ l, l1s[i]? = some l := by
  have hf : ∀ best c, betterSpan len best c = some c ∨ betterSpan len best c = best := by
    intro best c
    unfold betterSpan
    split_ifs
    · exact .inl rfl
    · exact .inr rfl
  obtain hm | hn := foldl_mem hf h
  · obtain ⟨⟨l, i'⟩, hl, hs⟩ := List.mem_flatMap.mp hm
    obtain ⟨x, -, he⟩ := List.mem_map.mp hs
    cases he
    exact ⟨l, List.mem_zipIdx_iff_getElem?.mp hl⟩
  · cases hn

theorem takeL1_mappings (fl : L1Span) (rest : List L1Span) :
    (rest.map fun l => l.mapped.length + 1).sum < (takeL1 len fl rest a).2.mappings := by
  unfold takeL1 Addrs.mappings
  split_ifs <;> simp only [sum_insertL1] <;> omega

theorem takeL1_isSome (fl : L1Span) (rest : List L1Span) : (takeL1 len fl rest a).1 ≠ none ↔
    a.spanPool ≠ 0 ∧ (len < fl.len → a.spanPool ≠ 1) := by
  unfold takeL1
  split_ifs <;> simp_all

theorem slot_cases (len : ℕ) (w : Answers) (a : Addrs) :
    ¬ TakesSpan len w a ∧ getFreeSpanSlot len w a = (none, a) ∨
      TakesSpan len w a ∧ a.mappings < (getFreeSpanSlot len w a).2.mappings ∧
        ((getFreeSpanSlot len w a).1 ≠ none ↔ HasRecords len a) := by
  unfold TakesSpan HasRecords getFreeSpanSlot
  cases hspan : findSpan len a.l1Mapped with
  | some x =>
    obtain ⟨i, j, s⟩ := x
    obtain ⟨l, hl⟩ := findSpan_mem hspan
    have hmore : (a.l1Mapped.map fun l => l.mapped.length + 1).sum <
        ((a.l1Mapped.modify i (L1Span.take len j s)).map fun l => l.mapped.length + 1).sum := by
      have hsum := sum_modify (f := L1Span.take len j s) (n := 1) (m := 0) hl (length_insertSpan _ _)
      omega
    dsimp only
    split_ifs with hsplit hpool
    · exact .inl ⟨fun h => h hsplit hpool, rfl⟩
    · exact .inr ⟨fun _ => hpool, hmore, by simp⟩
    · exact .inr ⟨fun h => absurd h hsplit, hmore, by simp⟩
  | none =>
    cases hl1 : findL1 len a.l1Free with
    | none => exact .inl ⟨id, rfl⟩
    | some x =>
      obtain ⟨fl, k⟩ := x
      dsimp only
      split_ifs with hcalls hsplit hpool
      · refine .inl ⟨fun h => ?_, rfl⟩
        obtain hr | hm := hcalls
        · exact absurd (hr.symm.trans h.1) (by decide)
        · exact absurd (hm.symm.trans h.2.1) (by decide)
      · exact .inl ⟨fun h => h.2.2 hsplit hpool, rfl⟩
      · obtain ⟨hr, hm⟩ := not_or.mp hcalls
        refine .inr ⟨⟨by simpa using hr, by simpa using hm, fun _ => hpool⟩, takeL1_mappings .., ?_⟩
        rw [takeL1_isSome, Nat.min_eq_left hsplit.le]
      · obtain ⟨hr, hm⟩ := not_or.mp hcalls
        refine .inr ⟨⟨by simpa using hr, by simpa using hm, fun h => absurd h hsplit⟩, takeL1_mappings .., ?_⟩
        rw [takeL1_isSome, Nat.min_eq_right (Nat.not_lt.mp hsplit)]

theorem mapFrame_cases (w : Answers) (a : Addrs) :
    ¬ Starts w a ∧ mapFrame w a = (none, a) ∨
      Starts w a ∧ a.mappings < (mapFrame w a).2.mappings ∧ ((mapFrame w a).1 ≠ none ↔ Completes w a) := by
  unfold Completes Starts mapFrame
  cases w.frameInfo with
  | none => simp
  | some len =>
    have hlen (P : ℕ → Prop) : (∃ n, some len = some n ∧ P n) ↔ P len := by simp
    rw [hlen, hlen fun n => TakesSpan n w a ∧ HasRecords n a ∧ w.frameMap]
    dsimp only
    obtain ⟨hnot, hnone⟩ | ⟨htakes, hmore, hrecords⟩ := slot_cases len w a
    · exact .inl ⟨hnot, by simp [hnone]⟩
    · refine .inr ⟨htakes, hmore, ?_⟩
      rw [← hrecords]
      cases w.frameMap <;> simp [htakes]

theorem growPool_cases (g : Grow) (a : Addrs) :
    ¬ g.Starts a ∧ growPool g a = (none, a) ∨
      g.Starts a ∧ a.mappings < (growPool g a).2.mappings ∧ ((growPool g a).1 ≠ none ↔ g.Completes a) := by
  unfold Grow.Starts Grow.Completes growPool
  cases g.requestMemory with
  | false => simp
  | true =>
    obtain ⟨hnot, hnone⟩ | ⟨hstarts, hmore, hcompletes⟩ := mapFrame_cases g.map a
    · exact .inl ⟨fun h => hnot h.2, by simp [hnone]⟩
    · refine .inr ⟨⟨rfl, hstarts⟩, hmore, ?_⟩
      rw [← hcompletes]
      cases hm : mapFrame g.map a with
      | mk va a' => cases va <;> simp [Option.isSome_iff_ne_none]

end Counts

section Calls

variable {w : Calls} {g : Grow} {a : Addrs}

structure Checked (low : Prop) (g : Grow) (a : Addrs) (r : Bool × Addrs) : Prop where
  idle : ¬ low → r = (true, a)
  nothing : low → ¬ g.Starts a → r = (false, a)
  starts : low → g.Starts a → a.mappings < r.2.mappings
  completes : r.1 = true ↔ (low → g.Completes a)

theorem Grow.Completes.starts (h : g.Completes a) : g.Starts a := by
  obtain ⟨hr, ⟨len, hl, ht, -, -⟩, -⟩ := h
  exact ⟨hr, len, hl, ht⟩

theorem checkPool_checked {low : Bool} {load : ℕ → Addrs → Addrs} (hload : ∀ n a, (load n a).mappings = a.mappings) :
    Checked (low = true) g a (checkPool low load g a) := by
  unfold checkPool
  cases low with
  | false => exact ⟨fun _ => rfl, (fun h => by cases h), (fun h => by cases h), iff_of_true rfl (fun h => by cases h)⟩
  | true =>
    rw [if_pos rfl]
    obtain ⟨hnot, hnone⟩ | ⟨hstarts, hmore, hcompletes⟩ := growPool_cases g a
    · rw [hnone]
      exact ⟨fun h => absurd rfl h, fun _ _ => rfl, fun _ h => absurd h hnot,
        iff_of_false (by simp) fun h => hnot (h rfl).starts⟩
    · obtain ⟨n, a', hg⟩ : ∃ n a', growPool g a = (n, a') := ⟨_, _, rfl⟩
      rw [hg] at hmore hcompletes ⊢
      refine ⟨fun h => absurd rfl h, fun _ h => absurd hstarts h, fun _ _ => ?_, ?_⟩
      · cases n with
        | none => exact hmore
        | some n => exact hmore.trans_eq (hload n a').symm
      · cases n <;> simpa using hcompletes

theorem checkL1Pool_checked (g : Grow) (a : Addrs) : Checked (a.l1SpanPool < 3) g a (checkL1Pool g a) := by
  have h : Checked (decide (a.l1SpanPool < 3) = true) g a (checkL1Pool g a) := checkPool_checked fun _ _ => rfl
  rwa [decide_eq_true_iff] at h

theorem checkSpanPool_checked (g : Grow) (a : Addrs) : Checked (a.spanPool < 4) g a (checkSpanPool g a) := by
  have h : Checked (decide (a.spanPool < 4) = true) g a (checkSpanPool g a) := checkPool_checked fun _ _ => rfl
  rwa [decide_eq_true_iff] at h

theorem Checked.mappings_le {low : Prop} {r : Bool × Addrs} (h : Checked low g a r) : a.mappings ≤ r.2.mappings := by
  by_cases hlow : low
  · by_cases hs : g.Starts a
    · exact (h.starts hlow hs).le
    · rw [h.nothing hlow hs]
  · rw [h.idle hlow]

theorem mapFrame_mappings_le (w : Answers) (a : Addrs) : a.mappings ≤ (mapFrame w a).2.mappings := by
  obtain ⟨-, hnone⟩ | ⟨-, hmore, -⟩ := mapFrame_cases w a
  · rw [hnone]
  · exact hmore.le

theorem Same.mappings {a' : Addrs} (h : Same a a') : a'.mappings = a.mappings := by
  unfold Addrs.mappings
  rw [h.2]

theorem everything_iff (w : Calls) (a : Addrs) : Everything w a ↔ (frameMapAnywhere w a).1 ≠ none := by
  have h1 := (checkL1Pool_checked w.l1Grow a).completes
  unfold Everything frameMapAnywhere
  rw [← h1]
  obtain ⟨ok, a1, he⟩ : ∃ ok a1, checkL1Pool w.l1Grow a = (ok, a1) := ⟨_, _, rfl⟩
  rw [he]
  cases ok with
  | false => simp
  | true =>
    have h2 := (checkSpanPool_checked w.spanGrow a1).completes
    dsimp only
    rw [← h2]
    obtain ⟨ok, a2, he⟩ : ∃ ok a2, checkSpanPool w.spanGrow a1 = (ok, a2) := ⟨_, _, rfl⟩
    rw [he]
    cases ok with
    | false => simp
    | true =>
      obtain ⟨hnot, hnone⟩ | ⟨-, -, hcompletes⟩ := mapFrame_cases w.map a2
      · have : ¬ Completes w.map a2 := fun ⟨len, hl, ht, _⟩ => hnot ⟨len, hl, ht⟩
        simp [hnone, this]
      · simp [hcompletes]

theorem mappings_le_of_spanPool {a1 : Addrs} (h : checkL1Pool w.l1Grow a = (true, a1)) :
    (checkSpanPool w.spanGrow a1).2.mappings ≤ (frameMapAnywhere w a).2.mappings := by
  unfold frameMapAnywhere
  rw [h]
  dsimp only
  obtain ⟨ok, a2, he⟩ : ∃ ok a2, checkSpanPool w.spanGrow a1 = (ok, a2) := ⟨_, _, rfl⟩
  rw [he]
  cases ok with
  | false => exact Nat.le_refl _
  | true => exact mapFrame_mappings_le w.map a2

theorem mappings_le_of_l1SpanPool (w : Calls) (a : Addrs) :
    (checkL1Pool w.l1Grow a).2.mappings ≤ (frameMapAnywhere w a).2.mappings := by
  obtain ⟨ok, a1, he⟩ : ∃ ok a1, checkL1Pool w.l1Grow a = (ok, a1) := ⟨_, _, rfl⟩
  cases ok with
  | false =>
    unfold frameMapAnywhere
    rw [he]
  | true =>
    have hle := mappings_le_of_spanPool he
    rw [he]
    exact (checkSpanPool_checked w.spanGrow a1).mappings_le.trans hle

theorem nothing_cases (w : Calls) (a : Addrs) :
    Nothing w a ∧ Same a (frameMapAnywhere w a).2 ∨
      ¬ Nothing w a ∧ a.mappings < (frameMapAnywhere w a).2.mappings := by
  have h1 := checkL1Pool_checked w.l1Grow a
  have h2 := checkSpanPool_checked w.spanGrow a
  unfold Nothing
  by_cases hlow : a.l1SpanPool < 3
  · rw [if_pos hlow]
    by_cases hs : w.l1Grow.Starts a
    · refine .inr ⟨not_not.mpr hs, ?_⟩
      exact (h1.starts hlow hs).trans_le (mappings_le_of_l1SpanPool w a)
    · refine .inl ⟨hs, ?_⟩
      unfold frameMapAnywhere
      rw [h1.nothing hlow hs]
      exact ⟨rfl, rfl⟩
  · rw [if_neg hlow]
    have hidle := h1.idle hlow
    by_cases hlow' : a.spanPool < 4
    · rw [if_pos hlow']
      by_cases hs : w.spanGrow.Starts a
      · refine .inr ⟨not_not.mpr hs, ?_⟩
        exact (h2.starts hlow' hs).trans_le (mappings_le_of_spanPool hidle)
      · refine .inl ⟨hs, ?_⟩
        unfold frameMapAnywhere
        rw [hidle]
        dsimp only
        rw [h2.nothing hlow' hs]
        exact ⟨rfl, rfl⟩
    · rw [if_neg hlow']
      have hidle' := h2.idle hlow'
      unfold frameMapAnywhere
      rw [hidle]
      dsimp only
      rw [hidle']
      obtain ⟨hnot, hnone⟩ | ⟨hstarts, hmore, -⟩ := mapFrame_cases w.map a
      · refine .inl ⟨hnot, ?_⟩
        dsimp only
        rw [hnone]
        exact ⟨rfl, rfl⟩
      · exact .inr ⟨not_not.mpr hstarts, hmore⟩

theorem clean_map_iff (w : Calls) (a : Addrs) : Clean a (.map w) ↔ Clear a (.map w) := by
  show ((frameMapAnywhere w a).1 = none → Same a (frameMapAnywhere w a).2) ↔ Nothing w a ∨ Everything w a
  rw [everything_iff]
  constructor
  · intro h
    by_cases hnil : (frameMapAnywhere w a).1 = none
    · left
      obtain ⟨hnothing, -⟩ | ⟨-, hmore⟩ := nothing_cases w a
      · exact hnothing
      · exact absurd (h hnil).mappings hmore.ne'
    · exact .inr hnil
  · rintro (hnothing | hne) hnil
    · obtain ⟨-, hsame⟩ | ⟨hnot, -⟩ := nothing_cases w a
      · exact hsame
      · exact absurd hnothing hnot
    · exact absurd hnil hne

theorem findMapped_mem {va i j : ℕ} {s : Span} (h : findMapped va a = some (i, j, s)) :
    ∃ l, a.l1Mapped[i]? = some l ∧ l.mapped[j]? = some s := by
  unfold findMapped at h
  cases hl : a.l1Mapped.zipIdx.find? fun l => decide (l.1.va ≤ va ∧ va < (l.1.va + l.1.len) % 2 ^ 32) with
  | none =>
    rw [hl] at h
    cases h
  | some x =>
    obtain ⟨l, i'⟩ := x
    rw [hl] at h
    obtain ⟨⟨s', j'⟩, hs, he⟩ := Option.map_eq_some_iff.mp h
    cases he
    exact ⟨l, List.mem_zipIdx_iff_getElem?.mp (List.mem_of_find?_eq_some hl),
      List.mem_zipIdx_iff_getElem?.mp (List.mem_of_find?_eq_some hs)⟩

theorem clean_unmap_iff (va : ℕ) (frameUnmap : Bool) (a : Addrs) :
    Clean a (.unmap va frameUnmap) ↔ Clear a (.unmap va frameUnmap) := by
  show ((unmapAddr va frameUnmap a).1 = false → Same a (unmapAddr va frameUnmap a).2) ↔
    findMapped va a = none ∨ frameUnmap = true
  unfold unmapAddr
  cases hfind : findMapped va a with
  | none => exact iff_of_true (fun _ => ⟨rfl, rfl⟩) (.inl rfl)
  | some x =>
    obtain ⟨i, j, s⟩ := x
    obtain ⟨l, hl, hs⟩ := findMapped_mem hfind
    obtain ⟨hj, -⟩ := List.getElem?_eq_some_iff.mp hs
    cases frameUnmap with
    | true => simp
    | false =>
      -- the span is not on the list of the mapped ones any more
      refine iff_of_false (fun h => ?_) (by simp)
      have hsame := (h rfl).mappings
      have hlen : (l.mapped.eraseIdx j).length + 1 = l.mapped.length + 0 := by
        rw [List.length_eraseIdx_of_lt hj]
        omega
      have hsum := sum_modify (f := fun l => { l with free := insertSpan s l.free, mapped := l.mapped.eraseIdx j })
        hl hlen
      unfold Addrs.mappings at hsame
      dsimp only at hsame
      omega

theorem addrs_clean_iff (a : Addrs) (op : Op) : Clean a op ↔ Clear a op := by
  cases op with
  | map w => exact clean_map_iff w a
  | unmap va frameUnmap => exact clean_unmap_iff va frameUnmap a

theorem failed_map_keeps_span : ¬ Clean
    ⟨[], [⟨0, 0x100000, [⟨0x2000, 0x10000⟩], [⟨0x1000, 0x1000⟩]⟩], 3, 4⟩
    (.map ⟨⟨false, ⟨none, false, false, false⟩, none⟩, ⟨false, ⟨none, false, false, false⟩, none⟩,
      ⟨some 0x1000, true, true, false⟩⟩) :=
  fun h => absurd (h rfl).mappings (by decide)

end Calls

end Agatha.User.Spans
