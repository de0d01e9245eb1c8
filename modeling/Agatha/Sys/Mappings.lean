import Agatha.Sys.CapabilityFrames
import Agatha.Sys.Walks
import Agatha.Sys.WindowRuns

namespace Agatha.Sys

open Kernel Library Library.Bytes Library.Areas

def windowAfter : List ℕ → ℕ → ℕ
  | [], va => va
  | len :: lens, va => windowAfter lens (windowBase len va + len)

def Placeable (vaMax : ℕ) : List ℕ → ℕ → Prop
  | [], _ => True
  | len :: lens, va => windowBase len va + len < vaMax ∧ Placeable vaMax lens (windowBase len va + len)

def Within (r : ℕ × ℕ) (x : ℕ) : Prop := r.1 ≤ x ∧ x < r.1 + r.2

theorem within_iff {a n x : ℕ} : Within (a, n) x ↔ a ≤ x ∧ x < a + n := Iff.rfl

def Machine.entries (m : Machine) (va len : ℕ) : ℕ × ℕ := (m.windowTable va + 4 * l2x va, 4 * pageCount len)

def Machine.Vacant (m : Machine) : Prop :=
  ∀ va, m.vaNext ≤ va → va < m.vaMax → ∀ b < 4, m.phys (m.windowTable va + 4 * l2x va + b) = 0

structure Shows (m₀ : Machine) (P : Bytes) (held : List (ℕ × ℕ)) (m : Machine) : Prop where
  kernel : m.kernel = m₀.kernel
  l1 : m.kernelL1 = m₀.kernelL1
  l2 : m.kernelL2 = m₀.kernelL2
  window : Bumped m []
  next : m₀.vaNext ≤ m.vaNext
  phys : ∀ x, (∀ r ∈ held, ¬ Within r x) → m.phys x = P x
  held : ∀ r ∈ held, ∀ x, Within r x → m₀.InWindow x ∧ m₀.phys x = 0

def Ending.Lost (x : Ending) : Prop := x = .panic ∨ x = .astray

section Window

variable {m₀ m m' : Machine} {P phys : Bytes} {held : List (ℕ × ℕ)} {va vaMax len pa x n l2 : ℕ} {cache : Bool}
  {lens lens' : List ℕ}

theorem placeable_append : Placeable vaMax (lens ++ lens') va ↔ Placeable vaMax lens va ∧ Placeable vaMax lens' (windowAfter lens va) := by
  induction lens generalizing va with
  | nil => exact (iff_of_eq (true_and _)).symm
  | cons len lens ih =>
    change _ ∧ Placeable vaMax (lens ++ lens') _ ↔ _
    rw [ih, ← and_assoc]
    rfl

theorem unmapPages_inside (h1 : l2 + 4 * l2x va ≤ x) (h2 : x < l2 + 4 * (l2x va + n)) :
    unmapPages l2 va n phys x = 0 := by
  induction n with
  | zero => omega
  | succ n ih =>
    unfold unmapPages
    by_cases hx : l2 + 4 * (l2x va + n) ≤ x
    · exact put32_zero x hx (by omega)
    · rw [put32_outside x (by omega)]
      exact ih (by omega)

structure Paged (len : ℕ) : Prop where
  pages : len % 4096 = 0
  pos : 0 < len
  small : len < 2 ^ 20

theorem Paged.align (h : Paged len) : pageAlign len = len := by
  obtain ⟨pages, pos, small⟩ := h
  unfold pageAlign
  omega

theorem Paged.room (h : Paged len) (hfit : windowBase len m.vaNext + len < m.vaMax) : m.Room 0 len := by
  have halign := h.align
  obtain ⟨pages, pos, small⟩ := h
  exact ⟨by omega, by omega, by omega, by rw [halign]; exact hfit⟩

theorem kernelMap_placeable (hw : Bumped m []) (hl : Paged len) (hfit : windowBase len m.vaNext + len < m.vaMax) :
    kernelMap pa len cache m = .here (windowBase len m.vaNext + pa % 4096)
      { m with
        vaNext := windowBase len m.vaNext + len
        phys := mapPages (m.windowTable (windowBase len m.vaNext)) (pa - pa % 4096) (windowBase len m.vaNext) apRwNo
          cache (pageCount len) m.phys } := by
  have hplace := hw.windowPlace_room (hl.room hfit)
  obtain ⟨above, below, table, aligned⟩ := hw.placed (hl.room hfit)
  rw [hl.align] at hplace below table above aligned
  obtain ⟨vaMin, vaMax, low, high, -, -⟩ := hw
  obtain ⟨pages, pos, small⟩ := hl
  have hcount : m.tableCount = 15 := by
    unfold Machine.tableCount
    omega
  generalize windowBase len m.vaNext = base at *
  have hin : ¬ (l1x base < l1x m.vaMin ∨ m.tableCount ≤ l1x base - l1x m.vaMin ∨ 1024 < l2x base + pageCount len) := by
    rw [hcount, vaMin]
    unfold l1x l2x pageCount
    omega
  have halign : pageAlign len = len := by
    unfold pageAlign
    omega
  have hnext : (base + len) % 2 ^ 32 = base + len := Nat.mod_eq_of_lt (by omega)
  unfold kernelMap
  simp only [halign, hplace]
  rw [if_neg hin, hnext]

theorem kernelMap_lost (hw : Bumped m []) (hl : Paged len) (hfit : ¬ windowBase len m.vaNext + len < m.vaMax)
    (f : ℕ → Machine → Ending) : ((kernelMap pa len cache m).andThen f).Lost := by
  have halign := hl.align
  obtain ⟨vaMin, vaMax, low, high, -, -⟩ := hw
  obtain ⟨pages, pos, small⟩ := hl
  have hcount : m.tableCount = 15 := by
    unfold Machine.tableCount
    omega
  unfold kernelMap
  simp only [halign]
  cases hp : windowPlace m.vaMax len m.vaNext with
  | none => exact .inl rfl
  | some y =>
    simp only
    split_ifs with hbad
    · exact .inr rfl
    · exfalso
      rw [hcount, vaMin] at hbad
      unfold windowBase at hfit
      unfold windowPlace at hp
      simp only at hp
      unfold l1x l2x at *
      rw [vaMax] at hp hfit high
      split_ifs at hp with h1 h2 h3
      · obtain rfl := Option.some.inj hp
        rw [if_neg (by omega)] at hfit
        omega
      · obtain rfl := Option.some.inj hp
        rw [if_pos (by omega)] at hfit
        omega

theorem Shows.tables (va : ℕ) (h₀ : Bumped m₀ []) (h : Shows m₀ P held m) : m.vaMin = m₀.vaMin ∧ m.vaMax = m₀.vaMax ∧
    m.tableCount = 15 ∧ m₀.tableCount = 15 ∧ m.windowTable va = m₀.windowTable va := by
  obtain ⟨vaMin, vaMax, -⟩ := h.window
  obtain ⟨vaMin₀, vaMax₀, -⟩ := h₀
  refine ⟨vaMin.trans vaMin₀.symm, vaMax.trans vaMax₀.symm, ?_, ?_, ?_⟩
  · unfold Machine.tableCount
    omega
  · unfold Machine.tableCount
    omega
  · unfold Machine.windowTable
    rw [h.l2, vaMin, vaMin₀]

theorem Shows.map (pa : ℕ) (cache : Bool) (h₀ : Bumped m₀ []) (hv : m₀.Vacant) (h : Shows m₀ P held m) (hl : Paged len)
    (hfit : windowBase len m.vaNext + len < m.vaMax) : ∃ va m', kernelMap pa len cache m = .here va m' ∧
      Shows m₀ P (m₀.entries va len :: held) m' ∧ m'.vaNext = windowBase len m.vaNext + len := by
  refine ⟨_, _, kernelMap_placeable h.window hl hfit, ?_, rfl⟩
  obtain ⟨above, below, table, aligned⟩ := h.window.placed (hl.room hfit)
  rw [hl.align] at below table above aligned
  have hnext := h.next
  obtain ⟨hmin, hmax, -, hcount, -⟩ := h.tables 0 h₀
  have htable : m.windowTable (windowBase len m.vaNext) = m₀.windowTable (windowBase len m.vaNext) :=
    (h.tables _ h₀).2.2.2.2
  obtain ⟨vaMin, vaMax, low, high, haligned, -⟩ := h.window
  obtain ⟨pages, pos, small⟩ := hl
  generalize windowBase len m.vaNext = base at *
  have hentries : m₀.entries (base + pa % 4096) len = (m₀.windowTable base + 4 * l2x base, 4 * pageCount len) := by
    unfold Machine.entries Machine.windowTable
    rw [l1x_within aligned, l2x_within aligned]
  rw [hentries]
  have hpage : ∀ k < pageCount len, l1x (base + 4096 * k) = l1x base ∧ l2x (base + 4096 * k) = l2x base + k := by
    intro k hk
    unfold pageCount at hk
    unfold l1x l2x
    omega
  refine ⟨h.kernel, h.l1, h.l2, ⟨vaMin, vaMax, ?_, ?_, ?_, nofun⟩, ?_, fun x hx => ?_, fun r hr x hx => ?_⟩
  · exact low.trans (above.trans (Nat.le_add_right _ _))
  · change base + len ≤ m.vaMax
    omega
  · change (base + len) % 4096 = 0
    omega
  · exact hnext.trans (above.trans (Nat.le_add_right _ _))
  · have hout := hx _ List.mem_cons_self
    unfold Within at hout
    simp only at hout
    rw [← htable] at hout
    change mapPages (m.windowTable base) _ base apRwNo cache (pageCount len) m.phys x = P x
    rw [mapPages_outside (by omega)]
    exact h.phys x fun r hr => hx r (List.mem_cons_of_mem _ hr)
  · rcases List.mem_cons.mp hr with rfl | hr
    · obtain ⟨h1, h2⟩ := hx
      simp only at h1 h2
      obtain ⟨k, b, hb, rfl⟩ : ∃ k b, b < 4 ∧ x = m₀.windowTable base + 4 * l2x base + (4 * k + b) :=
        ⟨(x - (m₀.windowTable base + 4 * l2x base)) / 4, (x - (m₀.windowTable base + 4 * l2x base)) % 4,
          by omega, by omega⟩
      have hk : k < pageCount len := by omega
      obtain ⟨h3, h4⟩ := hpage k hk
      have hin : base + 4096 * k < base + len := by
        unfold pageCount at hk
        omega
      constructor
      · unfold Machine.InWindow Machine.windowTable
        rw [hcount, ← hmin, vaMin]
        have hlow : l1x 0xff000000 ≤ l1x base ∧ l1x base < l1x 0xff000000 + 15 := by
          unfold l1x
          omega
        have hl2 : l2x (base + 4096 * k) < 256 := Nat.mod_lt _ (by decide)
        omega
      · have hzero := hv (base + 4096 * k) (by omega) (by omega) b hb
        unfold Machine.windowTable at hzero ⊢
        rw [h3, h4] at hzero
        rw [← hzero]
        congr 1
        omega
    · exact h.held r hr x hx

theorem Shows.unmap (h₀ : Bumped m₀ []) (hP : ∀ x, m₀.InWindow x → P x = m₀.phys x)
    (h : Shows m₀ P (m₀.entries va len :: held) m) : Shows m₀ P held (kernelUnmap va len m) := by
  have htable : m.windowTable va = m₀.windowTable va := (h.tables _ h₀).2.2.2.2
  obtain ⟨vaMin, vaMax, low, high, aligned, -⟩ := h.window
  refine ⟨h.kernel, h.l1, h.l2, ⟨vaMin, vaMax, low, high, aligned, nofun⟩, h.next, fun x hx => ?_,
    fun r hr => h.held r (List.mem_cons_of_mem _ hr)⟩
  change unmapPages (m.windowTable va) va (pageCount len) m.phys x = P x
  by_cases hin : Within (m₀.entries va len) x
  · obtain ⟨hwindow, hzero⟩ := h.held _ List.mem_cons_self x hin
    obtain ⟨h1, h2⟩ := hin
    unfold Machine.entries at h1 h2
    simp only at h1 h2
    rw [unmapPages_inside (by omega) (by omega), hP x hwindow, hzero]
  · have hout := hin
    unfold Within Machine.entries at hout
    simp only at hout
    rw [unmapPages_outside (by omega)]
    apply h.phys
    intro r hr
    rcases List.mem_cons.mp hr with rfl | hr
    · exact hin
    · exact hx r hr

theorem Shows.get32 (h : Shows m₀ P held m) (hx : ∀ b < 4, ¬ m₀.InWindow (x + b)) : m.phys.get32 x = P.get32 x := by
  apply get32_congr
  intro i h1 h2
  apply h.phys
  intro r hr hin
  refine hx (i - x) (by omega) ?_
  rw [Nat.add_sub_cancel' h1]
  exact (h.held r hr i hin).1

theorem Shows.put32 {v : ℕ} (h : Shows m₀ P held m) :
    Shows m₀ (P.put32 x v) held { m with phys := m.phys.put32 x v } := by
  refine ⟨h.kernel, h.l1, h.l2, ?_, h.next, fun y hy => ?_, h.held⟩
  · obtain ⟨vaMin, vaMax, low, high, aligned, -⟩ := h.window
    exact ⟨vaMin, vaMax, low, high, aligned, nofun⟩
  · change m.phys.put32 x v y = P.put32 x v y
    unfold Bytes.put32
    rw [h.phys y hy]

end Window

structure Tabled (m : Machine) (tpa va len : ℕ) : Prop where
  aligned : va % 4096 = 0
  length : len % 4096 = 0
  bound : va + len ≤ 2 ^ 32
  there : ∀ i < pageCount len, l1Entry m tpa va i ≠ 0
  coarse : ∀ i < pageCount len, l1pa (l1Entry m tpa va i) % 1024 = 0
  l1Outside : ∀ b < 0x4000, ¬ m.InWindow (tpa + b)
  l2Outside : ∀ i < pageCount len, ∀ b < 1024, ¬ m.InWindow (l1pa (l1Entry m tpa va i) + b)
  l1Apart : ∀ i < pageCount len, Apart (l1pa (l1Entry m tpa va i)) 1024 tpa 0x4000
  l2Apart : ∀ i < pageCount len, ∀ j < pageCount len, l1x (va + 4096 * i) ≠ l1x (va + 4096 * j) →
    Apart (l1pa (l1Entry m tpa va i)) 1024 (l1pa (l1Entry m tpa va j)) 1024

def setPages (m : Machine) (tpa va : ℕ) (v : ℕ → ℕ) : ℕ → Bytes
  | 0 => m.phys
  | i + 1 => (setPages m tpa va v i).put32 (l2At m tpa va i) (v i)

section Pages

variable {m : Machine} {tpa va len i j x b : ℕ} {v : ℕ → ℕ}

theorem Tabled.l1_window (h : Tabled m tpa va len) (hb : b < 4) : ¬ m.InWindow (l1At tpa va i + b) := by
  have hx := @l1x_lt (va + 4096 * i)
  unfold l1At
  rw [Nat.add_assoc]
  exact h.l1Outside _ (by omega)

theorem Tabled.l2_window (h : Tabled m tpa va len) (hi : i < pageCount len) (hb : b < 4) :
    ¬ m.InWindow (l2At m tpa va i + b) := by
  have hx := @l2x_lt (va + 4096 * i)
  unfold l2At
  rw [Nat.add_assoc]
  exact h.l2Outside i hi _ (by omega)

theorem Tabled.apart_l1 (h : Tabled m tpa va len) (hi : i < pageCount len) :
    Apart (l2At m tpa va i) 4 (l1At tpa va j) 4 := by
  have hx := @l1x_lt (va + 4096 * j)
  have hy := @l2x_lt (va + 4096 * i)
  unfold l2At l1At
  exact (h.l1Apart i hi).mono (by omega) (by omega) (by omega) (by omega)

theorem Tabled.apart_l2 (h : Tabled m tpa va len) (hi : i < pageCount len) (hj : j < pageCount len) (hij : i ≠ j) :
    Apart (l2At m tpa va i) 4 (l2At m tpa va j) 4 := by
  by_cases hx : l1x (va + 4096 * i) = l1x (va + 4096 * j)
  · have hentry : l1Entry m tpa va i = l1Entry m tpa va j := by
      unfold l1Entry l1At
      rw [hx]
    have hne : l2x (va + 4096 * i) ≠ l2x (va + 4096 * j) := by
      have hbound := h.bound
      have haligned := h.aligned
      unfold pageCount at hi hj
      unfold l1x at hx
      unfold l2x
      omega
    unfold l2At Apart
    rw [hentry]
    omega
  · have hy := @l2x_lt (va + 4096 * i)
    have hz := @l2x_lt (va + 4096 * j)
    unfold l2At
    exact (h.l2Apart i hi j hj hx).mono (by omega) (by omega) (by omega) (by omega)

theorem setPages_outside (hx : ∀ j < i, x < l2At m tpa va j ∨ l2At m tpa va j + 4 ≤ x) :
    setPages m tpa va v i x = m.phys x := by
  induction i with
  | zero => rfl
  | succ i ih =>
    unfold setPages
    rw [put32_outside x (hx i (Nat.lt_succ_self i))]
    exact ih fun j hj => hx j (Nat.lt_succ_of_lt hj)

theorem setPages_window (h : Tabled m tpa va len) (hi : i ≤ pageCount len) (hx : m.InWindow x) :
    setPages m tpa va v i x = m.phys x := by
  apply setPages_outside
  intro j hj
  by_contra hn
  refine h.l2_window (i := j) (b := x - l2At m tpa va j) (by omega) (by omega) ?_
  rwa [Nat.add_sub_cancel' (by omega)]

theorem setPages_l1 (h : Tabled m tpa va len) (hi : i ≤ pageCount len) :
    (setPages m tpa va v i).get32 (l1At tpa va j) = l1Entry m tpa va j := by
  apply get32_congr
  intro x h1 h2
  apply setPages_outside
  intro k hk
  have hap := h.apart_l1 (i := k) (j := j) (by omega)
  unfold Apart at hap
  omega

theorem setPages_ahead (h : Tabled m tpa va len) (hij : i ≤ j) (hj : j < pageCount len) :
    (setPages m tpa va v i).get32 (l2At m tpa va j) = l2Entry m tpa va j := by
  apply get32_congr
  intro x h1 h2
  apply setPages_outside
  intro k hk
  have hap := h.apart_l2 (i := k) (j := j) (by omega) hj (by omega)
  unfold Apart at hap
  omega

theorem setPages_behind (h : Tabled m tpa va len) (hi : i ≤ pageCount len) (hj : j < i) :
    (setPages m tpa va v i).get32 (l2At m tpa va j) = v j % 2 ^ 32 := by
  induction i with
  | zero => omega
  | succ i ih =>
    unfold setPages
    by_cases hij : j = i
    · rw [hij, get32_put32_same]
    · have hap := h.apart_l2 (i := i) (j := j) (by omega) (by omega) (Ne.symm hij)
      unfold Apart at hap
      rw [get32_put32_ne (by omega)]
      exact ih (by omega) (by omega)

end Pages

def heldTables (m : Machine) (l1 : ℕ) : Option OpenTable → List (ℕ × ℕ)
  | none => [m.entries l1 0x4000]
  | some t => [m.entries t.va 4096, m.entries l1 0x4000]

structure Stands (m₀ : Machine) (P : Bytes) (tpa l1 : ℕ) (l2 : Option OpenTable) (m : Machine) : Prop where
  shows : Shows m₀ P (heldTables m₀ l1 l2) m
  table : ∀ t, l2 = some t → t.pa = l1pa (m₀.phys.get32 (tpa + 4 * t.x))

section Walks

variable {m₀ m : Machine} {P : Bytes} {tpa va len pa bits l1 i fuel : ℕ} {l2 : Option OpenTable} {v : ℕ → ℕ}
  {wrote : List (ℕ × ℕ)} {done : List (ℕ × ℕ) → Machine → Ending}

theorem page_paged : Paged 4096 := ⟨by decide, by decide, by decide⟩

theorem Stands.letGo (h₀ : Bumped m₀ []) (hP : ∀ x, m₀.InWindow x → P x = m₀.phys x) (h : Stands m₀ P tpa l1 l2 m) :
    Shows m₀ P [m₀.entries l1 0x4000] (letGo l2 m) ∧ (letGo l2 m).vaNext = m.vaNext := by
  cases l2 with
  | none => exact ⟨h.shows, rfl⟩
  | some t => exact ⟨h.shows.unmap h₀ hP, rfl⟩

theorem Stands.close (h₀ : Bumped m₀ []) (hP : ∀ x, m₀.InWindow x → P x = m₀.phys x) (h : Stands m₀ P tpa l1 l2 m) :
    Shows m₀ P [] (closeTables l1 l2 m) ∧ (closeTables l1 l2 m).vaNext = m.vaNext := by
  obtain ⟨hshows, hnext⟩ := h.letGo h₀ hP
  exact ⟨hshows.unmap h₀ hP, hnext⟩

/-- What a walk from page `i` on comes to: without room for the tables to come it is lost, and with room it goes on as
`Q` says, with `va_next` where these tables leave it. -/
def Comes (m₀ : Machine) (va len i : ℕ) (x : Option ℕ) (vaNext : ℕ) (e : Ending)
    (Q : Ending → ℕ → Prop) : Prop :=
  (¬ Placeable m₀.vaMax (openings va (pageCount len - i) i x) vaNext ∧ e.Lost) ∨
  (Placeable m₀.vaMax (openings va (pageCount len - i) i x) vaNext ∧
    Q e (windowAfter (openings va (pageCount len - i) i x) vaNext))

theorem openTable_stands {f : OpenTable → Machine → Ending} {Q : Ending → ℕ → Prop} (h₀ : Bumped m₀ []) (hv : m₀.Vacant)
    (hT : Tabled m₀ tpa va len) (hi : i < pageCount len) (hP : ∀ x, m₀.InWindow x → P x = m₀.phys x)
    (hl1 : P.get32 (l1At tpa va i) = l1Entry m₀ tpa va i) (h : Stands m₀ P tpa l1 l2 m)
    (hf : ∀ t m', t.x = l1x (va + 4096 * i) → Stands m₀ P tpa l1 (some t) m' →
      Comes m₀ va len i (some t.x) m'.vaNext (f t m') Q) :
    Comes m₀ va len i (l2.map OpenTable.x) m.vaNext (openTable tpa (va + 4096 * i) f l2 m) Q := by
  have hnext : ∀ {m y}, Shows m₀ P [m₀.entries l1 0x4000] m → y ≠ some (l1x (va + 4096 * i)) →
      Comes m₀ va len i y m.vaNext (nextTable tpa (va + 4096 * i) f m) Q := by
    intro m y h hy
    have hsame : m.phys.get32 (tpa + 4 * l1x (va + 4096 * i)) = l1Entry m₀ tpa va i :=
      (h.get32 fun b hb => hT.l1_window hb).trans hl1
    have hmax : m.vaMax = m₀.vaMax := (h.tables 0 h₀).2.1
    unfold Comes nextTable
    simp only [hsame, if_neg (hT.there i hi)]
    rw [openings_step hi, if_neg hy]
    by_cases hfit : windowBase 4096 m.vaNext + 4096 < m.vaMax
    · obtain ⟨z, m', hmap, hshows, hva⟩ := h.map (l1pa (l1Entry m₀ tpa va i)) true h₀ hv page_paged hfit
      rw [hmap]
      have hstep := hf ⟨z, l1x (va + 4096 * i), l1pa (l1Entry m₀ tpa va i)⟩ m' rfl ⟨hshows, by rintro _ ⟨⟩; rfl⟩
      unfold Comes at hstep
      rw [openings_step hi, if_pos rfl, hva] at hstep
      rw [hmax] at hfit
      rcases hstep with ⟨hno, hlost⟩ | ⟨hyes, hq⟩
      · exact .inl ⟨fun hall => hno hall.2, hlost⟩
      · exact .inr ⟨⟨hfit, hyes⟩, hq⟩
    · refine .inl ⟨fun hall => ?_, kernelMap_lost h.window page_paged hfit _⟩
      rw [hmax] at hfit
      exact hfit hall.1
  unfold openTable
  cases l2 with
  | none => exact hnext h.shows nofun
  | some t =>
    simp only
    by_cases hx : t.x = l1x (va + 4096 * i)
    · rw [if_pos hx]
      exact hf t m hx h
    · rw [if_neg hx]
      obtain ⟨hshows, hsame⟩ := h.letGo h₀ hP
      rw [← hsame]
      exact hnext hshows fun he => hx (Option.some.inj he)

theorem Comes.step {x : ℕ} {e : Ending} {Q : Ending → ℕ → Prop} {vaNext : ℕ} (hi : i < pageCount len)
    (hx : x = l1x (va + 4096 * i)) (h : Comes m₀ va len (i + 1) (some x) vaNext e Q) :
    Comes m₀ va len i (some x) vaNext e Q := by
  unfold Comes
  rw [openings_step hi, if_pos (congrArg some hx)]
  exact hx ▸ h

theorem Comes.stop {x : Option ℕ} {e : Ending} {Q : Ending → ℕ → Prop} {vaNext : ℕ} (hi : i = pageCount len) (h : Q e vaNext) :
    Comes m₀ va len i x vaNext e Q := by
  unfold Comes
  rw [hi, Nat.sub_self]
  exact .inr ⟨trivial, h⟩

theorem Stands.start (h : Shows m₀ m₀.phys [m₀.entries l1 0x4000] m) :
    Stands m₀ (setPages m₀ tpa va v 0) tpa l1 none m := ⟨h, nofun⟩

theorem Stands.set {t : OpenTable} (hx : t.x = l1x (va + 4096 * i))
    (h : Stands m₀ (setPages m₀ tpa va v i) tpa l1 (some t) m) :
    Stands m₀ (setPages m₀ tpa va v (i + 1)) tpa l1 (some t)
      { m with phys := m.phys.put32 (t.pa + 4 * l2x (va + 4096 * i)) (v i) } := by
  have hat : t.pa + 4 * l2x (va + 4096 * i) = l2At m₀ tpa va i := by
    rw [h.table t rfl, hx]
    rfl
  rw [hat]
  exact ⟨h.shows.put32, h.table⟩

theorem Tabled.next (hT : Tabled m₀ tpa va len) (hlen : len < 2 ^ 32) (hi : i < pageCount len) :
    (4096 * i + 4096) % 2 ^ 32 = 4096 * (i + 1) := by
  have haligned := hT.length
  exact page_next (by omega) hi

theorem Stands.entry {t : OpenTable} (hT : Tabled m₀ tpa va len) (hi : i < pageCount len)
    (hx : t.x = l1x (va + 4096 * i)) (h : Stands m₀ P tpa l1 (some t) m) :
    m.phys.get32 (t.pa + 4 * l2x (va + 4096 * i)) = P.get32 (l2At m₀ tpa va i) ∧
      ¬ 4096 < t.pa % 4096 + 4 * l2x (va + 4096 * i) + 4 := by
  have hpa : t.pa = l1pa (l1Entry m₀ tpa va i) := by
    rw [h.table t rfl, hx]
    rfl
  rw [hpa]
  constructor
  · exact h.shows.get32 fun b hb => hT.l2_window hi hb
  · have hcoarse := hT.coarse i hi
    have hy := @l2x_lt (va + 4096 * i)
    omega

theorem frameMapLoop_stands (pa bits fuel : ℕ) (done : List (ℕ × ℕ) → Machine → Ending) (wrote : List (ℕ × ℕ))
    (h₀ : Bumped m₀ []) (hv : m₀.Vacant)
    (hT : Tabled m₀ tpa va len) (hlen : len < 2 ^ 32) (hfree : ∀ i < pageCount len, l2Entry m₀ tpa va i = 0)
    (hi : i ≤ pageCount len) (hfuel : pageCount len - i < fuel)
    (h : Stands m₀ (setPages m₀ tpa va (fun i => (pa + 4096 * i) ||| bits) i) tpa l1 l2 m) :
    Comes m₀ va len i (l2.map OpenTable.x) m.vaNext
      (frameMapLoop tpa va pa len bits l1 done fuel (4096 * i) l2 wrote m) fun e next => ∃ wrote m',
        e = done wrote m' ∧ m'.vaNext = next ∧
        Shows m₀ (setPages m₀ tpa va (fun i => (pa + 4096 * i) ||| bits) (pageCount len)) [] m' := by
  induction fuel generalizing i l2 wrote m with
  | zero => omega
  | succ fuel ih =>
    have hP : ∀ x, m₀.InWindow x → setPages m₀ tpa va (fun i => (pa + 4096 * i) ||| bits) i x = m₀.phys x :=
      fun x hx => setPages_window hT hi hx
    unfold frameMapLoop
    by_cases hend : len ≤ 4096 * i
    · have hlast : i = pageCount len := Nat.le_antisymm hi (not_lt.mp (page_iff.mp hend))
      rw [if_pos hend]
      obtain ⟨hshows, hnext⟩ := h.close h₀ hP
      exact .stop hlast ⟨_, _, rfl, hnext, hlast ▸ hshows⟩
    · rw [if_neg hend]
      have hlt : i < pageCount len := not_not.mp (mt page_iff.mpr hend)
      refine openTable_stands h₀ hv hT hlt hP (setPages_l1 hT hi) h fun t m' hx h => ?_
      obtain ⟨hentry, hroom⟩ := h.entry hT hlt hx
      rw [setPages_ahead hT (le_refl i) hlt, hfree i hlt] at hentry
      simp only
      rw [if_neg hroom, if_neg (not_not.mpr hentry), hT.next hlen hlt]
      exact (ih _ hlt (by omega) (h.set hx)).step hlt hx

theorem frameUnmapLoop_stands (fuel : ℕ) (done : List (ℕ × ℕ) → Machine → Ending) (wrote : List (ℕ × ℕ))
    (h₀ : Bumped m₀ []) (hv : m₀.Vacant)
    (hT : Tabled m₀ tpa va len) (hlen : len < 2 ^ 32) (hpa : pa ≠ 0 ∧ pa < 2 ^ 32)
    (hmapped : ∀ i < pageCount len, l2Entry m₀ tpa va i ≠ 0 ∧ l2pa (l2Entry m₀ tpa va i) = (pa + 4096 * i) % 2 ^ 32)
    (hi : i ≤ pageCount len) (hfuel : pageCount len - i < fuel)
    (h : Stands m₀ (setPages m₀ tpa va (fun _ => 0) i) tpa l1 l2 m) :
    Comes m₀ va len i (l2.map OpenTable.x) m.vaNext
      (frameUnmapLoop tpa va len l1 done fuel (4096 * i) (if i = 0 then 0 else pa) l2 wrote m) fun e next =>
        ∃ wrote m', e = done wrote m' ∧ m'.vaNext = next ∧
          Shows m₀ (setPages m₀ tpa va (fun _ => 0) (pageCount len)) [] m' := by
  induction fuel generalizing i l2 wrote m with
  | zero => omega
  | succ fuel ih =>
    have hP : ∀ x, m₀.InWindow x → setPages m₀ tpa va (fun _ => 0) i x = m₀.phys x :=
      fun x hx => setPages_window hT hi hx
    unfold frameUnmapLoop
    by_cases hend : len ≤ 4096 * i
    · have hlast : i = pageCount len := Nat.le_antisymm hi (not_lt.mp (page_iff.mp hend))
      rw [if_pos hend]
      obtain ⟨hshows, hnext⟩ := h.close h₀ hP
      exact .stop hlast ⟨_, _, rfl, hnext, hlast ▸ hshows⟩
    · rw [if_neg hend]
      have hlt : i < pageCount len := not_not.mp (mt page_iff.mpr hend)
      obtain ⟨hne, hcontinuous⟩ := hmapped i hlt
      refine openTable_stands h₀ hv hT hlt hP (setPages_l1 hT hi) h fun t m' hx h => ?_
      obtain ⟨hentry, hroom⟩ := h.entry hT hlt hx
      rw [setPages_ahead hT (le_refl i) hlt] at hentry
      have hgo : ¬ ((if i = 0 then 0 else pa) ≠ 0 ∧
          l2pa (l2Entry m₀ tpa va i) ≠ ((if i = 0 then 0 else pa) + 4096 * i) % 2 ^ 32) := by
        rintro ⟨h1, h2⟩
        split_ifs at h1 h2
        · exact h1 rfl
        · exact h2 hcontinuous
      have hfirst : (if (if i = 0 then 0 else pa) = 0 then l2pa (l2Entry m₀ tpa va i) else if i = 0 then 0 else pa) =
          if i + 1 = 0 then 0 else pa := by
        rw [if_neg (Nat.succ_ne_zero i)]
        by_cases hzero : i = 0
        · rw [if_pos hzero, if_pos rfl, hcontinuous, hzero]
          exact Nat.mod_eq_of_lt hpa.2
        · rw [if_neg hzero, if_neg hpa.1]
      simp only [hentry]
      rw [if_neg hroom, if_neg hne, if_neg hgo, hfirst, hT.next hlen hlt]
      exact (ih _ hlt (by omega) (h.set hx)).step hlt hx

end Walks

end Agatha.Sys
