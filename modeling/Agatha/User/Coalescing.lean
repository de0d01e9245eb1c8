import Agatha.User.MallocRuns

namespace Agatha.User

open Library.Areas Library.Cutting

def NoPairs (heap : Heap) : Prop :=
  ∀ bin < binMax, ∀ c, chunkSize (bin + 1) ∣ c → c ∈ heap.bins bin → c + chunkSize bin ∉ heap.bins bin

def FindsUpper : ℕ → ℕ → ℕ → Heap → Prop
  | 0, _, _, _ => True
  | fuel + 1, bin, c, heap => bin < binMax →
    (chunkSize (bin + 1) ∣ c → (heap.bins bin).head? ≠ some (c + chunkSize bin)) ∧
      ∀ whole, chunkSize (bin + 1) ∣ whole →
        c = whole ∧ whole + chunkSize bin ∈ heap.bins bin ∨ c = whole + chunkSize bin ∧ whole ∈ heap.bins bin →
        FindsUpper fuel (bin + 1) whole heap

def FreeClear (heap : Heap) (b : Live) : Prop :=
  heap.small b → FindsUpper (binMax + 1) (binN (heap.size (b.ptr - wordSize))) (b.ptr - wordSize) heap

/-- The runs of `HeapRun` in which all calls of `free` find the upper halves. -/
inductive ClearRun : List Live → List Area → List Area → Heap → Prop
  | start {size : ℕ → ℕ} : ClearRun [] [] [] { bins := fun _ => [], size := size }
  | malloc {live : List Live} {pages bigs got : List Area} {heap heap' : Heap} {page len p : ℕ}
      (run : ClearRun live pages bigs heap) (hlen : len < 2 ^ 31) (hfresh : Fresh page len (pages ++ bigs))
      (h : malloc page len heap = some (p, got, heap')) :
      ClearRun (if p = 0 then live else { ptr := p, len := len } :: live)
        (if isSmall len then got ++ pages else pages) (if isSmall len then bigs else got ++ bigs) heap'
  | free {live : List Live} {pages bigs : List Area} {heap heap' : Heap} {b : Live}
      (run : ClearRun live pages bigs heap) (hb : b ∈ live) (hclear : FreeClear heap b)
      (h : free b.ptr heap = some heap') : ClearRun (live.erase b) pages bigs heap'

/-- All small blocks are freed: the chunks of the last bin are the pages, and there are no others; the next
small block needs no page as long as there is one. -/
structure Coalesced (pages : List Area) (heap : Heap) : Prop where
  whole : pages.Perm (binAreas binMax (heap.bins binMax))
  empty : ∀ bin < binMax, heap.bins bin = []
  reuse : pages ≠ [] → ∀ page len p got heap', isSmall len → malloc page len heap = some (p, got, heap') → got = []

section Pairs

variable {heap heap' : Heap} {bin c fuel page : ℕ} {l : List ℕ} {got : List Area}

theorem ClearRun.run {live : List Live} {pages bigs : List Area} (h : ClearRun live pages bigs heap) :
    HeapRun live pages bigs heap := by
  induction h with
  | start => exact .start
  | malloc _ hlen hfresh h ih => exact ih.malloc hlen hfresh h
  | free _ hb _ h ih => exact ih.free hb h

theorem not_mem_of_put_lower {p : ℕ} {next l' : List ℕ} (hb : bin < binMax)
    (hs : (p :: next).Pairwise (· < ·)) (hal : ∀ q ∈ p :: next, chunkSize bin ∣ q) (hd : chunkSize (bin + 1) ∣ c)
    (hfit : c < 2 ^ 32) (hput : walk bin c (p :: next) = .put l') : c + chunkSize bin ∉ next := by
  have halign := (align_next hb hfit).mpr hd
  have hdvd : chunkSize bin ∣ c := (chunkSize_dvd_of_le (Nat.le_succ bin)).trans hd
  have hbelow := buddy_below hb hd hfit
  induction next generalizing p l' with
  | nil => exact List.not_mem_nil
  | cons n next ih =>
    obtain ⟨hp, hnext⟩ := List.pairwise_cons.mp hs
    unfold walk at hput
    split_ifs at hput with hmerge hup hlt
    · intro hm
      have hle := add_le_of_dvd hdvd (hal p List.mem_cons_self) hlt
      have := hp _ hm
      omega
    · have hne : c + chunkSize bin ≠ n := by
        intro he
        have hhead : (c + chunkSize bin) % 2 ^ 32 = (n :: next).headD 0 := by
          rw [Nat.mod_eq_of_lt hbelow, List.headD_cons, he]
        exact hmerge ⟨hb, halign, hhead⟩
      cases hw : walk bin c (n :: next) with
      | put l =>
        have hrest := ih hnext (fun q hq => hal q (List.mem_cons_of_mem _ hq)) hw
        simp [hne, hrest]
      | merge l c' =>
        rw [hw] at hput
        cases hput
      | fault =>
        rw [hw] at hput
        cases hput

theorem not_mem_of_put_upper {l' : List ℕ} (hb : bin < binMax) (hs : l.Pairwise (· < ·))
    (hd : ¬ chunkSize (bin + 1) ∣ c) (hfit : c < 2 ^ 32) (hput : walk bin c l = .put l') :
    ∀ q ∈ l, q + chunkSize bin ≠ c := by
  have halign : c ≠ alignUp c (chunkSize (bin + 1)) := fun h => hd ((align_next hb hfit).mp h)
  induction l generalizing l' with
  | nil => simp
  | cons p next ih =>
    obtain ⟨hp, hnext⟩ := List.pairwise_cons.mp hs
    unfold walk at hput
    rw [if_neg fun h => halign h.2.1] at hput
    split_ifs at hput with hup hlt
    · intro q hq he
      obtain rfl | hq := List.mem_cons.mp hq
      · omega
      · have := hp q hq
        omega
    · have hne : p + chunkSize bin ≠ c := by
        intro he
        exact hup ⟨hb, halign, by rw [he, Nat.mod_eq_of_lt hfit]⟩
      cases hw : walk bin c next with
      | put l =>
        have hrest := ih hnext hw
        intro q hq
        obtain rfl | hq := List.mem_cons.mp hq
        · exact hne
        · exact hrest q hq
      | merge l c' =>
        rw [hw] at hput
        cases hput
      | fault =>
        rw [hw] at hput
        cases hput

theorem NoPairs.setBin (h : NoPairs heap)
    (hl : bin < binMax → ∀ c, chunkSize (bin + 1) ∣ c → c ∈ l → c + chunkSize bin ∉ l) :
    NoPairs (heap.setBin bin l) := by
  intro b hb c hd hc
  rw [setBin_bins] at hc ⊢
  split_ifs at hc ⊢ with he
  · subst he
    exact hl hb c hd hc
  · exact h b hb c hd hc

theorem NoPairs.subset (h : NoPairs heap) (hl : l ⊆ heap.bins bin) : NoPairs (heap.setBin bin l) :=
  h.setBin fun hb c hd hc hm => h bin hb c hd (hl hc) (hl hm)

theorem NoPairs.setSize {n : ℕ} (h : NoPairs heap) : NoPairs (heap.setSize c n) := h

theorem FindsUpper.congr (hbins : ∀ b ≥ bin, heap'.bins b = heap.bins b) (h : FindsUpper fuel bin c heap) :
    FindsUpper fuel bin c heap' := by
  induction fuel generalizing bin c with
  | zero => trivial
  | succ fuel ih =>
    intro hb
    obtain ⟨hhead, hnext⟩ := h hb
    rw [hbins bin (Nat.le_refl _)]
    refine ⟨hhead, fun whole hd hw => ?_⟩
    exact ih (fun b hle => hbins b (by omega)) (hnext whole hd hw)

theorem FindsUpper.mono {n : ℕ} (h : FindsUpper (fuel + n) bin c heap) : FindsUpper fuel bin c heap := by
  induction fuel generalizing bin c with
  | zero => trivial
  | succ fuel ih =>
    rw [Nat.succ_add] at h
    intro hb
    obtain ⟨hhead, hnext⟩ := h hb
    exact ⟨hhead, fun whole hd hw => ih (hnext whole hd hw)⟩

theorem walk_put {l' : List ℕ} (h : walk bin c l = .put l') : l' ⊆ c :: l := by
  induction l generalizing l' with
  | nil =>
    cases h
    exact List.Subset.refl _
  | cons p next ih =>
    unfold walk at h
    split_ifs at h with hmerge hup hlt
    · cases next <;> cases h
    · cases h
      exact List.Subset.refl _
    · cases hw : walk bin c next with
      | put l =>
        rw [hw] at h
        cases h
        intro x hx
        have hsub := ih hw
        obtain rfl | hx := List.mem_cons.mp hx
        · simp
        · have := hsub hx
          simp only [List.mem_cons] at this ⊢
          tauto
      | merge l c' =>
        rw [hw] at h
        cases h
      | fault =>
        rw [hw] at h
        cases h

theorem walk_merge {l' : List ℕ} {c' : ℕ} (hal : ∀ p ∈ l, chunkSize bin ∣ p) (hpos : ∀ p ∈ l, 0 < p)
    (hfit : ∀ p ∈ l, p + chunkSize bin ≤ 2 ^ 32) (hc : c + chunkSize bin ≤ 2 ^ 32)
    (h : walk bin c l = .merge l' c') :
    bin < binMax ∧ chunkSize (bin + 1) ∣ c' ∧ l'.Sublist l ∧
      (c = c' ∧ c' + chunkSize bin ∈ l ∨ c = c' + chunkSize bin ∧ c' ∈ l) := by
  have hsize : 0 < chunkSize bin := chunkSize_pos
  induction l generalizing l' with
  | nil => cases h
  | cons p next ih =>
    unfold walk at h
    split_ifs at h with hmerge hup hlt
    · obtain ⟨hbin, halign, hend⟩ := hmerge
      have hdvd := (align_next hbin (by omega)).mp halign
      have hbelow := buddy_below hbin hdvd (by omega)
      rw [Nat.mod_eq_of_lt hbelow] at hend
      cases next with
      | nil => cases h
      | cons n next =>
        cases h
        rw [List.headD_cons] at hend
        refine ⟨hbin, hdvd, (List.sublist_cons_self _ _).cons_cons _, .inl ⟨rfl, ?_⟩⟩
        simp [hend]
    · cases h
      obtain ⟨hbin, halign, hend⟩ := hup
      have hndvd : ¬ chunkSize (bin + 1) ∣ c := fun h => halign ((align_next hbin (by omega)).mpr h)
      have hne : c ≠ 0 := fun h0 => hndvd (h0 ▸ Nat.dvd_zero _)
      have hpfit := hfit c' List.mem_cons_self
      have hend' : c' + chunkSize bin = c := by
        obtain htop | htop := Nat.lt_or_eq_of_le hpfit
        · rwa [Nat.mod_eq_of_lt htop] at hend
        · rw [htop, Nat.mod_self] at hend
          exact absurd hend.symm hne
      refine ⟨hbin, ?_, List.sublist_cons_self _ _, .inr ⟨hend'.symm, List.mem_cons_self⟩⟩
      exact dvd_of_upper (hal c' List.mem_cons_self) (hend' ▸ hndvd)
    · cases hw : walk bin c next with
      | put l =>
        rw [hw] at h
        cases h
      | merge l c'' =>
        rw [hw] at h
        cases h
        obtain ⟨hbin, hd, hsub, hhalves⟩ := ih (fun q hq => hal q (List.mem_cons_of_mem _ hq))
          (fun q hq => hpos q (List.mem_cons_of_mem _ hq)) (fun q hq => hfit q (List.mem_cons_of_mem _ hq)) hw
        refine ⟨hbin, hd, hsub.cons_cons p, ?_⟩
        exact hhalves.imp (And.imp_right (List.mem_cons_of_mem p)) (And.imp_right (List.mem_cons_of_mem p))
      | fault =>
        rw [hw] at h
        cases h

theorem put_noPairs {l' : List ℕ} (hok : BinsOk heap) (hp : NoPairs heap) (hc : chunkSize bin ∣ c)
    (hfit : c < 2 ^ 32) (hhead : bin < binMax → chunkSize (bin + 1) ∣ c →
      (heap.bins bin).head? ≠ some (c + chunkSize bin))
    (h : walk bin c (heap.bins bin) = .put l') : NoPairs (heap.setBin bin l') := by
  apply hp.setBin
  intro hb x hx hxm hum
  have hsize : 0 < chunkSize bin := chunkSize_pos
  have hsub := walk_put h
  obtain rfl | hxl := List.mem_cons.mp (hsub hxm)
  · have hul : x + chunkSize bin ∈ heap.bins bin := by
      obtain he | hul := List.mem_cons.mp (hsub hum)
      · omega
      · exact hul
    cases hbins : heap.bins bin with
    | nil =>
      rw [hbins] at hul
      cases hul
    | cons p next =>
      have hsort := hok.sorted bin
      have hal := hok.aligned bin
      have hne := hhead hb hx
      rw [hbins] at hsort hal hne hul h
      obtain he | hmem := List.mem_cons.mp hul
      · exact hne (congrArg some he.symm)
      · exact not_mem_of_put_lower hb hsort hal hx hfit h hmem
  · obtain he | hul := List.mem_cons.mp (hsub hum)
    · have hd : ¬ chunkSize (bin + 1) ∣ c := by
        rw [← he]
        intro hd
        have hle := Nat.le_of_dvd hsize ((Nat.dvd_add_right hx).mp hd)
        rw [chunkSize_succ] at hle
        omega
      exact not_mem_of_put_upper hb (hok.sorted bin) hd hfit h x hxl he
    · exact hp bin hb x hx hxl hul

theorem insertFrom_noPairs (hok : BinsOk heap) (hp : NoPairs heap) (hc : chunkSize bin ∣ c)
    (hfit : c + chunkSize bin ≤ 2 ^ 32) (hfind : FindsUpper fuel bin c heap)
    (h : insertFrom fuel bin c heap = some heap') : NoPairs heap' := by
  induction fuel generalizing bin c heap with
  | zero => cases h
  | succ fuel ih =>
    have hsize : 0 < chunkSize bin := chunkSize_pos
    unfold insertFrom at h
    cases hw : walk bin c (heap.bins bin) with
    | put l =>
      rw [hw] at h
      cases h
      exact put_noPairs hok hp hc (by omega) (fun hb => (hfind hb).1) hw
    | merge l c' =>
      rw [hw] at h
      obtain ⟨hb, hd, hsub, hhalves⟩ :=
        walk_merge (hok.aligned bin) (hok.pos bin) (hok.fits bin) hfit hw
      have hmem : ∀ x ∈ l, x ∈ heap.bins bin := fun x hx => hsub.subset hx
      have hok' : BinsOk (heap.setBin bin l) := hok.setBin ((hok.sorted bin).sublist hsub)
        fun x hx => ⟨hok.aligned bin x (hmem x hx), hok.pos bin x (hmem x hx), hok.fits bin x (hmem x hx)⟩
      have hfit' : c' + chunkSize (bin + 1) ≤ 2 ^ 32 := by
        rw [chunkSize_succ]
        obtain ⟨-, hm⟩ | ⟨he, -⟩ := hhalves
        · have := hok.fits bin _ hm
          omega
        · omega
      refine ih hok' (hp.subset hmem) hd hfit' ?_ h
      refine FindsUpper.congr (fun b hle => ?_) ((hfind hb).2 c' hd hhalves)
      rw [setBin_bins, if_neg (by omega)]
    | fault =>
      rw [hw] at h
      cases h

theorem insertFrom_before {b : ℕ} (hb : b < bin) (h : insertFrom fuel bin c heap = some heap') :
    heap'.bins b = heap.bins b := by
  induction fuel generalizing bin c heap with
  | zero => cases h
  | succ fuel ih =>
    unfold insertFrom at h
    split at h
    · cases h
      rw [setBin_bins, if_neg (by omega)]
    · rw [ih (by omega) h, setBin_bins, if_neg (by omega)]
    · cases h

theorem getFrom_cases (h : getFrom page (fuel + 1) bin heap = some (c, got, heap')) :
    (∃ next, heap.bins bin = c :: next ∧ got = [] ∧ heap' = (heap.setBin bin next).setSize c (chunkSize bin)) ∨
    (heap.bins bin = [] ∧ bin < binMax ∧ ∃ heap₁, getFrom page fuel (bin + 1) heap = some (c, got, heap₁) ∧
      (heap' = heap₁ ∨ ∃ heap₂, insertChunk bin ((c + chunkSize bin) % 2 ^ 32)
        (heap₁.setSize ((c + chunkSize bin) % 2 ^ 32) 0) = some heap₂ ∧ heap' = heap₂.setSize c (chunkSize bin))) ∨
    heap.bins bin = [] ∧ ¬bin < binMax ∧ (got = [] ∧ heap' = heap ∨
      page ≠ 0 ∧ got = [⟨page, pageAlign (chunkSize bin)⟩] ∧ heap' = heap.setSize page (chunkSize bin)) := by
  unfold getFrom at h
  split at h
  · rename_i c₁ next hbins
    cases h
    exact .inl ⟨next, hbins, rfl, rfl⟩
  · rename_i hbins
    right
    split_ifs at h with hbin hpz
    · refine .inl ⟨hbins, hbin, ?_⟩
      split at h
      · cases h
      · rename_i c₁ got₁ heap₁ hget
        split_ifs at h with hc0
        · cases h
          exact ⟨_, hc0 ▸ hget, .inl rfl⟩
        · obtain ⟨heap₂, hins, he⟩ := Option.map_eq_some_iff.mp h
          cases he
          exact ⟨heap₁, hget, .inr ⟨heap₂, hins, rfl⟩⟩
    · cases h
      exact .inr ⟨hbins, hbin, .inl ⟨rfl, rfl⟩⟩
    · cases h
      exact .inr ⟨hbins, hbin, .inr ⟨hpz, rfl, rfl⟩⟩

theorem getFrom_before {b : ℕ} (hb : b < bin) (h : getFrom page fuel bin heap = some (c, got, heap')) :
    heap'.bins b = heap.bins b := by
  induction fuel generalizing bin c got heap' with
  | zero => cases h
  | succ fuel ih =>
    obtain ⟨next, -, -, rfl⟩ | ⟨-, -, heap₁, hget, rfl | ⟨heap₂, hins, rfl⟩⟩ | ⟨-, -, ⟨-, rfl⟩ | ⟨-, -, rfl⟩⟩ :=
      getFrom_cases h
    · exact setBin_bins.trans (if_neg (by omega))
    · exact ih (by omega) hget
    · have hrec : heap₁.bins b = heap.bins b := ih (by omega) hget
      exact (insertFrom_before hb hins).trans hrec
    · rfl
    · rfl

theorem getFrom_noPairs (hp : NoPairs heap) (h : getFrom page fuel bin heap = some (c, got, heap')) :
    NoPairs heap' := by
  induction fuel generalizing bin c got heap' with
  | zero => cases h
  | succ fuel ih =>
    obtain ⟨next, hbins, -, rfl⟩ | ⟨hbins, hbin, heap₁, hget, rfl | ⟨heap₂, hins, rfl⟩⟩ | ⟨-, -, ⟨-, rfl⟩ | ⟨-, -, rfl⟩⟩ :=
      getFrom_cases h
    · exact (hp.subset (hbins ▸ List.subset_cons_self _ _)).setSize
    · exact ih hget
    · have hrec := ih hget
      have hempty : heap₁.bins bin = [] := (getFrom_before (Nat.lt_succ_self bin) hget).trans hbins
      apply NoPairs.setSize
      unfold insertChunk at hins
      rw [show binMax + 1 - bin = binMax - bin + 1 by omega, insertFrom] at hins
      have hbins₁ : (heap₁.setSize ((c + chunkSize bin) % 2 ^ 32) 0).bins bin = [] := hempty
      rw [hbins₁, walk] at hins
      cases hins
      apply NoPairs.setBin hrec
      intro _ x _ hx hu
      have hsize : 0 < chunkSize bin := chunkSize_pos
      have h1 := List.mem_singleton.mp hx
      have h2 := List.mem_singleton.mp hu
      omega
    · exact hp
    · exact hp

theorem getFrom_got (hb : bin ≤ binMax) (h : getFrom page fuel bin heap = some (c, got, heap')) :
    got = [] ∨ heap.bins binMax = [] ∧ page ≠ 0 ∧ got = [⟨page, pageSize⟩] := by
  induction fuel generalizing bin c got heap' with
  | zero => cases h
  | succ fuel ih =>
    obtain ⟨next, -, rfl, -⟩ | ⟨-, hbin, heap₁, hget, -⟩ | ⟨hbins, hbin, ⟨rfl, -⟩ | ⟨hpz, rfl, -⟩⟩ := getFrom_cases h
    · exact .inl rfl
    · exact ih (by omega) hget
    · exact .inl rfl
    · have hlast : bin = binMax := by omega
      subst hlast
      exact .inr ⟨hbins, hpz, rfl⟩

theorem malloc_small {len p : ℕ} (hs : isSmall len) (h : malloc page len heap = some (p, got, heap')) :
    ∃ c, getChunk page (binN ((len + wordSize) % 2 ^ 32)) heap = some (c, got, heap') := by
  have hs' : binN ((len + wordSize) % 2 ^ 32) ≤ binMax := hs
  unfold malloc at h
  simp only [if_pos hs', Option.map_eq_some_iff] at h
  obtain ⟨⟨c, got', heap₁⟩, hget, he⟩ := h
  cases he
  exact ⟨c, hget⟩

theorem malloc_noPairs {len p : ℕ} (hp : NoPairs heap) (h : malloc page len heap = some (p, got, heap')) :
    NoPairs heap' := by
  by_cases hs : isSmall len
  · obtain ⟨c, hget⟩ := malloc_small hs h
    exact getFrom_noPairs hp hget
  · have hs' : ¬ binN ((len + wordSize) % 2 ^ 32) ≤ binMax := hs
    unfold malloc at h
    simp only [if_neg hs'] at h
    split_ifs at h
    · cases h
      exact hp
    · cases h
      exact hp.setSize

end Pairs

section Runs

variable {live : List Live} {pages bigs : List Area} {heap : Heap}

structure PagesOk (pages : List Area) : Prop where
  page : ∀ a ∈ pages, pageSize ∣ a.start ∧ a.len = pageSize
  disjoint : pages.Pairwise Area.Disjoint

theorem HeapRun.pagesOk (run : HeapRun live pages bigs heap) : PagesOk pages := by
  induction run with
  | start => exact ⟨fun _ ha => (by cases ha), List.Pairwise.nil⟩
  | @malloc live pages bigs got heap heap' page len p run hlen hfresh h ih =>
    split_ifs with hs
    · obtain ⟨c, hget⟩ := malloc_small hs h
      obtain rfl | ⟨-, hpz, rfl⟩ := getFrom_got hs hget
      · exact ih
      · obtain ⟨hal, -, hd⟩ := hfresh.resolve_left hpz
        rw [frameLen, if_pos hs] at hd
        refine ⟨fun a ha => ?_, List.pairwise_cons.mpr ⟨fun a ha => ?_, ih.disjoint⟩⟩
        · obtain rfl | ha := List.mem_cons.mp ha
          · exact ⟨hal, rfl⟩
          · exact ih.page a ha
        · exact hd a (List.mem_append_left _ ha)
    · exact ih
  | free _ _ _ ih => exact ih

theorem ClearRun.noPairs (run : ClearRun live pages bigs heap) : NoPairs heap := by
  induction run with
  | start => exact fun _ _ _ _ hc => by cases hc
  | malloc _ _ _ h ih => exact malloc_noPairs ih h
  | @free live pages bigs heap heap' b run hb hclear h ih =>
    have hok := run.run.ok
    obtain ⟨hbase, -, hkind⟩ := hok.block b hb
    unfold Agatha.User.free at h
    rw [if_neg (by omega)] at h
    dsimp only at h
    obtain ⟨bin, hbin, hsize, hdvd, hfit⟩ | ⟨-, hbig⟩ := hkind
    · have hsmall : heap.small b = true := by
        apply decide_eq_true
        rw [hsize, binN_chunkSize hbin]
        exact hbin
      have hfind := hclear hsmall
      rw [hsize, binN_chunkSize hbin] at h hfind
      rw [if_pos hbin] at h
      have hfuel : binMax + 1 - bin + bin = binMax + 1 := by omega
      rw [← hfuel] at hfind
      have hcleared : FindsUpper (binMax + 1 - bin) bin (b.ptr - wordSize)
          (heap.setSize (b.ptr - wordSize) 0) :=
        @FindsUpper.congr heap _ _ _ _ (fun _ _ => rfl) hfind.mono
      exact insertFrom_noPairs hok.bins.setSize ih.setSize hdvd hfit hcleared h
    · rw [if_neg (Nat.not_le_of_lt hbig)] at h
      cases h
      exact ih

theorem mem_chunks {a : Area} : a ∈ heap.chunks ↔ ∃ bin ≤ binMax, ∃ c ∈ heap.bins bin, a = ⟨c, chunkSize bin⟩ := by
  unfold Heap.chunks binAreas
  simp only [List.mem_flatMap, List.mem_range, List.mem_map, Nat.lt_succ_iff, eq_comm]

theorem chunk_unique {bin bin' c d x : ℕ} (ht : Tidy heap.chunks) (hb : bin ≤ binMax) (hb' : bin' ≤ binMax)
    (hc : c ∈ heap.bins bin) (hd : d ∈ heap.bins bin') (hcx : c ≤ x ∧ x < c + chunkSize bin)
    (hdx : d ≤ x ∧ x < d + chunkSize bin') : c = d ∧ chunkSize bin = chunkSize bin' := by
  have hsymm : Std.Symm Area.Disjoint := ⟨fun _ _ h => h.symm⟩
  by_contra hne
  have hdis : Area.Disjoint ⟨c, chunkSize bin⟩ ⟨d, chunkSize bin'⟩ := by
    apply ht.disjoint.forall (mem_chunks.mpr ⟨bin, hb, c, hc, rfl⟩) (mem_chunks.mpr ⟨bin', hb', d, hd, rfl⟩)
    intro he
    exact hne (Area.mk.inj he)
  exact hdis.not_has hcx hdx

theorem HeapOk.chunks_tidy (h : HeapOk live pages bigs heap) : Tidy heap.chunks :=
  ⟨(List.pairwise_append.mp h.pieces.disjoint).2.1, fun a ha => h.pieces.pos a (List.mem_append_right _ ha)⟩

theorem HeapOk.covers_chunks (h : HeapOk live pages bigs heap) (hfree : live.filter heap.small = []) (x : ℕ) :
    Covers pages x ↔ Covers heap.chunks x := by
  rw [h.cover x, hfree]
  exact Iff.rfl

theorem covers_whole {bin whole x y : ℕ} (hp : PagesOk pages) (hb : bin ≤ binMax) (hd : chunkSize bin ∣ whole)
    (hx : whole ≤ x ∧ x < whole + chunkSize bin) (hy : whole ≤ y ∧ y < whole + chunkSize bin)
    (hcov : Covers pages x) : Covers pages y := by
  obtain ⟨a, ha, hax⟩ := hcov
  obtain ⟨hal, hlen⟩ := hp.page a ha
  refine ⟨a, ha, ?_⟩
  have hpage : chunkSize bin ∣ pageSize := chunkSize_dvd_of_le hb
  have hstart : chunkSize bin ∣ a.start := hpage.trans hal
  have hend : chunkSize bin ∣ a.start + pageSize := Nat.dvd_add hstart hpage
  unfold Area.Has at hax ⊢
  rw [hlen] at hax ⊢
  constructor
  · by_contra hlt
    have := add_le_of_dvd hd hstart (Nat.lt_of_le_of_lt hy.1 (Nat.not_le.mp hlt))
    omega
  · have := add_le_of_dvd hd hend (Nat.lt_of_le_of_lt hx.1 hax.2)
    omega

theorem no_small_chunk (hok : HeapOk live pages bigs heap) (hp : PagesOk pages) (hnp : NoPairs heap)
    (hfree : live.filter heap.small = []) {bin : ℕ} (hb : bin < binMax) : heap.bins bin = [] := by
  induction bin using Nat.strong_induction_on with
  | _ bin ih =>
    by_contra hne
    obtain ⟨c, hc⟩ := List.exists_mem_of_ne_nil _ hne
    have hpos : 0 < chunkSize bin := chunkSize_pos
    have htidy := hok.chunks_tidy
    have hcdvd := hok.bins.aligned bin c hc
    obtain ⟨whole, hw, hhalf⟩ : ∃ whole, chunkSize (bin + 1) ∣ whole ∧ (c = whole ∨ c = whole + chunkSize bin) := by
      by_cases hd : chunkSize (bin + 1) ∣ c
      · exact ⟨c, hd, .inl rfl⟩
      · have hle : chunkSize bin ≤ c := Nat.le_of_dvd (hok.bins.pos bin c hc) hcdvd
        have hsub : c = c - chunkSize bin + chunkSize bin := by omega
        refine ⟨c - chunkSize bin, ?_, .inr hsub⟩
        exact dvd_of_upper (Nat.dvd_sub hcdvd dvd_rfl) (hsub ▸ hd)
    -- the other half is in a chunk too
    obtain ⟨o, ho, hoc⟩ : ∃ o, (o = whole ∨ o = whole + chunkSize bin) ∧ o ≠ c := by
      obtain rfl | rfl := hhalf
      · exact ⟨c + chunkSize bin, .inr rfl, by omega⟩
      · exact ⟨whole, .inl rfl, by omega⟩
    have hsucc : chunkSize (bin + 1) = chunkSize bin + chunkSize bin := chunkSize_succ
    have hcov : Covers heap.chunks o := by
      rw [← hok.covers_chunks hfree]
      refine covers_whole hp (show bin + 1 ≤ binMax by omega) hw (x := c) (by omega) (by omega) ?_
      rw [hok.covers_chunks hfree]
      exact ⟨_, mem_chunks.mpr ⟨bin, hb.le, c, hc, rfl⟩, Nat.le_refl _, Nat.lt_add_of_pos_right hpos⟩
    obtain ⟨a, ha, hao⟩ := hcov
    obtain ⟨k, hk, d, hd, rfl⟩ := mem_chunks.mp ha
    have hddvd := hok.bins.aligned k d hd
    have hodvd : chunkSize bin ∣ o := by
      have hwdvd : chunkSize bin ∣ whole := (chunkSize_dvd_of_le (Nat.le_succ bin)).trans hw
      obtain rfl | rfl := ho
      · exact hwdvd
      · exact Nat.dvd_add hwdvd dvd_rfl
    obtain hlt | rfl | hgt := Nat.lt_trichotomy k bin
    · rw [ih k hlt (by omega)] at hd
      cases hd
    · have hdo : d = o := by
        by_contra hne'
        have := add_le_of_dvd hddvd hodvd (by unfold Area.Has at hao; dsimp only at hao; omega)
        unfold Area.Has at hao
        dsimp only at hao
        omega
      subst hdo
      obtain rfl | rfl := hhalf
      · obtain rfl | rfl := ho
        · exact hoc rfl
        · exact hnp k hb c hw hc hd
      · obtain rfl | rfl := ho
        · exact hnp k hb d hw hd hc
        · exact hoc rfl
    · -- a larger chunk has both halves
      have hbig : chunkSize (bin + 1) ∣ chunkSize k := chunkSize_dvd_of_le hgt
      unfold Area.Has at hao
      dsimp only at hao
      have hdw : d ≤ whole := by
        by_contra hlt
        have := add_le_of_dvd hw (hbig.trans hddvd) (Nat.not_le.mp hlt)
        omega
      have hwd : whole + chunkSize (bin + 1) ≤ d + chunkSize k :=
        add_le_of_dvd hw (Nat.dvd_add (hbig.trans hddvd) hbig) (by omega)
      have hsame := chunk_unique (x := c) htidy hb.le hk hc hd (by omega) (by omega)
      have hle : chunkSize (bin + 1) ≤ chunkSize k := Nat.le_of_dvd chunkSize_pos hbig
      omega

theorem HeapOk.covers_last (hok : HeapOk live pages bigs heap) (hempty : ∀ bin < binMax, heap.bins bin = [])
    (hfree : live.filter heap.small = []) (x : ℕ) :
    Covers pages x ↔ ∃ c ∈ heap.bins binMax, c ≤ x ∧ x < c + pageSize := by
  rw [hok.covers_chunks hfree]
  constructor
  · rintro ⟨a, ha, hax⟩
    obtain ⟨bin, hb, c, hc, rfl⟩ := mem_chunks.mp ha
    obtain hlt | rfl := Nat.lt_or_eq_of_le hb
    · rw [hempty bin hlt] at hc
      cases hc
    · exact ⟨c, hc, hax⟩
  · rintro ⟨c, hc, hx⟩
    exact ⟨_, mem_chunks.mpr ⟨binMax, Nat.le_refl _, c, hc, rfl⟩, hx⟩

theorem eq_of_dvd {n a b : ℕ} (ha : n ∣ a) (hb : n ∣ b) (h : a ≤ b) (h' : b < a + n) : a = b := by
  by_contra hne
  have := add_le_of_dvd ha hb (Nat.lt_of_le_of_ne h hne)
  omega

theorem pages_perm (hok : HeapOk live pages bigs heap) (hp : PagesOk pages)
    (hempty : ∀ bin < binMax, heap.bins bin = []) (hfree : live.filter heap.small = []) :
    pages.Perm (binAreas binMax (heap.bins binMax)) := by
  have hpos : 0 < pageSize := by decide
  have hlast : chunkSize binMax = pageSize := rfl
  have hal := hok.bins.aligned binMax
  have hnd : pages.Nodup := by
    refine hp.disjoint.imp_of_mem fun {a b} ha _ hd he => ?_
    subst he
    have hself : a.Has a.start := ⟨Nat.le_refl _, by rw [(hp.page a ha).2]; omega⟩
    exact hd.not_has hself hself
  have hnd' : (binAreas binMax (heap.bins binMax)).Nodup := by
    refine List.Nodup.map (fun x y h => congrArg Area.start h) ?_
    exact (hok.bins.sorted binMax).imp fun h => h.ne
  refine (List.perm_ext_iff_of_nodup hnd hnd').mpr fun a => ?_
  constructor
  · intro ha
    obtain ⟨hdvd, hlen⟩ := hp.page a ha
    obtain ⟨c, hc, hle, hlt⟩ := (hok.covers_last hempty hfree a.start).mp
      ⟨a, ha, Nat.le_refl _, by rw [hlen]; omega⟩
    have heq := eq_of_dvd (hal c hc) hdvd hle hlt
    refine List.mem_map.mpr ⟨c, hc, ?_⟩
    rw [heq, hlast, ← hlen]
  · intro ha
    obtain ⟨c, hc, rfl⟩ := List.mem_map.mp ha
    obtain ⟨a, ha, hle, hlt⟩ := (hok.covers_last hempty hfree c).mpr ⟨c, hc, Nat.le_refl _, by omega⟩
    obtain ⟨hdvd, hlen⟩ := hp.page a ha
    rw [hlen] at hlt
    have heq := eq_of_dvd hdvd (hal c hc) hle hlt
    have : (⟨c, chunkSize binMax⟩ : Area) = a := by
      rw [hlast, ← hlen, ← heq]
    exact this ▸ ha

theorem coalesced_of_clear (run : ClearRun live pages bigs heap) (hfree : live.filter heap.small = []) :
    Coalesced pages heap := by
  have hok := run.run.ok
  have hp := run.run.pagesOk
  have hempty : ∀ bin < binMax, heap.bins bin = [] := fun bin hb => no_small_chunk hok hp run.noPairs hfree hb
  have hperm := pages_perm hok hp hempty hfree
  refine ⟨hperm, hempty, fun hne page len p got heap' hs h => ?_⟩
  obtain ⟨c, hget⟩ := malloc_small hs h
  refine (getFrom_got hs hget).resolve_right fun hlast => hne ?_
  rw [hlast.1] at hperm
  exact hperm.eq_nil

theorem coalesced_of_clear_halves : ∃ heap, ClearRun [] [⟨0x1000, 0x1000⟩] [] heap ∧
    free 0x1804 upperHalf = some heap ∧ Coalesced [⟨0x1000, 0x1000⟩] heap := by
  have hfresh : Fresh 0x1000 2000 ([] ++ []) := .inr ⟨by decide, by decide, fun f hf => by cases hf⟩
  have hlower : ClearRun [⟨0x1004, 2000⟩] [⟨0x1000, 0x1000⟩] [] lowerHalf :=
    ClearRun.start.malloc (by decide) hfresh halves_malloc.1
  have hboth : ClearRun [⟨0x1804, 2000⟩, ⟨0x1004, 2000⟩] [⟨0x1000, 0x1000⟩] [] bothHalves :=
    hlower.malloc (by decide) (.inl rfl) halves_malloc.2
  have hclear₁ : FreeClear bothHalves ⟨0x1004, 2000⟩ := by
    rintro - -
    refine ⟨fun _ => by decide, ?_⟩
    rintro whole - (⟨-, h⟩ | ⟨-, h⟩) <;> exact absurd h List.not_mem_nil
  have hupper : ClearRun [⟨0x1804, 2000⟩] [⟨0x1000, 0x1000⟩] [] upperHalf :=
    hboth.free (b := ⟨0x1004, 2000⟩) (by decide) hclear₁ halves_free
  have hclear₂ : FreeClear upperHalf ⟨0x1804, 2000⟩ := by
    rintro - -
    refine ⟨fun h => absurd h (by decide), fun whole _ _ hlast => absurd hlast (by decide)⟩
  have hfree : free 0x1804 upperHalf =
      some ((((upperHalf.setSize 0x1800 0).setBin 6 [])).setBin binMax [0x1000]) := rfl
  have hdone : ClearRun [] [⟨0x1000, 0x1000⟩] [] _ := hupper.free List.mem_cons_self hclear₂ hfree
  exact ⟨_, hdone, hfree, coalesced_of_clear hdone rfl⟩

theorem pieces_left : ¬ ∀ live pages bigs heap, HeapRun live pages bigs heap → live.filter heap.small = [] →
    Coalesced pages heap := by
  intro h
  have hfresh : Fresh 0x1000 10 ([] ++ []) := .inr ⟨by decide, by decide, fun f hf => by cases hf⟩
  have hrun : HeapRun [] [] [] emptyHeap := .start
  obtain ⟨⟨p, got, heap⟩, hmalloc⟩ := Option.isSome_iff_exists.mp
    ((heap_integrity hrun).2.1 0x1000 10 (by decide) hfresh)
  have hp : (malloc 0x1000 10 emptyHeap).map Prod.fst = some 0x1004 := by decide
  rw [hmalloc] at hp
  obtain rfl : p = 0x1004 := Option.some.inj hp
  have hrun₁ := hrun.malloc (by decide) hfresh hmalloc
  obtain ⟨heap', hfree⟩ := Option.isSome_iff_exists.mp ((heap_integrity hrun₁).2.2 _ List.mem_cons_self)
  have hdone := hrun₁.free List.mem_cons_self hfree
  have hbin : ((malloc 0x1000 10 emptyHeap).bind fun x => free 0x1004 x.2.2).map (fun x => x.bins 0) =
      some [0x1000, 0x1020] := by decide
  rw [hmalloc] at hbin
  have hbin' : heap'.bins 0 = [0x1000, 0x1020] := by
    have hfree' : free 0x1004 heap = some heap' := hfree
    simpa [hfree'] using hbin
  have hempty := (h _ _ _ _ hdone rfl).empty 0 (by decide)
  rw [hbin'] at hempty
  cases hempty

end Runs

end Agatha.User
