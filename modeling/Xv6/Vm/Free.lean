import Xv6.Vm.Space

/-!
Making and freeing a whole page table: `freewalk` and `uvmfree` of `kernel/vm.c`,
`proc_pagetable` and `proc_freepagetable` of `kernel/proc.c`.
-/

namespace Xv6.Vm

open Lib.Bytes Lib.Wp Lib.Conc Lib.Own Lib.Conc.Prog Function

variable {T T' : Tree} {root n m q : ℕ} {h h' : PageHeap} {ι : Type} [DecidableEq ι]
  {E : Stop → Phys → Prop} {p : ι}

/-! ### The pages below a node -/

/-- `k` is the page of node `x` of level `l`, or of one below it. -/
def Under (T : Tree) : ℕ → ℕ → ℕ → Prop
  | 0, x, k => T.tab 0 x = some k
  | l + 1, x, k => T.tab (l + 1) x = some k ∨ ∃ i < 512, Under T l (512 * x + i) k

lemma Under.node {l x k : ℕ} (hk : T.tab l x = some k) : Under T l x k := by
  cases l with
  | zero => exact hk
  | succ l => exact .inl hk

lemma Under.path {l x k : ℕ} (hk : Under T l x k) :
    ∃ l' x', l' ≤ l ∧ T.tab l' x' = some k ∧ x' / 512 ^ (l - l') = x := by
  induction l generalizing x with
  | zero => exact ⟨0, x, le_rfl, hk, by simp⟩
  | succ l ih =>
    rcases hk with hk | ⟨i, hi, hk⟩
    · exact ⟨l + 1, x, le_rfl, hk, by simp⟩
    · obtain ⟨l', x', hle, htab, hdiv⟩ := ih hk
      refine ⟨l', x', by omega, htab, ?_⟩
      rw [show l + 1 - l' = (l - l') + 1 by omega, pow_succ, ← Nat.div_div_eq_div_mul, hdiv]
      omega

lemma Under.has {l x k : ℕ} (hk : Under T l x k) : T.Has k := by
  obtain ⟨l', x', -, htab, -⟩ := hk.path
  exact ⟨l', x', htab⟩

section

variable {l x k y : ℕ} (H : Holds T root h)

include H

lemma Under.node_ne (hl : l ≤ 2) (hk : Under T l x k) :
    T.tab l x ≠ none := by
  induction l generalizing x with
  | zero =>
    rw [show T.tab 0 x = some k from hk]
    simp
  | succ l ih =>
    rcases hk with hk | ⟨i, hi, hk⟩
    · simp [hk]
    · have hup := H.up l _ (by omega) (ih (by omega) hk)
      rwa [show (512 * x + i) / 512 = x by omega] at hup

lemma Under.eq (hx : Under T l x k) (hy : Under T l y k) : x = y := by
  obtain ⟨l₁, x₁, -, ht₁, hd₁⟩ := hx.path
  obtain ⟨l₂, x₂, -, ht₂, hd₂⟩ := hy.path
  obtain ⟨rfl, rfl⟩ := H.inj _ _ _ _ _ ht₁ ht₂
  rw [← hd₁, ← hd₂]

lemma Under.ne (hq : T.tab (l + 1) x = some q) (hk : Under T l y k) : k ≠ q := by
  rintro rfl
  obtain ⟨l', x', hle, htab, -⟩ := hk.path
  have := (H.inj _ _ _ _ _ hq htab).1
  omega

lemma Holds.under_root (hk : T.Has k) : Under T 2 0 k := by
  obtain ⟨l, x, htab⟩ := hk
  have hne : T.tab l x ≠ none := by simp [htab]
  by_cases h2 : 2 ≤ l
  · obtain ⟨rfl, rfl⟩ := H.top l x h2 hne
    exact .inl htab
  have hup := H.up l x (by omega) hne
  by_cases h1 : l = 1
  · subst h1
    obtain ⟨-, h0⟩ := H.top 2 _ le_rfl hup
    exact .inr ⟨x, by omega, .inl (by simpa using htab)⟩
  · obtain rfl : l = 0 := by omega
    have hup' := H.up 1 _ (by omega) hup
    obtain ⟨-, h0⟩ := H.top 2 _ le_rfl hup'
    refine .inr ⟨x / 512, by omega, .inr ⟨x % 512, by omega, ?_⟩⟩
    rw [Nat.mul_zero, Nat.zero_add, Nat.div_add_mod]
    exact htab

end

/-! ### `freewalk` -/

/-- The page of a node holds its entries from `i` on. -/
def Entries (T : Tree) (l x q i : ℕ) (h : PageHeap) : Prop :=
  ∃ c, h q = some c ∧ ∀ j, i ≤ j → j < 512 → le c (8 * j) 8 = T.entry l (512 * x + j)

/-- After `i` rounds of `freewalk` at a node: the pages below its first entries are free. -/
structure Freeing (T : Tree) (l x q i : ℕ) (h h' : PageHeap) : Prop where
  entries : Entries T (l + 1) x q i h'
  gone : ∀ j < i, ∀ k, Under T l (512 * x + j) k → h' k = none
  kept : ∀ k, k ≠ q → (∀ j < i, ¬ Under T l (512 * x + j) k) → h' k = h k

lemma valid_not_leaf (r : ℕ) :
    (pa2pte r ||| PTE_V) &&& PTE_V ≠ 0 ∧ (pa2pte r ||| PTE_V) &&& (PTE_R ||| PTE_W ||| PTE_X) = 0 := by
  refine ⟨valid_node r, ?_⟩
  rw [and_flag _ (by decide), pteFlags_or r (by decide)]
  decide

lemma Freeing.step {h₀ : PageHeap} (H : Holds T root h₀) {l x i depth : ℕ} {h₁ : PageHeap}
    (hq : T.tab (l + 1) x = some q) (F : Freeing T l x q i h h₁) (hi : i < 512)
    (hpages : ∀ l' x' r', T.tab l' x' = some r' → Under T (l + 1) x r' → Entries T l' x' r' 0 h)
    (ih : ∀ r h₂, T.tab l (512 * x + i) = some r →
      (∀ l' x' r', T.tab l' x' = some r' → Under T l (512 * x + i) r' → Entries T l' x' r' 0 h₂) →
      Ok E p (freewalk depth r) (fun _ h₃ => (∀ k, Under T l (512 * x + i) k → h₃ k = none) ∧
        ∀ k, ¬ Under T l (512 * x + i) k → h₃ k = h₂ k) h₂) :
    Ok E p (do
        let pte ← load (q + 8 * i)
        if pte &&& PTE_V ≠ 0 ∧ pte &&& (PTE_R ||| PTE_W ||| PTE_X) = 0 then do
          freewalk depth (pte2pa pte)
          store (q + 8 * i) 0
          return Sum.inl (i + 1)
        else do
          panicIf (pte &&& PTE_V ≠ 0) "freewalk: leaf"
          return Sum.inl (i + 1))
      (fun (r : ℕ ⊕ Unit) h₂ => r = .inl (i + 1) ∧ Freeing T l x q (i + 1) h h₂) h₁ := by
  obtain ⟨⟨c, hc, hent⟩, hgone, hkept⟩ := F
  refine Safe.bind_read (load_ok hc (by omega)) fun v hv => ?_
  rw [hv, hent i le_rfl hi]
  cases ht : T.tab l (512 * x + i) with
  | none =>
    -- nothing below this entry
    have hnone : ∀ k, ¬ Under T l (512 * x + i) k := by
      intro k hk
      obtain ⟨l', x', hle, htab, hdiv⟩ := hk.path
      have hup : ∀ d, d ≤ l - l' → T.tab (l' + d) (x' / 512 ^ d) ≠ none := by
        intro d hd
        induction d with
        | zero => simp [htab]
        | succ d ihd =>
          have hlt : l' + d < 2 := by
            have := (H.top (l + 1) x)
            by_contra hge
            have := this (by omega) (by simp [hq])
            omega
          have := H.up _ _ hlt (ihd (by omega))
          rwa [Nat.div_div_eq_div_mul, ← pow_succ] at this
      have := hup (l - l') le_rfl
      rw [show l' + (l - l') = l by omega, hdiv] at this
      exact this ht
    rw [entry_none ht, if_neg (by simp)]
    refine Safe.bind (panicIf_ok (by simp)) ?_
    rintro _ h₂ rfl
    refine ⟨rfl, ⟨c, hc, fun j hj => hent j (by omega)⟩, fun j hj k hk => ?_, fun k hk hno => ?_⟩
    · rcases Nat.lt_succ_iff_lt_or_eq.mp hj with hj | rfl
      · exact hgone j hj k hk
      · exact absurd hk (hnone k)
    · exact hkept k hk fun j hj => hno j (by omega)
  | some r =>
    have hr := H.ram _ _ _ ht
    rw [entry_some ht, if_pos (valid_not_leaf r), pte2pa_node hr]
    refine Safe.bind (ih r h₁ ht fun l' x' r' ht' hu => ?_) ?_
    · obtain ⟨c', hc', he'⟩ := hpages l' x' r' ht' (.inr ⟨i, hi, hu⟩)
      refine ⟨c', ?_, he'⟩
      rw [hkept r' (hu.ne H hq) fun j hj hu' => ?_]
      · exact hc'
      · have := hu.eq H hu'
        omega
    · rintro _ h₂ ⟨hnone, hsame⟩
      have hqc : h₂ q = some c := by
        rw [hsame q fun hu => hu.ne H hq rfl]
        exact hc
      refine Safe.bind (store_ok hqc (by omega) 0) ?_
      rintro _ h₃ rfl
      refine ⟨rfl, ⟨_, update_self .., fun j hj hj' => ?_⟩, fun j hj k hk => ?_,
        fun k hk hno => ?_⟩
      · rw [le_put hi (by decide), if_neg (by omega)]
        exact hent j (by omega) hj'
      · rw [update_of_ne (hk.ne H hq)]
        rcases Nat.lt_succ_iff_lt_or_eq.mp hj with hj | rfl
        · rw [hsame k fun hu => by have := hu.eq H hk; omega]
          exact hgone j hj k hk
        · exact hnone k hk
      · rw [update_of_ne hk, hsame k (hno i (by omega))]
        exact hkept k hk fun j hj => hno j (by omega)

/-- **What `freewalk` does.** The pages of the node and of all below it are free. -/
theorem freewalk_ok {h₀ : PageHeap} (H : Holds T root h₀) (hpte : ∀ v, T.pte v = 0) {l : ℕ} {x depth : ℕ}
    (hdepth : l < depth) (hq : T.tab l x = some q)
    (hpages : ∀ l' x' r', T.tab l' x' = some r' → Under T l x r' → Entries T l' x' r' 0 h) :
    Ok E p (freewalk depth q) (fun _ h' => (∀ k, Under T l x k → h' k = none) ∧
      ∀ k, ¬ Under T l x k → h' k = h k) h := by
  obtain ⟨depth, rfl⟩ := Nat.exists_eq_add_one_of_ne_zero (by omega : depth ≠ 0)
  induction l generalizing x q h depth with
  | zero =>
    unfold freewalk
    obtain ⟨c, hc, hent⟩ := hpages 0 x q hq (Under.node hq)
    -- all entries are empty
    refine Safe.bind (Q := fun _ h' => h' = h) (safe_loop (fun k i h' => k = 512 - i ∧ h' = h)
      (n := 512) ⟨rfl, rfl⟩ (by decide) ?_) ?_
    · rintro k i h' ⟨rfl, rfl⟩
      by_cases hi : i < 512
      · rw [if_pos hi]
        refine Safe.bind_read (load_ok hc (by omega)) fun v hv => ?_
        rw [hv, hent i (Nat.zero_le i) hi, Tree.entry, hpte, if_neg (by simp)]
        refine Safe.bind (panicIf_ok (by simp)) ?_
        rintro _ h'' rfl
        exact ⟨512 - (i + 1), by omega, rfl, rfl⟩
      · rw [if_neg hi]
        exact rfl
    · rintro _ h' rfl
      refine Safe.mono (kfree_ok (by rw [hc]; simp)) ?_
      rintro _ h'' rfl
      refine ⟨fun k hk => ?_, fun k hk => update_of_ne ?_ _ _⟩
      · obtain rfl : k = q := by
          have : T.tab 0 x = some k := hk
          rw [hq] at this
          cases this
          rfl
        exact update_self ..
      · rintro rfl
        exact hk hq
  | succ l ih =>
    unfold freewalk
    refine Safe.bind (Q := fun _ h' => Freeing T l x q 512 h h')
      (safe_loop (fun k i h' => k = 512 - i ∧ i ≤ 512 ∧ Freeing T l x q i h h') (n := 512)
        ⟨rfl, Nat.zero_le _, hpages _ _ _ hq (Under.node hq), fun j hj => absurd hj (by omega),
          fun _ _ _ => rfl⟩ (by decide) ?_) ?_
    · rintro k i h' ⟨rfl, hi, F⟩
      by_cases hlt : i < 512
      · rw [if_pos hlt]
        obtain ⟨depth, rfl⟩ := Nat.exists_eq_add_one_of_ne_zero (by omega : depth ≠ 0)
        refine Safe.mono (F.step H hq hlt hpages fun r h₂ hr hp => ih hr hp depth (by omega)) ?_
        rintro _ h₂ ⟨rfl, F₂⟩
        exact ⟨512 - (i + 1), by omega, rfl, by omega, F₂⟩
      · rw [if_neg hlt]
        obtain rfl : i = 512 := by omega
        exact F
    · rintro _ h' ⟨⟨c, hc, -⟩, hgone, hkept⟩
      refine Safe.mono (kfree_ok (by rw [hc]; simp)) ?_
      rintro _ h'' rfl
      refine ⟨fun k hk => ?_, fun k hk => ?_⟩
      · by_cases hkq : k = q
        · rw [hkq, update_self]
        · rw [update_of_ne hkq]
          rcases hk with hk | ⟨i, hi, hk⟩
          · rw [hq] at hk
            cases hk
            exact absurd rfl hkq
          · exact hgone i hi k hk
      · have hkq : k ≠ q := by
          rintro rfl
          exact hk (Under.node hq)
        rw [update_of_ne hkq]
        exact hkept k hkq fun j hj hu => hk (.inr ⟨j, hj, hu⟩)

lemma Holds.freewalk_root (H : Holds T root h) (hpte : ∀ v, T.pte v = 0) :
    Ok E p (freewalk rounds root) (fun _ h' => (∀ k, T.Has k → h' k = none) ∧
      ∀ k, ¬ T.Has k → h' k = h k) h := by
  refine Safe.mono (freewalk_ok H hpte (by decide) H.root fun l x r hr _ => ?_) ?_
  · obtain ⟨c, hc, hent⟩ := H.page l x r hr
    exact ⟨c, hc, fun j _ hj => hent j hj⟩
  · rintro _ h' ⟨hgone, hkept⟩
    exact ⟨fun k hk => hgone k (H.under_root hk), fun k hk => hkept k fun hu => hk hu.has⟩

/-- Nothing. -/
abbrev Nothing (_ : ℕ) : Prop := False

/-- **What `uvmfree` does.** All pages of an address space with no top pages are free. -/
theorem Space.uvmfree_ok (S : Space T root n h) (htop : ∀ v, IsTop v → T.pte v = 0) {sz : ℕ}
    (hsz : pages sz = n) :
    Ok E p (uvmfree root sz) (fun _ h' => Moves (Foot T n) h Nothing h') h := by
  have hfoot : ∀ T' h', Shrunk T root n h 0 T' h' → ∀ v, T'.pte v = 0 := by
    intro T' h' U v
    by_cases hv : IsTop v
    · rw [U.pte, unmapped]
      split
      · rfl
      · exact htop v hv
    · exact U.space.void v (Nat.zero_le v) hv
  refine Safe.bind (Q := fun _ h' => ∃ T', Shrunk T root n h 0 T' h') (safe_doIf (fun hpos => ?_)
    fun hno => ?_) ?_
  · have hnum : pgRoundUp sz / PGSIZE = n - 0 := by
      rw [pgRoundUp_pages (S.size_le hsz), hsz]
      simp only [PGSIZE]
      omega
    rw [hnum]
    exact S.unmap_last (Nat.zero_le n)
  · have h0 : n = 0 := by
      rw [← hsz, show sz = 0 by omega]
      rfl
    subst h0
    exact ⟨T, S.shrunk_refl⟩
  · rintro _ h₁ ⟨T₁, U⟩
    refine Safe.mono (U.space.holds.freewalk_root (hfoot T₁ h₁ U)) ?_
    rintro _ h₂ ⟨hgone, hkept⟩
    refine U.moves.trans ⟨fun k hk _ => hkept k fun hh => hk (.inl hh), fun k hk _ => ?_,
      fun k _ hk => absurd hk not_false⟩
    rcases hk with hk | hk
    · exact hgone k hk
    · exact absurd hk (maps_zero k)

/-! ### The two pages at the top -/

lemma isTop_lt {v : ℕ} (hv : IsTop v) : v < VPAGES ∧ RAMPAGES < v := by
  simp only [IsTop, TRAPFRAME, TRAMPOLINE, MAXVA, PGSIZE, VPAGES, RAMPAGES] at *
  omega

section

variable {v : ℕ} (S : Space T root n h) (hv : IsTop v)

include S hv

lemma Space.set_top (H : Holds T' root h') (G : Grown T h T' h') {e : ℕ}
    (hp : T'.pte = update T.pte v e) :
    Space T' root n h' ∧ Moves (Foot T n) h (Foot T' n) h' := by
  have hle := S.le
  have htop := (isTop_lt hv).2
  have hold : ∀ w < n, T'.pte w = T.pte w := by
    intro w hw
    rw [hp, update_of_ne (by omega)]
  refine ⟨⟨H, fun w hw => ?_, fun w hw => ?_, fun w w' hww hw => ?_, fun w hw hno => ?_⟩, G.moves hold⟩
  · rw [hold w hw]
    exact S.leaf w hw
  · obtain ⟨h1, h2, h3⟩ := S.page w hw
    rw [hold w hw, G.kept h2 h3]
    exact ⟨h1, h2, G.not_has h2 h3⟩
  · rw [hold w (by omega), hold w' hw]
    exact S.distinct w w' hww hw
  · rw [hp, update_of_ne (by rintro rfl; exact hno hv)]
    exact S.void w hw hno

lemma Space.map_top {pa perm : ℕ} (hz : T.pte v = 0) (hpa : pa < 2 ^ 64) (hperm : perm < 1024) :
    Ok E p (mappages root (4096 * v) PGSIZE pa perm) (fun ok h' => ∃ T', Space T' root n h' ∧
      Moves (Foot T n) h (Foot T' n) h' ∧ T'.pte = if ok then
        update T.pte v (pa2pte pa ||| (perm ||| PTE_V)) else T.pte) h := by
  refine Safe.mono (S.holds.mappages_one (isTop_lt hv).1 hz hpa hperm) ?_
  rintro ok h' ⟨T', H, G, hp⟩
  cases ok with
  | true =>
    obtain ⟨S', M⟩ := S.set_top hv H G hp
    exact ⟨T', S', M, hp⟩
  | false =>
    have hp' : T'.pte = T.pte := hp
    exact ⟨T', S.grow H G hp', G.moves fun v _ => by rw [hp'], hp⟩

lemma Space.unmap_top (hleaf : T.pte v &&& PTE_V ≠ 0 ∧ pteFlags (T.pte v) ≠ PTE_V) :
    Ok E p (uvmunmap root (4096 * v) 1 false) (fun _ h' => ∃ T', Space T' root n h' ∧
      Moves (Foot T n) h (Foot T' n) h' ∧ T'.pte = update T.pte v 0) h := by
  have hlt := (isTop_lt hv).1
  have hdiv : 4096 * v / 4096 = v := by omega
  have hcount : unmapCount (4096 * v) 1 = 1 := by
    simp only [unmapCount, u64, PGSIZE, VPAGES] at *
    omega
  refine Safe.mono (S.holds.uvmunmap_ok (4096 * v) 1 (fun _ hc => by cases hc) (.inl ⟨by omega, ?_⟩)) ?_
  · intro w h1 h2
    rw [hdiv] at h1
    rw [hdiv, hcount] at h2
    obtain rfl : w = v := by omega
    exact ⟨hlt, hleaf⟩
  · rintro _ h' ⟨-, T', U⟩
    rw [hdiv, hcount] at U
    have hp : T'.pte = update T.pte v 0 := by
      rw [U.pte, ← unmapped_succ, unmapped_zero, Nat.add_zero]
    have G : Grown T h T' h' := ⟨fun l x q hq => by rw [U.tab]; exact hq,
      fun l x q hq => by rw [U.tab] at hq; exact .inl hq,
      fun k hk => U.kept k (fun hh => hk ((has_congr U.tab k).mpr hh)) fun hc => by cases hc⟩
    obtain ⟨S', M⟩ := S.set_top hv U.holds G hp
    exact ⟨T', S', M, hp⟩

end

/-- The top pages of a process are the trampoline and its trapframe, neither for the user. -/
structure Tops (T : Tree) (trapframe : ℕ) : Prop where
  trampoline : ∃ pa < 2 ^ 64, T.pte (TRAMPOLINE / 4096) = pa2pte pa ||| (PTE_R ||| PTE_X ||| PTE_V)
  trapframe : T.pte (TRAPFRAME / 4096) = pa2pte trapframe ||| (PTE_R ||| PTE_W ||| PTE_V)

variable {tf : ℕ}

lemma Tops.leaf_trampoline (t : Tops T tf) :
    T.pte (TRAMPOLINE / 4096) &&& PTE_V ≠ 0 ∧ pteFlags (T.pte (TRAMPOLINE / 4096)) ≠ PTE_V := by
  obtain ⟨pa, -, h⟩ := t.trampoline
  rw [h]
  refine ⟨valid_or pa (by decide : PTE_R ||| PTE_X < 1024), ?_⟩
  rw [pteFlags_or pa (by decide)]
  decide

lemma Tops.leaf_trapframe (t : Tops T tf) :
    T.pte (TRAPFRAME / 4096) &&& PTE_V ≠ 0 ∧ pteFlags (T.pte (TRAPFRAME / 4096)) ≠ PTE_V := by
  rw [t.trapframe]
  refine ⟨valid_or tf (by decide : PTE_R ||| PTE_W < 1024), ?_⟩
  rw [pteFlags_or tf (by decide)]
  decide

lemma Tops.congr (t : Tops T tf) (hp : ∀ v, IsTop v → T'.pte v = T.pte v) : Tops T' tf := by
  obtain ⟨h1, h2⟩ := t
  refine ⟨?_, ?_⟩
  · rw [hp _ (.inr rfl)]
    exact h1
  · rw [hp _ (.inl rfl)]
    exact h2

lemma TRAMPOLINE_eq : TRAMPOLINE = 4096 * (TRAMPOLINE / 4096) := by decide

lemma TRAPFRAME_eq : TRAPFRAME = 4096 * (TRAPFRAME / 4096) := by decide

lemma tops_ne : TRAPFRAME / 4096 ≠ TRAMPOLINE / 4096 := by decide

/-- **What `proc_freepagetable` does.** All pages of the address space are free. -/
theorem Space.procFreepagetable_ok (S : Space T root n h) {sz : ℕ} (t : Tops T tf)
    (hsz : pages sz = n) :
    Ok E p (procFreepagetable root sz) (fun _ h' => Moves (Foot T n) h Nothing h') h := by
  unfold procFreepagetable
  rw [TRAMPOLINE_eq]
  refine Safe.bind (S.unmap_top (.inr rfl) t.leaf_trampoline) ?_
  rintro _ h₁ ⟨T₁, S₁, M₁, hp₁⟩
  have hp₁' : T₁.pte (TRAPFRAME / 4096) = T.pte (TRAPFRAME / 4096) := by
    rw [hp₁, update_of_ne tops_ne]
  have hunmap := S₁.unmap_top (E := E) (p := p) (v := TRAPFRAME / 4096) (.inl rfl)
    (by rw [hp₁']; exact t.leaf_trapframe)
  rw [← TRAPFRAME_eq] at hunmap
  refine Safe.bind hunmap ?_
  rintro _ h₂ ⟨T₂, S₂, M₂, hp₂⟩
  refine Safe.mono (S₂.uvmfree_ok (fun v hv => ?_) hsz) ?_
  · rcases hv with rfl | rfl
    · rw [hp₂, update_self]
    · rw [hp₂, update_of_ne tops_ne.symm, hp₁, update_self]
  · rintro _ h₃ M₃
    exact (M₁.trans M₂).trans M₃

/-! ### A new address space -/

lemma getTrampoline_ok : Ok E p getTrampoline (fun pa h' => pa < 2 ^ 64 ∧ h' = h) h := by
  refine safe_lift fun s ℓ hI hl => ?_
  rw [wp_map]
  refine ⟨h, ?_, s.trampoline_lt, rfl⟩
  rw [← hl, update_eq_self]
  exact hI

lemma space_empty (hr : Ram root) (hnone : h root = none) :
    Space (Tree.empty root) root 0 (update h root (some zeroes)) ∧
      Moves Nothing h (Foot (Tree.empty root) 0) (update h root (some zeroes)) := by
  refine ⟨⟨holds_empty hr (update_self ..), fun v hv => absurd hv (by omega),
    fun v hv => absurd hv (by omega), fun v w _ hw => absurd hw (by omega), fun _ _ _ => rfl⟩, ?_⟩
  refine (Moves.take (F := Nothing) hnone zeroes).congr (fun _ => Iff.rfl) fun k => ?_
  rw [Foot, has_empty, false_or]
  exact ⟨fun hk => .inl hk, fun hk => hk.resolve_right (maps_zero k)⟩

/-- **What `proc_pagetable` does.** There is a new address space without user pages, or nothing has
changed. -/
theorem procPagetable_ok (htf : tf < 2 ^ 64) :
    Ok E p (procPagetable tf) (fun r h' => (r = 0 ∧ h' = h) ∨
      (Ram r ∧ ∃ T, Space T r 0 h' ∧ Tops T tf ∧ Moves Nothing h (Foot T 0) h')) h := by
  -- nothing is left when the table is freed again
  have hfree : ∀ r T₁ h₁, Space T₁ r 0 h₁ → (∀ v, IsTop v → T₁.pte v = 0) →
      Moves Nothing h (Foot T₁ 0) h₁ →
      Ok E p (do
        uvmfree r 0
        return 0) (fun r h' => (r = 0 ∧ h' = h) ∨
          (Ram r ∧ ∃ T, Space T r 0 h' ∧ Tops T tf ∧ Moves Nothing h (Foot T 0) h')) h₁ := by
    intro r T₁ h₁ S₁ htop M₁
    refine Safe.bind (S₁.uvmfree_ok htop (by rfl)) ?_
    rintro _ h₂ M₂
    exact .inl ⟨rfl, (M₁.trans M₂).eq_of_none (fun _ => not_false) fun _ => not_false⟩
  unfold procPagetable
  refine Safe.bind uvmcreate_ok ?_
  rintro r h₁ (⟨rfl, rfl⟩ | ⟨hr, hnone, rfl⟩)
  · rw [if_pos rfl]
    exact .inl ⟨rfl, rfl⟩
  rw [if_neg hr.ne_zero]
  obtain ⟨S₁, M₁⟩ := space_empty hr hnone
  refine Safe.bind_read getTrampoline_ok fun pa hpa => ?_
  rw [TRAMPOLINE_eq]
  refine Safe.bind (S₁.map_top (.inr rfl) rfl hpa (by decide)) ?_
  rintro ok h₂ ⟨T₂, S₂, M₂, hp₂⟩
  cases ok with
  | false =>
    rw [if_neg (by decide)]
    refine hfree r T₂ h₂ S₂ (fun v _ => ?_) (M₁.trans M₂)
    rw [hp₂]
    rfl
  | true =>
    rw [if_pos rfl]
    simp only [if_true] at hp₂
    have hzero : T₂.pte (TRAPFRAME / 4096) = 0 := by
      rw [hp₂, update_of_ne tops_ne]
      rfl
    have hmap := S₂.map_top (E := E) (p := p) (.inl rfl) hzero htf (by decide : PTE_R ||| PTE_W < 1024)
    rw [← TRAPFRAME_eq] at hmap
    refine Safe.bind hmap ?_
    rintro ok h₃ ⟨T₃, S₃, M₃, hp₃⟩
    have htramp : T₃.pte (TRAMPOLINE / 4096) = pa2pte pa ||| (PTE_R ||| PTE_X ||| PTE_V) := by
      rw [hp₃]
      split
      · rw [update_of_ne tops_ne.symm, hp₂, update_self]
      · rw [hp₂, update_self]
    cases ok with
    | true =>
      rw [if_pos rfl]
      refine .inr ⟨hr, T₃, S₃, ⟨⟨pa, hpa, htramp⟩, ?_⟩, (M₁.trans M₂).trans M₃⟩
      rw [hp₃, if_pos rfl, update_self]
    | false =>
      rw [if_neg (by decide)]
      have hleaf : T₃.pte (TRAMPOLINE / 4096) &&& PTE_V ≠ 0 ∧
          pteFlags (T₃.pte (TRAMPOLINE / 4096)) ≠ PTE_V := by
        rw [htramp, pteFlags_or pa (by decide)]
        exact ⟨valid_or pa (by decide : PTE_R ||| PTE_X < 1024), by decide⟩
      have hunmap := S₃.unmap_top (E := E) (p := p) (.inr rfl) hleaf
      rw [← TRAMPOLINE_eq] at hunmap ⊢
      refine Safe.bind hunmap ?_
      rintro _ h₄ ⟨T₄, S₄, M₄, hp₄⟩
      refine hfree r T₄ h₄ S₄ (fun v hv => ?_) (((M₁.trans M₂).trans M₃).trans M₄)
      rcases hv with rfl | rfl
      · rw [hp₄, update_of_ne tops_ne, hp₃, if_neg (by decide), hzero]
      · rw [hp₄, update_self]

end Xv6.Vm
