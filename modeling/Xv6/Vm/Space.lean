import Xv6.Vm.Map
import Mathlib.Data.Finset.Card

/-!
The user memory of a process: the first pages of its page table, each mapped to a page of its
own. What `uvmalloc` and `uvmdealloc` do to it, whether or not there is enough memory.
-/

namespace Xv6.Vm

open Lib.Bytes Lib.Wp Lib.Conc Lib.Own Lib.Conc.Prog Function

/-- The pages of the table itself and the pages that its first `n` entries map. -/
def Foot (T : Tree) (n k : ℕ) : Prop := T.Has k ∨ Maps T 0 n k

/-- The pages at the top of every address space. -/
def IsTop (v : ℕ) : Prop := v = TRAPFRAME / 4096 ∨ v = TRAMPOLINE / 4096

/-- An address space with `n` user pages. -/
structure Space (T : Tree) (root n : ℕ) (h : PageHeap) : Prop where
  holds : Holds T root h
  leaf : ∀ v < n, T.pte v &&& PTE_V ≠ 0 ∧ pteFlags (T.pte v) ≠ PTE_V
  page : ∀ v < n, Ram (pte2pa (T.pte v)) ∧ h (pte2pa (T.pte v)) ≠ none ∧ ¬ T.Has (pte2pa (T.pte v))
  distinct : ∀ v w, v < w → w < n → pte2pa (T.pte v) ≠ pte2pa (T.pte w)
  void : ∀ v, n ≤ v → ¬ IsTop v → T.pte v = 0

variable {T T' : Tree} {root n m : ℕ} {h h' : PageHeap} {ι : Type} [DecidableEq ι]
  {E : Stop → Phys → Prop} {p : ι}

/-! ### The size of memory -/

/-- The pages of RAM. -/
abbrev RAMPAGES : ℕ := 32768

lemma ram_count {f : ℕ → ℕ} (hram : ∀ v < n, Ram (f v)) (hinj : ∀ v w, v < w → w < n → f v ≠ f w) :
    n ≤ RAMPAGES := by
  have hcard := Finset.card_le_card_of_injOn (s := Finset.range n) (t := Finset.range RAMPAGES)
    (fun v => (f v - KERNBASE) / 4096) (fun v hv => ?_) (fun v hv w hw heq => ?_)
  · simpa using hcard
  · obtain ⟨-, h2, h3⟩ := hram v (by simpa using hv)
    simp only [Finset.coe_range, Set.mem_Iio, KERNBASE, PHYSTOP, RAMPAGES] at *
    omega
  · have hv' : v < n := by simpa using hv
    have hw' : w < n := by simpa using hw
    have hfv := hram v hv'
    have hfw := hram w hw'
    have hfeq : f v = f w := by
      simp only [Ram, KERNBASE, PHYSTOP] at hfv hfw heq
      omega
    rcases Nat.lt_trichotomy v w with hlt | heq' | hlt
    · exact absurd hfeq (hinj v w hlt hw')
    · exact heq'
    · exact absurd hfeq.symm (hinj w v hlt hv')

lemma Space.le (S : Space T root n h) : n ≤ RAMPAGES :=
  ram_count (fun v hv => (S.page v hv).1) S.distinct

variable {v k r perm : ℕ}

lemma not_isTop (hv : v ≤ RAMPAGES) : ¬ IsTop v := by
  simp only [IsTop, TRAPFRAME, TRAMPOLINE, MAXVA, PGSIZE, RAMPAGES] at *
  omega

lemma lt_VPAGES (hv : v ≤ RAMPAGES) : v < VPAGES := by
  simp only [VPAGES, RAMPAGES] at *
  omega

/-! ### Footprints -/

lemma maps_zero (k : ℕ) : ¬ Maps T 0 0 k := by
  rintro ⟨w, -, h2, -⟩
  omega

lemma maps_congr (hp : ∀ v < n, T'.pte v = T.pte v) (k : ℕ) : Maps T' 0 n k ↔ Maps T 0 n k := by
  refine exists_congr fun w => and_congr_right fun _ => and_congr_right fun hw => ?_
  rw [hp w (by omega)]

lemma Space.foot_ne (S : Space T root n h) (hk : Foot T n k) : h k ≠ none := by
  rcases hk with hk | ⟨w, -, hw, rfl⟩
  · exact S.holds.has_ne hk
  · exact (S.page w (by omega)).2.1

lemma Space.frame (S : Space T root n h) (hf : ∀ k, Foot T n k → h' k = h k) : Space T root n h' :=
  { S with
    holds := S.holds.frame fun q hq => hf q (.inl hq)
    page := fun v hv => by
      rw [hf _ (.inr ⟨v, Nat.zero_le v, by omega, rfl⟩)]
      exact S.page v hv }

lemma Space.lt (S : Space T root n h) (hr : Ram r) (hfoot : ¬ Foot T n r) : n < RAMPAGES := by
  refine ram_count (f := fun v => if v < n then pte2pa (T.pte v) else r) (fun v _ => ?_) ?_
  · split
    · exact (S.page v ‹_›).1
    · exact hr
  · intro v w hvw hw
    have hv : v < n := by omega
    simp only [if_pos hv]
    split
    · exact S.distinct v w hvw ‹_›
    · exact fun he => hfoot (.inr ⟨v, Nat.zero_le v, by omega, he⟩)

lemma Space.lt_MAXVA (S : Space T root n h) {va : ℕ} (hva : va / 4096 < n) : va < MAXVA := by
  refine (Vm.lt_MAXVA va).mpr (lt_VPAGES ?_)
  have := S.le
  omega

lemma foot_page (T : Tree) (hv : v < n) : Foot T n (pte2pa (T.pte v)) :=
  .inr ⟨v, Nat.zero_le v, by omega, rfl⟩

lemma Grown.moves (G : Grown T h T' h') (hp : ∀ v < n, T'.pte v = T.pte v) :
    Moves (Foot T n) h (Foot T' n) h' where
  keep := fun k _ hk => G.frame k fun hh => hk (.inl hh)
  lost := fun k hk hn => by
    rcases hk with hk | hk
    · exact absurd (.inl (G.has hk)) hn
    · exact absurd (.inr ((maps_congr hp k).mpr hk)) hn
  new := fun k hk hn => by
    rcases hn with hn | hn
    · exact (G.has_new hn).resolve_left fun hh => hk (.inl hh)
    · exact absurd (.inr ((maps_congr hp k).mp hn)) hk

lemma Grown.kept (G : Grown T h T' h') (hk : h k ≠ none) (hn : ¬ T.Has k) : h' k = h k := by
  refine G.frame k fun hh => ?_
  rcases G.has_new hh with hh | hh
  · exact hn hh
  · exact hk hh

lemma Grown.not_has (G : Grown T h T' h') (hk : h k ≠ none) (hn : ¬ T.Has k) : ¬ T'.Has k := by
  intro hh
  rcases G.has_new hh with hh | hh
  · exact hn hh
  · exact hk hh

/-! ### Mapping one page -/

lemma Holds.mappages_one (H : Holds T root h) {pa : ℕ} (hv : v < VPAGES) (hz : T.pte v = 0)
    (hpa : pa < 2 ^ 64) (hperm : perm < 1024) :
    Ok E p (mappages root (4096 * v) PGSIZE pa perm) (fun ok h' => ∃ T', Holds T' root h' ∧
      Grown T h T' h' ∧ T'.pte = if ok then
        update T.pte v (pa2pte pa ||| (perm ||| PTE_V)) else T.pte) h := by
  have hdiv : 4096 * v / 4096 = v := by omega
  have hlast : lastPage (4096 * v) PGSIZE = v := by
    simp only [lastPage, pgRoundDown, u64, PGSIZE, VPAGES] at *
    omega
  have hmap := H.mappages_ok (E := E) (p := p) (4096 * v) PGSIZE hpa hperm (.inl fun n hn => by
    have h0 : n = 0 := by
      by_contra h0
      exact hn 0 (by omega) (by rw [hdiv, hlast, Nat.add_zero])
    rw [hdiv, h0, Nat.add_zero, hz]
    exact ⟨hv, Nat.zero_and _⟩)
  refine Safe.mono hmap ?_
  rintro ok h' hr
  rw [hdiv, hlast] at hr
  cases ok with
  | true =>
    obtain ⟨n, T', hn, -, H', G, hp⟩ := hr
    obtain rfl : n = 0 := by omega
    refine ⟨T', H', G, ?_⟩
    rw [hp, ← mapped_succ, mapped_zero, Nat.add_zero, Nat.mul_zero, Nat.add_zero, u64,
      Nat.mod_eq_of_lt hpa]
    rfl
  | false =>
    obtain ⟨n, T', M⟩ := hr
    have h0 : n = 0 := by
      by_contra h0
      exact M.before 0 (by omega) (by omega)
    refine ⟨T', M.holds, M.grown, ?_⟩
    rw [M.pte, h0, mapped_zero]
    rfl

lemma Space.grow (S : Space T root n h) (H : Holds T' root h') (G : Grown T h T' h')
    (hp : T'.pte = T.pte) : Space T' root n h' := by
  refine ⟨H, fun v hv => ?_, fun v hv => ?_, fun v w hvw hw => ?_, fun v hv => ?_⟩
  · rw [hp]
    exact S.leaf v hv
  · obtain ⟨h1, h2, h3⟩ := S.page v hv
    rw [hp, G.kept h2 h3]
    exact ⟨h1, h2, G.not_has h2 h3⟩
  · rw [hp]
    exact S.distinct v w hvw hw
  · rw [hp]
    exact S.void v hv

/-- Flags of a leaf, which `mappages` makes valid. -/
def LeafPerm (perm : ℕ) : Prop := perm < 1024 ∧ perm ||| PTE_V ≠ PTE_V

lemma Ram.lt_pow {q : ℕ} (hq : Ram q) : q < 2 ^ 64 := hq.2.2.trans (by decide)

lemma pte2pa_leaf {q : ℕ} (hq : Ram q) (hperm : perm < 1024) :
    pte2pa (pa2pte q ||| (perm ||| PTE_V)) = q :=
  pte2pa_or hq.1 hq.lt_pow (flags_or_lt hperm (by decide))

lemma Space.snoc (S : Space T root n h) (H : Holds T' root h') (G : Grown T h T' h')
    (hr : Ram r) (hown : h r ≠ none) (hfoot : ¬ Foot T n r) (hperm : LeafPerm perm)
    (hp : T'.pte = update T.pte n (pa2pte r ||| (perm ||| PTE_V))) :
    Space T' root (n + 1) h' := by
  have hne : ¬ T.Has r := fun hh => hfoot (.inl hh)
  have hold : ∀ v < n, T'.pte v = T.pte v := by
    intro v hv
    rw [hp, update_of_ne (by omega)]
  have hnew : T'.pte n = pa2pte r ||| (perm ||| PTE_V) := by rw [hp, update_self]
  have hpa : pte2pa (T'.pte n) = r := by rw [hnew, pte2pa_leaf hr hperm.1]
  refine ⟨H, fun v hv => ?_, fun v hv => ?_, fun v w hvw hw => ?_, fun v hv htop => ?_⟩
  · rcases Nat.lt_succ_iff_lt_or_eq.mp hv with hv | rfl
    · rw [hold v hv]
      exact S.leaf v hv
    · rw [hnew]
      refine ⟨valid_or r hperm.1, ?_⟩
      rw [pteFlags_or r (flags_or_lt hperm.1 (by decide))]
      exact hperm.2
  · rcases Nat.lt_succ_iff_lt_or_eq.mp hv with hv | rfl
    · obtain ⟨h1, h2, h3⟩ := S.page v hv
      rw [hold v hv, G.kept h2 h3]
      exact ⟨h1, h2, G.not_has h2 h3⟩
    · rw [hpa, G.kept hown hne]
      exact ⟨hr, hown, G.not_has hown hne⟩
  · have hv : v < n := by omega
    rw [hold v hv]
    rcases Nat.lt_succ_iff_lt_or_eq.mp hw with hw | rfl
    · rw [hold w hw]
      exact S.distinct v w hvw hw
    · rw [hpa]
      exact fun he => hfoot (.inr ⟨v, Nat.zero_le _, by omega, he⟩)
  · rw [hp, update_of_ne (by omega)]
    exact S.void v (by omega) htop

/-- What mapping page `r` as the next page of an address space does: the page is now part of it, or
nothing but the table has changed. -/
lemma Space.mappages_next (S : Space T root n h) (hr : Ram r) (hown : h r ≠ none)
    (hfoot : ¬ Foot T n r) (hperm : LeafPerm perm) (hn : n < RAMPAGES) :
    Ok E p (mappages root (4096 * n) PGSIZE r perm) (fun ok h' => ∃ T', Grown T h T' h' ∧
      (ok = true ∧ Space T' root (n + 1) h' ∧
          T'.pte = update T.pte n (pa2pte r ||| (perm ||| PTE_V)) ∧
          Moves (fun k => Foot T n k ∨ k = r) h (Foot T' (n + 1)) h' ∨
        ok = false ∧ Space T' root n h' ∧ T'.pte = T.pte ∧ Moves (Foot T n) h (Foot T' n) h')) h := by
  have hz : T.pte n = 0 := S.void n le_rfl (not_isTop hn.le)
  refine Safe.mono (S.holds.mappages_one (lt_VPAGES hn.le) hz hr.lt_pow hperm.1) ?_
  rintro ok h' ⟨T', H, G, hp⟩
  refine ⟨T', G, ?_⟩
  cases ok with
  | true =>
    simp only [if_true] at hp
    have hold : ∀ v < n, T'.pte v = T.pte v := by
      intro v hv
      rw [hp, update_of_ne (by omega)]
    have hpa : pte2pa (T'.pte n) = r := by
      rw [hp, update_self, pte2pa_leaf hr hperm.1]
    refine .inl ⟨rfl, S.snoc H G hr hown hfoot hperm hp, hp, ?_⟩
    refine ((G.moves (n := n) hold).also (fun k => k = r)).congr (fun k => Iff.rfl) fun k => ?_
    rw [Foot, Foot, maps_succ, Nat.zero_add, hpa, or_assoc, eq_comm (a := k)]
  | false =>
    have hp' : T'.pte = T.pte := hp
    exact .inr ⟨rfl, S.grow H G hp', hp', G.moves fun v _ => by rw [hp']⟩

/-! ### `uvmdealloc` -/

/-- Pages `m` and up were given back. -/
structure Shrunk (T : Tree) (root n : ℕ) (h : PageHeap) (m : ℕ) (T' : Tree) (h' : PageHeap) : Prop where
  space : Space T' root m h'
  tab : T'.tab = T.tab
  pte : T'.pte = unmapped T m (n - m)
  moves : Moves (Foot T n) h (Foot T' m) h'
  kept : ∀ v < m, h' (pte2pa (T.pte v)) = h (pte2pa (T.pte v))

lemma Space.canFree (S : Space T root n h) (hm : m ≤ n) : CanFree T h m (n - m) where
  owned := fun w _ h2 _ _ => (S.page w (by omega)).2
  distinct := fun w w' _ h2 h3 _ => S.distinct w w' h2 (by omega)

lemma Space.shrunk (S : Space T root n h) (hm : m ≤ n)
    (U : Unmapping T root h m (n - m) true T' h') : Shrunk T root n h m T' h' := by
  have hold : ∀ v < m, T'.pte v = T.pte v := by
    intro v hv
    rw [U.pte, unmapped, if_neg (by omega)]
  have hmaps : ∀ v < m, ¬ Maps T m (n - m) (pte2pa (T.pte v)) := by
    rintro v hv ⟨w, h1, h2, h3⟩
    exact S.distinct v w (by omega) (by omega) h3.symm
  have hkept : ∀ v < m, h' (pte2pa (T.pte v)) = h (pte2pa (T.pte v)) :=
    fun v hv => U.kept _ (S.page v (by omega)).2.2 fun _ => hmaps v hv
  refine ⟨⟨U.holds, fun v hv => ?_, fun v hv => ?_, fun v w hvw hw => ?_, fun v hv htop => ?_⟩,
    U.tab, U.pte, ⟨fun k hk _ => ?_, fun k hk hn => ?_, fun k hk hn => ?_⟩, hkept⟩
  · rw [hold v hv]
    exact S.leaf v (by omega)
  · rw [hold v hv, hkept v hv, has_congr U.tab]
    exact S.page v (by omega)
  · rw [hold v (by omega), hold w hw]
    exact S.distinct v w hvw (by omega)
  · rw [U.pte, unmapped]
    split
    · rfl
    · exact S.void v (by omega) htop
  · refine U.kept k (fun hh => hk (.inl hh)) ?_
    rintro - ⟨w, h1, h2, h3⟩
    exact hk (.inr ⟨w, Nat.zero_le _, by omega, h3⟩)
  · rcases hk with hk | ⟨w, h1, h2, h3⟩
    · exact absurd (.inl ((has_congr U.tab k).mpr hk)) hn
    · refine U.gone rfl k ⟨w, ?_, by omega, h3⟩
      by_contra hw
      exact hn (.inr ⟨w, h1, by omega, by rw [hold w (by omega)]; exact h3⟩)
  · rcases hn with hn | hn
    · exact absurd (.inl ((has_congr U.tab k).mp hn)) hk
    · obtain ⟨w, h1, h2, h3⟩ := (maps_congr hold k).mp hn
      exact absurd (.inr ⟨w, h1, by omega, h3⟩) hk

/-- The pages that `sz` bytes are in. -/
def pages (sz : ℕ) : ℕ := (sz + 4095) / 4096

lemma pgRoundUp_pages {sz : ℕ} (hsz : sz ≤ 4096 * RAMPAGES) : pgRoundUp sz = 4096 * pages sz := by
  rw [pgRoundUp_eq (by simp only [RAMPAGES] at hsz; omega), pages]
  omega

lemma pages_mono {a b : ℕ} (hab : a ≤ b) : pages a ≤ pages b := by
  unfold pages
  omega

lemma pages_mul (n : ℕ) : pages (4096 * n) = n := by
  unfold pages
  omega

lemma Space.size_le (S : Space T root n h) {sz : ℕ} (hsz : pages sz = n) : sz ≤ 4096 * RAMPAGES := by
  have := S.le
  unfold pages at hsz
  omega

lemma intToU64_of_lt (hk : k < 2 ^ 31) : intToU64 k = k := by
  rw [intToU64, toInt32_of_lt hk]
  omega

lemma Space.unmap_last (S : Space T root n h) (hm : m ≤ n) :
    Ok E p (uvmunmap root (4096 * m) (n - m) true) (fun _ h' => ∃ T', Shrunk T root n h m T' h') h := by
  have hle := S.le
  have hcount : unmapCount (4096 * m) (n - m) = n - m := by
    simp only [unmapCount, u64, PGSIZE, RAMPAGES] at *
    omega
  have hdiv : 4096 * m / 4096 = m := by omega
  refine Safe.mono (S.holds.uvmunmap_ok (4096 * m) (n - m) (fun _ _ => ?_) (.inl ⟨?_, ?_⟩)) ?_
  · rw [hdiv, hcount]
    exact S.canFree hm
  · omega
  · intro w h1 h2
    rw [hdiv, hcount] at h2
    exact ⟨lt_VPAGES (by omega), S.leaf w (by omega)⟩
  · rintro _ h' ⟨-, T', U⟩
    rw [hdiv, hcount] at U
    exact ⟨T', S.shrunk hm U⟩

lemma Space.shrunk_refl (S : Space T root n h) : Shrunk T root n h n T h where
  space := S
  tab := rfl
  pte := by rw [Nat.sub_self, unmapped_zero]
  moves := Moves.refl _ _
  kept := fun _ _ => rfl

/-- **What `uvmdealloc` does.** -/
theorem Space.uvmdealloc_ok (S : Space T root n h) {oldsz : ℕ} (hold : pages oldsz = n) (newsz : ℕ) :
    Ok E p (uvmdealloc root oldsz newsz) (fun r h' => r = min oldsz newsz ∧
      ∃ T', Shrunk T root n h (pages (min oldsz newsz)) T' h') h := by
  have hle := S.le
  have hsz := S.size_le hold
  unfold uvmdealloc
  by_cases hge : newsz ≥ oldsz
  · rw [if_pos hge, Nat.min_eq_left hge, hold]
    exact ⟨rfl, T, S.shrunk_refl⟩
  have hmin : min oldsz newsz = newsz := Nat.min_eq_right (by omega)
  have hm : pages newsz ≤ n := hold ▸ pages_mono (by omega)
  rw [if_neg hge, hmin, pgRoundUp_pages (by omega), pgRoundUp_pages hsz, hold]
  have hnum : intToU64 ((4096 * n - 4096 * pages newsz) / PGSIZE) = n - pages newsz := by
    have hdiv : (4096 * n - 4096 * pages newsz) / PGSIZE = n - pages newsz := by
      simp only [PGSIZE]
      omega
    rw [hdiv, intToU64_of_lt (by simp only [RAMPAGES] at hle; omega)]
  rw [hnum]
  refine Safe.bind (Q := fun _ h' => ∃ T', Shrunk T root n h (pages newsz) T' h')
    (safe_doIf (fun _ => S.unmap_last hm) fun hno => ?_) ?_
  · have heq : pages newsz = n := by omega
    rw [heq]
    exact ⟨T, S.shrunk_refl⟩
  · rintro _ h' hT'
    exact ⟨rfl, hT'⟩

/-! ### `uvmalloc` -/

/-- The flags of the pages that `uvmalloc` maps. -/
abbrev UPERM : ℕ := PTE_W ||| PTE_X ||| PTE_R ||| PTE_U

/-- Pages `n` to `m` are new, and full of zeroes. -/
structure Widened (T : Tree) (root n : ℕ) (h : PageHeap) (m : ℕ) (T' : Tree) (h' : PageHeap) :
    Prop where
  space : Space T' root m h'
  moves : Moves (Foot T n) h (Foot T' m) h'
  pte : ∀ v, ¬ (n ≤ v ∧ v < m) → T'.pte v = T.pte v
  kept : ∀ v < n, h' (pte2pa (T.pte v)) = h (pte2pa (T.pte v))
  zero : ∀ v, n ≤ v → v < m →
    pteFlags (T'.pte v) = UPERM ||| PTE_V ∧ h' (pte2pa (T'.pte v)) = some zeroes

lemma Space.widened_refl (S : Space T root n h) : Widened T root n h n T h where
  space := S
  moves := Moves.refl _ _
  pte := fun _ _ => rfl
  kept := fun _ _ => rfl
  zero := fun v h1 h2 => absurd h2 (by omega)

lemma Widened.undo (W : Widened T root n h m T' h') (S : Space T root n h) {T'' : Tree}
    {h'' : PageHeap} (U : Shrunk T' root m h' n T'' h'') (hnm : n ≤ m) :
    Widened T root n h n T'' h'' where
  space := U.space
  moves := W.moves.trans U.moves
  pte := fun v _ => by
    rw [U.pte, unmapped]
    split
    · have := W.space.le
      exact (S.void v (by omega) (not_isTop (by omega))).symm
    · exact W.pte v (by omega)
  kept := fun v hv => by
    have := U.kept v hv
    rw [W.pte v (by omega)] at this
    rw [this, W.kept v hv]
  zero := fun v h1 h2 => absurd h2 (by omega)

lemma leafPerm_uperm : LeafPerm UPERM := ⟨by decide, by decide⟩

/-- A page that was nobody's is not part of an address space, and taking it does not change one. -/
lemma Space.take (S : Space T root n h) (hnone : h r = none) (c : Page) :
    ¬ Foot T n r ∧ Space T root n (update h r (some c)) := by
  have hfoot : ¬ Foot T n r := fun hk => S.foot_ne hk hnone
  refine ⟨hfoot, S.frame fun k hk => update_of_ne ?_ _ _⟩
  rintro rfl
  exact hfoot hk

lemma Space.write (S : Space T root n h) (hr : ¬ T.Has r) (c : Page) :
    Space T root n (update h r (some c)) := by
  refine { S with holds := S.holds.frame fun k hk => update_of_ne ?_ _ _, page := ?_ }
  · rintro rfl
    exact hr hk
  · intro v hv
    obtain ⟨h1, h2, h3⟩ := S.page v hv
    refine ⟨h1, ?_, h3⟩
    by_cases he : pte2pa (T.pte v) = r
    · rw [he, update_self]
      simp
    · rw [update_of_ne he]
      exact h2

section

variable {i r : ℕ} {T₁ T₂ : Tree} {h₁ h₂ : PageHeap} (W : Widened T root n h (n + i) T₁ h₁)

include W

lemma Widened.snoc (hr : Ram r) (hnone : h₁ r = none)
    (G : Grown T₁ (update h₁ r (some zeroes)) T₂ h₂) (S₂ : Space T₂ root (n + i + 1) h₂)
    (hp : T₂.pte = update T₁.pte (n + i) (pa2pte r ||| (UPERM ||| PTE_V)))
    (M : Moves (fun k => Foot T₁ (n + i) k ∨ k =
      r) (update h₁ r (some zeroes)) (Foot T₂ (n + i + 1)) h₂) :
    Widened T root n h (n + i + 1) T₂ h₂ := by
  obtain ⟨hfoot, -⟩ := W.space.take hnone zeroes
  have hkept : ∀ v < n + i, h₂ (pte2pa (T₁.pte v)) = h₁ (pte2pa (T₁.pte v)) := by
    intro v hv
    obtain ⟨-, h2, h3⟩ := W.space.page v hv
    have hne : pte2pa (T₁.pte v) ≠ r := by
      rintro rfl
      exact h2 hnone
    rw [G.kept (by rw [update_of_ne hne]; exact h2) h3, update_of_ne hne]
  have hold : ∀ v, v ≠ n + i → T₂.pte v = T₁.pte v := by
    intro v hv
    rw [hp, update_of_ne hv]
  refine ⟨S₂, (W.moves.trans (Moves.take hnone _)).trans M, fun v hv => ?_, fun v hv => ?_,
    fun v h1 h2 => ?_⟩
  · rw [hold v (by omega), W.pte v (by omega)]
  · have := hkept v (by omega)
    rw [W.pte v (by omega)] at this
    rw [this, W.kept v hv]
  · by_cases hv : v = n + i
    · have hpte : T₂.pte v = pa2pte r ||| (UPERM ||| PTE_V) := by rw [hp, hv, update_self]
      rw [hpte, pteFlags_or r (by decide), pte2pa_leaf hr (by decide),
        G.kept (by rw [update_self]; simp) fun hh => hfoot (.inl hh), update_self]
      exact ⟨rfl, rfl⟩
    · rw [hold v hv, hkept v (by omega)]
      exact W.zero v h1 (by omega)

lemma Widened.grow (hnone : h₁ r = none) (G : Grown T₁ (update h₁ r (some zeroes)) T₂ h₂)
    (S₂ : Space T₂ root (n + i) h₂) (hp : T₂.pte = T₁.pte)
    (M : Moves (Foot T₁ (n + i)) (update h₁ r (some zeroes)) (Foot T₂ (n + i)) h₂) :
    ¬ Foot T₂ (n + i) r ∧
      Widened T root n h (n + i) T₂ (update h₂ r none) := by
  obtain ⟨hfoot, -⟩ := W.space.take hnone zeroes
  have hkeep : ∀ k, h₁ k ≠ none → ¬ T₁.Has k → h₂ k = h₁ k ∧ k ≠ r := by
    intro k h2 h3
    have hne : k ≠ r := by
      rintro rfl
      exact h2 hnone
    rw [G.kept (by rw [update_of_ne hne]; exact h2) h3, update_of_ne hne]
    exact ⟨rfl, hne⟩
  have hfoot₂ : ¬ Foot T₂ (n + i) r := by
    rintro (hk | hk)
    · exact G.not_has (by rw [update_self]; simp) (fun hh => hfoot (.inl hh)) hk
    · exact hfoot (.inr ((maps_congr (fun v _ => by rw [hp]) r).mp hk))
  refine ⟨hfoot₂, S₂.frame fun k hk => update_of_ne ?_ _ _, ?_, fun v hv => ?_,
    fun v hv => ?_, fun v h1 h2 => ?_⟩
  · rintro rfl
    exact hfoot₂ hk
  · exact ((W.moves.trans (Moves.take hnone _)).trans (M.also _)).trans (Moves.give hfoot₂)
  · rw [hp, W.pte v hv]
  · obtain ⟨-, h2, h3⟩ := W.space.page v (by omega)
    have := hkeep _ h2 h3
    rw [W.pte v (by omega)] at this
    rw [update_of_ne this.2, this.1, W.kept v hv]
  · obtain ⟨-, h3, h4⟩ := W.space.page v (by omega)
    obtain ⟨h5, h6⟩ := hkeep _ h3 h4
    rw [hp, update_of_ne h6, h5]
    exact W.zero v h1 h2

lemma Widened.step {newsz : ℕ} (S : Space T root n h) (hlt : 4096 * (n + i) < newsz) :
    Ok E p (allocStep root (4096 * n) newsz (4096 * (n + i))) (fun r h' => r.elim
      (fun a => n + i < RAMPAGES ∧ a = 4096 * (n + (i + 1)) ∧
        ∃ T', Widened T root n h (n + (i + 1)) T' h')
      (fun v => v = 0 ∧ ∃ T', Widened T root n h n T' h')) h₁ := by
  -- the two ways to fail end in the same way
  have hundo : ∀ T₂ h₂, Widened T root n h (n + i) T₂ h₂ →
      Ok E p (do
        let _ ← uvmdealloc root (4096 * (n + i)) (4096 * n)
        return Sum.inr 0) (fun (r : ℕ ⊕ ℕ) h' => r.elim
          (fun a => n + i < RAMPAGES ∧ a = 4096 * (n + (i + 1)) ∧
            ∃ T', Widened T root n h (n + (i + 1)) T' h')
          (fun v => v = 0 ∧ ∃ T', Widened T root n h n T' h')) h₂ := by
    intro T₂ h₂ W₂
    refine Safe.bind (W₂.space.uvmdealloc_ok (pages_mul _) (4096 * n)) ?_
    rintro _ h₃ ⟨-, T₃, U⟩
    rw [Nat.min_eq_right (by omega), pages_mul] at U
    exact ⟨rfl, T₃, W₂.undo S U (by omega)⟩
  rw [allocStep, if_pos hlt]
  refine Safe.bind kalloc_ok ?_
  rintro r h₂ (⟨rfl, rfl⟩ | ⟨hr, hnone, rfl⟩)
  · rw [if_pos rfl]
    exact hundo T₁ h₂ W
  · rw [if_neg hr.ne_zero]
    refine Safe.bind (memset_ok (by rw [update_self]; simp) 0) ?_
    rintro _ h₂ rfl
    rw [update_idem]
    obtain ⟨hfoot, S₂⟩ := W.space.take hnone zeroes
    have hroom := W.space.lt hr hfoot
    refine Safe.bind (S₂.mappages_next hr (by rw [update_self]; simp) hfoot leafPerm_uperm
      hroom) ?_
    rintro ok h₃ ⟨T₃, G, ⟨rfl, S₃, hp, M⟩ | ⟨rfl, S₃, hp, M⟩⟩
    · rw [if_pos rfl]
      refine ⟨hroom, ?_, T₃, W.snoc hr hnone G S₃ hp M⟩
      simp only [u64, PGSIZE, RAMPAGES] at *
      omega
    · rw [if_neg (by decide)]
      obtain ⟨hfoot₃, W₃⟩ := W.grow hnone G S₃ hp M
      have hown : h₃ r ≠ none := by
        rw [G.kept (by rw [update_self]; simp) fun hh => hfoot (.inl hh),
          update_self]
        simp
      refine Safe.bind (kfree_ok hown) ?_
      rintro _ h₄ rfl
      exact hundo T₃ _ W₃

end

/-- **What `uvmalloc` does.** It maps new pages of zeroes up to the new size, or it returns 0 with the
user mappings as they were. -/
theorem Space.uvmalloc_ok (S : Space T root n h) {oldsz : ℕ} (hold : pages oldsz = n) (newsz : ℕ) :
    Ok E p (uvmalloc root oldsz newsz) (fun r h' =>
      (newsz < oldsz ∧ r = oldsz ∧ h' = h) ∨
      (oldsz ≤ newsz ∧ r = newsz ∧ newsz ≤ 4096 * RAMPAGES ∧
        ∃ T', Widened T root n h (pages newsz) T' h') ∨
      (oldsz ≤ newsz ∧ r = 0 ∧ ∃ T', Widened T root n h n T' h')) h := by
  unfold uvmalloc
  by_cases hlt : newsz < oldsz
  · rw [if_pos hlt]
    exact .inl ⟨hlt, rfl, rfl⟩
  rw [if_neg hlt, pgRoundUp_pages (S.size_le hold), hold]
  have hle : oldsz ≤ newsz := by omega
  refine safe_loop (fun k a h₁ => ∃ i T₁, k = RAMPAGES - (n + i) ∧ a = 4096 * (n + i) ∧
    n + i ≤ pages newsz ∧ Widened T root n h (n + i) T₁ h₁) (n := RAMPAGES - n)
    ⟨0, T, rfl, rfl, hold ▸ pages_mono hle, S.widened_refl⟩ ?_ ?_
  · simp only [RAMPAGES, rounds]
    omega
  · rintro k a h₁ ⟨i, T₁, rfl, rfl, hpages, W⟩
    by_cases hmore : 4096 * (n + i) < newsz
    · refine Safe.mono (W.step S hmore) ?_
      rintro r h₂ hr
      cases r with
      | inl a =>
        obtain ⟨hroom, rfl, T₂, W₂⟩ := hr
        refine ⟨RAMPAGES - (n + (i + 1)), by omega, i + 1, T₂, rfl, rfl, ?_, W₂⟩
        unfold pages
        omega
      | inr v =>
        obtain ⟨rfl, T₂, W₂⟩ := hr
        exact .inr (.inr ⟨hle, rfl, T₂, W₂⟩)
    · rw [allocStep, if_neg hmore]
      have hni : n + i = pages newsz := by
        unfold pages at hpages ⊢
        omega
      have hram := W.space.le
      exact .inr (.inl ⟨hle, rfl, by omega, T₁, hni ▸ W⟩)

end Xv6.Vm
