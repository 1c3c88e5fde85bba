import Xv6.Vm.Tree

/-!
What `mappages`, `uvmunmap`, `uvmclear` and `walkaddr` do to the tree of a page table.

A specification allows two uses. Either the pages the call works on are as its callers in
the kernel have them, and then it cannot panic, or every stop is allowed, and then nothing
is asked of them.
-/

namespace Xv6.Vm

open Lib.Bytes Lib.Wp Lib.Conc Lib.Own Lib.Conc.Prog Function

variable {T : Tree} {root : ℕ} {h : PageHeap} {ι : Type} [DecidableEq ι]
  {E : Stop → Phys → Prop} {p : ι}

/-- The pages below `MAXVA`. -/
abbrev VPAGES : ℕ := 2 ^ 26

lemma lt_MAXVA (a : ℕ) : a < MAXVA ↔ a / 4096 < VPAGES := by
  simp only [MAXVA, VPAGES]
  omega

/-! ### Mapping -/

/-- The entries after `n` pages from page `v` were mapped to `pa` and the pages after it. -/
def mapped (T : Tree) (v n pa perm : ℕ) : ℕ → ℕ := fun w =>
  if v ≤ w ∧ w < v + n then pa2pte (u64 (pa + 4096 * (w - v))) ||| (perm ||| PTE_V) else T.pte w

lemma mapped_zero (T : Tree) (v pa perm : ℕ) : mapped T v 0 pa perm = T.pte := by
  funext w
  exact if_neg (by omega)

lemma mapped_succ (T : Tree) (v n pa perm : ℕ) :
    update (mapped T v n pa perm) (v + n)
      (pa2pte (u64 (pa + 4096 * n)) ||| (perm ||| PTE_V)) = mapped T v (n + 1) pa perm := by
  funext w
  by_cases hw : w = v + n
  · subst hw
    rw [update_self, mapped, if_pos (by omega), Nat.add_sub_cancel_left]
  · rw [update_of_ne hw]
    unfold mapped
    by_cases hin : v ≤ w ∧ w < v + n
    · rw [if_pos hin, if_pos (by omega)]
    · rw [if_neg hin, if_neg (by omega)]

lemma u64_lt (x : ℕ) : u64 x < 2 ^ 64 := Nat.mod_lt _ (by decide)

/-- After `n` rounds of `mappages` from page `v`, none of them at page `last`. -/
structure Mapping (T : Tree) (root : ℕ) (h : PageHeap) (v last pa perm n : ℕ) (T' : Tree)
    (h' : PageHeap) : Prop where
  holds : Holds T' root h'
  grown : Grown T h T' h'
  pte : T'.pte = mapped T v n pa perm
  before : ∀ i < n, v + i ≠ last

variable {v n pa perm : ℕ} {T₁ : Tree} {h₁ : PageHeap} {do_free : Bool}

lemma Mapping.next {last : ℕ} {T₂ T₃ : Tree} {h₂ h₃ : PageHeap} {e : ℕ}
    (M : Mapping T root h v last pa perm n T₁ h₁) (H₂ : Holds T₂ root h₂)
    (G : Grown T₁ h₁ T₂ h₂) (hp : T₂.pte = T₁.pte)
    (he : e = pa2pte (u64 (pa + 4096 * n)) ||| (perm ||| PTE_V)) (hT : T₃ = T₂.set (v + n) e)
    (H₃ : Holds T₃ root h₃) (hf : ∀ k, ¬ T₂.Has k → h₃ k = h₂ k) :
    Holds T₃ root h₃ ∧ Grown T h T₃ h₃ ∧ T₃.pte = mapped T v (n + 1) pa perm := by
  subst hT
  refine ⟨H₃, (M.grown.trans G M.holds).trans (Grown.set hf) H₂, ?_⟩
  show update T₂.pte _ _ = _
  rw [hp, M.pte, he, mapped_succ]

lemma Mapping.step {last : ℕ} (hperm : perm < 1024)
    (M : Mapping T root h v (last / 4096) pa perm n T₁ h₁) (hlast : last % 4096 = 0)
    (hE : v + n < VPAGES ∧ T.pte (v + n) &&& PTE_V = 0 ∨ ∀ e s, E e s) :
    Ok E p (mapStep root last perm (4096 * (v + n), u64 (pa + 4096 * n))) (fun r h' =>
      v + n < VPAGES ∧ r.elim
        (fun cur => cur = (4096 * (v + (n + 1)), u64 (pa + 4096 * (n + 1))) ∧
          ∃ T', Mapping T root h v (last / 4096) pa perm (n + 1) T' h')
        (fun ok => if ok then v + n = last / 4096 ∧ ∃ T', Holds T' root h' ∧ Grown T h T' h' ∧
            T'.pte = mapped T v (n + 1) pa perm
          else ∃ T', Mapping T root h v (last / 4096) pa perm n T' h')) h₁ := by
  have hdiv : 4096 * (v + n) / 4096 = v + n := by omega
  refine Safe.bind (M.holds.walk_alloc ?_) ?_
  · intro hva
    rcases hE with hE | hE
    · have := (lt_MAXVA (4096 * (v + n))).mpr (by rw [hdiv]; exact hE.1)
      omega
    · exact fun s => hE _ s
  rintro r h₂ ⟨hva, T₂, H₂, G₂, hp₂, hr⟩
  have hlt : v + n < VPAGES := by rw [← hdiv]; exact (lt_MAXVA _).mp hva
  rw [hdiv] at hr
  by_cases h0 : r = 0
  · rw [if_pos h0]
    refine ⟨hlt, ?_⟩
    exact ⟨T₂, { holds := H₂, grown := M.grown.trans G₂ M.holds, pte := hp₂.trans M.pte, before := M.before }⟩
  · rw [if_neg h0, hr h0]
    have hs : T₂.slot (v + n) ≠ 0 := hr h0 ▸ h0
    have hpte : T₂.pte (v + n) = T.pte (v + n) := by
      rw [hp₂, M.pte, mapped, if_neg (by omega)]
    refine Safe.bind_read (H₂.load_slot hs) fun e he => ?_
    rw [he, hpte]
    refine Safe.bind (panicIf_stops ?_) ?_
    · intro hv
      rcases hE with hE | hE
      · exact absurd hE.2 hv
      · exact fun s => hE _ s
    rintro _ h₂ ⟨rfl, -⟩
    refine Safe.bind (H₂.store_slot hs
      (or_lt _ (u64_lt _) (flags_or_lt hperm (by decide)))) ?_
    rintro _ h₃ ⟨H₃, hf⟩
    obtain ⟨H₃, G₃, hp₃⟩ := M.next H₂ G₂ hp₂ rfl rfl H₃ hf
    by_cases hl : 4096 * (v + n) = last
    · rw [if_pos hl]
      exact ⟨hlt, by omega, _, H₃, G₃, hp₃⟩
    · rw [if_neg hl]
      refine ⟨hlt, ?_, _, { holds := H₃, grown := G₃, pte := hp₃, before := ?_ }⟩
      · simp only [u64, PGSIZE, VPAGES, Prod.mk.injEq] at hlt ⊢
        omega
      · intro i hi
        by_cases hin : i = n
        · subst hin; omega
        · exact M.before i (by omega)

/-- The last page that `mappages` maps. -/
def lastPage (va size : ℕ) : ℕ := pgRoundDown (u64 (va + size + (2 ^ 64 - 1))) / 4096

/-- **What `mappages` does.** Some pages from the first on are mapped, all of them if it
succeeds. -/
theorem Holds.mappages_ok (H : Holds T root h) (va size : ℕ) (hpa : pa < 2 ^ 64)
    (hperm : perm < 1024)
    (hE : (∀ n, (∀ i < n, va / 4096 + i ≠ lastPage va size) →
      va / 4096 + n < VPAGES ∧ T.pte (va / 4096 + n) &&& PTE_V = 0) ∨ ∀ e s, E e s) :
    Ok E p (mappages root va size pa perm) (fun ok h' =>
      if ok then ∃ n T', va / 4096 + n = lastPage va size ∧ va / 4096 + n < VPAGES ∧
          Holds T' root h' ∧ Grown T h T' h' ∧ T'.pte = mapped T (va / 4096) (n + 1) pa perm
      else ∃ n T', Mapping T root h (va / 4096) (lastPage va size) pa perm n T' h') h := by
  have hround : pgRoundDown (u64 (va + size + (2 ^ 64 - 1))) % 4096 = 0 := by
    simp only [pgRoundDown, PGSIZE]
    omega
  have hva : pgRoundDown va = 4096 * (va / 4096 + 0) := by
    simp only [pgRoundDown, PGSIZE]
    omega
  refine safe_loop (fun m cur h' => ∃ n T', m = VPAGES + 1 - (va / 4096 + n) ∧
    cur = (4096 * (va / 4096 + n), u64 (pa + 4096 * n)) ∧
    Mapping T root h (va / 4096) (lastPage va size) pa perm n T' h')
    (n := VPAGES + 1 - va / 4096) ?_ ?_ ?_
  · refine ⟨0, T, rfl, ?_, ?_⟩
    · rw [hva]
      simp only [u64, Nat.mul_zero, Nat.add_zero, Nat.mod_eq_of_lt hpa]
    · exact { holds := H, grown := Grown.refl T h, pte := (mapped_zero T _ pa perm).symm,
              before := fun i hi => absurd hi (by omega) }
  · simp only [VPAGES, rounds]
    omega
  · rintro m cur h₁ ⟨n, T₁, rfl, rfl, M⟩
    refine (M.step hperm hround (hE.imp (fun hE => hE n M.before) id)).mono ?_
    rintro r h₂ ⟨hlt, hr⟩
    cases r with
    | inl cur =>
      obtain ⟨hcur, T₂, M₂⟩ := hr
      exact ⟨VPAGES + 1 - (va / 4096 + (n + 1)), by omega, n + 1, T₂, rfl, hcur, M₂⟩
    | inr ok =>
      cases ok with
      | true =>
        obtain ⟨hn, T₂, H₂, G₂, hp₂⟩ := hr
        exact ⟨n, T₂, hn, hlt, H₂, G₂, hp₂⟩
      | false =>
        obtain ⟨T₂, M₂⟩ := hr
        exact ⟨n, T₂, M₂⟩

/-! ### Unmapping -/

/-- The entries after `n` pages from page `v` were unmapped. -/
def unmapped (T : Tree) (v n : ℕ) : ℕ → ℕ := fun w => if v ≤ w ∧ w < v + n then 0 else T.pte w

lemma unmapped_zero (T : Tree) (v : ℕ) : unmapped T v 0 = T.pte := by
  funext w
  exact if_neg (by omega)

lemma unmapped_succ (T : Tree) (v n : ℕ) :
    update (unmapped T v n) (v + n) 0 = unmapped T v (n + 1) := by
  funext w
  by_cases hw : w = v + n
  · subst hw
    rw [update_self, unmapped, if_pos (by omega)]
  · rw [update_of_ne hw]
    unfold unmapped
    by_cases hin : v ≤ w ∧ w < v + n
    · rw [if_pos hin, if_pos (by omega)]
    · rw [if_neg hin, if_neg (by omega)]

/-- One of the `n` pages from page `v` is mapped to `k`. -/
def Maps (T : Tree) (v n k : ℕ) : Prop := ∃ w, v ≤ w ∧ w < v + n ∧ pte2pa (T.pte w) = k

/-- The caller owns what the `n` pages from page `v` are mapped to, each once, besides the
tree. -/
structure CanFree (T : Tree) (h : PageHeap) (v n : ℕ) : Prop where
  owned : ∀ w, v ≤ w → w < v + n → w < VPAGES → T.pte w &&& PTE_V ≠ 0 →
    h (pte2pa (T.pte w)) ≠ none ∧ ¬ T.Has (pte2pa (T.pte w))
  distinct : ∀ w w', v ≤ w → w < w' → w' < v + n → w' < VPAGES →
    pte2pa (T.pte w) ≠ pte2pa (T.pte w')

/-- After `n` rounds of `uvmunmap` from page `v`. -/
structure Unmapping (T : Tree) (root : ℕ) (h : PageHeap) (v n : ℕ) (do_free : Bool)
    (T' : Tree) (h' : PageHeap) : Prop where
  holds : Holds T' root h'
  tab : T'.tab = T.tab
  pte : T'.pte = unmapped T v n
  leaf : ∀ w, v ≤ w → w < v + n →
    w < VPAGES ∧ T.pte w &&& PTE_V ≠ 0 ∧ pteFlags (T.pte w) ≠ PTE_V
  kept : ∀ k, ¬ T.Has k → (do_free = true → ¬ Maps T v n k) → h' k = h k
  gone : do_free = true → ∀ k, Maps T v n k → h' k = none

lemma has_congr {T' : Tree} (ht : T'.tab = T.tab) (k : ℕ) : T'.Has k ↔ T.Has k := by
  unfold Tree.Has
  rw [ht]

lemma maps_succ {k : ℕ} : Maps T v (n + 1) k ↔ Maps T v n k ∨ pte2pa (T.pte (v + n)) = k := by
  constructor
  · rintro ⟨w, h1, h2, h3⟩
    by_cases hw : w = v + n
    · exact .inr (hw ▸ h3)
    · exact .inl ⟨w, h1, by omega, h3⟩
  · rintro (⟨w, h1, h2, h3⟩ | h3)
    · exact ⟨w, h1, by omega, h3⟩
    · exact ⟨v + n, by omega, by omega, h3⟩

lemma Unmapping.kfree {N : ℕ} (U : Unmapping T root h v n do_free T₁ h₁) (hn : n < N)
    (hfree : do_free = true → CanFree T h v N) (hlt : v + n < VPAGES)
    (hv : T.pte (v + n) &&& PTE_V ≠ 0) :
    Ok E p (doIf (do_free = true) (kfree (pte2pa (T.pte (v + n)))))
      (fun _ h₂ => Holds T₁ root h₂ ∧
        (∀ k, ¬ T.Has k → (do_free = true → ¬ Maps T v (n + 1) k) → h₂ k = h k) ∧
        (do_free = true → ∀ k, Maps T v (n + 1) k → ¬ T.Has k ∧ h₂ k = none)) h₁ := by
  refine safe_doIf (fun hd => ?_) (fun hd => ?_)
  · have C := hfree hd
    obtain ⟨hne, hnot⟩ := C.owned (v + n) (by omega) (by omega) hlt hv
    have hfirst : ¬ Maps T v n (pte2pa (T.pte (v + n))) := by
      rintro ⟨w, h1, h2, h3⟩
      exact C.distinct w (v + n) h1 h2 (by omega) hlt h3
    have hown : h₁ (pte2pa (T.pte (v + n))) ≠ none := by
      rw [U.kept _ hnot fun _ => hfirst]
      exact hne
    refine (kfree_ok hown).mono ?_
    rintro _ h₂ rfl
    refine ⟨U.holds.frame fun q hq => update_of_ne ?_ _ _, fun k hk hm => ?_,
      fun _ k hk => ?_⟩
    · rintro rfl
      exact hnot ((has_congr U.tab _).mp hq)
    · have hm' := hm hd
      rw [maps_succ, not_or] at hm'
      rw [update_of_ne (Ne.symm hm'.2)]
      exact U.kept k hk fun _ => hm'.1
    · rcases maps_succ.mp hk with hk | rfl
      · obtain ⟨w, h1, h2, rfl⟩ := id hk
        obtain ⟨h3, h4, -⟩ := U.leaf w h1 h2
        refine ⟨(C.owned w h1 (by omega) h3 h4).2, ?_⟩
        rw [update_of_ne]
        · exact U.gone hd _ hk
        · rintro he
          exact hfirst (he ▸ hk)
      · exact ⟨hnot, update_self _ _ _⟩
  · exact ⟨U.holds, fun k hk _ => U.kept k hk fun h0 => absurd h0 hd, fun h0 => absurd h0 hd⟩

lemma Unmapping.step {N stop : ℕ}
    (U : Unmapping T root h v n do_free T₁ h₁) (hn : n < N) (hstop : 4096 * (v + n) < stop)
    (hfree : do_free = true → CanFree T h v N)
    (hE : v + n < VPAGES ∧ T.pte (v + n) &&& PTE_V ≠ 0 ∧ pteFlags (T.pte (v + n)) ≠ PTE_V ∨
      ∀ e s, E e s) :
    Ok E p (unmapStep root stop do_free (4096 * (v + n))) (fun r h' =>
      v + n < VPAGES ∧ r = .inl (4096 * (v + (n + 1))) ∧
        ∃ T', Unmapping T root h v (n + 1) do_free T' h') h₁ := by
  have hdiv : 4096 * (v + n) / 4096 = v + n := by omega
  have hpte : T₁.pte (v + n) = T.pte (v + n) := by
    rw [U.pte, unmapped, if_neg (by omega)]
  rw [unmapStep, if_pos hstop]
  refine Safe.bind_read (U.holds.walk_read ?_) ?_
  · intro hva
    rcases hE with hE | hE
    · have := (lt_MAXVA (4096 * (v + n))).mpr (by rw [hdiv]; exact hE.1)
      omega
    · exact fun s => hE _ s
  rintro r ⟨hva, hr⟩
  have hlt : v + n < VPAGES := by rw [← hdiv]; exact (lt_MAXVA _).mp hva
  rw [hdiv] at hr
  rw [hr]
  refine Safe.bind (panicIf_stops ?_) ?_
  · intro h0
    rcases hE with hE | hE
    · have hz := U.holds.void _ (U.holds.slot_eq_zero.mp h0)
      rw [hpte] at hz
      rw [hz] at hE
      exact absurd (Nat.zero_and _) hE.2.1
    · exact fun s => hE _ s
  rintro _ h₁ ⟨rfl, hs⟩
  refine Safe.bind_read (U.holds.load_slot hs) fun e he => ?_
  rw [he, hpte]
  refine Safe.bind (panicIf_stops ?_) ?_
  · exact fun h0 => hE.elim (fun hE => absurd h0 hE.2.1) fun hE s => hE _ s
  rintro _ h₁ ⟨rfl, hvalid⟩
  refine Safe.bind (panicIf_stops ?_) ?_
  · exact fun h0 => hE.elim (fun hE => absurd h0 hE.2.2) fun hE s => hE _ s
  rintro _ h₁ ⟨rfl, hflags⟩
  refine Safe.bind (U.kfree hn hfree hlt hvalid) ?_
  rintro _ h₂ ⟨H₂, hkept, hgone⟩
  refine Safe.bind (H₂.store_slot hs (by decide)) ?_
  rintro _ h₃ ⟨H₃, hf⟩
  have hf' : ∀ k, ¬ T.Has k → h₃ k = h₂ k := fun k hk => hf k fun h0 => hk ((has_congr U.tab k).mp h0)
  refine ⟨hlt, ?_, _, { holds := H₃, tab := U.tab, pte := ?_, leaf := ?_, kept := ?_, gone := ?_ }⟩
  · simp only [u64, PGSIZE, VPAGES, Sum.inl.injEq] at hlt ⊢
    omega
  · show update T₁.pte (v + n) 0 = _
    rw [U.pte, unmapped_succ]
  · intro w h1 h2
    by_cases hw : w = v + n
    · rw [hw]
      exact ⟨hlt, hvalid, hflags⟩
    · exact U.leaf w h1 (by omega)
  · intro k hk hm
    rw [hf' k hk]
    exact hkept k hk hm
  · intro hd k hk
    obtain ⟨h1, h2⟩ := hgone hd k hk
    rw [hf' k h1, h2]

/-- How many pages `uvmunmap` works on. -/
def unmapCount (va npages : ℕ) : ℕ := (u64 (va + npages * PGSIZE) - va) / 4096

/-- **What `uvmunmap` does.** -/
theorem Holds.uvmunmap_ok (H : Holds T root h) (va npages : ℕ)
    (hfree : va % 4096 = 0 → do_free = true → CanFree T h (va / 4096) (unmapCount va npages))
    (hE : va % 4096 = 0 ∧ (∀ w, va / 4096 ≤ w → w < va / 4096 + unmapCount va npages →
      w < VPAGES ∧ T.pte w &&& PTE_V ≠ 0 ∧ pteFlags (T.pte w) ≠ PTE_V) ∨ ∀ e s, E e s) :
    Ok E p (uvmunmap root va npages do_free) (fun _ h' => va % 4096 = 0 ∧ ∃ T',
      Unmapping T root h (va / 4096) (unmapCount va npages) do_free T' h') h := by
  refine Safe.bind (panicIf_stops ?_) ?_
  · intro h0
    rcases hE with hE | hE
    · exact absurd hE.1 h0
    · exact fun s => hE _ s
  rintro _ h' ⟨rfl, hal⟩
  have hal : va % 4096 = 0 := by
    simp only [PGSIZE] at hal
    omega
  have hmod : u64 (va + npages * PGSIZE) % 4096 = 0 := by
    simp only [u64, PGSIZE]
    omega
  refine safe_loop (fun m a h₁ => ∃ n T₁, m = VPAGES + 1 - (va / 4096 + n) ∧
    a = 4096 * (va / 4096 + n) ∧ n ≤ unmapCount va npages ∧
    Unmapping T root h' (va / 4096) n do_free T₁ h₁) (n := VPAGES + 1 - va / 4096) ?_ ?_ ?_
  · refine ⟨0, T, rfl, by omega, by omega, ?_⟩
    exact { holds := H, tab := rfl, pte := (unmapped_zero T _).symm,
            leaf := fun w h1 h2 => absurd h2 (by omega), kept := fun _ _ _ => rfl,
            gone := fun _ k ⟨w, h1, h2, _⟩ => absurd h2 (by omega) }
  · simp only [VPAGES, rounds]
    omega
  · rintro m a h₁ ⟨n, T₁, rfl, rfl, hn, U⟩
    by_cases hstop : 4096 * (va / 4096 + n) < u64 (va + npages * PGSIZE)
    · have hlt : n < unmapCount va npages := by
        unfold unmapCount
        omega
      refine (U.step hlt hstop (hfree hal) (hE.imp (fun hE => hE.2 _ (by omega) (by omega)) id)).mono ?_
      rintro r h₂ ⟨hv, rfl, T₂, U₂⟩
      exact ⟨VPAGES + 1 - (va / 4096 + (n + 1)), by omega, n + 1, T₂, rfl, rfl, hlt, U₂⟩
    · rw [unmapStep, if_neg hstop]
      have hcount : n = unmapCount va npages := by
        unfold unmapCount at hn ⊢
        omega
      exact ⟨hal, T₁, hcount ▸ U⟩

/-! ### Looking up and clearing -/

/-- What `walkaddr` returns. -/
def Tree.addr (T : Tree) (va : ℕ) : ℕ :=
  if va < MAXVA ∧ T.pte (va / 4096) &&& PTE_V ≠ 0 ∧ T.pte (va / 4096) &&& PTE_U ≠ 0 then
    pte2pa (T.pte (va / 4096))
  else 0

lemma Holds.walkaddr_ok (H : Holds T root h) (va : ℕ) :
    Ok E p (walkaddr root va) (fun r h' => r = T.addr va ∧ h' = h) h := by
  unfold walkaddr Tree.addr
  by_cases hva : va ≥ MAXVA
  · rw [if_pos hva, if_neg fun h0 => by omega]
    exact ⟨rfl, rfl⟩
  rw [if_neg hva]
  refine Safe.bind_read (H.walk_read fun h0 => absurd h0 hva) ?_
  rintro r ⟨hlt, hr⟩
  by_cases h0 : r = 0
  · have hz : T.pte (va / 4096) = 0 := H.void _ (H.slot_eq_zero.mp (hr ▸ h0))
    rw [if_pos h0, if_neg (by simp [hz])]
    exact ⟨rfl, rfl⟩
  rw [if_neg h0, hr]
  refine Safe.bind_read (H.load_slot (hr ▸ h0)) fun e he => ?_
  rw [he]
  by_cases hV : T.pte (va / 4096) &&& PTE_V = 0
  · rw [if_pos hV, if_neg fun h1 => h1.2.1 hV]
    exact ⟨rfl, rfl⟩
  rw [if_neg hV]
  by_cases hU : T.pte (va / 4096) &&& PTE_U = 0
  · rw [if_pos hU, if_neg fun h1 => h1.2.2 hU]
    exact ⟨rfl, rfl⟩
  rw [if_neg hU, if_pos ⟨hlt, hV, hU⟩]
  exact ⟨rfl, rfl⟩

lemma clearU_lt {e : ℕ} (he : e < 2 ^ 64) : clearU e < 2 ^ 64 := (clearU_le e).trans_lt he

lemma Holds.uvmclear_ok (H : Holds T root h) (va : ℕ)
    (hE : va < MAXVA ∧ T.pte (va / 4096) ≠ 0 ∨ ∀ e s, E e s) :
    Ok E p (uvmclear root va) (fun _ h' => va < MAXVA ∧
      Holds (T.set (va / 4096) (clearU (T.pte (va / 4096)))) root h' ∧
      ∀ k, ¬ T.Has k → h' k = h k) h := by
  refine Safe.bind_read (H.walk_read ?_) ?_
  · intro hva
    rcases hE with hE | hE
    · omega
    · exact fun s => hE _ s
  rintro r ⟨hlt, hr⟩
  rw [hr]
  refine Safe.bind (panicIf_stops ?_) ?_
  · intro h0
    rcases hE with hE | hE
    · exact absurd (H.void _ (H.slot_eq_zero.mp h0)) hE.2
    · exact fun s => hE _ s
  rintro _ h' ⟨rfl, hs⟩
  refine Safe.bind_read (H.load_slot hs) fun e he => ?_
  rw [he]
  exact (H.store_slot hs (clearU_lt (H.pte_lt _))).mono fun _ h' hh => ⟨hlt, hh⟩

/-! ### A new page table -/

def Tree.empty (root : ℕ) : Tree where
  tab := fun l x => if l = 2 ∧ x = 0 then some root else none
  pte := fun _ => 0

lemma tab_empty {l x q : ℕ} (hq : (Tree.empty root).tab l x = some q) :
    l = 2 ∧ x = 0 ∧ q = root := by
  have hq' : (if l = 2 ∧ x = 0 then some root else none) = some q := hq
  split at hq'
  · rename_i h0
    cases hq'
    exact ⟨h0.1, h0.2, rfl⟩
  · cases hq'

lemma tab_empty_ne {l x : ℕ} (hne : (Tree.empty root).tab l x ≠ none) : l = 2 ∧ x = 0 := by
  obtain ⟨q, hq⟩ := Option.ne_none_iff_exists'.mp hne
  exact ⟨(tab_empty hq).1, (tab_empty hq).2.1⟩

lemma has_empty {q : ℕ} : (Tree.empty root).Has q ↔ q = root := by
  constructor
  · rintro ⟨l, x, hq⟩
    exact (tab_empty hq).2.2
  · rintro rfl
    exact ⟨2, 0, rfl⟩

lemma holds_empty (hr : Ram root) (hh : h root = some zeroes) : Holds (Tree.empty root) root h where
  root := rfl
  top := fun l x _ hne => tab_empty_ne hne
  page := fun l x q hq => by
    obtain ⟨rfl, rfl, rfl⟩ := tab_empty hq
    refine ⟨zeroes, hh, fun i _ => ?_⟩
    rw [le_zeroes]
    rfl
  ram := fun l x q hq => by
    obtain ⟨-, -, rfl⟩ := tab_empty hq
    exact hr
  up := fun l x hl hne => by
    have := (tab_empty_ne hne).1
    omega
  inj := fun l x l' x' q h1 h2 => by
    obtain ⟨rfl, rfl, -⟩ := tab_empty h1
    obtain ⟨rfl, rfl, -⟩ := tab_empty h2
    exact ⟨rfl, rfl⟩
  void := fun _ _ => rfl

lemma uvmcreate_ok :
    Ok E p uvmcreate (fun r h' => r = 0 ∧ h' = h ∨
      Ram r ∧ h r = none ∧ h' = update h r (some zeroes)) h := by
  refine Safe.bind kalloc_ok ?_
  rintro r h' (⟨rfl, rfl⟩ | ⟨hr, hn, rfl⟩)
  · exact .inl ⟨rfl, rfl⟩
  · refine Safe.bind (safe_doIf (fun _ => memset_ok (by simp) 0)
      fun h0 => absurd hr.ne_zero h0) ?_
    rintro _ h' rfl
    exact .inr ⟨hr, hn, update_idem _ _ _⟩

end Xv6.Vm
