import Xv6.Vm.Map

/-!
The page-table tree as a finite map from virtual pages to entries.

`Built` follows one page table through any sequence of calls. Beside it go the frames its
user has from `kalloc` and has not freed.
-/

namespace Xv6.Vm

open Lib.Bytes Lib.Wp Lib.Conc Lib.Own Lib.Conc.Prog Function

/-- The free list is a list of distinct pages. -/
def FreeOk (s : Phys) : Prop :=
  ∃ free, Chain s.mem s.freelist free ∧ free.Nodup ∧ ∀ k ∈ free, IsPage s.kend k

/-- The entry for `va`, `0` if `walk` finds none. -/
def lookup (pagetable va : ℕ) : Code ℕ := do
  let pte ← walk pagetable va false
  if pte = 0 then return 0 else load pte

def entry (s : Phys) (pagetable va : ℕ) : ℕ :=
  match run (lookup pagetable va) s with
  | .ok e _ => e
  | .error _ _ => 0

/-- The frame that page `i` from `va` on is mapped to. -/
def frameAt (s : Phys) (pagetable va i : ℕ) : ℕ := pte2pa (entry s pagetable (va + i * PGSIZE))

/-- The `npages` pages from `va` on are mapped to different frames of `M`. -/
def MapsInto (s : Phys) (pagetable va npages : ℕ) (M : Set ℕ) : Prop :=
  (∀ i < npages, frameAt s pagetable va i ∈ M) ∧
  ∀ i < npages, ∀ j < npages, frameAt s pagetable va i = frameAt s pagetable va j → i = j

/-- `s` is reached from `s₀` by creating the page table `pt` and by calls on it that returned.
`M` are the frames its user has. -/
inductive Built (s₀ : Phys) (pt : ℕ) : Phys → Set ℕ → Prop
  | uvmcreate {s : Phys} (hrun : run uvmcreate s₀ = .ok pt s) (hpt : pt ≠ 0) : Built s₀ pt s ∅
  | kalloc {s s' : Phys} {M : Set ℕ} {r : ℕ} (hB : Built s₀ pt s M)
      (hrun : run kalloc s = .ok r s') (hr : r ≠ 0) : Built s₀ pt s' (insert r M)
  | mappages {s s' : Phys} {M : Set ℕ} {va size pa perm : ℕ} {ok : Bool} (hB : Built s₀ pt s M)
      (hpa : pa < 2 ^ 64) (hperm : perm < 2 ^ 10)
      (hrun : run (mappages pt va size pa perm) s = .ok ok s') : Built s₀ pt s' M
  | uvmunmap {s s' : Phys} {M : Set ℕ} {va npages : ℕ} (hB : Built s₀ pt s M)
      (hrun : run (uvmunmap pt va npages false) s = .ok () s') : Built s₀ pt s' M
  | uvmunmapFree {s s' : Phys} {M : Set ℕ} {va npages : ℕ} (hB : Built s₀ pt s M)
      (hM : MapsInto s pt va npages M)
      (hrun : run (uvmunmap pt va npages true) s = .ok () s') :
      Built s₀ pt s' (M \ {k | ∃ i < npages, frameAt s pt va i = k})
  | uvmclear {s s' : Phys} {M : Set ℕ} {va : ℕ} (hB : Built s₀ pt s M)
      (hrun : run (uvmclear pt va) s = .ok () s') : Built s₀ pt s' M

/-! ### The tree that is built -/

/-- The owners: the user of the page table, and everybody else. -/
abbrev Who := Bool

/-- The user of the page table knows its tree, and has the frames of `M` besides. -/
def Keeps (s : Phys) (pt : ℕ) (M : Set ℕ) (ℓ : Who → PageHeap) (T : Tree) : Prop :=
  Owned s ℓ ∧ Holds T pt (ℓ true) ∧ ∀ k ∈ M, ℓ true k ≠ none ∧ ¬ T.Has k

lemma FreeOk.owned {s : Phys} (hs : FreeOk s) :
    ∃ ℓ : Who → PageHeap, Owned s ℓ ∧ ℓ true = fun _ => none := by
  obtain ⟨free, hch, hnd, hin⟩ := hs
  classical
  refine ⟨fun p k => if p = false ∧ IsPage s.kend k ∧ k ∉ free then some (s.mem k) else none,
    ⟨free, hch, ?_⟩, by funext k; simp⟩
  refine { agree := ?_, excl := ?_, nodup := hnd, apart := ?_, all := ?_ }
  · intro p k v hv
    split at hv
    · exact Option.some.inj hv
    · cases hv
  · intro p q k hp hq
    simp only [ne_eq, ite_eq_right_iff, reduceCtorEq, imp_false, not_not] at hp hq
    rw [hp.1, hq.1]
  · intro k hk p
    exact if_neg fun h0 => h0.2.2 hk
  · intro k
    constructor
    · intro hk
      by_cases hf : k ∈ free
      · exact .inl hf
      · exact .inr ⟨false, by rw [if_pos ⟨rfl, hk, hf⟩]; simp⟩
    · rintro (hk | ⟨p, hp⟩)
      · exact hin k hk
      · simp only [ne_eq, ite_eq_right_iff, reduceCtorEq, imp_false, not_not] at hp
        exact hp.2.1

/-- No stop is allowed. -/
abbrev never : Stop → Phys → Prop := fun _ _ => False

/-- Every stop is allowed. -/
abbrev any : Stop → Phys → Prop := fun _ _ => True

section

variable {s s' : Phys} {ℓ : Who → PageHeap} {α : Type}

variable {x : Code α} {Q : α → PageHeap → Prop} {E : Stop → Phys → Prop} {va npages : ℕ}

lemma Owned.run_ok {a : α}
    (H : Owned s ℓ) (h : Ok E true x Q (ℓ true)) (hrun : run x s = .ok a s') :
    ∃ ℓ' : Who → PageHeap, Owned s' ℓ' ∧ Q a (ℓ' true) := by
  obtain ⟨h', hO, hQ⟩ := wp_ok (h.alone (fun _ => trivial) (fun _ => rfl) H rfl) hrun
  exact ⟨_, hO, by rwa [update_self]⟩

lemma Owned.run_total (H : Owned s ℓ) (h : Ok never true x Q (ℓ true)) :
    ∃ a s' h', run x s = .ok a s' ∧ Q a h' := by
  obtain ⟨a, s', hx, h', -, hQ⟩ := wp_run (h.alone (fun _ => trivial) (fun _ => rfl) H rfl) fun _ _ h0 => h0
  exact ⟨a, s', h', hx, hQ⟩

variable {pt : ℕ} {T : Tree}

lemma Holds.lookup_ok {h : PageHeap} (H : Holds T pt h) (hva : va < MAXVA) :
    Ok E true (lookup pt va) (fun e h' => e = T.pte (va / 4096) ∧ h' = h) h := by
  refine Safe.bind_read (H.walk_read fun h0 => by omega) ?_
  rintro r ⟨-, hr⟩
  by_cases h0 : r = 0
  · rw [if_pos h0]
    exact ⟨(H.void _ (H.slot_eq_zero.mp (hr ▸ h0))).symm, rfl⟩
  · rw [if_neg h0, hr]
    exact H.load_slot (hr ▸ h0)

lemma entry_eq (hO : Owned s ℓ) (H : Holds T pt (ℓ true)) (hva : va < MAXVA) :
    entry s pt va = T.pte (va / 4096) := by
  obtain ⟨e, s', h', hrun, he, -⟩ := hO.run_total (H.lookup_ok hva)
  unfold entry
  rw [hrun]
  exact he

variable {M : Set ℕ}

lemma Keeps.grown {T' : Tree} {ℓ' : Who → PageHeap} (K : Keeps s pt M ℓ T) (hO : Owned s' ℓ')
    (H : Holds T' pt (ℓ' true)) (G : Grown T (ℓ true) T' (ℓ' true)) : Keeps s' pt M ℓ' T' := by
  refine ⟨hO, H, fun k hk => ?_⟩
  obtain ⟨h1, h2⟩ := K.2.2 k hk
  have hnot : ¬ T'.Has k := fun h0 => (G.has_new h0).elim h2 h1
  exact ⟨by rw [G.frame k hnot]; exact h1, hnot⟩

lemma unmapCount_le (va npages : ℕ) : unmapCount va npages ≤ npages := by
  have hle : u64 (va + npages * PGSIZE) ≤ va + npages * PGSIZE := Nat.mod_le _ _
  unfold unmapCount
  simp only [PGSIZE] at hle ⊢
  omega

lemma Keeps.canFree (K : Keeps s pt M ℓ T) (hva : va % 4096 = 0)
    (hM : MapsInto s pt va npages M) : CanFree T (ℓ true) (va / 4096) (unmapCount va npages) := by
  have hcount := unmapCount_le va npages
  have hframe : ∀ i, va / 4096 + i < VPAGES →
      frameAt s pt va i = pte2pa (T.pte (va / 4096 + i)) := by
    intro i hi
    have hdiv : (va + i * PGSIZE) / 4096 = va / 4096 + i := by
      simp only [PGSIZE]
      omega
    unfold frameAt
    rw [entry_eq K.1 K.2.1 ((lt_MAXVA _).mpr (by rw [hdiv]; exact hi)), hdiv]
  constructor
  · intro w h1 h2 h3 _
    have hin := hM.1 (w - va / 4096) (by omega)
    rw [hframe _ (by omega), show va / 4096 + (w - va / 4096) = w by omega] at hin
    exact K.2.2 _ hin
  · intro w w' h1 h2 h3 h4 he
    have hi : w = va / 4096 + (w - va / 4096) := by omega
    have hj : w' = va / 4096 + (w' - va / 4096) := by omega
    rw [hi, hj, ← hframe _ (by omega), ← hframe _ (by omega)] at he
    have := hM.2 _ (by omega) _ (by omega) he
    omega

lemma Keeps.unmapped {do_free : Bool} (K : Keeps s pt M ℓ T)
    (hM : do_free = true → MapsInto s pt va npages M)
    (hrun : run (uvmunmap pt va npages do_free) s = .ok () s') :
    ∃ ℓ' T', Owned s' ℓ' ∧ va % 4096 = 0 ∧
      Unmapping T pt (ℓ true) (va / 4096) (unmapCount va npages) do_free T' (ℓ' true) := by
  have hok := K.2.1.uvmunmap_ok (E := any) (p := true) va npages
    (fun hva hd => K.canFree hva (hM hd)) (.inr fun _ _ => trivial)
  obtain ⟨ℓ', hO, hva, T', U⟩ := K.1.run_ok hok hrun
  exact ⟨ℓ', T', hO, hva, U⟩

end

/-- **The tree of every page table that is built.** -/
theorem keeps_of_built {s₀ s : Phys} {pt : ℕ} {M : Set ℕ} (h₀ : FreeOk s₀) (hB : Built s₀ pt s M) :
    ∃ ℓ T, Keeps s pt M ℓ T := by
  induction hB with
  | uvmcreate hrun hpt =>
    obtain ⟨ℓ, hO, hℓ⟩ := h₀.owned
    have hok : Ok any true uvmcreate _ (ℓ true) := uvmcreate_ok
    obtain ⟨ℓ', hO', h0 | ⟨hr, -, hh⟩⟩ := hO.run_ok hok hrun
    · exact absurd h0.1 hpt
    · exact ⟨ℓ', Tree.empty pt, hO', holds_empty hr (by rw [hh, update_self]),
        fun k hk => absurd hk (Set.notMem_empty k)⟩
  | @kalloc s s' M r _ hrun hr ih =>
    obtain ⟨ℓ, T, K⟩ := ih
    have hok : Ok any true kalloc _ (ℓ true) := kalloc_ok
    obtain ⟨ℓ', hO', h0 | ⟨-, hn, hh⟩⟩ := K.1.run_ok hok hrun
    · exact absurd h0.1 hr
    have hnot : ¬ T.Has r := fun h0 => K.2.1.has_ne h0 hn
    refine ⟨ℓ', T, hO', K.2.1.frame fun q hq => ?_, fun k hk => ?_⟩
    · rw [hh, update_of_ne]
      rintro rfl
      exact hnot hq
    · by_cases hkr : k = r
      · subst hkr
        exact ⟨by simp [hh], hnot⟩
      · obtain ⟨h1, h2⟩ := K.2.2 k (hk.resolve_left hkr)
        exact ⟨by rw [hh, update_of_ne hkr]; exact h1, h2⟩
  | @mappages s s' M va size pa perm ok _ hpa hperm hrun ih =>
    obtain ⟨ℓ, T, K⟩ := ih
    have hok := K.2.1.mappages_ok (E := any) (p := true) va size hpa hperm
      (.inr fun _ _ => trivial)
    obtain ⟨ℓ', hO', hr⟩ := K.1.run_ok hok hrun
    cases ok with
    | true =>
      obtain ⟨n, T', -, -, H, G, -⟩ := hr
      exact ⟨ℓ', T', K.grown hO' H G⟩
    | false =>
      obtain ⟨n, T', Mp⟩ := hr
      exact ⟨ℓ', T', K.grown hO' Mp.holds Mp.grown⟩
  | uvmunmap _ hrun ih =>
    obtain ⟨ℓ, T, K⟩ := ih
    obtain ⟨ℓ', T', hO', -, U⟩ := K.unmapped (fun h0 => by cases h0) hrun
    refine ⟨ℓ', T', hO', U.holds, fun k hk => ?_⟩
    obtain ⟨h1, h2⟩ := K.2.2 k hk
    exact ⟨by rw [U.kept k h2 fun h0 => by cases h0]; exact h1,
      fun h0 => h2 ((has_congr U.tab k).mp h0)⟩
  | @uvmunmapFree s s' M va npages _ hM hrun ih =>
    obtain ⟨ℓ, T, K⟩ := ih
    obtain ⟨ℓ', T', hO', hva, U⟩ := K.unmapped (fun _ => hM) hrun
    refine ⟨ℓ', T', hO', U.holds, fun k hk => ?_⟩
    obtain ⟨h1, h2⟩ := K.2.2 k hk.1
    refine ⟨?_, fun h0 => h2 ((has_congr U.tab k).mp h0)⟩
    rw [U.kept k h2 fun _ => ?_]
    · exact h1
    rintro ⟨w, h3, h4, h5⟩
    have hcount := unmapCount_le va npages
    refine hk.2 ⟨w - va / 4096, by omega, ?_⟩
    have hdiv : (va + (w - va / 4096) * PGSIZE) / 4096 = w := by
      simp only [PGSIZE]
      omega
    unfold frameAt
    rw [entry_eq K.1 K.2.1 ((lt_MAXVA _).mpr (by rw [hdiv]; exact (U.leaf w h3 h4).1)), hdiv, h5]
  | @uvmclear s s' M va _ hrun ih =>
    obtain ⟨ℓ, T, K⟩ := ih
    have hok := K.2.1.uvmclear_ok (E := any) (p := true) va (.inr fun _ _ => trivial)
    obtain ⟨ℓ', hO', -, H, hf⟩ := K.1.run_ok hok hrun
    refine ⟨ℓ', _, hO', H, fun k hk => ?_⟩
    obtain ⟨h1, h2⟩ := K.2.2 k hk
    exact ⟨by rw [hf k h2]; exact h1, h2⟩

/-! ### The laws of the map -/

section

variable {s s' : Phys} {ℓ : Who → PageHeap} {pt : ℕ} {T : Tree} {M : Set ℕ}

lemma Holds.walk_any {h : PageHeap} (H : Holds T pt h) (va : ℕ) (alloc : Bool) :
    Ok any true (walk pt va alloc) (fun r h' => ∃ T', Holds T' pt h' ∧ Grown T h T' h' ∧
      (r ≠ 0 → r = T'.slot (va / 4096))) h := by
  cases alloc with
  | false =>
    refine (H.walk_read fun _ _ => trivial).mono ?_
    rintro r h' ⟨⟨-, hr⟩, rfl⟩
    exact ⟨T, H, Grown.refl T _, fun _ => hr⟩
  | true =>
    refine (H.walk_alloc fun _ _ => trivial).mono ?_
    rintro r h' ⟨-, T', H', G, -, hr⟩
    exact ⟨T', H', G, hr⟩

lemma Grown.slot {h h' : PageHeap} {T' : Tree} (G : Grown T h T' h') {v : ℕ} (hv : T.slot v ≠ 0) :
    T'.slot v = T.slot v := by
  cases hq : T.tab 0 (v / 512) with
  | none => exact absurd (by simp [Tree.slot, hq]) hv
  | some q => rw [slot_of_some hq, slot_of_some (G.keep _ _ _ hq)]

lemma Keeps.slots (K : Keeps s pt M ℓ T) {va₁ va₂ p₁ p₂ : ℕ} {b₁ b₂ : Bool} {s₁ s₂ : Phys}
    (h1 : run (walk pt va₁ b₁) s = .ok p₁ s₁) (h2 : run (walk pt va₂ b₂) s₁ = .ok p₂ s₂)
    (hp1 : p₁ ≠ 0) (hp2 : p₂ ≠ 0) : p₁ = p₂ ↔ va₁ / PGSIZE = va₂ / PGSIZE := by
  obtain ⟨ℓ₁, hO₁, T₁, H₁, -, hs₁⟩ := K.1.run_ok (K.2.1.walk_any va₁ b₁) h1
  obtain ⟨ℓ₂, hO₂, T₂, H₂, G, hs₂⟩ := hO₁.run_ok (H₁.walk_any va₂ b₂) h2
  have hne : T₁.slot (va₁ / 4096) ≠ 0 := hs₁ hp1 ▸ hp1
  rw [hs₁ hp1, hs₂ hp2, ← G.slot hne]
  exact H₂.slot_inj (by rw [G.slot hne]; exact hne)

lemma lastPage_eq {va size n : ℕ} (hva : va % PGSIZE = 0) (hlt : va < 2 ^ 64)
    (hsize : size < 2 ^ 64) (hn : va / 4096 + n = lastPage va size)
    (hmax : va / 4096 + n < VPAGES) : ∀ k, k * PGSIZE < size ↔ k < n + 1 := by
  intro k
  unfold lastPage pgRoundDown u64 at hn
  simp only [PGSIZE, VPAGES] at *
  omega

lemma Keeps.mapped (K : Keeps s pt M ℓ T) {va size pa perm : ℕ} (hva : va % PGSIZE = 0)
    (hlt : va < 2 ^ 64) (hsize : size < 2 ^ 64) (hpa : pa < 2 ^ 64) (hperm : perm < 2 ^ 10)
    (hrun : run (mappages pt va size pa perm) s = .ok true s') :
    (∀ k, k * PGSIZE < size → entry s' pt (va + k * PGSIZE) =
      pa2pte (u64 (pa + k * PGSIZE)) ||| (perm ||| PTE_V)) ∧
    ∀ a < MAXVA, (∀ k, k * PGSIZE < size → a / PGSIZE ≠ va / PGSIZE + k) →
      entry s' pt a = entry s pt a := by
  have hok := K.2.1.mappages_ok (E := any) (p := true) va size hpa hperm
    (.inr fun _ _ => trivial)
  obtain ⟨ℓ', hO', n, T', hn, hmax, H', -, hp⟩ := K.1.run_ok hok hrun
  have hcount := lastPage_eq hva hlt hsize hn hmax
  refine ⟨fun k hk => ?_, fun a ha hne => ?_⟩
  · have hkn := (hcount k).mp hk
    have hdiv : (va + k * PGSIZE) / 4096 = va / 4096 + k := by
      simp only [PGSIZE] at *
      omega
    rw [entry_eq hO' H' ((lt_MAXVA _).mpr (by rw [hdiv]; omega)), hp, hdiv, Vm.mapped,
      if_pos (by omega), Nat.add_sub_cancel_left, Nat.mul_comm k]
  · rw [entry_eq hO' H' ha, entry_eq K.1 K.2.1 ha, hp, Vm.mapped, if_neg]
    rintro ⟨h1, h2⟩
    refine hne (a / 4096 - va / 4096) ((hcount _).mpr (by omega)) ?_
    simp only [PGSIZE]
    omega

lemma Keeps.removed (K : Keeps s pt M ℓ T) {va npages : ℕ} {do_free : Bool}
    (hM : do_free = true → MapsInto s pt va npages M) (hwrap : va + npages * PGSIZE < 2 ^ 64)
    (hrun : run (uvmunmap pt va npages do_free) s = .ok () s') {a : ℕ} (ha : a < MAXVA) :
    entry s' pt a = if va / PGSIZE ≤ a / PGSIZE ∧ a / PGSIZE < va / PGSIZE + npages then 0
      else entry s pt a := by
  obtain ⟨ℓ', T', hO', -, U⟩ := K.unmapped hM hrun
  have hcount : unmapCount va npages = npages := by
    unfold unmapCount u64
    rw [Nat.mod_eq_of_lt hwrap]
    simp only [PGSIZE]
    omega
  rw [entry_eq hO' U.holds ha, entry_eq K.1 K.2.1 ha, U.pte, hcount]
  rfl

lemma Keeps.found (K : Keeps s pt M ℓ T) (va : ℕ) :
    ∃ s', run (walkaddr pt va) s = .ok (if va < MAXVA ∧ entry s pt va &&& PTE_V ≠ 0 ∧
      entry s pt va &&& PTE_U ≠ 0 then pte2pa (entry s pt va) else 0) s' := by
  obtain ⟨r, s', -, hrun, hr, -⟩ := K.1.run_total (K.2.1.walkaddr_ok va)
  refine ⟨s', ?_⟩
  rw [hrun, hr]
  unfold Tree.addr
  by_cases hva : va < MAXVA
  · rw [entry_eq K.1 K.2.1 hva]
  · rw [if_neg fun h0 => hva h0.1, if_neg fun h0 => hva h0.1]

end

/-- **A page table is a finite map.** For every page table that is built by calls whose
`perm` are flags and that free frames of their caller only, `walk` reaches a slot of its own
for each page; `mappages` maps the pages of its range and no others; `uvmunmap` removes the
pages of its range and no others; `walkaddr` finds the valid user pages; and an entry gives
back the address and the flags that were stored. -/
theorem sv39_finite_map {s₀ s : Phys} {pt : ℕ} {M : Set ℕ} (h₀ : FreeOk s₀)
    (hB : Built s₀ pt s M) :
    (∀ va₁ va₂ b₁ b₂ p₁ p₂ s₁ s₂, run (walk pt va₁ b₁) s = .ok p₁ s₁ →
      run (walk pt va₂ b₂) s₁ = .ok p₂ s₂ → p₁ ≠ 0 → p₂ ≠ 0 →
      (p₁ = p₂ ↔ va₁ / PGSIZE = va₂ / PGSIZE)) ∧
    (∀ va size pa perm s', va % PGSIZE = 0 → pa % PGSIZE = 0 → va < 2 ^ 64 → size < 2 ^ 64 →
      pa < 2 ^ 64 → perm < 2 ^ 10 → run (mappages pt va size pa perm) s = .ok true s' →
      (∀ k, k * PGSIZE < size →
        pte2pa (entry s' pt (va + k * PGSIZE)) = u64 (pa + k * PGSIZE) ∧
        pteFlags (entry s' pt (va + k * PGSIZE)) = perm ||| PTE_V) ∧
      ∀ a < MAXVA, (∀ k, k * PGSIZE < size → a / PGSIZE ≠ va / PGSIZE + k) →
        entry s' pt a = entry s pt a) ∧
    (∀ va npages do_free s', (do_free = true → MapsInto s pt va npages M) →
      va + npages * PGSIZE < 2 ^ 64 → run (uvmunmap pt va npages do_free) s = .ok () s' →
      ∀ a < MAXVA, entry s' pt a =
        if va / PGSIZE ≤ a / PGSIZE ∧ a / PGSIZE < va / PGSIZE + npages then 0
        else entry s pt a) ∧
    (∀ va, ∃ s', run (walkaddr pt va) s = .ok (if va < MAXVA ∧ entry s pt va &&& PTE_V ≠ 0 ∧
      entry s pt va &&& PTE_U ≠ 0 then pte2pa (entry s pt va) else 0) s') ∧
    ∀ pa f, pa % PGSIZE = 0 → pa < 2 ^ 64 → f < 2 ^ 10 →
      pte2pa (pa2pte pa ||| f) = pa ∧ pteFlags (pa2pte pa ||| f) = f := by
  obtain ⟨ℓ, T, K⟩ := keeps_of_built h₀ hB
  refine ⟨?_, ?_, ?_, K.found, ?_⟩
  · intro va₁ va₂ b₁ b₂ p₁ p₂ s₁ s₂ h1 h2 hp1 hp2
    exact K.slots h1 h2 hp1 hp2
  · intro va size pa perm s' hva hal hlt hsize hpa hperm hrun
    obtain ⟨hin, hout⟩ := K.mapped hva hlt hsize hpa hperm hrun
    have hf : perm ||| PTE_V < 1024 := flags_or_lt hperm (by decide)
    refine ⟨fun k hk => ?_, hout⟩
    rw [hin k hk]
    refine ⟨pte2pa_or ?_ (u64_lt _) hf, pteFlags_or _ hf⟩
    simp only [u64, PGSIZE] at *
    omega
  · intro va npages do_free s' hM hwrap hrun a ha
    exact K.removed hM hwrap hrun ha
  · intro pa f hpa hlt hf
    exact ⟨pte2pa_or hpa hlt hf, pteFlags_or pa hf⟩

/-! ### A machine with four free pages -/

def fourPages : Phys where
  mem := fun k => putLe zeroes 0 8 (if k < 0x80403000 then k + 4096 else 0)
  freelist := 0x80400000
  kend := 0x80400000
  trampoline := 0x80007000
  kend_ge := kernbase_le
  trampoline_lt := trampoline_fits

lemma freeOk_fourPages : FreeOk fourPages := by
  refine ⟨[0x80400000, 0x80401000, 0x80402000, 0x80403000], ?_, by decide, ?_⟩
  · have hend : le (fourPages.mem 0x80403000) 0 8 = 0 := by decide +kernel
    refine ⟨rfl, ?_, ?_, ?_, hend⟩ <;> decide +kernel
  · intro k hk
    simp only [List.mem_cons, List.not_mem_nil, or_false] at hk
    rcases hk with rfl | rfl | rfl | rfl <;> exact ⟨by decide, by decide, by decide⟩

/-- The state a call leaves. -/
def after {α : Type} (x : Code α) (s : Phys) : Phys := endState (run x) s

def returned {α : Type} (x : Code α) (s : Phys) : Option α := outcome (run x) s

lemma run_of_returned {α : Type} {x : Code α} {s : Phys} {a : α} (h : returned x s = some a) :
    run x s = .ok a (after x s) := run_of_outcome h

lemma run_of_returned_fst {α β : Type} {x : Code (α × β)} {s : Phys} {a : α}
    (h : (returned x s).map Prod.fst = some a) (b₀ : β) :
    run x s = .ok (a, ((returned x s).map Prod.snd).getD b₀) (after x s) := by
  obtain ⟨⟨a, b⟩, hr, rfl⟩ := Option.map_eq_some_iff.mp h
  rw [hr]
  exact run_of_returned hr

/-- The first page of `fourPages` as a new page table. -/
def created : Phys := after uvmcreate fourPages

lemma created_run : run uvmcreate fourPages = .ok 0x80400000 created :=
  run_of_returned (by decide +kernel)

/-- The laws at a page table with two pages mapped. -/
theorem sv39_finite_map_two : FreeOk fourPages ∧ ∃ s s' : Phys,
    run uvmcreate fourPages = .ok 0x80400000 s ∧
    run (mappages 0x80400000 0 0x2000 0x5000 PTE_R) s = .ok true s' ∧
    (∀ k, k * PGSIZE < 0x2000 →
      pte2pa (entry s' 0x80400000 (0 + k * PGSIZE)) = u64 (0x5000 + k * PGSIZE) ∧
      pteFlags (entry s' 0x80400000 (0 + k * PGSIZE)) = PTE_R ||| PTE_V) := by
  have hrun : run (mappages 0x80400000 0 0x2000 0x5000 PTE_R) created = .ok true
      (after (mappages 0x80400000 0 0x2000 0x5000 PTE_R) created) :=
    run_of_returned (by decide +kernel)
  have hB : Built fourPages 0x80400000 created ∅ := .uvmcreate created_run (by decide)
  exact ⟨freeOk_fourPages, created, _, created_run, hrun,
    ((sv39_finite_map freeOk_fourPages hB).2.1 0 0x2000 0x5000 PTE_R _ (by decide) (by decide)
      (by decide) (by decide) (by decide) (by decide) hrun).1⟩

/-- Three sequences of calls after which the laws fail: a `perm` that is no set of flags
changes the address; a call that frees the root loses a page it was not asked to remove; a
count of pages that wraps removes nothing. -/
theorem sv39_map_broken :
    (∃ s s' : Phys, run uvmcreate fourPages = .ok 0x80400000 s ∧
      run (mappages 0x80400000 0 PGSIZE 0 0x400) s = .ok true s' ∧
      pte2pa (entry s' 0x80400000 0) ≠ 0) ∧
    (∃ s s' s'' : Phys, run uvmcreate fourPages = .ok 0x80400000 s ∧
      run (mappages 0x80400000 0 0x2000 0x80400000 PTE_R) s = .ok true s' ∧
      run (uvmunmap 0x80400000 0 1 true) s' = .ok () s'' ∧
      entry s'' 0x80400000 PGSIZE ≠ entry s' 0x80400000 PGSIZE) ∧
    ∃ s s' s'' : Phys, run uvmcreate fourPages = .ok 0x80400000 s ∧
      run (mappages 0x80400000 0 PGSIZE 0x5000 PTE_R) s = .ok true s' ∧
      run (uvmunmap 0x80400000 0 (2 ^ 52) false) s' = .ok () s'' ∧
      entry s'' 0x80400000 0 ≠ 0 := by
  refine ⟨⟨created, _, created_run, run_of_returned (by decide +kernel), by decide +kernel⟩,
    ⟨created, _, _, created_run, run_of_returned (by decide +kernel),
      run_of_returned (by decide +kernel), by decide +kernel⟩,
    ⟨created, _, _, created_run, run_of_returned (by decide +kernel),
      run_of_returned (by decide +kernel), by decide +kernel⟩⟩

end Xv6.Vm
