import Xv6.Vm.Uvm

/-!
The three-level tree of a page table, as its owner knows it.

A node of the tree is named by its level and by the part of the page number above it:
node `x` of level `l` has the entries `512 * x`, ..., `512 * x + 511` of that level. An
entry of level `0` is the entry of a virtual page; an entry of a higher level is empty or
points to the node of the same name one level down.
-/

namespace Xv6.Vm

open Lib.Bytes Lib.Wp Lib.Conc Lib.Own Lib.Conc.Prog Function

structure Tree where
  /-- The page of a node, by level and name. -/
  tab : ℕ → ℕ → Option ℕ
  /-- The entry of a virtual page. -/
  pte : ℕ → ℕ

namespace Tree

/-- What entry `x` of a level holds. -/
def entry (T : Tree) : ℕ → ℕ → ℕ
  | 0, v => T.pte v
  | l + 1, x => match T.tab l x with
    | none => 0
    | some q => pa2pte q ||| PTE_V

/-- The address of the entry of virtual page `v`, `0` if there is none. -/
def slot (T : Tree) (v : ℕ) : ℕ := match T.tab 0 (v / 512) with
  | none => 0
  | some q => q + 8 * (v % 512)

/-- `q` is a page of the tree. -/
def Has (T : Tree) (q : ℕ) : Prop := ∃ l x, T.tab l x = some q

def set (T : Tree) (v e : ℕ) : Tree := { T with pte := update T.pte v e }

/-- The tree with a new node. -/
def graft (T : Tree) (l x q : ℕ) : Tree :=
  { T with tab := fun l' x' => if l' = l ∧ x' = x then some q else T.tab l' x' }

end Tree

/-- The pages of `h` hold the tree `T` with root `root`. -/
structure Holds (T : Tree) (root : ℕ) (h : PageHeap) : Prop where
  root : T.tab 2 0 = some root
  top : ∀ l x, 2 ≤ l → T.tab l x ≠ none → l = 2 ∧ x = 0
  page : ∀ l x q, T.tab l x = some q →
    ∃ c, h q = some c ∧ ∀ i < 512, le c (8 * i) 8 = T.entry l (512 * x + i)
  ram : ∀ l x q, T.tab l x = some q → Ram q
  up : ∀ l x, l < 2 → T.tab l x ≠ none → T.tab (l + 1) (x / 512) ≠ none
  inj : ∀ l x l' x' q, T.tab l x = some q → T.tab l' x' = some q → l = l' ∧ x = x'
  void : ∀ v, T.tab 0 (v / 512) = none → T.pte v = 0

variable {T : Tree} {root : ℕ} {h : PageHeap}

variable {q v l va x e r l' x' : ℕ} {c : Page} {h' : PageHeap}

namespace Holds

lemma has_ne (H : Holds T root h) (hq : T.Has q) : h q ≠ none := by
  obtain ⟨l, x, hx⟩ := hq
  obtain ⟨c, hc, -⟩ := H.page l x q hx
  simp [hc]

lemma frame (H : Holds T root h) (hf : ∀ q, T.Has q → h' q = h q) : Holds T root h' :=
  { H with
    page := fun l x q hx => by
      rw [hf q ⟨l, x, hx⟩]
      exact H.page l x q hx }

lemma pte_lt (H : Holds T root h) (v : ℕ) : T.pte v < 2 ^ 64 := by
  cases ht : T.tab 0 (v / 512) with
  | none => rw [H.void v ht]; decide
  | some q =>
    obtain ⟨c, -, hc⟩ := H.page 0 _ q ht
    have hv : T.pte v = le c (8 * (v % 512)) 8 := by
      rw [hc _ (Nat.mod_lt _ (by decide)), Tree.entry, Nat.div_add_mod]
    rw [hv]
    exact le_lt c _ 8

lemma tab_up (H : Holds T root h) (hv : T.tab 0 (v / 512) ≠ none) :
    ∀ l, l ≤ 2 → T.tab l (v / 512 ^ (l + 1)) ≠ none
  | 0, _ => by simpa using hv
  | l + 1, hl => by
    have h := H.up l _ (by omega) (tab_up H hv l (by omega))
    rwa [Nat.div_div_eq_div_mul, ← pow_succ] at h

end Holds

lemma slot_of_some (hq : T.tab 0 (v / 512) = some q) : T.slot v = q + 8 * (v % 512) := by
  simp [Tree.slot, hq]

lemma Holds.slot_eq_zero (H : Holds T root h) : T.slot v = 0 ↔ T.tab 0 (v / 512) = none := by
  cases hq : T.tab 0 (v / 512) with
  | none => simp [Tree.slot, hq]
  | some q =>
    have := (H.ram 0 _ q hq).ne_zero
    simp only [slot_of_some hq, reduceCtorEq, iff_false]
    omega

lemma Holds.slot_inj (H : Holds T root h) {w : ℕ} (hv : T.slot v ≠ 0) : T.slot v = T.slot w ↔ v = w := by
  refine ⟨fun he => ?_, fun he => by rw [he]⟩
  have hw : T.slot w ≠ 0 := he ▸ hv
  obtain ⟨q, hq⟩ := Option.ne_none_iff_exists'.mp fun h0 => hv (H.slot_eq_zero.mpr h0)
  obtain ⟨r, hr⟩ := Option.ne_none_iff_exists'.mp fun h0 => hw (H.slot_eq_zero.mpr h0)
  rw [slot_of_some hq, slot_of_some hr] at he
  have h1 := (H.ram 0 _ q hq).1
  have h2 := (H.ram 0 _ r hr).1
  have hqr : q = r := by omega
  have hx := (H.inj 0 _ 0 _ q hq (hqr ▸ hr)).2
  omega

/-! ### Reading the tree -/

lemma path_entry (l v : ℕ) : 512 * (v / 512 ^ (l + 1)) + v / 512 ^ l % 512 = v / 512 ^ l := by
  rw [pow_succ, ← Nat.div_div_eq_div_mul, Nat.div_add_mod]

variable {ι : Type} [DecidableEq ι] {E : Stop → Phys → Prop} {p : ι}

lemma Holds.load_entry (H : Holds T root h) (hq : T.tab l (va / 4096 / 512 ^ (l + 1)) = some q) :
    Ok E p (load (q + 8 * px l va))
      (fun v h' => v = T.entry l (va / 4096 / 512 ^ l) ∧ h' = h) h := by
  obtain ⟨c, hc, he⟩ := H.page l _ q hq
  have hlt := px_lt l va
  refine (load_ok hc (by omega)).mono ?_
  intro v h' hv
  rw [hv.1, he _ hlt, px_eq, path_entry]
  exact ⟨rfl, hv.2⟩

lemma entry_none (hx : T.tab l x = none) : T.entry (l + 1) x = 0 := by
  simp [Tree.entry, hx]

lemma entry_some (hx : T.tab l x = some q) : T.entry (l + 1) x = pa2pte q ||| PTE_V := by
  simp [Tree.entry, hx]

lemma Ram.lt (hr : Ram root) : root < 2 ^ 64 := hr.2.2.trans (by decide)

lemma pte2pa_node (hr : Ram q) : pte2pa (pa2pte q ||| PTE_V) = q :=
  pte2pa_or hr.1 hr.lt (by decide)

lemma valid_node (q : ℕ) : (pa2pte q ||| PTE_V) &&& PTE_V ≠ 0 := by
  have h := @valid_or q 0 (by decide)
  rwa [Nat.zero_or] at h

lemma Holds.walkDown_read (H : Holds T root h) (l : ℕ) (hl : l ≤ 2)
    (hq : T.tab l (va / 4096 / 512 ^ (l + 1)) = some q) :
    Ok E p (walkDown va false l q) (fun r h' => r = T.slot (va / 4096) ∧ h' = h) h := by
  induction l generalizing q with
  | zero =>
    refine ⟨?_, rfl⟩
    rw [px_eq, slot_of_some (q := q) (by simpa using hq)]
    simp
  | succ l ih =>
    refine Safe.bind_read (H.load_entry hq) ?_
    rintro v rfl
    cases hn : T.tab l (va / 4096 / 512 ^ (l + 1)) with
    | none =>
      rw [entry_none hn, if_neg (by simp)]
      refine ⟨(H.slot_eq_zero.mpr ?_).symm, rfl⟩
      by_contra h0
      exact H.tab_up h0 l (by omega) hn
    | some r =>
      rw [entry_some hn, if_pos (valid_node r), pte2pa_node (H.ram l _ r hn)]
      exact ih (by omega) hn

lemma path_top (hva : va < MAXVA) : va / 4096 / 512 ^ (2 + 1) = 0 := by
  simp only [MAXVA] at hva
  omega

lemma Holds.walk_read (H : Holds T root h) (hE : va ≥ MAXVA → ∀ s, E (.panic "walk") s) :
    Ok E p (walk root va false)
      (fun r h' => (va < MAXVA ∧ r = T.slot (va / 4096)) ∧ h' = h) h := by
  refine Safe.bind (panicIf_stops hE) ?_
  rintro _ h' ⟨rfl, hva⟩
  have hlt : va < MAXVA := by omega
  refine (H.walkDown_read 2 le_rfl ?_).mono fun r h' hr => ⟨⟨hlt, hr.1⟩, hr.2⟩
  rw [path_top hlt]
  exact H.root

lemma Holds.load_slot (H : Holds T root h) (hv : T.slot v ≠ 0) :
    Ok E p (load (T.slot v)) (fun e h' => e = T.pte v ∧ h' = h) h := by
  obtain ⟨q, hq⟩ := Option.ne_none_iff_exists'.mp fun h0 => hv (H.slot_eq_zero.mpr h0)
  obtain ⟨c, hc, he⟩ := H.page 0 _ q hq
  have hlt : v % 512 < 512 := Nat.mod_lt _ (by decide)
  rw [slot_of_some hq]
  refine (load_ok hc (by omega)).mono ?_
  intro e h' hv
  rw [hv.1, he _ hlt, Tree.entry, Nat.div_add_mod]
  exact ⟨rfl, hv.2⟩

/-! ### Writing an entry -/

lemma le_put {i j : ℕ} (hi : i < 512) (he : e < 2 ^ 64) :
    le (putLe c (8 * i) 8 e) (8 * j) 8 = if j = i then e else le c (8 * j) 8 := by
  split
  · rename_i hji
    rw [hji]
    exact le_putLe_of_lt c (by simp only [PGSIZE]; omega) (by simpa using he)
  · exact le_putLe_of_disjoint c e (by omega)

lemma Holds.set (H : Holds T root h) (hq : T.tab 0 (v / 512) = some q)
    (hc : h q = some c) (he : e < 2 ^ 64) :
    Holds (T.set v e) root (update h q (some (putLe c (8 * (v % 512)) 8 e))) :=
  { root := H.root
    top := H.top
    ram := H.ram
    up := H.up
    inj := H.inj
    void := fun w hw => by
      have hne : w ≠ v := by
        rintro rfl
        rw [show T.tab 0 (w / 512) = none from hw] at hq
        cases hq
      show update T.pte v e w = 0
      rw [update_of_ne hne]
      exact H.void w hw
    page := fun l x r hr => by
      have hr' : T.tab l x = some r := hr
      obtain ⟨c', hc', hent⟩ := H.page l x r hr'
      by_cases hrq : r = q
      · -- the node that was written
        obtain ⟨rfl, rfl⟩ := H.inj l x 0 (v / 512) q (hrq ▸ hr') hq
        rw [hrq, hc] at hc'
        cases hc'
        refine ⟨_, by rw [hrq, update_self], fun i hi => ?_⟩
        rw [le_put (Nat.mod_lt _ (by decide)) he]
        show _ = update T.pte v e _
        split
        · rename_i hiv
          rw [hiv, Nat.div_add_mod, update_self]
        · rw [update_of_ne (by omega), hent i hi, Tree.entry]
      · refine ⟨c', by rw [update_of_ne hrq, hc'], fun i hi => ?_⟩
        rw [hent i hi]
        cases l with
        | zero =>
          show T.pte _ = update T.pte v e _
          rw [update_of_ne]
          intro hv
          have hx : x = v / 512 := by omega
          rw [hx, hq] at hr'
          cases hr'
          exact hrq rfl
        | succ l => rfl }

lemma Holds.store_slot (H : Holds T root h) (hv : T.slot v ≠ 0) (he : e < 2 ^ 64) :
    Ok E p (store (T.slot v) e)
      (fun _ h' => Holds (T.set v e) root h' ∧ ∀ k, ¬ T.Has k → h' k = h k) h := by
  obtain ⟨q, hq⟩ := Option.ne_none_iff_exists'.mp fun h0 => hv (H.slot_eq_zero.mpr h0)
  obtain ⟨c, hc, -⟩ := H.page 0 _ q hq
  have hlt : v % 512 < 512 := Nat.mod_lt _ (by decide)
  rw [slot_of_some hq]
  refine (store_ok hc (by omega) e).mono ?_
  rintro _ h' rfl
  refine ⟨H.set hq hc he, fun k hk => update_of_ne ?_ _ _⟩
  rintro rfl
  exact hk ⟨0, _, hq⟩

/-! ### New nodes -/

/-- The tree has grown from `T`, with pages that were nobody's. Pages outside the tree are
as they were. -/
structure Grown (T : Tree) (h : PageHeap) (T' : Tree) (h' : PageHeap) : Prop where
  keep : ∀ l x q, T.tab l x = some q → T'.tab l x = some q
  new : ∀ l x q, T'.tab l x = some q → T.tab l x = some q ∨ h q = none
  frame : ∀ k, ¬ T'.Has k → h' k = h k

lemma Grown.has {T' : Tree} (G : Grown T h T' h') (hq : T.Has q) : T'.Has q := by
  obtain ⟨l, x, hx⟩ := hq
  exact ⟨l, x, G.keep l x q hx⟩

lemma Grown.has_new {T' : Tree} (G : Grown T h T' h') (hq : T'.Has q) : T.Has q ∨ h q = none := by
  obtain ⟨l, x, hx⟩ := hq
  exact (G.new l x q hx).imp (fun ht => ⟨l, x, ht⟩) id

lemma Grown.refl (T : Tree) (h : PageHeap) : Grown T h T h where
  keep := fun _ _ _ hx => hx
  new := fun _ _ _ hx => .inl hx
  frame := fun _ _ => rfl

lemma Grown.trans {T₁ T₂ : Tree} {h₁ h₂ : PageHeap} (G : Grown T h T₁ h₁)
    (G' : Grown T₁ h₁ T₂ h₂) (H : Holds T₁ root h₁) : Grown T h T₂ h₂ where
  keep := fun l x q hx => G'.keep l x q (G.keep l x q hx)
  new := fun l x q hx => by
    rcases G'.new l x q hx with h1 | h1
    · exact G.new l x q h1
    · refine .inr ?_
      rw [← G.frame q fun hq => H.has_ne hq h1]
      exact h1
  frame := fun k hk => by
    rw [G'.frame k hk]
    exact G.frame k fun hq => hk (G'.has hq)

lemma Grown.set (hf : ∀ k, ¬ T.Has k → h' k = h k) : Grown T h (T.set v e) h' where
  keep := fun _ _ _ hx => hx
  new := fun _ _ _ hx => .inl hx
  frame := hf

lemma tab_graft (hx : (T.graft l x r).tab l' x' = some q) :
    l' = l ∧ x' = x ∧ q = r ∨ ¬ (l' = l ∧ x' = x) ∧ T.tab l' x' = some q := by
  have hx' : (if l' = l ∧ x' = x then some r else T.tab l' x') = some q := hx
  split at hx'
  · rename_i h'
    cases hx'
    exact .inl ⟨h'.1, h'.2, rfl⟩
  · exact .inr ⟨‹_›, hx'⟩

lemma tab_graft_ne (hne : ¬ (l' = l ∧ x' = x)) : (T.graft l x r).tab l' x' = T.tab l' x' := if_neg hne

lemma tab_graft_self : (T.graft l x r).tab l x = some r := if_pos ⟨rfl, rfl⟩

lemma keep_graft (hx : T.tab l x = none) (ht : T.tab l' x' = some q) :
    (T.graft l x r).tab l' x' = some q := by
  rw [tab_graft_ne]
  · exact ht
  · rintro ⟨rfl, rfl⟩
    rw [hx] at ht
    cases ht

lemma entry_graft {y : ℕ} (hne : ¬ (l' = l + 1 ∧ y = x)) : (T.graft l x r).entry l' y = T.entry l' y := by
  cases l' with
  | zero => rfl
  | succ l' =>
    have hne' : ¬ (l' = l ∧ y = x) := fun e => hne ⟨by omega, e.2⟩
    simp only [Tree.entry, tab_graft_ne hne']

lemma Holds.entry_below (H : Holds T root h) (hl : l < 2) (hx : T.tab l x = none)
    {i : ℕ} (hi : i < 512) : T.entry l (512 * x + i) = 0 := by
  have hdiv : (512 * x + i) / 512 = x := by omega
  cases l with
  | zero => exact H.void _ (by rw [hdiv]; exact hx)
  | succ l =>
    refine entry_none ?_
    by_contra hn
    refine H.up l _ (by omega) hn ?_
    rw [hdiv]
    exact hx

lemma Holds.graft (H : Holds T root h) (hl : l < 2)
    (hq : T.tab (l + 1) (x / 512) = some q) (hx : T.tab l x = none) (hc : h q = some c)
    (hr : Ram r) (hrn : h r = none) :
    Holds (T.graft l x r) root
      (update (update h r (some zeroes)) q
        (some (putLe c (8 * (x % 512)) 8 (pa2pte r ||| PTE_V)))) := by
  have hqr : q ≠ r := by
    rintro rfl
    rw [hc] at hrn
    cases hrn
  have hold : ∀ l' x' q', T.tab l' x' = some q' → q' ≠ r := by
    rintro l' x' q' ht rfl
    exact H.has_ne ⟨l', x', ht⟩ hrn
  refine
    { root := ?_, top := ?_, page := ?_, ram := ?_, up := ?_, inj := ?_, void := ?_ }
  · rw [tab_graft_ne (by omega)]
    exact H.root
  · intro l' x' hl' hn
    rw [tab_graft_ne (by omega)] at hn
    exact H.top l' x' hl' hn
  · intro l' x' q' ht
    rcases tab_graft ht with ⟨rfl, rfl, rfl⟩ | ⟨-, ht'⟩
    · -- the new node
      refine ⟨zeroes, by rw [update_of_ne hqr.symm, update_self], fun i hi => ?_⟩
      rw [le_zeroes, entry_graft (by omega), H.entry_below hl hx hi]
    · obtain ⟨c', hc', hent⟩ := H.page l' x' q' ht'
      by_cases hqq : q' = q
      · -- the node above
        subst hqq
        obtain ⟨rfl, rfl⟩ := H.inj l' x' (l + 1) (x / 512) q' ht' hq
        rw [hc] at hc'
        cases hc'
        refine ⟨_, update_self _ _ _, fun i hi => ?_⟩
        rw [le_put (Nat.mod_lt _ (by decide)) (or_lt r hr.lt (by decide))]
        split
        · rename_i hix
          rw [hix, Nat.div_add_mod, entry_some tab_graft_self]
        · rw [hent i hi, entry_graft (by omega)]
      · refine ⟨c', ?_, fun i hi => ?_⟩
        · rw [update_of_ne hqq, update_of_ne (hold l' x' q' ht'), hc']
        · rw [hent i hi, entry_graft]
          rintro ⟨rfl, rfl⟩
          rw [show (512 * x' + i) / 512 = x' by omega, ht'] at hq
          cases hq
          exact hqq rfl
  · intro l' x' q' ht
    rcases tab_graft ht with ⟨rfl, rfl, rfl⟩ | ⟨-, ht⟩
    · exact hr
    · exact H.ram l' x' q' ht
  · intro l' x' hl' hn
    by_cases hnew : l' + 1 = l ∧ x' / 512 = x
    · rw [hnew.1, hnew.2, tab_graft_self]
      simp
    · rw [tab_graft_ne hnew]
      by_cases hself : l' = l ∧ x' = x
      · rw [hself.1, hself.2, hq]
        simp
      · rw [tab_graft_ne hself] at hn
        exact H.up l' x' hl' hn
  · intro l₁ x₁ l₂ x₂ q' h1 h2
    rcases tab_graft h1 with ⟨e1, e2, e3⟩ | ⟨-, h1'⟩
    · rcases tab_graft h2 with ⟨e4, e5, -⟩ | ⟨-, h2'⟩
      · exact ⟨e1.trans e4.symm, e2.trans e5.symm⟩
      · exact absurd e3 (hold _ _ _ h2')
    · rcases tab_graft h2 with ⟨-, -, e3⟩ | ⟨-, h2'⟩
      · exact absurd e3 (hold _ _ _ h1')
      · exact H.inj _ _ _ _ _ h1' h2'
  · intro v hv
    refine H.void v ?_
    by_contra hn
    by_cases hself : 0 = l ∧ v / 512 = x
    · rw [hself.1, hself.2] at hn
      exact hn hx
    · rw [tab_graft_ne hself] at hv
      exact hn hv

lemma Grown.graft {c' : Page} (hq : T.Has q) (hrn : h r = none) (hx : T.tab l x = none) :
    Grown T h (T.graft l x r) (update (update h r (some c)) q (some c')) where
  keep := fun l' x' q' ht => keep_graft hx ht
  new := fun l' x' q' ht => by
    rcases tab_graft ht with ⟨-, -, rfl⟩ | ⟨-, ht'⟩
    · exact .inr hrn
    · exact .inl ht'
  frame := fun k hk => by
    have h1 : k ≠ q := by
      rintro rfl
      obtain ⟨l', x', ht⟩ := hq
      exact hk ⟨l', x', keep_graft hx ht⟩
    have h2 : k ≠ r := by
      rintro rfl
      exact hk ⟨l, x, tab_graft_self⟩
    rw [update_of_ne h1, update_of_ne h2]

lemma Holds.walkDown_alloc (l : ℕ) (hl : l ≤ 2)
    (H : Holds T root h) (hq : T.tab l (va / 4096 / 512 ^ (l + 1)) = some q) :
    Ok E p (walkDown va true l q) (fun r h' => ∃ T', Holds T' root h' ∧ Grown T h T' h' ∧
      T'.pte = T.pte ∧ (r ≠ 0 → r = T'.slot (va / 4096))) h := by
  induction l generalizing T h q with
  | zero =>
    refine ⟨T, H, Grown.refl T h, rfl, fun _ => ?_⟩
    rw [px_eq, slot_of_some (q := q) (by simpa using hq)]
    simp
  | succ l ih =>
    refine Safe.bind_read (H.load_entry hq) fun v hv => ?_
    rw [hv]
    cases hn : T.tab l (va / 4096 / 512 ^ (l + 1)) with
    | some r =>
      rw [entry_some hn, if_pos (valid_node r), pte2pa_node (H.ram l _ r hn)]
      exact ih (by omega) H hn
    | none =>
      rw [entry_none hn, if_neg (by simp), if_pos rfl]
      refine Safe.bind kalloc_ok ?_
      rintro r h' (⟨rfl, rfl⟩ | ⟨hr, hrn, rfl⟩)
      · rw [if_pos rfl]
        exact ⟨T, H, Grown.refl _ _, rfl, fun h0 => absurd rfl h0⟩
      · rw [if_neg hr.ne_zero]
        refine Safe.bind (memset_ok (by simp) 0) ?_
        rintro _ h' rfl
        rw [update_idem]
        obtain ⟨c, hc, -⟩ := H.page (l + 1) _ q hq
        have hqr : q ≠ r := by
          rintro rfl
          rw [hc] at hrn
          cases hrn
        have hlt := px_lt (l + 1) va
        refine Safe.bind (store_ok (k := q) (c := c)
          (by rw [update_of_ne hqr, hc]) (by omega) _) ?_
        rintro _ h' rfl
        have hq' : T.tab (l + 1) (va / 4096 / 512 ^ (l + 1) / 512) = some q := by
          rw [Nat.div_div_eq_div_mul, ← pow_succ]
          exact hq
        have H' := H.graft (by omega) hq' hn hc hr hrn
        rw [← px_eq] at H'
        refine (ih (by omega) H' tab_graft_self).mono ?_
        rintro r' h' ⟨T', hT', hG', hp, hs⟩
        exact ⟨T', hT', (Grown.graft ⟨_, _, hq⟩ hrn hn).trans hG' H', hp, hs⟩

/-- `walk` with `alloc`: the tree may have grown, and what is found is the slot in it. -/
lemma Holds.walk_alloc (H : Holds T root h) (hE : va ≥ MAXVA → ∀ s, E (.panic "walk") s) :
    Ok E p (walk root va true) (fun r h' => va < MAXVA ∧ ∃ T', Holds T' root h' ∧
      Grown T h T' h' ∧ T'.pte = T.pte ∧ (r ≠ 0 → r = T'.slot (va / 4096))) h := by
  refine Safe.bind (panicIf_stops hE) ?_
  rintro _ h' ⟨rfl, hva⟩
  have hlt : va < MAXVA := by omega
  refine (H.walkDown_alloc 2 le_rfl ?_).mono fun r h' hr => ⟨hlt, hr⟩
  rw [path_top hlt]
  exact H.root

end Xv6.Vm
