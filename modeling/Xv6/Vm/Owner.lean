import Xv6.Vm.Fixed
import Xv6.Vm.Free
import Xv6.Vm.UserMem

/-!
The address spaces of owners, read off physical memory.

What an owner knows of its page table is what a walk through memory finds, so an address space
gives a user table. Two address spaces of different owners, or two of one owner that have no
page in common, are apart: what is stored through one cannot be seen through the other.
-/

namespace Xv6.Vm

open Lib.Bytes Lib.Wp Lib.Conc Lib.Own Lib.Conc.Prog

variable {T U : Tree} {root new n m q va l : ℕ} {h : PageHeap} {ι : Type} {s s' : Phys}
  {ℓ : ι → PageHeap} {p : ι}

/-! ### Walking -/

section

variable {k : ℕ} (H : Holds T root (ℓ p)) (hO : Owned s ℓ)

include H hO

lemma Holds.word_eq (hq : T.tab l (va / 4096 / 512 ^ (l + 1)) = some q) :
    s.word (q + 8 * px l va) = T.entry l (va / 4096 / 512 ^ l) := by
  obtain ⟨c, hc, he⟩ := H.page l _ q hq
  rw [(H.ram _ _ _ hq).word_eq (entry_off l va), hO.agree hc, he _ (px_lt l va), px_eq, path_entry]

lemma Holds.walk_eq (hq : T.tab l (va / 4096 / 512 ^ (l + 1)) = some q) (hl : l ≤ 2) :
    s.leafNode va l q = T.tab 0 (va / 4096 / 512) ∧ ∀ k ∈ s.nodes va l q, T.Has k := by
  induction l generalizing q with
  | zero =>
    rw [Nat.zero_add, pow_one] at hq
    refine ⟨hq.symm, fun k hk => ?_⟩
    rw [Phys.nodes, List.mem_singleton] at hk
    exact ⟨0, _, hk ▸ hq⟩
  | succ l ih =>
    rw [Phys.leafNode, Phys.nodes, H.word_eq hO hq]
    cases hn : T.tab l (va / 4096 / 512 ^ (l + 1)) with
    | none =>
      rw [entry_none hn]
      simp only [Nat.zero_and, ne_eq, not_true_eq_false, if_false]
      refine ⟨?_, fun k hk => ?_⟩
      · by_contra hne
        exact H.tab_up (Ne.symm hne) l (by omega) hn
      · rw [List.mem_singleton] at hk
        exact ⟨_, _, hk ▸ hq⟩
    | some r =>
      obtain ⟨h1, h2⟩ := ih hn (by omega)
      simp only [entry_some hn, if_pos (valid_node r), pte2pa_node (H.ram l _ r hn)]
      refine ⟨h1, fun k hk => ?_⟩
      rcases List.mem_cons.mp hk with rfl | hk
      · exact ⟨_, _, hq⟩
      · exact h2 k hk

lemma Holds.nodes_has (hva : va < MAXVA) (hk : k ∈ s.nodes va 2 root) : T.Has k :=
  (H.walk_eq hO (by rw [path_top hva]; exact H.root) le_rfl).2 k hk

lemma Holds.under_nodes {x : ℕ} (hl : l ≤ 2) (hq : T.tab l x = some q) (hk : Under T l x k) :
    ∃ a, a / 4096 / 512 ^ (l + 1) = x ∧ k ∈ s.nodes a l q := by
  induction l generalizing x q with
  | zero =>
    obtain rfl : k = q := Option.some.inj ((show T.tab 0 x = some k from hk).symm.trans hq)
    exact ⟨4096 * (512 * x), by omega, List.mem_singleton.mpr rfl⟩
  | succ l ih =>
    rcases hk with hk | ⟨i, hi, hk⟩
    · obtain rfl : k = q := Option.some.inj (hk.symm.trans hq)
      refine ⟨4096 * (512 ^ (l + 1 + 1) * x), ?_, ?_⟩
      · rw [Nat.mul_div_cancel_left _ (by decide), Nat.mul_div_cancel_left _ (Nat.pow_pos (by decide))]
      · rw [Phys.nodes]
        split <;> simp
    · obtain ⟨r, hr⟩ := Option.ne_none_iff_exists'.mp (hk.node_ne H (by omega))
      obtain ⟨a, ha, hin⟩ := ih (by omega) hr hk
      have hup : a / 4096 / 512 ^ (l + 1 + 1) = x := by
        rw [pow_succ, ← Nat.div_div_eq_div_mul, ha]
        omega
      refine ⟨a, hup, ?_⟩
      rw [Phys.nodes, H.word_eq hO (hup.symm ▸ hq), ha, entry_some hr, if_pos (valid_node r),
        pte2pa_node (H.ram l _ r hr)]
      exact List.mem_cons_of_mem _ hin

lemma Holds.has_nodes (hk : T.Has k) :
    ∃ a, k ∈ s.nodes a 2 root := by
  obtain ⟨a, -, hin⟩ := H.under_nodes hO le_rfl H.root (H.under_root hk)
  exact ⟨a, hin⟩

lemma Holds.pte_eq (hva : va < MAXVA) :
    s.pte root va = T.pte (va / 4096) := by
  have hwalk := (H.walk_eq hO (by rw [path_top hva]; exact H.root) le_rfl).1
  rw [Phys.pte, hwalk]
  cases hn : T.tab 0 (va / 4096 / 512) with
  | none => exact (H.void _ hn).symm
  | some q =>
    have hword := H.word_eq (l := 0) hO (q := q) (by simpa using hn)
    simp only [hword, Tree.entry, pow_zero, Nat.div_one]

end

section

variable (S : Space T root n (ℓ p)) (hO : Owned s ℓ) (htop : ∀ v, IsTop v → T.pte v &&& PTE_U = 0)

include S hO htop

lemma Space.page_lt {a : ℕ} (ha : s.Accessible root a) : a / 4096 < n := by
  obtain ⟨hlt, hV, hU⟩ := ha
  rw [S.holds.pte_eq hO hlt] at hV hU
  by_contra hge
  by_cases ht : IsTop (a / 4096)
  · exact hU (htop _ ht)
  · rw [S.void _ (by omega) ht] at hV
    exact hV (Nat.zero_and _)

lemma Space.readTable : ReadTable s root := by
  refine ⟨fun a ha k hk => ?_, fun a ha => ?_⟩
  · obtain ⟨l, x, hx⟩ := S.holds.nodes_has hO ha hk
    exact S.holds.ram _ _ _ hx
  · rw [S.holds.pte_eq hO ha.1]
    exact (S.page _ (S.page_lt hO htop ha)).1

/-- **An address space is a user table**: its leaves map different pages of RAM, none of them a page of
the table. -/
theorem Space.userTable : UserTable s root := by
  refine ⟨S.readTable hO htop, fun a ha b hb hin => ?_, fun a b ha hb heq => ?_⟩
  · rw [S.holds.pte_eq hO ha.1] at hin
    exact (S.page _ (S.page_lt hO htop ha)).2.2 (S.holds.nodes_has hO hb hin)
  · rw [S.holds.pte_eq hO ha.1, S.holds.pte_eq hO hb.1] at heq
    rcases Nat.lt_trichotomy (a / 4096) (b / 4096) with hlt | heq' | hlt
    · exact absurd heq (S.distinct _ _ hlt (S.page_lt hO htop hb))
    · exact heq'
    · exact absurd heq.symm (S.distinct _ _ hlt (S.page_lt hO htop ha))

end

lemma Tops.no_user {tf : ℕ} (t : Tops T tf) {v : ℕ} (hv : IsTop v) : T.pte v &&& PTE_U = 0 := by
  rcases hv with rfl | rfl
  · rw [t.trapframe, and_flag _ (by decide), pteFlags_or _ (by decide)]
    decide
  · obtain ⟨pa, -, hpa⟩ := t.trampoline
    rw [hpa, and_flag _ (by decide), pteFlags_or _ (by decide)]
    decide

/-! ### Two user tables -/

/-- Two page tables of which neither maps a page of the other or a page that the other maps. -/
structure Apart (s : Phys) (root new : ℕ) : Prop where
  left : UserTable s root
  right : UserTable s new
  frames : ∀ a b, s.Accessible root a → s.Accessible new b → pte2pa (s.pte root a) ≠ pte2pa (s.pte new b)
  leftNodes : ∀ a, s.Accessible root a → ∀ b < MAXVA, pte2pa (s.pte root a) ∉ s.nodes b 2 new
  rightNodes : ∀ a, s.Accessible new a → ∀ b < MAXVA, pte2pa (s.pte new a) ∉ s.nodes b 2 root

lemma Apart.symm (A : Apart s root new) : Apart s new root :=
  ⟨A.right, A.left, fun a b ha hb => (A.frames b a hb ha).symm, A.rightNodes, A.leftNodes⟩

lemma put_mem_other {src : List UInt8} (hacc : ∀ i < src.length, s.Accessible root (va + i))
    (hq : ∀ a, s.Accessible root a → pte2pa (s.pte root a) ≠ q) :
    (s.put root va src).mem q = s.mem q := by
  refine putUser_other_page fun i hi heq => ?_
  rw [frame_round, frame_eq (hacc i hi)] at heq
  exact hq _ (hacc i hi) heq

section Stores

variable {src : List UInt8}

section

variable {a : ℕ} (A : Apart s root new) (hacc : ∀ i < src.length, s.Accessible root (va + i))

include A hacc

lemma Apart.other_pte (ha : a < MAXVA) :
    (s.put root va src).pte new a = s.pte new a ∧
      (s.put root va src).nodes a 2 new = s.nodes a 2 new := by
  have hsame : ∀ k ∈ s.nodes a 2 new, (s.put root va src).mem k = s.mem k :=
    fun k hk => put_mem_other hacc fun b hb heq => A.leftNodes b hb a ha (heq ▸ hk)
  exact ⟨pte_congr (A.right.table a ha) hsame, (walk_congr (A.right.table a ha) hsame).2⟩

lemma Apart.other_accessible (a : ℕ) :
    (s.put root va src).Accessible new a ↔ s.Accessible new a := by
  unfold Phys.Accessible
  constructor <;> rintro ⟨hlt, h2⟩
  · rw [(A.other_pte hacc hlt).1] at h2
    exact ⟨hlt, h2⟩
  · rw [← (A.other_pte hacc hlt).1] at h2
    exact ⟨hlt, h2⟩

lemma Apart.other_byte (ha : s.Accessible new a) :
    (s.put root va src).userByte new a = s.userByte new a := by
  rw [Phys.userByte, Phys.userByte, (A.other_pte hacc ha.1).1,
    put_mem_other hacc fun b hb heq => A.frames b a hb ha heq]

lemma Apart.own_accessible (a : ℕ) :
    (s.put root va src).Accessible root a ↔ s.Accessible root a := by
  unfold Phys.Accessible
  constructor <;> rintro ⟨hlt, h2⟩
  · rw [A.left.put_pte hacc hlt] at h2
    exact ⟨hlt, h2⟩
  · rw [← A.left.put_pte hacc hlt] at h2
    exact ⟨hlt, h2⟩

lemma Apart.put :
    Apart (s.put root va src) root new := by
  have hnodes : ∀ b < MAXVA, (s.put root va src).nodes b 2 root = s.nodes b 2 root :=
    fun b hb => (walk_congr (A.left.table b hb) fun _ hn => A.left.put_nodes hacc hb hn).2
  refine ⟨A.left.put hacc, ⟨⟨fun a ha k hk => ?_, fun a ha => ?_⟩, fun a ha b hb => ?_,
    fun a b ha hb => ?_⟩, fun a b ha hb => ?_, fun a ha b hb => ?_, fun a ha b hb => ?_⟩
  · rw [(A.other_pte hacc ha).2] at hk
    exact A.right.table a ha k hk
  · rw [A.other_accessible hacc] at ha
    rw [(A.other_pte hacc ha.1).1]
    exact A.right.frame a ha
  · rw [A.other_accessible hacc] at ha
    rw [(A.other_pte hacc ha.1).1, (A.other_pte hacc hb).2]
    exact A.right.apart a ha b hb
  · rw [A.other_accessible hacc] at ha hb
    rw [(A.other_pte hacc ha.1).1, (A.other_pte hacc hb.1).1]
    exact A.right.distinct a b ha hb
  · rw [A.own_accessible hacc] at ha
    rw [A.other_accessible hacc] at hb
    rw [A.left.put_pte hacc ha.1, (A.other_pte hacc hb.1).1]
    exact A.frames a b ha hb
  · rw [A.own_accessible hacc] at ha
    rw [A.left.put_pte hacc ha.1, (A.other_pte hacc hb).2]
    exact A.leftNodes a ha b hb
  · rw [A.other_accessible hacc] at ha
    rw [(A.other_pte hacc ha.1).1, hnodes b hb]
    exact A.rightNodes a ha b hb

end

end Stores

/-- Stores to user memory through either of two page tables. -/
inductive Later (root new : ℕ) (s : Phys) : Phys → Prop
  | now : Later root new s s
  | left {s' : Phys} {va : ℕ} {src : List UInt8} (h : Later root new s s')
      (hacc : ∀ i < src.length, s'.Accessible root (va + i)) : Later root new s (s'.put root va src)
  | right {s' : Phys} {va : ℕ} {src : List UInt8} (h : Later root new s s')
      (hacc : ∀ i < src.length, s'.Accessible new (va + i)) : Later root new s (s'.put new va src)

lemma Later.apart (L : Later root new s s') (A : Apart s root new) : Apart s' root new := by
  induction L with
  | now => exact A
  | left _ hacc ih => exact ih.put hacc
  | right _ hacc ih => exact (ih.symm.put hacc).symm

/-- Whatever either process stores, now or later, the other does not see it. -/
def Isolated (s : Phys) (root new : ℕ) : Prop := ∀ s', Later root new s s' → ∀ va src,
  ((∀ i < src.length, s'.Accessible root (va + i)) →
    ∀ a, s'.Accessible new a → (s'.put root va src).userByte new a = s'.userByte new a) ∧
  ((∀ i < src.length, s'.Accessible new (va + i)) →
    ∀ a, s'.Accessible root a → (s'.put new va src).userByte root a = s'.userByte root a)

/-- **Isolation.** -/
theorem Apart.isolated (A : Apart s root new) : Isolated s root new := by
  intro s' L va src
  have A' := L.apart A
  exact ⟨fun hacc a ha => A'.other_byte hacc ha, fun hacc a ha => A'.symm.other_byte hacc ha⟩

lemma Space.apart {p' : ι} (S : Space T root n (ℓ p)) (S' : Space U new m (ℓ p')) (hO : Owned s ℓ)
    (htop : ∀ v, IsTop v → T.pte v &&& PTE_U = 0) (htop' : ∀ v, IsTop v → U.pte v &&& PTE_U = 0)
    (hfoot : ∀ k, Foot T n k → ¬ Foot U m k) : Apart s root new := by
  have hT : ∀ a, s.Accessible root a → Foot T n (pte2pa (s.pte root a)) := by
    intro a ha
    rw [S.holds.pte_eq hO ha.1]
    exact .inr ⟨_, Nat.zero_le _, by have := S.page_lt hO htop ha; omega, rfl⟩
  have hU : ∀ a, s.Accessible new a → Foot U m (pte2pa (s.pte new a)) := by
    intro a ha
    rw [S'.holds.pte_eq hO ha.1]
    exact .inr ⟨_, Nat.zero_le _, by have := S'.page_lt hO htop' ha; omega, rfl⟩
  refine ⟨S.userTable hO htop, S'.userTable hO htop', fun a b ha hb heq => ?_, fun a ha b hb hin => ?_,
    fun a ha b hb hin => ?_⟩
  · exact hfoot _ (hT a ha) (by rw [heq]; exact hU b hb)
  · exact hfoot _ (hT a ha) (.inl (S'.holds.nodes_has hO hb hin))
  · exact hfoot _ (.inl (S.holds.nodes_has hO hb hin)) (hU a ha)

/-! ### Free pages -/

/-- The pages on the free list. -/
def Phys.Free (s : Phys) (k : ℕ) : Prop :=
  ∃ free, Chain s.mem s.freelist free ∧ 0 ∉ free ∧ k ∈ free

lemma chain_unique {mem : ℕ → Page} {hd : ℕ} {free free' : List ℕ} (h : Chain mem hd free)
    (h' : Chain mem hd free') (h0 : 0 ∉ free) (h0' : 0 ∉ free') : free = free' := by
  induction free generalizing hd free' with
  | nil =>
    cases free' with
    | nil => rfl
    | cons k free' =>
      have hk : hd = k := h'.1
      rw [show hd = 0 from h] at hk
      exact absurd (List.mem_cons.mpr (.inl hk)) h0'
  | cons k free ih =>
    cases free' with
    | nil =>
      have hk : hd = k := h.1
      rw [show hd = 0 from h'] at hk
      exact absurd (List.mem_cons.mpr (.inl hk)) h0
    | cons k' free' =>
      obtain ⟨rfl, hc⟩ := h
      obtain ⟨rfl, hc'⟩ := h'
      rw [ih hc hc' (fun hm => h0 (List.mem_cons_of_mem _ hm))
        fun hm => h0' (List.mem_cons_of_mem _ hm)]

lemma Owned.free_iff (hO : Owned s ℓ) (k : ℕ) :
    s.Free k ↔ IsPage s.kend k ∧ ∀ p, ℓ p k = none := by
  obtain ⟨free, hch, hown⟩ := hO
  have h0 : 0 ∉ free := fun hm => ((hown.all 0).mpr (.inl hm)).ram.ne_zero rfl
  have hfree : s.Free k ↔ k ∈ free := by
    constructor
    · rintro ⟨free', hch', h0', hk⟩
      rw [chain_unique hch hch' h0 h0']
      exact hk
    · exact fun hk => ⟨free, hch, h0, hk⟩
  rw [hfree]
  constructor
  · exact fun hk => ⟨(hown.all k).mpr (.inl hk), hown.apart k hk⟩
  · rintro ⟨hpage, hnone⟩
    rcases (hown.all k).mp hpage with hk | ⟨p, hp⟩
    · exact hk
    · exact absurd (hnone p) hp

lemma Owned.free_same (hO : Owned s ℓ) (hO' : Owned s' ℓ) (hk : SameKernel s s') (k : ℕ) :
    s'.Free k ↔ s.Free k := by
  rw [hO.free_iff, hO'.free_iff, hk.1]

lemma Owned.run [DecidableEq ι] {α : Type} {x : Code α} {Q : α → PageHeap → Prop} (hO : Owned s ℓ)
    (hx : Ok (fun _ _ => False) p x Q (ℓ p)) (hfix : Fixed x) :
    ∃ a s' h', run x s = .ok a s' ∧ Owned s' (Function.update ℓ p h') ∧ SameKernel s s' ∧ Q a h' := by
  have halone := Safe.alone (fun _ => trivial) (fun _ => rfl) hx hO rfl
  have hboth := wp_and halone (hfix s)
  obtain ⟨a, s', hrun, ⟨h', hO', hQ⟩, hk⟩ := wp_run hboth fun _ _ h => h.1
  exact ⟨a, s', h', hrun, hO', hk, hQ⟩

end Xv6.Vm
