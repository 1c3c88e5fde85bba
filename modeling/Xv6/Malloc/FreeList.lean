import Xv6.Malloc.Heap

/-!
The free list, and what `free` does to it.
-/

namespace Xv6.Malloc

open Lib.Wp Lib.Chain Lib.Spans List

/-- The blocks of `l` are the free list, in the order of their addresses, and those of `live` are
in use. -/
structure Rep (base : ℕ) (h : Heap) (l live : List Block) : Prop where
  pool : Pool base h (l ++ live)
  ring : Ring h.next (l.map Block.addr)
  base_mem : ⟨base, 0⟩ ∈ l
  sorted : l.Pairwise fun x y => x.fin < y.addr
  freep : h.freep ∈ l.map Block.addr

variable {base k p : ℕ} {h h' : Heap} {l l' live l₁ l₂ m : List Block} {b x y : Block}

/-! ### The place of a block -/

section

variable {hdr : ℕ → Header} {bp f q z : ℕ} {c n₁ n₂ r : List ℕ}

/-- The loop of `free` stops at `p`, which is linked to `q`. -/
def Behind (bp p q : ℕ) : Prop := (bp > p ∧ bp < q) ∨ (p ≥ q ∧ (bp > p ∨ bp < q))

lemma place_stop (h : Behind bp f (hdr f).ptr) : place hdr bp (k + 1) f = some f := by
  rw [place]
  rcases h with h | h
  · rw [if_pos h]
  · by_cases h' : bp > f ∧ bp < (hdr f).ptr
    · rw [if_pos h']
    · rw [if_neg h', if_pos h]

lemma place_next (h : ¬ Behind bp f (hdr f).ptr) :
    place hdr bp (k + 1) f = place hdr bp k (hdr f).ptr := by
  rw [Behind, not_or] at h
  rw [place, if_neg h.1, if_neg h.2]

lemma place_walk (hp : Path (fun a => (hdr a).ptr) f c q) (hs : (f :: c).Pairwise (· < ·))
    (hside : (∀ x ∈ f :: c, x < bp) ∨ ∀ x ∈ f :: c, bp < x)
    (hz : (f :: c).getLast (cons_ne_nil f c) = z) :
    (Behind bp z q → place hdr bp (k + c.length + 1) f = some z) ∧
    (¬ Behind bp z q → place hdr bp (k + c.length + 1) f = place hdr bp k q) := by
  induction c generalizing f with
  | nil =>
    obtain rfl : f = z := hz
    obtain rfl : (hdr f).ptr = q := hp
    exact ⟨place_stop, place_next⟩
  | cons d c ih =>
    obtain ⟨hfd, hs'⟩ := pairwise_cons.mp hs
    have hlt : f < d := hfd d (by simp)
    have hnext : (hdr f).ptr = d := hp.1
    have hnot : ¬ Behind bp f (hdr f).ptr := by
      rw [hnext, Behind]
      rcases hside with h | h
      · have := h d (by simp)
        omega
      · have := h f (by simp)
        omega
    rw [length_cons, ← Nat.add_assoc, place_next hnot, hnext]
    refine ih hp.2 hs' (hside.imp ?_ ?_) (by rwa [getLast_cons_cons] at hz) <;>
      exact fun h x hx => h x (mem_cons_of_mem _ hx)

lemma headD_le_of_mem {c₁ c₂ : List ℕ} (hs : (c₁ ++ f :: c₂).Pairwise (· < ·)) (hp : p ∈ f :: c₂) :
    c₁.headD f ≤ p := by
  obtain ⟨-, hsf, hs12⟩ := pairwise_append.mp hs
  cases c₁ with
  | cons g c₁ => exact Nat.le_of_lt (hs12 g (by simp) p hp)
  | nil =>
    rcases mem_cons.mp hp with rfl | hpc
    · exact Nat.le_refl _
    · exact Nat.le_of_lt ((pairwise_cons.mp hsf).1 p hpc)

lemma getLast_of_append_eq {c₁ c₂ : List ℕ} (h : c₁ ++ f :: c₂ = r ++ [p]) :
    (f :: c₂).getLast (cons_ne_nil f c₂) = p := by
  have hlast := congrArg List.getLast? h
  rw [List.getLast?_append_of_ne_nil _ (cons_ne_nil f c₂), List.getLast?_concat,
    List.getLast?_eq_getLast_of_ne_nil (cons_ne_nil f c₂)] at hlast
  exact Option.some.inj hlast

section

variable (hr : Ring (fun a => (hdr a).ptr) (n₁ ++ n₂)) (hs : (n₁ ++ n₂).Pairwise (· < ·))
  (h1 : ∀ x ∈ n₁, x < bp) (h2 : ∀ x ∈ n₂, bp < x) (hp : n₂ ++ n₁ = r ++ [p])

include hr hs h1 h2 hp

lemma place_below (hf : f ∈ n₁) (hk : n₁.length ≤ k) : place hdr bp k f = some p := by
  obtain ⟨c₁, c₂, rfl⟩ := append_of_mem hf
  have hpath := hr c₁ f (c₂ ++ n₂) (by simp)
  rw [append_assoc] at hpath
  have hlast : (f :: c₂).getLast (cons_ne_nil f c₂) = p := by
    rw [← append_assoc] at hp
    exact getLast_of_append_eq hp
  have hpmem : p ∈ f :: c₂ := hlast ▸ getLast_mem _
  obtain ⟨hs1, -, -⟩ := pairwise_append.mp hs
  obtain ⟨-, hsf, -⟩ := pairwise_append.mp hs1
  have hplt : p < bp := h1 p (mem_append_right _ hpmem)
  rw [length_append, length_cons] at hk
  obtain ⟨j, rfl⟩ : ∃ j, k = j + c₂.length + 1 := ⟨k - c₂.length - 1, by omega⟩
  refine (place_walk hpath.take hsf (.inl fun x hx => h1 x (mem_append_right _ hx)) hlast).1 ?_
  cases n₂ with
  | cons y n₂ => exact .inl ⟨hplt, h2 y (by simp)⟩
  | nil =>
    -- the last node is linked to the first, and the block is above both
    exact .inr ⟨headD_le_of_mem hs1 hpmem, .inl hplt⟩

/-- The loop of `free` ends at the node that comes before the block, around the ring. -/
lemma place_ring (hf : f ∈ n₁ ++ n₂) (hk : (n₁ ++ n₂).length ≤ k) : place hdr bp k f = some p := by
  rw [length_append] at hk
  rcases mem_append.mp hf with hf | hf
  · exact place_below hr hs h1 h2 hp hf (by omega)
  obtain ⟨c₁, c₂, rfl⟩ := append_of_mem hf
  have hpath := hr (n₁ ++ c₁) f c₂ (by simp)
  obtain ⟨-, hs2, -⟩ := pairwise_append.mp hs
  obtain ⟨-, hsf, -⟩ := pairwise_append.mp hs2
  rw [length_append, length_cons] at hk
  obtain ⟨j, rfl⟩ : ∃ j, k = j + c₂.length + 1 := ⟨k - c₂.length - 1, by omega⟩
  have hside : ∀ x ∈ f :: c₂, bp < x := fun x hx => h2 x (mem_append_right _ hx)
  obtain ⟨hstop, hgo⟩ := place_walk (k := j) (z := (f :: c₂).getLast (cons_ne_nil f c₂))
    hpath.take hsf (.inr hside) rfl
  have hz := hside _ (getLast_mem (cons_ne_nil f c₂))
  cases n₁ with
  | cons g n₁ =>
    -- over the top to the first node
    have hg := h1 g (by simp)
    change ¬ Behind bp _ g → _ = place hdr bp j g at hgo
    rw [hgo (by rw [Behind]; omega)]
    exact place_below hr hs h1 h2 hp (by simp) (by simp only [length_cons] at hk ⊢; omega)
  | nil =>
    -- the block is below all nodes
    have hlast : (f :: c₂).getLast (cons_ne_nil f c₂) = p := by
      rw [append_nil] at hp
      exact getLast_of_append_eq hp
    rw [hlast] at hstop hz
    have hpmem : p ∈ f :: c₂ := hlast ▸ getLast_mem _
    refine hstop (.inr ⟨headD_le_of_mem hs2 hpmem, .inr ?_⟩)
    cases c₁ with
    | cons g c₁ => exact h2 g (by simp)
    | nil => exact h2 f (by simp)

end

end

/-! ### The list and the blocks in use -/

namespace Rep

lemma addr_sorted (hr : Rep base h l live) : (l.map Block.addr).Pairwise (· < ·) := by
  rw [pairwise_map]
  exact hr.sorted.imp fun hxy => Nat.lt_of_le_of_lt (Block.addr_le_fin _) hxy

lemma addr_nodup (hr : Rep base h l live) : (l.map Block.addr).Nodup :=
  hr.addr_sorted.imp fun hxy => Nat.ne_of_lt hxy

lemma pool_cons (hr : Rep base h l (b :: live)) : Pool base h (b :: (l ++ live)) :=
  hr.pool.perm perm_middle

lemma node_ne (hr : Rep base h l (b :: live)) {a : ℕ} (ha : a ∈ l.map Block.addr) : a ≠ b.addr := by
  obtain ⟨x, hx, rfl⟩ := mem_map.mp ha
  exact hr.pool_cons.addr_ne (mem_append_left _ hx)

lemma perm_live (hr : Rep base h l live) {live' : List Block} (hp : live.Perm live') :
    Rep base h l live' := { hr with pool := hr.pool.perm (hp.append_left l) }

lemma live_fine (hr : Rep base h l (b :: live)) : Fine base b := by
  rcases hr.pool.fine b (by simp) with rfl | hb
  · exact absurd rfl (hr.node_ne (mem_map_of_mem hr.base_mem))
  · exact hb

lemma free_fine (hr : Rep base h l live) (hx : x ∈ l) (hne : x ≠ ⟨base, 0⟩) : Fine base x :=
  (hr.pool.fine x (mem_append_left _ hx)).resolve_left hne

lemma setFreep (hr : Rep base h l live) (hp : p ∈ l.map Block.addr) :
    Rep base { h with freep := p } l live :=
  ⟨hr.pool.congr (fun _ => rfl) rfl, hr.ring, hr.base_mem, hr.sorted, hp⟩

lemma setPtr_live (hr : Rep base h l (b :: live)) (v : ℕ) :
    Rep base (h.setPtr b.addr v) l (b :: live) := by
  refine ⟨hr.pool.congr (h.size_setPtr b.addr v) rfl, hr.ring.congr fun a ha => ?_, hr.base_mem,
    hr.sorted, hr.freep⟩
  exact h.next_setPtr_of_ne v (hr.node_ne ha)

lemma merge (hr : Rep base h l (b :: y :: live)) (hadj : b.fin = y.addr) (v : ℕ) :
    Rep base (h.setHdr b.addr ⟨v, b.size + y.size⟩) l (⟨b.addr, b.size + y.size⟩ :: live) := by
  have hy := (hr.perm_live (List.Perm.swap y b live)).live_fine
  have hpool : Pool base h (b :: y :: (l ++ live)) := by
    refine hr.pool_cons.perm (List.Perm.cons b ?_)
    exact perm_middle
  refine ⟨(hpool.join hr.live_fine hy hadj v).perm perm_middle.symm,
    hr.ring.congr fun a ha => ?_, hr.base_mem, hr.sorted, hr.freep⟩
  rw [Heap.next, Heap.setHdr_of_ne _ _ (hr.node_ne ha), Heap.next]

lemma unlink (hr : Rep base h (l₁ ++ y :: l₂) live) (hy : y ≠ ⟨base, 0⟩)
    (hp : p ∈ (l₁ ++ y :: l₂).map Block.addr) (hn : h.next p = y.addr) :
    Rep base { h.setPtr p (h.next y.addr) with freep := p } (l₁ ++ l₂) (y :: live) := by
  have hbase : (⟨base, 0⟩ : Block) ∈ l₁ ++ l₂ := by
    have := hr.base_mem
    simp only [mem_append, mem_cons] at this ⊢
    rcases this with h | h | h
    · exact .inl h
    · exact absurd h.symm hy
    · exact .inr h
  have hne : l₂.map Block.addr ++ l₁.map Block.addr ≠ [] := by
    intro hnil
    obtain ⟨h2, h1⟩ := append_eq_nil_iff.mp hnil
    rw [map_eq_nil_iff] at h1 h2
    rw [h1, h2] at hbase
    exact absurd hbase not_mem_nil
  have hring := hr.ring
  have hnd := hr.addr_nodup
  rw [map_append, map_cons] at hring hnd hp
  obtain ⟨hpmem, hring'⟩ := hring.erase hnd hp hn hne (h.next_setPtr_self p (h.next y.addr))
    fun a _ ha => h.next_setPtr_of_ne _ ha
  rw [← map_append] at hpmem hring'
  refine ⟨?_, hring', hbase, ?_, hpmem⟩
  · have hpool : Pool base { h.setPtr p (h.next y.addr) with freep := p }
        (l₁ ++ y :: l₂ ++ live) := hr.pool.congr (h.size_setPtr _ _) rfl
    refine hpool.perm ?_
    rw [append_assoc, append_assoc, cons_append]
    exact List.Perm.append_left l₁ perm_middle.symm
  · exact hr.sorted.sublist (List.Sublist.append_left (sublist_cons_self y l₂) l₁)

lemma insert (hr : Rep base h (l₁ ++ l₂) (b :: live)) (h1 : ∀ x ∈ l₁, x.fin < b.addr)
    (h2 : ∀ y ∈ l₂, b.fin < y.addr) (hp : l₂ ++ l₁ = m ++ [x])
    (hb : h.next b.addr = h.next x.addr) :
    Rep base (h.setPtr x.addr b.addr) (l₁ ++ b :: l₂) live := by
  have hx : x ∈ l₁ ++ l₂ := by
    have : x ∈ l₂ ++ l₁ := by simp [hp]
    rw [mem_append, or_comm, ← mem_append]
    exact this
  have hbx : b.addr ≠ x.addr := (hr.node_ne (mem_map_of_mem hx)).symm
  refine ⟨?_, ?_, ?_, ?_, ?_⟩
  · have hpool : Pool base (h.setPtr x.addr b.addr) (l₁ ++ l₂ ++ b :: live) :=
      hr.pool.congr (h.size_setPtr _ _) rfl
    refine hpool.perm ?_
    rw [append_assoc, append_assoc, cons_append]
    exact List.Perm.append_left l₁ perm_middle
  · have hring := hr.ring
    have hnd := hr.addr_nodup
    rw [map_append] at hring hnd
    rw [map_append, map_cons]
    have hp' : l₂.map Block.addr ++ l₁.map Block.addr = m.map Block.addr ++ [x.addr] := by
      rw [← map_append, hp, map_append]
      rfl
    refine hring.insert hnd hp' ?_ (h.next_setPtr_self ..) fun a _ ha => h.next_setPtr_of_ne _ ha
    rw [h.next_setPtr_of_ne _ hbx, hb]
  · have := hr.base_mem
    simp only [mem_append, mem_cons] at this ⊢
    tauto
  · obtain ⟨hs1, hs2, hs12⟩ := pairwise_append.mp hr.sorted
    refine pairwise_append.mpr ⟨hs1, pairwise_cons.mpr ⟨h2, hs2⟩, fun z hz w hw => ?_⟩
    rcases mem_cons.mp hw with rfl | hw
    · exact h1 z hz
    · exact hs12 z hz w hw
  · have := hr.freep
    change h.freep ∈ _
    simp only [map_append, map_cons, mem_append, mem_cons] at this ⊢
    tauto

lemma resize (hr : Rep base h (l₁ ++ x :: l₂) live) (hx : x ≠ ⟨base, 0⟩) (hy : y.addr = x.addr)
    (hgap : ∀ z ∈ l₂, y.fin < z.addr) {live' : List Block}
    (hpool : Pool base h' (l₁ ++ y :: l₂ ++ live')) (hnext : ∀ a, h'.next a = h.next a)
    (hfreep : h'.freep = h.freep) : Rep base h' (l₁ ++ y :: l₂) live' := by
  have haddr : (l₁ ++ y :: l₂).map Block.addr = (l₁ ++ x :: l₂).map Block.addr := by simp [hy]
  refine ⟨hpool, ?_, ?_, ?_, ?_⟩
  · rw [haddr]
    exact hr.ring.congr fun a _ => hnext a
  · have := hr.base_mem
    simp only [mem_append, mem_cons] at this ⊢
    rcases this with h | h | h
    · exact .inl h
    · exact absurd h.symm hx
    · exact .inr (.inr h)
  · obtain ⟨hs1, hs2, hs12⟩ := pairwise_append.mp hr.sorted
    obtain ⟨-, hs2⟩ := pairwise_cons.mp hs2
    refine pairwise_append.mpr ⟨hs1, pairwise_cons.mpr ⟨hgap, hs2⟩, fun z hz w hw => ?_⟩
    rcases mem_cons.mp hw with rfl | hw
    · rw [hy]
      exact hs12 z hz x (by simp)
    · exact hs12 z hz w (by simp [hw])
  · rw [haddr, hfreep]
    exact hr.freep

lemma grow (hr : Rep base h (l₁ ++ x :: l₂) (b :: live)) (hx : x ≠ ⟨base, 0⟩)
    (hadj : x.fin = b.addr) (hgap : ∀ y ∈ l₂, b.fin < y.addr) :
    Rep base (h.setSize x.addr (x.size + b.size)) (l₁ ++ ⟨x.addr, x.size + b.size⟩ :: l₂) live := by
  have hfin : (⟨x.addr, x.size + b.size⟩ : Block).fin = b.fin := by
    simp only [Block.fin] at hadj ⊢
    omega
  have hpool : Pool base h (x :: b :: (l₁ ++ l₂ ++ live)) := by
    refine hr.pool_cons.perm (List.Perm.trans (List.Perm.cons b ?_) (List.Perm.swap x b _))
    rw [append_assoc, append_assoc]
    exact perm_middle
  have hjoin := hpool.join (hr.free_fine (by simp) hx) hr.live_fine hadj (h.hdr x.addr).ptr
  refine hr.resize (y := ⟨x.addr, x.size + b.size⟩) hx rfl (by rwa [hfin]) (hjoin.perm ?_)
    (h.next_setSize _ _) rfl
  rw [append_assoc, append_assoc, cons_append]
  exact perm_middle.symm

lemma cut (hr : Rep base h (l₁ ++ x :: l₂) live) (hx : x ≠ ⟨base, 0⟩) {n : ℕ} (hn : 0 < n)
    (hnx : n < x.size) :
    Rep base ((h.setSize x.addr (x.size - n)).setSize (x.addr + 16 * (x.size - n)) n)
      (l₁ ++ ⟨x.addr, x.size - n⟩ :: l₂) (⟨x.addr + 16 * (x.size - n), n⟩ :: live) := by
  have hpool : Pool base h (x :: (l₁ ++ l₂ ++ live)) := by
    refine hr.pool.perm ?_
    rw [append_assoc, append_assoc]
    exact perm_middle
  have hsplit := hpool.split (hr.free_fine (by simp) hx) hn hnx
  refine hr.resize (y := ⟨x.addr, x.size - n⟩) hx rfl (fun y hy => ?_) (hsplit.perm ?_)
    (fun a => (Heap.next_setSize ..).trans (Heap.next_setSize ..)) rfl
  · have hs2 := (pairwise_append.mp hr.sorted).2.1
    have hxy := (pairwise_cons.mp hs2).1 y hy
    simp only [Block.fin] at hxy ⊢
    omega
  · refine List.Perm.trans (List.Perm.cons _ ?_) perm_middle.symm
    rw [append_assoc, append_assoc, cons_append]
    exact perm_middle.symm

end Rep

/-! ### `free` -/

lemma exists_split (hs : l.Pairwise fun x y => x.fin < y.addr)
    (hap : ∀ x ∈ l, b.fin ≤ x.addr ∨ x.fin ≤ b.addr) :
    ∃ l₁ l₂, l = l₁ ++ l₂ ∧ (∀ x ∈ l₁, x.fin ≤ b.addr) ∧ ∀ y ∈ l₂, b.fin ≤ y.addr := by
  induction l with
  | nil => exact ⟨[], [], rfl, by simp, by simp⟩
  | cons x l ih =>
    obtain ⟨hxl, hs'⟩ := pairwise_cons.mp hs
    rcases hap x (by simp) with hx | hx
    · refine ⟨[], x :: l, rfl, by simp, fun y hy => ?_⟩
      rcases mem_cons.mp hy with rfl | hy
      · exact hx
      · have h1 := hxl y hy
        have h2 := x.addr_le_fin
        omega
    · obtain ⟨l₁, l₂, rfl, h1, h2⟩ := ih hs' fun y hy => hap y (by simp [hy])
      refine ⟨x :: l₁, l₂, rfl, fun y hy => ?_, h2⟩
      rcases mem_cons.mp hy with rfl | hy
      · exact hx
      · exact h1 y hy

/-- Where the block at `b` belongs in the list: between `l₁` and `l₂`, behind `x`. -/
structure Fits (b : Block) (l₁ l₂ : List Block) (x : Block) : Prop where
  below : ∀ y ∈ l₁, y.fin ≤ b.addr
  above : ∀ y ∈ l₂, b.fin ≤ y.addr
  last : ∃ m, l₂ ++ l₁ = m ++ [x]

namespace Fits

lemma mem (hf : Fits b l₁ l₂ x) : x ∈ l₁ ++ l₂ := by
  obtain ⟨m, hm⟩ := hf.last
  have : x ∈ l₂ ++ l₁ := by simp [hm]
  rwa [mem_append, or_comm, ← mem_append] at this

lemma last_of_mem (hf : Fits b l₁ l₂ x) (hy : y ∈ l₁) : ∃ l₀, l₁ = l₀ ++ [x] := by
  obtain ⟨m, hm⟩ := hf.last
  rcases eq_nil_or_concat' l₁ with rfl | ⟨l₀, z, rfl⟩
  · exact absurd hy not_mem_nil
  · rw [← append_assoc] at hm
    obtain ⟨-, hz⟩ := append_inj' hm rfl
    rw [(List.cons.inj hz).1]
    exact ⟨l₀, rfl⟩

end Fits

namespace Rep

lemma exists_fits (hr : Rep base h l (b :: live)) : ∃ l₁ l₂ x, l = l₁ ++ l₂ ∧ Fits b l₁ l₂ x := by
  obtain ⟨l₁, l₂, rfl, h1, h2⟩ := exists_split hr.sorted
    fun x hx => hr.pool_cons.apart (mem_append_left _ hx)
  rcases eq_nil_or_concat' (l₂ ++ l₁) with hnil | ⟨m, x, hm⟩
  · obtain ⟨rfl, rfl⟩ := append_eq_nil_iff.mp hnil
    exact absurd hr.base_mem not_mem_nil
  · exact ⟨l₁, l₂, x, rfl, h1, h2, m, hm⟩

section

variable (hr : Rep base h (l₁ ++ l₂) (b :: live)) (hf : Fits b l₁ l₂ x)

include hr hf

lemma place_eq (hk : (l₁ ++ l₂).length ≤ k) : place h.hdr b.addr k h.freep = some x.addr := by
  have hsorted := hr.addr_sorted
  have hring := hr.ring
  have hfreep := hr.freep
  rw [map_append] at hsorted hring hfreep
  obtain ⟨m, hm⟩ := hf.last
  refine place_ring (r := m.map Block.addr) hring hsorted ?_ ?_ ?_ hfreep (by simpa using hk)
  · intro a ha
    obtain ⟨y, hy, rfl⟩ := mem_map.mp ha
    have h1 := hf.below y hy
    have h2 := y.addr_le_fin
    have h3 : y.addr ≠ b.addr := hr.pool_cons.addr_ne (by simp [hy])
    omega
  · intro a ha
    obtain ⟨y, hy, rfl⟩ := mem_map.mp ha
    have h1 := hf.above y hy
    have h2 := b.addr_le_fin
    have h3 : y.addr ≠ b.addr := hr.pool_cons.addr_ne (by simp [hy])
    omega
  · rw [← map_append, hm, map_append]
    rfl

lemma next_eq :
    h.next x.addr = (l₂.map Block.addr ++ l₁.map Block.addr).headD x.addr := by
  obtain ⟨m, hm⟩ := hf.last
  have hring := hr.ring
  rw [map_append] at hring
  have hswap := hring.swap
  rw [← map_append, hm, map_append] at hswap ⊢
  have hpath := hswap (m.map Block.addr) x.addr [] rfl
  rw [nil_append] at hpath
  rw [hpath.next_eq]
  cases m <;> rfl

/-- `joinUp`, as far as the node before the block, whose link is yet to be set, goes. -/
lemma joinUp_rep (hsmall : h.total < 2 ^ 36) :
    ∃ b' l', Rep base { (joinUp b.addr (h.next x.addr) h).setPtr x.addr
        ((joinUp b.addr (h.next x.addr) h).next b.addr) with freep := x.addr }
        (l₁ ++ l') (b' :: live) ∧ Fits b' l₁ l' x ∧ (∀ y ∈ l', b'.fin < y.addr) ∧
      b'.addr = b.addr ∧ b.size ≤ b'.size ∧ l'.length ≤ l₂.length ∧
      (joinUp b.addr (h.next x.addr) h).memory = h.memory ∧
      ((joinUp b.addr (h.next x.addr) h).hdr b.addr).size = b'.size := by
  have hb := hr.live_fine
  have hsize : (h.hdr b.addr).size = b.size := hr.pool.size_eq b (by simp)
  have hend : b.addr + 16 * (h.hdr b.addr).size = b.fin := by rw [hsize]; rfl
  have hxb : x.addr ≠ b.addr := hr.node_ne (mem_map_of_mem hf.mem)
  have hnext := hr.next_eq hf
  obtain ⟨m, hm⟩ := hf.last
  by_cases hadj : b.fin = h.next x.addr
  · -- the block touches the next one, which is above it
    obtain ⟨y, l', rfl⟩ : ∃ y l', l₂ = y :: l' := by
      cases l₂ with
      | cons y l' => exact ⟨y, l', rfl⟩
      | nil =>
        have hx : x ∈ l₁ := by simpa using hf.mem
        cases l₁ with
        | nil => exact absurd hx not_mem_nil
        | cons z l₁ =>
          have h1 : b.fin = z.addr := hadj.trans hnext
          have h2 := hf.below z (by simp)
          have h3 := z.addr_le_fin
          have h4 := hb.pos
          rw [Block.fin] at h1
          omega
    have hny : h.next x.addr = y.addr := hnext
    rw [hny] at hadj ⊢
    have hy : y ≠ ⟨base, 0⟩ := by
      rintro rfl
      have h1 := hb.apart
      have h2 := b.addr_le_fin
      change b.fin = base at hadj
      omega
    have hun := hr.unlink hy (mem_map_of_mem hf.mem) hny
    have hxy : x.addr ≠ y.addr := hun.node_ne hun.freep
    have hsy : (h.hdr y.addr).size = y.size := hr.pool.size_eq y (by simp)
    have hmerge := (hun.perm_live (List.Perm.swap b y live)).merge hadj (h.next y.addr)
    have hlt : b.size + y.size < 2 ^ 32 := by
      have hle : 16 * (b.size + y.size) ≤ h.total := hmerge.pool.size_le
        (b := ⟨b.addr, b.size + y.size⟩) (by simp)
      omega
    have hup : joinUp b.addr y.addr h = h.setHdr b.addr ⟨h.next y.addr, b.size + y.size⟩ := by
      rw [joinUp, hend, if_pos hadj, Heap.setPtr_setSize, hsize, hsy, Nat.mod_eq_of_lt hlt]
      rfl
    have hfin : (⟨b.addr, b.size + y.size⟩ : Block).fin = y.fin := by
      simp only [Block.fin] at hadj ⊢
      omega
    have hgap : ∀ z ∈ l', (⟨b.addr, b.size + y.size⟩ : Block).fin < z.addr := by
      rw [hfin]
      exact (pairwise_cons.mp (pairwise_append.mp hr.sorted).2.1).1
    refine ⟨⟨b.addr, b.size + y.size⟩, l', ?_, ⟨hf.below, fun z hz => ?_, ?_⟩, hgap, rfl,
      Nat.le_add_right _ _, by simp, by rw [hup]; rfl, ?_⟩
    · have hself : (h.setHdr b.addr ⟨h.next y.addr, b.size + y.size⟩).next b.addr =
          h.next y.addr := by rw [Heap.next, Heap.setHdr_self]
      rw [hup, hself, Heap.setPtr_setHdr_comm _ hxb]
      exact hmerge
    · exact Nat.le_of_lt (hgap z hz)
    · cases m with
      | nil =>
        have : y = x := (List.cons.inj hm).1
        exact absurd (congrArg Block.addr this.symm) hxy
      | cons w m => exact ⟨m, (List.cons.inj hm).2⟩
    · rw [hup, Heap.setHdr_self]
  · have hup : joinUp b.addr (h.next x.addr) h = h.setPtr b.addr (h.next x.addr) := by
      rw [joinUp, hend, if_neg hadj]
    have hgap : ∀ y ∈ l₂, b.fin < y.addr := by
      cases l₂ with
      | nil => simp
      | cons z l' =>
        have hne : b.fin ≠ z.addr := fun heq => hadj (heq.trans hnext.symm)
        have hz := hf.above z (by simp)
        intro y hy
        rcases mem_cons.mp hy with rfl | hy
        · omega
        · have h1 := (pairwise_cons.mp (pairwise_append.mp hr.sorted).2.1).1 y hy
          have h2 := z.addr_le_fin
          omega
    refine ⟨b, l₂, ?_, hf, hgap, rfl, Nat.le_refl _, Nat.le_refl _, by rw [hup]; rfl, ?_⟩
    · have hlink : (h.setPtr b.addr (h.next x.addr)).next x.addr = h.next x.addr :=
        h.next_setPtr_of_ne _ hxb
      have hsame := (h.setPtr b.addr (h.next x.addr)).setPtr_next x.addr
      rw [hlink] at hsame
      rw [hup, Heap.next_setPtr_self, hsame]
      exact (hr.setPtr_live _).setFreep (mem_map_of_mem hf.mem)
    · rw [hup, Heap.size_setPtr, hsize]

end

lemma joinDown_rep (hr : Rep base { h.setPtr x.addr (h.next b.addr) with freep := x.addr }
    (l₁ ++ l₂) (b :: live)) (hf : Fits b l₁ l₂ x) (hgap : ∀ y ∈ l₂, b.fin < y.addr)
    (hsize : (h.hdr b.addr).size = b.size) (hsmall : h.total < 2 ^ 36) :
    ∃ l', Rep base { joinDown x.addr b.addr h with freep := x.addr } l' live ∧
      (∃ y ∈ l', b.size ≤ y.size) ∧ l'.length ≤ (l₁ ++ l₂).length + 1 ∧
      (joinDown x.addr b.addr h).memory = h.memory := by
  have hb := hr.live_fine
  have hlt : b.addr < b.fin := by
    have := hb.pos
    rw [Block.fin]
    omega
  have hsx : (h.hdr x.addr).size = x.size := by
    have := hr.pool.size_eq x (mem_append_left _ hf.mem)
    rwa [Heap.size_setPtr] at this
  have hxend : x.addr + 16 * (h.hdr x.addr).size = x.fin := by rw [hsx]; rfl
  by_cases hadj : x.fin = b.addr
  · have hx := x.addr_le_fin
    have hmem : x ∈ l₁ := by
      refine (mem_append.mp hf.mem).resolve_right fun hx2 => ?_
      have := hf.above x hx2
      omega
    obtain ⟨l₀, rfl⟩ := hf.last_of_mem hmem
    have hne : x ≠ ⟨base, 0⟩ := by
      rintro rfl
      have h1 := hb.apart
      change base = b.addr at hadj
      omega
    rw [append_assoc, singleton_append] at hr
    have hgrow := hr.grow hne hadj hgap
    have hsum : x.size + b.size < 2 ^ 32 := by
      have hle : 16 * (x.size + b.size) ≤ h.total := hgrow.pool.size_le
        (b := ⟨x.addr, x.size + b.size⟩) (by simp)
      omega
    have hdown : joinDown x.addr b.addr h = (h.setPtr x.addr (h.next b.addr)).setSize x.addr
        (x.size + b.size) := by
      rw [joinDown, hxend, if_pos hadj, hsx, hsize, Nat.mod_eq_of_lt hsum, Heap.setPtr_setSize,
        Heap.setSize_setPtr]
      rfl
    rw [hdown]
    refine ⟨_, hgrow, ⟨⟨x.addr, x.size + b.size⟩, by simp, Nat.le_add_left _ _⟩, ?_, rfl⟩
    simp
  · have hdown : joinDown x.addr b.addr h =
        (h.setPtr x.addr (h.next b.addr)).setPtr x.addr b.addr := by
      rw [joinDown, hxend, if_neg hadj, Heap.setPtr_setPtr]
    have hbelow : ∀ y ∈ l₁, y.fin < b.addr := by
      intro y hy
      obtain ⟨l₀, rfl⟩ := hf.last_of_mem hy
      have hx := hf.below x (by simp)
      rcases mem_append.mp hy with hy | hy
      · have hs1 := (pairwise_append.mp hr.sorted).1
        have h1 : y.fin < x.addr := (pairwise_append.mp hs1).2.2 y hy x (by simp)
        have h2 := x.addr_le_fin
        omega
      · obtain rfl := mem_singleton.mp hy
        omega
    obtain ⟨m, hm⟩ := hf.last
    have hbx : b.addr ≠ x.addr := (hr.node_ne (mem_map_of_mem hf.mem)).symm
    rw [hdown]
    refine ⟨_, hr.insert hbelow hgap hm ?_, ⟨b, by simp, Nat.le_refl _⟩, ?_, rfl⟩
    · exact (h.next_setPtr_of_ne _ hbx).trans (h.next_setPtr_self ..).symm
    · simp only [length_append, length_cons]
      omega

end Rep

lemma free_eq (ap : ℕ) (hp : place h.hdr (ap - 16) k h.freep = some p) :
    free k ap h = .ok ()
      { joinDown p (ap - 16) (joinUp (ap - 16) (h.next p) h) with freep := p } := by
  have hwp : wp (free k ap) (fun _ h' => h' =
      { joinDown p (ap - 16) (joinUp (ap - 16) (h.next p) h) with freep := p })
      (fun _ _ => False) h := by
    rw [free]
    simp only [wp_bind, wp_get, hp, wp_set]
    rfl
  obtain ⟨_, h', hrun, rfl⟩ := wp_run hwp fun _ _ hn => hn
  exact hrun

/-- **`free` gives the block back to the free list.** -/
lemma Rep.free (hr : Rep base h l (b :: live)) (hk : l.length ≤ k) (hsmall : h.total < 2 ^ 36) :
    ∃ h' l', Malloc.free k (b.addr + 16) h = .ok () h' ∧ Rep base h' l' live ∧
      (∃ x ∈ l', b.size ≤ x.size) ∧ h'.memory = h.memory ∧ l'.length ≤ l.length + 1 := by
  obtain ⟨l₁, l₂, x, rfl, hf⟩ := hr.exists_fits
  have hrun := free_eq (b.addr + 16) (hr.place_eq hf hk)
  rw [Nat.add_sub_cancel] at hrun
  obtain ⟨b', l', hr', hf', hgap, haddr, hsize, hlen, hmem, hhdr⟩ := hr.joinUp_rep hf hsmall
  rw [← haddr] at hr' hhdr hmem hrun ⊢
  have hsmall' : (joinUp b'.addr (h.next x.addr) h).total < 2 ^ 36 := by
    rwa [Heap.total, hmem]
  obtain ⟨l'', hr'', ⟨y, hy, hby⟩, hlen', hmem'⟩ := hr'.joinDown_rep hf' hgap hhdr hsmall'
  refine ⟨_, l'', hrun, hr'', ⟨y, hy, Nat.le_trans hsize hby⟩, hmem'.trans hmem, ?_⟩
  rw [length_append] at hlen' ⊢
  omega

end Xv6.Malloc
