import Xv6.Vm.Copy
import Xv6.Vm.Sv39

/-!
User memory as it is found in physical memory: the walk through a page table, read off the
pages it goes through, and what the copies between the kernel and the user do to the bytes.
-/

namespace Xv6.Vm

open Lib.Bytes Lib.Wp Lib.Conc Lib.Conc.Prog List

namespace Phys

/-- The page-table page of level 0 that `walk` gets to from page `q` of a level. -/
def leafNode (s : Phys) (va : ℕ) : ℕ → ℕ → Option ℕ
  | 0, q => some q
  | l + 1, q =>
    let v := s.word (q + 8 * px (l + 1) va)
    if v &&& PTE_V ≠ 0 then leafNode s va l (pte2pa v) else none

/-- The page-table pages that it reads. -/
def nodes (s : Phys) (va : ℕ) : ℕ → ℕ → List ℕ
  | 0, q => [q]
  | l + 1, q =>
    let v := s.word (q + 8 * px (l + 1) va)
    q :: if v &&& PTE_V ≠ 0 then nodes s va l (pte2pa v) else []

/-- The entry for `va`, `0` if there is none. -/
def pte (s : Phys) (root va : ℕ) : ℕ := match s.leafNode va 2 root with
  | none => 0
  | some q => s.word (q + 8 * px 0 va)

/-- The user can use the page of `va`. -/
def Accessible (s : Phys) (root va : ℕ) : Prop :=
  va < MAXVA ∧ s.pte root va &&& PTE_V ≠ 0 ∧ s.pte root va &&& PTE_U ≠ 0

instance (s : Phys) (root va : ℕ) : Decidable (s.Accessible root va) :=
  inferInstanceAs (Decidable (_ ∧ _))

/-- What `walkaddr` finds. -/
def frame (s : Phys) (root va : ℕ) : ℕ :=
  if s.Accessible root va then pte2pa (s.pte root va) else 0

/-- The byte at user address `va`. -/
def userByte (s : Phys) (root va : ℕ) : UInt8 := byte (s.mem (pte2pa (s.pte root va))) (va % 4096)

end Phys

variable {s s' : Phys} {root va a b q l o n : ℕ} {src : List UInt8} {E : Stop → Phys → Prop}

/-! ### Walking -/

lemma Ram.inRam (hq : Ram q) (ho : o < 4096) : InRam (q + o) := by
  obtain ⟨h1, h2, h3⟩ := hq
  simp only [InRam, KERNBASE, PHYSTOP] at *
  omega

lemma Ram.pageAt (hq : Ram q) (ho : o < 4096) : s.pageAt (q + o) = s.mem q := by
  rw [Phys.pageAt, pgRoundDown_page q o hq.1 ho]

lemma Ram.word_eq (hq : Ram q) (ho : o < 4096) : s.word (q + o) = le (s.mem q) o 8 := by
  have hmod : (q + o) % PGSIZE = o := by
    have := hq.1
    simp only [PGSIZE]
    omega
  rw [Phys.word, hq.pageAt ho, hmod]

lemma entry_off (level va : ℕ) : 8 * px level va < 4096 := by
  have := px_lt level va
  omega

lemma load_solo (ha : InRam a) : Solo E (load a) (fun v s' => s.word a = v ∧ s' = s) s := by
  refine solo_lift ?_
  simp only [wp_bind, wp_get, wp_throwIf, wp_pure, and_self, implies_true, and_true]
  exact fun hn => absurd ha hn

lemma leafNode_mem (hl : s.leafNode va l q = some a) : a ∈ s.nodes va l q := by
  induction l generalizing q with
  | zero =>
    cases hl
    exact mem_singleton_self _
  | succ l ih =>
    rw [Phys.leafNode] at hl
    rw [Phys.nodes]
    split at hl
    · rename_i hv
      rw [if_pos hv]
      exact mem_cons_of_mem _ (ih hl)
    · cases hl

lemma walkDown_solo (h : ∀ n ∈ s.nodes va l q, Ram n) :
    Solo E (walkDown va false l q) (fun r s' => s' = s ∧
      r = (s.leafNode va l q).elim 0 fun n => n + 8 * px 0 va) s := by
  induction l generalizing q with
  | zero =>
    rw [walkDown]
    exact ⟨rfl, rfl⟩
  | succ l ih =>
    rw [Phys.nodes] at h
    have hq : Ram q := h q (mem_cons_self ..)
    refine Safe.bind (load_solo (hq.inRam (entry_off _ _))) ?_
    rintro v s' ⟨rfl, rfl⟩
    rw [Phys.leafNode]
    by_cases hv : s'.word (q + 8 * px (l + 1) va) &&& PTE_V ≠ 0
    · rw [if_pos hv, if_pos hv]
      rw [if_pos hv] at h
      exact ih fun n hn => h n (mem_cons_of_mem _ hn)
    · rw [if_neg hv, if_neg hv]
      exact ⟨rfl, rfl⟩

lemma walk_solo (ha : a < MAXVA) (h : ∀ n ∈ s.nodes a 2 root, Ram n) :
    Solo E (walk root a false) (fun r s' => s' = s ∧
      r = (s.leafNode a 2 root).elim 0 fun n => n + 8 * px 0 a) s := by
  refine Safe.bind (Q := fun _ s' => s' = s) (solo_lift ?_) ?_
  · rw [wp_throwIf]
    exact ⟨fun hc => by omega, fun _ => rfl⟩
  · rintro _ s' rfl
    exact walkDown_solo h

/-- The page-table pages of `root` are in memory. -/
def TableOk (s : Phys) (root : ℕ) : Prop := ∀ a < MAXVA, ∀ q ∈ s.nodes a 2 root, Ram q

lemma walkaddr_solo (h : TableOk s root) (a : ℕ) :
    Solo E (walkaddr root a) (fun r s' => r = s.frame root a ∧ s' = s) s := by
  unfold walkaddr Phys.frame
  by_cases ha : a ≥ MAXVA
  · rw [if_pos ha, if_neg fun hacc => by have := hacc.1; omega]
    exact ⟨rfl, rfl⟩
  rw [if_neg ha]
  have hlt : a < MAXVA := by omega
  refine Safe.bind (walk_solo hlt (h a hlt)) ?_
  rintro r s' ⟨rfl, rfl⟩
  cases hn : s'.leafNode a 2 root with
  | none =>
    rw [Option.elim_none, if_pos rfl, if_neg]
    · exact ⟨rfl, rfl⟩
    · rintro ⟨-, hv, -⟩
      rw [Phys.pte, hn] at hv
      exact hv (Nat.zero_and _)
  | some n =>
    have hram : Ram n := h a hlt n (leafNode_mem hn)
    have hne := hram.ne_zero
    have hpte : s'.pte root a = s'.word (n + 8 * px 0 a) := by rw [Phys.pte, hn]
    rw [Option.elim_some, if_neg (by omega)]
    refine Safe.bind (load_solo (hram.inRam (entry_off _ _))) ?_
    rintro v s'' ⟨rfl, rfl⟩
    rw [← hpte]
    by_cases hV : s''.pte root a &&& PTE_V = 0
    · rw [if_pos hV, if_neg fun hacc => hacc.2.1 hV]
      exact ⟨rfl, rfl⟩
    rw [if_neg hV]
    by_cases hU : s''.pte root a &&& PTE_U = 0
    · rw [if_pos hU, if_neg fun hacc => hacc.2.2 hU]
      exact ⟨rfl, rfl⟩
    rw [if_neg hU, if_pos ⟨hlt, hV, hU⟩]
    exact ⟨rfl, rfl⟩

/-! ### What the walk depends on -/

lemma walk_congr (hram : ∀ n ∈ s.nodes va l q, Ram n) (h : ∀ n ∈ s.nodes va l q, s'.mem n = s.mem n) :
    s'.leafNode va l q = s.leafNode va l q ∧ s'.nodes va l q = s.nodes va l q := by
  induction l generalizing q with
  | zero => exact ⟨rfl, rfl⟩
  | succ l ih =>
    rw [Phys.nodes] at hram h
    have hq : Ram q := hram q (mem_cons_self ..)
    have hw : s'.word (q + 8 * px (l + 1) va) = s.word (q + 8 * px (l + 1) va) := by
      rw [hq.word_eq (entry_off _ _), hq.word_eq (entry_off _ _), h q (mem_cons_self ..)]
    rw [Phys.leafNode, Phys.leafNode, Phys.nodes, Phys.nodes, hw]
    by_cases hv : s.word (q + 8 * px (l + 1) va) &&& PTE_V ≠ 0
    · rw [if_pos hv] at hram h
      obtain ⟨h1, h2⟩ := ih (fun n hn => hram n (mem_cons_of_mem _ hn))
        fun n hn => h n (mem_cons_of_mem _ hn)
      simp only [if_pos hv, h1, h2, and_self]
    · simp only [if_neg hv, and_self]

lemma pte_congr (hram : ∀ n ∈ s.nodes va 2 root, Ram n)
    (h : ∀ n ∈ s.nodes va 2 root, s'.mem n = s.mem n) : s'.pte root va = s.pte root va := by
  rw [Phys.pte, Phys.pte, (walk_congr hram h).1]
  cases hn : s.leafNode va 2 root with
  | none => rfl
  | some n =>
    have hmem := leafNode_mem hn
    have hn' := hram n hmem
    simp only [hn'.word_eq (entry_off _ _), h n hmem]

lemma px_round (level a : ℕ) : px level (pgRoundDown a) = px level a := by
  have : pgRoundDown a / 4096 = a / 4096 := by
    simp only [pgRoundDown, PGSIZE]
    omega
  rw [px_eq, px_eq, this]

lemma walk_round (a l q : ℕ) : s.leafNode (pgRoundDown a) l q = s.leafNode a l q ∧
    s.nodes (pgRoundDown a) l q = s.nodes a l q := by
  induction l generalizing q with
  | zero => exact ⟨rfl, rfl⟩
  | succ l ih => simp only [Phys.leafNode, Phys.nodes, px_round, (ih _).1, (ih _).2, and_self]

lemma pte_round (a : ℕ) : s.pte root (pgRoundDown a) = s.pte root a := by
  simp only [Phys.pte, (walk_round a 2 root).1, px_round]

lemma accessible_round (a : ℕ) : s.Accessible root (pgRoundDown a) ↔ s.Accessible root a := by
  have : pgRoundDown a < MAXVA ↔ a < MAXVA := by
    simp only [pgRoundDown, PGSIZE, MAXVA]
    omega
  rw [Phys.Accessible, Phys.Accessible, pte_round, this]

lemma frame_round (a : ℕ) : s.frame root (pgRoundDown a) = s.frame root a := by
  simp only [Phys.frame, accessible_round, pte_round]

/-! ### Copies -/

/-- The page table is in memory, and what its user leaves map is too. -/
structure ReadTable (s : Phys) (root : ℕ) : Prop where
  table : TableOk s root
  frame : ∀ a, s.Accessible root a → Ram (pte2pa (s.pte root a))

/-- Besides, the user leaves map different pages, and none of the page table's own. -/
structure UserTable (s : Phys) (root : ℕ) : Prop extends ReadTable s root where
  apart : ∀ a, s.Accessible root a → ∀ b < MAXVA, pte2pa (s.pte root a) ∉ s.nodes b 2 root
  distinct : ∀ a b, s.Accessible root a → s.Accessible root b →
    pte2pa (s.pte root a) = pte2pa (s.pte root b) → a / 4096 = b / 4096

lemma ReadTable.frame_ne_zero (h : ReadTable s root) (a : ℕ) :
    s.frame root a ≠ 0 ↔ s.Accessible root a := by
  rw [Phys.frame]
  split
  · rename_i hacc
    exact ⟨fun _ => hacc, fun _ => (h.frame a hacc).ne_zero⟩
  · rename_i hacc
    exact ⟨fun h0 => absurd rfl h0, fun hacc' => absurd hacc' hacc⟩

lemma frame_eq (ha : s.Accessible root a) : s.frame root a = pte2pa (s.pte root a) := if_pos ha

lemma getUser_eq (ha : s.Accessible root a) : getUser (s.frame root) s.mem a = s.userByte root a := by
  rw [getUser, frame_round, frame_eq ha, Phys.userByte]

lemma frame_lt (ha : s.frame root a ≠ 0) : a < MAXVA := by
  rw [Phys.frame] at ha
  split at ha
  · rename_i hacc
    exact hacc.1
  · exact absurd rfl ha

/-- The memory after `src` was stored at `va`. -/
def Phys.put (s : Phys) (root va : ℕ) (src : List UInt8) : Phys :=
  { s with mem := putUser (s.frame root) s.mem va src }

/-- What `src` stored at `va` changes, and what not. -/
structure Stored (s s' : Phys) (root va : ℕ) (src : List UInt8) : Prop where
  user : ∀ a, s.Accessible root a → s'.userByte root a =
    if va ≤ a ∧ a < va + src.length then src.getD (a - va) 0 else s.userByte root a
  other : ∀ q o, (∀ i < src.length, ¬ (s.frame root (va + i) = q ∧ (va + i) % 4096 = o)) →
    byte (s'.mem q) o = byte (s.mem q) o
  pte : ∀ a < MAXVA, s'.pte root a = s.pte root a
  rest : s'.freelist = s.freelist ∧ s'.kend = s.kend ∧ s'.trampoline = s.trampoline

lemma putUser_other_page {frame : ℕ → ℕ} {mem : ℕ → Page}
    (h : ∀ i < src.length, frame (pgRoundDown (va + i)) ≠ q) : putUser frame mem va src q = mem q :=
  ext_byte fun _ _ => byte_putUser_other fun i hi heq => h i hi heq.1

section

variable (h : UserTable s root) (hacc : ∀ i < src.length, s.Accessible root (va + i))

include h hacc

lemma UserTable.put_nodes (hb : b < MAXVA) (hn : n ∈ s.nodes b 2 root) :
    (s.put root va src).mem n = s.mem n := by
  refine putUser_other_page fun i hi heq => ?_
  rw [frame_round, frame_eq (hacc i hi)] at heq
  exact h.apart _ (hacc i hi) b hb (heq ▸ hn)

lemma UserTable.put_pte (ha : a < MAXVA) : (s.put root va src).pte root a = s.pte root a :=
  pte_congr (h.table a ha) fun _ hn => h.put_nodes hacc ha hn

lemma UserTable.put_frame (a : ℕ) :
    (s.put root va src).frame root a = s.frame root a := by
  by_cases ha : a < MAXVA
  · have hiff : (s.put root va src).Accessible root a ↔ s.Accessible root a := by
      rw [Phys.Accessible, Phys.Accessible, h.put_pte hacc ha]
    simp only [Phys.frame, hiff, h.put_pte hacc ha]
  · rw [Phys.frame, Phys.frame, if_neg fun hc => ha hc.1, if_neg fun hc => ha hc.1]

lemma UserTable.put_table : TableOk (s.put root va src) root := by
  intro a ha q hq
  rw [(walk_congr (h.table a ha) fun _ hn => h.put_nodes hacc ha hn).2] at hq
  exact h.table a ha q hq

lemma UserTable.stored : Stored s (s.put root va src) root va src := by
  constructor
  case user =>
    intro a ha
    have hget : (s.put root va src).userByte root a =
        getUser (s.frame root) (putUser (s.frame root) s.mem va src) a := by
      rw [Phys.userByte, h.put_pte hacc ha.1, getUser, frame_round, frame_eq ha]
      rfl
    rw [hget, getUser_putUser, getUser_eq ha]
    intro i hi heq
    rw [frame_round, frame_round, frame_eq (hacc i hi), frame_eq ha] at heq
    have := h.distinct _ _ (hacc i hi) ha heq
    simp only [pgRoundDown, this]
  case other =>
    intro q o hno
    exact byte_putUser_other fun i hi heq => hno i hi (by rw [frame_round] at heq; exact heq)
  case pte => exact fun a ha => h.put_pte hacc ha
  case rest => exact ⟨rfl, rfl, rfl⟩

end

lemma writeBytes_solo (ha : Ram q) (ho : o < 4096) :
    Solo E (writeBytes (q + o) src) (fun _ s' => s' =
      { s with mem := (Function.update s.mem q
        (copy (s.mem q) o src.length fun i => src.getD i 0)) }) s := by
  have hmod : (q + o) % PGSIZE = o := by
    have := ha.1
    simp only [PGSIZE]
    omega
  refine solo_lift ?_
  simp only [wp_bind, wp_throwIf, wp_modify]
  refine ⟨fun hn => absurd (ha.inRam ho) hn, fun _ => ?_⟩
  rw [Phys.setPage, ha.pageAt ho, hmod, pgRoundDown_page q o ha.1 ho]

lemma readBytes_solo (ha : Ram q) (ho : o < 4096) :
    Solo E (readBytes (q + o) n) (fun bytes s' =>
      bytes = ((List.range n).map fun i => byte (s.mem q) (o + i)) ∧ s' = s) s := by
  have hmod : (q + o) % PGSIZE = o := by
    have := ha.1
    simp only [PGSIZE]
    omega
  refine solo_lift ?_
  simp only [wp_bind, wp_get, wp_throwIf, wp_pure, and_true]
  refine ⟨fun hn => absurd (ha.inRam ho) hn, fun _ => ?_⟩
  rw [ha.pageAt ho, hmod]

lemma UserTable.copyout_solo (h : UserTable s root) (va : ℕ) (src : List UInt8) :
    Solo E (copyout root va src) (fun ok s' => ∃ k, s' = s.put root va (src.take k) ∧
      Reached (s.frame root) va src.length k ok) s := by
  have hacc : ∀ i, s.frame root (pgRoundDown (va + i)) ≠ 0 → s.Accessible root (va + i) := by
    intro i hi
    rw [frame_round] at hi
    exact (h.frame_ne_zero _).mp hi
  have hlt : ∀ a, s.frame root a ≠ 0 → a < MAXVA := fun _ => frame_lt
  refine Safe.mono (copyout_safe (fun k s' => k ≤ src.length ∧
    s' = s.put root va (src.take k) ∧ ∀ i < k, s.Accessible root (va + i)) hlt
    ⟨Nat.zero_le _, rfl, fun i hi => absurd hi (by omega)⟩ ?_ ?_) ?_
  · rintro k s' ⟨hk, rfl, hdone⟩ a
    have hdone' : ∀ i < (src.take k).length, s.Accessible root (va + i) :=
      fun i hi => hdone i (by rw [length_take] at hi; omega)
    rw [← h.put_frame hdone' a]
    exact walkaddr_solo (h.put_table hdone') a
  · rintro k s' ⟨hk, rfl, hdone⟩ hlt hframe
    have hram : Ram (s.frame root (pgRoundDown (va + k))) := by
      rw [frame_round, frame_eq (hacc k hframe)]
      exact h.frame _ (hacc k hframe)
    have hmod : (va + k) % 4096 < 4096 := Nat.mod_lt _ (by decide)
    refine Safe.mono (writeBytes_solo hram hmod) ?_
    rintro _ s' rfl
    have hleft := chunk_le_left (va + k) (src.length - k)
    have hpage := chunk_le (va + k) (src.length - k)
    refine ⟨by omega, ?_, fun i hi => ?_⟩
    · simp only [Phys.put, putUser_take va hk hpage]
    · exact hacc i (done_chunk (fun i hi => by
        rw [frame_round]
        exact (h.frame_ne_zero _).mpr (hdone i hi)) hframe hi)
  · rintro ok s' ⟨k, ⟨-, hs, -⟩, hreach⟩
    exact ⟨k, hs, hreach⟩

lemma ReadTable.read_solo (h : ReadTable s root) (hn : a % 4096 + n ≤ 4096)
    (ha : s.frame root (pgRoundDown a) ≠ 0) :
    Solo E (readBytes (s.frame root (pgRoundDown a) + a % 4096) n)
      (fun bytes s' => bytes = userBytes (s.frame root) s.mem a n ∧ s' = s) s := by
  have hacc : s.Accessible root a := by
    rw [frame_round] at ha
    exact (h.frame_ne_zero _).mp ha
  have hram : Ram (s.frame root (pgRoundDown a)) := by
    rw [frame_round, frame_eq hacc]
    exact h.frame _ hacc
  refine Safe.mono (readBytes_solo hram (Nat.mod_lt _ (by decide))) ?_
  rintro bytes s' ⟨rfl, rfl⟩
  refine ⟨map_congr_left fun i hi => ?_, rfl⟩
  have hi' := mem_range.mp hi
  have hround : pgRoundDown (a + i) = pgRoundDown a := pgRoundDown_add a i (by omega)
  rw [getUser, hround]
  congr 1
  omega

lemma ReadTable.copyinstr_solo (h : ReadTable s root) (va max : ℕ) :
    Solo E (copyinstr root va max) (fun r s' => s' = s ∧ ∃ k,
      r.2 = userBytes (s.frame root) s.mem va k ∧
      StrReached (s.frame root) s.mem va max k r.1) s :=
  copyinstr_safe (fun _ => frame_lt) (walkaddr_solo h.table) fun _ _ => h.read_solo

lemma run_of_solo {α : Type} {x : Code α} {Q : α → Phys → Prop}
    (h : Solo (fun _ _ => False) x Q s) : ∃ a s', run x s = .ok a s' ∧ Q a s' :=
  wp_run h.wp fun _ _ => not_false

lemma run_bind {α β : Type} {x : Code α} {f : α → Code β} {c : α} (h : run x s = .ok c s') :
    run (x >>= f) s = run (f c) s' := by
  have hbind : run (x >>= f) s = (alone x >>= fun c => alone (f c)) s := by rw [run, alone_bind]
  rw [hbind]
  change EStateM.bind (alone x) (fun c => alone (f c)) s = _
  unfold EStateM.bind
  rw [show alone x s = .ok c s' from h]
  rfl

/-- The bytes of a user range. -/
def Phys.userRange (s : Phys) (root va n : ℕ) : List UInt8 :=
  (List.range n).map fun i => s.userByte root (va + i)

lemma userBytes_eq (hacc : ∀ i < n, s.Accessible root (va + i)) :
    userBytes (s.frame root) s.mem va n = s.userRange root va n :=
  map_congr_left fun i hi => getUser_eq (hacc i (mem_range.mp hi))

lemma UserTable.put (h : UserTable s root) (hacc : ∀ i < src.length, s.Accessible root (va + i)) :
    UserTable (s.put root va src) root := by
  have hpte : ∀ a, (s.put root va src).Accessible root a →
      s.Accessible root a ∧ (s.put root va src).pte root a = s.pte root a := by
    intro a ha
    have heq := h.put_pte hacc ha.1
    have ha' := ha
    rw [Phys.Accessible, heq] at ha'
    exact ⟨ha', heq⟩
  refine ⟨⟨h.put_table hacc, fun a ha => ?_⟩, fun a ha b hb => ?_, fun a b ha hb => ?_⟩
  · rw [(hpte a ha).2]
    exact h.frame a (hpte a ha).1
  · rw [(hpte a ha).2, (walk_congr (h.table b hb) fun _ hn => h.put_nodes hacc hb hn).2]
    exact h.apart a (hpte a ha).1 b hb
  · rw [(hpte a ha).2, (hpte b hb).2]
    exact h.distinct a b (hpte a ha).1 (hpte b hb).1

/-- How a copy ends: with the whole range if it is accessible, and otherwise with the part of it up
to the first page that is not, which is empty or ends at a page. -/
structure CopyEnd (s : Phys) (root va len k : ℕ) (ok : Bool) : Prop where
  ok_iff : ok = true ↔ ∀ i < len, s.Accessible root (va + i)
  done : ∀ i < k, s.Accessible root (va + i)
  all : ok = true → k = len
  part : ok = false → k < len ∧ ¬ s.Accessible root (va + k) ∧ (k = 0 ∨ (va + k) % 4096 = 0)

lemma ReadTable.copyEnd (h : ReadTable s root) {len k : ℕ} {ok : Bool}
    (hr : Reached (s.frame root) va len k ok) : CopyEnd s root va len k ok := by
  have hacc : ∀ i, s.frame root (pgRoundDown (va + i)) ≠ 0 ↔ s.Accessible root (va + i) := by
    intro i
    rw [frame_round]
    exact h.frame_ne_zero _
  refine ⟨?_, fun i hi => (hacc i).mp (hr.done i hi), hr.all, fun hok => ?_⟩
  · simp only [hr.ok_iff, hacc]
  · obtain ⟨hlt, hzero, hstart⟩ := hr.stop hok
    exact ⟨hlt, fun hc => (hacc k).mpr hc hzero, hstart⟩

/-- The last two entries of a page of level 0 map `pa₁` and `pa₂` for the user. -/
def twoLeaves (pa₁ pa₂ : ℕ) : Phys where
  mem := fun k =>
    if k = 0x80400000 then putLe zeroes 0 8 (pa2pte 0x80401000 ||| PTE_V)
    else if k = 0x80401000 then putLe zeroes 0 8 (pa2pte 0x80402000 ||| PTE_V)
    else if k = 0x80402000 then
      putLe (putLe zeroes 4080 8 (pa2pte pa₁ ||| 31)) 4088 8 (pa2pte pa₂ ||| 31)
    else zeroes
  freelist := 0
  kend := 0x80400000
  trampoline := 0x80007000
  kend_ge := kernbase_le
  trampoline_lt := trampoline_fits

/-- A page of the table with only a first entry. -/
lemma word_first {s : Phys} {q v : ℕ} (hram : Ram q) (hmem : s.mem q = putLe zeroes 0 8 v)
    (hv : v < 2 ^ 64) (level : ℕ) :
    s.word (q + 8 * px level a) = if px level a = 0 then v else 0 := by
  rw [hram.word_eq (entry_off level a), hmem]
  split
  · next h0 => rw [h0, le_putLe_of_lt _ (by decide) hv]
  · rw [le_putLe_of_disjoint _ _ (by omega), le_zeroes]

section TwoLeaves

variable {pa₁ pa₂ : ℕ}

lemma twoLeaves_word₂ : (twoLeaves pa₁ pa₂).word (0x80400000 + 8 * px 2 a) =
    if px 2 a = 0 then pa2pte 0x80401000 ||| PTE_V else 0 :=
  word_first ⟨by decide, by decide, by decide⟩ rfl (by decide +kernel) 2

lemma twoLeaves_word₁ : (twoLeaves pa₁ pa₂).word (0x80401000 + 8 * px 1 a) =
    if px 1 a = 0 then pa2pte 0x80402000 ||| PTE_V else 0 :=
  word_first ⟨by decide, by decide, by decide⟩ rfl (by decide +kernel) 1

lemma twoLeaves_walk (a : ℕ) :
    (twoLeaves pa₁ pa₂).leafNode a 2 0x80400000 =
      (if px 2 a = 0 ∧ px 1 a = 0 then some 0x80402000 else none) ∧
    ∀ q ∈ (twoLeaves pa₁ pa₂).nodes a 2 0x80400000,
      q = 0x80400000 ∨ q = 0x80401000 ∨ q = 0x80402000 := by
  have h2 : (pa2pte 0x80401000 ||| PTE_V) &&& PTE_V ≠ 0 ∧
      pte2pa (pa2pte 0x80401000 ||| PTE_V) = 0x80401000 := by decide +kernel
  have h1 : (pa2pte 0x80402000 ||| PTE_V) &&& PTE_V ≠ 0 ∧
      pte2pa (pa2pte 0x80402000 ||| PTE_V) = 0x80402000 := by decide +kernel
  have h0 : ¬ (0 &&& PTE_V ≠ 0) := by decide
  simp only [Phys.leafNode, Phys.nodes, Nat.reduceAdd, twoLeaves_word₂]
  by_cases hp2 : px 2 a = 0
  · simp only [if_pos hp2, if_pos h2.1, h2.2, twoLeaves_word₁]
    by_cases hp1 : px 1 a = 0
    · simp only [if_pos (And.intro hp2 hp1), if_pos hp1, if_pos h1.1, h1.2]
      simp
    · have hlow : ¬ (px 2 a = 0 ∧ px 1 a = 0) := fun hc => hp1 hc.2
      simp only [if_neg hlow, if_neg hp1, if_neg h0]
      simp
  · have hlow : ¬ (px 2 a = 0 ∧ px 1 a = 0) := fun hc => hp2 hc.1
    simp only [if_neg hlow, if_neg hp2, if_neg h0]
    simp

lemma twoLeaves_pte (h₁ : pa2pte pa₁ ||| 31 < 2 ^ 64) (h₂ : pa2pte pa₂ ||| 31 < 2 ^ 64)
    (ha : a < MAXVA) : (twoLeaves pa₁ pa₂).pte 0x80400000 a =
      if a / 4096 = 510 then pa2pte pa₁ ||| 31 else if a / 4096 = 511 then pa2pte pa₂ ||| 31 else 0 := by
  have hram : Ram 0x80402000 := ⟨by decide, by decide, by decide⟩
  have hmax : MAXVA = 2 ^ 38 := by decide
  have hpx : px 2 a = a / 4096 / 262144 % 512 ∧ px 1 a = a / 4096 / 512 % 512 ∧
      px 0 a = a / 4096 % 512 := by simp [px_eq]
  rw [Phys.pte, (twoLeaves_walk a).1]
  by_cases hlow : px 2 a = 0 ∧ px 1 a = 0
  · simp only [if_pos hlow]
    have hmem : (twoLeaves pa₁ pa₂).mem 0x80402000 =
        putLe (putLe zeroes 4080 8 (pa2pte pa₁ ||| 31)) 4088 8 (pa2pte pa₂ ||| 31) := rfl
    rw [hram.word_eq (entry_off 0 a), hmem]
    split
    · rw [show px 0 a = 510 by omega, le_putLe_of_disjoint _ _ (by omega),
        le_putLe_of_lt _ (by decide) h₁]
    split
    · rw [show px 0 a = 511 by omega, le_putLe_of_lt _ (by decide) h₂]
    · have h510 : px 0 a ≠ 510 := by omega
      have h511 : px 0 a ≠ 511 := by omega
      rw [le_putLe_of_disjoint _ _ (by omega), le_putLe_of_disjoint _ _ (by omega), le_zeroes]
  · simp only [if_neg hlow]
    rw [if_neg (by omega), if_neg (by omega)]

lemma twoLeaves_accessible (h₁ : pa2pte pa₁ ||| 31 < 2 ^ 64) (h₂ : pa2pte pa₂ ||| 31 < 2 ^ 64)
    (ha : (twoLeaves pa₁ pa₂).Accessible 0x80400000 a) :
    (a / 4096 = 510 ∧ (twoLeaves pa₁ pa₂).pte 0x80400000 a = pa2pte pa₁ ||| 31) ∨
      (a / 4096 = 511 ∧ (twoLeaves pa₁ pa₂).pte 0x80400000 a = pa2pte pa₂ ||| 31) := by
  obtain ⟨hlt, hv, -⟩ := ha
  rw [twoLeaves_pte h₁ h₂ hlt] at hv ⊢
  split at hv
  · rename_i h
    exact .inl ⟨h, if_pos h⟩
  split at hv
  · rename_i h
    exact .inr ⟨h, by rw [if_neg (by omega), if_pos h]⟩
  · exact absurd (Nat.zero_and _) hv

lemma twoLeaves_table : TableOk (twoLeaves pa₁ pa₂) 0x80400000 := by
  intro a _ q hq
  rcases (twoLeaves_walk a).2 q hq with rfl | rfl | rfl <;> exact ⟨by decide, by decide, by decide⟩

lemma twoLeaves_ok : UserTable (twoLeaves 0x80403000 0x80404000) 0x80400000 := by
  have h₁ : pte2pa (pa2pte 0x80403000 ||| 31) = 0x80403000 := by decide +kernel
  have h₂ : pte2pa (pa2pte 0x80404000 ||| 31) = 0x80404000 := by decide +kernel
  have hacc : ∀ a, (twoLeaves 0x80403000 0x80404000).Accessible 0x80400000 a →
      (a / 4096 = 510 ∧ pte2pa ((twoLeaves 0x80403000 0x80404000).pte 0x80400000 a) = 0x80403000) ∨
      (a / 4096 = 511 ∧ pte2pa ((twoLeaves 0x80403000 0x80404000).pte 0x80400000 a) = 0x80404000) := by
    intro a ha
    rcases twoLeaves_accessible (by decide +kernel) (by decide +kernel) ha with ⟨h, hp⟩ | ⟨h, hp⟩
    · exact .inl ⟨h, by rw [hp, h₁]⟩
    · exact .inr ⟨h, by rw [hp, h₂]⟩
  refine ⟨⟨twoLeaves_table, fun a ha => ?_⟩, fun a ha b _ hin => ?_, fun a b ha hb heq => ?_⟩
  · rcases hacc a ha with ⟨-, hp⟩ | ⟨-, hp⟩ <;> rw [hp] <;> exact ⟨by decide, by decide, by decide⟩
  · have hq := (twoLeaves_walk b).2 _ hin
    rcases hacc a ha with ⟨-, hp⟩ | ⟨-, hp⟩ <;> rw [hp] at hq <;> omega
  · rcases hacc a ha with ⟨ha, hp⟩ | ⟨ha, hp⟩ <;> rcases hacc b hb with ⟨hb, hp'⟩ | ⟨hb, hp'⟩ <;>
      rw [hp, hp'] at heq <;> omega

end TwoLeaves

/-! ### Strings -/

/-- What `copyinstr` stored, with the byte of 0 that ends a string. -/
def storedString (r : Bool × List UInt8) : List UInt8 := if r.1 then r.2 ++ [0] else r.2

/-- `strlen` of what is in `buf`, which counts in an `int`. -/
def strlen (buf : List UInt8) : ℤ := toInt32 (buf.takeWhile (· ≠ 0)).length

/-- `fetchstr` with `max` as the bits of an `int`: its result, and what it stored. -/
def fetchstr (pagetable addr max : ℕ) : Code (ℤ × List UInt8) := do
  let r ← copyinstr pagetable addr (intToU64 max)
  if r.1 then
    return (strlen (storedString r), storedString r)
  else
    return (-1, storedString r)

/-- `argraw`, with the registers `a0` to `a5` that the process entered the kernel with. -/
def argraw (args : ℕ → ℕ) (n : ℕ) : Code ℕ := do
  panicIf (5 < n) "argraw"
  return args n

def argstr (pagetable : ℕ) (args : ℕ → ℕ) (n max : ℕ) : Code (ℤ × List UInt8) := do
  let addr ← argraw args n
  fetchstr pagetable addr max

lemma argraw_solo (args : ℕ → ℕ) (hn : n ≤ 5) :
    Solo E (argraw args n) (fun a s' => a = args n ∧ s' = s) s := by
  refine Safe.bind (Q := fun _ s' => s' = s) (solo_lift ?_) ?_
  · rw [wp_throwIf]
    exact ⟨fun hc => by omega, fun _ => rfl⟩
  · rintro _ s' rfl
    exact ⟨rfl, rfl⟩

/-- The first byte of 0 from `va` on is at `va + k`, less than `max` bytes away, and up to there the
user can access every byte. -/
structure StringAt (s : Phys) (root va max k : ℕ) : Prop where
  lt : k < max
  null : s.userByte root (va + k) = 0
  acc : ∀ i ≤ k, s.Accessible root (va + i)
  first : ∀ i < k, s.userByte root (va + i) ≠ 0

lemma strlen_string {bytes : List UInt8} (h : ∀ b ∈ bytes, b ≠ 0) :
    strlen (bytes ++ [0]) = toInt32 bytes.length := by
  rw [strlen, takeWhile_append_of_pos (by simpa using h), takeWhile_cons_of_neg (by simp),
    append_nil]

lemma ReadTable.copyinstr_run (h : ReadTable s root) (va max : ℕ) :
    ∃ r k, run (copyinstr root va max) s = .ok r s ∧ r.2 = s.userRange root va k ∧ k ≤ max ∧
      (∀ i < k, s.userByte root (va + i) ≠ 0) ∧ (r.1 = true → StringAt s root va max k) ∧
      (r.1 = false → k = max ∨ ¬ s.Accessible root (va + k)) := by
  obtain ⟨r, s', hrun, rfl, k, hbytes, hr⟩ := run_of_solo (h.copyinstr_solo va max)
  have hacc : ∀ i, s'.frame root (pgRoundDown (va + i)) ≠ 0 ↔ s'.Accessible root (va + i) := by
    intro i
    rw [frame_round]
    exact h.frame_ne_zero _
  have hdone : ∀ i < k, s'.Accessible root (va + i) ∧ s'.userByte root (va + i) ≠ 0 := by
    intro i hi
    obtain ⟨h1, h2⟩ := hr.done i hi
    rw [hacc] at h1
    rw [getUser_eq h1] at h2
    exact ⟨h1, h2⟩
  rw [userBytes_eq fun i hi => (hdone i hi).1] at hbytes
  refine ⟨r, k, hrun, hbytes, hr.le, fun i hi => (hdone i hi).2, fun hok => ?_, fun hok => ?_⟩
  · obtain ⟨hlt, hf, hnull⟩ := hr.null hok
    rw [hacc] at hf
    rw [getUser_eq hf] at hnull
    refine ⟨hlt, hnull, fun i hi => ?_, fun i hi => (hdone i hi).2⟩
    rcases Nat.lt_or_eq_of_le hi with hi | rfl
    · exact (hdone i hi).1
    · exact hf
  · exact (hr.stop hok).imp id fun hz hc => (hacc k).mpr hc hz

lemma ReadTable.copyinstr_string (h : ReadTable s root) {max k : ℕ} (hk : StringAt s root va max k) :
    run (copyinstr root va max) s = .ok (true, s.userRange root va k) s := by
  obtain ⟨⟨ok, bytes⟩, j, hrun, hbytes, hle, hne, hnull, hstop⟩ := h.copyinstr_run va max
  have hjk : j ≤ k := by
    by_contra hlt
    exact hne k (by omega) hk.null
  cases ok with
  | false =>
    rcases hstop rfl with hj | hj
    · have := hk.lt
      omega
    · exact absurd (hk.acc j hjk) hj
  | true =>
    obtain rfl : j = k := by
      by_contra hn
      exact hk.first j (by omega) (hnull rfl).null
    rw [hrun]
    simp only at hbytes
    rw [hbytes]

lemma userRange_succ (va k : ℕ) :
    s.userRange root va (k + 1) = s.userRange root va k ++ [s.userByte root (va + k)] := by
  simp [Phys.userRange, range_succ]

/-- **`copyinstr` copies one bounded string.** With user leaves that map RAM, it returns 0 if and only
if a byte of 0 is less than `max` bytes away with all bytes up to it accessible. It stores the bytes
up to the first one, and never more than `max` bytes; `fetchstr` and `argstr` then return the length
as an `int`, which for a `max` that is not negative is the length. -/
theorem copyinstr_exact (h : ReadTable s root) (va max : ℕ) :
    (∃ r, run (copyinstr root va max) s = .ok r s ∧
      (r.1 = true ↔ ∃ k < max, s.userByte root (va + k) = 0 ∧ ∀ i ≤ k, s.Accessible root (va + i)) ∧
      (∀ k, StringAt s root va max k → storedString r = s.userRange root va (k + 1)) ∧
      (storedString r).length ≤ max) ∧
    ∀ m k, intToU64 m = max → StringAt s root va max k →
      run (fetchstr root va m) s = .ok (toInt32 k, s.userRange root va (k + 1)) s ∧
      (∀ args n, n ≤ 5 → args n = va →
        run (argstr root args n m) s = .ok (toInt32 k, s.userRange root va (k + 1)) s) ∧
      (0 ≤ toInt32 m → toInt32 k = k) := by
  have hfound : ∀ k, StringAt s root va max k →
      storedString (true, s.userRange root va k) = s.userRange root va (k + 1) := by
    intro k hk
    rw [userRange_succ, hk.null]
    rfl
  constructor
  · obtain ⟨⟨ok, bytes⟩, k, hrun, hbytes, hle, hne, hnull, hstop⟩ := h.copyinstr_run va max
    simp only at hbytes hnull hstop
    have hlen : bytes.length = k := by simp [hbytes, Phys.userRange]
    refine ⟨_, hrun, ⟨fun hok => ?_, ?_⟩, fun j hj => ?_, ?_⟩
    · exact ⟨k, (hnull hok).lt, (hnull hok).null, (hnull hok).acc⟩
    · rintro ⟨j, hj, hzero, hacc⟩
      have hkj : k ≤ j := by
        by_contra hlt
        exact hne j (by omega) hzero
      cases ok with
      | true => rfl
      | false =>
        rcases hstop rfl with hk | hk
        · omega
        · exact absurd (hacc k hkj) hk
    · have := h.copyinstr_string hj
      rw [hrun] at this
      cases this
      exact hfound j hj
    · cases ok with
      | false => simpa [storedString, hlen] using hle
      | true =>
        have := (hnull rfl).lt
        simp only [storedString, if_true, length_append, length_singleton, hlen]
        omega
  · intro m k hm hk
    have hne : ∀ b ∈ s.userRange root va k, b ≠ 0 := by
      intro b hb
      obtain ⟨i, hi, rfl⟩ := mem_map.mp hb
      exact hk.first i (mem_range.mp hi)
    have hlen : (s.userRange root va k).length = k := by simp [Phys.userRange]
    have hfetch : run (fetchstr root va m) s = .ok (toInt32 k, s.userRange root va (k + 1)) s := by
      have hstr := h.copyinstr_string hk
      rw [← hm] at hstr
      rw [fetchstr, run_bind hstr]
      simp only [if_true, hfound k hk]
      rw [← hfound k hk, storedString, if_pos rfl, strlen_string hne, hlen]
      rfl
    refine ⟨hfetch, fun args n hn hva => ?_, fun hm0 => ?_⟩
    · have hraw : run (argraw args n) s = .ok va s := by
        obtain ⟨a, s', hrun, rfl, rfl⟩ := run_of_solo (argraw_solo args hn)
        rw [hrun, hva]
      rw [argstr, run_bind hraw, hfetch]
    · have hkm : k < 2 ^ 31 := by
        have := hk.lt
        rw [← hm, intToU64] at this
        unfold toInt32 at this hm0
        split at hm0 <;> omega
      exact toInt32_of_lt hkm

/-- A string of two bytes. -/
theorem copyinstr_exact_hi :
    run (fetchstr 0x80400000 0x1fe000 8)
        ((twoLeaves 0x80403000 0x80404000).put 0x80400000 0x1fe000 [104, 105]) =
      .ok (2, [104, 105, 0])
        ((twoLeaves 0x80403000 0x80404000).put 0x80400000 0x1fe000 [104, 105]) := by
  have hacc : ∀ i < [(104 : UInt8), 105].length,
      (twoLeaves 0x80403000 0x80404000).Accessible 0x80400000 (0x1fe000 + i) := by decide +kernel
  have htable := twoLeaves_ok.put hacc
  have hat : StringAt ((twoLeaves 0x80403000 0x80404000).put 0x80400000 0x1fe000 [104, 105])
      0x80400000 0x1fe000 8 2 := by
    constructor <;> decide +kernel
  have hrun := ((copyinstr_exact htable.toReadTable 0x1fe000 8).2 8 2 (by decide +kernel) hat).1
  have hbytes : ((twoLeaves 0x80403000 0x80404000).put 0x80400000 0x1fe000 [104, 105]).userRange
      0x80400000 0x1fe000 3 = [104, 105, 0] := by decide +kernel
  rw [hrun, hbytes]
  rfl

/-- A user leaf for the physical page at 0 is what `walkaddr` reports as none. -/
theorem copyinstr_not_exact : ∃ s : Phys, s.userByte 0x80400000 0x1fe000 = 0 ∧
    s.Accessible 0x80400000 0x1fe000 ∧
    returned (copyinstr 0x80400000 0x1fe000 1) s = some (false, []) :=
  ⟨twoLeaves 0 0x80403000, by decide +kernel, by decide +kernel, by decide +kernel⟩

end Xv6.Vm
