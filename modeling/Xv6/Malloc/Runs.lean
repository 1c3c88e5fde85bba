import Xv6.Lib.Conc
import Xv6.Lib.Fuel
import Xv6.Malloc.Alloc

/-!
The heap after any sequence of calls of `malloc` and `free`.
-/

namespace Xv6.Malloc

open Lib.Wp Lib.Chain Lib.Spans Lib.Fuel List
open Lib.Conc (play played)

variable {base k : ℕ} {ok : ℕ → (List Span → Option ℕ) → Prop} {w w' : World} {l : List Block}

/-- The block that a pointer returned for so many bytes points into, behind its header. -/
def block (x : ℕ × ℕ) : Block := ⟨x.1 - 16, units x.2⟩

/-- The bytes asked for. -/
def region (x : ℕ × ℕ) : Span := ⟨x.1, x.1 + x.2⟩

/-- The heap is sound, with the free list `l`. -/
structure Sound (base : ℕ) (w : World) (l : List Block) : Prop where
  /-- The free list is one cycle, through `base`, and `freep` is in it. -/
  ring : Ring w.heap.next (l.map Block.addr)
  base_mem : ⟨base, 0⟩ ∈ l
  freep_mem : w.heap.freep ∈ l.map Block.addr
  /-- It is in the order of addresses, and no block ends where the next one starts. -/
  sorted : l.Pairwise fun x y => x.fin < y.addr
  size_eq : ∀ b ∈ l ++ w.live.map block, (w.heap.hdr b.addr).size = b.size
  /-- The free blocks and those in use partition the memory from `sbrk`. -/
  tiles : Tiles ((l ++ w.live.map block).map Block.span) w.heap.Given
  /-- A pointer is aligned, and its block has room for the bytes asked for. -/
  aligned : ∀ x ∈ w.live, x.1 % 16 = 0
  room : ∀ x ∈ w.live, (block x).addr + 16 ≤ x.1 ∧ x.1 + x.2 ≤ (block x).fin
  apart_live : w.live.Pairwise fun x y => (region x).Apart (region y)
  apart_free : ∀ x ∈ w.live, ∀ b ∈ l, (region x).Apart b.span

lemma Sound.addr_nodup (hs : Sound base w l) : (l.map Block.addr).Nodup := by
  rw [List.Nodup, pairwise_map]
  refine hs.sorted.imp fun {x y} hxy => Nat.ne_of_lt ?_
  exact Nat.lt_of_le_of_lt x.addr_le_fin hxy

/-- The heap is sound, or there is none yet. -/
def SoundHeap (base : ℕ) (w : World) : Prop :=
  (w.heap.freep = 0 ∧ w.heap.memory = [] ∧ w.live = []) ∨ ∃ l, Sound base w l

/-- The loops of `malloc` and `free` come to an end. -/
def Ends (base : ℕ) (ok : ℕ → (List Span → Option ℕ) → Prop) (w : World) : Prop :=
  ∃ K, ∀ k, K ≤ k →
    (∀ x ∈ w.live, ∃ h, free k x.1 w.heap = .ok () h) ∧
    ∀ n answer h, n < 2 ^ 32 → ok n answer → malloc base answer k n w.heap ≠ .error .hang h

/-- What the calls keep. -/
def Inv (base : ℕ) (w : World) : Prop :=
  (w.heap.freep = 0 ∧ w.heap.memory = [] ∧ w.live = []) ∨
    (w.heap.total < 2 ^ 36 ∧ (∀ x ∈ w.live, 16 ≤ x.1) ∧
      ∃ l, Rep base w.heap l (w.live.map block))

/-! ### Fuel -/

section

variable {k' : ℕ} {answer : List Span → Option ℕ} (hk : k ≤ k')

include hk

lemma place_mono {hdr : ℕ → Header} {bp p q : ℕ} (h : place hdr bp k p = some q) :
    place hdr bp k' p = some q := by
  induction k generalizing k' p with
  | zero => cases h
  | succ k ih =>
    obtain ⟨k', rfl⟩ : ∃ j, k' = j + 1 := ⟨k' - 1, by omega⟩
    rw [place] at h ⊢
    split at h
    · rwa [if_pos ‹_›]
    · rw [if_neg ‹_›]
      split at h
      · rwa [if_pos ‹_›]
      · rw [if_neg ‹_›]
        exact ih (by omega) h

lemma free_mono (ap : ℕ) : Extends (free k ap) (free k' ap) := by
  unfold free
  refine (Extends.refl get).bind fun h => ?_
  cases hp : place h.hdr (ap - 16) k h.freep with
  | none => exact .throw _ _
  | some p =>
    rw [place_mono hk hp]
    exact .refl _

lemma morecore_mono (nu : ℕ) :
    Extends (morecore base answer k nu) (morecore base answer k' nu) := by
  refine (Extends.refl (sbrk base answer _)).bind fun r => ?_
  cases r with
  | none => exact .refl _
  | some p => exact (Extends.refl (modify _)).bind fun _ => (free_mono hk _).bind fun _ => .refl _

lemma search_mono {n : ℕ} (prevp p : ℕ) :
    Extends (search base answer n k prevp p) (search base answer n k' prevp p) := by
  induction k generalizing k' prevp p with
  | zero => exact .throw _ _
  | succ k ih =>
    obtain ⟨k', rfl⟩ : ∃ j, k' = j + 1 := ⟨k' - 1, by omega⟩
    have hk' : k ≤ k' := by omega
    unfold search
    refine (Extends.refl get).bind fun h => .ite (.refl _) (.ite ?_ (ih hk' _ _))
    refine (morecore_mono hk' n).bind fun q => .ite (.refl _) ?_
    exact (Extends.refl get).bind fun h => ih hk' _ _

lemma malloc_mono (n : ℕ) :
    Extends (malloc base answer k n) (malloc base answer k' n) := by
  refine (Extends.refl (modify _)).bind fun _ => (Extends.refl get).bind fun h => ?_
  exact search_mono hk _ _

end

/-! ### One call -/

lemma rep_init (base : ℕ) {h : Heap} (hfreep : h.freep = 0) (hmem : h.memory = []) :
    Rep base (h.init base) [⟨base, 0⟩] [] := by
  have hinit : h.init base = { h.setHdr base ⟨base, 0⟩ with freep := base } := by
    rw [Heap.init, if_pos hfreep, Heap.setSize_setPtr]
  rw [hinit]
  refine ⟨⟨?_, ?_, ⟨?_, ?_, ?_, ?_⟩, ?_⟩, ?_, ?_, ?_, ?_⟩
  · rintro b hb
    obtain rfl : b = ⟨base, 0⟩ := by simpa using hb
    exact congrArg Header.size (Heap.setHdr_self ..)
  · rintro b hb
    exact .inl (by simpa using hb)
  · rintro x hx
    obtain rfl : x = (⟨base, 0⟩ : Block).span := by simpa using hx
    exact Block.addr_le_fin ⟨base, 0⟩
  · simp
  · simp
  · intro a
    have hempty : ¬ (⟨base, 0⟩ : Block).span.Has a := by
      rintro ⟨h1, h2⟩
      exact absurd h2 (Nat.not_lt_of_le h1)
    simp [Heap.Given, Heap.setHdr, hmem, hempty]
  · simp [Heap.total, Heap.setHdr, hmem]
  · refine Path.ring (l := []) ?_
    exact congrArg Header.ptr (Heap.setHdr_self ..)
  · simp
  · simp
  · simp

lemma malloc_init {answer : List Span → Option ℕ} {n : ℕ} {h : Heap} (hbase : 0 < base)
    (hfreep : h.freep = 0) :
    malloc base answer k n h = malloc base answer k n (h.init base) := by
  have hinit : (h.init base).init base = h.init base := by
    have hne : (h.init base).freep ≠ 0 := by
      rw [Heap.init, if_pos hfreep]
      exact Nat.pos_iff_ne_zero.mp hbase
    rw [Heap.init, if_neg hne]
  change (do let h ← get; search base answer (units n) k h.freep (h.hdr h.freep).ptr : MallocM ℕ)
    (h.init base) = (do let h ← get; search base answer (units n) k h.freep (h.hdr h.freep).ptr
      : MallocM ℕ) ((h.init base).init base)
  rw [hinit]

lemma Inv.malloc (hw : Inv base w) (hbase : 0 < base) : ∃ K, ∀ k, K ≤ k → ∀ n answer,
    Orderly base n answer → wp (malloc base answer k n) (fun p h =>
      Inv base ⟨h, if p = 0 then w.live else (p, n) :: w.live⟩) (fun e _ => e = .notNew) w.heap := by
  obtain ⟨h, l, hr, hsmall, hpos, hrun⟩ : ∃ h l, Rep base h l (w.live.map block) ∧
      h.total < 2 ^ 36 ∧ (∀ x ∈ w.live, 16 ≤ x.1) ∧ ∀ k n answer,
      Malloc.malloc base answer k n w.heap = Malloc.malloc base answer k n h := by
    rcases hw with ⟨hfreep, hmem, hlive⟩ | ⟨hsmall, hpos, l, hr⟩
    · refine ⟨w.heap.init base, [⟨base, 0⟩], ?_, ?_, ?_, fun k n answer => malloc_init hbase hfreep⟩
      · rw [hlive]
        exact rep_init base hfreep hmem
      · have htotal := (rep_init base hfreep hmem).pool.total
        rw [← htotal]
        simp
      · simp [hlive]
    · exact ⟨w.heap, l, hr, hsmall, hpos, fun _ _ _ => rfl⟩
  refine ⟨2 * l.length + 1, fun k hk n answer hok => ?_⟩
  have hwp := hr.malloc hbase hok hsmall hk
  unfold wp at hwp ⊢
  rw [hrun]
  refine wp_mono hwp (fun p h' hp => ?_) fun _ _ he => he
  obtain ⟨hsmall', ⟨rfl, l', hr'⟩ | ⟨b, l', rfl, hbn, hr'⟩⟩ := hp
  · exact .inr ⟨hsmall', hpos, l', hr'⟩
  · have hb : block (b.addr + 16, n) = b := by
      rw [block, ← hbn]
      rfl
    rw [if_neg (by omega)]
    refine .inr ⟨hsmall', fun x hx => ?_, l', ?_⟩
    · rcases mem_cons.mp hx with rfl | hx
      · exact Nat.le_add_left ..
      · exact hpos x hx
    · rw [map_cons, hb]
      exact hr'

lemma Inv.free (hw : Inv base w) : ∃ K, ∀ k, K ≤ k → ∀ x ∈ w.live,
    ∃ h, free k x.1 w.heap = .ok () h ∧ Inv base ⟨h, w.live.erase x⟩ := by
  rcases hw with ⟨-, -, hlive⟩ | ⟨hsmall, hpos, l, hr⟩
  · exact ⟨0, fun k _ x hx => absurd hx (by simp [hlive])⟩
  · refine ⟨l.length, fun k hk x hx => ?_⟩
    have hr' := hr.perm_live ((perm_cons_erase hx).map block)
    rw [map_cons] at hr'
    obtain ⟨h, l', hrun, hr'', -, hmem, -⟩ := hr'.free hk hsmall
    have hx16 : (block x).addr + 16 = x.1 := Nat.sub_add_cancel (hpos x hx)
    rw [hx16] at hrun
    refine ⟨h, hrun, .inr ⟨?_, fun y hy => hpos y (mem_of_mem_erase hy), l', hr''⟩⟩
    rwa [Heap.total, hmem]

/-! ### Any number of calls -/

lemma Inv.step (hw : Inv base w) (hbase : 0 < base) (hstep : Step base (Orderly base) w w') :
    Inv base w' := by
  cases hstep with
  | @malloc k n p answer h hn hok hrun =>
    obtain ⟨K, hK⟩ := hw.malloc hbase
    have hrun' := malloc_mono (Nat.le_max_left k K) n _ _ _ hrun
    have hwp := hK _ (Nat.le_max_right k K) n answer hok
    exact (wp_ok hwp hrun' :)
  | @free k p n h hp hrun =>
    obtain ⟨K, hK⟩ := hw.free
    obtain ⟨h', hrun', hw'⟩ := hK _ (Nat.le_max_right k K) (p, n) hp
    have heq := free_mono (Nat.le_max_left k K) p _ _ _ hrun
    obtain ⟨-, rfl⟩ := EStateM.Result.ok.inj (heq.symm.trans hrun')
    exact hw'

lemma Inv.reach (hbase : 0 < base) {hdr : ℕ → Header}
    (h : Reach base (Orderly base) (start hdr) w) : Inv base w := by
  induction h with
  | refl => exact .inl ⟨rfl, rfl, rfl⟩
  | tail _ hstep ih => exact ih.step hbase hstep

lemma units_room (n : ℕ) : n + 16 ≤ 16 * units n := by
  unfold units
  omega

lemma region_room {x : ℕ × ℕ} (hx : 16 ≤ x.1) :
    (block x).addr + 16 ≤ x.1 ∧ x.1 + x.2 ≤ (block x).fin := by
  have := units_room x.2
  simp only [block, Block.fin]
  omega

lemma Rep.sound (hr : Rep base w.heap l (w.live.map block)) (hpos : ∀ x ∈ w.live, 16 ≤ x.1) :
    Sound base w l := by
  have hap := hr.pool.tiles.apart
  rw [map_append, pairwise_append, map_map] at hap
  have hroom : ∀ x ∈ w.live, (block x).addr + 16 ≤ x.1 ∧ x.1 + x.2 ≤ (block x).fin :=
    fun x hx => region_room (hpos x hx)
  refine ⟨hr.ring, hr.base_mem, hr.freep, hr.sorted, hr.pool.size_eq, hr.pool.tiles,
    fun x hx => ?_, hroom, ?_, fun x hx b hb => ?_⟩
  · have hr' := hr.perm_live ((perm_cons_erase hx).map block)
    have halign : (x.1 - 16) % 16 = 0 := hr'.live_fine.aligned
    have := hpos x hx
    omega
  · refine (pairwise_map.mp hap.2.1).imp_of_mem fun {x y} hx hy hxy => ?_
    have h1 : (block x).fin ≤ (block y).addr ∨ (block y).fin ≤ (block x).addr := hxy
    have h2 := hroom x hx
    have h3 := hroom y hy
    change x.1 + x.2 ≤ y.1 ∨ y.1 + y.2 ≤ x.1
    omega
  · have h1 : b.fin ≤ (block x).addr ∨ (block x).fin ≤ b.addr :=
      hap.2.2 b.span (mem_map_of_mem hb) (block x).span (mem_map_of_mem hx)
    have h2 := hroom x hx
    change x.1 + x.2 ≤ b.addr ∨ b.fin ≤ x.1
    omega

/-- **The heap stays sound**, and no loop of the allocator hangs, as long as what `sbrk` answers
is in order. -/
theorem malloc_free_sound (hbase : 0 < base) {hdr : ℕ → Header}
    (h : Reach base (Orderly base) (start hdr) w) :
    SoundHeap base w ∧ Ends base (Orderly base) w := by
  have hw := Inv.reach hbase h
  refine ⟨?_, ?_⟩
  · rcases hw with hnone | ⟨-, hpos, l, hr⟩
    · exact .inl hnone
    · exact .inr ⟨l, hr.sound hpos⟩
  · obtain ⟨K₁, h1⟩ := hw.malloc hbase
    obtain ⟨K₂, h2⟩ := hw.free
    refine ⟨max K₁ K₂, fun k hk => ⟨fun x hx => ?_, fun n answer h _ hok hrun => ?_⟩⟩
    · obtain ⟨h, hrun, -⟩ := h2 k (by omega) x hx
      exact ⟨h, hrun⟩
    · have hwp := h1 k (by omega) n answer hok
      have hne := (wp_error hwp hrun :)
      cases hne

/-! ### Calls one after another -/

inductive Call
  | malloc (n : ℕ)
  | free (x : ℕ × ℕ)

def move (base : ℕ) (answer : List Span → Option ℕ) (w : World) : Call → Option World
  | .malloc n =>
    match malloc base answer 100 n w.heap with
    | .ok p h => some ⟨h, if p = 0 then w.live else (p, n) :: w.live⟩
    | .error _ _ => none
  | .free x =>
    if x ∈ w.live then
      match free 100 x.1 w.heap with
      | .ok _ h => some ⟨h, w.live.erase x⟩
      | .error _ _ => none
    else none

/-- A process with all headers zero. -/
def blank : World := start fun _ => ⟨0, 0⟩

lemma reach_of_play (answer : List Span → Option ℕ) (cs : List Call) {α : Type} (f : World → α)
    {v : α} (hok : ∀ n, .malloc n ∈ cs → n < 2 ^ 32 ∧ ok n answer)
    (h : (play (move base answer) cs blank).map f = some v) :
    ∃ w, Reach base ok blank w ∧ f w = v := by
  refine played .refl (fun w w' c hc hw h => ?_) h
  cases c with
  | malloc n =>
    rw [move] at h
    split at h
    · next p heap hrun =>
      obtain ⟨hn, hok⟩ := hok n hc
      cases h
      exact .tail hw (.malloc hn hok hrun)
    · cases h
  | free x =>
    rw [move] at h
    split at h
    · next hx =>
      split at h
      · next heap hrun =>
        cases h
        exact .tail hw (.free hx hrun)
      · cases h
    · cases h

/-- The first of two blocks is freed. -/
theorem malloc_free_sound_two : ∃ w, Reach 1024 (Orderly 1024) blank w ∧
    w.live = [(69488, 100)] ∧ SoundHeap 1024 w ∧ Ends 1024 (Orderly 1024) w := by
  have hok : ∀ n, Call.malloc n ∈ [Call.malloc 1, .malloc 100, .free (69616, 1)] →
      n < 2 ^ 32 ∧ Orderly 1024 n fun memory => if memory = [] then some 4096 else none := by
    intro n hn
    have hcases : n = 1 ∨ n = 100 := by simpa using hn
    refine ⟨by omega, fun memory a ha => ?_⟩
    by_cases hm : memory = []
    · obtain rfl : 4096 = a := by simpa [hm] using ha
      subst hm
      rcases hcases with rfl | rfl <;> decide
    · simp [hm] at ha
  obtain ⟨w, hw, hlive⟩ : ∃ w, Reach 1024 (Orderly 1024) blank w ∧ w.live = [(69488, 100)] :=
    reach_of_play _ [.malloc 1, .malloc 100, .free (69616, 1)] World.live hok (by decide +kernel)
  exact ⟨w, hw, hlive, malloc_free_sound (by decide) hw⟩

/-! ### When the answers of `sbrk` are not in order -/

/-- Memory that is not aligned. -/
def misaligned : List Span → Option ℕ := fun _ => some 4104

lemma misaligned_not_sound :
    ∃ w, Reach 1024 (fun n answer => n = 1 ∧ answer = misaligned) blank w ∧
      ¬ SoundHeap 1024 w := by
  obtain ⟨w, hw, hlive⟩ : ∃ w, Reach 1024 (fun n answer => n = 1 ∧ answer = misaligned) blank w ∧
      w.live = [(69624, 1)] :=
    reach_of_play misaligned [.malloc 1] World.live (by simp) (by decide +kernel)
  refine ⟨w, hw, ?_⟩
  rintro (⟨-, -, hnone⟩ | ⟨l, hs⟩)
  · simp [hlive] at hnone
  · have := hs.aligned (69624, 1) (by simp [hlive])
    simp at this

lemma truncated_not_sound :
    ∃ w, Reach 1024 (fun n answer => n = 2 ^ 32 - 1 ∧ answer = fun _ => some 4096) blank w ∧
      ¬ SoundHeap 1024 w := by
  obtain ⟨w, hw, hf⟩ : ∃ w, Reach 1024 (fun n answer => n = 2 ^ 32 - 1 ∧ answer = fun _ => some 4096)
      blank w ∧ (w.live, w.heap.memory) = ([(4112, 2 ^ 32 - 1)], [⟨4096, 4112⟩]) :=
    reach_of_play (fun _ => some 4096) [.malloc (2 ^ 32 - 1)] (fun w => (w.live, w.heap.memory))
      (by simp) (by decide +kernel)
  obtain ⟨hlive, hmem⟩ := Prod.mk.inj hf
  refine ⟨w, hw, ?_⟩
  rintro (⟨-, -, hnone⟩ | ⟨l, hs⟩)
  · simp [hlive] at hnone
  · -- the block would reach far beyond the 16 bytes
    have hgiven : w.heap.Given 5000 := by
      refine (hs.tiles.cover 5000).mpr ⟨(block (4112, 2 ^ 32 - 1)).span, ?_, by decide, by decide⟩
      simp [hlive]
    obtain ⟨x, hx, hin⟩ := hgiven
    obtain rfl : x = ⟨4096, 4112⟩ := by simpa [hmem] using hx
    exact absurd hin.2 (by decide)

/-- Memory below `base`, the second time right below it. -/
def below : List Span → Option ℕ := fun memory => if memory = [] then some 65536 else some 196608

lemma below_not_sound :
    ∃ w, Reach 262144 (fun n answer => n ≤ 65520 ∧ answer = below) blank w ∧
      ¬ SoundHeap 262144 w := by
  obtain ⟨w, hw, hf⟩ : ∃ w, Reach 262144 (fun n answer => n ≤ 65520 ∧ answer = below) blank w ∧
      (w.heap.freep, w.heap.next 65536) = (65536, 65536) :=
    reach_of_play below [.malloc 1, .malloc 65520] (fun w => (w.heap.freep, w.heap.next 65536))
      (by simp) (by decide +kernel)
  obtain ⟨hfreep, hnext⟩ := Prod.mk.inj hf
  refine ⟨w, hw, ?_⟩
  rintro (⟨hnone, -, -⟩ | ⟨l, hs⟩)
  · simp [hfreep] at hnone
  · -- `base` is no longer in the list
    have hmem := hs.freep_mem
    rw [hfreep] at hmem
    have hpair := hs.ring.perm_pair hs.addr_nodup hmem (by rw [hnext, hnext]) 262144
      (mem_map_of_mem hs.base_mem)
    rw [hnext] at hpair
    omega

/-- Memory without end, in one piece. -/
def endless : List Span → Option ℕ := fun memory => some (4096 + (memory.map Span.length).sum)

lemma endless_not_sound :
    ∃ w, Reach 1024 (fun n answer => n = 2 ^ 31 - 32 ∧ answer = endless) blank w ∧
      ¬ SoundHeap 1024 w := by
  obtain ⟨w, hw, hf⟩ : ∃ w, Reach 1024 (fun n answer => n = 2 ^ 31 - 32 ∧ answer = endless)
      blank w ∧ (w.live, w.heap.next 1024, w.heap.next 4096, (w.heap.hdr 4096).size,
        w.heap.memory.head?) = ([], 4096, 1024, 2 ^ 27 - 33,
        some ⟨4096 + 32 * (2 ^ 31 - 16), 4096 + 33 * (2 ^ 31 - 16)⟩) :=
    reach_of_play endless
      (List.replicate 33 (.malloc (2 ^ 31 - 32)) ++ (List.range 33).map fun i =>
        .free (4112 + i * (2 ^ 31 - 16), 2 ^ 31 - 32))
      (fun w => (w.live, w.heap.next 1024, w.heap.next 4096, (w.heap.hdr 4096).size,
        w.heap.memory.head?)) (by simp) (by decide +kernel)
  simp only [Prod.mk.injEq] at hf
  obtain ⟨hlive, hbase, hnext, hsize, hmem⟩ := hf
  refine ⟨w, hw, ?_⟩
  rintro (⟨-, hnone, -⟩ | ⟨l, hs⟩)
  · simp [hnone] at hmem
  · -- the memory given last is in no block
    have hgiven : w.heap.Given (4096 + 32 * (2 ^ 31 - 16)) :=
      ⟨_, mem_of_mem_head? hmem, Nat.le_refl _, by simp⟩
    obtain ⟨x, hx, hin⟩ := (hs.tiles.cover _).mp hgiven
    rw [hlive, map_nil, append_nil] at hx
    obtain ⟨b, hb, rfl⟩ := mem_map.mp hx
    have hend : 4096 + 32 * (2 ^ 31 - 16) < b.addr + 16 * b.size := hin.2
    have hsb : (w.heap.hdr b.addr).size = b.size := hs.size_eq b (mem_append_left _ hb)
    have hpair := hs.ring.perm_pair hs.addr_nodup (mem_map_of_mem hs.base_mem)
      (by rw [hbase, hnext]) b.addr (mem_map_of_mem hb)
    change b.addr = 1024 ∨ b.addr = w.heap.next 1024 at hpair
    rcases hpair with haddr | haddr
    · have h0 : (w.heap.hdr 1024).size = 0 :=
        hs.size_eq _ (mem_append_left _ hs.base_mem)
      rw [haddr] at hsb hend
      omega
    · rw [haddr, hbase] at hsb hend
      omega

/-- **The heap is not sound for every `sbrk`**: one whose memory is not aligned, is cut off, ends
at `base`, or is too large for a `uint`. -/
theorem malloc_free_not_sound :
    (∃ w, Reach 1024 (fun n answer => n = 1 ∧ answer = misaligned) blank w ∧
      ¬ SoundHeap 1024 w) ∧
    (∃ w, Reach 1024 (fun n answer => n = 2 ^ 32 - 1 ∧ answer = fun _ => some 4096) blank w ∧
      ¬ SoundHeap 1024 w) ∧
    (∃ w, Reach 262144 (fun n answer => n ≤ 65520 ∧ answer = below) blank w ∧
      ¬ SoundHeap 262144 w) ∧
    ∃ w, Reach 1024 (fun n answer => n = 2 ^ 31 - 32 ∧ answer = endless) blank w ∧
      ¬ SoundHeap 1024 w :=
  ⟨misaligned_not_sound, truncated_not_sound, below_not_sound, endless_not_sound⟩

end Xv6.Malloc
