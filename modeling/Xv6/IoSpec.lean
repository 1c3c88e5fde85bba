import Xv6.Io

/-!
What the buffer operations do, in terms of what is known about the blocks.

`Rep s A P H` relates a state to what its reader may rely on: `A` gives the contents of
the blocks that are known (those that reading will return, whatever is recycled in
between), `P` the count each block is owed beyond the holders of its buffer, and `H` the
buffers held. Blocks `A` says nothing about may be anything, and may differ between the
cache and the disk.
-/

namespace Xv6.IoSpec

open Lib.Wp Lib.Bytes Bio LogState Io Function

structure Rep (s : Store) (A : ℕ → Option Block) (P : ℕ → UInt32) (H : Finset (Fin NBUF)) :
    Prop where
  linked : Linked s.bcache
  /-- At most one buffer is assigned to a block. -/
  uniq : ∀ i j, (s.bcache.buf i).dev = ROOTDEV → (s.bcache.buf j).dev = ROOTDEV →
    (s.bcache.buf i).blockno = (s.bcache.buf j).blockno → i = j
  valid : ∀ i, (s.bcache.buf i).dev = ROOTDEV → (s.bcache.buf i).valid = true
  foreign : ∀ i, (s.bcache.buf i).dev ≠ ROOTDEV → (s.bcache.buf i).refcnt = 0
  refcnt : ∀ i, (s.bcache.buf i).dev = ROOTDEV →
    (s.bcache.buf i).refcnt = P (s.bcache.buf i).blockno + if i ∈ H then 1 else 0
  lock : ∀ i, (s.bcache.buf i).lock = if i ∈ H then some s.pid else none
  dev : ∀ i ∈ H, (s.bcache.buf i).dev = ROOTDEV
  pinned : ∀ b, P b ≠ 0 → ∃ i, s.bcache.Has ROOTDEV b i
  inCache : ∀ b d, A b = some d → ∀ i, s.bcache.Has ROOTDEV b i → (s.bcache.buf i).data = d
  /-- A block whose buffer may be recycled is the same on disk. -/
  onDisk : ∀ b d, A b = some d →
    (∀ i, s.bcache.Has ROOTDEV b i → (s.bcache.buf i).refcnt = 0) → s.disk b = d

variable {s : Store} {A : ℕ → Option Block} {P : ℕ → UInt32} {H : Finset (Fin NBUF)} {i : Fin NBUF}
  {b : ℕ}

lemma Rep.weaken (h : Rep s A P H) {A' : ℕ → Option Block}
    (hA : ∀ b d, A' b = some d → A b = some d) : Rep s A' P H :=
  { h with
    inCache := fun b d hb => h.inCache b d (hA b d hb)
    onDisk := fun b d hb => h.onDisk b d (hA b d hb) }

lemma Rep.has_inj (h : Rep s A P H) {j : Fin NBUF} (hi : s.bcache.Has ROOTDEV b i)
    (hj : s.bcache.Has ROOTDEV b j) : i = j :=
  h.uniq i j hi.1 hj.1 (hi.2.trans hj.2.symm)

lemma rep_binit (s : Store) (hc : s.bcache = binit) :
    Rep s (fun b => some (s.disk b)) (fun _ => 0) ∅ := by
  have hdev : ∀ i, (s.bcache.buf i).dev ≠ ROOTDEV := fun i => by simp [hc, binit_buf]
  constructor
  case linked => rw [hc]; exact linked_binit
  case uniq => exact fun i j hi => absurd hi (hdev i)
  case valid | refcnt => exact fun i hi => absurd hi (hdev i)
  case foreign => exact fun i _ => by simp [hc, binit_buf]
  case lock => exact fun i => by simp [hc, binit_buf]
  case dev => exact fun i hi => by simp at hi
  case pinned => exact fun b hb => by simp at hb
  case inCache => exact fun b d _ i hi => absurd hi.1 (hdev i)
  case onDisk => exact fun b d hb _ => by simpa using hb

/-! ### The simple actions -/

section Actions

variable {E : Stop → Store → Prop}

lemma wp_getLog (Q : Log → Store → Prop) : wp getLog Q E s ↔ Q s.log s := Iff.rfl

lemma wp_lhMore (tail : ℕ) {n : ℕ} (hn : s.log.lh.n.toNat = n) :
    wp (lhMore tail) (fun c s' => (c = true ↔ tail < n) ∧ s' = s) E s := by
  refine ⟨?_, rfl⟩
  rw [decide_eq_true_iff]
  omega

lemma wp_lhBlock {tail : ℕ} (h : tail < LOGSIZE) (Q : ℕ → Store → Prop) :
    wp (lhBlock tail) Q E s ↔ Q (s.log.lh.block tail) s := by
  have hn : ¬ LOGSIZE ≤ tail := by omega
  unfold lhBlock
  simp only [wp_bind, wp_getLog, wp_throwIf, wp_pure]
  exact ⟨fun h => h.2 hn, fun h => ⟨fun h' => absurd h' hn, fun _ => h⟩⟩

lemma wp_memmove (dst src : Fin NBUF) (Q : Unit → Store → Prop) :
    wp (memmove dst src) Q E s ↔ Q () { s with
      bcache := s.bcache.set dst fun b => { b with data := (s.bcache.buf src).data } } := Iff.rfl

lemma wp_giveHead (i : Fin NBUF) (Q : Unit → Store → Prop) :
    wp (giveHead i) Q E s ↔ Q () { s with
      bcache := s.bcache.set i fun b => { b with data := putHead (s.bcache.buf i).data s.log.lh } } :=
  Iff.rfl

lemma wp_unpin (i : Fin NBUF) (Q : Unit → Store → Prop) :
    wp (unpin i) Q E s ↔ Q () { s with bcache := bunpin s.bcache i } := Iff.rfl

lemma wp_clearHead (Q : Unit → Store → Prop) :
    wp clearHead Q E s ↔ Q () { s with log := { s.log with lh := { s.log.lh with n := 0 } } } :=
  Iff.rfl

end Actions

/-! ### Changing one buffer -/

section

variable (h : Rep s A P H)

include h

/-- Everything but buffer `i`, which stays assigned to block `b`, and what is known about
`b` is as before; then only `i` and `b` have to be looked at. -/
lemma Rep.change {s' : Store} {A' : ℕ → Option Block} {P' : ℕ → UInt32} {H' : Finset (Fin NBUF)}
    (hi : s.bcache.Has ROOTDEV b i) (hlink : Linked s'.bcache)
    (hbuf : ∀ j, j ≠ i → s'.bcache.buf j = s.bcache.buf j) (hi' : s'.bcache.Has ROOTDEV b i)
    (hvalid : (s'.bcache.buf i).valid = true) (hpid : s'.pid = s.pid)
    (hH : ∀ j, j ≠ i → (j ∈ H' ↔ j ∈ H)) (hP : ∀ c, c ≠ b → P' c = P c)
    (hA : ∀ c, c ≠ b → A' c = A c) (hdisk : ∀ c, c ≠ b → s'.disk c = s.disk c)
    (href : (s'.bcache.buf i).refcnt = P' b + if i ∈ H' then 1 else 0)
    (hlock : (s'.bcache.buf i).lock = if i ∈ H' then some s'.pid else none)
    (hdata : ∀ d, A' b = some d → (s'.bcache.buf i).data = d)
    (hsame : ∀ d, A' b = some d → (s'.bcache.buf i).refcnt = 0 → s'.disk b = d) :
    Rep s' A' P' H' := by
  have hhas : ∀ c j, s'.bcache.Has ROOTDEV c j ↔ s.bcache.Has ROOTDEV c j := by
    intro c j
    by_cases hj : j = i
    · subst hj
      exact ⟨fun hc => ⟨hi.1, hi.2.trans (hi'.2.symm.trans hc.2)⟩,
        fun hc => ⟨hi'.1, hi'.2.trans (hi.2.symm.trans hc.2)⟩⟩
    · simp only [Bcache.Has, hbuf j hj]
  have hne : ∀ c j, c ≠ b → s.bcache.Has ROOTDEV c j → j ≠ i :=
    fun c j hc hj hji => hc (by rw [← hj.2, hji, hi.2])
  constructor
  case linked => exact hlink
  case uniq =>
    intro j k hj hk hjk
    have h1 := (hhas _ j).mp ⟨hj, rfl⟩
    have h2 := (hhas _ k).mp ⟨hk, hjk.symm⟩
    exact h.has_inj h1 h2
  case valid =>
    intro j hj
    by_cases hji : j = i
    · rw [hji]; exact hvalid
    · rw [hbuf j hji] at hj ⊢; exact h.valid j hj
  case foreign =>
    intro j hj
    by_cases hji : j = i
    · exact absurd (by rw [hji]; exact hi'.1) hj
    · rw [hbuf j hji] at hj ⊢; exact h.foreign j hj
  case refcnt =>
    intro j hj
    by_cases hji : j = i
    · rw [hji, hi'.2]; exact href
    · have hc : (s.bcache.buf j).blockno ≠ b := fun hc =>
        hji (h.has_inj ⟨by rw [← hbuf j hji]; exact hj, hc⟩ hi)
      rw [hbuf j hji] at hj ⊢
      rw [h.refcnt j hj, hP _ hc]
      simp only [hH j hji]
  case lock =>
    intro j
    by_cases hji : j = i
    · rw [hji]; exact hlock
    · rw [hbuf j hji, h.lock j, hpid]
      simp only [hH j hji]
  case dev =>
    intro j hj
    by_cases hji : j = i
    · rw [hji]; exact hi'.1
    · rw [hbuf j hji]; exact h.dev j ((hH j hji).mp hj)
  case pinned =>
    intro c hc
    by_cases hcb : c = b
    · exact ⟨i, hcb ▸ hi'⟩
    · obtain ⟨j, hj⟩ := h.pinned c (by rwa [← hP c hcb])
      exact ⟨j, (hhas c j).mpr hj⟩
  case inCache =>
    intro c d hc j hj
    by_cases hcb : c = b
    · subst hcb
      have hji : j = i := h.has_inj ((hhas c j).mp hj) hi
      rw [hji]; exact hdata d hc
    · have hj' := (hhas c j).mp hj
      rw [hbuf j (hne c j hcb hj')]
      exact h.inCache c d (by rwa [← hA c hcb]) j hj'
  case onDisk =>
    intro c d hc hz
    by_cases hcb : c = b
    · subst hcb
      exact hsame d hc (hz i hi')
    · rw [hdisk c hcb]
      refine h.onDisk c d (by rwa [← hA c hcb]) fun j hj => ?_
      rw [← hbuf j (hne c j hcb hj)]
      exact hz j ((hhas c j).mpr hj)

lemma Rep.setData (hi : i ∈ H) (hb : (s.bcache.buf i).blockno = b) (hP : P b + 1 ≠ 0) (d : Block) :
    Rep { s with bcache := s.bcache.set i fun x => { x with data := d } }
      (update A b (some d)) P H := by
  have hhas : s.bcache.Has ROOTDEV b i := ⟨h.dev i hi, hb⟩
  have href : (s.bcache.buf i).refcnt = P b + 1 := by
    rw [h.refcnt i hhas.1, hb, if_pos hi]
  refine h.change hhas h.linked (fun j hj => by simp only [set_buf_of_ne _ _ hj]) ?_ ?_ rfl
    (fun _ _ => Iff.rfl) (fun _ _ => rfl) (fun c hc => update_of_ne hc _ _)
    (fun _ _ => rfl) ?_ ?_ ?_ ?_
  · simpa [Bcache.Has] using hhas
  · simpa using h.valid i hhas.1
  · simpa [hi] using href
  · simpa using h.lock i
  · intro e he
    simpa using he
  · intro e _ hz
    exact absurd (by simpa [href] using hz) hP

lemma Rep.write (hi : i ∈ H) (hb : (s.bcache.buf i).blockno = b) (t : List Event) :
    Rep { s with disk := update s.disk b (s.bcache.buf i).data, trace := t } A P H := by
  have hhas : s.bcache.Has ROOTDEV b i := ⟨h.dev i hi, hb⟩
  refine h.change hhas h.linked (fun _ _ => rfl) hhas (h.valid i hhas.1) rfl
    (fun _ _ => Iff.rfl) (fun _ _ => rfl) (fun _ _ => rfl)
    (fun c hc => update_of_ne hc _ _) ?_ (h.lock i) ?_ ?_
  · simpa [hb] using h.refcnt i hhas.1
  · exact fun d hd => h.inCache b d hd i hhas
  · intro d hd _
    simpa using h.inCache b d hd i hhas

lemma Rep.count (hi : i ∈ H) (hb : (s.bcache.buf i).blockno = b) {f : Buf → Buf} {r : UInt32}
    (hf : f (s.bcache.buf i) = { s.bcache.buf i with refcnt := r + 1 })
    (hd : r + 1 = 0 → ∀ d, A b = some d → s.disk b = d) :
    Rep { s with bcache := s.bcache.set i f } A (update P b r) H := by
  have hhas : s.bcache.Has ROOTDEV b i := ⟨h.dev i hi, hb⟩
  refine h.change hhas h.linked (fun j hj => by simp only [set_buf_of_ne _ _ hj]) ?_ ?_ rfl
    (fun _ _ => Iff.rfl) (fun c hc => update_of_ne hc _ _) (fun _ _ => rfl)
    (fun _ _ => rfl) ?_ ?_ ?_ ?_
  · simpa [Bcache.Has, hf] using hhas
  · simpa [hf] using h.valid i hhas.1
  · simp [hf, hi]
  · simpa [hf] using h.lock i
  · intro d hd
    simpa [hf] using h.inCache b d hd i hhas
  · intro d hA hz
    exact hd (by simpa [hf] using hz) d hA

end

/-! ### Getting and releasing a buffer -/

section

variable (h : Rep s A P H)

include h

lemma Rep.hit (hi : s.bcache.Has ROOTDEV b i) (hH : i ∉ H) (hP : P b + 1 ≠ 0) :
    Rep { s with bcache :=
        (s.bcache.set i (getRef s.pid)).set i fun b => { b with lock := some s.pid } }
      A P (insert i H) := by
  have href : (s.bcache.buf i).refcnt = P b := by rw [h.refcnt i hi.1, hi.2, if_neg hH, UInt32.add_zero]
  refine h.change hi h.linked (fun j hj => ?_) ?_ ?_ rfl (fun j hj => ?_)
    (fun _ _ => rfl) (fun _ _ => rfl) (fun _ _ => rfl) ?_ ?_ ?_ ?_
  · simp only [set_buf_of_ne _ _ hj]
  · simpa [Bcache.Has, getRef] using hi
  · simpa [getRef] using h.valid i hi.1
  · simp [hj]
  · simp [getRef, href]
  · simp
  · intro d hd
    simpa [getRef] using h.inCache b d hd i hi
  · intro d _ hz
    exact absurd (by simpa [getRef, href] using hz) hP

/-- Releasing a held buffer; if nothing else keeps it, the disk has what is known of it. -/
lemma Rep.release (hi : i ∈ H) (hb : (s.bcache.buf i).blockno = b)
    (hd : P b = 0 → ∀ d, A b = some d → s.disk b = d) :
    Rep { s with bcache := brelseCs (s.bcache.set i fun b => { b with lock := none }) s.pid i }
      A P (H.erase i) := by
  have hhas : s.bcache.Has ROOTDEV b i := ⟨h.dev i hi, hb⟩
  have href : (s.bcache.buf i).refcnt = P b + 1 := by rw [h.refcnt i hhas.1, hb, if_pos hi]
  have hbuf : (brelseCs (s.bcache.set i fun b => { b with lock := none }) s.pid i).buf i =
      { s.bcache.buf i with
        lock := none, refcnt := P b, users := (s.bcache.buf i).users.erase s.pid } := by
    simp [putRef, href]
  refine h.change hhas (Linked.brelseCs (h.linked.set i _) s.pid i) (fun j hj => ?_) ?_ ?_ rfl (fun j hj => ?_)
    (fun _ _ => rfl) (fun _ _ => rfl) (fun _ _ => rfl) ?_ ?_ ?_ ?_
  · simp only [brelseCs_buf, set_buf_of_ne _ _ hj]
  · simpa [Bcache.Has, hbuf] using hhas
  · simpa [hbuf] using h.valid i hhas.1
  · simp [hj]
  · simp [hbuf]
  · simp [hbuf]
  · intro d hA
    simpa [hbuf] using h.inCache b d hA i hhas
  · intro d hA hz
    exact hd (by simpa [hbuf] using hz) d hA

lemma Rep.miss {nb : Buf} {u : List ℕ} (hno : ∀ j, ¬ s.bcache.Has ROOTDEV b j)
    (hz : (s.bcache.buf i).refcnt = 0) (hH : ∀ j ∈ H, (s.bcache.buf j).refcnt ≠ 0) {c : Bcache}
    (hlink : Linked c) (hbuf : ∀ j, j ≠ i → c.buf j = s.bcache.buf j)
    (hnb : nb = ⟨true, ROOTDEV, b, some s.pid, 1, s.disk b, u⟩) (hi : c.buf i = nb) :
    Rep { s with bcache := c } A P (insert i H) := by
  subst hnb
  have hiH : i ∉ H := fun hi' => hH i hi' hz
  have hPb : P b = 0 := by
    by_contra hP
    obtain ⟨j, hj⟩ := h.pinned b hP
    exact hno j hj
  have hold : ∀ e, s.bcache.Has ROOTDEV e i → P e = 0 := fun e he => by
    have := h.refcnt i he.1
    rw [he.2, if_neg hiH, UInt32.add_zero, hz] at this
    exact this.symm
  have hhas : ∀ e j, c.Has ROOTDEV e j → (j = i ∧ e = b) ∨ (j ≠ i ∧ s.bcache.Has ROOTDEV e j) := by
    intro e j hj
    by_cases hji : j = i
    · subst hji
      exact .inl ⟨rfl, by rw [← hj.2, hi]⟩
    · exact .inr ⟨hji, by simpa only [Bcache.Has, hbuf j hji] using hj⟩
  constructor
  case linked => exact hlink
  case uniq =>
    intro j k hj hk hjk
    rcases hhas _ j ⟨hj, rfl⟩ with ⟨rfl, h1⟩ | ⟨hji, h1⟩
    · rcases hhas _ k ⟨hk, rfl⟩ with ⟨rfl, h2⟩ | ⟨hki, h2⟩
      · rfl
      · exact absurd h2 (by rw [← hjk, h1]; exact hno k)
    · rcases hhas _ k ⟨hk, rfl⟩ with ⟨rfl, h2⟩ | ⟨hki, h2⟩
      · exact absurd h1 (by rw [hjk, h2]; exact hno j)
      · exact h.has_inj h1 (by rw [hjk]; exact h2)
  case valid =>
    intro j hj
    by_cases hji : j = i
    · simp [hji, hi]
    · simp only [hbuf j hji] at hj ⊢; exact h.valid j hj
  case foreign =>
    intro j hj
    by_cases hji : j = i
    · exact absurd (by simp [hji, hi]) hj
    · simp only [hbuf j hji] at hj ⊢; exact h.foreign j hj
  case refcnt =>
    intro j hj
    by_cases hji : j = i
    · simp [hji, hi, hPb]
    · simp only [hbuf j hji] at hj ⊢
      rw [h.refcnt j hj]; simp [hji]
  case lock =>
    intro j
    by_cases hji : j = i
    · simp [hji, hi]
    · simp only [hbuf j hji, h.lock j]; simp [hji]
  case dev =>
    intro j hj
    by_cases hji : j = i
    · simp [hji, hi]
    · simp only [hbuf j hji]; exact h.dev j (by simpa [hji] using hj)
  case pinned =>
    intro e he
    obtain ⟨j, hj⟩ := h.pinned e he
    have hji : j ≠ i := fun hji => he (hold e (hji ▸ hj))
    exact ⟨j, by simpa only [Bcache.Has, hbuf j hji] using hj⟩
  case inCache =>
    intro e d he j hj
    rcases hhas e j hj with ⟨rfl, rfl⟩ | ⟨hji, hj'⟩
    · simpa [hi] using h.onDisk e d he fun k hk => absurd hk (hno k)
    · simp only [hbuf j hji]; exact h.inCache e d he j hj'
  case onDisk =>
    intro e d he hz'
    refine h.onDisk e d he fun j hj => ?_
    by_cases hji : j = i
    · rw [hji]; exact hz
    · have := hz' j (by simpa only [Bcache.Has, hbuf j hji] using hj)
      simpa only [hbuf j hji] using this

end

/-- What `bread` gives its caller. -/
structure Got (s s' : Store) (A : ℕ → Option Block) (P : ℕ → UInt32) (H : Finset (Fin NBUF))
    (b : ℕ) (i : Fin NBUF) : Prop where
  rep : Rep s' A P (insert i H)
  fresh : i ∉ H
  blockno : (s'.bcache.buf i).blockno = b
  known : ∀ d, A b = some d → (s'.bcache.buf i).data = d
  clean : P b = 0 → ∀ d, A b = some d → s.disk b = d
  frame : s' = { s with bcache := s'.bcache }
  others : ∀ j ∈ H, s'.bcache.buf j = s.bcache.buf j

namespace Got

variable {s' : Store}

section

variable (g : Got s s' A P H b i)

include g

lemma disk : s'.disk = s.disk := by rw [g.frame]
lemma log : s'.log = s.log := by rw [g.frame]
lemma pid : s'.pid = s.pid := by rw [g.frame]
lemma trace : s'.trace = s.trace := by rw [g.frame]

lemma refcnt : (s'.bcache.buf i).refcnt = P b + 1 := by
  have hi : i ∈ insert i H := Finset.mem_insert_self i H
  rw [g.rep.refcnt i (g.rep.dev i hi), g.blockno, if_pos hi]

end

end Got

/-- **`bread` returns a held buffer with what is known of the block**, and fails only for
want of a buffer. -/
lemma bread_spec (h : Rep s A P H) (hb : ∀ i ∈ H, (s.bcache.buf i).blockno ≠ b)
    (hH : ∀ i ∈ H, (s.bcache.buf i).refcnt ≠ 0) (hP : P b + 1 ≠ 0) :
    wp (bread ROOTDEV b : IoM (Fin NBUF)) (fun i s' => Got s s' A P H b i)
      (fun e s' => e = .panic "bget: no buffers" ∧ s' = s ∧ (∀ i, (s.bcache.buf i).refcnt ≠ 0) ∧
        ∀ i, ¬ s.bcache.Has ROOTDEV b i) s := by
  have hclean : P b = 0 → ∀ d, A b = some d → s.disk b = d := fun hPb d hd =>
    h.onDisk b d hd fun j hj => by
      rw [h.refcnt j hj.1, hj.2, hPb, if_neg fun hjH => hb j hjH hj.2]; rfl
  unfold bread bget
  simp only [wp_bind, monadLift_self, bgetLocked, wp_get]
  rcases bgetCs_cases h.linked s.pid ROOTDEV b with ⟨i, hi, heq⟩ | ⟨hno, i, hz, heq⟩ | ⟨hno, hall, heq⟩
  · -- cached
    have hiH : i ∉ H := fun hiH => hb i hiH hi.2
    have hlock : (s.bcache.buf i).lock = none := by rw [h.lock i, if_neg hiH]
    have hval := h.valid i hi.1
    simp only [heq, wp_bind, wp_set, acquiresleep, fill, wp_get, wp_throwIf, setBuf, wp_modify, wp_pure,
      wp_doIf]
    refine ⟨fun hl => absurd hl (by simp [getRef, hlock]), fun _ =>
      ⟨fun hv => absurd hv (by simp [getRef, hval]), fun _ => ?_⟩⟩
    have hrep := h.hit hi hiH hP
    refine ⟨hrep, hiH, by simpa [getRef] using hi.2, fun d hd => ?_, hclean, rfl, fun j hj => ?_⟩
    · simpa [getRef] using h.inCache b d hd i hi
    · have hji : j ≠ i := fun hji => hiH (hji ▸ hj)
      simp only [set_buf_of_ne _ _ hji]
  · -- an unused buffer is recycled
    have hiH : i ∉ H := fun hiH => hH i hiH hz
    have hlock : (s.bcache.buf i).lock = none := by rw [h.lock i, if_neg hiH]
    simp only [heq, wp_bind, wp_set, acquiresleep, fill, wp_get, wp_throwIf, setBuf, wp_modify, wp_pure,
      wp_doIf, diskRead]
    refine ⟨fun hl => absurd hl (by simp [recycle, hlock]), fun _ =>
      ⟨fun _ => ?_, fun hv => absurd hv (by simp [recycle])⟩⟩
    have hrep : Rep { s with bcache := _ } A P (insert i H) :=
      h.miss hno hz hH (u := s.pid :: (s.bcache.buf i).users) (c := (((s.bcache.set i (recycle s.pid ROOTDEV b)).set i fun x =>
        { x with lock := some s.pid }).set i fun x => { x with data := s.disk x.blockno }).set i
        fun x => { x with valid := true }) h.linked
        (fun j hj => by simp only [set_buf_of_ne _ _ hj]) rfl (by simp [recycle])
    refine ⟨hrep, hiH, by simp [recycle], fun d hd => ?_, hclean, rfl, fun j hj => ?_⟩
    · exact hrep.inCache b d hd i (by simp [Bcache.Has, recycle])
    · have hji : j ≠ i := fun hji => hiH (hji ▸ hj)
      simp only [set_buf_of_ne _ _ hji]
  · simp only [heq, wp_throw]
    exact ⟨trivial, trivial, hall, hno⟩

/-- **`brelse` gives a held buffer back.** -/
lemma brelse_spec (h : Rep s A P H) (hi : i ∈ H)
    (hb : (s.bcache.buf i).blockno = b) (hd : P b = 0 → ∀ d, A b = some d → s.disk b = d)
    {E : Stop → Store → Prop} :
    wp (brelse i : IoM Unit) (fun _ s' => Rep s' A P (H.erase i) ∧ s' = { s with bcache := s'.bcache } ∧
      (∀ j, j ≠ i → s'.bcache.buf j = s.bcache.buf j) ∧ s'.bcache.Has ROOTDEV b i) E s := by
  have hlock : (s.bcache.buf i).lock = some s.pid := by rw [h.lock i, if_pos hi]
  unfold brelse
  simp only [wp_bind, monadLift_self, brelseUnlock, brelseLocked, wp_get, holdingsleep, wp_pure,
    panicIf, releasesleep, setBuf, wp_modify, wp_throwIf, hlock]
  refine ⟨fun hl => by simp at hl, fun _ => ⟨h.release hi hb hd, trivial, fun j hj => ?_, ?_⟩⟩
  · simp only [brelseCs_buf, set_buf_of_ne _ _ hj]
  · simp only [Bcache.Has, brelseCs_buf, set_buf_self, putRef]
    exact ⟨h.dev i hi, hb⟩

/-- **`bwrite` of a held buffer writes its contents to its block.** -/
lemma bwrite_spec (h : Rep s A P H) (hi : i ∈ H)
    (hb : (s.bcache.buf i).blockno = b) {E : Stop → Store → Prop} :
    wp (bwrite i) (fun _ s' => Rep s' A P H ∧
      s' = { s with disk := update s.disk b (s.bcache.buf i).data
                    trace := s.trace ++ [.write b (s.bcache.buf i).data] }) E s := by
  have hlock : (s.bcache.buf i).lock = some s.pid := by rw [h.lock i, if_pos hi]
  unfold bwrite
  simp only [wp_bind, wp_get, holdingsleep, wp_pure, panicIf, wp_modify, wp_throwIf, hlock, diskWrite]
  refine ⟨fun hl => by simp at hl, fun _ => ?_⟩
  rw [hb]
  exact ⟨h.write hi hb _, rfl⟩

/-! ### Room in the cache -/

/-- A buffer is unused as long as the blocks that are owed a count and the held buffers
are fewer than the buffers. -/
lemma Rep.exists_free (h : Rep s A P H) {L : List ℕ} (hL : ∀ b, P b ≠ 0 → b ∈ L)
    (hlen : L.length + H.card < NBUF) : ∃ i, (s.bcache.buf i).refcnt = 0 := by
  by_contra hno
  push Not at hno
  have hdev : ∀ i, (s.bcache.buf i).dev = ROOTDEV := fun i =>
    by_contra fun hd => hno i (h.foreign i hd)
  have hmem : ∀ i ∈ Finset.univ \ H, (s.bcache.buf i).blockno ∈ L.toFinset := by
    intro i hi
    have hiH : i ∉ H := by simpa using hi
    have := h.refcnt i (hdev i)
    rw [if_neg hiH, UInt32.add_zero] at this
    exact List.mem_toFinset.mpr (hL _ (this ▸ hno i))
  have hcard := Finset.card_le_card_of_injOn (fun i => (s.bcache.buf i).blockno) hmem
    (fun i _ j _ hij => h.uniq i j (hdev i) (hdev j) hij)
  have h1 := Finset.card_sdiff_add_card_inter Finset.univ H
  have h2 := List.toFinset_card_le L
  simp only [Finset.univ_inter, Finset.card_univ, Fintype.card_fin] at h1
  omega

/-- Blocks that are owed a count and held buffers of other blocks are all in the cache. -/
lemma Rep.length_le (h : Rep s A P H) {L : List ℕ} (hnd : L.Nodup) (hL : ∀ b ∈ L, P b ≠ 0)
    (hH : ∀ i ∈ H, (s.bcache.buf i).blockno ∉ L) : L.length + H.card ≤ NBUF := by
  classical
  have hex : ∀ b ∈ L, ∃ i, s.bcache.Has ROOTDEV b i := fun b hb => h.pinned b (hL b hb)
  choose! f hf using hex
  have himg : (L.toFinset.image f).card = L.length := by
    rw [Finset.card_image_of_injOn, List.toFinset_card_of_nodup hnd]
    intro a ha b hb hab
    have ha' := hf a (by simpa using ha)
    have hb' := hf b (by simpa using hb)
    rw [← ha'.2, ← hb'.2, hab]
  have hdisj : Disjoint (L.toFinset.image f) H := by
    rw [Finset.disjoint_left]
    intro i hi hiH
    obtain ⟨b, hb, rfl⟩ := Finset.mem_image.mp hi
    have hb' : b ∈ L := by simpa using hb
    exact hH _ hiH (by rw [(hf b hb').2]; exact hb')
  rw [← himg, ← Finset.card_union_of_disjoint hdisj]
  exact (Finset.card_le_univ _).trans_eq (Fintype.card_fin _)

end Xv6.IoSpec
