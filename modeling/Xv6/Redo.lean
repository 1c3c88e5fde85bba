import Xv6.Io

/-!
The redo log on disk: what recovery makes of a disk, and which single writes leave that
unchanged.

A disk is sound for a target when running recovery on it would give the target outside the
log. The commit point is the one write that changes the target; every write before it goes
to a log slot, and every write after it copies a slot to its home or clears the header.
-/

namespace Xv6.Redo

open LogState Io Function List

/-- The log occupies the `size` blocks from `start`. -/
def InLog (start size b : ℕ) : Prop := start ≤ b ∧ b < start + size

instance (start size b : ℕ) : Decidable (InLog start size b) :=
  inferInstanceAs (Decidable (_ ∧ _))

/-- Home blocks take the contents of the log slot of their header entry. -/
def recovered (start : ℕ) (d : Disk) : Disk := fun b =>
  if b ∈ headBlocks (d start) then d (start + (headBlocks (d start)).idxOf b + 1) else d b

/-- Recovery from `d` can run and gives `t` outside the log. -/
structure Sound (start size : ℕ) (t d : Disk) : Prop where
  bound : (headBlocks (d start)).length < NBUF
  room : (headBlocks (d start)).length < size
  nodup : (headBlocks (d start)).Nodup
  home : ∀ b ∈ headBlocks (d start), ¬ InLog start size b
  target : ∀ b, ¬ InLog start size b → recovered start d b = t b

variable {start size : ℕ} {t t' d : Disk}

lemma recovered_of_nil (h : headBlocks (d start) = []) : recovered start d = d := by
  funext b
  simp [recovered, h]

lemma sound_of_nil (hs : 0 < size) (h : headBlocks (d start) = [])
    (ht : ∀ b, ¬ InLog start size b → d b = t b) : Sound start size t d where
  bound := by simp [h]
  room := by simpa [h] using hs
  nodup := by simp [h]
  home := by simp [h]
  target := fun b hb => by rw [recovered_of_nil h]; exact ht b hb

lemma headBlocks_eq_nil {x : Block} (h : headN x = 0) : headBlocks x = [] := by
  simp [headBlocks, h]

lemma sound_slot (hs : 0 < size) (h : headBlocks (d start) = [])
    (ht : ∀ b, ¬ InLog start size b → d b = t b) {b : ℕ} (hb : InLog start size b)
    (hne : b ≠ start) (v : Block) : Sound start size t (update d b v) := by
  refine sound_of_nil hs ?_ fun c hc => ?_
  · rw [update_of_ne hne.symm]; exact h
  · have hcb : c ≠ b := fun e => hc (e ▸ hb)
    rw [update_of_ne hcb]; exact ht c hc

lemma headBlock_mem {x : Block} {i : ℕ} (hi : i < (headBlocks x).length) :
    headBlock x i ∈ headBlocks x :=
  mem_map_of_mem (mem_range.mpr (by simpa [headBlocks] using hi))

lemma headBlock_idxOf {x : Block} {b : ℕ} (hb : b ∈ headBlocks x) :
    headBlock x ((headBlocks x).idxOf b) = b := by
  have hi := idxOf_lt_length_of_mem hb
  have hget : (headBlocks x)[(headBlocks x).idxOf b] = headBlock x ((headBlocks x).idxOf b) := by
    simp only [headBlocks, getElem_map, getElem_range]
  rw [← hget, getElem_idxOf]

/-- The write of the header commits the blocks it lists, with the contents of their
slots. -/
lemma sound_commit {hd : Block} {v : ℕ → Block} (hbound : (headBlocks hd).length < NBUF)
    (hroom : (headBlocks hd).length < size) (hnd : (headBlocks hd).Nodup)
    (hhome : ∀ b ∈ headBlocks hd, ¬ InLog start size b)
    (hslot : ∀ i < (headBlocks hd).length, d (start + i + 1) = v (headBlock hd i))
    (ht : ∀ b, ¬ InLog start size b → t b = if b ∈ headBlocks hd then v b else d b) :
    Sound start size t (update d start hd) := by
  have hs : update d start hd start = hd := by simp
  constructor
  case bound => rw [hs]; exact hbound
  case room => rw [hs]; exact hroom
  case nodup => rw [hs]; exact hnd
  case home => rw [hs]; exact hhome
  case target =>
    intro b hb
    rw [recovered, hs, ht b hb]
    by_cases hm : b ∈ headBlocks hd
    · have hi := idxOf_lt_length_of_mem hm
      rw [if_pos hm, if_pos hm, update_of_ne (by omega), hslot _ hi, headBlock_idxOf hm]
    · have hne : b ≠ start := fun e => hb ⟨by omega, by omega⟩
      rw [if_neg hm, if_neg hm, update_of_ne hne]

lemma sound_install (h : Sound start size t d) {i : ℕ} (hi : i < (headBlocks (d start)).length) :
    Sound start size t (update d (headBlock (d start) i) (d (start + i + 1))) := by
  have hmem := headBlock_mem hi
  have hhome := h.home _ hmem
  have hroom := h.room
  have hne : ∀ b, InLog start size b → b ≠ headBlock (d start) i := fun b hb e => hhome (e ▸ hb)
  have hs : update d (headBlock (d start) i) (d (start + i + 1)) start = d start :=
    update_of_ne (hne start ⟨le_rfl, by omega⟩) _ _
  constructor
  case bound => rw [hs]; exact h.bound
  case room => rw [hs]; exact h.room
  case nodup => rw [hs]; exact h.nodup
  case home => rw [hs]; exact h.home
  case target =>
    intro b hb
    rw [← h.target b hb, recovered, recovered, hs]
    by_cases hm : b ∈ headBlocks (d start)
    · have hj := idxOf_lt_length_of_mem hm
      rw [if_pos hm, if_pos hm, update_of_ne (hne _ ⟨by omega, by omega⟩)]
    · have : b ≠ headBlock (d start) i := fun e => hm (e ▸ hmem)
      rw [if_neg hm, if_neg hm, update_of_ne this]

lemma sound_clear (h : Sound start size t d)
    (hall : ∀ i < (headBlocks (d start)).length, d (headBlock (d start) i) = d (start + i + 1))
    {hd : Block} (hhd : headBlocks hd = []) :
    Sound start size t (update d start hd) := by
  have hroom := h.room
  refine sound_of_nil (by omega) (by simpa using hhd) fun b hb => ?_
  have hne : b ≠ start := fun e => hb ⟨by omega, by omega⟩
  rw [update_of_ne hne, ← h.target b hb, recovered]
  split
  · rename_i hm
    have := hall _ (idxOf_lt_length_of_mem hm)
    rwa [headBlock_idxOf hm] at this
  · rfl

/-! ### The disks a run has had -/

/-- The disk after the writes of a trace. -/
def replay (tr : List Event) (d : Disk) : Disk :=
  tr.foldl (fun d e => match e with
    | .write b x => update d b x
    | _ => d) d

lemma replay_append (tr tr' : List Event) (d : Disk) :
    replay (tr ++ tr') d = replay tr' (replay tr d) := by
  simp [replay, foldl_append]

/-- Starting from disk `d₀` the machine now has the disk of `s`, and all the disks it has
had satisfy `Φ`. -/
structure Hist (d₀ : Disk) (Φ : Disk → Prop) (s : Store) : Prop where
  disk : s.disk = replay s.trace d₀
  all : ∀ p, p <+: s.trace → Φ (replay p d₀)

variable {d₀ : Disk} {Φ : Disk → Prop} {s : Store}

lemma hist_nil (h : Φ s.disk) (htr : s.trace = []) : Hist s.disk Φ s where
  disk := by rw [htr]; rfl
  all := fun p hp => by
    rw [htr, prefix_nil] at hp
    subst hp; exact h

section

variable {s' : Store} (h : Hist d₀ Φ s)

include h

lemma Hist.now : Φ s.disk := h.disk ▸ h.all _ (prefix_refl _)

lemma Hist.congr (hd : s'.disk = s.disk) (ht : s'.trace = s.trace) : Hist d₀ Φ s' where
  disk := by rw [hd, ht]; exact h.disk
  all := by rw [ht]; exact h.all

lemma Hist.write {b : ℕ} {x : Block} (hd : s'.disk = update s.disk b x)
    (ht : s'.trace = s.trace ++ [.write b x]) (hΦ : Φ (update s.disk b x)) : Hist d₀ Φ s' := by
  have hdisk : replay (s.trace ++ [.write b x]) d₀ = update s.disk b x := by
    rw [replay_append, ← h.disk]; rfl
  refine ⟨by rw [hd, ht, hdisk], fun p hp => ?_⟩
  rw [ht] at hp
  rcases prefix_concat_iff.mp hp with rfl | hp
  · rw [hdisk]; exact hΦ
  · exact h.all p hp

lemma Hist.quiet {e : Event} (he : ∀ d, replay [e] d = d) (hd : s'.disk = s.disk)
    (ht : s'.trace = s.trace ++ [e]) : Hist d₀ Φ s' := by
  have hdisk : replay (s.trace ++ [e]) d₀ = s.disk := by
    rw [replay_append, ← h.disk, he]
  refine ⟨by rw [hd, ht, hdisk], fun p hp => ?_⟩
  rw [ht] at hp
  rcases prefix_concat_iff.mp hp with rfl | hp
  · rw [hdisk]; exact h.now
  · exact h.all p hp

end

end Xv6.Redo
