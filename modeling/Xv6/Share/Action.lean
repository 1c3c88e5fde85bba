import Xv6.Share.Log
import Xv6.IoSpec

/-!
What each action does to the hands and the role of the process that runs it. Every action
keeps the invariant of the machine.
-/

namespace Xv6.Share

open Lib.Wp Lib.Conc Bio LogState Io IoSpec Protocol Machine Redo Function

variable {N : ℕ} {c : Conf} {p : Fin N} {l : Local} {i : Fin NBUF} {b : ℕ} {m : Com} {φ : Phase}

/-- Process `p` can run `x`. -/
abbrev Ok {α : Type} (c : Conf) (p : Fin N) (x : Code α) (Q : α → Local → Prop) (l : Local) : Prop :=
  Safe (Inv c) (fun _ _ => True) view (Stuck c) p x Q l

/-- The hands of a process after a step, its role being the same. -/
def Local.withHands (l : Local) (k : Hands) : Local := ⟨k, l.role⟩

/-- The committer after a step. -/
def Local.withCom (l : Local) (m : Com) : Local := ⟨l.hands, { l.role with com := some m }⟩

section

variable (l : Local)

@[simp] lemma withHands_hands (k : Hands) : (l.withHands k).hands = k := rfl
@[simp] lemma withHands_withHands (k k' : Hands) :
    (l.withHands k).withHands k' = l.withHands k' := rfl
@[simp] lemma withCom_withCom (m m' : Com) :
    (l.withCom m).withCom m' = l.withCom m' := rfl
@[simp] lemma withCom_withHands (m : Com) (k : Hands) :
    (l.withCom m).withHands k = (l.withHands k).withCom m := rfl
@[simp] lemma withHands_self : l.withHands l.hands = l := rfl
@[simp] lemma withCom_hands (m : Com) : (l.withCom m).hands = l.hands := rfl
@[simp] lemma withCom_com (m : Com) : (l.withCom m).role.com = some m := rfl

end

/-! ### Getting and releasing a buffer -/

/-- Block `b` is in the cache besides the pinned blocks. -/
def Room (l : Local) (b : ℕ) : Prop :=
  ∀ m, l.role.com = some m → b ∉ m.pins → m.pins.length < NBUF

lemma safe_bgetLocked (hN : 3 * N + 1 < 2 ^ 32) (hw : l.hands.want = none) (b : ℕ) :
    Ok c p (liftM (bgetLocked ROOTDEV b)) (fun i l' =>
      l' = l.withHands { l.hands with want := some (i, b) } ∧ Room l b) l := by
  refine safe_lift ?_
  rintro s ℓ ⟨V, pins, hC, hL⟩ rfl
  have room : ∀ {c' : Bcache} {i : Fin NBUF} {k : Hands}, k.want = some (i, b) →
      Cache c' s.disk (update (Local.hands ∘ ℓ) p k) V pins → Room (ℓ p) b := by
    intro c' i k hk hC' m hm hb
    have ho := hL.owned hm
    rw [ho.is_pins] at hb ⊢
    exact hC'.pins_lt (hC'.want p i b (by rw [update_self]; exact hk)) hb
  unfold bgetLocked
  simp only [wp_bind, wp_get, view]
  rcases bgetCs_cases hC.linked p ROOTDEV b with ⟨i, hi, heq⟩ | ⟨hno, i, hz, heq⟩ | ⟨-, -, heq⟩
  · simp only [heq, wp_bind, wp_set, wp_pure]
    have hC' := hC.hit (p := p) hi hw
    exact ⟨_, inv_hands hC' hL rfl rfl, rfl, room rfl hC'⟩
  · simp only [heq, wp_bind, wp_set, wp_pure]
    have hC' := hC.recycle (p := p) hN hno hz hw
    exact ⟨_, inv_hands hC' hL rfl rfl, rfl, room rfl hC'⟩
  · simp only [heq, wp_throw]
    exact Stuck.noBuf _

lemma safe_acquiresleep (hw : l.hands.want = some (i, b)) :
    Ok c p (liftM (acquiresleep i)) (fun _ l' => l.hands.st i = none ∧
      l' = l.withHands { l.hands.hold i b .raw with want := none }) l := by
  refine safe_lift ?_
  rintro s ℓ ⟨V, pins, hC, hL⟩ rfl
  unfold acquiresleep
  simp only [wp_bind, wp_get, wp_throwIf, setBuf, wp_modify, view]
  refine ⟨fun _ => Stuck.hang _, fun hl => ?_⟩
  obtain ⟨hst, hC'⟩ := hC.acquire (p := p) hw (by simpa using hl)
  exact ⟨_, inv_hands hC' hL rfl rfl, hst, rfl⟩

lemma safe_fill (hst : l.hands.st i = some (b, .raw)) :
    Ok c p (liftM (fill i)) (fun _ l' => l' = l.withHands (l.hands.hold i b .clean)) l := by
  refine safe_lift ?_
  rintro s ℓ ⟨V, pins, hC, hL⟩ rfl
  obtain ⟨hi, -⟩ := hC.held p i b _ hst
  have hC' := hC.fill (p := p) hst
  unfold fill
  simp only [wp_bind, wp_get, wp_doIf, diskRead, setBuf, wp_modify, view]
  refine ⟨fun hv => ?_, fun hv => ?_⟩
  · rw [if_neg (by simpa using hv)] at hC'
    refine ⟨_, inv_hands ?_ hL rfl rfl, rfl⟩
    rw [set_set, set_congr _ (g := fun y => { y with data := s.disk b, valid := true })]
    · exact hC'
    · rw [hi.2]
  · rw [if_pos (by simpa using hv)] at hC'
    exact ⟨_, inv_hands hC' hL rfl rfl, rfl⟩

lemma safe_brelseUnlock (hst : l.hands.st i = some (b, φ)) (hph : ∀ x, φ ≠ .dirty x)
    (hg : l.hands.gone = none) :
    Ok c p (liftM (brelseUnlock i)) (fun _ l' =>
      l' = l.withHands { l.hands.drop i with gone := some i }) l := by
  refine safe_lift ?_
  rintro s ℓ ⟨V, pins, hC, hL⟩ rfl
  have hlock : (s.bcache.buf i).lock = some p.val :=
    (hC.lock i p).mpr ⟨p, rfl, by show ((ℓ p).hands.st i).isSome; rw [hst]; rfl⟩
  unfold brelseUnlock
  simp only [wp_bind, wp_get, holdingsleep, wp_pure, panicIf, releasesleep, setBuf, wp_modify,
    wp_throwIf, hlock, view]
  refine ⟨fun hl => by simp at hl, fun _ => ?_⟩
  exact ⟨_, inv_hands (hC.unlock (p := p) hst hph hg) hL rfl rfl, rfl⟩

lemma safe_brelseLocked (hg : l.hands.gone = some i) :
    Ok c p (liftM (brelseLocked i)) (fun _ l' => l' = l.withHands { l.hands with gone := none }) l := by
  refine safe_lift ?_
  rintro s ℓ ⟨V, pins, hC, hL⟩ rfl
  exact ⟨_, inv_hands (hC.release (p := p) hg) hL rfl rfl, rfl⟩

/-- **`bread` gives the process a clean buffer of the block.** -/
lemma safe_bread (hN : 3 * N + 1 < 2 ^ 32) (hw : l.hands.want = none) (b : ℕ) :
    Ok c p (bread ROOTDEV b) (fun i l' => l.hands.st i = none ∧
      l' = l.withHands (l.hands.hold i b .clean) ∧ Room l b) l := by
  unfold bread bget
  refine Safe.bind (Q := fun i l' => l.hands.st i = none ∧
    l' = l.withHands (l.hands.hold i b .raw) ∧ Room l b) ?_ ?_
  · refine Safe.bind (safe_bgetLocked hN hw b) ?_
    rintro i _ ⟨rfl, hroom⟩
    refine Safe.bind (safe_acquiresleep (i := i) (b := b) rfl) ?_
    rintro _ _ ⟨hst, rfl⟩
    refine safe_pure ⟨hst, ?_, hroom⟩
    simp only [Local.withHands, Hands.hold, hw]
  · rintro i _ ⟨hst, rfl, hroom⟩
    refine Safe.bind (safe_fill (i := i) (b := b) (by simp)) ?_
    rintro _ _ rfl
    refine safe_pure ⟨hst, ?_, hroom⟩
    simp only [Local.withHands, Hands.hold, update_idem]

/-- **`brelse` takes a buffer that is not dirty from the process.** -/
lemma safe_brelse (hst : l.hands.st i = some (b, φ)) (hph : ∀ x, φ ≠ .dirty x)
    (hg : l.hands.gone = none) :
    Ok c p (brelse i) (fun _ l' => l' = l.withHands (l.hands.drop i)) l := by
  unfold brelse
  refine Safe.bind (safe_brelseUnlock hst hph hg) ?_
  rintro _ _ rfl
  refine Safe.mono (safe_brelseLocked (i := i) rfl) ?_
  rintro _ _ rfl
  simp only [Local.withHands, Hands.drop, hg]

/-! ### Actions of the committer -/

lemma safe_read {α : Type} {x : IoM α} {Q : α → Local → Prop}
    (h : ∀ s ℓ V pins, Cache s.bcache s.disk (Local.hands ∘ ℓ) V pins →
      LogInv c s.log s.trace (Local.role ∘ ℓ) V pins → ℓ p = l →
      wp x (fun a s' => s' = view p s ∧ Q a l) (Stuck c) (view p s)) :
    Ok c p (liftM x) Q l := by
  refine safe_lift ?_
  rintro s ℓ ⟨V, pins, hC, hL⟩ rfl
  refine wp_mono (h s ℓ V pins hC hL rfl) ?_ (fun _ _ h => h)
  rintro a _ ⟨rfl, hQ⟩
  exact ⟨ℓ p, inv_same ⟨V, pins, hC, hL⟩ rfl rfl rfl rfl, hQ⟩

lemma safe_getLog (hm : l.role.com = some m) :
    Ok c p (liftM getLog) (fun a l' => a = m.log ∧ l' = l) l := by
  refine safe_read ?_
  rintro s ℓ V pins - hL rfl
  exact ⟨rfl, (hL.owned hm).is_log.symm, rfl⟩

lemma safe_lhMore (hm : l.role.com = some m) (tail : ℕ) {n : ℕ} (hn : m.log.lh.n.toNat = n) :
    Ok c p (liftM (lhMore tail)) (fun a l' => (a = true ↔ tail < n) ∧ l' = l) l := by
  refine safe_read ?_
  rintro s ℓ V pins - hL rfl
  have ho := hL.owned hm
  have := wp_lhMore (s := view p s) (E := Stuck c) tail (n := n) (by
    show s.log.lh.n.toNat = n
    rw [← ho.is_log]; exact hn)
  exact wp_mono this (fun _ _ h => ⟨h.2, h.1, rfl⟩) (fun _ _ h => h)

lemma safe_lhBlock (hm : l.role.com = some m) {tail : ℕ} (ht : tail < LOGSIZE) :
    Ok c p (liftM (lhBlock tail)) (fun a l' => a = m.log.lh.block tail ∧ l' = l) l := by
  refine safe_read ?_
  rintro s ℓ V pins - hL rfl
  rw [wp_lhBlock ht]
  exact ⟨rfl, by rw [(hL.owned hm).is_log]; rfl, rfl⟩

lemma valid_of_ok {bc : Bcache} {d V : Disk} (h : φ.Ok bc d V i b) (hph : φ ≠ .raw) :
    (bc.buf i).valid = true := by
  cases φ with
  | raw => exact absurd rfl hph
  | clean => exact h
  | dirty x | synced => exact h.1

section

variable (hm : l.role.com = some m)

include hm

lemma safe_memmove {dst src : Fin NBUF} {e : ℕ} (hdst : l.hands.st dst = some (b, .clean))
    (hsrc : l.hands.st src = some (e, .clean)) :
    Ok c p (liftM (memmove dst src)) (fun _ l' =>
      l' = l.withHands (l.hands.hold dst b (.dirty (m.V e)))) l := by
  refine safe_lift ?_
  rintro s ℓ ⟨V, pins, hC, hL⟩ rfl
  have hdata : (s.bcache.buf src).data = V e :=
    hC.data_eq hsrc (by simp) (hC.held p src e _ hsrc).2
  rw [wp_memmove]
  simp only [view, hdata, (hL.owned hm).is_V]
  exact ⟨_, inv_hands (hC.setData (p := p) hdst (hC.held p dst b _ hdst).2 (V e)) hL rfl rfl, rfl⟩

lemma safe_giveHead (hst : l.hands.st i = some (b, .clean)) :
    Ok c p (liftM (giveHead i)) (fun _ l' =>
      l' = l.withHands (l.hands.hold i b (.dirty (putHead (m.V b) m.log.lh)))) l := by
  refine safe_lift ?_
  rintro s ℓ ⟨V, pins, hC, hL⟩ rfl
  have ho := hL.owned hm
  have hdata : (s.bcache.buf i).data = V b :=
    hC.data_eq hst (by simp) (hC.held p i b _ hst).2
  rw [wp_giveHead]
  simp only [view, hdata, ho.is_V, ho.is_log]
  exact ⟨_, inv_hands (hC.setData (p := p) hst (hC.held p i b _ hst).2 _) hL rfl rfl, rfl⟩

/-- What the committer writes next to block `b`, if that is a slot of the log. -/
def Com.SlotOk (m : Com) (c : Conf) (b : ℕ) (x : Block) : Prop :=
  Good c → ∀ p L j e, ctl c.start m.trace = some (.commit p L j) → L[j]? = some e →
    InLog c.start c.size b ∧ ¬ InLog c.start c.size e ∧ x = m.V e

/-- The committer writes a block, as planned; a block outside the log gets the contents it
had. -/
lemma safe_bwrite {x : Block} (hst : l.hands.st i = some (b, .dirty x))
    (hctl : m.CtlOk c p (m.trace ++ [.write b x]))
    (hhome : Good c → ¬ InLog c.start c.size b → m.V b = x) (hslot : m.SlotOk c b x) :
    Ok c p (liftM (bwrite i)) (fun _ l' => l' = (l.withHands (l.hands.hold i b .synced)).withCom
      { m with V := update m.V b x, trace := m.trace ++ [.write b x] }) l := by
  refine safe_lift ?_
  rintro s ℓ ⟨V, pins, hC, hL⟩ rfl
  have ho := hL.owned hm
  obtain ⟨hi, -, hx⟩ := hC.held p i b _ hst
  have hlock : (s.bcache.buf i).lock = some p.val :=
    (hC.lock i p).mpr ⟨p, rfl, by show ((ℓ p).hands.st i).isSome; rw [hst]; rfl⟩
  unfold bwrite
  simp only [wp_bind, wp_get, holdingsleep, wp_pure, panicIf, diskWrite, wp_modify, wp_throwIf,
    hlock, view, hi.2, hx]
  refine ⟨fun hl => by simp at hl, fun _ => ?_⟩
  have hO := ho.change s.log (s.trace ++ [.write b x]) (update V b x) pins
    ho.outstanding ho.committing (by rw [← ho.is_trace]; exact hctl) ho.drop
  refine ⟨_, inv_both (hC.write (p := p) hst) ⟨.inr ⟨p, _, hO⟩, hL.told.snoc (by simp) ?_ ?_ trivial⟩, ?_⟩
  · intro hg e he
    by_cases heb : e = b
    · subst heb
      rw [update_self, ← ho.is_V]
      exact (hhome hg he).symm
    · rw [update_of_ne heb]
  · intro hg q L j e hctl hj
    rw [← ho.is_trace] at hctl
    obtain ⟨hin, hout, hx⟩ := hslot hg q L j e hctl hj
    rw [hx, ho.is_V]
    exact ⟨hin, hL.told.latest hg e hout⟩
  · simp only [Local.withCom, Local.withHands, ho.is_log, ho.is_V, ho.is_pins, ho.is_trace]
    rfl

lemma safe_unpin {rest : List ℕ} (hst : l.hands.st i = some (b, .synced))
    (hpins : m.pins = b :: rest) (hdrop : ∃ j, rest = m.log.lh.blocks.drop j)
    (hboot : m.boot = false) :
    Ok c p (liftM (unpin i)) (fun _ l' => l' = l.withCom { m with pins := rest }) l := by
  refine safe_lift ?_
  rintro s ℓ ⟨V, pins, hC, hL⟩ rfl
  have ho := hL.owned hm
  rw [← ho.is_pins, hpins] at hC
  have hC' := hC.unpin (p := p) hst
  have hsame : (ℓ p).hands.hold i b .synced = (ℓ p).hands := by
    unfold Hands.hold
    rw [← hst, update_eq_self]
  rw [show (Local.hands ∘ ℓ) p = (ℓ p).hands from rfl, hsame] at hC'
  have hO := ho.change s.log s.trace V rest ho.outstanding ho.committing ho.at_ctl
    (by
      obtain ⟨j, hj⟩ := hdrop
      exact ⟨j, fun hb => absurd hb (by simp [hboot]), by rw [← ho.is_log]; exact hj⟩)
  refine ⟨_, inv_both hC' ⟨.inr ⟨p, _, hO⟩, hL.told⟩, ?_⟩
  simp only [Local.withCom, ho.is_log, ho.is_V, ho.is_trace]
  rfl

lemma safe_clearHead (hpins : m.pins = []) :
    Ok c p (liftM clearHead) (fun _ l' => l' = l.withCom
      { m with log := { m.log with lh := { m.log.lh with n := 0 } } }) l := by
  refine safe_lift ?_
  rintro s ℓ ⟨V, pins, hC, hL⟩ rfl
  have ho := hL.owned hm
  rw [wp_clearHead]
  simp only [view]
  have hO := ho.change { s.log with lh := { s.log.lh with n := 0 } } s.trace V pins
    ho.outstanding ho.committing ho.at_ctl
    ⟨0, fun _ => rfl, by rw [← ho.is_pins, hpins]; simp [LogHeader.blocks]⟩
  refine ⟨_, inv_role hC ⟨.inr ⟨p, _, hO⟩, hL.told⟩, ?_⟩
  simp only [Local.withCom, ho.is_log, ho.is_V, ho.is_trace, ho.is_pins]
  rfl

end

end Xv6.Share
