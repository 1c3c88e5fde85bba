import Xv6.Fs.Dir

/-!
Programs that touch neither references nor locks of inodes, nor files or processes. They can be
run on a disk of which nothing is known.
-/

namespace Xv6.Fs

open Lib.Wp Lib.Conc Lib.Bytes Function

variable {N : ℕ} {α β : Type}

/-- Panics that cannot happen. -/
def never : List String := ["filedup", "fileclose", "ilock", "iunlock", "log.committing"]

/-- How a process that holds no spin lock can stop. -/
def Allowed (e : Halt) (s : World N) : Prop := match e with
  | .panic msg => msg ∉ never
  | .wait _ => s.spin s.cur = []
  | .sched _ => False
  | .undefined => False

/-- The states agree on references, locks, files and processes. -/
structure Same (s t : World N) : Prop where
  cur : t.cur = s.cur
  outstanding : t.log.outstanding = s.log.outstanding
  committing : t.log.committing = s.log.committing
  op : t.op = s.op
  com : t.com = s.com
  spin : t.spin = s.spin
  dev : ∀ j, (t.inode j).dev = (s.inode j).dev
  inum : ∀ j, (t.inode j).inum = (s.inode j).inum
  ref : ∀ j, (t.inode j).ref = (s.inode j).ref
  lock : ∀ j, (t.inode j).lock = (s.inode j).lock
  file : t.file = s.file
  ofile : t.ofile = s.ofile
  cwd : t.cwd = s.cwd

lemma Same.refl (s : World N) : Same s s :=
  ⟨rfl, rfl, rfl, rfl, rfl, rfl, fun _ => rfl, fun _ => rfl, fun _ => rfl, fun _ => rfl, rfl, rfl,
    rfl⟩

/-- Every action of the program leaves the states the same, and what it returns satisfies `P`. -/
def Keeps : Code N α → (α → Prop) → Prop
  | .ret a, P => P a
  | .act x k, P => ∀ s : World N, s.spin s.cur = [] →
      wp x (fun b t => Same s t ∧ Keeps (k b) P) Allowed s

/-- The same for what is returned as a whole. -/
abbrev KeepsAll (x : Code N α) : Prop := Keeps x fun _ => True

lemma keeps_pure {a : α} {P : α → Prop} (h : P a) : Keeps (pure a : Code N α) P := h

lemma keeps_ret (a : α) : KeepsAll (pure a : Code N α) := trivial

lemma keeps_lift {x : FsM N α}
    (h : ∀ s : World N, s.spin s.cur = [] → wp x (fun _ t => Same s t) Allowed s) :
    KeepsAll (liftM x : Code N α) := fun s hs =>
  wp_mono (h s hs) (fun _ _ ht => ⟨ht, trivial⟩) fun _ _ he => he

section

variable {x : Code N α} {f : α → Code N β} {P : α → Prop} {Q : β → Prop} (hx : Keeps x P)

include hx

lemma Keeps.bind (hf : ∀ a, P a → Keeps (f a) Q) : Keeps (x >>= f) Q := by
  show Keeps (x.bind f) Q
  induction x with
  | ret a => exact hf a hx
  | act x k ih =>
    intro s hs
    exact wp_mono (hx s hs) (fun b _ ht => ⟨ht.1, ih b ht.2⟩) fun _ _ he => he

lemma Keeps.then (hf : ∀ a, Keeps (f a) Q) : Keeps (x >>= f) Q := hx.bind fun a _ => hf a

lemma Keeps.mono {Q : α → Prop} (h : ∀ a, P a → Q a) :
    Keeps x Q := by
  induction x with
  | ret a => exact h a hx
  | act x k ih =>
    intro s hs
    exact wp_mono (hx s hs) (fun b _ ht => ⟨ht.1, ih b ht.2⟩) fun _ _ he => he

end

lemma keeps_doIf {c : Prop} [Decidable c] {x : Code N Unit} (h : KeepsAll x) :
    KeepsAll (doIf c x) := by
  unfold doIf
  split
  · exact h
  · exact keeps_ret _

lemma keeps_forUp {test : ℕ → Code N Bool} {body : ℕ → Code N Unit}
    (ht : ∀ i, KeepsAll (test i)) (hb : ∀ i, KeepsAll (body i)) (i k : ℕ) :
    KeepsAll (forUp test body i k) := by
  induction k generalizing i with
  | zero => exact keeps_ret _
  | succ k ih =>
    rw [forUp]
    refine (ht i).then fun c => ?_
    split
    · exact (hb i).then fun _ => ih (i + 1)
    · exact keeps_ret _

lemma keeps_loop {A : Type} {out : Code N α} {step : A → Code N (A ⊕ α)} (J : ℕ → A → Prop)
    {k n : ℕ} {a : A} (h0 : J n a) (hk : n < k)
    (hstep : ∀ n a, J n a → Keeps (step a) fun r => ∀ b, r = .inl b → ∃ m < n, J m b) :
    KeepsAll (Prog.loop out step k a) := by
  induction k generalizing n a with
  | zero => omega
  | succ k ih =>
    rw [Prog.loop]
    refine (hstep n a h0).bind fun r hr => ?_
    cases r with
    | inl b =>
      obtain ⟨m, hm, hJ⟩ := hr b rfl
      exact ih hJ (by omega)
    | inr v => exact keeps_ret _

lemma keeps_read (f : World N → α) : KeepsAll (read f) := keeps_lift fun s _ => by
  rw [wp_map, wp_get]
  exact Same.refl s

lemma keeps_write {f : World N → World N} (h : ∀ s, Same s (f s)) : KeepsAll (write f) :=
  keeps_lift fun s _ => h s

lemma keeps_panicWhen (c : World N → Prop) [DecidablePred c] {msg : String} 
    (hm : msg ∉ never) : KeepsAll (panicWhen c msg) := keeps_lift fun s _ => by
  simp only [wp_bind, wp_get, wp_throwIf]
  exact ⟨fun _ => hm, fun _ => Same.refl s⟩

lemma keeps_panic {msg : String} {P : α → Prop} (hm : msg ∉ never) :
    Keeps (crash (.panic msg) : Code N α) P := fun _ _ => hm

lemma wp_sleep {c : Prop} [Decidable c] {r : Res} {s : World N} {Q : Unit → World N → Prop}
    (hs : s.spin s.cur = []) (h : Q () s) :
    wp (sleepWhile s c r) Q Allowed s := by
  unfold sleepWhile
  simp only [wp_bind, wp_throwIf]
  exact ⟨fun hspin => absurd hs hspin.2, fun _ => ⟨fun _ => hs, fun _ => h⟩⟩

/-! ### The lower half of the file system -/

section

variable (sb : Superblock)

lemma keeps_virtioDiskRw : KeepsAll (virtioDiskRw : Code N Unit) := by
  have hwait : ∀ c : World N → Bool, KeepsAll (liftM (do
      let s ← get
      sleepWhile s (c s = false) .disk : FsM N Unit) : Code N Unit) := fun c =>
    keeps_lift fun s hs => by
      rw [wp_bind, wp_get]
      exact wp_sleep hs (Same.refl s)
  exact (hwait (·.desc)).then fun _ => hwait (·.done)

lemma keeps_bread (b : ℕ) : KeepsAll (bread b : Code N Unit) := by
  refine Keeps.then (keeps_lift fun s hs => ?_) fun _ => keeps_virtioDiskRw
  rw [wp_bind, wp_get, wp_bind]
  exact wp_sleep hs { Same.refl s with }

lemma keeps_brelse (b : ℕ) : KeepsAll (brelse b : Code N Unit) := keeps_lift fun s _ => by
  simp only [wp_bind, wp_get, wp_throwIf, wp_set]
  exact ⟨fun _ => show "brelse" ∉ never by decide, fun _ => { Same.refl s with }⟩

lemma keeps_setBuf (b : ℕ) (d : Block) : KeepsAll (setBuf b d : Code N Unit) :=
  keeps_write fun s => { Same.refl s with }

lemma keeps_logWrite (b : ℕ) : KeepsAll (logWrite sb b : Code N Unit) :=
  (keeps_panicWhen _ (by decide)).then fun _ => (keeps_panicWhen _ (by decide)).then fun _ =>
    keeps_write fun s => { Same.refl s with }

lemma keeps_bzero (b : ℕ) : KeepsAll (bzero sb b : Code N Unit) :=
  (keeps_bread b).then fun _ => (keeps_setBuf b _).then fun _ =>
    (keeps_logWrite sb b).then fun _ => keeps_brelse b

/-- A round of `balloc` finds a block or goes on with the next block of the free map. -/
lemma keeps_ballocStep (b : ℕ) : Keeps (ballocStep sb b : Code N (ℕ ⊕ ℕ))
    fun r => ∀ c, r = .inl c → b < sb.size ∧ c = b + BPB := by
  unfold ballocStep
  split
  · refine (keeps_bread _).then fun _ => (keeps_read _).then fun f => ?_
    split
    · refine (keeps_setBuf _ _).then fun _ => (keeps_logWrite sb _).then fun _ =>
        (keeps_brelse _).then fun _ => (keeps_bzero sb _).then fun _ => keeps_pure ?_
      exact fun _ h => by cases h
    · refine (keeps_brelse _).then fun _ => keeps_pure ?_
      rintro c ⟨rfl⟩
      exact ⟨‹_›, rfl⟩
  · exact keeps_panic (by decide)

lemma keeps_balloc : KeepsAll (balloc sb : Code N ℕ) := by
  unfold balloc
  refine Keeps.then (keeps_write fun s => { Same.refl s with }) fun _ => ?_
  refine keeps_loop (fun n b => sb.size < b + n * BPB) (n := sb.size / BPB + 1) ?_ (by omega) ?_
  · rw [Nat.zero_add, Nat.mul_comm]
    exact Nat.lt_mul_div_succ _ (by decide)
  · intro n b hb
    refine (keeps_ballocStep sb b).mono fun r hr c hc => ?_
    obtain ⟨hlt, rfl⟩ := hr c hc
    cases n with
    | zero => exact absurd hb (by omega)
    | succ n => exact ⟨n, Nat.lt_succ_self n, by rwa [Nat.succ_mul, Nat.add_comm (n * BPB),
        ← Nat.add_assoc] at hb⟩

lemma keeps_bfree (b : ℕ) : KeepsAll (bfree sb b : Code N Unit) := by
  unfold bfree
  refine (keeps_bread _).then fun _ => (keeps_read _).then fun f => ?_
  split
  · exact keeps_panic (by decide)
  · exact (keeps_setBuf _ _).then fun _ => (keeps_logWrite sb _).then fun _ => keeps_brelse _

lemma same_setInode (s : World N) (j : ℕ) {f : Inode N → Inode N}
    (hdev : (f (s.inode j)).dev = (s.inode j).dev) (hinum : (f (s.inode j)).inum = (s.inode j).inum)
    (href : (f (s.inode j)).ref = (s.inode j).ref)
    (hlock : (f (s.inode j)).lock = (s.inode j).lock) : Same s (s.setInode j f) := by
  have hfield : ∀ {β : Type} (g : Inode N → β), g (f (s.inode j)) = g (s.inode j) →
      ∀ k, g ((s.setInode j f).inode k) = g (s.inode k) := fun g hg k => by
    show g (update s.inode j (f (s.inode j)) k) = _
    rcases eq_or_ne k j with rfl | hne
    · rw [update_self, hg]
    · rw [update_of_ne hne]
  exact { Same.refl s with
    dev := hfield (·.dev) hdev
    inum := hfield (·.inum) hinum
    ref := hfield (·.ref) href
    lock := hfield (·.lock) hlock }

lemma keeps_setDin (j : ℕ) (f : Dinode → Dinode) : KeepsAll (setDin j f : Code N Unit) :=
  keeps_write fun s => same_setInode s j rfl rfl rfl rfl

lemma keeps_iupdate (j : ℕ) : KeepsAll (iupdate sb j : Code N Unit) := by
  unfold iupdate
  refine (keeps_read _).then fun ip => (keeps_bread _).then fun _ => ?_
  exact Keeps.then (keeps_write fun s => { Same.refl s with }) fun _ =>
    (keeps_logWrite sb _).then fun _ => keeps_brelse _

lemma keeps_load (j : ℕ) : KeepsAll (load sb j : Code N Unit) := by
  unfold load
  refine (keeps_read _).then fun ip => (keeps_bread _).then fun _ => ?_
  refine Keeps.then (keeps_write fun s => same_setInode s j rfl rfl rfl rfl) fun _ => ?_
  refine (keeps_brelse _).then fun _ => ?_
  exact Keeps.then (keeps_write fun s => same_setInode s j rfl rfl rfl rfl) fun _ =>
    keeps_panicWhen _ (by decide)

lemma keeps_bmapDirect (j k : ℕ) : KeepsAll (bmapDirect sb j k : Code N ℕ) := by
  unfold bmapDirect
  refine (keeps_read _).then fun ip => ?_
  split
  · exact (keeps_balloc sb).then fun b => (keeps_setDin j _).then fun _ => keeps_ret _
  · exact keeps_ret _

lemma keeps_bmap (j bn : ℕ) : KeepsAll (bmap sb j bn : Code N ℕ) := by
  unfold bmap
  split
  · exact keeps_bmapDirect sb j bn
  split
  · refine (keeps_bmapDirect sb j NDIRECT).then fun a => (keeps_bread a).then fun _ =>
      (keeps_read _).then fun f => ?_
    dsimp only
    split
    · exact (keeps_balloc sb).then fun b => (keeps_setBuf a _).then fun _ =>
        (keeps_logWrite sb a).then fun _ => (keeps_brelse a).then fun _ => keeps_ret _
    · exact (keeps_brelse a).then fun _ => keeps_ret _
  · exact keeps_panic (by decide)

lemma keeps_freeSlot (j k : ℕ) : KeepsAll (freeSlot sb j k : Code N Unit) :=
  (keeps_read _).then fun _ => keeps_doIf ((keeps_bfree sb _).then fun _ => keeps_setDin j _)

lemma keeps_itrunc (j : ℕ) : KeepsAll (itrunc sb j : Code N Unit) := by
  unfold itrunc
  refine Keeps.then (keeps_write fun s => { Same.refl s with }) fun _ => ?_
  refine (keeps_forUp (fun _ => keeps_ret _) (fun k => keeps_freeSlot sb j k) 0 _).then fun _ => ?_
  refine (keeps_read _).then fun ip => Keeps.then (keeps_doIf ?_) fun _ => ?_
  · refine (keeps_bread _).then fun _ => (keeps_read _).then fun f => ?_
    refine (keeps_forUp (fun _ => keeps_ret _) (fun k => keeps_doIf (keeps_bfree sb _)) 0 _).then
      fun _ => ?_
    exact (keeps_brelse _).then fun _ => (keeps_bfree sb _).then fun _ => keeps_setDin j _
  · exact (keeps_setDin j _).then fun _ => (keeps_iupdate sb j).then fun _ =>
      keeps_write fun s => { Same.refl s with }

lemma keeps_readLoop (j : ℕ) (dst : ℕ → ℕ → Bool) (fuel tot off k : ℕ) :
    KeepsAll (readLoop sb j dst fuel tot off k : Code N (List UInt8)) := by
  induction fuel generalizing tot off k with
  | zero => exact keeps_ret _
  | succ fuel ih =>
    unfold readLoop
    split
    · exact keeps_ret _
    · refine (keeps_bmap sb j _).then fun b => (keeps_bread b).then fun _ =>
        (keeps_read _).then fun f => (keeps_brelse b).then fun _ => ?_
      dsimp only
      split
      · exact (ih _ _ _).then fun _ => keeps_ret _
      · exact keeps_ret _

lemma keeps_readi (j : ℕ) (dst : ℕ → ℕ → Bool) (off n : ℕ) :
    KeepsAll (readi sb j dst off n : Code N (List UInt8)) := by
  unfold readi
  refine (keeps_read _).then fun ip => ?_
  refine Keeps.then (keeps_write fun s => { Same.refl s with }) fun _ => ?_
  refine (keeps_readLoop sb j dst _ 0 off _).then fun bytes => ?_
  exact Keeps.then (keeps_write fun s => { Same.refl s with }) fun _ => keeps_ret _

lemma keeps_commit : KeepsAll (commit sb : Code N Unit) := by
  have hhead : KeepsAll (writeHead sb : Code N Unit) :=
    (keeps_bread _).then fun _ => (keeps_virtioDiskRw).then fun _ => keeps_brelse _
  unfold commit
  refine (keeps_read _).then fun lh => keeps_doIf ?_
  refine Keeps.then (keeps_forUp (fun _ => keeps_ret _) (fun tail => ?_) 0 _) fun _ =>
    hhead.then fun _ => Keeps.then (keeps_forUp (fun _ => keeps_ret _) (fun tail => ?_) 0 _)
      fun _ => ?_
  iterate 2
    exact (keeps_bread _).then fun _ => (keeps_bread _).then fun _ =>
      (keeps_virtioDiskRw).then fun _ => (keeps_brelse _).then fun _ => keeps_brelse _
  exact Keeps.then (keeps_write fun s => { Same.refl s with }) fun _ => hhead

end

end Xv6.Fs
