import Xv6.Fs.Keeps

/-!
References, locks and transactions of the process that runs, whatever is on the disk: what
`namei`, `ilock`, `iunlockput`, `begin_op` and `end_op` take and give back.
-/

namespace Xv6.Fs

open Lib.Wp Lib.Conc Lib.Bytes Function

variable {N : ℕ} {α β : Type}

/-- The references and the locks of the inode cache, the transactions, and the open files and
working directories of processes. -/
@[ext] structure Books (N : ℕ) where
  ref : ℕ → ℕ
  lock : ℕ → Option (Fin N)
  outstanding : ℕ
  op : Fin N → Bool
  file : ℕ → File
  ofile : Fin N → ℕ → Option ℕ
  cwd : Fin N → Option ℕ
  cur : Fin N

def World.books (s : World N) : Books N where
  ref := fun j => (s.inode j).ref
  lock := fun j => (s.inode j).lock
  outstanding := s.log.outstanding
  op := s.op
  file := s.file
  ofile := s.ofile
  cwd := s.cwd
  cur := s.cur

namespace Books

variable {b : Books N} {i j : ℕ}

/-- One more reference to entry `j`. -/
def up (b : Books N) (j : ℕ) : Books N := { b with ref := update b.ref j (b.ref j + 1) }

/-- One reference less. -/
def down (b : Books N) (j : ℕ) : Books N := { b with ref := update b.ref j (b.ref j - 1) }

def setLock (b : Books N) (j : ℕ) (v : Option (Fin N)) : Books N := { b with lock := update b.lock j v }

/-- The process that runs starts and ends a transaction. -/
def enter (b : Books N) : Books N :=
  { b with outstanding := b.outstanding + 1, op := update b.op b.cur true }

def leave (b : Books N) : Books N :=
  { b with outstanding := b.outstanding - 1, op := update b.op b.cur false }

/-- One more reference to the inode that was found, if one was. -/
def gets (b : Books N) (r : Option ℕ) : Books N := r.elim b b.up

lemma down_up (b : Books N) (j : ℕ) : (b.up j).down j = b := by
  simp [up, down]

lemma up_comm (b : Books N) (i j : ℕ) : (b.up i).up j = (b.up j).up i := by
  ext k
  · simp only [up, update_apply]
    split <;> split <;> simp_all
  all_goals rfl

lemma unlock (hj : b.lock j = none) (v : Option (Fin N)) : (b.setLock j v).setLock j none = b := by
  simp only [setLock, update_idem]
  rw [← hj, update_eq_self]

lemma leave_enter (hop : b.op b.cur = false) : b.enter.leave = b := by
  simp only [enter, leave, update_idem, Nat.add_sub_cancel]
  rw [← hop, update_eq_self]

end Books

/-- The sizes of the files in the inode cache. -/
def World.sizes (s : World N) (j : ℕ) : ℕ := (s.inode j).din.size

/-- The program, run with no other process in between, keeps these books and sizes, unless it sleeps
or panics. -/
abbrev Noted (x : Code N α) (Q : α → Books N × (ℕ → ℕ) → Prop) (l : Books N × (ℕ → ℕ)) : Prop :=
  Safe (fun (s : World N) ℓ => (s.books, s.sizes) = ℓ () ∧ s.spin s.cur = []) (fun _ _ => True)
    (fun _ s => s) (fun e _ => e ≠ .undefined) () x Q l

/-- The same for the books, whatever the sizes. -/
def Booked (x : Code N α) (Q : α → Books N → Prop) (b : Books N) : Prop :=
  ∀ z, Noted x (fun a l => Q a l.1) (b, z)

variable {b : Books N} {sb : Superblock} {i j : ℕ} {z : ℕ → ℕ}

variable {x : Code N α} {Q : α → Books N → Prop} {s : World N}

lemma Booked.bind {f : α → Code N β} {R : β → Books N → Prop}
    (hx : Booked x Q b) (hf : ∀ a b', Q a b' → Booked (f a) R b') : Booked (x >>= f) R b :=
  fun z => Safe.bind (hx z) fun a l hQ => hf a l.1 hQ l.2

lemma Booked.mono {R : α → Books N → Prop} (hx : Booked x Q b)
    (h : ∀ a b', Q a b' → R a b') : Booked x R b := fun z => Safe.mono (hx z) fun a l => h a l.1

lemma booked_pure {a : α} (h : Q a b) : Booked (pure a : Code N α) Q b :=
  fun _ => h

lemma booked_lift {x : FsM N α} (h : ∀ s : World N, s.books = b → s.spin s.cur = [] →
      wp x (fun a t => t.spin t.cur = [] ∧ Q a t.books) (fun e _ => e ≠ .undefined) s) :
    Booked (liftM x : Code N α) Q b := by
  intro z
  refine safe_lift fun s ℓ hI hl => ?_
  have hb : s.books = b := congrArg Prod.fst (hI.1.trans hl)
  refine wp_mono (h s hb hI.2) (fun a t ht => ⟨(t.books, t.sizes), ⟨?_, ht.1⟩, ht.2⟩) fun _ _ h => h
  rw [update_self]

lemma Booked.wp (h : Booked x Q s.books) (hs : s.spin s.cur = []) :
    wp x.alone (fun a t => t.spin t.cur = [] ∧ Q a t.books) (fun e _ => e ≠ .undefined) s := by
  refine wp_mono (Safe.alone (fun _ => trivial) (fun _ => rfl) (h s.sizes)
    (ℓ := fun _ => (s.books, s.sizes)) ⟨rfl, hs⟩ rfl) ?_ fun _ _ h => h
  rintro a t ⟨l, ⟨hl, hspin⟩, hQ⟩
  rw [update_self] at hl
  subst hl
  exact ⟨hspin, hQ⟩

lemma Same.books {t : World N} (h : Same s t) : t.books = s.books := by
  unfold World.books
  rw [h.outstanding, h.op, h.file, h.ofile, h.cwd, h.cur]
  congr 1
  · exact funext h.ref
  · exact funext h.lock

lemma Allowed.defined {e : Halt} (h : Allowed e s) : e ≠ .undefined := by
  rintro rfl
  exact h

lemma booked_keeps (h : KeepsAll x) : Booked x (fun _ b' => b' = b) b := by
  induction x with
  | ret a => exact booked_pure rfl
  | act x k ih =>
    refine Booked.bind (x := liftM x) (f := k) (Q := fun a b' => KeepsAll (k a) ∧ b' = b)
      (booked_lift fun s hb hs => ?_) ?_
    · refine wp_mono (h s hs) (fun a t ht => ?_) fun _ _ he => he.defined
      refine ⟨?_, ht.2, ht.1.books.trans hb⟩
      rw [ht.1.cur, ht.1.spin]
      exact hs
    · rintro a b' ⟨hk, rfl⟩
      exact ih a hk

/-! ### Reading changes no sizes -/

/-- Every action of the program leaves the sizes as they are. -/
def Sized : Code N α → Prop
  | .ret _ => True
  | .act x k => ∀ s : World N, wp x (fun a t => t.sizes = s.sizes ∧ Sized (k a)) (fun _ _ => True) s

lemma sized_ret (a : α) : Sized (pure a : Code N α) := trivial

lemma Sized.then {f : α → Code N β} (hx : Sized x) (hf : ∀ a, Sized (f a)) : Sized (x >>= f) := by
  show Sized (x.bind f)
  induction x with
  | ret a => exact hf a
  | act x k ih => exact fun s => wp_mono (hx s) (fun a _ ht => ⟨ht.1, ih a ht.2⟩) fun _ _ h => h

lemma sized_lift {x : FsM N α} (h : ∀ s : World N, wp x (fun _ t => t.sizes = s.sizes) (fun _ _ => True) s) :
    Sized (liftM x : Code N α) := fun s => wp_mono (h s) (fun _ _ ht => ⟨ht, trivial⟩) fun _ _ h => h

lemma sized_crash (e : Halt) : Sized (crash e : Code N α) := fun _ => trivial

lemma sized_loop {A : Type} {out : Code N α} {step : A → Code N (A ⊕ α)} (hout : Sized out)
    (hstep : ∀ a, Sized (step a)) (k : ℕ) (a : A) : Sized (Prog.loop out step k a) := by
  induction k generalizing a with
  | zero => exact hout
  | succ k ih =>
    rw [Prog.loop]
    refine (hstep a).then fun r => ?_
    cases r with
    | inl b => exact ih b
    | inr v => exact sized_ret v

lemma sized_read (f : World N → α) : Sized (read f) := sized_lift fun s => by
  rw [wp_map, wp_get]

lemma sized_write {f : World N → World N} (h : ∀ s, (f s).sizes = s.sizes) : Sized (write f) :=
  sized_lift h

lemma sized_panicWhen (c : World N → Prop) [DecidablePred c] (msg : String) :
    Sized (panicWhen c msg) := sized_lift fun s => by
  simp only [wp_bind, wp_get, wp_throwIf]
  exact ⟨fun _ => trivial, fun _ => trivial⟩

lemma wp_sleep_sized {c : Prop} [Decidable c] {r : Res} {Q : Unit → World N → Prop}
    (h : Q () s) : wp (sleepWhile s c r) Q (fun _ _ => True) s := by
  simp only [sleepWhile, wp_bind, wp_throwIf]
  exact ⟨fun _ => trivial, fun _ => ⟨fun _ => trivial, fun _ => h⟩⟩

lemma sized_bread (b : ℕ) : Sized (bread b : Code N Unit) := by
  refine Sized.then (sized_lift fun s => ?_) fun _ => Sized.then (sized_lift fun s => ?_) fun _ =>
    sized_lift fun s => ?_
  · rw [wp_bind, wp_get, wp_bind]
    exact wp_sleep_sized rfl
  · rw [wp_bind, wp_get]
    exact wp_sleep_sized rfl
  · rw [wp_bind, wp_get]
    exact wp_sleep_sized rfl

lemma sized_brelse (b : ℕ) : Sized (brelse b : Code N Unit) := sized_lift fun s => by
  simp only [wp_bind, wp_get, wp_throwIf, wp_set]
  exact ⟨fun _ => trivial, fun _ => rfl⟩

lemma sized_setBuf (b : ℕ) (d : Block) : Sized (setBuf b d : Code N Unit) := sized_write fun _ => rfl

lemma sized_logWrite (sb : Superblock) (b : ℕ) : Sized (logWrite sb b : Code N Unit) :=
  (sized_panicWhen _ _).then fun _ => (sized_panicWhen _ _).then fun _ => sized_write fun _ => rfl

lemma sized_balloc (sb : Superblock) : Sized (balloc sb : Code N ℕ) := by
  refine Sized.then (sized_write fun _ => rfl) fun _ => sized_loop (sized_crash _) (fun b => ?_) _ _
  unfold ballocStep
  split
  · refine (sized_bread _).then fun _ => (sized_read _).then fun f => ?_
    split
    · refine (sized_setBuf _ _).then fun _ => (sized_logWrite sb _).then fun _ =>
        (sized_brelse _).then fun _ => Sized.then ?_ fun _ => sized_ret _
      exact (sized_bread _).then fun _ => (sized_setBuf _ _).then fun _ =>
        (sized_logWrite sb _).then fun _ => sized_brelse _
    · exact (sized_brelse _).then fun _ => sized_ret _
  · exact sized_crash _

lemma sized_bmapDirect (sb : Superblock) (j k : ℕ) : Sized (bmapDirect sb j k : Code N ℕ) := by
  unfold bmapDirect
  refine (sized_read _).then fun ip => ?_
  split
  · refine (sized_balloc sb).then fun b => Sized.then (sized_write fun s => ?_) fun _ => sized_ret _
    -- only the address of a block is new
    funext i
    by_cases hi : i = j
    · subst hi
      simp [World.sizes, World.setInode, Dinode.setAddr]
    · simp [World.sizes, World.setInode, update_of_ne hi]
  · exact sized_ret _

lemma sized_bmap (sb : Superblock) (j bn : ℕ) : Sized (bmap sb j bn : Code N ℕ) := by
  unfold bmap
  split
  · exact sized_bmapDirect sb j bn
  split
  · refine (sized_bmapDirect sb j NDIRECT).then fun a => (sized_bread a).then fun _ =>
      (sized_read _).then fun f => ?_
    dsimp only
    split
    · exact (sized_balloc sb).then fun b => (sized_setBuf a _).then fun _ =>
        (sized_logWrite sb a).then fun _ => (sized_brelse a).then fun _ => sized_ret _
    · exact (sized_brelse a).then fun _ => sized_ret _
  · exact sized_crash _

lemma sized_readi (sb : Superblock) (j : ℕ) (dst : ℕ → ℕ → Bool) (off n : ℕ) :
    Sized (readi sb j dst off n : Code N (List UInt8)) := by
  have hloop : ∀ fuel tot off k, Sized (readLoop sb j dst fuel tot off k : Code N (List UInt8)) := by
    intro fuel
    induction fuel with
    | zero => exact fun _ _ _ => sized_ret _
    | succ fuel ih =>
      intro tot off k
      unfold readLoop
      split
      · exact sized_ret _
      · refine (sized_bmap sb j _).then fun b => (sized_bread b).then fun _ =>
          (sized_read _).then fun f => (sized_brelse b).then fun _ => ?_
        dsimp only
        split
        · exact (ih _ _ _).then fun _ => sized_ret _
        · exact sized_ret _
  unfold readi
  refine (sized_read _).then fun ip => Sized.then (sized_write fun _ => rfl) fun _ => ?_
  exact (hloop _ 0 off _).then fun bytes => Sized.then (sized_write fun _ => rfl) fun _ => sized_ret _

lemma noted_keeps (h : KeepsAll x) (hz : Sized x) : Noted x (fun _ l => l = (b, z)) (b, z) := by
  induction x with
  | ret a => exact rfl
  | act x k ih =>
    refine Safe.bind (x := liftM x) (f := k)
      (Q := fun a l => (KeepsAll (k a) ∧ Sized (k a)) ∧ l = (b, z))
      (safe_lift fun s ℓ hI hl => ?_) ?_
    · refine wp_mono (wp_and (h s hI.2) (hz s)) (fun a t ht => ?_) fun _ _ he => he.1.defined
      obtain ⟨⟨hsame, hk⟩, hsz, hzk⟩ := ht
      refine ⟨(b, z), ⟨?_, ?_⟩, ⟨hk, hzk⟩, rfl⟩
      · rw [update_self, hsame.books, hsz]
        exact hI.1.trans hl
      · rw [hsame.cur, hsame.spin]
        exact hI.2
    · rintro a l ⟨⟨hk, hzk⟩, rfl⟩
      exact ih a hk hzk

/-! ### The inode cache -/

lemma books_setInode (s : World N) (j : ℕ) (f : Inode N → Inode N) :
    (s.setInode j f).books = { s.books with
      ref := update s.books.ref j (f (s.inode j)).ref, lock := update s.books.lock j (f (s.inode j)).lock } := by
  unfold World.books World.setInode
  congr 1 <;> funext k <;> by_cases hk : k = j
  · subst hk; simp
  · simp [update_of_ne hk]
  · subst hk; simp
  · simp [update_of_ne hk]

section

variable {s : World N} {f : Inode N → Inode N}

lemma books_setRef (hlock : (f (s.inode j)).lock = (s.inode j).lock) :
    (s.setInode j f).books = { s.books with ref := update s.books.ref j (f (s.inode j)).ref } := by
  rw [books_setInode, hlock, show (s.inode j).lock = s.books.lock j from rfl, update_eq_self]

lemma books_setLock (href : (f (s.inode j)).ref = (s.inode j).ref) :
    (s.setInode j f).books = { s.books with lock := update s.books.lock j (f (s.inode j)).lock } := by
  rw [books_setInode, href, show (s.inode j).ref = s.books.ref j from rfl, update_eq_self]

end

lemma booked_iget (dev inum : ℕ) : Booked (iget dev inum) (fun j b' => b' = b.up j) b := by
  refine booked_lift fun s hb hs => ?_
  subst hb
  rw [wp_bind, wp_get]
  split
  · simp only [wp_bind, wp_set, wp_pure]
    exact ⟨hs, books_setRef rfl⟩
  · split
    · rename_i j hj
      have hzero : (s.inode j).ref = 0 := by simpa using List.find?_some hj
      simp only [wp_bind, wp_set, wp_pure]
      refine ⟨hs, (books_setRef rfl).trans ?_⟩
      simp only [Books.up, World.books, hzero]
    · exact Halt.noConfusion

lemma booked_idupCwd (hcwd : b.cwd b.cur ≠ none) : Booked (idupCwd : Code N ℕ) (fun j b' => b' = b.up j) b := by
  refine booked_lift fun s hb hs => ?_
  subst hb
  rw [wp_bind, wp_get]
  split
  · simp only [wp_bind, wp_set, wp_pure]
    exact ⟨hs, books_setRef rfl⟩
  · exact absurd ‹_› hcwd

lemma booked_setInode {f : Inode N → Inode N} (href : ∀ ip, (f ip).ref = ip.ref)
    (hlock : ∀ ip, (f ip).lock = ip.lock) : Booked (setInode j f) (fun _ b' => b' = b) b := by
  refine booked_lift fun s hb hs => ?_
  refine ⟨hs, ?_⟩
  rw [books_setInode, href, hlock, ← hb]
  ext1
  · exact update_eq_self j s.books.ref
  · exact update_eq_self j s.books.lock
  all_goals rfl

lemma booked_down : Booked (setInode j fun ip => { ip with ref := ip.ref - 1 } : Code N Unit)
    (fun _ b' => b' = b.down j) b := by
  refine booked_lift fun s hb hs => ?_
  subst hb
  exact ⟨hs, books_setRef rfl⟩

lemma booked_releasesleep : Booked (releasesleep j : Code N Unit)
    (fun _ b' => b' = b.setLock j none) b := by
  refine booked_lift fun s hb hs => ?_
  subst hb
  exact ⟨hs, books_setLock rfl⟩

lemma booked_panicWhen (c : World N → Prop) [DecidablePred c] (msg : String) :
    Booked (panicWhen c msg) (fun _ b' => b' = b) b := by
  refine booked_lift fun s hb hs => ?_
  simp only [wp_bind, wp_get, wp_throwIf]
  exact ⟨fun _ => Halt.noConfusion, fun _ => ⟨hs, hb⟩⟩

lemma booked_read (f : World N → α) : Booked (read f) (fun _ b' => b' = b) b := by
  refine booked_lift fun s hb hs => ?_
  rw [wp_map, wp_get]
  exact ⟨hs, hb⟩

section

variable (sb)

lemma booked_ilock : Booked (ilock sb j) (fun _ b' => b.lock j = none ∧ b' = b.setLock j (some b.cur)) b := by
  refine Booked.bind (booked_panicWhen _ _) ?_
  rintro _ b rfl
  have hacq : Booked (acquiresleep j)
      (fun _ b' => b.lock j = none ∧ b' = b.setLock j (some b.cur)) b := by
    refine booked_lift fun s hb hs => ?_
    subst hb
    rw [wp_bind, wp_get]
    simp only [sleepWhile, wp_bind, wp_throwIf, wp_set]
    exact ⟨fun _ => Halt.noConfusion, fun _ => ⟨fun _ => Halt.noConfusion,
      fun hno => ⟨hs, not_not.mp hno, books_setLock rfl⟩⟩⟩
  refine Booked.bind hacq ?_
  rintro _ b' ⟨hnone, rfl⟩
  refine Booked.bind (booked_read _) ?_
  rintro ip _ rfl
  refine (booked_keeps (keeps_doIf (keeps_load sb j))).mono ?_
  rintro _ b' rfl
  exact ⟨hnone, rfl⟩

lemma booked_iunlock : Booked (iunlock j) (fun _ b' => b' = b.setLock j none) b := by
  refine Booked.bind (booked_panicWhen _ _) ?_
  rintro _ b rfl
  exact booked_releasesleep

lemma booked_iput : Booked (iput sb j) (fun _ b' => b' = b.down j) b := by
  have hfirst : Booked (iputFirst j) (fun last b' =>
      (last = true ∧ b.lock j = none ∧ b' = b.setLock j (some b.cur)) ∨ (last = false ∧ b' = b.down j)) b := by
    refine booked_lift fun s hb hs => ?_
    subst hb
    rw [wp_bind, wp_get]
    split
    · simp only [wp_bind, wp_throwIf, wp_set, wp_pure]
      exact ⟨fun _ => Halt.noConfusion,
        fun hno => ⟨hs, .inl ⟨trivial, not_not.mp hno, books_setLock rfl⟩⟩⟩
    · simp only [wp_bind, wp_set, wp_pure]
      exact ⟨hs, .inr ⟨trivial, books_setRef rfl⟩⟩
  refine Booked.bind hfirst ?_
  rintro last b' (⟨rfl, hnone, rfl⟩ | ⟨rfl, rfl⟩)
  · rw [if_pos rfl]
    refine Booked.bind (booked_keeps (keeps_itrunc sb j)) ?_
    rintro _ _ rfl
    refine Booked.bind (booked_keeps (keeps_setDin j _)) ?_
    rintro _ _ rfl
    refine Booked.bind (booked_keeps (keeps_iupdate sb j)) ?_
    rintro _ _ rfl
    refine Booked.bind (booked_setInode (fun _ => rfl) fun _ => rfl) ?_
    rintro _ _ rfl
    refine Booked.bind booked_releasesleep ?_
    rintro _ _ rfl
    refine booked_down.mono ?_
    rintro _ _ rfl
    rw [Books.unlock hnone]
  · exact booked_pure rfl

lemma booked_iunlockput : Booked (iunlockput sb j) (fun _ b' => b' = (b.setLock j none).down j) b := by
  refine Booked.bind booked_iunlock ?_
  rintro _ _ rfl
  exact booked_iput sb

lemma booked_drop (hnone : b.lock j = none) :
    Booked (iunlockput sb j) (fun _ b' => b' = b.down j) (b.setLock j (some b.cur)) := by
  refine (booked_iunlockput sb).mono ?_
  rintro _ _ rfl
  rw [Books.unlock hnone]

/-! ### Paths -/

lemma booked_dirlookup (name : List UInt8) :
    Booked (dirlookup sb j name) (fun r b' => b' = b.gets (r.map Prod.fst)) b := by
  have hsize : ∀ z, Noted (getInode j : Code N (Inode N)) (fun dp l => dp.din.size = z j ∧ l = (b, z)) (b, z) := by
    refine fun z => safe_lift fun s ℓ hI hl => ?_
    have hz := congrArg Prod.snd (hI.1.trans hl)
    rw [wp_map, wp_get]
    exact ⟨(b, z), ⟨by rw [update_self]; exact hI.1.trans hl, hI.2⟩, congrFun hz j, rfl⟩
  refine Booked.bind (booked_panicWhen _ _) ?_
  rintro _ b rfl z
  refine Safe.bind (hsize z) ?_
  rintro dp _ ⟨hdp, rfl⟩
  refine safe_loop (fun n off l => n = (z j + 15 - off) / 16 ∧ l = (b, z)) ⟨rfl, rfl⟩ ?_ ?_
  · simp only [hdp, DESIZE]
    omega
  rintro n off _ ⟨hn, rfl⟩
  refine Safe.bind (hsize z) ?_
  rintro dp _ ⟨hdp, rfl⟩
  rw [hdp]
  split
  · refine Safe.bind (noted_keeps (keeps_readi sb j kdst _ _) (sized_readi sb j kdst _ _)) ?_
    rintro de _ rfl
    split
    · exact safe_lift fun s _ _ _ => Halt.noConfusion
    · split
      · refine Safe.bind (booked_iget _ _ z) ?_
        rintro k ⟨b', z'⟩ hb
        exact hb
      · exact ⟨_, by simp only [DESIZE]; omega, rfl, rfl⟩
  · exact rfl

section Paths

variable {path name rest : List UInt8}

/-- What `skipelem` finds: an element has a first byte, which is not a slash. -/
lemma skipelem_some (h : skipelem path = some (name, rest)) :
    ∃ c s, path.dropWhile (· == slash) = c :: s ∧ c ≠ slash ∧
      name = (c :: s.takeWhile (· != slash)).take DIRSIZ ∧
      rest = (s.dropWhile (· != slash)).dropWhile (· == slash) := by
  unfold skipelem at h
  dsimp only at h
  split at h
  · cases h
  · rename_i hne
    obtain ⟨c, s, hs⟩ := List.exists_cons_of_ne_nil hne
    have hc : c ≠ slash := by
      have := List.head?_dropWhile_not (· == slash) path
      simpa [hs] using this
    rw [hs, List.takeWhile_cons_of_pos (by simpa using hc),
      List.dropWhile_cons_of_pos (by simpa using hc)] at h
    cases h
    exact ⟨c, s, hs, hc, rfl, rfl⟩

lemma skipelem_length (h : skipelem path = some (name, rest)) : rest.length < path.length := by
  obtain ⟨c, s, hs, -, -, rfl⟩ := skipelem_some h
  have h1 := (List.dropWhile_sublist (· == slash) (l := path)).length_le
  have h2 := (List.dropWhile_sublist (· != slash) (l := s)).length_le
  have h3 := (List.dropWhile_sublist (· == slash) (l := s.dropWhile (· != slash))).length_le
  rw [hs, List.length_cons] at h1
  omega

/-- The names that `skipelem` finds in a path, call after call. -/
inductive Elements : List UInt8 → List (List UInt8) → Prop
  | last {path : List UInt8} (h : skipelem path = none) : Elements path []
  | next {path name rest : List UInt8} {names : List (List UInt8)}
      (h : skipelem path = some (name, rest)) (hrest : Elements rest names) :
      Elements path (name :: names)

/-- The parts of a path between slashes that are not empty, cut to `DIRSIZ` bytes. -/
def parts (path : List UInt8) : List (List UInt8) :=
  ((path.splitOnP (· == slash)).filter (· ≠ [])).map (·.take DIRSIZ)

@[simp] lemma parts_nil : parts [] = [] := rfl

lemma parts_append (x y : List UInt8) : parts (x ++ slash :: y) = parts x ++ parts y := by
  rw [parts, List.splitOnP_append_cons x y (by simp), List.filter_append, List.map_append]
  rfl

lemma parts_dropWhile (path : List UInt8) : parts (path.dropWhile (· == slash)) = parts path := by
  induction path with
  | nil => rfl
  | cons c path ih =>
    rw [List.dropWhile_cons]
    split
    · next hc =>
      rw [ih, eq_of_beq hc]
      exact (parts_append [] path).symm
    · rfl

lemma parts_word (hw : ∀ c ∈ name, (c == slash) = false) (hne : name ≠ []) :
    parts name = [name.take DIRSIZ] := by
  rw [parts, List.splitOnP_eq_singleton hw]
  simp [hne]

lemma parts_word_append (hw : ∀ c ∈ name, (c == slash) = false) (hne : name ≠ [])
    (s : List UInt8) : parts (name ++ s) =
      (name ++ s.takeWhile (· != slash)).take DIRSIZ :: parts (s.dropWhile (· != slash)) := by
  induction s generalizing name with
  | nil => simpa using parts_word hw hne
  | cons c s ih =>
    by_cases hc : c = slash
    · rw [hc, parts_append, parts_word hw hne]
      simpa using (parts_append [] s).symm
    · rw [List.append_cons, ih (by simpa [or_imp, forall_and, hc] using hw) (by simp)]
      simp [hc]

/-- **`skipelem` takes a path apart** into the parts between its slashes. -/
theorem skipelem_elements (path : List UInt8) : Elements path (parts path) := by
  induction hn : path.length using Nat.strong_induction_on generalizing path with
  | _ n ih =>
    rw [← parts_dropWhile]
    cases hskip : skipelem path with
    | none =>
      rw [show path.dropWhile (· == slash) = [] by simpa [skipelem] using hskip]
      exact .last hskip
    | some r =>
      have hrest := ih _ (hn ▸ skipelem_length hskip) r.2 rfl
      obtain ⟨c, s, hs, hc, hname, hr⟩ := skipelem_some hskip
      rw [hs, ← List.singleton_append, parts_word_append (by simpa using hc) (by simp),
        List.singleton_append, ← hname, ← parts_dropWhile, ← hr]
      exact .next hskip hrest

end Paths

lemma booked_namexStep (parent : Bool) (cur : ℕ × List UInt8) :
    Booked (namexStep sb parent cur) (fun r b' =>
      r.elim (fun next => b' = b.up next.1 ∧ next.2.length < cur.2.length)
        fun v => b' = b.gets (v.map Prod.fst)) (b.up cur.1) := by
  obtain ⟨j, path⟩ := cur
  unfold namexStep
  dsimp only
  split
  · split
    · refine Booked.bind (booked_iput sb) ?_
      rintro _ _ rfl
      exact booked_pure (b.down_up j)
    · exact booked_pure rfl
  · rename_i name rest hskip
    refine Booked.bind (booked_ilock sb) ?_
    rintro _ _ ⟨hnone, rfl⟩
    refine Booked.bind (booked_read _) ?_
    rintro ip _ rfl
    split
    · refine Booked.bind (booked_drop sb hnone) ?_
      rintro _ _ rfl
      exact booked_pure (b.down_up j)
    · split
      · refine Booked.bind booked_iunlock ?_
        rintro _ _ rfl
        exact booked_pure (Books.unlock hnone _)
      · refine Booked.bind (booked_dirlookup sb _) ?_
        rintro r _ rfl
        cases r with
        | none =>
          refine Booked.bind (booked_drop sb hnone) ?_
          rintro _ _ rfl
          exact booked_pure (b.down_up j)
        | some next =>
          -- the next inode may be the same one, as for "."
          refine Booked.bind (booked_drop (b := (b.up j).up next.1) sb hnone) ?_
          rintro _ _ rfl
          rw [b.up_comm]
          exact booked_pure ⟨(b.up next.1).down_up j, skipelem_length hskip⟩

lemma booked_namex (hcwd : b.cwd b.cur ≠ none) (path : List UInt8) (parent : Bool) :
    Booked (namex sb path parent) (fun r b' => b' = b.gets (r.map Prod.fst)) b := by
  have hstart : Booked (if path.head? = some slash then iget ROOTDEV ROOTINO else idupCwd)
      (fun j b' => b' = b.up j) b := by
    split
    · exact booked_iget _ _
    · exact booked_idupCwd hcwd
  refine Booked.bind hstart ?_
  rintro j _ rfl z
  refine safe_loop (fun n cur l => n = cur.2.length ∧ l.1 = b.up cur.1) (n := path.length) ⟨rfl, rfl⟩
    (Nat.lt_succ_self _) ?_
  rintro n cur ⟨b', z'⟩ ⟨rfl, hb⟩
  dsimp only at hb
  subst hb
  refine (booked_namexStep sb parent cur z').mono ?_
  rintro (next | v) l h
  · exact ⟨_, h.2, rfl, h.1⟩
  · exact h

lemma booked_namei (hcwd : b.cwd b.cur ≠ none) (path : List UInt8) :
    Booked (namei sb path) (fun r b' => b' = b.gets r) b := by
  refine Booked.bind (booked_namex sb hcwd path false) ?_
  rintro r _ rfl
  cases r <;> exact booked_pure rfl

/-- **Resolving a path keeps the books.** Whatever the path and the disk, a `namex` that runs alone
and neither sleeps nor panics ends with one more reference to the inode that it returns, and none if
it fails; all other references, all locks and the transactions are as before. -/
theorem namex_balanced (hs : s.spin s.cur = []) (hcwd : s.cwd s.cur ≠ none)
    (path : List UInt8) (parent : Bool) :
    wp (namex sb path parent).alone (fun r t => t.books = s.books.gets (r.map Prod.fst))
      (fun e _ => e ≠ .undefined) s :=
  wp_mono ((booked_namex sb hcwd path parent).wp hs) (fun _ _ h => h.2) fun _ _ h => h

/-- A file system with the file `init` in its root directory. -/
def smallSb : Superblock := ⟨1000, 954, 200, 30, 2, 32, 45⟩

def initPath : List UInt8 := "init".toUTF8.toList

def smallDisk (b : ℕ) : Block :=
  if b = 32 then
    putDinode (putDinode zeroes 1 ⟨T_DIR, 0, 0, 1, 16, fun k => if k = 0 then 46 else 0⟩) 2
      ⟨T_FILE, 0, 0, 1, 124, fun k => if k = 0 then 47 else 0⟩
  else if b = 46 then fun i => (dirent 2 initPath).getD i 0
  else zeroes

def smallWorld : World 1 := bootWorld 0 smallDisk

/-- The first process looks up `/init`, and then where `init/x` is, but `init` is no directory. -/
theorem namex_balanced_init : ∃ t t',
    (namex smallSb (slash :: initPath) false).alone smallWorld = .ok (some (1, [])) t ∧
    t.books = smallWorld.books.up 1 ∧
    (nameiparent smallSb (initPath ++ [slash, 120])).alone t = .ok none t' ∧ t'.books = t.books := by
  have hfound := run_of_outcome (show outcome (namex smallSb (slash :: initPath) false).alone
    smallWorld = some (some (1, [])) by decide +kernel)
  have hnot := run_of_outcome (show outcome (nameiparent smallSb (initPath ++ [slash, 120])).alone
    (endState (namex smallSb (slash :: initPath) false).alone smallWorld) = some none by decide +kernel)
  exact ⟨_, _, hfound, wp_ok (namex_balanced smallSb rfl (by simp [smallWorld, bootWorld]) _ _) hfound,
    hnot, wp_ok (namex_balanced smallSb (by decide +kernel) (by decide +kernel) _ true) hnot⟩

/-! ### Transactions -/

lemma booked_beginOp : Booked (beginOp : Code N Unit) (fun _ b' => b' = b.enter) b := by
  refine booked_lift fun s hb hs => ?_
  subst hb
  rw [wp_bind, wp_get]
  simp only [sleepWhile, wp_bind, wp_throwIf, wp_set]
  exact ⟨fun _ => Halt.noConfusion, fun _ => ⟨fun _ => Halt.noConfusion, fun _ => ⟨hs, rfl⟩⟩⟩

lemma booked_endOp : Booked (endOp sb) (fun _ b' => b' = b.leave) b := by
  have hleave : Booked (leaveOp : Code N Bool) (fun _ b' => b' = b.leave) b := by
    refine booked_lift fun s hb hs => ?_
    subst hb
    simp only [wp_bind, wp_get, wp_throwIf, wp_set, wp_pure]
    exact ⟨fun _ => Halt.noConfusion, fun _ => ⟨hs, rfl⟩⟩
  refine Booked.bind hleave ?_
  rintro last _ rfl
  split
  · refine Booked.bind (booked_keeps (keeps_commit sb)) ?_
    rintro _ _ rfl
    exact booked_lift fun s hb hs => ⟨hs, hb⟩
  · exact booked_pure rfl

lemma booked_dropInode (hnone : b.lock j = none) :
    Booked (dropInode sb j) (fun _ b' => b' = (b.down j).leave) (b.setLock j (some b.cur)) := by
  refine Booked.bind (booked_drop sb hnone) ?_
  rintro _ _ rfl
  exact booked_endOp sb

end

end Xv6.Fs
