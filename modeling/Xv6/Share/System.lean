import Xv6.Share.Boot

/-!
The whole machine: in every state it can get to, the invariant holds with ghost values
under which each process can go on.
-/

namespace Xv6.Share

open Lib.Wp Lib.Conc Bio LogState Io Protocol Machine Redo Function

variable {N : ℕ} {c : Conf} {p p₀ : Fin N} {l : Local} {s s' : Sys N} {ℓ : Fin N → Local}

lemma inOp_role {st : Store} (h : Inv c st ℓ) (p : Fin N) : inOp p st.trace = (ℓ p).role.op := by
  obtain ⟨V, pins, -, hL⟩ := h
  rw [Bool.eq_iff_iff]
  rcases hL.cases with ⟨-, k, S, C, hctl, hk, hops⟩ | ⟨q, m, ho, -, hctl⟩ | ⟨q, m, L, n, ho, -, hctl⟩
  · rw [inOp_iff hctl, procs_of_ops hk]
    exact hops.mem p
  iterate 2
    rw [inOp_iff hctl, show (ℓ p).role.op = false from ho.noop p]
    simp [procs]

/-- The ghost value of a process in its own code. -/
structure Matches (cl : Client) (l : Local) : Prop where
  up : l.role.up = true
  com : l.role.com = none
  chk : l.role.chk = none
  want : l.hands.want = none
  gone : l.hands.gone = none
  held : ∀ i, cl.held i = (l.hands.st i).map Prod.fst
  raw : ∀ i b, l.hands.st i ≠ some (b, .raw)
  dirty : ∀ i b x, l.hands.st i = some (b, .dirty x) → i ∈ cl.dirty
  sub : ∀ i ∈ cl.dirty, (cl.held i).isSome
  lt : ∀ i b, cl.held i = some b → b < 2 ^ 32

section

variable {cl : Client} {i : Fin NBUF} {b : ℕ} (h : Matches cl l)

include h

lemma Matches.st (hi : cl.held i = some b) : ∃ φ, l.hands.st i = some (b, φ) ∧ φ ≠ .raw := by
  rw [h.held i] at hi
  obtain ⟨⟨b', φ⟩, hst, rfl⟩ := Option.map_eq_some_iff.mp hi
  exact ⟨φ, hst, fun e => h.raw i b' (e ▸ hst)⟩

lemma Matches.withOp (o : Bool) : Matches cl (l.withOp o) :=
  ⟨h.up, h.com, h.chk, h.want, h.gone, h.held, h.raw, h.dirty, h.sub, h.lt⟩

/-- What the process has of buffer `i` changes. -/
lemma Matches.put {o : Option (ℕ × Phase)} {D : Finset (Fin NBUF)}
    (ho : ∀ b φ, o = some (b, φ) → b < 2 ^ 32 ∧ φ ≠ .raw ∧ ∀ x, φ = .dirty x → i ∈ D)
    (hD : ∀ j, j ≠ i → (j ∈ D ↔ j ∈ cl.dirty)) (hi : i ∈ D → o.isSome) :
    Matches ⟨update cl.held i (o.map Prod.fst), D⟩
      (l.withHands { l.hands with st := update l.hands.st i o }) where
  up := h.up
  com := h.com
  chk := h.chk
  want := h.want
  gone := h.gone
  held := fun j => by
    by_cases hj : j = i
    · subst hj; simp
    · simp [hj, h.held j]
  raw := fun j b' => by
    by_cases hj : j = i
    · subst hj
      simpa using fun e => (ho b' _ e).2.1 rfl
    · simpa [hj] using h.raw j b'
  dirty := fun j b' x hst => by
    by_cases hj : j = i
    · subst hj
      exact (ho b' _ (by simpa using hst)).2.2 x rfl
    · exact (hD j hj).mpr (h.dirty j b' x (by simpa [hj] using hst))
  sub := fun j hj' => by
    by_cases hj : j = i
    · subst hj
      simpa using hi hj'
    · simpa [hj] using h.sub j ((hD j hj).mp hj')
  lt := fun j b' hj' => by
    by_cases hj : j = i
    · subst hj
      simp only [update_self] at hj'
      obtain ⟨⟨_, φ⟩, ho', rfl⟩ := Option.map_eq_some_iff.mp hj'
      exact (ho _ φ ho').1
    · simp only [update_of_ne hj] at hj'
      exact h.lt j b' hj'

lemma Matches.hold (hb : b < 2 ^ 32) {φ : Phase} (hφ : φ ≠ .raw) {D : Finset (Fin NBUF)}
    (hD : ∀ j, j ≠ i → (j ∈ D ↔ j ∈ cl.dirty)) (hi : ∀ x, φ = .dirty x → i ∈ D) :
    Matches ⟨update cl.held i (some b), D⟩ (l.withHands (l.hands.hold i b φ)) := by
  refine h.put (o := some (b, φ)) ?_ hD fun _ => rfl
  rintro _ _ ⟨⟩
  exact ⟨hb, hφ, hi⟩

lemma Matches.drop (hi : i ∉ cl.dirty) :
    Matches ⟨update cl.held i none, cl.dirty⟩ (l.withHands (l.hands.drop i)) :=
  h.put (o := none) (by rintro _ _ ⟨⟩) (fun _ _ => Iff.rfl) fun hd => absurd hd hi

end

/-- **A process can make every call the protocol allows.** -/
lemma safe_call (hN : 3 * N + 1 < 2 ^ 32) (hI : Inv c s.store ℓ)
    (hm : Matches (s.proc p).client (ℓ p)) {k : Call} (hk : k.Allowed c s p) :
    Ok c p k.code (fun f l' => Matches (f (s.proc p).client) l') (ℓ p) := by
  have hop := inOp_role hI p
  cases k with
  | beginOp =>
    refine Safe.bind (safe_beginOp hm.up (hop ▸ hk) hm.chk) ?_
    rintro _ _ rfl
    exact safe_pure (hm.withOp true)
  | endOp =>
    refine Safe.bind (safe_endOp hN (hop ▸ hk) hm.chk hm.com hm.want hm.gone) ?_
    rintro _ _ rfl
    exact safe_pure (hm.withOp false)
  | bread b =>
    refine Safe.bind (safe_bread hN hm.want b) ?_
    rintro i _ ⟨hst, rfl, -⟩
    exact safe_pure (hm.hold hk (by simp) (fun j hj => by simp [hj]) (by simp))
  | logWrite i =>
    obtain ⟨hin, b, hi, hW⟩ := hk
    obtain ⟨φ, hst, hraw⟩ := hm.st hi
    have hb := hm.lt i b hi
    refine Safe.bind (safe_logWrite (hop ▸ hin) hst hm.chk hraw hW hb) ?_
    rintro _ _ rfl
    have hm' := hm.hold (i := i) hb (φ := .clean) (by simp) (D := (s.proc p).client.dirty.erase i)
      (fun j hj => by simp [hj]) (by simp)
    rw [← hi, update_eq_self] at hm'
    exact safe_pure hm'
  | brelse i =>
    obtain ⟨hi, hd⟩ := hk
    obtain ⟨b, hb⟩ := Option.ne_none_iff_exists'.mp hi
    obtain ⟨φ, hst, -⟩ := hm.st hb
    refine Safe.bind (safe_brelse hst (fun x e => hd (hm.dirty i b x (e ▸ hst))) hm.gone) ?_
    rintro _ _ rfl
    exact safe_pure (hm.drop hd)

variable {st : Store} {β : Type} {x : IoM β} {k : β → Code (Client → Client)}

lemma inv_modify (h : Inv c st ℓ) {cl : Client} (hm : Matches cl (ℓ p))
    {i : Fin NBUF} {b : ℕ} (hi : cl.held i = some b) (d : Block) :
    Inv c { st with bcache := st.bcache.set i fun y => { y with data := d } }
      (update ℓ p ((ℓ p).withHands ((ℓ p).hands.hold i b (.dirty d)))) := by
  obtain ⟨V, pins, hC, hL⟩ := h
  obtain ⟨φ, hst, hraw⟩ := hm.st hi
  have hv := valid_of_ok (hC.held p i b φ hst).2 hraw
  exact inv_hands (hC.setData (p := p) hst hv d) hL rfl rfl

/-! ### The invariant of the machine -/

/-- A process that is up can go on. -/
def ProcOk (c : Conf) (p : Fin N) (pr : Proc) (l : Local) : Prop :=
  match pr.todo with
  | none => Matches pr.client l
  | some x => Ok c p x (fun f l' => Matches (f pr.client) l') l

/-- Process `p` boots the machine. -/
structure Booting (c : Conf) (s : Sys N) (ℓ : Fin N → Local) (p : Fin N) : Prop where
  client : ∀ q, (s.proc q).client = noClient
  todo : ∀ q, q ≠ p → (s.proc q).todo = none
  hands : ∀ q, q ≠ p → (ℓ q).hands = Hands.empty
  code : ∃ x, (s.proc p).todo = some x ∧ Ok c p x (fun f l' => f = id ∧ l'.hands = Hands.empty ∧
    ∃ m, l'.role.com = some m ∧ Empty c m) (ℓ p)

def SysInv (c : Conf) (s : Sys N) : Prop :=
  ∃ ℓ, Inv c s.store ℓ ∧
    if s.up then ∀ p, ProcOk c p (s.proc p) (ℓ p) else ∃ p, Booting c s ℓ p

lemma procOk_update {pr : Proc} (h : ∀ q, ProcOk c q (s.proc q) (ℓ q)) (hp : ProcOk c p pr l)
    (q : Fin N) : ProcOk c q (update s.proc p pr q) (update ℓ p l q) := by
  by_cases hq : q = p
  · subst hq; simpa only [update_self] using hp
  · simpa only [update_of_ne hq] using h q

lemma procOk_settle {cl : Client} {x : Code (Client → Client)}
    (h : Ok c p x (fun f l' => Matches (f cl) l') l) : ProcOk c p (settle cl x) l := by
  cases x with
  | ret f | act x k => exact h

lemma sysInv_init (hN : 3 * N + 1 < 2 ^ 32) (hc : Clean c) (p₀ : Fin N) : SysInv c (init c p₀) := by
  let m : Com := ⟨(boot p₀ c.disk).log, c.disk, [], [], true⟩
  let ℓ : Fin N → Local := fun q => ⟨Hands.empty, ⟨false, false, none, if q = p₀ then some m else none⟩⟩
  have hO : Owned c (boot p₀ c.disk).log [] (Local.role ∘ ℓ) c.disk [] p₀ m := by
    constructor
    case com => simp [ℓ]
    case others => intro q hq; simp [ℓ, hq]
    case noop | nochk => exact fun q => rfl
    case is_log => rfl
    case is_V => rfl
    case is_pins => rfl
    case is_trace => rfl
    case outstanding => rfl
    case committing => rfl
    case down => exact fun _ q => rfl
    case at_ctl => exact rfl
    case drop => exact ⟨0, fun _ => rfl, rfl⟩
  refine ⟨ℓ, ⟨c.disk, [], cache_binit c.disk, .inr ⟨p₀, m, hO⟩,
    fun _ _ _ h => absurd h List.not_mem_nil, fun _ _ _ => rfl,
    fun _ => always_nil _, always_nil _⟩, ?_⟩
  rw [if_neg (by simp [init])]
  refine ⟨p₀, fun _ => rfl, fun q hq => by simp [init, hq], fun _ _ => rfl, _, by simp [init]; rfl, ?_⟩
  refine Safe.bind (safe_initlog hN hc rfl rfl (l := ℓ p₀) (m := m) (by simp [ℓ]) rfl rfl rfl rfl) ?_
  rintro _ _ ⟨m', rfl, he⟩
  exact safe_pure ⟨rfl, rfl, m', rfl, he⟩

lemma Booting.act (h : Booting c s ℓ p₀) (htodo : (s.proc p).todo = some (.act x k)) :
    p = p₀ ∧ Ok c p (.act x k) (fun f l' => f = id ∧ l'.hands = Hands.empty ∧
      ∃ m, l'.role.com = some m ∧ Empty c m) (ℓ p) := by
  have hp : p = p₀ := by
    by_contra hne
    rw [h.todo p hne] at htodo
    cases htodo
  subst hp
  obtain ⟨y, hy, hok⟩ := h.code
  rw [htodo, Option.some.injEq] at hy
  exact ⟨rfl, hy ▸ hok⟩

lemma sysInv_up (hb : Booting c s ℓ p) (hI : Inv c st (update ℓ p l))
    (hhands : l.hands = Hands.empty) {m : Com} (hm : l.role.com = some m) (he : Empty c m) :
    SysInv c ⟨st, update s.proc p (settle (s.proc p).client (.ret id)), true⟩ := by
  have hempty : ∀ q, (update ℓ p l q).hands = Hands.empty := by
    intro q
    by_cases hq : q = p
    · subst hq; rw [update_self]; exact hhands
    · rw [update_of_ne hq]; exact hb.hands q hq
  have hproc : ∀ q, update s.proc p (settle (s.proc p).client (.ret id)) q =
      ⟨noClient, none⟩ := by
    intro q
    by_cases hq : q = p
    · subst hq
      rw [update_self, settle, hb.client q]
      rfl
    · rw [update_of_ne hq, ← hb.client q, ← hb.todo q hq]
  have hm' : (update ℓ p l p).role.com = some m := by
    rw [update_self]; exact hm
  refine ⟨_, inv_up hI hm' he, ?_⟩
  rw [if_pos rfl]
  intro q
  simp only [hproc q, hempty q, ProcOk]
  exact ⟨rfl, rfl, rfl, rfl, rfl, fun _ => rfl, by simp [Hands.empty], by simp [Hands.empty],
    by simp [noClient], by simp [noClient]⟩

lemma Booting.next (hb : Booting c s ℓ p) (hk : Ok c p (.act x k) (fun f l' => f = id ∧
      l'.hands = Hands.empty ∧ ∃ m, l'.role.com = some m ∧ Empty c m) l) :
    Booting c ⟨st, update s.proc p (settle (s.proc p).client (.act x k)), false⟩
      (update ℓ p l) p where
  client := fun q => by
    by_cases hq : q = p
    · subst hq; simp only [update_self, settle]; exact hb.client q
    · simp only [update_of_ne hq]; exact hb.client q
  todo := fun q hq => by simp only [update_of_ne hq]; exact hb.todo q hq
  hands := fun q hq => by rw [update_of_ne hq]; exact hb.hands q hq
  code := ⟨.act x k, by simp [settle], by rw [update_self]; exact hk⟩

/-- **Every step keeps the invariant.** -/
lemma sysInv_step (hN : 3 * N + 1 < 2 ^ 32) (h : SysInv c s) (hs : Step c s p s') : SysInv c s' := by
  obtain ⟨ℓ, hI, hrest⟩ := h
  cases hs with
  | call k hup hidle hk =>
    rw [if_pos hup] at hrest
    refine ⟨update ℓ p (ℓ p), by rwa [update_eq_self], ?_⟩
    rw [if_pos hup]
    have hp := hrest p
    rw [ProcOk, hidle] at hp
    exact procOk_update hrest (safe_call hN hI hp hk)
  | modify i b d hup hidle hi hW =>
    rw [if_pos hup] at hrest
    have hp := hrest p
    rw [ProcOk, hidle] at hp
    refine ⟨_, inv_modify hI hp hi d, ?_⟩
    rw [if_pos hup]
    refine procOk_update hrest ?_
    have hm := hp.hold (i := i) (hp.lt i b hi) (φ := .dirty d) (by simp)
      (D := insert i (s.proc p).client.dirty) (fun j hj => by simp [hj]) (by simp)
    rw [← hi, update_eq_self] at hm
    rw [ProcOk, hidle]
    exact hm
  | @exec β x k b st htodo hx =>
    by_cases hup : s.up = true
    · rw [if_pos hup] at hrest
      have hp := hrest p
      rw [ProcOk, htodo] at hp
      obtain ⟨l', hI', hk⟩ := Safe.step hp hI rfl trivial hx
      refine ⟨_, hI', ?_⟩
      rw [if_pos (by simp [hup])]
      exact procOk_update hrest (procOk_settle hk)
    · rw [if_neg hup] at hrest
      obtain ⟨p₁, hb⟩ := hrest
      obtain ⟨rfl, hok⟩ := hb.act htodo
      obtain ⟨l', hI', hk⟩ := Safe.step hok hI rfl trivial hx
      rw [Bool.not_eq_true] at hup
      cases hkb : k b with
      | ret f =>
        rw [hkb] at hk
        obtain ⟨rfl, hhands, m, hm, he⟩ := hk
        rw [hup]
        exact sysInv_up hb hI' hhands hm he
      | act y k' =>
        rw [hkb] at hk
        rw [hup]
        exact ⟨_, hI', p, hb.next hk⟩

/-- **The invariant holds in every state the machine can get to.** -/
theorem sysInv_reach (hN : 3 * N + 1 < 2 ^ 32) (hc : Clean c) (h : Reach c p₀ s) : SysInv c s := by
  induction h with
  | refl => exact sysInv_init hN hc p₀
  | tail _ hs ih =>
    obtain ⟨p, hs⟩ := hs
    exact sysInv_step hN ih hs

lemma stuck_of_error (h : SysInv c s) {e : Stop} (htodo : (s.proc p).todo = some (.act x k))
    (hx : x (view p s.store) = .error e st) : Stuck c e st := by
  obtain ⟨ℓ, hI, hrest⟩ := h
  split at hrest
  · have hp := hrest p
    rw [ProcOk, htodo] at hp
    exact Safe.stop hp hI rfl trivial hx
  · obtain ⟨p₁, hb⟩ := hrest
    obtain ⟨rfl, hok⟩ := hb.act htodo
    exact Safe.stop hok hI rfl trivial hx

end Xv6.Share
