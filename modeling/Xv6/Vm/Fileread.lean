import Xv6.Console
import Xv6.Fs.Layout
import Xv6.Pipe
import Xv6.Vm.UserMem

/-!
`fileread` of `kernel/file.c` and what it does to the memory of the process that calls it.

A call that sleeps finds the pipe or the console as others left them when it goes on, so what
it finds each time it has the lock is given by a list. The process itself is asleep, so that
nobody changes its memory.
-/

namespace Xv6.Fileread

open Lib.Bytes Lib.Wp Lib.Conc Lib.Conc.Prog Vm List
open Fs (slice readCount readCount_le)

/-! ### The three ways to read -/

/-- The second loop of `piperead` with `k` bytes to go and `i` read. -/
def pipeLoop (pagetable addr : ℕ) : ℕ → ℕ → Pipes.Pipe → Code (Pipes.Pipe × Pipes.Ends)
  | 0, i, pi => return (pi, .returns i .done)
  | k + 1, i, pi =>
    if pi.isEmpty then
      return (pi, .returns i .empty)
    else do
      let ok ← copyout pagetable (u64 (addr + i)) [pi.front]
      if ok then
        pipeLoop pagetable addr k (i + 1) pi.advance
      else
        return (pi.advance, .returns i .fault)

/-- A stretch of `piperead(pi, addr, n)`. -/
def piperead (pagetable addr : ℕ) (n : ℤ) (killed : Bool) (pi : Pipes.Pipe) :
    Code (Pipes.Pipe × Pipes.Ends) :=
  if pi.isEmpty ∧ pi.writeopen = true then
    if killed then return (pi, .returns (-1) .broken) else return (pi, .sleeps 0)
  else
    pipeLoop pagetable addr n.toNat 0 pi

/-- A call of `piperead`, which sleeps in each stretch but the last. -/
def pipeCall (pagetable addr : ℕ) (n : ℤ) : List (Pipes.Pipe × Bool) → Code (Option ℤ)
  | [] => return none
  | (pi, killed) :: found => do
    let o ← piperead pagetable addr n killed pi
    match o.2 with
    | .sleeps _ => pipeCall pagetable addr n found
    | .returns r _ => return some r

/-- A stretch of `consoleread` with `k` bytes to go and `i` read. -/
def consoleLoop (pagetable dst : ℕ) (killed : Bool) :
    ℕ → ℕ → Console.Cons → Code (Console.Cons × Console.Ends)
  | 0, i, c => return (c, .returns i)
  | k + 1, i, c =>
    if c.r = c.w then
      if killed then return (c, .returns (-1)) else return (c, .sleeps i)
    else
      let ch := c.buf (c.r % Console.INPUT_BUF)
      let c' := { c with r := (c.r + 1) % 2 ^ 32 }
      if ch = Console.ctrl 'D' then
        if 0 < i then return (c, .returns i) else return (c', .returns i)
      else do
        let ok ← copyout pagetable (u64 (dst + i)) [ch]
        if ok then
          if ch = Console.newline then
            return (c', .returns (i + 1))
          else
            consoleLoop pagetable dst killed k (i + 1) c'
        else
          return (c', .returns i)

/-- A call of `consoleread(1, dst, n)` that has read `i` bytes. -/
def consoleread (pagetable dst : ℕ) (n : ℤ) : List (Console.Cons × Bool) → ℕ → Code (Option ℤ)
  | [], _ => return none
  | (c, killed) :: found, i => do
    let o ← consoleLoop pagetable dst killed (n.toNat - i) i c
    match o.2 with
    | .sleeps j => consoleread pagetable dst n found j
    | .returns r => return some r

/-- The loop of `readi` from `off`, with `k` bytes to go after `tot`. `block` is what `bread` gives
for the blocks of the file. -/
def readiLoop (pagetable : ℕ) (block : ℕ → Block) (dst : ℕ) : ℕ → ℕ → ℕ → ℕ → Code ℕ
  | 0, tot, _, _ => return tot
  | fuel + 1, tot, off, k =>
    if k = 0 then
      return tot
    else do
      let m := min k (BSIZE - off % BSIZE)
      let ok ← copyout pagetable (u64 (dst + tot)) (slice (block (off / BSIZE)) (off % BSIZE) m)
      if ok then
        readiLoop pagetable block dst fuel (tot + m) (off + m) (k - m)
      else
        return tot

/-- `readi(ip, 1, dst, off, n)` of an inode with `size` bytes. -/
def readi (pagetable : ℕ) (block : ℕ → Block) (size dst off n : ℕ) : Code ℕ :=
  let k := readCount size off n
  readiLoop pagetable block dst k 0 off k

abbrev CONSOLE : ℤ := 1

/-- The part of a `struct file` that says how it is read. -/
inductive Kind
  | none
  | pipe (found : List (Pipes.Pipe × Bool))
  | device (major : ℤ) (found : List (Console.Cons × Bool))
  | inode (size off : UInt32)

structure File where
  readable : Bool
  kind : Kind

/-- `fileread` with `n` given by its 32 bits. There is no result as long as it sleeps. -/
def fileread (pagetable : ℕ) (block : ℕ → Block) (f : File) (addr n : ℕ) : Code (Option ℤ) :=
  if f.readable = false then
    return some (-1)
  else match f.kind with
    | .pipe found => pipeCall pagetable addr (toInt32 n) found
    | .device major found =>
      -- the console is the only device with a `read` in `devsw`
      if major < 0 ∨ NDEV ≤ major ∨ major ≠ CONSOLE then return some (-1)
      else consoleread pagetable addr (toInt32 n) found 0
    | .inode size off => do
      let r ← readi pagetable block size.toNat addr off.toNat (n % 2 ^ 32)
      return some (toInt32 r)
    | .none => liftM (throw (.panic "fileread") : PhysM (Option ℤ))

/-! ### Storing piece by piece -/

variable {s s' : Phys} {root addr : ℕ} {done bytes : List UInt8} {E : Stop → Phys → Prop}

/-- `done` was stored at `addr`. -/
structure Written (s : Phys) (root addr : ℕ) (done : List UInt8) (s' : Phys) : Prop where
  acc : ∀ i < done.length, s.Accessible root (addr + i)
  eq : s' = s.put root addr done

lemma Written.nil (s : Phys) (root addr : ℕ) : Written s root addr [] s :=
  ⟨fun i hi => absurd hi (Nat.not_lt_zero i), rfl⟩

lemma put_append (h : UserTable s root) (hacc : ∀ i < done.length, s.Accessible root (addr + i)) :
    (s.put root addr done).put root (addr + done.length) bytes = s.put root addr (done ++ bytes) := by
  have hframe : (s.put root addr done).frame root = s.frame root := funext (h.put_frame hacc)
  simp only [Phys.put] at hframe ⊢
  rw [hframe, putUser_append]

lemma Written.u64_eq (hw : Written s root addr done s') (haddr : addr < 2 ^ 64) :
    u64 (addr + done.length) = addr + done.length := by
  have hmax : MAXVA = 2 ^ 38 := by decide
  have hlt : addr + done.length < 2 ^ 64 := by
    cases hd : done.length with
    | zero => omega
    | succ n =>
      have := (hw.acc n (by omega)).1
      omega
  rw [u64, Nat.mod_eq_of_lt hlt]

lemma Written.copyout_next (h : UserTable s root) (hw : Written s root addr done s')
    (bytes : List UInt8) :
    Solo E (copyout root (addr + done.length) bytes) (fun ok s'' => ∃ k,
      Written s root addr (done ++ bytes.take k) s'' ∧
      CopyEnd s root (addr + done.length) bytes.length k ok) s' := by
  obtain ⟨hacc, rfl⟩ := hw
  have hframe : (s.put root addr done).frame root = s.frame root := funext (h.put_frame hacc)
  refine Safe.mono ((h.put hacc).copyout_solo (addr + done.length) bytes) ?_
  rintro ok s'' ⟨k, rfl, hr⟩
  rw [hframe] at hr
  have hend := h.copyEnd hr
  refine ⟨k, ⟨fun i hi => ?_, put_append h hacc⟩, hend⟩
  by_cases hlt : i < done.length
  · exact hacc i hlt
  · have hk : i - done.length < k := by
      rw [length_append, length_take] at hi
      omega
    have := hend.done _ hk
    rwa [show addr + done.length + (i - done.length) = addr + i by omega] at this

lemma Written.copyout_byte (h : UserTable s root) (hw : Written s root addr done s') (b : UInt8) :
    Solo E (copyout root (addr + done.length) [b]) (fun ok s'' =>
      (ok = true ∧ s.Accessible root (addr + done.length) ∧ Written s root addr (done ++ [b]) s'') ∨
      (ok = false ∧ ¬ s.Accessible root (addr + done.length) ∧ Written s root addr done s'')) s' := by
  refine Safe.mono (hw.copyout_next h [b]) ?_
  rintro ok s'' ⟨k, hw', hend⟩
  have hiff : ok = true ↔ s.Accessible root (addr + done.length) := by
    rw [hend.ok_iff]
    exact ⟨fun hall => hall 0 Nat.one_pos, fun hacc i hi => by
      rwa [show i = 0 by rw [length_singleton] at hi; omega, Nat.add_zero]⟩
  cases ok with
  | true =>
    rw [hend.all rfl] at hw'
    exact .inl ⟨rfl, hiff.mp rfl, hw'⟩
  | false =>
    have hk : k = 0 := by
      have := (hend.part rfl).1
      rw [length_singleton] at this
      omega
    rw [hk, take_zero, append_nil] at hw'
    exact .inr ⟨rfl, fun hacc => absurd (hiff.mpr hacc) (by decide), hw'⟩

/-! ### `piperead` -/

open Pipes (Stores)

variable {pi : Pipes.Pipe} {q : List UInt8} {k i : ℕ}

/-- Whether the `i`th byte can be stored. -/
def into (s : Phys) (root addr i : ℕ) : Bool := decide (s.Accessible root (addr + i))

def result (o : Pipes.Out) : Pipes.Pipe × Pipes.Ends := (o.pi, o.ends)

/-- How the second loop of `piperead` ends: the first `t` of the bytes that it removes are stored,
which are all of them, or all but one whose address is not accessible. -/
structure PipeEnd (dst : ℕ → Bool) (k i t : ℕ) (o : Pipes.Out) : Prop where
  ends : ∃ why, o.ends = .returns (i + t : ℕ) why
  le : t ≤ k
  stored : ∀ j < t, dst (i + j) = true
  bytes : o.bytes.length = t ∧ (t = k ∨ o.pi.isEmpty) ∨
    o.bytes.length = t + 1 ∧ t < k ∧ dst (i + t) = false

variable {dst : ℕ → Bool} {t : ℕ} {o : Pipes.Out}

lemma PipeEnd.none {why : Pipes.Why} (h : 0 = k ∨ pi.isEmpty) :
    PipeEnd dst k i 0 ⟨pi, [], .returns i why⟩ :=
  ⟨⟨why, rfl⟩, Nat.zero_le k, fun _ hj => absurd hj (Nat.not_lt_zero _), .inl ⟨rfl, h⟩⟩

lemma PipeEnd.le_bytes (h : PipeEnd dst k i t o) : t ≤ o.bytes.length := by
  rcases h.bytes with hb | hb <;> omega

lemma PipeEnd.push (h : PipeEnd dst k (i + 1) t o) (hd : dst i = true) (ch : UInt8) : PipeEnd dst (k + 1) i (t + 1) (o.push ch) := by
  have hadd : ∀ j, i + (j + 1) = i + 1 + j := fun j => by omega
  refine ⟨by rw [hadd]; exact h.ends, Nat.succ_le_succ h.le, fun j hj => ?_, ?_⟩
  · cases j with
    | zero => exact hd
    | succ j =>
      rw [hadd]
      exact h.stored j (by omega)
  · rw [hadd]
    refine h.bytes.imp (fun hb => ⟨congrArg (· + 1) hb.1, ?_⟩) fun hb => ⟨congrArg (· + 1) hb.1, ?_⟩
    · exact hb.2.imp_left (congrArg (· + 1))
    · exact ⟨Nat.succ_lt_succ hb.2.1, hb.2.2⟩

/-- The loop does to the pipe what it does with any destination, and stores what it counts. -/
lemma pipeLoop_refines (h : UserTable s root) (haddr : addr < 2 ^ 64) (pi : Pipes.Pipe)
    (hw : Written s root addr done s') :
    Solo E (pipeLoop root addr k done.length pi) (fun o s'' => ∃ t,
      o = result (Pipes.readLoop (into s root addr) k done.length pi) ∧
      PipeEnd (into s root addr) k done.length t
        (Pipes.readLoop (into s root addr) k done.length pi) ∧
      Written s root addr
        (done ++ (Pipes.readLoop (into s root addr) k done.length pi).bytes.take t) s'') s' := by
  induction k generalizing pi done s' with
  | zero => exact ⟨0, rfl, .none (.inl rfl), by simpa using hw⟩
  | succ k ih =>
    unfold pipeLoop Pipes.readLoop
    by_cases he : pi.isEmpty
    · rw [if_pos he, if_pos he]
      exact ⟨0, rfl, .none (.inr he), by simpa using hw⟩
    rw [if_neg he, if_neg he, hw.u64_eq haddr]
    refine Safe.bind (hw.copyout_byte h pi.front) ?_
    rintro ok s'' (⟨rfl, hacc, hw'⟩ | ⟨rfl, hacc, hw'⟩)
    · have hd : into s root addr done.length = true := decide_eq_true hacc
      have hrest := ih pi.advance hw'
      rw [length_append, length_singleton] at hrest
      rw [if_pos rfl, if_pos hd]
      refine Safe.mono hrest ?_
      rintro o s₃ ⟨t, rfl, hend, hw₃⟩
      exact ⟨t + 1, rfl, hend.push hd _, by simpa [Pipes.Out.push] using hw₃⟩
    · have hd : into s root addr done.length = false := decide_eq_false hacc
      rw [if_neg (by decide), if_neg (by simp [hd])]
      refine ⟨0, rfl, ⟨⟨.fault, rfl⟩, Nat.zero_le _, ?_, ?_⟩, by simpa using hw'⟩
      · exact fun j hj => absurd hj (Nat.not_lt_zero j)
      · exact .inr ⟨rfl, Nat.succ_pos k, hd⟩

/-- **A stretch of `piperead` into memory is one of `Pipes.piperead`**: of its results, what it
removes and when it sleeps. -/
lemma piperead_refines (h : UserTable s root) (haddr : addr < 2 ^ 64) (n : ℤ) (killed : Bool)
    (pi : Pipes.Pipe) :
    Solo E (piperead root addr n killed pi) (fun o s' =>
      o = result (Pipes.piperead (into s root addr) n killed pi) ∧
      (pi.isEmpty ∧ o.1 = pi ∧ s' = s ∧ (o.2 = .sleeps 0 ∨ o.2 = .returns (-1) .broken) ∨
        ∃ t, PipeEnd (into s root addr) n.toNat 0 t (Pipes.piperead (into s root addr) n killed pi) ∧
          Written s root addr
            ((Pipes.piperead (into s root addr) n killed pi).bytes.take t) s')) s := by
  unfold piperead Pipes.piperead
  by_cases he : pi.isEmpty ∧ pi.writeopen = true
  · rw [if_pos he, if_pos he]
    cases killed with
    | true => exact ⟨rfl, .inl ⟨he.1, rfl, rfl, .inr rfl⟩⟩
    | false => exact ⟨rfl, .inl ⟨he.1, rfl, rfl, .inl rfl⟩⟩
  · rw [if_neg he, if_neg he]
    refine Safe.mono (pipeLoop_refines h haddr pi (Written.nil s root addr)) ?_
    rintro o s' ⟨t, ho, hend, hw⟩
    exact ⟨ho, .inr ⟨t, hend, hw⟩⟩

lemma stores_length {q' : List UInt8} (h : Stores pi q) (h' : Stores pi q') :
    q.length = q'.length := by
  rw [← h.count Pipes.size_lt, ← h'.count Pipes.size_lt]

/-- The bytes that a stretch removed are those it stored. -/
def LosesNothing (s : Phys) (root addr : ℕ) (q : List UInt8) (o : Pipes.Pipe × Pipes.Ends)
    (s' : Phys) : Prop := match o.2 with
  | .sleeps _ => Stores o.1 q ∧ s' = s
  | .returns r _ => Stores o.1 (q.drop r.toNat) ∧ Stored s s' root addr (q.take r.toNat)

/-- **When a read loses no pipe data.** The bytes that a stretch of `piperead` removes from the pipe
are those that it stores and counts in its result, if and only if every address that a byte of the
pipe is to go to is accessible. -/
theorem piperead_exact_iff (h : UserTable s root) (haddr : addr < 2 ^ 64) (hq : Stores pi q) (n : ℤ)
    (killed : Bool) :
    (∃ o s', run (piperead root addr n killed pi) s = .ok o s' ∧ LosesNothing s root addr q o s') ↔
      ∀ i < min n.toNat q.length, s.Accessible root (addr + i) := by
  obtain ⟨o, s', hrun, ho, hcase⟩ := run_of_solo (piperead_refines h haddr n killed pi)
  have hex : (∃ o s', run (piperead root addr n killed pi) s = .ok o s' ∧
      LosesNothing s root addr q o s') ↔ LosesNothing s root addr q o s' := by
    constructor
    · rintro ⟨o', s'', hrun', hl⟩
      rw [hrun] at hrun'
      cases hrun'
      exact hl
    · exact fun hl => ⟨o, s', hrun, hl⟩
  rw [hex]
  rcases hcase with ⟨he, h1, rfl, h2⟩ | ⟨t, hend, hw⟩
  · obtain rfl : q = [] := (hq.empty_iff Pipes.size_lt).mp he
    refine ⟨fun _ i hi => absurd hi (by simp), fun _ => ?_⟩
    rcases h2 with h2 | h2 <;> rw [LosesNothing, h2, h1]
    · exact ⟨hq, rfl⟩
    · exact ⟨hq, h.stored (Written.nil s' root addr).acc⟩
  · have hreads : Pipes.Reads pi q (Pipes.piperead (into s root addr) n killed pi) :=
      Pipes.piperead_reads hq
    obtain ⟨rest, rfl, hrest⟩ := hreads.stores
    obtain ⟨why, hret⟩ := hend.ends
    rw [ho, LosesNothing, result, hret]
    simp only [Nat.zero_add, Int.toNat_natCast, length_append]
    generalize Pipes.piperead (into s root addr) n killed pi = r at *
    rcases hend.bytes with ⟨hlen, hall⟩ | ⟨hlen, hlt, hacc⟩
    · rw [← hlen, drop_left, take_left]
      rw [← hlen, take_length] at hw
      refine ⟨fun _ i hi => ?_, fun _ => ⟨hrest, hw.eq ▸ h.stored hw.acc⟩⟩
      have hnil := (hrest.empty_iff Pipes.size_lt).mp
      have := of_decide_eq_true (hend.stored i ?_)
      · rwa [Nat.zero_add] at this
      · rcases hall with hk | he
        · omega
        · rw [hnil he, length_nil] at hi
          omega
    · refine ⟨fun hl => ?_, fun hall => absurd (hall t (by omega)) ?_⟩
      · have := stores_length hrest hl.1
        rw [length_drop, length_append] at this
        omega
      · rw [into, Nat.zero_add] at hacc
        exact of_decide_eq_false hacc

/-- A pipe with one byte. -/
def oneByte : Pipes.Pipe := ⟨fun _ => 7, 0, 1, true, true⟩

lemma oneByte_stores : Stores oneByte [7] := by
  refine ⟨by decide, by decide, by decide, fun i hi => ?_⟩
  obtain rfl : i = 0 := by
    rw [length_singleton] at hi
    omega
  rfl

/-- The byte is read into a page of the user. -/
theorem piperead_exact_oneByte : ∃ o s',
    run (piperead 0x80400000 0x1fe000 1 false oneByte) (twoLeaves 0x80403000 0x80404000) = .ok o s' ∧
      LosesNothing (twoLeaves 0x80403000 0x80404000) 0x80400000 0x1fe000 [7] o s' :=
  (piperead_exact_iff twoLeaves_ok (by decide) oneByte_stores 1 false).mpr (by decide +kernel)

/-- `piperead` to address 0, where nothing is mapped, returns 0, and the byte is gone. -/
theorem piperead_loses_byte : UserTable (twoLeaves 0x80403000 0x80404000) 0x80400000 ∧
    Stores oneByte [7] ∧ ∃ o s',
      run (piperead 0x80400000 0 1 false oneByte) (twoLeaves 0x80403000 0x80404000) = .ok o s' ∧
        o.2 = .returns 0 .fault ∧ Stores o.1 [] := by
  refine ⟨twoLeaves_ok, oneByte_stores, ?_⟩
  obtain ⟨o, s', hrun, ho, -⟩ := run_of_solo (piperead_refines twoLeaves_ok
    (by decide : 0 < 2 ^ 64) 1 false oneByte)
  obtain ⟨rest, hq, hrest⟩ := (Pipes.piperead_reads oneByte_stores).stores
  have hout : (Pipes.piperead (into (twoLeaves 0x80403000 0x80404000) 0x80400000 0) 1 false
      oneByte).bytes = [7] := by decide +kernel
  rw [hout] at hq
  obtain rfl := (self_eq_append_right.mp hq)
  subst ho
  exact ⟨_, s', hrun, by decide +kernel, hrest⟩

lemma pipeCall_solo (h : UserTable s root) (haddr : addr < 2 ^ 64) (n : ℤ)
    (found : List (Pipes.Pipe × Bool)) :
    Solo E (pipeCall root addr n found) (fun r s' => ∃ bytes,
      bytes.length ≤ n.toNat ∧ Written s root addr bytes s' ∧ ∀ v, r = some v → v ≤ bytes.length) s := by
  induction found with
  | nil => exact ⟨[], Nat.zero_le _, Written.nil .., fun v hv => by cases hv⟩
  | cons x found ih =>
    refine Safe.bind (piperead_refines h haddr n x.2 x.1) ?_
    rintro o s' ⟨ho, ⟨-, -, rfl, he | he⟩ | ⟨t, hend, hw⟩⟩
    · simp only [he]
      exact ih
    · simp only [he]
      refine ⟨[], Nat.zero_le _, Written.nil .., fun v hv => ?_⟩
      cases hv
      decide
    · obtain ⟨why, hret⟩ := hend.ends
      simp only [ho, result, hret]
      have hlen := length_take_of_le hend.le_bytes
      refine ⟨_, by rw [hlen]; exact hend.le, hw, fun v hv => ?_⟩
      cases hv
      omega

/-! ### `consoleread` -/

lemma consoleLoop_solo (h : UserTable s root) (haddr : addr < 2 ^ 64) (killed : Bool) (c : Console.Cons)
    (hw : Written s root addr done s') :
    Solo E (consoleLoop root addr killed k done.length c) (fun o s'' => ∃ bytes,
      bytes.length ≤ k ∧ Written s root addr (done ++ bytes) s'' ∧
      (o.2 = .sleeps (done ++ bytes).length ∨ o.2 = .returns (-1) ∨
        o.2 = .returns (done ++ bytes).length)) s' := by
  have hnil : Written s root addr (done ++ []) s' := by simpa using hw
  induction k generalizing c done s' with
  | zero => exact ⟨[], le_rfl, hnil, .inr (.inr (by rw [append_nil]))⟩
  | succ k ih =>
    unfold consoleLoop
    by_cases hempty : c.r = c.w
    · rw [if_pos hempty]
      cases killed with
      | true => exact ⟨[], Nat.zero_le _, hnil, .inr (.inl rfl)⟩
      | false => exact ⟨[], Nat.zero_le _, hnil, .inl (by rw [append_nil])⟩
    rw [if_neg hempty]
    simp only
    by_cases hD : c.buf (c.r % Console.INPUT_BUF) = Console.ctrl 'D'
    · rw [if_pos hD]
      split <;> exact ⟨[], Nat.zero_le _, hnil, .inr (.inr (by rw [append_nil]))⟩
    rw [if_neg hD, hw.u64_eq haddr]
    refine Safe.bind (hw.copyout_byte h _) ?_
    rintro ok s'' (⟨rfl, -, hw'⟩ | ⟨rfl, -, hw'⟩)
    · rw [if_pos rfl]
      have hlen : ∀ b, (done ++ [b]).length = done.length + 1 := by simp
      split
      · exact ⟨[_], by simp, hw', .inr (.inr (by simp))⟩
      · have hrest := ih { c with r := (c.r + 1) % 2 ^ 32 } hw' (by simpa using hw')
        rw [hlen] at hrest
        refine Safe.mono hrest ?_
        rintro o s₃ ⟨bytes, hle, hw₃, hends⟩
        rw [append_assoc] at hw₃ hends
        exact ⟨_, by simpa using hle, hw₃, hends⟩
    · rw [if_neg (by decide)]
      exact ⟨[], Nat.zero_le _, by simpa using hw', .inr (.inr (by rw [append_nil]))⟩

lemma consoleread_solo (h : UserTable s root) (haddr : addr < 2 ^ 64) (n : ℤ)
    (found : List (Console.Cons × Bool)) (hw : Written s root addr done s')
    (hle : done.length ≤ n.toNat) :
    Solo E (consoleread root addr n found done.length) (fun r s'' => ∃ bytes,
      bytes.length ≤ n.toNat ∧ Written s root addr bytes s'' ∧
      ∀ v, r = some v → v ≤ bytes.length) s' := by
  induction found generalizing done s' with
  | nil => exact ⟨done, hle, hw, fun v hv => by cases hv⟩
  | cons x found ih =>
    refine Safe.bind (consoleLoop_solo h haddr x.2 x.1 hw) ?_
    rintro o s'' ⟨bytes, hk, hw', hends⟩
    have hle' : (done ++ bytes).length ≤ n.toNat := by
      rw [length_append]
      omega
    rcases hends with he | he | he
    · simp only [he]
      exact ih hw' hle'
    · simp only [he]
      refine ⟨_, hle', hw', fun v hv => ?_⟩
      cases hv
      omega
    · simp only [he]
      refine ⟨_, hle', hw', fun v hv => ?_⟩
      cases hv
      exact le_rfl

/-! ### `readi` -/

lemma slice_length (f : Block) (o m : ℕ) : (slice f o m).length = m := by simp [slice]

/-- `readi` stores at most `k` bytes, and the first of them if its address is accessible. -/
lemma readiLoop_solo (h : UserTable s root) (haddr : addr < 2 ^ 64) (block : ℕ → Block)
    (fuel off k : ℕ) (hw : Written s root addr done s') :
    Solo E (readiLoop root block addr fuel done.length off k) (fun tot s'' => ∃ bytes,
      bytes.length ≤ k ∧ Written s root addr (done ++ bytes) s'' ∧
      tot ≤ (done ++ bytes).length ∧
      (0 < k → 0 < fuel → s.Accessible root (addr + done.length) →
        bytes.head? = some (byte (block (off / BSIZE)) (off % BSIZE)))) s' := by
  have hnil : Written s root addr (done ++ []) s' := by simpa using hw
  induction fuel generalizing off k done s' with
  | zero => exact ⟨[], Nat.zero_le _, hnil, by rw [append_nil], fun _ hf => absurd hf (by omega)⟩
  | succ fuel ih =>
    unfold readiLoop
    by_cases hk : k = 0
    · rw [if_pos hk]
      exact ⟨[], Nat.zero_le _, hnil, by rw [append_nil], fun hk' => absurd hk' (by omega)⟩
    rw [if_neg hk, hw.u64_eq haddr]
    have hm : 0 < min k (BSIZE - off % BSIZE) := by
      have := Nat.mod_lt off (by decide : 0 < BSIZE)
      omega
    have hle : min k (BSIZE - off % BSIZE) ≤ k := Nat.min_le_left ..
    generalize min k (BSIZE - off % BSIZE) = m at hm hle
    have hlen := slice_length (block (off / BSIZE)) (off % BSIZE) m
    have hhead : ∀ t, 0 < t → ((slice (block (off / BSIZE)) (off % BSIZE) m).take t).head? =
        some (byte (block (off / BSIZE)) (off % BSIZE)) := by
      intro t ht
      obtain ⟨m, rfl⟩ := Nat.exists_eq_succ_of_ne_zero hm.ne'
      obtain ⟨t, rfl⟩ := Nat.exists_eq_succ_of_ne_zero ht.ne'
      simp [slice, range_succ_eq_map]
    refine Safe.bind (hw.copyout_next h _) ?_
    rintro ok s'' ⟨t, hw', hend⟩
    rw [hlen] at hend
    cases ok with
    | true =>
      obtain rfl := hend.all rfl
      have hfirst := hhead t hm
      rw [take_of_length_le hlen.le] at hw' hfirst
      have hrest := ih (off + t) (k - t) hw' (by simpa using hw')
      rw [length_append, hlen] at hrest
      rw [if_pos rfl]
      refine Safe.mono hrest ?_
      rintro tot s₃ ⟨bytes, hle', hw₃, htot, -⟩
      rw [append_assoc] at hw₃ htot
      refine ⟨_, by rw [length_append, hlen]; omega, hw₃, htot, fun _ _ _ => ?_⟩
      rw [List.head?_append, hfirst]
      rfl
    | false =>
      rw [if_neg (by decide)]
      obtain ⟨hlt, hno, -⟩ := hend.part rfl
      refine ⟨_, by rw [length_take, hlen]; omega, hw', by simp, fun _ _ hacc => hhead t ?_⟩
      by_contra h0
      obtain rfl : t = 0 := by omega
      exact hno hacc

/-! ### `fileread` -/

/-- Memory changed only at user addresses from `addr` to `addr + len`. -/
structure Within (s s' : Phys) (root addr len : ℕ) : Prop where
  user : ∀ a, s.Accessible root a → ¬ (addr ≤ a ∧ a < addr + len) →
    s'.userByte root a = s.userByte root a
  other : ∀ q o, (∀ a, s.Accessible root a → ¬ (pte2pa (s.pte root a) = q ∧ a % 4096 = o)) →
    byte (s'.mem q) o = byte (s.mem q) o
  pte : ∀ a < MAXVA, s'.pte root a = s.pte root a

lemma Written.within (h : UserTable s root) (hw : Written s root addr bytes s') {len : ℕ}
    (hlen : bytes.length ≤ len) : Within s s' root addr len := by
  obtain ⟨hacc, rfl⟩ := hw
  have hst := h.stored hacc
  refine ⟨fun a ha hout => ?_, fun q o hno => hst.other q o fun i hi heq => ?_, hst.pte⟩
  · rw [hst.user a ha, if_neg (by omega)]
  · rw [frame_eq (hacc i hi)] at heq
    exact hno _ (hacc i hi) heq

/-- `fileread` stays within the buffer and returns no more than its size. -/
def ReadsWithin (s : Phys) (root : ℕ) (block : ℕ → Block) (f : File) (addr n : ℕ) : Prop :=
  ∃ r s', run (fileread root block f addr n) s = .ok r s' ∧
    Within s s' root addr (toInt32 n).toNat ∧ ∀ v, r = some v → v ≤ max (toInt32 n) 0

/-- The count is not negative, or the file is not read by `readi`, or there is nothing that `readi`
would read. -/
def Careful (s : Phys) (root : ℕ) (f : File) (addr n : ℕ) : Prop :=
  0 ≤ toInt32 n ∨ f.readable = false ∨ match f.kind with
    | .inode size off => -toInt32 n ≤ off.toNat ∨ size.toNat ≤ off.toNat ∨ ¬ s.Accessible root addr
    | _ => True

lemma toInt32_neg {n : ℕ} (h : toInt32 n < 0) :
    (n % 2 ^ 32 : ℕ) = toInt32 n + 2 ^ 32 ∧ -2 ^ 31 ≤ toInt32 n := by
  unfold toInt32 at *
  split at h <;> split <;> omega

lemma toInt32_nonneg {n : ℕ} (h : 0 ≤ toInt32 n) :
    (n % 2 ^ 32 : ℕ) = toInt32 n ∧ n % 2 ^ 32 < 2 ^ 31 := by
  unfold toInt32 at *
  split at h <;> split <;> omega

lemma readCount_neg {n : ℕ} (size off : UInt32) (hn : toInt32 n < 0) :
    readCount size.toNat off.toNat (n % 2 ^ 32) = 0 ↔
      -toInt32 n ≤ off.toNat ∨ size.toNat ≤ off.toNat := by
  have hn' := toInt32_neg hn
  have hsize : size.toNat < 2 ^ 32 := size.toNat_lt
  have hoff : off.toNat < 2 ^ 32 := off.toNat_lt
  have hlow : n % 2 ^ 32 < 2 ^ 32 := Nat.mod_lt _ (by decide)
  obtain ⟨w, hw⟩ : ∃ w, w = n % 2 ^ 32 := ⟨_, rfl⟩
  rw [← hw] at hn' hlow ⊢
  unfold readCount
  by_cases hwrap : off.toNat + w < 2 ^ 32
  · rw [Nat.mod_eq_of_lt hwrap]
    split
    · omega
    · split <;> omega
  · rw [Nat.mod_eq_sub_mod (by omega), Nat.mod_eq_of_lt (by omega), if_pos (by omega)]
    omega

lemma exists_other (x : UInt8) : ∃ b, b ≠ x := by
  by_cases h : x = 0
  · exact ⟨1, by rw [h]; decide⟩
  · exact ⟨0, fun h' => h h'.symm⟩

lemma inode_run (h : UserTable s root) (haddr : addr < 2 ^ 64) (block : ℕ → Block) (size off : UInt32)
    (n : ℕ) : ∃ tot s' bytes,
      run (fileread root block ⟨true, .inode size off⟩ addr n) s = .ok (some (toInt32 tot)) s' ∧
      bytes.length ≤ readCount size.toNat off.toNat (n % 2 ^ 32) ∧ Written s root addr bytes s' ∧
      tot ≤ bytes.length ∧ (0 < readCount size.toNat off.toNat (n % 2 ^ 32) →
        s.Accessible root addr →
        bytes.head? = some (byte (block (off.toNat / BSIZE)) (off.toNat % BSIZE))) := by
  obtain ⟨tot, s', hrun, bytes, hle, hw, htot, hhead⟩ := run_of_solo
    (readiLoop_solo h haddr block (readCount size.toNat off.toNat (n % 2 ^ 32)) off.toNat
      (readCount size.toNat off.toNat (n % 2 ^ 32)) (Written.nil s root addr))
  refine ⟨tot, s', bytes, ?_, hle, hw, htot, fun hk => hhead hk hk⟩
  rw [fileread, if_neg (by simp)]
  exact run_bind hrun

/-- **When `read` stays within the buffer.** Whatever the blocks of the file hold, `fileread` changes
the memory of its caller only between `addr` and `addr + max n 0` and returns at most `max n 0`, if
and only if `Careful` holds. A negative count that does not make the offset wrap is taken for a large
one. -/
theorem fileread_within_iff (h : UserTable s root) (haddr : addr < 2 ^ 64) (f : File) (n : ℕ)
    (hf : f.kind ≠ .none) :
    (∀ block, ReadsWithin s root block f addr n) ↔ Careful s root f addr n := by
  obtain ⟨readable, kind⟩ := f
  cases readable with
  | false =>
    refine ⟨fun _ => .inr (.inl rfl), fun _ block => ⟨some (-1), s, rfl, ?_, fun v hv => ?_⟩⟩
    · exact (Written.nil s root addr).within h (Nat.zero_le _)
    · cases hv
      omega
  | true =>
    have hmax : ((toInt32 n).toNat : ℤ) = max (toInt32 n) 0 := Int.toNat_eq_max _
    cases kind with
    | none => exact absurd rfl hf
    | pipe found =>
      refine ⟨fun _ => .inr (.inr trivial), fun _ block => ?_⟩
      obtain ⟨r, s', hrun, bytes, hle, hw, hv⟩ := run_of_solo
        (pipeCall_solo h haddr (toInt32 n) found)
      refine ⟨r, s', hrun, hw.within h hle, fun v hr => ?_⟩
      have := hv v hr
      omega
    | device major found =>
      refine ⟨fun _ => .inr (.inr trivial), fun _ block => ?_⟩
      by_cases hm : major < 0 ∨ NDEV ≤ major ∨ major ≠ CONSOLE
      · refine ⟨some (-1), s, ?_, (Written.nil s root addr).within h (Nat.zero_le _), fun v hv => ?_⟩
        · rw [fileread, if_neg (by simp)]
          simp only [if_pos hm]
          rfl
        · cases hv
          omega
      · obtain ⟨r, s', hrun, bytes, hle, hw, hv⟩ := run_of_solo
          (consoleread_solo h haddr (toInt32 n) found (Written.nil s root addr) (Nat.zero_le _))
        refine ⟨r, s', ?_, hw.within h hle, fun v hr => ?_⟩
        · rw [fileread, if_neg (by simp)]
          simp only [if_neg hm]
          exact hrun
        · have := hv v hr
          omega
    | inode size off =>
      constructor
      · intro hall
        by_contra hcare
        simp only [Careful, not_or, not_le, not_not, Bool.true_eq_false, not_false_eq_true,
          true_and] at hcare
        obtain ⟨hneg, hoff, hsize, hacc⟩ := hcare
        have hcount : 0 < readCount size.toNat off.toNat (n % 2 ^ 32) := by
          have := (readCount_neg size off hneg).not.mpr (by omega)
          omega
        -- a file whose first byte differs from what the user has there
        obtain ⟨b, hb⟩ := exists_other (s.userByte root addr)
        obtain ⟨r, s', hrun, hwithin, -⟩ := hall fun _ _ => b
        obtain ⟨tot, s'', bytes, hrun', -, hw, -, hhead⟩ := inode_run h haddr (fun _ _ => b) size off n
        rw [hrun'] at hrun
        cases hrun
        have hsame := hwithin.user addr hacc (by omega)
        obtain ⟨rest, hbytes⟩ : ∃ rest, bytes = b :: rest := by
          have hfirst := hhead hcount hacc
          rw [byte_of_lt _ (Nat.mod_lt _ (by decide))] at hfirst
          exact List.head?_eq_some_iff.mp hfirst
        rw [hw.eq, (h.stored hw.acc).user addr hacc, hbytes, if_pos (by simp), Nat.sub_self] at hsame
        exact hb hsame
      · intro hcare block
        obtain ⟨tot, s', bytes, hrun, hle, hw, htot, hhead⟩ := inode_run h haddr block size off n
        by_cases hn : 0 ≤ toInt32 n
        · obtain ⟨hn', hlt⟩ := toInt32_nonneg hn
          have hcount := readCount_le size.toNat off.toNat (n % 2 ^ 32)
          refine ⟨_, s', hrun, hw.within h (by omega), fun v hv => ?_⟩
          cases hv
          rw [toInt32_of_lt (by omega)]
          omega
        · have hnone : bytes = [] := by
            rcases (hcare.resolve_left hn).resolve_left (by simp) with hoff | hsize | hacc
            · rw [(readCount_neg size off (by omega)).mpr (.inl hoff), Nat.le_zero] at hle
              exact eq_nil_of_length_eq_zero hle
            · rw [(readCount_neg size off (by omega)).mpr (.inr hsize), Nat.le_zero] at hle
              exact eq_nil_of_length_eq_zero hle
            · by_contra hne
              exact hacc (hw.acc 0 (length_pos_of_ne_nil hne))
          rw [hnone, length_nil, Nat.le_zero] at htot
          rw [hnone] at hw
          refine ⟨_, s', hrun, hw.within h (Nat.zero_le _), fun v hv => ?_⟩
          cases hv
          rw [htot, toInt32_of_lt (by decide)]
          omega

/-- Reading eight bytes of a file into a page of the user. -/
theorem fileread_within_eight : ReadsWithin (twoLeaves 0x80403000 0x80404000) 0x80400000
    (fun _ _ => 7) ⟨true, .inode 100 0⟩ 0x1fe000 8 :=
  (fileread_within_iff twoLeaves_ok (by decide) ⟨true, .inode 100 0⟩ 8 (by simp)).mpr
    (.inl (by decide)) _

/-- With a count of -1 and the offset 0, the 100 bytes of a file are read. -/
theorem fileread_outside : UserTable (twoLeaves 0x80403000 0x80404000) 0x80400000 ∧
    (returned (fileread 0x80400000 (fun _ _ => 7) ⟨true, .inode 100 0⟩ 0x1fe000 0xffffffff)
      (twoLeaves 0x80403000 0x80404000) = some (some 100) ∧
    (after (fileread 0x80400000 (fun _ _ => 7) ⟨true, .inode 100 0⟩ 0x1fe000 0xffffffff)
      (twoLeaves 0x80403000 0x80404000)).userByte 0x80400000 0x1fe000 = 7 ∧
    (twoLeaves 0x80403000 0x80404000).userByte 0x80400000 0x1fe000 = 0) :=
  ⟨twoLeaves_ok, by decide +kernel, by decide +kernel, by decide +kernel⟩

end Xv6.Fileread
