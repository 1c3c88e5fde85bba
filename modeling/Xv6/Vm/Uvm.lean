import Xv6.Vm.Mem

/-!
The functions of `kernel/vm.c` on user page tables.

A loop over pages ends when `walk` is called with an address past `MAXVA`, so `rounds`
rounds are more than any of them makes. Functions that return `0` or `-1` return `true` or
`false` here.
-/

namespace Xv6.Vm

open Lib.Bytes Lib.Wp Lib.Conc Lib.Own Lib.Conc.Prog

/-- More rounds than there are pages below `MAXVA`. -/
def rounds : ℕ := 2 ^ 27

def hang {α : Type} : Code α := liftM (throw .hang : PhysM α)

def run {α : Type} (x : Code α) (s : Phys) : EStateM.Result Stop Phys α := alone x s

/-! ### Walking the tree -/

/-- The loop of `walk`, from `level` down. -/
def walkDown (va : ℕ) (alloc : Bool) : ℕ → ℕ → Code ℕ
  | 0, pagetable => return pagetable + 8 * px 0 va
  | level + 1, pagetable => do
    let pte := pagetable + 8 * px (level + 1) va
    let v ← load pte
    if v &&& PTE_V ≠ 0 then
      walkDown va alloc level (pte2pa v)
    else if alloc then do
      let pt ← kalloc
      if pt = 0 then
        return 0
      else do
        memset pt 0
        store pte (pa2pte pt ||| PTE_V)
        walkDown va alloc level pt
    else
      return 0

/-- The address of the entry for `va`, `0` if there is none. -/
def walk (pagetable va : ℕ) (alloc : Bool) : Code ℕ := do
  panicIf (va ≥ MAXVA) "walk"
  walkDown va alloc 2 pagetable

def walkaddr (pagetable va : ℕ) : Code ℕ :=
  if va ≥ MAXVA then
    return 0
  else do
    let pte ← walk pagetable va false
    if pte = 0 then
      return 0
    else do
      let v ← load pte
      if v &&& PTE_V = 0 then return 0
      else if v &&& PTE_U = 0 then return 0
      else return pte2pa v

/-! ### Mapping and unmapping -/

/-- One round of `mappages`, at address `a`. -/
def mapStep (pagetable last perm : ℕ) (cur : ℕ × ℕ) : Code (ℕ × ℕ ⊕ Bool) := do
  let pte ← walk pagetable cur.1 true
  if pte = 0 then
    return .inr false
  else do
    let v ← load pte
    panicIf (v &&& PTE_V ≠ 0) "remap"
    store pte (pa2pte cur.2 ||| (perm ||| PTE_V))
    if cur.1 = last then
      return .inr true
    else
      return .inl (u64 (cur.1 + PGSIZE), u64 (cur.2 + PGSIZE))

def mappages (pagetable va size pa perm : ℕ) : Code Bool :=
  -- `va + size - 1` in `uint64`
  loop hang (mapStep pagetable (pgRoundDown (u64 (va + size + (2 ^ 64 - 1)))) perm) rounds
    (pgRoundDown va, pa)

/-- One round of `uvmunmap`. -/
def unmapStep (pagetable stop : ℕ) (do_free : Bool) (a : ℕ) : Code (ℕ ⊕ Unit) :=
  if a < stop then do
    let pte ← walk pagetable a false
    panicIf (pte = 0) "uvmunmap: walk"
    let v ← load pte
    panicIf (v &&& PTE_V = 0) "uvmunmap: not mapped"
    panicIf (pteFlags v = PTE_V) "uvmunmap: not a leaf"
    doIf (do_free = true) (kfree (pte2pa v))
    store pte 0
    return .inl (u64 (a + PGSIZE))
  else
    return .inr ()

def uvmunmap (pagetable va npages : ℕ) (do_free : Bool) : Code Unit := do
  panicIf (va % PGSIZE ≠ 0) "uvmunmap: not aligned"
  loop hang (unmapStep pagetable (u64 (va + npages * PGSIZE)) do_free) rounds va

def uvmcreate : Code ℕ := do
  let pagetable ← kalloc
  doIf (pagetable ≠ 0) (memset pagetable 0)
  return pagetable

def uvmclear (pagetable va : ℕ) : Code Unit := do
  let pte ← walk pagetable va false
  panicIf (pte = 0) "uvmclear"
  let v ← load pte
  store pte (clearU v)

/-! ### Growing, shrinking and copying an address space -/

/-- `uint64` from an `int`. -/
def intToU64 (n : ℕ) : ℕ := (toInt32 n % 2 ^ 64).toNat

def uvmdealloc (pagetable oldsz newsz : ℕ) : Code ℕ :=
  if newsz ≥ oldsz then
    return oldsz
  else do
    doIf (pgRoundUp newsz < pgRoundUp oldsz)
      (uvmunmap pagetable (pgRoundUp newsz)
        (intToU64 ((pgRoundUp oldsz - pgRoundUp newsz) / PGSIZE)) true)
    return newsz

/-- One round of `uvmalloc`, whose rounded old size is `oldsz`. -/
def allocStep (pagetable oldsz newsz a : ℕ) : Code (ℕ ⊕ ℕ) :=
  if a < newsz then do
    let mem ← kalloc
    if mem = 0 then do
      let _ ← uvmdealloc pagetable a oldsz
      return .inr 0
    else do
      memset mem 0
      let ok ← mappages pagetable a PGSIZE mem (PTE_W ||| PTE_X ||| PTE_R ||| PTE_U)
      if ok then
        return .inl (u64 (a + PGSIZE))
      else do
        kfree mem
        let _ ← uvmdealloc pagetable a oldsz
        return .inr 0
  else
    return .inr newsz

/-- The new size, or `0` on error. -/
def uvmalloc (pagetable oldsz newsz : ℕ) : Code ℕ :=
  if newsz < oldsz then
    return oldsz
  else
    loop hang (allocStep pagetable (pgRoundUp oldsz) newsz) rounds (pgRoundUp oldsz)

/-- Free the page-table pages from `pagetable` down, at most `depth` levels. -/
def freewalk : ℕ → ℕ → Code Unit
  | 0, _ => hang
  | depth + 1, pagetable => do
    loop hang (fun i => if i < 512 then do
        let pte ← load (pagetable + 8 * i)
        if pte &&& PTE_V ≠ 0 ∧ pte &&& (PTE_R ||| PTE_W ||| PTE_X) = 0 then do
          -- this entry points to a lower-level page table
          freewalk depth (pte2pa pte)
          store (pagetable + 8 * i) 0
          return .inl (i + 1)
        else do
          panicIf (pte &&& PTE_V ≠ 0) "freewalk: leaf"
          return .inl (i + 1)
      else
        return .inr ()) rounds 0
    kfree pagetable

def uvmfree (pagetable sz : ℕ) : Code Unit := do
  doIf (sz > 0) (uvmunmap pagetable 0 (pgRoundUp sz / PGSIZE) true)
  freewalk rounds pagetable

/-- One round of `uvmcopy`. -/
def copyStep (old new sz i : ℕ) : Code (ℕ ⊕ Bool) :=
  if i < sz then do
    let pte ← walk old i false
    panicIf (pte = 0) "uvmcopy: pte should exist"
    let v ← load pte
    panicIf (v &&& PTE_V = 0) "uvmcopy: page not present"
    let mem ← kalloc
    if mem = 0 then do
      uvmunmap new 0 (i / PGSIZE) true
      return .inr false
    else do
      let src ← readBytes (pte2pa v) PGSIZE
      writeBytes mem src
      let ok ← mappages new i PGSIZE mem (pteFlags v)
      if ok then
        return .inl (u64 (i + PGSIZE))
      else do
        kfree mem
        uvmunmap new 0 (i / PGSIZE) true
        return .inr false
  else
    return .inr true

def uvmcopy (old new sz : ℕ) : Code Bool :=
  loop hang (copyStep old new sz) rounds 0

/-- Load `src` at address `0` of a new page table, for the first process. -/
def uvminit (pagetable : ℕ) (src : List UInt8) : Code Unit := do
  panicIf (src.length ≥ PGSIZE) "inituvm: more than a page"
  let mem ← kalloc
  memset mem 0
  let _ ← mappages pagetable 0 PGSIZE mem (PTE_W ||| PTE_R ||| PTE_X ||| PTE_U)
  writeBytes mem src

/-! ### The page table of a process, from `kernel/proc.c` -/

def getTrampoline : Code ℕ := liftM (Phys.trampoline <$> get : PhysM ℕ)

/-- A page table with no user memory, `0` if there is no memory for it. -/
def procPagetable (trapframe : ℕ) : Code ℕ := do
  let pagetable ← uvmcreate
  if pagetable = 0 then
    return 0
  else do
    let trampoline ← getTrampoline
    let ok ← mappages pagetable TRAMPOLINE PGSIZE trampoline (PTE_R ||| PTE_X)
    if ok then do
      let ok ← mappages pagetable TRAPFRAME PGSIZE trapframe (PTE_R ||| PTE_W)
      if ok then
        return pagetable
      else do
        uvmunmap pagetable TRAMPOLINE 1 false
        uvmfree pagetable 0
        return 0
    else do
      uvmfree pagetable 0
      return 0

def procFreepagetable (pagetable sz : ℕ) : Code Unit := do
  uvmunmap pagetable TRAMPOLINE 1 false
  uvmunmap pagetable TRAPFRAME 1 false
  uvmfree pagetable sz

/-! ### Copies between kernel and user -/

/-- One round of `copyout`, with the bytes still to copy. -/
def outStep (pagetable : ℕ) (cur : ℕ × List UInt8) : Code (ℕ × List UInt8 ⊕ Bool) :=
  if cur.2 = [] then
    return .inr true
  else do
    let va0 := pgRoundDown cur.1
    let pa0 ← walkaddr pagetable va0
    if pa0 = 0 then
      return .inr false
    else do
      let n := min (PGSIZE - (cur.1 - va0)) cur.2.length
      writeBytes (pa0 + (cur.1 - va0)) (cur.2.take n)
      return .inl (u64 (va0 + PGSIZE), cur.2.drop n)

def copyout (pagetable dstva : ℕ) (src : List UInt8) : Code Bool :=
  loop hang (outStep pagetable) rounds (dstva, src)

/-- One round of `copyin`: the address, the bytes left to copy, the bytes copied. -/
def inStep (pagetable : ℕ) (cur : ℕ × ℕ × List UInt8) :
    Code (ℕ × ℕ × List UInt8 ⊕ Bool × List UInt8) :=
  if cur.2.1 = 0 then
    return .inr (true, cur.2.2)
  else do
    let va0 := pgRoundDown cur.1
    let pa0 ← walkaddr pagetable va0
    if pa0 = 0 then
      return .inr (false, cur.2.2)
    else do
      let n := min (PGSIZE - (cur.1 - va0)) cur.2.1
      let bytes ← readBytes (pa0 + (cur.1 - va0)) n
      return .inl (u64 (va0 + PGSIZE), cur.2.1 - n, cur.2.2 ++ bytes)

/-- Whether all bytes could be copied, and those that were. -/
def copyin (pagetable srcva len : ℕ) : Code (Bool × List UInt8) :=
  loop hang (inStep pagetable) rounds (srcva, len, [])

/-- One round of `copyinstr`. -/
def strStep (pagetable : ℕ) (cur : ℕ × ℕ × List UInt8) :
    Code (ℕ × ℕ × List UInt8 ⊕ Bool × List UInt8) :=
  if cur.2.1 = 0 then
    return .inr (false, cur.2.2)
  else do
    let va0 := pgRoundDown cur.1
    let pa0 ← walkaddr pagetable va0
    if pa0 = 0 then
      return .inr (false, cur.2.2)
    else do
      let n := min (PGSIZE - (cur.1 - va0)) cur.2.1
      let bytes ← readBytes (pa0 + (cur.1 - va0)) n
      if 0 ∈ bytes then
        return .inr (true, cur.2.2 ++ bytes.takeWhile (· ≠ 0))
      else
        return .inl (u64 (va0 + PGSIZE), cur.2.1 - n, cur.2.2 ++ bytes)

/-- Whether the string ends within `max` bytes, and its bytes. -/
def copyinstr (pagetable srcva max : ℕ) : Code (Bool × List UInt8) :=
  loop hang (strStep pagetable) rounds (srcva, max, [])

/-! ### `fork` -/

/-- The bytes of a `struct trapframe`, and where `a0` is in it. -/
abbrev TRAPSIZE : ℕ := 288
abbrev A0 : ℕ := 112

/-- `*(np->trapframe) = *(p->trapframe); np->trapframe->a0 = 0;` -/
def copyTrapframe (dst src : ℕ) : Code Unit := do
  let regs ← readBytes src TRAPSIZE
  writeBytes dst regs
  store (dst + A0) 0

end Xv6.Vm
