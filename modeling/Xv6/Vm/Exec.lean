import Xv6.Fs.Layout
import Xv6.Vm.Uvm

/-!
Building the memory image of a program: the part of `kernel/exec.c` between the look-up of
the file and the commit to the new image.

The file is given by its contents, which stay as they are while `exec` has its inode locked.
-/

namespace Xv6.Vm

open Lib.Bytes Lib.Wp Lib.Conc Lib.Conc.Prog

abbrev MAXARG : ℕ := 32

/-- The bytes that `readi` copies to the kernel. -/
def readi (data : List UInt8) (off n : ℕ) : List UInt8 :=
  (data.drop off).take (Fs.readCount data.length off n)

/-- The number in `k` bytes at `o`. -/
def number (bytes : List UInt8) (o k : ℕ) : ℕ :=
  ((bytes.drop o).take k).foldr (fun b v => b.toNat + 256 * v) 0

def numberBytes (v k : ℕ) : List UInt8 := (List.range k).map fun i => UInt8.ofNat (v / 256 ^ i)

/-- One round of `loadseg`. -/
def loadStep (pagetable va : ℕ) (data : List UInt8) (offset sz i : ℕ) : Code (ℕ ⊕ Bool) :=
  if i < sz then do
    let pa ← walkaddr pagetable (u64 (va + i))
    panicIf (pa = 0) "loadseg: address should exist"
    let n := if sz - i < PGSIZE then sz - i else PGSIZE
    let bytes := readi data ((offset + i) % 2 ^ 32) n
    writeBytes pa bytes
    if bytes.length ≠ n then
      return .inr false
    else
      return .inl ((i + PGSIZE) % 2 ^ 32)
  else
    return .inr true

def loadseg (pagetable va : ℕ) (data : List UInt8) (offset sz : ℕ) : Code Bool := do
  panicIf (va % PGSIZE ≠ 0) "loadseg: va must be page aligned"
  loop hang (loadStep pagetable va data offset sz) rounds 0

/-- Where the loop over the program headers is: their number, the offset of the next one, the
size of the image so far. -/
structure Seg where
  i : ℕ
  off : ℕ
  sz : ℕ

/-- One round of the loop over the program headers. The result is whether all could be loaded,
and the size. -/
def segStep (pagetable : ℕ) (data : List UInt8) (phnum : ℕ) (g : Seg) : Code (Seg ⊕ Bool × ℕ) :=
  if g.i < phnum then
    let ph := readi data g.off 56
    let filesz := number ph 32 8
    let memsz := number ph 40 8
    let vaddr := number ph 16 8
    if ph.length ≠ 56 then
      return .inr (false, g.sz)
    else if number ph 0 4 ≠ 1 then
      return .inl ⟨g.i + 1, (g.off + 56) % 2 ^ 32, g.sz⟩
    else if memsz < filesz then
      return .inr (false, g.sz)
    else if u64 (vaddr + memsz) < vaddr then
      return .inr (false, g.sz)
    else do
      let sz1 ← uvmalloc pagetable g.sz (u64 (vaddr + memsz))
      if sz1 = 0 then
        return .inr (false, g.sz)
      else if vaddr % PGSIZE ≠ 0 then
        return .inr (false, sz1)
      else do
        let ok ← loadseg pagetable vaddr data (number ph 8 8 % 2 ^ 32) (filesz % 2 ^ 32)
        if ok then
          return .inl ⟨g.i + 1, (g.off + 56) % 2 ^ 32, sz1⟩
        else
          return .inr (false, sz1)
  else
    return .inr (true, g.sz)

/-- The string in a page. -/
def readStr (pa : ℕ) : Code (List UInt8) := do
  let bytes ← readBytes pa PGSIZE
  return bytes.takeWhile (· ≠ 0)

/-- `sp - n`, down to a multiple of 16. -/
def push (sp n : ℕ) : ℕ :=
  let sp := u64 (sp + 2 ^ 64 - n)
  sp - sp % 16

/-- Push the argument strings, with the stack pointers so far. -/
def pushArgs (pagetable stackbase : ℕ) : List ℕ → ℕ → List ℕ → Code (Option (ℕ × List ℕ))
  | [], sp, ustack => return some (sp, ustack)
  | arg :: argv, sp, ustack =>
    if ustack.length ≥ MAXARG then
      return none
    else do
      let str ← readStr arg
      let sp := push sp (str.length + 1)
      if sp < stackbase then
        return none
      else do
        let ok ← copyout pagetable sp (str ++ [0])
        if ok then
          pushArgs pagetable stackbase argv sp (ustack ++ [sp])
        else
          return none

/-- What `exec` commits to. -/
structure Image where
  pagetable : ℕ
  sz : ℕ
  sp : ℕ
  argc : ℕ
  entry : ℕ

/-- `bad:` once there is a page table. -/
def execBad (pagetable sz : ℕ) : Code (Option Image) := do
  procFreepagetable pagetable sz
  return none

/-- The stack of the new image, with the arguments on it. -/
def execStack (pagetable sz : ℕ) (argv : List ℕ) (entry : ℕ) : Code (Option Image) := do
  let sz := pgRoundUp sz
  let sz1 ← uvmalloc pagetable sz (u64 (sz + 2 * PGSIZE))
  if sz1 = 0 then
    execBad pagetable sz
  else do
    uvmclear pagetable (sz1 - 2 * PGSIZE)
    let stackbase := sz1 - PGSIZE
    match ← pushArgs pagetable stackbase argv sz1 [] with
    | none => execBad pagetable sz1
    | some (sp, ustack) => do
      let sp := push sp ((ustack.length + 1) * 8)
      if sp < stackbase then
        execBad pagetable sz1
      else do
        let ok ← copyout pagetable sp ((ustack ++ [0]).flatMap (numberBytes · 8))
        if ok then
          return some ⟨pagetable, sz1, sp, ustack.length, entry⟩
        else
          execBad pagetable sz1

abbrev ELF_MAGIC : ℕ := 0x464C457F

/-- The fields of the `struct elfhdr` that `exec` uses. -/
structure Elf where
  magic : ℕ
  entry : ℕ
  phoff : ℕ
  phnum : ℕ

def elfhdr (bytes : List UInt8) : Elf where
  magic := number bytes 0 4
  entry := number bytes 24 8
  phoff := number bytes 32 8
  phnum := number bytes 56 2

/-- `exec` from where it has the locked inode, to the end of the loop over the program headers: the
page table, the size and the entry. -/
def loadProgram (data : List UInt8) (trapframe : ℕ) : Code (Option (ℕ × ℕ × ℕ)) :=
  let bytes := readi data 0 64
  let elf := elfhdr bytes
  if bytes.length ≠ 64 then
    return none
  else if elf.magic ≠ ELF_MAGIC then
    return none
  else do
    let pagetable ← procPagetable trapframe
    if pagetable = 0 then
      return none
    else do
      let r ← loop hang (segStep pagetable data elf.phnum) rounds ⟨0, elf.phoff % 2 ^ 32, 0⟩
      if r.1 then
        return some (pagetable, r.2, elf.entry)
      else do
        procFreepagetable pagetable r.2
        return none

/-- The new image, unless the file is no program or there is no memory. -/
def execImage (data : List UInt8) (trapframe : ℕ) (argv : List ℕ) : Code (Option Image) := do
  match ← loadProgram data trapframe with
  | none => return none
  | some (pagetable, sz, entry) => execStack pagetable sz argv entry

/-! ### The arguments of `sys_exec` -/

/-- `fetchaddr` of a process of `sz` bytes. -/
def fetchaddr (pagetable sz addr : ℕ) : Code (Option ℕ) :=
  if addr ≥ sz ∨ u64 (addr + 8) > sz then
    return none
  else do
    let r ← copyin pagetable addr 8
    if r.1 then return some (number r.2 0 8) else return none

/-- Fetch the argument strings, each into a page of its own. The result is whether all could
be fetched, and the pages. -/
def fetchArgs (pagetable sz uargv : ℕ) : ℕ → List ℕ → Code (Bool × List ℕ)
  | 0, argv => return (false, argv)
  | k + 1, argv => do
    match ← fetchaddr pagetable sz (u64 (uargv + 8 * argv.length)) with
    | none => return (false, argv)
    | some uarg =>
      if uarg = 0 then
        return (true, argv)
      else do
        let page ← kalloc
        if page = 0 then
          return (false, argv)
        else do
          let r ← copyinstr pagetable uarg PGSIZE
          writeBytes page (if r.1 then r.2 ++ [0] else r.2)
          if r.1 then
            fetchArgs pagetable sz uargv k (argv ++ [page])
          else
            return (false, argv ++ [page])

/-- `kfree` of each page. -/
def freeAll : List ℕ → Code Unit
  | [] => return ()
  | page :: argv => do
    kfree page
    freeAll argv

end Xv6.Vm
