import Xv6.Lib.Text
import Mathlib.Logic.Basic

/-!
The parser of `user/sh.c`.

A pointer into the line is an offset, and `es` is where its NUL is. The recursion and the loops
have fuel: a parser that runs out of it has not come to an end. A pointer is never followed
where there is nothing, and an array is never indexed beyond its end: that would be `undefined`.
-/

namespace Xv6.Sh

open Function
open Lib.Text (ch Halt)

abbrev MAXARGS : ℕ := 10

abbrev O_RDONLY : ℕ := 0
abbrev O_WRONLY : ℕ := 1
abbrev O_CREATE : ℕ := 0x200
abbrev O_TRUNC : ℕ := 0x400

/-- `struct cmd` and what it points to. -/
inductive Cmd
  | exec (argv eargv : ℕ → Option ℕ)
  | redir (cmd : Cmd) (file efile mode fd : ℕ)
  | pipe (left right : Cmd)
  | list (left right : Cmd)
  | back (cmd : Cmd)

/-- The arrays as `execcmd` clears them. -/
def execcmd : Cmd := .exec (fun _ => none) fun _ => none

/-- `cmd->argv[i] = q; cmd->eargv[i] = eq;` for the EXEC command that redirections have been put
around. -/
def Cmd.setArg (i : ℕ) (q eq : Option ℕ) : Cmd → Cmd
  | .exec argv eargv => .exec (update argv i q) (update eargv i eq)
  | .redir cmd file efile mode fd => .redir (cmd.setArg i q eq) file efile mode fd
  | cmd => cmd

def storeArg (cmd : Cmd) (i : ℕ) (q eq : Option ℕ) : Except Halt Cmd :=
  if i < MAXARGS then .ok (cmd.setArg i q eq) else .error .undefined

/-! ### Tokens -/

def whitespace : List UInt8 := [ch ' ', ch '\t', ch '\r', ch '\n', 0x0b]

def symbols : List UInt8 := [ch '<', ch '|', ch '>', ch '&', ch ';', ch '(', ch ')']

def isWhite (c : UInt8) : Bool := whitespace.contains c

/-- Part of a word. -/
def isPlain (c : UInt8) : Bool := !whitespace.contains c && !symbols.contains c

section

variable (mem : ℕ → UInt8) (es : ℕ)

/-- `while (n-- > 0 && p(*s)) s++;` -/
def scan (p : UInt8 → Bool) : ℕ → ℕ → ℕ
  | 0, s => s
  | n + 1, s => if p (mem s) then scan p n (s + 1) else s

/-- `while (s < es && strchr(whitespace, *s)) s++;` -/
def skip (s : ℕ) : ℕ := scan mem isWhite (es - s) s

/-- The `switch` of `gettoken`: what is returned, and where the token ends. -/
def oneToken (s : ℕ) : UInt8 × ℕ :=
  if mem s = 0 then (0, s)
  else if mem s ∈ [ch '|', ch '(', ch ')', ch ';', ch '&', ch '<'] then (mem s, s + 1)
  else if mem s = ch '>' then
    if mem (s + 1) = ch '>' then (ch '+', s + 2) else (ch '>', s + 1)
  else (ch 'a', scan mem isPlain (es - s) s)

structure Got where
  ret : UInt8
  q : ℕ
  eq : ℕ
  s : ℕ

def gettoken (s : ℕ) : Got where
  ret := (oneToken mem es (skip mem es s)).1
  q := skip mem es s
  eq := (oneToken mem es (skip mem es s)).2
  s := skip mem es (oneToken mem es (skip mem es s)).2

/-- Whether the next character is one of `toks`; `*ps` moves to it. -/
def peek (s : ℕ) (toks : List UInt8) : Bool × ℕ :=
  (mem (skip mem es s) ≠ 0 ∧ mem (skip mem es s) ∈ toks, skip mem es s)

/-! ### The parser -/

/-- The `switch` of `parseredirs`. -/
def redirect (tok : UInt8) (cmd : Cmd) (q eq : ℕ) : Cmd :=
  if tok = ch '<' then .redir cmd q eq O_RDONLY 0
  else if tok = ch '>' then .redir cmd q eq (O_WRONLY ||| O_CREATE ||| O_TRUNC) 1
  else if tok = ch '+' then .redir cmd q eq (O_WRONLY ||| O_CREATE) 1
  else cmd

def parseredirs : ℕ → Cmd → ℕ → Except Halt (Cmd × ℕ)
  | 0, _, _ => .error .hang
  | k + 1, cmd, s =>
    if (peek mem es s [ch '<', ch '>']).1 then
      let t := gettoken mem es (peek mem es s [ch '<', ch '>']).2
      let f := gettoken mem es t.s
      if f.ret ≠ ch 'a' then .error (.panic "missing file for redirection")
      else parseredirs k (redirect t.ret cmd f.q f.eq) f.s
    else .ok (cmd, (peek mem es s [ch '<', ch '>']).2)

/-- The loop of `parseexec`. -/
def parseargs : ℕ → Cmd → ℕ → ℕ → Except Halt (Cmd × ℕ × ℕ)
  | 0, _, _, _ => .error .hang
  | k + 1, ret, argc, s =>
    if (peek mem es s [ch '|', ch ')', ch '&', ch ';']).1 then
      .ok (ret, argc, (peek mem es s [ch '|', ch ')', ch '&', ch ';']).2)
    else
      let t := gettoken mem es (peek mem es s [ch '|', ch ')', ch '&', ch ';']).2
      if t.ret = 0 then .ok (ret, argc, t.s)
      else if t.ret ≠ ch 'a' then .error (.panic "syntax")
      else do
        let ret ← storeArg ret argc (some t.q) (some t.eq)
        if argc + 1 ≥ MAXARGS then .error (.panic "too many args")
        else do
          let (ret, s) ← parseredirs mem es k ret t.s
          parseargs k ret (argc + 1) s

/-- The loop of `parseline`. -/
def parsebacks : ℕ → Cmd → ℕ → Except Halt (Cmd × ℕ)
  | 0, _, _ => .error .hang
  | k + 1, cmd, s =>
    if (peek mem es s [ch '&']).1 then
      parsebacks k (.back cmd) (gettoken mem es (peek mem es s [ch '&']).2).s
    else .ok (cmd, (peek mem es s [ch '&']).2)

mutual

def parseline : ℕ → ℕ → Except Halt (Cmd × ℕ)
  | 0, _ => .error .hang
  | k + 1, s => do
    let (cmd, s) ← parsepipe k s
    let (cmd, s) ← parsebacks mem es k cmd s
    if (peek mem es s [ch ';']).1 then do
      let (right, s) ← parseline k (gettoken mem es (peek mem es s [ch ';']).2).s
      return (.list cmd right, s)
    else
      return (cmd, (peek mem es s [ch ';']).2)
termination_by structural k => k

def parsepipe : ℕ → ℕ → Except Halt (Cmd × ℕ)
  | 0, _ => .error .hang
  | k + 1, s => do
    let (cmd, s) ← parseexec k s
    if (peek mem es s [ch '|']).1 then do
      let (right, s) ← parsepipe k (gettoken mem es (peek mem es s [ch '|']).2).s
      return (.pipe cmd right, s)
    else
      return (cmd, (peek mem es s [ch '|']).2)
termination_by structural k => k

def parseblock : ℕ → ℕ → Except Halt (Cmd × ℕ)
  | 0, _ => .error .hang
  | k + 1, s =>
    if (peek mem es s [ch '(']).1 then do
      let (cmd, s) ← parseline k (gettoken mem es (peek mem es s [ch '(']).2).s
      if (peek mem es s [ch ')']).1 then
        parseredirs mem es k cmd (gettoken mem es (peek mem es s [ch ')']).2).s
      else .error (.panic "syntax - missing )")
    else .error (.panic "parseblock")
termination_by structural k => k

def parseexec : ℕ → ℕ → Except Halt (Cmd × ℕ)
  | 0, _ => .error .hang
  | k + 1, s =>
    if (peek mem es s [ch '(']).1 then
      parseblock k (peek mem es s [ch '(']).2
    else do
      let (ret, s) ← parseredirs mem es k execcmd (peek mem es s [ch '(']).2
      let (ret, argc, s) ← parseargs mem es k ret 0 s
      let ret ← storeArg ret argc none none
      return (ret, s)
termination_by structural k => k

end

end

/-! ### NUL-terminating -/

/-- `for (i = 0; ecmd->argv[i]; i++) *ecmd->eargv[i] = 0;` -/
def nulArgs (argv eargv : ℕ → Option ℕ) : ℕ → ℕ → (ℕ → UInt8) → Except Halt (ℕ → UInt8)
  | 0, _, _ => .error .hang
  | k + 1, i, mem =>
    if MAXARGS ≤ i then .error .undefined
    else match argv i, eargv i with
      | none, _ => .ok mem
      | some _, some e => nulArgs argv eargv k (i + 1) (update mem e 0)
      | some _, none => .error .undefined

def nulterminate : Cmd → (ℕ → UInt8) → Except Halt (ℕ → UInt8)
  | .exec argv eargv, mem => nulArgs argv eargv (MAXARGS + 1) 0 mem
  | .redir cmd _ efile _ _, mem => do
    let mem ← nulterminate cmd mem
    return update mem efile 0
  | .pipe left right, mem => do
    let mem ← nulterminate left mem
    nulterminate right mem
  | .list left right, mem => do
    let mem ← nulterminate left mem
    nulterminate right mem
  | .back cmd, mem => nulterminate cmd mem

/-- The memory that holds the line and its NUL. -/
def load (line : List UInt8) : ℕ → UInt8 := fun i => line.getD i 0

/-- `parsecmd` of a line, with `k` levels of recursion: the command, and the memory of the line
afterwards. -/
def parsecmd (k : ℕ) (line : List UInt8) : Except Halt (Cmd × (ℕ → UInt8)) := do
  let es := line.length
  let (cmd, s) ← parseline (load line) es k 0
  if (peek (load line) es s []).2 ≠ es then .error (.panic "syntax")
  else do
    let mem ← nulterminate cmd (load line)
    return (cmd, mem)

end Xv6.Sh
