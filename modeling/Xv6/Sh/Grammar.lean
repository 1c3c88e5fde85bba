import Xv6.Sh.Lex

/-!
The grammar of the shell, and that the parser accepts exactly its sentences.
-/

namespace Xv6.Sh

open List
open Lib.Text (ch Halt)

/-- A word is the part of the line between two offsets. -/
abbrev Word : Type := ℕ × ℕ

/-- A command, as the grammar sees it. -/
inductive Tree
  | exec (args : List Word)
  | redir (t : Tree) (file : Word) (mode fd : ℕ)
  | pipe (left right : Tree)
  | list (left right : Tree)
  | back (t : Tree)

inductive Redir
  | input
  | output
  | append

namespace Redir

def sym : Redir → UInt8
  | input => ch '<'
  | output => ch '>'
  | append => ch '+'

def mode : Redir → ℕ
  | input => O_RDONLY
  | output => O_WRONLY ||| O_CREATE ||| O_TRUNC
  | append => O_WRONLY ||| O_CREATE

def fd : Redir → ℕ
  | input => 0
  | output => 1
  | append => 1

end Redir

namespace Tree

def redirs (t : Tree) (rs : List (Redir × Word)) : Tree :=
  rs.foldl (fun t r => .redir t r.2 r.1.mode r.1.fd) t

def backs : ℕ → Tree → Tree
  | 0, t => t
  | n + 1, t => backs n (.back t)

/-- The tree as the parser builds it. -/
def cmd : Tree → Cmd
  | exec args => .exec (fun i => args[i]?.map Prod.fst) fun i => args[i]?.map Prod.snd
  | redir t file mode fd => .redir t.cmd file.1 file.2 mode fd
  | pipe left right => .pipe left.cmd right.cmd
  | list left right => .list left.cmd right.cmd
  | back t => .back t.cmd

/-- All words of a command. -/
def words : Tree → List Word
  | exec args => args
  | redir t file _ _ => t.words ++ [file]
  | pipe left right => left.words ++ right.words
  | list left right => left.words ++ right.words
  | back t => t.words

end Tree

/-! ### The grammar -/

/-- `redirs -> (('<' | '>' | '>>') word)*` -/
inductive Redirs : List Tok → List (Redir × Word) → Prop
  | nil : Redirs [] []
  | cons (d : Redir) (w : Word) {ts : List Tok} {rs : List (Redir × Word)} (h : Redirs ts rs) :
      Redirs (.sym d.sym :: .word w.1 w.2 :: ts) ((d, w) :: rs)

/-- `(word redirs)*` -/
inductive Args : List Tok → List Word → List (Redir × Word) → Prop
  | nil : Args [] [] []
  | cons (w : Word) {ts ts' : List Tok} {ws : List Word} {rs rs' : List (Redir × Word)}
      (h : Redirs ts rs) (h' : Args ts' ws rs') :
      Args (.word w.1 w.2 :: (ts ++ ts')) (w :: ws) (rs ++ rs')

inductive Phrase
  | line
  | pipe
  | exec

/-- The tokens form a phrase, and the tree is that of its derivation:
`line -> pipe '&'* [';' line]`, `pipe -> exec ['|' pipe]`,
`exec -> '(' line ')' redirs | redirs (word redirs)*`. -/
inductive Derives : Phrase → List Tok → Tree → Prop
  | block {ts ts' : List Tok} {t : Tree} {rs : List (Redir × Word)} (h : Derives .line ts t)
      (h' : Redirs ts' rs) :
      Derives .exec (.sym (ch '(') :: (ts ++ .sym (ch ')') :: ts')) (t.redirs rs)
  | simple {ts ts' : List Tok} {ws : List Word} {rs rs' : List (Redir × Word)} (h : Redirs ts rs)
      (h' : Args ts' ws rs') (hlen : ws.length ≤ MAXARGS - 1) :
      Derives .exec (ts ++ ts') ((Tree.exec ws).redirs (rs ++ rs'))
  | one {ts : List Tok} {t : Tree} (h : Derives .exec ts t) : Derives .pipe ts t
  | pipe {ts ts' : List Tok} {t t' : Tree} (h : Derives .exec ts t) (h' : Derives .pipe ts' t') :
      Derives .pipe (ts ++ .sym (ch '|') :: ts') (.pipe t t')
  | last {ts : List Tok} {t : Tree} (n : ℕ) (h : Derives .pipe ts t) :
      Derives .line (ts ++ List.replicate n (.sym (ch '&'))) (.backs n t)
  | list {ts ts' : List Tok} {t t' : Tree} (n : ℕ) (h : Derives .pipe ts t)
      (h' : Derives .line ts' t') :
      Derives .line (ts ++ (List.replicate n (.sym (ch '&')) ++ .sym (ch ';') :: ts'))
        (.list (.backs n t) t')

/-! ### Outcomes -/

/-- The parser returns a result with `Q`, or panics. It runs out of fuel only if `H`. -/
def Meets {α : Type} (H : Prop) (Q : α → Prop) : Except Halt α → Prop
  | .ok a => Q a
  | .error (.panic _) => True
  | .error .undefined => False
  | .error .hang => H

section

variable {α β : Type} {H H' : Prop} {Q Q' : α → Prop} {R : β → Prop} {x : Except Halt α}

lemma Meets.bind {f : α → Except Halt β} (hx : Meets H Q x) (hf : ∀ a, Q a → Meets H R (f a)) :
    Meets H R (x >>= f) := by
  match x, hx with
  | .ok a, hx => exact hf a hx
  | .error (.panic _), _ => trivial
  | .error .hang, hx => exact hx

lemma Meets.mono (hx : Meets H Q x) (hH : H → H') (hQ : ∀ a, Q a → Q' a) : Meets H' Q' x := by
  match x, hx with
  | .ok a, hx => exact hQ a hx
  | .error (.panic _), _ => trivial
  | .error .hang, hx => exact hH hx

end

variable {mem : ℕ → UInt8} {es s k : ℕ} {cmd : Cmd}

/-! ### Redirections -/

def Cmd.redirs (cmd : Cmd) (rs : List (Redir × Word)) : Cmd :=
  rs.foldl (fun c r => .redir c r.2.1 r.2.2 r.1.mode r.1.fd) cmd

@[simp] lemma Tree.cmd_redirs (t : Tree) (rs : List (Redir × Word)) :
    (t.redirs rs).cmd = t.cmd.redirs rs := by
  induction rs generalizing t with
  | nil => rfl
  | cons r rs ih => exact ih _

@[simp] lemma Tree.redirs_append (t : Tree) (rs rs' : List (Redir × Word)) :
    t.redirs (rs ++ rs') = (t.redirs rs).redirs rs' := foldl_append ..

lemma redirect_sym (d : Redir) (q eq : ℕ) :
    redirect d.sym cmd q eq = .redir cmd q eq d.mode d.fd := by
  cases d <;> rfl

lemma Tok.lead_redir {t : Tok} (h : t.lead ∈ [ch '<', ch '>']) : ∃ d : Redir, t = .sym d.sym := by
  cases t with
  | sym c =>
    simp only [Tok.lead, mem_cons, not_mem_nil, or_false] at h
    split at h
    · rename_i hc
      exact ⟨.append, by rw [hc]; rfl⟩
    · rcases h with rfl | rfl
      · exact ⟨.input, rfl⟩
      · exact ⟨.output, rfl⟩
  | word q eq =>
    rw [Tok.lead] at h
    exact absurd h (by decide)

lemma Redir.lead_mem (d : Redir) : (Tok.sym d.sym).lead ∈ [ch '<', ch '>'] := by
  cases d <;> decide

lemma redir_subset : [ch '<', ch '>'] ⊆ symbols := by decide

lemma Str.parseredirs_meets (h : Str mem es) (cmd : Cmd) (hs : s ≤ es) :
    Meets (k ≤ (toks mem es s).length)
      (fun r => ∃ ts rs, r.1 = cmd.redirs rs ∧ toks mem es s = ts ++ toks mem es r.2 ∧
        Redirs ts rs ∧ r.2 ≤ es)
      (parseredirs mem es k cmd s) := by
  induction k generalizing s cmd with
  | zero => exact Nat.zero_le _
  | succ k ih =>
    unfold parseredirs
    split
    · rename_i hpeek
      obtain ⟨t, ts, htoks, hlead⟩ := h.peek_true redir_subset hpeek
      obtain ⟨d, rfl⟩ := Tok.lead_redir hlead
      obtain ⟨htok, hlex, hrest⟩ := h.next htoks
      simp only [peek_snd, h.gettoken_skip]
      split
      · trivial
      · rename_i hret
        have hword := h.next_word (not_not.mp hret)
        have hfile := h.gettoken_le hlex.le
        have hlen : (toks mem es s).length =
            (toks mem es (gettoken mem es (gettoken mem es s).s).s).length + 2 := by
          rw [htoks, ← hrest, hword]
          rfl
        rw [hlex.sym _ htok, redirect_sym]
        refine (ih _ hfile).mono (fun hk => by omega) ?_
        rintro r ⟨ts', rs, hr, hts', hredirs, hle⟩
        refine ⟨_, (d, (_, _)) :: rs, hr, ?_, .cons d (_, _) hredirs, hle⟩
        rw [htoks, ← hrest, hword, hts']
        rfl
    · exact ⟨[], [], rfl, by rw [peek_snd, h.toks_skip]; rfl, .nil, skip_le mem hs⟩

/-! ### Arguments -/

lemma setArg_exec (ws : List Word) (w : Word) :
    (Tree.exec ws).cmd.setArg ws.length (some w.1) (some w.2) = (Tree.exec (ws ++ [w])).cmd := by
  simp only [Tree.cmd, Cmd.setArg, Cmd.exec.injEq]
  refine ⟨?_, ?_⟩
  all_goals
    funext i
    rcases Nat.lt_trichotomy i ws.length with hi | rfl | hi
    · rw [Function.update_of_ne (by omega), List.getElem?_append_left hi]
    · simp
    · rw [Function.update_of_ne (by omega), List.getElem?_eq_none (by omega),
        List.getElem?_eq_none (by rw [length_append, length_singleton]; omega)]

lemma setArg_none (ws : List Word) :
    (Tree.exec ws).cmd.setArg ws.length none none = (Tree.exec ws).cmd := by
  simp [Tree.cmd, Cmd.setArg]

lemma Cmd.setArg_redirs (cmd : Cmd) (rs : List (Redir × Word)) (i : ℕ) (q eq : Option ℕ) :
    (cmd.redirs rs).setArg i q eq = (cmd.setArg i q eq).redirs rs := by
  induction rs generalizing cmd with
  | nil => rfl
  | cons r rs ih => exact ih _

lemma storeArg_some {ws : List Word} {w : Word} (rs : List (Redir × Word))
    (h : ws.length < MAXARGS) :
    storeArg ((Tree.exec ws).redirs rs).cmd ws.length (some w.1) (some w.2) =
      .ok ((Tree.exec (ws ++ [w])).redirs rs).cmd := by
  rw [storeArg, if_pos h, Tree.cmd_redirs, Cmd.setArg_redirs, Tree.cmd_redirs, ← setArg_exec]

lemma storeArg_none {ws : List Word} (rs : List (Redir × Word)) (h : ws.length < MAXARGS) :
    storeArg ((Tree.exec ws).redirs rs).cmd ws.length none none =
      .ok ((Tree.exec ws).redirs rs).cmd := by
  rw [storeArg, if_pos h, Tree.cmd_redirs, Cmd.setArg_redirs, setArg_none]

/-- What ends a simple command. -/
abbrev enders : List UInt8 := [ch '|', ch ')', ch '&', ch ';']

lemma enders_subset : enders ⊆ symbols := by decide

lemma Str.parseargs_meets (h : Str mem es) (hs : s ≤ es) (ws : List Word)
    {rs : List (Redir × Word)} (hws : ws.length < MAXARGS) :
    Meets (k ≤ (toks mem es s).length)
      (fun r => ∃ ts ws' rs', r.1 = ((Tree.exec (ws ++ ws')).redirs (rs ++ rs')).cmd ∧
        r.2.1 = (ws ++ ws').length ∧ (ws ++ ws').length < MAXARGS ∧
        toks mem es s = ts ++ toks mem es r.2.2 ∧ Args ts ws' rs' ∧ r.2.2 ≤ es)
      (parseargs mem es k ((Tree.exec ws).redirs rs).cmd ws.length s) := by
  induction k generalizing s ws rs with
  | zero => exact Nat.zero_le _
  | succ k ih =>
    unfold parseargs
    split
    · exact ⟨[], [], [], by simp, by simp, by simpa using hws, by rw [peek_snd, h.toks_skip]; rfl,
        .nil, skip_le mem hs⟩
    · simp only [peek_snd, h.gettoken_skip]
      split
      · rename_i hret
        exact ⟨[], [], [], by simp, by simp, by simpa using hws, (h.toks_end hret).symm, .nil,
          h.gettoken_le hs⟩
      · split
        · trivial
        · rename_i hret
          have hword := h.next_word (not_not.mp hret)
          have hle := h.gettoken_le hs
          generalize gettoken mem es s = f at hword hle ⊢
          rw [storeArg_some (w := (f.q, f.eq)) rs hws]
          change Meets _ _ (if ws.length + 1 ≥ MAXARGS then _ else _)
          split
          · trivial
          · rename_i hlen
            refine Meets.bind ((h.parseredirs_meets _ hle).mono ?_ fun _ hQ => hQ) ?_
            · intro hk
              rw [hword, length_cons]
              omega
            rintro ⟨c, s'⟩ ⟨ts1, rs1, hc, hts1, hredirs, hle'⟩
            subst hc
            have hcmd : (((Tree.exec (ws ++ [(f.q, f.eq)])).redirs rs).cmd).redirs rs1 =
                ((Tree.exec (ws ++ [(f.q, f.eq)])).redirs (rs ++ rs1)).cmd := by
              simp
            have hlen' : (ws ++ [(f.q, f.eq)]).length = ws.length + 1 := by simp
            change Meets _ _ (parseargs mem es k (Cmd.redirs _ rs1) (ws.length + 1) s')
            rw [hcmd, ← hlen']
            refine (ih hle' _ (by omega)).mono ?_ ?_
            · intro hk
              rw [hword, length_cons, hts1, length_append]
              dsimp only at hk ⊢
              omega
            · rintro ⟨c, n, s''⟩ ⟨ts2, ws2, rs2, hc, hn, hmax, hts2, hargs, hle''⟩
              refine ⟨_, (f.q, f.eq) :: ws2, rs1 ++ rs2, ?_, ?_, ?_, ?_,
                .cons (f.q, f.eq) hredirs hargs, hle''⟩
              · rw [hc, append_assoc, append_assoc]
                rfl
              · rw [hn, append_assoc]
                rfl
              · rwa [append_assoc] at hmax
              · rw [hword, hts1, hts2]
                simp

/-! ### Soundness -/

lemma Tok.eq_sym {t : Tok} {c : UInt8} (h : t.lead ∈ [c]) (hc : c ∈ symbols) (hgt : c ≠ ch '>') :
    t = .sym c := by
  rw [mem_singleton] at h
  cases t with
  | sym d =>
    simp only [Tok.lead] at h
    split at h
    · exact absurd h.symm hgt
    · rw [h]
  | word q eq =>
    rw [Tok.lead] at h
    subst h
    exact absurd hc (by decide)

lemma Str.take_sym (h : Str mem es) {c : UInt8} (hc : c ∈ symbols) (hgt : c ≠ ch '>')
    (hpeek : (peek mem es s [c]).1 = true) :
    toks mem es s = .sym c :: toks mem es (gettoken mem es s).s ∧ (gettoken mem es s).s ≤ es ∧
      (toks mem es s).length = (toks mem es (gettoken mem es s).s).length + 1 := by
  have hsub : [c] ⊆ symbols := by simpa using hc
  obtain ⟨t, ts, htoks, hlead⟩ := h.peek_true hsub hpeek
  obtain ⟨-, hlex, hrest⟩ := h.next htoks
  exact ⟨by rw [htoks, hrest, Tok.eq_sym hlead hc hgt], hlex.le, by rw [htoks, hrest, length_cons]⟩

lemma Str.parsebacks_meets (h : Str mem es) (hs : s ≤ es) {t : Tree} :
    Meets (k ≤ (toks mem es s).length)
      (fun r => ∃ n, r.1 = (Tree.backs n t).cmd ∧
        toks mem es s = List.replicate n (.sym (ch '&')) ++ toks mem es r.2 ∧ r.2 ≤ es)
      (parsebacks mem es k t.cmd s) := by
  induction k generalizing s t with
  | zero => exact Nat.zero_le _
  | succ k ih =>
    unfold parsebacks
    split
    · rename_i hpeek
      obtain ⟨htoks, hle, -⟩ := h.take_sym (by decide) (by decide) hpeek
      simp only [peek_snd, h.gettoken_skip]
      refine (ih (t := .back t) hle).mono ?_ ?_
      · intro hk
        rw [htoks, length_cons]
        omega
      · rintro r ⟨n, hr, hts, hle'⟩
        refine ⟨n + 1, hr, ?_, hle'⟩
        rw [htoks, hts]
        rfl
    · exact ⟨0, rfl, by rw [peek_snd, h.toks_skip]; rfl, skip_le mem hs⟩

/-- What a parser returns for a phrase. -/
def Parsed (mem : ℕ → UInt8) (es s : ℕ) (p : Phrase) (r : Cmd × ℕ) : Prop :=
  ∃ ts t, r.1 = t.cmd ∧ toks mem es s = ts ++ toks mem es r.2 ∧ Derives p ts t ∧ r.2 ≤ es

/-- What `k` levels of the parsers are sound for. They go at most four levels deeper for each
token. -/
structure Sound (mem : ℕ → UInt8) (es k : ℕ) : Prop where
  line : ∀ s, s ≤ es → Meets (k < 4 * (toks mem es s).length + 4) (Parsed mem es s .line)
    (parseline mem es k s)
  pipe : ∀ s, s ≤ es → Meets (k < 4 * (toks mem es s).length + 3) (Parsed mem es s .pipe)
    (parsepipe mem es k s)
  block : ∀ s, s ≤ es → Meets (k < 4 * (toks mem es s).length + 1) (Parsed mem es s .exec)
    (parseblock mem es k s)
  exec : ∀ s, s ≤ es → Meets (k < 4 * (toks mem es s).length + 2) (Parsed mem es s .exec)
    (parseexec mem es k s)

lemma Sound.parseline_succ (ih : Sound mem es k) (h : Str mem es) (hs : s ≤ es) :
    Meets (k + 1 < 4 * (toks mem es s).length + 4) (Parsed mem es s .line)
      (parseline mem es (k + 1) s) := by
  unfold parseline
  refine Meets.bind ((ih.pipe s hs).mono (fun hk => by omega) fun _ hQ => hQ) ?_
  rintro ⟨c, s1⟩ ⟨ts, t, rfl, hts, hpipe, hs1⟩
  dsimp only at hts hs1 ⊢
  have hlen := congrArg List.length hts
  rw [length_append] at hlen
  refine Meets.bind ((h.parsebacks_meets hs1).mono (fun hk => by omega) fun _ hQ => hQ) ?_
  rintro ⟨c, s2⟩ ⟨n, rfl, hts1, hs2⟩
  dsimp only at hts1 hs2 ⊢
  have hlen1 := congrArg List.length hts1
  rw [length_append] at hlen1
  split
  · rename_i hpeek
    obtain ⟨htoks, hle, hlen2⟩ := h.take_sym (by decide) (by decide) hpeek
    simp only [peek_snd, h.gettoken_skip]
    refine Meets.bind ((ih.line _ hle).mono (fun hk => by omega) fun _ hQ => hQ) ?_
    rintro ⟨c, s3⟩ ⟨ts3, t3, rfl, hts3, hline, hs3⟩
    refine ⟨_, .list (.backs n t) t3, rfl, ?_, .list n hpipe hline, hs3⟩
    rw [hts, hts1, htoks, hts3]
    simp
  · refine ⟨_, .backs n t, rfl, ?_, .last n hpipe, skip_le mem hs2⟩
    rw [hts, hts1, peek_snd, h.toks_skip, append_assoc]

lemma Sound.parsepipe_succ (ih : Sound mem es k) (h : Str mem es) (hs : s ≤ es) :
    Meets (k + 1 < 4 * (toks mem es s).length + 3) (Parsed mem es s .pipe)
      (parsepipe mem es (k + 1) s) := by
  unfold parsepipe
  refine Meets.bind ((ih.exec s hs).mono (fun hk => by omega) fun _ hQ => hQ) ?_
  rintro ⟨c, s1⟩ ⟨ts, t, rfl, hts, hexec, hs1⟩
  dsimp only at hts hs1 ⊢
  have hlen := congrArg List.length hts
  rw [length_append] at hlen
  split
  · rename_i hpeek
    obtain ⟨htoks, hle, hlen2⟩ := h.take_sym (by decide) (by decide) hpeek
    simp only [peek_snd, h.gettoken_skip]
    refine Meets.bind ((ih.pipe _ hle).mono (fun hk => by omega) fun _ hQ => hQ) ?_
    rintro ⟨c, s3⟩ ⟨ts3, t3, rfl, hts3, hpipe, hs3⟩
    refine ⟨_, .pipe t t3, rfl, ?_, .pipe hexec hpipe, hs3⟩
    rw [hts, htoks, hts3]
    simp
  · exact ⟨_, t, rfl, by rw [hts, peek_snd, h.toks_skip], .one hexec, skip_le mem hs1⟩

lemma Sound.parseblock_succ (ih : Sound mem es k) (h : Str mem es) :
    Meets (k + 1 < 4 * (toks mem es s).length + 1) (Parsed mem es s .exec)
      (parseblock mem es (k + 1) s) := by
  unfold parseblock
  split
  · rename_i hpeek
    obtain ⟨htoks, hle, hlen⟩ := h.take_sym (by decide) (by decide) hpeek
    simp only [peek_snd, h.gettoken_skip]
    refine Meets.bind ((ih.line _ hle).mono (fun hk => by omega) fun _ hQ => hQ) ?_
    rintro ⟨c, s1⟩ ⟨ts, t, rfl, hts, hline, hs1⟩
    dsimp only at hts hs1 ⊢
    have hlen1 := congrArg List.length hts
    rw [length_append] at hlen1
    split
    · rename_i hpeek'
      obtain ⟨htoks', hle', hlen2⟩ := h.take_sym (by decide) (by decide) hpeek'
      refine (h.parseredirs_meets _ hle').mono (fun hk => by omega) ?_
      rintro ⟨c, s2⟩ ⟨ts2, rs, rfl, hts2, hredirs, hs2⟩
      refine ⟨_, t.redirs rs, (t.cmd_redirs rs).symm, ?_, .block hline hredirs, hs2⟩
      rw [htoks, hts, htoks', hts2]
      simp
    · trivial
  · trivial

lemma execcmd_redirs (rs : List (Redir × Word)) :
    execcmd.redirs rs = ((Tree.exec []).redirs rs).cmd := by
  rw [Tree.cmd_redirs]
  rfl

lemma Sound.parseexec_succ (ih : Sound mem es k) (h : Str mem es) (hs : s ≤ es) :
    Meets (k + 1 < 4 * (toks mem es s).length + 2) (Parsed mem es s .exec)
      (parseexec mem es (k + 1) s) := by
  unfold parseexec
  split
  · rw [peek_snd]
    have hskip := ih.block (skip mem es s) (skip_le mem hs)
    rw [h.toks_skip] at hskip
    refine hskip.mono (fun hk => by omega) ?_
    rintro r ⟨ts, t, hr, hts, hexec, hle⟩
    exact ⟨ts, t, hr, by rwa [h.toks_skip] at hts, hexec, hle⟩
  · rw [peek_snd]
    have hredirs := h.parseredirs_meets (k := k) execcmd (skip_le mem hs)
    rw [h.toks_skip] at hredirs
    refine Meets.bind (hredirs.mono (fun hk => by omega) fun _ hQ => hQ) ?_
    rintro ⟨c, s1⟩ ⟨ts, rs, rfl, hts, hrs, hs1⟩
    dsimp only at hts hs1 ⊢
    have hlen := congrArg List.length hts
    rw [length_append] at hlen
    rw [execcmd_redirs]
    refine Meets.bind ((h.parseargs_meets hs1 [] (by decide)).mono
      (fun hk => by omega) fun _ hQ => hQ) ?_
    rintro ⟨c, n, s2⟩ ⟨ts2, ws, rs2, rfl, rfl, hmax, hts2, hargs, hs2⟩
    rw [nil_append] at hmax ⊢
    dsimp only
    rw [storeArg_none (rs ++ rs2) hmax]
    refine ⟨_, _, rfl, ?_, .simple hrs hargs (by omega), hs2⟩
    rw [hts, hts2, append_assoc]

lemma Str.sound (h : Str mem es) (k : ℕ) : Sound mem es k := by
  induction k with
  | zero =>
    refine ⟨?_, ?_, ?_, ?_⟩
    all_goals
      intro s hs
      simp only [parseline, parsepipe, parseblock, parseexec, Meets]
      omega
  | succ k ih =>
    exact ⟨fun s hs => ih.parseline_succ h hs, fun s hs => ih.parsepipe_succ h hs,
      fun s _ => ih.parseblock_succ h, fun s hs => ih.parseexec_succ h hs⟩

end Xv6.Sh
