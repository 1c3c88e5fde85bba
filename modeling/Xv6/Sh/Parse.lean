import Xv6.Sh.Grammar

/-!
The parser finds every derivation, and `parsecmd` accepts exactly the lines of the grammar.
-/

namespace Xv6.Sh

open Function List
open Lib.Text (ch Halt)

variable {mem : ℕ → UInt8} {es s k : ℕ} {cmd : Cmd} {rest : List Tok}

/-! ### Completeness -/

/-- The parser returns a result with `Q`, if it has enough fuel. -/
def Finds {α : Type} (Q : α → Prop) (r : Except Halt α) : Prop :=
  r = .error .hang ∨ ∃ a, r = .ok a ∧ Q a

lemma Finds.ok {α : Type} {Q : α → Prop} {a : α} (h : Q a) : Finds Q (.ok a) := .inr ⟨a, rfl, h⟩

lemma Finds.bind {α β : Type} {Q : α → Prop} {R : β → Prop} {x : Except Halt α}
    {f : α → Except Halt β} (hx : Finds Q x) (hf : ∀ a, Q a → Finds R (f a)) :
    Finds R (x >>= f) := by
  rcases hx with rfl | ⟨a, rfl, ha⟩
  · exact .inl rfl
  · exact hf a ha

/-- A parser has returned `cmd` and leaves the tokens of `rest`. -/
def Leaves (mem : ℕ → UInt8) (es : ℕ) (cmd : Cmd) (rest : List Tok) (r : Cmd × ℕ) : Prop :=
  r.1 = cmd ∧ toks mem es r.2 = rest ∧ r.2 ≤ es

variable {l l' : List UInt8} {ts : List Tok} {rs : List (Redir × Word)} {ws : List Word}
  {p : Phrase} {t : Tree} {w : Word}

lemma avoids (h : (l.all fun c => !l'.contains c) = true) : ∀ c ∈ l, c ∉ l' := by
  simpa using h

/-- What is left starts with none of `l`. -/
def Clear (l : List UInt8) (rest : List Tok) : Prop := ∀ t ∈ rest.head?, t.lead ∉ l

/-- What is left is nothing, or starts with one of `l`. -/
def Stops (l : List UInt8) (rest : List Tok) : Prop := ∀ t ∈ rest.head?, t.lead ∈ l

lemma Stops.clear (h : Stops l rest) (hl : ∀ c ∈ l, c ∉ l') : Clear l' rest :=
  fun t ht => hl _ (h t ht)

lemma Stops.mono (h : Stops l rest) (hl : l ⊆ l') : Stops l' rest :=
  fun t ht => hl (h t ht)

lemma stops_sym {c : UInt8} (hc : (Tok.sym c).lead ∈ l) : Stops l (.sym c :: rest) := by
  rintro t ht
  cases ht
  exact hc

lemma Str.peek_clear (h : Str mem es) (hl : l ⊆ symbols)
    (hrest : Clear l (toks mem es s)) : (peek mem es s l).1 = false := by
  cases htoks : toks mem es s with
  | nil => exact h.peek_nil htoks
  | cons t ts =>
    rw [htoks] at hrest
    rw [h.peek_cons hl htoks]
    exact decide_eq_false (hrest t rfl)

lemma Str.peek_sym (h : Str mem es) (hl : l ⊆ symbols) {c : UInt8}
    (htoks : toks mem es s = .sym c :: ts) (hc : (Tok.sym c).lead ∈ l) :
    (peek mem es s l).1 = true := by
  rw [h.peek_cons hl htoks]
  exact decide_eq_true hc

lemma Str.parseredirs_finds (h : Str mem es)
    (hrs : Redirs ts rs) (hrest : Clear [ch '<', ch '>'] rest) :
    ∀ k s cmd, s ≤ es → toks mem es s = ts ++ rest →
      Finds (Leaves mem es (cmd.redirs rs) rest) (parseredirs mem es k cmd s) := by
  induction hrs with
  | nil =>
    intro k s cmd hs htoks
    cases k with
    | zero => exact .inl rfl
    | succ k =>
      rw [nil_append] at htoks
      have hpeek := h.peek_clear redir_subset (by rwa [htoks])
      rw [parseredirs, hpeek]
      exact .ok ⟨rfl, by rw [peek_snd, h.toks_skip, htoks], skip_le mem hs⟩
  | @cons d w ts rs hrs ih =>
    intro k s cmd hs htoks
    cases k with
    | zero => exact .inl rfl
    | succ k =>
      rw [parseredirs, if_pos (h.peek_sym redir_subset htoks d.lead_mem)]
      obtain ⟨htok, hlex, hnext⟩ := h.next htoks
      obtain ⟨htok', hlex', hnext'⟩ := h.next hnext
      obtain ⟨hret, hq, heq, -⟩ := hlex'.word _ _ htok'
      simp only [peek_snd, h.gettoken_skip]
      rw [if_neg (not_not.mpr hret), hlex.sym _ htok, redirect_sym, hq, heq]
      exact ih k _ _ hlex'.le hnext'

lemma Redirs.clear (h : Redirs ts rs)
    (hl : ∀ c ∈ [ch '<', ch '>'], c ∉ l) (hrest : Clear l rest) : Clear l (ts ++ rest) := by
  cases h with
  | nil => exact hrest
  | cons d w hrs =>
    rintro t ht
    cases ht
    exact hl _ d.lead_mem

lemma Args.clear (h : Args ts ws rs) (hl : ∀ c ∈ ch 'a' :: enders, c ∉ l) (hrest : Stops enders rest) :
    Clear l (ts ++ rest) := by
  cases h with
  | nil => exact hrest.clear fun c hc => hl c (mem_cons_of_mem _ hc)
  | cons w hrs hargs =>
    rintro t ht
    cases ht
    exact hl _ mem_cons_self

lemma Str.parseargs_finds (h : Str mem es) {ws' : List Word}
    {rs' : List (Redir × Word)} (hargs : Args ts ws' rs') (hrest : Stops enders rest) :
    ∀ k s ws rs, s ≤ es → toks mem es s = ts ++ rest → (ws ++ ws').length < MAXARGS →
      Finds (fun r => r.1 = ((Tree.exec (ws ++ ws')).redirs (rs ++ rs')).cmd ∧
          r.2.1 = (ws ++ ws').length ∧ toks mem es r.2.2 = rest ∧ r.2.2 ≤ es)
        (parseargs mem es k ((Tree.exec ws).redirs rs).cmd ws.length s) := by
  induction hargs with
  | nil =>
    intro k s ws rs hs htoks _
    cases k with
    | zero => exact .inl rfl
    | succ k =>
      rw [nil_append] at htoks
      simp only [append_nil]
      rw [parseargs]
      cases rest with
      | nil =>
        have hret : (gettoken mem es s).ret = 0 :=
          h.ret_zero_iff.mpr (h.toks_nil.mp htoks)
        rw [h.peek_nil htoks]
        simp only [peek_snd, h.gettoken_skip, Bool.false_eq_true, if_false, if_pos hret]
        exact .ok ⟨rfl, rfl, by rw [h.toks_end hret, htoks], h.gettoken_le hs⟩
      | cons t ts =>
        rw [h.peek_cons enders_subset htoks, decide_eq_true (hrest t rfl)]
        exact .ok ⟨rfl, rfl, by rw [peek_snd, h.toks_skip, htoks], skip_le mem hs⟩
  | @cons w ts ts' ws' rs1 rs' hrs hargs ih =>
    intro k s ws rs hs htoks hmax
    cases k with
    | zero => exact .inl rfl
    | succ k =>
      have htoks' : toks mem es s = .word w.1 w.2 :: (ts ++ (ts' ++ rest)) := by
        rw [htoks]
        simp
      obtain ⟨htok, hlex, hnext⟩ := h.next htoks'
      obtain ⟨hret, hq, heq, -⟩ := hlex.word _ _ htok
      have hpeek : (peek mem es s enders).1 = false := by
        rw [h.peek_cons enders_subset htoks']
        exact decide_eq_false (show ch 'a' ∉ enders by decide)
      have hws : ws.length + 1 < MAXARGS := by
        rw [length_append, length_cons] at hmax
        omega
      rw [parseargs, hpeek]
      simp only [peek_snd, h.gettoken_skip, Bool.false_eq_true, if_false]
      rw [if_neg (by rw [hret]; decide), if_neg (not_not.mpr hret), hq, heq,
        storeArg_some rs (by omega)]
      change Finds _ (if ws.length + 1 ≥ MAXARGS then _ else _)
      rw [if_neg (by omega)]
      have hclear := hargs.clear (l := [ch '<', ch '>']) (avoids (by decide)) hrest
      refine (h.parseredirs_finds hrs hclear k _ _ hlex.le hnext).bind ?_
      rintro ⟨c, s'⟩ ⟨rfl, htoks1, hle⟩
      have hfind := ih k s' (ws ++ [w]) (rs ++ rs1) hle htoks1 (by simpa using hmax)
      rw [append_assoc, append_assoc] at hfind
      have hcmd : ((Tree.exec (ws ++ [w])).redirs (rs ++ rs1)).cmd =
          ((Tree.exec (ws ++ [w])).redirs rs).cmd.redirs rs1 := by simp
      have hlen : (ws ++ [w]).length = ws.length + 1 := by simp
      rw [hcmd, hlen] at hfind
      exact hfind

/-- What may follow a phrase. -/
def Phrase.follow : Phrase → List UInt8
  | .line => [ch ')']
  | .pipe => [ch ')', ch '&', ch ';']
  | .exec => enders

/-- The parser of a phrase. -/
def Phrase.parse (mem : ℕ → UInt8) (es : ℕ) : Phrase → ℕ → ℕ → Except Halt (Cmd × ℕ)
  | .line => parseline mem es
  | .pipe => parsepipe mem es
  | .exec => parseexec mem es

lemma Str.parsebacks_finds (h : Str mem es) (hrest : Clear [ch '&'] rest) (n : ℕ) :
    ∀ k s t, s ≤ es → toks mem es s = List.replicate n (.sym (ch '&')) ++ rest →
      Finds (Leaves mem es (Tree.backs n t).cmd rest) (parsebacks mem es k t.cmd s) := by
  induction n with
  | zero =>
    intro k s t hs htoks
    cases k with
    | zero => exact .inl rfl
    | succ k =>
      rw [replicate_zero, nil_append] at htoks
      have hpeek := h.peek_clear (l := [ch '&']) (by decide) (by rwa [htoks])
      rw [parsebacks, hpeek]
      exact .ok ⟨rfl, by rw [peek_snd, h.toks_skip, htoks], skip_le mem hs⟩
  | succ n ih =>
    intro k s t hs htoks
    cases k with
    | zero => exact .inl rfl
    | succ k =>
      rw [replicate_succ, cons_append] at htoks
      obtain ⟨-, hlex, hnext⟩ := h.next htoks
      rw [parsebacks, if_pos (h.peek_sym (by decide) htoks (by decide)), peek_snd,
        h.gettoken_skip]
      exact ih k _ (.back t) hlex.le hnext

lemma stops_replicate {n : ℕ} (hl : (Tok.sym (ch '&')).lead ∈ l)
    (h : Stops l rest) : Stops l (List.replicate n (.sym (ch '&')) ++ rest) := by
  cases n with
  | zero => exact h
  | succ n => exact stops_sym hl

lemma Str.parse_finds (h : Str mem es) (hd : Derives p ts t) :
    ∀ k s rest, s ≤ es → toks mem es s = ts ++ rest → Stops p.follow rest →
      Finds (Leaves mem es t.cmd rest) (p.parse mem es k s) := by
  induction hd with
  | @block ts ts' t rs hline hrs ih =>
    intro k s rest hs htoks hrest
    rw [cons_append, append_assoc, cons_append] at htoks
    cases k with
    | zero => exact .inl rfl
    | succ k =>
      have htoks' : toks mem es (skip mem es s) = _ := h.toks_skip.trans htoks
      rw [Phrase.parse, parseexec, if_pos (h.peek_sym (by decide) htoks (by decide)), peek_snd]
      cases k with
      | zero => exact .inl rfl
      | succ k =>
        obtain ⟨-, hlex, hnext⟩ := h.next htoks
        rw [parseblock, if_pos (h.peek_sym (by decide) htoks' (by decide)), peek_snd,
          h.skip_skip, h.gettoken_skip]
        refine (ih k _ _ hlex.le hnext (stops_sym (by decide))).bind ?_
        rintro ⟨c, s1⟩ ⟨rfl, htoks1, hs1⟩
        dsimp only at htoks1 ⊢
        obtain ⟨-, hlex1, hnext1⟩ := h.next htoks1
        rw [if_pos (h.peek_sym (by decide) htoks1 (by decide)), peek_snd, h.gettoken_skip,
          Tree.cmd_redirs]
        exact h.parseredirs_finds hrs (hrest.clear (avoids (by decide))) k _ _ hlex1.le hnext1
  | @simple ts ts' ws rs rs' hrs hargs hlen =>
    intro k s rest hs htoks hrest
    cases k with
    | zero => exact .inl rfl
    | succ k =>
      rw [append_assoc] at htoks
      have hclear := hargs.clear (l := [ch '<', ch '>']) (avoids (by decide)) hrest
      have hpeek : (peek mem es s [ch '(']).1 = false := by
        apply h.peek_clear (by decide)
        rw [htoks]
        exact hrs.clear (avoids (by decide)) (hargs.clear (avoids (by decide)) hrest)
      rw [Phrase.parse, parseexec, hpeek]
      simp only [peek_snd, Bool.false_eq_true, if_false]
      refine (h.parseredirs_finds hrs hclear k _ _ (skip_le mem hs)
        (h.toks_skip.trans htoks)).bind ?_
      rintro ⟨c, s1⟩ ⟨rfl, htoks1, hs1⟩
      dsimp only at htoks1 hs1 ⊢
      rw [execcmd_redirs]
      have hmax : ws.length < MAXARGS := Nat.lt_of_le_of_lt hlen (by decide)
      refine (h.parseargs_finds hargs hrest k s1 [] rs hs1 htoks1 hmax).bind ?_
      rintro ⟨c, n, s2⟩ ⟨rfl, rfl, htoks2, hs2⟩
      simp only [nil_append]
      rw [storeArg_none _ hmax]
      exact .ok ⟨rfl, htoks2, hs2⟩
  | @one ts t hexec ih =>
    intro k s rest hs htoks hrest
    cases k with
    | zero => exact .inl rfl
    | succ k =>
      rw [Phrase.parse, parsepipe]
      refine (ih k s rest hs htoks (hrest.mono (by decide))).bind ?_
      rintro ⟨c, s1⟩ ⟨rfl, htoks1, hs1⟩
      dsimp only at htoks1 hs1 ⊢
      have hpeek : (peek mem es s1 [ch '|']).1 = false := by
        apply h.peek_clear (by decide)
        rw [htoks1]
        exact hrest.clear (avoids (by decide))
      rw [hpeek]
      exact .ok ⟨rfl, by rw [peek_snd, h.toks_skip, htoks1], skip_le mem hs1⟩
  | @pipe ts ts' t t' hexec hpipe ih ih' =>
    intro k s rest hs htoks hrest
    cases k with
    | zero => exact .inl rfl
    | succ k =>
      rw [append_assoc, cons_append] at htoks
      rw [Phrase.parse, parsepipe]
      refine (ih k s _ hs htoks (stops_sym (by decide))).bind ?_
      rintro ⟨c, s1⟩ ⟨rfl, htoks1, hs1⟩
      dsimp only at htoks1 hs1 ⊢
      obtain ⟨-, hlex1, hnext1⟩ := h.next htoks1
      rw [if_pos (h.peek_sym (by decide) htoks1 (by decide)), peek_snd, h.gettoken_skip]
      refine (ih' k _ _ hlex1.le hnext1 hrest).bind ?_
      rintro ⟨c, s2⟩ ⟨rfl, htoks2, hs2⟩
      exact .ok ⟨rfl, htoks2, hs2⟩
  | @last ts t n hpipe ih =>
    intro k s rest hs htoks hrest
    cases k with
    | zero => exact .inl rfl
    | succ k =>
      rw [append_assoc] at htoks
      rw [Phrase.parse, parseline]
      have hstops : Stops Phrase.pipe.follow rest := hrest.mono (by decide)
      refine (ih k s _ hs htoks (stops_replicate (by decide) hstops)).bind ?_
      rintro ⟨c, s1⟩ ⟨rfl, htoks1, hs1⟩
      dsimp only at htoks1 hs1 ⊢
      refine (h.parsebacks_finds (hrest.clear (avoids (by decide))) n k s1 t hs1 htoks1).bind ?_
      rintro ⟨c, s2⟩ ⟨rfl, htoks2, hs2⟩
      dsimp only at htoks2 hs2 ⊢
      have hpeek : (peek mem es s2 [ch ';']).1 = false := by
        apply h.peek_clear (by decide)
        rw [htoks2]
        exact hrest.clear (avoids (by decide))
      rw [hpeek]
      exact .ok ⟨rfl, by rw [peek_snd, h.toks_skip, htoks2], skip_le mem hs2⟩
  | @list ts ts' t t' n hpipe hline ih ih' =>
    intro k s rest hs htoks hrest
    cases k with
    | zero => exact .inl rfl
    | succ k =>
      rw [append_assoc, append_assoc, cons_append] at htoks
      rw [Phrase.parse, parseline]
      refine (ih k s _ hs htoks (stops_replicate (by decide) (stops_sym (by decide)))).bind ?_
      rintro ⟨c, s1⟩ ⟨rfl, htoks1, hs1⟩
      dsimp only at htoks1 hs1 ⊢
      have hclear : Clear [ch '&'] (.sym (ch ';') :: (ts' ++ rest)) := by
        rintro u hu
        cases hu
        decide
      refine (h.parsebacks_finds hclear n k s1 t hs1 htoks1).bind ?_
      rintro ⟨c, s2⟩ ⟨rfl, htoks2, hs2⟩
      dsimp only at htoks2 hs2 ⊢
      obtain ⟨-, hlex2, hnext2⟩ := h.next htoks2
      rw [if_pos (h.peek_sym (by decide) htoks2 (by decide)), peek_snd, h.gettoken_skip]
      refine (ih' k _ _ hlex2.le hnext2 hrest).bind ?_
      rintro ⟨c, s3⟩ ⟨rfl, htoks3, hs3⟩
      exact .ok ⟨rfl, htoks3, hs3⟩

/-! ### The words of a command -/

/-- No command has more words than its arrays have room for. -/
def Tree.Small : Tree → Prop
  | .exec args => args.length < MAXARGS
  | .redir t _ _ _ => t.Small
  | .pipe left right => left.Small ∧ right.Small
  | .list left right => left.Small ∧ right.Small
  | .back t => t.Small

lemma Tree.small_redirs (rs : List (Redir × Word)) (h : t.Small) : (t.redirs rs).Small := by
  induction rs generalizing t with
  | nil => exact h
  | cons r rs ih => exact ih (t := .redir t r.2 r.1.mode r.1.fd) h

lemma Tree.small_backs (n : ℕ) (h : t.Small) : (Tree.backs n t).Small := by
  induction n generalizing t with
  | zero => exact h
  | succ n ih => exact ih (t := .back t) h

lemma Tree.words_redirs (t : Tree) (rs : List (Redir × Word)) :
    (t.redirs rs).words = t.words ++ rs.map Prod.snd := by
  induction rs generalizing t with
  | nil => simp [Tree.redirs]
  | cons r rs ih =>
    change (Tree.redirs (.redir t r.2 r.1.mode r.1.fd) rs).words = _
    rw [ih]
    simp [Tree.words]

lemma Tree.words_backs (n : ℕ) (t : Tree) : (Tree.backs n t).words = t.words := by
  induction n generalizing t with
  | zero => rfl
  | succ n ih => exact ih (.back t)

lemma Derives.small (h : Derives p ts t) : t.Small := by
  induction h with
  | block hline hrs ih => exact Tree.small_redirs _ ih
  | simple hrs hargs hlen => exact Tree.small_redirs _ (Nat.lt_of_le_of_lt hlen (by decide))
  | one hexec ih => exact ih
  | pipe hexec hpipe ih ih' => exact ⟨ih, ih'⟩
  | last n hpipe ih => exact Tree.small_backs n ih
  | list n hpipe hline ih ih' => exact ⟨Tree.small_backs n ih, ih'⟩

lemma Redirs.mem_words (h : Redirs ts rs) (hw : w ∈ rs.map Prod.snd) : .word w.1 w.2 ∈ ts := by
  induction h with
  | nil => cases hw
  | cons d v hrs ih =>
    rcases mem_cons.mp hw with rfl | hw
    · exact mem_cons_of_mem _ mem_cons_self
    · exact mem_cons_of_mem _ (mem_cons_of_mem _ (ih hw))

lemma Args.mem_words (h : Args ts ws rs) (hw : w ∈ ws ++ rs.map Prod.snd) : .word w.1 w.2 ∈ ts := by
  induction h with
  | nil => cases hw
  | cons v hrs hargs ih =>
    simp only [cons_append, map_append, mem_cons, mem_append] at hw ih ⊢
    rcases hw with rfl | hw | hw | hw
    · exact .inl rfl
    · exact .inr (.inr (ih (.inl hw)))
    · exact .inr (.inl (hrs.mem_words hw))
    · exact .inr (.inr (ih (.inr hw)))

lemma Derives.mem_words (h : Derives p ts t) (hw : w ∈ t.words) : .word w.1 w.2 ∈ ts := by
  induction h with
  | block hline hrs ih =>
    rw [Tree.words_redirs, mem_append] at hw
    simp only [mem_cons, mem_append]
    rcases hw with hw | hw
    · exact .inr (.inl (ih hw))
    · exact .inr (.inr (.inr (hrs.mem_words hw)))
  | simple hrs hargs hlen =>
    rw [Tree.words_redirs, map_append, mem_append, mem_append] at hw
    rw [mem_append]
    rcases hw with hw | hw | hw
    · exact .inr (hargs.mem_words (mem_append_left _ hw))
    · exact .inl (hrs.mem_words hw)
    · exact .inr (hargs.mem_words (mem_append_right _ hw))
  | one hexec ih => exact ih hw
  | pipe hexec hpipe ih ih' =>
    rcases mem_append.mp hw with hw | hw
    · exact mem_append_left _ (ih hw)
    · exact mem_append_right _ (mem_cons_of_mem _ (ih' hw))
  | last n hpipe ih =>
    rw [Tree.words_backs] at hw
    exact mem_append_left _ (ih hw)
  | list n hpipe hline ih ih' =>
    rcases mem_append.mp hw with hw | hw
    · rw [Tree.words_backs] at hw
      exact mem_append_left _ (ih hw)
    · exact mem_append_right _ (mem_append_right _ (mem_cons_of_mem _ (ih' hw)))

lemma Str.isWord (h : Str mem es) {q eq : ℕ} (hw : .word q eq ∈ toks mem es s) :
    IsWord mem es q eq := by
  generalize hts : toks mem es s = ts at hw
  induction ts generalizing s with
  | nil => cases hw
  | cons t ts ih =>
    obtain ⟨htok, hlex, hrest⟩ := h.next hts
    rcases mem_cons.mp hw with rfl | hw
    · exact (hlex.word q eq htok).2.2.2
    · exact ih hrest hw

/-! ### NUL-terminating -/

/-- The memory with a NUL at each of `l`. -/
def cut (l : List ℕ) (mem : ℕ → UInt8) : ℕ → UInt8 := fun i => if i ∈ l then 0 else mem i

lemma cut_nil : cut [] mem = mem := by
  funext i
  simp [cut]

lemma cut_cons (e : ℕ) (l : List ℕ) : cut l (update mem e 0) = cut (e :: l) mem := by
  funext i
  by_cases hi : i = e
  · subst hi
    simp [cut]
  · simp [cut, hi]

lemma cut_append (l l' : List ℕ) : cut l' (cut l mem) = cut (l ++ l') mem := by
  funext i
  by_cases hi : i ∈ l
  · simp [cut, hi]
  · simp [cut, hi]

lemma nulArgs_eq {args : List Word} (hlen : args.length < MAXARGS) :
    ∀ k i mem, i ≤ args.length → args.length < k + i →
      nulArgs (fun i => args[i]?.map Prod.fst) (fun i => args[i]?.map Prod.snd) k i mem =
        .ok (cut ((args.drop i).map Prod.snd) mem) := by
  intro k
  induction k with
  | zero =>
    intro i mem hi hk
    omega
  | succ k ih =>
    intro i mem hi hk
    rw [nulArgs, if_neg (by omega)]
    rcases Nat.lt_or_eq_of_le hi with hlt | rfl
    · rw [drop_eq_getElem_cons hlt, map_cons, ← cut_cons]
      simp only [List.getElem?_eq_getElem hlt, Option.map_some]
      exact ih _ _ hlt (by omega)
    · simp [cut_nil]

lemma nulterminate_eq (h : t.Small) :
    ∀ mem, nulterminate t.cmd mem = .ok (cut (t.words.map Prod.snd) mem) := by
  induction t with
  | exec args =>
    intro mem
    have hlen : args.length < MAXARGS := h
    exact nulArgs_eq hlen _ 0 mem (Nat.zero_le _) (by omega)
  | redir t file mode fd ih =>
    intro mem
    simp only [Tree.cmd, nulterminate, ih h]
    change Except.ok (update (cut _ mem) file.2 0) = _
    rw [Tree.words, map_append, ← cut_append, map_singleton, ← cut_cons, cut_nil]
  | pipe left right ih ih' | list left right ih ih' =>
    intro mem
    simp only [Tree.cmd, nulterminate, ih h.1]
    refine (ih' h.2 _).trans ?_
    rw [Tree.words, map_append, cut_append]
  | back t ih => exact ih h

/-- The string at `q`. -/
def IsCString (mem : ℕ → UInt8) (q : ℕ) (l : List UInt8) : Prop :=
  (∀ i (hi : i < l.length), mem (q + i) = l[i] ∧ l[i] ≠ 0) ∧ mem (q + l.length) = 0

/-- The part of the line that is a word. -/
def slice (line : List UInt8) (w : Word) : List UInt8 := (line.drop w.1).take (w.2 - w.1)

lemma isCString_cut {line : List UInt8} (h : Str (load line) line.length)
    (hws : ∀ w ∈ ws, IsWord (load line) line.length w.1 w.2) (hw : w ∈ ws) :
    IsCString (cut (ws.map Prod.snd) (load line)) w.1 (slice line w) := by
  have hword := hws w hw
  have hlt := hword.lt
  have hle := hword.le
  have hlen : (slice line w).length = w.2 - w.1 := by
    simp only [slice, length_take, length_drop]
    omega
  refine ⟨fun i hi => ?_, ?_⟩
  · rw [hlen] at hi
    have hget : (slice line w)[i] = load line (w.1 + i) := by
      simp only [slice, getElem_take, getElem_drop]
      exact (getD_eq_getElem _ _ (by omega)).symm
    have hout : w.1 + i ∉ ws.map Prod.snd := by
      intro hmem
      obtain ⟨v, hv, heq⟩ := mem_map.mp hmem
      have hends := (hws v hv).ends (by omega)
      rw [heq, hword.plain _ (by omega) (by omega)] at hends
      cases hends
    rw [hget, cut, if_neg hout]
    exact ⟨rfl, h.ne_zero _ (by omega)⟩
  · rw [hlen, Nat.add_sub_cancel' (Nat.le_of_lt hlt), cut, if_pos (mem_map_of_mem hw)]

/-! ### `parsecmd` -/

lemma length_tokensFrom : (tokensFrom mem es k s).length ≤ k := by
  induction k generalizing s with
  | zero => exact Nat.zero_le _
  | succ k ih =>
    rw [tokensFrom]
    split
    · exact Nat.zero_le _
    · exact Nat.succ_le_succ ih

lemma Tree.cmd_injective : Injective Tree.cmd := by
  intro t
  induction t with
  | exec args =>
    intro t' h
    cases t' with
    | exec args' =>
      simp only [Tree.cmd, Cmd.exec.injEq] at h
      congr 1
      apply ext_getElem?
      intro i
      have h1 := congrFun h.1 i
      have h2 := congrFun h.2 i
      cases hi : args[i]? <;> cases hi' : args'[i]? <;>
        simp_all [Prod.ext_iff]
    | _ => cases h
  | redir t file mode fd ih =>
    intro t' h
    cases t' with
    | redir t' file' mode' fd' =>
      simp only [Tree.cmd, Cmd.redir.injEq] at h
      obtain ⟨h1, h2, h3, rfl, rfl⟩ := h
      rw [ih h1, Prod.ext h2 h3]
    | _ => cases h
  | pipe left right ih ih' =>
    intro t' h
    cases t' with
    | pipe left' right' =>
      simp only [Tree.cmd, Cmd.pipe.injEq] at h
      rw [ih h.1, ih' h.2]
    | _ => cases h
  | list left right ih ih' =>
    intro t' h
    cases t' with
    | list left' right' =>
      simp only [Tree.cmd, Cmd.list.injEq] at h
      rw [ih h.1, ih' h.2]
    | _ => cases h
  | back t ih =>
    intro t' h
    cases t' with
    | back t' =>
      simp only [Tree.cmd, Cmd.back.injEq] at h
      rw [ih h]
    | _ => cases h

variable {line : List UInt8}

lemma parsecmd_finds (h : 0 ∉ line) (hd : Derives .line (tokens line) t) (k : ℕ) :
    Finds (fun r => r = (t.cmd, cut (t.words.map Prod.snd) (load line))) (parsecmd k line) := by
  have hstr := str_load h
  have hall : toks (load line) line.length 0 = tokens line ++ [] := (append_nil _).symm
  refine (hstr.parse_finds hd k 0 [] (Nat.zero_le _) hall (fun t ht => by cases ht)).bind ?_
  rintro ⟨c, s⟩ ⟨rfl, htoks, hs⟩
  dsimp only at htoks hs ⊢
  rw [if_neg (by rw [peek_snd, hstr.skip_eq_of_toks_nil hs htoks]; simp), nulterminate_eq hd.small]
  exact .ok rfl

lemma parsecmd_meets (h : 0 ∉ line) (k : ℕ) :
    Meets (k < 4 * line.length + 8) (fun r => ∃ t, Derives .line (tokens line) t ∧ r.1 = t.cmd)
      (parsecmd k line) := by
  have hstr := str_load h
  have hlen : (toks (load line) line.length 0).length ≤ line.length + 1 := length_tokensFrom
  refine Meets.bind (((hstr.sound k).line 0 (Nat.zero_le _)).mono (fun hk => by omega)
    fun _ hQ => hQ) ?_
  rintro ⟨c, s⟩ ⟨ts, t, rfl, hts, hd, hs⟩
  dsimp only at hts hs ⊢
  split
  · trivial
  · rename_i hend
    rw [peek_snd, not_not] at hend
    have hnil : toks (load line) line.length s = [] := by
      rw [hstr.toks_nil, hend]
      exact hstr.zero _ (Nat.le_refl _)
    rw [hnil, append_nil] at hts
    rw [nulterminate_eq hd.small]
    refine ⟨t, ?_, rfl⟩
    rw [tokens, hts]
    exact hd

/-- **The parser of the shell accepts exactly its grammar.** With enough fuel `parsecmd` returns
the command of the only derivation of the line, with every word as a string, and reports an error
if there is none. -/
theorem parsecmd_grammar (h : 0 ∉ line) (k : ℕ) :
    parsecmd k line ≠ .error .undefined ∧
    (4 * line.length + 8 ≤ k →
      (∃ t, Derives .line (tokens line) t ∧ (∀ t', Derives .line (tokens line) t' → t' = t) ∧
        ∃ mem, parsecmd k line = .ok (t.cmd, mem) ∧
          ∀ w ∈ t.words, IsCString mem w.1 (slice line w)) ∨
      (¬ ∃ t, Derives .line (tokens line) t) ∧ ∃ msg, parsecmd k line = .error (.panic msg)) := by
  have hmeets := parsecmd_meets h k
  refine ⟨fun hu => ?_, fun hk => ?_⟩
  · rw [hu] at hmeets
    exact hmeets
  · by_cases hex : ∃ t, Derives .line (tokens line) t
    · left
      have hfind : ∀ t, Derives .line (tokens line) t →
          parsecmd k line = .ok (t.cmd, cut (t.words.map Prod.snd) (load line)) := by
        intro t hd
        rcases parsecmd_finds h hd k with hhang | ⟨r, hr, rfl⟩
        · rw [hhang] at hmeets
          exact absurd hmeets (Nat.not_lt.mpr hk)
        · exact hr
      obtain ⟨t, hd⟩ := hex
      refine ⟨t, hd, fun t' hd' => ?_, _, hfind t hd, fun w hw => ?_⟩
      · have heq := (hfind t' hd').symm.trans (hfind t hd)
        simp only [Except.ok.injEq, Prod.mk.injEq] at heq
        exact Tree.cmd_injective heq.1
      · exact isCString_cut (str_load h) (fun v hv => (str_load h).isWord (hd.mem_words hv)) hw
    · right
      refine ⟨hex, ?_⟩
      match hr : parsecmd k line, hmeets with
      | .ok r, ⟨t, hd, _⟩ => exact absurd ⟨t, hd⟩ hex
      | .error (.panic msg), _ => exact ⟨msg, rfl⟩
      | .error .hang, hlt => exact absurd hlt (Nat.not_lt.mpr hk)

/-- `a>b&` -/
def background : List UInt8 := [ch 'a', ch '>', ch 'b', ch '&']

theorem parsecmd_grammar_background :
    tokens background = [.word 0 1, .sym (ch '>'), .word 2 3, .sym (ch '&')] ∧
    ∃ mem, parsecmd 24 background =
      .ok ((Tree.back (.redir (.exec [(0, 1)]) (2, 3) 0x601 1)).cmd, mem) := by
  have htoks : tokens background = [.word 0 1, .sym (ch '>'), .word 2 3, .sym (ch '&')] := by
    decide
  refine ⟨htoks, ?_⟩
  have hd : Derives .line (tokens background)
      (.backs 1 ((Tree.exec [(0, 1)]).redirs [(Redir.output, (2, 3))])) := by
    rw [htoks]
    exact .last 1 (.one (.simple .nil (.cons (0, 1) (.cons .output (2, 3) .nil) .nil) (by decide)))
  have hgrammar := (parsecmd_grammar (show 0 ∉ background by decide) 24).2 (by decide)
  rcases hgrammar with ⟨t, -, huniq, mem, hr, -⟩ | ⟨hnone, -⟩
  · rw [← huniq _ hd] at hr
    exact ⟨mem, hr⟩
  · exact absurd ⟨_, hd⟩ hnone

end Xv6.Sh
