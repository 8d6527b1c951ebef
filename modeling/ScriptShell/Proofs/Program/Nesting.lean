import ScriptShell.Proofs.Program.Height
import ScriptShell.Proofs.Program.RoundTrip

/-!
# ScriptShell.Proofs.Program.Nesting

How deep the statements of a program stand in one another. Every block takes a level of nesting, so
blocks are bounded in depth. An `elif` is an `if` in the `else` part of the one before it, but no
block is read there, and no level is taken.

* `Stmt.nesting`, `blockNesting`: the greatest number of compound statements on a path.
* `elifAt`: the places of a text where an `elif` stands.
* `nesting_le_of_parseProgram`: the `if`s of an `elif` aside, no path has more than `maxNesting`
  compound statements.
* `burrow`, `ladder`: functions in functions, and an `if` with many `elif`s.
* `nestings_bounded_iff`: the bounds that hold.
-/

namespace ScriptShell

mutual

/-- The greatest number of compound statements on a path from the statement down. An `if` whose
place is `free` is not counted. -/
def Stmt.nesting (free : Pos → Bool) : Stmt → Nat
  | .define _ _ body _ => blockNesting free body + 1
  | .if_ _ thenPart elsePart p =>
    max (blockNesting free thenPart) (blockNesting free elsePart) + if free p then 0 else 1
  | .while_ _ body _ => blockNesting free body + 1
  | .expr .. | .assign .. | .load .. | .return_ .. | .pass => 0

/-- The greatest number of compound statements on a path from a list of statements down. -/
def blockNesting (free : Pos → Bool) : List Stmt → Nat
  | [] => 0
  | s :: ss => max (s.nesting free) (blockNesting free ss)

end

/-- Does an `elif` stand at this place of the text? -/
def elifAt (text : String) (p : Pos) : Bool :=
  match scan .program text with
  | .ok ls => ls.any fun l => decide (l.token = .keyword .elif ∧ l.pos = p)
  | .error _ => false

/-! ## Blocks take levels -/

/-- Every `elif` of the list stands at a free place. -/
def FreeElifs (free : Pos → Bool) (ls : List Lexeme) : Prop :=
  ∀ l ∈ ls, l.token = .keyword .elif → free l.pos = true

section Bound

variable {free : Pos → Bool} {n h : Nat} {inFunction : Bool} {ls rest : List Lexeme}

theorem FreeElifs.of_append {ts : List Lexeme} (hls : FreeElifs free (ts ++ rest)) :
    FreeElifs free rest :=
  fun l hl => hls l (List.mem_append_right ts hl)

theorem FreeElifs.of_cons {l : Lexeme} (hls : FreeElifs free (l :: rest)) : FreeElifs free rest :=
  fun m hm => hls m (List.mem_cons_of_mem l hm)

theorem FreeElifs.tail (hls : FreeElifs free ls) : FreeElifs free ls.tail :=
  fun l hl => hls l (List.mem_of_mem_tail hl)

theorem FreeElifs.here (hls : FreeElifs free ls) (hp : peek ls = .keyword .elif) :
    free (here ls) = true := by
  obtain ⟨l, ls', rfl, hl⟩ := (peek_eq_iff (by simp)).1 hp
  exact hls l List.mem_cons_self hl

/-- Blocks of the reader have fewer than `h` compound statements on a path. -/
def BlockWithin (free : Pos → Bool) (h : Nat) (r : Reader (List Stmt)) : Prop :=
  ∀ ls ss rest, FreeElifs free ls → r ls = .ok (ss, rest) →
    blockNesting free ss < h ∧ FreeElifs free rest

/-- Statements of the reader have at most `h` compound statements on a path. -/
def StmtWithin (free : Pos → Bool) (h : Nat) (r : Reader Stmt) : Prop :=
  ∀ ls s rest, FreeElifs free ls → r ls = .ok (s, rest) →
    s.nesting free ≤ h ∧ FreeElifs free rest

theorem nesting_of_readSimple {s : Stmt} (hs : readSimple n inFunction ls = .ok (s, rest)) :
    s.nesting free = 0 := by
  rcases readSimple_eq_ok_iff.1 hs with ⟨_, -, -, rfl⟩ | ⟨-, hs⟩ | ⟨-, hs⟩ | ⟨-, -, -, hs⟩
  · rfl
  · obtain ⟨-, _, _, -, ⟨-, -, rfl⟩ | ⟨-, _, -, rfl⟩⟩ := readReturn_eq_ok_iff.1 hs <;> rfl
  · obtain ⟨-, _, _, _, _, _, _, _, -, -, -, -, -, -, rfl⟩ := readLoad_eq_ok_iff.1 hs
    rfl
  · rcases readAssignment_eq_ok_iff.1 hs with ⟨_, -, -, rfl⟩ | ⟨_, _, _, _, _, -, -, -, rfl⟩ <;> rfl

theorem readLine_within {s : Stmt} (hls : FreeElifs free ls)
    (hs : readLine n inFunction ls = .ok (s, rest)) :
    s.nesting free = 0 ∧ FreeElifs free rest := by
  obtain ⟨l, hs, -⟩ := readLine_eq_ok_iff.1 hs
  obtain ⟨ts, rfl, -⟩ := frames_readSimple (π := id) hs
  exact ⟨nesting_of_readSimple hs, hls.of_append.of_cons⟩

section Statements

variable {block : Reader (List Stmt)}

theorem readArm_within (hb : BlockWithin free h block) (hls : FreeElifs free ls) {cond : Expr}
    {body : List Stmt} (ha : readArm n block ls = .ok ((cond, body), rest)) :
    blockNesting free body < h ∧ FreeElifs free rest := by
  obtain ⟨c, ls', hc, -, hbody⟩ := readArm_eq_ok_iff.1 ha
  obtain ⟨ts, rfl, -⟩ := Expr.frames_read (π := id) n hc
  exact hb _ _ _ hls.of_append.of_cons hbody

theorem stmtWithin_readDefine (hb : BlockWithin free h block) :
    StmtWithin free h (readDefine block) := by
  intro ls s rest hls hs
  obtain ⟨o, i, l, ls₁, r, c, ls₂, name, params, body, rfl, -, -, hps, hr, -, hbody, rfl⟩ :=
    readDefine_eq_ok_iff.1 hs
  obtain ⟨ts, rfl, -⟩ := frames_readItems (π := id) frames_readName hps hr
  obtain ⟨hlt, hrest⟩ :=
    hb _ _ _ hls.of_cons.of_cons.of_cons.of_append.of_cons.of_cons hbody
  exact ⟨hlt, hrest⟩

/-- The `if` of an `elif` is free, so it is as deep as its blocks are. -/
theorem readIf_within (hb : BlockWithin free h block) :
    ∀ (bound : List Lexeme) {ls rest : List Lexeme} {s : Stmt}, FreeElifs free ls →
      readIf n block bound ls = .ok (s, rest) →
      s.nesting free < h + (if free (here ls) then 0 else 1) ∧ FreeElifs free rest := by
  intro bound
  induction bound with
  | nil => intro ls rest s _ hs; exact absurd hs refuse_ne_ok
  | cons b bound ih =>
    intro ls rest s hls hs
    obtain ⟨cond, thenPart, ls', ha, hs⟩ := readIf_cons_eq_ok_iff.1 hs
    obtain ⟨hthen, hls'⟩ := readArm_within hb hls.tail ha
    rcases hs with ⟨hp, s', hs', rfl⟩ | ⟨o, c, ls'', elsePart, rfl, -, -, hbody, rfl⟩ |
      ⟨-, -, rfl, rfl⟩
    · obtain ⟨helse, hrest⟩ := ih hls' hs'
      rw [hls'.here hp, if_pos rfl, Nat.add_zero] at helse
      simp only [Stmt.nesting, blockNesting]
      exact ⟨by omega, hrest⟩
    · obtain ⟨helse, hrest⟩ := hb _ _ _ hls'.of_cons.of_cons hbody
      simp only [Stmt.nesting]
      exact ⟨by omega, hrest⟩
    · simp only [Stmt.nesting, blockNesting]
      exact ⟨by omega, hls'⟩

theorem stmtWithin_readIf (hb : BlockWithin free h block) (bound : List Lexeme) :
    StmtWithin free h (readIf n block bound) := by
  intro ls s rest hls hs
  obtain ⟨hlt, hrest⟩ := readIf_within hb bound hls hs
  refine ⟨?_, hrest⟩
  split at hlt <;> omega

theorem stmtWithin_readWhile (hb : BlockWithin free h block) :
    StmtWithin free h (readWhile n block) := by
  intro ls s rest hls hs
  obtain ⟨cond, body, ha, rfl⟩ := readWhile_eq_ok_iff.1 hs
  exact readArm_within hb hls.tail ha

theorem stmtWithin_readStmtWith {block : Bool → Reader (List Stmt)}
    (hb : ∀ f, BlockWithin free h (block f)) :
    StmtWithin free h (readStmtWith n block inFunction) := by
  intro ls s rest hls hs
  rcases readStmtWith_eq_ok_iff.1 hs with ⟨-, hs⟩ | ⟨-, hs⟩ | ⟨-, hs⟩ | ⟨-, -, -, hs⟩
  · exact stmtWithin_readDefine (hb true) _ _ _ hls hs
  · exact stmtWithin_readIf (hb inFunction) _ _ _ _ hls hs
  · exact stmtWithin_readWhile (hb inFunction) _ _ _ hls hs
  · obtain ⟨hzero, hrest⟩ := readLine_within hls hs
    exact ⟨by omega, hrest⟩

theorem blockWithin_readIndented {stmt : Reader Stmt} (hs : StmtWithin free h stmt) :
    ∀ bound, BlockWithin free (h + 1) (readIndented stmt bound) := by
  intro bound
  induction bound with
  | nil =>
    intro ls ss rest hls hr
    cases hr
    exact ⟨Nat.succ_pos h, hls⟩
  | cons b bound ih =>
    intro ls ss rest hls hr
    rcases readIndented_cons_eq_ok_iff.1 hr with
      ⟨o, rfl, -, rfl⟩ | ⟨-, rfl, rfl⟩ | ⟨-, -, s, ls', ss', hs', hr', rfl⟩
    · exact ⟨Nat.succ_pos h, hls.of_cons⟩
    · exact ⟨Nat.succ_pos h, hls⟩
    · obtain ⟨hfirst, hls'⟩ := hs _ _ _ hls hs'
      obtain ⟨hmore, hrest⟩ := ih _ _ _ hls' hr'
      simp only [blockNesting]
      exact ⟨by omega, hrest⟩

end Statements

theorem blockWithin_readBlock : ∀ {n : Nat} {inFunction : Bool},
    BlockWithin free n (readBlock n inFunction) := by
  intro n
  induction n with
  | zero => intro f ls ss rest _ hr; obtain ⟨_, h, -⟩ := readBlock_eq_ok_iff.1 hr; cases h
  | succ n ih =>
    intro f ls ss rest hls hr
    obtain ⟨k, hk, hr⟩ := readBlock_eq_ok_iff.1 hr
    cases hk
    rcases hr with ⟨_, _, _, rfl, -, -, hr⟩ | ⟨-, s, hs, rfl⟩
    · exact blockWithin_readIndented (stmtWithin_readStmtWith fun _ => ih) _ _ _ _
        hls.of_cons.of_cons hr
    · obtain ⟨hzero, hrest⟩ := readLine_within hls hs
      simp only [blockNesting]
      exact ⟨by omega, hrest⟩

theorem stmtWithin_read (n : Nat) (inFunction : Bool) :
    StmtWithin free n (Stmt.read n inFunction) :=
  stmtWithin_readStmtWith fun _ => blockWithin_readBlock

theorem FreeElifs.skipNewlines (hls : FreeElifs free ls) : FreeElifs free (skipNewlines ls) :=
  fun l hl => hls l ((List.dropWhile_sublist _).subset hl)

theorem Reads.nesting_le {p : List Stmt} (hp : Reads ls p) (hls : FreeElifs free ls) :
    blockNesting free p ≤ maxNesting := by
  induction hp with
  | done _ => exact Nat.zero_le _
  | more _ hs _ ih =>
    obtain ⟨hfirst, hrest⟩ := stmtWithin_read _ _ _ _ _ hls.skipNewlines hs
    exact Nat.max_le.2 ⟨hfirst, ih hrest⟩

end Bound

theorem freeElifs_elifAt {text : String} {ls : List Lexeme} (hscan : scan .program text = .ok ls) :
    FreeElifs (elifAt text) ls := by
  intro l hl htoken
  simp only [elifAt, hscan]
  exact List.any_eq_true.2 ⟨l, hl, by simp [htoken]⟩

/-- The `if`s of an `elif` aside, no path has more compound statements than there are levels. -/
theorem nesting_le_of_parseProgram {file text : String} {p : Program}
    (h : parseProgram file text = .ok p) : blockNesting (elifAt text) p ≤ maxNesting := by
  obtain ⟨ls, hscan, hp⟩ := Program.parse_eq_ok_iff.1 (ok_of_parseProgram h)
  exact hp.nesting_le (freeElifs_elifAt hscan)

/-! ## Places do not matter but for what is free -/

mutual

theorem Stmt.nesting_mapPos (free : Pos → Bool) (π : Pos → Pos) :
    ∀ s : Stmt, (s.mapPos π).nesting free = s.nesting fun p => free (π p)
  | .define _ _ body _ => by
    simp only [Stmt.mapPos_define, Stmt.nesting, blockNesting_mapPos free π body]
  | .if_ _ thenPart elsePart _ => by
    simp only [Stmt.mapPos_if, Stmt.nesting, blockNesting_mapPos free π thenPart,
      blockNesting_mapPos free π elsePart]
  | .while_ _ body _ => by
    simp only [Stmt.mapPos_while, Stmt.nesting, blockNesting_mapPos free π body]
  | .expr .. | .assign .. | .load .. | .return_ .. | .pass => by
    simp only [Stmt.mapPos, Stmt.nesting]

theorem blockNesting_mapPos (free : Pos → Bool) (π : Pos → Pos) :
    ∀ ss : List Stmt, blockNesting free (ss.map (Stmt.mapPos π)) =
      blockNesting (fun p => free (π p)) ss
  | [] => rfl
  | s :: ss => by
    simp only [List.map_cons, blockNesting, Stmt.nesting_mapPos free π s,
      blockNesting_mapPos free π ss]

end

mutual

theorem Stmt.nesting_free_le (free : Pos → Bool) :
    ∀ s : Stmt, s.nesting (fun _ => true) ≤ s.nesting free
  | .define _ _ body _ => Nat.succ_le_succ (blockNesting_free_le free body)
  | .if_ _ thenPart elsePart _ => by
    have hthen := blockNesting_free_le free thenPart
    have helse := blockNesting_free_le free elsePart
    simp only [Stmt.nesting, if_pos]
    omega
  | .while_ _ body _ => Nat.succ_le_succ (blockNesting_free_le free body)
  | .expr .. | .assign .. | .load .. | .return_ .. | .pass => Nat.le_refl _

/-- The fewer places are free, the more is counted. -/
theorem blockNesting_free_le (free : Pos → Bool) :
    ∀ ss : List Stmt, blockNesting (fun _ => true) ss ≤ blockNesting free ss
  | [] => Nat.le_refl _
  | s :: ss => by
    have hfirst := Stmt.nesting_free_le free s
    have hmore := blockNesting_free_le free ss
    simp only [blockNesting]
    omega

end

/-- Programs that differ in places alone are nested alike, if all `if`s are counted or none is. -/
theorem SameBlock.blockNesting_eq {ss ss' : List Stmt} (h : SameBlock Pos.forget ss ss')
    (b : Bool) : blockNesting (fun _ => b) ss = blockNesting (fun _ => b) ss' := by
  rw [← blockNesting_mapPos (fun _ => b) Pos.forget ss, h.map_eq,
    blockNesting_mapPos (fun _ => b) Pos.forget ss']

/-! ## Programs that are nested deep -/

theorem exists_parse_of_readsAll {wrap : Bool} {ls : List Line} {p : Program} {text : String}
    (file : String) (hp : p.isPrintable = true) (h : Laid wrap [] (.stmts p) ls)
    (htext : Written ls text.toList)
    (hreads : ∀ us o, tokens us = lineTokens [] ls [] → o.token = .endOfInput →
      ReadsAll True maxNesting false [o] (us ++ [o]) p) :
    ∃ p', parseProgram file text = .ok p' ∧ SameBlock Pos.forget p p' := by
  obtain ⟨ms, hscan, hms⟩ := scan_written hp h htext
  obtain ⟨us, es, rfl, hus, hes⟩ := tokens_eq_append_iff.1 hms
  obtain ⟨o, es, rfl, ho, hes⟩ := tokens_eq_cons_iff.1 hes
  obtain rfl := List.map_eq_nil_iff.1 hes
  rcases (hreads us o hus ho).obtains_stmts (by rw [peek, ho]) (Nat.le_refl (us ++ [o]).length)
    with ⟨p', hp', hsame⟩ | ⟨hdeep, -⟩
  · refine ⟨p', ?_, hsame⟩
    rw [parseProgram, Program.parse, bind_of_eq_ok hscan, hp']
    rfl
  · exact absurd trivial hdeep

/-- Functions one inside the other, `n` of them. -/
def burrow : Nat → Stmt
  | 0 => .pass
  | n + 1 => .define "f" [] [burrow n] .start

theorem isPrintable_burrow {inFunction : Bool} (n : Nat) :
    (burrow n).isPrintable inFunction = true := by
  induction n generalizing inFunction with
  | zero => rfl
  | succ n ih =>
    have hname : isIdentifier "f" = true := by decide
    simp [burrow, Stmt.isPrintable, Stmt.isPrintable.blockPrintable, hname, ih]

theorem nesting_burrow (free : Pos → Bool) (n : Nat) : (burrow n).nesting free = n := by
  induction n with
  | zero => rfl
  | succ n ih => simp only [burrow, Stmt.nesting, blockNesting, ih, Nat.max_zero]

theorem Laid.readsAll_single {shallow : Prop} {wrap inFunction : Bool} {ws : List Nat}
    {ls : List Line} {us rest : List Lexeme} {n : Nat} {s : Stmt}
    (h : Laid wrap ws (.stmts [s]) ls) (hus : tokens us = lineTokens ws ls ws)
    (hread : ∀ {ls}, Laid wrap ws (.stmt s) ls → tokens us = lineTokens ws ls ws →
      Obtains shallow (Stmt.read n inFunction (us ++ rest)) rest (s.Same Pos.forget)) :
    ReadsAll shallow n inFunction rest (us ++ rest) [s] := by
  cases h with
  | stmts h hs =>
    cases hs
    rw [List.append_nil] at hus
    have hfirst := h.first hus rest
    rw [Token.startsStmt, Bool.and_eq_true, Bool.not_eq_true'] at hfirst
    have hlength := length_pos_of_startsStmt (h.first hus [])
    refine .cons hfirst.1 ?_ (hread h hus) .nil
    rw [List.length_append]
    omega

/-- A level for each function is enough. -/
theorem Laid.obtains_burrow {wrap inFunction : Bool} {ws : List Nat} {ls : List Line}
    {us rest : List Lexeme} {n k : Nat} (h : Laid wrap ws (.stmt (burrow k)) ls) (hk : k ≤ n)
    (hus : tokens us = lineTokens ws ls ws) :
    Obtains True (Stmt.read n inFunction (us ++ rest)) rest ((burrow k).Same Pos.forget) := by
  induction k generalizing ws ls us rest n inFunction with
  | zero =>
    cases h with
    | simple h =>
      cases h
      obtain ⟨ms, ns, rfl, hms, hns⟩ := tokens_eq_line hus
      obtain ⟨o, ms, rfl, ho, hms⟩ := tokens_eq_cons_iff.1 hms
      obtain rfl := List.map_eq_nil_iff.1 hms
      rw [lineTokens_nil] at hns
      obtain ⟨l, ns, rfl, hl, hns⟩ := tokens_eq_cons_iff.1 hns
      obtain rfl := List.map_eq_nil_iff.1 hns
      refine .ok .pass (readStmtWith_eq_ok_iff.2 (.inr (.inr (.inr ⟨?_, ?_, ?_,
        readLine_eq_ok_iff.2 ⟨l, readSimple_eq_ok_iff.2 (.inl ⟨o, rfl, ho, rfl⟩), hl⟩⟩)))) rfl <;>
        simp [peek, ho]
  | succ k ih =>
    obtain ⟨n, rfl⟩ : ∃ m, n = m + 1 := ⟨n - 1, by omega⟩
    cases h with
    | simple h => cases h
    | define hw h =>
      obtain ⟨ms, ns, rfl, hms, hns⟩ := tokens_eq_line hus
      rw [List.append_assoc]
      refine obtains_define hms (h.obtains_block_succ (List.cons_ne_nil _ _) ?_ hns)
      intro vs rest hvs _
      exact h.readsAll_single hvs fun h hvs => ih h (by omega) hvs

/-- An `if` with an `elif` behind the block of each, `n` of them all in all. -/
def ladder : Nat → Program
  | 0 => []
  | n + 1 => [.if_ (.bool true) [.pass] (ladder n) .start]

theorem nesting_ladder (n : Nat) : blockNesting (fun _ => false) (ladder n) = n := by
  induction n with
  | zero => rfl
  | succ n ih => simp [ladder, Stmt.nesting, blockNesting, ih]

theorem isPrintable_ladder (n : Nat) : (ladder n).isPrintable = true := by
  induction n with
  | zero => rfl
  | succ n ih =>
    rw [Program.isPrintable] at ih ⊢
    simp [ladder, Stmt.isPrintable, Stmt.isPrintable.blockPrintable, Expr.isPrintable, ih]

/-- The lines of the first `if` of a ladder, or of one of its `elif`s. -/
def rung (k : Keyword) : List Line :=
  [⟨[], armTokens false k (.bool true), 0⟩, ⟨[1], [.keyword .pass], 0⟩]

/-- The characters of these lines. -/
def rungText (k : Keyword) : List Char :=
  k.text.toList ++ " True:\n pass\n".toList

/-- The text of an `if` with `n` times an `elif`. -/
def ladderText (n : Nat) : String :=
  String.ofList (rungText .if_ ++ (List.replicate n (rungText .elif)).flatten)

theorem written_rung {ls : List Line} {cs : List Char} (k : Keyword) (h : Written ls cs) :
    Written (rung k ++ ls) (rungText k ++ cs) := by
  have harm : Spelled (armTokens false k (.bool true)) (k.text.toList ++ " True:".toList) :=
    .apart (.beside (by decide) (.beside (by decide) .nil))
  have hpass : Spelled [.keyword .pass] "pass".toList := .beside (by decide) .nil
  refine (Written.cons harm (Written.cons hpass h)).of_eq ?_
  simp [rungText, Line.indent]

theorem laid_rung {k : Keyword} {elsePart : List Stmt} {ls : List Line}
    (h : Laid false [] (.otherwise elsePart) ls) :
    Laid false [] (.branch k (.bool true) [.pass] elsePart) (rung k ++ ls) :=
  .branch (w := 1) Nat.one_pos (.stmts (.simple .pass) .noStmts) h

theorem laid_elifs (n : Nat) :
    Laid false [] (.otherwise (ladder n)) (List.replicate n (rung .elif)).flatten := by
  induction n with
  | zero => exact .noElse
  | succ n ih => exact .elif (laid_rung ih)

theorem laid_ladder (n : Nat) : Laid false [] (.stmts (ladder (n + 1)))
    (rung .if_ ++ (List.replicate n (rung .elif)).flatten) := by
  have h := Laid.stmts (.if_ (laid_rung (k := .if_) (laid_elifs n)) (p := .start)) .noStmts
  rwa [List.append_nil] at h

theorem written_ladder (n : Nat) :
    Written (rung .if_ ++ (List.replicate n (rung .elif)).flatten) (ladderText n).toList := by
  have helifs : Written (List.replicate n (rung .elif)).flatten
      (List.replicate n (rungText .elif)).flatten := by
    induction n with
    | zero => exact .nil
    | succ n ih => exact written_rung .elif ih
  rw [ladderText, String.toList_ofList]
  exact written_rung .if_ helifs

/-- However many `elif`s it has, a ladder is read. -/
theorem exists_parse_ladder (file : String) (n : Nat) :
    ∃ p, parseProgram file (ladderText n) = .ok p ∧ SameBlock Pos.forget (ladder (n + 1)) p := by
  have hrung : ∀ k, ∀ l ∈ rung k, l.around.length + 3 * l.height < maxNesting := by
    intro k l hl
    rcases List.mem_cons.1 hl with rfl | hl
    · exact (by decide : 0 < maxNesting)
    · obtain rfl := List.mem_singleton.1 hl
      exact (by decide : 1 < maxNesting)
  have hlow : ∀ l ∈ rung .if_ ++ (List.replicate n (rung .elif)).flatten,
      l.around.length + 3 * l.height < maxNesting := by
    intro l hl
    rcases List.mem_append.1 hl with hl | hl
    · exact hrung _ l hl
    · obtain ⟨ls, hls, hl⟩ := List.mem_flatten.1 hl
      obtain rfl := List.eq_of_mem_replicate hls
      exact hrung _ l hl
  refine exists_parse_of_readsAll file (isPrintable_ladder _) (laid_ladder n) (written_ladder n) ?_
  intro us o hus ho
  exact (laid_ladder n).reads (isPrintable_ladder _) (fun _ => hlow) rfl hus
    (by rw [peek, ho]; rfl)

/-- Functions as deep in one another as there are levels are read. -/
theorem exists_parse_burrow (file : String) :
    ∃ text p, parseProgram file text = .ok p ∧ SameBlock Pos.forget [burrow maxNesting] p := by
  have hp : Program.isPrintable [burrow maxNesting] = true := by
    simp only [Program.isPrintable, Stmt.isPrintable.blockPrintable, isPrintable_burrow,
      Bool.and_true]
  obtain ⟨ls, text, h, htext⟩ := Program.exists_text false hp
  refine ⟨text, exists_parse_of_readsAll file hp h htext fun us o hus _ => ?_⟩
  exact h.readsAll_single hus fun h hus => h.obtains_burrow (Nat.le_refl _) hus

/-! ## Bounds -/

/-- The bounds that hold of the compound statements on a path in accepted texts are those from 200
on, if the `if`s of an `elif` are not counted. If they are, no bound holds. -/
theorem nestings_bounded_iff (bound : Nat) :
    ((∀ (file text : String) (p : Program), parseProgram file text = .ok p →
        blockNesting (elifAt text) p ≤ bound) ↔ 200 ≤ bound) ∧
      ∃ (file text : String) (p : Program), parseProgram file text = .ok p ∧
        bound < blockNesting (fun _ => false) p := by
  refine ⟨⟨fun h => ?_, fun h file text p hp => ?_⟩, ?_⟩
  · obtain ⟨text, p, hp, hsame⟩ := exists_parse_burrow "burrow"
    have hnesting : blockNesting (fun _ => true) p = 200 := by
      rw [← hsame.blockNesting_eq true, blockNesting, nesting_burrow]
      rfl
    calc 200 = blockNesting (fun _ => true) p := hnesting.symm
      _ ≤ blockNesting (elifAt text) p := blockNesting_free_le _ _
      _ ≤ bound := h "burrow" text p hp
  · exact Nat.le_trans (nesting_le_of_parseProgram hp) h
  · obtain ⟨p, hp, hsame⟩ := exists_parse_ladder "ladder" bound
    refine ⟨"ladder", ladderText bound, p, hp, ?_⟩
    rw [← hsame.blockNesting_eq false, nesting_ladder]
    exact Nat.lt_succ_self bound

/-- An `if` with two hundred `elif`s is accepted and is deeper than the levels of nesting. -/
theorem ladder_above_maxNesting :
    ∃ p, parseProgram "t" (ladderText 200) = .ok p ∧
      maxNesting < blockNesting (fun _ => false) p := by
  obtain ⟨p, hp, hsame⟩ := exists_parse_ladder "t" 200
  refine ⟨p, hp, ?_⟩
  rw [← hsame.blockNesting_eq false, nesting_ladder]
  decide

end ScriptShell
