import ScriptShell.Proofs.Expr.Tower
import ScriptShell.Proofs.Program.Success

/-!
# ScriptShell.Proofs.Program.Height

The expressions of a program, and how high they are. Blocks take levels too, so an expression in a
block has at most the levels that one outside every block has.

* `Program.exprs`: the expressions that stand in a program, at any depth of blocks.
* `height_le_of_parseExpr`, `height_le_of_parseProgram`: none of them is higher than
  `tallest maxNesting`.
-/

namespace ScriptShell

mutual

/-- The expressions that stand in a statement or in its blocks. -/
def Stmt.exprs : Stmt → List Expr
  | .expr e _ => [e]
  | .assign _ e _ => [e]
  | .load .. => []
  | .define _ _ body _ => blockExprs body
  | .return_ none _ => []
  | .return_ (some e) _ => [e]
  | .if_ cond thenPart elsePart _ => cond :: (blockExprs thenPart ++ blockExprs elsePart)
  | .while_ cond body _ => cond :: blockExprs body
  | .pass => []

/-- The expressions that stand in a list of statements. -/
def blockExprs : List Stmt → List Expr
  | [] => []
  | s :: ss => s.exprs ++ blockExprs ss

end

/-- The expressions that stand in a program. -/
def Program.exprs (p : Program) : List Expr := blockExprs p

/-- Every expression of the list is at most `h` high. -/
def AllLow (h : Nat) (es : List Expr) : Prop := ∀ e ∈ es, e.height ≤ h

theorem allLow_append {h : Nat} {es fs : List Expr} (he : AllLow h es) (hf : AllLow h fs) :
    AllLow h (es ++ fs) := by
  intro e hm
  rcases List.mem_append.1 hm with hm | hm
  · exact he e hm
  · exact hf e hm

theorem allLow_cons {h : Nat} {e : Expr} {es : List Expr} (he : e.height ≤ h)
    (hes : AllLow h es) : AllLow h (e :: es) := by
  intro x hm
  rcases List.mem_cons.1 hm with rfl | hm
  · exact he
  · exact hes x hm

theorem allLow_nil {h : Nat} : AllLow h [] := fun _ hm => nomatch hm

/-- The reader returns blocks in which no expression is above `h`. -/
def LowBlock (h : Nat) (r : Reader (List Stmt)) : Prop :=
  ∀ ls ss rest, r ls = .ok (ss, rest) → AllLow h (blockExprs ss)

/-- The reader returns statements in which no expression is above `h`. -/
def LowStmt (h : Nat) (r : Reader Stmt) : Prop :=
  ∀ ls s rest, r ls = .ok (s, rest) → AllLow h s.exprs

section Statements

variable {h n : Nat} {inFunction : Bool}

theorem lowStmt_readReturn (he : Expr.Low (Expr.read n) h) :
    LowStmt h (readReturn n inFunction) := by
  intro ls s rest hs
  obtain ⟨-, o, ls', -, ⟨-, -, rfl⟩ | ⟨-, e, hr, rfl⟩⟩ := readReturn_eq_ok_iff.1 hs
  · exact allLow_nil
  · exact allLow_cons (he _ _ _ hr) allLow_nil

theorem lowStmt_readLoad : LowStmt h (readLoad inFunction) := by
  intro ls s rest hs
  obtain ⟨-, _, _, _, _, _, _, _, -, -, -, -, -, -, rfl⟩ := readLoad_eq_ok_iff.1 hs
  exact allLow_nil

theorem lowStmt_readAssignment (he : Expr.Low (Expr.read n) h) :
    LowStmt h (readAssignment n) := by
  intro ls s rest hs
  rcases readAssignment_eq_ok_iff.1 hs with ⟨e, hr, -, rfl⟩ | ⟨_, _, _, _, e, -, -, hr, rfl⟩
  · exact allLow_cons (he _ _ _ hr) allLow_nil
  · exact allLow_cons (he _ _ _ hr) allLow_nil

theorem lowStmt_readLine (he : Expr.Low (Expr.read n) h) :
    LowStmt h (readLine n inFunction) := by
  intro ls s rest hs
  obtain ⟨l, hs, -⟩ := readLine_eq_ok_iff.1 hs
  rcases readSimple_eq_ok_iff.1 hs with ⟨_, -, -, rfl⟩ | ⟨-, hs⟩ | ⟨-, hs⟩ | ⟨-, -, -, hs⟩
  · exact allLow_nil
  · exact lowStmt_readReturn he _ _ _ hs
  · exact lowStmt_readLoad _ _ _ hs
  · exact lowStmt_readAssignment he _ _ _ hs

variable {block : Reader (List Stmt)}

theorem allLow_readArm (he : Expr.Low (Expr.read n) h) (hb : LowBlock h block)
    {ls rest : List Lexeme} {cond : Expr} {body : List Stmt}
    (ha : readArm n block ls = .ok ((cond, body), rest)) :
    cond.height ≤ h ∧ AllLow h (blockExprs body) := by
  obtain ⟨c, ls', hc, -, hbody⟩ := readArm_eq_ok_iff.1 ha
  exact ⟨he _ _ _ hc, hb _ _ _ hbody⟩

theorem lowStmt_readDefine (hb : LowBlock h block) : LowStmt h (readDefine block) := by
  intro ls s rest hs
  obtain ⟨_, _, _, _, _, _, _, _, _, body, -, -, -, -, -, -, hbody, rfl⟩ :=
    readDefine_eq_ok_iff.1 hs
  exact hb _ _ _ hbody

theorem lowStmt_readIf (he : Expr.Low (Expr.read n) h) (hb : LowBlock h block) :
    ∀ bound, LowStmt h (readIf n block bound) := by
  intro bound
  induction bound with
  | nil => intro ls s rest hs; exact absurd hs refuse_ne_ok
  | cons b bound ih =>
    intro ls s rest hs
    obtain ⟨cond, thenPart, ls', ha, hs⟩ := readIf_cons_eq_ok_iff.1 hs
    obtain ⟨hcond, hthen⟩ := allLow_readArm he hb ha
    rcases hs with ⟨-, s', hs', rfl⟩ | ⟨_, _, _, elsePart, -, -, -, hbody, rfl⟩ | ⟨-, -, -, rfl⟩
    · refine allLow_cons hcond (allLow_append hthen ?_)
      exact allLow_append (ih _ _ _ hs') allLow_nil
    · exact allLow_cons hcond (allLow_append hthen (hb _ _ _ hbody))
    · exact allLow_cons hcond (allLow_append hthen allLow_nil)

theorem lowStmt_readWhile (he : Expr.Low (Expr.read n) h) (hb : LowBlock h block) :
    LowStmt h (readWhile n block) := by
  intro ls s rest hs
  obtain ⟨cond, body, ha, rfl⟩ := readWhile_eq_ok_iff.1 hs
  obtain ⟨hcond, hbody⟩ := allLow_readArm he hb ha
  exact allLow_cons hcond hbody

theorem lowStmt_readStmtWith {block : Bool → Reader (List Stmt)}
    (he : Expr.Low (Expr.read n) h) (hb : ∀ f, LowBlock h (block f)) :
    LowStmt h (readStmtWith n block inFunction) := by
  intro ls s rest hs
  rcases readStmtWith_eq_ok_iff.1 hs with ⟨-, hs⟩ | ⟨-, hs⟩ | ⟨-, hs⟩ | ⟨-, -, -, hs⟩
  · exact lowStmt_readDefine (hb true) _ _ _ hs
  · exact lowStmt_readIf he (hb inFunction) _ _ _ _ hs
  · exact lowStmt_readWhile he (hb inFunction) _ _ _ hs
  · exact lowStmt_readLine he _ _ _ hs

theorem lowBlock_readIndented {stmt : Reader Stmt} (hs : LowStmt h stmt) :
    ∀ bound, LowBlock h (readIndented stmt bound) := by
  intro bound
  induction bound with
  | nil => intro ls ss rest hr; cases hr; exact allLow_nil
  | cons b bound ih =>
    intro ls ss rest hr
    rcases readIndented_cons_eq_ok_iff.1 hr with
      ⟨_, -, -, rfl⟩ | ⟨-, rfl, -⟩ | ⟨-, -, s, ls', ss', hs', hr', rfl⟩
    · exact allLow_nil
    · exact allLow_nil
    · exact allLow_append (hs _ _ _ hs') (ih _ _ _ hr')

end Statements

theorem low_read_of_le {n m : Nat} (hle : n ≤ m) : Expr.Low (Expr.read n) (tallest m) :=
  (Expr.lows n).expr.mono (tallest_le hle)

theorem lowBlock_readBlock {m : Nat} : ∀ {n : Nat} {inFunction : Bool}, n ≤ m →
    LowBlock (tallest m) (readBlock n inFunction) := by
  intro n
  induction n with
  | zero => intro f _ ls ss rest hr; obtain ⟨_, h, -⟩ := readBlock_eq_ok_iff.1 hr; cases h
  | succ n ih =>
    intro f hle ls ss rest hr
    obtain ⟨k, hk, hr⟩ := readBlock_eq_ok_iff.1 hr
    cases hk
    have he : Expr.Low (Expr.read n) (tallest m) := low_read_of_le (by omega)
    rcases hr with ⟨_, _, _, -, -, -, hr⟩ | ⟨-, s, hs, rfl⟩
    · exact lowBlock_readIndented (lowStmt_readStmtWith he fun _ => ih (by omega)) _ _ _ _ hr
    · exact allLow_append (lowStmt_readLine he _ _ _ hs) allLow_nil

theorem lowStmt_read (n : Nat) (inFunction : Bool) :
    LowStmt (tallest n) (Stmt.read n inFunction) :=
  lowStmt_readStmtWith (low_read_of_le (Nat.le_refl n)) fun _ =>
    lowBlock_readBlock (Nat.le_refl n)

theorem allLow_readStmts : ∀ {bound ls : List Lexeme} {p : List Stmt},
    readStmts bound ls = .ok p → AllLow (tallest maxNesting) (blockExprs p) := by
  intro bound
  induction bound with
  | nil => intro ls p hr; cases hr; exact allLow_nil
  | cons b bound ih =>
    intro ls p hr
    rcases readStmts_cons_eq_ok_iff.1 hr with ⟨-, rfl⟩ | ⟨-, s, ls', ss', hs, hr', rfl⟩
    · exact allLow_nil
    · exact allLow_append (lowStmt_read _ _ _ _ _ hs) (ih hr')

theorem ok_of_parseExpr {file text : String} {e : Expr} (h : parseExpr file text = .ok e) :
    Expr.parse text = .ok e :=
  parseExpr_eq_ok_iff.1 h

theorem ok_of_parseProgram {file text : String} {p : Program}
    (h : parseProgram file text = .ok p) : Program.parse text = .ok p :=
  parseProgram_eq_ok_iff.1 h

theorem height_le_of_parseExpr {file text : String} {e : Expr}
    (h : parseExpr file text = .ok e) : e.height ≤ tallest maxNesting := by
  obtain ⟨ls, -, h⟩ := bind_eq_ok_iff.1 (ok_of_parseExpr h)
  obtain ⟨⟨e', rest⟩, hr, h⟩ := bind_eq_ok_iff.1 h
  obtain ⟨_, -, he⟩ := bind_eq_ok_iff.1 h
  cases he
  exact Expr.height_le_of_read hr

theorem height_le_of_parseProgram {file text : String} {p : Program}
    (h : parseProgram file text = .ok p) {e : Expr} (he : e ∈ p.exprs) :
    e.height ≤ tallest maxNesting := by
  obtain ⟨ls, -, hr⟩ := bind_eq_ok_iff.1 (ok_of_parseProgram h)
  exact allLow_readStmts hr e he

/-- The bounds that hold of all expressions in accepted texts are those from 99700 on. The levels
that a text may use are far fewer: a chain gives its levels back when it is complete. -/
theorem heights_bounded_iff (bound : Nat) :
    (∀ file text : String,
      (∀ e, parseExpr file text = .ok e → e.height ≤ bound) ∧
      (∀ p, parseProgram file text = .ok p → ∀ e ∈ p.exprs, e.height ≤ bound)) ↔
    99700 ≤ bound := by
  have hlimit : tallest maxNesting = 99700 := tallest_maxNesting
  constructor
  · intro h
    obtain ⟨e, he, hheight⟩ := exists_parse_of_yields (brick_tower 199) (Expr.yields_tower 199)
    have hparse : parseExpr "tower" (spacedText (tower 199)) = .ok e := by
      rw [parseExpr, he]
      rfl
    have hle := (h "tower" (spacedText (tower 199))).1 e hparse
    rw [hheight] at hle
    exact hlimit ▸ hle
  · intro h file text
    rw [← hlimit] at h
    refine ⟨fun e he => ?_, fun p hp e he => ?_⟩
    · exact Nat.le_trans (height_le_of_parseExpr he) h
    · exact Nat.le_trans (height_le_of_parseProgram hp he) h

/-- One storey of chains of forty operators is accepted and is higher than the levels of nesting. -/
theorem storey_above_maxNesting :
    ∃ e, parseExpr "t" (spacedText (storey 40 [oneToken])) = .ok e ∧ maxNesting < e.height := by
  have hy : Expr.Yields (Expr.read maxNesting) (storey 40 [oneToken]) (Expr.Stops .or) 201 := by
    intro ls rest hls hstop
    obtain ⟨e, he, hheight⟩ := Expr.yields_readOr (n := 199) (by decide) Expr.unprefixed_one
      Expr.yields_readPrimary_one ls rest hls hstop
    exact ⟨e, Expr.read_eq_ok_iff.2 ⟨199, rfl, he⟩, hheight⟩
  obtain ⟨e, he, hheight⟩ :=
    exists_parse_of_yields (brick_storey fun t ht => .inl (List.mem_singleton.1 ht)) hy
  refine ⟨e, ?_, ?_⟩
  · rw [parseExpr, he]
    rfl
  · rw [hheight]
    decide

end ScriptShell
