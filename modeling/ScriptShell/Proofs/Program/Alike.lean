import ScriptShell.Proofs.Expr.Alike
import ScriptShell.Proofs.Program.Frame

/-!
# ScriptShell.Proofs.Program.Alike

Off lists that look alike the same statements are read, or the same is refused. Lists are related
with the number of blocks that are open, since a reader of statements may take an indent anywhere,
but an outdent only within a block. What becomes of a block that the input ends in is a parameter.

* `readIndentedOr`, `readBlockOr`, `Stmt.readOr`, `readStmtsOr`: the readers, with something else
  done where the input ends within a block. `readStmtsOr_plain`: with nothing else done.
* `LooksAlikeBlocks`: lists look alike, blocks included.
* `tracks_readSimple`: statements that hold no other.
* `tracks_readBlock`, `tracks_readStmts`: blocks and lists of statements.
-/

namespace ScriptShell

/-! ## Blocks that the input ends in -/

/-- Read the statements of an indented block and the outdent behind it. Where the input ends before
it, and where the bound is used up, `atEnd` goes on. -/
def readIndentedOr (atEnd : Reader (List Stmt)) (stmt : Reader Stmt) :
    List Lexeme → Reader (List Stmt)
  | [], ls => atEnd ls
  | _ :: bound, ls =>
    match peek ls with
    | .outdent => .ok ([], ls.tail)
    | .endOfInput => atEnd ls
    | _ => do
      let (s, ls) ← stmt ls
      let (ss, ls) ← readIndentedOr atEnd stmt bound ls
      .ok (s :: ss, ls)

/-- Read the block of a compound statement. -/
def readBlockOr (atEnd : Reader (List Stmt)) : Nat → Bool → Reader (List Stmt)
  | 0, _, ls => refuse ls .blockTooDeep
  | n + 1, inFunction, ls =>
    if peek ls = .newline then
      if peek ls.tail = .indent then
        readIndentedOr atEnd (readStmtWith n (readBlockOr atEnd n) inFunction) ls ls.tail.tail
      else refuse ls.tail (.wantBlock (peek ls.tail))
    else do
      let (s, ls) ← readLine n inFunction ls
      .ok ([s], ls)

/-- Read a statement. -/
def Stmt.readOr (atEnd : Reader (List Stmt)) (n : Nat) (inFunction : Bool) : Reader Stmt :=
  readStmtWith n (readBlockOr atEnd n) inFunction

/-- Read statements up to the end of input. -/
def readStmtsOr (atEnd : Reader (List Stmt)) :
    List Lexeme → List Lexeme → Except SyntaxError (List Stmt)
  | [], _ => .ok []
  | _ :: bound, ls =>
    let ls := skipNewlines ls
    if peek ls = .endOfInput then .ok []
    else do
      let (s, ls) ← Stmt.readOr atEnd maxNesting false ls
      let ss ← readStmtsOr atEnd bound ls
      .ok (s :: ss)

/-- The block is over where the input is. -/
def endBlock : Reader (List Stmt) := fun ls => .ok ([], ls)

theorem readIndentedOr_plain (stmt : Reader Stmt) :
    readIndentedOr endBlock stmt = readIndented stmt := by
  funext bound
  induction bound with
  | nil => rfl
  | cons b bound ih =>
    funext ls
    rw [readIndentedOr, readIndented, ih]
    rfl

theorem readBlockOr_plain (n : Nat) : readBlockOr endBlock n = readBlock n := by
  induction n with
  | zero => rfl
  | succ n ih =>
    funext inFunction ls
    rw [readBlockOr, readBlock, ih, readIndentedOr_plain]

theorem Stmt.readOr_plain (n : Nat) (inFunction : Bool) :
    Stmt.readOr endBlock n inFunction = Stmt.read n inFunction := by
  rw [Stmt.readOr, Stmt.read, readBlockOr_plain]

theorem readStmtsOr_plain : readStmtsOr endBlock = readStmts := by
  funext bound
  induction bound with
  | nil => rfl
  | cons b bound ih =>
    funext ls
    rw [readStmtsOr, readStmts, Stmt.readOr_plain, ih]

variable {π : Pos → Pos} {n : Nat} {inFunction : Bool}

/-! ## Statements that hold no other -/

section Simple

variable {L : List Lexeme → List Lexeme → Prop} {ls ls' : List Lexeme}

theorem tracks_readName (hL : LooksAlike π L) : Tracks π L id readName readName := by
  intro ls ls' h
  rw [readName, readName, hL.peek_eq h]
  split
  · rename_i hp
    exact .ok (hL.tail_of h hp rfl)
  · exact hL.refuse h _

theorem shrinks_readName : Shrinks readName := by
  intro ls id rest h
  obtain ⟨l, rfl, -⟩ := readName_eq_ok_iff.1 h
  simp

theorem tracks_readImports (hL : LooksAlike π L) (p : Pos) :
    ∀ {bound bound' ls ls' : List Lexeme}, L ls ls' → ls.length ≤ bound.length →
      ls.length ≤ bound'.length →
      Tracked π L id (readImports p bound ls) (readImports (π p) bound' ls') := by
  intro bound
  induction bound with
  | nil =>
    intro bound' ls ls' h hbound
    exact absurd hbound (hL.not_length_le_nil h)
  | cons b bound ih =>
    intro bound' ls ls' h hbound hbound'
    cases bound' with
    | nil => exact absurd hbound' (hL.not_length_le_nil h)
    | cons b' bound' =>
      have hshort : ∀ (j : Nat), (ls.drop (j + 1)).length ≤ bound.length ∧
          (ls.drop (j + 1)).length ≤ bound'.length := by
        intro j
        simp only [List.length_cons, List.length_drop] at *
        omega
      rw [readImports, readImports, hL.peek_eq h]
      split
      · rename_i hp
        have h₁ := hL.tail_of h hp rfl
        rw [hL.peek_eq h₁]
        split
        · exact .ok h₁
        · rename_i s hs
          have h₂ := hL.tail_of h₁ hs rfl
          exact (ih h₂ (by simpa using (hshort 1).1) (by simpa using (hshort 1).2)).bind
            fun is rest rest' _ hrest => .ok hrest
        · rename_i id hid
          have h₂ := hL.tail_of h₁ hid rfl
          refine hL.expect rfl h₂ fun h₃ => ?_
          rw [hL.peek_eq h₃]
          split
          · rename_i s hs
            have h₄ := hL.tail_of h₃ hs rfl
            exact (ih h₄ (by simpa using (hshort 3).1) (by simpa using (hshort 3).2)).bind
              fun is rest rest' _ hrest => .ok hrest
          · exact .error
        · exact hL.refuse h₁ _
      · exact .ok h

theorem tracks_readLoad (hL : LooksAlike π L) (h : L ls ls') (hp : (peek ls).isBorder = false) :
    Tracked π L (Stmt.mapPos π) (readLoad inFunction ls) (readLoad inFunction ls') := by
  rw [readLoad, readLoad, hL.here_eq h]
  dsimp only
  split
  · exact .error
  · refine hL.expect rfl (hL.tail h hp) fun hrest => ?_
    rw [hL.peek_eq hrest]
    split
    · rename_i module hm
      have hmore := hL.tail_of hrest hm rfl
      have hlength := hL.length_le hrest
      refine (tracks_readImports hL (here ls) hmore ?_ ?_).bind fun is rest rest' _ hrest => ?_
      · simp
      · simp only [List.length_tail] at *
        omega
      refine hL.expect rfl hrest fun hrest => ?_
      dsimp only [id]
      split
      · exact .error
      · exact .ok hrest
    · exact .error

theorem tracks_readReturn (hL : LooksAlike π L) (h : L ls ls') (hp : (peek ls).isBorder = false) :
    Tracked π L (Stmt.mapPos π) (readReturn n inFunction ls) (readReturn n inFunction ls') := by
  have htail := hL.tail h hp
  rw [readReturn, readReturn, hL.here_eq h]
  dsimp only
  rw [hL.peek_eq htail]
  split
  · split
    · exact .ok htail
    · exact (Expr.tracks_read hL n htail).bind fun e rest rest' _ hrest => .ok hrest
  · exact .error

theorem tracks_readAssignment (hL : LooksAlike π L) :
    Tracks π L (Stmt.mapPos π) (readAssignment n) (readAssignment n) := by
  intro ls ls' h
  rw [readAssignment, readAssignment, hL.here_eq h]
  refine (Expr.tracks_read hL n h).bind fun e rest rest' _ hrest => ?_
  dsimp only
  rw [hL.peek_eq hrest]
  split
  · rename_i hp
    cases e with
    | name id p =>
      exact (Expr.tracks_read hL n (hL.tail_of hrest hp rfl)).bind
        fun e rest rest' _ hrest => .ok hrest
    | _ => exact .error
  · exact .ok hrest

theorem tracks_readSimple (hL : LooksAlike π L) :
    Tracks π L (Stmt.mapPos π) (readSimple n inFunction) (readSimple n inFunction) := by
  intro ls ls' h
  rw [readSimple, readSimple, hL.peek_eq h]
  split
  · rename_i hp
    exact .ok (hL.tail_of h hp rfl)
  · rename_i hp
    exact tracks_readReturn hL h (by rw [hp]; rfl)
  · rename_i hp
    exact tracks_readLoad hL h (by rw [hp]; rfl)
  · exact tracks_readAssignment hL h

theorem tracks_readLine (hL : LooksAlike π L) :
    Tracks π L (Stmt.mapPos π) (readLine n inFunction) (readLine n inFunction) := by
  intro ls ls' h
  rw [readLine, readLine]
  refine (tracks_readSimple hL h).bind fun s rest rest' _ hrest => ?_
  exact hL.expect rfl hrest fun hrest => .ok hrest

end Simple

/-! ## Statements that hold others -/

section Blocks

variable {L : List Lexeme → List Lexeme → Prop} {block block' : Reader (List Stmt)}
  {ls ls' : List Lexeme}

theorem tracks_readDefine (hL : LooksAlike π L)
    (hb : Tracks π L (List.map (Stmt.mapPos π)) block block') (h : L ls ls')
    (hp : (peek ls).isBorder = false) :
    Tracked π L (Stmt.mapPos π) (readDefine block ls) (readDefine block' ls') := by
  rw [readDefine, readDefine, hL.here_eq h]
  dsimp only
  refine (tracks_readName hL (hL.tail h hp)).bind fun name rest rest' _ hrest => ?_
  refine hL.expect rfl hrest fun hrest => ?_
  refine (hL.readItems (tracks_readName hL) shrinks_readName hrest (Nat.le_refl _)
    (hL.length_le hrest)).bind fun params rest rest' _ hrest => ?_
  refine hL.expect rfl hrest fun hrest => ?_
  refine hL.expect rfl hrest fun hrest => ?_
  refine (hb hrest).bind fun body rest rest' _ hrest => ?_
  simp only [List.map_id, id]
  rw [← Stmt.mapPos_define]
  exact .ok hrest

/-- A condition and a block, with places renamed. -/
def mapArm (π : Pos → Pos) (arm : Expr × List Stmt) : Expr × List Stmt :=
  (arm.1.mapPos π, arm.2.map (Stmt.mapPos π))

theorem tracks_readArm (hL : LooksAlike π L)
    (hb : Tracks π L (List.map (Stmt.mapPos π)) block block') :
    Tracks π L (mapArm π) (readArm n block) (readArm n block') := by
  intro ls ls' h
  rw [readArm, readArm]
  refine (Expr.tracks_read hL n h).bind fun cond rest rest' _ hrest => ?_
  refine hL.expect rfl hrest fun hrest => ?_
  refine (hb hrest).bind fun body rest rest' _ hrest => ?_
  exact .ok (f := mapArm π) (a := (cond, body)) hrest

theorem tracks_readIf (hL : LooksAlike π L)
    (hb : Tracks π L (List.map (Stmt.mapPos π)) block block')
    (hshrinks : Shrinks (readArm n block)) :
    ∀ {bound bound' ls ls' : List Lexeme}, L ls ls' → (peek ls).isBorder = false →
      ls.length ≤ bound.length → ls.length ≤ bound'.length →
      Tracked π L (Stmt.mapPos π) (readIf n block bound ls) (readIf n block' bound' ls') := by
  intro bound
  induction bound with
  | nil =>
    intro bound' ls ls' h _ hbound
    exact absurd hbound (hL.not_length_le_nil h)
  | cons b bound ih =>
    intro bound' ls ls' h hp hbound hbound'
    cases bound' with
    | nil => exact absurd hbound' (hL.not_length_le_nil h)
    | cons b' bound' =>
      rw [readIf, readIf, hL.here_eq h]
      dsimp only
      refine (tracks_readArm hL hb (hL.tail h hp)).bind fun arm rest rest' harm hrest => ?_
      have hlt := hshrinks harm
      rw [List.length_tail] at hlt
      simp only [List.length_cons] at hbound hbound'
      obtain ⟨cond, thenPart⟩ := arm
      dsimp only [mapArm]
      rw [hL.peek_eq hrest]
      split
      · rename_i hp
        refine (ih hrest (by rw [hp]; rfl) (by omega)
          (by omega)).bind fun s rest rest' _ hrest => ?_
        have hone : [s.mapPos π] = [s].map (Stmt.mapPos π) := rfl
        rw [hone, ← Stmt.mapPos_if]
        exact .ok hrest
      · rename_i hp
        refine hL.expect rfl (hL.tail_of hrest hp rfl) fun hrest => ?_
        refine (hb hrest).bind fun elsePart rest rest' _ hrest => ?_
        dsimp only
        rw [← Stmt.mapPos_if]
        exact .ok hrest
      · have hnone : ([] : List Stmt) = [].map (Stmt.mapPos π) := rfl
        rw [hnone, ← Stmt.mapPos_if]
        exact .ok hrest

theorem tracks_readWhile (hL : LooksAlike π L)
    (hb : Tracks π L (List.map (Stmt.mapPos π)) block block') (h : L ls ls')
    (hp : (peek ls).isBorder = false) :
    Tracked π L (Stmt.mapPos π) (readWhile n block ls) (readWhile n block' ls') := by
  rw [readWhile, readWhile, hL.here_eq h]
  dsimp only
  refine (tracks_readArm hL hb (hL.tail h hp)).bind fun arm rest rest' _ hrest => ?_
  dsimp only [mapArm]
  rw [← Stmt.mapPos_while]
  exact .ok hrest

theorem tracks_readStmtWith (hL : LooksAlike π L) {block block' : Bool → Reader (List Stmt)}
    (hb : ∀ inFunction,
      Tracks π L (List.map (Stmt.mapPos π)) (block inFunction) (block' inFunction))
    (hshrinks : Shrinks (readArm n (block inFunction))) :
    Tracks π L (Stmt.mapPos π) (readStmtWith n block inFunction)
      (readStmtWith n block' inFunction) := by
  intro ls ls' h
  rw [readStmtWith, readStmtWith, hL.peek_eq h]
  split
  · rename_i hp
    exact tracks_readDefine hL (hb true) h (by rw [hp]; rfl)
  · rename_i hp
    exact tracks_readIf hL (hb inFunction) hshrinks h (by rw [hp]; rfl)
      (Nat.le_refl _) (hL.length_le h)
  · rename_i hp
    exact tracks_readWhile hL (hb inFunction) h (by rw [hp]; rfl)
  · exact tracks_readLine hL h

end Blocks

/-! ## Blocks -/

/-- Lists that are related by `L k` look alike, `k` blocks being open. An indent opens one and an
outdent closes it; where the input ends within a block, both readers come to the same. -/
structure LooksAlikeBlocks (π : Pos → Pos) (L : Nat → List Lexeme → List Lexeme → Prop)
    (atEnd : Reader (List Stmt)) : Prop where
  alike : ∀ k, LooksAlike π (L k)
  enter : ∀ {k ls ls'}, L k ls ls' → peek ls = .indent → L (k + 1) ls.tail ls'.tail
  leave : ∀ {k ls ls'}, L (k + 1) ls ls' → peek ls = .outdent → L k ls.tail ls'.tail
  ended : ∀ {k ls ls'}, L (k + 1) ls ls' → peek ls = .endOfInput →
    Tracked π (L k) (List.map (Stmt.mapPos π)) (endBlock ls) (atEnd ls')

section

variable {L : Nat → List Lexeme → List Lexeme → Prop} {atEnd : Reader (List Stmt)}

theorem shrinks_readArm : Shrinks (readArm n (readBlock n inFunction)) := by
  intro ls arm rest h
  exact ((spans_readArm (π := id) (spans_readBlock n inFunction)).carries (SameText.refl ls) h).1

theorem shrinks_read : Shrinks (Stmt.read n inFunction) := by
  intro ls s rest h
  exact (carries_read (π := id) (SameText.refl ls) h).1

/-- The statements of a block, up to the outdent that closes it. -/
theorem tracks_readIndented (hL : LooksAlikeBlocks π L atEnd) {stmt stmt' : Reader Stmt}
    (hs : ∀ k, Tracks π (L k) (Stmt.mapPos π) stmt stmt') (hshrinks : Shrinks stmt) {k : Nat} :
    ∀ {bound bound' ls ls' : List Lexeme}, L (k + 1) ls ls' → ls.length ≤ bound.length →
      ls.length ≤ bound'.length →
      Tracked π (L k) (List.map (Stmt.mapPos π)) (readIndented stmt bound ls)
        (readIndentedOr atEnd stmt' bound' ls') := by
  have halike := hL.alike (k + 1)
  intro bound
  induction bound with
  | nil =>
    intro bound' ls ls' h hbound
    exact absurd hbound (halike.not_length_le_nil h)
  | cons b bound ih =>
    intro bound' ls ls' h hbound hbound'
    cases bound' with
    | nil => exact absurd hbound' (halike.not_length_le_nil h)
    | cons b' bound' =>
      rw [readIndented, readIndentedOr, halike.peek_eq h]
      by_cases hout : peek ls = .outdent
      · simp only [hout]
        exact .ok (hL.leave h hout)
      by_cases hend : peek ls = .endOfInput
      · simp only [hend]
        exact hL.ended h hend
      · simp only
        refine (hs (k + 1) h).bind fun s rest rest' hstmt hrest => ?_
        have hlt := hshrinks hstmt
        simp only [List.length_cons] at hbound hbound'
        exact (ih hrest (by omega) (by omega)).bind
          fun ss rest rest' _ hrest => .ok hrest

theorem tracks_readBlock (hL : LooksAlikeBlocks π L atEnd) (n : Nat) : ∀ inFunction k,
    Tracks π (L k) (List.map (Stmt.mapPos π)) (readBlock n inFunction)
      (readBlockOr atEnd n inFunction) := by
  induction n with
  | zero =>
    intro inFunction k ls ls' h
    rw [readBlock, readBlockOr]
    exact (hL.alike k).refuse h _
  | succ n ih =>
    intro inFunction k ls ls' h
    have halike := hL.alike k
    have hlength := halike.length_le h
    rw [readBlock, readBlockOr, halike.peek_eq h]
    split
    · rename_i hp
      have h₁ := halike.tail_of h hp rfl
      rw [halike.peek_eq h₁]
      split
      · rename_i hp₁
        have hstmt : ∀ k, Tracks π (L k) (Stmt.mapPos π) (Stmt.read n inFunction)
            (Stmt.readOr atEnd n inFunction) := fun k =>
          tracks_readStmtWith (hL.alike k) (fun inFunction => ih inFunction k) shrinks_readArm
        refine tracks_readIndented hL hstmt shrinks_read (hL.enter h₁ hp₁) ?_ ?_
        · simp only [List.length_tail]
          omega
        · simp only [List.length_tail]
          omega
      · exact halike.refuse h₁ _
    · refine (tracks_readLine halike h).bind fun s rest rest' _ hrest => ?_
      exact .ok (f := List.map (Stmt.mapPos π)) (a := [s]) hrest

/-- A statement is read, or refused, the same off lists that look alike. -/
theorem tracks_read (hL : LooksAlikeBlocks π L atEnd) (k : Nat) :
    Tracks π (L k) (Stmt.mapPos π) (Stmt.read n inFunction) (Stmt.readOr atEnd n inFunction) :=
  tracks_readStmtWith (hL.alike k) (fun inFunction => tracks_readBlock hL n inFunction k)
    shrinks_readArm

/-! ## Programs -/

/-- A list of statements is read, or refused, the same off lists that look alike. -/
theorem tracks_readStmts (hL : LooksAlikeBlocks π L atEnd) :
    ∀ {bound bound' ls ls' : List Lexeme}, L 0 ls ls' → ls.length ≤ bound.length →
      ls.length ≤ bound'.length →
      readStmtsOr atEnd bound' ls' = movedBy π (List.map (Stmt.mapPos π)) (readStmts bound ls) := by
  have halike := hL.alike 0
  intro bound
  induction bound with
  | nil =>
    intro bound' ls ls' h hbound
    exact absurd hbound (halike.not_length_le_nil h)
  | cons b bound ih =>
    intro bound' ls ls' h hbound hbound'
    cases bound' with
    | nil => exact absurd hbound' (halike.not_length_le_nil h)
    | cons b' bound' =>
      have hskip := halike.skipNewlines h
      have hle := length_skipNewlines_le ls
      simp only [List.length_cons] at hbound hbound'
      rw [readStmts, readStmtsOr]
      dsimp only
      rw [halike.peek_eq hskip]
      split
      · rfl
      · have htracked : Tracked π (L 0) (Stmt.mapPos π)
            (Stmt.read maxNesting false (skipNewlines ls))
            (Stmt.readOr atEnd maxNesting false (skipNewlines ls')) := tracks_read hL 0 hskip
        have hlt : ∀ ⦃s rest⦄, Stmt.read maxNesting false (skipNewlines ls) = .ok (s, rest) →
            rest.length < (skipNewlines ls).length := fun _ _ h => shrinks_read h
        generalize Stmt.read maxNesting false (skipNewlines ls) = x at htracked hlt ⊢
        generalize Stmt.readOr atEnd maxNesting false (skipNewlines ls') = x' at htracked ⊢
        cases htracked with
        | error => rfl
        | @ok s rest rest' hrest =>
          have hlt := hlt rfl
          show (readStmtsOr atEnd bound' rest' >>= _) =
            movedBy π (List.map (Stmt.mapPos π)) (readStmts bound rest >>= _)
          rw [ih hrest (by omega) (by omega)]
          cases readStmts bound rest <;> rfl

end

end ScriptShell
