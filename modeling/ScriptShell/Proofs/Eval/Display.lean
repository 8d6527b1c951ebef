import ScriptShell.Eval
import ScriptShell.Proofs.Eval.Allowance
import ScriptShell.Proofs.Eval.Lockstep
import ScriptShell.Proofs.Expr.Print
import ScriptShell.Proofs.Loader.Sound

/-!
# ScriptShell.Proofs.Eval.Display

Which values come back when their display form is typed. The display form escapes more characters
than the scanner knows escapes for, and a literal is an integer without a sign; everything else is
read back as the value that was shown.

* `Text.Foreign`: the characters that are shown by an escape foreign to literals.
* `Literal`: the expressions that are the display form of a value.
* `Expr.parse_spelled`: an expression that is printed is read back.
* `Scanner.scan_quoted`: a text with a foreign character in it is refused at its opening quote.
* `parseExpr_repr`: what becomes of a display form.
-/

namespace ScriptShell

/-- The character is foreign to literals: they have no escape like the one it is shown by. -/
def Text.Foreign (c : Char) : Prop :=
  c = '\r' ∨ c = '\x00' ∨ Text.escape c = Text.codePointEscape c

instance : DecidablePred Text.Foreign :=
  fun _ => inferInstanceAs (Decidable (_ ∨ _ ∨ _))

/-- Is the value none, a truth value, an integer or a string? -/
def Value.isData : Value → Bool
  | .none | .bool _ | .int _ | .str _ => true
  | .function _ | .builtin _ => false

theorem Value.repr_int (i : Integer) : (Value.int i).repr = i.text := rfl

theorem Value.repr_str (s : String) : (Value.str s).repr = Text.quoted s := rfl

/-- The expression that the display form of a value is. -/
inductive Literal : Value → Expr → Prop
  | none : Literal .none .none
  | bool (b : Bool) : Literal (.bool b) (.bool b)
  | int {i : Integer} (h : 0 ≤ i.val) : Literal (.int i) (.int i)
  | negative {i j : Integer} (p : Pos) (h : 0 < j.val) (hij : i.val = -j.val) :
      Literal (.int i) (.unary .neg (.int j) p)
  | str (s : String) : Literal (.str s) (.str s)

/-! ## Expressions read back -/

namespace Scanner

variable {c : Char} {cs : List Char} {s : Scanner}

/-- In an expression nothing is made of the indentation of a line. -/
theorem step_expression_lineStart {width : Nat} (hs : s.phase = .lineStart width)
    (hc : isInk c = true) : s.step .expression c = s.readInLine c := by
  simp only [isInk, Bool.and_eq_true, bne_iff_ne] at hc
  obtain ⟨⟨⟨⟨hspace, htab⟩, hline⟩, hreturn⟩, hhash⟩ := hc
  simp [step, hs, readLineStart, hspace, htab, hline, hreturn, hhash]

/-- What a row of tokens ends with is no line end. -/
theorem not_fresh_of_isSpellable {ls : List Lexeme} {p : Pos} {depth : Nat} (hne : ls ≠ [])
    (hls : ∀ t ∈ tokens ls, t.isSpellable = true) :
    ¬Fresh ⟨.inLine, p, depth, [], ls.reverse⟩ := by
  intro hfresh
  have hlast : ls.getLast hne ∈ ls := List.getLast_mem hne
  have hline := hfresh (ls.getLast hne) (by
    rw [List.head?_reverse, List.getLast?_eq_getLast_of_ne_nil hne]
    rfl)
  have hspell := hls _ (List.mem_map_of_mem hlast)
  rw [hline] at hspell
  cases hspell

/-- A row of tokens that closes its parentheses is the tokens of a text. -/
theorem scan_spelled {ts : List Token} (h : Spelled ts cs) (hne : ts ≠ [])
    (hts : ∀ t ∈ ts, t.isSpellable = true) :
    ∃ ls, scan .expression (String.ofList cs) = .ok ls ∧
      tokens ls = ts ++ [.newline, .endOfInput] := by
  obtain ⟨c, ds, rfl, hc⟩ := h.eq_cons hne hts
  obtain ⟨u, ls, p, rfl, hrun, hu⟩ :=
    run_spelled .expression (s := { start with phase := .inLine }) h hts rfl
  have hstart : start.run .expression (c :: ds) = .ok u := by
    rw [← hrun]
    apply run_cons_congr
    rw [step_expression_lineStart rfl hc, step_inLine rfl]
    rfl
  have hls : ls ≠ [] := by
    rintro rfl
    exact hne rfl
  have hfresh : ¬Fresh ⟨.inLine, p, (tokens ls).foldl Token.depthAfter 0, [], ls.reverse⟩ :=
    not_fresh_of_isSpellable hls hts
  have hclosing := closing_of_not_fresh hfresh
  refine ⟨ls ++ [⟨.newline, p⟩, ⟨.endOfInput, p⟩], ?_, by simp⟩
  refine scan_ofList_eq_ok_iff.2 ⟨u, hstart, finish_eq_ok_iff.2 ⟨hu.unbroken, _, hu.settle, ?_⟩⟩
  simp only [start, List.append_nil, hclosing, List.reverse_reverse]
  rfl

end Scanner

/-- A printed expression is read back. -/
theorem Expr.parse_spelled {e : Expr} {wrap : Bool} {cs : List Char} (he : e.isPrintable = true)
    (hheight : 3 * e.height < maxNesting) (h : Spelled (e.tokens wrap) cs) :
    ∃ e', Expr.parse (String.ofList cs) = .ok e' ∧ e.Same Pos.forget e' := by
  obtain ⟨ls, hls, htokens⟩ :=
    Scanner.scan_spelled h (e.tokens_ne_nil wrap) (Expr.isSpellable_tokens he)
  obtain ⟨k, hk, hderives⟩ := e.derives_tokens wrap
  have hcore : coreTokens ls = e.tokens wrap := by
    have hplain : ∀ t ∈ e.tokens wrap, t ≠ .newline := by
      rintro t ht rfl
      cases hderives.isLayout _ ht
    have hstrip : stripNewlines ([] ++ (e.tokens wrap ++ [.newline])) = e.tokens wrap :=
      stripNewlines_append (by simp) hplain (by simp) (e.tokens_ne_nil wrap)
    rw [coreTokens, htokens]
    simpa using hstrip
  have hparse := Expr.parse_of_derives hls (hcore ▸ hderives)
  rwa [if_pos (by omega)] at hparse

/-! ## Characters of a display form -/

namespace Text

/-- Any other character is shown as literals write it. -/
theorem escape_eq_quotedChar {c : Char} (h : ¬Foreign c) : escape c = quotedChar c := by
  obtain ⟨hreturn, hnull, hcode⟩ : c ≠ '\r' ∧ c ≠ '\x00' ∧ escape c ≠ codePointEscape c := by
    simpa [Foreign] using h
  by_cases hquote : c = quoteMark
  · subst hquote
    rfl
  by_cases hslash : c = backslash
  · subst hslash
    rfl
  by_cases htab : c = '\t'
  · subst htab
    rfl
  by_cases hline : c = '\n'
  · subst hline
    rfl
  have hescape : escape c = if isShowable c then [c] else codePointEscape c := by
    simp [escape, hquote, hslash, htab, hreturn, hline, hnull]
  have hquoted : quotedChar c = [c] := by
    simp [quotedChar, hquote, hslash, htab, hline]
  rw [hescape] at hcode ⊢
  rw [hquoted, if_pos]
  by_contra hshow
  exact hcode (if_neg hshow)

/-- The scanner knows no escape by the letter behind the backslash. -/
theorem escape_of_foreign {c : Char} (h : Foreign c) :
    ∃ d ds, escape c = backslash :: d :: ds ∧ escapeValue? d = none := by
  obtain rfl | rfl | h := h
  · exact ⟨'r', [], by decide, by decide⟩
  · exact ⟨'0', [], by decide, by decide⟩
  · exact ⟨'u', _, h, by decide⟩

end Text

namespace Scanner

variable {s : Scanner} {cs ds : List Char}

/-- A display form is not read beyond its first foreign character. -/
theorem run_escape {mode : ScanMode} {p : Pos} {read : List Char}
    (hs : s.phase = .string p Text.quoteMark read) (hcs : ∃ c ∈ cs, Text.Foreign c) :
    s.run mode (cs.flatMap Text.escape ++ ds) = .error ⟨p, .invalidEscape⟩ := by
  induction cs generalizing s read with
  | nil => simp at hcs
  | cons c cs ih =>
    rw [List.flatMap_cons, List.append_assoc]
    by_cases hc : Text.Foreign c
    · obtain ⟨d, es, hescape, hd⟩ := Text.escape_of_foreign hc
      have hslash : s.step mode Text.backslash =
          .ok (s.move Text.backslash (.escape p Text.quoteMark read)) := by
        rw [step, hs]
        rfl
      rw [hescape, List.cons_append, run_cons_of_ok hslash, List.cons_append, run_cons, step]
      simp only [move, hd]
      rfl
    · rw [Text.escape_eq_quotedChar hc, run_append, run_quotedChar hs]
      refine ih rfl ?_
      simpa [hc] using hcs

theorem scan_quoted {text : String} (h : ∃ c ∈ text.toList, Text.Foreign c) :
    scan .expression (Text.quoted text) = .error ⟨.start, .invalidEscape⟩ := by
  have hopen : start.step .expression Text.quoteMark =
      .ok (start.move Text.quoteMark (.string .start Text.quoteMark [])) := rfl
  rw [scan, Text.quoted, String.toList_ofList, List.cons_append, run_cons_of_ok hopen,
    run_escape rfl h]

end Scanner

/-! ## Literals -/

namespace Literal

variable {v v' : Value} {e e' : Expr}

/-- Literals are told apart by more than their places. -/
theorem of_same (h : Literal v e) (hsame : e.Same Pos.forget e') : Literal v e' := by
  cases h with
  | none =>
    cases e' <;> simp [Expr.Same, Expr.mapPos] at hsame
    exact .none
  | bool b =>
    cases e' <;> simp [Expr.Same, Expr.mapPos] at hsame
    exact hsame ▸ .bool b
  | int h =>
    cases e' <;> simp [Expr.Same, Expr.mapPos] at hsame
    exact hsame ▸ .int h
  | negative p h hij =>
    cases e' <;> simp [Expr.Same, Expr.mapPos] at hsame
    obtain ⟨rfl, hoperand, -⟩ := hsame
    rename_i operand q
    cases operand <;> simp [Expr.mapPos] at hoperand
    exact hoperand ▸ .negative q h hij
  | str s =>
    cases e' <;> simp [Expr.Same, Expr.mapPos] at hsame
    exact hsame ▸ .str s

theorem isPrintable (h : Literal v e) : e.isPrintable = true := by
  cases h with
  | int h => simpa [Expr.isPrintable] using h
  | negative p h hij => simpa [Expr.isPrintable] using Int.le_of_lt h
  | none | bool _ | str _ => rfl

theorem height_le (h : Literal v e) : e.height ≤ 1 := by
  cases h <;> simp [Expr.height]

theorem neg_eq {i j : Integer} (hij : i.val = -j.val) :
    UnaryOp.neg.apply (.int j) = .ok (.int i) := by
  have hneg : j.neg = .ok i := Integer.checked_eq_ok_iff.2 hij.symm
  simp [UnaryOp.apply, hneg, ofArithmetic]

/-- A literal is evaluated to its value, which takes no more than two steps. -/
theorem eval_eq (h : Literal v e) (ctx : Context) {fuel : Nat} (hfuel : 2 ≤ fuel)
    (chain : CallChain) (scope : Scope) (w : World) : eval ctx fuel chain scope e w = .ok v w := by
  obtain ⟨fuel, rfl⟩ : ∃ k, fuel = k + 2 := ⟨fuel - 2, by omega⟩
  cases h with
  | @negative i j p h hij =>
    have hneg : orFailAt chain p (UnaryOp.neg.apply (.int j)) w = .ok (.int i) w := by
      rw [neg_eq hij]
      rfl
    simp only [eval]
    exact hneg
  | _ =>
    simp only [eval]
    rfl

theorem text_of_neg {i j : Integer} (h : 0 < j.val) (hij : i.val = -j.val) :
    i.text.toList = '-' :: j.text.toList := by
  obtain ⟨n, hn⟩ := Int.eq_ofNat_of_zero_le (Int.le_of_lt h)
  obtain ⟨k, rfl⟩ : ∃ k, n = k + 1 := ⟨n - 1, by omega⟩
  have hi : i.val = Int.negSucc k := by
    rw [hij, hn]
    rfl
  rw [Integer.text, Integer.text, hi, hn]
  show ("-" ++ toString (k + 1)).toList = _
  rw [String.toList_append]
  rfl

theorem spelled_single {t : Token} {cs : List Char} (h : t.spelling = cs) : Spelled [t] cs := by
  simpa [h] using Spelled.beside (t := t) (by simp) .nil

/-- The display form of a value is its literal, written without spaces. -/
theorem spelled (h : Literal v e) (hplain : ∀ s, v = .str s → ∀ c ∈ s.toList, ¬Text.Foreign c) :
    Spelled (e.tokens false) v.repr.toList := by
  cases h with
  | none => exact spelled_single (t := .keyword .none) rfl
  | bool b =>
    cases b with
    | true => exact spelled_single (t := .keyword .true) rfl
    | false => exact spelled_single (t := .keyword .false) rfl
  | @int i h =>
    rw [Value.repr_int, Expr.tokens]
    exact spelled_single (by rw [Token.spelling])
  | @negative i j p h hij =>
    have hj : Spelled [.int j] j.text.toList := spelled_single (by rw [Token.spelling])
    have hglue : j.text.toList.head?.all (!(Token.mark .minus).glues ·) = true := by
      cases j.text.toList.head? <;> rfl
    rw [Value.repr_int, text_of_neg h hij, Expr.tokens, Expr.tokens]
    exact hj.beside hglue
  | str s =>
    have hescape : s.toList.flatMap Text.escape = s.toList.flatMap quotedChar :=
      List.flatMap_congr fun c hc => Text.escape_eq_quotedChar (hplain s rfl c hc)
    rw [Value.repr_str, Text.quoted, String.toList_ofList, hescape]
    exact spelled_single (t := .str s) rfl

end Literal

/-- Every integer but the least has a literal, or its opposite has. -/
theorem exists_literal {v : Value} (hv : v.isData = true)
    (hleast : ∀ i, v = .int i → i.val ≠ leastInteger) : ∃ e, Literal v e := by
  cases v with
  | none => exact ⟨_, .none⟩
  | bool b => exact ⟨_, .bool b⟩
  | str s => exact ⟨_, .str s⟩
  | int i =>
    by_cases h : 0 ≤ i.val
    · exact ⟨_, .int h⟩
    · have hne := hleast i rfl
      have hlower := i.lower
      have hupper := i.upper
      unfold leastInteger greatestInteger at *
      let j : Integer := ⟨-i.val, by unfold leastInteger; omega, by unfold greatestInteger; omega⟩
      have hj : j.val = -i.val := rfl
      exact ⟨_, .negative (j := j) .start (by omega) (by omega)⟩
  | function f | builtin b => cases hv

/-! ## Display forms read back -/

section

variable {v : Value} {e : Expr}

theorem parseExpr_eq_error {file text : String} {fault : SyntaxError}
    (h : scan .expression text = .error fault) :
    parseExpr file text = .error (fault.inFile file) := by
  simp only [parseExpr, Expr.parse, h]
  rfl

/-- Behind its sign, the least integer is too large a literal. -/
theorem parseExpr_least (file : String) {i : Integer} (hi : i.val = leastInteger) :
    parseExpr file (Value.int i).repr =
      .error (.parse ⟨file, ⟨1, 2⟩⟩ "invalid integer literal - 9223372036854775808") := by
  have hscan : scan .expression (toString leastInteger) =
      .error ⟨⟨1, 2⟩, .invalidInteger "9223372036854775808"⟩ := by decide +kernel
  rw [Value.repr_int, Integer.text, hi, parseExpr_eq_error hscan]
  rfl

theorem parseExpr_foreign (file : String) {s : String} (h : ∃ c ∈ s.toList, Text.Foreign c) :
    parseExpr file (Value.str s).repr =
      .error (.parse ⟨file, ⟨1, 1⟩⟩ "invalid escape sequence") := by
  rw [Value.repr_str, parseExpr_eq_error (Scanner.scan_quoted h)]
  rfl

/-- A literal is read back as itself. -/
theorem Literal.parseExpr_eq (h : Literal v e)
    (hplain : ∀ s, v = .str s → ∀ c ∈ s.toList, ¬Text.Foreign c) (file : String) :
    ∃ e', parseExpr file v.repr = .ok e' ∧ Literal v e' := by
  have hheight := h.height_le
  obtain ⟨e', he', hsame⟩ :=
    Expr.parse_spelled h.isPrintable (by unfold maxNesting; omega) (h.spelled hplain)
  rw [String.ofList_toList] at he'
  exact ⟨e', by rw [parseExpr, he']; rfl, h.of_same hsame⟩

/-- A display form that is accepted at all is a literal of its value. -/
theorem literal_of_parseExpr {file : String} (hv : v.isData = true)
    (h : parseExpr file v.repr = .ok e) : Literal v e := by
  have hleast : ∀ i, v = .int i → i.val ≠ leastInteger := by
    rintro i rfl hi
    rw [parseExpr_least file hi] at h
    cases h
  have hplain : ∀ s, v = .str s → ∀ c ∈ s.toList, ¬Text.Foreign c := by
    rintro s rfl c hc hforeign
    rw [parseExpr_foreign file ⟨c, hc, hforeign⟩] at h
    cases h
  obtain ⟨e₀, he₀⟩ := exists_literal hv hleast
  obtain ⟨e', he', hliteral⟩ := he₀.parseExpr_eq hplain file
  obtain rfl : e' = e := Except.ok.inj (he'.symm.trans h)
  exact hliteral

theorem Literal.evaluate_eq (h : Literal v e) {ctx : Context} {fuel : Nat} (hfuel : 2 ≤ fuel)
    (file : String) (g : Globals Value) {w : World}
    (hrunning : ctx.cancelledAt (w.engine.polls + 1) = false) :
    evaluate ctx fuel file g e w = .ok v (w.polled (w.engine.polls + 1)) := by
  have hpoll : poll ctx w = .ok () (w.polled (w.engine.polls + 1)) := by
    simp [poll, hrunning, Hosted.polled]
  unfold evaluate
  change EStateM.bind _ _ _ = _
  rw [EStateM.bind, hpoll]
  exact h.eval_eq ctx hfuel _ _ _

/-- Whatever else happens, a literal is not taken for another value. -/
theorem Literal.eq_of_evaluate (h : Literal v e) {ctx : Context} {fuel : Nat} {file : String}
    {g : Globals Value} {w w' : World} {v' : Value}
    (he : evaluate ctx fuel file g e w = .ok v' w') : v' = v := by
  have hmono : evaluate ctx (fuel + 2) file g e w = .ok v' w' := by
    rcases evaluate_extends ctx (Nat.le_add_right fuel 2) file g e w with heq | ⟨w₁, hw₁⟩
    · rw [heq, he]
    · rw [he] at hw₁
      cases hw₁
  obtain ⟨⟨⟩, w₁, -, heval⟩ := bind_ok hmono
  rw [h.eval_eq ctx (Nat.le_add_left 2 fuel)] at heval
  cases heval
  rfl

end

/-- What becomes of the display form of a value when it is read as an expression. It is evaluated to
the value again, unless it is the least integer, which is refused behind its sign, or a string with
a foreign character in it, which is refused at the opening quote. It is never evaluated to another
value. -/
theorem parseExpr_repr (file : String) (v : Value) (hv : v.isData = true) :
    ((∀ i, v = .int i → i.val ≠ leastInteger) →
      (∀ s, v = .str s → ∀ c ∈ s.toList, ¬Text.Foreign c) →
      ∃ e, parseExpr file v.repr = .ok e ∧
        ∀ (ctx : Context) (fuel : Nat) (g : Globals Value) (w : World), 2 ≤ fuel →
          ctx.cancelledAt (w.engine.polls + 1) = false →
          evaluate ctx fuel file g e w = .ok v (w.polled (w.engine.polls + 1))) ∧
    (∀ i, v = .int i → i.val = leastInteger → parseExpr file v.repr =
      .error (.parse ⟨file, ⟨1, 2⟩⟩ "invalid integer literal - 9223372036854775808")) ∧
    (∀ s, v = .str s → (parseExpr file v.repr =
        .error (.parse ⟨file, ⟨1, 1⟩⟩ "invalid escape sequence") ↔
      ∃ c ∈ s.toList, Text.Foreign c)) ∧
    ∀ (ctx : Context) (fuel : Nat) (g : Globals Value) (e : Expr) (v' : Value) (w w' : World),
      parseExpr file v.repr = .ok e → evaluate ctx fuel file g e w = .ok v' w' → v' = v := by
  refine ⟨?_, ?_, ?_, ?_⟩
  · intro hleast hplain
    obtain ⟨e, he⟩ := exists_literal hv hleast
    obtain ⟨e', he', hliteral⟩ := he.parseExpr_eq hplain file
    exact ⟨e', he', fun ctx fuel g w hfuel hrunning => hliteral.evaluate_eq hfuel file g hrunning⟩
  · rintro i rfl hi
    exact parseExpr_least file hi
  · rintro s rfl
    refine ⟨fun herror => ?_, parseExpr_foreign file⟩
    by_contra hplain
    push Not at hplain
    obtain ⟨e', he', -⟩ := (Literal.str s).parseExpr_eq (by rintro _ ⟨⟩; exact hplain) file
    rw [he'] at herror
    cases herror
  · intro ctx fuel g e v' w w' he heval
    exact (literal_of_parseExpr hv he).eq_of_evaluate heval

/-- A string with all the escapes of literals, the least integer, and a string with a bell in it. -/
theorem parseExpr_repr_odd :
    (∃ e, parseExpr "t" (Value.str "\"é\"\t\\\n").repr = .ok e ∧
      ∀ (ctx : Context) (fuel : Nat) (g : Globals Value) (w : World), 2 ≤ fuel →
        ctx.cancelledAt (w.engine.polls + 1) = false →
        evaluate ctx fuel "t" g e w = .ok (.str "\"é\"\t\\\n") (w.polled (w.engine.polls + 1))) ∧
    parseExpr "t" (Value.int ⟨leastInteger, by decide, by decide⟩).repr =
      .error (.parse ⟨"t", ⟨1, 2⟩⟩ "invalid integer literal - 9223372036854775808") ∧
    parseExpr "t" (Value.str "a\x07").repr =
      .error (.parse ⟨"t", ⟨1, 1⟩⟩ "invalid escape sequence") := by
  have hbell : ∃ c ∈ "a\x07".toList, Text.Foreign c :=
    ⟨'\x07', by decide, by decide +kernel⟩
  have hplain : ∀ c ∈ ['"', 'é', '"', '\t', '\\', '\n'], ¬Text.Foreign c := by
    simp only [List.forall_mem_cons, List.not_mem_nil, false_implies, implies_true]
    decide +kernel
  refine ⟨(parseExpr_repr "t" (.str "\"é\"\t\\\n") rfl).1 (by simp) ?_,
    (parseExpr_repr "t" (.int ⟨leastInteger, by decide, by decide⟩) rfl).2.1 _ rfl rfl,
    ((parseExpr_repr "t" (.str "a\x07") rfl).2.2.1 _ rfl).2 hbell⟩
  rintro s ⟨⟩
  exact hplain

end ScriptShell
