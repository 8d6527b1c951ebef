/-!
# ScriptShell.Integer

The integers of the language: the range of signed 64-bit words. An operation whose mathematical
result is in the range gives that result, and any other fails with a fault; nothing wraps.

* `Integer`: an integer together with the proof that it is in range.
* `Integer.add`, `sub`, `mul`, `neg`, `floorDiv`, `mod`: arithmetic. Division rounds toward zero
  and is then corrected, in a way that cannot leave the range.
* `Integer.ofDigits?`: the value of a decimal literal.
-/

namespace ScriptShell

/-- Why an operation on integers has no result. -/
inductive ArithmeticFault where
  /-- The result is out of range. -/
  | overflow
  /-- Division by zero. -/
  | divisionByZero
  /-- Remainder of a division by zero. -/
  | moduloByZero
  deriving DecidableEq, Repr

/-- The words in which a fault is reported. -/
def ArithmeticFault.message : ArithmeticFault → String
  | .overflow => "integer overflow"
  | .divisionByZero => "floored division by zero"
  | .moduloByZero => "integer modulo by zero"

/-- The least integer of the language, minus two to the power 63. -/
def leastInteger : Int := -9223372036854775808

/-- The greatest integer of the language, two to the power 63 less one. -/
def greatestInteger : Int := 9223372036854775807

/-- An integer from `leastInteger` up to `greatestInteger`. -/
structure Integer where
  val : Int
  lower : leastInteger ≤ val
  upper : val ≤ greatestInteger
  deriving DecidableEq

namespace Integer

/-- The integer with the given value, if it is in range. -/
def ofInt? (z : Int) : Option Integer :=
  if h : leastInteger ≤ z ∧ z ≤ greatestInteger then some ⟨z, h.1, h.2⟩ else none

/-- A result, or an overflow if there is none. -/
def orOverflow : Option Integer → Except ArithmeticFault Integer
  | some i => .ok i
  | none => .error .overflow

/-- A result, or an overflow if it is out of range. -/
def checked (z : Int) : Except ArithmeticFault Integer :=
  orOverflow (ofInt? z)

theorem ext_val {a b : Integer} (h : a.val = b.val) : a = b := by
  cases a; cases b; cases h; rfl

theorem ofInt?_eq_some_iff {z : Int} {i : Integer} : ofInt? z = some i ↔ z = i.val := by
  unfold ofInt?
  split
  · constructor
    · rintro ⟨⟩; rfl
    · rintro rfl; rfl
  · rename_i hn
    constructor
    · rintro ⟨⟩
    · rintro rfl; exact absurd ⟨i.lower, i.upper⟩ hn

theorem checked_eq_ok_iff {z : Int} {i : Integer} : checked z = .ok i ↔ z = i.val := by
  unfold checked
  cases h : ofInt? z with
  | some j => simp [orOverflow, ← ofInt?_eq_some_iff, h]
  | none => simp [orOverflow, ← ofInt?_eq_some_iff, h]

theorem checked_eq_error_iff {z : Int} {f : ArithmeticFault} :
    checked z = .error f ↔ f = .overflow ∧ ¬ (leastInteger ≤ z ∧ z ≤ greatestInteger) := by
  unfold checked ofInt?
  by_cases h : leastInteger ≤ z ∧ z ≤ greatestInteger
  · rw [dif_pos h]
    constructor
    · rintro ⟨⟩
    · exact fun e => absurd h e.2
  · rw [dif_neg h]
    constructor
    · rintro ⟨⟩; exact ⟨rfl, h⟩
    · rintro ⟨rfl, -⟩; rfl

/-- The sum. -/
def add (a b : Integer) : Except ArithmeticFault Integer :=
  checked (a.val + b.val)

/-- The difference. -/
def sub (a b : Integer) : Except ArithmeticFault Integer :=
  checked (a.val - b.val)

/-- The product. -/
def mul (a b : Integer) : Except ArithmeticFault Integer :=
  checked (a.val * b.val)

/-- The opposite. -/
def neg (a : Integer) : Except ArithmeticFault Integer :=
  checked (-a.val)

/-- The quotient rounded toward zero, if there is one in range. -/
def quotient? (a b : Integer) : Option Integer :=
  if b.val = 0 then none else ofInt? (a.val.tdiv b.val)

/-- What the quotient rounded toward zero leaves. It is worked out together with the quotient, so
where that is out of range there is no remainder either. -/
def remainder? (a b : Integer) : Option Integer :=
  (quotient? a b).bind fun _ => ofInt? (a.val.tmod b.val)

theorem quotient?_eq_some_iff {a b q : Integer} :
    quotient? a b = some q ↔ b.val ≠ 0 ∧ a.val.tdiv b.val = q.val := by
  unfold quotient?
  split
  · simp [*]
  · simp [*, ofInt?_eq_some_iff]

theorem remainder?_eq_some_iff {a b r : Integer} :
    remainder? a b = some r ↔ (∃ q, quotient? a b = some q) ∧ a.val.tmod b.val = r.val := by
  unfold remainder?
  cases quotient? a b <;> simp [ofInt?_eq_some_iff]

/-- Where something is left the quotient is far from the ends of the range, so one less than it is
an integer too. -/
theorem leastInteger_le_pred {a b q : Integer} (hq : quotient? a b = some q)
    (hr : a.val.tmod b.val ≠ 0) : leastInteger ≤ q.val - 1 := by
  obtain ⟨hb, hq⟩ := quotient?_eq_some_iff.1 hq
  have hone : b.val.natAbs ≠ 1 := by
    intro h
    rcases Int.natAbs_eq_iff.1 h with h | h <;> simp [h] at hr
  have hhalf : q.val.natAbs ≤ a.val.natAbs / 2 := by
    rw [← hq, Int.natAbs_tdiv]
    exact Nat.div_le_div_left (by omega) (by decide)
  have ha := a.lower
  have ha' := a.upper
  unfold leastInteger greatestInteger at *
  omega

/-- A divisor and a remainder of different signs have a sum in range. -/
theorem add_inRange {r b : Integer} (h : ¬(r.val < 0 ↔ b.val < 0)) :
    leastInteger ≤ r.val + b.val ∧ r.val + b.val ≤ greatestInteger := by
  have hr := r.lower
  have hr' := r.upper
  have hb := b.lower
  have hb' := b.upper
  unfold leastInteger greatestInteger at *
  omega

/-- The quotient rounded toward negative infinity: where something is left and the operands have
different signs, rounding toward zero was rounding up. -/
def floorQuotient? (a b : Integer) : Option Integer :=
  match h : quotient? a b with
  | none => none
  | some q =>
    if hr : a.val.tmod b.val ≠ 0 ∧ ¬(a.val < 0 ↔ b.val < 0) then
      some ⟨q.val - 1, leastInteger_le_pred h hr.1, by have := q.upper; omega⟩
    else some q

/-- The remainder of the sign of the divisor. -/
def floorRemainder? (a b : Integer) : Option Integer :=
  match remainder? a b with
  | none => none
  | some r =>
    if hr : r.val ≠ 0 ∧ ¬(r.val < 0 ↔ b.val < 0) then
      some ⟨r.val + b.val, (add_inRange hr.2).1, (add_inRange hr.2).2⟩
    else some r

/-- The quotient, rounded toward negative infinity. -/
def floorDiv (a b : Integer) : Except ArithmeticFault Integer :=
  if b.val = 0 then .error .divisionByZero else orOverflow (floorQuotient? a b)

/-- What the rounded quotient leaves: zero or of the sign of the divisor. -/
def mod (a b : Integer) : Except ArithmeticFault Integer :=
  if b.val = 0 then .error .moduloByZero else orOverflow (floorRemainder? a b)

/-- The value of a decimal literal: ASCII digits only, and in range. -/
def ofDigits? (cs : List Char) : Option Integer :=
  if cs.all Char.isDigit then ofInt? (Nat.ofDigitChars 10 cs 0) else none

/-- Decimal digits, after a minus sign if the integer is negative. -/
def text (i : Integer) : String :=
  toString i.val

/-- The length of a text, which no machine holds beyond the range; a longer one counts as the
largest integer. -/
def ofLength (n : Nat) : Integer :=
  match ofInt? n with
  | some i => i
  | none => ⟨greatestInteger, by decide, by decide⟩

end Integer
end ScriptShell
