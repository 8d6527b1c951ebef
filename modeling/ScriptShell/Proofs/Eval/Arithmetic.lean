import Mathlib.Algebra.Order.Floor.Ring
import Mathlib.Data.Rat.Floor
import Mathlib.Tactic.FieldSimp
import Mathlib.Tactic.Linarith
import ScriptShell.Eval.Operators

/-!
# ScriptShell.Proofs.Eval.Arithmetic

Arithmetic is exact or fails. A sum, a difference, a product or an opposite is the mathematical one
where that is in range, and an overflow where it is not. Division rounds toward zero and corrects
the outcome by what is left, which gives the floor of the exact quotient and a remainder of the sign
of the divisor.

The remainder is worked out together with the quotient. So the one quotient that is out of range, of
the least integer by minus one, has no remainder either, though nothing is left by it.

* `floor_of_remainder`: what is left decides how a quotient is rounded.
* `Integer.floorQuotient?_spec`, `Integer.floorRemainder?_spec`: what division gives.
* `arithmetic_exact`: the main theorem.
* `mod_least_minusOne`: the remainder that is refused.
-/

namespace ScriptShell

/-- Where a multiple of the divisor leaves zero, or something of the sign of the divisor and
smaller, its factor is the floor of the quotient. -/
theorem floor_of_remainder {a b q r : ℤ} (h : a = b * q + r)
    (hr : (0 ≤ r ∧ r < b) ∨ (b < r ∧ r ≤ 0)) : ⌊(a : ℚ) / b⌋ = q := by
  have hb : (b : ℚ) ≠ 0 := by
    rintro hb
    have hb : b = 0 := by exact_mod_cast hb
    omega
  have ha : (a : ℚ) / b = q + (r : ℚ) / b := by
    rw [h]
    push_cast
    field_simp
  have hfrac : 0 ≤ (r : ℚ) / b ∧ (r : ℚ) / b < 1 := by
    rcases hr with ⟨h₀, h₁⟩ | ⟨h₁, h₀⟩
    · have h₀ : (0 : ℚ) ≤ r := by exact_mod_cast h₀
      have h₁ : (r : ℚ) < b := by exact_mod_cast h₁
      exact ⟨div_nonneg h₀ (by linarith), (div_lt_one (by linarith)).2 h₁⟩
    · have h₀ : (r : ℚ) ≤ 0 := by exact_mod_cast h₀
      have h₁ : (b : ℚ) < r := by exact_mod_cast h₁
      exact ⟨div_nonneg_of_nonpos h₀ (by linarith), (div_lt_one_of_neg (by linarith)).2 h₁⟩
  rw [Int.floor_eq_iff, ha]
  constructor <;> linarith

/-- What a truncated quotient leaves is smaller than the divisor, and not of the opposite sign of
what is divided. -/
theorem tmod_bounds (a : ℤ) {b : ℤ} (hb : b ≠ 0) :
    |a.tmod b| < |b| ∧ (a.tmod b ≠ 0 → (a.tmod b < 0 ↔ a < 0)) := by
  constructor
  · rw [Int.abs_eq_natAbs, Int.abs_eq_natAbs, Int.natAbs_tmod]
    exact_mod_cast Nat.mod_lt _ (Int.natAbs_pos.2 hb)
  · intro hr
    have hpos : 0 ≤ a → 0 ≤ a.tmod b := Int.tmod_nonneg b
    have hneg : 0 ≤ -a → 0 ≤ (-a).tmod b := Int.tmod_nonneg b
    rw [Int.neg_tmod] at hneg
    omega

/-- Where something of the wrong sign is left, the floor is one less than the truncated quotient. -/
theorem floor_eq_tdiv (a : ℤ) {b : ℤ} (hb : b ≠ 0) :
    ⌊(a : ℚ) / b⌋ =
      if a.tmod b ≠ 0 ∧ ¬(a.tmod b < 0 ↔ b < 0) then a.tdiv b - 1 else a.tdiv b := by
  have ha : a = b * a.tdiv b + a.tmod b := (Int.mul_tdiv_add_tmod a b).symm
  obtain ⟨hlt, -⟩ := tmod_bounds a hb
  rw [Int.abs_eq_natAbs, Int.abs_eq_natAbs] at hlt
  split
  · have hstep : a = b * (a.tdiv b - 1) + (a.tmod b + b) := by linarith
    exact floor_of_remainder hstep (by omega)
  · exact floor_of_remainder ha (by omega)

namespace Integer

variable {a b q : Integer}

/-- Every quotient is in range but one. -/
theorem quotient?_eq_none_iff :
    quotient? a b = none ↔ b.val = 0 ∨ (a.val = leastInteger ∧ b.val = -1) := by
  have hrange : ∀ q : ℤ, ofInt? q = none ↔ ¬(leastInteger ≤ q ∧ q ≤ greatestInteger) := by
    intro q
    unfold ofInt?
    split <;> simp [*]
  have ha := a.lower
  have ha' := a.upper
  unfold quotient?
  by_cases hb : b.val = 0
  · simp [hb]
  rw [if_neg hb, hrange]
  unfold leastInteger greatestInteger at *
  constructor
  · intro h
    refine .inr ?_
    by_cases hone : b.val.natAbs = 1
    · rcases Int.natAbs_eq_iff.1 hone with hb' | hb' <;> rw [hb'] at h <;> simp at h <;> omega
    · have habs := Int.natAbs_tdiv a.val b.val
      have hhalf : a.val.natAbs.div b.val.natAbs ≤ a.val.natAbs / 2 :=
        Nat.div_le_div_left (by omega) (by decide)
      omega
  · rintro (h | ⟨h, h'⟩)
    · exact absurd h hb
    · rw [h, h']
      decide

theorem floorQuotient?_eq_none (hq : quotient? a b = none) : floorQuotient? a b = none := by
  unfold floorQuotient?
  split <;> simp_all

theorem floorRemainder?_eq_none (hq : quotient? a b = none) : floorRemainder? a b = none := by
  rw [floorRemainder?, remainder?, hq]
  rfl

/-- The corrected quotient is the floor of the exact one. -/
theorem floorQuotient?_spec (hq : quotient? a b = some q) :
    ∃ z, floorQuotient? a b = some z ∧ z.val = ⌊(a.val : ℚ) / b.val⌋ := by
  obtain ⟨hb, hval⟩ := quotient?_eq_some_iff.1 hq
  obtain ⟨-, hsign⟩ := tmod_bounds a.val hb
  rw [floor_eq_tdiv a.val hb, hval]
  unfold floorQuotient?
  split
  · simp_all
  · rename_i q' hq'
    obtain rfl : q' = q := Option.some.inj (hq'.symm.trans hq)
    split
    · rename_i hr
      refine ⟨_, rfl, ?_⟩
      rw [if_pos ⟨hr.1, by rw [hsign hr.1]; exact hr.2⟩]
    · rename_i hr
      refine ⟨_, rfl, ?_⟩
      rw [if_neg fun h => hr ⟨h.1, by rw [← hsign h.1]; exact h.2⟩]

/-- The corrected remainder is what the floor leaves. -/
theorem floorRemainder?_spec (hq : quotient? a b = some q) :
    ∃ z, floorRemainder? a b = some z ∧
      z.val = a.val - b.val * ⌊(a.val : ℚ) / b.val⌋ := by
  obtain ⟨hb, hval⟩ := quotient?_eq_some_iff.1 hq
  have ha : a.val = b.val * q.val + a.val.tmod b.val := by
    rw [← hval, Int.mul_tdiv_add_tmod]
  obtain ⟨hlt, -⟩ := tmod_bounds a.val hb
  rw [Int.abs_eq_natAbs, Int.abs_eq_natAbs] at hlt
  have hrange : ∃ r, remainder? a b = some r ∧ r.val = a.val.tmod b.val := by
    have hl := b.lower
    have hu := b.upper
    have hr : leastInteger ≤ a.val.tmod b.val ∧ a.val.tmod b.val ≤ greatestInteger := by
      unfold leastInteger greatestInteger at *
      omega
    exact ⟨⟨_, hr.1, hr.2⟩, remainder?_eq_some_iff.2 ⟨⟨q, hq⟩, rfl⟩, rfl⟩
  obtain ⟨r, hr, hrval⟩ := hrange
  rw [floor_eq_tdiv a.val hb, hval, ← hrval]
  rw [← hrval] at ha
  unfold floorRemainder?
  rw [hr]
  dsimp only
  split
  · exact ⟨_, rfl, by linarith⟩
  · exact ⟨r, rfl, by linarith⟩

theorem orOverflow_ne {o : Option Integer} {f : ArithmeticFault} (hf : f ≠ .overflow) :
    orOverflow o ≠ .error f := by
  cases o with
  | some i => exact nofun
  | none =>
    rintro ⟨⟩
    exact hf rfl

theorem floorDiv_eq_divisionByZero_iff :
    floorDiv a b = .error .divisionByZero ↔ b.val = 0 := by
  unfold floorDiv
  split
  · simp [*]
  · simp [*, orOverflow_ne]

theorem mod_eq_moduloByZero_iff : mod a b = .error .moduloByZero ↔ b.val = 0 := by
  unfold mod
  split
  · simp [*]
  · simp [*, orOverflow_ne]

end Integer

/-- A value, or the words in which its failure is reported. -/
def reported (r : Except EvalFault Value) : Except String Value :=
  r.mapError EvalFault.message

/-- No two faults of arithmetic are reported in the same words. -/
theorem ArithmeticFault.message_inj {f g : ArithmeticFault} : f.message = g.message ↔ f = g := by
  constructor
  · cases f <;> cases g <;> simp [message]
  · rintro rfl
    rfl

theorem reported_ofArithmetic {x : Except ArithmeticFault Integer} {f : ArithmeticFault} :
    reported (ofArithmetic x) = .error f.message ↔ x = .error f := by
  cases x with
  | ok i => exact iff_of_false nofun nofun
  | error g =>
    have hg : reported (ofArithmetic (.error g)) = .error g.message := rfl
    rw [hg, Except.error.injEq, Except.error.injEq]
    exact ArithmeticFault.message_inj

/-- The value is `z` where that is in range, and where it is not an overflow is reported. -/
structure Exact (z : ℤ) (r : Except EvalFault Value) : Prop where
  value : ∀ i : Integer, r = .ok (.int i) ↔ i.val = z
  overflow : reported r = .error "integer overflow" ↔ ¬(leastInteger ≤ z ∧ z ≤ greatestInteger)

theorem exact_checked (z : ℤ) : Exact z (ofArithmetic (Integer.checked z)) := by
  constructor
  · intro i
    rw [eq_comm (a := i.val), ← Integer.checked_eq_ok_iff]
    cases Integer.checked z <;> simp [ofArithmetic]
  · have h := Integer.checked_eq_error_iff (z := z) (f := .overflow)
    rw [← h.trans (and_iff_right rfl)]
    exact reported_ofArithmetic (f := .overflow)

theorem exact_of_value {z : ℤ} {i : Integer} (hi : i.val = z) : Exact z (.ok (.int i)) := by
  have hrange := i.lower
  have hrange' := i.upper
  constructor
  · intro j
    constructor
    · rintro ⟨⟩
      exact hi
    · intro hj
      rw [Integer.ext_val (hj.trans hi.symm)]
  · refine iff_of_false nofun (not_not_intro ?_)
    rw [← hi]
    exact ⟨hrange, hrange'⟩

theorem exact_of_overflow {z : ℤ} (hz : ¬(leastInteger ≤ z ∧ z ≤ greatestInteger)) :
    Exact z (.error (.arithmetic .overflow)) := by
  refine ⟨fun i => ?_, iff_of_true rfl hz⟩
  simp only [reduceCtorEq, false_iff]
  rintro rfl
  exact hz ⟨i.lower, i.upper⟩

theorem floor_least_minusOne {a b : Integer} (ha : a.val = leastInteger) (hb : b.val = -1) :
    ⌊(a.val : ℚ) / b.val⌋ = greatestInteger + 1 := by
  rw [ha, hb]
  exact floor_of_remainder (r := 0) (by decide) (.inr (by decide))

theorem exact_floorDiv {a b : Integer} (hb : b.val ≠ 0) :
    Exact ⌊(a.val : ℚ) / b.val⌋ (ofArithmetic (a.floorDiv b)) := by
  rw [Integer.floorDiv, if_neg hb]
  cases hq : Integer.quotient? a b with
  | some q =>
    obtain ⟨z, hz, hval⟩ := Integer.floorQuotient?_spec hq
    rw [hz]
    exact exact_of_value hval
  | none =>
    obtain ⟨ha, hb⟩ := (Integer.quotient?_eq_none_iff.1 hq).resolve_left hb
    rw [Integer.floorQuotient?_eq_none hq, floor_least_minusOne ha hb]
    exact exact_of_overflow (by decide)

theorem exact_mod {a b : Integer} (hb : b.val ≠ 0)
    (hne : ¬(a.val = leastInteger ∧ b.val = -1)) :
    Exact (a.val - b.val * ⌊(a.val : ℚ) / b.val⌋) (ofArithmetic (a.mod b)) := by
  rw [Integer.mod, if_neg hb]
  cases hq : Integer.quotient? a b with
  | some q =>
    obtain ⟨z, hz, hval⟩ := Integer.floorRemainder?_spec hq
    rw [hz]
    exact exact_of_value hval
  | none => exact absurd ((Integer.quotient?_eq_none_iff.1 hq).resolve_left hb) hne

/-- The remainder of floor division is zero or of the sign of the divisor, and smaller than it. -/
theorem remainder_bounds (a b : ℤ) (hb : b ≠ 0) :
    |a - b * ⌊(a : ℚ) / b⌋| < |b| ∧
      (a - b * ⌊(a : ℚ) / b⌋ = 0 ∨ (a - b * ⌊(a : ℚ) / b⌋ < 0 ↔ b < 0)) := by
  have ha : b * a.tdiv b = a - a.tmod b := eq_sub_of_add_eq (Int.mul_tdiv_add_tmod a b)
  obtain ⟨hlt, -⟩ := tmod_bounds a hb
  rw [floor_eq_tdiv a hb]
  simp only [Int.abs_eq_natAbs] at hlt ⊢
  split
  · rw [mul_sub, mul_one, ha]
    omega
  · rw [ha]
    omega

/-- Arithmetic is exact or fails, and fails as it should, but for one remainder. A sum, a
difference, a product and an opposite are exact where they are in range, and overflows elsewhere. A
quotient is the floor of the exact one, a remainder what the floor leaves, smaller than the divisor
and zero or of its sign. By zero there is neither. Only of the least integer by minus one there is
no remainder, though zero would be in range. -/
theorem arithmetic_exact (a b : Integer) :
    Exact (a.val + b.val) (BinaryOp.add.apply (.int a) (.int b)) ∧
    Exact (a.val - b.val) (BinaryOp.sub.apply (.int a) (.int b)) ∧
    Exact (a.val * b.val) (BinaryOp.mul.apply (.int a) (.int b)) ∧
    Exact (-a.val) (UnaryOp.neg.apply (.int a)) ∧
    (reported (BinaryOp.floorDiv.apply (.int a) (.int b)) = .error "floored division by zero" ↔
      b.val = 0) ∧
    (reported (BinaryOp.mod.apply (.int a) (.int b)) = .error "integer modulo by zero" ↔
      b.val = 0) ∧
    (b.val ≠ 0 →
      Exact ⌊(a.val : ℚ) / b.val⌋ (BinaryOp.floorDiv.apply (.int a) (.int b)) ∧
      |a.val - b.val * ⌊(a.val : ℚ) / b.val⌋| < |b.val| ∧
      (a.val - b.val * ⌊(a.val : ℚ) / b.val⌋ = 0 ∨
        (a.val - b.val * ⌊(a.val : ℚ) / b.val⌋ < 0 ↔ b.val < 0)) ∧
      (¬(a.val = leastInteger ∧ b.val = -1) →
        Exact (a.val - b.val * ⌊(a.val : ℚ) / b.val⌋) (BinaryOp.mod.apply (.int a) (.int b)))) ∧
    (a.val = leastInteger ∧ b.val = -1 →
      reported (BinaryOp.mod.apply (.int a) (.int b)) = .error "integer overflow") := by
  have hdiv : BinaryOp.floorDiv.apply (.int a) (.int b) = ofArithmetic (a.floorDiv b) := rfl
  have hmod : BinaryOp.mod.apply (.int a) (.int b) = ofArithmetic (a.mod b) := rfl
  rw [hdiv, hmod]
  refine ⟨exact_checked _, exact_checked _, exact_checked _, exact_checked _, ?_, ?_, ?_, ?_⟩
  · exact (reported_ofArithmetic (f := .divisionByZero)).trans
      Integer.floorDiv_eq_divisionByZero_iff
  · exact (reported_ofArithmetic (f := .moduloByZero)).trans Integer.mod_eq_moduloByZero_iff
  · intro hb
    obtain ⟨hlt, hsign⟩ := remainder_bounds a.val b.val hb
    exact ⟨exact_floorDiv hb, hlt, hsign, exact_mod hb⟩
  · rintro ⟨ha, hb⟩
    refine (reported_ofArithmetic (f := .overflow)).2 ?_
    rw [Integer.mod, if_neg (by rw [hb]; decide),
      Integer.floorRemainder?_eq_none (Integer.quotient?_eq_none_iff.2 (.inr ⟨ha, hb⟩))]
    rfl

theorem arithmetic_exact_negative :
    (-7 : ℤ) ≠ 0 ∧ ⌊((23 : ℤ) : ℚ) / (-7 : ℤ)⌋ = -4 ∧
      BinaryOp.floorDiv.apply (.int ⟨23, by decide, by decide⟩) (.int ⟨-7, by decide, by decide⟩) =
        .ok (.int ⟨-4, by decide, by decide⟩) ∧
      BinaryOp.mod.apply (.int ⟨23, by decide, by decide⟩) (.int ⟨-7, by decide, by decide⟩) =
        .ok (.int ⟨-5, by decide, by decide⟩) := by
  have hne : (-7 : ℤ) ≠ 0 := by decide
  have hfloor : ⌊((23 : ℤ) : ℚ) / (-7 : ℤ)⌋ = -4 :=
    floor_of_remainder (r := -5) (by decide) (by decide)
  obtain ⟨hdiv, -, -, hmod⟩ :=
    (arithmetic_exact ⟨23, by decide, by decide⟩ ⟨-7, by decide, by decide⟩).2.2.2.2.2.2.1 hne
  refine ⟨hne, hfloor, (hdiv.value _).2 hfloor.symm, ((hmod (by decide)).value _).2 ?_⟩
  rw [hfloor]
  decide

/-- Nothing is left by the quotient of the least integer by minus one, but there is no remainder. -/
theorem mod_least_minusOne :
    ∃ a b : Integer, b.val ≠ 0 ∧
      a.val - b.val * ⌊(a.val : ℚ) / b.val⌋ = 0 ∧
      reported (BinaryOp.mod.apply (.int a) (.int b)) = .error "integer overflow" ∧
      ¬Exact (a.val - b.val * ⌊(a.val : ℚ) / b.val⌋) (BinaryOp.mod.apply (.int a) (.int b)) := by
  let a : Integer := ⟨leastInteger, by decide, by decide⟩
  let b : Integer := ⟨-1, by decide, by decide⟩
  have hzero : a.val - b.val * ⌊(a.val : ℚ) / b.val⌋ = 0 := by
    rw [floor_least_minusOne rfl rfl]
    decide
  have happly : reported (BinaryOp.mod.apply (.int a) (.int b)) = .error "integer overflow" := rfl
  refine ⟨a, b, by decide, hzero, happly, fun h => ?_⟩
  rw [hzero] at h
  exact h.overflow.1 happly (by decide)

end ScriptShell
