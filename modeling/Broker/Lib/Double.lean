import Broker.Lib.JsonLoad
import Mathlib.Tactic.Linarith
import Mathlib.Tactic.Ring

/-!
# Broker.Lib.Double — arithmetic of doubles, and the order through a rounding

A sum or a product of doubles is rounded to the nearest one.  Rounding keeps the order (`roundDouble_mono`);
integers up to `2 ^ 53` are doubles, so the nearest double to a number stays on its side of each of them.
-/

namespace Broker.Lib.PyFloat

/-- The product of two doubles of the finite range. -/
def mul (x y : ℚ) : ℚ := roundDouble (x * y)

/-- The difference of two doubles of the finite range. -/
def sub (x y : ℚ) : ℚ := roundDouble (x - y)

/-- `int(x)` of a finite float: towards zero. -/
def toInt (x : ℚ) : ℤ := if 0 ≤ x then x.floor else x.ceil

/-! ### The two orders

A comparison with a NaN is false in Python; PostgreSQL sorts NaN above every other float.
-/

/-- `x < y`. -/
def lt : PyFloat → PyFloat → Bool
  | .nan, _ => false
  | _, .nan => false
  | .inf neg, .inf neg' => neg && !neg'
  | .inf neg, .fin _ => neg
  | .fin _, .inf neg => !neg
  | .fin x, .fin y => decide (x < y)

/-- `x <= y`. -/
def le : PyFloat → PyFloat → Bool
  | .nan, _ => false
  | _, .nan => false
  | .inf neg, .inf neg' => neg || !neg'
  | .inf neg, .fin _ => neg
  | .fin _, .inf neg => !neg
  | .fin x, .fin y => decide (x ≤ y)

/-- `x < y` of PostgreSQL. -/
def ltNanLast : PyFloat → PyFloat → Bool
  | .nan, _ => false
  | _, .nan => true
  | x, y => lt x y

/-- The two orders differ on a NaN above. -/
theorem ltNanLast_iff {x y : PyFloat} : ltNanLast x y = true ↔ lt x y = true ∨ y = .nan ∧ x ≠ .nan := by
  cases x <;> cases y <;> simp [ltNanLast, lt]

theorem lt_nan_right (x : PyFloat) : lt x .nan = false := by
  cases x <;> rfl

/-- Without a NaN the order is total. -/
theorem le_eq_false_iff {x y : PyFloat} : le y x = false ↔ lt x y = true ∨ x = .nan ∨ y = .nan := by
  rcases x with p | a | _ <;> rcases y with q | b | _ <;> simp [le, lt]
  · cases a <;> cases b <;> simp

theorem le_roundEven {q : ℚ} {n : ℤ} (h : (n : ℚ) ≤ q) : n ≤ roundEven q := by
  have hfloor : n ≤ q.floor := Rat.le_floor_iff.mpr h
  unfold roundEven
  dsimp only
  split_ifs <;> omega

theorem roundEven_le {q : ℚ} {n : ℤ} (h : q ≤ n) : roundEven q ≤ n := by
  have hle : q.floor ≤ n := by exact_mod_cast le_trans (Rat.floor_le q) h
  have hlt : q.floor = n → q - q.floor < 1 / 2 := by
    intro heq
    rw [heq]
    linarith
  unfold roundEven
  dsimp only
  by_cases heq : q.floor = n
  · rw [if_pos (hlt heq)]
    exact hle
  · split_ifs <;> omega

theorem roundEven_mono {q r : ℚ} (h : q ≤ r) : roundEven q ≤ roundEven r := by
  have hfloor : q.floor ≤ r.floor := Rat.le_floor_iff.mpr (le_trans (Rat.floor_le q) h)
  rcases hfloor.lt_or_eq with hlt | heq
  · -- an integer stands between the two
    have hq : q ≤ (r.floor : ℤ) := by
      have hnext : ((q.floor + 1 : ℤ) : ℚ) ≤ r.floor := by exact_mod_cast hlt
      exact le_trans (Rat.lt_floor_add_one q).le hnext
    exact le_trans (roundEven_le hq) (le_roundEven (Rat.floor_le r))
  · unfold roundEven
    dsimp only
    rw [heq]
    split_ifs <;> first | omega | (exfalso; linarith)

/-- The exponent `roundDouble` takes is that of a power of two below the number. -/
theorem two_zpow_le {a : ℚ} (ha : 0 < a) {e : ℤ} (he : e = (Nat.log2 a.num.natAbs : ℤ) - Nat.log2 a.den) :
    (2 : ℚ) ^ (if a < 2 ^ e then e - 1 else e) ≤ a := by
  split_ifs with hlt
  · have hnum : 0 < a.num := Rat.num_pos.mpr ha
    have habs : (a.num.natAbs : ℚ) = a.num := by rw [Nat.cast_natAbs, abs_of_pos hnum]
    have hlow : (2 : ℚ) ^ Nat.log2 a.num.natAbs ≤ a.num := by
      rw [← habs]
      exact_mod_cast Nat.log2_self_le (by omega)
    have hhigh : (a.den : ℚ) ≤ 2 ^ (Nat.log2 a.den + 1) := by
      exact_mod_cast (Nat.lt_log2_self (n := a.den)).le
    have hden : (0 : ℚ) < a.den := by exact_mod_cast a.den_pos
    calc (2 : ℚ) ^ (e - 1) = 2 ^ Nat.log2 a.num.natAbs / 2 ^ (Nat.log2 a.den + 1) := by
          rw [he, ← zpow_natCast, ← zpow_natCast, ← zpow_sub₀ (by norm_num)]
          congr 1
          push_cast
          ring
      _ ≤ a.num / a.den := div_le_div₀ (by exact_mod_cast hnum.le) hlow hden hhigh
      _ = a := Rat.num_div_den a
  · exact not_lt.mp hlt

theorem lt_two_zpow {a : ℚ} (ha : 0 < a) {e : ℤ} (he : e = (Nat.log2 a.num.natAbs : ℤ) - Nat.log2 a.den) :
    a < 2 ^ ((if a < 2 ^ e then e - 1 else e) + 1) := by
  split_ifs with hlt
  · rwa [sub_add_cancel]
  · have hnum : 0 < a.num := Rat.num_pos.mpr ha
    have habs : (a.num.natAbs : ℚ) = a.num := by rw [Nat.cast_natAbs, abs_of_pos hnum]
    have hhigh : (a.num : ℚ) < 2 ^ (Nat.log2 a.num.natAbs + 1) := by
      rw [← habs]
      exact_mod_cast Nat.lt_log2_self
    have hlow : (2 : ℚ) ^ Nat.log2 a.den ≤ a.den := by exact_mod_cast Nat.log2_self_le a.den_pos.ne'
    calc a = a.num / a.den := (Rat.num_div_den a).symm
      _ < 2 ^ (Nat.log2 a.num.natAbs + 1) / 2 ^ Nat.log2 a.den :=
        div_lt_div₀ hhigh hlow (by positivity) (by positivity)
      _ = 2 ^ (e + 1) := by
        rw [he, ← zpow_natCast, ← zpow_natCast, ← zpow_sub₀ (by norm_num)]
        congr 1
        push_cast
        ring

/-- How `roundDouble` rounds a positive number: in units of 52 bits below its leading bit. -/
theorem roundDouble_of_pos {q : ℚ} (hq : 0 < q) :
    ∃ e : ℤ, 2 ^ e ≤ q ∧ q < 2 ^ (e + 1) ∧
      roundDouble q = roundEven (q / 2 ^ max (e - 52) (-1074)) * 2 ^ max (e - 52) (-1074) := by
  refine ⟨_, two_zpow_le hq rfl, lt_two_zpow hq rfl, ?_⟩
  rw [roundDouble, if_neg hq.ne', abs_of_pos hq]

theorem roundDouble_nonneg {q : ℚ} (hq : 0 ≤ q) : 0 ≤ roundDouble q := by
  rcases hq.lt_or_eq with hpos | rfl
  · obtain ⟨e, -, -, heq⟩ := roundDouble_of_pos hpos
    have hunit : (0 : ℚ) < 2 ^ max (e - 52) (-1074) := zpow_pos (by norm_num) _
    have hround : 0 ≤ roundEven (q / 2 ^ max (e - 52) (-1074)) :=
      le_roundEven (by exact_mod_cast div_nonneg hq hunit.le)
    rw [heq]
    exact mul_nonneg (by exact_mod_cast hround) hunit.le
  · simp [roundDouble]

theorem roundDouble_nonpos {q : ℚ} (hq : q ≤ 0) : roundDouble q ≤ 0 := by
  unfold roundDouble
  split_ifs with h0
  · exact le_rfl
  · dsimp only
    refine mul_nonpos_of_nonpos_of_nonneg ?_ (zpow_pos (by norm_num) _).le
    refine Int.cast_nonpos.mpr (roundEven_le ?_)
    exact_mod_cast div_nonpos_of_nonpos_of_nonneg hq (zpow_pos (by norm_num) _).le

/-- **Rounding keeps the order.** -/
theorem roundDouble_mono {q r : ℚ} (hr : 0 ≤ r) (h : q ≤ r) : roundDouble q ≤ roundDouble r := by
  rcases lt_or_ge 0 q with hpos | hneg
  · obtain ⟨e, hle, hlt, heq⟩ := roundDouble_of_pos hpos
    obtain ⟨e', hle', hlt', heq'⟩ := roundDouble_of_pos (lt_of_lt_of_le hpos h)
    have hexp : e < e' + 1 :=
      (zpow_lt_zpow_iff_right₀ (by norm_num)).mp (lt_of_le_of_lt (le_trans hle h) hlt')
    set k := max (e - 52) (-1074) with hk
    set k' := max (e' - 52) (-1074) with hk'
    have hunit : (0 : ℚ) < 2 ^ k := zpow_pos (by norm_num) k
    have hunit' : (0 : ℚ) < 2 ^ k' := zpow_pos (by norm_num) k'
    rw [heq, heq']
    by_cases hkk : k = k'
    · rw [hkk]
      have hquot := roundEven_mono (div_le_div_of_nonneg_right h hunit'.le)
      exact mul_le_mul_of_nonneg_right (by exact_mod_cast hquot) hunit'.le
    · -- a power of two stands between the two results
      have hgap : e + 1 ≤ e' ∧ k' = e' - 52 ∧ 0 ≤ e' - k := by omega
      obtain ⟨hee, hke, hpos'⟩ := hgap
      have hup : (roundEven (q / 2 ^ k) : ℚ) ≤ 2 ^ (e' - k) := by
        have hint : ((2 ^ (e' - k).toNat : ℤ) : ℚ) = 2 ^ (e' - k) := by
          conv_rhs => rw [← Int.toNat_of_nonneg hpos', zpow_natCast]
          push_cast
          rfl
        rw [← hint]
        refine Int.cast_le.mpr (roundEven_le ?_)
        rw [hint, div_le_iff₀ hunit, ← zpow_add₀ (by norm_num), sub_add_cancel]
        exact le_trans hlt.le (zpow_le_zpow_right₀ (by norm_num) hee)
      have hdown : ((2 ^ 52 : ℤ) : ℚ) ≤ roundEven (r / 2 ^ k') := by
        refine Int.cast_le.mpr (le_roundEven ?_)
        rw [le_div_iff₀ hunit']
        calc ((2 ^ 52 : ℤ) : ℚ) * 2 ^ k' = 2 ^ (52 + k') := by
              rw [zpow_add₀ (by norm_num)]
              norm_num
          _ = 2 ^ e' := by rw [hke]; congr 1; ring
          _ ≤ r := hle'
      calc (roundEven (q / 2 ^ k) : ℚ) * 2 ^ k ≤ 2 ^ (e' - k) * 2 ^ k :=
            mul_le_mul_of_nonneg_right hup hunit.le
        _ = 2 ^ e' := by rw [← zpow_add₀ (by norm_num), sub_add_cancel]
        _ = ((2 ^ 52 : ℤ) : ℚ) * 2 ^ k' := by
          rw [hke, show e' = 52 + (e' - 52) by ring, zpow_add₀ (by norm_num)]
          norm_num
        _ ≤ roundEven (r / 2 ^ k') * 2 ^ k' := mul_le_mul_of_nonneg_right hdown hunit'.le
  · exact le_trans (roundDouble_nonpos hneg) (roundDouble_nonneg hr)

/-- **The rounding of a number is not below an integer of 53 bits that the number is not below.** -/
theorem le_roundDouble {q : ℚ} {n : ℤ} (hq : 0 < q) (hn : n ≤ 2 ^ 53) (h : (n : ℚ) ≤ q) :
    (n : ℚ) ≤ roundDouble q := by
  rw [roundDouble, if_neg hq.ne']
  dsimp only
  rw [abs_of_pos hq]
  set e₀ : ℤ := (Nat.log2 q.num.natAbs : ℤ) - Nat.log2 q.den with he₀
  set e : ℤ := if q < 2 ^ e₀ then e₀ - 1 else e₀ with he
  have hle : (2 : ℚ) ^ e ≤ q := two_zpow_le hq he₀
  set k : ℤ := max (e - 52) (-1074) with hk
  have hunit : (0 : ℚ) < 2 ^ k := zpow_pos (by norm_num) k
  by_cases hneg : k ≤ 0
  · -- the unit divides every integer
    have hint : ((n * 2 ^ k.natAbs : ℤ) : ℚ) = n / 2 ^ k := by
      have hnat : ((k.natAbs : ℕ) : ℤ) = -k := by omega
      rw [div_eq_mul_inv, ← zpow_neg, ← hnat, zpow_natCast]
      push_cast
      rfl
    have hquot : ((n * 2 ^ k.natAbs : ℤ) : ℚ) ≤ q / 2 ^ k := by
      rw [hint]
      exact div_le_div_of_nonneg_right h hunit.le
    have hround : ((n * 2 ^ k.natAbs : ℤ) : ℚ) ≤ roundEven (q / 2 ^ k) := by exact_mod_cast le_roundEven hquot
    rw [hint, div_le_iff₀ hunit] at hround
    exact hround
  · -- a number with a larger unit is at least `2 ^ 53`
    have hek : k = e - 52 := by omega
    have hquot : ((2 ^ 52 : ℤ) : ℚ) ≤ q / 2 ^ k := by
      rw [le_div_iff₀ hunit]
      calc ((2 ^ 52 : ℤ) : ℚ) * 2 ^ k = 2 ^ (52 + k) := by
            rw [zpow_add₀ (by norm_num)]
            norm_num
        _ = 2 ^ e := by rw [hek]; congr 1; ring
        _ ≤ q := hle
    have hround : ((2 ^ 52 : ℤ) : ℚ) ≤ roundEven (q / 2 ^ k) := by exact_mod_cast le_roundEven hquot
    have hone : (2 : ℚ) ≤ 2 ^ k := by
      calc (2 : ℚ) = 2 ^ (1 : ℤ) := (zpow_one 2).symm
        _ ≤ 2 ^ k := zpow_le_zpow_right₀ (by norm_num) (by omega)
    calc (n : ℚ) ≤ 2 ^ 53 := by exact_mod_cast hn
      _ = ((2 ^ 52 : ℤ) : ℚ) * 2 := by norm_num
      _ ≤ roundEven (q / 2 ^ k) * 2 ^ k :=
        mul_le_mul hround hone (by norm_num) (le_trans (by norm_num) hround)

end Broker.Lib.PyFloat
