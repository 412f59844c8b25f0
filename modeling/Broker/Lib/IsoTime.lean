import Mathlib.Data.String.Basic
import Mathlib.Tactic.Common

/-!
# Broker.Lib.IsoTime — the texts of UTC times are ordered as the times

`datetime.isoformat()` of an aware UTC time with a four-digit year: fields of fixed width, a fraction
only where the microseconds are not zero, and `+00:00`.  Two such texts compare, code point by code
point, as the times do (`isoformat_le`): where one has a fraction and the other has none, the plus sign
stands before the full stop.
-/

namespace Broker.Lib

/-- A UTC time of the calendar. -/
structure DateTime where
  year : ℕ
  month : ℕ
  day : ℕ
  hour : ℕ
  minute : ℕ
  second : ℕ
  microsecond : ℕ
  hyear : 1 ≤ year ∧ year ≤ 9999
  hmonth : 1 ≤ month ∧ month ≤ 12
  hday : 1 ≤ day ∧ day ≤ 31
  hhour : hour < 24
  hminute : minute < 60
  hsecond : second < 60
  hmicrosecond : microsecond < 1000000

namespace DateTime

/-- The fields, the largest unit first. -/
def fields (t : DateTime) : List ℕ := [t.year, t.month, t.day, t.hour, t.minute, t.second, t.microsecond]

/-- Times are ordered by their fields. -/
instance : LE DateTime := ⟨fun a b => a.fields ≤ b.fields⟩

instance (a b : DateTime) : Decidable (a ≤ b) := inferInstanceAs (Decidable (a.fields ≤ b.fields))

/-- `n` with `w` digits. -/
def pad : ℕ → ℕ → List Char
  | 0, _ => []
  | w + 1, n => Nat.digitChar (n / 10 ^ w) :: pad w (n % 10 ^ w)

/-- The fraction of a second, where there is one. -/
def fraction (us : ℕ) : List Char := if us = 0 then [] else '.' :: pad 6 us

def isoChars (t : DateTime) : List Char :=
  pad 4 t.year ++ '-' :: (pad 2 t.month ++ '-' :: (pad 2 t.day ++ 'T' :: (pad 2 t.hour ++ ':' ::
    (pad 2 t.minute ++ ':' :: (pad 2 t.second ++ (fraction t.microsecond ++ "+00:00".toList))))))

/-- `t.isoformat()`. -/
def isoformat (t : DateTime) : String := String.ofList t.isoChars

theorem length_pad : ∀ w n : ℕ, (pad w n).length = w
  | 0, _ => rfl
  | w + 1, n => by rw [pad, List.length_cons, length_pad w]

theorem digitChar_lt : ∀ b < 10, ∀ a < b, Nat.digitChar a < Nat.digitChar b := by decide

theorem pad_lt : ∀ {w n m : ℕ}, n < m → m < 10 ^ w → pad w n < pad w m
  | 0, n, m, h, hm => by omega
  | w + 1, n, m, h, hm => by
    have hpos : 0 < 10 ^ w := Nat.pow_pos (by omega)
    rw [pad, pad, List.cons_lt_cons_iff]
    have hdiv : n / 10 ^ w ≤ m / 10 ^ w := Nat.div_le_div_right h.le
    have hm10 : m / 10 ^ w < 10 := Nat.div_lt_of_lt_mul (by rw [← pow_succ]; exact hm)
    rcases hdiv.lt_or_eq with hlt | heq
    · exact .inl (digitChar_lt _ hm10 _ hlt)
    · refine .inr ⟨by rw [heq], pad_lt ?_ (Nat.mod_lt m hpos)⟩
      have hn := Nat.div_add_mod n (10 ^ w)
      have hm' := Nat.div_add_mod m (10 ^ w)
      rw [heq] at hn
      omega

theorem append_lt_append {p q : List Char} (hlen : p.length = q.length) (h : p < q) (x y : List Char) :
    p ++ x < q ++ y := by
  induction p generalizing q with
  | nil =>
    cases q with
    | nil => exact absurd h (List.not_lt_nil _)
    | cons d q => cases hlen
  | cons c p ih =>
    cases q with
    | nil => cases hlen
    | cons d q =>
      rw [List.cons_append, List.cons_append, List.cons_lt_cons_iff]
      rcases List.cons_lt_cons_iff.mp h with hcd | ⟨rfl, hpq⟩
      · exact .inl hcd
      · exact .inr ⟨rfl, ih (Nat.succ.inj hlen) hpq⟩

theorem cons_le_iff {α : Type} [LinearOrder α] {a b : α} {x y : List α} :
    a :: x ≤ b :: y ↔ a < b ∨ (a = b ∧ x ≤ y) := by
  rw [le_iff_lt_or_eq, List.cons_lt_cons_iff, List.cons.injEq, le_iff_lt_or_eq]
  tauto

theorem append_le_append_left : ∀ (p : List Char) {x y : List Char}, x ≤ y → p ++ x ≤ p ++ y
  | [], _, _, h => h
  | _ :: p, _, _, h => cons_le_iff.mpr (.inr ⟨rfl, append_le_append_left p h⟩)

/-- One field decides, or the rest does. -/
theorem pad_append_le {w n m : ℕ} {x y : List Char} (hm : m < 10 ^ w) (h : n < m ∨ (n = m ∧ x ≤ y)) :
    pad w n ++ x ≤ pad w m ++ y := by
  rcases h with hlt | ⟨rfl, hle⟩
  · have hlen : (pad w n).length = (pad w m).length := by rw [length_pad, length_pad]
    exact (append_lt_append hlen (pad_lt hlt hm) x y).le
  · exact append_le_append_left _ hle

theorem cons_le_cons {c : Char} {x y : List Char} (h : x ≤ y) : c :: x ≤ c :: y :=
  cons_le_iff.mpr (.inr ⟨rfl, h⟩)

theorem fraction_le {n m : ℕ} (h : n ≤ m) (hm : m < 1000000) :
    fraction n ++ "+00:00".toList ≤ fraction m ++ "+00:00".toList := by
  unfold fraction
  by_cases hn : n = 0
  · by_cases hm0 : m = 0
    · rw [if_pos hn, if_pos hm0]
    · -- no fraction on the left: the plus sign stands before the full stop
      rw [if_pos hn, if_neg hm0]
      exact cons_le_iff.mpr (.inl (show '+' < '.' by decide))
  · have hm0 : m ≠ 0 := by omega
    rw [if_neg hn, if_neg hm0]
    refine cons_le_cons (pad_append_le (by omega) ?_)
    rcases h.lt_or_eq with hlt | rfl
    · exact .inl hlt
    · exact .inr ⟨rfl, le_rfl⟩

/-- **The texts are ordered as the times.** -/
theorem isoformat_le {a b : DateTime} (h : a ≤ b) : isoformat a ≤ isoformat b := by
  have hyear : b.year < 10 ^ 4 := Nat.lt_succ_of_le b.hyear.2
  have hmonth : b.month < 10 ^ 2 := b.hmonth.2.trans_lt (by decide)
  have hday : b.day < 10 ^ 2 := b.hday.2.trans_lt (by decide)
  have hhour : b.hour < 10 ^ 2 := b.hhour.trans (by decide)
  have hminute : b.minute < 10 ^ 2 := b.hminute.trans (by decide)
  have hsecond : b.second < 10 ^ 2 := b.hsecond.trans (by decide)
  rw [String.le_iff_toList_le]
  show (String.ofList a.isoChars).toList ≤ (String.ofList b.isoChars).toList
  rw [String.toList_ofList, String.toList_ofList]
  refine pad_append_le hyear ((cons_le_iff.mp h).imp_right fun ⟨e, h⟩ => ⟨e, cons_le_cons ?_⟩)
  refine pad_append_le hmonth ((cons_le_iff.mp h).imp_right fun ⟨e, h⟩ => ⟨e, cons_le_cons ?_⟩)
  refine pad_append_le hday ((cons_le_iff.mp h).imp_right fun ⟨e, h⟩ => ⟨e, cons_le_cons ?_⟩)
  refine pad_append_le hhour ((cons_le_iff.mp h).imp_right fun ⟨e, h⟩ => ⟨e, cons_le_cons ?_⟩)
  refine pad_append_le hminute ((cons_le_iff.mp h).imp_right fun ⟨e, h⟩ => ⟨e, cons_le_cons ?_⟩)
  refine pad_append_le hsecond ((cons_le_iff.mp h).imp_right fun ⟨e, h⟩ => ⟨e, ?_⟩)
  refine fraction_le ?_ b.hmicrosecond
  rcases cons_le_iff.mp h with hlt | ⟨heq, -⟩
  · exact hlt.le
  · exact heq.le

end DateTime

end Broker.Lib
