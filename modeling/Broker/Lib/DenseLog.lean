import Mathlib.Data.List.Nodup
import Mathlib.Data.List.Range
import Mathlib.Data.List.Sort
import Mathlib.Tactic.Common

/-!
# Broker.Lib.DenseLog — logs keyed by consecutive sequence numbers

`Dense key l n`: the keys of the log `l` are exactly `1, …, n`, in this order.  A writer that computed
its key from a count read earlier can only be admitted by the uniqueness of keys if nobody wrote in
the meantime (`Dense.eq_of_fresh`).

A reader of a growing log keeps the number of entries it has (`ReadUpTo`), and asks for the page after it
(`pageAfter`): it never misses an entry and gets none twice (`ReadUpTo.grow`, `ReadUpTo.page`).
-/

namespace Broker.Lib

variable {ε : Type*}

/-- The keys of `l` are `1, …, n` in order. -/
def Dense (key : ε → ℕ) (l : List ε) (n : ℕ) : Prop := l.map key = List.range' 1 n

namespace Dense

variable {key : ε → ℕ} {l : List ε} {n : ℕ}

theorem nil : Dense key [] 0 := rfl

theorem concat (h : Dense key l n) {e : ε} (he : key e = n + 1) : Dense key (l ++ [e]) (n + 1) := by
  unfold Dense at h ⊢
  rw [List.map_append, h, List.range'_concat]
  simp [he, Nat.add_comm]

theorem mem_keys (h : Dense key l n) (k : ℕ) : (∃ e ∈ l, key e = k) ↔ 1 ≤ k ∧ k ≤ n := by
  have hk : k ∈ l.map key ↔ k ∈ List.range' 1 n := by rw [h]
  rw [List.mem_map, List.mem_range'_1] at hk
  rw [hk]
  omega

theorem key_le (h : Dense key l n) {e : ε} (he : e ∈ l) : key e ≤ n :=
  ((h.mem_keys (key e)).mp ⟨e, he, rfl⟩).2

/-- A key of the form `m + 1`, for a count `m` read at an earlier time, is free only if the count is
still `m`. -/
theorem eq_of_fresh (h : Dense key l n) {m : ℕ} (hm : m ≤ n) (hf : ∀ e ∈ l, key e ≠ m + 1) : m = n := by
  by_contra hne
  obtain ⟨e, he, hk⟩ := (h.mem_keys (m + 1)).mpr (by omega)
  exact hf e he hk

theorem nodup_keys (h : Dense key l n) : (l.map key).Nodup := by
  rw [h]
  exact List.nodup_range'

/-- Two entries with the same key are the same entry. -/
theorem eq_of_key_eq (h : Dense key l n) {e e' : ε} (he : e ∈ l) (he' : e' ∈ l) (hk : key e = key e') :
    e = e' :=
  List.inj_on_of_nodup_map h.nodup_keys he he' hk

theorem length_eq (h : Dense key l n) : l.length = n := by
  have hl := congrArg List.length h
  rwa [List.length_map, List.length_range'] at hl

theorem key_getElem (h : Dense key l n) {i : ℕ} (hi : i < l.length) : key l[i] = i + 1 := by
  have hk : (l.map key)[i]? = (List.range' 1 n)[i]? := by rw [h]
  rw [List.getElem?_map, List.getElem?_eq_getElem hi, List.getElem?_range' (h.length_eq ▸ hi)] at hk
  have hsome := Option.some.inj hk
  omega

theorem pairwise (h : Dense key l n) : l.Pairwise fun a b => key a < key b := by
  rw [← List.pairwise_map (f := key) (R := (· < ·)), h]
  exact List.pairwise_lt_range'

/-- The entries above the key `k` are all but the first `k`. -/
theorem filter_lt (h : Dense key l n) (k : ℕ) : (l.filter fun e => decide (k < key e)) = l.drop k := by
  have hlow : ((l.take k).filter fun e => decide (k < key e)) = [] := by
    refine List.filter_eq_nil_iff.mpr fun e he => ?_
    obtain ⟨i, hi, rfl⟩ := List.mem_take_iff_getElem.mp he
    rw [h.key_getElem (by omega)]
    simp only [decide_eq_true_eq]
    omega
  have hhigh : ((l.drop k).filter fun e => decide (k < key e)) = l.drop k := by
    refine List.filter_eq_self.mpr fun e he => ?_
    obtain ⟨i, hi, rfl⟩ := List.mem_drop_iff_getElem.mp he
    rw [h.key_getElem (by omega)]
    simp only [decide_eq_true_eq]
    omega
  conv_lhs => rw [← List.take_append_drop k l, List.filter_append, hlow, hhigh, List.nil_append]

end Dense

/-! ### Reading a log page by page -/

/-- At most `limit` entries above the key `k`, by their keys. -/
def pageAfter (key : ε → ℕ) (l : List ε) (k limit : ℕ) : List ε :=
  ((l.filter fun e => decide (k < key e)).insertionSort fun a b => key a ≤ key b).take limit

/-- The key a reader goes on from: the last one of its page. -/
def lastKey (key : ε → ℕ) (k : ℕ) (page : List ε) : ℕ := page.getLast?.elim k key

namespace Dense

variable {key : ε → ℕ} {l : List ε} {n : ℕ}

theorem pageAfter_eq (h : Dense key l n) (k limit : ℕ) : pageAfter key l k limit = (l.drop k).take limit := by
  have hsorted : (l.drop k).Pairwise fun a b => key a ≤ key b :=
    (h.pairwise.sublist (List.drop_sublist k l)).imp le_of_lt
  rw [pageAfter, h.filter_lt, hsorted.insertionSort_eq]

theorem length_pageAfter (h : Dense key l n) (k limit : ℕ) :
    (pageAfter key l k limit).length = min limit (n - k) := by
  rw [h.pageAfter_eq, List.length_take, List.length_drop, h.length_eq]

theorem lastKey_pageAfter (h : Dense key l n) {k : ℕ} (hk : k ≤ n) (limit : ℕ) :
    lastKey key k (pageAfter key l k limit) = min (k + limit) n := by
  have hlen := h.length_pageAfter k limit
  by_cases hpos : min limit (n - k) = 0
  · have hnil : pageAfter key l k limit = [] := List.length_eq_zero_iff.mp (hlen.trans hpos)
    rw [hnil]
    show k = _
    omega
  · have hlast : (pageAfter key l k limit).getLast? = l[k + (min limit (n - k) - 1)]? := by
      rw [List.getLast?_eq_getElem?, hlen, h.pageAfter_eq, List.getElem?_take_of_lt (by omega),
        List.getElem?_drop]
    have hi : k + (min limit (n - k) - 1) < l.length := by rw [h.length_eq]; omega
    rw [lastKey, hlast, List.getElem?_eq_getElem hi]
    show key _ = _
    rw [h.key_getElem hi]
    omega

end Dense

/-- A reader that has the first `k` entries of the log, as `f` shows them. -/
structure ReadUpTo {β : Type*} (f : ε → β) (l : List ε) (seen : List β) (k : ℕ) : Prop where
  le : k ≤ l.length
  seen_eq : seen = (l.take k).map f

namespace ReadUpTo

variable {β : Type*} {f : ε → β} {l l' : List ε} {seen : List β} {k : ℕ}

theorem nil (f : ε → β) (l : List ε) : ReadUpTo f l [] 0 := ⟨Nat.zero_le _, by simp⟩

/-- The log may grow meanwhile. -/
theorem grow (h : ReadUpTo f l seen k) (hl : l <+: l') : ReadUpTo f l' seen k := by
  obtain ⟨t, rfl⟩ := hl
  refine ⟨?_, ?_⟩
  · rw [List.length_append]
    exact le_trans h.le (Nat.le_add_right _ _)
  · rw [List.take_append_of_le_length h.le]
    exact h.seen_eq

/-- The page after what it has continues it. -/
theorem page {key : ε → ℕ} {n : ℕ} (h : ReadUpTo f l seen k) (hd : Dense key l n) (limit : ℕ) :
    ReadUpTo f l (seen ++ (pageAfter key l k limit).map f) (lastKey key k (pageAfter key l k limit)) := by
  have hkn : k ≤ n := hd.length_eq ▸ h.le
  rw [hd.lastKey_pageAfter hkn]
  refine ⟨?_, ?_⟩
  · rw [hd.length_eq]
    exact min_le_right _ _
  · rw [h.seen_eq, hd.pageAfter_eq, ← List.map_append, ← List.take_add]
    by_cases hle : k + limit ≤ n
    · rw [min_eq_left hle]
    · rw [min_eq_right (by omega), List.take_of_length_le (by rw [hd.length_eq]; omega),
        List.take_of_length_le hd.length_eq.le]

/-- Who has as many entries as there are has them all. -/
theorem all (h : ReadUpTo f l seen k) (hk : k = l.length) : seen = l.map f := by
  rw [h.seen_eq, hk, List.take_length]

end ReadUpTo

end Broker.Lib
