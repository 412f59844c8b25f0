import Broker.Lib.Regex

/-!
# Broker.Lib.Matcher — regular expressions with groups

A matcher lists the ways to match at a position, in the order in which backtracking tries them, each with
what its groups hold.  What it takes and what it leaves is always the text it was given, so every group is
read off the text.  `search` is `re.search`: the first way at the first position that has one.
-/

namespace Broker.Lib

open Regex

/-! ### Bounded repetition -/

namespace Regex

/-- `p?`. -/
def opt (re : Regex) : Regex := .alt re .empty

/-- `p{n}`. -/
def times (p : Char → Bool) : ℕ → Regex
  | 0 => .empty
  | n + 1 => .seq (.set p) (times p n)

/-- `p{0,n}`. -/
def upTo (p : Char → Bool) : ℕ → Regex
  | 0 => .empty
  | n + 1 => .alt (.seq (.set p) (upTo p n)) .empty

/-- `p{1,2}`. -/
def oneOrTwo (p : Char → Bool) : Regex := .alt (.seq (.set p) (.set p)) (.set p)

variable {word : Char → Bool} {p : Char → Bool} {prev : Option Char} {cs : List Char} {r : List Char × List Char}

theorem within_times : ∀ n, Within (fun c => p c = true) (times p n)
  | 0 => trivial
  | n + 1 => ⟨fun _ h => h, within_times n⟩

theorem length_of_mem_times {n : ℕ} (h : r ∈ spans word (times p n) prev cs) : r.1.length = n := by
  induction n generalizing prev cs r with
  | zero =>
    obtain rfl : r = ([], cs) := by simpa [times, spans] using h
    rfl
  | succ n ih =>
    obtain ⟨s, hs, t, ht, rfl⟩ := mem_spans_seq.mp h
    obtain ⟨c, rest, -, -, rfl⟩ := mem_spans_set.mp hs
    have hlen := ih ht
    simp only [List.length_append, List.length_singleton]
    omega

theorem mem_spans_oneOrTwo (h : r ∈ spans word (oneOrTwo p) prev cs) :
    (∀ c ∈ r.1, p c = true) ∧ 1 ≤ r.1.length ∧ r.1.length ≤ 2 := by
  have hre : Within (fun c => p c = true) (oneOrTwo p) := ⟨⟨fun _ h => h, fun _ h => h⟩, fun _ h => h⟩
  have hleast : 1 ≤ r.1.length := least_le_of_mem_spans h
  refine ⟨all_of_mem_spans hre h, hleast, ?_⟩
  rcases List.mem_append.mp h with h | h
  · obtain ⟨s, hs, t, ht, rfl⟩ := mem_spans_seq.mp h
    obtain ⟨c, rest, -, -, rfl⟩ := mem_spans_set.mp hs
    obtain ⟨d, rest', -, -, rfl⟩ := mem_spans_set.mp ht
    exact Nat.le_refl _
  · obtain ⟨c, rest, -, -, rfl⟩ := mem_spans_set.mp h
    simp

end Regex

/-! ### Groups -/

/-- The ways to match at a position: a value, what is taken, what is left. -/
structure Matcher (α : Type) where
  run : Option Char → List Char → List (α × List Char × List Char)
  sound : ∀ prev cs, ∀ r ∈ run prev cs, r.2.1 ++ r.2.2 = cs

namespace Matcher

variable {α β : Type}

/-- One way, which takes nothing. -/
protected def pure (a : α) : Matcher α where
  run _ cs := [(a, [], cs)]
  sound prev cs r hr := by
    rw [List.mem_singleton.mp hr]
    rfl

/-- One after the other. -/
protected def bind (m : Matcher α) (f : α → Matcher β) : Matcher β where
  run prev cs :=
    (m.run prev cs).flatMap fun r =>
      ((f r.1).run (lastOr prev r.2.1) r.2.2).map fun t => (t.1, r.2.1 ++ t.2.1, t.2.2)
  sound prev cs q hq := by
    obtain ⟨r, hr, hq⟩ := List.mem_flatMap.mp hq
    obtain ⟨t, ht, rfl⟩ := List.mem_map.mp hq
    have hrest := (f r.1).sound _ _ t ht
    show (r.2.1 ++ t.2.1) ++ t.2.2 = cs
    rw [List.append_assoc, hrest, m.sound prev cs r hr]

instance : Monad Matcher where
  pure := Matcher.pure
  bind := Matcher.bind

/-- What a pattern takes. -/
def group (word : Char → Bool) (re : Regex) : Matcher (List Char) where
  run prev cs := (spans word re prev cs).map fun r => (r.1, r.1, r.2)
  sound prev cs q hq := by
    obtain ⟨r, hr, rfl⟩ := List.mem_map.mp hq
    exact append_of_mem_spans hr

/-- The second where the first fails, or what follows it. -/
def orElse (a b : Matcher α) : Matcher α where
  run prev cs := a.run prev cs ++ b.run prev cs
  sound prev cs r hr := by
    rcases List.mem_append.mp hr with hr | hr
    · exact a.sound prev cs r hr
    · exact b.sound prev cs r hr

/-- `(...)?`. -/
def optional (m : Matcher α) : Matcher (Option α) := orElse (some <$> m) (pure none)

/-- `re.search` from a position on. -/
def searchFrom (m : Matcher α) : Option Char → List Char → Option α
  | prev, [] => (m.run prev []).head?.map Prod.fst
  | prev, c :: cs =>
    match (m.run prev (c :: cs)).head? with
    | some r => some r.1
    | none => searchFrom m (some c) cs

/-- `re.search`. -/
def search (m : Matcher α) (cs : List Char) : Option α := m.searchFrom none cs

/-! ### What a match holds -/

variable {m : Matcher α} {f : α → Matcher β} {prev : Option Char} {cs s r : List Char} {a : α} {b : β}

theorem mem_pure {a' : α} : (a', s, r) ∈ (pure a : Matcher α).run prev cs ↔ a' = a ∧ s = [] ∧ r = cs := by
  show (a', s, r) ∈ [(a, [], cs)] ↔ _
  simp

theorem mem_bind : (b, s, r) ∈ (m >>= f).run prev cs ↔
    ∃ a u v rest, s = u ++ v ∧ (a, u, rest) ∈ m.run prev cs ∧
      (b, v, r) ∈ (f a).run (lastOr prev u) rest := by
  show (b, s, r) ∈ (m.bind f).run prev cs ↔ _
  simp only [Matcher.bind, List.mem_flatMap, List.mem_map]
  constructor
  · rintro ⟨⟨a, u, rest⟩, hm, ⟨b', v, r'⟩, hf, heq⟩
    obtain ⟨rfl, rfl, rfl⟩ : b' = b ∧ u ++ v = s ∧ r' = r := by simpa using heq
    exact ⟨a, u, v, rest, rfl, hm, hf⟩
  · rintro ⟨a, u, v, rest, rfl, hm, hf⟩
    exact ⟨(a, u, rest), hm, (b, v, r), hf, rfl⟩

theorem mem_group {word : Char → Bool} {re : Regex} {t : List Char} :
    (t, s, r) ∈ (group word re).run prev cs ↔ t = s ∧ (s, r) ∈ spans word re prev cs := by
  simp only [group, List.mem_map]
  constructor
  · rintro ⟨⟨u, v⟩, hu, heq⟩
    obtain ⟨rfl, rfl, rfl⟩ : u = t ∧ u = s ∧ v = r := by simpa using heq
    exact ⟨rfl, hu⟩
  · rintro ⟨rfl, h⟩
    exact ⟨(t, r), h, rfl⟩

theorem mem_orElse {m' : Matcher α} :
    (a, s, r) ∈ (orElse m m').run prev cs ↔ (a, s, r) ∈ m.run prev cs ∨ (a, s, r) ∈ m'.run prev cs :=
  List.mem_append

theorem mem_optional {x : Option α} :
    (x, s, r) ∈ (optional m).run prev cs ↔
      (∃ a, x = some a ∧ (a, s, r) ∈ m.run prev cs) ∨ x = none ∧ s = [] ∧ r = cs := by
  unfold optional
  rw [mem_orElse, mem_pure]
  refine or_congr ?_ Iff.rfl
  show (x, s, r) ∈ (m >>= fun a => pure (some a)).run prev cs ↔ _
  rw [mem_bind]
  constructor
  · rintro ⟨a, u, v, rest, rfl, hm, hpure⟩
    obtain ⟨rfl, rfl, rfl⟩ := mem_pure.mp hpure
    exact ⟨a, rfl, by simpa using hm⟩
  · rintro ⟨a, rfl, hm⟩
    exact ⟨a, s, [], r, by simp, hm, mem_pure.mpr ⟨rfl, rfl, rfl⟩⟩

/-- What is found stands somewhere in the text. -/
theorem searchFrom_spec {x : α} (h : m.searchFrom prev cs = some x) :
    ∃ pre s post, cs = pre ++ (s ++ post) ∧ (x, s, post) ∈ m.run (lastOr prev pre) (s ++ post) := by
  have found : ∀ {prev : Option Char} {cs : List Char} {q : α × List Char × List Char},
      (m.run prev cs).head? = some q →
      ∃ pre s post, cs = pre ++ (s ++ post) ∧ (q.1, s, post) ∈ m.run (lastOr prev pre) (s ++ post) := by
    intro prev cs q hq
    have hmem := List.mem_of_mem_head? hq
    have hsplit := m.sound prev cs q hmem
    refine ⟨[], q.2.1, q.2.2, hsplit.symm, ?_⟩
    rw [hsplit]
    exact hmem
  induction cs generalizing prev with
  | nil =>
    obtain ⟨q, hq, rfl⟩ := Option.map_eq_some_iff.mp h
    exact found hq
  | cons c cs ih =>
    unfold searchFrom at h
    split at h
    · rename_i q hq
      obtain rfl := Option.some.inj h
      exact found hq
    · obtain ⟨pre, s, post, rfl, hmem⟩ := ih h
      refine ⟨c :: pre, s, post, rfl, ?_⟩
      have hlast : lastOr (some c) pre = lastOr prev (c :: pre) := by
        unfold lastOr
        cases hp : pre.getLast? with
        | none =>
          rw [List.getLast?_eq_none_iff.mp hp]
          rfl
        | some d => simp [List.getLast?_cons, hp]
      rwa [← hlast]

theorem search_spec {x : α} (h : m.search cs = some x) :
    ∃ pre s post, cs = pre ++ (s ++ post) ∧ (x, s, post) ∈ m.run (lastOr none pre) (s ++ post) :=
  searchFrom_spec h

end Matcher

end Broker.Lib
