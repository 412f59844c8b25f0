import Broker.Agent.Masking
import Broker.Lib.Matcher

/-!
# Broker.Agent.ResetMessage — the three ways a quota message states its reset

The patterns of `parse_reset_at` and `_parse_resets_clock`, with their groups: an epoch behind a bar, a
number of minutes or hours, and `resets [month day | weekday] h[:mm] am/pm [(zone)]`.  What the last one
finds is written in the message field after field (`resets_spells`).
-/

namespace Broker.Agent

open Broker.Lib Regex Matcher

/-! ### Characters -/

/-- `[A-Za-z]` where case is ignored: four letters outside ASCII have a case of one inside. -/
def isLetter (c : Char) : Bool :=
  c.isAlpha || c.toNat == 0x130 || c.toNat == 0x131 || c.toNat == 0x17F || c.toNat == 0x212A

/-- `\d`. -/
def isDigit (c : Char) : Bool := (PyConv.decimalValue c).isSome

/-- `int(m)` of digits. -/
def digitsValue (cs : List Char) : ℕ := cs.foldl (fun n c => 10 * n + (PyConv.decimalValue c).getD 0) 0

/-! ### `_RESETS` -/

/-- The date of a reset. -/
inductive ResetDate where
  | monthDay (mon day : List Char)
  | weekday (wd : List Char)
  | any

/-- The groups of `_RESETS`. -/
structure ResetMatch where
  date : ResetDate
  hour : List Char
  min : Option (List Char)
  ap : List Char
  tz : Option (List Char)

section Patterns

variable (word : Char → Bool)

/-- `\s+`. -/
def blanks : Regex := .rep PyConv.isStripped 1

/-- `(?P<mon>[A-Za-z]{3})[a-z]*\.?\s+(?P<day>\d{1,2}),?\s+`. -/
def monthDayDate : Matcher ResetDate := do
  let mon ← group word (times isLetter 3)
  let _ ← group word (.seq (.rep isLetter 0) (.seq (opt (char '.')) blanks))
  let day ← group word (oneOrTwo isDigit)
  let _ ← group word (.seq (opt (char ',')) blanks)
  return .monthDay mon day

/-- `(?P<wd>[A-Za-z]{3})[a-z]*,?\s+`. -/
def weekdayDate : Matcher ResetDate := do
  let wd ← group word (times isLetter 3)
  let _ ← group word (.seq (.rep isLetter 0) (.seq (opt (char ',')) blanks))
  return .weekday wd

/-- `:(?P<min>\d{2})`. -/
def minutes : Matcher (List Char) := do
  let _ ← group word (char ':')
  group word (times isDigit 2)

/-- `\((?P<tz>[^)]{0,300})\)`. -/
def zoneName : Matcher (List Char) := do
  let _ ← group word (char '(')
  let tz ← group word (upTo (fun c => c != ')') 300)
  let _ ← group word (char ')')
  return tz

/-- `_RESETS`. -/
def resets : Matcher ResetMatch := do
  let _ ← group word (.seq (lit letterForms "reset".toList) (.seq (opt (lit letterForms ['s'])) blanks))
  let date ← optional (orElse (monthDayDate word) (weekdayDate word))
  let hour ← group word (oneOrTwo isDigit)
  let min ← optional (minutes word)
  let _ ← group word spaces
  let ap ← group word (.seq (.alt (lit letterForms ['a']) (lit letterForms ['p'])) (lit letterForms ['m']))
  let _ ← group word spaces
  let tz ← optional (zoneName word)
  return ⟨date.getD .any, hour, min, ap, tz⟩

/-! ### The other two -/

/-- `\|\s*(\d{10})\b`. -/
def epoch : Matcher (List Char) := do
  let _ ← group word (.seq (char '|') spaces)
  let digits ← group word (times isDigit 10)
  let _ ← group word .bound
  return digits

/-- `in (\d+)\s*(minute|hour|min|hr)s?`. -/
def relative : Matcher (List Char × List Char) := do
  let _ ← group word (lit letterForms "in ".toList)
  let count ← group word (.rep isDigit 1)
  let _ ← group word spaces
  let unit ← group word (.alt (lit letterForms "minute".toList) (.alt (lit letterForms "hour".toList)
    (.alt (lit letterForms "min".toList) (lit letterForms "hr".toList))))
  let _ ← group word (opt (lit letterForms ['s']))
  return (count, unit)

end Patterns

/-! ### What is found is written -/

/-- One or two digits. -/
def IsNumber (cs : List Char) : Prop := (∀ c ∈ cs, isDigit c = true) ∧ 1 ≤ cs.length ∧ cs.length ≤ 2

/-- What may stand between the fields of a date. -/
def IsFiller (c : Char) : Prop := isLetter c = true ∨ c = '.' ∨ c = ',' ∨ PyConv.isStripped c = true

/-- The text of a date: nothing, a word for the weekday, or one for the month and the day. -/
def ResetDate.Spells (s : List Char) : ResetDate → Prop
  | .any => s = []
  | .weekday wd => wd.length = 3 ∧ ∃ rest, s = wd ++ rest ∧ ∀ c ∈ rest, IsFiller c
  | .monthDay mon day => mon.length = 3 ∧ IsNumber day ∧
      ∃ gap rest, s = mon ++ (gap ++ (day ++ rest)) ∧ ∀ c ∈ gap ++ rest, IsFiller c

/-- The text of a match: the keyword, the date, the hour, the minutes, `am` or `pm` and the zone, with blanks
between. -/
def ResetMatch.Spells (m : ResetMatch) (s : List Char) : Prop :=
  IsNumber m.hour ∧ ∃ keyword date min gap gap' zone,
    s = keyword ++ (date ++ (m.hour ++ (min ++ (gap ++ (m.ap ++ (gap' ++ zone)))))) ∧
    (∀ c ∈ gap ++ gap', PyConv.isStripped c = true) ∧
    m.date.Spells date ∧ (min = match m.min with | none => [] | some mm => ':' :: mm) ∧
    (m.min.elim True fun mm => mm.length = 2 ∧ ∀ c ∈ mm, isDigit c = true) ∧
    zone = match m.tz with | none => [] | some tz => '(' :: (tz ++ [')'])

section Spelling

variable {word : Char → Bool} {prev : Option Char} {cs s r : List Char}

theorem char_of_mem {c : Char} (h : (s, r) ∈ spans word (char c) prev cs) : s = [c] := by
  obtain ⟨d, t, -, hd, heq⟩ := mem_spans_set.mp h
  obtain ⟨rfl, -⟩ := Prod.mk.inj heq
  rw [beq_iff_eq.mp hd]

theorem filler_of_mem {sep : Char} (hsep : sep = '.' ∨ sep = ',')
    (h : (s, r) ∈ spans word (.seq (.rep isLetter 0) (.seq (opt (char sep)) blanks)) prev cs) :
    ∀ c ∈ s, IsFiller c := by
  have hre : Within IsFiller (.seq (.rep isLetter 0) (.seq (opt (char sep)) blanks)) := by
    refine ⟨fun c hc => .inl hc, ⟨fun c hc => ?_, trivial⟩, fun c hc => .inr (.inr (.inr hc))⟩
    obtain rfl := beq_iff_eq.mp hc
    exact .inr (hsep.imp id .inl)
  exact all_of_mem_spans hre h

theorem spells_of_monthDay {d : ResetDate} (h : (d, s, r) ∈ (monthDayDate word).run prev cs) : d.Spells s := by
  obtain ⟨mon, u₁, v₁, r₁, rfl, h₁, h⟩ := mem_bind.mp h
  obtain ⟨rfl, hmon⟩ := mem_group.mp h₁
  obtain ⟨gap, u₂, v₂, r₂, rfl, h₂, h⟩ := mem_bind.mp h
  obtain ⟨day, u₃, v₃, r₃, rfl, h₃, h⟩ := mem_bind.mp h
  obtain ⟨rfl, hday⟩ := mem_group.mp h₃
  obtain ⟨rest, u₄, v₄, r₄, rfl, h₄, h⟩ := mem_bind.mp h
  obtain ⟨rfl, rfl, -⟩ := mem_pure.mp h
  have hgap : ∀ c ∈ u₂, IsFiller c := filler_of_mem (.inl rfl) (mem_group.mp h₂).2
  have hre : Within IsFiller (.seq (opt (char ',')) blanks) := by
    refine ⟨⟨fun c hc => ?_, trivial⟩, fun c hc => .inr (.inr (.inr hc))⟩
    exact .inr (.inr (.inl (beq_iff_eq.mp hc)))
  have hrest : ∀ c ∈ u₄, IsFiller c := all_of_mem_spans hre (mem_group.mp h₄).2
  refine ⟨length_of_mem_times hmon, mem_spans_oneOrTwo hday, u₂, u₄, by rw [List.append_nil], fun c hc => ?_⟩
  rcases List.mem_append.mp hc with hc | hc
  · exact hgap c hc
  · exact hrest c hc

theorem spells_of_weekday {d : ResetDate} (h : (d, s, r) ∈ (weekdayDate word).run prev cs) : d.Spells s := by
  obtain ⟨wd, u₁, v₁, r₁, rfl, h₁, h⟩ := mem_bind.mp h
  obtain ⟨rfl, hwd⟩ := mem_group.mp h₁
  obtain ⟨rest, u₂, v₂, r₂, rfl, h₂, h⟩ := mem_bind.mp h
  obtain ⟨rfl, rfl, -⟩ := mem_pure.mp h
  exact ⟨length_of_mem_times hwd, u₂, by rw [List.append_nil], filler_of_mem (.inr rfl) (mem_group.mp h₂).2⟩

theorem spells_of_minutes {mm : List Char} (h : (mm, s, r) ∈ (minutes word).run prev cs) :
    s = ':' :: mm ∧ mm.length = 2 ∧ ∀ c ∈ mm, isDigit c = true := by
  obtain ⟨colon, u₁, v₁, r₁, rfl, h₁, h⟩ := mem_bind.mp h
  obtain ⟨rfl, hcolon⟩ := mem_group.mp h₁
  obtain ⟨rfl, hmm⟩ := mem_group.mp h
  rw [char_of_mem hcolon]
  exact ⟨rfl, length_of_mem_times hmm, all_of_mem_spans (within_times 2) hmm⟩

theorem spells_of_zoneName {tz : List Char} (h : (tz, s, r) ∈ (zoneName word).run prev cs) :
    s = '(' :: (tz ++ [')']) := by
  obtain ⟨left, u₁, v₁, r₁, rfl, h₁, h⟩ := mem_bind.mp h
  obtain ⟨rfl, hleft⟩ := mem_group.mp h₁
  obtain ⟨name, u₂, v₂, r₂, rfl, h₂, h⟩ := mem_bind.mp h
  obtain ⟨rfl, -⟩ := mem_group.mp h₂
  obtain ⟨right, u₃, v₃, r₃, rfl, h₃, h⟩ := mem_bind.mp h
  obtain ⟨rfl, hright⟩ := mem_group.mp h₃
  obtain ⟨rfl, rfl, -⟩ := mem_pure.mp h
  rw [char_of_mem hleft, char_of_mem hright]
  rfl

/-- **What `_RESETS` finds is written in the message.** -/
theorem resets_spells {m : ResetMatch} {text : List Char} (h : (resets word).search text = some m) :
    ∃ pre s post, text = pre ++ (s ++ post) ∧ m.Spells s := by
  obtain ⟨pre, s, post, htext, h⟩ := search_spec h
  refine ⟨pre, s, post, htext, ?_⟩
  clear htext
  obtain ⟨keyword, u₁, v₁, r₁, rfl, -, h⟩ := mem_bind.mp h
  obtain ⟨date, u₂, v₂, r₂, rfl, hdate, h⟩ := mem_bind.mp h
  obtain ⟨hour, u₃, v₃, r₃, rfl, h₃, h⟩ := mem_bind.mp h
  obtain ⟨rfl, hhour⟩ := mem_group.mp h₃
  obtain ⟨min, u₄, v₄, r₄, rfl, hmin, h⟩ := mem_bind.mp h
  obtain ⟨gap, u₅, v₅, r₅, rfl, h₅, h⟩ := mem_bind.mp h
  obtain ⟨ap, u₆, v₆, r₆, rfl, h₆, h⟩ := mem_bind.mp h
  obtain ⟨rfl, -⟩ := mem_group.mp h₆
  obtain ⟨gap', u₇, v₇, r₇, rfl, h₇, h⟩ := mem_bind.mp h
  obtain ⟨tz, u₈, v₈, r₈, rfl, htz, h⟩ := mem_bind.mp h
  obtain ⟨rfl, rfl, -⟩ := mem_pure.mp h
  refine ⟨mem_spans_oneOrTwo hhour, u₁, u₂, u₄, u₅, u₇, u₈, by rw [List.append_nil], ?_, ?_, ?_, ?_, ?_⟩
  · have hre : Within (fun c => PyConv.isStripped c = true) spaces := fun _ h => h
    intro c hc
    rcases List.mem_append.mp hc with hc | hc
    · exact all_of_mem_spans hre (mem_group.mp h₅).2 c hc
    · exact all_of_mem_spans hre (mem_group.mp h₇).2 c hc
  · rcases mem_optional.mp hdate with ⟨d, rfl, hd⟩ | ⟨rfl, rfl, -⟩
    · rcases mem_orElse.mp hd with hd | hd
      · exact spells_of_monthDay hd
      · exact spells_of_weekday hd
    · rfl
  · rcases mem_optional.mp hmin with ⟨mm, rfl, hmm⟩ | ⟨rfl, rfl, -⟩
    · exact (spells_of_minutes hmm).1
    · rfl
  · rcases mem_optional.mp hmin with ⟨mm, rfl, hmm⟩ | ⟨rfl, -, -⟩
    · exact (spells_of_minutes hmm).2
    · trivial
  · rcases mem_optional.mp htz with ⟨z, rfl, hz⟩ | ⟨rfl, rfl, -⟩
    · exact spells_of_zoneName hz
    · rfl

end Spelling

end Broker.Agent
