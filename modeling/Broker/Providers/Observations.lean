import Broker.Db.Models
import Broker.Lib.OrderedDict
import Broker.Lib.Runs
import Broker.Lib.Table
import Broker.Providers.ContextLimits

/-!
# Broker.Providers.Observations — the learned ceilings

`record_too_large` upserts the row of a provider: it replaces a decayed ceiling, lowers a live one, and
refreshes its age either way.  The row is the minimum of the last run of rejections none of which let the one
before it decay.  A call reads the clock twice, for the age it stores and for the cutoff it compares with.
-/

namespace Broker.Providers

open Broker.Lib Broker.Db

/-- A row of `provider_observations`. -/
structure Observation where
  provider : String
  learnedMaxRequestTokens : Option ℤ
  learnedAt : Option Time
  sampleCount : ℕ

/-- A call of `record_too_large`: the two times its clock reads, and whether its statement raised. -/
structure TooLarge where
  provider : String
  estTokens : ℤ
  now : Time
  cutoffNow : Time
  raised : Bool := false

/-- `CEILING_TTL_DAYS`. -/
def ceilingTtl : Time := seconds (14 * 24 * 60 * 60)

/-- `_ttl_cutoff`. -/
def ttlCutoff (now : Time) : Time := now - ceilingTtl

/-- The `VALUES` of the upsert. -/
def TooLarge.row (c : TooLarge) : Observation where
  provider := c.provider
  learnedMaxRequestTokens := some c.estTokens
  learnedAt := some c.now
  sampleCount := 1

/-- Its `DO UPDATE SET`. -/
def relearn (c : TooLarge) (o : Observation) : Observation :=
  let replaces := o.learnedMaxRequestTokens.isNone || o.learnedAt.isNone
    || o.learnedAt.any (fun t => decide (t < ttlCutoff c.cutoffNow))
    || o.learnedMaxRequestTokens.any fun n => decide (c.estTokens < n)
  { o with
    learnedMaxRequestTokens := if replaces then some c.estTokens else o.learnedMaxRequestTokens
    learnedAt := some c.now
    sampleCount := o.sampleCount + 1 }

/-- `record_too_large`: an error of the statement is logged and swallowed. -/
def recordTooLarge (rows : List Observation) (c : TooLarge) : List Observation :=
  if c.estTokens < minLearnableCeiling ∨ c.raised then rows
  else if rows.any fun o => o.provider = c.provider then
    updateWhere (fun o => o.provider = c.provider) (relearn c) rows
  else rows ++ [c.row]

/-- The table after a sequence of calls. -/
def recordAll (calls : List TooLarge) : List Observation := calls.foldl recordTooLarge []

/-- The ceiling of a row, while it is fresh. -/
def Observation.fresh (now : Time) (o : Observation) : Option ℤ :=
  if o.learnedAt.any fun t => decide (ttlCutoff now ≤ t) then o.learnedMaxRequestTokens else none

/-- `learned_ceilings`. -/
def learnedCeilings (now : Time) (rows : List Observation) : List (String × ℤ) :=
  rows.filterMap fun o => (o.fresh now).map fun n => (o.provider, n)

/-! ### The rejections a provider learns from -/

/-- The recorded rejections of a provider. -/
def rejections (p : String) (calls : List TooLarge) : List TooLarge :=
  calls.filter fun c => decide (c.provider = p) && decide (minLearnableCeiling ≤ c.estTokens) && !c.raised

/-- The second rejection came before the first had decayed. -/
def within (a b : TooLarge) : Bool := decide (b.cutoffNow - a.now ≤ ceilingTtl)

theorem within_iff {a b : TooLarge} : within a b = true ↔ ttlCutoff b.cutoffNow ≤ a.now := by
  unfold within ttlCutoff
  rw [decide_eq_true_eq]
  exact sub_le_comm

/-- The smallest rejected size. -/
def leastTokens (cs : List TooLarge) : Option ℤ := (cs.map (·.estTokens)).min?

theorem leastTokens_eq_some {cs : List TooLarge} {n : ℤ} :
    leastTokens cs = some n ↔ (∃ c ∈ cs, c.estTokens = n) ∧ ∀ c ∈ cs, n ≤ c.estTokens := by
  unfold leastTokens
  rw [List.min?_eq_some_iff]
  simp

/-! ### The row of a provider -/

def rowOf (p : String) (rows : List Observation) : Option Observation := rows.find? fun o => o.provider = p

@[simp] theorem relearn_provider (c : TooLarge) (o : Observation) : (relearn c o).provider = o.provider := rfl

theorem rowOf_update (p : String) (c : TooLarge) (rows : List Observation) :
    rowOf p (updateWhere (fun o => decide (o.provider = c.provider)) (relearn c) rows) =
      (rowOf p rows).map fun o => if o.provider = c.provider then relearn c o else o := by
  unfold rowOf updateWhere
  rw [List.find?_map]
  simp only [decide_eq_true_eq]
  congr 1
  refine congrArg (fun q => List.find? q rows) (funext fun o => ?_)
  simp only [Function.comp_apply]
  split_ifs <;> rfl

theorem provider_of_rowOf {p : String} {rows : List Observation} {o : Observation}
    (h : rowOf p rows = some o) :
    o ∈ rows ∧ o.provider = p :=
  ⟨List.mem_of_find?_eq_some h, by simpa using List.find?_some h⟩

/-- A recorded rejection writes the row of its provider, or adds it. -/
theorem rowOf_recorded {c : TooLarge} (h : ¬ (c.estTokens < minLearnableCeiling ∨ c.raised = true))
    (rows : List Observation) :
    rowOf c.provider (recordTooLarge rows c) = some (((rowOf c.provider rows).map (relearn c)).getD c.row) := by
  unfold recordTooLarge
  rw [if_neg h]
  cases hrow : rowOf c.provider rows with
  | none =>
    have hnone : ¬ rows.any (fun o => decide (o.provider = c.provider)) = true := by
      rw [List.any_eq_true]
      rintro ⟨o, ho, heq⟩
      exact absurd heq (List.find?_eq_none.mp hrow o ho)
    rw [if_neg hnone]
    unfold rowOf at hrow ⊢
    rw [List.find?_append, hrow]
    simp [TooLarge.row]
  | some o =>
    obtain ⟨hmem, hop⟩ := provider_of_rowOf hrow
    have hany : rows.any (fun o => decide (o.provider = c.provider)) = true :=
      List.any_eq_true.mpr ⟨o, hmem, by simpa using hop⟩
    rw [if_pos hany, rowOf_update, hrow, Option.map_some, if_pos hop]
    rfl

/-- A call writes no other provider's row. -/
theorem rowOf_other {p : String} {c : TooLarge} (h : c.provider ≠ p) (rows : List Observation) :
    rowOf p (recordTooLarge rows c) = rowOf p rows := by
  unfold recordTooLarge
  split_ifs
  · rfl
  · rw [rowOf_update]
    cases hrow : rowOf p rows with
    | none => rfl
    | some o =>
      have hop := (provider_of_rowOf hrow).2
      rw [Option.map_some, if_neg (by rw [hop]; exact h.symm)]
  · unfold rowOf
    rw [List.find?_append]
    simp [TooLarge.row, h]

/-- The provider is the key of the table. -/
theorem nodup_recordAll (calls : List TooLarge) : ((recordAll calls).map (·.provider)).Nodup := by
  induction calls using List.reverseRecOn with
  | nil => simp [recordAll]
  | append_singleton calls c ih =>
    rw [recordAll, List.foldl_append]
    show ((recordTooLarge (recordAll calls) c).map (·.provider)).Nodup
    unfold recordTooLarge
    split_ifs with hskip hany
    · exact ih
    · rw [map_updateWhere (relearn_provider c)]
      exact ih
    · rw [List.map_append, List.nodup_append]
      refine ⟨ih, by simp, ?_⟩
      intro p hp p' hp' heq
      obtain ⟨o, ho, rfl⟩ := List.mem_map.mp hp
      obtain rfl : p' = c.provider := by simpa [TooLarge.row] using hp'
      exact hany (List.any_eq_true.mpr ⟨o, ho, by simpa using heq⟩)

/-- What a read returns for a provider is the fresh ceiling of its row. -/
theorem get_learnedCeilings {rows : List Observation} (h : (rows.map (·.provider)).Nodup) (now : Time)
    (p : String) :
    OrderedDict.get (learnedCeilings now rows) p = (rowOf p rows).bind (Observation.fresh now) := by
  induction rows with
  | nil => rfl
  | cons o rows ih =>
    rw [List.map_cons, List.nodup_cons] at h
    have hcons : learnedCeilings now (o :: rows) =
        (((o.fresh now).map fun n => (o.provider, n)).toList) ++ learnedCeilings now rows := by
      unfold learnedCeilings
      cases hf : o.fresh now <;> simp [hf]
    have hget : ∀ l l' : List (String × ℤ), OrderedDict.get (l ++ l') p =
        (OrderedDict.get l p).or (OrderedDict.get l' p) := by
      intro l l'
      unfold OrderedDict.get
      rw [List.find?_append]
      cases List.find? (fun e => decide (e.1 = p)) l <;> rfl
    rw [hcons, hget, ih h.2]
    by_cases hp : o.provider = p
    · -- no later row is the provider's
      have hrest : rowOf p rows = none := by
        refine List.find?_eq_none.mpr fun o' ho' heq => h.1 ?_
        have hop : o'.provider = p := by simpa using heq
        rw [hp, ← hop]
        exact List.mem_map_of_mem ho'
      have hrow : rowOf p (o :: rows) = some o := by simp [rowOf, hp]
      rw [hrest, hrow]
      cases hf : o.fresh now <;> simp [OrderedDict.get, hp, hf]
    · have hrow : rowOf p (o :: rows) = rowOf p rows := by simp [rowOf, hp]
      rw [hrow]
      cases hf : o.fresh now <;> simp [OrderedDict.get, hp]

/-! ### The row is the last run -/

/-- The row after the recorded rejections `rej`: the least size of their last run, with the age of the last
one. -/
def Learned (rej : List TooLarge) : Option Observation → Prop
  | none => rej = []
  | some o => ∃ last, rej.getLast? = some last ∧ o.learnedAt = some last.now ∧
      o.learnedMaxRequestTokens = leastTokens (lastRun within rej)

theorem leastTokens_concat {cs : List TooLarge} {n : ℤ} (h : leastTokens cs = some n) (c : TooLarge) :
    leastTokens (cs ++ [c]) = some (min n c.estTokens) := by
  obtain ⟨⟨c₀, hc₀, rfl⟩, hle⟩ := leastTokens_eq_some.mp h
  refine leastTokens_eq_some.mpr ⟨?_, fun d hd => ?_⟩
  · rcases min_choice c₀.estTokens c.estTokens with hm | hm
    · exact ⟨c₀, List.mem_append_left _ hc₀, hm.symm⟩
    · exact ⟨c, List.mem_append_right _ (List.mem_singleton_self _), hm.symm⟩
  · rcases List.mem_append.mp hd with hd | hd
    · exact (min_le_left _ _).trans (hle d hd)
    · rw [List.mem_singleton.mp hd]
      exact min_le_right _ _

theorem exists_leastTokens {cs : List TooLarge} (h : cs ≠ []) : ∃ n, leastTokens cs = some n := by
  cases hl : leastTokens cs with
  | some n => exact ⟨n, rfl⟩
  | none => exact absurd (List.map_eq_nil_iff.mp (List.min?_eq_none_iff.mp hl)) h

/-- **One rejection**: it begins a run or joins the last one, and the row follows. -/
theorem Learned.relearn {rej : List TooLarge} {row : Option Observation} (h : Learned rej row)
    (c : TooLarge) :
    Learned (rej ++ [c]) (some ((row.map (Providers.relearn c)).getD c.row)) := by
  have hlast : (rej ++ [c]).getLast? = some c := List.getLast?_concat
  cases row with
  | none =>
    obtain rfl : rej = [] := h
    refine ⟨c, hlast, rfl, ?_⟩
    rw [lastRun_concat_of_not (by simp)]
    rfl
  | some o =>
    obtain ⟨last, hrej, hat, hleast⟩ := h
    have hne : rej ≠ [] := by
      rintro rfl
      cases hrej
    obtain ⟨n, hn⟩ := exists_leastTokens (lastRun_ne_nil (r := within) hne)
    rw [hn] at hleast
    refine ⟨c, hlast, rfl, ?_⟩
    show (Providers.relearn c o).learnedMaxRequestTokens = _
    unfold Providers.relearn
    simp only [hat, hleast, Option.isNone_some, Option.any_some, Bool.false_or]
    by_cases hw : within last c = true
    · -- the row is fresh: the smaller size wins
      have hfresh : ¬ last.now < ttlCutoff c.cutoffNow := not_lt.mpr (within_iff.mp hw)
      rw [lastRun_concat_of hrej hw, leastTokens_concat hn, decide_eq_false hfresh, Bool.false_or]
      by_cases hlt : c.estTokens < n
      · rw [if_pos (decide_eq_true hlt), min_eq_right hlt.le]
      · rw [if_neg (by simpa using hlt), min_eq_left (not_lt.mp hlt)]
    · -- it has decayed
      have hdecayed : last.now < ttlCutoff c.cutoffNow := not_le.mp fun hle => hw (within_iff.mpr hle)
      have hbegins : ∀ y ∈ rej.getLast?, within y c = false := by
        intro y hy
        obtain rfl : last = y := Option.some.inj (hrej.symm.trans hy)
        exact Bool.eq_false_iff.mpr hw
      rw [lastRun_concat_of_not hbegins, decide_eq_true hdecayed, Bool.true_or, if_pos rfl]
      rfl

/-- By induction on the calls. -/
theorem learned_recordAll (p : String) (calls : List TooLarge) :
    Learned (rejections p calls) (rowOf p (recordAll calls)) := by
  induction calls using List.reverseRecOn with
  | nil => rfl
  | append_singleton calls c ih =>
    have hrow : rowOf p (recordAll (calls ++ [c])) = rowOf p (recordTooLarge (recordAll calls) c) := by
      rw [recordAll, List.foldl_append]
      rfl
    have hsplit : rejections p (calls ++ [c]) = rejections p calls ++ rejections p [c] :=
      List.filter_append ..
    rw [hrow, hsplit]
    by_cases hskip : c.estTokens < minLearnableCeiling ∨ c.raised = true ∨ c.provider ≠ p
    · have hnone : rejections p [c] = [] := by
        refine List.filter_eq_nil_iff.mpr fun d hd => ?_
        rw [List.mem_singleton.mp hd]
        simp only [Bool.and_eq_true, decide_eq_true_eq, Bool.not_eq_true']
        rintro ⟨⟨hp, hle⟩, hraised⟩
        rcases hskip with hlt | hr | hne
        · omega
        · rw [hraised] at hr
          cases hr
        · exact hne hp
      have hsame : rowOf p (recordTooLarge (recordAll calls) c) = rowOf p (recordAll calls) := by
        by_cases hp : c.provider = p
        · have hcut : c.estTokens < minLearnableCeiling ∨ c.raised = true := by tauto
          rw [recordTooLarge, if_pos hcut]
        · exact rowOf_other hp _
      rw [hsame, hnone, List.append_nil]
      exact ih
    · push Not at hskip
      obtain ⟨hle, hraised, rfl⟩ := hskip
      have hone : rejections c.provider [c] = [c] := by
        refine List.filter_eq_self.mpr fun d hd => ?_
        rw [List.mem_singleton.mp hd]
        simp [hle, hraised]
      rw [rowOf_recorded (by rintro (hlt | hr); exacts [absurd hlt (by omega), hraised hr]), hone]
      exact ih.relearn c

/-- What `learned_ceilings` returns for a provider. -/
def ceilingOf (now : Time) (rows : List Observation) (p : String) : Option ℤ :=
  OrderedDict.get (learnedCeilings now rows) p

/-- **A learned ceiling is the tightest live evidence.**  After any calls, a read returns for a provider the
least size of the last maximal run of its recorded rejections, when the last of them is at most the lifetime
old, and nothing otherwise; and a rejection below the floor changes no row. -/
theorem learned_ceiling_last_run (calls : List TooLarge) (p : String) (now : Time) :
    (ceilingOf now (recordAll calls) p =
      match (rejections p calls).getLast? with
      | none => none
      | some last =>
        if now - last.now ≤ ceilingTtl then leastTokens (lastRun within (rejections p calls)) else none) ∧
    ∀ c, c.estTokens < minLearnableCeiling → recordAll (calls ++ [c]) = recordAll calls := by
  refine ⟨?_, fun c hc => ?_⟩
  · rw [ceilingOf, get_learnedCeilings (nodup_recordAll calls)]
    have hl := learned_recordAll p calls
    cases hrow : rowOf p (recordAll calls) with
    | none =>
      rw [hrow] at hl
      rw [show rejections p calls = [] from hl]
      rfl
    | some o =>
      rw [hrow] at hl
      obtain ⟨last, hlast, hat, hleast⟩ := hl
      have hage : ttlCutoff now ≤ last.now ↔ now - last.now ≤ ceilingTtl := sub_le_comm
      rw [hlast, Option.bind_some, Observation.fresh, hat, hleast, Option.any_some]
      simp only [decide_eq_true_eq, hage]
  · rw [recordAll, List.foldl_append]
    show recordTooLarge (recordAll calls) c = recordAll calls
    exact if_pos (.inl hc)

/-- A ceiling is one of the recorded sizes, so it is not below the floor. -/
theorem floor_le_ceilingOf {calls : List TooLarge} {p : String} {now : Time} {n : ℤ}
    (h : ceilingOf now (recordAll calls) p = some n) : minLearnableCeiling ≤ n := by
  rw [ceilingOf, get_learnedCeilings (nodup_recordAll calls)] at h
  have hl := learned_recordAll p calls
  obtain ⟨o, hrow, hfresh⟩ := Option.bind_eq_some_iff.mp h
  rw [hrow] at hl
  obtain ⟨last, -, -, hleast⟩ := hl
  unfold Observation.fresh at hfresh
  split_ifs at hfresh
  rw [hleast] at hfresh
  obtain ⟨⟨c, hc, rfl⟩, -⟩ := leastTokens_eq_some.mp hfresh
  have hmem := mem_of_mem_lastRun hc
  simp only [rejections, List.mem_filter, Bool.and_eq_true, decide_eq_true_eq] at hmem
  exact hmem.2.1.2

/-! ### Where the row is not the rejections as they were made -/

/-- The rejections of a provider, recorded or not. -/
def rejectedAt (p : String) (calls : List TooLarge) : List TooLarge :=
  calls.filter fun c => decide (c.provider = p) && decide (minLearnableCeiling ≤ c.estTokens)

/-- The calls began at most the lifetime apart. -/
def beganWithin (a b : TooLarge) : Bool := decide (b.now - a.now ≤ ceilingTtl)

/-- A tighter rejection whose statement fails is not learned; and of two calls begun exactly the lifetime
apart the second finds the first decayed, since it reads the clock again for its cutoff. -/
theorem ceiling_of_unrecorded_and_of_second_reading :
    (∃ calls, ceilingOf 2 (recordAll calls) "groq" = some 9000 ∧
      leastTokens (lastRun beganWithin (rejectedAt "groq" calls)) = some 5000) ∧
    ∃ calls, (∀ c ∈ calls, c.raised = false ∧ c.now ≤ c.cutoffNow) ∧
      ceilingOf (ceilingTtl + 2) (recordAll calls) "groq" = some 9000 ∧
      leastTokens (lastRun beganWithin (rejectedAt "groq" calls)) = some 5000 := by
  refine ⟨⟨[⟨"groq", 9000, 0, 0, false⟩, ⟨"groq", 5000, 1, 1, true⟩], ?_, ?_⟩,
    [⟨"groq", 5000, 0, 0, false⟩, ⟨"groq", 9000, ceilingTtl, ceilingTtl + 1, false⟩], ?_, ?_, ?_⟩
  · decide +kernel
  · decide +kernel
  · simp
  · decide +kernel
  · decide +kernel

end Broker.Providers
