import Broker.Lib.Double
import Broker.Lib.Recent

/-!
# Broker.Routing.Circuit — the timeout circuit breaker and what it remembers

Three maps of one worker process: the last timeout of each key, the same for each provider and scope, and the
last empty body of each key of a provider.  A note writes an entry; a query drops what left its window, of all
buckets, and answers from the rest.  `circuit_answers_history` says that the answers are those of the full
history of notes, whatever was queried in between.

Clock readings are doubles; an age is the rounded difference of two of them, as the source computes it.
-/

namespace Broker.Routing.Circuit

open Broker.Lib Broker.Lib.OrderedDict Broker.Lib.Recent

/-- `_TIMEOUT_MEMORY_S`. -/
def timeoutMemory : ℚ := 120

/-- `_EMPTY_MEMORY_S`. -/
def emptyMemory : ℚ := 600

/-- `now - ts < memory`. -/
@[irreducible] def within (memory now ts : ℚ) : Bool := decide (PyFloat.sub now ts < memory)

/-- A provider and the scope it was serving; `none` is the legacy bucket of the provider alone. -/
abbrev Bucket := String × Option String

/-- `_key_timeouts`, `_provider_timeouts` and `_provider_empties`. -/
structure Breaker where
  keyTimeouts : List (ℤ × ℚ) := []
  providerTimeouts : List (Bucket × List (ℤ × ℚ)) := []
  providerEmpties : List (String × List (ℤ × ℚ)) := []
  deriving DecidableEq

/-! ### The functions of the module -/

/-- `note_timeout`. -/
def noteTimeout (provider : String) (keyId : ℤ) (scope : Option String) (now : ℚ) (c : Breaker) : Breaker :=
  { c with
    keyTimeouts := setItem c.keyTimeouts keyId now
    providerTimeouts := setItem c.providerTimeouts (provider, scope)
      (setItem ((get c.providerTimeouts (provider, scope)).getD []) keyId now) }

/-- `recent_timeout_key_ids`. -/
def recentTimeoutKeyIds (now : ℚ) (c : Breaker) : Finset ℤ × Breaker :=
  let kept := prune (within timeoutMemory) now c.keyTimeouts
  ((kept.map Prod.fst).toFinset, { c with keyTimeouts := kept })

/-- `providers_in_timeout_storm`: every bucket is pruned, those of the scope are counted. -/
def providersInTimeoutStorm (minKeys : ℕ) (scope : Option String) (now : ℚ) (c : Breaker) :
    Finset String × Breaker :=
  let kept := pruneAll (within timeoutMemory) now c.providerTimeouts
  (((kept.filter fun e => e.1.2 = scope ∧ minKeys ≤ e.2.length).map fun e => e.1.1).toFinset,
    { c with providerTimeouts := kept })

/-- `note_empty_body`. -/
def noteEmptyBody (provider : String) (keyId : ℤ) (now : ℚ) (c : Breaker) : Breaker :=
  { c with
    providerEmpties := setItem c.providerEmpties provider
      (setItem ((get c.providerEmpties provider).getD []) keyId now) }

/-- `providers_in_empty_storm`. -/
def providersInEmptyStorm (minKeys : ℕ) (now : ℚ) (c : Breaker) : Finset String × Breaker :=
  let kept := pruneAll (within emptyMemory) now c.providerEmpties
  (((kept.filter fun e => minKeys ≤ e.2.length).map Prod.fst).toFinset, { c with providerEmpties := kept })

/-! ### Histories -/

/-- A call of the module. -/
inductive Call where
  | noteTimeout (provider : String) (keyId : ℤ) (scope : Option String)
  | noteEmptyBody (provider : String) (keyId : ℤ)
  | recentTimeoutKeyIds
  | providersInTimeoutStorm (minKeys : ℕ) (scope : Option String)
  | providersInEmptyStorm (minKeys : ℕ)
  deriving DecidableEq

def Call.isQuery : Call → Bool
  | .noteTimeout .. | .noteEmptyBody .. => false
  | _ => true

/-- The calls made so far, each with the clock it read. -/
abbrev Calls := List (Call × ℚ)

def step (c : Breaker) : Call × ℚ → Breaker
  | (.noteTimeout p k scope, now) => noteTimeout p k scope now c
  | (.noteEmptyBody p k, now) => noteEmptyBody p k now c
  | (.recentTimeoutKeyIds, now) => (recentTimeoutKeyIds now c).2
  | (.providersInTimeoutStorm n scope, now) => (providersInTimeoutStorm n scope now c).2
  | (.providersInEmptyStorm n, now) => (providersInEmptyStorm n now c).2

/-- The maps after the calls. -/
def after (h : Calls) : Breaker := h.foldl step {}

/-- No call reads an earlier clock than one before it, and none a later one than `now`. -/
def Clocked (h : Calls) (now : ℚ) : Prop := (h.map Prod.snd ++ [now]).Pairwise (· ≤ ·)

instance (h : Calls) (now : ℚ) : Decidable (Clocked h now) :=
  inferInstanceAs (Decidable (List.Pairwise (· ≤ ·) (h.map Prod.snd ++ [now])))

/-- The timeouts of the history, by key. -/
def keyTimeouts (h : Calls) : List (ℤ × ℚ) :=
  h.filterMap fun
    | (.noteTimeout _ k _, t) => some (k, t)
    | _ => none

/-- The timeouts of the history, by provider and scope, and key. -/
def providerTimeouts (h : Calls) : List ((Bucket × ℤ) × ℚ) :=
  h.filterMap fun
    | (.noteTimeout p k scope, t) => some (((p, scope), k), t)
    | _ => none

/-- The empty bodies of the history, by provider and key. -/
def providerEmpties (h : Calls) : List ((String × ℤ) × ℚ) :=
  h.filterMap fun
    | (.noteEmptyBody p k, t) => some ((p, k), t)
    | _ => none

/-- The key's latest timeout, whatever scope it served, is less than 120 s ago. -/
def RecentTimeout (h : Calls) (now : ℚ) (k : ℤ) : Prop :=
  ∃ t, lastNote (keyTimeouts h) k = some t ∧ PyFloat.sub now t < 120

/-- The key's latest timeout under the provider and the scope is less than 120 s ago. -/
def RecentTimeoutUnder (h : Calls) (now : ℚ) (b : Bucket) (k : ℤ) : Prop :=
  ∃ t, lastNote (ofBucket (providerTimeouts h) b) k = some t ∧ PyFloat.sub now t < 120

/-- The key's latest empty body is less than 600 s ago. -/
def RecentEmptyBody (h : Calls) (now : ℚ) (p : String) (k : ℤ) : Prop :=
  ∃ t, lastNote (ofBucket (providerEmpties h) p) k = some t ∧ PyFloat.sub now t < 600

/-- At least `n` distinct keys. -/
def AtLeast (n : ℕ) (P : ℤ → Prop) : Prop := ∃ ks : Finset ℤ, n ≤ ks.card ∧ ∀ k ∈ ks, P k

/-! ### The maps remember the history -/

theorem within_iff {memory now t : ℚ} : within memory now t = true ↔ PyFloat.sub now t < memory := by
  simp [within]

theorem fading_within {memory : ℚ} (hm : 0 < memory) : Fading (within memory) := by
  intro now now' t hle h
  rw [within_iff] at h ⊢
  by_cases hpos : 0 ≤ now' - t
  · exact lt_of_le_of_lt (PyFloat.roundDouble_mono hpos (by linarith)) h
  · exact lt_of_le_of_lt (PyFloat.roundDouble_nonpos (by linarith)) hm

theorem fading_timeout : Fading (within timeoutMemory) := fading_within (by norm_num [timeoutMemory])

theorem fading_empty : Fading (within emptyMemory) := fading_within (by norm_num [emptyMemory])

/-- From `now` on, the maps hold the fresh part of the history. -/
structure Remembers (now : ℚ) (c : Breaker) (h : Calls) : Prop where
  keys : Keeps (within timeoutMemory) now c.keyTimeouts (keyTimeouts h)
  timeouts : KeepsAll (within timeoutMemory) now c.providerTimeouts (providerTimeouts h)
  empties : KeepsAll (within emptyMemory) now c.providerEmpties (providerEmpties h)

theorem Remembers.later {now now' : ℚ} {c : Breaker} {h : Calls} (hc : Remembers now c h) (hle : now ≤ now') :
    Remembers now' c h :=
  ⟨hc.keys.later hle, hc.timeouts.later hle, hc.empties.later hle⟩

/-- One call: a note is written down, a query forgets only what will never be fresh again. -/
theorem Remembers.step {now : ℚ} {c : Breaker} {h : Calls} (hc : Remembers now c h) (call : Call) :
    Remembers now (step c (call, now)) (h ++ [(call, now)]) := by
  obtain ⟨hk, ht, he⟩ := hc
  cases call with
  | noteTimeout p k scope =>
    refine ⟨?_, ?_, ?_⟩
    · simpa [keyTimeouts, Circuit.step, noteTimeout] using hk.note k now
    · simpa [providerTimeouts, Circuit.step, noteTimeout] using ht.note (p, scope) k now
    · simpa [providerEmpties, Circuit.step, noteTimeout] using he
  | noteEmptyBody p k =>
    refine ⟨?_, ?_, ?_⟩
    · simpa [keyTimeouts, Circuit.step, noteEmptyBody] using hk
    · simpa [providerTimeouts, Circuit.step, noteEmptyBody] using ht
    · simpa [providerEmpties, Circuit.step, noteEmptyBody] using he.note p k now
  | recentTimeoutKeyIds =>
    refine ⟨?_, ?_, ?_⟩
    · simpa [keyTimeouts, Circuit.step, recentTimeoutKeyIds] using hk.prune fading_timeout
    · simpa [providerTimeouts, Circuit.step, recentTimeoutKeyIds] using ht
    · simpa [providerEmpties, Circuit.step, recentTimeoutKeyIds] using he
  | providersInTimeoutStorm n scope =>
    refine ⟨?_, ?_, ?_⟩
    · simpa [keyTimeouts, Circuit.step, providersInTimeoutStorm] using hk
    · simpa [providerTimeouts, Circuit.step, providersInTimeoutStorm] using ht.prune fading_timeout
    · simpa [providerEmpties, Circuit.step, providersInTimeoutStorm] using he
  | providersInEmptyStorm n =>
    refine ⟨?_, ?_, ?_⟩
    · simpa [keyTimeouts, Circuit.step, providersInEmptyStorm] using hk
    · simpa [providerTimeouts, Circuit.step, providersInEmptyStorm] using ht
    · simpa [providerEmpties, Circuit.step, providersInEmptyStorm] using he.prune fading_empty

theorem Clocked.init {h : Calls} {e : Call × ℚ} {now : ℚ} (hc : Clocked (h ++ [e]) now) :
    Clocked h e.2 ∧ e.2 ≤ now := by
  unfold Clocked at *
  rw [List.map_append, List.map_singleton] at hc
  obtain ⟨hinit, -, hlast⟩ := List.pairwise_append.mp hc
  exact ⟨hinit, hlast _ (by simp) _ (by simp)⟩

theorem Clocked.skip {us vs : Calls} {e : Call × ℚ} {now : ℚ} (hc : Clocked (us ++ e :: vs) now) :
    Clocked (us ++ vs) now := by
  refine List.Pairwise.sublist (List.Sublist.append_right (List.Sublist.map _ ?_) _) hc
  exact List.Sublist.append_left (List.sublist_cons_self e vs) us

/-- **Whatever was asked in between, the maps remember the history.** -/
theorem remembers_after {h : Calls} : ∀ {now : ℚ}, Clocked h now → Remembers now (after h) h := by
  induction h using List.reverseRecOn with
  | nil => exact fun {now} _ => ⟨Keeps.nil now, KeepsAll.nil now, KeepsAll.nil now⟩
  | append_singleton h e ih =>
    intro now hc
    obtain ⟨hinit, hle⟩ := hc.init
    have hstep := (ih hinit).step e.1
    rw [after, List.foldl_append]
    exact hstep.later hle

/-! ### The answers -/

section Answers

variable {h : Calls} {now : ℚ} (hc : Clocked h now)

include hc

theorem mem_recentTimeoutKeyIds (k : ℤ) :
    k ∈ (recentTimeoutKeyIds now (after h)).1 ↔ RecentTimeout h now k := by
  have hmem := (remembers_after hc).keys.mem_keys_prune k
  simp only [within_iff, timeoutMemory] at hmem
  rw [RecentTimeout, ← hmem]
  exact List.mem_toFinset

theorem mem_providersInTimeoutStorm (n : ℕ) (scope : Option String) (p : String) :
    p ∈ (providersInTimeoutStorm n scope now (after h)).1 ↔
      AtLeast (max n 1) (RecentTimeoutUnder h now (p, scope)) := by
  have hmem := (remembers_after hc).timeouts.exists_le_length (p, scope) n
  simp only [within_iff, timeoutMemory] at hmem
  rw [AtLeast]
  simp only [RecentTimeoutUnder]
  rw [← hmem]
  simp only [providersInTimeoutStorm, List.mem_toFinset, List.mem_map, List.mem_filter, decide_eq_true_eq]
  constructor
  · rintro ⟨⟨⟨p', scope'⟩, m⟩, ⟨hm, rfl, hn⟩, rfl⟩
    exact ⟨m, hm, hn⟩
  · rintro ⟨m, hm, hn⟩
    exact ⟨((p, scope), m), ⟨hm, rfl, hn⟩, rfl⟩

theorem mem_providersInEmptyStorm (n : ℕ) (p : String) :
    p ∈ (providersInEmptyStorm n now (after h)).1 ↔ AtLeast (max n 1) (RecentEmptyBody h now p) := by
  have hmem := (remembers_after hc).empties.exists_le_length p n
  simp only [within_iff, emptyMemory] at hmem
  rw [AtLeast]
  simp only [RecentEmptyBody]
  rw [← hmem]
  simp only [providersInEmptyStorm, List.mem_toFinset, List.mem_map, List.mem_filter, decide_eq_true_eq]
  constructor
  · rintro ⟨⟨p', m⟩, ⟨hm, hn⟩, rfl⟩
    exact ⟨m, hm, hn⟩
  · rintro ⟨m, hm, hn⟩
    exact ⟨(p, m), ⟨hm, hn⟩, rfl⟩

end Answers

/-- Two states that answer every query alike. -/
def SameAnswers (now : ℚ) (c c' : Breaker) : Prop :=
  (recentTimeoutKeyIds now c).1 = (recentTimeoutKeyIds now c').1 ∧
  (∀ n scope, (providersInTimeoutStorm n scope now c).1 = (providersInTimeoutStorm n scope now c').1) ∧
  ∀ n, (providersInEmptyStorm n now c).1 = (providersInEmptyStorm n now c').1

/-- The answers depend on the notes alone. -/
theorem sameAnswers_of_notes {h h' : Calls} {now : ℚ} (hc : Clocked h now) (hc' : Clocked h' now)
    (hk : keyTimeouts h = keyTimeouts h') (ht : providerTimeouts h = providerTimeouts h')
    (he : providerEmpties h = providerEmpties h') : SameAnswers now (after h) (after h') := by
  refine ⟨?_, fun n scope => ?_, fun n => ?_⟩
  · ext k
    rw [mem_recentTimeoutKeyIds hc, mem_recentTimeoutKeyIds hc', RecentTimeout, RecentTimeout, hk]
  · ext p
    rw [mem_providersInTimeoutStorm hc, mem_providersInTimeoutStorm hc']
    simp only [AtLeast, RecentTimeoutUnder, ht]
  · ext p
    rw [mem_providersInEmptyStorm hc, mem_providersInEmptyStorm hc']
    simp only [AtLeast, RecentEmptyBody, he]

theorem sameAnswers_skip_query {us vs : Calls} {q : Call × ℚ} {now : ℚ} (hq : q.1.isQuery = true)
    (hc : Clocked (us ++ q :: vs) now) : SameAnswers now (after (us ++ q :: vs)) (after (us ++ vs)) := by
  obtain ⟨call, t⟩ := q
  apply sameAnswers_of_notes hc hc.skip
  all_goals cases call <;> simp_all [Call.isQuery, keyTimeouts, providerTimeouts, providerEmpties]

/-- A timeout under one scope is not counted under another. -/
theorem storm_skip_scope {us vs : Calls} {p : String} {k : ℤ} {scope scope' : Option String} {t now : ℚ}
    (hne : scope ≠ scope') (hc : Clocked (us ++ (.noteTimeout p k scope, t) :: vs) now) (n : ℕ) :
    (providersInTimeoutStorm n scope' now (after (us ++ (.noteTimeout p k scope, t) :: vs))).1 =
      (providersInTimeoutStorm n scope' now (after (us ++ vs))).1 := by
  ext p'
  rw [mem_providersInTimeoutStorm hc, mem_providersInTimeoutStorm hc.skip]
  have hbucket : ofBucket (providerTimeouts (us ++ (.noteTimeout p k scope, t) :: vs)) (p', scope') =
      ofBucket (providerTimeouts (us ++ vs)) (p', scope') := by
    simp [ofBucket, providerTimeouts, hne]
  simp only [AtLeast, RecentTimeoutUnder, hbucket]

/-- **The breaker answers from the history.**  For calls with a clock that does not run backwards, a provider
storms for a scope when at least `n` of its keys last timed out under that scope within 120 s, a key is recent
when it last timed out under any scope within 120 s, and empty bodies storm likewise within 600 s; a query
changes no later answer and a timeout under one scope no storm of another. -/
theorem circuit_answers_history (h : Calls) (now : ℚ) (hc : Clocked h now) :
    (∀ n, 1 ≤ n → ∀ scope p, p ∈ (providersInTimeoutStorm n scope now (after h)).1 ↔
      AtLeast n (RecentTimeoutUnder h now (p, scope))) ∧
    (∀ k, k ∈ (recentTimeoutKeyIds now (after h)).1 ↔ RecentTimeout h now k) ∧
    (∀ n, 1 ≤ n → ∀ p, p ∈ (providersInEmptyStorm n now (after h)).1 ↔ AtLeast n (RecentEmptyBody h now p)) ∧
    (∀ us q vs, h = us ++ q :: vs → q.1.isQuery = true → SameAnswers now (after h) (after (us ++ vs))) ∧
    ∀ us p k scope t vs, h = us ++ (.noteTimeout p k scope, t) :: vs → ∀ n scope', scope ≠ scope' →
      (providersInTimeoutStorm n scope' now (after h)).1 =
        (providersInTimeoutStorm n scope' now (after (us ++ vs))).1 := by
  refine ⟨?_, mem_recentTimeoutKeyIds hc, ?_, ?_, ?_⟩
  · intro n hn scope p
    rw [mem_providersInTimeoutStorm hc, max_eq_left hn]
  · intro n hn p
    rw [mem_providersInEmptyStorm hc, max_eq_left hn]
  · rintro us q vs rfl hq
    exact sameAnswers_skip_query hq hc
  · rintro us p k scope t vs rfl n scope' hne
    exact storm_skip_scope hne hc n

/-- A self-hosted backend times out on two keys, with a query for the other backend in between. -/
def visionStorm : Calls :=
  [(.noteTimeout "local" 1 (some "llm:vision"), 0), (.providersInTimeoutStorm 2 (some "llm:audio"), 50),
    (.noteTimeout "local" 2 (some "llm:vision"), 100)]

theorem circuit_answers_visionStorm :
    "local" ∈ (providersInTimeoutStorm 2 (some "llm:vision") 110 (after visionStorm)).1 := by
  have hc : Clocked visionStorm 110 := by decide +kernel
  refine ((circuit_answers_history visionStorm 110 hc).1 2 (by omega) (some "llm:vision") "local").mpr ?_
  refine ⟨{1, 2}, by decide, fun k hk => ?_⟩
  rcases Finset.mem_insert.mp hk with rfl | hk
  · exact ⟨0, by decide +kernel, by decide +kernel⟩
  · obtain rfl := Finset.mem_singleton.mp hk
    exact ⟨100, by decide +kernel, by decide +kernel⟩

end Broker.Routing.Circuit
