import Broker.Lib.Ring
import Broker.Services.ContentVerdict

/-!
# Broker.Services.Rotation — which models the attempts of a step use

A step without a pin rotates over its provider's models: the attempts start one place further each time, and
each skips the models its key has cooling.  The skip is not remembered, so an attempt that skipped its place
lands where the next one starts.
-/

namespace Broker.Services

open Broker.Lib Broker.Db Broker.Routing

/-- `_rotate_model`, with what `cooled_models` returned; `none` when the lookup raised. -/
def rotateModel (lookup : Option (List String)) (pool : List String) (start : ℕ) : String :=
  if pool.length < 2 then pool.getD start ""
  else match lookup with
    | none => pool.getD start ""
    | some cooled =>
      match (List.range pool.length).find? fun i => pool.getD ((start + i) % pool.length) "" ∉ cooled with
      | some i => pool.getD ((start + i) % pool.length) ""
      | none => pool.getD start ""

/-- **The model `_rotate_model` returns** is the first from its start on that is not known to cool. -/
theorem rotateModel_spec (lookup : Option (List String)) {pool : List String} (hlen : 2 ≤ pool.length)
    (hfree : ∃ m ∈ pool, m ∉ lookup.getD []) (s : ℕ) :
    ∃ d, FirstFrom (· ∉ lookup.getD []) pool s d (rotateModel lookup pool (s % pool.length)) := by
  have hat : ∀ i, ringAt pool i = some (pool.getD (i % pool.length) "") := by
    intro i
    have hi : i % pool.length < pool.length := Nat.mod_lt _ (by omega)
    rw [ringAt, List.getD_eq_getElem?_getD, List.getElem?_eq_getElem hi]
    rfl
  obtain ⟨d, x, hx⟩ := exists_firstFrom hfree (s % pool.length)
  refine ⟨d, ?_⟩
  suffices heq : rotateModel lookup pool (s % pool.length) = x by
    rw [heq]
    exact hx.of_mod
  have hplace : pool.getD ((s % pool.length + d) % pool.length) "" = x := by
    have h := hx.place
    rw [hat] at h
    exact Option.some.inj h
  unfold rotateModel
  rw [if_neg (by omega)]
  cases lookup with
  | none =>
    obtain rfl : d = 0 := Nat.le_zero.mp (hx.le (hat _) (by simp))
    rw [Nat.add_zero, Nat.mod_mod] at hplace
    exact hplace
  | some cooled =>
    have hfind : (List.range pool.length).find?
        (fun i => decide (pool.getD ((s % pool.length + i) % pool.length) "" ∉ cooled)) = some d := by
      rw [List.find?_range_eq_some]
      refine ⟨?_, List.mem_range.mpr hx.lt_length, fun e he => ?_⟩
      · rw [hplace]
        exact decide_eq_true hx.accepted
      · have hcool := hx.passed e he _ (hat _)
        simpa using hcool
    simp only [hfind, hplace]

variable {π : Type}

/-- The replies of a walk whose lookups of cooling models return `lookups`, pass by pass. -/
def withLookups (lookups : ℕ → Option (List String)) (replies : ℕ → Reply π) (k : ℕ) : Reply π :=
  { replies k with rotate := rotateModel (lookups k) }

/-- The models the pass knows to cool for its key. -/
def WalkVisit.cooled (lookups : ℕ → Option (List String)) (v : WalkVisit π) : List String :=
  (lookups v.before.passes).getD []

/-- `rotation_base + attempt_in_provider`. -/
def WalkVisit.place (v : WalkVisit π) (key : PickedKey) : ℕ := v.before.rotationBase.getD key.id + v.turn

variable {env : ChatEnv} {finishBy : Time} {cap : ℕ} {replies : ℕ → Reply π}

/-! ### One attempt after the other -/

/-- The model and the rotation base of an attempt that rotates. -/
theorem chosen_of_pool {v : WalkVisit π} (hpin : v.step.model.getD "" = "")
    (hpool : env.modelPool v.step.provider v.step.model ≠ []) (key : PickedKey) :
    (v.chosen env key).1.rotationBase = some (v.before.rotationBase.getD key.id) ∧
      (v.chosen env key).2 = v.reply.rotate (env.modelPool v.step.provider v.step.model)
        (v.place key % (env.modelPool v.step.provider v.step.model).length) := by
  unfold WalkVisit.chosen useModel
  rw [if_neg (by simpa using hpin)]
  cases hmodel : env.modelFor v.step.provider with
  | none =>
    refine absurd ?_ hpool
    rw [ChatEnv.modelPool, if_neg (by simpa using hpin), hmodel]
  | some primary => exact ⟨rfl, rfl⟩

/-- What an attempt finds, after the attempts before it. -/
structure AttemptSpec (env : ChatEnv) (finishBy : Time) (cap : ℕ) (replies : ℕ → Reply π)
    (pre : List (WalkVisit π))
    (v : WalkVisit π) : Prop where
  reply : v.reply = replies v.before.passes
  follows : ∀ u, pre.getLast? = some u → u.idx = v.idx → v.turn = u.turn + 1 ∧
    ∀ key model, u.attempt env finishBy cap = some (key, model) →
      v.before.rotationBase = (u.chosen env key).1.rotationBase

theorem EachVisit.attempted_concat {P : List (WalkVisit π) → WalkVisit π → Prop} {vs : List (WalkVisit π)}
    {v : WalkVisit π}
    (h : EachVisit P (attempted env finishBy cap vs)) (hv : P (attempted env finishBy cap vs) v) :
    EachVisit P (attempted env finishBy cap (vs ++ [v])) := by
  cases hsome : (v.attempt env finishBy cap).isSome with
  | false => rwa [attempted_concat_of_none hsome]
  | true =>
    rw [attempted_concat_of_some hsome]
    exact h.concat hv

theorem mem_attempted_concat {vs : List (WalkVisit π)} {u v : WalkVisit π}
    (h : u ∈ attempted env finishBy cap (vs ++ [v])) : u ∈ attempted env finishBy cap vs ∨ u = v := by
  obtain ⟨hmem, hsome⟩ := List.mem_filter.mp h
  rcases List.mem_append.mp hmem with hmem | hmem
  · exact .inl (List.mem_filter.mpr ⟨hmem, hsome⟩)
  · exact .inr (List.mem_singleton.mp hmem)

/-- **The attempts of a step go round**: each is one turn behind the one before it, and shares its base. -/
theorem attemptSpec_walk (env : ChatEnv) (replies : ℕ → Reply π) (steps : List Step) (start : Time) :
    EachVisit (AttemptSpec env (start + env.wallBudget) (attemptBudget steps) replies)
      (walkAttempts env steps replies start) := by
  set finishBy := start + env.wallBudget with hfinish
  set cap := attemptBudget steps with hcap
  have hrule : WalkRule env finishBy cap replies steps
      (fun idx vs _ => EachVisit (AttemptSpec env finishBy cap replies) (attempted env finishBy cap vs) ∧
        ∀ u ∈ attempted env finishBy cap vs, u.idx < idx)
      (fun idx _ i vs s => EachVisit (AttemptSpec env finishBy cap replies) (attempted env finishBy cap vs) ∧
        (∀ u ∈ attempted env finishBy cap vs, u.idx ≤ idx) ∧
        ∀ u, (attempted env finishBy cap vs).getLast? = some u → u.idx = idx → i = u.turn + 1 ∧
          ∀ key model, u.attempt env finishBy cap = some (key, model) →
            s.rotationBase = (u.chosen env key).1.rotationBase)
      (fun vs _ _ => EachVisit (AttemptSpec env finishBy cap replies) (attempted env finishBy cap vs)) := {
    enter := by
      rintro idx st vs s hst ⟨hall, hlt⟩
      refine ⟨hall, fun u hu => (hlt u hu).le, fun u hu hidx => ?_⟩
      exact absurd hidx (hlt u (List.mem_of_getLast? hu)).ne
    next := by
      rintro idx st i vs s s' hst ⟨hall, hle, hlast⟩ hout
      obtain ⟨key, model, hatt, hbase⟩ : ∃ key model,
          (visitOf replies idx st i s).attempt env finishBy cap = some (key, model) ∧
            s'.rotationBase = ((visitOf replies idx st i s).chosen env key).1.rotationBase := by
        cases hout with
        | degrades hatt _ _ _ _ _ _ hbase => exact ⟨_, _, hatt, hbase⟩
        | nextKey hatt _ _ _ hbase => exact ⟨_, _, hatt, hbase⟩
      refine ⟨hall.attempted_concat ⟨rfl, hlast⟩, fun u hu => ?_, fun u hu hidx => ?_⟩
      · rcases mem_attempted_concat hu with hu | rfl
        · exact hle u hu
        · exact le_rfl
      · rw [attempted_concat_of_some (by rw [hatt]; rfl), List.getLast?_concat] at hu
        obtain rfl := Option.some.inj hu
        refine ⟨rfl, fun key' model' hatt' => ?_⟩
        obtain ⟨rfl, -⟩ := Prod.mk.inj (Option.some.inj (hatt.symm.trans hatt'))
        exact hbase
    leave := by
      rintro idx st i vs s s' hst ⟨hall, hle, hlast⟩ -
      refine ⟨hall.attempted_concat ⟨rfl, hlast⟩, fun u hu => ?_⟩
      rcases mem_attempted_concat hu with hu | rfl
      · exact Nat.lt_succ_of_le (hle u hu)
      · exact Nat.lt_succ_self _
    exhaust := fun idx st vs s _ h => ⟨h.1, fun u hu => Nat.lt_succ_of_le (h.2.1 u hu)⟩
    ends := fun idx st i vs s s' e _ h _ => h.1.attempted_concat ⟨rfl, h.2.2⟩
    walked := fun _ _ h => h.1 }
  exact hrule.walk ⟨by simpa [attempted] using EachVisit.nil _, by simp [attempted]⟩

/-! ### Rotation -/

/-- Two attempts of the step `idx`, the second right behind the first. -/
def Consecutive (attempts : List (WalkVisit π)) (idx : ℕ) (u v : WalkVisit π) : Prop :=
  u.idx = idx ∧ v.idx = idx ∧ ∃ pre post, attempts = pre ++ u :: v :: post

section Rotates

variable (env : ChatEnv) (steps : List Step) (replies : ℕ → Reply π) (lookups : ℕ → Option (List String))
  (start : Time)

/-- No attempt of the step uses a model cooling for its key, and consecutive ones use different models. -/
structure Rotates (idx : ℕ) : Prop where
  free : ∀ v ∈ walkAttempts env steps (withLookups lookups replies) start, v.idx = idx → ∀ key model,
    v.attempt env (start + env.wallBudget) (attemptBudget steps) = some (key, model) →
      model ∉ v.cooled lookups
  differ : ∀ u v, Consecutive (walkAttempts env steps (withLookups lookups replies) start) idx u v →
    ∀ key model key' model', u.attempt env (start + env.wallBudget) (attemptBudget steps) = some (key, model) →
      v.attempt env (start + env.wallBudget) (attemptBudget steps) = some (key', model') → model ≠ model'

/-- The step's attempts leave two models free. -/
def TwoFree (pool : List String) (idx : ℕ) : Prop :=
  ∀ v ∈ walkAttempts env steps (withLookups lookups replies) start, v.idx = idx →
    ∃ a ∈ pool, ∃ b ∈ pool, a ≠ b ∧ a ∉ v.cooled lookups ∧ b ∉ v.cooled lookups

end Rotates

theorem two_le_length {pool : List String} {a b : String} (ha : a ∈ pool) (hb : b ∈ pool) (hne : a ≠ b) :
    2 ≤ pool.length := by
  obtain ⟨i, hi, rfl⟩ := List.getElem_of_mem ha
  obtain ⟨j, hj, rfl⟩ := List.getElem_of_mem hb
  have hij : i ≠ j := by
    rintro rfl
    exact hne rfl
  omega

theorem Consecutive.mem {attempts : List (WalkVisit π)} {idx : ℕ} {u v : WalkVisit π}
    (h : Consecutive attempts idx u v) : u ∈ attempts ∧ v ∈ attempts := by
  obtain ⟨-, -, pre, post, rfl⟩ := h
  exact ⟨by simp, by simp⟩

section Attempts

variable {steps : List Step} {lookups : ℕ → Option (List String)} {start : Time} {idx : ℕ} {st : Step}
  (hst : steps[idx]? = some st) (hpin : st.model.getD "" = "")
  (htwo : TwoFree env steps replies lookups start (env.modelPool st.provider st.model) idx)

include hst in
theorem step_of_attempted {v : WalkVisit π}
    (hv : v ∈ walkAttempts env steps (withLookups lookups replies) start) (hidx : v.idx = idx) : v.step = st := by
  have hmem := step_of_visit (List.mem_of_mem_filter hv)
  rw [hidx, hst] at hmem
  exact (Option.some.inj hmem).symm

include hst hpin htwo

/-- The model of an attempt is the first free one from its place on. -/
theorem firstFrom_of_attempted {v : WalkVisit π}
    (hv : v ∈ walkAttempts env steps (withLookups lookups replies) start) (hidx : v.idx = idx)
    {key : PickedKey} {model : String}
    (hatt : v.attempt env (start + env.wallBudget) (attemptBudget steps) = some (key, model)) :
    ∃ d, FirstFrom (· ∉ v.cooled lookups) (env.modelPool st.provider st.model) (v.place key) d model := by
  obtain ⟨pre, post, hsplit⟩ := List.append_of_mem hv
  have hreply := (attemptSpec_walk env (withLookups lookups replies) steps start pre v post hsplit).reply
  obtain ⟨a, ha, b, hb, hne, hfa, -⟩ := htwo v hv hidx
  obtain ⟨d, hd⟩ := rotateModel_spec (lookups v.before.passes) (two_le_length ha hb hne) ⟨a, ha, hfa⟩
    (v.place key)
  have hstep := step_of_attempted hst hv hidx
  have hpin' : v.step.model.getD "" = "" := by
    rw [hstep]
    exact hpin
  have hpool : env.modelPool v.step.provider v.step.model ≠ [] := by
    rw [hstep]
    exact List.ne_nil_of_mem ha
  have hmodel := (chosen_of_pool hpin' hpool key).2
  rw [(WalkVisit.of_attempt hatt).2, hreply, hstep] at hmodel
  rw [hmodel]
  exact ⟨d, hd⟩

/-- Consecutive attempts of a step search one pool, the second from the next place on. -/
theorem place_of_consecutive {u v : WalkVisit π}
    (h : Consecutive (walkAttempts env steps (withLookups lookups replies) start) idx u v)
    {key : PickedKey} {model : String}
    (hatt : u.attempt env (start + env.wallBudget) (attemptBudget steps) = some (key, model))
    (key' : PickedKey) : v.place key' = u.place key + 1 := by
  have humem := h.mem.1
  obtain ⟨hu, hv, pre, post, hsplit⟩ := h
  have hsplit' : walkAttempts env steps (withLookups lookups replies) start = (pre ++ [u]) ++ v :: post := by
    simp [hsplit]
  have hspec := attemptSpec_walk env (withLookups lookups replies) steps start (pre ++ [u]) v post hsplit'
  obtain ⟨hturn, hbase⟩ := hspec.follows u List.getLast?_concat (hu.trans hv.symm)
  have hstep := step_of_attempted hst humem hu
  obtain ⟨a, ha, -⟩ := htwo u humem hu
  have hpin' : u.step.model.getD "" = "" := by
    rw [hstep]
    exact hpin
  have hpool : env.modelPool u.step.provider u.step.model ≠ [] := by
    rw [hstep]
    exact List.ne_nil_of_mem ha
  have hchosen := (chosen_of_pool hpin' hpool key).1
  rw [← hbase key model hatt] at hchosen
  rw [WalkVisit.place, hchosen, hturn, Option.getD_some, WalkVisit.place, Nat.add_assoc]

/-- **Consecutive attempts use the same model exactly when their searches meet.** -/
theorem eq_iff_meets {u v : WalkVisit π}
    (h : Consecutive (walkAttempts env steps (withLookups lookups replies) start) idx u v)
    {key key' : PickedKey} {model model' : String}
    (hatt : u.attempt env (start + env.wallBudget) (attemptBudget steps) = some (key, model))
    (hatt' : v.attempt env (start + env.wallBudget) (attemptBudget steps) = some (key', model')) :
    model = model' ↔ Meets (· ∉ u.cooled lookups) (· ∉ v.cooled lookups)
      (env.modelPool st.provider st.model) (u.place key) := by
  have hplace := place_of_consecutive hst hpin htwo h hatt key'
  obtain ⟨d, hd⟩ := firstFrom_of_attempted hst hpin htwo h.mem.1 h.1 hatt
  obtain ⟨d', hd'⟩ := firstFrom_of_attempted hst hpin htwo h.mem.2 h.2.1 hatt'
  rw [hplace] at hd'
  exact meet_iff hd hd' (htwo v h.mem.2 h.2.1)

end Attempts

/-- **When rotation rotates.**  For every step without a pin, every sequence of keys and every lookup
that leaves two models of the pool free: no attempt uses a model its key has cooling, and consecutive
attempts use different models if and only if no two consecutive ones meet: there is no model that both
keys have free, behind which stand, from the first attempt's place on, only models cooling for the first
key, or the same model again, and from the next place on only models cooling for the second key. -/
theorem rotation_iff (env : ChatEnv) (steps : List Step) (replies : ℕ → Reply π)
    (lookups : ℕ → Option (List String)) (start : Time) {idx : ℕ} {st : Step} (hst : steps[idx]? = some st)
    (hpin : st.model.getD "" = "")
    (htwo : TwoFree env steps replies lookups start (env.modelPool st.provider st.model) idx) :
    Rotates env steps replies lookups start idx ↔
      ∀ u v, Consecutive (walkAttempts env steps (withLookups lookups replies) start) idx u v →
        ∀ key model, u.attempt env (start + env.wallBudget) (attemptBudget steps) = some (key, model) →
          ¬ Meets (· ∉ u.cooled lookups) (· ∉ v.cooled lookups) (env.modelPool st.provider st.model)
            (u.place key) := by
  constructor
  · intro hrot u v hcons key model hatt hmeets
    obtain ⟨⟨key', model'⟩, hatt'⟩ := Option.isSome_iff_exists.mp (List.mem_filter.mp hcons.mem.2).2
    exact hrot.differ u v hcons key model key' model' hatt hatt'
      ((eq_iff_meets hst hpin htwo hcons hatt hatt').mpr hmeets)
  · intro hno
    refine ⟨fun v hv hidx key model hatt => ?_, fun u v hcons key model key' model' hatt hatt' heq => ?_⟩
    · obtain ⟨d, hd⟩ := firstFrom_of_attempted hst hpin htwo hv hidx hatt
      exact hd.accepted
    · exact hno u v hcons key model hatt ((eq_iff_meets hst hpin htwo hcons hatt hatt').mp heq)

/-! ### Two walks -/

/-- A provider with three models. -/
def threeModels : ChatEnv :=
  { capability := "chat:fast"
    modelFor := fun _ => some "a"
    rotationFor := fun _ => ["b", "c"]
    transportTimeout := fun _ => none }

/-- Two keys of it fail one after the other. -/
def twoKeys (k : ℕ) : Reply Unit :=
  { key := if k < 2 then some ⟨k + 3, .free⟩ else none
    result := { flow := .nextKey } }

/-- What is observed of the attempts: step, model, models known to cool. -/
def observed (lookups : ℕ → Option (List String)) : List (ℕ × Option String × List String) :=
  (walkAttempts threeModels [{ provider := "gemini" }] (withLookups lookups twoKeys) 0).map fun v =>
    (v.idx, (v.attempt threeModels (0 + threeModels.wallBudget)
      (attemptBudget [{ provider := "gemini" }])).map Prod.snd, v.cooled lookups)

theorem mem_observed {lookups : ℕ → Option (List String)} {v : WalkVisit Unit}
    (hv : v ∈ walkAttempts threeModels [{ provider := "gemini" }] (withLookups lookups twoKeys) 0) :
    (v.idx, (v.attempt threeModels (0 + threeModels.wallBudget)
      (attemptBudget [{ provider := "gemini" }])).map Prod.snd, v.cooled lookups) ∈ observed lookups :=
  List.mem_map_of_mem hv

/-- Nothing cools: the two attempts use two models. -/
theorem rotation_of_none_cooling :
    Rotates threeModels [{ provider := "gemini" }] twoKeys (fun _ => some []) 0 0 := by
  have hpool : threeModels.modelPool "gemini" none = ["a", "b", "c"] := by decide +kernel
  have hcooled : ∀ v : WalkVisit Unit, v.cooled (fun _ => some []) = [] := fun _ => rfl
  have hst : [({ provider := "gemini" } : Step)][0]? = some { provider := "gemini" } := rfl
  refine (rotation_iff threeModels [{ provider := "gemini" }] twoKeys (fun _ => some []) 0 hst rfl ?_).mpr ?_
  · intro v _ _
    rw [hcooled, hpool]
    exact ⟨"a", by simp, "b", by simp, by simp⟩
  · intro u v _ key model _
    rw [hcooled, hcooled, hpool]
    have hlt : u.place key % ["a", "b", "c"].length < ["a", "b", "c"].length := Nat.mod_lt _ (Nat.succ_pos 2)
    obtain ⟨x, hx⟩ : ∃ x, ringAt ["a", "b", "c"] (u.place key) = some x := ⟨_, List.getElem?_eq_getElem hlt⟩
    exact not_meets_of_nodup (by simp) hx (by simp)

/-- The first key has the first model cooling: its attempt skips to the second, where the next one starts. -/
theorem same_model_twice :
    TwoFree threeModels [{ provider := "gemini" }] twoKeys (fun k => if k = 0 then some ["a"] else some []) 0
        (threeModels.modelPool "gemini" none) 0 ∧
      ¬ Rotates threeModels [{ provider := "gemini" }] twoKeys
        (fun k => if k = 0 then some ["a"] else some []) 0 0 := by
  have hpool : threeModels.modelPool "gemini" none = ["a", "b", "c"] := by decide +kernel
  have hobs : observed (fun k => if k = 0 then some ["a"] else some []) =
      [(0, some "b", ["a"]), (0, some "b", [])] := by decide +kernel
  refine ⟨fun v hv _ => ?_, fun hrot => ?_⟩
  · have hmem := mem_observed hv
    rw [hobs] at hmem
    rw [hpool]
    refine ⟨"b", by simp, "c", by simp, by simp, ?_⟩
    rcases List.mem_cons.mp hmem with heq | hmem
    · rw [(Prod.mk.inj (Prod.mk.inj heq).2).2]
      simp
    · rw [(Prod.mk.inj (Prod.mk.inj (List.mem_singleton.mp hmem)).2).2]
      simp
  · have hlen := congrArg List.length hobs
    rw [observed, List.length_map] at hlen
    obtain ⟨u, v, huv⟩ := List.length_eq_two.mp hlen
    rw [observed, huv] at hobs
    obtain ⟨hu, hrest⟩ := List.cons.inj hobs
    obtain ⟨hv, -⟩ := List.cons.inj hrest
    obtain ⟨huidx, humodel, -⟩ := by simpa only [Prod.mk.injEq] using hu
    obtain ⟨hvidx, hvmodel, -⟩ := by simpa only [Prod.mk.injEq] using hv
    obtain ⟨⟨key, model⟩, hatt, hmodel⟩ := Option.map_eq_some_iff.mp humodel
    obtain ⟨⟨key', model'⟩, hatt', hmodel'⟩ := Option.map_eq_some_iff.mp hvmodel
    exact hrot.differ u v ⟨huidx, hvidx, [], [], huv⟩ key model key' model' hatt hatt'
      (hmodel.trans hmodel'.symm)

end Broker.Services
